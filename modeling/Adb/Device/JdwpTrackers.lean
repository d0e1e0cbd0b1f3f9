import Adb.Client.Connect
import Adb.Device.JdwpQueue

namespace Adb.Device

open Adb.Lib
open Adb.Host (Bytes MAX_PAYLOAD hex4 unhex)

def UPDATE_SIZE : Nat := 1024

-- The line of a process.
def pidLine (pid : Int) : Bytes := printInt pid ++ [10]

-- jdwp_process_list, for the PIDs on the list. The room is what lies between p and
-- end, and a line that leaves none of it for the NUL is the end of the loop.
def jdwpProcessList : List Int → Nat → Bytes
  | [], _ => []
  | pid :: pids, room =>
      -- transient connections are skipped
      if pid < 0 then
        jdwpProcessList pids room
      else if room ≤ (pidLine pid).length then
        []
      else
        pidLine pid ++ jdwpProcessList pids (room - (pidLine pid).length)

def jdwpProcessListMsg (pids : List Int) (bufferlen : Nat) : Bytes :=
  hex4 (jdwpProcessList pids (bufferlen - 4)).length ++ jdwpProcessList pids (bufferlen - 4)

-- The PIDs of the processes on the list, each of which is looked at.
def jdwpPids (st : JdwpState) : List Nat → Except JdwpFault (List Int)
  | [] => .ok []
  | p :: rest =>
      match st.heap p with
      | none => .error .freed
      | some proc => (jdwpPids st rest).map fun pids => proc.pid :: pids

-- A tracker is its number in the order of creation. The log has what the trackers
-- have given to their peers, which are remote sockets and send it on.
structure Adbd where
  jdwp : JdwpState
  trackers : List Nat
  needUpdate : Nat → Bool
  fresh : Nat
  log : List (Nat × Bytes)

def adbdInit : Adbd := ⟨jdwpInit, [], fun _ => false, 0, []⟩

namespace Adbd

def jdwpProcessListUpdated (ad : Adbd) : Except JdwpFault Adbd := do
  let pids ← jdwpPids ad.jdwp ad.jdwp.jdwpList
  let buffer := jdwpProcessListMsg pids UPDATE_SIZE
  return { ad with log := ad.log ++ ad.trackers.map fun t => (t, buffer) }

-- What is done for FDE_WRITE. A process that is gone has been through jdwp_process_free,
-- which ends with jdwp_process_list_updated.
def processWrite (ad : Adbd) (p : Nat) (proc : JdwpProcess) (calls : EventCalls) : Except JdwpFault Adbd :=
  let jdwp := jdwpWrite ad.jdwp p proc calls
  if (jdwp.heap p).isNone then jdwpProcessListUpdated { ad with jdwp } else .ok { ad with jdwp }

-- jdwp_process_event: the list goes out when a PID has been read, too.
def processEvent (ad : Adbd) (p : Nat) (calls : EventCalls) : Except JdwpFault Adbd :=
  match ad.jdwp.heap p with
  | none => .error .freed
  | some proc =>
      match if calls.read then jdwpRead proc calls.recvs else .goesOn proc with
      | .returns proc => .ok { ad with jdwp := ad.jdwp.put p (some proc) }
      | .closeProcess proc => jdwpProcessListUpdated { ad with jdwp := jdwpProcessFree ad.jdwp p proc }
      | .goesOn proc => do
          let here : Adbd := { ad with jdwp := ad.jdwp.put p (some proc) }
          let here ← if calls.read then here.jdwpProcessListUpdated else .ok here
          if calls.write then here.processWrite p proc calls else return here

def jdwpTrackerReady (ad : Adbd) (t : Nat) : Except JdwpFault Adbd :=
  if ad.needUpdate t then do
    let pids ← jdwpPids ad.jdwp ad.jdwp.jdwpList
    return { ad with
      needUpdate := Function.update ad.needUpdate t false
      log := ad.log ++ [(t, jdwpProcessListMsg pids MAX_PAYLOAD)] }
  else
    .ok ad

def createJdwpTrackerServiceSocket (ad : Adbd) : Adbd :=
  { ad with
    trackers := ad.trackers ++ [ad.fresh]
    needUpdate := Function.update ad.needUpdate ad.fresh true
    fresh := ad.fresh + 1 }

def jdwpTrackerClose (ad : Adbd) (t : Nat) : Adbd := { ad with trackers := ad.trackers.erase t }

-- The peer is closed, and its close function closes the tracker.
def jdwpTrackerEnqueue (ad : Adbd) (t : Nat) : Adbd := ad.jdwpTrackerClose t

end Adbd

-- What happens in adbd: something on the sockets of the processes, A_OPEN for
-- track-jdwp, which makes the tracker ready at once, or an A_OKAY, an A_WRTE or the
-- end of the stream for a tracker that is there.
inductive AdbdCall where
  | control (allocs : Bool)
  | event (p : Nat) (calls : EventCalls)
  | create (pid : Int) (pairs : Bool)
  | track
  | ready (t : Nat)
  | enqueue (t : Nat)
  | close (t : Nat)

def adbdStep (ad : Adbd) : AdbdCall → Except JdwpFault Adbd
  | .control allocs => .ok { ad with jdwp := jdwpControlEvent ad.jdwp allocs }
  | .event p calls => ad.processEvent p calls
  | .create pid pairs => (createJdwpConnectionFd ad.jdwp pid pairs).map fun r => { ad with jdwp := r.2 }
  | .track => ad.createJdwpTrackerServiceSocket.jdwpTrackerReady ad.fresh
  | .ready t => if t ∈ ad.trackers then ad.jdwpTrackerReady t else .ok ad
  | .enqueue t => .ok (ad.jdwpTrackerEnqueue t)
  | .close t => .ok (ad.jdwpTrackerClose t)

-- The processes that have said who they are, in the order in which they have come.
def knownPids (st : JdwpState) : List Int :=
  (st.jdwpList.filterMap fun p => (st.heap p).map (·.pid)).filter (0 ≤ ·)

-- What a tracker has given to its peer, packet by packet.
def sentTo (log : List (Nat × Bytes)) (t : Nat) : List Bytes :=
  log.filterMap fun entry => if entry.1 = t then some entry.2 else none

section Text

variable {pids : List Int} {room : Nat}

theorem jdwpProcessList_known (pids : List Int) (room : Nat) :
    jdwpProcessList (pids.filter (0 ≤ ·)) room = jdwpProcessList pids room := by
  induction pids generalizing room with
  | nil => rfl
  | cons pid pids ih =>
      by_cases hpid : pid < 0
      · have hnot : ¬0 ≤ pid := by omega
        rw [List.filter_cons_of_neg (by simpa using hnot), ih, jdwpProcessList, if_pos hpid]
      · have hknown : 0 ≤ pid := by omega
        rw [List.filter_cons_of_pos (by simpa using hknown)]
        simp only [jdwpProcessList, if_neg hpid, ih]

theorem jdwpProcessListMsg_known (pids : List Int) (size : Nat) :
    jdwpProcessListMsg (pids.filter (0 ≤ ·)) size = jdwpProcessListMsg pids size := by
  simp only [jdwpProcessListMsg, jdwpProcessList_known]

-- The NUL behind the text has its place, too.
theorem length_jdwpProcessList (pids : List Int) (hroom : 0 < room) :
    (jdwpProcessList pids room).length < room := by
  induction pids generalizing room with
  | nil => exact hroom
  | cons pid pids ih =>
      unfold jdwpProcessList
      split
      · exact ih hroom
      · split
        · exact hroom
        · have hrest := @ih (room - (pidLine pid).length) (by omega)
          rw [List.length_append]
          omega

-- All lines are there if there is room for them.
theorem jdwpProcessList_all (hknown : ∀ pid ∈ pids, 0 ≤ pid)
    (hroom : (pids.flatMap pidLine).length < room) :
    jdwpProcessList pids room = pids.flatMap pidLine := by
  induction pids generalizing room with
  | nil => rfl
  | cons pid pids ih =>
      have hpid := hknown pid (List.mem_cons_self ..)
      rw [List.flatMap_cons, List.length_append] at hroom
      rw [jdwpProcessList, if_neg (by omega), if_neg (by omega),
        ih (fun q hq => hknown q (List.mem_cons_of_mem _ hq)) (by omega), List.flatMap_cons]

theorem length_digitsWithin_of_lt {k : Nat} (fuel n : Nat) (hk : 0 < k) (hn : n < 10 ^ k) :
    (digitsWithin fuel n).length ≤ k := by
  induction fuel generalizing n k with
  | zero => exact Nat.zero_le k
  | succ fuel ih =>
      rw [digitsWithin, List.length_append]
      split
      · exact hk
      · have hmore : 1 < k := by
          by_contra hone
          have hk1 : k = 1 := by omega
          subst hk1
          omega
        obtain ⟨j, rfl⟩ : ∃ j, k = j + 1 := ⟨k - 1, by omega⟩
        have hrest := @ih j (n / 10) (by omega) (by rw [Nat.pow_succ] at hn; omega)
        simp only [List.length_singleton]
        omega

theorem length_pidLine {pid : Int} (hknown : 0 ≤ pid) (hsmall : pid < 65536) : (pidLine pid).length ≤ 6 := by
  have hdigits := length_digitsWithin_of_lt (k := 5) 10 pid.natAbs (by decide) (by omega)
  rw [pidLine, printInt, if_neg (by omega), List.length_append, List.length_singleton]
  omega

-- 169 processes are listed in full in the smaller of the two buffers.
theorem length_lines (hknown : ∀ pid ∈ pids, 0 ≤ pid ∧ pid < 65536) :
    (pids.flatMap pidLine).length ≤ 6 * pids.length := by
  induction pids with
  | nil => exact Nat.le_refl 0
  | cons pid pids ih =>
      have hpid := hknown pid (List.mem_cons_self ..)
      have hline := length_pidLine hpid.1 hpid.2
      have hrest := ih fun q hq => hknown q (List.mem_cons_of_mem _ hq)
      rw [List.flatMap_cons, List.length_append, List.length_cons]
      omega

-- Four hex digits that say how much comes behind them, and no more than a packet holds.
structure Framed (message : Bytes) : Prop where
  length : unhex (message.take 4) = some (message.length - 4)
  short : message.length ≤ MAX_PAYLOAD

theorem framed_msg {size : Nat} (pids : List Int) (hmin : 4 < size) (hmax : size ≤ MAX_PAYLOAD) :
    Framed (jdwpProcessListMsg pids size) := by
  have htext := length_jdwpProcessList pids (show 0 < size - 4 by omega)
  have hhead : ∀ n, (hex4 n).length = 4 := fun _ => rfl
  simp only [MAX_PAYLOAD] at hmax
  constructor
  · rw [jdwpProcessListMsg, List.take_append_of_le_length (by rw [hhead]), List.take_of_length_le (by rw [hhead]),
      Client.unhex_hex4 (by omega), List.length_append, hhead]
    congr 1
    omega
  · rw [jdwpProcessListMsg, List.length_append, hhead]
    simp only [MAX_PAYLOAD]
    omega

end Text

section Processes

variable {st : JdwpState} {p : Nat} {proc proc' : JdwpProcess}

theorem jdwpPids_there {list : List Nat} (h : ∀ p ∈ list, (st.heap p).isSome = true) :
    jdwpPids st list = .ok (list.filterMap fun p => (st.heap p).map (·.pid)) := by
  induction list with
  | nil => rfl
  | cons p list ih =>
      obtain ⟨proc, hproc⟩ := Option.isSome_iff_exists.mp (h p (List.mem_cons_self ..))
      have hrest := ih fun q hq => h q (List.mem_cons_of_mem _ hq)
      simp only [jdwpPids, hproc, hrest, Except.map, List.filterMap_cons, Option.map_some]

-- A process that keeps its PID changes nothing of what is known.
theorem knownPids_put (hproc : st.heap p = some proc) (hpid : proc'.pid = proc.pid) :
    knownPids (st.put p (some proc')) = knownPids st := by
  have hsame : ∀ q, ((st.put p (some proc')).heap q).map (·.pid) = (st.heap q).map (·.pid) := by
    intro q
    by_cases hq : q = p
    · subst hq
      simp [JdwpState.put, hproc, hpid]
    · simp [JdwpState.put, hq]
  simp only [knownPids, hsame]
  rfl

-- A process that has just come has not said anything.
theorem knownPids_control (h : Listed st) (allocs : Bool) :
    knownPids (jdwpControlEvent st allocs) = knownPids st := by
  cases allocs with
  | false => rfl
  | true =>
      have hold : ∀ q ∈ st.jdwpList, Function.update st.heap st.fresh
          (some ⟨-1, st.created, [], List.replicate MAX_OUT_FDS 0, 0⟩) q = st.heap q := by
        intro q hq
        have hlt := h.born q hq
        exact Function.update_of_ne (by omega) ..
      have hlist : (st.jdwpList.filterMap fun q => (Function.update st.heap st.fresh
          (some ⟨-1, st.created, [], List.replicate MAX_OUT_FDS 0, 0⟩) q).map (·.pid)) =
          st.jdwpList.filterMap fun q => (st.heap q).map (·.pid) := by
        apply List.filterMap_congr
        intro q hq
        rw [hold q hq]
      simp only [knownPids, jdwpControlEvent, if_true, JdwpState.put, List.filterMap_append, hlist,
        List.filter_append]
      simp

-- Either the process is gone or it has the PID that it has had.
theorem knownPids_write (hproc : st.heap p = some proc) (calls : EventCalls)
    (hthere : ((jdwpWrite st p proc calls).heap p).isNone = false) :
    knownPids (jdwpWrite st p proc calls) = knownPids st := by
  have hgone : ∀ (st : JdwpState) (proc : JdwpProcess), ((jdwpProcessFree st p proc).heap p).isNone = true := by
    intro st proc
    simp [jdwpProcessFree, JdwpState.put]
  unfold jdwpWrite at hthere ⊢
  split at hthere
  · rfl
  · rename_i fd rest hqueue
    split at hthere
    · rw [hgone] at hthere
      cases hthere
    · rename_i hcalls
      simp only at hthere ⊢
      split at hthere
      · rw [hgone] at hthere
        cases hthere
      · rename_i hrestores
        rw [if_neg hcalls, if_neg hrestores]
        have hlogged : (st.logged [.sent p fd, .closed fd]).heap p = some proc := hproc
        have hshifted : knownPids ((st.logged [.sent p fd, .closed fd]).put p (some proc.shifted)) =
            knownPids st := knownPids_put hlogged rfl
        have hshort : ((st.logged [.sent p fd, .closed fd]).put p (some proc.shifted)).heap p =
            some proc.shifted := Function.update_self ..
        refine (knownPids_put hshort ?_).trans hshifted
        rfl

-- The PIDs are numbers of four hex digits.
def SmallPids (st : JdwpState) : Prop := ∀ p proc, st.heap p = some proc → proc.pid < 65536

theorem SmallPids.put (h : SmallPids st) (p : Nat) (proc : JdwpProcess) (hpid : proc.pid < 65536) :
    SmallPids (st.put p (some proc)) := by
  intro q other hother
  by_cases hq : q = p
  · subst hq
    simp only [JdwpState.put, Function.update_self, Option.some.injEq] at hother
    exact hother ▸ hpid
  · simp only [JdwpState.put, Function.update_of_ne hq] at hother
    exact h q other hother

theorem SmallPids.free (h : SmallPids st) (p : Nat) (proc : JdwpProcess) :
    SmallPids (jdwpProcessFree st p proc) := by
  intro q other hother
  by_cases hq : q = p
  · subst hq
    simp [jdwpProcessFree, JdwpState.put] at hother
  · simp only [jdwpProcessFree, JdwpState.put, Function.update_of_ne hq] at hother
    exact h q other hother

theorem SmallPids.control (h : SmallPids st) (allocs : Bool) : SmallPids (jdwpControlEvent st allocs) := by
  cases allocs with
  | false => exact h
  | true =>
      have hnew : (-1 : Int) < 65536 := by decide
      exact h.put st.fresh ⟨-1, st.created, [], List.replicate MAX_OUT_FDS 0, 0⟩ hnew

theorem SmallPids.write (h : SmallPids st) (hpid : proc.pid < 65536) (p : Nat) (calls : EventCalls) :
    SmallPids (jdwpWrite st p proc calls) := by
  unfold jdwpWrite
  split
  · exact h
  · rename_i fd rest hqueue
    have hlogged : SmallPids (st.logged [.sent p fd, .closed fd]) := h
    split
    · exact h.free p proc
    · dsimp only
      split
      · exact (hlogged.put p proc.shifted hpid).free p _
      · exact (hlogged.put p proc.shifted hpid).put p { proc.shifted with outCount := proc.outCount - 1 } hpid

theorem hexValue_lt {c : UInt8} {n : Nat} (h : hexValue c = some n) : n < 16 := by
  unfold hexValue isDecimal at h
  split at h
  · rename_i hdecimal
    simp only [Bool.and_eq_true, decide_eq_true_eq, UInt8.le_iff_toNat_le] at hdecimal
    have h57 : (57 : UInt8).toNat = 57 := rfl
    obtain rfl := Option.some.inj h
    omega
  · split at h
    · rename_i hlower
      simp only [UInt8.le_iff_toNat_le] at hlower
      have h102 : (102 : UInt8).toNat = 102 := rfl
      obtain rfl := Option.some.inj h
      omega
    · split at h
      · rename_i hupper
        simp only [UInt8.le_iff_toNat_le] at hupper
        have h70 : (70 : UInt8).toNat = 70 := rfl
        obtain rfl := Option.some.inj h
        omega
      · cases h

theorem hexFold_lt (digits : List UInt8) (n k : Nat) (hn : n < 16 ^ k) :
    digits.foldl (fun n c => 16 * n + (hexValue c).getD 0) n < 16 ^ (k + digits.length) := by
  induction digits generalizing n k with
  | nil => exact hn
  | cons c digits ih =>
      have hdigit : (hexValue c).getD 0 < 16 := by
        cases hc : hexValue c with
        | none => decide
        | some m => exact hexValue_lt hc
      have hnext : 16 * n + (hexValue c).getD 0 < 16 ^ (k + 1) := by
        rw [Nat.pow_succ]
        omega
      have hrest := ih _ (k + 1) hnext
      rw [List.foldl_cons, List.length_cons]
      rwa [show k + (digits.length + 1) = k + 1 + digits.length by omega]

theorem scanHexDigits_lt {s : List UInt8} {n : Nat} (hs : s.length ≤ 4) (h : scanHexDigits s = some n) :
    n < 65536 := by
  have hfold : ∀ digits : List UInt8, digits.length ≤ 4 →
      digits.foldl (fun n c => 16 * n + (hexValue c).getD 0) 0 < 65536 := by
    intro digits hlen
    have hlt := hexFold_lt digits 0 0 (by decide)
    have hpow : 16 ^ (0 + digits.length) ≤ 16 ^ 4 := Nat.pow_le_pow_right (by decide) (by omega)
    omega
  have htake : ∀ s : List UInt8, s.length ≤ 4 →
      (s.takeWhile fun c => (hexValue c).isSome).length ≤ 4 := by
    intro s hs
    have hprefix := (List.takeWhile_prefix (l := s) fun c => (hexValue c).isSome).length_le
    omega
  unfold scanHexDigits at h
  simp only at h
  split at h
  · cases h
  · obtain rfl := Option.some.inj h
    apply hfold
    split
    · exact htake _ (by simp only [List.length_cons] at hs; omega)
    · exact htake _ (by simp only [List.length_cons] at hs; omega)
    · exact htake _ hs

theorem scanPid_lt {temp : List UInt8} {pid : Int} (h : scanPid temp = some pid) : pid < 65536 := by
  have hlen : (((temp.takeWhile (· ≠ 0)).dropWhile isSpace).take 4).length ≤ 4 := List.length_take_le 4 _
  unfold scanPid at h
  split at h
  · rename_i rest heq
    cases hn : scanHexDigits rest with
    | none =>
        rw [hn] at h
        cases h
    | some n =>
        rw [hn] at h
        obtain rfl : -(n : Int) = pid := Option.some.inj h
        omega
  · rename_i rest heq
    cases hn : scanHexDigits rest with
    | none =>
        rw [hn] at h
        cases h
    | some n =>
        rw [hn] at h
        obtain rfl : (n : Int) = pid := Option.some.inj h
        have hlt := scanHexDigits_lt (by rw [heq, List.length_cons] at hlen; omega) hn
        omega
  · cases hn : scanHexDigits (((temp.takeWhile (· ≠ 0)).dropWhile isSpace).take 4) with
    | none =>
        rw [hn] at h
        cases h
    | some n =>
        rw [hn] at h
        obtain rfl : (n : Int) = pid := Option.some.inj h
        have hlt := scanHexDigits_lt hlen hn
        omega

-- What comes out of jdwpRead keeps its PID, or has a new one.
theorem jdwpRead_pid (proc : JdwpProcess) (recvs : List Recv) :
    match jdwpRead proc recvs with
    | .returns proc' => proc'.pid = proc.pid
    | .closeProcess _ => True
    | .goesOn proc' => proc'.pid < 65536 := by
  unfold jdwpRead
  by_cases hpid : proc.pid < 0
  · rw [if_pos hpid]
    obtain ⟨bytes, ending⟩ := recvPid (4 - proc.inBuff.length) recvs
    cases ending with
    | again => rfl
    | broken => trivial
    | complete =>
        dsimp only
        cases hscan : scanPid (proc.inBuff ++ bytes) with
        | none => trivial
        | some pid => exact scanPid_lt hscan
  · rw [if_neg hpid]
    by_cases hends : recvEnds recvs = true
    · rw [if_pos hends]
      trivial
    · rw [if_neg hends]

end Processes

end Adb.Device
