import Adb.Host.Smart

namespace Adb.Host

open Adb.Lib

variable {st mid after : Server} {a b l p t : Nat} {s q s' : ASocket} {B : Prop}

section Callees

theorem enqueue_local (hs : st.socks p = some q) (hlocal : q.ops.isLocal = true) (bytes : Bytes) :
    enqueue st p bytes = localSocketEnqueue st p bytes :=
  enqueueWithin_local 1 st p q bytes hs hlocal

theorem enqueue_remote (hs : st.socks p = some q) (hops : q.ops = .remoteSocket) (bytes : Bytes) :
    enqueue st p bytes = remoteSocketEnqueue st p bytes := by
  simp only [enqueue, enqueueWithin, Server.deref_some hs, bind, Except.bind, hops]

theorem enqueue_smart (hs : st.socks p = some q) (hops : q.ops = .smartSocket) (bytes : Bytes) :
    enqueue st p bytes = smartSocketEnqueue (enqueueWithin 1) st p bytes := by
  simp only [enqueue, enqueueWithin, Server.deref_some hs, bind, Except.bind, hops]

theorem enqueue_tracker (hs : st.socks p = some q) (hops : q.ops = .deviceTracker) (bytes : Bytes) :
    enqueue st p bytes = deviceTrackerEnqueue st p := by
  simp only [enqueue, enqueueWithin, Server.deref_some hs, bind, Except.bind, hops]

theorem remoteSocketEnqueue_ensures (hq : st.socks p = some q) (hback : q.peer = some a)
    (hs : st.socks a = some s) (bytes : Bytes) :
    Ensures (remoteSocketEnqueue st p bytes) (fun result => ∃ t,
      result = (1, st.note (.sent t ⟨A_WRTE, s.id, q.id, bytes⟩ (some (a, p))))) Benign := by
  unfold remoteSocketEnqueue
  refine (ensures_bind_ok (Server.deref_some hq)).mpr ?_
  rw [hback]
  refine (ensures_bind_ok (Server.deref_some hs)).mpr ?_
  refine (sendPacket_ensures _ _ _ _).bind ?_
  rintro _ ⟨t, -, rfl⟩
  exact ⟨t, rfl⟩

theorem deviceTrackerEnqueue_ensures (h : Graph st) (hq : st.socks p = some q)
    (hops : q.ops = .deviceTracker) :
    Ensures (deviceTrackerEnqueue st p) (fun result => result.1 = -1 ∧ Closed st p q result.2)
      Benign := by
  unfold deviceTrackerEnqueue close
  rw [← closeWithin_tracker hq hops]
  exact (closeInner_spec h hq (by rw [hops]; rfl) 2).bind fun after hc => ⟨rfl, hc⟩

end Callees

section Read

-- Nothing is pending on the socket while its callback runs, and reading is
-- wanted. The data of a tracker's client leads nowhere, so there it does not
-- matter.
def Poised (st : Server) (a : Nat) : Prop :=
  ∀ s p q, st.socks a = some s → s.peer = some p → st.socks p = some q → q.ops ≠ .deviceTracker →
    s.fde.events = 0 ∧ s.fde.wantsRead = true

theorem readLoop_length (avail : Nat) (reads : List ReadOutcome) :
    (readLoop avail reads).bytes.length ≤ avail := by
  induction avail, reads using readLoop.induct with
  | case1 reads => simp [readLoop]
  | case2 avail => simp [readLoop]
  | case3 avail bytes reads got hgot => simp [readLoop, show bytes.take (avail + 1) = [] from hgot]
  | case4 avail bytes reads got hgot ih =>
      have hgot' : ¬bytes.take (avail + 1) = [] := hgot
      simp only [readLoop, hgot', if_false, List.length_append]
      have hlen : (bytes.take (avail + 1)).length ≤ avail + 1 := List.length_take_le _ _
      have hih : (readLoop (avail + 1 - (bytes.take (avail + 1)).length) reads).bytes.length ≤
          avail + 1 - (bytes.take (avail + 1)).length := ih
      omega
  | case5 avail reads => simp [readLoop]
  | case6 avail reads ih => simpa [readLoop] using ih
  | case7 avail reads => simp [readLoop]

theorem logRead_moves (h : Graph st) (a : Nat) : Moves B st (logRead st a) := by
  unfold logRead
  split
  · exact Moves.refl st
  · exact Moves.note h trivial

theorem logRead_some (hs : st.socks a = some s) : logRead st a = st := by
  simp [logRead, hs]

theorem logRead_socks (st : Server) (a : Nat) : (logRead st a).socks = st.socks := by
  unfold logRead
  split <;> rfl

-- The socket has the peer that is called.
structure Calls (st : Server) (a b : Nat) (s q : ASocket) : Prop where
  graph : Graph st
  caller : st.socks a = some s
  islocal : s.ops.isLocal = true
  peer : s.peer = some b
  callee : st.socks b = some q
  back : q.peer = some a

theorem Calls.not_closing (h : Calls st a b s q) : s.closing = false := by
  by_contra hc
  have hnone := (h.graph.peers.parked a s h.caller (by simpa using hc)).2.1
  rw [h.peer] at hnone
  cases hnone

theorem Calls.ne (h : Calls st a b s q) : b ≠ a := (h.graph.peers.back a s b h.caller h.peer).1

theorem Calls.client (h : Calls st a b s q) (hops : q.ops = .smartSocket) : Client st b a q s :=
  ⟨h.graph, h.callee, hops, h.back, h.caller, h.peer⟩

-- What local_socket_event_func does with the value of the call.
def afterCall (a : Nat) (outcome : ReadEnd) (result : Int × Server) : Except Stop Server :=
  let st := logRead result.2 a
  let finish := fun st : Server => do
    let _ ← st.deref a
    if outcome = .eof then close st a else .ok st
  if result.1 < 0 then
    .ok st
  else if result.1 > 0 then do
    let s ← st.deref a
    finish (st.put a { s with fde := fdeventDel s.fde FDE_READ })
  else
    finish st

-- Reading is given up; nothing being pending, no read event stays behind.
theorem tended_asleep (hquiet : s.closing = false → s.fde.events = 0) : Tended s s.asleep where
  ops := rfl
  peer := rfl
  closing := rfl
  wants := by
    intro hw
    simp only [ASocket.asleep, Fdevent.wantsRead_del, Bool.and_eq_true] at hw
    exact hw.1
  sound := fun hc _ => Fdevent.readSound_del_quiet (hquiet hc)

theorem Moves.asleep (h : Graph st) (hs : st.socks a = some s) (hlocal : s.ops.isLocal = true)
    (hquiet : s.closing = false → s.fde.events = 0) : Moves B st (st.put a s.asleep) :=
  Moves.tend h hs (tended_asleep hquiet)
    ((roleOf_local hlocal).trans (roleOf_local (s := s) hlocal).symm)
    fun hc => (h.peers.parked a s hs hc).2.2

-- The client of a smart socket that has forwarded its request stops reading.
theorem Forwarded.move (hf : Forwarded st a l s q after) (hs : st.socks l = some s)
    (hsl : s.ops.isLocal = true) (hp : s.peer = some a) (hq : st.socks a = some q) (hops : q.ops = .smartSocket)
    (hquiet : s.fde.events = 0) {waiting : ASocket} (hw : after.socks l = some waiting) :
    Move B st (after.put l waiting.asleep) := by
  have hwaiting : waiting =
      { s with ops := .localSocketNotify, peer := none, transport := q.transport } := by
    rw [hf.socks, Function.update_self, Option.some.injEq] at hw
    exact hw.symm
  obtain ⟨rest, hlog, hplain⟩ := hf.log
  have hlocal : waiting.ops.isLocal = true := by rw [hwaiting]; rfl
  constructor
  · refine .forward l a s q waiting.asleep rest hs hsl hp hq hops (by rw [hwaiting]; rfl)
      (by rw [hwaiting]; rfl) ?_ ?_ hplain ⟨?_, ?_, ?_, ?_⟩
    · simp [ASocket.asleep, FDE_READ]
    · refine Fdevent.readSound_del_quiet ?_
      rw [hwaiting]
      exact hquiet
    · simp [Server.put, hf.socks]
    · simp [Server.put, hf.nextSocket]
    · simp [Server.put, hlog]
    · simp [Server.put, hf.script]
  · exact hf.graph.put_local hw hlocal rfl rfl rfl (fun hc => (hf.graph.peers.parked l waiting hw hc).2.2)

-- The end of the callback.
theorem readFinish_ensures {eof : Prop} [Decidable eof] (hmoves : Moves B st mid) (hgraph : Graph mid) :
    Ensures (do let _ ← mid.deref a; if eof then close mid a else .ok mid) (Moves B st) Benign := by
  refine (deref_ensures mid a).bind fun s hs => ?_
  split
  · exact (close_ensures hgraph hs).weaken fun after he => hmoves.trans he.moves
  · exact hmoves

theorem afterCall_closed {outcome : ReadEnd} (hmoves : Moves B st mid) (hgraph : Graph mid) :
    Ensures (afterCall a outcome (-1, mid)) (Moves B st) Benign :=
  hmoves.trans (logRead_moves hgraph a)

theorem afterCall_taken {outcome : ReadEnd} (hmoves : Moves B st mid) (hgraph : Graph mid) :
    Ensures (afterCall a outcome (0, mid)) (Moves B st) Benign :=
  have hlog := logRead_moves (B := B) hgraph a
  readFinish_ensures (hmoves.trans hlog) (hlog.graph hgraph)

-- Reading is given up where the socket is still there.
theorem afterCall_asleep {outcome : ReadEnd} (hs : mid.socks a = some s)
    (hmoves : Moves B st (mid.put a s.asleep)) (hgraph : Graph (mid.put a s.asleep)) :
    Ensures (afterCall a outcome (1, mid)) (Moves B st) Benign := by
  simp only [afterCall, logRead_some hs]
  refine (ensures_bind_ok (Server.deref_some hs)).mpr ?_
  exact readFinish_ensures hmoves hgraph

-- After the call the reader is untouched, or parked behind its peer.
theorem LocalEnqueued.reader {bytes : Bytes} {result : Int × Server} (he : LocalEnqueued B st p q bytes result)
    (h : Calls st a p s q) (hquiet : s.fde.events = 0) (hs' : result.2.socks a = some s') :
    s'.ops.isLocal = true ∧ (s'.closing = false → s'.fde.events = 0) := by
  cases hf : writeFails q bytes st.script.writes with
  | true =>
      obtain ⟨-, hsocks⟩ := he.fails hf
      rw [hsocks, h.back, Function.update_of_ne h.ne.symm] at hs'
      simp only [severed, Function.update_self, h.caller, Option.bind_some] at hs'
      obtain ⟨hlocal, -, -⟩ := alone_fate s s' hs'
      refine ⟨hlocal, fun hc => ?_⟩
      unfold fate at hs'
      split at hs'
      · cases hs'
        cases hc
      · cases hs'
  | false =>
      obtain ⟨q', -, -, hsocks⟩ := he.kept hf
      rw [hsocks, Function.update_of_ne h.ne.symm, h.caller, Option.some.injEq] at hs'
      subst hs'
      exact ⟨h.islocal, fun _ => hquiet⟩

theorem readCall_local {outcome : ReadEnd} (h : Calls mid a p s q) (hops : q.ops.isLocal = true)
    (hquiet : s.fde.events = 0) (hmoves : Moves B st mid) (bytes : Bytes) :
    Ensures (enqueue mid p bytes >>= afterCall a outcome) (Moves B st) Benign := by
  rw [enqueue_local h.callee hops]
  refine (localSocketEnqueue_ensures (B := B) h.graph h.callee hops bytes).bind ?_
  rintro ⟨r, x⟩ he
  have hx := hmoves.trans he.moves
  rcases he.code with hr | hr <;> simp only at hr <;> subst hr
  · exact afterCall_taken hx he.graph
  · have hlog := logRead_moves (B := B) he.graph a
    have hgx := hlog.graph he.graph
    simp only [afterCall]
    refine (deref_ensures (logRead x a) a).bind fun s' hs' => ?_
    have hreader := he.reader h hquiet (logRead_socks x a ▸ hs')
    have hput := Moves.asleep (B := B) hgx hs' hreader.1 hreader.2
    exact readFinish_ensures ((hx.trans hlog).trans hput) (hput.graph hgx)

theorem readCall_smart {outcome : ReadEnd} (h : Calls mid a p s q) (hops : q.ops = .smartSocket)
    (hquiet : s.fde.events = 0) (hmoves : Moves B st mid) (bytes : Bytes) :
    Ensures (enqueue mid p bytes >>= afterCall a outcome) (Moves B st) Benign := by
  have hclient := h.client hops
  rw [enqueue_smart h.callee hops]
  refine (smartSocketEnqueue_ensures (B := B) (enqueueWithin_local 0) hclient bytes).bind ?_
  intro result he
  generalize smartCourse mid q bytes = course at he
  cases he with
  | waits x moves kept => exact afterCall_taken (hmoves.trans moves) (moves.graph h.graph)
  | serves x moves stays => exact afterCall_taken (hmoves.trans moves) (moves.graph h.graph)
  | tracks x buffer moves listed fails stays =>
      exact afterCall_taken (hmoves.trans moves) (moves.graph h.graph)
  | closes x moves ended => exact afterCall_closed (hmoves.trans moves) (moves.graph h.graph)
  | forwards middle x q' moves graph smart ops client forwarded =>
      have hxs : x.socks a = some { s with
          ops := .localSocketNotify, peer := none, transport := q'.transport } := by
        rw [forwarded.socks, Function.update_self]
      have hmove := forwarded.move (B := B) client h.islocal h.peer smart ops hquiet hxs
      exact afterCall_asleep hxs ((hmoves.trans moves).trans hmove.moves) hmove.graph

theorem readCall_tracker {outcome : ReadEnd} (h : Calls mid a p s q) (hops : q.ops = .deviceTracker)
    (hmoves : Moves B st mid) (bytes : Bytes) :
    Ensures (enqueue mid p bytes >>= afterCall a outcome) (Moves B st) Benign := by
  rw [enqueue_tracker h.callee hops]
  refine (deviceTrackerEnqueue_ensures h.graph h.callee hops).bind ?_
  rintro ⟨r, x⟩ ⟨hr, hc⟩
  simp only at hr hc
  subst hr
  have hended := hc.ended (B := B) h.callee (by simp [hops])
  exact afterCall_closed (hmoves.trans hended.moves) hc.graph

-- The data goes to the device, and the read and the packet are one move.
theorem readCall_remote (hs : st.socks a = some s) (h : Calls mid a p s q) (hops : q.ops = .remoteSocket)
    (hquiet : s.fde.events = 0) (hwants : s.fde.wantsRead = true) {result : ReadResult}
    (hresult : result = readLoop MAX_PAYLOAD st.script.reads) (hbytes : result.bytes ≠ [])
    (hmid : mid = ({ st with
      script := { st.script with reads := result.reads } }.note (.read a s.peer result.bytes))) :
    Ensures (enqueue mid p result.bytes >>= afterCall a result.outcome) (Moves B st) Benign := by
  rw [enqueue_remote h.callee hops]
  refine (remoteSocketEnqueue_ensures h.callee h.back h.caller result.bytes).bind ?_
  rintro _ ⟨t, rfl⟩
  obtain ⟨sent, hsent⟩ : ∃ sent, sent =
    mid.note (.sent t ⟨A_WRTE, s.id, q.id, result.bytes⟩ (some (a, p))) := ⟨_, rfl⟩
  rw [← hsent]
  have hsocks : mid.socks = st.socks := by rw [hmid]; rfl
  have hss : sent.socks a = some s := by rw [hsent]; exact h.caller
  have hgraph : Graph sent := by
    rw [hsent]
    exact h.graph.note _
  have hput : Graph (sent.put a s.asleep) := hgraph.put_local hss h.islocal rfl rfl rfl
    (fun hc => (hgraph.peers.parked a s hss hc).2.2)
  refine afterCall_asleep hss (Move.moves ⟨.carry a p t s q ⟨A_WRTE, s.id, q.id, result.bytes⟩ hs h.peer
    (hsocks ▸ h.callee) hops hwants (Fdevent.readSound_del_quiet hquiet) rfl hbytes ?_ ⟨?_, ?_, ?_, ?_⟩, hput⟩) hput
  · rw [hresult]
    exact readLoop_length _ _
  · rw [hsent, hmid]; rfl
  · rw [hsent, hmid]; rfl
  · simp [hsent, hmid, Server.put, Server.note, h.peer]
  · rw [hsent, hmid]
    exact fun _ hok => hok

theorem eventRead_ensures (h : Graph st) (hpoised : Poised st a) (hlocal : ∀ s,
    st.socks a = some s → s.ops.isLocal = true) :
    Ensures (eventRead st a) (Moves B st) Benign := by
  unfold eventRead
  refine (deref_ensures st a).bind fun s hs => ?_
  simp only
  split
  · exact benign_blocked
  obtain ⟨result, hresult⟩ : ∃ result, result = readLoop MAX_PAYLOAD st.script.reads := ⟨_, rfl⟩
  simp only [← hresult]
  obtain ⟨mid, hmid⟩ : ∃ mid, mid = ({ st with
    script := { st.script with reads := result.reads } }.note (.read a s.peer result.bytes)) := ⟨_, rfl⟩
  rw [← hmid]
  have hgraph : Graph mid := by
    rw [hmid]
    exact h.congr rfl rfl rfl rfl (.of_eq rfl)
  have hsocks : mid.socks = st.socks := by rw [hmid]; rfl
  have hother : (result.bytes ≠ [] → ∀ p q, s.peer = some p → st.socks p = some q →
      q.ops ≠ .remoteSocket) → Moves B st mid := by
    intro hrest
    refine Move.moves ⟨.readOther a s result.bytes hs hrest ⟨hsocks, ?_, ?_, ?_⟩, hgraph⟩
    · rw [hmid]; rfl
    · rw [hmid]; rfl
    · rw [hmid]; exact fun _ hok => hok
  cases hp : s.peer with
  | none => exact readFinish_ensures (hother (by simp [hp])) hgraph
  | some p =>
      obtain ⟨-, q, hq, hback⟩ := h.peers.back a s p hs hp
      simp only
      by_cases hbytes : result.bytes = []
      · rw [if_pos hbytes]
        exact readFinish_ensures (hother fun hne => absurd hbytes hne) hgraph
      rw [if_neg hbytes]
      have hcalls : Calls mid a p s q :=
        ⟨hgraph, hsocks ▸ hs, hlocal s hs, hp, hsocks ▸ hq, hback⟩
      have hread : q.ops ≠ .remoteSocket → Moves B st mid := by
        intro hne
        refine hother fun _ p' q' hp' hq' => ?_
        obtain rfl : p = p' := Option.some.inj (hp.symm.trans hp')
        rw [hq, Option.some.injEq] at hq'
        exact hq' ▸ hne
      change Ensures (enqueue mid p result.bytes >>= afterCall a result.outcome) _ _
      cases hops : q.ops with
      | localSocketNotify => exact absurd hops (h.peers.not_notify hq (by simp [hback]))
      | localSocket =>
          have hquiet := (hpoised s p q hs hp hq (by simp [hops])).1
          exact readCall_local hcalls (by rw [hops]; rfl) hquiet (hread (by simp [hops])) _
      | remoteSocket =>
          obtain ⟨hquiet, hwants⟩ := hpoised s p q hs hp hq (by simp [hops])
          exact readCall_remote hs hcalls hops hquiet hwants hresult hbytes hmid
      | smartSocket =>
          have hquiet := (hpoised s p q hs hp hq (by simp [hops])).1
          exact readCall_smart hcalls hops hquiet (hread (by simp [hops])) _
      | deviceTracker => exact readCall_tracker hcalls hops (hread (by simp [hops])) _

end Read

section Write

-- The fd takes the whole queue of a socket that has no peer to be told.
def DrainsUnconnected (s : ASocket) (writes : List WriteOutcome) : Prop :=
  s.closing = false ∧ s.peer = none ∧ (drainQueue s.pkts writes).outcome = .done

instance (s : ASocket) (writes : List WriteOutcome) : Decidable (DrainsUnconnected s writes) :=
  inferInstanceAs (Decidable (_ ∧ _ ∧ _))

theorem drainQueue_left (pkts : List Bytes) (writes : List WriteOutcome)
    (h : (drainQueue pkts writes).outcome ≠ .done) : (drainQueue pkts writes).pkts ≠ [] := by
  induction pkts generalizing writes with
  | nil => exact absurd rfl h
  | cons p pkts ih =>
      unfold drainQueue at h ⊢
      simp only at h ⊢
      split
      · rename_i hdone
        rw [if_pos hdone] at h
        exact ih _ h
      · simp

-- A parked socket is destroyed whatever its queue holds.
theorem localSocketDestroy_put (hs : st.socks a = some s) (x : ASocket) :
    localSocketDestroy (st.put a x) a = localSocketDestroy st a := by
  have hput : (st.put a x).socks a = some x := by simp [Server.put]
  have hlive : ∀ r, ((st.put a x).note (.closedFd a)).live r = (st.note (.closedFd a)).live r := by
    intro r
    cases r with
    | socket b => by_cases hb : b = a <;> simp [Server.live, Server.put, Server.note, hb, hs]
    | _ => rfl
  have hputn : ((st.put a x).note (.closedFd a)).socks a = some x := hput
  have hsn : (st.note (.closedFd a)).socks a = some s := hs
  have hlinks : ((st.put a x).note (.closedFd a)).links = st.links := rfl
  have hlinks' : (st.note (.closedFd a)).links = st.links := rfl
  simp only [localSocketDestroy, removeSocket, Server.deref_some hput, Server.deref_some hs,
    Server.deref_some hputn, Server.deref_some hsn, bind, Except.bind, hlive, hlinks, hlinks']
  cases hprev : st.links.prev (.socket a) with
  | none => simp [Server.free, Server.put, Server.note, pure, Except.pure]
  | some p =>
      cases hnext : st.links.next (.socket a) with
      | none => simp [Server.free, Server.put, Server.note, pure, Except.pure]
      | some n =>
          by_cases hl : (st.note (.closedFd a)).live p = true ∧ (st.note (.closedFd a)).live n = true
          · simp only [if_pos hl]
            cases hunlink : st.links.unlink (.socket a) <;>
              simp [Server.free, Server.put, Server.note, pure, Except.pure]
          · simp only [if_neg hl]

theorem closeLocked_put (hs : st.socks a = some s) (hc : s.closing = true) (hp : s.peer = none)
    (x : ASocket) (hx : x.closing = true) (hxp : x.peer = none)
    (closeAgain : Server → Nat → Except Stop Server) :
    localSocketCloseLocked closeAgain (st.put a x) a = localSocketCloseLocked closeAgain st a := by
  have hput : (st.put a x).socks a = some x := by simp [Server.put]
  rw [closeLocked_alone hput hxp, closeLocked_alone hs hp]
  simp only [localSocketFinish, Server.deref_some hput, Server.deref_some hs, bind, Except.bind, hx, hc,
    true_or, if_true]
  exact localSocketDestroy_put hs x

theorem close_put (hs : st.socks a = some s) (hlocal : s.ops.isLocal = true) (hc : s.closing = true)
    (hp : s.peer = none) {x : ASocket} (hxops : x.ops = s.ops) (hxc : x.closing = true)
    (hxp : x.peer = none) : close (st.put a x) a = close st a := by
  have hput : (st.put a x).socks a = some x := by simp [Server.put]
  unfold close
  cases hops : s.ops with
  | localSocket =>
      rw [closeWithin_local hput (hxops.trans hops), closeWithin_local hs hops]
      exact closeLocked_put hs hc hp x hxc hxp _
  | localSocketNotify =>
      rw [closeWithin_notify hput (hxops.trans hops), closeWithin_notify hs hops]
      unfold localSocketCloseNotify
      simp only [Server.deref_some hput, Server.deref_some hs, bind, Except.bind]
      unfold Server.writeStatus
      simp only [Server.put, Function.update_idem]
      cases st.script.statuses with
      | nil => rfl
      | cons ok rest =>
          -- the two states differ in the parked socket only
          obtain ⟨told, htold⟩ : ∃ told : Server, told = ({ st with
            socks := Function.update st.socks a (some { s with ops := .localSocket }),
            script := { st.script with statuses := rest } }.note
              (.status a (.fail "closed") ok)) := ⟨_, rfl⟩
          have hts : told.socks a = some { s with ops := .localSocket } := by simp [htold, Server.note]
          have hsame := closeLocked_put hts hc hp { x with ops := .localSocket } hxc hxp (closeWithin 2)
          rw [htold] at hsame
          simpa [Server.put, Server.note] using hsame
  | _ => simp [hops, Ops.isLocal] at hlocal

-- What the write part leaves to the read part.
structure WriteDone (B : Prop) (st : Server) (a : Nat) (reads : Prop) (result : Bool × Server) :
    Prop where
  moves : Moves B st result.2
  graph : Graph result.2
  poised : result.1 = true → reads → Poised result.2 a
  islocal : result.1 = true → ∀ s, result.2.socks a = some s → s.ops.isLocal = true

-- A close ends the callback.
theorem close_writeDone {reads : Prop} (hmoves : Moves B st mid) (hgraph : Graph mid) (hs : mid.socks a = some s) :
    Ensures (do let st ← close mid a; return (false, st)) (WriteDone B st a reads) Benign := by
  refine (close_ensures (B := B) hgraph hs).bind fun after he => ?_
  exact ⟨hmoves.trans he.moves, he.graph, by simp, by simp⟩

-- The client of a tracker that has been made ready keeps its ops and its peer, if it is
-- still there.
theorem TrackerReady.client (h : TrackerReady B st p q a s after) (hs : st.socks a = some s)
    (hp : s.peer = some p) (hq : st.socks p = some q) (hpa : p ≠ a) (hs' : after.socks a = some s') :
    s'.ops = s.ops ∧ s'.peer = some p ∧ ∃ q', after.socks p = some q' ∧ q'.ops = q.ops := by
  cases hneeded : q.updateNeeded with
  | false =>
      rw [h.idle hneeded, hs, Option.some.injEq] at hs'
      subst hs'
      exact ⟨rfl, hp, q, by rw [h.idle hneeded, hq], rfl⟩
  | true =>
      obtain ⟨buffer, result, -, rfl, hsent⟩ := h.sent hneeded
      cases hf : writeFails s buffer (st.put p { q with updateNeeded := false }).script.writes with
      | true =>
          rw [(hsent.fails hf).2, Function.update_self] at hs'
          cases hs'
      | false =>
          obtain ⟨s'', htended, -, hsocks⟩ := hsent.kept hf
          rw [hsocks, Function.update_self, Option.some.injEq] at hs'
          subst hs'
          refine ⟨htended.ops, htended.peer.trans hp, { q with updateNeeded := false }, ?_, rfl⟩
          rw [hsocks, Function.update_of_ne hpa]
          simp [Server.put]

theorem eventWrite_ensures (h : Graph st) (hs : st.socks a = some s) (hlocal : s.ops.isLocal = true)
    (hquiet : s.fde.events = 0) {reads : Prop} (hwants : reads → s.closing = false →
      s.fde.wantsRead = true) :
    Ensures (eventWrite st a) (WriteDone B st a reads) (fun stop => Benign stop ∨
      (stop = .nullPeer .eventFunc ∧ DrainsUnconnected s st.script.writes)) := by
  unfold eventWrite
  refine (ensures_bind_ok (Server.deref_some hs)).mpr ?_
  obtain ⟨result, hresult⟩ : ∃ result, result = drainQueue s.pkts st.script.writes := ⟨_, rfl⟩
  simp only [← hresult]
  obtain ⟨mid, hmid⟩ : ∃ mid, mid = ({ st with
    script := { st.script with writes := result.writes } }.note (.wrote a result.written)) := ⟨_, rfl⟩
  have hput : ∀ x, (({ st with script := { st.script with writes := result.writes } }.put a x).note
      (.wrote a result.written)) = mid.put a x := by
    intro x
    rw [hmid]
    rfl
  rw [hput]
  have hgraph : Graph mid := by
    rw [hmid]
    exact h.congr rfl rfl rfl rfl (.of_eq rfl)
  have hm : mid.socks a = some s := by rw [hmid]; exact hs
  have hmoves : Moves B st mid := by
    refine Move.moves ⟨.quiet [.wrote a result.written] (by simp [Event.IsPlain]) ⟨?_, ?_, ?_, ?_⟩, hgraph⟩
    all_goals rw [hmid]
    · rfl
    · rfl
    · rfl
    · exact fun _ hok => hok
  have hleft : result.outcome ≠ .done → result.pkts ≠ [] := by
    rw [hresult]
    exact drainQueue_left _ _
  have htend : result.outcome ≠ .done → Moves B mid (mid.put a { s with pkts := result.pkts }) :=
    fun hne => Moves.tend hgraph hm ⟨rfl, rfl, rfl, id, fun _ hr => hr⟩
      ((roleOf_local hlocal).trans (roleOf_local (s := s) hlocal).symm) fun _ => hleft hne
  cases hout : result.outcome with
  | blocked => exact Or.inl benign_blocked
  | again =>
      have ht := htend (by simp [hout])
      exact ⟨hmoves.trans ht, ht.graph hgraph, by simp, by simp⟩
  | failed =>
      have ht := htend (by simp [hout])
      have hparked : (mid.put a { s with pkts := result.pkts }).socks a =
          some { s with pkts := result.pkts } := by simp [Server.put]
      exact (close_writeDone (hmoves.trans ht) (ht.graph hgraph) hparked).mono fun _ => Or.inl
  | done =>
      simp only
      by_cases hclosing : s.closing = true
      · have hnone := (h.peers.parked a s hs hclosing).2.1
        rw [if_pos hclosing, close_put (x := { s with pkts := result.pkts }) hm hlocal hclosing hnone rfl
          hclosing hnone]
        exact (close_writeDone hmoves hgraph hm).mono fun _ => Or.inl
      · rw [if_neg hclosing]
        have hopen : s.closing = false := by simpa using hclosing
        cases hp : s.peer with
        | none => exact Or.inr ⟨rfl, hopen, hp, by rw [← hresult, hout]⟩
        | some p =>
            obtain ⟨hpa, q, hq, hback⟩ := h.peers.back a s p hs hp
            obtain ⟨s', hs'⟩ : ∃ s' : ASocket, s' = { s with pkts := [], fde := fdeventDel s.fde FDE_WRITE } :=
              ⟨_, rfl⟩
            have hover : ∀ x, (mid.put a x).put a s' = mid.put a s' := by simp [Server.put]
            simp only [hp] at hs' ⊢
            rw [← hs', hover]
            have hread : s'.fde.wantsRead = s.fde.wantsRead := by
              rw [hs']
              simp [FDE_WRITE]
            have htended : Tended s s' := by
              refine ⟨by rw [hs'], by rw [hs', hp], by rw [hs'], fun hw => hread ▸ hw, fun _ hr => ?_⟩
              rw [hs']
              exact Fdevent.readSound_del hr (by simp [FDE_WRITE])
            have hlocal' : s'.ops.isLocal = true := by rw [htended.ops]; exact hlocal
            have ht := Moves.tend (B := B) hgraph hm htended
              ((roleOf_local hlocal').trans (roleOf_local hlocal).symm) (fun hc => absurd hc hclosing)
            have hgt := ht.graph hgraph
            have hts : (mid.put a s').socks a = some s' := by simp [Server.put]
            have htq : (mid.put a s').socks p = some q := by
              rw [hmid]
              simp [Server.put, Server.note, hpa, hq]
            have hpeer : s'.peer = some p := htended.peer.trans hp
            have hready := readyWith_ensures (B := B) (enqueueWithin_local 1) hgt hts hlocal'
              hpeer htq
            change Ensures (do let st ← readyWith (enqueueWithin 2) (mid.put a s') p; return (true, st)) _ _
            cases hr : readyWith (enqueueWithin 2) (mid.put a s') p with
            | error e => exact Or.inl (hready.of_error hr)
            | ok after =>
                have hdone := hready.of_ok hr
                have hclient : q.ops = .deviceTracker → ∀ x, after.socks a = some x →
                    x.ops = s'.ops ∧ x.peer = some p ∧ ∃ q', after.socks p = some q' ∧ q'.ops = q.ops :=
                  fun hops x hx => (hdone.tracked hops).client hts hpeer htq hpa hx
                refine ⟨(hmoves.trans ht).trans hdone.moves, hdone.graph, fun _ hreads => ?_, fun _ x hx => ?_⟩
                · intro x p' q' hx hp' hq' hnot
                  by_cases hops : q.ops = .deviceTracker
                  · obtain ⟨-, hpx, q'', hq'', htracker⟩ := hclient hops x hx
                    obtain rfl : p = p' := Option.some.inj (hpx.symm.trans hp')
                    rw [hq', Option.some.injEq] at hq''
                    exact absurd ((hq'' ▸ htracker).trans hops) hnot
                  · rw [hdone.kept hops, Option.some.injEq] at hx
                    subst hx
                    refine ⟨?_, hread.trans (hwants hreads hopen)⟩
                    rw [hs']
                    exact events_set_zero hquiet
                · by_cases hops : q.ops = .deviceTracker
                  · rw [(hclient hops x hx).1]
                    exact hlocal'
                  · rw [hdone.kept hops, Option.some.injEq] at hx
                    exact hx ▸ hlocal'

end Write

end Adb.Host
