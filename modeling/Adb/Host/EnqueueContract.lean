import Adb.Host.SocketGraph

namespace Adb.Host

open Adb.Lib

variable {st mid after : Server} {a b : Nat} {s q : ASocket} {p : Bytes} {r : Int}

section Calls

-- The call of the peer's enqueue that the read part of the event function makes:
-- the state it is made in, the peer and the packet.
def readCall (st : Server) (a : Nat) : Option (Server × Nat × Bytes) :=
  match st.socks a with
  | none => none
  | some s =>
      let result := readLoop MAX_PAYLOAD st.script.reads
      if result.outcome = .blocked ∨ result.bytes = [] then
        none
      else
        s.peer.map fun b =>
          ({ st with script := { st.script with reads := result.reads } }.note
            (.read a s.peer result.bytes), b, result.bytes)

def eventCall (st : Server) (a : Nat) (events : BitVec 16) : Option (Server × Nat × Bytes) :=
  match (if firesWrite events then eventWrite st a else pure (true, st)) with
  | .ok (true, mid) => if firesRead events then readCall mid a else none
  | _ => none

-- The call that the callback of the socket comes to.
def callbackCall (st : Server) (a : Nat) : Option (Server × Nat × Bytes) :=
  (fdeventOwner st a).bind fun s =>
    (fdeventDequeue s.fde).bind fun (events, fde) => eventCall (st.put a { s with fde }) a events

theorem eventRead_call (h : readCall st a = some (mid, b, p)) :
    eventRead st a = enqueue mid b p >>= afterCall a (readLoop MAX_PAYLOAD st.script.reads).outcome := by
  unfold readCall at h
  cases hs : st.socks a with
  | none =>
      rw [hs] at h
      cases h
  | some s =>
      rw [hs] at h
      simp only at h
      split at h
      · cases h
      · rename_i hread
        obtain ⟨b', hp, heq⟩ := Option.map_eq_some_iff.mp h
        cases heq
        rw [not_or] at hread
        simp only [eventRead, Server.deref_some hs, bind, Except.bind, if_neg hread.1, hp, if_neg hread.2]
        rfl

theorem readCall_calls (h : Graph st) (hlocal : ∀ s, st.socks a = some s → s.ops.isLocal = true)
    (hcall : readCall st a = some (mid, b, p)) : ∃ s q, Calls mid a b s q := by
  unfold readCall at hcall
  cases hs : st.socks a with
  | none =>
      rw [hs] at hcall
      cases hcall
  | some s =>
      rw [hs] at hcall
      simp only at hcall
      split at hcall
      · cases hcall
      · obtain ⟨b', hp, heq⟩ := Option.map_eq_some_iff.mp hcall
        cases heq
        obtain ⟨-, q, hq, hback⟩ := h.peers.back a s b hs hp
        exact ⟨s, q, h.congr rfl rfl rfl rfl (.of_eq rfl), hs, hlocal s hs, hp, hq, hback⟩

theorem callbackCall_calls (h : Whole st) (hcall : callbackCall st a = some (mid, b, p)) :
    ∃ s q, Calls mid a b s q := by
  obtain ⟨s, howner, hcall⟩ := Option.bind_eq_some_iff.mp hcall
  obtain ⟨⟨events, fde⟩, hdequeue, hcall⟩ := Option.bind_eq_some_iff.mp hcall
  obtain ⟨hs, hlocal⟩ := fdeventOwner_eq_some howner
  have hfde : fde.wantsRead = s.fde.wantsRead ∧ fde.events = 0 := by
    unfold fdeventDequeue at hdequeue
    split at hdequeue
    · cases hdequeue
      exact ⟨by simp [Fdevent.wantsRead, FDE_PENDING], rfl⟩
    · cases hdequeue
  have hgraph : Graph (st.put a { s with fde }) :=
    (Moves.fdevent (B := False) h.graph hs hlocal hfde.1 fun _ => readSound_quiet hfde.2).graph h.graph
  have hput : (st.put a { s with fde }).socks a = some { s with fde } := by simp [Server.put]
  simp only [eventCall] at hcall
  split at hcall
  · rename_i after hwrite
    split at hcall
    · split at hwrite
      · have hdone : WriteDone False _ a False (true, after) :=
          (eventWrite_ensures hgraph hput hlocal hfde.2 (fun hf => hf.elim)).of_ok hwrite
        exact readCall_calls hdone.graph (hdone.islocal rfl) hcall
      · cases hwrite
        refine readCall_calls hgraph (fun s' hs' => ?_) hcall
        rw [hput, Option.some.injEq] at hs'
        exact hs' ▸ hlocal
    · cases hcall
  · cases hcall

end Calls

section Contract

-- A negative value tells that the socket has been closed, and the log line after
-- the call reads a socket that is still there.
structure Contract (after : Server) (a : Nat) (r : Int) : Prop where
  negative : ¬Stays after a → r < 0
  untouched : logRead after a = after

-- No write of the call fails, and a socket that gets closed has packets that keep
-- it for a while.
def KeepsCourse (st : Server) (s : ASocket) : SmartCourse → Prop
  | .closes => s.pkts ≠ []
  | .tracks => ∀ buffer, listTransportsMsg st = .ok buffer → writeFails s buffer st.script.writes = false
  | .waits | .serves | .forwards => True

def KeepsContract (st : Server) (s q : ASocket) (p : Bytes) : Prop :=
  match q.ops with
  | .localSocket | .localSocketNotify => writeFails q p st.script.writes = false
  | .remoteSocket => True
  | .deviceTracker => s.pkts ≠ []
  | .smartSocket => KeepsCourse st s (smartCourse st q p)

theorem logRead_eq_iff : logRead after a = after ↔ after.socks a ≠ none := by
  unfold logRead
  cases hs : after.socks a with
  | none =>
      simp only [ne_eq, not_true_eq_false, iff_false]
      intro h
      have hlog := congrArg Server.log h
      simp [Server.note] at hlog
  | some s => simp

theorem contract_of_stays (h : Stays after a) : Contract after a r where
  negative := fun hn => absurd h hn
  untouched := by
    obtain ⟨s, hs, -⟩ := h
    rw [logRead_eq_iff, hs]
    simp

theorem not_contract (hnone : ¬Stays after a) (hr : 0 ≤ r) : ¬Contract after a r := by
  intro h
  have hneg := h.negative hnone
  omega

theorem fate_not_stays (h : after.socks a = fate s) : ¬Stays after a := by
  intro hstays
  obtain ⟨s', hs', hopen⟩ := hstays
  have hclosing := fate_closing (h.symm.trans hs')
  rw [hopen] at hclosing
  cases hclosing

-- The socket is closed and that is told: it has to be there for the log line.
theorem contract_closed_iff (h : Calls st a b s q) (hfate : after.socks a = fate s) :
    Contract after a (-1) ↔ s.pkts ≠ [] := by
  have hiff : Contract after a (-1) ↔ after.socks a ≠ none := by
    rw [← logRead_eq_iff]
    exact ⟨Contract.untouched, fun hu => ⟨fun _ => by omega, hu⟩⟩
  rw [hiff, hfate]
  simp [fate, h.islocal, h.not_closing]

theorem local_contract (h : Calls st a b s q) (hr : LocalEnqueued False st b q p (r, after)) :
    Contract after a r ↔ writeFails q p st.script.writes = false := by
  cases hfails : writeFails q p st.script.writes with
  | true =>
      obtain ⟨hcode, hsocks⟩ := hr.fails hfails
      have hfate : after.socks a = fate s := by
        rw [hsocks, Function.update_of_ne h.ne.symm, h.back]
        simp [severed, h.caller]
      have hpos : 0 ≤ r := by
        simp only at hcode
        omega
      simpa using not_contract (fate_not_stays hfate) hpos
  | false =>
      obtain ⟨q', -, -, hsocks⟩ := hr.kept hfails
      have hstays : Stays after a := ⟨s, by rw [hsocks, Function.update_of_ne h.ne.symm, h.caller], h.not_closing⟩
      simpa using contract_of_stays hstays

theorem smart_contract (h : Calls st a b s q) {course : SmartCourse}
    (hr : SmartEnqueued False st b a s course (r, after)) :
    Contract after a r ↔ KeepsCourse st s course := by
  have hkeeps : Stays after a → (Contract after a r ↔ True) :=
    fun hs => iff_true_intro (contract_of_stays hs)
  cases hr with
  | waits _ moves kept => exact hkeeps ⟨s, kept, h.not_closing⟩
  | closes _ moves ended => exact contract_closed_iff h ended
  | serves _ moves stays => exact hkeeps stays
  | tracks _ buffer moves listed fails stays =>
      simp only [KeepsCourse, listed, Except.ok.injEq, forall_eq']
      cases hfails : writeFails s buffer st.script.writes with
      | true =>
          have hgone : ¬Stays after a := by
            intro hstays
            obtain ⟨s', hs', -⟩ := hstays
            rw [fails hfails] at hs'
            cases hs'
          simpa using not_contract hgone (Int.le_refl 0)
      | false => simpa using contract_of_stays (stays hfails)
  | forwards middle _ q' moves graph smart ops client forwarded =>
      have hclient : after.socks a =
          some { s with ops := .localSocketNotify, peer := none, transport := q'.transport } := by
        rw [forwarded.socks, Function.update_self]
      exact hkeeps ⟨_, hclient, h.not_closing⟩

theorem enqueue_contract_iff (h : Calls st a b s q) (he : enqueue st b p = .ok (r, after)) :
    Contract after a r ↔ KeepsContract st s q p := by
  have hlocal : q.ops.isLocal = true →
      (Contract after a r ↔ writeFails q p st.script.writes = false) := by
    intro hql
    rw [enqueue_local h.callee hql] at he
    exact local_contract h ((localSocketEnqueue_ensures h.graph h.callee hql p).of_ok he)
  unfold KeepsContract
  cases hops : q.ops with
  | localSocket => exact hlocal (by rw [hops]; rfl)
  | localSocketNotify => exact hlocal (by rw [hops]; rfl)
  | remoteSocket =>
      rw [enqueue_remote h.callee hops] at he
      obtain ⟨t, hsent⟩ := (remoteSocketEnqueue_ensures h.callee h.back h.caller p).of_ok he
      cases hsent
      exact iff_true_intro (contract_of_stays ⟨s, h.caller, h.not_closing⟩)
  | smartSocket =>
      rw [enqueue_smart h.callee hops] at he
      have hclient : Client st b a q s := ⟨h.graph, h.callee, hops, h.back, h.caller, h.peer⟩
      exact smart_contract h
        ((smartSocketEnqueue_ensures (B := False) (enqueueWithin_local 0) hclient p).of_ok he)
  | deviceTracker =>
      rw [enqueue_tracker h.callee hops] at he
      obtain ⟨hcode, hclosed⟩ := (deviceTrackerEnqueue_ensures h.graph h.callee hops).of_ok he
      simp only at hcode hclosed
      subst hcode
      refine contract_closed_iff h ?_
      rw [hclosed.socks, Function.update_of_ne h.ne.symm, h.back]
      simp [severed, h.caller]

-- Whatever has gone before: the call tells of the end of its caller, and leaves it
-- where the log line reads it, exactly as long as no write fails and packets are
-- waiting in a socket that is closed.
theorem enqueue_return_contract (inputs : List (Script × Input)) (start : Server)
    (hr : run step serverInit inputs = .ok start) (script : Script) (a b : Nat) (p : Bytes) (st : Server)
    (hcall : callbackCall { start with script } a = some (st, b, p)) (r : Int) (after : Server)
    (he : enqueue st b p = .ok (r, after)) :
    Contract after a r ↔
      ∀ s q, st.socks a = some s → st.socks b = some q → KeepsContract st s q p := by
  have hw : Whole { start with script } := (run_whole hr).scripted (script, .accept 0)
  obtain ⟨s, q, hcalls⟩ := callbackCall_calls hw hcall
  rw [enqueue_contract_iff hcalls he, hcalls.caller, hcalls.callee]
  simp

-- A client is there and its fd is readable.
def clientReadable : List (Script × Input) := [(silent, .accept 0), (silent, .signal 0)]

-- The code of the call that the readable client comes to, and whether its socket
-- is there and not closing afterwards.
def callResult (script : Script) : Option (Int × Bool) := do
  let start ← (run step serverInit clientReadable).toOption
  let call ← callbackCall { start with script } 0
  let result ← (enqueue call.1 call.2.1 call.2.2).toOption
  return (result.1, (result.2.socks 0).any fun s => !s.closing)

theorem callResult_some {script : Script} {stays : Bool} (h : callResult script = some (r, stays)) :
    ∃ start st b p after, run step serverInit clientReadable = .ok start ∧
      callbackCall { start with script } 0 = some (st, b, p) ∧ enqueue st b p = .ok (r, after) ∧
      (Stays after 0 ↔ stays = true) := by
  simp only [callResult, Option.bind_eq_bind, Option.bind_eq_some_iff, Option.pure_def] at h
  obtain ⟨start, hrun, ⟨st, b, p⟩, hcall, ⟨r', after⟩, he, hresult⟩ := h
  cases hresult
  refine ⟨start, st, b, p, after, ok_of_toOption hrun, hcall, ok_of_toOption he, ?_⟩
  simp [Stays, Option.any_eq_true]

-- The client writes half a request.
theorem enqueue_return_contract_of_half_a_request :
    ∃ (st after : Server) (b : Nat) (p : Bytes), Contract after 0 0 ∧
      ∀ s q, st.socks 0 = some s → st.socks b = some q → KeepsContract st s q p := by
  obtain ⟨start, st, b, p, after, hrun, hcall, he, hstays⟩ :=
    callResult_some (by decide : callResult (reading [48]) = some (0, true))
  have hcontract : Contract after 0 0 := contract_of_stays (hstays.mpr rfl)
  exact ⟨st, after, b, p, hcontract,
    (enqueue_return_contract _ start hrun _ 0 b p st hcall 0 after he).mp hcontract⟩

-- The first message of a tracker cannot be written. The client's socket is gone,
-- and the value is 0.
theorem tracker_is_closed_in_silence :
    ¬ ∀ (inputs : List (Script × Input)) (start : Server), run step serverInit inputs = .ok start →
      ∀ (script : Script) (a b : Nat) (p : Bytes) (st : Server),
        callbackCall { start with script } a = some (st, b, p) →
        ∀ (r : Int) (after : Server), enqueue st b p = .ok (r, after) → Contract after a r := by
  intro h
  obtain ⟨start, st, b, p, after, hrun, hcall, he, hstays⟩ := callResult_some
    (by decide : callResult { reading (request "host:track-devices") with
      statuses := [true], writes := [.failed] } = some (0, false))
  have hneg := (h _ start hrun _ 0 b p st hcall 0 after he).negative (by simp [hstays])
  omega

end Contract

end Adb.Host
