import Adb.Host.SocketGraph

namespace Adb.Host

open Adb.Lib

variable {st : Server} {a : Nat} {s : ASocket}

-- Where the queue is written, closing is false and there is no peer, the peer is
-- made ready all the same.
theorem eventWrite_unconnected (hs : st.socks a = some s) (h : DrainsUnconnected s st.script.writes) :
    eventWrite st a = .error (.nullPeer .eventFunc) := by
  obtain ⟨hc, hp, hdone⟩ := h
  unfold eventWrite
  simp only [Server.deref_some hs, bind, Except.bind, hdone, hc, hp, Bool.false_eq_true, if_false]

theorem drainsUnconnected_step {input : Script × Input}
    (h : drainsUnconnected st input.1.writes input.2 = true) :
    step st input = .error (.nullPeer .eventFunc) := by
  obtain ⟨script, input⟩ := input
  cases input with
  | callback a =>
      simp only [drainsUnconnected] at h
      cases howner : fdeventOwner st a with
      | none => simp [howner] at h
      | some s =>
          cases hdequeue : fdeventDequeue s.fde with
          | none => simp [howner, hdequeue] at h
          | some popped =>
              obtain ⟨events, fde⟩ := popped
              simp only [howner, hdequeue, Option.any_some, Bool.and_eq_true,
                decide_eq_true_eq] at h
              have howner' : fdeventOwner { st with script := script } a = some s := howner
              have hdrains : DrainsUnconnected { s with fde } script.writes := h.2
              have hnull : eventWrite ({ st with script := script }.put a { s with fde }) a =
                  .error (.nullPeer .eventFunc) :=
                eventWrite_unconnected (by simp [Server.put]) hdrains
              simp only [step, handle, howner', hdequeue, localSocketEventFunc, h.1, if_true, hnull]
              rfl
  | _ => cases h

-- A step comes to a null peer if and only if it drains an unconnected socket.
theorem step_nullPeer_iff (hw : Whole st) (input : Script × Input) :
    (∃ e, step st input = .error e ∧ ¬Benign e) ↔
      ¬drainsUnconnected st input.1.writes input.2 = false := by
  rw [Bool.not_eq_false]
  constructor
  · rintro ⟨e, he, hbad⟩
    rcases (step_ensures hw input).of_error he with hgood | ⟨-, hdrains⟩
    · exact absurd hgood hbad
    · exact hdrains
  · intro h
    exact ⟨_, drainsUnconnected_step h, fun hgood => hgood _ rfl⟩

-- The steps after which a run has met no null peer.
def KeepsPeer (st : Server) (input : Script × Input) : Prop :=
  drainsUnconnected st input.1.writes input.2 = false

theorem no_null_peer (inputs : List (Script × Input)) :
    (∀ site, run step serverInit inputs ≠ .error (.nullPeer site)) ↔
      Guarded step KeepsPeer serverInit inputs := by
  have hiff : (∃ e, run step serverInit inputs = .error e ∧ ¬Benign e) ↔
      ¬Guarded step KeepsPeer serverInit inputs := run_error_iff
    (fun _ _ _ hw hstep => step_whole hw hstep) (fun _ input hw => step_nullPeer_iff hw input)
    whole_init
  rw [← not_iff_not, ← hiff]
  constructor
  · intro h
    obtain ⟨site, hsite⟩ := not_forall_not.mp h
    exact ⟨_, hsite, fun hgood => hgood site rfl⟩
  · rintro ⟨e, he, hbad⟩ hnone
    exact hbad fun site heq => hnone site (heq ▸ he)

def stopsWith (stop : Stop) : Except Stop Server → Bool
  | .ok _ => false
  | .error e => e = stop

theorem error_of_stopsWith {x : Except Stop Server} {stop : Stop} (h : stopsWith stop x = true) :
    x = .error stop := by
  cases x with
  | ok after => cases h
  | error e => exact congrArg _ (of_decide_eq_true h)

-- An A_WRTE packet comes for the socket of a shell that is still to be opened. Its
-- fd is full at first.
def shellNotOpened : List (Script × Input) :=
  shellRequest ++ [({ silent with writes := [.again] }, .packet 0 ⟨A_WRTE, 7, 1, [0], []⟩),
    (silent, .signal 0), ({ silent with writes := [.wrote 1] }, .callback 0)]

set_option maxRecDepth 8000 in
theorem pending_open_has_no_peer :
    ∃ site, run step serverInit shellNotOpened = .error (.nullPeer site) := by
  exact ⟨.eventFunc, error_of_stopsWith (by decide)⟩

end Adb.Host
