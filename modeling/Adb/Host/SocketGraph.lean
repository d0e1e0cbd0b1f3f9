import Adb.Host.Dispatch
import Adb.Lib.Run

namespace Adb.Host

open Adb.Lib

variable {st mid after : Server} {a b l p t : Nat} {s q s' : ASocket} {B : Prop}

section Sound

variable {socks : Nat → Option ASocket} {P : Nat → ASocket → Prop} {Q : ASocket → Prop}

theorem all_update {o : Option ASocket} (h : ∀ c s, socks c = some s → P c s)
    (ho : ∀ s, o = some s → P a s) : ∀ c s, Function.update socks a o c = some s → P c s := by
  intro c s hc
  by_cases hca : c = a
  · subst hca
    rw [Function.update_self] at hc
    exact ho s hc
  · rw [Function.update_of_ne hca] at hc
    exact h c s hc

theorem all_some {x : ASocket} (h : Q x) : ∀ s, some x = some s → Q s := by
  rintro s hs
  cases hs
  exact h

theorem all_none : ∀ s, (none : Option ASocket) = some s → Q s := by simp

theorem fate_closing (h : fate s = some s') : s'.closing = true := by
  unfold fate at h
  split at h
  · cases h
    rfl
  · cases h

theorem sound_fate (s : ASocket) : ∀ s', fate s = some s' → s'.Sound := by
  intro s' hs' _ hc
  rw [fate_closing hs'] at hc
  cases hc

theorem sound_severed (h : ∀ c s, socks c = some s → s.Sound) (o : Option Nat) :
    ∀ c s, severed socks o c = some s → s.Sound := by
  cases o with
  | none => exact h
  | some p =>
      refine all_update h fun s hs => ?_
      obtain ⟨q, -, hq⟩ := Option.bind_eq_some_iff.mp hs
      exact sound_fate q s hq

theorem Effect.sound (he : Effect B st after) (h : Sound st) : Sound after := by
  cases he with
  | quiet events plain becomes =>
      rw [Sound, becomes.socks]
      exact h
  | status l p s q reply ok found peer smart ops accepted becomes =>
      rw [Sound, becomes.socks]
      exact h
  | tend a s s' found tended becomes =>
      rw [Sound, becomes.socks]
      refine all_update h (all_some fun hl hc => ?_)
      have hopen := tended.closing.symm.trans hc
      exact tended.sound hopen (h a s found (tended.ops ▸ hl) hopen)
  | wake a p s q found peer other ops becomes =>
      rw [Sound, becomes.socks]
      exact all_update h (all_some fun hl hc => Fdevent.readSound_add (h a s found hl hc))
  | okay a p s found peer becomes =>
      rw [Sound, becomes.socks]
      exact all_update h (all_some fun hl hc => Fdevent.readSound_add (h a s found hl hc))
  | connect a s r credit rest found islocal closing alone remote back credits waiting plain becomes =>
      rw [Sound, becomes.socks]
      refine all_update (all_update h (all_some fun hl => ?_)) (all_some fun _ hc => ?_)
      · rw [remote] at hl
        cases hl
      · exact Fdevent.readSound_add (h a s found islocal hc)
  | newLocal s ops peer closing fde becomes =>
      rw [Sound, becomes.socks]
      exact all_update h (all_some fun _ _ => fde ▸ Fdevent.readSound_install)
  | newClient s q ops peer closing sound smart back becomes =>
      rw [Sound, becomes.socks]
      refine all_update (all_update h (all_some fun _ _ => sound)) (all_some fun hl => ?_)
      rw [smart] at hl
      cases hl
  | closed a s found waiting becomes =>
      rw [Sound, becomes.socks]
      exact all_update (sound_severed h _) (sound_fate s)
  | failNotify a s reason ok found ops accepted becomes =>
      rw [Sound, becomes.socks]
      refine all_update h (all_some fun _ hc => h a s found ?_ hc)
      rw [ops]
      rfl
  | forward l a s q s' rest found islocal peer smart ops notify alone asleep sound plain becomes =>
      rw [Sound, becomes.socks]
      exact all_update (all_update h all_none) (all_some fun _ _ => sound)
  | bind l a s2 fresh s q x rest found islocal peer smart ops service kind back sound plain becomes =>
      rw [Sound, becomes.socks]
      refine all_update (all_update (all_update h all_none) (all_some fun _ hc => ?_))
        (all_some fun _ _ => sound)
      exact h l s found islocal hc
  | readOther a s bytes found other becomes =>
      rw [Sound, becomes.socks]
      exact h
  | carry a r t s q message found peer remote ops wanted sound command nonempty short becomes =>
      rw [Sound, becomes.socks]
      exact all_update h (all_some fun _ _ => sound)

end Sound

section Runs

-- What holds between two steps.
structure Whole (st : Server) : Prop where
  graph : Graph st
  sound : Sound st

theorem whole_init : Whole serverInit := ⟨graph_init, by simp [Sound, serverInit]⟩

-- The server as a step finds it: the answers of the system are laid out.
def scripted (st : Server) (input : Script × Input) : Server := { st with script := input.1 }

theorem Whole.scripted (h : Whole st) (input : Script × Input) : Whole (scripted st input) :=
  ⟨h.graph.congr rfl rfl rfl rfl (.of_eq rfl), h.sound⟩

theorem step_ensures (h : Whole st) (input : Script × Input) :
    Ensures (step st input) (Moves (bypassesNotify st input.2 = true) (scripted st input))
      (fun stop => Benign stop ∨
        (stop = .nullPeer .eventFunc ∧ drainsUnconnected st input.1.writes input.2 = true)) := by
  have hs := h.scripted input
  have hhandle := handle_ensures hs.graph hs.sound input.2
  have hbypass : bypassesNotify (scripted st input) input.2 = bypassesNotify st input.2 := by
    cases input.2 <;> rfl
  have hdrains : ∀ writes, drainsUnconnected (scripted st input) writes input.2 =
      drainsUnconnected st writes input.2 := by
    intro writes
    cases input.2 <;> rfl
  rw [hbypass] at hhandle
  refine hhandle.mono fun stop hstop => ?_
  rw [hdrains] at hstop
  exact hstop

theorem step_moves {input : Script × Input} (h : Whole st) (hstep : step st input = .ok after) :
    Moves (bypassesNotify st input.2 = true) (scripted st input) after :=
  (step_ensures h input).of_ok hstep

theorem step_whole {input : Script × Input} (h : Whole st) (hstep : step st input = .ok after) :
    Whole after := by
  have hm := step_moves h hstep
  have hs := h.scripted input
  exact ⟨hm.graph hs.graph, hm.invariant (fun _ _ he hi => he.sound hi) hs.graph hs.sound⟩

theorem run_whole {inputs : List (Script × Input)} (h : run step serverInit inputs = .ok st) :
    Whole st :=
  run_invariant (fun _ _ _ hw hstep => step_whole hw hstep) whole_init h

-- What every effect keeps, and what the script does not matter to, holds in
-- every state a run reaches.
theorem run_keeps {inv : Server → Prop} (hinit : inv serverInit)
    (hscript : ∀ {st} input, inv st → inv (scripted st input))
    (heffect : ∀ {B x y}, Graph x → Graph y → Effect B x y → inv x → inv y)
    {inputs : List (Script × Input)} (h : run step serverInit inputs = .ok st) : inv st := by
  have hboth : Whole st ∧ inv st := by
    refine run_invariant (P := fun st => Whole st ∧ inv st) ?_ ⟨whole_init, hinit⟩ h
    rintro x input y ⟨hw, hi⟩ hstep
    have hm := step_moves hw hstep
    exact ⟨step_whole hw hstep,
      hm.invariant (fun hx hy he hi => heffect hx hy he hi) (hw.scripted input).graph (hscript input hi)⟩
  exact hboth.2

end Runs

section Shape

-- The graph of the sockets. The two lists are xs and ys, from the node after the
-- head on.
structure SocketGraph (st : Server) : Prop where
  paired : ∀ a s b, st.socks a = some s → s.peer = some b →
    ∃ r, st.socks b = some r ∧ r.peer = some a
  lists : ∃ xs ys : List Nat, st.links.IsRing .socketList (xs.map .socket) ∧
    st.links.IsRing .closingList (ys.map .socket) ∧
    (∀ a s, st.socks a = some s → s.ops.isLocal = true → Xor (a ∈ xs) (a ∈ ys)) ∧
    (∀ a ∈ xs ++ ys, ∃ s, st.socks a = some s ∧ s.ops.isLocal = true) ∧
    ∀ a ∈ ys, ∃ s, st.socks a = some s ∧ s.peer = none ∧ s.closing = true ∧ s.pkts ≠ []
  trackers : ∀ a ∈ st.deviceTrackerList, ∃ s, st.socks a = some s ∧ s.ops = .deviceTracker
  disconnects : ∀ t transport a, st.transports t = some transport →
    .remote a ∈ transport.disconnects → ∃ s, st.socks a = some s ∧ s.transport = some t

theorem Graph.socketGraph (h : Graph st) : SocketGraph st where
  paired := fun a s b hs hb => (h.peers.back a s b hs hb).2
  lists := by
    obtain ⟨xs, ys, hl⟩ := h.lists
    refine ⟨xs, ys, hl.listed, hl.closing, ?_, ?_, ?_⟩
    · intro a s hs hlocal
      have hx : a ∈ xs ↔ s.closing = false := by
        rw [hl.mem_listed, onList_iff, hs, placeOf_local hlocal, Option.some.injEq]
      have hy : a ∈ ys ↔ s.closing = true := by
        rw [hl.mem_closing, onList_iff, hs, placeOf_local hlocal, Option.some.injEq]
      cases hc : s.closing with
      | false => exact Or.inl ⟨hx.mpr hc, fun hin => by simp [hy.mp hin] at hc⟩
      | true => exact Or.inr ⟨hy.mpr hc, fun hin => by simp [hx.mp hin] at hc⟩
    · intro a ha
      rcases List.mem_append.mp ha with ha | ha
      · obtain ⟨s, hs, hlocal, -⟩ := (hl.mem_listed a).mp ha
        exact ⟨s, hs, hlocal⟩
      · obtain ⟨s, hs, hlocal, -⟩ := (hl.mem_closing a).mp ha
        exact ⟨s, hs, hlocal⟩
    · intro a ha
      obtain ⟨s, hs, -, hc⟩ := (hl.mem_closing a).mp ha
      obtain ⟨-, hp, hpkts⟩ := h.peers.parked a s hs hc
      exact ⟨s, hs, hp, hc, hpkts⟩
  trackers := by
    intro a ha
    have hrole := (h.owners.trackers a).mp ha
    unfold roleOf at hrole
    split at hrole
    · cases hrole
    · rename_i s hs
      refine ⟨s, hs, ?_⟩
      split at hrole <;> simp_all
  disconnects := by
    intro t transport a ht hm
    have hrole := h.owners.disconnects t transport a ht hm
    unfold roleOf at hrole
    split at hrole
    · cases hrole
    · rename_i s hs
      refine ⟨s, hs, ?_⟩
      split at hrole <;> simp_all

theorem socket_graph (inputs : List (Script × Input)) (st : Server)
    (h : run step serverInit inputs = .ok st) : SocketGraph st :=
  (run_whole h).graph.socketGraph

theorem exists_of_isOk {ε α : Type} {x : Except ε α} (h : x.isOk = true) : ∃ a, x = .ok a := by
  cases x with
  | ok a => exact ⟨a, rfl⟩
  | error e => cases h

theorem exists_of_any {ε α : Type} {x : Except ε α} {p : α → Bool} (h : x.toOption.any p = true) :
    ∃ a, x = .ok a ∧ p a = true := by
  cases x with
  | ok a => exact ⟨a, rfl, h⟩
  | error e => cases h

theorem ok_of_toOption {ε α : Type} {x : Except ε α} {y : α} (h : x.toOption = some y) : x = .ok y := by
  cases x with
  | ok z => exact congrArg Except.ok (Option.some.inj h)
  | error e => cases h

-- A request as a client writes it.
def request (service : String) : Bytes := hex4 service.length ++ ascii service

def silent : Script := ⟨[], [], [], []⟩

def reading (bytes : Bytes) : Script := { silent with reads := [.data bytes, .again] }

def usbDevice : Input := .register .usb 0 (some (ascii "0123")) none true

def connectPacket : Packet := ⟨A_CNXN, A_VERSION, 4096, ascii "device::" ++ [0], []⟩

-- A device comes online and a client asks it for a shell. The client's socket is
-- 0 and has the id 1.
def shellRequest : List (Script × Input) :=
  [(silent, usbDevice), (silent, .packet 0 connectPacket), (silent, .accept 0), (silent, .signal 0),
    ({ reading (request "host:transport-any") with statuses := [true] }, .callback 0),
    (silent, .signal 0), (reading (request "shell:ls"), .callback 0)]

-- The device answers that the shell is there.
def shellStarted : List (Script × Input) :=
  shellRequest ++ [({ silent with statuses := [true] }, .packet 0 ⟨A_OKAY, 7, 1, [], []⟩)]

set_option maxRecDepth 8000 in
theorem socket_graph_of_a_shell :
    ∃ st, run step serverInit shellStarted = .ok st ∧ SocketGraph st := by
  obtain ⟨st, h⟩ := exists_of_isOk (x := run step serverInit shellStarted) (by decide)
  exact ⟨st, h, socket_graph shellStarted st h⟩

end Shape

end Adb.Host
