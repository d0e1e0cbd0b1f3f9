import Adb.Transport.Descriptors

namespace Adb.Transport

open Adb.Lib

variable {st after : Handles} {reg : Registry} {t u : Nat} {d : Descriptor}

section Views

-- The message that the main loop is handling and has not done its part for.
def MainAt.due : MainAt → List TMsg
  | .removing t => [⟨t, .remove⟩]
  | .starting t => [⟨t, .register⟩]
  | _ => []

def Registry.due (reg : Registry) : List TMsg := reg.main.due ++ reg.mailbox

-- What the handles of one transport depend on: type, kicked and ref_count, the
-- messages about it, the kicks on their way, its descriptors, and how far it is.
@[ext] structure View where
  record : Option (TransportType × Bool × Int)
  registers : Nat
  removes : Nat
  kicks : Nat
  held : Descriptor → Prop
  opened : Descriptor → Prop
  known : Prop
  freeing : Prop

def ATransport.counts (record : ATransport) : TransportType × Bool × Int :=
  (record.type, record.kicked, record.refCount)

def Handles.view (st : Handles) (t : Nat) : View where
  record := (st.registry.heap t).map ATransport.counts
  registers := st.registry.due.count ⟨t, .register⟩
  removes := st.registry.due.count ⟨t, .remove⟩
  kicks := st.kicks.countP fun kick => kick.2 = t
  held := Held st t
  opened := fun d => (t, d) ∈ st.opened
  known := t < st.registry.nextTransport
  freeing := st.registry.main = .freeing t

-- What is so of a transport that exists: one with references has its socket pair,
-- one without a kick its socket.
structure SoundRecord (v : View) (type : TransportType) (kicked : Bool) (refs : Int) : Prop where
  flying : 0 < v.kicks → kicked = true
  sfd : v.held .sfd ↔ type ≠ .usb ∧ (kicked = false ∨ 0 < v.kicks)
  uncounted : 0 < v.registers → refs ≤ 0
  counted : 0 < refs → v.held .fd ∧ v.held .transportSocket ∧ v.opened .fd ∧ v.removes = 0
  removing : 0 < v.removes → v.held .transportSocket ∧ v.opened .fd ∧ (v.held .fd ↔ type = .usb)

structure Sound (v : View) : Prop where
  unknown : ¬v.known → v.record = none ∧ v.registers = 0 ∧ v.removes = 0 ∧ v.kicks = 0 ∧
    ∀ d, ¬v.opened d
  registers : v.registers ≤ 1
  removes : v.removes ≤ 1
  kicks : v.kicks ≤ 1
  registering : 0 < v.registers → v.removes = 0 ∧ ¬v.opened .fd ∧ ¬v.opened .transportSocket
  record : ∀ type kicked refs, v.record = some (type, kicked, refs) → SoundRecord v type kicked refs
  freeing : v.freeing → v.known ∧ ∀ d, ¬v.held d
  freed : v.known → v.record = none → ∀ d, ¬v.held d

theorem Sound.known {v : View} (h : Sound v) {key : TransportType × Bool × Int}
    (hrecord : v.record = some key) :
    v.known := by
  by_contra hnot
  rw [(h.unknown hnot).1] at hrecord
  cases hrecord

-- A change of the record of a transport, and of what it depends on.
theorem Sound.of_record {v w : View} (h : Sound v) {key : TransportType × Bool × Int}
    (hrecord : v.record = some key)
    (hknown : w.known = v.known) (hfreeing : w.freeing = v.freeing)
    (hheld : ∀ d, w.held d → v.held d)
    (hopened : w.opened = v.opened) (hregisters : w.registers = v.registers)
    (hremoves : w.removes ≤ 1)
    (hremoving : 0 < v.registers → w.removes = 0) (hkicks : w.kicks ≤ 1) {type : TransportType}
    {kicked : Bool}
    {refs : Int} (hnew : w.record = some (type, kicked, refs))
    (hsound : SoundRecord w type kicked refs) : Sound w where
  unknown := fun hnot => absurd (h.known hrecord) (hknown ▸ hnot)
  registers := hregisters ▸ h.registers
  removes := hremoves
  kicks := hkicks
  registering := fun hpos => by
    rw [hregisters] at hpos
    rw [hopened]
    exact ⟨hremoving hpos, (h.registering hpos).2⟩
  record := fun type' kicked' refs' heq => by
    rw [hnew] at heq
    cases heq
    exact hsound
  freeing := fun hfree => by
    rw [hfreeing] at hfree
    rw [hknown]
    exact ⟨(h.freeing hfree).1, fun d hd => (h.freeing hfree).2 d (hheld d hd)⟩
  freed := fun _ hnone => by
    rw [hnew] at hnone
    cases hnone

section Changes

variable {v : View} {type : TransportType} {kicked : Bool} {refs : Int}

theorem Sound.not_flying (h : Sound v) (hrecord : v.record = some (type, false, refs)) :
    v.kicks = 0 := by
  by_contra hne
  cases (h.record _ _ _ hrecord).flying (Nat.pos_of_ne_zero hne)

-- kick_transport begins.
theorem Sound.kick_begins (h : Sound v) (hrecord : v.record = some (type, false, refs)) :
    Sound { v with record := some (type, true, refs), kicks := v.kicks + 1 } := by
  have hold := h.record _ _ _ hrecord
  have hnone := h.not_flying hrecord
  refine h.of_record hrecord rfl rfl (fun _ => id) rfl rfl h.removes
    (fun hpos => (h.registering hpos).1)
    (by simp [hnone]) rfl ⟨fun _ => rfl, ?_, hold.uncounted, hold.counted, hold.removing⟩
  rw [hold.sfd]
  simp

-- t->kick has closed the socket.
theorem Sound.kick_called (h : Sound v) (hrecord : v.record = some (type, true, refs)) :
    Sound { v with kicks := 0, held := fun e => v.held e ∧ ¬(type ≠ .usb ∧ e = .sfd) } := by
  have hold := h.record _ _ _ hrecord
  refine h.of_record hrecord rfl rfl (fun _ hd => hd.1) rfl rfl h.removes
    (fun hpos => (h.registering hpos).1)
    (Nat.zero_le _) hrecord
    ⟨fun hpos => absurd hpos (Nat.lt_irrefl 0), ?_, hold.uncounted, fun hpos => ?_, fun hpos => ?_⟩
  · simp only [hold.sfd]
    tauto
  · obtain ⟨hfd, hsocket, hopened, hnone⟩ := hold.counted hpos
    exact ⟨⟨hfd, by simp⟩, ⟨hsocket, by simp⟩, hopened, hnone⟩
  · obtain ⟨hsocket, hopened, hfd⟩ := hold.removing hpos
    exact ⟨⟨hsocket, by simp⟩, hopened, by simpa using hfd⟩

-- Both at once, under the lock.
theorem Sound.kick_locked (h : Sound v) (hrecord : v.record = some (type, false, refs)) :
    Sound { v with record := some (type, true, refs), held := fun e => v.held e ∧
      ¬(type ≠ .usb ∧ e = .sfd) } := by
  have hnone := h.not_flying hrecord
  have hcalled := (h.kick_begins hrecord).kick_called rfl
  rw [show 0 = v.kicks from hnone.symm] at hcalled
  exact hcalled

theorem Sound.unref (h : Sound v) (hrecord : v.record = some (type, kicked, refs)) :
    Sound { v with record := some (type, kicked, refs - 1) } := by
  have hold := h.record _ _ _ hrecord
  refine h.of_record hrecord rfl rfl (fun _ => id) rfl rfl h.removes
    (fun hpos => (h.registering hpos).1)
    h.kicks rfl ⟨hold.flying, hold.sfd, fun hpos => ?_, fun hpos => ?_, hold.removing⟩
  · have hle := hold.uncounted hpos
    omega
  · exact hold.counted (by omega)

-- The last reference: the socket is closed if nobody has kicked, t->fd is closed,
-- and the removal is posted.
theorem Sound.last_ref (h : Sound v) (hrecord : v.record = some (type, kicked, refs))
    (hlast : refs - 1 = 0) :
    Sound { v with
      record := some (type, true, refs - 1)
      removes := v.removes + 1
      held := fun e => (v.held e ∧ ¬((kicked = false ∧ type ≠ .usb) ∧ e = .sfd)) ∧
        ¬(type ≠ .usb ∧ e = .fd) } := by
  have hold := h.record _ _ _ hrecord
  have hone : 0 < refs := by omega
  obtain ⟨hfd, hsocket, hopened, hnone⟩ := hold.counted hone
  have hstarted : ¬0 < v.registers := fun hpos => by
    have hle := hold.uncounted hpos
    omega
  refine h.of_record hrecord rfl rfl (fun _ hd => hd.1.1) rfl rfl (by simp [hnone])
    (fun hpos => absurd hpos hstarted) h.kicks rfl
    ⟨fun _ => rfl, ?_, fun hpos => absurd hpos hstarted, fun hpos => ?_, fun _ => ?_⟩
  · simp only [hold.sfd]
    have hflying := hold.flying
    cases kicked with
    | true => simp
    | false =>
        have hnot : ¬0 < v.kicks := fun hpos => by cases hflying hpos
        simp [hnot]
  · omega
  · exact ⟨⟨⟨hsocket, by simp⟩, by simp⟩, hopened, by simp [hfd]⟩

-- A transport without permissions is started: nothing is opened.
theorem Sound.started_bare (h : Sound v) : Sound { v with registers := 0 } where
  unknown := fun hnot => by
    obtain ⟨hrecord, -, hrest⟩ := h.unknown hnot
    exact ⟨hrecord, rfl, hrest⟩
  registers := Nat.zero_le _
  removes := h.removes
  kicks := h.kicks
  registering := fun hpos => absurd hpos (Nat.lt_irrefl 0)
  record := fun type kicked refs hrecord => by
    have hold := h.record type kicked refs hrecord
    exact ⟨hold.flying, hold.sfd, fun hpos => absurd hpos (Nat.lt_irrefl 0), hold.counted,
      hold.removing⟩
  freeing := h.freeing
  freed := h.freed

theorem Sound.started (h : Sound v) (hrecord : v.record = some (type, kicked, refs))
    (hpos : 0 < v.registers)
    (hfree : ¬v.freeing) :
    Sound { v with
      record := some (type, kicked, 2)
      registers := 0
      held := fun e => (v.held e ∨ e = .transportSocket) ∨ e = .fd
      opened := fun e => (v.opened e ∨ e = .transportSocket) ∨ e = .fd } where
  unknown := fun hnot => absurd (h.known hrecord) hnot
  registers := Nat.zero_le _
  removes := h.removes
  kicks := h.kicks
  registering := fun hpos => absurd hpos (Nat.lt_irrefl 0)
  record := fun type' kicked' refs' heq => by
    have hold := h.record _ _ _ hrecord
    cases heq
    refine ⟨hold.flying, ?_, fun hpos => absurd hpos (Nat.lt_irrefl 0), fun _ => ?_,
      fun hremoves => ?_⟩
    · simp [hold.sfd]
    · exact ⟨Or.inr rfl, Or.inl (Or.inr rfl), Or.inr rfl, (h.registering hpos).1⟩
    · have hsome : 0 < v.removes := hremoves
      have hnone := (h.registering hpos).1
      omega
  freeing := fun hfreeing => absurd hfreeing hfree
  freed := fun _ hnone => by cases hnone

-- The two halves of the socket pair are closed for a usb transport.
theorem Sound.removed (h : Sound v) (hrecord : v.record = some (.usb, kicked, refs))
    (hpos : 0 < v.removes) :
    Sound { v with
      removes := 0
      held := fun e => (v.held e ∧ e ≠ .transportSocket) ∧ e ≠ .fd
      freeing := True } where
  unknown := fun hnot => absurd (h.known hrecord) hnot
  registers := h.registers
  removes := Nat.zero_le _
  kicks := h.kicks
  registering := fun hregisters => ⟨rfl, (h.registering hregisters).2⟩
  record := fun type' kicked' refs' heq => by
    have hold := h.record _ _ _ hrecord
    rw [hrecord] at heq
    cases heq
    have hdone : ¬0 < refs := fun hcount => by
      have hnone := (hold.counted hcount).2.2.2
      omega
    refine ⟨hold.flying, ?_, hold.uncounted, fun hcount => absurd hcount hdone,
      fun hremoves => absurd hremoves (Nat.lt_irrefl 0)⟩
    simp [hold.sfd]
  freeing := fun _ => by
    have hold := h.record _ _ _ hrecord
    refine ⟨h.known hrecord, fun d hd => ?_⟩
    cases d with
    | sfd => exact (hold.sfd.mp hd.1.1).1 rfl
    | fd => exact hd.2 rfl
    | transportSocket => exact hd.1.2 rfl
  freed := fun _ hnone => by
    rw [hrecord] at hnone
    cases hnone

theorem Sound.freed_now (h : Sound v) (hfree : v.freeing) :
    Sound { v with record := none, freeing := False } where
  unknown := fun hnot => absurd (h.freeing hfree).1 hnot
  registers := h.registers
  removes := h.removes
  kicks := h.kicks
  registering := h.registering
  record := fun type kicked refs heq => by cases heq
  freeing := fun hf => hf.elim
  freed := fun _ _ => (h.freeing hfree).2

-- register_transport for a record that calloc has cleared.
theorem Sound.registered (h : Sound v) (hnew : ¬v.known) (held : Descriptor → Prop)
    (opened : Descriptor → Prop)
    (hsfd : held .sfd ↔ type ≠ .usb) (hopened : ¬opened .fd ∧ ¬opened .transportSocket)
    (hfree : ¬v.freeing) :
    Sound { v with
      record := some (type, false, 0)
      registers := v.registers + 1
      held := held
      opened := opened
      known := True } where
  unknown := fun hnot => absurd trivial hnot
  registers := by
    have hnone := (h.unknown hnew).2.1
    simp only
    omega
  removes := h.removes
  kicks := h.kicks
  registering := fun _ => ⟨(h.unknown hnew).2.2.1, hopened⟩
  record := fun type' kicked' refs' heq => by
    obtain ⟨-, -, hremoves, hkicks, -⟩ := h.unknown hnew
    cases heq
    refine ⟨fun hpos => ?_, ?_, fun _ => Int.le_refl 0, fun hpos => absurd hpos (by omega),
      fun hpos => ?_⟩
    · simp only [hkicks] at hpos
      omega
    · simp [hsfd]
    · simp only [hremoves] at hpos
      omega
  freeing := fun hfreeing => absurd hfreeing hfree
  freed := fun _ hnone => by cases hnone

-- The socket of a transport that is not registered after all is closed.
theorem Sound.failed (h : Sound v) (hnew : ¬v.known) (held opened : Descriptor → Prop)
    (hheld : ∀ d, ¬held d)
    (hfree : ¬v.freeing) : Sound { v with held := held, opened := opened, known := True } where
  unknown := fun hnot => absurd trivial hnot
  registers := h.registers
  removes := h.removes
  kicks := h.kicks
  registering := fun hpos => by
    have hnone := (h.unknown hnew).2.1
    simp only [hnone] at hpos
    omega
  record := fun type kicked refs heq => by
    have hnone := (h.unknown hnew).1
    simp only [hnone] at heq
    cases heq
  freeing := fun hfreeing => absurd hfreeing hfree
  freed := fun _ _ => hheld

end Changes

structure OwnInv (st : Handles) : Prop where
  tallied : Tallied st
  sound : ∀ t, Sound (st.view t)

-- A step that concerns one transport.
theorem OwnInv.of_one (h : OwnInv st) (tallied : Tallied after)
    (hother : ∀ u, u ≠ t → after.view u = st.view u)
    (hself : Sound (after.view t)) : OwnInv after := by
  refine ⟨tallied, fun u => ?_⟩
  by_cases hu : u = t
  · rw [hu]
    exact hself
  · rw [hother u hu]
    exact h.sound u

theorem ownInv_init : OwnInv handlesInit where
  tallied :=
    { fields := fun n t d hn => by cases hn
      own := fun c hc => by cases hc
      opened := fun t d htd => by cases htd
      unopened := fun t d _ => ⟨fun ⟨n, hn⟩ => (by cases hn), rfl⟩ }
  sound := fun t =>
    { unknown := fun _ => ⟨rfl, rfl, rfl, rfl, fun d hd => by cases hd⟩
      registers := Nat.zero_le _
      removes := Nat.zero_le _
      kicks := Nat.zero_le _
      registering := fun h => absurd h (Nat.lt_irrefl 0)
      record := fun type kicked refs hrecord => by cases hrecord
      freeing := fun h => by cases h
      freed := fun h => absurd h (Nat.not_lt_zero t) }

-- Closing a descriptor changes nothing but who holds it.
theorem Closes.view_other {c : Prop} (h : Closes st t d c after) (hu : u ≠ t) :
    after.view u = st.view u := by
  have hheld : Held after u = Held st u := by
    funext e
    exact propext ((h.held u e).trans ⟨fun hl => hl.1, fun hl => ⟨hl, fun hsame => hu hsame.2.1⟩⟩)
  unfold Handles.view
  rw [hheld, h.registry, h.kicks, h.opened]

theorem Closes.held_self {c : Prop} (h : Closes st t d c after) :
    Held after t = fun e => Held st t e ∧ ¬(c ∧ e = d) := by
  funext e
  refine propext ((h.held t e).trans ?_)
  simp

theorem Closes.view_self {c : Prop} (h : Closes st t d c after) :
    after.view t = { st.view t with held := fun e => Held st t e ∧ ¬(c ∧ e = d) } := by
  unfold Handles.view
  rw [h.held_self, h.registry, h.kicks, h.opened]

theorem Opens.view_other (h : Opens st t d after) (hu : u ≠ t) : after.view u = st.view u := by
  have hheld : Held after u = Held st u := by
    funext e
    exact propext ((h.held u e).trans ⟨fun hl => hl.elim id fun hsame => absurd hsame.1 hu, Or.inl⟩)
  have hopened : (fun e => (u, e) ∈ after.opened) = fun e => (u, e) ∈ st.opened := by
    funext e
    rw [h.opened]
    simp [hu]
  unfold Handles.view
  rw [hheld, hopened, h.registry, h.kicks]

theorem Opens.held_self (h : Opens st t d after) : Held after t = fun e => Held st t e ∨ e = d := by
  funext e
  refine propext ((h.held t e).trans ?_)
  simp

theorem Opens.opened_self (h : Opens st t d after) :
    (fun e => (t, e) ∈ after.opened) = fun e => (t, e) ∈ st.opened ∨ e = d := by
  funext e
  rw [h.opened]
  simp

theorem Opens.view_self (h : Opens st t d after) :
    after.view t = { st.view t with
      held := fun e => Held st t e ∨ e = d
      opened := fun e => (t, e) ∈ st.opened ∨ e = d } := by
  unfold Handles.view
  rw [h.held_self, h.opened_self, h.registry, h.kicks]

-- A change of the registry that none of it depends on.
theorem view_quiet
    (hcounts : ∀ u, (reg.heap u).map ATransport.counts = (st.registry.heap u).map ATransport.counts)
    (hdue : reg.due = st.registry.due) (hnext : reg.nextTransport = st.registry.nextTransport)
    (hfreeing : ∀ u, reg.main = .freeing u ↔ st.registry.main = .freeing u) (u : Nat) :
    ({ st with registry := reg }).view u = st.view u := by
  have hfree : (reg.main = .freeing u) = (st.registry.main = .freeing u) := propext (hfreeing u)
  unfold Handles.view
  simp only [hcounts, hdue, hnext, hfree]
  rfl

theorem OwnInv.quiet (h : OwnInv st)
    (hcounts : ∀ u, (reg.heap u).map ATransport.counts = (st.registry.heap u).map ATransport.counts)
    (hdue : reg.due = st.registry.due) (hnext : reg.nextTransport = st.registry.nextTransport)
    (hfreeing : ∀ u, reg.main = .freeing u ↔ st.registry.main = .freeing u) :
    OwnInv { st with registry := reg } := by
  refine ⟨h.tallied.elsewhere reg st.kicks, fun u => ?_⟩
  rw [view_quiet hcounts hdue hnext hfreeing]
  exact h.sound u

end Views

end Adb.Transport
