import Adb.Transport.ListIntegrity

namespace Adb.Transport

open Adb.Lib

inductive Answer where
  | alreadyConnected
  | unableToConnect
  | connected
deriving DecidableEq

-- made holds the transports that connect_device has made. While it opens a
-- socket to the device it keeps the main thread; connecting is its serial then.
structure Network where
  registry : Registry
  connecting : Option (List UInt8)
  made : List Nat
  answers : List (List UInt8 × Answer)

inductive NetMove where
  | connect (serial : List UInt8)
  | opened (succeeds : Bool)
  | registry (move : Move)

def networkInit : Network where
  registry := registryInit
  connecting := none
  made := []
  answers := []

def Registry.findTransport (st : Registry) (serial : List UInt8) : Except Fault (Option Nat) :=
  st.findListed fun record => decide (record.serial = some serial)

def Move.onMainThread : Move → Bool
  | .main | .unregister _ | .unregisterAllTcp => true
  | _ => false

-- Only connect_device registers a socket transport that is not local.
def Move.byConnectDevice : Move → Bool
  | .registerSocket _ _ isLocal => !isLocal
  | _ => false

def Network.answer (net : Network) (serial : List UInt8) (reply : Answer) : Network :=
  { net with answers := net.answers ++ [(serial, reply)] }

-- connect_device in two sections, as other threads run while the socket opens.
-- The serial is the one that it prints of the host.
def netStep (net : Network) : NetMove → Except Fault Network
  | .connect serial =>
      if net.registry.main = .idle ∧ net.connecting = none then do
        match ← net.registry.findTransport serial with
        | some _ => return net.answer serial .alreadyConnected
        | none => return { net with connecting := some serial }
      else
        .error .disabled
  | .opened succeeds =>
      match net.connecting with
      | none => .error .disabled
      | some serial =>
          if succeeds then
            .ok { net.answer serial .connected with
              registry := net.registry.registerTransport (Registry.socketTransport serial 0 false)
              connecting := none
              made := net.made ++ [net.registry.nextTransport] }
          else
            .ok { net.answer serial .unableToConnect with connecting := none }
  | .registry move =>
      if (move.onMainThread ∧ net.connecting ≠ none) ∨ move.byConnectDevice then
        .error .disabled
      else do
        let registry ← step net.registry move
        return { net with registry }

def Registry.serial (st : Registry) (t : Nat) : Option (List UInt8) :=
  (st.heap t).bind (·.serial)

-- Following next from transport_list comes to the transport.
def Registry.Listed (st : Registry) (t : Nat) : Prop :=
  Relation.ReflTransGen (fun r n => st.links.next r = some n) .transportList (.transport t)

def NoDuplicateDevice (net : Network) : Prop :=
  ∀ t ∈ net.made, ∀ u ∈ net.made, net.registry.Listed t → net.registry.Listed u →
    ∀ serial, net.registry.serial t = some serial → net.registry.serial u = some serial → t = u

def BeingRegistered (net : Network) (serial : List UInt8) : Prop :=
  ∃ t ∈ net.made, net.registry.serial t = some serial ∧
    (net.registry.Listed t ∨ t ∈ net.registry.waiting)

def AnsweredAlready (net : Network) (serial : List UInt8) : Prop :=
  ∀ after, netStep net (.connect serial) = .ok after →
    after.answers = net.answers ++ [(serial, .alreadyConnected)]

-- A client connects only when no transport that was made for the serial waits to
-- be put on the list, and no unlinking breaks the list.
def ConnectsApart (net : Network) : NetMove → Prop
  | .connect serial =>
      ∀ t ∈ net.made, t ∈ net.registry.waiting → net.registry.serial t ≠ some serial
  | .opened _ => True
  | .registry move => UnlinksSafely net.registry move

instance (net : Network) (move : NetMove) : Decidable (ConnectsApart net move) := by
  cases move <;> unfold ConnectsApart <;> infer_instance

def Registry.Pending (st : Registry) (t : Nat) : Prop :=
  st.onList t = true ∨ t ∈ st.waiting

section Carried

-- No transport that was there before comes to be on its way to the list, and
-- none gets another serial.
structure Carries (st after : Registry) : Prop where
  known : st.nextTransport ≤ after.nextTransport
  pending : ∀ t, t < st.nextTransport → after.Pending t → st.Pending t
  serial : ∀ t, t < st.nextTransport → ∀ s, after.serial t = some s → st.serial t = some s

variable {st mid after : Registry} {t : Nat}

theorem Carries.refl (st : Registry) : Carries st st :=
  ⟨Nat.le_refl _, fun _ _ h => h, fun _ _ _ h => h⟩

theorem Carries.trans (h : Carries st mid) (h' : Carries mid after) : Carries st after where
  known := Nat.le_trans h.known h'.known
  pending := fun t ht hp => h.pending t ht (h'.pending t (Nat.lt_of_lt_of_le ht h.known) hp)
  serial := fun t ht s hs => h.serial t ht s (h'.serial t (Nat.lt_of_lt_of_le ht h.known) s hs)

theorem Carries.of_pending (hheap : after.heap = st.heap) (hnext : after.nextTransport = st.nextTransport)
    (hlist : ∀ t, after.onList t = true → st.Pending t)
    (hwait : ∀ t, t ∈ after.waiting → t ∈ st.waiting) : Carries st after where
  known := Nat.le_of_eq hnext.symm
  pending := by
    intro t _ hp
    rcases hp with hon | hw
    · exact hlist t hon
    · exact Or.inr (hwait t hw)
  serial := by
    intro t _ s hs
    rw [Registry.serial, hheap] at hs
    exact hs

theorem setRecord_carries {record other : ATransport} (hr : st.heap t = some record)
    (hserial : other.serial = record.serial) : Carries st (st.setRecord t other) where
  known := Nat.le_refl _
  pending := fun _ _ h => h
  serial := by
    intro u _ s hs
    by_cases hut : u = t
    · subst hut
      simp only [Registry.serial, Registry.setRecord_heap_self, Option.bind_some] at hs
      simpa [Registry.serial, hr, ← hserial] using hs
    · simpa [Registry.serial, Registry.setRecord, hut] using hs

theorem removeTransport_carries (st : Registry) (t : Nat) : Carries st (st.removeTransport t) := by
  have hwait : (st.removeTransport t).waiting = st.waiting := by
    simp [Registry.waiting, Registry.removeTransport, Registry.post, TMsg.registered]
  exact Carries.of_pending rfl rfl (fun _ => Or.inl) fun u hu => hwait ▸ hu

theorem kick_carries (hk : st.kickTransport t = .ok after) : Carries st after := by
  obtain ⟨record, hr, rfl⟩ := Registry.kickTransport_ok hk
  exact setRecord_carries hr rfl

theorem unref_carries (hu : st.transportUnrefLocked t = .ok after) : Carries st after := by
  simp only [Registry.transportUnrefLocked, bind, Except.bind] at hu
  split at hu
  · cases hu
  · rename_i record hr
    have hrecord := Registry.deref_ok hr
    split at hu
    · cases hu
      apply Carries.trans (setRecord_carries hrecord _) (removeTransport_carries _ t)
      unfold Registry.closeRecord
      split <;> rfl
    · cases hu
      exact setRecord_carries hrecord rfl

theorem unlink_carries (hu : st.unlinkTransport t = .ok after) : Carries st after := by
  obtain ⟨links, -, rfl⟩ := Registry.unlinkTransport_ok hu
  apply Carries.of_pending
  · rfl
  · rfl
  · intro u hu
    by_cases hut : u = t
    · simp [hut] at hu
    · exact Or.inl (by simpa [hut] using hu)
  · exact fun u hu => hu

theorem link_carries (hm : st.main = .linking t) (hl : st.linkTransport t = .ok after) :
    Carries st { after with main := .idle } := by
  obtain ⟨-, links, -, rfl⟩ := Registry.linkTransport_ok hl
  have hwait : ∀ u, u ∈ st.mailbox.filterMap TMsg.registered → u ∈ st.waiting :=
    fun u => List.mem_append_right _
  apply Carries.of_pending
  · rfl
  · rfl
  · intro u hu
    by_cases hut : u = t
    · subst hut
      exact Or.inr (by simp [Registry.waiting, hm, MainAt.beginning])
    · exact Or.inl (by simpa [hut] using hu)
  · exact hwait

theorem free_carries (st : Registry) (t : Nat) :
    Carries st { st with heap := Function.update st.heap t none, main := .idle } where
  known := Nat.le_refl _
  pending := by
    intro u _ hp
    exact hp.imp id (List.mem_append_right _)
  serial := by
    intro u _ s hs
    by_cases hut : u = t
    · simp [Registry.serial, hut] at hs
    · simpa [Registry.serial, hut] using hs

theorem setThread_carries (st : Registry) (t : Nat) (thread : Thread) (phase : ThreadAt) :
    Carries st (st.setThread t thread phase) :=
  Carries.of_pending rfl rfl (fun _ => Or.inl) fun _ hu => hu

theorem register_carries (st : Registry) (record : ATransport) :
    Carries st (st.registerTransport record) where
  known := Nat.le_succ _
  pending := by
    intro u hu hp
    apply hp.imp id
    intro hw
    rw [register_waiting, List.mem_append, List.mem_singleton] at hw
    exact hw.resolve_right (Nat.ne_of_lt hu)
  serial := by
    intro u hu s hs
    have hne : u ≠ st.nextTransport := by omega
    simpa [Registry.serial, Registry.registerTransport, Registry.post, Registry.setRecord, hne] using hs

-- The main loop moves on.
theorem Carries.main (h : Carries st after) (main : MainAt)
    (hwait : ∀ t ∈ main.beginning, t ∈ after.main.beginning) : Carries st { after with main := main } := by
  apply h.trans
  apply Carries.of_pending
  · rfl
  · rfl
  · exact fun _ => Or.inl
  · intro t ht
    rcases List.mem_append.mp ht with ht | ht
    · exact List.mem_append_left _ (hwait t ht)
    · exact List.mem_append_right _ ht

theorem mainStep_carries (hs : mainStep st = .ok after) : Carries st after := by
  simp only [mainStep, bind, Except.bind] at hs
  split at hs
  case h_1 hm =>
    split at hs
    · cases hs
    · rename_i t rest hbox
      cases hs
      refine Carries.of_pending rfl rfl (fun _ => Or.inl) fun u hu => ?_
      simpa [Registry.waiting, hm, hbox, MainAt.beginning, TMsg.registered] using hu
    · rename_i t rest hbox
      cases hs
      refine Carries.of_pending rfl rfl (fun _ => Or.inl) fun u hu => ?_
      simpa [Registry.waiting, hm, hbox, MainAt.beginning, TMsg.registered] using hu
  case h_2 t hm =>
    split at hs
    · cases hs
    · rename_i unlinked hu
      cases hs
      exact (unlink_carries hu).main _ (by simp [MainAt.beginning])
  case h_3 t hm =>
    split at hs
    · cases hs
    · cases hs
      exact free_carries st t
  case h_4 t hm =>
    split at hs
    · cases hs
    · rename_i record hr
      split at hs
      · cases hs
        have hset : Carries st (st.setRecord t { record with refCount := 2 }) :=
          setRecord_carries (Registry.deref_ok hr) rfl
        apply (hset.trans (setThread_carries _ t .input .running)).main
        simp [hm, MainAt.beginning, Registry.setRecord, Registry.setThread]
      · cases hs
        exact (Carries.refl st).main _ (by simp [hm, MainAt.beginning])
  case h_5 t hm =>
    cases hs
    exact (setThread_carries st t .output .running).main _
      (by simp [hm, MainAt.beginning, Registry.setThread])
  case h_6 t hm =>
    split at hs
    · cases hs
    · rename_i linked hl
      cases hs
      exact link_carries hm hl
  case h_7 t hm =>
    split at hs
    · cases hs
    · rename_i unlinked hu
      cases hs
      exact (unlink_carries hu).main _ (by simp [MainAt.beginning])
  case h_8 t hm =>
    split at hs
    · cases hs
    · rename_i kicked hk
      cases hs
      exact (kick_carries hk).main _ (by simp [MainAt.beginning])
  case h_9 t hm =>
    split at hs
    · cases hs
    · rename_i dropped hd
      cases hs
      exact (unref_carries hd).main _ (by simp [MainAt.beginning])

theorem threadStep_carries {thread : Thread} (hs : threadStep st t thread = .ok after) :
    Carries st after := by
  simp only [threadStep, bind, Except.bind] at hs
  split at hs
  · split at hs
    · cases hs
    · rename_i kicked hk
      cases hs
      exact (kick_carries hk).trans (setThread_carries ..)
  · split at hs
    · cases hs
    · rename_i dropped hd
      cases hs
      exact (unref_carries hd).trans (setThread_carries ..)
  · cases hs

theorem unregisterTcpFrom_carries {fuel : Nat} {r : TRef}
    (hs : Registry.unregisterTcpFrom fuel r st = .ok after) : Carries st after := by
  induction fuel generalizing r st with
  | zero => cases hs
  | succ fuel ih =>
      cases r with
      | transportList =>
          cases hs
          exact Carries.refl _
      | transport t =>
          obtain ⟨record, next, -, -, hturn⟩ := Registry.unregisterTcpFrom_turn hs
          obtain ⟨-, unlinked, kicked, dropped, hu, hk, hd, hs⟩ | ⟨-, hs⟩ := hturn
          · have hdropped := (unlink_carries hu).trans ((kick_carries hk).trans (unref_carries hd))
            exact hdropped.trans (ih hs)
          · exact ih hs

theorem step_carries {move : Move} (hs : step st move = .ok after) : Carries st after := by
  cases move with
  | registerSocket serial adbPort isLocal =>
      cases hs
      exact register_carries st _
  | registerUsb usb serial writeable =>
      cases hs
      exact register_carries st _
  | main => exact mainStep_carries hs
  | thread t thread => exact threadStep_carries hs
  | unregister serial =>
      simp only [step, bind, Except.bind] at hs
      split at hs
      · split at hs
        · cases hs
        · split at hs
          · cases hs
            exact (Carries.refl st).main _ (by simp [MainAt.beginning])
          · cases hs
            exact Carries.refl st
      · cases hs
  | unregisterAllTcp =>
      simp only [step, Registry.unregisterAllTcpTransports] at hs
      split at hs
      · split at hs
        · exact unregisterTcpFrom_carries hs
        · cases hs
      · cases hs
  | unregisterUsb usb =>
      simp only [step, Registry.unregisterUsbTransport, bind, Except.bind] at hs
      split at hs
      · cases hs
      · split at hs
        · exact unlink_carries hs
        · cases hs
          exact Carries.refl st

end Carried

section Search

variable {st : Registry} {test : ATransport → Bool}

-- A search that comes to the head has looked at every transport behind a.
theorem findFrom_none {ts : List Nat} {a r : TRef} {fuel : Nat}
    (hl : st.links.Linked a (ts.map .transport) .transportList) (hr : st.links.next a = some r)
    (hf : st.findFrom test fuel r = .ok none) {t : Nat} (ht : t ∈ ts) {record : ATransport}
    (hrecord : st.heap t = some record) : test record = false := by
  induction ts generalizing a r fuel with
  | nil => cases ht
  | cons u us ih =>
      obtain ⟨hnext, -, hrest⟩ := hl
      obtain rfl : r = .transport u := Option.some.inj (hr.symm.trans hnext)
      cases fuel with
      | zero => cases hf
      | succ fuel =>
          simp only [Registry.findFrom, bind, Except.bind] at hf
          split at hf
          · cases hf
          · rename_i found hd
            split at hf
            · cases hf
            · rename_i htest
              split at hf
              · rename_i next hn
                rcases List.mem_cons.mp ht with rfl | ht
                · have hsame := (Registry.deref_ok hd).symm.trans hrecord
                  obtain rfl := Option.some.inj hsame
                  simpa using htest
                · exact ih hrest hn hf ht
              · cases hf

theorem findTransport_none (h : RegistryInv st) {serial : List UInt8}
    (hf : st.findTransport serial = .ok none) {t : Nat} (ht : st.onList t = true) :
    st.serial t ≠ some serial := by
  obtain ⟨ts, hring, hts, hlive⟩ := h.integrity
  have hmem := (hts t).mpr ht
  obtain ⟨record, hrecord⟩ := Option.isSome_iff_exists.mp (hlive t hmem)
  unfold Registry.findTransport Registry.findListed at hf
  split at hf
  · rename_i first hfirst
    have htest := findFrom_none hring.1 hfirst hf hmem hrecord
    simpa [Registry.serial, hrecord] using htest
  · cases hf

theorem Registry.Listed.onList (h : RegistryInv st) {t : Nat} (hl : st.Listed t) : st.onList t = true := by
  have hring : ∀ r, Relation.ReflTransGen (fun r n => st.links.next r = some n) .transportList r →
      st.onRing r := by
    intro r hr
    induction hr with
    | refl => trivial
    | tail _ hn ih => exact h.next_onRing ih hn
  exact hring _ hl

end Search

section Devices

structure NetworkInv (net : Network) : Prop where
  registry : RegistryInv net.registry
  made_known : ∀ t ∈ net.made, t < net.registry.nextTransport
  apart : ∀ t ∈ net.made, ∀ u ∈ net.made, net.registry.Pending t → net.registry.Pending u →
    ∀ serial, net.registry.serial t = some serial → net.registry.serial u = some serial → t = u
  connecting : ∀ serial, net.connecting = some serial →
    ∀ t ∈ net.made, net.registry.Pending t → net.registry.serial t ≠ some serial

variable {net after : Network}

theorem networkInv_init : NetworkInv networkInit where
  registry := registryInv_init
  made_known := by simp [networkInit]
  apart := by simp [networkInit]
  connecting := by simp [networkInit]

-- The registry goes on, and connect_device may be done or stay where it is.
theorem NetworkInv.carried (h : NetworkInv net) {registry : Registry} (hinv : RegistryInv registry)
    (hc : Carries net.registry registry) (answers : List (List UInt8 × Answer))
    {connecting : Option (List UInt8)} (hcon : ∀ serial, connecting = some serial → net.connecting = some serial) :
    NetworkInv ⟨registry, connecting, net.made, answers⟩ where
  registry := hinv
  made_known := fun t ht => Nat.lt_of_lt_of_le (h.made_known t ht) hc.known
  apart := by
    intro t ht u hu hpt hpu serial hst hsu
    have htk := h.made_known t ht
    have huk := h.made_known u hu
    exact h.apart t ht u hu (hc.pending t htk hpt) (hc.pending u huk hpu) serial
      (hc.serial t htk serial hst) (hc.serial u huk serial hsu)
  connecting := by
    intro serial hs t ht hpt hst
    have htk := h.made_known t ht
    exact h.connecting serial (hcon serial hs) t ht (hc.pending t htk hpt) (hc.serial t htk serial hst)

-- The new transport is the only one of its serial on its way to the list.
theorem NetworkInv.connected (h : NetworkInv net) {serial : List UInt8} (hcon : net.connecting = some serial)
    (answers : List (List UInt8 × Answer)) :
    NetworkInv ⟨net.registry.registerTransport (Registry.socketTransport serial 0 false), none,
      net.made ++ [net.registry.nextTransport], answers⟩ := by
  have hc := register_carries net.registry (Registry.socketTransport serial 0 false)
  have hnew : ∀ s, (net.registry.registerTransport (Registry.socketTransport serial 0 false)).serial
      net.registry.nextTransport = some s → s = serial := by
    intro s hs
    simp only [Registry.serial, Registry.registerTransport, Registry.post, Registry.setRecord,
      Function.update_self, Registry.socketTransport, Option.bind_some, Option.some.injEq] at hs
    exact hs.symm
  have hold : ∀ t ∈ net.made, (net.registry.registerTransport (Registry.socketTransport serial 0 false)).Pending t →
      (net.registry.registerTransport (Registry.socketTransport serial 0 false)).serial t ≠ some serial := by
    intro t ht hpt hst
    have htk := h.made_known t ht
    exact h.connecting serial hcon t ht (hc.pending t htk hpt) (hc.serial t htk serial hst)
  exact {
    registry := register_keeps h.registry _
    made_known := by
      intro t ht
      show t < net.registry.nextTransport + 1
      rcases List.mem_append.mp ht with ht | ht
      · have htk := h.made_known t ht
        omega
      · have heq := List.mem_singleton.mp ht
        omega
    apart := by
      intro t ht u hu hpt hpu s hst hsu
      rw [List.mem_append, List.mem_singleton] at ht hu
      rcases ht with ht | ht <;> rcases hu with hu | hu
      · exact (h.carried (register_keeps h.registry _) hc [] (fun _ h => h)).apart t ht u hu hpt hpu s hst hsu
      · subst hu
        obtain rfl := hnew s hsu
        exact absurd hst (hold t ht hpt)
      · subst ht
        obtain rfl := hnew s hst
        exact absurd hsu (hold u hu hpu)
      · omega
    connecting := by simp }

theorem netStep_keeps (net : Network) (move : NetMove) (after : Network) (h : NetworkInv net)
    (hg : ConnectsApart net move) (hs : netStep net move = .ok after) : NetworkInv after := by
  cases move with
  | connect serial =>
      simp only [netStep, bind, Except.bind] at hs
      split at hs
      · split at hs
        · cases hs
        · rename_i found hf
          split at hs
          · cases hs
            exact h.carried h.registry (Carries.refl _) _ (fun _ h => h)
          · cases hs
            refine ⟨h.registry, h.made_known, h.apart, ?_⟩
            intro s hcon t ht hpt
            obtain rfl := Option.some.inj hcon
            rcases hpt with hon | hw
            · exact findTransport_none h.registry hf hon
            · exact hg t ht hw
      · cases hs
  | opened succeeds =>
      simp only [netStep] at hs
      split at hs
      · cases hs
      · rename_i serial hcon
        split at hs
        · cases hs
          exact h.connected hcon _
        · cases hs
          exact h.carried h.registry (Carries.refl _) _ (by simp)
  | registry move =>
      simp only [netStep, bind, Except.bind] at hs
      split at hs
      · cases hs
      · split at hs
        · cases hs
        · rename_i registry hstep
          cases hs
          exact h.carried (step_keeps _ move _ h.registry hg hstep) (step_carries hstep) _ (fun _ h => h)

-- A listed transport of the serial is found.
theorem NetworkInv.answeredAlready (h : NetworkInv net) {serial : List UInt8} {t : Nat}
    (hon : net.registry.onList t = true) (hserial : net.registry.serial t = some serial) :
    AnsweredAlready net serial := by
  intro after hs
  simp only [netStep, bind, Except.bind] at hs
  split at hs
  · split at hs
    · cases hs
    · rename_i found hf
      split at hs
      · cases hs
        rfl
      · exact absurd hserial (findTransport_none h.registry hf hon)
  · cases hs

-- In every run in which no connect comes while a transport for its serial waits
-- for its registration message, the list has one device of each serial at most,
-- and a further connect is told so.
theorem no_duplicate_network_device (moves : List NetMove) (net : Network)
    (hg : Guarded netStep ConnectsApart networkInit moves) (hr : run netStep networkInit moves = .ok net) :
    NoDuplicateDevice net ∧
      ∀ serial, ConnectsApart net (.connect serial) → BeingRegistered net serial →
        AnsweredAlready net serial := by
  have hinv : NetworkInv net := guarded_invariant netStep_keeps networkInv_init hg hr
  constructor
  · intro t ht u hu hlt hlu
    exact hinv.apart t ht u hu (Or.inl (hlt.onList hinv.registry)) (Or.inl (hlu.onList hinv.registry))
  · intro serial happart hbeing
    obtain ⟨t, ht, hserial, hlisted | hwaits⟩ := hbeing
    · exact hinv.answeredAlready (hlisted.onList hinv.registry) hserial
    · exact absurd hserial (happart t ht hwaits)

def registrationMoves : List NetMove := List.replicate 4 (.registry .main)

-- The second connect comes when the registration message of the first has been
-- handled, the third is for another device.
theorem no_duplicate_network_device_of_two_devices :
    ∃ net, net.made = [0, 1] ∧ net.answers.map Prod.snd = [.connected, .alreadyConnected, .connected] ∧
      NoDuplicateDevice net :=
  ⟨_, rfl, rfl, (no_duplicate_network_device
    ([.connect [97], .opened true] ++ registrationMoves ++ [.connect [97], .connect [98], .opened true] ++
      registrationMoves) _ (by decide) rfl).1⟩

-- The second connect comes before the registration message is read.
theorem second_connect_makes_a_duplicate :
    ¬ ∀ (moves : List NetMove) (net : Network), run netStep networkInit moves = .ok net →
      NoDuplicateDevice net ∧
        ∀ serial, BeingRegistered net serial → AnsweredAlready net serial := by
  intro h
  have hdup := (h ([.connect [97], .opened true, .connect [97], .opened true] ++ registrationMoves ++
    registrationMoves) _ rfl).1
  have hsame := hdup 0 (by decide) 1 (by decide) (Relation.ReflTransGen.single rfl)
    (Relation.ReflTransGen.tail (Relation.ReflTransGen.single (b := .transport 0) rfl) rfl) [97] rfl rfl
  cases hsame

end Devices

end Adb.Transport
