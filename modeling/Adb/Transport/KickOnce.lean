import Adb.Transport.Lifetime

namespace Adb.Transport

open Adb.Lib

-- Who calls kick_transport: a thread of a transport, the main loop in
-- unregister_transport, or any other thread.
inductive Party where
  | thread (t : Nat) (thread : Thread)
  | main
  | other (n : Nat)
deriving DecidableEq

-- A kick_transport that has set kicked and released the lock. It is about to call
-- t->kick, or inside of it.
structure Flight where
  party : Party
  transport : Nat
  inside : Bool

-- How often t->kick has been called, and whether it has returned, is recorded.
structure KickState where
  registry : Registry
  flights : List Flight
  calls : Nat → Nat
  returned : Nat → Bool

def kickInit : KickState where
  registry := registryInit
  flights := []
  calls := fun _ => 0
  returned := fun _ => false

namespace Registry

def isKicked (reg : Registry) (t : Nat) : Bool :=
  match reg.heap t with
  | some record => record.kicked
  | none => false

-- The loop of close_usb_devices.
def closeUsbFrom : Nat → TRef → Registry → Except Fault Registry
  | 0, _, _ => .error .endless
  | _ + 1, .transportList, reg => .ok reg
  | fuel + 1, .transport t, reg => do
      let reg ← reg.kickTransport t
      match reg.links.next (.transport t) with
      | none => .error .nullPointer
      | some next => closeUsbFrom fuel next reg

def closeUsbDevices (reg : Registry) : Except Fault Registry :=
  match reg.links.next .transportList with
  | some first => closeUsbFrom (reg.nextTransport + 1) first reg
  | none => .error .nullPointer

end Registry

namespace KickState

-- Whoever sets kicked under the lock calls t->kick there and then.
def locked (st : KickState) (after : Registry) : KickState :=
  let kicks := fun t => !st.registry.isKicked t && after.isKicked t
  { st with
    registry := after
    calls := fun t => if kicks t then st.calls t + 1 else st.calls t
    returned := fun t => kicks t || st.returned t }

-- kick_transport calls it later, if kicked was not set before.
def unlocked (st : KickState) (p : Party) (t : Nat) (after : Registry) : KickState :=
  { st with
    registry := after
    flights := if st.registry.isKicked t then st.flights else ⟨p, t, false⟩ :: st.flights }

def busy (st : KickState) (p : Party) : Bool := st.flights.any fun f => f.party = p

def kickReturns (st : KickState) (p : Party) (f : Flight) : KickState :=
  { st with
    flights := st.flights.filter fun g => g.party ≠ p
    returned := Function.update st.returned f.transport true }

def kickCalled (st : KickState) (p : Party) (f : Flight) : KickState :=
  { st with
    flights := st.flights.map fun g => if g.party = p then { g with inside := true } else g
    calls := Function.update st.calls f.transport (st.calls f.transport + 1) }

end KickState

-- kick goes on with the kick_transport of a party: into t->kick, or out of it.
inductive KickMove where
  | registry (move : Move)
  | kick (p : Party)
  | kickTransport (n t : Nat)
  | closeUsbDevices

-- Who takes a step of the registry. Registrations come from anywhere.
def Move.party : Move → Option Party
  | .thread t which => some (.thread t which)
  | .main | .unregister _ | .unregisterAllTcp => some .main
  | .registerSocket _ _ _ | .registerUsb _ _ _ | .unregisterUsb _ => none

-- The kick_transport that a step of the registry is the first part of.
def Move.kicking (reg : Registry) : Move → Option (Party × Nat)
  | .thread t which => if reg.threads t which = .running then some (.thread t which, t) else none
  | .main =>
      match reg.main with
      | .unregKick t => some (.main, t)
      | _ => none
  | _ => none

def kickStep (st : KickState) : KickMove → Except Fault KickState
  | .registry move =>
      if move.party.any st.busy then
        .error .disabled
      else do
        let after ← step st.registry move
        match move.kicking st.registry with
        | some (p, t) => return st.unlocked p t after
        | none => return st.locked after
  | .kick p =>
      match st.flights.find? fun f => f.party = p with
      | none => .error .disabled
      | some f =>
          if f.inside then
            .ok (st.kickReturns p f)
          else do
            let _ ← st.registry.deref f.transport
            return st.kickCalled p f
  | .kickTransport n t =>
      if st.busy (.other n) then
        .error .disabled
      else do
        let after ← st.registry.kickTransport t
        return st.unlocked (.other n) t after
  | .closeUsbDevices => do
      let after ← st.registry.closeUsbDevices
      return st.locked after

-- No kick_transport of the transport is on its way.
def Calm (flights : List Flight) (t : Nat) : Prop := ∀ f ∈ flights, f.transport ≠ t

-- A reference is dropped here, and if it is the last one that is so.
def DropsCalmly (flights : List Flight) (reg : Registry) (t : Nat) : Prop :=
  match reg.heap t with
  | some record => record.refCount = 1 → Calm flights t
  | none => True

-- The same for each that the loop of unregister_all_tcp_transports drops.
def TcpDropsCalmly (flights : List Flight) : Nat → TRef → Registry → Prop
  | fuel + 1, .transport t, reg =>
      match reg.heap t, reg.links.next (.transport t) with
      | some record, some next =>
          if Registry.isTcp record then
            DropsCalmly flights reg t ∧
              match reg.unlinkTransport t >>= (·.kickTransport t) >>= (·.transportUnrefLocked t) with
              | .ok reg => TcpDropsCalmly flights fuel next reg
              | .error _ => True
          else
            TcpDropsCalmly flights fuel next reg
      | _, _ => True
  | _, _, _ => True

-- Whenever the last reference to a transport is dropped, no kick_transport of it
-- that has set kicked is still to call t->kick or inside of it.
def KicksReturned (st : KickState) : KickMove → Prop
  | .registry (.thread t thread) =>
      st.registry.threads t thread = .unref → DropsCalmly st.flights st.registry t
  | .registry .main =>
      match st.registry.main with
      | .unregUnref t => DropsCalmly st.flights st.registry t
      | _ => True
  | .registry .unregisterAllTcp =>
      match st.registry.links.next .transportList with
      | some first => TcpDropsCalmly st.flights (st.registry.nextTransport + 1) first st.registry
      | none => True
  | _ => True

instance (flights : List Flight) (t : Nat) : Decidable (Calm flights t) :=
  inferInstanceAs (Decidable (∀ f ∈ flights, f.transport ≠ t))

instance (flights : List Flight) (reg : Registry) (t : Nat) : Decidable (DropsCalmly flights reg t) := by
  unfold DropsCalmly
  split <;> infer_instance

instance decidableTcpDropsCalmly (flights : List Flight) :
    ∀ fuel r reg, Decidable (TcpDropsCalmly flights fuel r reg)
  | 0, _, _ => .isTrue (by unfold TcpDropsCalmly; trivial)
  | _ + 1, .transportList, _ => .isTrue (by unfold TcpDropsCalmly; trivial)
  | fuel + 1, .transport t, reg => by
      have ih := decidableTcpDropsCalmly flights fuel
      unfold TcpDropsCalmly
      split
      · split
        · refine @instDecidableAnd _ _ inferInstance ?_
          split
          · exact ih _ _
          · infer_instance
        · exact ih _ _
      · infer_instance

instance (st : KickState) (move : KickMove) : Decidable (KicksReturned st move) := by
  unfold KicksReturned
  split
  · infer_instance
  · split <;> infer_instance
  · split <;> infer_instance
  · infer_instance

-- t->kick is called once at most, t->close only when it has returned, and nothing
-- is freed before that.
structure KickedOnce (st : KickState) : Prop where
  once : ∀ t, st.calls t ≤ 1
  closed : ∀ t, st.registry.removals t ≠ 0 → st.calls t = 1 ∧ st.returned t = true
  freed : ∀ t < st.registry.nextTransport, st.registry.heap t = none →
    st.calls t = 1 ∧ st.returned t = true

section Invariant

variable {st : KickState} {reg mid after : Registry} {flights : List Flight} {t : Nat} {p : Party}

theorem isKicked_of {record : ATransport} (h : reg.heap t = some record) : reg.isKicked t = record.kicked := by
  rw [Registry.isKicked, h]

theorem isKicked_dead (h : reg.heap t = none) : reg.isKicked t = false := by
  rw [Registry.isKicked, h]

theorem exists_of_isKicked (h : reg.isKicked t = true) :
    ∃ record, reg.heap t = some record ∧ record.kicked = true := by
  cases hr : reg.heap t with
  | none =>
      rw [isKicked_dead hr] at h
      cases h
  | some record =>
      rw [isKicked_of hr] at h
      exact ⟨record, rfl, h⟩

-- Nothing has been done to kick the transport.
structure Untouched (st : KickState) (t : Nat) : Prop where
  calls : st.calls t = 0
  returned : st.returned t = false
  calm : Calm st.flights t

structure KickInv (st : KickState) : Prop where
  fresh : ∀ t, st.registry.nextTransport ≤ t →
    st.registry.heap t = none ∧ st.registry.removals t = 0 ∧ Untouched st t
  sent : ∀ t, ⟨t, .remove⟩ ∈ st.registry.inFlight → st.registry.removals t ≠ 0
  freed : ∀ t < st.registry.nextTransport, st.registry.heap t = none → st.registry.removals t ≠ 0
  unkicked : ∀ t record, st.registry.heap t = some record → record.kicked = false → Untouched st t
  kicked : ∀ t, st.registry.isKicked t = true → st.returned t = true ∨ ∃ f ∈ st.flights, f.transport = t
  flying : ∀ f ∈ st.flights, st.returned f.transport = false ∧
    st.calls f.transport = if f.inside then 1 else 0
  transports : (st.flights.map (·.transport)).Nodup
  parties : (st.flights.map (·.party)).Nodup
  returned : ∀ t, st.returned t = true → st.calls t = 1
  closed : ∀ t, st.registry.removals t ≠ 0 → st.returned t = true

theorem kickInv_init : KickInv kickInit where
  fresh := fun t _ => ⟨rfl, rfl, rfl, rfl, fun _ hf => by cases hf⟩
  sent := fun t ht => by cases ht
  freed := fun t ht => absurd ht (Nat.not_lt_zero t)
  unkicked := fun t record hr => by cases hr
  kicked := fun t hk => by cases hk
  flying := fun f hf => by cases hf
  transports := List.nodup_nil
  parties := List.nodup_nil
  returned := fun t ht => by cases ht
  closed := fun t ht => absurd rfl ht

theorem KickInv.kickedOnce (h : KickInv st) : KickedOnce st where
  once := by
    intro t
    have hzero : Untouched st t → st.calls t ≤ 1 := fun hu => by rw [hu.calls]; omega
    have hone : st.returned t = true → st.calls t ≤ 1 := fun hr => Nat.le_of_eq (h.returned t hr)
    cases hr : st.registry.heap t with
    | none =>
        by_cases ht : t < st.registry.nextTransport
        · exact hone (h.closed t (h.freed t ht hr))
        · exact hzero (h.fresh t (Nat.not_lt.mp ht)).2.2
    | some record =>
        cases hk : record.kicked with
        | false => exact hzero (h.unkicked t record hr hk)
        | true =>
            obtain hret | ⟨f, hf, rfl⟩ := h.kicked t (by rw [isKicked_of hr, hk])
            · exact hone hret
            · rw [(h.flying f hf).2]
              split <;> omega
  closed := fun t ht => ⟨h.returned t (h.closed t ht), h.closed t ht⟩
  freed := fun t ht hr =>
    ⟨h.returned t (h.closed t (h.freed t ht hr)), h.closed t (h.freed t ht hr)⟩

-- What a section under the lock does to the transports, where nobody is on his way
-- to kick one that is closed.
structure Section (flights : List Flight) (reg after : Registry) : Prop where
  next : reg.nextTransport ≤ after.nextTransport
  live : ∀ t record, after.heap t = some record → t < after.nextTransport ∧
    ((reg.nextTransport ≤ t ∧ record.kicked = false) ∨
      ∃ before, reg.heap t = some before ∧ (before.kicked = true → record.kicked = true))
  dead : ∀ t < after.nextTransport, after.heap t = none →
    (t < reg.nextTransport ∧ reg.heap t = none) ∨ after.removals t ≠ 0
  removals : ∀ t, after.removals t ≠ 0 → reg.removals t ≠ 0 ∨
    ((reg.heap t).isSome ∧ after.isKicked t = true ∧ Calm flights t)
  removed : ∀ t, reg.removals t ≠ 0 → after.removals t ≠ 0
  sent : ∀ t, ⟨t, .remove⟩ ∈ after.inFlight → ⟨t, .remove⟩ ∈ reg.inFlight ∨ after.removals t ≠ 0

-- Whom the section kicks has not been kicked before.
theorem Section.kicks (hs : Section st.flights st.registry after) (h : KickInv st)
    (hkicks : (!st.registry.isKicked t && after.isKicked t) = true) : Untouched st t := by
  rw [Bool.and_eq_true, Bool.not_eq_true'] at hkicks
  obtain ⟨record, hr, hk⟩ := exists_of_isKicked hkicks.2
  obtain ⟨-, ⟨-, hnot⟩ | ⟨before, hb, -⟩⟩ := hs.live t record hr
  · rw [hnot] at hk
    cases hk
  · rw [isKicked_of hb] at hkicks
    exact h.unkicked t before hb hkicks.1

theorem KickInv.locked (h : KickInv st) (hs : Section st.flights st.registry after) :
    KickInv (st.locked after) := by
  have hkept : ∀ t, (!st.registry.isKicked t && after.isKicked t) = false →
      (st.locked after).calls t = st.calls t ∧ (st.locked after).returned t = st.returned t := by
    intro t hnot
    simp only [KickState.locked, hnot, Bool.false_eq_true, if_false, Bool.false_or, and_self]
  have hkicked : ∀ t, (!st.registry.isKicked t && after.isKicked t) = true →
      (st.locked after).calls t = 1 ∧ (st.locked after).returned t = true := by
    intro t hkicks
    simp only [KickState.locked, hkicks, if_true, (hs.kicks h hkicks).calls, Bool.true_or, and_self]
  have huntouched : ∀ t, Untouched st t → after.isKicked t = false → Untouched (st.locked after) t := by
    intro t hu hnot
    obtain ⟨hcalls, hreturned⟩ := hkept t (by rw [hnot, Bool.and_false])
    exact ⟨hcalls.trans hu.calls, hreturned.trans hu.returned, hu.calm⟩
  have hstays : ∀ t, st.returned t = true → (st.locked after).returned t = true := by
    intro t hret
    simp only [KickState.locked, hret, Bool.or_true]
  have hnone : ∀ t, after.nextTransport ≤ t → after.heap t = none := by
    intro t ht
    cases hr : after.heap t with
    | none => rfl
    | some record =>
        have hlt := (hs.live t record hr).1
        omega
  refine ⟨fun t ht => ?_, fun t ht => ?_, fun t ht hr => ?_, fun t record hr hk => ?_, fun t hk => ?_,
    fun f hf => ?_, h.transports, h.parties, fun t ht => ?_, fun t ht => ?_⟩
  · obtain ⟨hdead, hzero, hu⟩ := h.fresh t (Nat.le_trans hs.next ht)
    refine ⟨hnone t ht, ?_, huntouched t hu (isKicked_dead (hnone t ht))⟩
    by_contra hne
    obtain hold | ⟨hlive, -⟩ := hs.removals t hne
    · exact hold hzero
    · rw [hdead] at hlive
      cases hlive
  · obtain hold | hnew := hs.sent t ht
    · exact hs.removed t (h.sent t hold)
    · exact hnew
  · obtain ⟨hlt, hold⟩ | hnew := hs.dead t ht hr
    · exact hs.removed t (h.freed t hlt hold)
    · exact hnew
  · have hr : after.heap t = some record := hr
    have hnot : after.isKicked t = false := by rw [isKicked_of hr, hk]
    obtain ⟨-, ⟨hge, -⟩ | ⟨before, hb, hmono⟩⟩ := hs.live t record hr
    · exact huntouched t (h.fresh t hge).2.2 hnot
    · cases hbk : before.kicked with
      | false => exact huntouched t (h.unkicked t before hb hbk) hnot
      | true =>
          rw [hmono hbk] at hk
          cases hk
  · cases hkicks : !st.registry.isKicked t && after.isKicked t with
    | true => exact .inl (hkicked t hkicks).2
    | false =>
        have hbefore : st.registry.isKicked t = true := by
          have hnow : after.isKicked t = true := hk
          rw [hnow, Bool.and_true, Bool.not_eq_false'] at hkicks
          exact hkicks
        exact (h.kicked t hbefore).imp (hstays t) id
  · cases hkicks : !st.registry.isKicked f.transport && after.isKicked f.transport with
    | true => exact absurd rfl ((hs.kicks h hkicks).calm f hf)
    | false =>
        obtain ⟨hcalls, hreturned⟩ := hkept f.transport hkicks
        rw [hcalls, hreturned]
        exact h.flying f hf
  · cases hkicks : !st.registry.isKicked t && after.isKicked t with
    | true => exact (hkicked t hkicks).1
    | false =>
        obtain ⟨hcalls, hreturned⟩ := hkept t hkicks
        rw [hreturned] at ht
        rw [hcalls]
        exact h.returned t ht
  · obtain hold | ⟨-, hk, hcalm⟩ := hs.removals t ht
    · exact hstays t (h.closed t hold)
    · cases hkicks : !st.registry.isKicked t && after.isKicked t with
      | true => exact (hkicked t hkicks).2
      | false =>
          -- it has been kicked before, and that has come back
          rw [hk, Bool.and_true, Bool.not_eq_false'] at hkicks
          obtain hret | ⟨f, hf, heq⟩ := h.kicked t hkicks
          · exact hstays t hret
          · exact absurd heq (hcalm f hf)

-- The lock section of a kick_transport kicks one transport and no other.
structure Kicks (reg : Registry) (t : Nat) (after : Registry) : Prop where
  live : (reg.heap t).isSome
  kicked : after.isKicked t = true
  others : ∀ u, u ≠ t → after.heap u = reg.heap u
  nextTransport : after.nextTransport = reg.nextTransport
  removals : after.removals = reg.removals
  sent : ∀ u, ⟨u, .remove⟩ ∈ after.inFlight → ⟨u, .remove⟩ ∈ reg.inFlight

theorem KickInv.unlocked (h : KickInv st) (hk : Kicks st.registry t after) (hbusy : st.busy p = false) :
    KickInv (st.unlocked p t after) := by
  obtain ⟨flights, hflights⟩ : ∃ flights,
      flights = if st.registry.isKicked t then st.flights else ⟨p, t, false⟩ :: st.flights := ⟨_, rfl⟩
  have hfirst : st.registry.isKicked t = false → Untouched st t := by
    intro hnot
    obtain ⟨record, hr⟩ := Option.isSome_iff_exists.mp hk.live
    rw [isKicked_of hr] at hnot
    exact h.unkicked t record hr hnot
  have hcalm : ∀ u, u ≠ t → Calm st.flights u → Calm flights u := by
    intro u hu hcalm f hf
    rw [hflights] at hf
    split at hf
    · exact hcalm f hf
    · obtain rfl | hf := List.mem_cons.mp hf
      · exact Ne.symm hu
      · exact hcalm f hf
  have hmem : ∀ f ∈ flights, f ∈ st.flights ∨ f = ⟨p, t, false⟩ ∧ st.registry.isKicked t = false := by
    intro f hf
    rw [hflights] at hf
    split at hf
    · exact .inl hf
    · rename_i hnot
      obtain rfl | hf := List.mem_cons.mp hf
      · exact .inr ⟨rfl, by simpa using hnot⟩
      · exact .inl hf
  have hkeep : ∀ f ∈ st.flights, f ∈ flights := by
    intro f hf
    rw [hflights]
    split
    · exact hf
    · exact List.mem_cons_of_mem _ hf
  have hdead : ∀ u, st.registry.heap u = none → u ≠ t := by
    rintro u hu rfl
    have hlive := hk.live
    rw [hu] at hlive
    cases hlive
  have hstate : st.unlocked p t after = { st with registry := after, flights := flights } := by
    rw [KickState.unlocked, hflights]
  rw [hstate]
  refine ⟨fun u hu => ?_, fun u hu => ?_, fun u hu hr => ?_, fun u record hr hnot => ?_, fun u hu => ?_,
    fun f hf => ?_, ?_, ?_, h.returned, fun u hu => ?_⟩
  · obtain ⟨hnone, hzero, huntouched⟩ := h.fresh u (by rw [← hk.nextTransport]; exact hu)
    have hne := hdead u hnone
    refine ⟨?_, ?_, huntouched.calls, huntouched.returned, hcalm u hne huntouched.calm⟩
    · rw [← hnone]
      exact hk.others u hne
    · rw [← hzero]
      exact congrFun hk.removals u
  · rw [hk.removals]
    exact h.sent u (hk.sent u hu)
  · rw [hk.removals]
    have hne : u ≠ t := by
      rintro rfl
      have hkicked := hk.kicked
      rw [isKicked_dead hr] at hkicked
      cases hkicked
    rw [hk.others u hne] at hr
    exact h.freed u (by rw [← hk.nextTransport]; exact hu) hr
  · have hr : after.heap u = some record := hr
    have hne : u ≠ t := by
      rintro rfl
      have hkicked := hk.kicked
      rw [isKicked_of hr, hnot] at hkicked
      cases hkicked
    rw [hk.others u hne] at hr
    have huntouched := h.unkicked u record hr hnot
    exact ⟨huntouched.calls, huntouched.returned, hcalm u hne huntouched.calm⟩
  · have hu : after.isKicked u = true := hu
    by_cases hut : u = t
    · subst hut
      cases hbefore : st.registry.isKicked u with
      | true =>
          obtain hret | ⟨f, hf, heq⟩ := h.kicked u hbefore
          · exact .inl hret
          · exact .inr ⟨f, hkeep f hf, heq⟩
      | false =>
          refine .inr ⟨⟨p, u, false⟩, ?_, rfl⟩
          rw [hflights, hbefore]
          exact List.mem_cons_self ..
    · have hbefore : st.registry.isKicked u = true := by
        rw [← hu, Registry.isKicked, Registry.isKicked, hk.others u hut]
      obtain hret | ⟨f, hf, heq⟩ := h.kicked u hbefore
      · exact .inl hret
      · exact .inr ⟨f, hkeep f hf, heq⟩
  · obtain hold | ⟨rfl, hnot⟩ := hmem f hf
    · exact h.flying f hold
    · exact ⟨(hfirst hnot).returned, (hfirst hnot).calls⟩
  · rw [hflights]
    split
    · exact h.transports
    · rename_i hnot
      refine List.nodup_cons.mpr ⟨fun hin => ?_, h.transports⟩
      obtain ⟨f, hf, heq⟩ := List.mem_map.mp hin
      exact (hfirst (by simpa using hnot)).calm f hf heq
  · rw [hflights]
    split
    · exact h.parties
    · refine List.nodup_cons.mpr ⟨fun hin => ?_, h.parties⟩
      obtain ⟨f, hf, heq⟩ := List.mem_map.mp hin
      have hbusy' : st.busy p = true := List.any_eq_true.mpr ⟨f, hf, by simpa using heq⟩
      rw [hbusy] at hbusy'
      cases hbusy'
  · rw [hk.removals] at hu
    exact h.closed u hu

-- Two flights of one party, or to one transport, are the same.
theorem KickInv.same_party (h : KickInv st) {f g : Flight} (hf : f ∈ st.flights) (hg : g ∈ st.flights)
    (heq : f.party = g.party) : f = g := List.inj_on_of_nodup_map h.parties hf hg heq

theorem KickInv.same_transport (h : KickInv st) {f g : Flight} (hf : f ∈ st.flights) (hg : g ∈ st.flights)
    (heq : f.transport = g.transport) : f = g := List.inj_on_of_nodup_map h.transports hf hg heq

theorem kickCalled_inv (h : KickInv st) {f : Flight} (hf : f ∈ st.flights) (hp : f.party = p)
    (hinside : f.inside = false) : KickInv (st.kickCalled p f) := by
  have hzero : st.calls f.transport = 0 := by
    rw [(h.flying f hf).2, hinside]
    rfl
  have hcalm : ∀ u, Calm st.flights u → Calm (st.kickCalled p f).flights u ∧
      (st.kickCalled p f).calls u = st.calls u := by
    intro u hcalm
    refine ⟨fun g hg => ?_, Function.update_of_ne (hcalm f hf).symm ..⟩
    obtain ⟨g', hg', rfl⟩ := List.mem_map.mp hg
    split
    · exact hcalm g' hg'
    · exact hcalm g' hg'
  have huntouched : ∀ u, Untouched st u → Untouched (st.kickCalled p f) u := by
    intro u hu
    obtain ⟨hc, hcalls⟩ := hcalm u hu.calm
    exact ⟨hcalls.trans hu.calls, hu.returned, hc⟩
  have hmap : ∀ g ∈ (st.kickCalled p f).flights, ∃ g' ∈ st.flights, g.transport = g'.transport ∧
      (g' = f ∧ g.inside = true ∨ g' ≠ f ∧ g = g') := by
    intro g hg
    obtain ⟨g', hg', rfl⟩ := List.mem_map.mp hg
    refine ⟨g', hg', ?_, ?_⟩
    · split <;> rfl
    · split
      · rename_i hparty
        exact .inl ⟨h.same_party hg' hf (hparty.trans hp.symm), rfl⟩
      · rename_i hparty
        exact .inr ⟨fun heq => hparty (by rw [heq, hp]), rfl⟩
  have hfields : (st.kickCalled p f).flights.map (·.transport) = st.flights.map (·.transport) ∧
      (st.kickCalled p f).flights.map (·.party) = st.flights.map (·.party) := by
    simp only [KickState.kickCalled, List.map_map]
    refine ⟨List.map_congr_left fun g _ => ?_, List.map_congr_left fun g _ => ?_⟩
    · simp only [Function.comp_apply]
      split <;> rfl
    · simp only [Function.comp_apply]
      split <;> rfl
  refine ⟨fun u hu => ?_, h.sent, h.freed, fun u record hr hnot => huntouched u (h.unkicked u record hr hnot),
    fun u hu => ?_, fun g hg => ?_, ?_, ?_, fun u hu => ?_, h.closed⟩
  · obtain ⟨hnone, hremovals, hun⟩ := h.fresh u hu
    exact ⟨hnone, hremovals, huntouched u hun⟩
  · obtain hret | ⟨g, hg, heq⟩ := h.kicked u hu
    · exact .inl hret
    · refine .inr ⟨_, List.mem_map_of_mem hg, ?_⟩
      rw [← heq]
      split <;> rfl
  · obtain ⟨g', hg', htransport, ⟨rfl, hin⟩ | ⟨hne, rfl⟩⟩ := hmap g hg
    · rw [htransport, hin]
      refine ⟨(h.flying g' hg').1, ?_⟩
      simp only [KickState.kickCalled, Function.update_self, hzero]
      rfl
    · have hother : g.transport ≠ f.transport := fun heq => hne (h.same_transport hg' hf heq)
      refine ⟨(h.flying g hg').1, ?_⟩
      rw [← (h.flying g hg').2]
      exact Function.update_of_ne hother ..
  · rw [hfields.1]
    exact h.transports
  · rw [hfields.2]
    exact h.parties
  · have hu : st.returned u = true := hu
    have hne : u ≠ f.transport := by
      rintro rfl
      rw [(h.flying f hf).1] at hu
      cases hu
    rw [← h.returned u hu]
    exact Function.update_of_ne hne ..

theorem kickReturns_inv (h : KickInv st) {f : Flight} (hf : f ∈ st.flights) (hp : f.party = p)
    (hinside : f.inside = true) : KickInv (st.kickReturns p f) := by
  have hone : st.calls f.transport = 1 := by
    rw [(h.flying f hf).2, hinside]
    rfl
  have hsub : ∀ g ∈ (st.kickReturns p f).flights, g ∈ st.flights ∧ g ≠ f := by
    intro g hg
    obtain ⟨hg, hparty⟩ := List.mem_filter.mp hg
    refine ⟨hg, ?_⟩
    rintro rfl
    simp [hp] at hparty
  have hstays : ∀ u, st.returned u = true → (st.kickReturns p f).returned u = true := by
    intro u hu
    by_cases heq : u = f.transport
    · rw [heq]
      exact Function.update_self ..
    · rw [← hu]
      exact Function.update_of_ne heq ..
  have huntouched : ∀ u, Untouched st u → Untouched (st.kickReturns p f) u := by
    intro u hu
    refine ⟨hu.calls, ?_, fun g hg => hu.calm g (hsub g hg).1⟩
    rw [← hu.returned]
    exact Function.update_of_ne (hu.calm f hf).symm ..
  refine ⟨fun u hu => ?_, h.sent, h.freed, fun u record hr hnot => huntouched u (h.unkicked u record hr hnot),
    fun u hu => ?_, fun g hg => ?_, ?_, ?_, fun u hu => ?_, fun u hu => hstays u (h.closed u hu)⟩
  · obtain ⟨hnone, hremovals, hun⟩ := h.fresh u hu
    exact ⟨hnone, hremovals, huntouched u hun⟩
  · obtain hret | ⟨g, hg, heq⟩ := h.kicked u hu
    · exact .inl (hstays u hret)
    · by_cases hgf : g = f
      · left
        rw [← heq, hgf]
        exact Function.update_self ..
      · have hparty : g.party ≠ p := fun hgp => hgf (h.same_party hg hf (hgp.trans hp.symm))
        exact .inr ⟨g, List.mem_filter.mpr ⟨hg, by simpa using hparty⟩, heq⟩
  · obtain ⟨hg, hgf⟩ := hsub g hg
    have hother : g.transport ≠ f.transport := fun heq => hgf (h.same_transport hg hf heq)
    refine ⟨?_, (h.flying g hg).2⟩
    rw [← (h.flying g hg).1]
    exact Function.update_of_ne hother ..
  · exact (List.filter_sublist.map _).nodup h.transports
  · exact (List.filter_sublist.map _).nodup h.parties
  · by_cases heq : u = f.transport
    · rw [heq]
      exact hone
    · refine h.returned u ?_
      rw [← hu]
      exact (Function.update_of_ne heq ..).symm

end Invariant

section Sections

variable {reg mid after : Registry} {flights : List Flight} {t : Nat}

-- A section that frees nothing.
structure Drops (flights : List Flight) (reg after : Registry) : Prop where
  next : after.nextTransport = reg.nextTransport
  live : ∀ t, (after.heap t).isSome = (reg.heap t).isSome
  kicked : ∀ t, reg.isKicked t = true → after.isKicked t = true
  removals : ∀ t, after.removals t ≠ 0 → reg.removals t ≠ 0 ∨
    ((reg.heap t).isSome ∧ after.isKicked t = true ∧ Calm flights t)
  removed : ∀ t, reg.removals t ≠ 0 → after.removals t ≠ 0
  main : after.main = reg.main
  sent : ∀ t, ⟨t, .remove⟩ ∈ after.mailbox → ⟨t, .remove⟩ ∈ reg.mailbox ∨ after.removals t ≠ 0

theorem Drops.of_same (flights : List Flight) (hnext : after.nextTransport = reg.nextTransport)
    (hheap : after.heap = reg.heap) (hremovals : after.removals = reg.removals)
    (hmailbox : after.mailbox = reg.mailbox) (hmain : after.main = reg.main) : Drops flights reg after where
  next := hnext
  live := fun t => by rw [hheap]
  kicked := fun t h => by rwa [Registry.isKicked, hheap]
  removals := fun t h => .inl (hremovals ▸ h)
  removed := fun t h => hremovals ▸ h
  main := hmain
  sent := fun t h => .inl (hmailbox ▸ h)

theorem Drops.refl (flights : List Flight) (reg : Registry) : Drops flights reg reg :=
  .of_same flights rfl rfl rfl rfl rfl

theorem Drops.trans (hfirst : Drops flights reg mid) (hsecond : Drops flights mid after) :
    Drops flights reg after where
  next := hsecond.next.trans hfirst.next
  live := fun t => (hsecond.live t).trans (hfirst.live t)
  kicked := fun t h => hsecond.kicked t (hfirst.kicked t h)
  removals := by
    intro t h
    obtain hmid | ⟨hlive, hk, hcalm⟩ := hsecond.removals t h
    · exact (hfirst.removals t hmid).imp_right fun ⟨hlive, hk, hcalm⟩ => ⟨hlive, hsecond.kicked t hk, hcalm⟩
    · exact .inr ⟨by rw [← hfirst.live t]; exact hlive, hk, hcalm⟩
  removed := fun t h => hsecond.removed t (hfirst.removed t h)
  main := hsecond.main.trans hfirst.main
  sent := by
    intro t h
    obtain hmid | hnew := hsecond.sent t h
    · exact (hfirst.sent t hmid).imp_right (hsecond.removed t)
    · exact .inr hnew

theorem Drops.setThread (hd : Drops flights reg after) (t : Nat) (thread : Thread) (phase : ThreadAt) :
    Drops flights reg (after.setThread t thread phase) := by
  have hsame : Drops flights after (after.setThread t thread phase) := .of_same flights rfl rfl rfl rfl rfl
  exact hd.trans hsame

-- The main loop may go on from there.
theorem Drops.toSection (hd : Drops flights reg after)
    (hfresh : ∀ t, reg.nextTransport ≤ t → reg.heap t = none) (main : MainAt)
    (hmain : ∀ t, ⟨t, .remove⟩ ∈ main.handling → ⟨t, .remove⟩ ∈ reg.inFlight) :
    Section flights reg { after with main := main } where
  next := Nat.le_of_eq hd.next.symm
  live := by
    intro t record hr
    have hr : after.heap t = some record := hr
    obtain ⟨before, hb⟩ : ∃ before, reg.heap t = some before := by
      rw [← Option.isSome_iff_exists, ← hd.live t, hr]
      rfl
    refine ⟨?_, .inr ⟨before, hb, fun hk => ?_⟩⟩
    · by_contra hge
      have hnext : after.nextTransport = reg.nextTransport := hd.next
      rw [hfresh t (by rw [← hnext]; exact Nat.not_lt.mp hge)] at hb
      cases hb
    · rw [← isKicked_of hr]
      exact hd.kicked t (by rw [isKicked_of hb, hk])
  dead := by
    intro t ht hr
    have hr : after.heap t = none := hr
    refine .inl ⟨by rw [← hd.next]; exact ht, ?_⟩
    have hlive := hd.live t
    rw [hr] at hlive
    exact Option.isNone_iff_eq_none.mp (by rw [← Option.not_isSome, ← hlive]; rfl)
  removals := hd.removals
  removed := hd.removed
  sent := by
    intro t h
    obtain h | h := List.mem_append.mp h
    · exact .inl (hmain t h)
    · exact (hd.sent t h).imp_left (List.mem_append_right _)

theorem Drops.same_main (hd : Drops flights reg after)
    (hfresh : ∀ t, reg.nextTransport ≤ t → reg.heap t = none) : Section flights reg after := by
  have hs := hd.toSection hfresh after.main fun t h => by
    rw [hd.main] at h
    exact List.mem_append_left _ h
  exact hs

theorem setRecord_drops {record changed : ATransport} (hr : reg.heap t = some record)
    (hk : record.kicked = true → changed.kicked = true) : Drops flights reg (reg.setRecord t changed) where
  next := rfl
  live := by
    intro u
    by_cases hu : u = t
    · rw [hu, Registry.setRecord_heap_self, hr]
      rfl
    · have hsame : (reg.setRecord t changed).heap u = reg.heap u := Function.update_of_ne hu ..
      rw [hsame]
  kicked := by
    intro u hku
    by_cases hu : u = t
    · subst hu
      rw [isKicked_of hr] at hku
      rw [isKicked_of (reg.setRecord_heap_self u changed)]
      exact hk hku
    · have hsame : (reg.setRecord t changed).heap u = reg.heap u := Function.update_of_ne hu ..
      rw [Registry.isKicked, hsame]
      exact hku
  removals := fun _ h => .inl h
  removed := fun _ h => h
  main := rfl
  sent := fun _ h => .inl h

-- t->close comes with the removal message, right behind the kick.
theorem removeTransport_drops (hk : reg.isKicked t = true) (hcalm : Calm flights t) :
    Drops flights reg (reg.removeTransport t) where
  next := rfl
  live := fun _ => rfl
  kicked := fun _ h => h
  removals := by
    intro u h
    by_cases hu : u = t
    · subst hu
      obtain ⟨record, hr, -⟩ := exists_of_isKicked hk
      exact .inr ⟨by rw [hr]; rfl, hk, hcalm⟩
    · left
      have hsame : (reg.removeTransport t).removals u = reg.removals u := Function.update_of_ne hu ..
      rw [← hsame]
      exact h
  removed := by
    intro u h
    by_cases hu : u = t
    · subst hu
      simp [Registry.removeTransport]
    · have hsame : (reg.removeTransport t).removals u = reg.removals u := Function.update_of_ne hu ..
      rw [hsame]
      exact h
  main := rfl
  sent := by
    intro u h
    obtain h | h := List.mem_append.mp h
    · exact .inl h
    · right
      obtain rfl : u = t := by simpa using h
      simp [Registry.removeTransport]

theorem unlink_drops (hu : reg.unlinkTransport t = .ok after) : Drops flights reg after := by
  obtain ⟨links, -, rfl⟩ := Registry.unlinkTransport_ok hu
  exact .of_same flights rfl rfl rfl rfl rfl

theorem link_drops (hl : reg.linkTransport t = .ok after) : Drops flights reg after := by
  obtain ⟨-, links, -, rfl⟩ := Registry.linkTransport_ok hl
  exact .of_same flights rfl rfl rfl rfl rfl

theorem kick_drops (hk : reg.kickTransport t = .ok after) : Drops flights reg after := by
  obtain ⟨record, hr, rfl⟩ := Registry.kickTransport_ok hk
  exact setRecord_drops hr fun _ => rfl

theorem closeRecord_kicked (record : ATransport) :
    (Registry.closeRecord record).kicked = record.kicked := by
  unfold Registry.closeRecord
  split <;> rfl

theorem unref_drops (hcalm : DropsCalmly flights reg t) (hu : reg.transportUnrefLocked t = .ok after) :
    Drops flights reg after := by
  simp only [Registry.transportUnrefLocked, bind, Except.bind] at hu
  split at hu
  · cases hu
  rename_i record hderef
  have hr := Registry.deref_ok hderef
  split at hu
  · rename_i hzero
    cases hu
    have hone : record.refCount = 1 := by
      have hz : record.refCount - 1 = 0 := hzero
      omega
    rw [DropsCalmly, hr] at hcalm
    have hkicked : (Registry.closeRecord
        { record with refCount := record.refCount - 1, kicked := true }).kicked = true :=
      closeRecord_kicked _
    refine (setRecord_drops hr fun _ => hkicked).trans (removeTransport_drops ?_ (hcalm hone))
    rw [isKicked_of (reg.setRecord_heap_self t _), hkicked]
  · cases hu
    exact setRecord_drops hr fun h => h

theorem unregisterTcpFrom_drops {fuel : Nat} {r : TRef} (hcalm : TcpDropsCalmly flights fuel r reg)
    (hs : Registry.unregisterTcpFrom fuel r reg = .ok after) : Drops flights reg after := by
  induction fuel generalizing r reg with
  | zero => cases hs
  | succ fuel ih =>
      cases r with
      | transportList =>
          cases hs
          exact Drops.refl ..
      | transport t =>
          obtain ⟨record, next, hr, hnext, hturn⟩ := Registry.unregisterTcpFrom_turn hs
          unfold TcpDropsCalmly at hcalm
          rw [hr, hnext] at hcalm
          dsimp only at hcalm
          obtain ⟨htcp, unlinked, kicked, dropped, hu, hk, hd, hs⟩ | ⟨htcp, hs⟩ := hturn
          · rw [if_pos htcp] at hcalm
            obtain ⟨hdrop, hrest⟩ := hcalm
            simp only [bind, Except.bind, hu, hk, hd] at hrest
            -- the references are those from before the unlinking and the kick
            have hsame : DropsCalmly flights kicked t := by
              obtain ⟨links, -, rfl⟩ := Registry.unlinkTransport_ok hu
              obtain ⟨record', hr', rfl⟩ := Registry.kickTransport_ok hk
              unfold DropsCalmly at hdrop ⊢
              have hr'' : reg.heap t = some record' := hr'
              rw [Registry.setRecord_heap_self]
              rw [hr''] at hdrop
              exact hdrop
            exact (((unlink_drops hu).trans (kick_drops hk)).trans (unref_drops hsame hd)).trans (ih hrest hs)
          · rw [if_neg htcp] at hcalm
            exact ih hcalm hs

theorem closeUsbFrom_drops {fuel : Nat} {r : TRef} (hs : Registry.closeUsbFrom fuel r reg = .ok after) :
    Drops flights reg after := by
  induction fuel generalizing r reg with
  | zero => cases hs
  | succ fuel ih =>
      cases r with
      | transportList =>
          cases hs
          exact Drops.refl ..
      | transport t =>
          simp only [Registry.closeUsbFrom, bind, Except.bind] at hs
          split at hs
          · cases hs
          rename_i kicked hk
          split at hs
          · cases hs
          · exact (kick_drops hk).trans (ih hs)

theorem register_section {record : ATransport} (hk : record.kicked = false)
    (hfresh : ∀ t, reg.nextTransport ≤ t → reg.heap t = none) :
    Section flights reg (reg.registerTransport record) where
  next := Nat.le_succ _
  live := by
    intro t r hr
    by_cases ht : t = reg.nextTransport
    · subst ht
      have hself : (reg.registerTransport record).heap reg.nextTransport = some record := Function.update_self ..
      rw [hself] at hr
      cases hr
      exact ⟨Nat.lt_succ_self _, .inl ⟨Nat.le_refl _, hk⟩⟩
    · have hsame : (reg.registerTransport record).heap t = reg.heap t := Function.update_of_ne ht ..
      rw [hsame] at hr
      refine ⟨?_, .inr ⟨r, hr, fun h => h⟩⟩
      by_contra hge
      have hnext : (reg.registerTransport record).nextTransport = reg.nextTransport + 1 := rfl
      rw [hfresh t (by omega)] at hr
      cases hr
  dead := by
    intro t ht hr
    have hne : t ≠ reg.nextTransport := by
      rintro rfl
      have hself : (reg.registerTransport record).heap reg.nextTransport = some record := Function.update_self ..
      rw [hself] at hr
      cases hr
    have hsame : (reg.registerTransport record).heap t = reg.heap t := Function.update_of_ne hne ..
    have hnext : (reg.registerTransport record).nextTransport = reg.nextTransport + 1 := rfl
    exact .inl ⟨by omega, by rw [← hsame]; exact hr⟩
  removals := fun _ h => .inl h
  removed := fun _ h => h
  sent := by
    intro t h
    obtain h | h := List.mem_append.mp h
    · exact .inl (List.mem_append_left _ h)
    · obtain h | h := List.mem_append.mp h
      · exact .inl (List.mem_append_right _ h)
      · rw [List.mem_singleton] at h
        cases h

-- What is freed has been closed before.
theorem free_section (hclosed : reg.removals t ≠ 0)
    (hfresh : ∀ t, reg.nextTransport ≤ t → reg.heap t = none) :
    Section flights reg { reg with heap := Function.update reg.heap t none, main := .idle } where
  next := Nat.le_refl _
  live := by
    intro u r hr
    have hne : u ≠ t := by
      rintro rfl
      dsimp only at hr
      rw [Function.update_self] at hr
      cases hr
    dsimp only at hr
    rw [Function.update_of_ne hne] at hr
    refine ⟨?_, .inr ⟨r, hr, fun h => h⟩⟩
    by_contra hge
    rw [hfresh u (Nat.not_lt.mp hge)] at hr
    cases hr
  dead := by
    intro u hu hr
    by_cases hut : u = t
    · exact .inr (by rw [hut]; exact hclosed)
    · dsimp only at hr
      rw [Function.update_of_ne hut] at hr
      exact .inl ⟨hu, hr⟩
  removals := fun _ h => .inl h
  removed := fun _ h => h
  sent := fun _ h => .inl (List.mem_append_right _ h)

theorem kick_kicks (hk : reg.kickTransport t = .ok after) : Kicks reg t after := by
  obtain ⟨record, hr, rfl⟩ := Registry.kickTransport_ok hk
  refine ⟨by rw [hr]; rfl, ?_, fun u hu => Function.update_of_ne hu .., rfl, rfl, fun u h => h⟩
  rw [isKicked_of (reg.setRecord_heap_self t _)]

end Sections

section Steps

variable {st next : KickState} {after : Registry}

theorem KickInv.dead (h : KickInv st) (t : Nat) (ht : st.registry.nextTransport ≤ t) :
    st.registry.heap t = none := (h.fresh t ht).1

-- The main loop's sections, but for the one in which it kicks.
theorem mainStep_section (h : KickInv st) (hkick : ∀ t, st.registry.main ≠ .unregKick t)
    (hcalm : ∀ t, st.registry.main = .unregUnref t → DropsCalmly st.flights st.registry t)
    (hs : mainStep st.registry = .ok after) : Section st.flights st.registry after := by
  have hin : ∀ (m : MainAt), m.handling = [] → ∀ t : Nat, (⟨t, .remove⟩ : TMsg) ∈ m.handling →
      (⟨t, .remove⟩ : TMsg) ∈ st.registry.inFlight := by
    intro m hm t ht
    rw [hm] at ht
    cases ht
  simp only [mainStep, bind, Except.bind] at hs
  split at hs
  case h_1 hm =>
    -- a message is taken out of the mailbox
    have hpop : ∀ (msg : TMsg) (rest : List TMsg), st.registry.mailbox = msg :: rest →
        Drops st.flights st.registry { st.registry with mailbox := rest } := by
      intro msg rest hbox
      refine ⟨rfl, fun _ => rfl, fun _ h => h, fun _ h => .inl h, fun _ h => h, rfl, fun t ht => .inl ?_⟩
      rw [hbox]
      exact List.mem_cons_of_mem _ ht
    split at hs
    · cases hs
    · rename_i t rest hbox
      cases hs
      refine (hpop _ _ hbox).toSection h.dead (.removing t) fun u hu => ?_
      rw [Registry.inFlight, hbox]
      simp only [MainAt.handling, List.mem_singleton] at hu
      rw [hu]
      exact List.mem_append_right _ (List.mem_cons_self ..)
    · rename_i t rest hbox
      cases hs
      refine (hpop _ _ hbox).toSection h.dead (.starting t) fun u hu => ?_
      simp [MainAt.handling] at hu
  case h_2 t hm =>
    split at hs
    · cases hs
    rename_i unlinked hu
    cases hs
    refine (unlink_drops hu).toSection h.dead (.freeing t) fun u hmem => ?_
    rw [Registry.inFlight, hm]
    exact List.mem_append_left _ hmem
  case h_3 t hm =>
    split at hs
    · cases hs
    cases hs
    refine free_section (h.sent t ?_) h.dead
    rw [Registry.inFlight, hm]
    exact List.mem_append_left _ (List.mem_singleton_self _)
  case h_4 t hm =>
    split at hs
    · cases hs
    rename_i record hderef
    split at hs
    · cases hs
      have hdrops : Drops st.flights st.registry (st.registry.setRecord t { record with refCount := 2 }) :=
        setRecord_drops (Registry.deref_ok hderef) fun hk => hk
      exact (hdrops.setThread t .input .running).toSection h.dead (.startOutput t) (hin _ rfl)
    · cases hs
      exact (Drops.refl ..).toSection h.dead (.linking t) (hin _ rfl)
  case h_5 t hm =>
    cases hs
    exact ((Drops.refl ..).setThread t .output .running).toSection h.dead (.linking t) (hin _ rfl)
  case h_6 t hm =>
    split at hs
    · cases hs
    rename_i linked hl
    cases hs
    exact (link_drops hl).toSection h.dead .idle (hin _ rfl)
  case h_7 t hm =>
    split at hs
    · cases hs
    rename_i unlinked hu
    cases hs
    exact (unlink_drops hu).toSection h.dead (.unregKick t) (hin _ rfl)
  case h_8 t hm => exact absurd hm (hkick t)
  case h_9 t hm =>
    split at hs
    · cases hs
    rename_i dropped hd
    cases hs
    exact (unref_drops (hcalm t hm) hd).toSection h.dead .idle (hin _ rfl)

theorem threadStep_unref {t : Nat} {which : Thread} (h : KickInv st)
    (hrun : st.registry.threads t which ≠ .running)
    (hcalm : st.registry.threads t which = .unref → DropsCalmly st.flights st.registry t)
    (hs : threadStep st.registry t which = .ok after) : Section st.flights st.registry after := by
  simp only [threadStep, bind, Except.bind] at hs
  split at hs
  case h_1 hat => exact absurd hat hrun
  case h_2 hat =>
    split at hs
    · cases hs
    rename_i dropped hd
    cases hs
    exact ((unref_drops (hcalm hat) hd).setThread t which .finished).same_main h.dead
  case h_3 => cases hs

-- A step of the registry that is not the first part of a kick_transport.
theorem registry_section {move : Move} (h : KickInv st) (hkick : move.kicking st.registry = none)
    (hcalm : KicksReturned st (.registry move)) (hs : step st.registry move = .ok after) :
    Section st.flights st.registry after := by
  cases move with
  | registerSocket serial adbPort isLocal =>
      cases hs
      exact register_section rfl h.dead
  | registerUsb usb serial writeable =>
      cases hs
      exact register_section rfl h.dead
  | main =>
      refine mainStep_section h (fun t hm => ?_) (fun t hm => ?_) hs
      · simp [Move.kicking, hm] at hkick
      · simpa [KicksReturned, hm] using hcalm
  | thread t which =>
      refine threadStep_unref h (fun hrun => ?_) hcalm hs
      simp [Move.kicking, hrun] at hkick
  | unregister serial =>
      simp only [step, bind, Except.bind] at hs
      split at hs
      case isFalse => cases hs
      split at hs
      · cases hs
      split at hs
      · rename_i t _
        cases hs
        refine (Drops.refl ..).toSection h.dead (.unregUnlink t) fun u hu => ?_
        simp [MainAt.handling] at hu
      · cases hs
        exact (Drops.refl ..).same_main h.dead
  | unregisterAllTcp =>
      simp only [step, Registry.unregisterAllTcpTransports] at hs
      split at hs
      case isFalse => cases hs
      split at hs
      case h_2 => cases hs
      rename_i first hfirst
      simp only [KicksReturned, hfirst] at hcalm
      exact (unregisterTcpFrom_drops hcalm hs).same_main h.dead
  | unregisterUsb usb =>
      simp only [step, Registry.unregisterUsbTransport, bind, Except.bind] at hs
      split at hs
      · cases hs
      split at hs
      · exact (unlink_drops hs).same_main h.dead
      · cases hs
        exact (Drops.refl ..).same_main h.dead

-- One that is.
theorem registry_kicks {move : Move} {p : Party} {t : Nat} (hkick : move.kicking st.registry = some (p, t))
    (hs : step st.registry move = .ok after) : Kicks st.registry t after ∧ move.party = some p := by
  cases move with
  | main =>
      simp only [Move.kicking] at hkick
      split at hkick
      case h_2 => cases hkick
      rename_i u hm
      cases hkick
      simp only [step, mainStep, hm, bind, Except.bind] at hs
      split at hs
      · cases hs
      rename_i kicked hk
      cases hs
      obtain ⟨hlive, hkicked, hothers, hnext, hremovals, hsent⟩ := kick_kicks hk
      refine ⟨⟨hlive, hkicked, hothers, hnext, hremovals, fun v hv => ?_⟩, rfl⟩
      obtain ⟨record, -, rfl⟩ := Registry.kickTransport_ok hk
      exact List.mem_append_right _ hv
  | thread u which =>
      simp only [Move.kicking] at hkick
      split at hkick
      case isFalse => cases hkick
      rename_i hrun
      cases hkick
      simp only [step, threadStep, hrun, bind, Except.bind] at hs
      split at hs
      · cases hs
      rename_i kicked hk
      cases hs
      obtain ⟨hlive, hkicked, hothers, hnext, hremovals, hsent⟩ := kick_kicks hk
      exact ⟨⟨hlive, hkicked, hothers, hnext, hremovals, hsent⟩, rfl⟩
  | registerSocket serial adbPort isLocal => cases hkick
  | registerUsb usb serial writeable => cases hkick
  | unregister serial => cases hkick
  | unregisterAllTcp => cases hkick
  | unregisterUsb usb => cases hkick

theorem kickStep_inv (st : KickState) (move : KickMove) (next : KickState) (h : KickInv st)
    (hcalm : KicksReturned st move) (hs : kickStep st move = .ok next) : KickInv next := by
  cases move with
  | registry move =>
      simp only [kickStep, bind, Except.bind] at hs
      split at hs
      · cases hs
      rename_i hbusy
      split at hs
      · cases hs
      rename_i after hstep
      split at hs
      · rename_i p t hkick
        cases hs
        obtain ⟨hkicks, hparty⟩ := registry_kicks hkick hstep
        refine h.unlocked hkicks ?_
        rw [hparty] at hbusy
        simpa using hbusy
      · rename_i hkick
        cases hs
        exact h.locked (registry_section h hkick hcalm hstep)
  | kick p =>
      simp only [kickStep, bind, Except.bind] at hs
      split at hs
      · cases hs
      rename_i f hfind
      have hf := List.mem_of_find?_eq_some hfind
      have hp : f.party = p := by simpa using List.find?_some hfind
      split at hs
      · rename_i hinside
        cases hs
        exact kickReturns_inv h hf hp hinside
      · rename_i hinside
        split at hs
        · cases hs
        · cases hs
          exact kickCalled_inv h hf hp (by simpa using hinside)
  | kickTransport n t =>
      simp only [kickStep, bind, Except.bind] at hs
      split at hs
      · cases hs
      rename_i hbusy
      split at hs
      · cases hs
      rename_i after hk
      cases hs
      exact h.unlocked (kick_kicks hk) (by simpa using hbusy)
  | closeUsbDevices =>
      simp only [kickStep, Registry.closeUsbDevices, bind, Except.bind] at hs
      split at hs
      · cases hs
      rename_i after hclose
      cases hs
      split at hclose
      · exact h.locked ((closeUsbFrom_drops hclose).same_main h.dead)
      · cases hclose

end Steps

theorem kicked_once (moves : List KickMove) (st : KickState)
    (hg : Guarded kickStep KicksReturned kickInit moves) (hr : run kickStep kickInit moves = .ok st) :
    KickedOnce st :=
  (guarded_invariant kickStep_inv kickInv_init hg hr).kickedOnce

-- The input thread of a device kicks it and is done before the output thread goes.
theorem kicked_once_of_one_device :
    ∃ st, st.registry.removals 0 = 1 ∧ st.calls 0 = 1 ∧ KickedOnce st :=
  ⟨_, rfl, rfl, kicked_once
    [.registry (.registerSocket [97] 0 false), .registry .main, .registry .main, .registry .main,
      .registry .main, .registry (.thread 0 .input), .kick (.thread 0 .input), .kick (.thread 0 .input),
      .registry (.thread 0 .input), .registry (.thread 0 .output), .registry (.thread 0 .output)] _
    (by decide) rfl⟩

-- The input thread has set kicked and released the lock. A client disconnects the
-- device and the output thread goes: the transport is closed, and not kicked yet.
theorem closed_before_the_kick :
    ¬ ∀ (moves : List KickMove) (st : KickState), run kickStep kickInit moves = .ok st → KickedOnce st := by
  intro h
  have honce := h [.registry (.registerSocket [97] 0 false), .registry .main, .registry .main,
    .registry .main, .registry .main, .registry (.thread 0 .input), .registry .unregisterAllTcp,
    .registry (.thread 0 .output), .registry (.thread 0 .output)] _ rfl
  exact absurd (honce.closed 0 (by decide)).2 (by decide)

end Adb.Transport
