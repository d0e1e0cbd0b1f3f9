import Adb.Transport.Lifetime

namespace Adb.Transport

open Adb.Lib

-- transport_list is a ring of the transports that were registered and neither
-- unregistered nor removed since, and none of them is freed.
def ListIntegrity (st : Registry) : Prop :=
  ∃ ts : List Nat, st.links.IsRing .transportList (ts.map .transport) ∧
    (∀ t, t ∈ ts ↔ st.onList t = true) ∧ ∀ t ∈ ts, (st.heap t).isSome

def Registry.onRing (st : Registry) : TRef → Prop
  | .transportList => True
  | .transport t => st.onList t = true

-- The transport is still on the list, or what its old pointers name is not freed
-- and the two writes do no harm: each goes to a node that is off the list as
-- well, or stores what that node has already.
def UnlinkSafe (st : Registry) (t : Nat) : Prop :=
  st.onList t = true ∨
    ∃ n p, st.links.next (.transport t) = some n ∧ st.links.prev (.transport t) = some p ∧
      st.live n = true ∧ st.live p = true ∧ st.links.UnlinkHarmless st.onRing n p

def UnlinksSafely (st : Registry) (move : Move) : Prop :=
  match move, st.main with
  | .main, .removing t | .main, .unregUnlink t => UnlinkSafe st t
  | _, _ => True

instance (st : Registry) : DecidablePred st.onRing
  | .transportList => .isTrue trivial
  | .transport t => inferInstanceAs (Decidable (st.onList t = true))

instance (st : Registry) (n p : TRef) : Decidable (st.links.UnlinkHarmless st.onRing n p) :=
  inferInstanceAs (Decidable (_ ∧ _))

instance (st : Registry) (t : Nat) : Decidable (UnlinkSafe st t) :=
  match hn : st.links.next (.transport t), hp : st.links.prev (.transport t) with
  | some n, some p =>
      decidable_of_iff (st.onList t = true ∨
        st.live n = true ∧ st.live p = true ∧ st.links.UnlinkHarmless st.onRing n p)
        (by simp [UnlinkSafe, hn, hp])
  | none, _ => decidable_of_iff (st.onList t = true) (by simp [UnlinkSafe, hn])
  | some _, none => decidable_of_iff (st.onList t = true) (by simp [UnlinkSafe, hp])

-- The transport that a move is to unlink.
def unlinked (st : Registry) (move : Move) : Option Nat :=
  match move, st.main with
  | .main, .removing t | .main, .unregUnlink t => some t
  | _, _ => none

theorem unlinksSafely_iff (st : Registry) (move : Move) :
    (∀ t ∈ unlinked st move, UnlinkSafe st t) ↔ UnlinksSafely st move := by
  unfold unlinked UnlinksSafely
  split <;> simp

instance (st : Registry) (move : Move) : Decidable (UnlinksSafely st move) :=
  decidable_of_iff _ (unlinksSafely_iff st move)

-- The transports that are registered and not linked yet: the one being started,
-- and those in the mailbox.
def MainAt.beginning : MainAt → List Nat
  | .starting t | .startOutput t | .linking t => [t]
  | _ => []

def TMsg.registered : TMsg → Option Nat
  | ⟨t, .register⟩ => some t
  | ⟨_, .remove⟩ => none

def Registry.waiting (st : Registry) : List Nat :=
  st.main.beginning ++ st.mailbox.filterMap TMsg.registered

structure RegistryInv (st : Registry) : Prop where
  integrity : ListIntegrity st
  known : ∀ t, st.onList t = true → t < st.nextTransport
  waiting_known : ∀ t ∈ st.waiting, t < st.nextTransport
  waiting_off : ∀ t ∈ st.waiting, st.onList t = false
  waiting_once : st.waiting.Nodup
  freeing_off : ∀ t, st.main = .freeing t → st.onList t = false

variable {st after : Registry} {t : Nat}

theorem registryInv_init : RegistryInv registryInit where
  integrity := ⟨[], Links.isRing_init, by simp [registryInit], by simp⟩
  known := by simp [registryInit]
  waiting_known := by simp [registryInit, Registry.waiting, MainAt.beginning]
  waiting_off := by simp [registryInit, Registry.waiting, MainAt.beginning]
  waiting_once := by simp [registryInit, Registry.waiting, MainAt.beginning]
  freeing_off := by simp [registryInit]

theorem mem_ring_iff {ts : List Nat} (h : ∀ t, t ∈ ts ↔ st.onList t = true) (r : TRef) :
    r ∈ TRef.transportList :: ts.map .transport ↔ st.onRing r := by
  cases r with
  | transportList => simp [Registry.onRing]
  | transport t => simp [Registry.onRing, h]

-- A step that leaves the list alone and frees nothing on it.
theorem RegistryInv.of_same (h : RegistryInv st) (hlinks : after.links = st.links)
    (hlist : after.onList = st.onList) (hnext : after.nextTransport = st.nextTransport)
    (hheap : ∀ t, st.onList t = true → (st.heap t).isSome → (after.heap t).isSome)
    (hwait : after.waiting.Sublist st.waiting) (hmain : ∀ t, after.main ≠ .freeing t) :
    RegistryInv after where
  integrity := by
    obtain ⟨ts, hring, hts, hlive⟩ := h.integrity
    refine ⟨ts, by rw [hlinks]; exact hring, by rw [hlist]; exact hts, ?_⟩
    exact fun t ht => hheap t ((hts t).mp ht) (hlive t ht)
  known := by rw [hlist, hnext]; exact h.known
  waiting_known := fun t ht => hnext ▸ h.waiting_known t (hwait.mem ht)
  waiting_off := fun t ht => hlist ▸ h.waiting_off t (hwait.mem ht)
  waiting_once := h.waiting_once.sublist hwait
  freeing_off := fun t ht => absurd ht (hmain t)

-- A member is unlinked: it alone leaves the list.
theorem unlink_member (h : RegistryInv st) (ht : st.onList t = true)
    (hu : st.unlinkTransport t = .ok after) : ListIntegrity after := by
  obtain ⟨ts, hring, hts, hlive⟩ := h.integrity
  obtain ⟨links, hl, rfl⟩ := Registry.unlinkTransport_ok hu
  have hmem : TRef.transport t ∈ ts.map TRef.transport := List.mem_map_of_mem ((hts t).mpr ht)
  obtain ⟨m, hm, hring', -, -⟩ := hring.unlink hmem
  obtain rfl : links = m := Option.some.inj (hl.symm.trans hm)
  have hnd : ts.Nodup := List.Nodup.of_map _ (List.nodup_cons.mp hring.2).2
  refine ⟨ts.erase t, ?_, ?_, ?_⟩
  · rw [List.map_erase (fun _ _ => TRef.transport.inj)]
    exact hring'
  · intro u
    rw [hnd.mem_erase_iff, hts]
    by_cases hut : u = t
    · simp [hut]
    · simp [hut]
  · exact fun u hu => hlive u (List.mem_of_mem_erase hu)

theorem update_off (ht : st.onList t = false) : Function.update st.onList t false = st.onList :=
  Function.update_eq_iff.mpr ⟨ht.symm, fun _ _ => rfl⟩

-- What a second unlinking does to the list, exactly.
theorem unlink_again_iff (h : RegistryInv st) (ht : st.onList t = false) :
    (∃ after, st.unlinkTransport t = .ok after ∧ ListIntegrity after) ↔
      (st.heap t).isSome ∧ UnlinkSafe st t := by
  obtain ⟨ts, hring, hts, hlive⟩ := h.integrity
  have honRing : (· ∈ TRef.transportList :: ts.map TRef.transport) = st.onRing :=
    funext fun r => propext (mem_ring_iff hts r)
  constructor
  · rintro ⟨after, hu, us, hring', hus, -⟩
    have hcond : st.live (.transport t) ∧ (st.links.next (.transport t)).all st.live ∧
        (st.links.prev (.transport t)).all st.live := by
      by_contra hc
      simp [Registry.unlinkTransport, if_neg hc] at hu
    obtain ⟨links, hl, rfl⟩ := Registry.unlinkTransport_ok hu
    refine ⟨hcond.1, Or.inr ?_⟩
    obtain ⟨n, hn⟩ : ∃ n, st.links.next (.transport t) = some n := by
      cases hn : st.links.next (.transport t) with
      | none => simp [Links.unlink, hn] at hl
      | some n => exact ⟨n, rfl⟩
    obtain ⟨p, hp⟩ : ∃ p, st.links.prev (.transport t) = some p := by
      cases hp : st.links.prev (.transport t) with
      | none => simp [Links.unlink, hn, hp, Links.setPrev, Function.update_apply] at hl
      | some p => exact ⟨p, rfl⟩
    refine ⟨n, p, hn, hp, by simpa [hn] using hcond.2.1, by simpa [hp] using hcond.2.2, ?_⟩
    rw [← honRing]
    refine hring.unlink_outside_only hn hp hl hring' ?_
    intro r
    rw [mem_ring_iff hts, mem_ring_iff hus]
    simp only [update_off ht]
    cases r <;> rfl
  · rintro ⟨hheap, hsafe⟩
    rcases hsafe with hon | ⟨n, p, hn, hp, hnl, hpl, hharm⟩
    · rw [ht] at hon
      cases hon
    · rw [← honRing] at hharm
      obtain ⟨m, hm, hring'⟩ := hring.unlink_outside hn hp hharm
      refine ⟨{ st with links := m, onList := Function.update st.onList t false }, ?_, ts, hring',
        by simpa only [update_off ht] using hts, hlive⟩
      have hlive' : st.live (.transport t) = true := hheap
      simp [Registry.unlinkTransport, hlive', hn, hp, hnl, hpl, hm]

-- Every unlinking that the guard allows.
theorem unlink_keeps (h : RegistryInv st) (hs : UnlinkSafe st t)
    (hu : st.unlinkTransport t = .ok after) (main : MainAt)
    (hwait : main.beginning.Sublist st.main.beginning)
    (hfree : ∀ u, main = .freeing u → u = t ∨ st.main = .freeing u) :
    RegistryInv { after with main := main } := by
  have hlist : ListIntegrity after := by
    cases ht : st.onList t with
    | true => exact unlink_member h ht hu
    | false =>
        have hheap : (st.heap t).isSome := by
          unfold Registry.unlinkTransport at hu
          split at hu
          · rename_i hc
            exact hc.1
          · cases hu
        obtain ⟨other, ho, hint⟩ := (unlink_again_iff h ht).mpr ⟨hheap, hs⟩
        obtain rfl : after = other := Except.ok.inj (hu.symm.trans ho)
        exact hint
  obtain ⟨links, -, rfl⟩ := Registry.unlinkTransport_ok hu
  have hoff : ∀ u, st.onList u = false → Function.update st.onList t false u = false := by
    intro u hu
    by_cases hut : u = t
    · simp [hut]
    · simp [Function.update_of_ne hut, hu]
  have hsub : (main.beginning ++ st.mailbox.filterMap TMsg.registered).Sublist st.waiting :=
    hwait.append (List.Sublist.refl _)
  exact {
    integrity := hlist
    known := by
      intro u hu
      refine h.known u ?_
      by_contra hn
      simp only [Bool.not_eq_true] at hn
      simp [hoff u hn] at hu
    waiting_known := fun u hu => h.waiting_known u (hsub.mem hu)
    waiting_off := fun u hu => hoff u (h.waiting_off u (hsub.mem hu))
    waiting_once := h.waiting_once.sublist hsub
    freeing_off := by
      intro u hu
      rcases hfree u hu with rfl | hf
      · simp
      · exact hoff u (h.freeing_off u hf) }

theorem link_keeps (h : RegistryInv st) (hm : st.main = .linking t)
    (hl : st.linkTransport t = .ok after) : RegistryInv { after with main := .idle } := by
  obtain ⟨ts, hring, hts, hlive⟩ := h.integrity
  obtain ⟨hheap, links, hins, rfl⟩ := Registry.linkTransport_ok hl
  have hwait : t ∈ st.waiting := by simp [Registry.waiting, hm, MainAt.beginning]
  have hoff := h.waiting_off t hwait
  have hnew : TRef.transport t ∉ TRef.transportList :: ts.map TRef.transport := by
    rw [mem_ring_iff hts]
    simp [Registry.onRing, hoff]
  obtain ⟨m, hm', hring', -⟩ := hring.insertTail hnew
  obtain rfl : links = m := Option.some.inj (hins.symm.trans hm')
  have honce := h.waiting_once
  simp only [Registry.waiting, hm, MainAt.beginning, List.singleton_append,
    List.nodup_cons] at honce
  exact {
    integrity := by
      refine ⟨ts ++ [t], by simpa using hring', ?_, ?_⟩
      · intro u
        by_cases hut : u = t
        · simp [hut]
        · simp [hut, hts]
      · intro u hu
        rcases List.mem_append.mp hu with hu | hu
        · exact hlive u hu
        · obtain rfl := List.mem_singleton.mp hu
          exact hheap
    known := by
      intro u hu
      by_cases hut : u = t
      · exact hut ▸ h.waiting_known t hwait
      · exact h.known u (by simpa [hut] using hu)
    waiting_known := fun u hu => h.waiting_known u (List.mem_append_right _ hu)
    waiting_off := by
      intro u hu
      have hut : u ≠ t := by rintro rfl; exact honce.1 hu
      simp only [Function.update_of_ne hut]
      exact h.waiting_off u (List.mem_append_right _ hu)
    waiting_once := honce.2
    freeing_off := by simp }

theorem register_waiting (st : Registry) (record : ATransport) :
    (st.registerTransport record).waiting = st.waiting ++ [st.nextTransport] := by
  simp [Registry.registerTransport, Registry.waiting, Registry.post, Registry.setRecord,
    TMsg.registered]

theorem register_keeps (h : RegistryInv st) (record : ATransport) :
    RegistryInv (st.registerTransport record) := by
  have hnew : st.onList st.nextTransport = false := by
    by_contra hon
    exact absurd (h.known _ (by simpa using hon)) (Nat.lt_irrefl _)
  have hwait := register_waiting st record
  exact {
    integrity := by
      obtain ⟨ts, hring, hts, hlive⟩ := h.integrity
      refine ⟨ts, hring, hts, ?_⟩
      intro t ht
      have hne : t ≠ st.nextTransport := by
        rintro rfl
        rw [hts, hnew] at ht
        cases ht
      simpa [Registry.registerTransport, Registry.post, Registry.setRecord, hne] using hlive t ht
    known := fun t ht => Nat.lt_succ_of_lt (h.known t ht)
    waiting_known := by
      intro t ht
      rw [hwait, List.mem_append, List.mem_singleton] at ht
      have hle : t ≤ st.nextTransport := by
        rcases ht with ht | rfl
        · exact Nat.le_of_lt (h.waiting_known t ht)
        · exact Nat.le_refl _
      exact Nat.lt_succ_of_le hle
    waiting_off := by
      intro t ht
      rw [hwait, List.mem_append, List.mem_singleton] at ht
      rcases ht with ht | rfl
      · exact h.waiting_off t ht
      · exact hnew
    waiting_once := by
      rw [hwait, List.nodup_append]
      refine ⟨h.waiting_once, List.nodup_singleton _, ?_⟩
      intro t ht u hu htu
      have := h.waiting_known t ht
      simp only [List.mem_singleton] at hu
      omega
    freeing_off := h.freeing_off }

-- Kicking a transport and dropping a reference on it change its record only,
-- and at most post its removal.
structure RecordOnly (st after : Registry) : Prop where
  links : after.links = st.links
  onList : after.onList = st.onList
  nextTransport : after.nextTransport = st.nextTransport
  heap : ∀ t, (st.heap t).isSome → (after.heap t).isSome
  waiting : after.mailbox.filterMap TMsg.registered = st.mailbox.filterMap TMsg.registered
  main : after.main = st.main

theorem setRecord_isSome {record : ATransport} {u : Nat} (hu : (st.heap u).isSome) :
    ((st.setRecord t record).heap u).isSome := by
  by_cases hut : u = t
  · simp [Registry.setRecord, hut]
  · simpa [Registry.setRecord, Function.update_of_ne hut] using hu

theorem kick_recordOnly (hk : st.kickTransport t = .ok after) : RecordOnly st after := by
  obtain ⟨record, -, rfl⟩ := Registry.kickTransport_ok hk
  exact ⟨rfl, rfl, rfl, fun _ => setRecord_isSome, rfl, rfl⟩

theorem unref_recordOnly (hu : st.transportUnrefLocked t = .ok after) : RecordOnly st after := by
  obtain ⟨record, -, ⟨-, closed, -, rfl⟩ | ⟨-, rfl⟩⟩ := Registry.transportUnrefLocked_ok hu
  · refine ⟨rfl, rfl, rfl, fun _ => setRecord_isSome, ?_, rfl⟩
    simp [Registry.removeTransport, Registry.post, Registry.setRecord, TMsg.registered]
  · exact ⟨rfl, rfl, rfl, fun _ => setRecord_isSome, rfl, rfl⟩

theorem RecordOnly.keeps (hr : RecordOnly st after) (h : RegistryInv st) : RegistryInv after where
  integrity := by
    obtain ⟨ts, hring, hts, hlive⟩ := h.integrity
    exact ⟨ts, hr.links ▸ hring, by rw [hr.onList]; exact hts, fun t ht => hr.heap t (hlive t ht)⟩
  known := by rw [hr.onList, hr.nextTransport]; exact h.known
  waiting_known := by
    rw [Registry.waiting, hr.waiting, hr.main, hr.nextTransport]
    exact h.waiting_known
  waiting_off := by
    rw [Registry.waiting, hr.waiting, hr.main, hr.onList]
    exact h.waiting_off
  waiting_once := by
    rw [Registry.waiting, hr.waiting, hr.main]
    exact h.waiting_once
  freeing_off := by rw [hr.main, hr.onList]; exact h.freeing_off

-- The main loop moves on, having done no more than that.
theorem RecordOnly.keeps_main (hr : RecordOnly st after) (h : RegistryInv st) (main : MainAt)
    (hwait : main.beginning.Sublist st.main.beginning) (hfree : ∀ u, main ≠ .freeing u) :
    RegistryInv { after with main := main } := by
  refine (hr.keeps h).of_same rfl rfl rfl (fun _ _ => id) ?_ hfree
  rw [← hr.main] at hwait
  exact hwait.append (List.Sublist.refl _)

theorem setThread_keeps (h : RegistryInv st) (thread : Thread) (phase : ThreadAt) :
    RegistryInv (st.setThread t thread phase) :=
  ⟨h.integrity, h.known, h.waiting_known, h.waiting_off, h.waiting_once, h.freeing_off⟩

theorem free_keeps (h : RegistryInv st) (hm : st.main = .freeing t) :
    RegistryInv { st with heap := Function.update st.heap t none, main := .idle } := by
  refine h.of_same rfl rfl rfl ?_ ?_ (by simp)
  · intro u hon hu
    have hut : u ≠ t := by
      rintro rfl
      rw [h.freeing_off u hm] at hon
      cases hon
    simpa only [Function.update_of_ne hut] using hu
  · simp [Registry.waiting, hm, MainAt.beginning]

theorem RegistryInv.next_onRing (h : RegistryInv st) {r n : TRef} (hr : st.onRing r)
    (hn : st.links.next r = some n) : st.onRing n := by
  obtain ⟨ts, hring, hts, -⟩ := h.integrity
  obtain ⟨z, hz, hrz, -⟩ := hring.next_mem ((mem_ring_iff hts r).mpr hr)
  obtain rfl : z = n := Option.some.inj (hrz.symm.trans hn)
  exact (mem_ring_iff hts z).mp hz

-- Following next from a node of the ring only ever comes to its members.
theorem findFrom_onList (h : RegistryInv st) {test : ATransport → Bool} {fuel : Nat} {r : TRef}
    (hr : st.onRing r) (hf : st.findFrom test fuel r = .ok (some t)) : st.onList t = true := by
  induction fuel generalizing r with
  | zero => cases hf
  | succ fuel ih =>
      cases r with
      | transportList => cases hf
      | transport u =>
          simp only [Registry.findFrom, bind, Except.bind] at hf
          split at hf
          · cases hf
          · split at hf
            · cases hf
              exact hr
            · split at hf
              · rename_i next hn
                exact ih (h.next_onRing hr hn) hf
              · cases hf

theorem findListed_onList (h : RegistryInv st) {test : ATransport → Bool}
    (hf : st.findListed test = .ok (some t)) : st.onList t = true := by
  unfold Registry.findListed at hf
  split at hf
  · rename_i first hfirst
    exact findFrom_onList h (h.next_onRing (r := .transportList) trivial hfirst) hf
  · cases hf

-- The node after the one that is unlinked was read before, and it is still on
-- the list.
theorem RegistryInv.next_stays {unlinked : Registry} {next : TRef} (h : RegistryInv st)
    (hr : st.onRing (.transport t)) (hn : st.links.next (.transport t) = some next)
    (hu : st.unlinkTransport t = .ok unlinked) : unlinked.onRing next := by
  have hnext := h.next_onRing hr hn
  have hne : next ≠ .transport t := by
    obtain ⟨ts, hring, hts, -⟩ := h.integrity
    exact hring.next_ne (List.mem_map_of_mem ((hts t).mpr hr)) hn
  obtain ⟨links, -, rfl⟩ := Registry.unlinkTransport_ok hu
  cases next with
  | transportList => trivial
  | transport u =>
      have hut : u ≠ t := by
        rintro rfl
        exact hne rfl
      simpa [Registry.onRing, hut] using hnext

theorem unregisterTcpFrom_keeps {fuel : Nat} {r : TRef} (h : RegistryInv st)
    (hm : st.main = .idle) (hr : st.onRing r)
    (hs : Registry.unregisterTcpFrom fuel r st = .ok after) : RegistryInv after := by
  induction fuel generalizing r st with
  | zero => cases hs
  | succ fuel ih =>
      cases r with
      | transportList =>
          cases hs
          exact h
      | transport t =>
          obtain ⟨record, next, -, hn, hturn⟩ := Registry.unregisterTcpFrom_turn hs
          have hnext := h.next_onRing hr hn
          obtain ⟨-, unlinked, kicked, dropped, hu, hk, hd, hs⟩ | ⟨-, hs⟩ := hturn
          · have hunlinked : RegistryInv unlinked ∧ unlinked.main = .idle := by
              have hkeeps := unlink_keeps h (Or.inl hr) hu .idle (by simp [MainAt.beginning]) (by simp)
              obtain ⟨links, -, rfl⟩ := Registry.unlinkTransport_ok hu
              rw [← hm] at hkeeps
              exact ⟨hkeeps, hm⟩
            have hkr := kick_recordOnly hk
            have hdr := unref_recordOnly hd
            refine ih (hdr.keeps (hkr.keeps hunlinked.1)) ?_ ?_ hs
            · rw [hdr.main, hkr.main, hunlinked.2]
            · have hlist : dropped.onList = unlinked.onList := by
                rw [hdr.onList, hkr.onList]
              have hstays := h.next_stays hr hn hu
              cases next with
              | transportList => trivial
              | transport u => simpa only [Registry.onRing, hlist] using hstays
          · exact ih h hm hnext hs

theorem mainStep_keeps (h : RegistryInv st)
    (hg : ∀ t, st.main = .removing t ∨ st.main = .unregUnlink t → UnlinkSafe st t)
    (hs : mainStep st = .ok after) : RegistryInv after := by
  simp only [mainStep, bind, Except.bind] at hs
  split at hs
  case h_1 hm =>
    split at hs
    · cases hs
    · rename_i t rest hbox
      cases hs
      refine h.of_same rfl rfl rfl (fun _ _ => id) ?_ (by simp)
      simp [Registry.waiting, hm, hbox, MainAt.beginning, List.filterMap_cons, TMsg.registered]
    · rename_i t rest hbox
      cases hs
      refine h.of_same rfl rfl rfl (fun _ _ => id) ?_ (by simp)
      simp [Registry.waiting, hm, hbox, MainAt.beginning, TMsg.registered]
  case h_2 t hm =>
    split at hs
    · cases hs
    · rename_i unlinked hu
      cases hs
      exact unlink_keeps h (hg t (Or.inl hm)) hu _ (by simp [MainAt.beginning])
        (fun u hu => Or.inl (by simpa using hu.symm))
  case h_3 t hm =>
    split at hs
    · cases hs
    · cases hs
      exact free_keeps h hm
  case h_4 t hm =>
    split at hs
    · cases hs
    · rename_i record hr
      have hrecord := Registry.deref_ok hr
      split at hs
      · cases hs
        refine h.of_same rfl rfl rfl (fun _ _ => setRecord_isSome) ?_ (by simp)
        simp [Registry.waiting, hm, MainAt.beginning, Registry.setRecord, Registry.setThread]
      · cases hs
        refine h.of_same rfl rfl rfl (fun _ _ => id) ?_ (by simp)
        simp [Registry.waiting, hm, MainAt.beginning]
  case h_5 t hm =>
    cases hs
    refine h.of_same rfl rfl rfl (fun _ _ => id) ?_ (by simp)
    simp [Registry.waiting, hm, MainAt.beginning, Registry.setThread]
  case h_6 t hm =>
    split at hs
    · cases hs
    · rename_i linked hl
      cases hs
      exact link_keeps h hm hl
  case h_7 t hm =>
    split at hs
    · cases hs
    · rename_i unlinked hu
      cases hs
      exact unlink_keeps h (hg t (Or.inr hm)) hu _ (by simp [MainAt.beginning]) (by simp)
  case h_8 t hm =>
    split at hs
    · cases hs
    · rename_i kicked hk
      cases hs
      exact (kick_recordOnly hk).keeps_main h _ (by simp [MainAt.beginning]) (by simp)
  case h_9 t hm =>
    split at hs
    · cases hs
    · rename_i dropped hd
      cases hs
      exact (unref_recordOnly hd).keeps_main h _ (by simp [MainAt.beginning]) (by simp)

theorem threadStep_keeps (h : RegistryInv st) {thread : Thread}
    (hs : threadStep st t thread = .ok after) : RegistryInv after := by
  simp only [threadStep, bind, Except.bind] at hs
  split at hs
  · split at hs
    · cases hs
    · rename_i kicked hk
      cases hs
      exact setThread_keeps ((kick_recordOnly hk).keeps h) _ _
  · split at hs
    · cases hs
    · rename_i dropped hd
      cases hs
      exact setThread_keeps ((unref_recordOnly hd).keeps h) _ _
  · cases hs

theorem step_keeps (st : Registry) (move : Move) (after : Registry) (h : RegistryInv st)
    (hg : UnlinksSafely st move) (hs : step st move = .ok after) : RegistryInv after := by
  cases move with
  | registerSocket serial adbPort isLocal =>
      cases hs
      exact register_keeps h _
  | registerUsb usb serial writeable =>
      cases hs
      exact register_keeps h _
  | main =>
      refine mainStep_keeps h ?_ hs
      rintro t (hm | hm) <;> simpa [UnlinksSafely, hm] using hg
  | thread t thread => exact threadStep_keeps h hs
  | unregister serial =>
      simp only [step, bind, Except.bind] at hs
      split at hs
      · rename_i hm
        split at hs
        · cases hs
        · split at hs
          · cases hs
            refine h.of_same rfl rfl rfl (fun _ _ => id) ?_ (by simp)
            simp [Registry.waiting, hm, MainAt.beginning]
          · cases hs
            exact h
      · cases hs
  | unregisterAllTcp =>
      simp only [step] at hs
      split at hs
      · rename_i hm
        simp only [Registry.unregisterAllTcpTransports] at hs
        split at hs
        · rename_i first hfirst
          exact unregisterTcpFrom_keeps h hm (h.next_onRing (r := .transportList) trivial hfirst) hs
        · cases hs
      · cases hs
  | unregisterUsb usb =>
      simp only [step, Registry.unregisterUsbTransport, bind, Except.bind] at hs
      split at hs
      · cases hs
      · rename_i found hf
        split at hs
        · rename_i t
          have hkeep := unlink_keeps h (Or.inl (findListed_onList h hf)) hs st.main
            (List.Sublist.refl _) (fun _ => Or.inr)
          obtain ⟨links, -, rfl⟩ := Registry.unlinkTransport_ok hs
          exact hkeep
        · cases hs
          exact h

-- The list stays whole in every run in which a transport that is unlinked a
-- second time finds its old neighbours as it left them, or off the list.
theorem transport_list_integrity (moves : List Move) (st : Registry)
    (hg : Guarded step UnlinksSafely registryInit moves)
    (hr : run step registryInit moves = .ok st) : ListIntegrity st :=
  (guarded_invariant step_keeps registryInv_init hg hr).integrity

-- A device is disconnected by a client, removed, and another one comes.
theorem transport_list_integrity_of_two_devices :
    ∃ st, st.heap 0 = none ∧ st.onList 1 = true ∧ ListIntegrity st :=
  ⟨_, rfl, rfl, transport_list_integrity
    [.registerSocket [97] 0 false, .main, .main, .main, .main, .unregister [97], .main, .main,
      .main, .thread 0 .input, .thread 0 .input, .main, .main, .main,
      .registerSocket [98] 0 false, .main, .main, .main, .main] _ (by decide) rfl⟩

-- The second device comes before the first one is removed, and goes with it.
theorem removal_can_drop_another :
    ¬ ∀ (moves : List Move) (st : Registry),
      run step registryInit moves = .ok st → ListIntegrity st := by
  intro h
  obtain ⟨ts, hring, hts, -⟩ := h [.registerSocket [97] 0 false, .main, .main, .main, .main,
    .unregister [97], .main, .main, .main, .registerSocket [98] 0 false, .main, .main, .main,
    .main, .thread 0 .input, .thread 0 .input, .main, .main] _ rfl
  have hmem : TRef.transport 1 ∈ TRef.transportList :: ts.map .transport :=
    (mem_ring_iff hts _).mpr (by decide)
  obtain ⟨z, -, hz, hnext⟩ := hring.prev_mem hmem
  obtain rfl : TRef.transportList = z := Option.some.inj hz
  exact absurd hnext (by decide)

end Adb.Transport
