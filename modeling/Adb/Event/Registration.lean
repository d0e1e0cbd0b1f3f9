import Adb.Event.Registered
import Adb.Event.Process
import Mathlib.Data.List.Perm.Subperm

namespace Adb.Event

open Adb.Lib Adb.Host

section Steps

variable {st st' : EventState} {queue : List Nat} {n m f : Nat}

-- A handle that carries no fdevent is opened or closed.
theorem Registered.setFh (h : Registered st queue) (ht : st.fdTable f = none) {record : FHRec}
    {count : Nat} (hle : st.fhCount ≤ count) (hmax : count ≤ WIN32_MAX_FHS)
    (hslot : record.used = true → f < count ∧ record.clazz.isSome) :
    Registered ({ st with fhCount := count }.setFh f record) queue where
  ring := h.ring
  queued := h.queued
  queued_active := h.queued_active
  quiet := h.quiet
  table := h.table
  carried := by
    intro k hk
    obtain ⟨g, hg, hu⟩ := h.carried k hk
    have hne : g ≠ f := by
      rintro rfl
      rw [ht] at hg
      cases hg
    exact ⟨g, hg, by simpa [EventState.setFh, Function.update_of_ne hne] using hu⟩
  hooked := h.hooked.setFh (by rw [EventState.interestOn, ht]) record
  slots := by
    intro g hu
    by_cases hg : g = f
    · subst hg
      simp only [EventState.setFh, Function.update_self] at hu ⊢
      exact hslot hu
    · simp only [EventState.setFh, Function.update_of_ne hg] at hu ⊢
      exact ⟨Nat.lt_of_lt_of_le (h.slots g hu).1 hle, (h.slots g hu).2⟩
  count := hmax
  tableMax := h.tableMax

theorem Registered.table_none (h : Registered st queue) (hu : (st.fhs f).used = false) :
    st.fdTable f = none := by
  cases ht : st.fdTable f with
  | none => rfl
  | some k =>
      have hused := h.used_of_table ht
      rw [hu] at hused
      cases hused

theorem fhAlloc_registered (h : Registered st queue) (clazz : FHClass) :
    Registered (fhAlloc st clazz) queue := by
  unfold fhAlloc freeSlot
  by_cases hcount : st.fhCount < WIN32_MAX_FHS
  · -- a slot that was never used
    have hfree : (st.fhs st.fhCount).used = false := by
      by_contra hu
      have hlt := (h.slots st.fhCount (by simpa using hu)).1
      omega
    simp only [if_pos hcount]
    exact h.setFh (h.table_none hfree) (by omega) (by omega) fun _ => ⟨by omega, rfl⟩
  · simp only [if_neg hcount]
    split
    · rename_i f hf
      have hnone := List.find?_some (p := fun nn => (st.fhs nn).clazz.isNone) hf
      have hlt := List.mem_range.mp (List.mem_of_find?_eq_some hf)
      have hfree : (st.fhs f).used = false := by
        by_contra hu
        have hsome := (h.slots f (by simpa using hu)).2
        simp only [Option.isNone_iff_eq_none] at hnone
        rw [hnone] at hsome
        cases hsome
      exact h.setFh (h.table_none hfree) (Nat.le_refl _) h.count
        fun _ => ⟨by omega, rfl⟩
    · exact h

theorem fhClose_registered (h : Registered st queue) (ht : st.fdTable f = none) :
    Registered (fhClose st f) queue := by
  unfold fhClose
  split
  · exact h.setFh ht (Nat.le_refl _) h.count (by simp)
  · exact h

theorem adbClose_registered (h : Registered st queue) {fd : Int}
    (hfree : ∀ n, st.active n → (st.fdes n).fd ≠ fd) : Registered (adbClose st fd) queue := by
  unfold adbClose
  split
  · rename_i f hf
    obtain ⟨hfd, -⟩ := fhFromInt_some hf
    refine fhClose_registered h ?_
    cases ht : st.fdTable f with
    | none => rfl
    | some n =>
        obtain ⟨ha, hn⟩ := (h.table f n).mp ht
        exact absurd (hn.trans hfd.symm) (hfree n ha)
  · exact h

theorem fdes_fhAlloc (clazz : FHClass) : (fhAlloc st clazz).fdes = st.fdes := by
  unfold fhAlloc
  split
  · split <;> rfl
  · rfl

theorem fdes_adbClose (fd : Int) : (adbClose st fd).fdes = st.fdes := by
  unfold adbClose fhClose
  split
  · split <;> rfl
  · rfl

-- The table entry of a handle, the fdevent behind it and the fdevent's hook go
-- together.
theorem Registered.forget (h : Registered st queue) (ht : st.fdTable f = some n)
    {hooks : List EventHook} {links : Links FdeRef} {queue' : List Nat}
    (hh : Hooked st.fhs hooks (Function.update st.interestOn f 0))
    (hring : links.IsRing .listPending (queue'.map .fde))
    (hq : ∀ k, k ∈ queue' ↔ k ≠ n ∧ k ∈ queue) :
    Registered ({ st with links, hooks, fdTable := Function.update st.fdTable f none }.setFde n
      ⟨⟨0, 0⟩, (st.fdes n).fd⟩) queue' where
  ring := hring
  queued := by
    intro k
    rw [hq]
    by_cases hk : k = n
    · subst hk
      simp [EventState.setFde, pending]
    · simp [EventState.setFde, hk, h.queued]
  queued_active := by
    intro k hk
    obtain ⟨hkn, hkq⟩ := (hq k).mp hk
    simpa [EventState.setFde, EventState.active, hkn] using h.queued_active k hkq
  quiet := by
    intro k hk
    by_cases hkn : k = n
    · subst hkn
      simp [EventState.setFde]
    · simpa [EventState.setFde, hkn] using h.quiet k fun hm => hk ((hq k).mpr ⟨hkn, hm⟩)
  table := by
    intro g k
    by_cases hg : g = f
    · subst hg
      have hnone : ∀ k, k ≠ n → st.active k → (st.fdes k).fd ≠ g + WIN32_FH_BASE := by
        intro k hkn ha hfd
        have hk := (h.table g k).mpr ⟨ha, hfd⟩
        rw [ht, Option.some.injEq] at hk
        exact hkn hk.symm
      by_cases hk : k = n
      · subst hk
        simp [EventState.setFde, EventState.active, Event.active]
      · simpa [EventState.setFde, EventState.active, hk] using hnone k hk
    · by_cases hk : k = n
      · subst hk
        have hne : st.fdTable g ≠ some k := fun hgk => hg ((h.table_iff_eq ht g).mp hgk)
        simp [EventState.setFde, EventState.active, Event.active, hg, hne]
      · simpa [EventState.setFde, EventState.active, hg, hk] using h.table g k
  carried := by
    intro k hk
    have hkn : k ≠ n := by
      rintro rfl
      simp [EventState.setFde, EventState.active, Event.active] at hk
    have hold : st.active k := by simpa [EventState.setFde, EventState.active, hkn] using hk
    obtain ⟨g, hg, hu⟩ := h.carried k hold
    have hgf : g ≠ f := by
      rintro rfl
      rw [ht, Option.some.injEq] at hg
      exact hkn hg.symm
    exact ⟨g, by simpa [EventState.setFde, hgf] using hg, hu⟩
  hooked := hh.congr fun g => by
    by_cases hg : g = f
    · subst hg
      simp [EventState.interestOn, EventState.setFde]
    · simp only [EventState.interestOn, EventState.setFde, Function.update_of_ne hg]
      cases hgt : st.fdTable g with
      | none => rfl
      | some k =>
          have hkn : k ≠ n := by
            rintro rfl
            exact hg ((h.table_iff_eq ht g).mp hgt)
          simp [hkn]
  slots := h.slots
  count := h.count
  tableMax := by
    rcases h.tableMax with ⟨-, hnone⟩ | hmax
    · rw [hnone] at ht
      cases ht
    · exact .inr hmax

theorem adbClose_setFde (k : Nat) (fde : Fde) (fd : Int) :
    (adbClose st fd).setFde k fde = adbClose (st.setFde k fde) fd := by
  unfold adbClose fhClose
  have hfrom : fhFromInt (st.setFde k fde) fd = fhFromInt st fd := rfl
  rw [hfrom]
  cases fhFromInt st fd with
  | none => rfl
  | some g => by_cases hu : (st.fhs g).used = true <;> simp [EventState.setFde, EventState.setFh, hu]

theorem fdeventDisconnect_links (links : Links FdeRef) (n : Nat) :
    fdeventDisconnect { st with links } n = { fdeventDisconnect st n with links } := by
  unfold fdeventDisconnect EventState.looperUnhook
  have hfrom : fhFromInt { st with links } = fhFromInt st := rfl
  simp only [hfrom]
  split
  · split <;> rfl
  · rfl

theorem dropPending_spec (h : Registered st queue) (n : Nat) :
    ∃ links, dropPending st n = .ok { st with links } ∧
      links.IsRing .listPending ((queue.erase n).map .fde) := by
  unfold dropPending
  by_cases hp : pending (st.fdes n).toFdevent = true
  · obtain ⟨links, he, hring⟩ := plistRemove_ring h.ring ((h.queued n).mpr hp)
    exact ⟨links, by rw [if_pos ((pending_iff _).mpr hp), he], hring⟩
  · have hq : n ∉ queue := fun hq => hp ((h.queued n).mp hq)
    refine ⟨st.links, by rw [if_neg fun hne => hp ((pending_iff _).mp hne)], ?_⟩
    rw [List.erase_of_not_mem hq]
    exact h.ring

-- An fdevent is taken off everything before its handle is closed.
theorem fdeventRemove_spec (h : Registered st queue) (n : Nat) :
    ∃ st' queue', fdeventRemove st n = .ok st' ∧ Registered st' queue' ∧
      Quieter st queue st' queue' := by
  have hnd := IsRing.nodup_queue h.ring
  obtain ⟨links, hlinks, hring⟩ := dropPending_spec h n
  have hquieter : ∀ st' : EventState, (∀ k, k ≠ n → st'.fdes k = st.fdes k) →
      Quieter st queue st' (queue.erase n) := by
    intro st' hsame
    refine .of_others (n := n) (fun k hk => List.mem_of_mem_erase hk)
      (fun k _ hk => hsame k hk) fun hk => ?_
    exact absurd rfl (hnd.mem_erase_iff.mp hk).1
  simp only [fdeventRemove, hlinks, bind, Except.bind, dropActive]
  by_cases ha : st.active n
  · obtain ⟨f, ht, hu⟩ := h.carried n ha
    have hfd := ((h.table f n).mp ht).2
    have hmax : (f : Int) < st.fdTableMax := by
      have hlt := h.index_lt hu
      have hdec : WIN32_MAX_FHS = 128 := rfl
      rcases h.tableMax with ⟨-, hnone⟩ | hmax
      · rw [hnone] at ht
        cases ht
      · omega
    obtain ⟨hooks, he, hh⟩ := h.looperUnhook ht h.hooked (interest (st.fdes n).toFdevent)
    have hzero : st.interestOn f &&& ~~~interest (st.fdes n).toFdevent = 0 := by
      rw [h.interestOn_of_table ht]
      simp
    rw [hzero] at hh
    have hdisconnect : fdeventDisconnect { st with links } n = { st with links, hooks } := by
      rw [fdeventDisconnect_links]
      exact congrArg (fun x : EventState => { x with links }) he
    have hindex : (f : Int) + WIN32_FH_BASE - WIN32_FH_BASE = f := by omega
    have hrange : ¬((f : Int) < 0 ∨ (f : Int) ≥ st.fdTableMax) := by omega
    have hgone := h.forget ht hh hring fun k => hnd.mem_erase_iff
    rw [if_pos ((active_iff _).mpr ha), hdisconnect]
    simp only [fdeventUnregister, hfd, hindex, if_neg hrange, Int.toNat_natCast, ht, ne_eq,
      not_true_eq_false, if_false, pure, Except.pure]
    split
    · refine ⟨_, _, rfl, ?_, hquieter _ ?_⟩
      · rw [adbClose_setFde, fdes_adbClose]
        refine adbClose_registered hgone fun k hk hkfd => ?_
        have hback := (hgone.table f k).mpr ⟨hk, hkfd⟩
        simp [EventState.setFde] at hback
      · intro k hk
        simp [EventState.setFde, fdes_adbClose, hk]
    · refine ⟨_, _, rfl, hgone, hquieter _ ?_⟩
      intro k hk
      simp [EventState.setFde, hk]
  · rw [if_neg fun hne => ha ((active_iff _).mp hne)]
    have hnq : ∀ k, k ∈ queue.erase n ↔ k ≠ n ∧ k ∈ queue := fun k => hnd.mem_erase_iff
    refine ⟨_, _, rfl, h.setFde ?_ rfl (h.hooked_same fun hact => absurd hact ha) hring ?_ ?_ ?_ ?_,
      hquieter _ ?_⟩
    · simp [Event.active, ha]
    · intro k hk
      simp [hnq, hk]
    · simp [hnq, pending]
    · exact fun hn => absurd rfl ((hnq n).mp hn).1
    · exact fun _ => rfl
    · intro k hk
      simp [EventState.setFde, hk]

theorem le_grow (fd : Nat) : ∀ fuel max, max ≤ grow fd fuel max := by
  intro fuel
  induction fuel with
  | zero => exact fun max => Nat.le_refl max
  | succ fuel ih =>
      intro max
      rw [grow]
      split
      · exact Nat.le_trans (by omega) (ih (max * 2))
      · exact Nat.le_refl max

theorem Hooked.nil (h : Hooked st.fhs st.hooks fun _ => 0) : st.hooks = [] := by
  cases hhooks : st.hooks with
  | nil => rfl
  | cons hook rest =>
      have hm : hook ∈ st.hooks := by simp [hhooks]
      have hw := wantedOf_mem h.nodup hm
      rw [h.wanted] at hw
      exact absurd hw.symm (h.nonzero hook hm)

-- An fdevent that is on nothing yet comes to a handle that carries none.
theorem Registered.enter (h : Registered st queue) (ha : ¬st.active n)
    (ht : st.fdTable f = none) (hu : (st.fhs f).used = true) {max : Nat} (hmax : 256 ≤ max) :
    Registered ({ st with
        links := st.links.clear (.fde n)
        fdTable := Function.update st.fdTable f (some n)
        fdTableMax := max }.setFde n ⟨⟨FDE_ACTIVE, 0⟩, f + WIN32_FH_BASE⟩) queue := by
  have hq : n ∉ queue := fun hq => ha (h.queued_active n hq)
  exact {
    ring := h.ring.clear (by simpa [mem_map_fde] using hq)
    queued := by
      intro k
      by_cases hk : k = n
      · subst hk
        simp [EventState.setFde, pending, hq, FDE_ACTIVE]
      · simp [EventState.setFde, hk, h.queued]
    queued_active := by
      intro k hk
      have hkn : k ≠ n := fun he => hq (he ▸ hk)
      simpa [EventState.setFde, EventState.active, hkn] using h.queued_active k hk
    quiet := by
      intro k hk
      by_cases hkn : k = n
      · subst hkn
        simp [EventState.setFde]
      · simpa [EventState.setFde, hkn] using h.quiet k hk
    table := by
      intro g k
      by_cases hk : k = n
      · subst hk
        have hold : ∀ g, st.fdTable g ≠ some k := fun g hg => ha ((h.table g k).mp hg).1
        by_cases hg : g = f
        · subst hg
          simp [EventState.setFde, EventState.active, Event.active, FDE_ACTIVE]
        · have hne : (f : Int) ≠ g := by omega
          simp [EventState.setFde, EventState.active, hg, hold g, hne]
      · by_cases hg : g = f
        · subst hg
          have hnone : ¬(st.active k ∧ (st.fdes k).fd = g + WIN32_FH_BASE) := by
            intro hk'
            have hgk := (h.table g k).mpr hk'
            rw [ht] at hgk
            cases hgk
          simpa [EventState.setFde, EventState.active, hk, Ne.symm hk] using hnone
        · simpa [EventState.setFde, EventState.active, hg, hk] using h.table g k
    carried := by
      intro k hk
      by_cases hkn : k = n
      · subst hkn
        exact ⟨f, by simp [EventState.setFde], hu⟩
      · have hold : st.active k := by simpa [EventState.setFde, EventState.active, hkn] using hk
        obtain ⟨g, hg, hgu⟩ := h.carried k hold
        have hgf : g ≠ f := by
          rintro rfl
          rw [ht] at hg
          cases hg
        exact ⟨g, by simpa [EventState.setFde, hgf] using hg, hgu⟩
    hooked := h.hooked.congr fun g => by
      by_cases hg : g = f
      · subst hg
        simp [EventState.interestOn, EventState.setFde, ht, interest, FDE_ACTIVE, FDE_EVENTMASK]
      · simp only [EventState.interestOn, EventState.setFde, Function.update_of_ne hg]
        cases hgt : st.fdTable g with
        | none => rfl
        | some k =>
            have hkn : k ≠ n := fun he => ha (he ▸ ((h.table g k).mp hgt).1)
            simp [hkn]
    slots := h.slots
    count := h.count
    tableMax := .inr hmax }

theorem fdeventInstall_spec (h : Registered st queue) {fd : Int} (ha : ¬st.active n)
    (hlive : fhFromInt st fd = some f) (hfree : ∀ k, st.active k → (st.fdes k).fd ≠ fd) :
    ∃ st', fdeventInstall st n fd = .ok st' ∧ Registered st' queue ∧
      Quieter st queue st' queue := by
  obtain ⟨rfl, hu⟩ := fhFromInt_some hlive
  have hlt := h.index_lt hu
  have hdec : WIN32_MAX_FHS = 128 := rfl
  have ht : st.fdTable f = none := by
    cases ht : st.fdTable f with
    | none => rfl
    | some k => exact absurd ((h.table f k).mp ht).2 (hfree k ((h.table f k).mp ht).1)
  have hq : n ∉ queue := fun hq => ha (h.queued_active n hq)
  have hindex : (f : Int) + WIN32_FH_BASE - WIN32_FH_BASE = f := by omega
  have hneg : ¬(f : Int) < 0 := by omega
  have hlow : ¬(f : Int) + WIN32_FH_BASE > 32000 := by
    simp only [WIN32_FH_BASE]
    omega
  have hwants : FDE_ACTIVE &&& FDE_EVENTMASK = 0 := by decide
  obtain ⟨max, hmax, hregister⟩ : ∃ max, 256 ≤ max ∧
      fdeventRegister { st.setFde n ⟨⟨FDE_ACTIVE, 0⟩, f + WIN32_FH_BASE⟩ with
        links := st.links.clear (.fde n) } n =
      .ok ({ st with
        links := st.links.clear (.fde n)
        fdTable := Function.update st.fdTable f (some n)
        fdTableMax := max }.setFde n ⟨⟨FDE_ACTIVE, 0⟩, f + WIN32_FH_BASE⟩) := by
    unfold fdeventRegister
    simp only [EventState.setFde, Function.update_self, hindex, if_neg hneg, Int.toNat_natCast]
    rcases h.tableMax with ⟨hzero, hnone⟩ | hmax
    · -- the table is allocated, and the looper is set up once more
      have hhooks : st.hooks = [] := Hooked.nil (h.hooked.congr fun g => by
        rw [EventState.interestOn, hnone])
      have hclear : (fun i => if 0 ≤ i ∧ i < grow f f 256 then none else st.fdTable i) =
          st.fdTable := by
        funext i
        simp [hnone]
      refine ⟨grow f f 256, le_grow f f 256, ?_⟩
      simp only [hzero, Nat.not_lt_zero, if_false, if_neg hlow, if_true, hclear, hhooks]
    · refine ⟨st.fdTableMax, hmax, ?_⟩
      rw [if_pos (show f < st.fdTableMax by omega)]
  have hdone := h.enter ha ht hu hmax
  refine ⟨_, ?_, hdone, ?_⟩
  · have hcall : fdeventInstall st n (f + WIN32_FH_BASE) =
        (fdeventRegister { st.setFde n ⟨⟨FDE_ACTIVE, 0⟩, f + WIN32_FH_BASE⟩ with
          links := st.links.clear (.fde n) } n).bind fun st =>
            let st := fdeventConnect st n
            .ok (st.setFde n { st.fdes n with state := (st.fdes n).state ||| FDE_ACTIVE }) := rfl
    rw [hcall, hregister]
    simp only [Except.bind, fdeventConnect, EventState.setFde, Function.update_self, hwants, ne_eq,
      not_true_eq_false, if_false, Function.update_idem, BitVec.or_self]
  · refine .of_others (n := n) (fun k hk => hk) ?_ (fun hn => absurd hn hq)
    intro k _ hk
    simp [EventState.setFde, hk]

end Steps

-- What the callers promise: a handle with an fdevent is left to fdevent_remove,
-- and an fdevent that is not in use is installed on a live handle with none.
def Promised (st : EventState) : Op → Prop
  | .adbClose fd => ∀ n, st.active n → (st.fdes n).fd ≠ fd
  | .install n fd =>
      ¬st.active n ∧ (fhFromInt st fd).isSome ∧ ∀ k, st.active k → (st.fdes k).fd ≠ fd
  | _ => True

-- No operation but a signal makes an fdevent pending or tells it of an event.
theorem step_spec {st : EventState} {queue : List Nat} (h : Registered st queue) (op : Op)
    (hp : Promised st op) :
    ∃ st' queue', step st op = .ok st' ∧ Registered st' queue' ∧
      ((∀ i, op ≠ .signal i) → Quieter st queue st' queue') := by
  cases op with
  | fhAlloc clazz =>
      exact ⟨_, queue, rfl, fhAlloc_registered h clazz,
        fun _ => .of_same fun k => by rw [fdes_fhAlloc]⟩
  | adbClose fd =>
      exact ⟨_, queue, rfl, adbClose_registered h hp,
        fun _ => .of_same fun k => by rw [fdes_adbClose]⟩
  | install n fd =>
      obtain ⟨ha, hlive, hfree⟩ := hp
      obtain ⟨f, hf⟩ := Option.isSome_iff_exists.mp hlive
      obtain ⟨st', he, hr, hquiet⟩ := fdeventInstall_spec h ha hf hfree
      exact ⟨st', queue, he, hr, fun _ => hquiet⟩
  | set n events =>
      obtain ⟨st', queue', he, hr, hquiet⟩ := fdeventSet_spec h n events
      exact ⟨st', queue', he, hr, fun _ => hquiet⟩
  | add n events =>
      obtain ⟨st', queue', he, hr, hquiet⟩ := fdeventSet_spec h n
        (((st.fdes n).state &&& FDE_EVENTMASK) ||| (events &&& FDE_EVENTMASK))
      exact ⟨st', queue', he, hr, fun _ => hquiet⟩
  | del n events =>
      obtain ⟨st', queue', he, hr, hquiet⟩ := fdeventSet_spec h n
        (((st.fdes n).state &&& FDE_EVENTMASK) &&& ~~~(events &&& FDE_EVENTMASK))
      exact ⟨st', queue', he, hr, fun _ => hquiet⟩
  | remove n =>
      obtain ⟨st', queue', he, hr, hquiet⟩ := fdeventRemove_spec h n
      exact ⟨st', queue', he, hr, fun _ => hquiet⟩
  | signal i =>
      simp only [step]
      cases hi : st.hooks[i]? with
      | none => exact ⟨st, queue, rfl, h, fun hne => absurd rfl (hne i)⟩
      | some hook =>
          obtain ⟨n, links, -, he, hr⟩ := eventHookSignal_spec h (List.mem_of_getElem? hi)
          exact ⟨_, _, he, hr, fun hne => absurd rfl (hne i)⟩
  | dequeue =>
      cases queue with
      | nil =>
          exact ⟨st, [], by simp only [step, dispatch_nil h, Except.map], h,
            fun _ => .of_same fun _ => rfl⟩
      | cons n queue =>
          obtain ⟨links, he, hr⟩ := dispatch_cons h
          have hnd := List.nodup_cons.mp (IsRing.nodup_queue h.ring)
          refine ⟨_, queue, by simp only [step, he, Except.map], hr, fun _ => ?_⟩
          refine .of_others (n := n) (fun k hk => List.mem_cons_of_mem n hk) ?_
            (fun hn => absurd hn hnd.1)
          intro k _ hk
          simp [EventState.setFde, hk]

theorem length_addHandle (htab : List Nat) (h : Option Nat) :
    (addHandle htab h).length ≤ htab.length + 1 := by
  unfold addHandle
  split
  · split <;> simp
  · omega

theorem length_fillTable (hooks : List EventHook) (htab : List Nat) :
    ∀ table ∈ (fillTable hooks htab).2, table.length ≤ htab.length + hooks.length := by
  induction hooks generalizing htab with
  | nil => simp [fillTable]
  | cons hook rest ih =>
      intro table hm
      rw [fillTable] at hm
      split at hm
      · cases hm
      · have hrest := ih _ table hm
        rename_i started he
        have hadd := length_addHandle htab started.h
        simp only [List.length_cons] at hrest ⊢
        omega

-- The registration of the fdevents, over the words and tables alone.
structure InStep (st : EventState) : Prop where
  pendingList : ∃ queue : List Nat, st.links.IsRing .listPending (queue.map .fde) ∧
    ∀ n, n ∈ queue ↔ (st.fdes n).state &&& FDE_PENDING ≠ 0
  table : ∀ f n, st.fdTable f = some n ↔
    (st.fdes n).state &&& FDE_ACTIVE ≠ 0 ∧ (st.fdes n).fd = f + WIN32_FH_BASE
  carried : ∀ n, (st.fdes n).state &&& FDE_ACTIVE ≠ 0 → ∃ f, st.fdTable f = some n
  oneHook : (st.hooks.map (·.fh)).Nodup
  hooks : ∀ f wanted, (∃ hook ∈ st.hooks, hook.fh = f ∧ hook.wanted = wanted) ↔
    wanted ≠ 0 ∧ ∃ n, (st.fdes n).state &&& FDE_ACTIVE ≠ 0 ∧
      (st.fdes n).fd = f + WIN32_FH_BASE ∧ (st.fdes n).state &&& FDE_EVENTMASK = wanted
  live : ∀ hook ∈ st.hooks, fhFromInt st (hook.fh + WIN32_FH_BASE) = some hook.fh ∧
    (st.fhs hook.fh).clazz = some hook.clazz
  indexInRange : ∀ hook ∈ st.hooks, 0 ≤ fhToInt st hook.fh - WIN32_FH_BASE ∧
    fhToInt st hook.fh - WIN32_FH_BASE < st.fdTableMax
  waitTable : ∀ hooks : List EventHook, hooks.length = st.hooks.length →
    ∀ htab ∈ (fillTable hooks []).2, htab.length ≤ WIN32_MAX_FHS

theorem Registered.inStep {st : EventState} {queue : List Nat} (h : Registered st queue) :
    InStep st where
  pendingList := ⟨queue, h.ring, fun n => (h.queued n).trans (pending_iff _).symm⟩
  table := by
    intro f n
    rw [h.table, active_iff, EventState.active]
  carried := by
    intro n hn
    obtain ⟨f, hf, -⟩ := h.carried n ((active_iff _).mp hn)
    exact ⟨f, hf⟩
  oneHook := h.hooked.nodup
  hooks := by
    intro f wanted
    constructor
    · rintro ⟨hook, hm, rfl, rfl⟩
      obtain ⟨n, ht, ha, hw⟩ := h.hook_table hm
      exact ⟨h.hooked.nonzero hook hm, n, (active_iff _).mpr ha, ((h.table _ n).mp ht).2, hw.symm⟩
    · rintro ⟨hne, n, ha, hfd, rfl⟩
      have ht := (h.table f n).mpr ⟨(active_iff _).mp ha, hfd⟩
      have hw := h.hooked.wanted f
      rw [h.interestOn_of_table ht] at hw
      have hwanted : wantedOf st.hooks f ≠ 0 := by
        rw [hw]
        exact hne
      obtain ⟨hook, hm, hfh, hhook⟩ := exists_of_wantedOf hwanted
      exact ⟨hook, hm, hfh, hhook.trans hw⟩
  live := by
    intro hook hm
    have hf := h.hooked.live hook hm
    exact ⟨h.fhFromInt (by rw [hf]), by rw [hf]⟩
  indexInRange := by
    intro hook hm
    have hf := h.hooked.live hook hm
    have hu : (st.fhs hook.fh).used = true := by rw [hf]
    obtain ⟨n, ht, -⟩ := h.hook_table hm
    have hlt := h.index_lt hu
    have hdec : WIN32_MAX_FHS = 128 := rfl
    rw [h.fhToInt hu]
    rcases h.tableMax with ⟨-, hnone⟩ | hmax
    · rw [hnone] at ht
      cases ht
    · omega
  waitTable := by
    intro hooks hlen htab hm
    have hle := length_fillTable hooks [] htab hm
    have hsub : st.hooks.map (·.fh) ⊆ List.range WIN32_MAX_FHS := by
      intro f hf
      obtain ⟨hook, hm, rfl⟩ := List.mem_map.mp hf
      have hl := h.hooked.live hook hm
      exact List.mem_range.mpr (h.index_lt (by rw [hl]))
    have hcount := (List.subperm_of_subset h.hooked.nodup hsub).length_le
    simp only [List.length_map, List.length_range] at hcount
    simp only [List.length_nil] at hle
    omega

theorem registered_run {ops : List Op} (hg : Guarded step Promised eventInit ops) :
    ∃ st queue, run step eventInit ops = .ok st ∧ Registered st queue := by
  obtain ⟨st, hr, queue, h⟩ := guarded_total (P := fun st => ∃ queue, Registered st queue)
    (fun st op hp hg => by
      obtain ⟨queue, h⟩ := hp
      obtain ⟨st', queue', he, hr, -⟩ := step_spec h op hg
      exact ⟨st', he, queue', hr⟩) ⟨[], registered_init⟩ hg
  exact ⟨st, queue, hr, h⟩

-- However fdevents are installed, changed, signalled, dequeued and removed, no
-- operation fails and the four structures stay in step.
theorem registration_invariant (ops : List Op) (hg : Guarded step Promised eventInit ops) :
    ∃ st, run step eventInit ops = .ok st ∧ InStep st := by
  obtain ⟨st, queue, hr, h⟩ := registered_run hg
  exact ⟨st, hr, h.inStep⟩

-- The operations that a caller need promise nothing for.
def Op.free : Op → Prop
  | .adbClose _ | .install .. => False
  | _ => True

theorem promised_of_free {st : EventState} {op : Op} (h : op.free) : Promised st op := by
  cases op <;> trivial

-- A socket is read, signalled and removed while it is pending.
theorem registered_while_pending :
    ∃ st, run step eventInit [.fhAlloc (.socket (some 1)), .install 0 100, .add 0 FDE_READ,
      .signal 0, .remove 0] = .ok st ∧ InStep st := by
  refine registration_invariant _ ⟨trivial, fun next hnext => ?_⟩
  obtain rfl := Except.ok.inj hnext
  have hidle : ∀ k, ¬(fhAlloc eventInit (.socket (some 1))).active k := by
    simp [EventState.active, Event.active, fdes_fhAlloc, eventInit]
  refine ⟨⟨hidle 0, by decide, fun k hk => absurd hk (hidle k)⟩, fun next _ => ?_⟩
  exact Guarded.mono (fun _ _ => promised_of_free) (guarded_of_all (by simp [Op.free]))

end Adb.Event
