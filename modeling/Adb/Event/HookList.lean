import Adb.Event.Fdevents

namespace Adb.Event

open Adb.Lib Adb.Host

section Words

variable {state wanted events : BitVec 16}

def active (fde : Fdevent) : Bool := fde.state[8]

def pending (fde : Fdevent) : Bool := fde.state[9]

-- The events and features that an fdevent asks for.
def interest (fde : Fdevent) : BitVec 16 := fde.state &&& FDE_EVENTMASK

theorem bit_ne_zero_iff (i : Nat) (hi : i < 16) :
    state &&& BitVec.twoPow 16 i ≠ 0 ↔ state[i] = true := by
  rw [BitVec.and_twoPow]
  split
  · rename_i h
    rw [BitVec.getLsbD_eq_getElem hi] at h
    simp only [h, iff_true]
    intro h0
    have hbit := congrArg (·[i]) h0
    simp at hbit
  · rename_i h
    rw [BitVec.getLsbD_eq_getElem hi] at h
    simp [h]

theorem active_iff (fde : Fdevent) : fde.state &&& FDE_ACTIVE ≠ 0 ↔ active fde = true :=
  bit_ne_zero_iff 8 (by decide)

theorem pending_iff (fde : Fdevent) : fde.state &&& FDE_PENDING ≠ 0 ↔ pending fde = true :=
  bit_ne_zero_iff 9 (by decide)

theorem mask_and (x y : BitVec 16) (mask : BitVec 16) : (x &&& mask) &&& y = (x &&& y) &&& mask := by
  rw [BitVec.and_assoc, BitVec.and_comm mask y, BitVec.and_assoc]

-- The event part of a state word is replaced and the rest stays.
theorem interest_set (state events : BitVec 16) :
    ((state &&& FDE_STATEMASK) ||| (events &&& FDE_EVENTMASK)) &&& FDE_EVENTMASK =
      events &&& FDE_EVENTMASK := by
  have hdisjoint : FDE_STATEMASK &&& FDE_EVENTMASK = 0 := by decide
  rw [BitVec.and_or_distrib_right, BitVec.and_assoc, hdisjoint, BitVec.and_assoc,
    BitVec.and_self]
  simp

theorem interest_or_pending (state : BitVec 16) :
    (state ||| FDE_PENDING) &&& FDE_EVENTMASK = state &&& FDE_EVENTMASK := by
  have hdisjoint : FDE_PENDING &&& FDE_EVENTMASK = 0 := by decide
  rw [BitVec.and_or_distrib_right, hdisjoint]
  simp

theorem interest_not_pending (state : BitVec 16) :
    (state &&& ~~~FDE_PENDING) &&& FDE_EVENTMASK = state &&& FDE_EVENTMASK := by
  have hinside : ~~~FDE_PENDING &&& FDE_EVENTMASK = FDE_EVENTMASK := by decide
  rw [BitVec.and_assoc, hinside]

theorem interest_self (fde : Fdevent) : interest fde &&& FDE_EVENTMASK = interest fde := by
  rw [interest, BitVec.and_assoc, BitVec.and_self]

-- What is removed and what is added turns the old set into the new one.
theorem update_events (old new : BitVec 16) :
    (old &&& ~~~(old &&& ~~~new)) ||| (new &&& ~~~old) = new := by
  apply BitVec.eq_of_getElem_eq
  intro i hi
  simp only [BitVec.getElem_or, BitVec.getElem_and, BitVec.getElem_not]
  cases old[i] <;> cases new[i] <;> rfl

theorem or_of_and_eq (h : wanted &&& events = events) : wanted ||| events = wanted := by
  rw [← h]
  apply BitVec.eq_of_getElem_eq
  intro i hi
  simp only [BitVec.getElem_or, BitVec.getElem_and]
  cases wanted[i] <;> rfl

theorem or_ne_zero (h : events ≠ 0) : wanted ||| events ≠ 0 := by
  intro hz
  apply h
  apply BitVec.eq_of_getElem_eq
  intro i hi
  have hbit := congrArg (·[i]) hz
  simp only [BitVec.getElem_or] at hbit
  cases he : events[i] <;> simp_all

theorem and_not_and (wanted events : BitVec 16) :
    wanted &&& ~~~(events &&& wanted) = wanted &&& ~~~events := by
  apply BitVec.eq_of_getElem_eq
  intro i hi
  simp only [BitVec.getElem_and, BitVec.getElem_not]
  cases wanted[i] <;> simp

theorem and_not_of_disjoint (h : events &&& wanted = 0) : wanted &&& ~~~events = wanted := by
  rw [← and_not_and, h]
  exact BitVec.and_allOnes

end Words

-- What the looper waits for on the handle in slot f.
def wantedOf (hooks : List EventHook) (f : Nat) : BitVec 16 :=
  match hooks.find? (·.fh = f) with
  | some hook => hook.wanted
  | none => 0

-- The hooks are a table from live handles to what is wanted of them, and wanting
-- nothing is having no hook.
structure Hooked (fhs : Nat → FHRec) (hooks : List EventHook) (want : Nat → BitVec 16) : Prop where
  nodup : (hooks.map (·.fh)).Nodup
  nonzero : ∀ hook ∈ hooks, hook.wanted ≠ 0
  live : ∀ hook ∈ hooks, fhs hook.fh = ⟨some hook.clazz, true⟩
  wanted : ∀ f, wantedOf hooks f = want f

section HookList

variable {fhs : Nat → FHRec} {hooks : List EventHook} {want : Nat → BitVec 16} {f g : Nat}
  {clazz : FHClass} {events : BitVec 16} {entry node : EventHook}

theorem wantedOf_cons : wantedOf (node :: hooks) f =
    if node.fh = f then node.wanted else wantedOf hooks f := by
  by_cases h : node.fh = f <;> simp [wantedOf, h]

theorem wantedOf_eq_zero (h : f ∉ hooks.map (·.fh)) : wantedOf hooks f = 0 := by
  have hnone : hooks.find? (·.fh = f) = none := by
    refine List.find?_eq_none.mpr fun hook hm hf => h ?_
    exact List.mem_map.mpr ⟨hook, hm, by simpa using hf⟩
  simp [wantedOf, hnone]

theorem wantedOf_mem (hnd : (hooks.map (·.fh)).Nodup) (h : entry ∈ hooks) :
    wantedOf hooks entry.fh = entry.wanted := by
  induction hooks with
  | nil => cases h
  | cons node rest ih =>
      have hnd' := List.nodup_cons.mp hnd
      rw [wantedOf_cons]
      rcases List.mem_cons.mp h with rfl | hm
      · rw [if_pos rfl]
      · have hne : node.fh ≠ entry.fh := by
          intro he
          exact hnd'.1 (List.mem_map.mpr ⟨entry, hm, he.symm⟩)
        rw [if_neg hne]
        exact ih hnd'.2 hm

-- A handle that something is wanted of has its hook.
theorem exists_of_wantedOf (h : wantedOf hooks f ≠ 0) :
    ∃ hook ∈ hooks, hook.fh = f ∧ hook.wanted = wantedOf hooks f := by
  unfold wantedOf at h ⊢
  cases hf : hooks.find? (·.fh = f) with
  | none =>
      rw [hf] at h
      exact absurd rfl h
  | some hook =>
      exact ⟨hook, List.mem_of_find?_eq_some hf,
        by simpa using List.find?_some hf, rfl⟩

@[simp] theorem fhHook_fh (hook : EventHook) : (fhHook hook).fh = hook.fh := by
  unfold fhHook
  split <;> rfl

@[simp] theorem fhHook_clazz (hook : EventHook) : (fhHook hook).clazz = hook.clazz := by
  unfold fhHook
  split <;> simp_all

@[simp] theorem fhHook_wanted (hook : EventHook) : (fhHook hook).wanted = hook.wanted := by
  unfold fhHook
  split <;> rfl

@[simp] theorem hookNode_fh : (hookNode events node).fh = node.fh := by
  unfold hookNode
  split <;> simp

@[simp] theorem hookNode_clazz : (hookNode events node).clazz = node.clazz := by
  unfold hookNode
  split <;> simp

theorem hookNode_wanted : (hookNode events node).wanted = node.wanted ||| events := by
  unfold hookNode
  split
  · simp
  · rename_i h
    exact (or_of_and_eq (by simpa using h)).symm

theorem wantedOf_hook (clazz : FHClass) (events : BitVec 16) :
    wantedOf (eventLooperHook f clazz events hooks) g =
      if g = f then wantedOf hooks f ||| events else wantedOf hooks g := by
  induction hooks with
  | nil =>
      rw [eventLooperHook, wantedOf_cons, hookNode_fh, hookNode_wanted]
      by_cases h : g = f
      · subst h
        simp [wantedOf, eventHookAlloc]
      · simp [wantedOf, eventHookAlloc, h, Ne.symm h]
  | cons node rest ih =>
      rw [eventLooperHook]
      by_cases hn : node.fh = f
      · rw [if_pos hn, wantedOf_cons, hookNode_fh, hookNode_wanted, wantedOf_cons, if_pos hn,
          wantedOf_cons, hn]
        by_cases h : g = f
        · subst h
          simp
        · simp [h, Ne.symm h]
      · rw [if_neg hn, wantedOf_cons, ih, wantedOf_cons, if_neg hn, wantedOf_cons]
        by_cases h : g = f
        · simp [h, hn]
        · simp [h]

theorem fh_hook (clazz : FHClass) (events : BitVec 16) :
    (eventLooperHook f clazz events hooks).map (·.fh) =
      if f ∈ hooks.map (·.fh) then hooks.map (·.fh) else hooks.map (·.fh) ++ [f] := by
  induction hooks with
  | nil => simp [eventLooperHook, eventHookAlloc]
  | cons node rest ih =>
      rw [eventLooperHook]
      by_cases hn : node.fh = f
      · simp [hn]
      · simp only [if_neg hn, List.map_cons, ih, List.mem_cons, Ne.symm hn, false_or]
        split <;> rfl

theorem mem_hook (h : entry ∈ eventLooperHook f clazz events hooks) :
    (∃ old ∈ hooks, entry.fh = old.fh ∧ entry.clazz = old.clazz ∧
        (entry.wanted = old.wanted ∨ entry.wanted = old.wanted ||| events)) ∨
      (entry.fh = f ∧ entry.clazz = clazz ∧ entry.wanted = events) := by
  induction hooks with
  | nil =>
      rw [eventLooperHook, List.mem_singleton] at h
      subst h
      exact .inr ⟨by simp [eventHookAlloc], by simp [eventHookAlloc],
        by simp [hookNode_wanted, eventHookAlloc]⟩
  | cons node rest ih =>
      rw [eventLooperHook] at h
      split at h
      · rcases List.mem_cons.mp h with rfl | hm
        · exact .inl ⟨node, List.mem_cons_self .., by simp, by simp, .inr hookNode_wanted⟩
        · exact .inl ⟨entry, List.mem_cons_of_mem _ hm, rfl, rfl, .inl rfl⟩
      · rcases List.mem_cons.mp h with rfl | hm
        · exact .inl ⟨entry, List.mem_cons_self .., rfl, rfl, .inl rfl⟩
        · rcases ih hm with ⟨old, ho, hsame⟩ | hnew
          · exact .inl ⟨old, List.mem_cons_of_mem _ ho, hsame⟩
          · exact .inr hnew

theorem Hooked.hook (h : Hooked fhs hooks want) (hf : fhs f = ⟨some clazz, true⟩)
    (he : events ≠ 0) :
    Hooked fhs (eventLooperHook f clazz events hooks)
      (Function.update want f (want f ||| events)) where
  nodup := by
    rw [fh_hook]
    split
    · exact h.nodup
    · rename_i hm
      exact List.nodup_append.mpr ⟨h.nodup, List.nodup_singleton f, by
        intro x hx y hy hxy
        rw [List.mem_singleton.mp hy] at hxy
        exact hm (hxy ▸ hx)⟩
  nonzero := by
    intro hook hm
    rcases mem_hook hm with ⟨old, ho, -, -, hw | hw⟩ | ⟨-, -, hw⟩
    · rw [hw]
      exact h.nonzero old ho
    · rw [hw]
      exact or_ne_zero he
    · rw [hw]
      exact he
  live := by
    intro hook hm
    rcases mem_hook hm with ⟨old, ho, hfh, hclazz, -⟩ | ⟨hfh, hclazz, -⟩
    · rw [hfh, hclazz]
      exact h.live old ho
    · rw [hfh, hclazz]
      exact hf
  wanted := by
    intro g
    rw [wantedOf_hook, h.wanted, h.wanted]
    by_cases hg : g = f
    · subst hg
      simp
    · simp [hg]

theorem mem_unhook (h : entry ∈ eventLooperUnhook f events hooks) :
    ∃ old ∈ hooks, entry.fh = old.fh ∧ entry.clazz = old.clazz ∧
      (entry.wanted = old.wanted ∨ entry.wanted ≠ 0) := by
  induction hooks with
  | nil => cases h
  | cons node rest ih =>
      rw [eventLooperUnhook] at h
      simp only at h
      split at h
      · split at h
        · exact ⟨entry, h, rfl, rfl, .inl rfl⟩
        · split at h
          · exact ⟨entry, List.mem_cons_of_mem _ h, rfl, rfl, .inl rfl⟩
          · rename_i hw
            rcases List.mem_cons.mp h with rfl | hm
            · exact ⟨node, List.mem_cons_self .., rfl, rfl, .inr hw⟩
            · exact ⟨entry, List.mem_cons_of_mem _ hm, rfl, rfl, .inl rfl⟩
      · rcases List.mem_cons.mp h with rfl | hm
        · exact ⟨entry, List.mem_cons_self .., rfl, rfl, .inl rfl⟩
        · obtain ⟨old, ho, hsame⟩ := ih hm
          exact ⟨old, List.mem_cons_of_mem _ ho, hsame⟩

theorem fh_unhook (events : BitVec 16) :
    ((eventLooperUnhook f events hooks).map (·.fh)).Sublist (hooks.map (·.fh)) := by
  induction hooks with
  | nil => exact List.Sublist.refl _
  | cons node rest ih =>
      rw [eventLooperUnhook]
      simp only
      split
      · split
        · exact List.Sublist.refl _
        · split
          · exact List.sublist_cons_self _ _
          · exact List.Sublist.refl _
      · exact ih.cons_cons _

theorem wantedOf_unhook (hnd : (hooks.map (·.fh)).Nodup) (events : BitVec 16) :
    wantedOf (eventLooperUnhook f events hooks) g =
      if g = f then wantedOf hooks f &&& ~~~events else wantedOf hooks g := by
  induction hooks with
  | nil => simp [eventLooperUnhook, wantedOf]
  | cons node rest ih =>
      have hnd' := List.nodup_cons.mp hnd
      rw [eventLooperUnhook]
      by_cases hn : node.fh = f
      · have hrest : wantedOf rest f = 0 := wantedOf_eq_zero (hn ▸ hnd'.1)
        simp only [hn, if_true, wantedOf_cons]
        by_cases h2 : events &&& node.wanted = 0
        · rw [if_pos h2, and_not_of_disjoint h2, wantedOf_cons, hn]
          by_cases h : g = f
          · subst h
            simp
          · simp [h, Ne.symm h]
        · rw [if_neg h2, and_not_and]
          by_cases hz : node.wanted &&& ~~~events = 0
          · rw [if_pos hz]
            by_cases h : g = f
            · rw [h, hrest, if_pos rfl, hz]
            · simp [h, Ne.symm h]
          · rw [if_neg hz, wantedOf_cons]
            by_cases h : g = f
            · subst h
              simp
            · simp [h, Ne.symm h]
      · rw [if_neg hn, wantedOf_cons, ih hnd'.2, wantedOf_cons, wantedOf_cons, if_neg hn]
        by_cases h : g = f
        · simp [h, hn]
        · simp [h]

theorem Hooked.unhook (h : Hooked fhs hooks want) (f : Nat) (events : BitVec 16) :
    Hooked fhs (eventLooperUnhook f events hooks)
      (Function.update want f (want f &&& ~~~events)) where
  nodup := h.nodup.sublist (fh_unhook events)
  nonzero := by
    intro hook hm
    obtain ⟨old, ho, -, -, hw | hw⟩ := mem_unhook hm
    · rw [hw]
      exact h.nonzero old ho
    · exact hw
  live := by
    intro hook hm
    obtain ⟨old, ho, hfh, hclazz, -⟩ := mem_unhook hm
    rw [hfh, hclazz]
    exact h.live old ho
  wanted := by
    intro g
    rw [wantedOf_unhook h.nodup, h.wanted, h.wanted]
    by_cases hg : g = f
    · subst hg
      simp
    · simp [hg]

theorem Hooked.congr (h : Hooked fhs hooks want) {want' : Nat → BitVec 16}
    (hw : ∀ f, want' f = want f) : Hooked fhs hooks want' where
  nodup := h.nodup
  nonzero := h.nonzero
  live := h.live
  wanted := fun f => (h.wanted f).trans (hw f).symm

-- A handle without a hook can be opened or closed.
theorem Hooked.setFh (h : Hooked fhs hooks want) (hf : want f = 0) (record : FHRec) :
    Hooked (Function.update fhs f record) hooks want where
  nodup := h.nodup
  nonzero := h.nonzero
  live := by
    intro hook hm
    have hne : hook.fh ≠ f := by
      intro he
      have hw := wantedOf_mem h.nodup hm
      rw [h.wanted, he, hf] at hw
      exact h.nonzero hook hm hw.symm
    rw [Function.update_of_ne hne]
    exact h.live hook hm
  wanted := h.wanted

end HookList

end Adb.Event
