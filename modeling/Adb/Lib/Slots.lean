import Mathlib.Data.List.Basic
import Mathlib.Data.List.GetD
import Mathlib.Tactic.Common

namespace Adb.Lib

section Slots

variable {α : Type} {max n m : Nat} {slots after : List (Option α)} {a : α}

-- Who holds a slot of the table.
def holder (slots : List (Option α)) (n : Nat) : Option α := slots.getD n none

-- The slots are handed out one after the other as long as there are any, and from
-- then on the first that is free.
def allocSlot (max : Nat) (slots : List (Option α)) (a : α) : Option (Nat × List (Option α)) :=
  if slots.length < max then
    some (slots.length, slots ++ [some a])
  else
    (slots.findIdx? (·.isNone)).map fun n => (n, slots.set n (some a))

def freeSlot (slots : List (Option α)) (n : Nat) : List (Option α) := slots.set n none

-- How many slots of max can still be handed out.
def freeSlots (max : Nat) (slots : List (Option α)) : Nat := max - slots.countP (·.isSome)

theorem holder_lt (h : holder slots n = some a) : n < slots.length := by
  by_contra hge
  rw [holder, List.getD_eq_default slots none (by omega)] at h
  cases h

theorem holder_set (hn : n < slots.length) (o : Option α) (m : Nat) :
    holder (slots.set n o) m = if m = n then o else holder slots m := by
  by_cases hmn : m = n
  · subst hmn
    simp [holder, List.getD_eq_getElem?_getD, hn]
  · have hnm : n ≠ m := fun heq => hmn heq.symm
    simp [holder, List.getD_eq_getElem?_getD, List.getElem?_set_ne hnm, hmn]

-- A slot that is handed out has been free, and nobody else's changes.
theorem allocSlot_spec (h : allocSlot max slots a = some (n, after)) :
    holder slots n = none ∧ ∀ m, holder after m = if m = n then some a else holder slots m := by
  unfold allocSlot at h
  split at h
  · simp only [Option.some.injEq, Prod.mk.injEq] at h
    obtain ⟨rfl, rfl⟩ := h
    refine ⟨by simp [holder], fun m => ?_⟩
    by_cases hm : m = slots.length
    · subst hm
      simp [holder, List.getD_eq_getElem?_getD]
    · rw [if_neg hm, holder, holder, List.getD_eq_getElem?_getD, List.getD_eq_getElem?_getD]
      by_cases hlt : m < slots.length
      · rw [List.getElem?_append_left hlt]
      · have hlen : (slots ++ [some a]).length ≤ m := by
          rw [List.length_append, List.length_singleton]
          omega
        rw [List.getElem?_eq_none hlen, List.getElem?_eq_none (Nat.not_lt.mp hlt)]
  · rw [Option.map_eq_some_iff] at h
    obtain ⟨k, hk, heq⟩ := h
    simp only [Prod.mk.injEq] at heq
    obtain ⟨rfl, rfl⟩ := heq
    obtain ⟨hlt, hnone, -⟩ := List.findIdx?_eq_some_iff_getElem.mp hk
    refine ⟨?_, holder_set hlt (some a)⟩
    simpa [holder, List.getD_eq_getElem?_getD, hlt] using hnone

theorem freeSlot_spec (h : holder slots n = some a) (m : Nat) :
    holder (freeSlot slots n) m = if m = n then none else holder slots m :=
  holder_set (holder_lt h) none m

section Bounded

theorem length_allocSlot (hmax : slots.length ≤ max) (h : allocSlot max slots a = some (n, after)) :
    after.length ≤ max := by
  unfold allocSlot at h
  split at h
  · simp only [Option.some.injEq, Prod.mk.injEq] at h
    obtain ⟨-, rfl⟩ := h
    rw [List.length_append, List.length_singleton]
    omega
  · rw [Option.map_eq_some_iff] at h
    obtain ⟨k, -, heq⟩ := h
    simp only [Prod.mk.injEq] at heq
    obtain ⟨-, rfl⟩ := heq
    rwa [List.length_set]

@[simp] theorem length_freeSlot (slots : List (Option α)) (n : Nat) :
    (freeSlot slots n).length = slots.length := List.length_set

-- There is a slot to hand out as long as some are free.
theorem allocSlot_isSome_iff (hmax : slots.length ≤ max) :
    (allocSlot max slots a).isSome ↔ 0 < freeSlots max slots := by
  unfold allocSlot freeSlots
  have hcount := List.countP_le_length (p := fun o : Option α => o.isSome) (l := slots)
  by_cases hlt : slots.length < max
  · rw [if_pos hlt]
    simp only [Option.isSome_some, true_iff]
    omega
  · rw [if_neg hlt, Option.isSome_map, List.findIdx?_isSome]
    have hlen : slots.length = max := by omega
    rw [← hlen]
    constructor
    · intro hany
      obtain ⟨o, ho, hnone⟩ := List.any_eq_true.mp hany
      have hne : slots.countP (·.isSome) ≠ slots.length := by
        intro heq
        have hall := List.countP_eq_length.mp heq o ho
        cases o with
        | none => cases hall
        | some a => cases hnone
      omega
    · intro hpos
      by_contra hany
      have hall : ∀ o ∈ slots, o.isSome = true := by
        intro o ho
        cases o with
        | some a => rfl
        | none => exact absurd (List.any_eq_true.mpr ⟨none, ho, rfl⟩) hany
      rw [List.countP_eq_length.mpr hall] at hpos
      omega

theorem freeSlots_alloc (hmax : slots.length ≤ max) (h : allocSlot max slots a = some (n, after)) :
    freeSlots max after + 1 = freeSlots max slots := by
  have hfree : 0 < freeSlots max slots := (allocSlot_isSome_iff hmax).mp (by rw [h]; rfl)
  unfold allocSlot at h
  unfold freeSlots at hfree ⊢
  split at h
  · simp only [Option.some.injEq, Prod.mk.injEq] at h
    obtain ⟨-, rfl⟩ := h
    rw [List.countP_append, List.countP_singleton]
    simp only [Option.isSome_some, if_true]
    omega
  · rw [Option.map_eq_some_iff] at h
    obtain ⟨k, hk, heq⟩ := h
    simp only [Prod.mk.injEq] at heq
    obtain ⟨-, rfl⟩ := heq
    obtain ⟨hlt, hnone, -⟩ := List.findIdx?_eq_some_iff_getElem.mp hk
    have hget : slots[k].isSome = false := by simpa using hnone
    rw [List.countP_set hlt, hget]
    simp only [Option.isSome_some, if_true, Bool.false_eq_true, if_false]
    omega

end Bounded

end Slots

end Adb.Lib
