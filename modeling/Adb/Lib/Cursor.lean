import Mathlib.Data.List.Basic

namespace Adb.Lib

section Cursor

variable {α β ε : Type}

-- Where a cursor is after j steps that goes through a list, leaves it behind the last
-- element, and then begins again. none: it is on no element.
def cursorAt (xs : List α) (j : Nat) : Option α := xs[(j + xs.length) % (xs.length + 1)]?

-- A step from what has been gone through leads to the first of what is left.
def Follows (next : Option α → Except ε (Option α)) (xs : List α) : Prop :=
  ∀ before after, xs = before ++ after → next before.getLast? = .ok after.head?

variable {next : Option α → Except ε (Option α)} {xs : List α} {i j : Nat}

@[simp] theorem cursorAt_zero : cursorAt xs 0 = none := by
  rw [cursorAt, Nat.zero_add, Nat.mod_eq_of_lt (Nat.lt_succ_self _), List.getElem?_eq_none (Nat.le_refl _)]

theorem cursorAt_succ (xs : List α) (j : Nat) : cursorAt xs (j + 1) = xs[j % (xs.length + 1)]? := by
  have hturn : j + 1 + xs.length = j + (xs.length + 1) := by omega
  rw [cursorAt, hturn, Nat.add_mod_right]

-- The first time around.
theorem cursorAt_first (h : i ≤ xs.length) : cursorAt xs (i + 1) = xs[i]? := by
  rw [cursorAt_succ, Nat.mod_eq_of_lt (by omega)]

theorem cursorAt_map (f : α → β) (xs : List α) (j : Nat) : cursorAt (xs.map f) j = (cursorAt xs j).map f := by
  simp only [cursorAt, List.length_map, List.getElem?_map]

-- What has been gone through ends with the element that the cursor is on.
theorem cursorAt_take (xs : List α) (h : i ≤ xs.length) (k : Nat) :
    cursorAt xs (i + k * (xs.length + 1)) = (xs.take i).getLast? := by
  have hturns : i + k * (xs.length + 1) + xs.length = i + xs.length + k * (xs.length + 1) := by omega
  rw [cursorAt, hturns, Nat.add_mul_mod_self_right]
  cases i with
  | zero => simp
  | succ i =>
      have hturn : i + 1 + xs.length = i + (xs.length + 1) := by omega
      rw [hturn, Nat.add_mod_right, Nat.mod_eq_of_lt (by omega), List.getLast?_eq_getElem?, List.length_take,
        Nat.min_eq_left h, List.getElem?_take_of_lt (by omega)]
      rfl

theorem Follows.step (h : Follows next xs) (j : Nat) : next (cursorAt xs j) = .ok (cursorAt xs (j + 1)) := by
  have hj : j = j % (xs.length + 1) + j / (xs.length + 1) * (xs.length + 1) := (Nat.mod_add_div' ..).symm
  have hle : j % (xs.length + 1) ≤ xs.length := Nat.le_of_lt_succ (Nat.mod_lt _ (Nat.succ_pos _))
  have hhere := cursorAt_take xs hle (j / (xs.length + 1))
  rw [← hj] at hhere
  rw [hhere, h _ _ (List.take_append_drop _ xs).symm, List.head?_drop, cursorAt_succ]

-- In more steps than there are elements the cursor leaves the list.
theorem stretch_le {k : Nat} (h : ∀ i, i < k → cursorAt xs (j + i + 1) ≠ none) : k ≤ xs.length := by
  by_contra hlong
  have hle : j % (xs.length + 1) ≤ xs.length := Nat.le_of_lt_succ (Nat.mod_lt _ (Nat.succ_pos _))
  have hj : j % (xs.length + 1) + j / (xs.length + 1) * (xs.length + 1) = j := Nat.mod_add_div' ..
  refine h (xs.length - j % (xs.length + 1)) (by omega) ?_
  have hend : j + (xs.length - j % (xs.length + 1)) = xs.length + j / (xs.length + 1) * (xs.length + 1) := by omega
  rw [cursorAt_succ, hend, Nat.add_mul_mod_self_right, Nat.mod_eq_of_lt (Nat.lt_succ_self _)]
  exact List.getElem?_eq_none (Nat.le_refl _)

-- A walk that looks its place up again has found the element itself.
theorem dropWhile_here [DecidableEq α] {here head : α} {rest : List α}
    (h : xs.dropWhile (· ≠ here) = head :: rest) : head = here ∧ here ∈ xs := by
  have hhead := List.head?_dropWhile_not (· ≠ here) xs
  rw [h] at hhead
  have heq : head = here := by simpa using hhead
  have hmem : head ∈ xs.dropWhile (· ≠ here) := by rw [h]; exact List.mem_cons_self
  exact ⟨heq, heq ▸ (List.dropWhile_sublist _).mem hmem⟩

end Cursor

end Adb.Lib
