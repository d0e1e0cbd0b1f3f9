import Mathlib.Data.List.Basic

namespace Adb.Lib

namespace Fifo

variable {α : Type}

inductive Call (α : Type) where
  | put (items : List α)
  | get (count : Nat)

inductive Answer (α : Type) where
  | accepted (count : Nat)
  | got (items : List α)
deriving DecidableEq

-- The one reason for a call to have no answer yet.
inductive Wait where
  | wouldBlock

-- A queue of bounded capacity. It takes the longest prefix it has room for and
-- hands out at most count items from the front. A put on the full queue and a
-- get on the empty one have to wait.
def serve (capacity : Nat) (queue : List α) : Call α → Except Wait (Answer α × List α)
  | .put items =>
      if items = [] then .ok (.accepted 0, queue)
      else if queue.length < capacity then
        let taken := items.take (capacity - queue.length)
        .ok (.accepted taken.length, queue ++ taken)
      else .error .wouldBlock
  | .get count =>
      if count = 0 then .ok (.got [], queue)
      else if queue = [] then .error .wouldBlock
      else .ok (.got (queue.take count), queue.drop count)

section Units

variable {capacity size : Nat} {units : List (List α)}

theorem length_units (h : ∀ unit ∈ units, unit.length = size) :
    units.flatten.length = size * units.length := by
  induction units with
  | nil => simp
  | cons unit rest ih =>
      have hrest := ih fun other hm => h other (List.mem_cons_of_mem _ hm)
      have hunit := h unit (List.mem_cons_self ..)
      simp only [List.flatten_cons, List.length_append, List.length_cons, hrest, hunit,
        Nat.mul_succ, Nat.add_comm]

-- A queue of whole units that is not full has room for one more, if the units
-- divide its capacity.
theorem room_for_unit (h : ∀ unit ∈ units, unit.length = size) (hd : size ∣ capacity)
    (hroom : units.flatten.length < capacity) : size ≤ capacity - units.flatten.length := by
  obtain ⟨count, rfl⟩ := hd
  rw [length_units h] at hroom ⊢
  rw [← Nat.mul_sub]
  have hlt : units.length < count := Nat.lt_of_mul_lt_mul_left hroom
  exact Nat.le_mul_of_pos_right _ (by omega)

end Units

end Fifo

end Adb.Lib
