import Adb.Lib.CString

namespace Adb.Lib

section Store

variable {α : Type} {array pre rest : List (Option α)} {elements : List α} {i : Nat}

-- Elements that are stored one behind the other, from an index of an array on.
def store (array : List (Option α)) (i : Nat) (elements : List α) : Except MemoryFault (List (Option α)) :=
  if i + elements.length ≤ array.length then
    .ok (array.take i ++ elements.map some ++ array.drop (i + elements.length))
  else
    .error .overrun

theorem store_overrun (h : array.length < i + elements.length) : store array i elements = .error .overrun :=
  if_neg (by omega)

-- Behind what stands before the index, the elements take the place of as many.
theorem store_append (hi : pre.length = i) (h : elements.length ≤ rest.length) :
    store (pre ++ rest) i elements = .ok (pre ++ (elements.map some ++ rest.drop elements.length)) := by
  subst hi
  unfold store
  rw [if_pos (by rw [List.length_append]; omega), List.take_left, List.append_assoc, List.drop_append]
  simp

-- Where all that stands before the index has been written, so is all of it then.
theorem store_written (written elements : List α) (h : elements.length ≤ rest.length) :
    store (written.map some ++ rest) written.length elements =
      .ok ((written ++ elements).map some ++ rest.drop elements.length) := by
  rw [store_append (List.length_map some) h, List.map_append, List.append_assoc]

-- A last element is replaced.
theorem store_last (written : List α) (x : α) (h : written.length = i + 1) :
    store (written.map some) i [x] = .ok ((written.take i ++ [x]).map some) := by
  have hpre : ((written.take i).map some).length = i := by
    rw [List.length_map, List.length_take]
    omega
  have hone : (written.drop i).length = 1 := by
    rw [List.length_drop]
    omega
  have hsplit : written.map some = (written.take i).map some ++ (written.drop i).map some := by
    rw [← List.map_append, List.take_append_drop]
  have hlast : ((written.drop i).map some).length = 1 := by rw [List.length_map, hone]
  have hstore : store ((written.take i).map some ++ (written.drop i).map some) i [x] =
      .ok ((written.take i).map some ++ ([x].map some ++ ((written.drop i).map some).drop 1)) :=
    store_append hpre (Nat.le_of_eq hlast.symm)
  rw [hsplit, hstore, List.drop_of_length_le (Nat.le_of_eq hlast), List.append_nil, ← List.map_append]

-- Of two stores to one place the second counts.
theorem store_again {elements' : List α} (h : elements.length = elements'.length) :
    (store array i elements >>= fun array => store array i elements') = store array i elements' := by
  by_cases hfits : i + elements.length ≤ array.length
  · have hpre : (array.take i).length = i := by
      rw [List.length_take]
      omega
    have hsplit := List.take_append_drop i array
    have hroom : elements.length ≤ (array.drop i).length := by
      rw [List.length_drop]
      omega
    rw [← hsplit, store_append hpre hroom, store_append hpre (h ▸ hroom)]
    simp only [bind, Except.bind]
    rw [store_append hpre (by simp [h]), ← h, ← List.length_map (f := some), List.drop_left]
  · rw [store_overrun (by omega), store_overrun (by omega)]
    rfl

end Store

section Load

variable {rest : List Cell}

-- The first n bytes of a buffer.
def load : List Cell → Nat → Except MemoryFault (List UInt8)
  | _, 0 => .ok []
  | [], _ + 1 => .error .overread
  | none :: _, _ + 1 => .error .uninitialised
  | some c :: rest, n + 1 => (load rest n).map (c :: ·)

theorem load_written (bytes : List UInt8) (rest : List Cell) :
    load (bytes.map some ++ rest) bytes.length = .ok bytes := by
  induction bytes with
  | nil => simp [load]
  | cons c bytes ih => simp [load, ih, Except.map]

end Load

section Compare

variable {s t : List UInt8} {n : Nat}

-- memcmp, which looks at nothing behind the first byte that differs. Only the sign
-- of what it returns counts.
def memcmp : List UInt8 → List UInt8 → Nat → Except MemoryFault Int
  | _, _, 0 => .ok 0
  | a :: s, b :: t, n + 1 => if a = b then memcmp s t n else .ok (if a < b then -1 else 1)
  | _, _, _ + 1 => .error .overread
termination_by structural _ _ n => n

theorem memcmp_cons (a b : UInt8) : memcmp (a :: s) (b :: t) (n + 1) =
    if a = b then memcmp s t n else .ok (if a < b then -1 else 1) := rfl

-- Bytes that are the beginning of the others are equal to them, if there are n.
theorem memcmp_begins (h : t.take n <+: s) :
    memcmp s t n = if n ≤ t.length then .ok 0 else .error .overread := by
  induction n generalizing s t with
  | zero => rw [if_pos (Nat.zero_le _)]; rfl
  | succ n ih =>
      cases t with
      | nil =>
          rw [if_neg (by simp)]
          cases s <;> rfl
      | cons b t =>
          obtain ⟨rest, rfl⟩ := h
          rw [List.take_succ_cons, List.cons_append, memcmp_cons, if_pos rfl, ih (List.prefix_append _ _)]
          simp

theorem memcmp_behind (h : s <+: t.take n) (hne : t.take n ≠ s) : memcmp s t n = .error .overread := by
  induction n generalizing s t with
  | zero =>
      rw [List.take_zero, List.prefix_nil] at h
      exact absurd h.symm hne
  | succ n ih =>
      cases t with
      | nil =>
          rw [List.take_nil, List.prefix_nil] at h
          exact absurd h.symm hne
      | cons b t =>
          cases s with
          | nil => rfl
          | cons a s =>
              rw [List.take_succ_cons, List.cons_prefix_cons] at h
              obtain ⟨rfl, h⟩ := h
              rw [memcmp_cons, if_pos rfl]
              exact ih h fun heq => hne (by rw [List.take_succ_cons, heq])

theorem memcmp_differs (hs : ¬ t.take n <+: s) (ht : ¬ s <+: t.take n) :
    ∃ d, d ≠ 0 ∧ memcmp s t n = .ok d := by
  induction n generalizing s t with
  | zero => exact absurd (List.nil_prefix) hs
  | succ n ih =>
      cases t with
      | nil => exact absurd List.nil_prefix hs
      | cons b t =>
          cases s with
          | nil => exact absurd List.nil_prefix ht
          | cons a s =>
              rw [List.take_succ_cons, List.cons_prefix_cons] at hs ht
              rw [memcmp_cons]
              by_cases heq : a = b
              · rw [if_pos heq]
                exact ih (fun h => hs ⟨heq.symm, h⟩) fun h => ht ⟨heq, h⟩
              · rw [if_neg heq]
                refine ⟨_, ?_, rfl⟩
                split <;> decide

end Compare

end Adb.Lib
