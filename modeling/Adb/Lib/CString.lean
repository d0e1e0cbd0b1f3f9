import Mathlib.Data.List.TakeWhile

namespace Adb.Lib

-- A byte of memory; none has not been written yet.
abbrev Cell := Option UInt8

inductive MemoryFault where
  | overread
  | overrun
  | uninitialised
  | underrun
deriving DecidableEq

-- A string of C holds no NUL.
def IsText (s : List UInt8) : Prop := (0 : UInt8) ∉ s

instance : DecidablePred IsText := fun s => inferInstanceAs (Decidable ((0 : UInt8) ∉ s))

-- What is read from the start of a buffer on, up to the first NUL.
def readText : List Cell → Except MemoryFault (List UInt8)
  | [] => .error .overread
  | none :: _ => .error .uninitialised
  | some c :: rest => if c = 0 then .ok [] else (readText rest).map (c :: ·)

def overwrite (buffer : List Cell) (bytes : List UInt8) : List Cell :=
  bytes.map some ++ buffer.drop bytes.length

-- _snprintf, once the text is put together: it writes at most n bytes, and a NUL
-- only where there is room for one. A text that is cut off gives -1.
def snprintf (buffer : List Cell) (n : Nat) (text : List UInt8) : List Cell × Int :=
  if text.length < n then (overwrite buffer (text ++ [0]), text.length)
  else if text.length = n then (overwrite buffer text, n)
  else (overwrite buffer (text.take n), -1)

-- strncpy fills up with NULs, and writes none if the text is n bytes or more.
def strncpy (buffer : List Cell) (n : Nat) (text : List UInt8) : List Cell :=
  overwrite buffer (text.take n ++ List.replicate (n - text.length) 0)

-- A part of an array, and an array with a part of it written.
def readBytes (data : List UInt8) (i n : Nat) : Except MemoryFault (List UInt8) :=
  if i + n ≤ data.length then .ok ((data.drop i).take n) else .error .overread

def writeBytes (data : List UInt8) (i : Nat) (bytes : List UInt8) : Except MemoryFault (List UInt8) :=
  if i + bytes.length ≤ data.length then
    .ok (data.take i ++ bytes ++ data.drop (i + bytes.length))
  else
    .error .overrun

def fresh (n : Nat) : List Cell := List.replicate n none

def zeroed (n : Nat) : List Cell := List.replicate n (some 0)

section Texts

variable {s text : List UInt8} {buffer rest : List Cell} {n : Nat}

@[simp] theorem isText_nil : IsText [] := by simp [IsText]

theorem isText_cons {c : UInt8} : IsText (c :: s) ↔ c ≠ 0 ∧ IsText s := by
  simp [IsText, eq_comm]

theorem isText_append {t : List UInt8} : IsText (s ++ t) ↔ IsText s ∧ IsText t := by
  simp [IsText]

theorem IsText.take (h : IsText s) (n : Nat) : IsText (s.take n) :=
  fun hm => h (List.mem_of_mem_take hm)

theorem all_ne {d : UInt8} (h : d ∉ s) : ∀ c ∈ s, decide (c ≠ d) = true := by
  intro c hc
  have hne : c ≠ d := fun heq => h (heq ▸ hc)
  simpa using hne

theorem IsText.takeWhile_ne (h : IsText s) : s.takeWhile (· ≠ 0) = s :=
  List.takeWhile_eq_self_iff.mpr (all_ne h)

-- A byte that is not in what comes before it is where a search for it stops.
theorem takeWhile_until {d : UInt8} (h : d ∉ s) (t : List UInt8) : (s ++ d :: t).takeWhile (· ≠ d) = s := by
  rw [List.takeWhile_append_of_pos (all_ne h), List.takeWhile_cons_of_neg (by simp), List.append_nil]

theorem dropWhile_until {d : UInt8} (h : d ∉ s) (t : List UInt8) :
    (s ++ d :: t).dropWhile (· ≠ d) = d :: t := by
  rw [List.dropWhile_append_of_pos (all_ne h), List.dropWhile_cons_of_neg (by simp)]

-- A text is read up to its end, whatever comes then.
theorem readText_append (h : IsText s) :
    readText (s.map some ++ rest) = (readText rest).map (s ++ ·) := by
  induction s with
  | nil => cases hr : readText rest <;> simp [Except.map, hr]
  | cons c s ih =>
      obtain ⟨hc, hs⟩ := isText_cons.mp h
      simp only [List.map_cons, List.cons_append, readText, if_neg hc, ih hs]
      cases readText rest <;> rfl

theorem readText_terminated (h : IsText s) : readText ((s ++ [0]).map some ++ rest) = .ok s := by
  rw [List.map_append, List.append_assoc, readText_append h]
  simp [readText, Except.map]

-- Whatever stands before a NUL, the text ends there at the latest.
theorem readText_ended (xs : List UInt8) (rest : List Cell) :
    readText ((xs ++ [0]).map some ++ rest) = .ok (xs.takeWhile (· ≠ 0)) := by
  induction xs with
  | nil => rfl
  | cons c xs ih =>
      by_cases hc : c = 0
      · simp [readText, hc]
      · simp only [List.cons_append, List.map_cons, readText, if_neg hc, ih, Except.map]
        rw [List.takeWhile_cons_of_pos (by simp [hc])]

theorem readText_until (xs ys : List UInt8) :
    readText ((xs ++ 0 :: ys).map some) = .ok (xs.takeWhile (· ≠ 0)) := by
  have h := readText_ended xs (ys.map some)
  rwa [← List.map_append, List.append_assoc] at h

-- Nothing is left of the buffer where the text is as long as the buffer.
theorem overwrite_full (h : buffer.length ≤ s.length) : overwrite buffer s = s.map some := by
  rw [overwrite, List.drop_of_length_le h, List.append_nil]

theorem readText_full (h : IsText s) : readText (s.map some) = .error .overread := by
  have hread : readText (s.map some ++ []) = (readText []).map (s ++ ·) := readText_append h
  rw [List.append_nil] at hread
  rw [hread]
  rfl

-- A text that fits reads back.
theorem readText_snprintf_lt (h : IsText text) (hn : text.length < n) :
    readText (snprintf buffer n text).1 = .ok text := by
  rw [snprintf, if_pos hn]
  exact readText_terminated h

-- One that does not fill the buffer without an end.
theorem snprintf_ge (hn : n ≤ text.length) :
    (snprintf buffer n text).1 = overwrite buffer (text.take n) := by
  rw [snprintf, if_neg (by omega)]
  split
  · rename_i heq
    rw [List.take_of_length_le (by omega)]
  · rfl

theorem readText_snprintf_ge (h : IsText text) (hn : n ≤ text.length) (hb : buffer.length = n) :
    readText (snprintf buffer n text).1 = .error .overread := by
  rw [snprintf_ge hn, overwrite_full (by simp; omega)]
  exact readText_full (h.take n)

-- So a print into a whole buffer is good for what is shorter than the buffer.
theorem readText_snprintf (h : IsText text) (hb : buffer.length = n) :
    readText (snprintf buffer n text).1 =
      if text.length < n then .ok text else .error .overread := by
  split
  · rename_i hn
    exact readText_snprintf_lt h hn
  · rename_i hn
    exact readText_snprintf_ge h (by omega) hb

@[simp] theorem length_fresh : (fresh n).length = n := by simp [fresh]

@[simp] theorem length_zeroed : (zeroed n).length = n := by simp [zeroed]

end Texts

end Adb.Lib
