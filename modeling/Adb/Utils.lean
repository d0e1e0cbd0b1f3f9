import Mathlib.Algebra.Group.Nat.Defs
import Adb.Host.State
import Adb.Lib.Memory
import Adb.Lib.Run

namespace Adb.Utils

open Adb.Lib
open Adb.Host (Bytes ascii)

section Model

-- The array of a BUFF_DECL, and its cursor as an index.
structure Buffer where
  mem : List Cell
  cursor : Nat

-- What an int holds of a length or of the difference of two pointers.
def toInt32 (i : Int) : Int := i.bmod (2 ^ 32)

def strlen (s : Bytes) : Nat := (s.takeWhile (· ≠ 0)).length

def memcpy (mem : List Cell) (dst : Nat) (src : Bytes) (n : Nat) : Except MemoryFault (List Cell) :=
  if n ≤ src.length then store mem dst (src.take n) else .error .overread

def buffAddc (b : Buffer) (buffEnd : Nat) (c : Int32) : Except MemoryFault Buffer :=
  let avail := toInt32 (buffEnd - b.cursor)
  if avail ≤ 0 then .ok b
  else if avail = 1 then do
    let mem ← store b.mem b.cursor [0]
    return ⟨mem, b.cursor + 1⟩
  else do
    let mem ← store b.mem b.cursor [c.toUInt32.toUInt8]
    let mem ← store mem (b.cursor + 1) [0]
    return ⟨mem, b.cursor + 1⟩

def buffAddb (b : Buffer) (buffEnd : Nat) (data : Bytes) (len : Int) : Except MemoryFault Buffer :=
  let avail := toInt32 (buffEnd - b.cursor)
  if avail ≤ 0 ∨ len ≤ 0 then .ok b
  else do
    let len := (if avail < len then avail else len).toNat
    let mem ← memcpy b.mem b.cursor data len
    let cursor := b.cursor + len
    -- an overflow takes the last byte for the NUL
    let mem ← if buffEnd ≤ cursor then store mem (cursor - 1) [0] else store mem cursor [0]
    return ⟨mem, cursor⟩

-- s has a NUL behind it.
def buffAdds (b : Buffer) (buffEnd : Nat) (s : Bytes) : Except MemoryFault Buffer :=
  buffAddb b buffEnd (s ++ [0]) (toInt32 (strlen s))

-- A call of one of the three; buff_addb is given no more bytes than there are.
inductive BuffOp where
  | addc (c : Int32)
  | adds (s : Bytes)
  | addb (data : Bytes) (len : Int32) (h : len.toInt ≤ data.length)

def step (buffEnd : Nat) (b : Buffer) : BuffOp → Except MemoryFault Buffer
  | .addc c => buffAddc b buffEnd c
  | .adds s => buffAdds b buffEnd s
  | .addb data len _ => buffAddb b buffEnd data len.toInt

namespace BuffOp

-- The piece that a call is to add.
def piece : BuffOp → Bytes
  | addc c => [c.toUInt32.toUInt8]
  | adds s => s.takeWhile (· ≠ 0)
  | addb data len _ => data.take len.toInt.toNat

-- A call as one of buff_addb.
def data : BuffOp → Bytes
  | addc c => [c.toUInt32.toUInt8]
  | adds s => s ++ [0]
  | addb data _ _ => data

def len : BuffOp → Int
  | addc _ => 1
  | adds s => toInt32 (strlen s)
  | addb _ len _ => len.toInt

-- What is left of the piece once its length is an int.
def taken (op : BuffOp) : Bytes := op.data.take op.len.toNat

end BuffOp

-- A buffer that the pieces have been added to, with as much of them as there is room
-- for and a NUL.
structure Holds (size : Nat) (added : Bytes) (b : Buffer) : Prop where
  inside : b.mem.length = size
  content : b.mem.take (min added.length (size - 1)) = (added.take (size - 1)).map some
  terminated : b.mem[min added.length (size - 1)]? = some (some 0)
  overflow : size ≤ b.cursor ↔ size ≤ added.length

-- Whatever stood in the array before, no store leaves it.
def AddsRight (size : UInt32) (ops : List BuffOp) : Prop :=
  ∀ mem : List Cell, mem.length = size.toNat →
    ∃ b, run (step size.toNat) ⟨mem, 0⟩ ops = .ok b ∧ Holds size.toNat (ops.flatMap BuffOp.piece) b

end Model

section Calls

variable {b : Buffer} {buffEnd size : Nat} {op : BuffOp} {data added : Bytes} {len : Int}

theorem toInt32_small {n : Int} (hneg : -2147483648 ≤ n) (hlt : n < 2147483648) :
    toInt32 n = n := by
  unfold toInt32
  rw [Int.bmod_def]
  split <;> omega

-- What is no int comes out negative, as far as unsigned numbers go.
theorem toInt32_cases {n : Nat} (hlt : n < 4294967296) :
    (n < 2147483648 ∧ toInt32 n = n) ∨ (2147483648 ≤ n ∧ toInt32 n < 0) := by
  unfold toInt32
  rw [Int.bmod_def]
  split <;> omega

theorem toInt32_le (n : Nat) : toInt32 n ≤ n := by
  unfold toInt32
  rw [Int.bmod_def]
  split <;> omega

namespace BuffOp

theorem len_le (op : BuffOp) : op.len ≤ op.data.length := by
  cases op with
  | addc c => simp [len, data]
  | addb data len h => exact h
  | adds s =>
      have hle := toInt32_le (strlen s)
      have hshort := (List.takeWhile_prefix (l := s) (fun c : UInt8 => c ≠ 0)).length_le
      simp only [len, data, List.length_append, List.length_singleton]
      simp only [strlen] at hle hshort ⊢
      omega

-- Only the length of a string is cut to an int.
theorem taken_short (h : op.piece.length < 2147483648) : op.taken = op.piece := by
  cases op with
  | addc c => rfl
  | addb data len h => rfl
  | adds s =>
      have hstrlen : strlen s < 2147483648 := h
      have hlen : toInt32 (strlen s) = strlen s := toInt32_small (by omega) (by omega)
      have hprefix : s.takeWhile (· ≠ 0) <+: s ++ [0] :=
        (List.takeWhile_prefix _).trans (List.prefix_append s [0])
      rw [taken, len, hlen, Int.toNat_natCast]
      exact (List.prefix_iff_eq_take.mp hprefix).symm

theorem taken_nil_iff : op.taken = [] ↔ op.len ≤ 0 := by
  have hle := op.len_le
  rw [taken, List.take_eq_nil_iff, ← List.length_eq_zero_iff]
  omega

end BuffOp

-- The difference of two pointers, or nothing is added.
theorem avail_cases (hle : b.cursor ≤ buffEnd) (hlt : buffEnd < 4294967296) :
    toInt32 (buffEnd - b.cursor) = buffEnd - b.cursor ∨ toInt32 (buffEnd - b.cursor) ≤ 0 := by
  have hcases := toInt32_cases (n := buffEnd - b.cursor) (by omega)
  rw [Int.ofNat_sub hle] at hcases
  omega

-- A character is added as a piece of one byte is.
theorem buffAddc_eq (c : Int32) (hle : b.cursor ≤ buffEnd) (hlt : buffEnd < 4294967296) :
    buffAddc b buffEnd c = buffAddb b buffEnd [c.toUInt32.toUInt8] 1 := by
  unfold buffAddc buffAddb
  by_cases hidle : toInt32 ((buffEnd : Int) - b.cursor) ≤ 0
  · rw [if_pos hidle, if_pos (.inl hidle)]
  · have havail := (avail_cases hle hlt).resolve_right hidle
    have hcopy : memcpy b.mem b.cursor [c.toUInt32.toUInt8] 1 =
        store b.mem b.cursor [c.toUInt32.toUInt8] := rfl
    have hlen : (if (buffEnd : Int) - b.cursor < 1 then (buffEnd : Int) - b.cursor else 1).toNat =
        1 := by
      rw [if_neg (by omega)]
      rfl
    rw [havail] at hidle
    have hroom : ¬((buffEnd : Int) - b.cursor ≤ 0 ∨ (1 : Int) ≤ 0) := by omega
    rw [havail, if_neg hidle, if_neg hroom]
    simp only [hlen, hcopy, Nat.add_sub_cancel]
    by_cases hone : (buffEnd : Int) - b.cursor = 1
    · -- the character is overwritten by the NUL
      have hagain : (store b.mem b.cursor [c.toUInt32.toUInt8] >>=
          fun mem => store mem b.cursor [0]) =
          store b.mem b.cursor [0] := store_again rfl
      rw [if_pos hone, ← hagain, bind_assoc]
      simp only [if_pos (show buffEnd ≤ b.cursor + 1 by omega)]
    · rw [if_neg hone]
      simp only [if_neg (show ¬buffEnd ≤ b.cursor + 1 by omega)]

theorem step_eq (op : BuffOp) (hle : b.cursor ≤ buffEnd) (hlt : buffEnd < 4294967296) :
    step buffEnd b op = buffAddb b buffEnd op.data op.len := by
  cases op with
  | addc c => exact buffAddc_eq c hle hlt
  | adds s => rfl
  | addb data len h => rfl

theorem buffAddb_idle (h : toInt32 (buffEnd - b.cursor) ≤ 0 ∨ len ≤ 0) :
    buffAddb b buffEnd data len = .ok b :=
  if_pos h

-- What the calls have left of what they added: it begins the array, with a NUL behind
-- it, and the cursor is behind it as well.
structure Filled (size : Nat) (added : Bytes) (b : Buffer) : Prop where
  cursor : b.cursor = min added.length size
  inside : b.mem.length = size
  filled : ∃ rest, b.mem = (added.take (size - 1)).map some ++ rest ∧
    (added ≠ [] → rest.head? = some (some 0))

theorem filled_start {mem : List Cell} (h : mem.length = size) : Filled size [] ⟨mem, 0⟩ where
  cursor := (Nat.zero_min _).symm
  inside := h
  filled := ⟨mem, by simp, fun hne => absurd rfl hne⟩

-- As long as there is room, all of it is there.
theorem Filled.room (h : Filled size added b) (hroom : added.length < size) :
    ∃ rest, b.mem = added.map some ++ rest ∧ rest.length = size - added.length ∧
      b.cursor = added.length := by
  obtain ⟨rest, hmem, -⟩ := h.filled
  have hlen := h.inside
  rw [List.take_of_length_le (by omega)] at hmem
  rw [hmem, List.length_append, List.length_map] at hlen
  refine ⟨rest, hmem, by omega, ?_⟩
  rw [h.cursor, Nat.min_eq_left (Nat.le_of_lt hroom)]

-- Once there is none, nothing changes.
theorem Filled.full (h : Filled size added b) (hfull : size ≤ added.length) (hsize : 0 < size)
    (more : Bytes) :
    Filled size (added ++ more) b := by
  obtain ⟨rest, hmem, hnul⟩ := h.filled
  refine ⟨?_, h.inside, rest, ?_, fun _ => hnul ?_⟩
  · rw [h.cursor, List.length_append]
    omega
  · rw [hmem, List.take_append_of_le_length (by omega)]
  · rintro rfl
    simp at hfull
    omega

theorem memcpy_written {dst n : Nat} {rest : List Cell} (hdst : added.length = dst)
    (hn : n ≤ data.length)
    (hroom : n ≤ rest.length) :
    memcpy (added.map some ++ rest) dst data n =
      .ok ((added ++ data.take n).map some ++ rest.drop n) := by
  have hlen : (data.take n).length = n := by
    rw [List.length_take, Nat.min_eq_left hn]
  subst hdst
  rw [memcpy, if_pos hn, store_written added _ (by omega), hlen]

theorem buffAddb_filled (h : Filled size added b) (hsize : 0 < size) (hint : size < 2147483648)
    (hlen : len ≤ data.length) :
    ∃ after, buffAddb b size data len = .ok after ∧
      Filled size (added ++ data.take len.toNat) after := by
  by_cases hnone : len ≤ 0
  · refine ⟨b, buffAddb_idle (.inr hnone), ?_⟩
    rw [Int.toNat_of_nonpos hnone, List.take_zero, List.append_nil]
    exact h
  by_cases hfull : size ≤ added.length
  · refine ⟨b, buffAddb_idle (.inl ?_), h.full hfull hsize _⟩
    rw [h.cursor, Nat.min_eq_right hfull, Int.sub_self]
    decide
  obtain ⟨rest, hmem, hrest, hcursor⟩ := h.room (by omega)
  have havail : toInt32 ((size : Int) - b.cursor) = size - added.length := by
    rw [toInt32_small (by omega) (by omega), hcursor]
  obtain ⟨n, hn⟩ : ∃ n,
      (if (size : Int) - added.length < len then (size : Int) - added.length else len).toNat = n :=
    ⟨_, rfl⟩
  have hmin : n = min (size - added.length) len.toNat := by
    rw [← hn]
    split <;> omega
  have hpiece : (data.take n).length = n := by
    rw [List.length_take]
    omega
  have hcopy : memcpy (added.map some ++ rest) b.cursor data n =
      .ok ((added ++ data.take n).map some ++ rest.drop n) :=
        memcpy_written hcursor.symm (by omega) (by omega)
  rw [← hmem] at hcopy
  unfold buffAddb
  rw [havail, if_neg (by omega)]
  simp only [hn, hcopy, bind, Except.bind]
  by_cases hover : size ≤ b.cursor + n
  · -- what there is room for, and the NUL instead of the last byte
    have hall : (added ++ data.take n).length = size := by
      rw [List.length_append]
      omega
    have hlast := store_last (i := b.cursor + n - 1) (added ++ data.take n) 0 (by omega)
    rw [if_pos hover, List.drop_of_length_le (by omega), List.append_nil, hlast]
    refine ⟨_, rfl, ?_, ?_, [some 0], ?_, fun _ => rfl⟩
    · simp only [List.length_append, List.length_take]
      omega
    · simp only [List.length_map, List.length_append, List.length_take, List.length_singleton]
      omega
    · have hindex : b.cursor + n - 1 = size - 1 := by omega
      simp only [hindex, List.map_append, List.take_append, List.take_take]
      rw [Nat.min_eq_left (show size - 1 - added.length ≤ n by omega),
        Nat.min_eq_left (show size - 1 - added.length ≤ len.toNat by omega)]
      rfl
  · -- all of the piece, and the NUL behind it
    have hwhole : n = len.toNat := by omega
    have hplace : b.cursor + n = (added ++ data.take n).length := by
      rw [List.length_append, hpiece, hcursor]
    have hleft : 1 ≤ (rest.drop n).length := by
      rw [List.length_drop]
      omega
    have hnul := store_written (added ++ data.take n) [0] hleft
    rw [if_neg hover, hplace, hnul, ← hwhole]
    refine ⟨_, rfl, ?_, ?_, some 0 :: (rest.drop n).drop 1, ?_, fun _ => rfl⟩
    · rw [Nat.min_eq_left (by omega)]
    · simp only [List.length_append, List.length_map, List.length_drop,
        List.length_singleton, hpiece]
      omega
    · have hall : (added ++ data.take n).take (size - 1) = added ++ data.take n :=
        List.take_of_length_le (by omega)
      rw [hall]
      simp

theorem step_filled (h : Filled size added b) (hsize : 0 < size) (hint : size < 2147483648)
    (op : BuffOp) :
    ∃ after, step size b op = .ok after ∧ Filled size (added ++ op.taken) after := by
  have hle : b.cursor ≤ size := h.cursor ▸ Nat.min_le_right ..
  rw [step_eq op hle (by omega)]
  exact buffAddb_filled h hsize hint op.len_le

theorem run_filled (h : Filled size added b) (hsize : 0 < size) (hint : size < 2147483648)
    (ops : List BuffOp) :
    ∃ after, run (step size) b ops = .ok after ∧
      Filled size (added ++ ops.flatMap BuffOp.taken) after := by
  induction ops generalizing added b with
  | nil => exact ⟨b, rfl, by simpa using h⟩
  | cons op ops ih =>
      obtain ⟨mid, hstep, hmid⟩ := step_filled h hsize hint op
      obtain ⟨after, hrun, hafter⟩ := ih hmid
      refine ⟨after, by rw [run_cons hstep, hrun], ?_⟩
      rwa [List.append_assoc, ← List.flatMap_cons] at hafter

-- An array whose length is no int, and pieces of which nothing is left, are left alone.
theorem run_idle {ops : List BuffOp} (hlt : size < 4294967296)
    (h : size = 0 ∨ 2147483648 ≤ size ∨ ops.flatMap BuffOp.taken = []) (mem : List Cell) :
    run (step size) ⟨mem, 0⟩ ops = .ok ⟨mem, 0⟩ := by
  induction ops with
  | nil => rfl
  | cons op ops ih =>
      have hidle : toInt32 ((size : Int) - (0 : Nat)) ≤ 0 ∨ op.len ≤ 0 := by
        obtain rfl | hlarge | hnone := h
        · exact .inl (by decide)
        · obtain ⟨hsmall, -⟩ | ⟨-, hneg⟩ := toInt32_cases hlt
          · omega
          · exact .inl (by simpa using Int.le_of_lt hneg)
        · rw [List.flatMap_cons, List.append_eq_nil_iff] at hnone
          exact .inr (BuffOp.taken_nil_iff.mp hnone.1)
      have hstep : step size ⟨mem, 0⟩ op = .ok ⟨mem, 0⟩ := by
        rw [step_eq op (Nat.zero_le _) hlt]
        exact buffAddb_idle hidle
      rw [run_cons hstep]
      refine ih (h.imp_right (Or.imp_right fun hnone => ?_))
      rw [List.flatMap_cons, List.append_eq_nil_iff] at hnone
      exact hnone.2

-- For what is left of the pieces, the buffer is right.
theorem Filled.holds (h : Filled size added b) (hne : added ≠ []) : Holds size added b := by
  obtain ⟨rest, hmem, hnul⟩ := h.filled
  have hlen : ((added.take (size - 1)).map some).length = min added.length (size - 1) := by
    rw [List.length_map, List.length_take, Nat.min_comm]
  refine ⟨h.inside, ?_, ?_, ?_⟩
  · rw [hmem, ← hlen, List.take_left]
  · rw [hmem, ← hlen, List.getElem?_append_right (Nat.le_refl _), Nat.sub_self,
      ← List.head?_eq_getElem?]
    exact hnul hne
  · rw [h.cursor]
    omega

-- What counts of what is added is how it begins, and whether it is too long.
theorem Holds.congr {other : Bytes} (h : Holds size added b)
    (hlen : min added.length size = min other.length size)
    (htake : added.take (size - 1) = other.take (size - 1)) : Holds size other b := by
  have hmin : min added.length (size - 1) = min other.length (size - 1) := by omega
  refine ⟨h.inside, ?_, ?_, h.overflow.trans ?_⟩
  · rw [← hmin, ← htake]
    exact h.content
  · rw [← hmin]
    exact h.terminated
  · omega

theorem taken_eq_pieces {ops : List BuffOp} (h : (ops.flatMap BuffOp.piece).length < 2147483648) :
    ops.flatMap BuffOp.taken = ops.flatMap BuffOp.piece := by
  induction ops with
  | nil => rfl
  | cons op ops ih =>
      rw [List.flatMap_cons, List.length_append] at h
      rw [List.flatMap_cons, List.flatMap_cons, BuffOp.taken_short (by omega), ih (by omega)]

-- The capacity is an int, something is added, and where the pieces are too long the
-- strings whose lengths are no ints make no difference.
structure Suitable (size : Nat) (ops : List BuffOp) : Prop where
  capacity : 0 < size ∧ size < 2 ^ 31
  added : ops.flatMap BuffOp.taken ≠ []
  strings : size ≤ (ops.flatMap BuffOp.piece).length → size ≤ (ops.flatMap BuffOp.taken).length ∧
    (ops.flatMap BuffOp.taken).take (size - 1) = (ops.flatMap BuffOp.piece).take (size - 1)

-- No NUL was stored in an array that is left alone.
theorem fresh_not_holds : ¬Holds size added ⟨fresh size, 0⟩ := by
  intro h
  have hnul := h.terminated
  simp [fresh, List.getElem?_replicate] at hnul

theorem adds_right_iff (size : UInt32) (ops : List BuffOp) :
    AddsRight size ops ↔ Suitable size.toNat ops := by
  have hlt : size.toNat < 4294967296 := size.toNat_lt
  constructor
  · intro h
    obtain ⟨b, hrun, hholds⟩ := h (fresh size.toNat) length_fresh
    have hmoves : ¬(size.toNat = 0 ∨ 2147483648 ≤ size.toNat ∨ ops.flatMap BuffOp.taken = []) := by
      intro hidle
      rw [run_idle hlt hidle] at hrun
      cases hrun
      exact fresh_not_holds hholds
    rw [not_or, not_or] at hmoves
    have hsize : 0 < size.toNat := by omega
    have hint : size.toNat < 2147483648 := by omega
    obtain ⟨after, hafter, hfilled⟩ := run_filled (filled_start length_fresh) hsize hint ops
    rw [hrun, Except.ok.injEq] at hafter
    rw [← hafter, List.nil_append] at hfilled
    have htaken := hfilled.holds hmoves.2.2
    refine ⟨⟨hsize, hint⟩, hmoves.2.2, fun hlong => ?_⟩
    have hover := htaken.overflow.mp (hholds.overflow.mpr hlong)
    refine ⟨hover, ?_⟩
    have hcontent := hholds.content
    have hcontent' := htaken.content
    rw [Nat.min_eq_right (by omega)] at hcontent
    rw [Nat.min_eq_right (by omega)] at hcontent'
    exact (List.map_inj_right fun _ _ => Option.some.inj).mp (hcontent'.symm.trans hcontent)
  · intro h mem hmem
    obtain ⟨after, hrun, hfilled⟩ := run_filled (filled_start hmem) h.capacity.1 h.capacity.2 ops
    rw [List.nil_append] at hfilled
    have htaken := hfilled.holds h.added
    refine ⟨after, hrun, ?_⟩
    by_cases hlong : size.toNat ≤ (ops.flatMap BuffOp.piece).length
    · obtain ⟨hlen, htake⟩ := h.strings hlong
      exact htaken.congr (by omega) htake
    · have hint := h.capacity.2
      rwa [← taken_eq_pieces (by omega)]

-- An array that nothing is added to has no NUL.
theorem empty_string_is_not_terminated : ¬AddsRight 16 [.adds (ascii "")] := by
  intro h
  obtain ⟨b, hrun, hholds⟩ := h (fresh 16) length_fresh
  rw [run_idle (UInt32.toNat_lt _) (.inr (.inr rfl)), Except.ok.injEq] at hrun
  subst hrun
  exact fresh_not_holds hholds

end Calls

end Adb.Utils
