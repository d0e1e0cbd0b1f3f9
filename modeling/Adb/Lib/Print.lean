import Adb.Lib.CString
import Mathlib.Algebra.Group.Nat.Defs
import Mathlib.Data.List.Infix

namespace Adb.Lib

section Numbers

-- The digits of a number of at most fuel of them, the highest first.
def digitsWithin : Nat → Nat → List UInt8
  | 0, _ => []
  | fuel + 1, n =>
      (if n < 10 then [] else digitsWithin fuel (n / 10)) ++ [UInt8.ofNat (48 + n % 10)]

-- The conversion %d of an int, which has ten digits at most.
def printInt (i : Int) : List UInt8 :=
  if i < 0 then 45 :: digitsWithin 10 i.natAbs else digitsWithin 10 i.natAbs

theorem mem_digitsWithin {fuel n : Nat} {c : UInt8} (h : c ∈ digitsWithin fuel n) :
    ∃ d : Fin 10, c = UInt8.ofNat (48 + d.val) := by
  induction fuel generalizing n with
  | zero => cases h
  | succ fuel ih =>
      rw [digitsWithin, List.mem_append] at h
      obtain h | h := h
      · split at h
        · cases h
        · exact ih h
      · exact ⟨⟨n % 10, Nat.mod_lt n (by decide)⟩, List.mem_singleton.mp h⟩

-- A sign and digits.
theorem mem_printInt {i : Int} {c : UInt8} (h : c ∈ printInt i) :
    c = 45 ∨ ∃ d : Fin 10, c = UInt8.ofNat (48 + d.val) := by
  unfold printInt at h
  split at h
  · obtain h | h := List.mem_cons.mp h
    · exact .inl h
    · exact .inr (mem_digitsWithin h)
  · exact .inr (mem_digitsWithin h)

theorem isText_printInt (i : Int) : IsText (printInt i) := by
  intro h
  obtain hminus | ⟨d, hd⟩ := mem_printInt h
  · exact absurd hminus (by decide)
  · have hdigit : ∀ d : Fin 10, (0 : UInt8) ≠ UInt8.ofNat (48 + d.val) := by decide
    exact hdigit d hd

theorem length_digitsWithin_le (fuel n : Nat) : (digitsWithin fuel n).length ≤ fuel := by
  induction fuel generalizing n with
  | zero => exact Nat.le_refl 0
  | succ fuel ih =>
      rw [digitsWithin, List.length_append]
      split
      · exact Nat.le_add_left 1 fuel
      · exact Nat.add_le_add_right (ih _) 1

theorem length_printInt_le (i : Int) : (printInt i).length ≤ 11 := by
  unfold printInt
  have hdigits := length_digitsWithin_le 10 i.natAbs
  split
  · rw [List.length_cons]
    omega
  · omega

-- What sscanf with %d makes of a text. eof: it is over before a number begins.
inductive Scan where
  | eof
  | failure
  | value (i : Int)
deriving DecidableEq

def isSpace (c : UInt8) : Bool := c = 32 || (9 ≤ c && c ≤ 13)

def isDecimal (c : UInt8) : Bool := 48 ≤ c && c ≤ 57

def decimalValue (digits : List UInt8) : Nat := digits.foldl (fun n c => 10 * n + (c.toNat - 48)) 0

-- The number wraps around where an int is too small for it.
def scanDigits (negative : Bool) (s : List UInt8) : Scan :=
  match s.takeWhile isDecimal with
  | [] => .failure
  | digits =>
      let n : Int := decimalValue digits
      .value ((if negative then -n else n).bmod (2 ^ 32))

def scanInt (s : List UInt8) : Scan :=
  match s.dropWhile isSpace with
  | [] => .eof
  | 45 :: rest => scanDigits true rest
  | 43 :: rest => scanDigits false rest
  | rest => scanDigits false rest

end Numbers

section Compare

variable {text s : List UInt8} {rest : List Cell}

-- strcmp(buffer, s) == 0. It reads the buffer as far as it agrees with s.
def strcmp : List Cell → List UInt8 → Except MemoryFault Bool
  | [], _ => .error .overread
  | none :: _, _ => .error .uninitialised
  | some c :: _, [] => .ok (c = 0)
  | some c :: rest, d :: s => if c = d then strcmp rest s else .ok false

theorem strcmp_terminated (ht : IsText text) (hs : IsText s) :
    strcmp ((text ++ [0]).map some ++ rest) s = .ok (text = s) := by
  induction text generalizing s with
  | nil =>
      cases s with
      | nil => rfl
      | cons d s =>
          have hd := (isText_cons.mp hs).1
          simp [strcmp, Ne.symm hd]
  | cons c text ih =>
      obtain ⟨hc, htext⟩ := isText_cons.mp ht
      cases s with
      | nil => simp [strcmp, hc]
      | cons d s =>
          by_cases hcd : c = d
          · subst hcd
            have hrest := ih htext (isText_cons.mp hs).2
            simp only [List.cons_append, List.map_cons, strcmp, if_true, List.cons.injEq, true_and]
            exact hrest
          · simp [strcmp, hcd]

-- Where no end follows, the buffer is read beyond the text if the text begins s.
theorem strcmp_open {fault : MemoryFault} (hrest : ∀ s, strcmp rest s = .error fault) (ht : IsText text) :
    strcmp (text.map some ++ rest) s = if text <+: s then .error fault else .ok false := by
  induction text generalizing s with
  | nil =>
      rw [if_pos List.nil_prefix]
      exact hrest s
  | cons c text ih =>
      obtain ⟨hc, htext⟩ := isText_cons.mp ht
      cases s with
      | nil => simp [strcmp, hc]
      | cons d s =>
          by_cases hcd : c = d
          · subst hcd
            simp only [List.cons_append, List.map_cons, strcmp, if_true, List.cons_prefix_cons, true_and]
            exact ih htext
          · simp [strcmp, hcd, List.cons_prefix_cons]

end Compare

end Adb.Lib
