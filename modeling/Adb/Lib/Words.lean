import Mathlib.Algebra.BigOperators.Group.List.Basic
import Mathlib.Algebra.GroupWithZero.Nat

namespace Adb.Lib

section Words

-- A number in count bytes, the lowest first.
def toLittleEndian : Nat → Nat → List UInt8
  | 0, _ => []
  | count + 1, n => UInt8.ofNat n :: toLittleEndian count (n / 256)

def ofLittleEndian : List UInt8 → Nat
  | [] => 0
  | byte :: bytes => byte.toNat + 256 * ofLittleEndian bytes

@[simp] theorem length_toLittleEndian (count n : Nat) : (toLittleEndian count n).length = count := by
  induction count generalizing n with
  | zero => rfl
  | succ count ih => rw [toLittleEndian, List.length_cons, ih]

-- The bytes keep as much of the number as there is room for.
theorem ofLittleEndian_toLittleEndian (count n : Nat) :
    ofLittleEndian (toLittleEndian count n) = n % 256 ^ count := by
  induction count generalizing n with
  | zero => simp [toLittleEndian, ofLittleEndian, Nat.mod_one]
  | succ count ih =>
      have hbyte : (UInt8.ofNat n).toNat = n % 256 := UInt8.toNat_ofNat'
      have hsplit := Nat.mod_mul (x := n) (a := 256) (b := 256 ^ count)
      rw [toLittleEndian, ofLittleEndian, ih, hbyte, Nat.pow_succ, Nat.mul_comm (256 ^ count), hsplit]

theorem ofLittleEndian_lt (bytes : List UInt8) : ofLittleEndian bytes < 256 ^ bytes.length := by
  induction bytes with
  | nil => simp [ofLittleEndian]
  | cons byte bytes ih =>
      have hbyte := byte.toNat_lt
      rw [ofLittleEndian, List.length_cons, Nat.pow_succ]
      omega

theorem toLittleEndian_ofLittleEndian (bytes : List UInt8) :
    toLittleEndian bytes.length (ofLittleEndian bytes) = bytes := by
  induction bytes with
  | nil => rfl
  | cons byte bytes ih =>
      have hbyte := byte.toNat_lt
      have hdiv : (byte.toNat + 256 * ofLittleEndian bytes) / 256 = ofLittleEndian bytes := by omega
      have hmod : UInt8.ofNat (byte.toNat + 256 * ofLittleEndian bytes) = byte := by
        apply UInt8.toNat_inj.mp
        rw [UInt8.toNat_ofNat']
        omega
      rw [List.length_cons, ofLittleEndian, toLittleEndian, hdiv, hmod, ih]

def word32 (w : UInt32) : List UInt8 := toLittleEndian 4 w.toNat

def ofWord32 (bytes : List UInt8) : UInt32 := UInt32.ofNat (ofLittleEndian bytes)

@[simp] theorem length_word32 (w : UInt32) : (word32 w).length = 4 := length_toLittleEndian 4 _

@[simp] theorem ofWord32_word32 (w : UInt32) : ofWord32 (word32 w) = w := by
  have hlt : w.toNat < 256 ^ 4 := w.toNat_lt
  rw [ofWord32, word32, ofLittleEndian_toLittleEndian, Nat.mod_eq_of_lt hlt, UInt32.ofNat_toNat]

theorem word32_ofWord32 {bytes : List UInt8} (h : bytes.length = 4) : word32 (ofWord32 bytes) = bytes := by
  have hlt := ofLittleEndian_lt bytes
  rw [h] at hlt
  have hnat : (ofWord32 bytes).toNat = ofLittleEndian bytes := UInt32.toNat_ofNat_of_lt' hlt
  rw [word32, hnat, ← h, toLittleEndian_ofLittleEndian]

end Words

section Sums

-- unsigned sum = 0; sum += *x++
def byteSum (bytes : List UInt8) : UInt32 :=
  bytes.foldl (fun sum x => sum + x.toUInt32) 0

theorem foldl_sum_toNat (bytes : List UInt8) (sum : UInt32) :
    (bytes.foldl (fun sum x => sum + x.toUInt32) sum).toNat =
      (sum.toNat + (bytes.map UInt8.toNat).sum) % 2 ^ 32 := by
  induction bytes generalizing sum with
  | nil => simp [Nat.mod_eq_of_lt sum.toNat_lt]
  | cons x bytes ih =>
      rw [List.foldl_cons, ih, UInt32.toNat_add, UInt8.toNat_toUInt32, List.map_cons, List.sum_cons]
      omega

theorem byteSum_toNat (bytes : List UInt8) :
    (byteSum bytes).toNat = (bytes.map UInt8.toNat).sum % 2 ^ 32 := by
  rw [byteSum, foldl_sum_toNat]
  simp

end Sums

section Reads

variable {σ : Type}

-- A read of n bytes from a stream: all of them or nothing.
structure ReadsAt (read : σ → Option (List UInt8 × σ)) (arrived : σ → List UInt8) (n : Nat) : Prop where
  full : ∀ s, n ≤ (arrived s).length → ∃ rest, read s = some ((arrived s).take n, rest) ∧
    arrived rest = (arrived s).drop n
  short : ∀ s, (arrived s).length < n → read s = none

end Reads

end Adb.Lib
