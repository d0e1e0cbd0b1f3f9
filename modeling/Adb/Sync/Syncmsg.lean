import Adb.Lib.Words
import Adb.Sync.Descriptors

namespace Adb.Sync

open Adb.Lib

def MKID (a b c d : UInt8) : UInt32 :=
  a.toUInt32 ||| (b.toUInt32 <<< 8) ||| (c.toUInt32 <<< 16) ||| (d.toUInt32 <<< 24)

def ID_STAT : UInt32 := MKID 83 84 65 84
def ID_LIST : UInt32 := MKID 76 73 83 84
def ID_SEND : UInt32 := MKID 83 69 78 68
def ID_RECV : UInt32 := MKID 82 69 67 86
def ID_DENT : UInt32 := MKID 68 69 78 84
def ID_DONE : UInt32 := MKID 68 79 78 69
def ID_DATA : UInt32 := MKID 68 65 84 65
def ID_OKAY : UInt32 := MKID 79 75 65 89
def ID_FAIL : UInt32 := MKID 70 65 73 76
def ID_QUIT : UInt32 := MKID 81 85 73 84

def SYNC_DATA_MAX : Nat := 64 * 1024

-- The members of syncmsg are words in a row: req, data and status are two of
-- them, stat four and dent five.
def syncmsg (words : List UInt32) : List UInt8 := words.flatMap word32

def wordAt (msg : List UInt8) (i : Nat) : UInt32 := ofWord32 ((msg.drop (4 * i)).take 4)

-- An unsigned that is stored in an int, and an int that is passed as a size_t.
def asInt (w : UInt32) : Int := (w.toNat : Int).bmod (2 ^ 32)

def asSize (i : Int) : Nat := (i % 2 ^ 32).toNat

-- The text in a buffer that is closed with a NUL.
def textOf (bytes : List UInt8) : List UInt8 := bytes.takeWhile (· ≠ 0)

def dataRecord (bytes : List UInt8) : List UInt8 :=
  syncmsg [ID_DATA, UInt32.ofNat bytes.length] ++ bytes

section Records

variable {words : List UInt32} {bytes more : List UInt8}

@[simp] theorem length_syncmsg : (syncmsg words).length = 4 * words.length := by
  induction words with
  | nil => rfl
  | cons w words ih =>
      simp only [syncmsg, List.flatMap_cons, List.length_append, length_word32, List.length_cons] at ih ⊢
      omega

theorem wordAt_syncmsg (words : List UInt32) (more : List UInt8) (i : Nat) (h : i < words.length) :
    wordAt (syncmsg words ++ more) i = words[i] := by
  induction words generalizing i with
  | nil => cases h
  | cons w words ih =>
      have hcons : syncmsg (w :: words) ++ more = word32 w ++ (syncmsg words ++ more) := by
        simp [syncmsg]
      cases i with
      | zero =>
          rw [hcons, wordAt, Nat.mul_zero, List.drop_zero, List.take_append_of_le_length (by simp),
            List.take_of_length_le (by simp), ofWord32_word32]
          rfl
      | succ i =>
          have hdrop : (word32 w ++ (syncmsg words ++ more)).drop (4 * (i + 1)) =
              (syncmsg words ++ more).drop (4 * i) := by
            rw [show 4 * (i + 1) = (word32 w).length + 4 * i by simp; omega, List.drop_append]
            simp
          rw [hcons, wordAt, hdrop]
          exact ih i (Nat.lt_of_succ_lt_succ h)

theorem wordAt_self (words : List UInt32) (i : Nat) (h : i < words.length) :
    wordAt (syncmsg words) i = words[i] := by
  have hword := wordAt_syncmsg words [] i h
  rwa [List.append_nil] at hword

-- A message is made of its words.
theorem syncmsg_wordAt (n : Nat) (msg : List UInt8) (h : msg.length = 4 * n) :
    syncmsg ((List.range n).map (wordAt msg)) = msg := by
  induction n generalizing msg with
  | zero => exact (List.length_eq_zero_iff.mp h).symm
  | succ n ih =>
      have htail : ∀ i, wordAt (msg.drop 4) i = wordAt msg (i + 1) := by
        intro i
        rw [wordAt, wordAt, List.drop_drop, Nat.mul_add, Nat.add_comm]
      have hrest := ih (msg.drop 4) (by rw [List.length_drop]; omega)
      have hmap : (List.range n).map (wordAt (msg.drop 4)) = (List.range n).map fun i => wordAt msg (i + 1) :=
        List.map_congr_left fun i _ => htail i
      have hfirst : word32 (wordAt msg 0) = msg.take 4 := by
        rw [wordAt, Nat.mul_zero, List.drop_zero]
        exact word32_ofWord32 (by rw [List.length_take]; omega)
      rw [hmap] at hrest
      rw [List.range_succ_eq_map, List.map_cons, List.map_map, syncmsg, List.flatMap_cons, hfirst]
      exact (congrArg (msg.take 4 ++ ·) hrest).trans (List.take_append_drop 4 msg)

-- A record holds no more than fits into its length.
theorem toNat_chunk {chunk : List UInt8} (h : chunk.length ≤ SYNC_DATA_MAX) :
    (UInt32.ofNat chunk.length).toNat = chunk.length := by
  unfold SYNC_DATA_MAX at h
  exact UInt32.toNat_ofNat_of_lt' (show chunk.length < 2 ^ 32 by omega)

theorem asInt_ofNat {n : Nat} (h : n < 2147483648) : asInt (UInt32.ofNat n) = n := by
  have hn : (UInt32.ofNat n).toNat = n := UInt32.toNat_ofNat_of_lt' (show n < 2 ^ 32 by omega)
  have hmod := Int.bmod_def (x := n) (m := 2 ^ 32)
  unfold asInt
  rw [hn]
  simp only [hmod]
  split <;> omega

theorem asSize_natCast {n : Nat} (h : n < 2 ^ 32) : asSize n = n := by
  unfold asSize
  omega

theorem length_dataRecord : (dataRecord bytes).length = 8 + bytes.length := by
  simp [dataRecord]

end Records

end Adb.Sync
