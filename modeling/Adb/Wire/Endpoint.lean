import Adb.Lib.Memory
import Adb.Lib.Print
import Adb.Wire.Remote

namespace Adb.Wire

open Adb.Lib
open Adb.Host (Bytes)

-- A text of wchar_t, and a char as it is assigned to one.
def wide (s : String) : List UInt16 := s.toList.map fun c => UInt16.ofNat c.toNat

def wchar (c : UInt8) : UInt16 := if c < 128 then c.toUInt16 else c.toUInt16 + 0xff00

-- _stprintf, once the text is put together.
def stprintf (buffer : List (Option UInt16)) (text : List UInt16) : Except MemoryFault (List (Option UInt16)) :=
  store buffer 0 (text ++ [0])

-- What %s reads from the start of a buffer on.
def readWide : List (Option UInt16) → Except MemoryFault (List UInt16)
  | [] => .error .overread
  | none :: _ => .error .uninitialised
  | some c :: rest => if c = 0 then .ok [] else (readWide rest).map (c :: ·)

-- What ReadFile does with a request: whether it succeeds, and the bytes that it has.
structure Transfer where
  ok : Bool
  bytes : Bytes
deriving DecidableEq

-- The bytes that come in before a request fails.
def transferred : List Transfer → Bytes
  | [] => []
  | t :: transfers => if t.ok then t.bytes ++ transferred transfers else []

def LOG_SIZE : Nat := 1024

-- What AdbReadEndpointSync logs of bytesRead, the bytes it has read.
def logRead (ret : Bool) (bytesRead : Bytes) : Except MemoryFault Unit := do
  let wLog ← stprintf (List.replicate LOG_SIZE none)
    (wide "AdbReadEndpointSync len = " ++ (printInt bytesRead.length).map wchar)
  let wLog ← store wLog 0 (bytesRead.map wchar)
  let wLog ← store wLog bytesRead.length [0]
  let text ← readWide wLog
  let _ ← stprintf (List.replicate LOG_SIZE none)
    (if ret then wide "read sucess -- " ++ text else wide "read -- " ++ text)
  return ()

-- AdbReadEndpointSync, for the buffer that begins at an index of memory: the memory,
-- *bytes_read and what it returns.
def adbReadEndpointSync (memory : Bytes) (i : Nat) (bytesToRead : Nat) (transfer : Transfer) :
    Except MemoryFault (Bytes × Nat × Bool) := do
  let bytes := transfer.bytes.take bytesToRead
  let memory ← writeBytes memory i bytes
  let readBuf ← readBytes memory i bytes.length
  logRead transfer.ok readBuf
  return (memory, bytes.length, transfer.ok)

-- What is logged fits: the bytes with a NUL behind them, and the text that they are
-- with what is printed before it.
structure Logged (ok : Bool) (bytes : Bytes) : Prop where
  index : bytes.length < LOG_SIZE
  line : (if ok then 15 else 8) + (bytes.takeWhile (· ≠ 0)).length < LOG_SIZE

section Log

variable {bytes memory : Bytes} {ok : Bool} {s : List UInt16} {rest : List (Option UInt16)}

theorem wchar_eq_zero {c : UInt8} : wchar c = 0 ↔ c = 0 := by
  have hc := c.toNat_lt
  rw [← UInt16.toNat_inj, ← UInt8.toNat_inj, wchar]
  split
  · simp
  · have hsum : (c.toUInt16 + 0xff00).toNat = c.toNat + 0xff00 := by
      rw [UInt16.toNat_add, UInt8.toNat_toUInt16, Nat.mod_eq_of_lt]
      · rfl
      · show c.toNat + 0xff00 < 2 ^ 16
        omega
    have hlarge : (128 : UInt8).toNat ≤ c.toNat := UInt8.le_iff_toNat_le.mp (UInt8.not_lt.mp ‹_›)
    have hbound : (128 : UInt8).toNat = 128 := rfl
    rw [hsum]
    exact iff_of_false (Nat.succ_ne_zero _) (show c.toNat ≠ 0 by omega)

theorem readWide_until (bytes : Bytes) :
    readWide ((bytes.map wchar).map some ++ some 0 :: rest) = .ok ((bytes.takeWhile (· ≠ 0)).map wchar) := by
  induction bytes with
  | nil => rfl
  | cons c bytes ih =>
      rw [List.map_cons, List.map_cons, List.cons_append, readWide]
      by_cases hc : c = 0
      · rw [if_pos (wchar_eq_zero.mpr hc), List.takeWhile_cons_of_neg (by simp [hc])]
        rfl
      · rw [if_neg (mt wchar_eq_zero.mp hc), ih, List.takeWhile_cons_of_pos (by simp [hc])]
        rfl

theorem stprintf_ok (h : s.length < LOG_SIZE) :
    stprintf (List.replicate LOG_SIZE none) s =
      .ok ((s ++ [0]).map some ++ List.replicate (LOG_SIZE - (s.length + 1)) none) := by
  have hroom : (s ++ [0]).length ≤ (List.replicate LOG_SIZE (none : Option UInt16)).length := by
    rw [List.length_append, List.length_singleton, List.length_replicate]
    exact h
  have hstore := @store_append _ [] _ _ 0 rfl hroom
  unfold stprintf
  rw [List.nil_append] at hstore
  rw [hstore]
  simp

theorem stprintf_overrun (h : LOG_SIZE ≤ s.length) :
    stprintf (List.replicate LOG_SIZE none) s = .error .overrun :=
  store_overrun (by rw [List.length_append, List.length_singleton, List.length_replicate]; omega)

-- The first line is short.
theorem stprintf_length (n : Nat) : ∃ wLog, wLog.length = LOG_SIZE ∧
    stprintf (List.replicate LOG_SIZE none) (wide "AdbReadEndpointSync len = " ++ (printInt n).map wchar) =
      .ok wLog := by
  have hprefix : (wide "AdbReadEndpointSync len = ").length = 26 := by decide
  have hnumber := length_printInt_le n
  have hshort : (wide "AdbReadEndpointSync len = " ++ (printInt n).map wchar).length < LOG_SIZE := by
    rw [List.length_append, hprefix, List.length_map]
    unfold LOG_SIZE
    omega
  refine ⟨_, ?_, stprintf_ok hshort⟩
  rw [List.length_append, List.length_map, List.length_append, List.length_singleton, List.length_replicate]
  omega

-- The bytes are logged up to the first NUL, if there is room for them and a NUL.
theorem logRead_eq (h : bytes.length < LOG_SIZE) :
    logRead ok bytes = (stprintf (List.replicate LOG_SIZE none)
      ((if ok then wide "read sucess -- " else wide "read -- ") ++
        (bytes.takeWhile (· ≠ 0)).map wchar)).map fun _ => () := by
  obtain ⟨wLog, hlength, hfirst⟩ := stprintf_length bytes.length
  have hcopy : store wLog 0 (bytes.map wchar) =
      .ok ((bytes.map wchar).map some ++ wLog.drop bytes.length) := by
    have hstore := @store_append _ [] wLog (bytes.map wchar) 0 rfl (by rw [List.length_map]; omega)
    rwa [List.nil_append, List.nil_append, List.length_map] at hstore
  have hend : store ((bytes.map wchar).map some ++ wLog.drop bytes.length) bytes.length [0] =
      .ok ((bytes.map wchar).map some ++ some 0 :: (wLog.drop bytes.length).drop 1) :=
    store_append (by rw [List.length_map, List.length_map])
      (by rw [List.length_drop, List.length_singleton]; omega)
  unfold logRead
  rw [hfirst]
  simp only [bind, Except.bind, hcopy, hend, readWide_until]
  cases ok with
  | true =>
      simp only [if_true]
      cases stprintf _ _ <;> rfl
  | false =>
      simp only [Bool.false_eq_true, if_false]
      cases stprintf _ _ <;> rfl

theorem length_line (ok : Bool) (bytes : Bytes) :
    ((if ok then wide "read sucess -- " else wide "read -- ") ++
      (bytes.takeWhile (· ≠ 0)).map wchar).length = (if ok then 15 else 8) + (bytes.takeWhile (· ≠ 0)).length := by
  have hsuccess : (wide "read sucess -- ").length = 15 := by decide
  have hfailure : (wide "read -- ").length = 8 := by decide
  cases ok <;> simp [hsuccess, hfailure]

-- The log is written in bounds exactly for bytes that fit it.
theorem logRead_ok (h : Logged ok bytes) : logRead ok bytes = .ok () := by
  rw [logRead_eq h.index, stprintf_ok (by rw [length_line]; exact h.line)]
  rfl

theorem logRead_overrun (h : ¬ Logged ok bytes) : logRead ok bytes = .error .overrun := by
  by_cases hindex : bytes.length < LOG_SIZE
  · have hline : LOG_SIZE ≤ ((if ok then wide "read sucess -- " else wide "read -- ") ++
        (bytes.takeWhile (· ≠ 0)).map wchar).length := by
      rw [length_line]
      by_contra hshort
      exact h ⟨hindex, by omega⟩
    rw [logRead_eq hindex, stprintf_overrun hline]
    rfl
  · obtain ⟨wLog, hlength, hfirst⟩ := stprintf_length bytes.length
    unfold logRead
    rw [hfirst]
    by_cases hfull : bytes.length = LOG_SIZE
    · -- the copy fills the log, and its NUL is the one too many
      have hcopy := @store_append _ [] wLog (bytes.map wchar) 0 rfl (by rw [List.length_map]; omega)
      rw [List.nil_append] at hcopy
      simp only [bind, Except.bind, hcopy]
      rw [store_overrun]
      simp only [List.length_append, List.length_map, List.length_drop, List.length_singleton,
        List.length_nil]
      omega
    · simp only [bind, Except.bind]
      rw [store_overrun (by rw [List.length_map]; omega)]

-- What AdbReadEndpointSync does with room in the buffer for what was asked for.
theorem adbReadEndpointSync_eq {i n : Nat} {transfer : Transfer} (h : i + n ≤ memory.length) :
    adbReadEndpointSync memory i n transfer = (logRead transfer.ok (transfer.bytes.take n)).map fun _ =>
      (memory.take i ++ transfer.bytes.take n ++ memory.drop (i + (transfer.bytes.take n).length),
        (transfer.bytes.take n).length, transfer.ok) := by
  have hle : (transfer.bytes.take n).length ≤ n := List.length_take_le _ _
  unfold adbReadEndpointSync
  generalize transfer.bytes.take n = bytes at hle ⊢
  have hbefore : (memory.take i).length = i := by
    rw [List.length_take]
    omega
  have hwrite : writeBytes memory i bytes =
      .ok (memory.take i ++ bytes ++ memory.drop (i + bytes.length)) := if_pos (by omega)
  have hread : readBytes (memory.take i ++ bytes ++ memory.drop (i + bytes.length)) i bytes.length =
      .ok bytes := by
    unfold readBytes
    rw [if_pos (by simp only [List.length_append, hbefore, List.length_drop]; omega), List.append_assoc,
      List.drop_left' hbefore, List.take_left]
  simp only [bind, Except.bind, hwrite, hread]
  cases logRead transfer.ok bytes <;> rfl

end Log

end Adb.Wire
