import Adb.Host.Sockets
import Adb.Wire.Packet

namespace Adb.Wire

open Adb.Lib
open Adb.Host (Bytes MAX_PAYLOAD ReadOutcome WriteOutcome WriteEnd writeLoop writeLoop_split writeLoop_done)

section Tcp

-- readx, on what adb_read will find in the socket. What a read leaves of some
-- bytes is there for the next one. none: -1, or the read blocks.
def readx : Nat → List ReadOutcome → Option (Bytes × List ReadOutcome)
  | 0, reads => some ([], reads)
  | _ + 1, [] => none
  | len + 1, .data bytes :: reads =>
      if bytes = [] then
        none
      else if bytes.length ≤ len + 1 then
        (readx (len + 1 - bytes.length) reads).map fun (more, reads) => (bytes ++ more, reads)
      else
        some (bytes.take (len + 1), .data (bytes.drop (len + 1)) :: reads)
  | len + 1, .intr :: reads => readx (len + 1) reads
  | _ + 1, .again :: _ => none
  | _ + 1, .failed :: _ => none

-- The bytes that come in before the stream ends.
def arrived : List ReadOutcome → Bytes
  | .data bytes :: reads => if bytes = [] then [] else bytes ++ arrived reads
  | .intr :: reads => arrived reads
  | _ => []

theorem readx_readsAt (n : Nat) : ReadsAt (readx n) arrived n := by
  suffices h : ∀ (reads : List ReadOutcome) (n : Nat),
      (n ≤ (arrived reads).length → ∃ rest, readx n reads = some ((arrived reads).take n, rest) ∧
        arrived rest = (arrived reads).drop n) ∧
      ((arrived reads).length < n → readx n reads = none) from
    ⟨fun s => (h s n).1, fun s => (h s n).2⟩
  intro reads
  induction reads with
  | nil =>
      intro n
      cases n with
      | zero => exact ⟨fun _ => ⟨[], rfl, rfl⟩, fun hlt => absurd hlt (by simp)⟩
      | succ n => exact ⟨fun hle => by simp [arrived] at hle, fun _ => rfl⟩
  | cons outcome reads ih =>
      intro n
      cases n with
      | zero => exact ⟨fun _ => ⟨_, rfl, by simp⟩, fun hlt => absurd hlt (by simp)⟩
      | succ n =>
          cases outcome with
          | again => exact ⟨fun hle => by simp [arrived] at hle, fun _ => rfl⟩
          | failed => exact ⟨fun hle => by simp [arrived] at hle, fun _ => rfl⟩
          | intr => exact ih (n + 1)
          | data bytes =>
              by_cases hnil : bytes = []
              · rw [arrived, if_pos hnil, readx, if_pos hnil]
                exact ⟨fun hle => by simp at hle, fun _ => rfl⟩
              rw [arrived, if_neg hnil, readx, if_neg hnil, List.length_append]
              have hpos := List.length_pos_iff.mpr hnil
              by_cases hfits : bytes.length ≤ n + 1
              · -- all of it is taken, and the loop goes on
                rw [if_pos hfits]
                obtain ⟨hfull, hshort⟩ := ih (n + 1 - bytes.length)
                constructor
                · intro hle
                  obtain ⟨rest, hread, hrest⟩ := hfull (by omega)
                  refine ⟨rest, ?_, ?_⟩
                  · rw [hread, Option.map_some, List.take_append, List.take_of_length_le hfits]
                  · rw [hrest, List.drop_append, List.drop_eq_nil_of_le hfits, List.nil_append]
                · intro hlt
                  rw [hshort (by omega)]
                  rfl
              · have hleft : bytes.drop (n + 1) ≠ [] := by
                  rw [Ne, List.drop_eq_nil_iff]
                  exact hfits
                rw [if_neg hfits]
                refine ⟨fun _ => ⟨.data (bytes.drop (n + 1)) :: reads, ?_, ?_⟩, fun hlt => by omega⟩
                · rw [List.take_append_of_le_length (by omega)]
                · rw [arrived, if_neg hleft, List.drop_append_of_le_length (by omega)]

-- writex: what has been written, and the outcomes of the writes to come.
def writex (bytes : Bytes) (writes : List WriteOutcome) : Option (Bytes × List WriteOutcome) :=
  let result := writeLoop true bytes writes
  if result.outcome = .done then some (result.written, result.writes) else none

theorem writeLoop_written (bytes : Bytes) (writes : List WriteOutcome)
    (h : (writeLoop true bytes writes).outcome = .done) :
    (writeLoop true bytes writes).written = bytes := by
  have hsplit := writeLoop_split true bytes writes
  rw [writeLoop_done true bytes writes h, List.append_nil] at hsplit
  exact hsplit

theorem writex_written {bytes stream : Bytes} {writes rest : List WriteOutcome}
    (h : writex bytes writes = some (stream, rest)) : stream = bytes := by
  unfold writex at h
  simp only at h
  split at h
  · rename_i hdone
    cases h
    exact writeLoop_written bytes writes hdone
  · cases h

end Tcp

section Usb

structure UsbHandle where
  zeroMask : UInt32

-- What AdbWriteEndpointSync returns.
inductive UsbWrite where
  | wrote (count : Nat)
  | failed

-- handle->zero_mask && (len & handle->zero_mask) == 0
def endsWithZeroLength (handle : UsbHandle) (len : Nat) : Bool :=
  handle.zeroMask ≠ 0 && UInt32.ofNat len &&& handle.zeroMask = 0

-- usb_write: the transfers that go out. Whether a zero length packet went out
-- nobody looks at.
def usbWrite (handle : Option UsbHandle) (data : Bytes) :
    List UsbWrite → Option (List Bytes × List UsbWrite)
  | .wrote written :: writes =>
      match handle with
      | none => none
      | some handle =>
          if written = data.length then
            if endsWithZeroLength handle data.length then
              match writes with
              | [] => none
              | .wrote _ :: writes => some ([data, []], writes)
              | .failed :: writes => some ([data], writes)
            else
              some ([data], writes)
          else
            none
  | .failed :: _ => none
  | [] => none

end Usb

end Adb.Wire
