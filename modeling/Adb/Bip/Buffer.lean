import Mathlib.Data.List.Basic

namespace Adb.Bip

def BIP_BUFFER_SIZE : Nat := 4096

-- BipBufferRec. The two events are manual-reset events. fdin and fdout are
-- only printed, and the lock is the atomicity of the sections below.
structure BipBuffer where
  aStart : Nat
  aEnd : Nat
  bEnd : Nat
  closed : Bool
  canWrite : Bool
  evtWrite : Bool
  canRead : Bool
  evtRead : Bool
  buff : Nat → UInt8

def bipBufferInit : BipBuffer where
  aStart := 0
  aEnd := 0
  bEnd := 0
  closed := false
  canWrite := true
  evtWrite := true
  canRead := false
  evtRead := false
  buff := fun _ => 0

-- The count bytes at a pointer, and a copy of count bytes to offset dst.
def bytesAt (p : Nat → UInt8) (offset count : Nat) : List UInt8 :=
  (List.range count).map fun i => p (offset + i)

def memcpy (buff : Nat → UInt8) (dst : Nat) (src : Nat → UInt8) (count : Nat) : Nat → UInt8 :=
  fun i => if dst ≤ i ∧ i < dst + count then src (i - dst) else buff i

-- How a call ends: it returns, it waits on its event, or an assertion fails.
inductive Outcome (α : Type) where
  | returned (value : α) (bip : BipBuffer)
  | waiting
  | assertFailed

-- The Exit label of bip_buffer_write.
def writeExit (bip : BipBuffer) (count : Nat) : Outcome Int :=
  if count > 0 then
    .returned count (if bip.canRead then bip else { bip with canRead := true, evtRead := true })
  else
    .assertFailed

-- The part of bip_buffer_write after region A is served: len bytes of src are
-- left and go to region B.
def writeRegionB (bip : BipBuffer) (src : Nat → UInt8) (count len : Nat) : Outcome Int :=
  if len = 0 then
    writeExit bip count
  else
    let avail := bip.aStart - bip.bEnd
    if avail > 0 then
      let avail := min avail len
      let bip := { bip with buff := memcpy bip.buff bip.bEnd src avail, bEnd := bip.bEnd + avail }
      let bip :=
        if bip.bEnd = bip.aStart then { bip with canWrite := false, evtWrite := false } else bip
      writeExit bip (count + avail)
    else
      .assertFailed

-- What bip_buffer_write does under the lock once can_write is set.
def writeLocked (bip : BipBuffer) (src : Nat → UInt8) (len : Nat) : Outcome Int :=
  let avail := BIP_BUFFER_SIZE - bip.aEnd
  if avail > 0 then
    let avail := min avail len
    let bip := { bip with buff := memcpy bip.buff bip.aEnd src avail, aEnd := bip.aEnd + avail }
    if bip.aEnd = BIP_BUFFER_SIZE ∧ bip.aStart = 0 then
      writeExit { bip with canWrite := false, evtWrite := false } avail
    else
      writeRegionB bip (fun i => src (avail + i)) avail (len - avail)
  else
    writeRegionB bip src 0 len

def bipBufferWrite (bip : BipBuffer) (src : Nat → UInt8) (len : Int) : Outcome Int :=
  if len ≤ 0 then .returned 0 bip
  else if bip.canWrite then writeLocked bip src len.toNat
  else .waiting

-- The Exit label of bip_buffer_read; the value is what was copied to dst.
def readExit (bip : BipBuffer) (dst : List UInt8) : Outcome (List UInt8) :=
  if dst.length > 0 then
    .returned dst (if bip.canWrite then bip else { bip with canWrite := true, evtWrite := true })
  else
    .assertFailed

-- The part of bip_buffer_read after region A is used up: region B becomes
-- region A and up to len more bytes are taken from it.
def readRegionB (bip : BipBuffer) (dst : List UInt8) (len : Nat) : Outcome (List UInt8) :=
  let bip := { bip with aStart := 0, aEnd := bip.bEnd, bEnd := 0 }
  let avail := bip.aEnd
  if avail > 0 then
    let avail := min avail len
    let dst := dst ++ bytesAt bip.buff 0 avail
    let bip := { bip with aStart := bip.aStart + avail }
    if bip.aStart < bip.aEnd then
      readExit bip dst
    else
      readExit { bip with aStart := 0, aEnd := 0, canRead := false, evtRead := false } dst
  else
    readExit { bip with canRead := false, evtRead := false } dst

-- What bip_buffer_read does under the lock once can_read is set.
def readLocked (bip : BipBuffer) (len : Nat) : Outcome (List UInt8) :=
  let avail := bip.aEnd - bip.aStart
  if avail > 0 then
    let avail := min avail len
    let dst := bytesAt bip.buff bip.aStart avail
    let bip := { bip with aStart := bip.aStart + avail }
    if bip.aStart < bip.aEnd then
      readExit bip dst
    else
      readRegionB bip dst (len - avail)
  else
    .assertFailed

def bipBufferRead (bip : BipBuffer) (len : Int) : Outcome (List UInt8) :=
  if len ≤ 0 then .returned [] bip
  else if bip.canRead then readLocked bip len.toNat
  else .waiting

end Adb.Bip
