import Adb.Host.State
import Adb.Lib.Words

namespace Adb.Wire

open Adb.Lib
open Adb.Host (Bytes MAX_PAYLOAD Message)

structure AMessage where
  command : UInt32
  arg0 : UInt32
  arg1 : UInt32
  dataLength : UInt32
  dataCheck : UInt32
  magic : UInt32
deriving DecidableEq

-- sizeof(amessage)
def AMessage.SIZE : Nat := 24

-- The words of an amessage as they lie in memory. fix_endians does nothing on a
-- little-endian machine.
def AMessage.toBytes (m : AMessage) : Bytes :=
  word32 m.command ++ word32 m.arg0 ++ word32 m.arg1 ++ word32 m.dataLength ++ word32 m.dataCheck ++
    word32 m.magic

def AMessage.ofBytes (bytes : Bytes) : AMessage where
  command := ofWord32 (bytes.take 4)
  arg0 := ofWord32 ((bytes.drop 4).take 4)
  arg1 := ofWord32 ((bytes.drop 8).take 4)
  dataLength := ofWord32 ((bytes.drop 12).take 4)
  dataCheck := ofWord32 ((bytes.drop 16).take 4)
  magic := ofWord32 ((bytes.drop 20).take 4)

-- An apacket; data is the whole array.
structure APacket where
  msg : AMessage
  data : Bytes
  whole : data.length = MAX_PAYLOAD

def APacket.payload (p : APacket) : Bytes := p.data.take p.msg.dataLength.toNat

def APacket.setMsg (p : APacket) (bytes : Bytes) : APacket := { p with msg := AMessage.ofBytes bytes }

-- A write to the array from its start on. none: it is longer than the array.
def APacket.setData (p : APacket) (bytes : Bytes) : Option APacket :=
  if h : bytes.length ≤ MAX_PAYLOAD then
    some { p with
      data := bytes ++ p.data.drop bytes.length
      whole := by rw [List.length_append, List.length_drop, p.whole]; omega }
  else
    none

-- What send_packet fills in.
def sendPacket (p : APacket) : APacket :=
  { p with msg := { p.msg with
      magic := p.msg.command ^^^ 0xffffffff
      dataCheck := byteSum p.payload } }

def checkHeader (p : APacket) : Int :=
  if p.msg.magic ≠ p.msg.command ^^^ 0xffffffff then -1
  else if p.msg.dataLength.toNat > MAX_PAYLOAD then -1
  else 0

def checkData (p : APacket) : Int :=
  if byteSum p.payload ≠ p.msg.dataCheck then -1 else 0

-- The bytes of the msg field and of the payload behind it.
def APacket.wire (p : APacket) : Bytes := p.msg.toBytes ++ p.payload

section Header

variable {p : APacket} {bytes : Bytes}

@[simp] theorem AMessage.length_toBytes (m : AMessage) : m.toBytes.length = AMessage.SIZE := by
  simp [AMessage.toBytes, AMessage.SIZE]

theorem AMessage.ofBytes_toBytes (m : AMessage) : AMessage.ofBytes m.toBytes = m := by
  simp [AMessage.ofBytes, AMessage.toBytes, List.drop_append,
    List.drop_eq_nil_of_le, List.take_of_length_le]

@[simp] theorem sendPacket_payload (p : APacket) : (sendPacket p).payload = p.payload := rfl

theorem checkHeader_eq_zero :
    checkHeader p = 0 ↔ p.msg.magic = p.msg.command ^^^ 0xffffffff ∧
      p.msg.dataLength.toNat ≤ MAX_PAYLOAD := by
  unfold checkHeader
  split
  · rename_i hmagic
    simp [hmagic]
  · rename_i hmagic
    rw [not_not] at hmagic
    split <;> simp [hmagic] <;> omega

theorem checkData_eq_zero :
    checkData p = 0 ↔ p.msg.dataCheck.toNat = (p.payload.map UInt8.toNat).sum % 2 ^ 32 := by
  rw [← byteSum_toNat, UInt32.toNat_inj]
  unfold checkData
  split
  · rename_i hsum
    simp [Ne.symm hsum]
  · rename_i hsum
    rw [not_not] at hsum
    simp [hsum]

theorem APacket.length_payload (h : p.msg.dataLength.toNat ≤ MAX_PAYLOAD) :
    p.payload.length = p.msg.dataLength.toNat := by
  rw [APacket.payload, List.length_take, p.whole, Nat.min_eq_left h]

theorem APacket.setData_some (h : bytes.length ≤ MAX_PAYLOAD) :
    ∃ q, p.setData bytes = some q ∧ q.msg = p.msg ∧ q.data.take bytes.length = bytes := by
  refine ⟨_, dif_pos h, rfl, ?_⟩
  exact List.take_left

-- What of a stream makes a packet that is accepted.
structure Acceptable (stream : Bytes) : Prop where
  header : AMessage.SIZE ≤ stream.length
  magic : (AMessage.ofBytes (stream.take AMessage.SIZE)).magic =
    (AMessage.ofBytes (stream.take AMessage.SIZE)).command ^^^ 0xffffffff
  short : (AMessage.ofBytes (stream.take AMessage.SIZE)).dataLength.toNat ≤ MAX_PAYLOAD
  payload : AMessage.SIZE + (AMessage.ofBytes (stream.take AMessage.SIZE)).dataLength.toNat ≤ stream.length
  check : (AMessage.ofBytes (stream.take AMessage.SIZE)).dataCheck.toNat =
    (((stream.drop AMessage.SIZE).take
      (AMessage.ofBytes (stream.take AMessage.SIZE)).dataLength.toNat).map UInt8.toNat).sum % 2 ^ 32

theorem take_wire (p : APacket) (more : Bytes) : (p.wire ++ more).take AMessage.SIZE = p.msg.toBytes := by
  rw [APacket.wire, List.append_assoc, List.take_left' p.msg.length_toBytes]

theorem drop_wire (p : APacket) (more : Bytes) :
    (p.wire ++ more).drop AMessage.SIZE = p.payload ++ more := by
  rw [APacket.wire, List.append_assoc, List.drop_left' p.msg.length_toBytes]

theorem length_wire (h : p.msg.dataLength.toNat ≤ MAX_PAYLOAD) :
    p.wire.length = AMessage.SIZE + p.msg.dataLength.toNat := by
  rw [APacket.wire, List.length_append, AMessage.length_toBytes, APacket.length_payload h]

-- A packet that went through send_packet, and whatever follows.
theorem acceptable_wire (h : p.msg.dataLength.toNat ≤ MAX_PAYLOAD) (more : Bytes) :
    Acceptable ((sendPacket p).wire ++ more) := by
  have hlen : (sendPacket p).wire.length = AMessage.SIZE + p.msg.dataLength.toNat :=
    length_wire (p := sendPacket p) h
  have hmsg : AMessage.ofBytes (((sendPacket p).wire ++ more).take AMessage.SIZE) = (sendPacket p).msg := by
    rw [take_wire, AMessage.ofBytes_toBytes]
  have hpayload : (((sendPacket p).wire ++ more).drop AMessage.SIZE).take p.msg.dataLength.toNat =
      p.payload := by
    rw [drop_wire, sendPacket_payload, List.take_left' (APacket.length_payload h)]
  constructor
  · rw [List.length_append]
    omega
  · rw [hmsg]
    rfl
  · rw [hmsg]
    exact h
  · rw [hmsg, List.length_append, hlen]
    exact Nat.le_add_right _ _
  · rw [hmsg]
    show (byteSum p.payload).toNat = _
    rw [← hpayload, byteSum_toNat]
    rfl

end Header

end Adb.Wire
