import Mathlib.Algebra.Group.Nat.Defs
import Adb.Lib.CString
import Adb.Lib.Loop

namespace Adb.Usb

open Adb.Lib

def USB_DT_DEVICE : Nat := 1
def USB_DT_CONFIG : Nat := 2
def USB_DT_INTERFACE : Nat := 4
def USB_DT_ENDPOINT : Nat := 5

def USB_DT_DEVICE_SIZE : Nat := 18
def USB_DT_CONFIG_SIZE : Nat := 9
def USB_DT_INTERFACE_SIZE : Nat := 9
def USB_DT_ENDPOINT_SIZE : Nat := 7

def USB_ENDPOINT_XFER_BULK : Nat := 2
def USB_ENDPOINT_DIR_MASK : Nat := 0x80

def ADB_CLASS : Nat := 0xff
def ADB_SUBCLASS : Nat := 0x42
def ADB_PROTOCOL : Nat := 1

-- sizeof(devdesc)
def DEVDESC_SIZE : Nat := 4096

-- The first entry of vendorIds that is the vid decides.
def isAdbInterface (vendorIds : List Nat) (vid usbClass usbSubclass usbProtocol : Nat) : Bool :=
  match vendorIds.find? (vid = ·) with
  | some _ => usbClass = ADB_CLASS ∧ usbSubclass = ADB_SUBCLASS ∧ usbProtocol = ADB_PROTOCOL
  | none => false

-- A read of the byte at an index of what is filled of devdesc, and of a little endian
-- field of two bytes.
def peek (data : List UInt8) (p : Nat) : Except MemoryFault Nat :=
  match data[p]? with
  | some c => .ok c.toNat
  | none => .error .overread

def peek16 (data : List UInt8) (p : Nat) : Except MemoryFault Nat := do
  let low ← peek data p
  let high ← peek data (p + 1)
  return low + 256 * high

-- What register_device_callback is called with, besides the two names.
structure UsbMatch where
  epIn : Nat
  epOut : Nat
  ifc : Nat
  serialIndex : Nat
  zeroMask : Nat
deriving DecidableEq

-- The vid and the pid of the two descriptors that come first, if they are what they
-- have to be.
def readHeader (data : List UInt8) : Except MemoryFault (Option (Nat × Nat)) := do
  let bLength ← peek data 0
  let bDescriptorType ← peek data 1
  if bLength ≠ USB_DT_DEVICE_SIZE ∨ bDescriptorType ≠ USB_DT_DEVICE then
    return none
  else
    let vid ← peek16 data 8
    let pid ← peek16 data 10
    let bLength ← peek data USB_DT_DEVICE_SIZE
    let bDescriptorType ← peek data (USB_DT_DEVICE_SIZE + 1)
    if bLength ≠ USB_DT_CONFIG_SIZE ∨ bDescriptorType ≠ USB_DT_CONFIG then
      return none
    else
      return some (vid, pid)

def isEndpoint (data : List UInt8) (ep : Nat) : Except MemoryFault Bool := do
  let bLength ← peek data ep
  let bDescriptorType ← peek data (ep + 1)
  return bLength = USB_DT_ENDPOINT_SIZE ∧ bDescriptorType = USB_DT_ENDPOINT

-- What is registered of an interface and its two endpoints.
def matchOf (data : List UInt8) (interface ep1 ep2 : Nat) : Except MemoryFault UsbMatch := do
  let bInterfaceProtocol ← peek data (interface + 7)
  let wMaxPacketSize ← peek16 data (ep1 + 4)
  let address1 ← peek data (ep1 + 2)
  let address2 ← peek data (ep2 + 2)
  let bInterfaceNumber ← peek data (interface + 2)
  let iSerialNumber ← peek data 16
  -- aproto 01 needs 0 termination
  let zeroMask := if bInterfaceProtocol = 1 then (wMaxPacketSize + (2 ^ 32 - 1)) % 2 ^ 32 else 0
  if address1 &&& USB_ENDPOINT_DIR_MASK ≠ 0 then
    return ⟨address1, address2, bInterfaceNumber, iSerialNumber, zeroMask⟩
  else
    return ⟨address2, address1, bInterfaceNumber, iSerialNumber, zeroMask⟩

-- The endpoints that have to come behind an interface. Left: where bufptr goes on.
def scanEndpoints (data : List UInt8) (desclength interface : Nat) :
    Except MemoryFault (Nat ⊕ Option UsbMatch) :=
  let ep1 := interface + USB_DT_INTERFACE_SIZE
  let ep2 := ep1 + USB_DT_ENDPOINT_SIZE
  let bufptr := ep2 + USB_DT_ENDPOINT_SIZE
  if desclength < bufptr then
    return .inr none
  else do
    let found1 ← isEndpoint data ep1
    let found2 ← isEndpoint data ep2
    if ¬(found1 ∧ found2) then
      return .inr none
    else
      let bmAttributes1 ← peek data (ep1 + 3)
      let bmAttributes2 ← peek data (ep2 + 3)
      if bmAttributes1 ≠ USB_ENDPOINT_XFER_BULK ∨ bmAttributes2 ≠ USB_ENDPOINT_XFER_BULK then
        return .inl bufptr
      else
        let found ← matchOf data interface ep1 ep2
        return .inr (some found)

-- An interface, and behind it what has to come there if it is one of adb.
def scanInterface (vendorIds : List Nat) (data : List UInt8)
    (desclength vid length interface : Nat) :
    Except MemoryFault (Nat ⊕ Option UsbMatch) :=
  if length ≠ USB_DT_INTERFACE_SIZE then
    return .inr none
  else do
    let bNumEndpoints ← peek data (interface + 4)
    if bNumEndpoints = 2 then
      let bInterfaceClass ← peek data (interface + 5)
      let bInterfaceSubClass ← peek data (interface + 6)
      let bInterfaceProtocol ← peek data (interface + 7)
      if isAdbInterface vendorIds vid bInterfaceClass bInterfaceSubClass bInterfaceProtocol then
        scanEndpoints data desclength interface
      else
        return .inl (interface + length)
    else
      return .inl (interface + length)

-- One turn of the loop through all the descriptors.
def scanRecord (vendorIds : List Nat) (data : List UInt8) (desclength vid bufptr : Nat) :
    Except MemoryFault (Nat ⊕ Option UsbMatch) :=
  if bufptr < desclength then do
    let length ← peek data bufptr
    let type ← peek data (bufptr + 1)
    if type = USB_DT_INTERFACE then
      scanInterface vendorIds data desclength vid length bufptr
    else
      return .inl (bufptr + length)
  else
    return .inr none

-- What find_usb_device does with a device that it can open. A node that cannot be read
-- is none: -1 is then a very large desclength. none as a result: the loop goes on.
def findUsbDevice (vendorIds : List Nat) (fuel : Nat) (node : Option (List UInt8)) :
    Option (Except MemoryFault (Option UsbMatch)) :=
  let devdesc := (node.getD []).take DEVDESC_SIZE
  let desclength := if node.isSome then devdesc.length else 2 ^ 64 - 1
  if desclength < USB_DT_DEVICE_SIZE + USB_DT_CONFIG_SIZE then
    some (.ok none)
  else
    match readHeader devdesc with
    | .error e => some (.error e)
    | .ok none => some (.ok none)
    | .ok (some (vid, _)) =>
        loop (scanRecord vendorIds devdesc desclength vid) fuel
          (USB_DT_DEVICE_SIZE + USB_DT_CONFIG_SIZE)

-- The scan comes to its end and reads nothing but what is filled.
def ScanRight (vendorIds : List Nat) (node : Option (List UInt8)) : Prop :=
  ∃ fuel found, findUsbDevice vendorIds fuel node = some (.ok found)

section Records

variable (vendorIds : List Nat) (data : List UInt8)

-- The bytes as they are numbered, 0 behind the last one.
def byteAt (p : Nat) : Nat := (data.getD p 0).toNat

def vidOf : Nat := byteAt data 8 + 256 * byteAt data 9

-- The two descriptors that are looked for first.
def HeaderAccepted : Prop :=
  USB_DT_DEVICE_SIZE + USB_DT_CONFIG_SIZE ≤ data.length ∧
    (byteAt data 0 = USB_DT_DEVICE_SIZE ∧ byteAt data 1 = USB_DT_DEVICE) ∧
      byteAt data 18 = USB_DT_CONFIG_SIZE ∧ byteAt data 19 = USB_DT_CONFIG

def EndpointAt (p : Nat) : Prop :=
  byteAt data p = USB_DT_ENDPOINT_SIZE ∧ byteAt data (p + 1) = USB_DT_ENDPOINT

def BulkAt (p : Nat) : Prop := byteAt data (p + 3) = USB_ENDPOINT_XFER_BULK

def AdbInterfaceAt (p : Nat) : Prop :=
  byteAt data (p + 4) = 2 ∧
    isAdbInterface vendorIds (vidOf data) (byteAt data (p + 5)) (byteAt data (p + 6))
      (byteAt data (p + 7)) = true

instance : Decidable (HeaderAccepted data) := inferInstanceAs (Decidable (_ ∧ _))
instance : DecidablePred (EndpointAt data) := fun _ => inferInstanceAs (Decidable (_ ∧ _))
instance : DecidablePred (BulkAt data) := fun _ => inferInstanceAs (Decidable (_ = _))
instance : DecidablePred (AdbInterfaceAt vendorIds data) :=
  fun _ => inferInstanceAs (Decidable (_ ∧ _))

-- Where the scan goes on behind an interface of adb. none: it has come to its end.
def nextOfEndpoints (p : Nat) : Option Nat :=
  if p + 23 ≤ data.length ∧ EndpointAt data (p + 9) ∧ EndpointAt data (p + 16) ∧
      ¬(BulkAt data (p + 9) ∧ BulkAt data (p + 16)) then
    some (p + 23)
  else
    none

def nextOfInterface (p : Nat) : Option Nat :=
  if byteAt data p ≠ USB_DT_INTERFACE_SIZE then none
  else if AdbInterfaceAt vendorIds data p then nextOfEndpoints data p
  else some (p + byteAt data p)

def nextRecord (p : Nat) : Option Nat :=
  if byteAt data (p + 1) = USB_DT_INTERFACE then nextOfInterface vendorIds data p
    else some (p + byteAt data p)

-- The places where a descriptor is looked for.
def Visited : Nat → Prop :=
  Relation.ReflTransGen (fun p q => p < data.length ∧ nextRecord vendorIds data p = some q)
    (USB_DT_DEVICE_SIZE + USB_DT_CONFIG_SIZE)

-- What is read of a descriptor is there, and its length leads away from it.
structure RecordInside (p : Nat) : Prop where
  header : p + 2 ≤ data.length
  moves : byteAt data (p + 1) ≠ USB_DT_INTERFACE → byteAt data p ≠ 0
  interface : byteAt data (p + 1) = USB_DT_INTERFACE → byteAt data p = USB_DT_INTERFACE_SIZE →
    p + 5 ≤ data.length ∧ (byteAt data (p + 4) = 2 → p + 8 ≤ data.length)

-- The descriptors of a device, up to the place where the scan ends.
def DescriptorsInside (node : Option (List UInt8)) : Prop :=
  ∃ bytes, node = some bytes ∧
    (HeaderAccepted (bytes.take DEVDESC_SIZE) → ∀ p, Visited vendorIds (bytes.take DEVDESC_SIZE) p →
      p < (bytes.take DEVDESC_SIZE).length → RecordInside (bytes.take DEVDESC_SIZE) p)

end Records

section Turn

variable {vendorIds : List Nat} {data : List UInt8} {p : Nat}

theorem peek_filled (h : p < data.length) : peek data p = .ok (byteAt data p) := by
  simp [peek, byteAt, h]

theorem peek_behind (h : data.length ≤ p) : peek data p = .error .overread := by
  simp [peek, h]

theorem peek16_filled (h : p + 1 < data.length) :
    peek16 data p = .ok (byteAt data p + 256 * byteAt data (p + 1)) := by
  simp only [peek16, peek_filled h, peek_filled (show p < data.length by omega), bind, Except.bind,
    pure, Except.pure]

theorem isEndpoint_filled (h : p + 1 < data.length) :
    isEndpoint data p = .ok (decide (EndpointAt data p)) := by
  simp only [isEndpoint, peek_filled h, peek_filled (show p < data.length by omega), bind,
    Except.bind, pure, Except.pure]
  rfl

theorem matchOf_filled (h : p + 23 ≤ data.length) :
    ∃ found, matchOf data p (p + 9) (p + 16) = .ok found := by
  simp (disch := omega) only [matchOf, peek_filled, peek16_filled, bind, Except.bind,
    pure, Except.pure]
  split <;> exact ⟨_, rfl⟩

theorem readHeader_filled (h : USB_DT_DEVICE_SIZE + USB_DT_CONFIG_SIZE ≤ data.length) :
    ∃ pid, readHeader data =
      .ok (if HeaderAccepted data then some (vidOf data, pid) else none) := by
  have hlen : 27 ≤ data.length := h
  have hplace : USB_DT_DEVICE_SIZE + 1 < data.length := show 19 < data.length by omega
  refine ⟨byteAt data 10 + 256 * byteAt data 11, ?_⟩
  simp (disch := omega) only [readHeader, peek_filled, peek16_filled, bind, Except.bind, pure,
    Except.pure, ne_eq, ← not_and_or, ite_not]
  by_cases hdevice : byteAt data 0 = USB_DT_DEVICE_SIZE ∧ byteAt data 1 = USB_DT_DEVICE
  · rw [if_pos hdevice]
    by_cases hconfig : byteAt data 18 = USB_DT_CONFIG_SIZE ∧ byteAt data 19 = USB_DT_CONFIG
    · exact (if_pos hconfig).trans
        (by rw [if_pos (show HeaderAccepted data from ⟨h, hdevice, hconfig⟩)]; rfl)
    · rw [if_neg fun haccepted : HeaderAccepted data => hconfig haccepted.2.2]
      exact if_neg hconfig
  · rw [if_neg hdevice, if_neg fun haccepted : HeaderAccepted data => hdevice haccepted.2.1]

-- The turn that the bytes say.
def turnOf (found : Option UsbMatch) : Option Nat → Nat ⊕ Option UsbMatch
  | some q => .inl q
  | none => .inr found

theorem scanEndpoints_filled : ∃ found, scanEndpoints data data.length p =
    .ok (turnOf found (nextOfEndpoints data p)) := by
  unfold scanEndpoints
  simp only [USB_DT_INTERFACE_SIZE, USB_DT_ENDPOINT_SIZE, Nat.add_assoc, Nat.reduceAdd]
  by_cases hbehind : data.length < p + 23
  · exact ⟨none, by rw [if_pos hbehind, nextOfEndpoints, if_neg fun h => by omega]; rfl⟩
  · have hinside : p + 23 ≤ data.length := by omega
    obtain ⟨found, hfound⟩ := matchOf_filled hinside
    rw [if_neg hbehind]
    simp (disch := omega) only [isEndpoint_filled, peek_filled, hfound, bind, Except.bind,
      pure, Except.pure, decide_eq_true_eq, ne_eq, ← not_and_or, ite_not]
    by_cases hends : EndpointAt data (p + 9) ∧ EndpointAt data (p + 16)
    · rw [if_pos hends]
      by_cases hbulk : BulkAt data (p + 9) ∧ BulkAt data (p + 16)
      · refine ⟨some found, (if_pos hbulk).trans ?_⟩
        rw [nextOfEndpoints, if_neg fun h => h.2.2.2 hbulk]
        rfl
      · refine ⟨none, (if_neg hbulk).trans ?_⟩
        rw [nextOfEndpoints, if_pos ⟨hinside, hends.1, hends.2, hbulk⟩]
        rfl
    · refine ⟨none, ?_⟩
      rw [if_neg hends, nextOfEndpoints, if_neg fun h => hends ⟨h.2.1, h.2.2.1⟩]
      rfl

theorem scanInterface_inside (h : RecordInside data p)
    (htype : byteAt data (p + 1) = USB_DT_INTERFACE) :
    ∃ found, scanInterface vendorIds data data.length (vidOf data) (byteAt data p) p =
      .ok (turnOf found (nextOfInterface vendorIds data p)) := by
  unfold scanInterface nextOfInterface
  by_cases hlength : byteAt data p = USB_DT_INTERFACE_SIZE
  · obtain ⟨hcount, hclass⟩ := h.interface htype hlength
    rw [if_neg (not_not.mpr hlength), if_neg (not_not.mpr hlength),
      peek_filled (show p + 4 < data.length by omega)]
    simp only [bind, Except.bind, pure, Except.pure]
    by_cases htwo : byteAt data (p + 4) = 2
    · have hprotocol := hclass htwo
      simp (disch := omega) only [peek_filled, htwo, if_true]
      split
      · rw [if_pos ⟨htwo, ‹_›⟩]
        exact scanEndpoints_filled
      · exact ⟨none, by rw [if_neg fun h => ‹¬_› h.2]; rfl⟩
    · exact ⟨none, by rw [if_neg htwo, if_neg fun h => htwo h.1]; rfl⟩
  · exact ⟨none, by rw [if_pos hlength, if_pos hlength]; rfl⟩

theorem scanRecord_inside (vendorIds : List Nat) (hp : p < data.length) (h : RecordInside data p) :
    ∃ found, scanRecord vendorIds data data.length (vidOf data) p =
      .ok (turnOf found (nextRecord vendorIds data p)) := by
  have hheader := h.header
  unfold scanRecord nextRecord
  rw [if_pos hp, peek_filled hp, peek_filled (show p + 1 < data.length by omega)]
  simp only [bind, Except.bind, pure, Except.pure]
  by_cases htype : byteAt data (p + 1) = USB_DT_INTERFACE
  · rw [if_pos htype, if_pos htype]
    exact scanInterface_inside h htype
  · exact ⟨none, by rw [if_neg htype, if_neg htype]; rfl⟩

theorem scanRecord_next {q : Nat} (hp : p < data.length) (h : RecordInside data p)
    (hturn : scanRecord vendorIds data data.length (vidOf data) p = .ok (.inl q)) :
    nextRecord vendorIds data p = some q := by
  obtain ⟨found, hinside⟩ := scanRecord_inside vendorIds hp h
  rw [hturn] at hinside
  cases hnext : nextRecord vendorIds data p with
  | none =>
      rw [hnext] at hinside
      cases hinside
  | some next =>
      rw [hnext] at hinside
      cases hinside
      rfl

theorem scanInterface_outside {vid : Nat} (hlength : byteAt data p = USB_DT_INTERFACE_SIZE)
    (h : data.length ≤ p + 4 ∨ byteAt data (p + 4) = 2 ∧ data.length < p + 8) :
    ∃ e, scanInterface vendorIds data data.length vid (byteAt data p) p = .error e := by
  refine ⟨.overread, ?_⟩
  unfold scanInterface
  rw [if_neg (not_not.mpr hlength)]
  obtain hcount | hcount := Nat.lt_or_ge (p + 4) data.length
  · obtain ⟨htwo, hend⟩ := h.resolve_left (by omega)
    rw [peek_filled hcount]
    simp only [bind, Except.bind, htwo, if_true]
    obtain hclass | hclass := Nat.lt_or_ge (p + 5) data.length
    · obtain hsub | hsub := Nat.lt_or_ge (p + 6) data.length
      · rw [peek_filled hclass, peek_filled hsub, peek_behind (show data.length ≤ p + 7 by omega)]
      · rw [peek_filled hclass, peek_behind hsub]
    · rw [peek_behind hclass]
  · rw [peek_behind hcount]
    rfl

-- A descriptor that is cut off is read behind the end, and one without a length is
-- come to again.
theorem scanRecord_outside (vendorIds : List Nat) (hp : p < data.length)
    (h : ¬RecordInside data p) :
    (∃ e, scanRecord vendorIds data data.length (vidOf data) p = .error e) ∨
      scanRecord vendorIds data data.length (vidOf data) p = .ok (.inl p) := by
  unfold scanRecord
  rw [if_pos hp, peek_filled hp]
  obtain hheader | hheader := Nat.lt_or_ge (p + 1) data.length
  · rw [peek_filled hheader]
    simp only [bind, Except.bind, pure, Except.pure]
    by_cases htype : byteAt data (p + 1) = USB_DT_INTERFACE
    · left
      rw [if_pos htype]
      by_cases hlength : byteAt data p = USB_DT_INTERFACE_SIZE
      · refine scanInterface_outside hlength ?_
        by_contra hread
        rw [not_or, not_and] at hread
        exact h ⟨by omega, fun hne => absurd htype hne, fun _ _ =>
          ⟨by omega, fun htwo => Nat.not_lt.mp (hread.2 htwo)⟩⟩
      · exact absurd ⟨by omega, fun hne => absurd htype hne, fun _ heq => absurd heq hlength⟩ h
    · right
      have hzero : byteAt data p = 0 := by
        by_contra hne
        exact h ⟨by omega, fun _ => hne, fun heq => absurd heq htype⟩
      rw [if_neg htype, hzero]
      rfl
  · exact .inl ⟨_, by rw [peek_behind hheader]; rfl⟩

theorem nextRecord_lt {q : Nat} (h : RecordInside data p)
    (hnext : nextRecord vendorIds data p = some q) :
    p < q := by
  unfold nextRecord nextOfInterface nextOfEndpoints at hnext
  split at hnext
  · split at hnext
    · cases hnext
    · have hlength : byteAt data p = 9 := not_not.mp ‹_›
      split at hnext
      · split at hnext <;> cases hnext
        omega
      · cases hnext
        omega
  · have hlength := h.moves ‹_›
    cases hnext
    omega

theorem scanRecord_moves {q : Nat}
    (h : scanRecord vendorIds data data.length (vidOf data) p = .ok (.inl q)) :
    q = p ∨ data.length - q < data.length - p := by
  by_cases hp : p < data.length
  · by_cases hinside : RecordInside data p
    · have hmoves := nextRecord_lt hinside (scanRecord_next hp hinside h)
      omega
    · obtain ⟨e, hfails⟩ | hstalls := scanRecord_outside vendorIds hp hinside
      · rw [h] at hfails
        cases hfails
      · rw [h] at hstalls
        cases hstalls
        exact .inl rfl
  · rw [scanRecord, if_neg hp] at h
    cases h

end Turn

section Scan

variable {vendorIds : List Nat} {data : List UInt8} {p : Nat}

theorem comesTo_visited
    (h : ∀ p, Visited vendorIds data p → p < data.length → RecordInside data p)
    (hcomes : ComesTo (scanRecord vendorIds data data.length (vidOf data)) 27 p) :
    Visited vendorIds data p := by
  induction hcomes with
  | refl => exact Relation.ReflTransGen.refl
  | @tail p q _ hturn ih =>
      have hp : p < data.length := by
        by_contra hend
        rw [scanRecord, if_neg hend] at hturn
        cases hturn
      exact ih.tail ⟨hp, scanRecord_next hp (h p ih hp) hturn⟩

theorem visited_comesTo
    (h : ∀ p, ComesTo (scanRecord vendorIds data data.length (vidOf data)) 27 p →
      (∃ r, scanRecord vendorIds data data.length (vidOf data) p = .ok r) ∧
        scanRecord vendorIds data data.length (vidOf data) p ≠ .ok (.inl p))
    (hvisited : Visited vendorIds data p) :
    ComesTo (scanRecord vendorIds data data.length (vidOf data)) 27 p ∧
      (p < data.length → RecordInside data p) := by
  have hinside (p : Nat)
      (hcomes : ComesTo (scanRecord vendorIds data data.length (vidOf data)) 27 p)
      (hp : p < data.length) : RecordInside data p := by
    by_contra hout
    obtain ⟨⟨r, hturn⟩, hmoves⟩ := h p hcomes
    obtain ⟨e, hfails⟩ | hstalls := scanRecord_outside vendorIds hp hout
    · rw [hturn] at hfails
      cases hfails
    · exact hmoves hstalls
  induction hvisited with
  | refl => exact ⟨Relation.ReflTransGen.refl, hinside _ Relation.ReflTransGen.refl⟩
  | @tail p q _ hnext ih =>
      obtain ⟨found, hturn⟩ := scanRecord_inside vendorIds hnext.1 (ih.2 hnext.1)
      rw [hnext.2] at hturn
      have hcomes := ih.1.tail hturn
      exact ⟨hcomes, hinside q hcomes⟩

-- The loop comes to its end exactly where every descriptor it looks for is there.
theorem scan_ends_iff :
    (∃ fuel found, loop (scanRecord vendorIds data data.length (vidOf data)) fuel 27 =
      some (.ok found)) ↔
      ∀ p, Visited vendorIds data p → p < data.length → RecordInside data p := by
  rw [loop_ok_iff (fun p => data.length - p) fun _ _ => scanRecord_moves]
  constructor
  · exact fun h p hvisited => (visited_comesTo h hvisited).2
  · intro h p hcomes
    have hvisited := comesTo_visited h hcomes
    by_cases hp : p < data.length
    · have hinside := h p hvisited hp
      obtain ⟨found, hturn⟩ := scanRecord_inside vendorIds hp hinside
      exact ⟨⟨_, hturn⟩, fun hstall => lt_irrefl p
        (nextRecord_lt hinside (scanRecord_next hp hinside hstall))⟩
    · rw [scanRecord, if_neg hp]
      exact ⟨⟨_, rfl⟩, fun hturn => by cases hturn⟩

theorem findUsbDevice_short (bytes : List UInt8) (fuel : Nat)
    (h : ¬USB_DT_DEVICE_SIZE + USB_DT_CONFIG_SIZE ≤ (bytes.take DEVDESC_SIZE).length) :
    findUsbDevice vendorIds fuel (some bytes) = some (.ok none) :=
  if_pos (Nat.not_le.mp h)

theorem findUsbDevice_filled (bytes : List UInt8)
    (h : USB_DT_DEVICE_SIZE + USB_DT_CONFIG_SIZE ≤ (bytes.take DEVDESC_SIZE).length) (fuel : Nat) :
    findUsbDevice vendorIds fuel (some bytes) =
      if HeaderAccepted (bytes.take DEVDESC_SIZE) then
        loop (scanRecord vendorIds (bytes.take DEVDESC_SIZE) (bytes.take DEVDESC_SIZE).length
          (vidOf (bytes.take DEVDESC_SIZE))) fuel 27
      else some (.ok none) := by
  obtain ⟨pid, hheader⟩ := readHeader_filled h
  refine (if_neg (Nat.not_lt.mpr h)).trans ?_
  simp only [Option.getD_some, hheader]
  by_cases haccepted : HeaderAccepted (bytes.take DEVDESC_SIZE)
  · simp only [haccepted, if_true]
    rfl
  · simp only [haccepted, if_false]

-- The scan of a device is right exactly where the descriptors it looks for lie inside
-- of what the node has given.
theorem find_usb_device_right_iff (vendorIds : List Nat) (node : Option (List UInt8)) :
    ScanRight vendorIds node ↔ DescriptorsInside vendorIds node := by
  cases node with
  | none =>
      constructor
      · intro ⟨fuel, found, hscan⟩
        cases hscan
      · intro ⟨bytes, hnode, _⟩
        cases hnode
  | some bytes =>
      unfold ScanRight DescriptorsInside
      simp only [Option.some.injEq, exists_eq_left']
      by_cases hfilled : USB_DT_DEVICE_SIZE + USB_DT_CONFIG_SIZE ≤ (bytes.take DEVDESC_SIZE).length
      · simp only [findUsbDevice_filled bytes hfilled]
        by_cases haccepted : HeaderAccepted (bytes.take DEVDESC_SIZE)
        · simp only [haccepted, if_true, true_implies]
          exact scan_ends_iff
        · simp only [haccepted, if_false, false_implies, iff_true]
          exact ⟨0, none, rfl⟩
      · exact iff_of_true ⟨0, none, findUsbDevice_short bytes 0 hfilled⟩ fun haccepted =>
          absurd haccepted.1 hfilled

-- A descriptor of length 0 behind the two that come first: the cursor stays on it.
def stallingDescriptors : List UInt8 :=
  [18, 1, 0, 2, 0, 0, 0, 64, 0xd1, 0x18, 2, 0x4e, 0, 1, 1, 2, 3, 1] ++
    [9, 2, 32, 0, 1, 1, 0, 128, 50] ++ [0, 5]

theorem zero_length_stalls_the_scan : ¬∀ vendorIds bytes, ScanRight vendorIds (some bytes) := by
  intro h
  obtain ⟨fuel, found, hscan⟩ := h [] stallingDescriptors
  have hstall : loop (scanRecord [] stallingDescriptors 29 (vidOf stallingDescriptors))
      fuel 27 = none :=
    loop_stalls rfl
  exact absurd (hstall.symm.trans hscan) nofun

end Scan

end Adb.Usb
