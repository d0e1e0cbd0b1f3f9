import Mathlib.Logic.Function.Basic
import Adb.Lib.Ensures
import Adb.Lib.Run

namespace Adb.Usb

open Adb.Lib

-- A usb_handle. Its links say whether it is in handle_list; NULL is none.
structure UsbHandle where
  adbInterface : Option Nat
  adbReadPipe : Option Nat
  adbWritePipe : Option Nat
  interfaceName : Option (List UInt8)
deriving DecidableEq

-- What happens to a handle of the driver: CloseHandle, or it is read from, written
-- to or asked for something.
inductive HandleEvent where
  | closed (handle : Nat)
  | used (handle : Nat)
deriving DecidableEq

-- What ends the program: a usb_handle that is not there any more, and a field of one
-- that malloc has left as it was.
inductive UsbFault where
  | freed
  | uninitialised

-- A handle of the driver is its number, in the order of their creation. No address
-- of a usb_handle is given out twice.
structure UsbState where
  heap : Nat → Option UsbHandle
  fresh : Nat
  handleList : List Nat
  adbHandle : Option Nat
  created : Nat
  log : List HandleEvent

def usbInit : UsbState := ⟨fun _ => none, 0, [], none, 0, []⟩

namespace UsbState

def logged (st : UsbState) (event : HandleEvent) : UsbState := { st with log := st.log ++ [event] }

-- A call of the driver's interface with a handle, which may be NULL.
def uses (st : UsbState) (handle : Option Nat) : UsbState :=
  match handle with
  | some h => st.logged (.used h)
  | none => st

def store (st : UsbState) (usb : Nat) (content : Option UsbHandle) : UsbState :=
  { st with heap := Function.update st.heap usb content }

end UsbState

-- CreateFile succeeds or fails.
def adbCreateInterfaceByName (st : UsbState) (creates : Bool) : Option Nat × UsbState :=
  if creates then (some st.created, { st with adbHandle := some st.created, created := st.created + 1 })
  else (none, { st with adbHandle := none })

def adbOpenDefaultBulkReadEndpoint (st : UsbState) : Option Nat := st.adbHandle

def adbOpenDefaultBulkWriteEndpoint (st : UsbState) : Option Nat := st.adbHandle

-- "custom interface", for every interface
def adbGetInterfaceName : List UInt8 :=
  [99, 117, 115, 116, 111, 109, 32, 105, 110, 116, 101, 114, 102, 97, 99, 101]

def adbCloseHandle (st : UsbState) (handle : Option Nat) : UsbState :=
  match handle with
  | some h => st.logged (.closed h)
  | none => st

def lower (c : UInt8) : UInt8 := if 65 ≤ c ∧ c ≤ 90 then c + 32 else c

-- _stricmp
def stricmpEq (a b : List UInt8) : Bool := a.map lower = b.map lower

-- The name of an entry of the list matches, if it has one.
def hasName (devName : List UInt8) : Option UsbHandle → Bool
  | some ⟨_, _, _, some name⟩ => stricmpEq name devName
  | _ => false

def knownDeviceLocked (st : UsbState) (devName : List UInt8) : Bool :=
  st.handleList.any fun usb => hasName devName (st.heap usb)

-- usb_cleanup_handle: what becomes of the fields, and the three of them that are
-- closed if they are not NULL.
def UsbHandle.cleaned : UsbHandle := ⟨none, none, none, none⟩

def closeFields (st : UsbState) (handle : UsbHandle) : UsbState :=
  adbCloseHandle (adbCloseHandle (adbCloseHandle st handle.adbWritePipe) handle.adbReadPipe) handle.adbInterface

def usbCleanupHandle (st : UsbState) (usb : Nat) : Except UsbFault UsbState :=
  match st.heap usb with
  | none => .error .freed
  | some handle => .ok ((closeFields st handle).store usb (some UsbHandle.cleaned))

-- do_usb_open. mallocs and names say whether the two calls of malloc succeed.
def doUsbOpen (st : UsbState) (mallocs creates names : Bool) : Except UsbFault (Option Nat × UsbState) :=
  if ¬mallocs then
    .ok (none, st)
  else
    let (adbInterface, st) := adbCreateInterfaceByName st creates
    match adbInterface with
    | none => .ok (none, st)
    | some h =>
        match adbOpenDefaultBulkReadEndpoint st, adbOpenDefaultBulkWriteEndpoint st with
        | some r, some w =>
            -- the length of the name, and then the name
            let st := st.uses (some h)
            if names then
              .ok (some st.fresh, { (st.uses (some h)).store st.fresh
                  (some ⟨some h, some r, some w, some adbGetInterfaceName⟩) with fresh := st.fresh + 1 })
            else
              .ok (none, closeFields st ⟨some h, some r, some w, none⟩)
        -- usb_cleanup_handle looks at the fields that are not set yet
        | _, _ => .error .uninitialised

-- register_new_device
def registerNewDevice (st : UsbState) (usb : Nat) (name : Option (List UInt8)) : Bool × UsbState :=
  if name.any (knownDeviceLocked st) then (false, st)
  else (true, { st with handleList := st.handleList ++ [usb] })

-- find_devices. recognized_device and AdbGetSerialNumber always succeed.
def findDevices (st : UsbState) (mallocs creates names : Bool) : Except UsbFault UsbState :=
  if knownDeviceLocked st adbGetInterfaceName then
    .ok st
  else do
    let (opened, st) ← doUsbOpen st mallocs creates names
    match opened with
    | none => .ok st
    | some usb =>
        match st.heap usb with
        | none => .error .freed
        | some handle =>
            match registerNewDevice (st.uses handle.adbInterface) usb handle.interfaceName with
            | (true, st) => .ok st
            | (false, st) => .ok ((closeFields st handle).store usb none)

-- usb_kick, usb_cleanup_handle itself, and usb_close.
def usbKick (st : UsbState) (usb : Option Nat) : Except UsbFault UsbState :=
  match usb with
  | none => .ok st
  | some usb => usbCleanupHandle st usb

def usbClose (st : UsbState) (usb : Option Nat) : Except UsbFault UsbState :=
  match usb with
  | none => .ok st
  | some usb => do
      let st ← usbCleanupHandle { st with handleList := st.handleList.erase usb } usb
      return st.store usb none

-- usb_read and usb_write, by the field whose pipe they work on, with as many calls
-- of the driver's interface; invalid: the last one says ERROR_INVALID_HANDLE.
def usbTransfer (st : UsbState) (pipe : UsbHandle → Option Nat) (usb : Option Nat) (calls : Nat) (invalid : Bool) :
    Except UsbFault UsbState :=
  match usb with
  | none => .ok st
  | some usb =>
      match st.heap usb with
      | none => .error .freed
      | some handle =>
          let st := (List.replicate calls (pipe handle)).foldl UsbState.uses st
          if invalid then usbKick st (some usb) else .ok st

inductive UsbCall where
  | findDevices (mallocs creates names : Bool)
  | usbKick (usb : Option Nat)
  | usbCleanupHandle (usb : Option Nat)
  | usbClose (usb : Option Nat)
  | usbRead (usb : Option Nat) (calls : Nat) (invalid : Bool)
  | usbWrite (usb : Option Nat) (calls : Nat) (invalid : Bool)

def usbStep (st : UsbState) : UsbCall → Except UsbFault UsbState
  | .findDevices mallocs creates names => findDevices st mallocs creates names
  | .usbKick usb => usbKick st usb
  | .usbCleanupHandle usb => usbKick st usb
  | .usbClose usb => usbClose st usb
  | .usbRead usb calls invalid => usbTransfer st UsbHandle.adbReadPipe usb calls invalid
  | .usbWrite usb calls invalid => usbTransfer st UsbHandle.adbWritePipe usb calls invalid

end Adb.Usb
