import Adb.Lib.Ring
import Adb.Lib.Run

namespace Adb.Transport

open Adb.Lib

inductive ConnectionState where
  | offline
  | bootloader
  | device
  | host
  | recovery
  | noPerm
  | sideload
deriving DecidableEq

inductive TransportType where
  | usb
  | loopback
  | any
  | host
deriving DecidableEq

-- &transport_list or a transport.
inductive TRef where
  | transportList
  | transport (t : Nat)
deriving DecidableEq

-- The fields of atransport that the registry reads or writes; next and prev are
-- kept apart. kTransportLocal is loopback.
structure ATransport where
  connectionState : ConnectionState
  type : TransportType
  adbPort : Int
  usb : Option Nat
  serial : Option (List UInt8)
  refCount : Int
  kicked : Bool

inductive Thread where
  | input
  | output
deriving DecidableEq

-- On its way out a thread kicks the transport and then drops its reference. It
-- has finished its last access once the reference is dropped.
inductive ThreadAt where
  | absent
  | running
  | unref
  | finished
deriving DecidableEq

-- Action 0 and action 1.
inductive Action where
  | remove
  | register
deriving DecidableEq

structure TMsg where
  transport : Nat
  action : Action
deriving DecidableEq

-- Where the main loop stands between two sections that other threads can come
-- between. The first five are in transport_registration_func, the last three
-- in unregister_transport.
inductive MainAt where
  | idle
  | removing (t : Nat)
  | freeing (t : Nat)
  | starting (t : Nat)
  | startOutput (t : Nat)
  | linking (t : Nat)
  | unregUnlink (t : Nat)
  | unregKick (t : Nat)
  | unregUnref (t : Nat)
deriving DecidableEq

-- onList and removals record what has happened: which transports were
-- registered and neither unregistered nor removed since, and how many removal
-- messages were posted for each. Freed memory is none from then on.
structure Registry where
  heap : Nat → Option ATransport
  links : Links TRef
  threads : Nat → Thread → ThreadAt
  nextTransport : Nat
  mailbox : List TMsg
  main : MainAt
  onList : Nat → Bool
  removals : Nat → Nat

inductive Fault where
  | disabled
  | useAfterFree
  | nullPointer
  | endless
deriving DecidableEq

def registryInit : Registry where
  heap := fun _ => none
  links := (Links.mk (fun _ => none) (fun _ => none)).init .transportList
  threads := fun _ _ => .absent
  nextTransport := 0
  mailbox := []
  main := .idle
  onList := fun _ => false
  removals := fun _ => 0

namespace Registry

def deref (st : Registry) (t : Nat) : Except Fault ATransport :=
  match st.heap t with
  | some record => .ok record
  | none => .error .useAfterFree

def setRecord (st : Registry) (t : Nat) (record : ATransport) : Registry :=
  { st with heap := Function.update st.heap t (some record) }

def setThread (st : Registry) (t : Nat) (thread : Thread) (phase : ThreadAt) : Registry :=
  { st with threads :=
      Function.update st.threads t (Function.update (st.threads t) thread phase) }

def live (st : Registry) : TRef → Bool
  | .transportList => true
  | .transport t => (st.heap t).isSome

def post (st : Registry) (t : Nat) (action : Action) : Registry :=
  { st with mailbox := st.mailbox ++ [⟨t, action⟩] }

def removeTransport (st : Registry) (t : Nat) : Registry :=
  { st.post t .remove with removals := Function.update st.removals t (st.removals t + 1) }

-- t->next->prev = t->prev; t->prev->next = t->next;
def unlinkTransport (st : Registry) (t : Nat) : Except Fault Registry :=
  if st.live (.transport t) ∧ (st.links.next (.transport t)).all st.live ∧
      (st.links.prev (.transport t)).all st.live then
    match st.links.unlink (.transport t) with
    | some links => .ok { st with links, onList := Function.update st.onList t false }
    | none => .error .nullPointer
  else
    .error .useAfterFree

-- The transport is put before transport_list.
def linkTransport (st : Registry) (t : Nat) : Except Fault Registry :=
  if st.live (.transport t) ∧ (st.links.prev .transportList).all st.live then
    match st.links.insertTail .transportList (.transport t) with
    | some links => .ok { st with links, onList := Function.update st.onList t true }
    | none => .error .nullPointer
  else
    .error .useAfterFree

def kickTransport (st : Registry) (t : Nat) : Except Fault Registry := do
  let record ← st.deref t
  return st.setRecord t { record with kicked := true }

-- t->close. The usb transport forgets its handle.
def closeRecord (record : ATransport) : ATransport :=
  match record.type with
  | .usb => { record with usb := none }
  | _ => record

def transportUnrefLocked (st : Registry) (t : Nat) : Except Fault Registry := do
  let record ← st.deref t
  let record := { record with refCount := record.refCount - 1 }
  if record.refCount = 0 then
    return (st.setRecord t (closeRecord { record with kicked := true })).removeTransport t
  else
    return st.setRecord t record

-- The first transport from the node r on that meets the test. The loop follows
-- next until it is back at the head.
def findFrom (st : Registry) (test : ATransport → Bool) : Nat → TRef → Except Fault (Option Nat)
  | 0, _ => .error .endless
  | _ + 1, .transportList => .ok none
  | fuel + 1, .transport t => do
      let record ← st.deref t
      if test record then
        return some t
      else
        match st.links.next (.transport t) with
        | some next => findFrom st test fuel next
        | none => .error .nullPointer

def findListed (st : Registry) (test : ATransport → Bool) : Except Fault (Option Nat) :=
  match st.links.next .transportList with
  | some first => st.findFrom test (st.nextTransport + 1) first
  | none => .error .nullPointer

def isTcp (record : ATransport) : Bool :=
  record.type = .loopback ∧ record.adbPort = 0

def unregisterTcpFrom : Nat → TRef → Registry → Except Fault Registry
  | 0, _, _ => .error .endless
  | _ + 1, .transportList, st => .ok st
  | fuel + 1, .transport t, st => do
      let record ← st.deref t
      match st.links.next (.transport t) with
      | none => .error .nullPointer
      | some next =>
          if isTcp record then
            let st ← st.unlinkTransport t
            let st ← st.kickTransport t
            let st ← st.transportUnrefLocked t
            unregisterTcpFrom fuel next st
          else
            unregisterTcpFrom fuel next st

def unregisterAllTcpTransports (st : Registry) : Except Fault Registry :=
  match st.links.next .transportList with
  | some first => unregisterTcpFrom (st.nextTransport + 1) first st
  | none => .error .nullPointer

def unregisterUsbTransport (st : Registry) (usb : Nat) : Except Fault Registry := do
  let test := fun record : ATransport =>
    decide (record.usb = some usb ∧ record.connectionState = .noPerm)
  match ← st.findListed test with
  | some t => st.unlinkTransport t
  | none => return st

def registerTransport (st : Registry) (record : ATransport) : Registry :=
  let t := st.nextTransport
  { (st.setRecord t record).post t .register with nextTransport := t + 1 }

-- What init_socket_transport sets. A port that is taken makes it fail, and then
-- nothing is registered.
def socketTransport (serial : List UInt8) (adbPort : Int) (isLocal : Bool) : ATransport where
  connectionState := .offline
  type := .loopback
  adbPort := if isLocal then adbPort else 0
  usb := none
  serial := some serial
  refCount := 0
  kicked := false

def usbTransport (usb : Nat) (serial : Option (List UInt8)) (writeable : Bool) : ATransport where
  connectionState := if writeable then .offline else .noPerm
  type := .usb
  adbPort := 0
  usb := some usb
  serial := serial
  refCount := 0
  kicked := false

section Fields

variable (st : Registry) (t : Nat) (record : ATransport)

@[simp] theorem setRecord_heap_self : (st.setRecord t record).heap t = some record :=
  Function.update_self ..

@[simp] theorem setRecord_threads : (st.setRecord t record).threads = st.threads := rfl

@[simp] theorem removeTransport_threads : (st.removeTransport t).threads = st.threads := rfl

@[simp] theorem removeTransport_heap : (st.removeTransport t).heap = st.heap := rfl

@[simp] theorem setThread_threads_self (thread : Thread) (phase : ThreadAt) :
    (st.setThread t thread phase).threads t = Function.update (st.threads t) thread phase :=
  Function.update_self ..

@[simp] theorem setThread_heap (thread : Thread) (phase : ThreadAt) :
    (st.setThread t thread phase).heap = st.heap := rfl

end Fields

end Registry

inductive Move where
  | registerSocket (serial : List UInt8) (adbPort : Int) (isLocal : Bool)
  | registerUsb (usb : Nat) (serial : Option (List UInt8)) (writeable : Bool)
  | main
  | thread (t : Nat) (thread : Thread)
  | unregister (serial : List UInt8)
  | unregisterAllTcp
  | unregisterUsb (usb : Nat)

-- The main loop goes on to its next section.
def mainStep (st : Registry) : Except Fault Registry :=
  match st.main with
  | .idle =>
      match st.mailbox with
      | [] => .error .disabled
      | ⟨t, .remove⟩ :: rest => .ok { st with mailbox := rest, main := .removing t }
      | ⟨t, .register⟩ :: rest => .ok { st with mailbox := rest, main := .starting t }
  | .removing t => do
      let st ← st.unlinkTransport t
      return { st with main := .freeing t }
  | .freeing t => do
      let _ ← st.deref t
      return { st with heap := Function.update st.heap t none, main := .idle }
  | .starting t => do
      let record ← st.deref t
      if record.connectionState ≠ .noPerm then
        -- initial references are the two threads
        let st := st.setRecord t { record with refCount := 2 }
        return { st.setThread t .input .running with main := .startOutput t }
      else
        return { st with main := .linking t }
  | .startOutput t => .ok { st.setThread t .output .running with main := .linking t }
  | .linking t => do
      let st ← st.linkTransport t
      return { st with main := .idle }
  | .unregUnlink t => do
      let st ← st.unlinkTransport t
      return { st with main := .unregKick t }
  | .unregKick t => do
      let st ← st.kickTransport t
      return { st with main := .unregUnref t }
  | .unregUnref t => do
      let st ← st.transportUnrefLocked t
      return { st with main := .idle }

-- The way out of input_thread and output_thread.
def threadStep (st : Registry) (t : Nat) (thread : Thread) : Except Fault Registry :=
  match st.threads t thread with
  | .running => do
      let st ← st.kickTransport t
      return st.setThread t thread .unref
  | .unref => do
      let st ← st.transportUnrefLocked t
      return st.setThread t thread .finished
  | _ => .error .disabled

-- A client's request to disconnect runs on the main thread.
def step (st : Registry) : Move → Except Fault Registry
  | .registerSocket serial adbPort isLocal =>
      .ok (st.registerTransport (Registry.socketTransport serial adbPort isLocal))
  | .registerUsb usb serial writeable =>
      .ok (st.registerTransport (Registry.usbTransport usb serial writeable))
  | .main => mainStep st
  | .thread t thread => threadStep st t thread
  | .unregister serial =>
      if st.main = .idle then do
        match ← st.findListed fun record => decide (record.serial = some serial) with
        | some t => return { st with main := .unregUnlink t }
        | none => return st
      else
        .error .disabled
  | .unregisterAllTcp =>
      if st.main = .idle then st.unregisterAllTcpTransports else .error .disabled
  | .unregisterUsb usb => st.unregisterUsbTransport usb

end Adb.Transport
