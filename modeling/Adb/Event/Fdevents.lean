import Adb.Host.Fdevent
import Adb.Lib.Ring
import Adb.Lib.Run

namespace Adb.Event

open Adb.Lib Adb.Host

def FDE_ERROR : BitVec 16 := 0x0004

def FDE_DONT_CLOSE : BitVec 16 := 0x0080

def WIN32_FH_BASE : Int := 100

def WIN32_MAX_FHS : Nat := 128

-- The class of an FH with the handles that its event functions wait on: the
-- file itself, the socket's event (none is INVALID_HANDLE_VALUE), and for an
-- end of a socket pair evt_read of the buffer it reads and evt_write of the
-- buffer it writes.
inductive FHClass where
  | file (handle : Nat)
  | socket (event : Option Nat)
  | socketpair (evtRead evtWrite : Nat)
deriving DecidableEq

structure FHRec where
  clazz : Option FHClass
  used : Bool
deriving DecidableEq

-- fh is an index of _win32_fhs. The five function pointers are those of clazz.
structure EventHook where
  fh : Nat
  clazz : FHClass
  h : Option Nat
  wanted : BitVec 16
  ready : BitVec 16
deriving DecidableEq

structure Fde extends Fdevent where
  fd : Int
deriving DecidableEq

-- &list_pending or an fdevent.
inductive FdeRef where
  | listPending
  | fde (n : Nat)
deriving DecidableEq

structure EventState where
  fhs : Nat → FHRec
  fhCount : Nat
  fdes : Nat → Fde
  links : Links FdeRef
  fdTable : Nat → Option Nat
  fdTableMax : Nat
  hooks : List EventHook

inductive Fault where
  | fatal
  | outOfRange
  | nullPointer
deriving DecidableEq

def eventInit : EventState where
  fhs := fun _ => ⟨none, false⟩
  fhCount := 0
  fdes := fun _ => ⟨⟨0, 0⟩, 0⟩
  links := (Links.mk (fun _ => none) (fun _ => none)).init .listPending
  fdTable := fun _ => none
  fdTableMax := 0
  hooks := []

namespace EventState

def setFde (st : EventState) (n : Nat) (fde : Fde) : EventState :=
  { st with fdes := Function.update st.fdes n fde }

def setFh (st : EventState) (f : Nat) (record : FHRec) : EventState :=
  { st with fhs := Function.update st.fhs f record }

end EventState

def fhFromInt (st : EventState) (fd : Int) : Option Nat :=
  let fd := fd - WIN32_FH_BASE
  if fd < 0 ∨ fd ≥ st.fhCount then none
  else if (st.fhs fd.toNat).used then some fd.toNat
  else none

def fhToInt (st : EventState) (f : Nat) : Int :=
  if (st.fhs f).used ∧ f < WIN32_MAX_FHS then f + WIN32_FH_BASE else -1

-- The slot that _fh_alloc chooses: the next one that was never used, and when
-- there is none the first one that was closed.
def freeSlot (st : EventState) : Option Nat :=
  if st.fhCount < WIN32_MAX_FHS then some st.fhCount
  else (List.range WIN32_MAX_FHS).find? fun nn => (st.fhs nn).clazz.isNone

def fhAlloc (st : EventState) (clazz : FHClass) : EventState :=
  match freeSlot st with
  | some f =>
      let st := if st.fhCount < WIN32_MAX_FHS then { st with fhCount := st.fhCount + 1 } else st
      st.setFh f ⟨some clazz, true⟩
  | none => st

def fhClose (st : EventState) (f : Nat) : EventState :=
  if (st.fhs f).used then st.setFh f ⟨none, false⟩ else st

def adbClose (st : EventState) (fd : Int) : EventState :=
  match fhFromInt st fd with
  | some f => fhClose st f
  | none => st

-- Clears the event that a start function left behind; h is the handle that
-- _fh_hook stores before the hook was ever started.
def eventHookAlloc (f : Nat) (clazz : FHClass) : EventHook where
  fh := f
  clazz := clazz
  h := none
  wanted := 0
  ready := 0

-- _fh_hook of the three classes. _event_socket_start gives the hook the event
-- of the socket.
def fhHook (hook : EventHook) : EventHook :=
  match hook.clazz with
  | .file handle => { hook with h := some handle }
  | .socket event => { hook with h := event }
  | .socketpair .. => hook

def hookNode (events : BitVec 16) (node : EventHook) : EventHook :=
  if node.wanted &&& events ≠ events then
    let node := fhHook node
    { node with wanted := node.wanted ||| events }
  else
    node

-- event_looper_find_p, and what is done to the hook it finds or to a new one at
-- the end of the list.
def eventLooperHook (f : Nat) (clazz : FHClass) (events : BitVec 16) :
    List EventHook → List EventHook
  | [] => [hookNode events (eventHookAlloc f clazz)]
  | node :: rest =>
      if node.fh = f then hookNode events node :: rest
      else node :: eventLooperHook f clazz events rest

def eventLooperUnhook (f : Nat) (events : BitVec 16) : List EventHook → List EventHook
  | [] => []
  | node :: rest =>
      if node.fh = f then
        let events2 := events &&& node.wanted
        if events2 = 0 then
          node :: rest
        else
          let node := { node with wanted := node.wanted &&& ~~~events2 }
          if node.wanted = 0 then rest else node :: rest
      else
        node :: eventLooperUnhook f events rest

namespace EventState

-- event_looper_hook and event_looper_unhook on win32_looper. No hook is ever
-- for the FH NULL.
def looperHook (st : EventState) (fd : Int) (events : BitVec 16) : EventState :=
  match fhFromInt st fd with
  | some f =>
      match (st.fhs f).clazz with
      | some clazz => { st with hooks := eventLooperHook f clazz events st.hooks }
      | none => st
  | none => st

def looperUnhook (st : EventState) (fd : Int) (events : BitVec 16) : EventState :=
  match fhFromInt st fd with
  | some f => { st with hooks := eventLooperUnhook f events st.hooks }
  | none => st

end EventState

def fdeventConnect (st : EventState) (n : Nat) : EventState :=
  let fde := st.fdes n
  let events := fde.state &&& FDE_EVENTMASK
  if events ≠ 0 then st.looperHook fde.fd events else st

def fdeventDisconnect (st : EventState) (n : Nat) : EventState :=
  let fde := st.fdes n
  let events := fde.state &&& FDE_EVENTMASK
  if events ≠ 0 then st.looperUnhook fde.fd events else st

def fdeventUpdate (st : EventState) (n : Nat) (events : BitVec 16) : EventState :=
  let fde := st.fdes n
  let events0 := fde.state &&& FDE_EVENTMASK
  if events ≠ events0 then
    let removes := events0 &&& ~~~events
    let adds := events &&& ~~~events0
    let st := if removes ≠ 0 then st.looperUnhook fde.fd removes else st
    if adds ≠ 0 then st.looperHook fde.fd adds else st
  else
    st

-- while (fd_table_max <= fd) fd_table_max *= 2;
def grow (fd : Nat) : Nat → Nat → Nat
  | 0, max => max
  | fuel + 1, max => if max ≤ fd then grow fd fuel (max * 2) else max

def fdeventRegister (st : EventState) (n : Nat) : Except Fault EventState :=
  let fde := st.fdes n
  let fd := fde.fd - WIN32_FH_BASE
  if fd < 0 then
    .error .fatal
  else
    let fd := fd.toNat
    if fd < st.fdTableMax then
      .ok { st with fdTable := Function.update st.fdTable fd (some n) }
    else if fde.fd > 32000 then
      .error .fatal
    else
      let oldmax := st.fdTableMax
      -- fdevent_init
      let st := if oldmax = 0 then { st with hooks := [], fdTableMax := 256 } else st
      let max := grow fd fd st.fdTableMax
      -- a pointer has the size of an int, so memset clears all the new entries
      let table := fun i => if oldmax ≤ i ∧ i < max then none else st.fdTable i
      .ok { st with fdTableMax := max, fdTable := Function.update table fd (some n) }

def fdeventUnregister (st : EventState) (n : Nat) : Except Fault EventState :=
  let fde := st.fdes n
  let fd := fde.fd - WIN32_FH_BASE
  if fd < 0 ∨ fd ≥ st.fdTableMax then
    .error .fatal
  else if st.fdTable fd.toNat ≠ some n then
    .error .fatal
  else
    let st := { st with fdTable := Function.update st.fdTable fd.toNat none }
    .ok (if fde.state &&& FDE_DONT_CLOSE = 0 then adbClose st fde.fd else st)

def fdeventPlistEnqueue (l : Links FdeRef) (node : FdeRef) : Option (Links FdeRef) := do
  let l := l.setNext node (some .listPending)
  let l := l.setPrev node (l.prev .listPending)
  let last ← l.prev node
  let l := l.setNext last (some node)
  return l.setPrev .listPending (some node)

def fdeventPlistRemove (l : Links FdeRef) (node : FdeRef) : Option (Links FdeRef) := do
  let before ← l.prev node
  let l := l.setNext before (l.next node)
  let after ← l.next node
  let l := l.setPrev after (l.prev node)
  return l.clear node

-- The node that comes off the list, if any.
def fdeventPlistDequeue (l : Links FdeRef) : Option (Option (FdeRef × Links FdeRef)) := do
  let node ← l.next .listPending
  if node = .listPending then
    return none
  else
    let l := l.setNext .listPending (l.next node)
    let after ← l.next .listPending
    let l := l.setPrev after (some .listPending)
    return some (node, l.clear node)

def fdeventInstall (st : EventState) (n : Nat) (fd : Int) : Except Fault EventState := do
  let st := st.setFde n ⟨⟨FDE_ACTIVE, 0⟩, fd⟩
  let st := { st with links := st.links.clear (.fde n) }
  let st ← fdeventRegister st n
  let st := fdeventConnect st n
  return st.setFde n { st.fdes n with state := (st.fdes n).state ||| FDE_ACTIVE }

-- The two parts of fdevent_remove.
def dropPending (st : EventState) (n : Nat) : Except Fault EventState :=
  if (st.fdes n).state &&& FDE_PENDING ≠ 0 then
    match fdeventPlistRemove st.links (.fde n) with
    | some links => .ok { st with links }
    | none => .error .nullPointer
  else
    .ok st

def dropActive (st : EventState) (n : Nat) : Except Fault EventState :=
  if (st.fdes n).state &&& FDE_ACTIVE ≠ 0 then fdeventUnregister (fdeventDisconnect st n) n
  else .ok st

def fdeventRemove (st : EventState) (n : Nat) : Except Fault EventState := do
  let st ← dropPending st n
  let st ← dropActive st n
  return st.setFde n ⟨⟨0, 0⟩, (st.fdes n).fd⟩

def fdeventSet (st : EventState) (n : Nat) (events : BitVec 16) : Except Fault EventState :=
  let fde := st.fdes n
  let events := events &&& FDE_EVENTMASK
  if fde.state &&& FDE_EVENTMASK = events then
    .ok st
  else
    let st := if fde.state &&& FDE_ACTIVE ≠ 0 then fdeventUpdate st n events else st
    let fde : Fde := { fde with state := (fde.state &&& FDE_STATEMASK) ||| events }
    if fde.state &&& FDE_PENDING ≠ 0 then
      let fde : Fde := { fde with events := fde.events &&& ~~~events }
      if fde.events = 0 then
        match fdeventPlistRemove st.links (.fde n) with
        | some links =>
            .ok ({ st with links }.setFde n { fde with state := fde.state &&& ~~~FDE_PENDING })
        | none => .error .nullPointer
      else
        .ok (st.setFde n fde)
    else
      .ok (st.setFde n fde)

def fdeventAdd (st : EventState) (n : Nat) (events : BitVec 16) : Except Fault EventState :=
  fdeventSet st n (((st.fdes n).state &&& FDE_EVENTMASK) ||| (events &&& FDE_EVENTMASK))

def fdeventDel (st : EventState) (n : Nat) (events : BitVec 16) : Except Fault EventState :=
  fdeventSet st n (((st.fdes n).state &&& FDE_EVENTMASK) &&& ~~~(events &&& FDE_EVENTMASK))

def eventHookSignal (st : EventState) (hook : EventHook) : Except Fault EventState :=
  let fd := fhToInt st hook.fh
  let index := fd - WIN32_FH_BASE
  if index < 0 ∨ index ≥ st.fdTableMax then
    .error .outOfRange
  else
    match st.fdTable index.toNat with
    | none => .ok st
    | some n =>
        let fde := st.fdes n
        if fde.fd = fd then
          if fde.state &&& FDE_PENDING = 0 then
            match fdeventPlistEnqueue st.links (.fde n) with
            | some links =>
                .ok ({ st with links }.setFde n
                  { fde with
                    state := fde.state ||| FDE_PENDING
                    events := fde.events ||| hook.wanted })
            | none => .error .nullPointer
          else
            .ok (st.setFde n { fde with events := fde.events ||| hook.wanted })
        else
          .ok st

-- One turn of the inner loop of fdevent_loop up to the call of func: the fdevent
-- and the events it is called with.
def dispatch (st : EventState) : Except Fault (Option (Nat × BitVec 16) × EventState) :=
  match fdeventPlistDequeue st.links with
  | none => .error .nullPointer
  | some none => .ok (none, st)
  | some (some (.listPending, _)) => .error .nullPointer
  | some (some (.fde n, links)) =>
      let fde := st.fdes n
      .ok (some (n, fde.events),
        { st with links }.setFde n { fde with events := 0, state := fde.state &&& ~~~FDE_PENDING })

-- fh_alloc stands for the functions that open a handle, adb_close for a caller
-- that closes one itself, and signal for event_hook_signal on a hook of the
-- looper.
inductive Op where
  | fhAlloc (clazz : FHClass)
  | adbClose (fd : Int)
  | install (n : Nat) (fd : Int)
  | set (n : Nat) (events : BitVec 16)
  | add (n : Nat) (events : BitVec 16)
  | del (n : Nat) (events : BitVec 16)
  | remove (n : Nat)
  | signal (index : Nat)
  | dequeue

def step (st : EventState) : Op → Except Fault EventState
  | .fhAlloc clazz => .ok (fhAlloc st clazz)
  | .adbClose fd => .ok (adbClose st fd)
  | .install n fd => fdeventInstall st n fd
  | .set n events => fdeventSet st n events
  | .add n events => fdeventAdd st n events
  | .del n events => fdeventDel st n events
  | .remove n => fdeventRemove st n
  | .signal index =>
      match st.hooks[index]? with
      | some hook => eventHookSignal st hook
      | none => .ok st
  | .dequeue => (dispatch st).map (·.2)

end Adb.Event
