import Adb.Event.Fdevents

namespace Adb.Event

open Adb.Lib Adb.Host

def FD_READ : BitVec 32 := 0x01
def FD_WRITE : BitVec 32 := 0x02
def FD_OOB : BitVec 32 := 0x04
def FD_ACCEPT : BitVec 32 := 0x08
def FD_CONNECT : BitVec 32 := 0x10
def FD_CLOSE : BitVec 32 := 0x20

-- WSANETWORKEVENTS.
structure NetworkEvents where
  lNetworkEvents : BitVec 32
  iErrorCode : Nat → Int

-- What one of the functions of a hook finds when it looks: what
-- WSAEnumNetworkEvents reports (none when it fails), or can_read of the buffer
-- that this end reads and can_write of the one it writes.
structure Look where
  evts : Option NetworkEvents
  canRead : Bool
  canWrite : Bool

def wants (hook : EventHook) (event : BitVec 16) : Bool := hook.wanted &&& event ≠ 0

def EventHook.addReady (hook : EventHook) (ready : BitVec 16) : EventHook :=
  { hook with ready := hook.ready ||| ready }

def eventFilePrepare (hook : EventHook) : EventHook :=
  if wants hook (FDE_READ ||| FDE_WRITE) then
    hook.addReady (hook.wanted &&& (FDE_READ ||| FDE_WRITE))
  else
    hook

-- iErrorCode is indexed with the masks FD_READ and FD_WRITE themselves.
def eventSocketVerify (hook : EventHook) (evts : NetworkEvents) : EventHook :=
  let hook :=
    if evts.lNetworkEvents &&& (FD_READ ||| FD_ACCEPT ||| FD_CLOSE) ≠ 0 then
      let hook := if wants hook FDE_READ then hook.addReady FDE_READ else hook
      if evts.iErrorCode FD_READ.toNat ≠ 0 ∧ wants hook FDE_ERROR then hook.addReady FDE_ERROR
      else hook
    else
      hook
  let hook :=
    if evts.lNetworkEvents &&& (FD_WRITE ||| FD_CONNECT ||| FD_CLOSE) ≠ 0 then
      let hook := if wants hook FDE_WRITE then hook.addReady FDE_WRITE else hook
      if evts.iErrorCode FD_WRITE.toNat ≠ 0 ∧ wants hook FDE_ERROR then hook.addReady FDE_ERROR
      else hook
    else
      hook
  if evts.lNetworkEvents &&& FD_OOB ≠ 0 then
    if wants hook FDE_ERROR then hook.addReady FDE_ERROR else hook
  else
    hook

def eventSocketPrepare (hook : EventHook) (look : Look) : EventHook :=
  match look.evts with
  | some evts => eventSocketVerify hook evts
  | none => hook

def eventSocketpairPrepare (hook : EventHook) (look : Look) : EventHook :=
  let hook := if wants hook FDE_READ ∧ look.canRead then hook.addReady FDE_READ else hook
  if wants hook FDE_WRITE ∧ look.canWrite then hook.addReady FDE_WRITE else hook

-- hook->prepare.
def prepare (hook : EventHook) (look : Look) : EventHook :=
  match hook.clazz with
  | .file _ => eventFilePrepare hook
  | .socket _ => eventSocketPrepare hook look
  | .socketpair .. => eventSocketpairPrepare hook look

-- hook->start. A file has none, and a socket whose WSAEventSelect fails ends
-- the program.
def start (hook : EventHook) : Bool × EventHook :=
  match hook.clazz with
  | .file _ => (true, hook)
  | .socket event => (event.isSome, { hook with h := event })
  | .socketpair evtRead evtWrite =>
      if hook.wanted = FDE_READ then (true, { hook with h := some evtRead })
      else if hook.wanted = FDE_WRITE then (true, { hook with h := some evtWrite })
      else (false, hook)

def stop (hook : EventHook) : EventHook :=
  match hook.clazz with
  | .socket _ => { hook with h := none }
  | _ => hook

-- hook->check. Only a socket has one, which looks like its prepare.
def check (hook : EventHook) (look : Look) : Bool × EventHook :=
  match hook.clazz with
  | .socket _ =>
      match look.evts with
      | some evts =>
          let hook := eventSocketVerify hook evts
          (hook.ready ≠ 0, hook)
      | none => (false, hook)
  | _ => (true, hook)

def peek (hook : EventHook) (look : Look) : Bool × EventHook :=
  match hook.clazz with
  | .file _ => (wants hook (FDE_READ ||| FDE_WRITE), hook)
  | _ =>
      let hook := prepare hook look
      (hook.ready ≠ 0, hook)

-- A handle is added to looper->htab unless it is there or INVALID_HANDLE_VALUE.
def addHandle (htab : List Nat) : Option Nat → List Nat
  | some h => if h ∈ htab then htab else htab ++ [h]
  | none => htab

-- The loop that fills looper->htab. It ends early when a
-- start function fails; the hooks started so far keep their handle.
def fillTable : List EventHook → List Nat → List EventHook × Option (List Nat)
  | [], htab => ([], some htab)
  | hook :: rest, htab =>
      match start hook with
      | (false, hook) => (hook :: rest, none)
      | (true, hook) =>
          let (rest, result) := fillTable rest (addHandle htab hook.h)
          (hook :: rest, result)

-- One return of WaitForMultipleObjects or _wait_for_all, none when it fails,
-- and what the check functions find after it.
structure Wait where
  ret : Option Nat
  check : Nat → Look

-- What happens around one pass; a hook is known by the slot of its handle.
structure PassEnv where
  prepare : Nat → Look
  waits : List Wait
  peek : Nat → Look

def signalIf (signalled : Bool) (st : EventState) (hook : EventHook) : Except Fault EventState :=
  if signalled then eventHookSignal st hook else .ok st

-- The first loop: every hook that has something ready is signalled at once.
def prepareLoop (look : Nat → Look) :
    List EventHook → EventState → Except Fault (List EventHook × Bool × EventState)
  | [], st => .ok ([], false, st)
  | hook :: rest, st => do
      let hook := prepare { hook with ready := 0 } (look hook.fh)
      let gotone := hook.ready ≠ 0
      let st ← signalIf gotone st hook
      let (rest, more, st) ← prepareLoop look rest st
      return (hook :: rest, gotone || more, st)

-- The search after a wait that returned the handle h: the first hook with this
-- handle that its check function does not refuse is signalled.
def wokenLoop (h : Nat) (look : Nat → Look) :
    List EventHook → EventState → Except Fault (List EventHook × Bool × EventState)
  | [], st => .ok ([], false, st)
  | hook :: rest, st => do
      if hook.h = some h then
        let (accepted, hook) := check hook (look hook.fh)
        if accepted then
          let st ← eventHookSignal st hook
          return (hook :: rest, true, st)
        else
          let (rest, gotone, st) ← wokenLoop h look rest st
          return (hook :: rest, gotone, st)
      else
        let (rest, gotone, st) ← wokenLoop h look rest st
        return (hook :: rest, gotone, st)

-- do { .. } while (!gotone); none when the list of waits ends before that.
def waitLoop (htab : List Nat) :
    List Wait → List EventHook → EventState → Except Fault (Option (List EventHook × EventState))
  | [], _, _ => .ok none
  | wait :: rest, hooks, st =>
      match wait.ret.bind fun index => htab[index]? with
      | none => waitLoop htab rest hooks st
      | some h => do
          let (hooks, gotone, st) ← wokenLoop h wait.check hooks st
          if gotone then return some (hooks, st) else waitLoop htab rest hooks st

def peekLoop (look : Nat → Look) :
    List EventHook → EventState → Except Fault (List EventHook × EventState)
  | [], st => .ok ([], st)
  | hook :: rest, st => do
      let (signalled, hook) := peek hook (look hook.fh)
      let st ← signalIf signalled st hook
      let (rest, st) ← peekLoop look rest st
      return (hook :: rest, st)

-- The result is none while the pass still waits.
def fdeventProcess (env : PassEnv) (st : EventState) : Except Fault (Option EventState) := do
  let (hooks, gotone, st) ← prepareLoop env.prepare st.hooks st
  if gotone then
    let (hooks, st) ← peekLoop env.peek hooks st
    return some { st with hooks }
  else
    match fillTable hooks [] with
    | (hooks, none) => return some { st with hooks }
    | (hooks, some []) => return some { st with hooks }
    | (hooks, some htab) =>
        match ← waitLoop htab env.waits hooks st with
        | none => return none
        | some (hooks, st) =>
            let (hooks, st) ← peekLoop env.peek (hooks.map stop) st
            return some { st with hooks }

end Adb.Event
