import Adb.Host.State

namespace Adb.Host

open Adb.Lib

-- How a loop over adb_write ends: everything is written, the fd would block,
-- or it is of no more use.
inductive WriteEnd where
  | done
  | again
  | failed
  | blocked
deriving DecidableEq

structure WriteResult where
  outcome : WriteEnd
  written : Bytes
  rest : Bytes
  writes : List WriteOutcome

-- Writes p as far as it goes. EINTR is tried again in the event function only.
def writeLoop (retry : Bool) : Bytes → List WriteOutcome → WriteResult
  | [], writes => ⟨.done, [], [], writes⟩
  | p, [] => ⟨.blocked, [], p, []⟩
  | p, .wrote count :: writes =>
      if count = 0 then
        ⟨.failed, [], p, writes⟩
      else
        let result := writeLoop retry (p.drop count) writes
        { result with written := p.take count ++ result.written }
  | p, .again :: writes => ⟨.again, [], p, writes⟩
  | p, .intr :: writes => if retry then writeLoop retry p writes else ⟨.failed, [], p, writes⟩
  | p, .failed :: writes => ⟨.failed, [], p, writes⟩

theorem writeLoop_split (retry : Bool) (p : Bytes) (writes : List WriteOutcome) :
    (writeLoop retry p writes).written ++ (writeLoop retry p writes).rest = p := by
  induction writes generalizing p with
  | nil =>
      cases p <;> simp [writeLoop]
  | cons outcome writes ih =>
      cases p with
      | nil => simp [writeLoop]
      | cons c p =>
          cases outcome with
          | wrote count =>
              unfold writeLoop
              split
              · rfl
              · simp only [List.append_assoc, ih]
                exact List.take_append_drop count (c :: p)
          | again => rfl
          | intr =>
              unfold writeLoop
              split
              · exact ih (c :: p)
              · rfl
          | failed => rfl

theorem writeLoop_done (retry : Bool) (p : Bytes) (writes : List WriteOutcome)
    (h : (writeLoop retry p writes).outcome = .done) : (writeLoop retry p writes).rest = [] := by
  induction writes generalizing p with
  | nil =>
      cases p with
      | nil => rfl
      | cons c p => simp [writeLoop] at h
  | cons outcome writes ih =>
      cases p with
      | nil => rfl
      | cons c p =>
          cases outcome with
          | wrote count =>
              unfold writeLoop at h ⊢
              split
              · rename_i hzero
                simp [hzero] at h
              · rename_i hsome
                rw [if_neg hsome] at h
                exact ih _ h
          | again => simp [writeLoop] at h
          | intr =>
              unfold writeLoop at h ⊢
              split
              · rename_i hretry
                rw [if_pos hretry] at h
                exact ih (c :: p) h
              · rename_i hretry
                simp [hretry] at h
          | failed => simp [writeLoop] at h

structure DrainResult where
  outcome : WriteEnd
  written : Bytes
  pkts : List Bytes
  writes : List WriteOutcome

-- The packets of a queue, one after the other.
def drainQueue : List Bytes → List WriteOutcome → DrainResult
  | [], writes => ⟨.done, [], [], writes⟩
  | p :: pkts, writes =>
      let first := writeLoop true p writes
      if first.outcome = .done then
        let result := drainQueue pkts first.writes
        { result with written := first.written ++ result.written }
      else
        ⟨first.outcome, first.written, first.rest :: pkts, first.writes⟩

inductive ReadEnd where
  | full
  | again
  | eof
  | blocked
deriving DecidableEq

structure ReadResult where
  outcome : ReadEnd
  bytes : Bytes
  reads : List ReadOutcome

-- Reads until avail bytes are there. An error other than EAGAIN and EINTR counts
-- as the end of the stream.
def readLoop : Nat → List ReadOutcome → ReadResult
  | 0, reads => ⟨.full, [], reads⟩
  | _ + 1, [] => ⟨.blocked, [], []⟩
  | avail + 1, .data bytes :: reads =>
      let got := bytes.take (avail + 1)
      if got = [] then
        ⟨.eof, [], reads⟩
      else
        let result := readLoop (avail + 1 - got.length) reads
        { result with bytes := got ++ result.bytes }
  | _ + 1, .again :: reads => ⟨.again, [], reads⟩
  | avail + 1, .intr :: reads => readLoop (avail + 1) reads
  | _ + 1, .failed :: reads => ⟨.eof, [], reads⟩

-- The local sockets in the order of a list, from the node after its head.
def walkList (st : Server) (list : SRef) : Nat → Option SRef → Except Stop (List Nat)
  | 0, _ => .error .endless
  | _ + 1, none => .error .brokenList
  | fuel + 1, some (.socket a) => do
      let _ ← st.deref a
      let rest ← walkList st list fuel (st.links.next (.socket a))
      return a :: rest
  | _ + 1, some head => if head = list then .ok [] else .error .brokenList

def localSockets (st : Server) : Except Stop (List Nat) :=
  walkList st .socketList (st.nextSocket + 1) (st.links.next .socketList)

def findLocalSocket (st : Server) (id : UInt32) : Except Stop (Option Nat) := do
  let sockets ← localSockets st
  return sockets.find? fun a => (st.socks a).any fun s => s.id = id

def insertLocalSocket (st : Server) (a : Nat) (list : SRef) : Except Stop Server :=
  if (st.links.prev list).all st.live then
    match st.links.insertTail list (.socket a) with
    | some links => .ok { st with links }
    | none => .error .brokenList
  else
    .error .useAfterFree

def installLocalSocket (st : Server) (a : Nat) : Except Stop Server := do
  let s ← st.deref a
  let st := st.put a { s with id := st.localSocketNextId }
  insertLocalSocket { st with localSocketNextId := st.localSocketNextId + 1 } a .socketList

def removeSocket (st : Server) (a : Nat) : Except Stop Server := do
  let s ← st.deref a
  match st.links.prev (.socket a), st.links.next (.socket a) with
  | some p, some n =>
      if st.live p ∧ st.live n then
        match st.links.unlink (.socket a) with
        | some links =>
            let links := (links.setNext (.socket a) none).setPrev (.socket a) none
            return { st with links }.put a { s with id := 0 }
        | none => .error .brokenList
      else
        .error .useAfterFree
  | _, _ => return st

-- calloc, and what the create functions fill in.
def newSocket (ops : Ops) : ASocket where
  ops := ops
  id := 0
  closing := false
  peer := none
  fde := fdeventInstall
  fd := 0
  pkts := []
  transport := none
  updateNeeded := false

def allocSocket (st : Server) (s : ASocket) : Nat × Server :=
  (st.nextSocket, { st.put st.nextSocket s with nextSocket := st.nextSocket + 1 })

-- fdevent_register does not take a descriptor of -1.
def createLocalSocket (st : Server) (fd : Option Nat) : Except Stop (Nat × Server) :=
  match fd with
  | none => .error .exited
  | some fd => do
      let (a, st) := allocSocket st { newSocket .localSocket with fd }
      let st ← installLocalSocket st a
      return (a, st)

def createRemoteSocket (st : Server) (id : UInt32) (t : Nat) : Except Stop (Nat × Server) := do
  let (a, st) := allocSocket st { newSocket .remoteSocket with id, transport := some t }
  let st ← st.addTransportDisconnect t (.remote a)
  return (a, st)

section Close

variable (close : Server → Nat → Except Stop Server)

-- Takes the peer of a socket off it and closes it.
def closePeer (st : Server) (p : Nat) : Except Stop Server := do
  let peer ← st.deref p
  close (st.put p { peer with peer := none }) p

def localSocketDestroy (st : Server) (a : Nat) : Except Stop Server := do
  let _ ← st.deref a
  -- fdevent_remove closes the fd
  let st ← removeSocket (st.note (.closedFd a)) a
  return st.free a

-- What is left once the peer is closed: destroy the socket, or keep it until its
-- queue is written.
def localSocketFinish (st : Server) (a : Nat) : Except Stop Server := do
  let s ← st.deref a
  if s.closing ∨ s.pkts = [] then
    localSocketDestroy st a
  else
    let st := st.put a { s with closing := true, fde := fdeventDel s.fde FDE_READ }
    let st ← removeSocket st a
    insertLocalSocket st a .closingList

def localSocketCloseLocked (st : Server) (a : Nat) : Except Stop Server := do
  let s ← st.deref a
  match s.peer with
  | none => localSocketFinish st a
  | some p => do
      let st ← closePeer close st p
      let s ← st.deref a
      localSocketFinish (st.put a { s with peer := none }) a

def localSocketCloseNotify (st : Server) (a : Nat) : Except Stop Server := do
  let s ← st.deref a
  let st := st.put a { s with ops := .localSocket }
  let st ← st.writeStatus a (.fail "closed")
  localSocketCloseLocked close st a

-- remove_transport_disconnect and free.
def remoteSocketFree (st : Server) (a : Nat) : Except Stop Server := do
  let s ← st.deref a
  match s.transport with
  | none => .error .useAfterFree
  | some t => do
      let st ← st.removeTransportDisconnect t (.remote a)
      return st.free a

-- get_apacket clears the message, so arg0 is 0 without a peer.
def remoteSocketClose (st : Server) (a : Nat) : Except Stop Server := do
  let s ← st.deref a
  let (arg0, st) ← match s.peer with
    | none => pure (0, st)
    | some p => do
        let peer ← st.deref p
        let st ← closePeer close st p
        pure (peer.id, st)
  let s ← st.deref a
  let st ← st.sendPacket s.transport ⟨A_CLSE, arg0, s.id, []⟩ none
  remoteSocketFree st a

def remoteSocketDisconnect (st : Server) (a : Nat) : Except Stop Server := do
  let s ← st.deref a
  let st ← match s.peer with
    | none => pure st
    | some p => closePeer close st p
  remoteSocketFree st a

def smartSocketClose (st : Server) (a : Nat) : Except Stop Server := do
  let s ← st.deref a
  let st ← match s.peer with
    | none => pure st
    | some p => closePeer close st p
  let _ ← st.deref a
  return st.free a

def deviceTrackerClose (st : Server) (a : Nat) : Except Stop Server := do
  let s ← st.deref a
  let st ← match s.peer with
    | none => pure st
    | some p => closePeer close st p
  let _ ← st.deref a
  return { st with deviceTrackerList := st.deviceTrackerList.erase a }.free a

end Close

-- s->close(s). The functions call each other through the pointers of the
-- sockets; depth bounds how deep.
def closeWithin : Nat → Server → Nat → Except Stop Server
  | 0, _, _ => .error .depth
  | depth + 1, st, a => do
      let s ← st.deref a
      match s.ops with
      | .localSocket => localSocketCloseLocked (closeWithin depth) st a
      | .localSocketNotify => localSocketCloseNotify (closeWithin depth) st a
      | .remoteSocket => remoteSocketClose (closeWithin depth) st a
      | .smartSocket => smartSocketClose (closeWithin depth) st a
      | .deviceTracker => deviceTrackerClose (closeWithin depth) st a

def close (st : Server) (a : Nat) : Except Stop Server :=
  closeWithin 3 st a

def queuePacket (st : Server) (a : Nat) (p : Bytes) : Except Stop (Int × Server) := do
  let s ← st.deref a
  -- make sure we are notified when we can drain the queue
  return (1, st.put a { s with pkts := s.pkts ++ [p], fde := fdeventAdd s.fde FDE_WRITE })

def localSocketEnqueue (st : Server) (a : Nat) (p : Bytes) : Except Stop (Int × Server) := do
  let s ← st.deref a
  if s.pkts ≠ [] then
    queuePacket st a p
  else
    let result := writeLoop false p st.script.writes
    let st := { st with script := { st.script with writes := result.writes } }.note
      (.wrote a result.written)
    match result.outcome with
    | .blocked => .error .blocked
    | .failed => do
        let st ← close st a
        return (1, st)
    | .done => return (0, st)
    | .again => queuePacket st a result.rest

def localSocketReady (st : Server) (a : Nat) : Except Stop Server := do
  let s ← st.deref a
  return st.put a { s with fde := fdeventAdd s.fde FDE_READ }

def localSocketReadyNotify (st : Server) (a : Nat) : Except Stop Server := do
  let s ← st.deref a
  let st := st.put a { s with ops := .localSocket }
  let st ← st.writeStatus a .okay
  localSocketReady st a

def remoteSocketEnqueue (st : Server) (a : Nat) (p : Bytes) : Except Stop (Int × Server) := do
  let s ← st.deref a
  match s.peer with
  | none => .error (.nullPeer .remoteEnqueue)
  | some l => do
      let peer ← st.deref l
      let st ← st.sendPacket s.transport ⟨A_WRTE, peer.id, s.id, p⟩ (some (l, a))
      return (1, st)

def remoteSocketReady (st : Server) (a : Nat) : Except Stop Server := do
  let s ← st.deref a
  match s.peer with
  | none => .error (.nullPeer .remoteReady)
  | some l => do
      let peer ← st.deref l
      st.sendPacket s.transport ⟨A_OKAY, peer.id, s.id, []⟩ none

def deviceTrackerEnqueue (st : Server) (a : Nat) : Except Stop (Int × Server) := do
  let st ← deviceTrackerClose close st a
  return (-1, st)

def connectToRemote (st : Server) (a : Nat) (destination : Bytes) : Except Stop Server := do
  let s ← st.deref a
  if destination.length + 1 > MAX_PAYLOAD - 1 then
    .error .exited
  else
    st.sendPacket s.transport ⟨A_OPEN, s.id, 0, destination ++ [0]⟩ none

-- The list changes under the loop, so it starts again after each close.
def closeAllFrom (t : Nat) : Nat → Server → Except Stop Server
  | 0, _ => .error .endless
  | fuel + 1, st => do
      let sockets ← localSockets st
      let bound := fun a => (st.socks a).any fun s => s.transport = some t ∨
        (s.peer.bind st.socks).any fun peer => peer.transport = some t
      match sockets.find? bound with
      | none => return st
      | some a => do
          let st ← localSocketCloseLocked close st a
          closeAllFrom t fuel st

def closeAllSockets (st : Server) (t : Nat) : Except Stop Server :=
  closeAllFrom t (st.nextSocket + 1) st

end Adb.Host
