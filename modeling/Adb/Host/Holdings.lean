import Adb.Host.SmartSocket
import Adb.Lib.Ledger
import Adb.Lib.Refine

namespace Adb.Host

open Adb.Lib
open Adb.Transport (TransportType)

-- The server and its packets: the queues from pkt_first on, those put back with
-- put_apacket and those given to a transport. What a packet holds is with the
-- sockets of the server.
structure Holdings where
  server : Server
  ledger : Ledger Nat

namespace Holdings

def put (h : Holdings) (a : Nat) (s : ASocket) : Holdings :=
  { h with server := h.server.put a s }

-- What no packet enters into.
def on (h : Holdings) (result : Except Stop Server) : Except Stop Holdings := do
  let server ← result
  return { h with server }

def onValue {α : Type} (h : Holdings) (result : Except Stop (α × Server)) :
    Except Stop (α × Holdings) := do
  let (value, server) ← result
  return (value, { h with server })

def putApacket (h : Holdings) (p : Nat) : Holdings :=
  { h with ledger := h.ledger.release [p] }

-- The loop of local_socket_destroy.
def putQueue (h : Holdings) (a : Nat) : Holdings :=
  { h with ledger := h.ledger.release (h.ledger.queue a) }

-- put_apacket(s->pkt_first) if there is one.
def putFirst (h : Holdings) (a : Nat) : Holdings :=
  match h.ledger.queue a with
  | [] => h
  | p :: _ => h.putApacket p

def getApacket (h : Holdings) : Nat × Holdings :=
  (h.ledger.next, { h with ledger := h.ledger.fresh })

def sendPacket (h : Holdings) (p : Nat) (t : Option Nat) (message : Message)
    (carried : Option (Nat × Nat)) : Except Stop Holdings := do
  let server ← h.server.sendPacket t message carried
  return { server, ledger := h.ledger.hand p }

def free (h : Holdings) (a : Nat) : Holdings :=
  { server := h.server.free a, ledger := h.ledger.drop a }

-- calloc clears pkt_first.
def allocSocket (h : Holdings) (s : ASocket) : Nat × Holdings :=
  let (a, server) := Host.allocSocket h.server s
  (a, { server, ledger := h.ledger.drop a })

section Close

variable (close : Holdings → Nat → Except Stop Holdings)

def closePeer (h : Holdings) (p : Nat) : Except Stop Holdings := do
  let peer ← h.server.deref p
  close (h.put p { peer with peer := none }) p

def localSocketDestroy (h : Holdings) (a : Nat) : Except Stop Holdings := do
  let _ ← h.server.deref a
  let h := h.putQueue a
  let h ← h.on (removeSocket (h.server.note (.closedFd a)) a)
  return h.free a

def localSocketFinish (h : Holdings) (a : Nat) : Except Stop Holdings := do
  let s ← h.server.deref a
  if s.closing ∨ s.pkts = [] then
    h.localSocketDestroy a
  else
    let h := h.put a { s with closing := true, fde := fdeventDel s.fde FDE_READ }
    let h ← h.on (removeSocket h.server a)
    h.on (insertLocalSocket h.server a .closingList)

def localSocketCloseLocked (h : Holdings) (a : Nat) : Except Stop Holdings := do
  let s ← h.server.deref a
  match s.peer with
  | none => h.localSocketFinish a
  | some p => do
      let h ← closePeer close h p
      let s ← h.server.deref a
      (h.put a { s with peer := none }).localSocketFinish a

def localSocketCloseNotify (h : Holdings) (a : Nat) : Except Stop Holdings := do
  let s ← h.server.deref a
  let h := h.put a { s with ops := .localSocket }
  let h ← h.on (h.server.writeStatus a (.fail "closed"))
  localSocketCloseLocked close h a

def remoteSocketFree (h : Holdings) (a : Nat) : Except Stop Holdings := do
  let s ← h.server.deref a
  match s.transport with
  | none => .error .useAfterFree
  | some t => do
      let h ← h.on (h.server.removeTransportDisconnect t (.remote a))
      return h.free a

def remoteSocketClose (h : Holdings) (a : Nat) : Except Stop Holdings := do
  let s ← h.server.deref a
  let (p, h) := h.getApacket
  let (arg0, h) ← match s.peer with
    | none => pure (0, h)
    | some l => do
        let peer ← h.server.deref l
        let h ← closePeer close h l
        pure (peer.id, h)
  let s ← h.server.deref a
  let h ← h.sendPacket p s.transport ⟨A_CLSE, arg0, s.id, []⟩ none
  h.remoteSocketFree a

-- pkt_first stays behind until the socket is freed.
def smartSocketClose (h : Holdings) (a : Nat) : Except Stop Holdings := do
  let s ← h.server.deref a
  let h := h.putFirst a
  let h ← match s.peer with
    | none => pure h
    | some p => closePeer close h p
  let _ ← h.server.deref a
  return h.free a

def deviceTrackerClose (h : Holdings) (a : Nat) : Except Stop Holdings := do
  let s ← h.server.deref a
  let h ← match s.peer with
    | none => pure h
    | some p => closePeer close h p
  let _ ← h.server.deref a
  let server := { h.server with deviceTrackerList := h.server.deviceTrackerList.erase a }
  return { h with server }.free a

end Close

def closeWithin : Nat → Holdings → Nat → Except Stop Holdings
  | 0, _, _ => .error .depth
  | depth + 1, h, a => do
      let s ← h.server.deref a
      match s.ops with
      | .localSocket => localSocketCloseLocked (closeWithin depth) h a
      | .localSocketNotify => localSocketCloseNotify (closeWithin depth) h a
      | .remoteSocket => remoteSocketClose (closeWithin depth) h a
      | .smartSocket => smartSocketClose (closeWithin depth) h a
      | .deviceTracker => deviceTrackerClose (closeWithin depth) h a

def close (h : Holdings) (a : Nat) : Except Stop Holdings :=
  closeWithin 3 h a

-- The enqueue label of local_socket_enqueue: p, of which data is left, goes to
-- the end of the queue.
def queuePacket (h : Holdings) (a p : Nat) (data : Bytes) : Except Stop (Int × Holdings) := do
  let s ← h.server.deref a
  let h := { h with ledger := h.ledger.keep a p }
  return (1, h.put a { s with pkts := s.pkts ++ [data], fde := fdeventAdd s.fde FDE_WRITE })

def localSocketEnqueue (h : Holdings) (a p : Nat) (data : Bytes) :
    Except Stop (Int × Holdings) := do
  let s ← h.server.deref a
  if s.pkts ≠ [] then
    h.queuePacket a p data
  else
    let result := writeLoop false data h.server.script.writes
    let server := { h.server with script := { h.server.script with writes := result.writes } }.note
      (.wrote a result.written)
    let h := { h with server }
    match result.outcome with
    | .blocked => .error .blocked
    | .failed => do
        let h ← h.close a
        return (1, h)
    | .done => return (0, h.putApacket p)
    | .again => h.queuePacket a p result.rest

def remoteSocketEnqueue (h : Holdings) (a p : Nat) (data : Bytes) :
    Except Stop (Int × Holdings) := do
  let s ← h.server.deref a
  match s.peer with
  | none => .error (.nullPeer .remoteEnqueue)
  | some l => do
      let peer ← h.server.deref l
      let h ← h.sendPacket p s.transport ⟨A_WRTE, peer.id, s.id, data⟩ (some (l, a))
      return (1, h)

def remoteSocketReady (h : Holdings) (a : Nat) : Except Stop Holdings := do
  let s ← h.server.deref a
  let (p, h) := h.getApacket
  match s.peer with
  | none => .error (.nullPeer .remoteReady)
  | some l => do
      let peer ← h.server.deref l
      h.sendPacket p s.transport ⟨A_OKAY, peer.id, s.id, []⟩ none

def deviceTrackerEnqueue (h : Holdings) (a p : Nat) : Except Stop (Int × Holdings) := do
  let h ← deviceTrackerClose close (h.putApacket p) a
  return (-1, h)

def connectToRemote (h : Holdings) (a : Nat) (destination : Bytes) : Except Stop Holdings := do
  let s ← h.server.deref a
  let (p, h) := h.getApacket
  if destination.length + 1 > MAX_PAYLOAD - 1 then
    .error .exited
  else
    h.sendPacket p s.transport ⟨A_OPEN, s.id, 0, destination ++ [0]⟩ none

section Dispatch

variable (enqueue : Holdings → Nat → Nat → Bytes → Except Stop (Int × Holdings))

def deviceTrackerSend (h : Holdings) (a : Nat) (buffer : Bytes) :
    Except Stop (Int × Holdings) := do
  let (p, h) := h.getApacket
  let tracker ← h.server.deref a
  match tracker.peer with
  | none => .error (.nullPeer .trackerSend)
  | some l => enqueue h l p buffer

def deviceTrackerReady (h : Holdings) (a : Nat) : Except Stop Holdings := do
  let tracker ← h.server.deref a
  if tracker.updateNeeded then
    let h := h.put a { tracker with updateNeeded := false }
    let buffer ← listTransportsMsg h.server
    let (_, h) ← deviceTrackerSend enqueue h a buffer
    return h
  else
    return h

def readyWith (h : Holdings) (a : Nat) : Except Stop Holdings := do
  let s ← h.server.deref a
  match s.ops with
  | .localSocket => h.on (localSocketReady h.server a)
  | .localSocketNotify => h.on (localSocketReadyNotify h.server a)
  | .remoteSocket => h.remoteSocketReady a
  | .smartSocket => return h
  | .deviceTracker => deviceTrackerReady enqueue h a

def createDeviceTracker (h : Holdings) : Nat × Holdings :=
  let (a, h) := h.allocSocket { newSocket .deviceTracker with updateNeeded := true }
  (a, { h with server := { h.server with
    deviceTrackerList := a :: h.server.deviceTrackerList } })

def createLocalSocket (h : Holdings) (fd : Option Nat) : Except Stop (Nat × Holdings) :=
  match fd with
  | none => .error .exited
  | some fd => do
      let (a, h) := h.allocSocket { newSocket .localSocket with fd }
      let h ← h.on (installLocalSocket h.server a)
      return (a, h)

def hostServiceToSocket (h : Holdings) (name : Bytes) :
    Except Stop (Option Nat × Holdings) := do
  if name = ascii "track-devices" then
    let (a, h) := h.createDeviceTracker
    return (some a, h)
  else if isWaitFor name then do
    let (fd, h) ← h.onValue h.server.openFd
    let (a, h) ← h.createLocalSocket fd
    return (some a, h)
  else
    return (none, h)

def smartFail (h : Holdings) (a : Nat) : Except Stop (Int × Holdings) := do
  let h ← h.close a
  return (-1, h)

def handOver (h : Holdings) (a l s2 : Nat) : Except Stop Holdings := do
  let h ← h.on (h.server.writeStatus l .okay)
  let peer ← h.server.deref l
  let h := h.put l { peer with ops := .localSocket, peer := some s2 }
  let service ← h.server.deref s2
  let h := h.put s2 { service with peer := some l }
  let s ← h.server.deref a
  (h.put a { s with peer := none }).close a

def bindService (h : Holdings) (a l s2 : Nat) : Except Stop (Int × Holdings) := do
  let h ← h.handOver a l s2
  let h ← readyWith enqueue h s2
  return (0, h)

def smartHostRequest (h : Holdings) (a : Nat) (service : Bytes) (ttype : TransportType)
    (serial : Option Bytes) : Except Stop (Int × Holdings) := do
  let s ← h.server.deref a
  match s.peer with
  | none => .error (.nullPeer .smartEnqueue)
  | some l => do
      let (r, h) ← h.onValue
        (handleHostRequest h.server (hostRequest service) ttype serial l a)
      if r = 0 then
        h.smartFail a
      else if (afterPrefix "transport" service).isSome then do
        let s ← h.server.deref a
        return (0, h.put a { s with pkts := [[]] })
      else do
        match ← h.hostServiceToSocket service with
        | (none, h) => do
            let h ← h.on (h.server.writeStatus l (.fail "unknown host service"))
            h.smartFail a
        | (some s2, h) => bindService enqueue h a l s2

def smartForward (h : Holdings) (a : Nat) (service : Bytes) : Except Stop (Int × Holdings) := do
  let s ← h.server.deref a
  match s.peer with
  | none => .error (.nullPeer .smartEnqueue)
  | some l => do
      let offline ← isOffline h.server s.transport
      if offline then do
        let h ← h.on (h.server.writeStatus l (.fail "device offline (x)"))
        h.smartFail a
      else do
        let peer ← h.server.deref l
        let h := h.put l { peer with
          ops := .localSocketNotify, peer := none, transport := s.transport }
        let h ← { h with server := h.server.note (.forwarded l) }.connectToRemote l service
        let h ← (h.put a { s with peer := none }).close a
        return (1, h)

-- What is done with the first packet once data is in it.
def smartRequest (h : Holdings) (a : Nat) (data : Bytes) : Except Stop (Int × Holdings) :=
  match frame data with
  | .incomplete => return (0, h)
  | .badSize => h.smartFail a
  | .complete service =>
      match parseRequest service with
      | .host service ttype serial => smartHostRequest enqueue h a service ttype serial
      | .device service => h.smartForward a service

-- The first packet is kept, and what comes later is copied into it.
def smartSocketEnqueue (h : Holdings) (a p : Nat) (data : Bytes) :
    Except Stop (Int × Holdings) := do
  let s ← h.server.deref a
  let joined := s.pkts.headD [] ++ data
  if s.pkts = [] then
    let h := { h with ledger := h.ledger.keep a p }
    smartRequest enqueue (h.put a { s with pkts := [joined] }) a joined
  else if joined.length > MAX_PAYLOAD then
    (h.putApacket p).smartFail a
  else
    smartRequest enqueue ((h.putApacket p).put a { s with pkts := [joined] }) a joined

end Dispatch

def enqueueWithin : Nat → Holdings → Nat → Nat → Bytes → Except Stop (Int × Holdings)
  | 0, _, _, _, _ => .error .depth
  | depth + 1, h, a, p, data => do
      let s ← h.server.deref a
      match s.ops with
      | .localSocket | .localSocketNotify => h.localSocketEnqueue a p data
      | .remoteSocket => h.remoteSocketEnqueue a p data
      | .smartSocket => smartSocketEnqueue (enqueueWithin depth) h a p data
      | .deviceTracker => h.deviceTrackerEnqueue a p

-- s->enqueue(s, p), where p holds data.
def enqueue (h : Holdings) (a p : Nat) (data : Bytes) : Except Stop (Int × Holdings) :=
  enqueueWithin 2 h a p data

section Erasure

variable {h : Holdings} {a p l s2 : Nat}

-- The value of a call and the server it leaves.
def outcome {α : Type} (result : α × Holdings) : α × Server := (result.1, result.2.server)

theorem on_erases (h : Holdings) (result : Except Stop Server) :
    Erases server (h.on result) result := by
  cases result <;> rfl

theorem onValue_erases {α : Type} (h : Holdings) (result : Except Stop (α × Server)) :
    Erases outcome (h.onValue result) result := by
  cases result <;> rfl

theorem sendPacket_erases (h : Holdings) (p : Nat) (t : Option Nat) (message : Message)
    (carried : Option (Nat × Nat)) :
    Erases server (h.sendPacket p t message carried) (h.server.sendPacket t message carried) := by
  unfold sendPacket
  cases h.server.sendPacket t message carried <;> rfl

theorem putFirst_server (h : Holdings) (a : Nat) : (h.putFirst a).server = h.server := by
  unfold putFirst
  split <;> rfl

section Close

-- The same close, with the packets and without them.
abbrev ErasesClose (close : Holdings → Nat → Except Stop Holdings)
    (plain : Server → Nat → Except Stop Server) : Prop :=
  ∀ h a, Erases server (close h a) (plain h.server a)

variable {close : Holdings → Nat → Except Stop Holdings}
  {plain : Server → Nat → Except Stop Server}

theorem closePeer_erases (hclose : ErasesClose close plain)
    (h : Holdings) (p : Nat) : Erases server (closePeer close h p) (Host.closePeer plain h.server p) :=
  erases_bind fun _ => hclose _ _

theorem localSocketDestroy_erases (h : Holdings) (a : Nat) :
    Erases server (h.localSocketDestroy a) (Host.localSocketDestroy h.server a) :=
  erases_bind fun _ => (on_erases _ _).bind fun _ => rfl

theorem localSocketFinish_erases (h : Holdings) (a : Nat) :
    Erases server (h.localSocketFinish a) (Host.localSocketFinish h.server a) := by
  refine erases_bind fun s => ?_
  split
  · exact localSocketDestroy_erases h a
  · exact (on_erases _ _).bind fun _ => on_erases _ _

theorem localSocketCloseLocked_erases (hclose : ErasesClose close plain) (h : Holdings) (a : Nat) :
    Erases server (localSocketCloseLocked close h a) (Host.localSocketCloseLocked plain h.server a) := by
  refine erases_bind fun s => ?_
  cases s.peer with
  | none => exact localSocketFinish_erases h a
  | some p =>
      refine (closePeer_erases hclose h p).bind fun mid => ?_
      exact erases_bind fun _ => localSocketFinish_erases _ a

theorem localSocketCloseNotify_erases (hclose : ErasesClose close plain) (h : Holdings) (a : Nat) :
    Erases server (localSocketCloseNotify close h a) (Host.localSocketCloseNotify plain h.server a) := by
  refine erases_bind fun s => ?_
  exact (on_erases _ _).bind fun mid => localSocketCloseLocked_erases hclose mid a

theorem remoteSocketFree_erases (h : Holdings) (a : Nat) :
    Erases server (h.remoteSocketFree a) (Host.remoteSocketFree h.server a) := by
  refine erases_bind fun s => ?_
  cases s.transport with
  | none => rfl
  | some t => exact (on_erases _ _).bind fun _ => rfl

theorem remoteSocketClose_erases (hclose : ErasesClose close plain) (h : Holdings) (a : Nat) :
    Erases server (remoteSocketClose close h a) (Host.remoteSocketClose plain h.server a) := by
  have hend : ∀ (arg0 : UInt32) (p : Nat) (mid : Holdings), Erases server
      (do
        let s ← mid.server.deref a
        let h ← mid.sendPacket p s.transport ⟨A_CLSE, arg0, s.id, []⟩ none
        h.remoteSocketFree a)
      (do
        let s ← mid.server.deref a
        let st ← mid.server.sendPacket s.transport ⟨A_CLSE, arg0, s.id, []⟩ none
        Host.remoteSocketFree st a) := by
    intro arg0 p mid
    refine erases_bind fun s => ?_
    exact (sendPacket_erases _ _ _ _ _).bind fun sent => remoteSocketFree_erases sent a
  unfold remoteSocketClose Host.remoteSocketClose
  refine erases_bind fun s => ?_
  cases s.peer with
  | none => exact hend 0 h.ledger.next h.getApacket.2
  | some l =>
      refine erases_bind fun peer => ?_
      refine (closePeer_erases hclose h.getApacket.2 l).bind fun mid => ?_
      exact hend peer.id h.ledger.next mid

theorem smartSocketClose_erases (hclose : ErasesClose close plain) (h : Holdings) (a : Nat) :
    Erases server (smartSocketClose close h a) (Host.smartSocketClose plain h.server a) := by
  have hend : ∀ mid : Holdings, Erases server
      (do
        let _ ← mid.server.deref a
        return mid.free a)
      (do
        let _ ← mid.server.deref a
        return mid.server.free a) :=
    fun mid => erases_bind fun _ => rfl
  unfold smartSocketClose Host.smartSocketClose
  refine erases_bind fun s => ?_
  cases s.peer with
  | none =>
      have hfirst : Erases server (pure (h.putFirst a)) (pure h.server : Except Stop Server) :=
        congrArg Except.ok (putFirst_server h a)
      exact hfirst.bind hend
  | some p =>
      have hclosed := closePeer_erases hclose (h.putFirst a) p
      rw [putFirst_server] at hclosed
      exact hclosed.bind hend

theorem deviceTrackerClose_erases (hclose : ErasesClose close plain) (h : Holdings) (a : Nat) :
    Erases server (deviceTrackerClose close h a) (Host.deviceTrackerClose plain h.server a) := by
  have hend : ∀ mid : Holdings, Erases server
      (do
        let _ ← mid.server.deref a
        let server := { mid.server with deviceTrackerList := mid.server.deviceTrackerList.erase a }
        return { mid with server }.free a)
      (do
        let _ ← mid.server.deref a
        return { mid.server with
          deviceTrackerList := mid.server.deviceTrackerList.erase a }.free a) :=
    fun mid => erases_bind fun _ => rfl
  unfold deviceTrackerClose Host.deviceTrackerClose
  refine erases_bind fun s => ?_
  cases s.peer with
  | none => exact hend h
  | some p => exact (closePeer_erases hclose h p).bind hend

theorem closeWithin_erases (depth : Nat) (h : Holdings) (a : Nat) :
    Erases server (closeWithin depth h a) (Host.closeWithin depth h.server a) := by
  induction depth generalizing h a with
  | zero => rfl
  | succ depth ih =>
      refine erases_bind fun s => ?_
      cases s.ops with
      | localSocket => exact localSocketCloseLocked_erases ih h a
      | localSocketNotify => exact localSocketCloseNotify_erases ih h a
      | remoteSocket => exact remoteSocketClose_erases ih h a
      | smartSocket => exact smartSocketClose_erases ih h a
      | deviceTracker => exact deviceTrackerClose_erases ih h a

theorem close_erases (h : Holdings) (a : Nat) :
    Erases server (h.close a) (Host.close h.server a) :=
  closeWithin_erases 3 h a

end Close

theorem queuePacket_erases (h : Holdings) (a p : Nat) (data : Bytes) :
    Erases outcome (h.queuePacket a p data) (Host.queuePacket h.server a data) :=
  erases_bind fun _ => rfl

theorem localSocketEnqueue_erases (h : Holdings) (a p : Nat) (data : Bytes) :
    Erases outcome (h.localSocketEnqueue a p data) (Host.localSocketEnqueue h.server a data) := by
  unfold localSocketEnqueue Host.localSocketEnqueue
  refine erases_bind fun s => ?_
  split
  · exact queuePacket_erases h a p data
  · simp only
    cases (writeLoop false data h.server.script.writes).outcome with
    | blocked => rfl
    | failed => exact (close_erases _ a).bind fun _ => rfl
    | done => rfl
    | again => exact queuePacket_erases _ a p _

theorem remoteSocketEnqueue_erases (h : Holdings) (a p : Nat) (data : Bytes) :
    Erases outcome (h.remoteSocketEnqueue a p data) (Host.remoteSocketEnqueue h.server a data) := by
  refine erases_bind fun s => ?_
  cases s.peer with
  | none => rfl
  | some l => exact erases_bind fun _ => (sendPacket_erases _ _ _ _ _).bind fun _ => rfl

theorem remoteSocketReady_erases (h : Holdings) (a : Nat) :
    Erases server (h.remoteSocketReady a) (Host.remoteSocketReady h.server a) := by
  refine erases_bind fun s => ?_
  cases s.peer with
  | none => rfl
  | some l => exact erases_bind fun _ => sendPacket_erases _ _ _ _ _

theorem deviceTrackerEnqueue_erases (h : Holdings) (a p : Nat) :
    Erases outcome (h.deviceTrackerEnqueue a p) (Host.deviceTrackerEnqueue h.server a) :=
  (deviceTrackerClose_erases close_erases (h.putApacket p) a).bind fun _ => rfl

theorem connectToRemote_erases (h : Holdings) (a : Nat) (destination : Bytes) :
    Erases server (h.connectToRemote a destination)
      (Host.connectToRemote h.server a destination) := by
  refine erases_bind fun s => ?_
  simp only
  split
  · rfl
  · exact sendPacket_erases _ _ _ _ _

theorem createLocalSocket_erases (h : Holdings) (fd : Option Nat) :
    Erases outcome (h.createLocalSocket fd) (Host.createLocalSocket h.server fd) := by
  cases fd with
  | none => rfl
  | some fd => exact (on_erases _ _).bind fun _ => rfl

theorem hostServiceToSocket_erases (h : Holdings) (name : Bytes) :
    Erases outcome (h.hostServiceToSocket name) (Host.hostServiceToSocket h.server name) := by
  unfold hostServiceToSocket Host.hostServiceToSocket
  split
  · rfl
  · split
    · refine (onValue_erases _ _).bind fun (fd, mid) => ?_
      exact (createLocalSocket_erases mid fd).bind fun _ => rfl
    · rfl

theorem smartFail_erases (h : Holdings) (a : Nat) :
    Erases outcome (h.smartFail a) (Host.smartFail h.server a) :=
  (close_erases h a).bind fun _ => rfl

theorem handOver_erases (h : Holdings) (a l s2 : Nat) :
    Erases server (h.handOver a l s2) (Host.handOver h.server a l s2) := by
  refine (on_erases _ _).bind fun mid => ?_
  refine erases_bind fun peer => erases_bind fun service => erases_bind fun s => ?_
  exact close_erases _ a

section Dispatch

abbrev ErasesEnqueue (enqueue : Holdings → Nat → Nat → Bytes → Except Stop (Int × Holdings))
    (plain : Server → Nat → Bytes → Except Stop (Int × Server)) : Prop :=
  ∀ h a p data, Erases outcome (enqueue h a p data) (plain h.server a data)

variable {enqueue : Holdings → Nat → Nat → Bytes → Except Stop (Int × Holdings)}
  {plain : Server → Nat → Bytes → Except Stop (Int × Server)}

theorem deviceTrackerSend_erases (henqueue : ErasesEnqueue enqueue plain)
    (h : Holdings) (a : Nat) (buffer : Bytes) :
    Erases outcome (deviceTrackerSend enqueue h a buffer)
      (Host.deviceTrackerSend plain h.server a buffer) := by
  refine erases_bind fun tracker => ?_
  cases tracker.peer with
  | none => rfl
  | some l => exact henqueue _ l _ buffer

theorem deviceTrackerReady_erases (henqueue : ErasesEnqueue enqueue plain)
    (h : Holdings) (a : Nat) :
    Erases server (deviceTrackerReady enqueue h a) (Host.deviceTrackerReady plain h.server a) := by
  refine erases_bind fun tracker => ?_
  split
  · refine erases_bind fun buffer => ?_
    exact (deviceTrackerSend_erases henqueue _ a buffer).bind fun _ => rfl
  · rfl

theorem readyWith_erases (henqueue : ErasesEnqueue enqueue plain) (h : Holdings) (a : Nat) :
    Erases server (readyWith enqueue h a) (Host.readyWith plain h.server a) := by
  refine erases_bind fun s => ?_
  cases s.ops with
  | localSocket => exact on_erases _ _
  | localSocketNotify => exact on_erases _ _
  | remoteSocket => exact remoteSocketReady_erases h a
  | smartSocket => rfl
  | deviceTracker => exact deviceTrackerReady_erases henqueue h a

theorem bindService_erases (henqueue : ErasesEnqueue enqueue plain) (h : Holdings) (a l s2 : Nat) :
    Erases outcome (bindService enqueue h a l s2) (Host.bindService plain h.server a l s2) := by
  refine (handOver_erases h a l s2).bind fun mid => ?_
  exact (readyWith_erases henqueue mid s2).bind fun _ => rfl

theorem smartHostRequest_erases (henqueue : ErasesEnqueue enqueue plain)
    (h : Holdings) (a : Nat) (service : Bytes) (ttype : TransportType) (serial : Option Bytes) :
    Erases outcome (smartHostRequest enqueue h a service ttype serial)
      (Host.smartHostRequest plain h.server a service ttype serial) := by
  refine erases_bind fun s => ?_
  cases s.peer with
  | none => rfl
  | some l =>
      refine (onValue_erases _ _).bind fun (r, mid) => ?_
      by_cases hr : r = 0
      · simp only [outcome, hr, if_true]
        exact smartFail_erases mid a
      · simp only [outcome, hr, if_false]
        split
        · exact erases_bind fun _ => rfl
        · refine (hostServiceToSocket_erases mid service).bind fun (found, made) => ?_
          cases found with
          | none => exact (on_erases _ _).bind fun told => smartFail_erases told a
          | some s2 => exact bindService_erases henqueue made a l s2

theorem smartForward_erases (h : Holdings) (a : Nat) (service : Bytes) :
    Erases outcome (h.smartForward a service) (Host.smartForward h.server a service) := by
  refine erases_bind fun s => ?_
  cases s.peer with
  | none => rfl
  | some l =>
      refine erases_bind fun offline => ?_
      split
      · exact (on_erases _ _).bind fun told => smartFail_erases told a
      · refine erases_bind fun peer => ?_
        refine (connectToRemote_erases _ l service).bind fun mid => ?_
        exact (close_erases _ a).bind fun _ => rfl

theorem smartSocketEnqueue_erases (henqueue : ErasesEnqueue enqueue plain)
    (h : Holdings) (a p : Nat) (data : Bytes) :
    Erases outcome (smartSocketEnqueue enqueue h a p data)
      (Host.smartSocketEnqueue plain h.server a data) := by
  have hrequest : ∀ (mid : Holdings) (joined : Bytes), Erases outcome
      (smartRequest enqueue mid a joined)
      (match frame joined with
        | .incomplete => return (0, mid.server)
        | .badSize => Host.smartFail mid.server a
        | .complete service =>
            match parseRequest service with
            | .host service ttype serial =>
                Host.smartHostRequest plain mid.server a service ttype serial
            | .device service => Host.smartForward mid.server a service) := by
    intro mid joined
    unfold smartRequest
    cases frame joined with
    | incomplete => rfl
    | badSize => exact smartFail_erases mid a
    | complete service =>
        simp only
        cases parseRequest service with
        | host service ttype serial => exact smartHostRequest_erases henqueue mid a service ttype serial
        | device service => exact smartForward_erases mid a service
  unfold smartSocketEnqueue Host.smartSocketEnqueue
  refine erases_bind fun s => ?_
  simp only
  by_cases hpkts : s.pkts = []
  · rw [if_pos hpkts, if_neg (fun hfull => hfull.1 hpkts)]
    exact hrequest _ _
  · rw [if_neg hpkts]
    by_cases hlong : (s.pkts.headD [] ++ data).length > MAX_PAYLOAD
    · rw [if_pos hlong, if_pos ⟨hpkts, hlong⟩]
      exact smartFail_erases _ a
    · rw [if_neg hlong, if_neg (fun hfull => hlong hfull.2)]
      exact hrequest _ _

end Dispatch

theorem enqueueWithin_erases (depth : Nat) (h : Holdings) (a p : Nat) (data : Bytes) :
    Erases outcome (enqueueWithin depth h a p data) (Host.enqueueWithin depth h.server a data) := by
  induction depth generalizing h a p data with
  | zero => rfl
  | succ depth ih =>
      refine erases_bind fun s => ?_
      cases s.ops with
      | localSocket => exact localSocketEnqueue_erases h a p data
      | localSocketNotify => exact localSocketEnqueue_erases h a p data
      | remoteSocket => exact remoteSocketEnqueue_erases h a p data
      | smartSocket => exact smartSocketEnqueue_erases ih h a p data
      | deviceTracker => exact deviceTrackerEnqueue_erases h a p

-- Without the packets it is the enqueue of the server.
theorem enqueue_erases (h : Holdings) (a p : Nat) (data : Bytes) :
    Erases outcome (h.enqueue a p data) (Host.enqueue h.server a data) :=
  enqueueWithin_erases 2 h a p data

end Erasure

end Holdings

end Adb.Host
