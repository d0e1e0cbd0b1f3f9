import Adb.Host.Listeners
import Adb.Lib.CString

namespace Adb.Host

open Adb.Transport (TransportType)

def unhexDigit (c : UInt8) : Option Nat :=
  if 48 ≤ c ∧ c ≤ 57 then some (c.toNat - 48)
  else if 97 ≤ c ∧ c ≤ 102 then some (c.toNat - 87)
  else if 65 ≤ c ∧ c ≤ 70 then some (c.toNat - 55)
  else none

-- none stands for 0xffffffff.
def unhexFrom (n : Nat) : Bytes → Option Nat
  | [] => some n
  | c :: rest =>
      match unhexDigit c with
      | none => none
      | some digit => unhexFrom (n * 16 + digit) rest

def unhex (s : Bytes) : Option Nat := unhexFrom 0 s

-- The text up to a colon and the text behind it.
def splitColon (s : Bytes) : Option (Bytes × Bytes) :=
  match s.dropWhile (· ≠ 58) with
  | [] => none
  | _ :: rest => some (s.takeWhile (· ≠ 58), rest)

theorem splitColon_colon {host : Bytes} (h : 58 ∉ host) (rest : Bytes) :
    splitColon (host ++ 58 :: rest) = some (host, rest) := by
  simp only [splitColon, Lib.dropWhile_until h, Lib.takeWhile_until h]

def isDigit (c : UInt8) : Bool := 48 ≤ c ∧ c ≤ 57

-- skip_host_serial: the serial, which may be host:port, and what follows it.
def skipHostSerial (service : Bytes) : Option (Bytes × Bytes) :=
  match ["usb:", "product:", "model:", "device:"].find? fun p =>
      (afterPrefix p service).isSome with
  | some p => (splitColon (service.drop p.length)).map fun (serial, rest) =>
      (ascii p ++ serial, rest)
  | none =>
      match splitColon service with
      | none => none
      | some (host, rest) =>
          let port := rest.takeWhile isDigit
          match rest.drop port.length with
          | 58 :: behind => if port = [] then some (host, rest) else some (host ++ [58] ++ port, behind)
          | _ => some (host, rest)

-- What a request asks for: a host service for a transport that is named by type
-- or by serial, or a service of the selected transport.
inductive Request where
  | host (service : Bytes) (ttype : TransportType) (serial : Option Bytes)
  | device (service : Bytes)

def parseRequest (service : Bytes) : Request :=
  if let some rest := afterPrefix "host-serial:" service then
    match skipHostSerial rest with
    | some (serial, rest) => .host rest .any (some serial)
    | none => .host rest .any none
  else if let some rest := afterPrefix "host-usb:" service then .host rest .usb none
  else if let some rest := afterPrefix "host-local:" service then .host rest .loopback none
  else if let some rest := afterPrefix "host:" service then .host rest .any none
  else .device service

-- What the bytes that have come in amount to. The body is a string of C: it ends
-- at the first NUL.
inductive Framing where
  | incomplete
  | badSize
  | complete (service : Bytes)

def frame (data : Bytes) : Framing :=
  if data.length < 4 then
    .incomplete
  else
    match unhex (data.take 4) with
    | none => .badSize
    | some len =>
        if len < 1 ∨ len > 1024 then .badSize
        else if len + 4 > data.length then .incomplete
        else .complete (((data.drop 4).take len).takeWhile (· ≠ 0))

section Dispatch

variable (enqueue : Server → Nat → Bytes → Except Stop (Int × Server))

def deviceTrackerSend (st : Server) (a : Nat) (buffer : Bytes) : Except Stop (Int × Server) := do
  let tracker ← st.deref a
  match tracker.peer with
  | none => .error (.nullPeer .trackerSend)
  | some p => enqueue st p buffer

def deviceTrackerReady (st : Server) (a : Nat) : Except Stop Server := do
  let tracker ← st.deref a
  if tracker.updateNeeded then
    let st := st.put a { tracker with updateNeeded := false }
    let buffer ← listTransportsMsg st
    let (_, st) ← deviceTrackerSend enqueue st a buffer
    return st
  else
    return st

-- s->ready(s).
def readyWith (st : Server) (a : Nat) : Except Stop Server := do
  let s ← st.deref a
  match s.ops with
  | .localSocket => localSocketReady st a
  | .localSocketNotify => localSocketReadyNotify st a
  | .remoteSocket => remoteSocketReady st a
  | .smartSocket => return st
  | .deviceTracker => deviceTrackerReady enqueue st a

def createDeviceTracker (st : Server) : Nat × Server :=
  let (a, st) := allocSocket st { newSocket .deviceTracker with updateNeeded := true }
  (a, { st with deviceTrackerList := a :: st.deviceTrackerList })

def isWaitFor (name : Bytes) : Bool :=
  (afterPrefix "wait-for-" name).any fun name =>
    (afterPrefix "local" name).isSome || (afterPrefix "usb" name).isSome ||
      (afterPrefix "any" name).isSome

-- host_service_to_socket. The thread of a wait-for service gets the other end of
-- a socket pair.
def hostServiceToSocket (st : Server) (name : Bytes) : Except Stop (Option Nat × Server) := do
  if name = ascii "track-devices" then
    let (a, st) := createDeviceTracker st
    return (some a, st)
  else if isWaitFor name then do
    let (fd, st) ← st.openFd
    let (a, st) ← createLocalSocket st fd
    return (some a, st)
  else
    return (none, st)

-- The fail label of smart_socket_enqueue.
def smartFail (st : Server) (a : Nat) : Except Stop (Int × Server) := do
  let st ← close st a
  return (-1, st)

-- The smart socket's work is done: its peer goes to the service, and it is closed
-- without one.
def handOver (st : Server) (a l s2 : Nat) : Except Stop Server := do
  let st ← st.writeStatus l .okay
  let peer ← st.deref l
  let st := st.put l { peer with ops := .localSocket, peer := some s2 }
  let service ← st.deref s2
  let st := st.put s2 { service with peer := some l }
  let s ← st.deref a
  close (st.put a { s with peer := none }) a

-- Then the service is told it is ready to go.
def bindService (st : Server) (a l s2 : Nat) : Except Stop (Int × Server) := do
  let st ← handOver st a l s2
  let st ← readyWith enqueue st s2
  return (0, st)

def smartHostRequest (st : Server) (a : Nat) (service : Bytes) (ttype : TransportType)
    (serial : Option Bytes) : Except Stop (Int × Server) := do
  let s ← st.deref a
  match s.peer with
  | none => .error (.nullPeer .smartEnqueue)
  | some l => do
      let (r, st) ← handleHostRequest st (hostRequest service) ttype serial l a
      if r = 0 then
        smartFail st a
      else if (afterPrefix "transport" service).isSome then do
        -- p->len = 0
        let s ← st.deref a
        return (0, st.put a { s with pkts := [[]] })
      else do
        match ← hostServiceToSocket st service with
        | (none, st) => do
            let st ← st.writeStatus l (.fail "unknown host service")
            smartFail st a
        | (some s2, st) => bindService enqueue st a l s2

def isOffline (st : Server) (transport : Option Nat) : Except Stop Bool :=
  match transport with
  | none => .ok true
  | some t => do
      let transport ← st.derefTransport t
      return transport.connectionState = .offline

-- The peer gets the transport and passes the success or fail message back once
-- it connects or closes.
def smartForward (st : Server) (a : Nat) (service : Bytes) : Except Stop (Int × Server) := do
  let s ← st.deref a
  match s.peer with
  | none => .error (.nullPeer .smartEnqueue)
  | some l => do
      let offline ← isOffline st s.transport
      if offline then do
        let st ← st.writeStatus l (.fail "device offline (x)")
        smartFail st a
      else do
        let peer ← st.deref l
        let st := st.put l { peer with
          ops := .localSocketNotify, peer := none, transport := s.transport }
        let st ← connectToRemote (st.note (.forwarded l)) l service
        let st ← close (st.put a { s with peer := none }) a
        return (1, st)

def smartSocketEnqueue (st : Server) (a : Nat) (p : Bytes) : Except Stop (Int × Server) := do
  let s ← st.deref a
  let data := s.pkts.headD [] ++ p
  if s.pkts ≠ [] ∧ data.length > MAX_PAYLOAD then
    smartFail st a
  else do
    let st := st.put a { s with pkts := [data] }
    match frame data with
    | .incomplete => return (0, st)
    | .badSize => smartFail st a
    | .complete service =>
        match parseRequest service with
        | .host service ttype serial => smartHostRequest enqueue st a service ttype serial
        | .device service => smartForward st a service

end Dispatch

-- s->enqueue(s, p). A smart socket may start a tracker that sends its first
-- message at once; depth bounds how deep the calls go.
def enqueueWithin : Nat → Server → Nat → Bytes → Except Stop (Int × Server)
  | 0, _, _, _ => .error .depth
  | depth + 1, st, a, p => do
      let s ← st.deref a
      match s.ops with
      | .localSocket | .localSocketNotify => localSocketEnqueue st a p
      | .remoteSocket => remoteSocketEnqueue st a p
      | .smartSocket => smartSocketEnqueue (enqueueWithin depth) st a p
      | .deviceTracker => deviceTrackerEnqueue st a

def enqueue (st : Server) (a : Nat) (p : Bytes) : Except Stop (Int × Server) :=
  enqueueWithin 2 st a p

def ready (st : Server) (a : Nat) : Except Stop Server :=
  readyWith enqueue st a

def connectToSmartsocket (st : Server) (a : Nat) : Except Stop Server := do
  let (ss, st) := allocSocket st (newSocket .smartSocket)
  let s ← st.deref a
  let st := st.put a { s with peer := some ss }
  let smart ← st.deref ss
  let st := st.put ss { smart with peer := some a }
  ready st a

-- The part of local_socket_event_func for FDE_WRITE. true means that the
-- function goes on to FDE_READ.
def eventWrite (st : Server) (a : Nat) : Except Stop (Bool × Server) := do
  let s ← st.deref a
  let result := drainQueue s.pkts st.script.writes
  let st := ({ st with script := { st.script with writes := result.writes } }.put a
    { s with pkts := result.pkts }).note (.wrote a result.written)
  match result.outcome with
  | .blocked => .error .blocked
  | .again => return (false, st)
  | .failed => do
      let st ← close st a
      return (false, st)
  | .done =>
      if s.closing then do
        let st ← close st a
        return (false, st)
      else do
        let st := st.put a { s with pkts := [], fde := fdeventDel s.fde FDE_WRITE }
        match s.peer with
        | none => .error (.nullPeer .eventFunc)
        | some p => do
            let st ← ready st p
            return (true, st)

-- The log line after the call reads the socket, whether it is still there or not.
def logRead (st : Server) (a : Nat) : Server :=
  match st.socks a with
  | some _ => st
  | none => st.note (.readFreed a)

def eventRead (st : Server) (a : Nat) : Except Stop Server := do
  let s ← st.deref a
  let result := readLoop MAX_PAYLOAD st.script.reads
  if result.outcome = .blocked then
    .error .blocked
  else do
    let st := { st with script := { st.script with reads := result.reads } }.note
      (.read a s.peer result.bytes)
    let eof := result.outcome = .eof
    -- s->fde.force_eof is read here
    let finish := fun st : Server => do
      let _ ← st.deref a
      if eof then close st a else .ok st
    match s.peer with
    | none => finish st
    | some p =>
        if result.bytes = [] then
          finish st
        else do
          let (r, st) ← enqueue st p result.bytes
          let st := logRead st a
          if r < 0 then
            return st
          else if r > 0 then do
            let s ← st.deref a
            finish (st.put a { s with fde := fdeventDel s.fde FDE_READ })
          else
            finish st

def localSocketEventFunc (st : Server) (a : Nat) (events : BitVec 16) : Except Stop Server := do
  let (goOn, st) ← (if firesWrite events then eventWrite st a else pure (true, st))
  if goOn ∧ firesRead events then
    eventRead st a
  else
    return st

end Adb.Host
