import Adb.Host.SmartSocket

namespace Adb.Host

open Adb.Transport (ConnectionState TransportType)

-- A packet as the transport hands it over: the payload, which check_header and
-- check_data have passed, and what the buffer holds behind it.
structure Packet where
  command : UInt32
  arg0 : UInt32
  arg1 : UInt32
  payload : Bytes
  slack : Bytes

-- The next one is read before the tracker, which may go away, is sent to.
def updateFrom (buffer : Bytes) : Nat → Option Nat → Server → Except Stop Server
  | _, none, st => .ok st
  | 0, some _, _ => .error .endless
  | fuel + 1, some tracker, st =>
      match st.deviceTrackerList.dropWhile (· ≠ tracker) with
      | [] => .error .useAfterFree
      | _ :: rest => do
          let (_, st) ← deviceTrackerSend enqueue st tracker buffer
          updateFrom buffer fuel rest.head? st

def updateTransports (st : Server) : Except Stop Server := do
  let buffer ← listTransportsMsg st
  updateFrom buffer st.deviceTrackerList.length st.deviceTrackerList.head? st

def handleOnline (st : Server) (t : Nat) : Except Stop Server := do
  let transport ← st.derefTransport t
  return st.putTransport t { transport with online := true }

def handleOffline (st : Server) (t : Nat) : Except Stop Server := do
  let transport ← st.derefTransport t
  runTransportDisconnects (st.putTransport t { transport with online := false }) t

def setConnectionState (st : Server) (t : Nat) (state : ConnectionState) :
    Except Stop Server := do
  let transport ← st.derefTransport t
  return st.putTransport t { transport with connectionState := state }

def sendConnect (st : Server) (t : Nat) : Except Stop Server :=
  st.sendPacket (some t) ⟨A_CNXN, A_VERSION, 4096, ascii "host::" ++ [0]⟩ none

def sendReady (st : Server) (localId remoteId : UInt32) (t : Nat) : Except Stop Server :=
  st.sendPacket (some t) ⟨A_OKAY, localId, remoteId, []⟩ none

def sendClose (st : Server) (localId remoteId : UInt32) (t : Nat) : Except Stop Server :=
  st.sendPacket (some t) ⟨A_CLSE, localId, remoteId, []⟩ none

-- The tokens of adb_strtok_r.
def tokens (sep : UInt8) (s : Bytes) : List Bytes :=
  (s.splitOn sep).filter (· ≠ [])

-- Null or empty sources leave a null string.
def qualOverwrite (src : Bytes) : Option Bytes :=
  if src = [] then none else some src

def setProperty (t : ATransport) (token : Bytes) : ATransport :=
  match token.dropWhile (· ≠ 61) with
  | [] => t
  | _ :: value =>
      let key := token.takeWhile (· ≠ 61)
      if key = ascii "ro.product.name" then { t with product := qualOverwrite value }
      else if key = ascii "ro.product.model" then { t with model := qualOverwrite value }
      else if key = ascii "ro.product.device" then { t with device := qualOverwrite value }
      else t

def bannerState (type : Bytes) : Option ConnectionState :=
  if type = ascii "bootloader" then some .bootloader
  else if type = ascii "device" then some .device
  else if type = ascii "recovery" then some .recovery
  else if type = ascii "sideload" then some .sideload
  else none

-- The properties of a banner are what follows its second colon.
def setProperties (transport : ATransport) (banner : Bytes) : ATransport :=
  let properties := ((splitColon banner).bind fun (_, rest) => splitColon rest).elim []
    fun (_, rest) => tokens 59 rest
  properties.foldl setProperty transport

-- The banner is the text up to the first NUL, wherever that is in the buffer.
def parseBanner (st : Server) (t : Nat) (buffer : Bytes) : Except Stop Server := do
  let transport ← st.derefTransport t
  let banner := buffer.takeWhile (· ≠ 0)
  let type := banner.takeWhile (· ≠ 58)
  let transport := setProperties transport banner
  match bannerState type with
  | some state => updateTransports (st.putTransport t { transport with connectionState := state })
  | none => return st.putTransport t { transport with connectionState := .host }

-- service_to_fd of the host build on Windows.
def serviceToFd (st : Server) (name : Bytes) : Except Stop (Option Nat × Server) :=
  if (afterPrefix "tcp:" name).isSome || (afterPrefix "dns:" name).isSome then st.openFd
  else .ok (none, st)

def createLocalServiceSocket (st : Server) (name : Bytes) : Except Stop (Option Nat × Server) := do
  match ← serviceToFd st name with
  | (none, st) => return (none, st)
  | (some fd, st) => do
      let (a, st) ← createLocalSocket st (some fd)
      return (some a, st)

-- s->peer = create_remote_socket(id, t); s->peer->peer = s;
def attachRemote (st : Server) (a : Nat) (id : UInt32) (t : Nat) : Except Stop Server := do
  let (r, st) ← createRemoteSocket st id t
  let s ← st.deref a
  let st := st.put a { s with peer := some r }
  let remote ← st.deref r
  return (st.put r { remote with peer := some a }).note (.attached a r)

def handleSync (st : Server) (t : Nat) (p : Packet) : Except Stop Server := do
  let answer : Message := ⟨A_SYNC, p.arg0, p.arg1, p.payload⟩
  if p.arg0 ≠ 0 then do
    let st ← st.sendPacket (some t) answer none
    sendConnect st t
  else do
    let st ← setConnectionState st t .offline
    let st ← handleOffline st t
    st.sendPacket (some t) answer none

def handleConnect (st : Server) (t : Nat) (p : Packet) : Except Stop Server := do
  let transport ← st.derefTransport t
  let st ← (if transport.connectionState ≠ .offline then do
      let st ← setConnectionState st t .offline
      handleOffline st t
    else pure st)
  let st ← parseBanner st t (p.payload ++ p.slack)
  handleOnline st t

-- The last byte of the payload is overwritten with the NUL that ends the name.
def handleOpen (st : Server) (t : Nat) (p : Packet) : Except Stop Server := do
  let name := p.payload.dropLast.takeWhile (· ≠ 0)
  match ← createLocalServiceSocket st name with
  | (none, st) => sendClose st 0 p.arg0 t
  | (some a, st) => do
      let st ← attachRemote st a p.arg0 t
      let s ← st.deref a
      let st ← sendReady (st.note (.opened a)) s.id p.arg0 t
      ready st a

def handleOkay (st : Server) (t : Nat) (p : Packet) : Except Stop Server := do
  match ← findLocalSocket st p.arg1 with
  | none => return st
  | some a => do
      let s ← st.deref a
      let st ← match s.peer with
        | none => attachRemote st a p.arg0 t
        | some _ => pure st
      ready (st.note (.okayed a)) a

def handleClose (st : Server) (p : Packet) : Except Stop Server := do
  match ← findLocalSocket st p.arg1 with
  | none => return st
  | some a => close st a

def handleWrite (st : Server) (t : Nat) (p : Packet) : Except Stop Server := do
  match ← findLocalSocket st p.arg1 with
  | none => return st
  | some a => do
      let (r, st) ← enqueue st a p.payload
      if r = 0 then do
        let s ← st.deref a
        sendReady st s.id p.arg0 t
      else
        return st

-- HOST is 1 and the branch for A_AUTH is not compiled.
def handlePacket (st : Server) (t : Nat) (p : Packet) : Except Stop Server := do
  let transport ← st.derefTransport t
  if p.command = A_SYNC then handleSync st t p
  else if p.command = A_CNXN then handleConnect st t p
  else if ¬transport.online then return st
  else if p.command = A_OPEN then handleOpen st t p
  else if p.command = A_OKAY then handleOkay st t p
  else if p.command = A_CLSE then handleClose st p
  else if p.command = A_WRTE then handleWrite st t p
  else return st

-- ss_listener_event_func and listener_event_func, once a client is accepted.
def acceptClient (st : Server) (l : Nat) : Except Stop Server := do
  let listener ← st.derefListener l
  let fd := st.nextFd
  let (a, st) ← createLocalSocket { st with nextFd := fd + 1 } (some fd)
  if listener.connectTo = ascii "*smartsocket*" then
    connectToSmartsocket st a
  else do
    let s ← st.deref a
    connectToRemote (st.put a { s with transport := listener.transport }) a listener.connectTo

-- What register_socket_transport and register_usb_transport fill in.
def newTransport (type : TransportType) (adbPort : Int) (serial devpath : Option Bytes)
    (writeable : Bool) : ATransport where
  online := false
  connectionState := if writeable then .offline else .noPerm
  type := type
  adbPort := adbPort
  serial := serial
  product := none
  model := none
  device := none
  devpath := devpath
  disconnects := []

-- Action 1 of transport_registration_func.
def registerTransport (st : Server) (transport : ATransport) : Except Stop Server :=
  let t := st.nextTransport
  updateTransports { st.putTransport t transport with
    transportList := st.transportList ++ [t], nextTransport := t + 1 }

-- Action 0.
def removeTransport (st : Server) (t : Nat) : Except Stop Server := do
  let _ ← st.derefTransport t
  let st ← runTransportDisconnects { st with transportList := st.transportList.erase t } t
  updateTransports { st with transports := Function.update st.transports t none }

-- What can come next, each with what the system answers meanwhile: a packet of a
-- transport, a client, an event that select reports, a pending callback, a
-- registration message, or a device's input thread that ends.
inductive Input where
  | packet (t : Nat) (p : Packet)
  | accept (l : Nat)
  | signal (a : Nat)
  | callback (a : Nat)
  | register (type : TransportType) (adbPort : Int) (serial devpath : Option Bytes)
      (writeable : Bool)
  | remove (t : Nat)
  | closeAll (t : Nat)

-- There is no thread and no transport socket for a device without permissions.
def hasThreads (st : Server) (t : Nat) : Bool :=
  (st.transports t).any fun transport => transport.connectionState ≠ .noPerm

-- The local socket that an fdevent is a part of.
def fdeventOwner (st : Server) (a : Nat) : Option ASocket :=
  (st.socks a).filter (·.ops.isLocal)

def handle (st : Server) : Input → Except Stop Server
  | .packet t p =>
      if p.payload.length ≤ MAX_PAYLOAD ∧ hasThreads st t then handlePacket st t p
      else .error .disabled
  | .accept l => if (st.listeners l).isSome then acceptClient st l else .error .disabled
  | .signal a =>
      match fdeventOwner st a with
      | none => .error .disabled
      | some s =>
          match eventHookSignal s.fde with
          | none => .error .disabled
          | some fde => .ok (st.put a { s with fde })
  | .callback a =>
      match fdeventOwner st a with
      | none => .error .disabled
      | some s =>
          match fdeventDequeue s.fde with
          | none => .error .disabled
          | some (events, fde) => localSocketEventFunc (st.put a { s with fde }) a events
  | .register type adbPort serial devpath writeable =>
      registerTransport st (newTransport type adbPort serial devpath writeable)
  | .remove t => if (st.transports t).isSome then removeTransport st t else .error .disabled
  | .closeAll t => if hasThreads st t then closeAllSockets st t else .error .disabled

def step (st : Server) (input : Script × Input) : Except Stop Server :=
  handle { st with script := input.1 } input.2

-- The server once adb_main has installed the listener for clients.
def serverInit : Server where
  socks := fun _ => none
  links := ((Adb.Lib.Links.mk (fun _ => none) (fun _ => none)).init .socketList).init .closingList
  nextSocket := 0
  localSocketNextId := 1
  deviceTrackerList := []
  transports := fun _ => none
  transportList := []
  nextTransport := 0
  listeners := fun l => if l = 0 then
    some ⟨ascii "tcp:5037", ascii "*smartsocket*", none, 0⟩ else none
  listenerList := [0]
  nextListener := 1
  nextFd := 1
  script := ⟨[], [], [], []⟩
  log := []

end Adb.Host
