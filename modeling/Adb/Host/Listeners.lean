import Adb.Host.Sockets
import Adb.Host.Transports

namespace Adb.Host

open Adb.Transport (TransportType)

-- free_listener closes the fd of the listener.
def freeListener (st : Server) (l : Nat) : Except Stop Server := do
  let listener ← st.derefListener l
  let st := { st with listenerList := st.listenerList.erase l }
  let st ← match listener.transport with
    | none => pure st
    | some t => st.removeTransportDisconnect t (.listener l)
  return { st with listeners := Function.update st.listeners l none }

-- local_name_to_fd; Windows has no local sockets.
def localNameToFd (st : Server) (name : Bytes) : Except Stop (Option Nat × Server) :=
  if (ascii "tcp:").isPrefixOf name then st.openFd else .ok (none, st)

def installListener (st : Server) (localName connectTo : Bytes) (transport : Option Nat) :
    Except Stop (Int × Server) :=
  match st.listenerList.find? fun l => (st.listeners l).any (·.localName = localName) with
  | some l => do
      let listener ← st.derefListener l
      -- can't repurpose a smartsocket
      if listener.connectTo.head? = some 42 then
        return (-1, st)
      else if listener.transport = transport then
        return (0, st.putListener l { listener with connectTo })
      else
        match listener.transport, transport with
        | some old, some new => do
            let st ← st.removeTransportDisconnect old (.listener l)
            let st := st.putListener l { listener with connectTo, transport }
            let st ← st.addTransportDisconnect new (.listener l)
            return (0, st)
        | _, _ => .error .useAfterFree
  | none => do
      match ← localNameToFd st localName with
      | (none, st) => return (-2, st)
      | (some fd, st) => do
          let l := st.nextListener
          let st := { st.putListener l { localName, connectTo, transport, fd } with
            listenerList := st.listenerList ++ [l], nextListener := l + 1 }
          match transport with
          | none => return (0, st)
          | some t => do
              let st ← st.addTransportDisconnect t (.listener l)
              return (0, st)

def removeListener (st : Server) (localName connectTo : Bytes) (transport : Nat) :
    Except Stop (Int × Server) :=
  let found := st.listenerList.find? fun l => (st.listeners l).any fun listener =>
    listener.localName = localName ∧ listener.connectTo = connectTo ∧
      listener.transport = some transport
  match found with
  | none => .ok (-1, st)
  | some l => do
      let st ← freeListener st l
      return (0, st)

def runDisconnect (st : Server) : Disconnect → Except Stop Server
  | .remote a => remoteSocketDisconnect close st a
  | .listener l => freeListener st l

-- The next one is read before the callback runs. One that is gone by then has
-- been freed.
def disconnectsFrom (t : Nat) : Nat → Option Disconnect → Server → Except Stop Server
  | _, none, st => .ok st
  | 0, some _, _ => .error .endless
  | fuel + 1, some dis, st => do
      let transport ← st.derefTransport t
      match transport.disconnects.dropWhile (· ≠ dis) with
      | [] => .error .useAfterFree
      | _ :: rest => do
          let st ← runDisconnect st dis
          disconnectsFrom t fuel rest.head? st

def runTransportDisconnects (st : Server) (t : Nat) : Except Stop Server := do
  let transport ← st.derefTransport t
  disconnectsFrom t transport.disconnects.length transport.disconnects.head? st

-- The requests handle_host_request knows, told apart by how the service begins.
inductive HostRequest where
  | kill
  | transport (type : TransportType) (serial : Option Bytes)
  | devices (long : Bool)
  | connect (host : Bytes)
  | disconnect (serial : Bytes)
  | version
  | getSerialno
  | getDevpath
  | emulator
  | malformedForward
  | forward (create : Bool) (localName remote : Bytes)
  | getState
deriving DecidableEq

def afterPrefix (pre : String) (service : Bytes) : Option Bytes :=
  matchChars (ascii pre) service

def forwardRequest (create : Bool) (spec : Bytes) : HostRequest :=
  let localName := spec.takeWhile (· ≠ 59)
  match spec.dropWhile (· ≠ 59) with
  | [] => .malformedForward
  | _ :: remote =>
      if localName = [] ∨ remote = [] ∨ remote.head? = some 42 then .malformedForward
      else .forward create localName remote

def transportRequest (service : Bytes) : HostRequest :=
  if (afterPrefix "transport-usb" service).isSome then .transport .usb none
  else if (afterPrefix "transport-local" service).isSome then .transport .loopback none
  else if (afterPrefix "transport-any" service).isSome then .transport .any none
  else .transport .any (afterPrefix "transport:" service)

def hostRequest (service : Bytes) : Option HostRequest :=
  if service = ascii "kill" then some .kill
  else if (afterPrefix "transport" service).isSome then some (transportRequest service)
  else if service = ascii "devices-l" then some (.devices true)
  else if service = ascii "devices" then some (.devices false)
  else if let some host := afterPrefix "connect:" service then some (.connect host)
  else if let some serial := afterPrefix "disconnect:" service then some (.disconnect serial)
  else if service = ascii "version" then some .version
  else if (afterPrefix "get-serialno" service).isSome then some .getSerialno
  else if (afterPrefix "get-devpath" service).isSome then some .getDevpath
  else if (afterPrefix "emulator:" service).isSome then some .emulator
  else if let some spec := afterPrefix "forward:" service then some (forwardRequest true spec)
  else if let some spec := afterPrefix "killforward:" service then
    some (forwardRequest false spec)
  else if (afterPrefix "get-state" service).isSome then some .getState
  else none

-- unregister_all_tcp_transports and unregister_transport, as far as the list
-- goes.
def disconnectDevice (st : Server) (serial : Bytes) : Server :=
  if serial = [] then
    { st with transportList := st.transportList.filter fun t =>
        !(st.transports t).any fun transport =>
          transport.type = .loopback ∧ transport.adbPort = 0 }
  else
    let serial := if serial.contains 58 then serial else serial ++ ascii ":5555"
    match findTransport st serial with
    | some t => ({ st with transportList := st.transportList.erase t })
    | none => st

def handleForward (st : Server) (create : Bool) (localName remote : Bytes) (ttype : TransportType)
    (serial : Option Bytes) (l : Nat) : Except Stop Server := do
  match ← acquireOneTransport st ttype serial with
  | (none, error) => st.writeStatus l (.fail (error.getD ""))
  | (some t, _) => do
      let (r, st) ← (if create then installListener st localName remote (some t)
        else removeListener st localName remote t)
      if r = 0 then
        return st.note (.reply l .okayOkay)
      else if create then
        st.writeStatus l (.fail (if r = -1 then "cannot rebind smartsocket" else "cannot bind socket"))
      else
        st.writeStatus l (.fail "cannot remove listener")

-- handle_host_request of the request of the smart socket s, whose peer l has the
-- reply_fd. The value is what it returns.
def handleHostRequest (st : Server) (request : Option HostRequest) (ttype : TransportType)
    (serial : Option Bytes) (l s : Nat) : Except Stop (Int × Server) := do
  match request with
  | some .kill => .error .exited
  | some (.transport type name) => do
      let (found, error) ← acquireOneTransport st type (name.or serial)
      match found with
      | some t => do
          let smart ← st.deref s
          let st ← (st.put s { smart with transport := some t }).writeStatus l .okay
          return (1, st)
      | none => do
          let st ← st.writeStatus l (.fail (error.getD ""))
          return (1, st)
  | some (.devices long) => return (0, st.note (.reply l (.deviceList long)))
  -- the transport comes with a registration message of its own
  | some (.connect host) => return (0, st.note (.reply l (.connected host)))
  | some (.disconnect name) => do
      let after := disconnectDevice st name
      let found := name = [] ∨ after.transportList.length < st.transportList.length
      return (0, after.note (.reply l (.disconnected name found)))
  | some .version => return (0, st.note (.reply l .version))
  | some .getSerialno => do
      let (found, _) ← acquireOneTransport st ttype serial
      let text := ((found.bind st.transports).bind (·.serial)).getD (ascii "unknown")
      return (0, st.note (.reply l (.serialno text)))
  | some .getDevpath => do
      let (found, _) ← acquireOneTransport st ttype serial
      let text := ((found.bind st.transports).bind (·.devpath)).getD (ascii "unknown")
      return (0, st.note (.reply l (.devpath text)))
  -- local_connect registers the emulator, and there is no reply
  | some .emulator => return (0, st)
  | some .malformedForward => do
      let st ← st.writeStatus l (.fail "malformed forward spec")
      return (0, st)
  | some (.forward create localName remote) => do
      let st ← handleForward st create localName remote ttype serial l
      return (0, st)
  | some .getState => do
      let (found, _) ← acquireOneTransport st ttype serial
      return (0, st.note (.reply l (.state found)))
  | none => return (-1, st)

end Adb.Host
