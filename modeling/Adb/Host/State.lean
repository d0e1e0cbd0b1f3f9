import Adb.Host.Fdevent
import Adb.Transport.Registry

namespace Adb.Host

open Adb.Lib
open Adb.Transport (ConnectionState TransportType)

abbrev Bytes := List UInt8

-- The bytes of a string literal of the source.
def ascii (s : String) : Bytes :=
  s.toList.map fun c => UInt8.ofNat c.toNat

def MAX_PAYLOAD : Nat := 4096

def A_SYNC : UInt32 := 0x434e5953

def A_CNXN : UInt32 := 0x4e584e43

def A_OPEN : UInt32 := 0x4e45504f

def A_OKAY : UInt32 := 0x59414b4f

def A_CLSE : UInt32 := 0x45534c43

def A_WRTE : UInt32 := 0x45545257

def A_VERSION : UInt32 := 0x01000000

-- What a packet says on the wire. The checksum and the magic are those that
-- send_packet fills in.
structure Message where
  command : UInt32
  arg0 : UInt32
  arg1 : UInt32
  data : Bytes
deriving DecidableEq

-- The three functions behind a socket, which are only ever set together.
inductive Ops where
  | localSocket
  | localSocketNotify
  | remoteSocket
  | smartSocket
  | deviceTracker
deriving DecidableEq

def Ops.isLocal : Ops → Bool
  | .localSocket | .localSocketNotify => true
  | _ => false

-- An asocket, an aremotesocket or a device_tracker. A packet of the queue is
-- what is left of it to write; in a smart socket it is what has come in so far.
-- exit_on_close is set in the device build only, and force_eof never.
structure ASocket where
  ops : Ops
  id : UInt32
  closing : Bool
  peer : Option Nat
  fde : Fdevent
  fd : Nat
  pkts : List Bytes
  transport : Option Nat
  updateNeeded : Bool

-- An adisconnect sits in a remote socket or in a listener.
inductive Disconnect where
  | remote (s : Nat)
  | listener (l : Nat)
deriving DecidableEq

structure ATransport where
  online : Bool
  connectionState : ConnectionState
  type : TransportType
  adbPort : Int
  serial : Option Bytes
  product : Option Bytes
  model : Option Bytes
  device : Option Bytes
  devpath : Option Bytes
  disconnects : List Disconnect

structure AListener where
  localName : Bytes
  connectTo : Bytes
  transport : Option Nat
  fd : Nat

-- &local_socket_list, &local_socket_closing_list or a socket.
inductive SRef where
  | socketList
  | closingList
  | socket (s : Nat)
deriving DecidableEq

-- What adb_read and adb_write return: no bytes is a return of 0.
inductive ReadOutcome where
  | data (bytes : Bytes)
  | again
  | intr
  | failed

inductive WriteOutcome where
  | wrote (count : Nat)
  | again
  | intr
  | failed

-- What the system answers while one handler runs. An entry of statuses is
-- whether a status was written in full, one of opens whether a descriptor could
-- be opened.
structure Script where
  reads : List ReadOutcome
  writes : List WriteOutcome
  statuses : List Bool
  opens : List Bool

inductive Status where
  | okay
  | fail (reason : String)
deriving DecidableEq

-- The replies of handle_host_request that carry more than a status.
inductive Reply where
  | deviceList (long : Bool)
  | connected (host : Bytes)
  | disconnected (serial : Bytes) (found : Bool)
  | version
  | serialno (serial : Bytes)
  | devpath (path : Bytes)
  | state (t : Option Nat)
  | okayOkay
deriving DecidableEq

-- What has happened, in order. A packet that carries the data of a local socket
-- names that socket and its remote one.
inductive Event where
  | sent (t : Nat) (message : Message) (carried : Option (Nat × Nat))
  | attached (s remote : Nat)
  | opened (s : Nat)
  | okayed (s : Nat)
  | read (s : Nat) (peer : Option Nat) (bytes : Bytes)
  | wrote (s : Nat) (bytes : Bytes)
  | status (s : Nat) (status : Status) (accepted : Bool)
  | reply (s : Nat) (reply : Reply)
  | forwarded (s : Nat)
  | closedFd (s : Nat)
  | readFreed (s : Nat)
deriving DecidableEq

structure Server where
  socks : Nat → Option ASocket
  links : Links SRef
  nextSocket : Nat
  localSocketNextId : UInt32
  deviceTrackerList : List Nat
  transports : Nat → Option ATransport
  transportList : List Nat
  nextTransport : Nat
  listeners : Nat → Option AListener
  listenerList : List Nat
  nextListener : Nat
  nextFd : Nat
  script : Script
  log : List Event

-- Where a null peer is dereferenced.
inductive Site where
  | eventFunc
  | remoteReady
  | remoteEnqueue
  | smartEnqueue
  | trackerSend
deriving DecidableEq

-- Why a handler does not come to its end. depth and endless are the bounds the
-- model puts on the calls of close functions and on loops.
inductive Stop where
  | disabled
  | blocked
  | exited
  | useAfterFree
  | nullPeer (site : Site)
  | brokenList
  | underrun
  | depth
  | endless
deriving DecidableEq

namespace Server

def note (st : Server) (event : Event) : Server :=
  { st with log := st.log ++ [event] }

def put (st : Server) (a : Nat) (s : ASocket) : Server :=
  { st with socks := Function.update st.socks a (some s) }

def free (st : Server) (a : Nat) : Server :=
  { st with socks := Function.update st.socks a none }

def deref (st : Server) (a : Nat) : Except Stop ASocket :=
  match st.socks a with
  | some s => .ok s
  | none => .error .useAfterFree

def derefTransport (st : Server) (t : Nat) : Except Stop ATransport :=
  match st.transports t with
  | some transport => .ok transport
  | none => .error .useAfterFree

def putTransport (st : Server) (t : Nat) (transport : ATransport) : Server :=
  { st with transports := Function.update st.transports t (some transport) }

def derefListener (st : Server) (l : Nat) : Except Stop AListener :=
  match st.listeners l with
  | some listener => .ok listener
  | none => .error .useAfterFree

def putListener (st : Server) (l : Nat) (listener : AListener) : Server :=
  { st with listeners := Function.update st.listeners l (some listener) }

def live (st : Server) : SRef → Bool
  | .socketList | .closingList => true
  | .socket a => (st.socks a).isSome

-- A status of four or more bytes is written to the fd of a socket, and nobody
-- looks at the result.
def writeStatus (st : Server) (a : Nat) (status : Status) : Except Stop Server :=
  match st.script.statuses with
  | accepted :: rest =>
      .ok ({ st with script := { st.script with statuses := rest } }.note
        (.status a status accepted))
  | [] => .error .blocked

-- A descriptor from adb_socketpair, socket_loopback_client and the like.
def openFd (st : Server) : Except Stop (Option Nat × Server) :=
  match st.script.opens with
  | true :: rest =>
      .ok (some st.nextFd,
        { st with script := { st.script with opens := rest }, nextFd := st.nextFd + 1 })
  | false :: rest => .ok (none, { st with script := { st.script with opens := rest } })
  | [] => .error .blocked

def sendPacket (st : Server) (t : Option Nat) (message : Message)
    (carried : Option (Nat × Nat)) : Except Stop Server :=
  match t with
  | none => .error .exited
  | some t => do
      let _ ← st.derefTransport t
      return st.note (.sent t message carried)

def addTransportDisconnect (st : Server) (t : Nat) (dis : Disconnect) : Except Stop Server := do
  let transport ← st.derefTransport t
  return st.putTransport t { transport with disconnects := transport.disconnects ++ [dis] }

def removeTransportDisconnect (st : Server) (t : Nat) (dis : Disconnect) :
    Except Stop Server := do
  let transport ← st.derefTransport t
  return st.putTransport t { transport with disconnects := transport.disconnects.erase dis }

end Server

end Adb.Host
