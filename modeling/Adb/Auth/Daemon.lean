import Adb.Host.Packets
import Adb.Lib.Run

namespace Adb.Auth

open Adb.Host (Bytes Packet Stop ascii bannerState MAX_PAYLOAD A_SYNC A_CNXN)
open Adb.Transport (ConnectionState)

def TOKEN_SIZE : Nat := 20

def RSANUMBYTES : Nat := 256

def A_AUTH : UInt32 := 0x48545541

def ADB_AUTH_TOKEN : UInt32 := 1

def ADB_AUTH_SIGNATURE : UInt32 := 2

def ADB_AUTH_RSAPUBLICKEY : UInt32 := 3

-- What decides for which descriptor an auth_fde is called.
structure AuthFde where
  fd : Nat
  active : Bool

-- The part of an atransport that has to do with the authorisation.
structure ATransport where
  online : Bool
  connectionState : ConnectionState
  token : Bytes
  authFde : AuthFde
  failedAuthAttempts : UInt32

-- A connection of the framework: whose keys it has yet to answer, and what it has
-- written and is not read, each byte with the transport whose key it answers.
structure Connection where
  keys : List Nat
  incoming : List (UInt8 × Nat)

-- What has happened, in order. A signature goes with the keys that are stored
-- when it comes in, and what is read for a transport with the transports whose keys
-- it answers.
inductive Event (Key : Type) where
  | token (t : Nat) (token : Bytes)
  | noToken (t : Nat)
  | signature (t : Nat) (sig : Bytes) (keys : List Key)
  | key (fd t : Nat)
  | answered (t : Nat)
  | response (t : Nat) (read : List (UInt8 × Option Nat))
  | online (t : Nat)
  | offline (t : Nat)
  | connect (t : Nat)
deriving DecidableEq

-- adbd: fd_table holds the auth_fde of a transport, pending is the list of those
-- that are to be called.
structure Daemon (Key : Type) where
  transports : Nat → Option ATransport
  nextTransport : Nat
  keyList : List Key
  frameworkFd : Option Nat
  fdTable : Nat → Option Nat
  pending : List Nat
  connections : Nat → Option Connection
  log : List (Event Key)

section Model

variable {Key : Type} (rsaVerify : Key → Bytes → Bytes → Bool)

namespace Daemon

def note (st : Daemon Key) (event : Event Key) : Daemon Key :=
  { st with log := st.log ++ [event] }

def deref (st : Daemon Key) (t : Nat) : Except Stop ATransport :=
  match st.transports t with
  | some transport => .ok transport
  | none => .error .useAfterFree

def put (st : Daemon Key) (t : Nat) (transport : ATransport) : Daemon Key :=
  { st with transports := Function.update st.transports t (some transport) }

def putConnection (st : Daemon Key) (fd : Nat) (connection : Connection) : Daemon Key :=
  { st with connections := Function.update st.connections fd (some connection) }

end Daemon

-- What /dev/urandom gives, if it opens. A short read has changed the token all
-- the same.
def adbAuthGenerateToken (urandom : Option Bytes) (token : Bytes) : Nat × Bytes :=
  match urandom with
  | none => (0, token)
  | some bytes =>
      if TOKEN_SIZE ≤ bytes.length then (TOKEN_SIZE, bytes.take TOKEN_SIZE)
      else (0, bytes ++ token.drop bytes.length)

def sendAuthRequest (st : Daemon Key) (t : Nat) (urandom : Option Bytes) :
    Except Stop (Daemon Key) := do
  let transport ← st.deref t
  let (ret, token) := adbAuthGenerateToken urandom transport.token
  let st := st.put t { transport with token }
  if ret ≠ TOKEN_SIZE then return st.note (.noToken t)
  else return st.note (.token t token)

def adbAuthVerify (keyList : List Key) (token sig : Bytes) : Bool :=
  if sig.length ≠ RSANUMBYTES then false
  else keyList.any fun key => rsaVerify key sig token

def handleOnline (st : Daemon Key) (t : Nat) : Except Stop (Daemon Key) := do
  let transport ← st.deref t
  return (st.put t { transport with online := true }).note (.online t)

def handleOffline (st : Daemon Key) (t : Nat) : Except Stop (Daemon Key) := do
  let transport ← st.deref t
  return (st.put t { transport with online := false }).note (.offline t)

def setConnectionState (st : Daemon Key) (t : Nat) (state : ConnectionState) :
    Except Stop (Daemon Key) := do
  let transport ← st.deref t
  return st.put t { transport with connectionState := state }

def adbAuthVerified (st : Daemon Key) (t : Nat) : Except Stop (Daemon Key) := do
  let st ← handleOnline st t
  return st.note (.connect t)

-- fdevent_install and fdevent_add. The old descriptor of the fdevent, if it has
-- one, still leads to it, and it is not called if it was about to be.
def installAuthFde (st : Daemon Key) (t fd : Nat) : Except Stop (Daemon Key) := do
  let transport ← st.deref t
  return { st.put t { transport with authFde := ⟨fd, true⟩ } with
    fdTable := Function.update st.fdTable fd (some t)
    pending := st.pending.filter (· ≠ t) }

-- A key that is not empty ends in NUL, and the one before an empty one is the
-- last byte of the magic, which is not.
def adbAuthConfirmKey (st : Daemon Key) (key : Bytes) (t : Nat) (written : Bool) :
    Except Stop (Daemon Key) :=
  match st.frameworkFd with
  | none => .ok st
  | some fd =>
      if key.getLast? ≠ some 0 then .ok st
      else if MAX_PAYLOAD ≤ 2 + (key.takeWhile (· ≠ 0)).length then .ok st
      else if ¬written then .ok st
      else
        let sent := match st.connections fd with
          | none => st
          | some connection => st.putConnection fd { connection with keys := connection.keys ++ [t] }
        installAuthFde (sent.note (.key fd t)) t fd

def handleSync (st : Daemon Key) (t : Nat) (p : Packet) : Except Stop (Daemon Key) :=
  if p.arg0 ≠ 0 then .ok st
  else do
    let st ← setConnectionState st t .offline
    handleOffline st t

-- parse_banner, as far as it decides on the state.
def parseBanner (st : Daemon Key) (t : Nat) (buffer : Bytes) : Except Stop (Daemon Key) :=
  let banner := buffer.takeWhile (· ≠ 0)
  setConnectionState st t ((bannerState (banner.takeWhile (· ≠ 58))).getD .host)

-- auth_enabled is set.
def handleConnect (st : Daemon Key) (t : Nat) (p : Packet) (urandom : Option Bytes) :
    Except Stop (Daemon Key) := do
  let transport ← st.deref t
  let st ← (if transport.connectionState ≠ .offline then do
      let st ← setConnectionState st t .offline
      handleOffline st t
    else pure st)
  let st ← parseBanner st t (p.payload ++ p.slack)
  sendAuthRequest st t urandom

def handleSignature (st : Daemon Key) (t : Nat) (sig : Bytes) (urandom : Option Bytes) :
    Except Stop (Daemon Key) := do
  let transport ← st.deref t
  let st := st.note (.signature t sig st.keyList)
  if adbAuthVerify rsaVerify st.keyList transport.token sig then do
    let st ← adbAuthVerified st t
    let transport ← st.deref t
    return st.put t { transport with failedAuthAttempts := 0 }
  else
    let st := st.put t { transport with failedAuthAttempts := transport.failedAuthAttempts + 1 }
    sendAuthRequest st t urandom

-- There are no private keys and no user key here, so a token is not answered.
def handleAuth (st : Daemon Key) (t : Nat) (p : Packet) (urandom : Option Bytes) (written : Bool) :
    Except Stop (Daemon Key) :=
  if p.arg0 = ADB_AUTH_TOKEN then .ok st
  else if p.arg0 = ADB_AUTH_SIGNATURE then handleSignature rsaVerify st t p.payload urandom
  else if p.arg0 = ADB_AUTH_RSAPUBLICKEY then adbAuthConfirmKey st p.payload t written
  else .ok st

-- HOST is 0. The packets of the streams leave the authorisation as it is.
def handlePacket (st : Daemon Key) (t : Nat) (p : Packet) (urandom : Option Bytes) (written : Bool) :
    Except Stop (Daemon Key) := do
  let _ ← st.deref t
  if p.command = A_SYNC then handleSync st t p
  else if p.command = A_CNXN then handleConnect st t p urandom
  else if p.command = A_AUTH then handleAuth rsaVerify st t p urandom written
  else return st

-- How unix_read ends: with an error, or with up to count bytes of the framework.
-- Where the descriptor is not the framework's any more, others are read.
inductive ReadOutcome where
  | failed
  | got (count : Nat) (others : Bytes)

def unixRead (st : Daemon Key) (fd : Nat) :
    ReadOutcome → Option (List (UInt8 × Option Nat)) × Daemon Key
  | .failed => (none, st)
  | .got count others =>
      match st.connections fd with
      | none => (some ((others.take 2).map (·, none)), st)
      | some connection =>
          (some ((connection.incoming.take (min count 2)).map (Prod.map id some)),
            st.putConnection fd { connection with incoming := connection.incoming.drop (min count 2) })

-- The fdevent is not pending, for it is being called.
def removeAuthFde (st : Daemon Key) (t : Nat) : Except Stop (Daemon Key) := do
  let transport ← st.deref t
  let removed := st.put t { transport with authFde := { transport.authFde with active := false } }
  if ¬transport.authFde.active then return removed
  else if st.fdTable transport.authFde.fd = some t then
    return { removed with
      fdTable := Function.update st.fdTable transport.authFde.fd none
      connections := Function.update st.connections transport.authFde.fd none }
  else .error .exited

-- FDE_READ is the only event it waits for.
def adbAuthEvent (st : Daemon Key) (fd t : Nat) (read : ReadOutcome) (reloaded : List Key) :
    Except Stop (Daemon Key) :=
  match unixRead st fd read with
  | (none, st) => do
      let st ← removeAuthFde st t
      return { st with frameworkFd := none }
  | (some response, st) =>
      let st := st.note (.response t response)
      if response.map Prod.fst = ascii "OK" then adbAuthVerified { st with keyList := reloaded } t
      else .ok st

-- What register_socket_transport and register_usb_transport leave.
def newTransport : ATransport where
  online := false
  connectionState := .offline
  token := List.replicate TOKEN_SIZE 0
  authFde := ⟨0, false⟩
  failedAuthAttempts := 0

-- What can come next: a transport, or the end of one; a packet, with what
-- /dev/urandom and the framework's descriptor say; a connection of the framework
-- and its answer to one of the keys; a descriptor that select reports, and the
-- call of an fdevent, with the keys as they are on disk by then.
inductive Input (Key : Type) where
  | register
  | remove (t : Nat)
  | packet (t : Nat) (p : Packet) (urandom : Option Bytes) (written : Bool)
  | accept (fd : Nat)
  | answer (fd i : Nat) (allow : Bool)
  | signal (fd : Nat)
  | callback (t : Nat) (read : ReadOutcome) (reloaded : List Key)

def frameworkAnswer (st : Daemon Key) (fd i : Nat) (allow : Bool) : Except Stop (Daemon Key) :=
  match st.connections fd with
  | none => .error .disabled
  | some connection =>
      match connection.keys[i]? with
      | none => .error .disabled
      | some t =>
          let answer := if allow then ascii "OK" else ascii "NO"
          let answered := st.putConnection fd { connection with
            keys := connection.keys.eraseIdx i
            incoming := connection.incoming ++ answer.map (·, t) }
          .ok (if allow then answered.note (.answered t) else answered)

def step (st : Daemon Key) : Input Key → Except Stop (Daemon Key)
  | .register =>
      .ok { st.put st.nextTransport newTransport with nextTransport := st.nextTransport + 1 }
  | .remove t => .ok { st with transports := Function.update st.transports t none }
  | .packet t p urandom written =>
      if (st.transports t).isSome then handlePacket rsaVerify st t p urandom written
      else .error .disabled
  | .accept fd =>
      if (st.connections fd).isSome then .error .disabled
      else .ok { st.putConnection fd ⟨[], []⟩ with frameworkFd := some fd }
  | .answer fd i allow => frameworkAnswer st fd i allow
  | .signal fd =>
      match st.fdTable fd with
      | none => .error .disabled
      | some t => do
          let _ ← st.deref t
          return { st with pending := if t ∈ st.pending then st.pending else st.pending ++ [t] }
  | .callback t read reloaded =>
      if t ∈ st.pending then do
        let transport ← st.deref t
        adbAuthEvent { st with pending := st.pending.erase t } transport.authFde.fd t read reloaded
      else .error .disabled

def daemonInit (keyList : List Key) : Daemon Key where
  transports := fun _ => none
  nextTransport := 0
  keyList := keyList
  frameworkFd := none
  fdTable := fun _ => none
  pending := []
  connections := fun _ => none
  log := []

end Model

end Adb.Auth
