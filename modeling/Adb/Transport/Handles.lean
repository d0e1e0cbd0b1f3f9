import Adb.Sysdeps.HandleTable
import Adb.Transport.KickOnce

namespace Adb.Transport

open Adb.Lib
open Adb.Sysdeps (WIN32_FH_BASE WIN32_MAX_FHS)

-- The fields of atransport that hold a descriptor.
inductive Descriptor where
  | sfd
  | fd
  | transportSocket
deriving DecidableEq

-- What a handle has been opened for.
inductive Holder where
  | transport (t : Nat) (d : Descriptor)
  | other
deriving DecidableEq

-- An adb_close of a transport's descriptor, and whose handle it has closed.
structure Close where
  transport : Nat
  descriptor : Descriptor
  hit : Option Holder
deriving DecidableEq

-- The table is _win32_fhs up to _win32_fh_count. kicks are the kick_transports
-- that have set kicked and released the lock, and not called t->kick yet. What has
-- been opened for the transports and what has been closed for them is recorded.
structure Handles where
  registry : Registry
  table : List (Option Holder)
  fields : Nat → Descriptor → Int
  kicks : List (Party × Nat)
  opened : List (Nat × Descriptor)
  closes : List Close

-- calloc clears the fields.
def handlesInit : Handles where
  registry := registryInit
  table := []
  fields := fun _ _ => 0
  kicks := []
  opened := []
  closes := []

def fhFromInt (table : List (Option Holder)) (fd : Int) : Option Nat :=
  let n := fd - WIN32_FH_BASE
  if 0 ≤ n ∧ n.toNat < table.length ∧ (holder table n.toNat).isSome then some n.toNat else none

namespace Handles

def setField (st : Handles) (t : Nat) (d : Descriptor) (fd : Int) : Handles :=
  { st with fields := Function.update st.fields t (Function.update (st.fields t) d fd) }

-- The slot becomes free, whoever holds it.
def adbClose (st : Handles) (t : Nat) (d : Descriptor) (fd : Int) : Handles :=
  match fhFromInt st.table fd with
  | some n => { st with
      table := freeSlot st.table n
      closes := st.closes ++ [⟨t, d, holder st.table n⟩] }
  | none => { st with closes := st.closes ++ [⟨t, d, none⟩] }

-- There is no transport without its socket, and without a socket pair the program
-- gives up.
def openHandle (st : Handles) (t : Nat) (d : Descriptor) : Except Fault Handles :=
  match allocSlot WIN32_MAX_FHS st.table (.transport t d) with
  | some (n, table) =>
      .ok { st.setField t d (n + WIN32_FH_BASE) with table, opened := st.opened ++ [(t, d)] }
  | none => .error .disabled

def adbSocketpair (st : Handles) (t : Nat) : Except Fault Handles := do
  let st ← st.openHandle t .transportSocket
  st.openHandle t .fd

-- register_socket_transport, for a socket that its caller has opened.
def registerSocketTransport (st : Handles) (serial : List UInt8) (adbPort : Int) (isLocal : Bool) :
    Except Fault Handles := do
  let st ← st.openHandle st.registry.nextTransport .sfd
  return { st with registry := st.registry.registerTransport (Registry.socketTransport serial adbPort isLocal) }

-- init_socket_transport fails: the socket is closed, and the memory freed.
def registerSocketFails (st : Handles) : Except Fault Handles := do
  let t := st.registry.nextTransport
  let st ← st.openHandle t .sfd
  let st := st.adbClose t .sfd (st.fields t .sfd)
  return { st with registry := { st.registry with nextTransport := t + 1 } }

-- remote_kick of transport_local.
def remoteKick (st : Handles) (t : Nat) : Handles :=
  (st.setField t .sfd (-1)).adbClose t .sfd (st.fields t .sfd)

-- t->kick. The usb handle is no descriptor.
def kick (st : Handles) (t : Nat) (type : TransportType) : Handles :=
  match type with
  | .usb => st
  | _ => st.remoteKick t

-- t->close, which is remote_close.
def close (st : Handles) (t : Nat) (type : TransportType) : Handles :=
  match type with
  | .usb => st
  | _ => st.adbClose t .fd (st.fields t .fd)

def busy (st : Handles) (p : Party) : Bool := st.kicks.any fun kick => kick.1 = p

-- The part of kick_transport that holds the lock.
def kickTransport (st : Handles) (p : Party) (t : Nat) : Except Fault Handles := do
  let record ← st.registry.deref t
  let registry ← st.registry.kickTransport t
  return { st with registry, kicks := if record.kicked then st.kicks else (p, t) :: st.kicks }

-- The part that does not.
def kickUnlocked (st : Handles) (p : Party) : Except Fault Handles :=
  match st.kicks.find? fun kick => kick.1 = p with
  | none => .error .disabled
  | some (p, t) => do
      let record ← st.registry.deref t
      return { st with kicks := st.kicks.erase (p, t) }.kick t record.type

-- if (!t->kicked) { t->kicked = 1; t->kick(t); }
def kickLocked (st : Handles) (t : Nat) : Except Fault Handles := do
  let record ← st.registry.deref t
  let registry ← st.registry.kickTransport t
  let st := { st with registry }
  return if record.kicked then st else st.kick t record.type

def transportUnrefLocked (st : Handles) (t : Nat) : Except Fault Handles := do
  let record ← st.registry.deref t
  let registry ← st.registry.transportUnrefLocked t
  let st := { st with registry }
  if record.refCount - 1 = 0 then
    let st := if record.kicked then st else st.kick t record.type
    return st.close t record.type
  else
    return st

def unregisterTcpFrom : Nat → TRef → Handles → Except Fault Handles
  | 0, _, _ => .error .endless
  | _ + 1, .transportList, st => .ok st
  | fuel + 1, .transport t, st => do
      let record ← st.registry.deref t
      match st.registry.links.next (.transport t) with
      | none => .error .nullPointer
      | some next =>
          if Registry.isTcp record then do
            let registry ← st.registry.unlinkTransport t
            let st ← { st with registry }.kickLocked t
            let st ← st.transportUnrefLocked t
            unregisterTcpFrom fuel next st
          else
            unregisterTcpFrom fuel next st

def unregisterAllTcpTransports (st : Handles) : Except Fault Handles :=
  match st.registry.links.next .transportList with
  | some first => unregisterTcpFrom (st.registry.nextTransport + 1) first st
  | none => .error .nullPointer

def closeUsbFrom : Nat → TRef → Handles → Except Fault Handles
  | 0, _, _ => .error .endless
  | _ + 1, .transportList, st => .ok st
  | fuel + 1, .transport t, st => do
      let st ← st.kickLocked t
      match st.registry.links.next (.transport t) with
      | none => .error .nullPointer
      | some next => closeUsbFrom fuel next st

def closeUsbDevices (st : Handles) : Except Fault Handles :=
  match st.registry.links.next .transportList with
  | some first => closeUsbFrom (st.registry.nextTransport + 1) first st
  | none => .error .nullPointer

-- The sections of the main loop. The first two are those of
-- transport_registration_func that close and open descriptors.
def mainStep (st : Handles) : Except Fault Handles :=
  match st.registry.main with
  | .removing t => do
      let _ ← st.registry.deref t
      -- fdevent_remove closes one half of the socket pair
      let st := st.adbClose t .transportSocket (st.fields t .transportSocket)
      let st := st.adbClose t .fd (st.fields t .fd)
      let registry ← Adb.Transport.mainStep st.registry
      return { st with registry }
  | .starting t => do
      let record ← st.registry.deref t
      let registry ← Adb.Transport.mainStep st.registry
      let st := { st with registry }
      if record.connectionState ≠ .noPerm then st.adbSocketpair t else return st
  | .unregKick t => do
      let st ← st.kickTransport .main t
      return { st with registry := { st.registry with main := .unregUnref t } }
  | .unregUnref t => do
      let st ← st.transportUnrefLocked t
      return { st with registry := { st.registry with main := .idle } }
  | _ => do
      let registry ← Adb.Transport.mainStep st.registry
      return { st with registry }

def threadStep (st : Handles) (t : Nat) (thread : Thread) : Except Fault Handles :=
  match st.registry.threads t thread with
  | .running => do
      let st ← st.kickTransport (.thread t thread) t
      return { st with registry := st.registry.setThread t thread .unref }
  | .unref => do
      let st ← st.transportUnrefLocked t
      return { st with registry := st.registry.setThread t thread .finished }
  | _ => .error .disabled

def registryStep (st : Handles) : Move → Except Fault Handles
  | .registerSocket serial adbPort isLocal => st.registerSocketTransport serial adbPort isLocal
  | .main => st.mainStep
  | .thread t thread => st.threadStep t thread
  | .unregisterAllTcp =>
      if st.registry.main = .idle then st.unregisterAllTcpTransports else .error .disabled
  | move => do
      let registry ← step st.registry move
      return { st with registry }

end Handles

-- What can come next: a section of the code around the transports, the rest of a
-- kick_transport, or a handle that some other part of the program opens or closes.
inductive HandleMove where
  | registry (move : Move)
  | registerSocketFails
  | kick (p : Party)
  | kickTransport (n t : Nat)
  | closeUsbDevices
  | openOther
  | closeOther (n : Nat)

def handlesStep (st : Handles) : HandleMove → Except Fault Handles
  | .registry move => if move.party.any st.busy then .error .disabled else st.registryStep move
  | .registerSocketFails => st.registerSocketFails
  | .kick p => st.kickUnlocked p
  | .kickTransport n t => if st.busy (.other n) then .error .disabled else st.kickTransport (.other n) t
  | .closeUsbDevices => st.closeUsbDevices
  | .openOther =>
      match allocSlot WIN32_MAX_FHS st.table .other with
      | some (_, table) => .ok { st with table }
      | none => .error .disabled
  | .closeOther n =>
      if holder st.table n = some .other then .ok { st with table := freeSlot st.table n }
      else .error .disabled

-- No removal of a transport whose t->close has closed t->fd already.
def RemovesNoSocket (st : Handles) : HandleMove → Prop
  | .registry .main =>
      match st.registry.main with
      | .removing t => ∀ record ∈ st.registry.heap t, record.type = .usb
      | _ => True
  | _ => True

instance (st : Handles) (move : HandleMove) : Decidable (RemovesNoSocket st move) := by
  unfold RemovesNoSocket
  split
  · split <;> infer_instance
  · infer_instance

end Adb.Transport
