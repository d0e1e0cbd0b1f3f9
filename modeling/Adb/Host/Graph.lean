import Adb.Host.Packets
import Adb.Lib.Ensures

namespace Adb.Host

open Adb.Lib

-- A local socket that is, or is not, waiting to be closed.
def OnList (st : Server) (closing : Bool) (a : Nat) : Prop :=
  ∃ s, st.socks a = some s ∧ s.ops.isLocal = true ∧ s.closing = closing

-- The two lists of local sockets.
structure Lists (st : Server) (xs ys : List Nat) : Prop where
  listed : st.links.IsRing .socketList (xs.map .socket)
  closing : st.links.IsRing .closingList (ys.map .socket)
  mem_listed : ∀ a, a ∈ xs ↔ OnList st false a
  mem_closing : ∀ a, a ∈ ys ↔ OnList st true a

-- Who is connected to whom. Only a local socket has no peer, and of two peers at
-- least one is local.
structure Peers (socks : Nat → Option ASocket) : Prop where
  back : ∀ a s b, socks a = some s → s.peer = some b →
    b ≠ a ∧ ∃ r, socks b = some r ∧ r.peer = some a
  inner : ∀ a s, socks a = some s → s.ops.isLocal = false →
    ∃ b r, s.peer = some b ∧ socks b = some r ∧ r.ops.isLocal = true
  notify : ∀ a s, socks a = some s → s.ops = .localSocketNotify → s.peer = none
  parked : ∀ a s, socks a = some s → s.closing = true →
    s.ops.isLocal = true ∧ s.peer = none ∧ s.pkts ≠ []

-- A tracker, or a remote socket and its transport.
inductive Role where
  | tracker
  | remote (t : Option Nat)
deriving DecidableEq

def roleOf (o : Option ASocket) : Option Role :=
  match o with
  | none => none
  | some s =>
      match s.ops with
      | .deviceTracker => some .tracker
      | .remoteSocket => some (.remote s.transport)
      | _ => none

-- What the transports and the trackers know about sockets.
structure Owners (st : Server) : Prop where
  fresh : ∀ a, st.nextSocket ≤ a → st.socks a = none
  trackers : ∀ a, a ∈ st.deviceTrackerList ↔ roleOf (st.socks a) = some .tracker
  trackers_once : st.deviceTrackerList.Nodup
  disconnects : ∀ t transport a, st.transports t = some transport →
    .remote a ∈ transport.disconnects → roleOf (st.socks a) = some (.remote (some t))
  disconnects_once : ∀ t transport a, st.transports t = some transport →
    transport.disconnects.count (.remote a) ≤ 1

structure Graph (st : Server) : Prop where
  lists : ∃ xs ys, Lists st xs ys
  peers : Peers st.socks
  owners : Owners st

-- What no invariant has to look at: the packets of the protocol that carry no
-- data of a socket, and what is written on the way.
def Event.IsPlain : Event → Prop
  | .sent _ message none => message.command ≠ A_WRTE
  | .wrote _ _ | .reply _ _ | .readFreed _ => True
  | _ => False

-- A handler may not come to its end, but never because of a null peer.
def Benign (stop : Stop) : Prop :=
  ∀ site, stop ≠ .nullPeer site

theorem graph_init : Graph serverInit where
  lists := by
    refine ⟨[], [], ?_, ?_, ?_, ?_⟩
    · simp [serverInit, Links.IsRing, Links.Linked, Links.init, Links.setNext, Links.setPrev]
    · simp [serverInit, Links.IsRing, Links.Linked, Links.init, Links.setNext, Links.setPrev]
    · simp [OnList, serverInit]
    · simp [OnList, serverInit]
  peers := by constructor <;> simp [serverInit]
  owners := by constructor <;> simp [serverInit, roleOf]

end Adb.Host
