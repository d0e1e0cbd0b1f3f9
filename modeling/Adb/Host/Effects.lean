import Adb.Host.Close

namespace Adb.Host

open Adb.Lib

-- How much of a server changes: its sockets, some of them new, and what has
-- happened. Statuses are used up.
structure Becomes (st after : Server) (socks : Nat → Option ASocket) (fresh : Nat)
    (events : List Event) : Prop where
  socks : after.socks = socks
  nextSocket : after.nextSocket = st.nextSocket + fresh
  log : after.log = st.log ++ events
  statuses : ∀ ok ∈ after.script.statuses, ok ∈ st.script.statuses

-- A socket is looked after without being connected, closed or made ready.
structure Tended (s s' : ASocket) : Prop where
  ops : s'.ops = s.ops
  peer : s'.peer = s.peer
  closing : s'.closing = s.closing
  wants : s'.fde.wantsRead = true → s.fde.wantsRead = true
  sound : s.closing = false → s.fde.ReadSound → s'.fde.ReadSound

def ASocket.awake (s : ASocket) : ASocket := { s with fde := fdeventAdd s.fde FDE_READ }

def ASocket.asleep (s : ASocket) : ASocket := { s with fde := fdeventDel s.fde FDE_READ }

-- All that a handler ever does to the sockets and the log, piece by piece. The
-- parameter says whether a socket that waits for its status may be closed past
-- local_socket_close_notify.
inductive Effect (B : Prop) (st after : Server) : Prop
  | quiet (events : List Event) (plain : ∀ e ∈ events, e.IsPlain)
      (becomes : Becomes st after st.socks 0 events)
  | status (l p : Nat) (s q : ASocket) (reply : Status) (ok : Bool)
      (found : st.socks l = some s) (peer : s.peer = some p) (smart : st.socks p = some q)
      (ops : q.ops = .smartSocket) (accepted : ok ∈ st.script.statuses)
      (becomes : Becomes st after st.socks 0 [.status l reply ok])
  | tend (a : Nat) (s s' : ASocket) (found : st.socks a = some s) (tended : Tended s s')
      (becomes : Becomes st after (Function.update st.socks a (some s')) 0 [])
  | wake (a p : Nat) (s q : ASocket) (found : st.socks a = some s) (peer : s.peer = some p)
      (other : st.socks p = some q) (ops : q.ops.isLocal = true)
      (becomes : Becomes st after (Function.update st.socks a (some s.awake)) 0 [])
  | okay (a p : Nat) (s : ASocket) (found : st.socks a = some s) (peer : s.peer = some p)
      (becomes : Becomes st after (Function.update st.socks a (some s.awake)) 0 [.okayed a])
  | connect (a : Nat) (s r : ASocket) (credit : Event) (rest : List Event)
      (found : st.socks a = some s) (islocal : s.ops.isLocal = true)
      (closing : s.closing = false) (alone : s.peer = none)
      (remote : r.ops = .remoteSocket) (back : r.peer = some a)
      (credits : credit = .opened a ∨ credit = .okayed a)
      (waiting : s.ops = .localSocketNotify →
        ∃ ok ∈ st.script.statuses, rest = [.status a .okay ok])
      (plain : s.ops ≠ .localSocketNotify → ∀ e ∈ rest, e.IsPlain)
      (becomes : Becomes st after (Function.update (Function.update st.socks st.nextSocket (some r))
        a (some { s.awake with ops := .localSocket, peer := some st.nextSocket })) 1
        (.attached a st.nextSocket :: credit :: rest))
  | newLocal (s : ASocket) (ops : s.ops = .localSocket) (peer : s.peer = none)
      (closing : s.closing = false) (fde : s.fde = fdeventInstall)
      (becomes : Becomes st after (Function.update st.socks st.nextSocket (some s)) 1 [])
  | newClient (s q : ASocket) (ops : s.ops = .localSocket) (peer : s.peer = some (st.nextSocket + 1))
      (closing : s.closing = false) (sound : s.fde.ReadSound)
      (smart : q.ops = .smartSocket) (back : q.peer = some st.nextSocket)
      (becomes : Becomes st after (Function.update (Function.update st.socks st.nextSocket (some s))
        (st.nextSocket + 1) (some q)) 2 [])
  | closed (a : Nat) (s : ASocket) (found : st.socks a = some s)
      (waiting : s.ops = .localSocketNotify → (s.closing = false ∧ s.pkts ≠ []) ∨ B)
      (becomes : Closed st a s after)
  | failNotify (a : Nat) (s : ASocket) (reason : String) (ok : Bool) (found : st.socks a = some s)
      (ops : s.ops = .localSocketNotify) (accepted : ok ∈ st.script.statuses)
      (becomes : Becomes st after (Function.update st.socks a (some { s with ops := .localSocket })) 0
        [.status a (.fail reason) ok])
  | forward (l a : Nat) (s q s' : ASocket) (rest : List Event) (found : st.socks l = some s)
      (islocal : s.ops.isLocal = true) (peer : s.peer = some a) (smart : st.socks a = some q)
      (ops : q.ops = .smartSocket)
      (notify : s'.ops = .localSocketNotify) (alone : s'.peer = none)
      (asleep : s'.fde.wantsRead = false) (sound : s'.fde.ReadSound)
      (plain : ∀ e ∈ rest, e.IsPlain)
      (becomes : Becomes st after (Function.update (Function.update st.socks a none) l (some s')) 0
        (.forwarded l :: rest))
  | bind (l a s2 fresh : Nat) (s q x : ASocket) (rest : List Event) (found : st.socks l = some s)
      (islocal : s.ops.isLocal = true) (peer : s.peer = some a) (smart : st.socks a = some q)
      (ops : q.ops = .smartSocket) (service : (st.socks s2 = none ∧ s2 = st.nextSocket ∧ fresh = 1) ∨
        ∃ old, st.socks s2 = some old ∧ old.ops = .localSocket ∧ old.peer = none ∧
          old.closing = false ∧ fresh = 0)
      (kind : x.ops = .localSocket ∨ x.ops = .deviceTracker) (back : x.peer = some l)
      (sound : x.fde.ReadSound) (plain : ∀ e ∈ rest, e.IsPlain)
      (becomes : Becomes st after (Function.update (Function.update (Function.update st.socks a none)
        l (some { s with ops := .localSocket, peer := some s2 })) s2 (some x)) fresh rest)
  | readOther (a : Nat) (s : ASocket) (bytes : Bytes) (found : st.socks a = some s)
      (other : bytes ≠ [] → ∀ p q, s.peer = some p → st.socks p = some q → q.ops ≠ .remoteSocket)
      (becomes : Becomes st after st.socks 0 [.read a s.peer bytes])
  | carry (a r t : Nat) (s q : ASocket) (message : Message) (found : st.socks a = some s)
      (peer : s.peer = some r) (remote : st.socks r = some q) (ops : q.ops = .remoteSocket)
      (wanted : s.fde.wantsRead = true) (sound : s.asleep.fde.ReadSound)
      (command : message.command = A_WRTE) (nonempty : message.data ≠ [])
      (short : message.data.length ≤ MAX_PAYLOAD)
      (becomes : Becomes st after (Function.update st.socks a (some s.asleep)) 0
        [.read a (some r) message.data, .sent t message (some (a, r))])

structure Move (B : Prop) (st after : Server) : Prop where
  effect : Effect B st after
  graph : Graph after

-- A handler is a chain of effects, with the graph whole in between.
def Moves (B : Prop) : Server → Server → Prop :=
  Relation.ReflTransGen (Move B)

section Moves

variable {B : Prop} {st mid after : Server}

theorem Moves.refl (st : Server) : Moves B st st := Relation.ReflTransGen.refl

theorem Moves.trans (h : Moves B st mid) (h' : Moves B mid after) :
    Moves B st after :=
  Relation.ReflTransGen.trans h h'

theorem Move.moves (h : Move B st after) : Moves B st after :=
  Relation.ReflTransGen.single h

theorem Moves.graph (h : Moves B st after) (hg : Graph st) : Graph after := by
  induction h with
  | refl => exact hg
  | tail _ hmove _ => exact hmove.graph

-- What every effect keeps is kept by a handler.
theorem Moves.invariant {inv : Server → Prop}
    (heffect : ∀ {x y}, Graph x → Graph y → Effect B x y → inv x → inv y)
    (h : Moves B st after) (hg : Graph st) (hi : inv st) : inv after := by
  induction h with
  | refl => exact hi
  | tail hmoves hmove ih => exact heffect (Moves.graph hmoves hg) hmove.graph hmove.effect ih

end Moves

end Adb.Host
