import Adb.Host.CloseAlone
import Adb.Host.SocketGraph

namespace Adb.Host

open Adb.Lib
open Adb.Transport (TransportType)

variable {D : Server → Bytes → Prop} {st mid after : Server} {a b l t : Nat} {s s' q : ASocket}

-- A tracker whose first message is out.
def ASocket.Settled (s : ASocket) : Prop :=
  s.ops = .deviceTracker ∧ s.updateNeeded = false

theorem ASocket.not_settled (h : s.ops ≠ .deviceTracker) : ¬s.Settled := fun hs => h hs.1

-- The disconnects of the transports once one has learnt of an owner, or forgotten it.
def learns (transports : Nat → Option ATransport) (o : Option Nat) (dis : Disconnect) :
    Nat → Option ATransport :=
  match o with
  | none => transports
  | some t => Function.update transports t ((transports t).map fun transport =>
      { transport with disconnects := transport.disconnects ++ [dis] })

def forgets (transports : Nat → Option ATransport) (o : Option Nat) (dis : Disconnect) :
    Nat → Option ATransport :=
  match o with
  | none => transports
  | some t => Function.update transports t ((transports t).map fun transport =>
      { transport with disconnects := transport.disconnects.erase dis })

-- A transport that is there and neither offline nor without permissions.
def Fit (st : Server) (t : Nat) : Prop :=
  ∃ transport, st.transports t = some transport ∧ transport.connectionState ≠ .offline ∧
    transport.connectionState ≠ .noPerm

def Online (st : Server) (t : Nat) : Prop :=
  ∃ transport, st.transports t = some transport ∧ transport.online = true

-- How the handlers come by a transport: it is found online, or acquired, or a
-- socket, a remote socket or a listener has it already.
inductive Reached (st : Server) (t : Nat) : Prop
  | online (up : Online st t)
  | acquired (fit : Fit st t)
  | named (a : Nat) (s : ASocket) (transport : ATransport) (found : st.socks a = some s)
      (name : s.transport = some t) (live : st.transports t = some transport)
      (up : transport.connectionState ≠ .offline)
  | remote (a : Nat) (s : ASocket) (found : st.socks a = some s) (ops : s.ops = .remoteSocket)
      (name : s.transport = some t)
  | listener (l : Nat) (listener : AListener) (found : st.listeners l = some listener)
      (name : listener.transport = some t)

-- What is sent to whom: a packet of the handshake, or one to a transport that the
-- handlers have come by.
def Addressed (st : Server) : Event → Prop
  | .sent t message _ => message.command = A_SYNC ∨ message.command = A_CNXN ∨ Reached st t
  | _ => True

-- How a socket may be written over. It keeps its peer and its queue, or loses
-- the peer, or is connected without a tracker that is at work having a part in it.
-- Its transport is the one it has had, or one that is there.
structure Kin (st : Server) (s s' : ASocket) : Prop where
  link : (s'.peer = s.peer ∧ s'.pkts = s.pkts) ∨ s'.peer = none ∨
    (¬s'.Settled ∧ ∀ q, s'.peer.bind st.socks = some q → ¬q.Settled)
  tracker : s'.ops = .deviceTracker → s.ops = .deviceTracker ∧ s'.updateNeeded = s.updateNeeded
  remote : s'.ops = .remoteSocket → s.ops = .remoteSocket ∧ s'.transport = s.transport
  bound : s'.transport = s.transport ∨
    ∀ t, s'.transport = some t → st.transports t ≠ none ∧ Reached st t

-- What the handlers write, one table at a time and each entry together with its
-- disconnect record. No bytes come to a local fd, no tracker starts and no
-- transport changes its state. The parameter says which serials may be
-- disconnected when.
inductive Edit (D : Server → Bytes → Prop) : Server → Server → Prop
  | note (st : Server) (e : Event) (quiet : ∀ a bytes, e ≠ .wrote a bytes) (addressed : Addressed st e) :
      Edit D st (st.note e)
  | script (st : Server) (script : Script) (nextFd : Nat) : Edit D st { st with script, nextFd }
  | relink (st : Server) (links : Links SRef) : Edit D st { st with links }
  | put (st : Server) (a : Nat) (s s' : ASocket) (found : st.socks a = some s) (kin : Kin st s s') :
      Edit D st (st.put a s')
  | number (st : Server) (id : UInt32) : Edit D st { st with localSocketNextId := id }
  | alloc (st : Server) (s : ASocket) (other : s.ops ≠ .remoteSocket)
      (tracker : s.ops ≠ .deviceTracker) (alone : s.peer = none) (unbound : s.transport = none) :
      Edit D st { st.put st.nextSocket s with nextSocket := st.nextSocket + 1 }
  | free (st : Server) (a : Nat) : Edit D st (st.free a)
  | attach (st : Server) (s : ASocket) (t : Nat) (up : Online st t)
      (remote : s.ops = .remoteSocket) (alone : s.peer = none) (transport : s.transport = some t) :
      Edit D st { st.put st.nextSocket s with
        nextSocket := st.nextSocket + 1
        transports := learns st.transports (some t) (.remote st.nextSocket) }
  | detach (st : Server) (a t : Nat) (s : ASocket) (found : st.socks a = some s)
      (transport : s.transport = some t) :
      Edit D st { st.free a with transports := forgets st.transports (some t) (.remote a) }
  | trackers (st : Server) (trackers : List Nat) (fewer : trackers.Sublist st.deviceTrackerList) :
      Edit D st { st with deviceTrackerList := trackers }
  | listen (st : Server) (listener : AListener)
      (fit : ∀ t, listener.transport = some t → Fit st t) :
      Edit D st { st.putListener st.nextListener listener with
        listenerList := st.listenerList ++ [st.nextListener]
        nextListener := st.nextListener + 1
        transports := learns st.transports listener.transport (.listener st.nextListener) }
  | retarget (st : Server) (l : Nat) (listener : AListener) (connectTo : Bytes)
      (found : st.listeners l = some listener) :
      Edit D st (st.putListener l { listener with connectTo })
  | rebind (st : Server) (l old new : Nat) (listener : AListener) (connectTo : Bytes)
      (found : st.listeners l = some listener) (bound : listener.transport = some old)
      (moved : old ≠ new) (fit : Fit st new) :
      Edit D st { st.putListener l { listener with connectTo, transport := some new } with
        transports := learns (forgets st.transports (some old) (.listener l)) (some new) (.listener l) }
  | unlisten (st : Server) (l : Nat) (listener : AListener) (found : st.listeners l = some listener) :
      Edit D st { st with
        listeners := Function.update st.listeners l none
        listenerList := st.listenerList.erase l
        transports := forgets st.transports listener.transport (.listener l) }
  | delist (st : Server) (serial : Bytes) (asked : D st serial) : Edit D st (disconnectDevice st serial)

def Edits (D : Server → Bytes → Prop) : Server → Server → Prop :=
  Relation.ReflTransGen (Edit D)

section Chains

theorem Fit.live (h : Fit st t) : st.transports t ≠ none := by
  obtain ⟨transport, ht, -⟩ := h
  simp [ht]

theorem Online.live (h : Online st t) : st.transports t ≠ none := by
  obtain ⟨transport, ht, -⟩ := h
  simp [ht]

theorem Edits.refl (st : Server) : Edits D st st := Relation.ReflTransGen.refl

theorem Edits.trans (h : Edits D st mid) (h' : Edits D mid after) : Edits D st after :=
  Relation.ReflTransGen.trans h h'

theorem Edit.edits (h : Edit D st after) : Edits D st after := Relation.ReflTransGen.single h

theorem Edits.invariant {inv : Server → Prop} (hedit : ∀ {x y}, Edit D x y → inv x → inv y)
    (h : Edits D st after) (hi : inv st) : inv after := by
  induction h with
  | refl => exact hi
  | tail _ he ih => exact hedit he ih

variable {α : Type} {x : Except Stop Server} {f : Server → Except Stop Server}

-- One call after the other.
theorem edits_bind (hx : Ensures x (Edits D st) Anyway)
    (hf : ∀ mid, Edits D st mid → Ensures (f mid) (Edits D mid) Anyway) :
    Ensures (x >>= f) (Edits D st) Anyway :=
  hx.bind fun mid hm => (hf mid hm).weaken fun _ ha => hm.trans ha

theorem edits_after {x : Except Stop α} {v : α → Server} (h : Edits D st mid)
    (hx : Ensures x (fun r => Edits D mid (v r)) Anyway) :
    Ensures x (fun r => Edits D st (v r)) Anyway :=
  hx.weaken fun _ ha => h.trans ha

end Chains

section Basics

theorem Kin.of_same (hpeer : s'.peer = s.peer) (hpkts : s'.pkts = s.pkts) (hops : s'.ops = s.ops)
    (hneeded : s'.updateNeeded = s.updateNeeded) (htransport : s'.transport = s.transport) :
    Kin st s s' where
  link := Or.inl ⟨hpeer, hpkts⟩
  tracker := fun h => ⟨hops ▸ h, hneeded⟩
  remote := fun h => ⟨hops ▸ h, htransport⟩
  bound := Or.inl htransport

theorem Kin.untied (hpeer : s'.peer = none) (hops : s'.ops = s.ops)
    (hneeded : s'.updateNeeded = s.updateNeeded) (htransport : s'.transport = s.transport) :
    Kin st s s' where
  link := Or.inr (Or.inl hpeer)
  tracker := fun h => ⟨hops ▸ h, hneeded⟩
  remote := fun h => ⟨hops ▸ h, htransport⟩
  bound := Or.inl htransport

-- A local socket may take any transport that is there, as far as it stays one.
theorem Kin.of_local (hlocal : s'.ops.isLocal = true)
    (hlink : (s'.peer = s.peer ∧ s'.pkts = s.pkts) ∨ s'.peer = none ∨
      ∀ q, s'.peer.bind st.socks = some q → ¬q.Settled)
    (hbound : s'.transport = s.transport ∨
      ∀ t, s'.transport = some t → st.transports t ≠ none ∧ Reached st t) :
    Kin st s s' where
  link := by
    have hnot : ¬s'.Settled := ASocket.not_settled fun hops => by simp [hops, Ops.isLocal] at hlocal
    exact hlink.imp_right fun h => h.imp_right fun hq => ⟨hnot, hq⟩
  tracker := fun h => by simp [h, Ops.isLocal] at hlocal
  remote := fun h => by simp [h, Ops.isLocal] at hlocal
  bound := hbound

theorem sendPacket_edits (o : Option Nat) (m : Message) (carried : Option (Nat × Nat))
    (hm : ∀ t, o = some t → Addressed st (.sent t m carried)) :
    Ensures (st.sendPacket o m carried) (Edits D st) Anyway := by
  apply ((sendPacket_ensures st o m carried).mono fun _ _ => trivial).weaken
  rintro _ ⟨t, ht, rfl⟩
  exact (Edit.note st _ (by simp) (hm t ht)).edits

theorem writeStatus_edits (st : Server) (a : Nat) (status : Status) :
    Ensures (st.writeStatus a status) (Edits D st) Anyway := by
  apply ((writeStatus_ensures st a status).mono fun _ _ => trivial).weaken
  rintro _ ⟨ok, rest, -, rfl⟩
  have hnote := Edit.note (D := D) { st with script := { st.script with statuses := rest } }
    (.status a status ok) (by simp) (by trivial)
  exact (Edit.script st { st.script with statuses := rest } st.nextFd).edits.trans hnote.edits

theorem openFd_edits (st : Server) :
    Ensures st.openFd (fun r => Edits D st r.2) Anyway := by
  unfold Server.openFd
  split
  · rename_i rest _
    exact (Edit.script st { st.script with opens := rest } (st.nextFd + 1)).edits
  · rename_i rest _
    exact (Edit.script st { st.script with opens := rest } st.nextFd).edits
  · trivial

theorem put_edits (hs : st.socks a = some s) (hk : Kin st s s') : Edits D st (st.put a s') :=
  (Edit.put st a s s' hs hk).edits

theorem insertLocalSocket_edits (st : Server) (a : Nat) (list : SRef) :
    Ensures (insertLocalSocket st a list) (Edits D st) Anyway := by
  unfold insertLocalSocket
  split
  · split
    · exact (Edit.relink st _).edits
    · trivial
  · trivial

theorem removeSocket_edits (st : Server) (a : Nat) :
    Ensures (removeSocket st a) (Edits D st) Anyway := by
  unfold removeSocket
  apply (deref_any st a).bind
  intro s hs
  split
  · split
    · split
      · apply (Edit.relink st _).edits.trans
        exact put_edits hs (.of_same rfl rfl rfl rfl rfl)
      · trivial
    · trivial
  · exact Edits.refl st

theorem installLocalSocket_edits (st : Server) (a : Nat) :
    Ensures (installLocalSocket st a) (Edits D st) Anyway := by
  unfold installLocalSocket
  apply (deref_any st a).bind
  intro s hs
  have hput : Edits D st (st.put a { s with id := st.localSocketNextId }) :=
    put_edits hs (.of_same rfl rfl rfl rfl rfl)
  apply edits_after (hput.trans (Edit.number _ (st.localSocketNextId + 1)).edits)
  exact insertLocalSocket_edits _ a .socketList

-- A new socket, connected to nobody.
theorem alloc_edits (hops : s.ops ≠ .remoteSocket) (htracker : s.ops ≠ .deviceTracker)
    (hp : s.peer = none) (htransport : s.transport = none) : Edits D st (allocSocket st s).2 :=
  (Edit.alloc st s hops htracker hp htransport).edits

theorem createLocalSocket_edits (st : Server) (fd : Option Nat) :
    Ensures (createLocalSocket st fd) (fun r => Edits D st r.2) Anyway := by
  cases fd with
  | none => trivial
  | some fd =>
      unfold createLocalSocket
      have halloc : Edits D st (allocSocket st { newSocket .localSocket with fd }).2 :=
        alloc_edits (by simp [newSocket]) (by simp [newSocket]) rfl rfl
      apply (installLocalSocket_edits (D := D) _ _).bind
      intro after hinstall
      exact halloc.trans hinstall

theorem createRemoteSocket_edits (id : UInt32) (hup : Online st t) :
    Ensures (createRemoteSocket st id t) (fun r => r.1 = st.nextSocket ∧
      r.2.socks st.nextSocket = some { newSocket .remoteSocket with id, transport := some t } ∧
      (∀ c, c ≠ st.nextSocket → r.2.socks c = st.socks c) ∧ Edits D st r.2) Anyway := by
  unfold createRemoteSocket allocSocket Server.addTransportDisconnect
  simp only [bind_assoc]
  apply (derefTransport_any _ t).bind
  intro transport ht
  refine ⟨rfl, by simp [Server.put, Server.putTransport], fun c hc => ?_, ?_⟩
  · simp [Server.put, Server.putTransport, hc]
  · have ht' : st.transports t = some transport := ht
    have hattach := Edit.attach (D := D) st { newSocket .remoteSocket with id, transport := some t } t
      hup rfl rfl rfl
    have hlearns : learns st.transports (some t) (.remote st.nextSocket) = Function.update st.transports t
        (some { transport with disconnects := transport.disconnects ++ [.remote st.nextSocket] }) := by
      simp [learns, ht']
    rw [hlearns] at hattach
    exact hattach.edits

end Basics

section Close

variable {close : Server → Nat → Except Stop Server}

theorem localSocketDestroy_edits (st : Server) (a : Nat) :
    Ensures (localSocketDestroy st a) (Edits D st) Anyway := by
  unfold localSocketDestroy
  apply (deref_any st a).bind
  intro s _
  apply edits_after (v := id) (Edit.note st (.closedFd a) (by simp) (by trivial)).edits
  apply edits_bind (removeSocket_edits _ a)
  intro mid _
  exact (Edit.free mid a).edits

theorem localSocketFinish_edits (st : Server) (a : Nat) :
    Ensures (localSocketFinish st a) (Edits D st) Anyway := by
  unfold localSocketFinish
  apply (deref_any st a).bind
  intro s hs
  split
  · exact localSocketDestroy_edits st a
  · have hput : Edits D st (st.put a { s with closing := true, fde := fdeventDel s.fde FDE_READ }) :=
      put_edits hs (.of_same rfl rfl rfl rfl rfl)
    apply edits_after (v := id) hput
    apply edits_bind (removeSocket_edits _ a)
    intro mid _
    exact insertLocalSocket_edits mid a .closingList

theorem remoteSocketFree_edits (st : Server) (a : Nat) :
    Ensures (remoteSocketFree st a) (Edits D st) Anyway := by
  unfold remoteSocketFree Server.removeTransportDisconnect
  apply (deref_any st a).bind
  intro s hs
  split
  · trivial
  · rename_i t htransport
    simp only [bind_assoc]
    apply (derefTransport_any st t).bind
    intro transport ht
    have hdetach := Edit.detach (D := D) st a t s hs htransport
    have hforgets : forgets st.transports (some t) (.remote a) = Function.update st.transports t
        (some { transport with disconnects := transport.disconnects.erase (.remote a) }) := by
      simp [forgets, ht]
    rw [hforgets] at hdetach
    exact hdetach.edits

variable (hclose : ∀ st a, Ensures (close st a) (Edits D st) Anyway)

include hclose

theorem closePeer_edits (st : Server) (p : Nat) : Ensures (closePeer close st p) (Edits D st) Anyway := by
  unfold closePeer
  apply (deref_any st p).bind
  intro peer hpeer
  have hput : Edits D st (st.put p { peer with peer := none }) :=
    put_edits hpeer (.untied rfl rfl rfl rfl)
  exact edits_after (v := id) hput (hclose _ p)

theorem localSocketCloseLocked_edits (st : Server) (a : Nat) :
    Ensures (localSocketCloseLocked close st a) (Edits D st) Anyway := by
  unfold localSocketCloseLocked
  apply (deref_any st a).bind
  intro s hs
  split
  · exact localSocketFinish_edits st a
  · rename_i p _
    apply edits_bind (closePeer_edits hclose st p)
    intro mid _
    apply (deref_any mid a).bind
    intro s' hs'
    have hput : Edits D mid (mid.put a { s' with peer := none }) :=
      put_edits hs' (.untied rfl rfl rfl rfl)
    exact edits_after (v := id) hput (localSocketFinish_edits _ a)

theorem localSocketCloseNotify_edits (st : Server) (a : Nat) :
    Ensures (localSocketCloseNotify close st a) (Edits D st) Anyway := by
  unfold localSocketCloseNotify
  apply (deref_any st a).bind
  intro s hs
  have hput : Edits D st (st.put a { s with ops := .localSocket }) :=
    put_edits hs (.of_local rfl (Or.inl ⟨rfl, rfl⟩) (Or.inl rfl))
  apply edits_after (v := id) hput
  apply edits_bind (writeStatus_edits _ a _)
  intro mid _
  exact localSocketCloseLocked_edits hclose mid a

-- The remote socket is still there when it tells its transport.
theorem remoteSocketClose_edits (hs : st.socks a = some s) (hops : s.ops = .remoteSocket)
    (hpeer : ∀ st p, Ensures (closePeer close st p)
      (fun after => ∃ peer, st.socks p = some peer ∧ ClosedAlone st p peer after) Anyway) :
    Ensures (remoteSocketClose close st a) (Edits D st) Anyway := by
  unfold remoteSocketClose
  apply (ensures_bind_ok (Server.deref_some hs)).mpr
  have hrest : ∀ arg0 mid, (∀ s', mid.socks a = some s' → s' = s) → Ensures (do
      let s ← mid.deref a
      let st ← mid.sendPacket s.transport ⟨A_CLSE, arg0, s.id, []⟩ none
      remoteSocketFree st a) (Edits D mid) Anyway := by
    intro arg0 mid hsame
    apply (deref_any mid a).bind
    intro s' hs'
    have heq := hsame s' hs'
    rw [heq] at hs' ⊢
    apply edits_bind (sendPacket_edits _ _ _ fun t ht => Or.inr (Or.inr (.remote a s hs' hops ht)))
    intro sent _
    exact remoteSocketFree_edits sent a
  cases s.peer with
  | none => exact hrest 0 st fun s' hs' => Option.some.inj (hs'.symm.trans hs)
  | some p =>
      apply (deref_any st p).bind
      intro peer _
      apply ((closePeer_edits hclose st p).and (hpeer st p)).bind
      rintro mid ⟨hmid, peer', hfound, hclosed⟩
      apply edits_after (v := id) hmid
      apply hrest peer.id mid
      intro s' hs'
      by_cases hap : a = p
      · -- it would be its own peer, and gone by now
        subst hap
        rw [hs, Option.some.injEq] at hfound
        subst hfound
        rw [hclosed.gone (by rw [hops]; rfl)] at hs'
        cases hs'
      · rw [hclosed.others a hap, hs] at hs'
        exact (Option.some.inj hs').symm

theorem remoteSocketDisconnect_edits (st : Server) (a : Nat) :
    Ensures (remoteSocketDisconnect close st a) (Edits D st) Anyway := by
  unfold remoteSocketDisconnect
  apply (deref_any st a).bind
  intro s _
  have hrest : ∀ mid, Ensures (remoteSocketFree mid a) (Edits D mid) Anyway :=
    fun mid => remoteSocketFree_edits mid a
  cases s.peer with
  | none => exact hrest st
  | some p => exact edits_bind (closePeer_edits hclose st p) fun mid _ => hrest mid

theorem smartSocketClose_edits (st : Server) (a : Nat) :
    Ensures (smartSocketClose close st a) (Edits D st) Anyway := by
  unfold smartSocketClose
  apply (deref_any st a).bind
  intro s _
  have hrest : ∀ mid, Ensures (do
      let _ ← mid.deref a
      return mid.free a) (Edits D mid) Anyway := by
    intro mid
    apply (deref_any mid a).bind
    intro s' _
    exact (Edit.free mid a).edits
  cases s.peer with
  | none => exact hrest st
  | some p => exact edits_bind (closePeer_edits hclose st p) fun mid _ => hrest mid

theorem deviceTrackerClose_edits (st : Server) (a : Nat) :
    Ensures (deviceTrackerClose close st a) (Edits D st) Anyway := by
  unfold deviceTrackerClose
  apply (deref_any st a).bind
  intro s _
  have hrest : ∀ mid, Ensures (do
      let _ ← mid.deref a
      return { mid with deviceTrackerList := mid.deviceTrackerList.erase a }.free a) (Edits D mid) Anyway := by
    intro mid
    apply (deref_any mid a).bind
    intro s' _
    exact (Edit.trackers mid _ List.erase_sublist).edits.trans (Edit.free _ a).edits
  cases s.peer with
  | none => exact hrest st
  | some p => exact edits_bind (closePeer_edits hclose st p) fun mid _ => hrest mid

omit hclose

theorem closeWithin_edits (depth : Nat) (st : Server) (a : Nat) :
    Ensures (closeWithin depth st a) (Edits D st) Anyway := by
  induction depth generalizing st a with
  | zero => trivial
  | succ depth ih =>
      unfold closeWithin
      apply (deref_any st a).bind
      intro s hs
      cases hops : s.ops with
      | localSocket => exact localSocketCloseLocked_edits ih st a
      | localSocketNotify => exact localSocketCloseNotify_edits ih st a
      | remoteSocket => exact remoteSocketClose_edits ih hs hops (closePeer_alone depth)
      | smartSocket => exact smartSocketClose_edits ih st a
      | deviceTracker => exact deviceTrackerClose_edits ih st a

theorem close_edits (st : Server) (a : Nat) : Ensures (Adb.Host.close st a) (Edits D st) Anyway :=
  closeWithin_edits 3 st a

theorem closeAllSockets_edits (st : Server) (t : Nat) :
    Ensures (closeAllSockets st t) (Edits D st) Anyway := by
  have hfrom : ∀ fuel st, Ensures (closeAllFrom t fuel st) (Edits D st) Anyway := by
    intro fuel
    induction fuel with
    | zero => exact fun _ => trivial
    | succ fuel ih =>
        intro st
        unfold closeAllFrom
        refine Ensures.bind (m := fun _ => True) ?_ fun sockets _ => ?_
        · cases localSockets st <;> trivial
        · simp only
          split
          · exact Edits.refl st
          · rename_i a _
            exact edits_bind (localSocketCloseLocked_edits close_edits st a) fun mid _ => ih mid
  exact hfrom _ st

end Close

section Listeners

theorem learns_some {transports : Nat → Option ATransport} {transport : ATransport}
    (ht : transports t = some transport) (dis : Disconnect) :
    learns transports (some t) dis = Function.update transports t
      (some { transport with disconnects := transport.disconnects ++ [dis] }) := by
  simp [learns, ht]

theorem forgets_some {transport : ATransport} (ht : st.transports t = some transport) (dis : Disconnect) :
    forgets st.transports (some t) dis = Function.update st.transports t
      (some { transport with disconnects := transport.disconnects.erase dis }) := by
  simp [forgets, ht]

theorem derefListener_any (st : Server) (l : Nat) :
    Ensures (st.derefListener l) (fun listener => st.listeners l = some listener) Anyway := by
  unfold Server.derefListener
  cases st.listeners l with
  | none => trivial
  | some listener => rfl

theorem freeListener_ensures (st : Server) (l : Nat) :
    Ensures (freeListener st l) (fun after => ∃ listener, st.listeners l = some listener ∧ after = { st with
      listeners := Function.update st.listeners l none
      listenerList := st.listenerList.erase l
      transports := forgets st.transports listener.transport (.listener l) }) Anyway := by
  unfold freeListener
  apply (derefListener_any st l).bind
  intro listener hl
  cases htransport : listener.transport with
  | none => exact ⟨listener, hl, by rw [htransport]; rfl⟩
  | some t =>
      unfold Server.removeTransportDisconnect
      simp only [bind_assoc]
      apply (derefTransport_any _ t).bind
      intro transport ht
      refine ⟨listener, hl, ?_⟩
      rw [htransport, forgets_some ht]
      rfl

theorem freeListener_edits (st : Server) (l : Nat) :
    Ensures (freeListener st l) (Edits D st) Anyway := by
  apply (freeListener_ensures st l).weaken
  rintro _ ⟨listener, hl, rfl⟩
  exact (Edit.unlisten st l listener hl).edits

theorem removeListener_edits (st : Server) (localName connectTo : Bytes) (transport : Nat) :
    Ensures (removeListener st localName connectTo transport) (fun r => Edits D st r.2) Anyway := by
  unfold removeListener
  simp only
  split
  · exact Edits.refl st
  · rename_i l _
    exact (freeListener_edits st l).bind fun after ha => ha

theorem localNameToFd_same (st : Server) (name : Bytes) :
    Ensures (localNameToFd st name) (fun result => result.2.listeners = st.listeners ∧
      result.2.listenerList = st.listenerList ∧ result.2.transports = st.transports ∧
      result.2.nextListener = st.nextListener) Anyway := by
  unfold localNameToFd Server.openFd
  split
  · split
    · exact ⟨rfl, rfl, rfl, rfl⟩
    · exact ⟨rfl, rfl, rfl, rfl⟩
    · trivial
  · exact ⟨rfl, rfl, rfl, rfl⟩

theorem localNameToFd_edits (st : Server) (name : Bytes) :
    Ensures (localNameToFd st name) (fun r => Edits D st r.2) Anyway := by
  unfold localNameToFd
  split
  · exact openFd_edits st
  · exact Edits.refl st

theorem installListener_edits (st : Server) (localName connectTo : Bytes) (transport : Option Nat)
    (hfit : ∀ t, transport = some t → Fit st t) :
    Ensures (installListener st localName connectTo transport) (fun r => Edits D st r.2) Anyway := by
  unfold installListener
  split
  · rename_i l _
    apply (derefListener_any st l).bind
    intro listener hl
    split
    · exact Edits.refl st
    · split
      · exact (Edit.retarget st l listener connectTo hl).edits
      · rename_i hmoved
        split
        · rename_i old new hold
          have hne : old ≠ new := by
            rintro rfl
            exact hmoved hold
          unfold Server.removeTransportDisconnect Server.addTransportDisconnect
          simp only [bind_assoc]
          apply (derefTransport_any _ old).bind
          intro left hleft
          apply (derefTransport_any _ new).bind
          intro bound hbound
          have hnew : st.transports new = some bound := by
            have hkept : Function.update st.transports old
                (some { left with disconnects := left.disconnects.erase (.listener l) }) new = some bound :=
              hbound
            rwa [Function.update_of_ne hne.symm] at hkept
          have hrebind := Edit.rebind (D := D) st l old new listener connectTo hl hold hne (hfit new rfl)
          have hforgot : forgets st.transports (some old) (.listener l) new = some bound := by
            simp [forgets, Function.update_of_ne hne.symm, hnew]
          rw [learns_some hforgot, forgets_some hleft] at hrebind
          exact hrebind.edits
        · trivial
  · apply ((localNameToFd_edits st localName).and (localNameToFd_same st localName)).bind
    rintro ⟨fd, mid⟩ ⟨hfd, -, -, hsame, -⟩
    cases fd with
    | none => exact hfd
    | some fd =>
        apply edits_after (v := Prod.snd) hfd
        cases transport with
        | none =>
            exact (Edit.listen mid ⟨localName, connectTo, none, fd⟩ (by simp)).edits
        | some t =>
            unfold Server.addTransportDisconnect
            simp only [bind_assoc]
            apply (derefTransport_any _ t).bind
            intro bound hbound
            have hbound' : mid.transports t = some bound := hbound
            have hlisten := Edit.listen (D := D) mid ⟨localName, connectTo, some t, fd⟩
              (fun u hu => by
                have hu' := hfit u hu
                rw [Fit, ← hsame] at hu'
                exact hu')
            rw [learns_some hbound'] at hlisten
            exact hlisten.edits

end Listeners

section Requests

theorem runDisconnect_edits (st : Server) (dis : Disconnect) :
    Ensures (runDisconnect st dis) (Edits D st) Anyway := by
  cases dis with
  | remote a => exact remoteSocketDisconnect_edits close_edits st a
  | listener l => exact freeListener_edits st l

-- A transport without permissions is no candidate.
theorem acquireLoop_any (ttype : TransportType) (serial : Option Bytes) (ts : List Nat)
    (result : Option Nat) (error : String)
    (h : ∀ t transport, result = some t → st.transports t = some transport →
      transport.connectionState ≠ .noPerm) :
    Ensures (acquireLoop st ttype serial ts result error) (fun r => ∀ t transport, r.1 = some t →
      st.transports t = some transport → transport.connectionState ≠ .noPerm) Anyway := by
  induction ts generalizing result error with
  | nil => exact h
  | cons t ts ih =>
      unfold acquireLoop
      apply (derefTransport_any st t).bind
      intro transport ht
      split
      · exact ih result _ h
      · rename_i hperm
        split
        · exact ih result error h
        · split
          · simp
          · apply ih
            intro u x hu hx
            rw [← Option.some.inj hu, ht, Option.some.injEq] at hx
            exact hx ▸ hperm

-- The transport that is acquired is fit.
theorem acquireOneTransport_any (st : Server) (ttype : TransportType) (serial : Option Bytes) :
    Ensures (acquireOneTransport st ttype serial) (fun r => ∀ t, r.1 = some t → Fit st t) Anyway := by
  unfold acquireOneTransport
  apply (acquireLoop_any ttype serial st.transportList none "device not found" (by simp)).bind
  rintro ⟨result, error⟩ hperm
  cases result with
  | none => simp
  | some t =>
      apply (derefTransport_any st t).bind
      intro transport ht
      split
      · simp
      · rename_i hstate
        intro u hu
        rw [← Option.some.inj hu]
        exact ⟨transport, ht, hstate, hperm t transport rfl ht⟩

theorem handleForward_edits (st : Server) (create : Bool) (localName remote : Bytes)
    (ttype : TransportType) (serial : Option Bytes) (l : Nat) :
    Ensures (handleForward st create localName remote ttype serial l) (Edits D st) Anyway := by
  unfold handleForward
  apply (acquireOneTransport_any st ttype serial).bind
  rintro ⟨found, error⟩ hfit
  cases found with
  | none => exact writeStatus_edits st l _
  | some t =>
      have hcall : Ensures (if create then installListener st localName remote (some t)
          else removeListener st localName remote t) (fun r => Edits D st r.2) Anyway := by
        split
        · exact installListener_edits st localName remote (some t) hfit
        · exact removeListener_edits st localName remote t
      apply hcall.bind
      rintro ⟨r, mid⟩ hm
      apply edits_after (v := id) hm
      simp only
      split
      · exact (Edit.note mid _ (by simp) (by trivial)).edits
      · split
        · exact writeStatus_edits mid l _
        · exact writeStatus_edits mid l _

-- The serials that a request asks to disconnect.
def Asks (request : Option HostRequest) (serial : Bytes) : Prop :=
  request = some (.disconnect serial)

theorem handleHostRequest_edits (hs : st.socks a = some s) (hops : s.ops = .smartSocket)
    (request : Option HostRequest) (hD : ∀ serial, Asks request serial → D st serial)
    (ttype : TransportType) (serial : Option Bytes) (l : Nat) :
    Ensures (handleHostRequest st request ttype serial l a) (fun r => Edits D st r.2) Anyway := by
  have hnote : ∀ reply : Reply, Edits D st (st.note (.reply l reply)) :=
    fun reply => (Edit.note st _ (by simp) (by trivial)).edits
  have hstatus : ∀ (status : Status) (r : Int), Ensures (do
      let st ← st.writeStatus l status
      return (r, st)) (fun r => Edits D st r.2) Anyway :=
    fun status r => (writeStatus_edits st l status).bind fun mid hm => hm
  unfold handleHostRequest
  cases request with
  | none => exact Edits.refl st
  | some request =>
      cases request with
      | kill => trivial
      | transport type name =>
          apply (acquireOneTransport_any st type _).bind
          rintro ⟨found, error⟩ hfound
          cases found with
          | none => exact hstatus _ 1
          | some t =>
              have hfit : Fit st t := hfound t rfl
              apply (deref_any st a).bind
              intro smart hsmart
              rw [hs, Option.some.injEq] at hsmart
              subst hsmart
              have hkin : Kin st s { s with transport := some t } :=
                ⟨Or.inl ⟨rfl, rfl⟩, fun h => ⟨h, rfl⟩, fun h => absurd (hops.symm.trans h) (by simp),
                  Or.inr fun u hu => Option.some.inj hu ▸ ⟨hfit.live, .acquired hfit⟩⟩
              apply (writeStatus_edits (D := D) _ l .okay).bind
              intro mid hm
              exact (put_edits hs hkin).trans hm
      | devices long => exact hnote _
      | connect host => exact hnote _
      | disconnect name =>
          have hdelist := Edit.delist (D := D) st name (hD name rfl)
          exact hdelist.edits.trans (Edit.note _ _ (by simp) (by trivial)).edits
      | version => exact hnote _
      | getSerialno => exact (acquireOneTransport_any st ttype serial).bind fun _ _ => hnote _
      | getDevpath => exact (acquireOneTransport_any st ttype serial).bind fun _ _ => hnote _
      | emulator => exact Edits.refl st
      | malformedForward => exact hstatus _ 0
      | forward create localName remote =>
          exact (handleForward_edits st create localName remote ttype serial l).bind fun mid hm => hm
      | getState => exact (acquireOneTransport_any st ttype serial).bind fun _ _ => hnote _

-- Only one service is a tracker.
theorem hostServiceToSocket_edits (st : Server) (name : Bytes) (hname : name ≠ ascii "track-devices") :
    Ensures (hostServiceToSocket st name) (fun r => Edits D st r.2) Anyway := by
  unfold hostServiceToSocket
  rw [if_neg hname]
  split
  · apply (openFd_edits (D := D) st).bind
    rintro ⟨fd, mid⟩ hm
    apply (createLocalSocket_edits (D := D) mid fd).bind
    rintro ⟨s2, after⟩ ha
    exact hm.trans ha
  · exact Edits.refl st

theorem connectToRemote_edits (hs : st.socks a = some s) (hreached : ∀ t, s.transport = some t → Reached st t)
    (destination : Bytes) : Ensures (connectToRemote st a destination) (Edits D st) Anyway := by
  unfold connectToRemote
  apply (ensures_bind_ok (Server.deref_some hs)).mpr
  split
  · trivial
  · exact sendPacket_edits _ _ _ fun t ht => Or.inr (Or.inr (hreached t ht))

theorem localSocketReady_edits (st : Server) (a : Nat) :
    Ensures (localSocketReady st a) (Edits D st) Anyway := by
  unfold localSocketReady
  apply (deref_any st a).bind
  intro s hs
  exact put_edits hs (.of_same rfl rfl rfl rfl rfl)

theorem localSocketReadyNotify_edits (st : Server) (a : Nat) :
    Ensures (localSocketReadyNotify st a) (Edits D st) Anyway := by
  unfold localSocketReadyNotify
  apply (deref_any st a).bind
  intro s hs
  have hput : Edits D st (st.put a { s with ops := .localSocket }) :=
    put_edits hs (.of_local rfl (Or.inl ⟨rfl, rfl⟩) (Or.inl rfl))
  apply edits_after (v := id) hput
  apply edits_bind (writeStatus_edits _ a .okay)
  intro mid _
  exact localSocketReady_edits mid a

theorem remoteSocketReady_edits (hs : st.socks a = some s) (hops : s.ops = .remoteSocket) :
    Ensures (remoteSocketReady st a) (Edits D st) Anyway := by
  unfold remoteSocketReady
  apply (ensures_bind_ok (Server.deref_some hs)).mpr
  split
  · trivial
  · rename_i l _
    apply (deref_any st l).bind
    intro peer _
    exact sendPacket_edits _ _ _ fun t ht => Or.inr (Or.inr (.remote a s hs hops ht))

theorem remoteSocketEnqueue_edits (hs : st.socks a = some s) (hops : s.ops = .remoteSocket) (p : Bytes) :
    Ensures (remoteSocketEnqueue st a p) (fun r => Edits D st r.2) Anyway := by
  unfold remoteSocketEnqueue
  apply (ensures_bind_ok (Server.deref_some hs)).mpr
  split
  · trivial
  · rename_i l _
    apply (deref_any st l).bind
    intro peer _
    apply (sendPacket_edits _ _ _ fun t ht => Or.inr (Or.inr (.remote a s hs hops ht))).bind
    exact fun mid hm => hm

theorem deviceTrackerEnqueue_edits (st : Server) (a : Nat) :
    Ensures (deviceTrackerEnqueue st a) (fun r => Edits D st r.2) Anyway :=
  (deviceTrackerClose_edits close_edits st a).bind fun _ hm => hm

theorem smartFail_edits (st : Server) (a : Nat) :
    Ensures (smartFail st a) (fun r => Edits D st r.2) Anyway :=
  (close_edits st a).bind fun _ hm => hm

-- The client goes to a service that is no tracker at work.
theorem handOver_edits {s2 : Nat} (h : ∀ q, st.socks s2 = some q → ¬q.Settled) :
    Ensures (handOver st a l s2) (Edits D st) Anyway := by
  unfold handOver
  apply ((writeStatus_edits (D := D) st l .okay).and
    ((writeStatus_ensures st l .okay).mono fun _ _ => trivial)).bind
  rintro told ⟨htold, ok, rest, -, heq⟩
  have hsocks : told.socks = st.socks := by rw [heq]
  apply edits_after (v := id) htold
  apply (deref_any told l).bind
  intro peer hpeer
  obtain ⟨client, hclient⟩ : ∃ client : ASocket, client = { peer with ops := .localSocket, peer := some s2 } :=
    ⟨_, rfl⟩
  rw [← hclient]
  have hlocal : client.ops.isLocal = true := by rw [hclient]; rfl
  have hput : Edits D told (told.put l client) := by
    apply put_edits hpeer
    apply Kin.of_local hlocal
    · refine Or.inr (Or.inr fun q hq => h q ?_)
      rw [hclient, hsocks] at hq
      exact hq
    · exact Or.inl (by rw [hclient])
  apply edits_after (v := id) hput
  apply (deref_any _ s2).bind
  intro service hservice
  have hnot : ¬service.Settled := by
    by_cases hl : s2 = l
    · subst hl
      simp only [Server.put, Function.update_self, Option.some.injEq] at hservice
      rw [← hservice]
      exact ASocket.not_settled fun hops => by simp [hops, Ops.isLocal] at hlocal
    · simp only [Server.put, Function.update_of_ne hl] at hservice
      exact h service (hsocks ▸ hservice)
  have hput' : Edits D (told.put l client) ((told.put l client).put s2 { service with peer := some l }) := by
    apply put_edits hservice
    refine ⟨Or.inr (Or.inr ⟨hnot, ?_⟩), fun hops => ⟨hops, rfl⟩, fun hops => ⟨hops, rfl⟩, Or.inl rfl⟩
    intro q hq
    simp only [Option.bind_some, Server.put, Function.update_self, Option.some.injEq] at hq
    rw [← hq]
    exact ASocket.not_settled fun hops => by simp [hops, Ops.isLocal] at hlocal
  apply edits_after (v := id) hput'
  apply (deref_any _ a).bind
  intro smart hsmart
  have hlast : Edits D _ (((told.put l client).put s2 { service with peer := some l }).put a
      { smart with peer := none }) := put_edits hsmart (.untied rfl rfl rfl rfl)
  exact edits_after (v := id) hlast (close_edits _ a)

-- A transport that is found not to be offline is there.
theorem isOffline_any (st : Server) (o : Option Nat) :
    Ensures (isOffline st o) (fun offline => offline = false → ∀ t, o = some t →
      ∃ transport, st.transports t = some transport ∧ transport.connectionState ≠ .offline) Anyway := by
  cases o with
  | none => simp [isOffline]
  | some t =>
      apply (derefTransport_any st t).bind
      intro transport ht hup u hu
      exact ⟨transport, Option.some.inj hu ▸ ht, of_decide_eq_false hup⟩

theorem smartForward_edits (h : Client st a l q s) (service : Bytes) :
    Ensures (smartForward st a service) (fun r => Edits D st r.2) Anyway := by
  unfold smartForward
  apply (ensures_bind_ok (Server.deref_some h.smart)).mpr
  rw [h.peer]
  apply (isOffline_any st q.transport).bind
  intro offline hlive
  cases offline with
  | true =>
      apply (writeStatus_edits (D := D) st l _).bind
      intro mid hm
      exact edits_after (v := Prod.snd) hm (smartFail_edits mid a)
  | false =>
      apply (ensures_bind_ok (Server.deref_some h.client)).mpr
      obtain ⟨waiting, hwaiting⟩ : ∃ waiting : ASocket, waiting = { s with
        ops := .localSocketNotify, peer := none, transport := q.transport } := ⟨_, rfl⟩
      rw [← hwaiting]
      have hname : waiting.transport = q.transport := by rw [hwaiting]
      have hput : Edits D st (st.put l waiting) := by
        apply put_edits h.client
        apply Kin.of_local (by rw [hwaiting]; rfl) (Or.inr (Or.inl (by rw [hwaiting])))
        refine Or.inr fun t ht => ?_
        rw [hname] at ht
        obtain ⟨transport, hfound, hup⟩ := hlive rfl t ht
        exact ⟨by simp [hfound], .named a q transport h.smart ht hfound hup⟩
      have hnote : Edits D st ((st.put l waiting).note (.forwarded l)) :=
        hput.trans (Edit.note _ _ (by simp) (by trivial)).edits
      have hwaits : ((st.put l waiting).note (.forwarded l)).socks l = some waiting := by
        simp [Server.note, Server.put]
      have hreached : ∀ t, waiting.transport = some t →
          Reached ((st.put l waiting).note (.forwarded l)) t := by
        intro t ht
        obtain ⟨transport, hfound, hup⟩ := hlive rfl t (hname ▸ ht)
        exact .named l waiting transport hwaits ht hfound hup
      apply (((connectToRemote_ensures (s := waiting) hwaits service).mono fun _ _ => trivial).and
        (connectToRemote_edits (D := D) hwaits hreached service)).bind
      rintro sent ⟨⟨t, m, hsent, -⟩, hedits⟩
      have hsmart : sent.socks a = some q := by
        rw [hsent]
        simp [Server.note, Server.put, h.ne, h.smart]
      have hcut : Edits D sent (sent.put a { q with peer := none }) :=
        put_edits hsmart (.untied rfl rfl rfl rfl)
      apply (close_edits (D := D) (sent.put a { q with peer := none }) a).bind
      intro after ha
      exact ((hnote.trans hedits).trans hcut).trans ha

end Requests

end Adb.Host
