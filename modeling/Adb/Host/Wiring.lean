import Adb.Host.Effects

namespace Adb.Host

open Adb.Lib

variable {st after : Server} {a b l t : Nat} {s s' q x : ASocket} {B : Prop}

-- What is written to a place twice is what is written there last.
theorem update_over {f : Nat → Option ASocket} (h : a ≠ b) (v w v' : Option ASocket) :
    Function.update (Function.update (Function.update f a v) b w) a v' =
      Function.update (Function.update f b w) a v' := by
  rw [Function.update_comm h, Function.update_idem]

-- Which of the two lists a socket belongs on.
def placeOf (o : Option ASocket) : Option Bool :=
  o.bind fun s => if s.ops.isLocal = true then some s.closing else none

theorem placeOf_local (h : s.ops.isLocal = true) : placeOf (some s) = some s.closing := by
  simp [placeOf, h]

theorem onList_iff {c : Bool} : OnList st c a ↔ placeOf (st.socks a) = some c := by
  unfold OnList placeOf
  cases st.socks a <;> simp

theorem Lists.of_places {xs ys : List Nat} (h : Lists st xs ys) (hlinks : after.links = st.links)
    (hplaces : ∀ a, placeOf (after.socks a) = placeOf (st.socks a)) : Lists after xs ys where
  listed := hlinks ▸ h.listed
  closing := hlinks ▸ h.closing
  mem_listed := by
    intro b
    rw [h.mem_listed, onList_iff, onList_iff, hplaces]
  mem_closing := by
    intro b
    rw [h.mem_closing, onList_iff, onList_iff, hplaces]

-- As long as places and roles stay, lists and owners have nothing to notice.
theorem Base.of_same (h : Base st) (hlinks : after.links = st.links)
    (htrackers : after.deviceTrackerList = st.deviceTrackerList)
    (hdis : FewerDisconnects st after) (hfresh : ∀ a, after.nextSocket ≤ a → after.socks a = none)
    (hplaces : ∀ a, placeOf (after.socks a) = placeOf (st.socks a))
    (hroles : ∀ a, roleOf (after.socks a) = roleOf (st.socks a)) : Base after where
  lists := by
    obtain ⟨xs, ys, hl⟩ := h.lists
    exact ⟨xs, ys, hl.of_places hlinks hplaces⟩
  owners := h.owners.of_roles hfresh htrackers hdis hroles

theorem Base.congr (h : Base st) (hsocks : after.socks = st.socks) (hlinks : after.links = st.links)
    (hnext : after.nextSocket = st.nextSocket)
    (htrackers : after.deviceTrackerList = st.deviceTrackerList)
    (hdis : FewerDisconnects st after) : Base after := by
  refine h.of_same hlinks htrackers hdis ?_ (fun _ => by rw [hsocks]) (fun _ => by rw [hsocks])
  intro c hc
  rw [hsocks]
  exact h.owners.fresh c (hnext ▸ hc)

theorem Graph.congr (h : Graph st) (hsocks : after.socks = st.socks)
    (hlinks : after.links = st.links) (hnext : after.nextSocket = st.nextSocket)
    (htrackers : after.deviceTrackerList = st.deviceTrackerList)
    (hdis : FewerDisconnects st after) : Graph after where
  lists := (h.base.congr hsocks hlinks hnext htrackers hdis).lists
  peers := hsocks ▸ h.peers
  owners := (h.base.congr hsocks hlinks hnext htrackers hdis).owners

theorem Base.graph (h : Base st) (hp : Peers st.socks) : Graph st := ⟨h.lists, hp, h.owners⟩

theorem Graph.note (h : Graph st) (e : Event) : Graph (st.note e) :=
  h.congr rfl rfl rfl rfl (.of_eq rfl)

-- A socket changes in place, and stays what it is.
theorem Graph.put (h : Graph st) (hs : st.socks a = some s)
    (hlocal : s'.ops.isLocal = s.ops.isLocal) (hc : s'.closing = s.closing)
    (hp : s'.peer = s.peer) (hrole : roleOf (some s') = roleOf (some s))
    (hn : s'.ops = .localSocketNotify → s'.peer = none)
    (hpkts : s'.closing = true → s'.pkts ≠ []) : Graph (st.put a s') := by
  refine (h.base.put hs hlocal hc hrole).graph ?_
  refine h.peers.touch hs hlocal hp hn ?_
  intro hclosing
  obtain ⟨hl, hnone, -⟩ := h.peers.parked a s hs (hc ▸ hclosing)
  exact ⟨hlocal ▸ hl, hp.trans hnone, hpkts hclosing⟩

theorem Graph.put_local (h : Graph st) (hs : st.socks a = some s) (hlocal : s.ops.isLocal = true)
    (hops : s'.ops = s.ops) (hc : s'.closing = s.closing) (hp : s'.peer = s.peer)
    (hpkts : s.closing = true → s'.pkts ≠ []) : Graph (st.put a s') := by
  have hlocal' : s'.ops.isLocal = true := hops ▸ hlocal
  refine h.put hs (by rw [hops]) hc hp ?_ ?_ (fun hn => hpkts (hc ▸ hn))
  · rw [roleOf_local hlocal, roleOf_local hlocal']
  · intro hn
    rw [hp]
    exact h.peers.notify a s hs (hops ▸ hn)

-- A packet, a reply and so on are only noted.
theorem Moves.note {e : Event} (h : Graph st) (he : e.IsPlain) : Moves B st (st.note e) := by
  refine Move.moves ⟨.quiet [e] ?_ ⟨rfl, rfl, rfl, fun _ hm => hm⟩, h.note e⟩
  intro e' he'
  rw [List.mem_singleton.mp he']
  exact he

theorem Moves.of_same (h : Graph st) (hsocks : after.socks = st.socks)
    (hlinks : after.links = st.links) (hnext : after.nextSocket = st.nextSocket)
    (htrackers : after.deviceTrackerList = st.deviceTrackerList) (hdis : FewerDisconnects st after)
    (hlog : after.log = st.log)
    (hstatuses : ∀ ok ∈ after.script.statuses, ok ∈ st.script.statuses) :
    Moves B st after :=
  Move.moves ⟨.quiet [] (by simp) ⟨hsocks, hnext, by simpa using hlog, hstatuses⟩,
    h.congr hsocks hlinks hnext htrackers hdis⟩

theorem Moves.tend (h : Graph st) (hs : st.socks a = some s) (ht : Tended s s')
    (hrole : roleOf (some s') = roleOf (some s)) (hpkts : s.closing = true → s'.pkts ≠ []) :
    Moves B st (st.put a s') := by
  refine Move.moves ⟨.tend a s s' hs ht ⟨rfl, rfl, ?_, fun _ hm => hm⟩, ?_⟩
  · simp [Server.put]
  · refine h.put hs (by rw [ht.ops]) ht.closing ht.peer hrole ?_ (fun hn => hpkts (ht.closing ▸ hn))
    intro hn
    rw [ht.peer]
    exact h.peers.notify a s hs (ht.ops ▸ hn)

section Creation

theorem Graph.fresh_none (h : Base st) : st.socks st.nextSocket = none :=
  h.owners.fresh _ (Nat.le_refl _)

theorem fresh_not_listed {xs ys : List Nat} (h : Base st) (hl : Lists st xs ys) :
    st.nextSocket ∉ xs ∧ st.nextSocket ∉ ys := by
  have hnone := Graph.fresh_none h
  constructor
  · intro hx
    obtain ⟨s, hs, -⟩ := (hl.mem_listed _).mp hx
    rw [hnone] at hs
    cases hs
  · intro hy
    obtain ⟨s, hs, -⟩ := (hl.mem_closing _).mp hy
    rw [hnone] at hs
    cases hs

-- A new socket that no list and no owner has to know about.
theorem Base.born (h : Base st) (hsocks : after.socks = Function.update st.socks st.nextSocket (some s))
    (hlinks : after.links = st.links) (hnext : after.nextSocket = st.nextSocket + 1)
    (htrackers : after.deviceTrackerList = st.deviceTrackerList)
    (hdis : FewerDisconnects st after) (hops : s.ops = .smartSocket) : Base after := by
  have hnone := Graph.fresh_none h
  refine h.of_same hlinks htrackers hdis ?_ ?_ ?_
  · intro c hc
    rw [hnext] at hc
    rw [hsocks, Function.update_of_ne (by omega)]
    exact h.owners.fresh c (by omega)
  all_goals
    intro c
    rw [hsocks]
    by_cases hcn : c = st.nextSocket
    · subst hcn
      simp [hnone, placeOf, roleOf, hops, Ops.isLocal]
    · rw [Function.update_of_ne hcn]

-- create_local_socket: the new socket is at the end of the list.
structure NewLocal (st : Server) (s : ASocket) (after : Server) : Prop where
  graph : Graph after
  ops : s.ops = .localSocket
  peer : s.peer = none
  closing : s.closing = false
  fde : s.fde = fdeventInstall
  becomes : Becomes st after (Function.update st.socks st.nextSocket (some s)) 1 []
  writes : after.script.writes = st.script.writes
  devices : listTransportsMsg after = listTransportsMsg st

-- What create_local_socket leaves, the links apart.
def Server.created (st : Server) (fd : Nat) (links : Links SRef) : Server := { st with
  socks := Function.update st.socks st.nextSocket
    (some { newSocket .localSocket with fd, id := st.localSocketNextId })
  links
  nextSocket := st.nextSocket + 1
  localSocketNextId := st.localSocketNextId + 1 }

theorem createLocalSocket_eq {xs ys : List Nat} (hl : Lists st xs ys) (h : Base st) (fd : Nat) :
    ∃ links, createLocalSocket st (some fd) = .ok (st.nextSocket, st.created fd links) ∧
      TwoRings links .socketList (xs ++ [st.nextSocket]) .closingList ys := by
  obtain ⟨hx, hy⟩ := fresh_not_listed h hl
  have hlive : ∀ r ∈ SRef.socketList :: xs.map .socket, (st.created fd st.links).live r = true := by
    intro r hr
    have hold := hl.live_listed r hr
    cases r with
    | socket b =>
        have hb : b ≠ st.nextSocket := by
          rintro rfl
          simp [Server.live, Graph.fresh_none h] at hold
        simpa [Server.created, Server.live, hb] using hold
    | _ => rfl
  obtain ⟨links, hinsert, hrings⟩ := insertLocalSocket_eq (st.created fd st.links) st.nextSocket
    (show TwoRings (st.created fd st.links).links .socketList xs .closingList ys from hl.rings)
    (by simpa using hx) (by simpa using hy) hlive
  refine ⟨links, ?_, hrings⟩
  have hput : (allocSocket st { newSocket .localSocket with fd }).2.socks st.nextSocket =
      some { newSocket .localSocket with fd } := by simp [allocSocket, Server.put]
  have hinst : installLocalSocket (allocSocket st { newSocket .localSocket with fd }).2
      st.nextSocket = .ok (st.created fd links) := by
    simp only [installLocalSocket, Server.deref_some hput, bind, Except.bind]
    have hmid : { (allocSocket st { newSocket .localSocket with fd }).2.put st.nextSocket
        { newSocket .localSocket with fd, id := st.localSocketNextId } with
          localSocketNextId := st.localSocketNextId + 1 } = st.created fd st.links := by
      simp [Server.created, allocSocket, Server.put]
    exact (congrArg (insertLocalSocket · st.nextSocket .socketList) hmid).trans hinsert
  simp only [createLocalSocket, bind, Except.bind]
  rw [show (allocSocket st { newSocket .localSocket with fd }).1 = st.nextSocket from rfl, hinst]
  rfl

theorem Graph.created {xs ys : List Nat} {links : Links SRef} (h : Graph st) (hl : Lists st xs ys)
    (fd : Nat) (hrings : TwoRings links .socketList (xs ++ [st.nextSocket]) .closingList ys) :
    Graph (st.created fd links) := by
  obtain ⟨hx, hy⟩ := fresh_not_listed h.base hl
  have hnone := Graph.fresh_none h.base
  have hlists : Lists (st.relinked links st.nextSocket
      (some { newSocket .localSocket with fd, id := st.localSocketNextId }) [])
      (xs ++ [st.nextSocket]) ys := by
    refine hl.replace hrings ?_ (fun _ _ => Iff.rfl) ?_ ?_
    · intro b hb
      simp [hb]
    · simp [newSocket, Ops.isLocal]
    · simp [newSocket, hy]
  refine ⟨⟨xs ++ [st.nextSocket], ys, hlists.of_places rfl fun _ => rfl⟩, ?_,
    h.owners.of_roles ?_ rfl (.of_eq rfl) ?_⟩
  · refine h.peers.insert hnone ?_
    intro s' hs'
    cases hs'
    simp [newSocket, Ops.isLocal]
  · intro c hc
    have hlt : st.nextSocket + 1 ≤ c := hc
    simp only [Server.created]
    rw [Function.update_of_ne (by omega)]
    exact h.owners.fresh c (by omega)
  · intro c
    by_cases hc : c = st.nextSocket
    · subst hc
      simp [Server.created, hnone, roleOf, newSocket]
    · simp [Server.created, hc]

theorem createLocalSocket_ensures (h : Graph st) (fd : Option Nat) :
    Ensures (createLocalSocket st fd)
      (fun r => r.1 = st.nextSocket ∧ ∃ s, NewLocal st s r.2) Benign := by
  cases fd with
  | none => exact benign_exited
  | some fd =>
      obtain ⟨xs, ys, hl⟩ := h.lists
      obtain ⟨links, heq, hrings⟩ := createLocalSocket_eq hl h.base fd
      rw [heq]
      refine ⟨rfl, { newSocket .localSocket with fd, id := st.localSocketNextId },
        h.created hl fd hrings, rfl, rfl, rfl, rfl, ⟨rfl, rfl, ?_, fun _ hm => hm⟩, rfl, rfl⟩
      simp [Server.created]

theorem NewLocal.moves (h : NewLocal st s after) : Moves B st after :=
  Move.moves ⟨.newLocal s h.ops h.peer h.closing h.fde h.becomes, h.graph⟩

end Creation

section Ready

theorem ready_local (hs : st.socks a = some s) (hops : s.ops = .localSocket) :
    ready st a = localSocketReady st a := by
  simp only [ready, readyWith, Server.deref_some hs, bind, Except.bind, hops]

theorem ready_notify (hs : st.socks a = some s) (hops : s.ops = .localSocketNotify) :
    ready st a = localSocketReadyNotify st a := by
  simp only [ready, readyWith, Server.deref_some hs, bind, Except.bind, hops]

theorem ready_remote (hs : st.socks a = some s) (hops : s.ops = .remoteSocket) :
    ready st a = remoteSocketReady st a := by
  simp only [ready, readyWith, Server.deref_some hs, bind, Except.bind, hops]

theorem localSocketReady_eq (hs : st.socks a = some s) :
    localSocketReady st a = .ok (st.put a s.awake) := by
  simp only [localSocketReady, Server.deref_some hs, bind, Except.bind]
  rfl

theorem benign_blocked : Benign .blocked := by simp [Benign]

-- A status is written, and the answer is used up.
theorem writeStatus_ensures (st : Server) (a : Nat) (status : Status) :
    Ensures (st.writeStatus a status) (fun after => ∃ ok rest, st.script.statuses = ok :: rest ∧
      after = { st with
        script := { st.script with statuses := rest }, log := st.log ++ [.status a status ok] })
      Benign := by
  unfold Server.writeStatus
  cases hscript : st.script.statuses with
  | nil => exact benign_blocked
  | cons ok rest => exact ⟨ok, rest, rfl, rfl⟩

end Ready

section Connection

variable {id : UInt32} {r : ASocket} {mid : Server}

theorem createRemoteSocket_ensures (st : Server) (id : UInt32) (t : Nat) :
    Ensures (createRemoteSocket st id t) (fun result => result.1 = st.nextSocket ∧
      ∃ transport, st.transports t = some transport ∧ result.2 = { st with
        socks := Function.update st.socks st.nextSocket
          (some { newSocket .remoteSocket with id, transport := some t })
        nextSocket := st.nextSocket + 1
        transports := Function.update st.transports t (some { transport with
          disconnects := transport.disconnects ++ [.remote st.nextSocket] }) }) Benign := by
  unfold createRemoteSocket allocSocket Server.addTransportDisconnect
  simp only [bind_assoc]
  refine (derefTransport_ensures _ t).bind ?_
  intro transport ht
  exact ⟨rfl, transport, ht, rfl⟩

def newRemote (id : UInt32) (t a : Nat) : ASocket :=
  { newSocket .remoteSocket with id, transport := some t, peer := some a }

-- A local socket points to its new remote socket and back.
structure Attached (st : Server) (a : Nat) (s : ASocket) (id : UInt32) (t : Nat) (mid : Server) :
    Prop where
  base : Base mid
  becomes : Becomes st mid (Function.update (Function.update st.socks st.nextSocket
    (some (newRemote id t a))) a (some { s with peer := some st.nextSocket })) 1 [.attached a st.nextSocket]

-- The transport has got to know of the remote socket.
variable (id) in
theorem Base.attached {transport : ATransport} (h : Base st) (hs : st.socks a = some s)
    (hlocal : s.ops.isLocal = true) (ht : st.transports t = some transport)
    (hsocks : after.socks = Function.update (Function.update st.socks st.nextSocket
      (some (newRemote id t a))) a (some { s with peer := some st.nextSocket }))
    (hlinks : after.links = st.links) (hnext : after.nextSocket = st.nextSocket + 1)
    (htrackers : after.deviceTrackerList = st.deviceTrackerList)
    (htransports : after.transports = Function.update st.transports t (some { transport with
      disconnects := transport.disconnects ++ [.remote st.nextSocket] })) : Base after := by
  have hnone := Graph.fresh_none h
  have ha : st.nextSocket ≠ a := by
    rintro rfl
    rw [hnone] at hs
    cases hs
  -- only the new socket has another place or role than before
  have hrole : ∀ c, c ≠ st.nextSocket → roleOf (after.socks c) = roleOf (st.socks c) := by
    intro c hc
    rw [hsocks]
    by_cases hca : c = a
    · subst hca
      rw [Function.update_self, hs, roleOf_local hlocal]
      exact roleOf_local hlocal
    · rw [Function.update_of_ne hca, Function.update_of_ne hc]
  have hnew : roleOf (after.socks st.nextSocket) = some (.remote (some t)) := by
    rw [hsocks, Function.update_of_ne ha, Function.update_self]
    rfl
  have hother : ∀ u transport', after.transports u = some transport' → u ≠ t →
      st.transports u = some transport' := by
    intro u transport' hu hut
    rwa [htransports, Function.update_of_ne hut] at hu
  have hsame : ∀ transport', after.transports t = some transport' →
      transport'.disconnects = transport.disconnects ++ [.remote st.nextSocket] := by
    intro transport' hu
    rw [htransports, Function.update_self, Option.some.injEq] at hu
    rw [← hu]
  have hunknown : ∀ u transport', st.transports u = some transport' →
      .remote st.nextSocket ∉ transport'.disconnects := by
    intro u transport' hu hm
    have hold := h.owners.disconnects u transport' _ hu hm
    rw [hnone] at hold
    cases hold
  constructor
  · obtain ⟨xs, ys, hl⟩ := h.lists
    refine ⟨xs, ys, hl.of_places hlinks ?_⟩
    intro c
    rw [hsocks]
    by_cases hca : c = a
    · subst hca
      rw [Function.update_self, hs, placeOf_local hlocal]
      exact placeOf_local hlocal
    · by_cases hc : c = st.nextSocket
      · rw [hc, Function.update_of_ne ha, Function.update_self, hnone]
        rfl
      · rw [Function.update_of_ne hca, Function.update_of_ne hc]
  · constructor
    · intro c hc
      rw [hnext] at hc
      have hca : c ≠ a := by
        rintro rfl
        rw [h.owners.fresh c (by omega)] at hs
        cases hs
      rw [hsocks, Function.update_of_ne hca, Function.update_of_ne (by omega)]
      exact h.owners.fresh c (by omega)
    · intro c
      rw [htrackers, h.owners.trackers]
      by_cases hc : c = st.nextSocket
      · subst hc
        rw [hnew, hnone]
        simp [roleOf]
      · rw [hrole c hc]
    · rw [htrackers]
      exact h.owners.trackers_once
    · intro u transport' c hu hm
      by_cases hc : c = st.nextSocket
      · subst hc
        rw [hnew]
        by_cases hut : u = t
        · rw [hut]
        · exact absurd hm (hunknown u transport' (hother u transport' hu hut))
      · rw [hrole c hc]
        by_cases hut : u = t
        · subst hut
          rw [hsame transport' hu] at hm
          exact h.owners.disconnects u transport c ht (by simpa [hc] using hm)
        · exact h.owners.disconnects u transport' c (hother u transport' hu hut) hm
    · intro u transport' c hu
      by_cases hut : u = t
      · subst hut
        rw [hsame transport' hu, List.count_append]
        have hold := h.owners.disconnects_once u transport c ht
        by_cases hc : c = st.nextSocket
        · subst hc
          rw [List.count_eq_zero.mpr (hunknown u transport ht)]
          simp
        · simpa [Ne.symm hc] using hold
      · exact h.owners.disconnects_once u transport' c (hother u transport' hu hut)

theorem attachRemote_ensures (h : Base st) (hs : st.socks a = some s)
    (hlocal : s.ops.isLocal = true) (id : UInt32) (t : Nat) :
    Ensures (attachRemote st a id t) (Attached st a s id t) Benign := by
  have ha : a ≠ st.nextSocket := by
    rintro rfl
    rw [Graph.fresh_none h] at hs
    cases hs
  unfold attachRemote
  refine (createRemoteSocket_ensures st id t).bind ?_
  rintro ⟨n, mid⟩ ⟨rfl, transport, ht, rfl⟩
  refine (ensures_bind_ok (Server.deref_some (s := s) (by simp [ha, hs]))).mpr ?_
  refine (ensures_bind_ok (Server.deref_some (a := st.nextSocket)
    (s := { newSocket .remoteSocket with id, transport := some t })
    (by simp [Server.put, ha.symm]))).mpr ?_
  obtain ⟨socks, hsocks⟩ : ∃ socks, socks = Function.update (Function.update st.socks st.nextSocket
    (some (newRemote id t a))) a (some { s with peer := some st.nextSocket }) := ⟨_, rfl⟩
  have heq : Function.update (Function.update (Function.update st.socks st.nextSocket
        (some { newSocket .remoteSocket with id, transport := some t })) a
        (some { s with peer := some st.nextSocket })) st.nextSocket (some (newRemote id t a)) =
      socks := by
    rw [hsocks, Function.update_comm ha.symm, Function.update_idem, Function.update_comm ha]
  refine ⟨h.attached id hs hlocal ht ?_ rfl rfl rfl rfl, ?_, rfl, rfl, fun _ hm => hm⟩
  · exact heq.trans hsocks
  · exact heq.trans hsocks

-- Once the socket is made ready, the connection is there.
theorem Attached.move (ha : Attached st a s id t mid) (h : Graph st) (hs : st.socks a = some s)
    (hlocal : s.ops.isLocal = true) (hclosing : s.closing = false) (hp : s.peer = none)
    (credit : Event) (rest : List Event)
    (hsocks : after.socks = Function.update mid.socks a
      (some { s.awake with ops := .localSocket, peer := some st.nextSocket }))
    (hlinks : after.links = mid.links) (hnext : after.nextSocket = mid.nextSocket)
    (htrackers : after.deviceTrackerList = mid.deviceTrackerList)
    (htransports : after.transports = mid.transports)
    (hlog : after.log = mid.log ++ credit :: rest)
    (hstatuses : ∀ ok ∈ after.script.statuses, ok ∈ mid.script.statuses)
    (hcredit : credit = .opened a ∨ credit = .okayed a)
    (hwaiting : s.ops = .localSocketNotify → ∃ ok ∈ st.script.statuses, rest = [.status a .okay ok])
    (hplain : s.ops ≠ .localSocketNotify → ∀ e ∈ rest, e.IsPlain) : Move B st after := by
  have hb := ha.becomes
  have hall : after.socks = Function.update (Function.update st.socks st.nextSocket
      (some (newRemote id t a))) a
      (some { s.awake with ops := .localSocket, peer := some st.nextSocket }) := by
    rw [hsocks, hb.socks]
    simp
  constructor
  · refine .connect a s (newRemote id t a) credit rest hs hlocal hclosing hp rfl rfl hcredit hwaiting hplain ?_
    refine ⟨hall, hnext.trans hb.nextSocket, ?_, fun ok hm => hb.statuses ok (hstatuses ok hm)⟩
    rw [hlog, hb.log]
    simp
  · refine Base.graph ?_ ?_
    · refine ha.base.of_same hlinks htrackers (.of_eq htransports) ?_ ?_ ?_
      · intro c hc
        have hold := ha.base.owners.fresh c (hnext ▸ hc)
        have hca : c ≠ a := by
          rintro rfl
          rw [hb.socks] at hold
          simp at hold
        rw [hsocks, Function.update_of_ne hca, hold]
      · intro c
        rw [hsocks, hb.socks]
        by_cases hca : c = a
        · subst hca
          simp only [Function.update_self]
          exact (placeOf_local rfl).trans (placeOf_local hlocal).symm
        · simp [hca]
      · intro c
        rw [hsocks, hb.socks]
        by_cases hca : c = a
        · subst hca
          simp only [Function.update_self]
          exact (roleOf_local rfl).trans (roleOf_local hlocal).symm
        · simp [hca]
    · rw [hall]
      exact h.peers.pair hs hp (Graph.fresh_none h.base) rfl (by simp) hclosing rfl
        (by simp [newRemote, newSocket]) rfl rfl

-- The rest of handle_packet for a first A_OKAY.
theorem okayAttached_ensures (ha : Attached st a s id t mid) (h : Graph st)
    (hs : st.socks a = some s) (hlocal : s.ops.isLocal = true) (hclosing : s.closing = false)
    (hp : s.peer = none) :
    Ensures (ready (mid.note (.okayed a)) a) (Move B st) Benign := by
  have hb := ha.becomes
  have hma : (mid.note (.okayed a)).socks a = some { s with peer := some st.nextSocket } := by
    simp [Server.note, hb.socks]
  cases hops : s.ops with
  | localSocket =>
      rw [ready_local hma hops, localSocketReady_eq hma]
      refine ha.move h hs hlocal hclosing hp (.okayed a) [] ?_ rfl rfl rfl rfl rfl
        (fun _ hm => hm) (Or.inr rfl) (by simp [hops]) (by simp)
      simp [Server.put, Server.note, ASocket.awake, hops]
  | localSocketNotify =>
      rw [ready_notify hma hops]
      unfold localSocketReadyNotify
      refine (ensures_bind_ok (Server.deref_some hma)).mpr ?_
      refine (writeStatus_ensures _ a .okay).bind ?_
      rintro _ ⟨ok, rest, hok, rfl⟩
      rw [localSocketReady_eq (s := { s with peer := some st.nextSocket, ops := .localSocket })
        (by simp [Server.put])]
      have hok' : mid.script.statuses = ok :: rest := hok
      refine ha.move h hs hlocal hclosing hp (.okayed a) [.status a .okay ok] ?_
        rfl rfl rfl rfl ?_ ?_ (Or.inr rfl) ?_ (fun hn => absurd hops hn)
      · simp [Server.put, Server.note, ASocket.awake]
      · simp [Server.put, Server.note]
      · intro ok' hm
        rw [hok']
        exact List.mem_cons_of_mem _ hm
      · intro _
        exact ⟨ok, hb.statuses ok (by simp [hok']), rfl⟩
  | _ => simp [hops, Ops.isLocal] at hlocal

end Connection

end Adb.Host
