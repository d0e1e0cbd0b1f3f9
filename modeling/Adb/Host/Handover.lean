import Adb.Host.Wiring

namespace Adb.Host

open Adb.Lib

variable {st mid after : Server} {a l s2 t : Nat} {s q x : ASocket} {B : Prop}

-- A new client and its smart socket.
theorem client_ensures (hn : NewLocal st s mid) :
    Ensures (connectToSmartsocket mid st.nextSocket) (Move B st) Benign := by
  have hb := hn.becomes
  have hs : mid.socks st.nextSocket = some s := by simp [hb.socks]
  obtain ⟨ss, hss⟩ : ∃ ss, ss = st.nextSocket + 1 := ⟨_, rfl⟩
  have hnext : mid.nextSocket = ss := by rw [hb.nextSocket, hss]
  have hne : ss ≠ st.nextSocket := by omega
  unfold connectToSmartsocket allocSocket
  simp only [hnext]
  refine (ensures_bind_ok (Server.deref_some (s := s) ?_)).mpr ?_
  · simp [Server.put, hne.symm, hs]
  refine (ensures_bind_ok (Server.deref_some (s := newSocket .smartSocket) ?_)).mpr ?_
  · simp [Server.put, hne]
  rw [ready_local (s := { s with peer := some ss }) (by simp [Server.put, hne.symm]) hn.ops,
    localSocketReady_eq (s := { s with peer := some ss }) (by simp [Server.put, hne.symm])]
  obtain ⟨smart, hsmart⟩ : ∃ smart : ASocket,
    smart = { newSocket .smartSocket with peer := some st.nextSocket } := ⟨_, rfl⟩
  obtain ⟨client, hclient⟩ : ∃ client : ASocket, client = { s.awake with peer := some ss } := ⟨_, rfl⟩
  have hsocks : Function.update (Function.update (Function.update (Function.update mid.socks ss
        (some (newSocket .smartSocket))) st.nextSocket (some { s with peer := some ss })) ss
        (some smart)) st.nextSocket (some client) =
      Function.update (Function.update mid.socks ss (some smart)) st.nextSocket (some client) := by
    rw [update_over hne.symm, Function.update_idem]
  have hall : Function.update (Function.update mid.socks ss (some smart)) st.nextSocket
      (some client) =
      Function.update (Function.update st.socks st.nextSocket (some client)) ss (some smart) := by
    rw [hb.socks, Function.update_comm hne.symm, Function.update_idem, Function.update_comm hne]
  have hops : client.ops = .localSocket := by rw [hclient]; exact hn.ops
  refine ⟨.newClient client smart hops ?_ ?_ ?_ ?_ ?_ ⟨?_, ?_, ?_, ?_⟩, Base.graph ?_ ?_⟩
  · rw [hclient, hss]
  · rw [hclient]; exact hn.closing
  · rw [hclient]
    refine Fdevent.readSound_add ?_
    rw [hn.fde]
    exact Fdevent.readSound_install
  · rw [hsmart]; rfl
  · rw [hsmart]
  · rw [← hss, ← hall, ← hsocks, hsmart, hclient]
    rfl
  · simp only [Server.put]
    omega
  · simp [Server.put, hb.log]
  · exact hb.statuses
  · refine hn.graph.base.of_same rfl rfl (.of_eq rfl) ?_ ?_ ?_
    · intro c hc
      have hold := hn.graph.owners.fresh c (by simp only [Server.put] at hc; omega)
      have hcn : c ≠ st.nextSocket := by
        rintro rfl
        rw [hs] at hold
        cases hold
      simp only [Server.put] at hc ⊢
      rw [Function.update_of_ne hcn, Function.update_of_ne (by omega), Function.update_of_ne hcn,
        Function.update_of_ne (by omega), hold]
    all_goals
      intro c
      have hnone : mid.socks ss = none := hn.graph.owners.fresh ss (by omega)
      by_cases hcn : c = st.nextSocket
      · subst hcn
        simp [Server.put, hs, placeOf, roleOf, ASocket.awake]
      · by_cases hcs : c = ss
        · subst hcs
          simp [Server.put, hne, hnone, placeOf, roleOf, newSocket, Ops.isLocal]
        · simp [Server.put, hcn, hcs]
  · have hp := hn.graph.peers.pair (b := ss) (r := smart) hs hn.peer
      (hn.graph.owners.fresh ss (by omega)) (show client.ops.isLocal = true by rw [hops]; rfl) (by rw [hops]; simp)
      (by rw [hclient]; exact hn.closing)
      (by rw [hclient]) (by rw [hsmart]; simp [newSocket]) (by rw [hsmart]; rfl) (by rw [hsmart])
    rw [← hsocks, hsmart, hclient] at hp
    exact hp

-- A tracker that is created heads the list of trackers.
theorem Base.tracked (h : Base st) (hx : x.ops = .deviceTracker)
    (hsocks : after.socks = Function.update st.socks st.nextSocket (some x))
    (hlinks : after.links = st.links) (hnext : after.nextSocket = st.nextSocket + 1)
    (htrackers : after.deviceTrackerList = st.nextSocket :: st.deviceTrackerList)
    (htransports : after.transports = st.transports) : Base after := by
  have hnone := Graph.fresh_none h
  have hunknown : st.nextSocket ∉ st.deviceTrackerList := by
    rw [h.owners.trackers, hnone]
    simp [roleOf]
  constructor
  · obtain ⟨xs, ys, hl⟩ := h.lists
    refine ⟨xs, ys, hl.of_places hlinks ?_⟩
    intro c
    rw [hsocks]
    by_cases hc : c = st.nextSocket
    · subst hc
      simp [placeOf, hx, hnone, Ops.isLocal]
    · rw [Function.update_of_ne hc]
  · constructor
    · intro c hc
      rw [hsocks, Function.update_of_ne (by omega)]
      exact h.owners.fresh c (by omega)
    · intro c
      rw [htrackers, hsocks, List.mem_cons]
      by_cases hc : c = st.nextSocket
      · subst hc
        simp [roleOf, hx]
      · rw [Function.update_of_ne hc, h.owners.trackers]
        simp [hc]
    · rw [htrackers]
      exact List.nodup_cons.mpr ⟨hunknown, h.owners.trackers_once⟩
    · intro t transport c ht hm
      have hold := h.owners.disconnects t transport c (htransports ▸ ht) hm
      rw [hsocks]
      by_cases hc : c = st.nextSocket
      · subst hc
        rw [hnone] at hold
        cases hold
      · rw [Function.update_of_ne hc, hold]
    · intro t transport c ht
      exact h.owners.disconnects_once t transport c (htransports ▸ ht)

-- A smart socket without a peer is closed.
theorem closeCleared_eq (hops : s.ops = .smartSocket) :
    close (st.put a { s with peer := none }) a = .ok (st.free a) := by
  have hput : (st.put a { s with peer := none }).socks a = some { s with peer := none } := by
    simp [Server.put]
  unfold close
  rw [closeWithin_smart hput hops]
  simp only [smartSocketClose, Server.deref_some hput, bind, Except.bind, pure, Except.pure]
  simp [Server.free, Server.put]

theorem Base.free_smart (h : Base st) (hs : st.socks a = some s) (hops : s.ops = .smartSocket) :
    Base (st.free a) :=
  (smartSocketFree hs hops h.owners).base h hs (by rw [hops]; rfl)

-- The socket that takes the place of a smart socket: new, or a local socket.
structure Service (st : Server) (s2 fresh : Nat) (x : ASocket) (mid : Server) : Prop where
  base : Base mid
  socks : mid.socks = Function.update st.socks s2 (some x)
  nextSocket : mid.nextSocket = st.nextSocket + fresh
  log : mid.log = st.log
  statuses : mid.script.statuses = st.script.statuses
  writes : mid.script.writes = st.script.writes
  kind : x.ops = .localSocket ∨ x.ops = .deviceTracker
  closing : x.closing = false
  sound : x.fde.ReadSound
  origin : (st.socks s2 = none ∧ s2 = st.nextSocket ∧ fresh = 1) ∨
    ∃ old, st.socks s2 = some old ∧ old.ops = .localSocket ∧ old.peer = none ∧
      old.closing = false ∧ fresh = 0

-- The peer of the smart socket and the service have each other, and the smart
-- socket is gone.
structure HandedOver (B : Prop) (st : Server) (a l s2 : Nat) (s x : ASocket)
    (mid after : Server) : Prop where
  moves : Moves B st after
  graph : Graph after
  socks : after.socks = Function.update (Function.update (Function.update st.socks a none)
    l (some { s with ops := .localSocket, peer := some s2 })) s2 (some { x with peer := some l })
  writes : after.script.writes = st.script.writes
  devices : listTransportsMsg after = listTransportsMsg mid
  apart : l ≠ s2

theorem handOver_ensures {fresh : Nat} (h : Graph st) (hs : st.socks l = some s)
    (hp : s.peer = some a) (hq : st.socks a = some q) (hops : q.ops = .smartSocket)
    (hm : Service st s2 fresh x mid) :
    Ensures (handOver mid a l s2) (HandedOver B st a l s2 s x mid) Benign := by
  obtain ⟨hal, q', hq', hback⟩ := h.peers.back l s a hs hp
  rw [hq, Option.some.injEq] at hq'
  subst hq'
  have hlocal : s.ops.isLocal = true := by
    obtain ⟨l', s', hl', hs', hlocal⟩ := h.peers.inner a q hq (by rw [hops]; rfl)
    rw [hback, Option.some.injEq] at hl'
    subst hl'
    rw [hs, Option.some.injEq] at hs'
    rw [hs']
    exact hlocal
  have hclosing : s.closing = false := by
    by_contra hc
    have hnone := (h.peers.parked l s hs (by simpa using hc)).2.1
    rw [hp] at hnone
    cases hnone
  -- neither of the two is the service
  have hls : l ≠ s2 := by
    rintro rfl
    rcases hm.origin with ⟨hnone, -⟩ | ⟨old, ho, -, hop, -⟩
    · rw [hs] at hnone
      cases hnone
    · rw [hs, Option.some.injEq] at ho
      rw [ho, hop] at hp
      cases hp
  have has : a ≠ s2 := by
    rintro rfl
    rcases hm.origin with ⟨hnone, -⟩ | ⟨old, ho, -, hop, -⟩
    · rw [hq] at hnone
      cases hnone
    · rw [hq, Option.some.injEq] at ho
      rw [ho, hop] at hback
      cases hback
  unfold handOver
  refine (writeStatus_ensures mid l .okay).bind ?_
  rintro _ ⟨ok, rest, hok, rfl⟩
  obtain ⟨told, htold⟩ : ∃ told : Server, told = { mid with
    script := { mid.script with statuses := rest }, log := mid.log ++ [.status l .okay ok] } := ⟨_, rfl⟩
  rw [← htold]
  have hbase : Base told := by
    rw [htold]
    exact hm.base.congr rfl rfl rfl rfl (.of_eq rfl)
  have hsocks : told.socks = Function.update st.socks s2 (some x) := by rw [htold]; exact hm.socks
  have hl : told.socks l = some s := by rw [hsocks, Function.update_of_ne hls, hs]
  refine (ensures_bind_ok (Server.deref_some hl)).mpr ?_
  obtain ⟨s', hs'⟩ : ∃ s' : ASocket, s' = { s with ops := .localSocket, peer := some s2 } := ⟨_, rfl⟩
  obtain ⟨x', hx'⟩ : ∃ x' : ASocket, x' = { x with peer := some l } := ⟨_, rfl⟩
  have hx : (told.put l s').socks s2 = some x := by simp [Server.put, hls.symm, hsocks]
  rw [← hs']
  refine (ensures_bind_ok (Server.deref_some hx)).mpr ?_
  rw [← hx']
  have ha : ((told.put l s').put s2 x').socks a = some q := by
    simp [Server.put, hal, has, hsocks, hq]
  refine (ensures_bind_ok (Server.deref_some ha)).mpr ?_
  have hbase' : Base ((told.put l s').put s2 x') := by
    have hlocal' : s'.ops.isLocal = true := by rw [hs']; rfl
    have hfirst : Base (told.put l s') := hbase.put hl (hlocal'.trans hlocal.symm) (by rw [hs'])
      ((roleOf_local hlocal').trans (roleOf_local hlocal).symm)
    exact hfirst.put hx (by rw [hx']) (by rw [hx']) (by rw [hx']; rfl)
  rw [closeCleared_eq hops]
  obtain ⟨after, hafter⟩ : ∃ after, after = ((told.put l s').put s2 x').free a := ⟨_, rfl⟩
  rw [← hafter]
  have hfinal : after.socks = Function.update (Function.update (Function.update st.socks a none)
      l (some s')) s2 (some x') := by
    rw [hafter]
    simp only [Server.put, Server.free]
    rw [hsocks, Function.update_comm hls.symm, Function.update_idem, Function.update_comm has.symm,
      Function.update_comm hal.symm]
  have hkind : x'.ops = .localSocket ∨ x'.ops = .deviceTracker := by rw [hx']; exact hm.kind
  have hgraph : Graph after := by
    refine Base.graph (hafter ▸ hbase'.free_smart ha hops) ?_
    rw [hfinal]
    refine h.peers.rebind hs hlocal hp has hls ?_ (by rw [hs']; rfl) (by rw [hs']; simp)
      (by rw [hs']; exact hclosing) (by rw [hs']) ?_ (by rw [hx']; exact hm.closing) (by rw [hx'])
    · rcases hm.origin with ⟨hnone, -⟩ | ⟨old, ho, -, hop, -⟩
      · exact Or.inl hnone
      · exact Or.inr ⟨old, ho, hop⟩
    · rcases hkind with hk | hk <;> simp [hk]
  refine ⟨?_, hgraph, by rw [hfinal, hs', hx'], ?_, ?_, hls⟩
  · -- first the status, then the new connection
    have hok' : ok ∈ st.script.statuses := by rw [← hm.statuses, hok]; simp
    obtain ⟨first, hfirst⟩ : ∃ first : Server, first = { st with
      script := { st.script with statuses := rest }, log := st.log ++ [.status l .okay ok] } := ⟨_, rfl⟩
    have hmove : Move B st first := by
      rw [hfirst]
      refine ⟨.status l a s q .okay ok hs hp hq hops hok' ⟨rfl, rfl, rfl, ?_⟩,
        h.congr rfl rfl rfl rfl (.of_eq rfl)⟩
      intro b hb
      rw [← hm.statuses, hok]
      exact List.mem_cons_of_mem _ hb
    refine hmove.moves.trans (Move.moves ⟨.bind l a s2 fresh s q x' [] ?_ hlocal hp ?_ hops ?_ hkind ?_ ?_
      (by simp) ⟨?_, ?_, ?_, ?_⟩, hgraph⟩)
    · rw [hfirst]; exact hs
    · rw [hfirst]; exact hq
    · rw [hfirst]
      exact hm.origin
    · rw [hx']
    · rw [hx']; exact hm.sound
    · rw [hfinal, hfirst, hs']
    · simp [hafter, hfirst, Server.put, Server.free, htold, hm.nextSocket]
    · simp [hafter, hfirst, Server.put, Server.free, htold, hm.log]
    · simp [hafter, hfirst, Server.put, Server.free, htold]
  · simp [hafter, Server.put, Server.free, htold, hm.writes]
  · rw [hafter, htold]
    rfl

-- The peer of the smart socket waits for its status, and the smart socket is
-- gone.
structure Forwarded (st : Server) (a l : Nat) (s q : ASocket) (after : Server) : Prop where
  graph : Graph after
  socks : after.socks = Function.update (Function.update st.socks a none) l
    (some { s with ops := .localSocketNotify, peer := none, transport := q.transport })
  nextSocket : after.nextSocket = st.nextSocket
  script : after.script = st.script
  log : ∃ rest, after.log = st.log ++ .forwarded l :: rest ∧ ∀ e ∈ rest, e.IsPlain

theorem connectToRemote_ensures (hs : st.socks a = some s) (destination : Bytes) :
    Ensures (connectToRemote st a destination)
      (fun after => ∃ t m, after = st.note (.sent t m none) ∧ m.command = A_OPEN) Benign := by
  unfold connectToRemote
  refine (ensures_bind_ok (Server.deref_some hs)).mpr ?_
  split
  · exact benign_exited
  · refine (sendPacket_ensures _ _ _ _).weaken ?_
    rintro _ ⟨t, -, rfl⟩
    exact ⟨t, _, rfl, rfl⟩

end Adb.Host
