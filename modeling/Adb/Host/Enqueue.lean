import Adb.Host.Handover

namespace Adb.Host

open Adb.Lib

variable {st mid after : Server} {a b l p t : Nat} {s q s' : ASocket} {B : Prop}

-- The sockets and what has happened stay as they are; so do the writes to come.
structure Calm (st after : Server) : Prop where
  socks : after.socks = st.socks
  links : after.links = st.links
  nextSocket : after.nextSocket = st.nextSocket
  trackers : after.deviceTrackerList = st.deviceTrackerList
  disconnects : FewerDisconnects st after
  log : after.log = st.log
  statuses : after.script.statuses = st.script.statuses
  writes : after.script.writes = st.script.writes

theorem Calm.refl (st : Server) : Calm st st :=
  ⟨rfl, rfl, rfl, rfl, .of_eq rfl, rfl, rfl, rfl⟩

theorem FewerDisconnects.trans (h : FewerDisconnects st mid) (h' : FewerDisconnects mid after) :
    FewerDisconnects st after := by
  intro t transport ht
  obtain ⟨old, ho, hcount⟩ := h' t transport ht
  obtain ⟨older, ho', hcount'⟩ := h t old ho
  exact ⟨older, ho', fun a => Nat.le_trans (hcount a) (hcount' a)⟩

theorem Calm.trans (h : Calm st mid) (h' : Calm mid after) : Calm st after where
  socks := h'.socks.trans h.socks
  links := h'.links.trans h.links
  nextSocket := h'.nextSocket.trans h.nextSocket
  trackers := h'.trackers.trans h.trackers
  disconnects := h.disconnects.trans h'.disconnects
  log := h'.log.trans h.log
  statuses := h'.statuses.trans h.statuses
  writes := h'.writes.trans h.writes

theorem Calm.behind (h' : Calm mid after) (h : Calm st mid) : Calm st after := h.trans h'

theorem Calm.graph (h : Calm st after) (hg : Graph st) : Graph after :=
  hg.congr h.socks h.links h.nextSocket h.trackers h.disconnects

theorem Calm.moves (h : Calm st after) (hg : Graph st) : Moves B st after :=
  Moves.of_same hg h.socks h.links h.nextSocket h.trackers h.disconnects h.log
    fun _ hm => h.statuses ▸ hm

section Closing

-- A socket as close finds it once the status is out.
def ASocket.told (s : ASocket) : ASocket :=
  if s.ops = .localSocketNotify then { s with ops := .localSocket } else s

-- close is a chain of effects, and all that it changes are the socket and its
-- peer.
structure Ended (B : Prop) (st : Server) (a : Nat) (s : ASocket) (after : Server) : Prop where
  moves : Moves B st after
  graph : Graph after
  socks : after.socks = Function.update (severed st.socks s.peer) a (fate s.told)

theorem Closed.ended (h : Closed st a s after) (hs : st.socks a = some s)
    (hn : s.ops ≠ .localSocketNotify) : Ended B st a s after where
  moves := Move.moves ⟨.closed a s hs (fun hn' => absurd hn' hn) h, h.graph⟩
  graph := h.graph
  socks := by
    rw [h.socks, ASocket.told, if_neg hn]

theorem failNotify_graph (h : Graph st) (hs : st.socks a = some s)
    (hops : s.ops = .localSocketNotify) : Graph (st.put a { s with ops := .localSocket }) := by
  have hlocal : s.ops.isLocal = true := by rw [hops]; rfl
  refine h.put hs hlocal.symm rfl rfl ?_ (by simp) ?_
  · rw [roleOf_local hlocal]
    exact roleOf_local rfl
  · exact fun hc => (h.peers.parked a s hs hc).2.2

theorem close_ensures (h : Graph st) (hs : st.socks a = some s) :
    Ensures (close st a) (Ended B st a s) Benign := by
  by_cases hops : s.ops = .localSocketNotify
  · -- the status first, then the close of a plain local socket
    have hnone : s.peer = none := h.peers.notify a s hs hops
    unfold close
    rw [closeWithin_notify hs hops]
    unfold localSocketCloseNotify
    refine (ensures_bind_ok (Server.deref_some hs)).mpr ?_
    refine (writeStatus_ensures _ a _).bind ?_
    rintro _ ⟨ok, rest, hok, rfl⟩
    obtain ⟨told, htold⟩ : ∃ told : Server, told = { st.put a { s with ops := .localSocket } with
      script := { st.script with statuses := rest },
      log := st.log ++ [.status a (.fail "closed") ok] } := ⟨_, rfl⟩
    have hok' : st.script.statuses = ok :: rest := hok
    have hgraph : Graph told := by
      rw [htold]
      exact (failNotify_graph h hs hops).congr rfl rfl rfl rfl (.of_eq rfl)
    have hmove : Move B st told := by
      refine ⟨.failNotify a s _ ok hs hops (by rw [hok']; simp) ⟨by rw [htold]; rfl,
        by rw [htold]; rfl, by rw [htold], ?_⟩, hgraph⟩
      intro b hb
      rw [htold] at hb
      rw [hok']
      exact List.mem_cons_of_mem _ hb
    have ht : told.socks a = some { s with ops := .localSocket } := by
      rw [htold]
      simp [Server.put]
    have hgoal := closeLocked_spec hgraph ht rfl 1
    rw [htold] at hgoal
    refine hgoal.weaken ?_
    intro after hc
    rw [← htold] at hc
    refine ⟨hmove.moves.trans (Move.moves ⟨.closed a _ ht (by simp) hc, hc.graph⟩), hc.graph, ?_⟩
    rw [hc.socks, ASocket.told, if_pos hops, htold]
    simp [severed, hnone, Server.put]
  · exact (close_spec h hs hops).weaken fun after hc => hc.ended hs hops

end Closing

section LocalEnqueue

-- The write that local_socket_enqueue makes itself is of no avail.
def writeFails (s : ASocket) (p : Bytes) (writes : List WriteOutcome) : Bool :=
  s.pkts = [] && (writeLoop false p writes).outcome = .failed

-- What comes of a packet for a local socket: it is written or queued, or the
-- write fails and the socket goes.
structure LocalEnqueued (B : Prop) (st : Server) (a : Nat) (s : ASocket) (p : Bytes)
    (result : Int × Server) : Prop where
  moves : Moves B st result.2
  graph : Graph result.2
  code : result.1 = 0 ∨ result.1 = 1
  fails : writeFails s p st.script.writes = true → result.1 = 1 ∧
    result.2.socks = Function.update (severed st.socks s.peer) a none
  kept : writeFails s p st.script.writes = false → ∃ s', Tended s s' ∧
    (s.fde.events = 0 → s'.fde.events = 0) ∧ result.2.socks = Function.update st.socks a (some s')

theorem Tended.refl (s : ASocket) : Tended s s := ⟨rfl, rfl, rfl, id, fun _ h => h⟩

theorem tended_queue (s : ASocket) (pkts : List Bytes) :
    Tended s { s with pkts, fde := fdeventAdd s.fde FDE_WRITE } where
  ops := rfl
  peer := rfl
  closing := rfl
  wants := by
    simp [FDE_WRITE]
  sound := fun _ h => Fdevent.readSound_add h

theorem events_set_zero {fde : Fdevent} {ev : BitVec 16} (h : fde.events = 0) :
    (fdeventSet fde ev).events = 0 := by
  unfold fdeventSet
  simp only
  split
  · exact h
  · split
    · split <;> simp [h]
    · exact h

theorem queuePacket_eq (hs : st.socks a = some s) (p : Bytes) :
    queuePacket st a p =
      .ok (1, st.put a { s with pkts := s.pkts ++ [p], fde := fdeventAdd s.fde FDE_WRITE }) := by
  simp only [queuePacket, Server.deref_some hs, bind, Except.bind]
  rfl

theorem Moves.queue (h : Graph st) (hs : st.socks a = some s) (hlocal : s.ops.isLocal = true)
    (p : Bytes) : Moves B st
      (st.put a { s with pkts := s.pkts ++ [p], fde := fdeventAdd s.fde FDE_WRITE }) := by
  refine Moves.tend h hs (tended_queue s _) ?_ (by simp)
  rw [roleOf_local hlocal]
  exact roleOf_local hlocal

theorem fate_nil (h : s.pkts = []) : fate s = none := by
  simp [fate, h]

theorem localSocketEnqueue_ensures (h : Graph st) (hs : st.socks a = some s)
    (hlocal : s.ops.isLocal = true) (p : Bytes) :
    Ensures (localSocketEnqueue st a p) (LocalEnqueued B st a s p) Benign := by
  unfold localSocketEnqueue
  refine (ensures_bind_ok (Server.deref_some hs)).mpr ?_
  by_cases hpkts : s.pkts = []
  · rw [if_neg (by simp [hpkts])]
    -- the state once the direct write is over
    obtain ⟨result, hresult⟩ : ∃ result, result = writeLoop false p st.script.writes := ⟨_, rfl⟩
    obtain ⟨mid, hmid⟩ : ∃ mid : Server, mid = ({ st with
      script := { st.script with writes := result.writes } }.note (.wrote a result.written)) :=
      ⟨_, rfl⟩
    have hgraph : Graph mid := by
      rw [hmid]
      exact h.congr rfl rfl rfl rfl (.of_eq rfl)
    have hsocks : mid.socks = st.socks := by rw [hmid]; rfl
    have hm : mid.socks a = some s := by rw [hsocks, hs]
    have hmoves : Moves B st mid := by
      rw [hmid]
      refine Move.moves ⟨.quiet [.wrote a result.written] (by simp [Event.IsPlain])
        ⟨rfl, rfl, rfl, fun _ hok => hok⟩, h.congr rfl rfl rfl rfl (.of_eq rfl)⟩
    have hfails : writeFails s p st.script.writes = decide (result.outcome = .failed) := by
      simp [writeFails, hpkts, hresult]
    simp only [← hresult, ← hmid]
    cases hout : result.outcome with
    | blocked => exact benign_blocked
    | failed =>
        refine (close_ensures (B := B) hgraph hm).bind ?_
        intro after he
        refine ⟨hmoves.trans he.moves, he.graph, Or.inr rfl, ?_, ?_⟩
        · intro _
          refine ⟨rfl, ?_⟩
          rw [he.socks, hsocks, fate_nil]
          unfold ASocket.told
          split <;> exact hpkts
        · intro hf
          rw [hfails, hout] at hf
          simp at hf
    | done =>
        refine ⟨hmoves, hgraph, Or.inl rfl, ?_, fun _ => ⟨s, Tended.refl s, id, ?_⟩⟩
        · intro hf
          rw [hfails, hout] at hf
          simp at hf
        · rw [hsocks, Function.update_eq_self_iff.mpr hs.symm]
    | again =>
        simp only
        rw [queuePacket_eq hm]
        have hqueue := Moves.queue (B := B) hgraph hm hlocal result.rest
        refine ⟨hmoves.trans hqueue, hqueue.graph hgraph, Or.inr rfl, ?_,
          fun _ => ⟨_, tended_queue s (s.pkts ++ [result.rest]), events_set_zero, ?_⟩⟩
        · intro hf
          rw [hfails, hout] at hf
          simp at hf
        · rw [← hsocks]
          rfl
  · rw [if_pos hpkts, queuePacket_eq hs]
    have hqueue := Moves.queue (B := B) h hs hlocal p
    refine ⟨hqueue, hqueue.graph h, Or.inr rfl, ?_, fun _ => ⟨_, tended_queue s _, events_set_zero, rfl⟩⟩
    intro hf
    simp [writeFails, hpkts] at hf

end LocalEnqueue

section Dispatch

variable {enqueue : Server → Nat → Bytes → Except Stop (Int × Server)}

-- What bindService and the trackers ask of the enqueue they are given.
def SendsLocally (enqueue : Server → Nat → Bytes → Except Stop (Int × Server)) : Prop :=
  ∀ st a s p, st.socks a = some s → s.ops.isLocal = true →
    enqueue st a p = localSocketEnqueue st a p

theorem enqueueWithin_local (depth : Nat) : SendsLocally (enqueueWithin (depth + 1)) := by
  intro st a s p hs hlocal
  simp only [enqueueWithin, Server.deref_some hs, bind, Except.bind]
  cases hops : s.ops <;> simp_all [Ops.isLocal]

theorem readyWith_local (hs : st.socks a = some s) (hops : s.ops = .localSocket) :
    readyWith enqueue st a = localSocketReady st a := by
  simp only [readyWith, Server.deref_some hs, bind, Except.bind, hops]

theorem readyWith_remote (hs : st.socks a = some s) (hops : s.ops = .remoteSocket) :
    readyWith enqueue st a = remoteSocketReady st a := by
  simp only [readyWith, Server.deref_some hs, bind, Except.bind, hops]

theorem readyWith_smart (hs : st.socks a = some s) (hops : s.ops = .smartSocket) :
    readyWith enqueue st a = .ok st := by
  simp only [readyWith, Server.deref_some hs, bind, Except.bind, hops]
  rfl

theorem readyWith_tracker (hs : st.socks a = some s) (hops : s.ops = .deviceTracker) :
    readyWith enqueue st a = deviceTrackerReady enqueue st a := by
  simp only [readyWith, Server.deref_some hs, bind, Except.bind, hops]

theorem listTransportsMsg_benign (st : Server) :
    Ensures (listTransportsMsg st) (fun _ => True) Benign := by
  have hderef : ∀ ts : List Nat, Ensures (ts.mapM st.derefTransport) (fun _ => True) Benign := by
    intro ts
    induction ts with
    | nil => simp
    | cons t ts ih =>
        rw [List.mapM_cons]
        refine (derefTransport_ensures st t).bind fun _ _ => ?_
        exact ih.bind fun _ _ => trivial
  have hloop : ∀ size lines text, Ensures (listLoop size lines text) (fun _ => True) Benign := by
    intro size lines text
    induction lines generalizing text with
    | nil => trivial
    | cons line lines ih =>
        unfold listLoop
        split
        · split
          · trivial
          · exact ih _
        · split
          · simp [Ensures, Benign]
          · exact ih _
  unfold listTransportsMsg
  refine (hderef _).bind fun transports _ => ?_
  exact (hloop _ _ _).bind fun text _ => trivial

theorem deviceTrackerSend_ensures (henqueue : SendsLocally enqueue) (h : Graph st)
    (hs : st.socks a = some s) (hops : s.ops = .deviceTracker) (buffer : Bytes) :
    Ensures (deviceTrackerSend enqueue st a buffer) (fun result => ∃ p peer, s.peer = some p ∧
      st.socks p = some peer ∧ LocalEnqueued B st p peer buffer result) Benign := by
  obtain ⟨p, peer, hp, hpeer, hlocal⟩ := h.peers.inner a s hs (by rw [hops]; rfl)
  unfold deviceTrackerSend
  refine (ensures_bind_ok (Server.deref_some hs)).mpr ?_
  rw [hp]
  simp only
  rw [henqueue st p peer buffer hpeer hlocal]
  exact (localSocketEnqueue_ensures h hpeer hlocal buffer).weaken
    fun result hr => ⟨p, peer, rfl, hpeer, hr⟩

-- A tracker that owes its peer the list of devices sends it.
structure TrackerReady (B : Prop) (st : Server) (a : Nat) (s : ASocket) (p : Nat)
    (peer : ASocket) (after : Server) : Prop where
  moves : Moves B st after
  graph : Graph after
  sent : s.updateNeeded = true → ∃ buffer result, listTransportsMsg st = .ok buffer ∧
    result.2 = after ∧ LocalEnqueued B (st.put a { s with updateNeeded := false }) p peer buffer
      result
  idle : s.updateNeeded = false → after = st

theorem tended_transport_of_inner (s : ASocket) (needed : Bool) :
    Tended s { s with updateNeeded := needed } :=
  ⟨rfl, rfl, rfl, id, fun _ h => h⟩

theorem listTransportsMsg_put (st : Server) (a : Nat) (s : ASocket) :
    listTransportsMsg (st.put a s) = listTransportsMsg st := rfl

theorem deviceTrackerReady_ensures (henqueue : SendsLocally enqueue) (h : Graph st)
    (hs : st.socks a = some s) (hops : s.ops = .deviceTracker) (hp : s.peer = some p)
    (hpeer : st.socks p = some q) :
    Ensures (deviceTrackerReady enqueue st a) (TrackerReady B st a s p q) Benign := by
  obtain ⟨hpa, -⟩ := h.peers.back a s p hs hp
  unfold deviceTrackerReady
  refine (ensures_bind_ok (Server.deref_some hs)).mpr ?_
  cases hneeded : s.updateNeeded with
  | false => exact ⟨Moves.refl st, h, fun hn => by simp [hneeded] at hn, fun _ => rfl⟩
  | true =>
      have htended := Moves.tend (B := B) h hs (tended_transport_of_inner s false)
        (by simp [roleOf, hops]) (fun hc => (h.peers.parked a s hs hc).2.2)
      have hgraph := htended.graph h
      simp only [if_true]
      rw [listTransportsMsg_put]
      cases hlist : listTransportsMsg st with
      | error e => exact (listTransportsMsg_benign st).of_error hlist
      | ok buffer =>
          refine (ensures_bind_ok rfl).mpr ?_
          refine (deviceTrackerSend_ensures (B := B) henqueue hgraph (a := a)
            (s := { s with updateNeeded := false }) (by simp [Server.put]) hops buffer).bind ?_
          rintro result ⟨p', peer, hp', hpeer', hr⟩
          obtain rfl : p = p' := Option.some.inj (hp.symm.trans hp')
          have hq : (st.put a { s with updateNeeded := false }).socks p = some q := by
            simp [Server.put, hpa, hpeer]
          rw [hq, Option.some.injEq] at hpeer'
          subst hpeer'
          exact ⟨htended.trans hr.moves, hr.graph, fun _ => ⟨buffer, result, hlist, rfl, hr⟩,
            fun hn => by simp [hneeded] at hn⟩

-- What making the peer of a local socket ready comes to.
structure PeerReady (B : Prop) (st : Server) (a : Nat) (s : ASocket) (p : Nat) (q : ASocket)
    (after : Server) : Prop where
  moves : Moves B st after
  graph : Graph after
  kept : q.ops ≠ .deviceTracker → after.socks a = some s
  tracked : q.ops = .deviceTracker → TrackerReady B st p q a s after

theorem readyWith_ensures (henqueue : SendsLocally enqueue) (h : Graph st)
    (hs : st.socks a = some s) (hlocal : s.ops.isLocal = true) (hp : s.peer = some p)
    (hq : st.socks p = some q) :
    Ensures (readyWith enqueue st p) (PeerReady B st a s p q) Benign := by
  obtain ⟨hpa, q', hq', hback⟩ := h.peers.back a s p hs hp
  rw [hq, Option.some.injEq] at hq'
  subst hq'
  cases hops : q.ops with
  | localSocket =>
      rw [readyWith_local hq hops, localSocketReady_eq hq]
      have hql : q.ops.isLocal = true := by rw [hops]; rfl
      have hgraph : Graph (st.put p q.awake) := h.put_local hq hql rfl rfl rfl
        (fun hc => (h.peers.parked p q hq hc).2.2)
      refine ⟨Move.moves ⟨.wake p a q s hq hback hs hlocal ⟨rfl, rfl, ?_, fun _ hm => hm⟩, hgraph⟩,
        hgraph, ?_, by simp [hops]⟩
      · simp [Server.put]
      · simp [Server.put, hpa.symm, hs]
  | localSocketNotify => exact absurd hops (h.peers.not_notify hq (by simp [hback]))
  | remoteSocket =>
      rw [readyWith_remote hq hops]
      unfold remoteSocketReady
      refine (ensures_bind_ok (Server.deref_some hq)).mpr ?_
      rw [hback]
      refine (ensures_bind_ok (Server.deref_some hs)).mpr ?_
      refine (sendPacket_ensures _ _ _ _).weaken ?_
      rintro _ ⟨t, -, rfl⟩
      refine ⟨Moves.note h ?_, h.note _, fun _ => hs, by simp [hops]⟩
      simp [Event.IsPlain, A_OKAY, A_WRTE]
  | smartSocket =>
      rw [readyWith_smart hq hops]
      exact ⟨Moves.refl st, h, fun _ => hs, by simp [hops]⟩
  | deviceTracker =>
      rw [readyWith_tracker hq hops]
      refine (deviceTrackerReady_ensures (B := B) henqueue h hq hops hback hs).weaken ?_
      intro after hr
      exact ⟨hr.moves, hr.graph, fun hn => absurd hops hn, fun _ => hr⟩

end Dispatch

end Adb.Host
