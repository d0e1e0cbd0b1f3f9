import Adb.Host.Enqueue

namespace Adb.Host

open Adb.Lib
open Adb.Transport (ConnectionState TransportType)

variable {st mid after : Server} {a b l p t : Nat} {s q s' : ASocket} {B : Prop}

section Listeners

theorem acquireOneTransport_benign (st : Server) (ttype : TransportType) (serial : Option Bytes) :
    Ensures (acquireOneTransport st ttype serial) (fun _ => True) Benign := by
  have hloop : ∀ ts result error,
      Ensures (acquireLoop st ttype serial ts result error) (fun _ => True) Benign := by
    intro ts
    induction ts with
    | nil => exact fun _ _ => trivial
    | cons t ts ih =>
        intro result error
        unfold acquireLoop
        refine (derefTransport_ensures st t).bind fun transport _ => ?_
        split
        · exact ih _ _
        · split
          · exact ih _ _
          · split
            · trivial
            · exact ih _ _
  unfold acquireOneTransport
  refine (hloop _ _ _).bind ?_
  rintro ⟨result, error⟩ -
  cases result with
  | none => trivial
  | some t =>
      refine (derefTransport_ensures st t).bind fun transport _ => ?_
      split <;> trivial

-- Only the listeners of a transport come and go.
theorem fewer_of_listener {transport : ATransport} {dis : List Disconnect}
    (ht : st.transports t = some transport)
    (hdis : ∀ a, dis.count (.remote a) ≤ transport.disconnects.count (.remote a)) :
    FewerDisconnects st (st.putTransport t { transport with disconnects := dis }) := by
  intro u other hu
  by_cases hut : u = t
  · subst hut
    simp only [Server.putTransport, Function.update_self, Option.some.injEq] at hu
    subst hu
    exact ⟨transport, ht, hdis⟩
  · simp only [Server.putTransport, Function.update_of_ne hut] at hu
    exact ⟨other, hu, fun _ => Nat.le_refl _⟩

theorem calm_putTransport {transport : ATransport} (other : ATransport)
    (ht : st.transports t = some transport) (hdis : other.disconnects = transport.disconnects) :
    Calm st (st.putTransport t other) := by
  refine ⟨rfl, rfl, rfl, rfl, ?_, rfl, rfl, rfl⟩
  intro u found hu
  by_cases hut : u = t
  · subst hut
    simp only [Server.putTransport, Function.update_self, Option.some.injEq] at hu
    subst hu
    exact ⟨transport, ht, fun _ => Nat.le_of_eq (by rw [hdis])⟩
  · simp only [Server.putTransport, Function.update_of_ne hut] at hu
    exact ⟨found, hu, fun _ => Nat.le_refl _⟩

theorem removeListenerDisconnect_calm (st : Server) (t l : Nat) :
    Ensures (st.removeTransportDisconnect t (.listener l)) (Calm st) Benign := by
  unfold Server.removeTransportDisconnect
  refine (derefTransport_ensures st t).bind fun transport ht => ?_
  refine ⟨rfl, rfl, rfl, rfl, fewer_of_listener ht ?_, rfl, rfl, rfl⟩
  exact fun a => List.erase_sublist.count_le _

theorem addListenerDisconnect_calm (st : Server) (t l : Nat) :
    Ensures (st.addTransportDisconnect t (.listener l)) (Calm st) Benign := by
  unfold Server.addTransportDisconnect
  refine (derefTransport_ensures st t).bind fun transport ht => ?_
  refine ⟨rfl, rfl, rfl, rfl, fewer_of_listener ht ?_, rfl, rfl, rfl⟩
  intro a
  simp [List.count_append]

theorem derefListener_benign (st : Server) (l : Nat) :
    Ensures (st.derefListener l) (fun _ => True) Benign := by
  unfold Server.derefListener
  cases st.listeners l with
  | none => exact benign_useAfterFree
  | some listener => trivial

theorem calm_of_eq (hsocks : after.socks = st.socks) (hlinks : after.links = st.links)
    (hnext : after.nextSocket = st.nextSocket)
    (htrackers : after.deviceTrackerList = st.deviceTrackerList)
    (htransports : after.transports = st.transports) (hlog : after.log = st.log)
    (hstatuses : after.script.statuses = st.script.statuses)
    (hwrites : after.script.writes = st.script.writes) : Calm st after :=
  ⟨hsocks, hlinks, hnext, htrackers, .of_eq htransports, hlog, hstatuses, hwrites⟩

theorem openFd_calm (st : Server) : Ensures st.openFd (fun r => Calm st r.2) Benign := by
  unfold Server.openFd
  split
  · exact calm_of_eq rfl rfl rfl rfl rfl rfl rfl rfl
  · exact calm_of_eq rfl rfl rfl rfl rfl rfl rfl rfl
  · exact benign_blocked

theorem openFd_devices (st : Server) :
    Ensures st.openFd (fun r => listTransportsMsg r.2 = listTransportsMsg st) Benign := by
  unfold Server.openFd
  split
  · rfl
  · rfl
  · exact benign_blocked

theorem freeListener_calm (st : Server) (l : Nat) :
    Ensures (freeListener st l) (Calm st) Benign := by
  unfold freeListener
  refine (derefListener_benign st l).bind fun listener _ => ?_
  cases listener.transport with
  | none => exact calm_of_eq rfl rfl rfl rfl rfl rfl rfl rfl
  | some t =>
      refine (removeListenerDisconnect_calm _ t l).bind fun mid hm => ?_
      have hm' : Calm st mid := hm.behind (calm_of_eq rfl rfl rfl rfl rfl rfl rfl rfl)
      exact hm'.trans (calm_of_eq rfl rfl rfl rfl rfl rfl rfl rfl)

theorem installListener_calm (st : Server) (localName connectTo : Bytes) (transport : Option Nat) :
    Ensures (installListener st localName connectTo transport) (fun r => Calm st r.2) Benign := by
  unfold installListener
  split
  · rename_i l _
    refine (derefListener_benign st l).bind fun listener _ => ?_
    split
    · exact Calm.refl st
    · split
      · exact calm_of_eq rfl rfl rfl rfl rfl rfl rfl rfl
      · split
        · rename_i old new _ _
          refine (removeListenerDisconnect_calm st old l).bind fun mid hm => ?_
          refine (addListenerDisconnect_calm _ new l).bind fun after ha => ?_
          have ha' : Calm mid after := ha.behind (calm_of_eq rfl rfl rfl rfl rfl rfl rfl rfl)
          exact ha'.behind hm
        · exact benign_useAfterFree
  · refine Ensures.bind (m := fun r => Calm st r.2) ?_ ?_
    · unfold localNameToFd
      split
      · exact openFd_calm st
      · exact Calm.refl st
    · rintro ⟨fd, mid⟩ hm
      cases fd with
      | none => exact hm
      | some fd =>
          cases transport with
          | none => exact hm.trans (calm_of_eq rfl rfl rfl rfl rfl rfl rfl rfl)
          | some t =>
              refine (addListenerDisconnect_calm _ t _).bind fun after ha => ?_
              have ha' : Calm mid after := ha.behind (calm_of_eq rfl rfl rfl rfl rfl rfl rfl rfl)
              exact ha'.behind hm

theorem removeListener_calm (st : Server) (localName connectTo : Bytes) (t : Nat) :
    Ensures (removeListener st localName connectTo t) (fun r => Calm st r.2) Benign := by
  unfold removeListener
  simp only
  split
  · exact Calm.refl st
  · exact (freeListener_calm st _).bind fun after ha => ha

end Listeners

section HostRequests

-- A smart socket and the local socket of its client.
structure Client (st : Server) (a l : Nat) (q s : ASocket) : Prop where
  graph : Graph st
  smart : st.socks a = some q
  ops : q.ops = .smartSocket
  peer : q.peer = some l
  client : st.socks l = some s
  back : s.peer = some a

theorem Client.of_graph (h : Graph st) (hq : st.socks a = some q) (hops : q.ops = .smartSocket)
    (hp : q.peer = some l) : ∃ s, Client st a l q s := by
  obtain ⟨-, s, hs, hback⟩ := h.peers.back a q l hq hp
  exact ⟨s, h, hq, hops, hp, hs, hback⟩

theorem Client.ne (h : Client st a l q s) : a ≠ l :=
  (h.graph.peers.back l s a h.client h.back).1

theorem Client.local (h : Client st a l q s) : s.ops.isLocal = true := by
  obtain ⟨l', s', hl', hs', hlocal⟩ := h.graph.peers.inner a q h.smart (by rw [h.ops]; rfl)
  rw [h.peer, Option.some.injEq] at hl'
  subst hl'
  rw [h.client, Option.some.injEq] at hs'
  exact hs' ▸ hlocal

theorem Client.of_calm (h : Client st a l q s) (hc : Calm st after) : Client after a l q s :=
  ⟨hc.graph h.graph, hc.socks ▸ h.smart, h.ops, h.peer, hc.socks ▸ h.client, h.back⟩

-- Neither socket is touched while its client is answered.
structure Answered (B : Prop) (st : Server) (after : Server) : Prop where
  moves : Moves B st after
  graph : Graph after
  socks : after.socks = st.socks
  transports : after.transports = st.transports
  writes : after.script.writes = st.script.writes

theorem Client.answer (h : Client st a l q s) (status : Status) :
    Ensures (st.writeStatus l status) (Answered B st) Benign := by
  refine (writeStatus_ensures st l status).weaken ?_
  rintro _ ⟨ok, rest, hok, rfl⟩
  have hgraph : Graph { st with
      script := { st.script with statuses := rest }, log := st.log ++ [.status l status ok] } :=
    h.graph.congr rfl rfl rfl rfl (.of_eq rfl)
  refine ⟨Move.moves ⟨.status l a s q status ok h.client h.back h.smart h.ops (by simp [hok])
    ⟨rfl, rfl, rfl, ?_⟩, hgraph⟩, hgraph, rfl, rfl, rfl⟩
  intro b hb
  rw [hok]
  exact List.mem_cons_of_mem _ hb

-- What handle_host_request returns.
def hostCode : Option HostRequest → Int
  | some (.transport _ _) => 1
  | none => -1
  | _ => 0

-- All that handle_host_request does to a socket is to give the smart socket a
-- transport.
structure HostHandled (B : Prop) (st : Server) (a : Nat) (q : ASocket)
    (request : Option HostRequest) (result : Int × Server) : Prop where
  moves : Moves B st result.2
  graph : Graph result.2
  code : result.1 = hostCode request
  socks : ∃ t, result.2.socks = Function.update st.socks a (some { q with transport := t })
  same : hostCode request = -1 → result.2 = st
  writes : result.2.script.writes = st.script.writes

theorem HostHandled.of_calm {request : Option HostRequest} (h : Client st a l q s)
    (hc : Calm st mid) {e : Event} (he : e.IsPlain) (hcode : hostCode request = 0) :
    HostHandled B st a q request (0, mid.note e) where
  moves := (hc.moves h.graph).trans (Moves.note (hc.graph h.graph) he)
  graph := (hc.graph h.graph).note e
  code := hcode.symm
  socks := ⟨q.transport, by
    have hself : Function.update st.socks a (some q) = st.socks :=
      Function.update_eq_self_iff.mpr h.smart.symm
    exact hc.socks.trans hself.symm⟩
  same := by simp [hcode]
  writes := hc.writes

theorem HostHandled.of_answered {request : Option HostRequest} (h : Client st a l q s)
    (hc : Calm st mid) (ha : Answered B mid after) {code : Int} (hcode : code = hostCode request)
    (hnot : code ≠ -1) : HostHandled B st a q request (code, after) where
  moves := (hc.moves h.graph).trans ha.moves
  graph := ha.graph
  code := hcode
  socks := ⟨q.transport, by
    have hself : Function.update st.socks a (some q) = st.socks :=
      Function.update_eq_self_iff.mpr h.smart.symm
    exact (ha.socks.trans hc.socks).trans hself.symm⟩
  same := fun hm => absurd (hcode.trans hm) hnot
  writes := ha.writes.trans hc.writes

theorem handleForward_ensures (h : Client st a l q s) {request : Option HostRequest}
    (hcode : hostCode request = 0) (create : Bool) (localName remote : Bytes) (ttype : TransportType)
    (serial : Option Bytes) :
    Ensures (handleForward st create localName remote ttype serial l)
      (fun after => HostHandled B st a q request (0, after)) Benign := by
  unfold handleForward
  refine (acquireOneTransport_benign st ttype serial).bind ?_
  rintro ⟨found, error⟩ -
  cases found with
  | none =>
      exact (h.answer (B := B) _).weaken fun after ha =>
        .of_answered h (Calm.refl st) ha hcode.symm (by simp)
  | some t =>
      have hcalm : Ensures (if create then installListener st localName remote (some t)
          else removeListener st localName remote t) (fun r => Calm st r.2) Benign := by
        split
        · exact installListener_calm st localName remote (some t)
        · exact removeListener_calm st localName remote t
      refine hcalm.bind ?_
      rintro ⟨r, mid⟩ hc
      simp only
      split
      · exact .of_calm h hc (by simp [Event.IsPlain]) hcode
      · split
        all_goals
          exact ((h.of_calm hc).answer (B := B) _).weaken fun after ha =>
            .of_answered h hc ha hcode.symm (by simp)

theorem handleHostRequest_ensures (h : Client st a l q s) (request : Option HostRequest)
    (ttype : TransportType) (serial : Option Bytes) :
    Ensures (handleHostRequest st request ttype serial l a) (HostHandled B st a q request)
      Benign := by
  have hnote : ∀ (mid : Server) (r : Option HostRequest) (e : Event), Calm st mid → e.IsPlain →
      hostCode r = 0 → HostHandled B st a q r (0, mid.note e) :=
    fun mid r e hc he hcode => .of_calm h hc he hcode
  unfold handleHostRequest
  cases request with
  | none =>
      refine ⟨Moves.refl st, h.graph, rfl, ⟨q.transport, ?_⟩, fun _ => rfl, rfl⟩
      exact (Function.update_eq_self_iff.mpr h.smart.symm).symm
  | some request =>
      cases request with
      | kill => exact benign_exited
      | transport type name =>
          refine (acquireOneTransport_benign st type _).bind ?_
          rintro ⟨found, error⟩ -
          cases found with
          | none =>
              refine (h.answer (B := B) _).bind fun after ha => ?_
              exact .of_answered h (Calm.refl st) ha rfl (by simp)
          | some t =>
              refine (ensures_bind_ok (Server.deref_some h.smart)).mpr ?_
              have htended : Tended q { q with transport := some t } :=
                ⟨rfl, rfl, rfl, id, fun _ hr => hr⟩
              have hmoves := Moves.tend (B := B) h.graph h.smart htended
                (by simp [roleOf, h.ops]) (fun hc => (h.graph.peers.parked a q h.smart hc).2.2)
              have hclient : Client (st.put a { q with transport := some t }) a l
                  { q with transport := some t } s :=
                ⟨hmoves.graph h.graph, by simp [Server.put], h.ops, h.peer,
                  by simp [Server.put, h.ne.symm, h.client], h.back⟩
              refine (hclient.answer (B := B) _).bind fun after ha => ?_
              refine ⟨hmoves.trans ha.moves, ha.graph, rfl, ⟨some t, ha.socks⟩, ?_, ha.writes⟩
              simp [hostCode]
      | devices long => exact hnote st _ _ (Calm.refl st) trivial rfl
      | connect host => exact hnote st _ _ (Calm.refl st) trivial rfl
      | disconnect name =>
          refine hnote _ _ _ ?_ trivial rfl
          unfold disconnectDevice
          split
          · exact calm_of_eq rfl rfl rfl rfl rfl rfl rfl rfl
          · simp only
            split
            · exact calm_of_eq rfl rfl rfl rfl rfl rfl rfl rfl
            · exact Calm.refl st
      | version => exact hnote st _ _ (Calm.refl st) trivial rfl
      | getSerialno =>
          exact (acquireOneTransport_benign st ttype serial).bind fun _ _ =>
            hnote st _ _ (Calm.refl st) trivial rfl
      | getDevpath =>
          exact (acquireOneTransport_benign st ttype serial).bind fun _ _ =>
            hnote st _ _ (Calm.refl st) trivial rfl
      | emulator =>
          refine ⟨Moves.refl st, h.graph, rfl, ⟨q.transport, ?_⟩, by simp [hostCode], rfl⟩
          exact (Function.update_eq_self_iff.mpr h.smart.symm).symm
      | malformedForward =>
          refine (h.answer (B := B) _).bind fun after ha => ?_
          exact .of_answered h (Calm.refl st) ha rfl (by simp)
      | forward create localName remote =>
          exact (handleForward_ensures h rfl create localName remote ttype serial).bind
            fun after ha => ha
      | getState =>
          exact (acquireOneTransport_benign st ttype serial).bind fun _ _ =>
            hnote st _ _ (Calm.refl st) trivial rfl

end HostRequests

end Adb.Host
