import Adb.Host.Requests

namespace Adb.Host

open Adb.Lib
open Adb.Transport (ConnectionState TransportType)

variable {st mid after : Server} {a b l p t : Nat} {s q s' : ASocket} {B : Prop}
  {enqueue : Server → Nat → Bytes → Except Stop (Int × Server)}

-- What a smart socket does with what has come in.
inductive SmartCourse where
  | waits
  | closes
  | tracks
  | serves
  | forwards
deriving DecidableEq

def hostCourse (service : Bytes) : SmartCourse :=
  match hostRequest service with
  | some (.transport _ _) => .waits
  | some _ => .closes
  | none =>
      if service = ascii "track-devices" then .tracks
      else if isWaitFor service then .serves
      else .closes

def forwardCourse (st : Server) (transport : Option Nat) : SmartCourse :=
  if (transport.bind st.transports).any fun t => t.connectionState ≠ .offline then .forwards
  else .closes

def smartCourse (st : Server) (q : ASocket) (p : Bytes) : SmartCourse :=
  let data := q.pkts.headD [] ++ p
  if q.pkts ≠ [] ∧ data.length > MAX_PAYLOAD then
    .closes
  else
    match frame data with
    | .incomplete => .waits
    | .badSize => .closes
    | .complete service =>
        match parseRequest service with
        | .host service _ _ => hostCourse service
        | .device _ => forwardCourse st q.transport

-- The client is there and not closing.
def Stays (st : Server) (l : Nat) : Prop :=
  ∃ s, st.socks l = some s ∧ s.closing = false

-- What comes of a packet for a smart socket, by the course it takes.
inductive SmartEnqueued (B : Prop) (st : Server) (a l : Nat) (s : ASocket) :
    SmartCourse → Int × Server → Prop
  | waits (result : Server) (moves : Moves B st result) (kept : result.socks l = some s) :
      SmartEnqueued B st a l s .waits (0, result)
  | closes (result : Server) (moves : Moves B st result) (ended : result.socks l = fate s) :
      SmartEnqueued B st a l s .closes (-1, result)
  | serves (result : Server) (moves : Moves B st result) (stays : Stays result l) :
      SmartEnqueued B st a l s .serves (0, result)
  | tracks (result : Server) (buffer : Bytes) (moves : Moves B st result)
      (listed : listTransportsMsg st = .ok buffer)
      (fails : writeFails s buffer st.script.writes = true → result.socks l = none)
      (stays : writeFails s buffer st.script.writes = false → Stays result l) :
      SmartEnqueued B st a l s .tracks (0, result)
  | forwards (middle result : Server) (q : ASocket) (moves : Moves B st middle)
      (graph : Graph middle) (smart : middle.socks a = some q) (ops : q.ops = .smartSocket)
      (client : middle.socks l = some s) (forwarded : Forwarded middle a l s q result) :
      SmartEnqueued B st a l s .forwards (1, result)

theorem SmartEnqueued.of_moves {course : SmartCourse} {result : Int × Server}
    (h : SmartEnqueued B mid a l s course result) (hm : Moves B st mid)
    (hlist : listTransportsMsg mid = listTransportsMsg st)
    (hwrites : mid.script.writes = st.script.writes) :
    SmartEnqueued B st a l s course result := by
  cases h with
  | waits result moves kept => exact .waits result (hm.trans moves) kept
  | closes result moves ended => exact .closes result (hm.trans moves) ended
  | serves result moves stays => exact .serves result (hm.trans moves) stays
  | tracks result buffer moves listed fails stays =>
      rw [hlist] at listed
      rw [hwrites] at fails stays
      exact .tracks result buffer (hm.trans moves) listed fails stays
  | forwards middle result q moves graph smart ops client forwarded =>
      exact .forwards middle result q (hm.trans moves) graph smart ops client forwarded

theorem Client.not_closing (h : Client st a l q s) : s.closing = false := by
  by_contra hc
  have hnone := (h.graph.peers.parked l s h.client (by simpa using hc)).2.1
  rw [h.back] at hnone
  cases hnone

theorem Client.not_notify (h : Client st a l q s) : s.ops ≠ .localSocketNotify :=
  h.graph.peers.not_notify h.client (by simp [h.back])

-- The smart socket goes, and takes its client along.
theorem smartFail_ensures (h : Client st a l q s) :
    Ensures (smartFail st a) (SmartEnqueued B st a l s .closes) Benign := by
  have hn : q.ops ≠ .localSocketNotify := by rw [h.ops]; simp
  unfold smartFail
  refine (close_spec h.graph h.smart hn).bind fun after hc => ?_
  refine .closes after (hc.ended h.smart hn).moves ?_
  rw [hc.socks, h.peer, Function.update_of_ne h.ne.symm]
  simp [severed, h.client]

theorem Client.failed {status : Status} (h : Client st a l q s) :
    Ensures (st.writeStatus l status >>= fun st => smartFail st a)
      (SmartEnqueued B st a l s .closes) Benign := by
  refine (h.answer (B := B) status).bind fun mid ha => ?_
  have hclient : Client mid a l q s :=
    ⟨ha.graph, ha.socks ▸ h.smart, h.ops, h.peer, ha.socks ▸ h.client, h.back⟩
  refine (smartFail_ensures (B := B) hclient).weaken fun result hr => ?_
  cases hr with
  | closes result moves ended => exact .closes result (ha.moves.trans moves) ended

section Forward

theorem isOffline_ensures (st : Server) (transport : Option Nat) :
    Ensures (isOffline st transport) (fun offline =>
      forwardCourse st transport = if offline then .closes else .forwards) Benign := by
  cases transport with
  | none => rfl
  | some t =>
      refine (derefTransport_ensures st t).bind fun transport ht => ?_
      by_cases hoff : transport.connectionState = .offline <;> simp [forwardCourse, ht, hoff]

theorem smartForward_ensures (h : Client st a l q s) (service : Bytes) :
    Ensures (smartForward st a service)
      (SmartEnqueued B st a l s (forwardCourse st q.transport)) Benign := by
  unfold smartForward
  refine (ensures_bind_ok (Server.deref_some h.smart)).mpr ?_
  rw [h.peer]
  refine (isOffline_ensures st q.transport).bind ?_
  intro offline hoff
  rw [hoff]
  cases offline with
  | true => exact h.failed
  | false =>
      refine (ensures_bind_ok (Server.deref_some h.client)).mpr ?_
      obtain ⟨waiting, hwaiting⟩ : ∃ waiting : ASocket, waiting = { s with
        ops := .localSocketNotify, peer := none, transport := q.transport } := ⟨_, rfl⟩
      rw [← hwaiting]
      refine (connectToRemote_ensures (s := waiting) (by simp [Server.note, Server.put])
        service).bind ?_
      rintro _ ⟨t, m, rfl, hm⟩
      obtain ⟨mid, hmid⟩ : ∃ mid, mid = ((st.put l waiting).note (.forwarded l)).note (.sent t m none) :=
        ⟨_, rfl⟩
      rw [← hmid, closeCleared_eq h.ops]
      have hlocal : waiting.ops.isLocal = true := by rw [hwaiting]; rfl
      have hbase : Base mid := by
        have hput : Base (st.put l waiting) := h.graph.base.put h.client
          (hlocal.trans h.local.symm) (by rw [hwaiting])
          ((roleOf_local hlocal).trans (roleOf_local h.local).symm)
        rw [hmid]
        exact hput.congr rfl rfl rfl rfl (.of_eq rfl)
      have hsmart : mid.socks a = some q := by
        rw [hmid]
        simp [Server.note, Server.put, h.ne, h.smart]
      have hsocks : (mid.free a).socks = Function.update (Function.update st.socks a none) l
          (some waiting) := by
        rw [hmid]
        simp only [Server.free, Server.note, Server.put]
        rw [Function.update_comm h.ne.symm]
      refine .forwards st (mid.free a) q (Moves.refl st) h.graph h.smart h.ops h.client
        ⟨Base.graph (hbase.free_smart hsmart h.ops) ?_, ?_, ?_, ?_, [.sent t m none], ?_, ?_⟩
      · rw [hsocks]
        refine h.graph.peers.unpair h.client h.back ?_ alone_none
        intro w hw
        cases hw
        refine ⟨hlocal, by rw [hwaiting], fun hc => ?_⟩
        rw [hwaiting] at hc
        exact absurd (h.not_closing.symm.trans hc) (by simp)
      · rw [hsocks, hwaiting]
      · rw [hmid]; rfl
      · rw [hmid]; rfl
      · simp [hmid, Server.free, Server.note, Server.put]
      · simp [Event.IsPlain, hm, A_OPEN, A_WRTE]

end Forward

section Service

-- A service that a client may be handed over to, and the state it starts from.
structure Started (B : Prop) (st : Server) (name : Bytes) (s2 : Nat) (mid : Server) : Prop where
  intro ::
  started : ∃ origin fresh x, Moves B st origin ∧ Graph origin ∧
    (∀ c, st.socks c ≠ none → origin.socks c = st.socks c) ∧
    origin.script.writes = st.script.writes ∧ Service origin s2 fresh x mid ∧
    listTransportsMsg mid = listTransportsMsg st ∧
    (if name = ascii "track-devices" then x.ops = .deviceTracker ∧ x.updateNeeded = true
      else x.ops = .localSocket)

theorem hostServiceToSocket_ensures (h : Graph st) (name : Bytes) :
    Ensures (hostServiceToSocket st name) (fun result =>
      match result.1 with
      | none => result.2 = st ∧ name ≠ ascii "track-devices" ∧ isWaitFor name = false
      | some s2 => (name ≠ ascii "track-devices" → isWaitFor name = true) ∧
          Started B st name s2 result.2) Benign := by
  unfold hostServiceToSocket
  split
  · rename_i hname
    have hnone := Graph.fresh_none h.base
    obtain ⟨tracker, htracker⟩ : ∃ tracker : ASocket,
      tracker = { newSocket .deviceTracker with updateNeeded := true } := ⟨_, rfl⟩
    have hops : tracker.ops = .deviceTracker := by rw [htracker]; rfl
    have hmid : Base (createDeviceTracker st).2 :=
      h.base.tracked hops (by rw [htracker]; rfl) rfl rfl rfl rfl
    refine ⟨fun hn => absurd hname hn, ⟨st, 1, tracker, Moves.refl st, h, fun _ _ => rfl, rfl,
      ⟨hmid, by rw [htracker]; rfl, rfl, rfl, rfl, rfl, Or.inr hops, by rw [htracker]; rfl, ?_,
        Or.inl ⟨hnone, rfl, rfl⟩⟩, rfl, ?_⟩⟩
    · rw [htracker]
      exact Fdevent.readSound_install
    · rw [if_pos hname]
      exact ⟨hops, by rw [htracker]⟩
  · rename_i hname
    split
    · rename_i hwait
      refine ((openFd_calm st).and (openFd_devices st)).bind ?_
      rintro ⟨fd, mid⟩ ⟨hc, hlist⟩
      simp only at hc hlist ⊢
      refine (createLocalSocket_ensures (hc.graph h) fd).bind ?_
      rintro ⟨s2, after⟩ ⟨rfl, x, hn⟩
      simp only at hn ⊢
      have hb := hn.becomes
      refine ⟨fun _ => hwait, ⟨after, 0, x, (hc.moves h).trans hn.moves, hn.graph, ?_, ?_,
        ⟨hn.graph.base, ?_, rfl, rfl, rfl, rfl, Or.inl hn.ops, hn.closing, ?_, Or.inr ?_⟩, ?_, ?_⟩⟩
      · intro c hne
        have hcn : c ≠ mid.nextSocket := by
          rintro rfl
          rw [hc.nextSocket] at hne
          exact hne (Graph.fresh_none h.base)
        rw [hb.socks, Function.update_of_ne hcn, hc.socks]
      · exact hn.writes.trans hc.writes
      · rw [hb.socks, Function.update_idem]
      · rw [hn.fde]
        exact Fdevent.readSound_install
      · exact ⟨x, by simp [hb.socks], hn.ops, hn.peer, hn.closing, rfl⟩
      · exact hn.devices.trans hlist
      · rw [if_neg hname]
        exact hn.ops
    · rename_i hwait
      exact ⟨rfl, hname, by simpa using hwait⟩

theorem bindService_ensures (henqueue : SendsLocally enqueue) (h : Client st a l q s)
    {name : Bytes} {s2 : Nat} (hstart : Started B st name s2 mid) :
    Ensures (bindService enqueue mid a l s2) (SmartEnqueued B st a l s
      (if name = ascii "track-devices" then .tracks else .serves)) Benign := by
  obtain ⟨origin, fresh, x, hmoves, hgraph, hold, hwrites, hservice, hlist, hkind⟩ := hstart.started
  have hl : origin.socks l = some s := by rw [hold l (by simp [h.client]), h.client]
  have ha : origin.socks a = some q := by rw [hold a (by simp [h.smart]), h.smart]
  unfold bindService
  refine (handOver_ensures (B := B) hgraph hl h.back ha h.ops hservice).bind ?_
  intro ready hover
  obtain ⟨s', hs'⟩ : ∃ s' : ASocket, s' = { s with ops := .localSocket, peer := some s2 } := ⟨_, rfl⟩
  have hrl : ready.socks l = some s' := by
    rw [hover.socks, Function.update_of_ne hover.apart, Function.update_self, hs']
  have hrs : ready.socks s2 = some { x with peer := some l } := by
    rw [hover.socks, Function.update_self]
  have hclosing : s'.closing = false := by rw [hs']; exact h.not_closing
  refine (readyWith_ensures (B := B) henqueue hover.graph hrl (by rw [hs']; rfl)
    (by rw [hs']) hrs).bind ?_
  intro after hready
  have hall : Moves B st after := (hmoves.trans hover.moves).trans hready.moves
  by_cases hname : name = ascii "track-devices"
  · rw [if_pos hname]
    rw [if_pos hname] at hkind
    obtain ⟨buffer, result, hbuffer, hresult, hsent⟩ := (hready.tracked hkind.1).sent hkind.2
    rw [hover.devices, hlist] at hbuffer
    have hfails : writeFails s' buffer (ready.put s2 { x with peer := some l, updateNeeded := false
        }).script.writes = writeFails s buffer st.script.writes := by
      rw [hs', ← hwrites, ← hover.writes]
      rfl
    refine .tracks after buffer hall hbuffer ?_ ?_
    · intro hf
      rw [← hresult, (hsent.fails (hfails.trans hf)).2, Function.update_self]
    · intro hf
      obtain ⟨s'', htended, -, hsocks⟩ := hsent.kept (hfails.trans hf)
      exact ⟨s'', by rw [← hresult, hsocks, Function.update_self], htended.closing.trans hclosing⟩
  · rw [if_neg hname]
    rw [if_neg hname] at hkind
    refine .serves after hall ⟨s', hready.kept ?_, hclosing⟩
    simp [hkind]

end Service

section Request

theorem hostRequest_transport_iff (service : Bytes) :
    (∃ type name, hostRequest service = some (.transport type name)) ↔
      (afterPrefix "transport" service).isSome = true := by
  have htransport : ∀ service, ∃ type name, transportRequest service = .transport type name := by
    intro service
    unfold transportRequest
    split
    · exact ⟨_, _, rfl⟩
    · split
      · exact ⟨_, _, rfl⟩
      · split <;> exact ⟨_, _, rfl⟩
  have hforward : ∀ create spec type name, forwardRequest create spec ≠ .transport type name := by
    intro create spec type name
    unfold forwardRequest
    simp only
    split
    · simp
    · split <;> simp
  constructor
  · rintro ⟨type, name, hr⟩
    by_contra hp
    unfold hostRequest at hr
    simp only [hp] at hr
    repeat' split at hr
    all_goals simp_all
  · intro hp
    have hkill : service ≠ ascii "kill" := by
      rintro rfl
      revert hp
      decide
    obtain ⟨type, name, ht⟩ := htransport service
    exact ⟨type, name, by simp [hostRequest, hkill, hp, ht]⟩

theorem smartHostRequest_ensures (henqueue : SendsLocally enqueue) (h : Client st a l q s)
    (service : Bytes) (ttype : TransportType) (serial : Option Bytes) :
    Ensures (smartHostRequest enqueue st a service ttype serial)
      (SmartEnqueued B st a l s (hostCourse service)) Benign := by
  unfold smartHostRequest
  refine (ensures_bind_ok (Server.deref_some h.smart)).mpr ?_
  rw [h.peer]
  refine (handleHostRequest_ensures (B := B) h (hostRequest service) ttype serial).bind ?_
  rintro ⟨r, mid⟩ hr
  obtain ⟨t, hsocks⟩ := hr.socks
  have hcode := hr.code
  simp only at hsocks hcode ⊢
  have hclient : Client mid a l { q with transport := t } s :=
    ⟨hr.graph, by simp [hsocks], h.ops, h.peer, by simp [hsocks, h.ne.symm, h.client], h.back⟩
  cases hreq : hostRequest service with
  | none =>
      have hsame : mid = st := hr.same (by simp [hostCode, hreq])
      have hno : (afterPrefix "transport" service).isSome ≠ true := by
        intro hp
        obtain ⟨type, name, ht⟩ := (hostRequest_transport_iff service).mpr hp
        rw [hreq] at ht
        cases ht
      subst hsame
      rw [hcode, hreq, if_neg (by simp [hostCode]), if_neg hno]
      refine (hostServiceToSocket_ensures (B := B) hr.graph service).bind ?_
      rintro ⟨found, after⟩ hfound
      cases found with
      | none =>
          obtain ⟨rfl, htrack, hwait⟩ := hfound
          have hcourse : hostCourse service = .closes := by
            simp [hostCourse, hreq, htrack, hwait]
          rw [hcourse]
          exact h.failed
      | some s2 =>
          obtain ⟨hwait, hstart⟩ := hfound
          have hcourse : hostCourse service =
              if service = ascii "track-devices" then .tracks else .serves := by
            by_cases hname : service = ascii "track-devices"
            · simp only [hostCourse, hreq, if_pos hname]
            · simp only [hostCourse, hreq, if_neg hname, hwait hname, if_true]
          rw [hcourse]
          exact bindService_ensures henqueue h hstart
  | some request =>
      by_cases htransport : ∃ type name, request = .transport type name
      · obtain ⟨type, name, rfl⟩ := htransport
        have hp := (hostRequest_transport_iff service).mp ⟨type, name, hreq⟩
        have hcourse : hostCourse service = .waits := by simp [hostCourse, hreq]
        rw [hcode, hreq, if_neg (by simp [hostCode]), if_pos hp, hcourse]
        refine (ensures_bind_ok (Server.deref_some hclient.smart)).mpr ?_
        have hmoves := Moves.tend (B := B) hclient.graph hclient.smart
          (⟨rfl, rfl, rfl, id, fun _ hs => hs⟩ :
            Tended { q with transport := t } { q with transport := t, pkts := [[]] })
          (by simp [roleOf, h.ops]) (fun hc => by simp)
        refine .waits _ (hr.moves.trans hmoves) ?_
        simp [Server.put, h.ne.symm, hclient.client]
      · have hzero : hostCode (some request) = 0 := by
          cases request <;> simp_all [hostCode]
        have hcourse : hostCourse service = .closes := by
          cases request <;> simp_all [hostCourse]
        rw [hcode, hreq, hzero, if_pos rfl, hcourse]
        refine (smartFail_ensures (B := B) hclient).weaken fun result hres => ?_
        cases hres with
        | closes result moves ended => exact .closes result (hr.moves.trans moves) ended

theorem smartSocketEnqueue_ensures (henqueue : SendsLocally enqueue) (h : Client st a l q s)
    (p : Bytes) :
    Ensures (smartSocketEnqueue enqueue st a p) (SmartEnqueued B st a l s (smartCourse st q p))
      Benign := by
  unfold smartSocketEnqueue smartCourse
  refine (ensures_bind_ok (Server.deref_some h.smart)).mpr ?_
  simp only
  split
  · exact smartFail_ensures h
  · -- the bytes are put together first
    obtain ⟨data, hdata⟩ : ∃ data, data = q.pkts.headD [] ++ p := ⟨_, rfl⟩
    rw [← hdata]
    have hmoves := Moves.tend (B := B) h.graph h.smart 
      (⟨rfl, rfl, rfl, id, fun _ hs => hs⟩ : Tended q { q with pkts := [data] })
      (by simp [roleOf, h.ops]) (fun hc => by simp)
    have hclient : Client (st.put a { q with pkts := [data] }) a l { q with pkts := [data] } s :=
      ⟨hmoves.graph h.graph, by simp [Server.put], h.ops, h.peer,
        by simp [Server.put, h.ne.symm, h.client], h.back⟩
    have hlift : ∀ course result, SmartEnqueued B (st.put a { q with pkts := [data] }) a l s
        course result → SmartEnqueued B st a l s course result :=
      fun course result hres => hres.of_moves hmoves rfl rfl
    cases hframe : frame data with
    | incomplete => exact .waits _ hmoves hclient.client
    | badSize => exact (smartFail_ensures hclient).weaken fun result hres => hlift _ _ hres
    | complete service =>
        cases hrequest : parseRequest service with
        | host service ttype serial =>
            simp only [hrequest]
            exact (smartHostRequest_ensures henqueue hclient service ttype serial).weaken
              fun result hres => hlift _ _ hres
        | device service =>
            simp only [hrequest]
            exact (smartForward_ensures hclient service).weaken fun result hres => hlift _ _ hres

end Request

end Adb.Host
