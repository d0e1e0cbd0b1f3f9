import Adb.Host.Gated

namespace Adb.Host

open Adb.Lib
open Adb.Transport (ConnectionState TransportType)

variable {st mid after : Server} {a l p t u : Nat} {s s' : ASocket} {b : Bytes}
  {transport x : ATransport}
  {out : Option Nat}

section Trackers

-- The end of a connection that has no remote socket is heard by nobody.
theorem close_unsent (hs : st.socks a = some s) (hops : s.ops = .localSocket)
    (hpeer : ∀ p q, s.peer = some p → st.socks p = some q → q.ops ≠ .remoteSocket) :
    Ensures (close st a) (Unsent st) Anyway := by
  unfold close closeWithin
  apply (ensures_bind_ok (Server.deref_some hs)).mpr
  rw [hops]
  simp only
  unfold localSocketCloseLocked
  apply (ensures_bind_ok (Server.deref_some hs)).mpr
  cases hp : s.peer with
  | none => exact (localSocketFinish_only st a).weaken fun _ h => h.unsent
  | some p =>
      apply (closePeer_alone 2 st p).bind
      rintro mid ⟨peer, hfound, hclosed⟩
      apply (deref_any mid a).bind
      intro s' _
      apply (localSocketFinish_only _ a).weaken
      intro after h
      have hput := OnlyAt.put mid a { s' with peer := none }
      exact (hclosed.unsent (hpeer p peer hp hfound)).trans (hput.trans h).unsent

theorem localSocketEnqueue_unsent (hs : st.socks a = some s) (hops : s.ops = .localSocket)
    (hpeer : ∀ p q, s.peer = some p → st.socks p = some q → q.ops ≠ .remoteSocket) (b : Bytes) :
    Ensures (localSocketEnqueue st a b) (fun r => Unsent st r.2) Anyway := by
  unfold localSocketEnqueue
  apply (ensures_bind_ok (Server.deref_some hs)).mpr
  split
  · rw [queuePacket_eq hs]
    exact .of_eq rfl
  · obtain ⟨result, hresult⟩ : ∃ result, result = writeLoop false b st.script.writes := ⟨_, rfl⟩
    obtain ⟨mid, hmid⟩ : ∃ mid : Server, mid =
      ({ st with script := { st.script with writes := result.writes } }.note
        (.wrote a result.written)) :=
      ⟨_, rfl⟩
    have hwrote : Unsent st mid := by
      rw [hmid]
      exact .note rfl (by simp)
    have hm : mid.socks = st.socks := by rw [hmid]; rfl
    simp only [← hresult, ← hmid]
    cases result.outcome with
    | blocked => trivial
    | failed =>
        apply (close_unsent (hm ▸ hs) hops fun p q hp hq => hpeer p q hp (hm ▸ hq)).bind
        intro after h
        exact hwrote.trans h
    | done => exact hwrote
    | again =>
        simp only
        rw [queuePacket_eq (hm ▸ hs)]
        exact hwrote.trans (.of_eq rfl)

theorem deviceTrackerSend_unsent {enqueue : Server → Nat → Bytes → Except Stop (Int × Server)}
    (henqueue : SendsLocally enqueue) (h : Graph st) (hs : st.socks a = some s)
    (hops : s.ops = .deviceTracker) (buffer : Bytes) :
    Ensures (deviceTrackerSend enqueue st a buffer) (fun r => Unsent st r.2) Anyway := by
  obtain ⟨l, client, hl, hclient, hlocal⟩ := h.peers.inner a s hs (by rw [hops]; rfl)
  obtain ⟨-, found, hfound, hback⟩ := h.peers.back a s l hs hl
  rw [hclient, Option.some.injEq] at hfound
  subst hfound
  have hplain : client.ops = .localSocket := by
    have hnotify := h.peers.not_notify hclient (by simp [hback])
    cases hclientOps : client.ops <;> simp_all [Ops.isLocal]
  unfold deviceTrackerSend
  apply (ensures_bind_ok (Server.deref_some hs)).mpr
  rw [hl]
  simp only
  rw [henqueue st l client buffer hclient hlocal]
  apply localSocketEnqueue_unsent hclient hplain
  intro p q hp hq
  rw [hback, Option.some.injEq] at hp
  subst hp
  rw [hs, Option.some.injEq] at hq
  subst hq
  simp [hops]

theorem updateFrom_unsent (buffer : Bytes) (fuel : Nat) (tracker : Option Nat) (h : Graph st) :
    Ensures (updateFrom buffer fuel tracker st) (Unsent st) Anyway := by
  induction fuel generalizing st tracker with
  | zero =>
      cases tracker with
      | none => exact .of_eq rfl
      | some d => trivial
  | succ fuel ih =>
      cases tracker with
      | none => exact .of_eq rfl
      | some d =>
          unfold updateFrom
          cases hdrop : st.deviceTrackerList.dropWhile (· ≠ d) with
          | nil => trivial
          | cons head rest =>
              obtain ⟨-, hd⟩ := dropWhile_here hdrop
              obtain ⟨s, hs, hops⟩ := h.tracker_mem hd
              have hgraph := (deviceTrackerSend_ensures (B := False)
                (enqueueWithin_local 1) h hs hops
                buffer).mono (W := Anyway) fun _ _ => trivial
              apply (hgraph.and
                (deviceTrackerSend_unsent (enqueueWithin_local 1) h hs hops buffer)).bind
              rintro ⟨r, mid⟩ ⟨⟨p, peer, -, -, hr⟩, hsent⟩
              apply (ih rest.head? hr.graph).weaken
              intro after h
              exact hsent.trans h

-- The trackers' clients are told, and no transport.
theorem updateTransports_unsent (h : Graph st) :
    Ensures (updateTransports st) (Unsent st) Anyway := by
  unfold updateTransports
  cases listTransportsMsg st with
  | error e => trivial
  | ok buffer => exact updateFrom_unsent buffer _ _ h

end Trackers

section Handshake

-- Of all transports but one nothing has changed but the records.
def OthersSame (st : Server) (t : Nat) (after : Server) : Prop :=
  ∀ u, u ≠ t → (after.transports u).map ATransport.plain = (st.transports u).map ATransport.plain

theorem OthersSame.trans (h : OthersSame st t mid) (h' : OthersSame mid t after) :
    OthersSame st t after :=
  fun u hu => (h' u hu).trans (h u hu)

theorem OthersSame.put (st : Server) (t : Nat) (x : ATransport) :
    OthersSame st t (st.putTransport t x) :=
  fun u hu => by simp [Server.putTransport, hu]

theorem SameStates.others (h : SameStates st after) (t : Nat) : OthersSame st t after :=
  fun u _ => h.plain u

-- One transport changes its state.
theorem Gated.putTransport (h : Gated none st) (hb : Books st)
    (ht : st.transports t = some transport)
    (hup : x.online = true → x.connectionState ≠ .offline ∧ x.connectionState ≠ .noPerm)
    (hperm : x.connectionState ≠ .noPerm) (hout : out = none ∨ out = some t)
    (hstays : out = none →
      (transport.online = true → x.online = true) ∧ x.connectionState ≠ .offline) :
    Gated out (st.putTransport t x) := by
  have hself : (st.putTransport t x).transports t = some x := by simp [Server.putTransport]
  have hother : ∀ u, u ≠ t → (st.putTransport t x).transports u = st.transports u :=
    fun u hu => by simp [Server.putTransport, hu]
  have hlt : t < st.nextTransport := by
    by_contra hge
    rw [hb.freshTransport t (by omega)] at ht
    cases ht
  have hpermitted : ∀ u, Permitted st u → Permitted (st.putTransport t x) u := by
    intro u hu
    refine ⟨hu.1, fun y hy => ?_⟩
    by_cases hut : u = t
    · subst hut
      rw [hself, Option.some.injEq] at hy
      exact hy ▸ hperm
    · exact hu.2 y (hother u hut ▸ hy)
  have hrest : ∀ u, out ≠ some u → u = t → out = none := by
    rintro u hne rfl
    exact hout.resolve_right hne
  constructor
  · intro u y hy honline
    by_cases hut : u = t
    · subst hut
      rw [hself, Option.some.injEq] at hy
      subst hy
      exact hup honline
    · exact h.up u y (hother u hut ▸ hy) honline
  · exact fun a s u hs hu => hpermitted u (h.named a s u hs hu)
  · intro a s u hs hops hu hne
    obtain ⟨y, hy, honline⟩ := h.remotes a s u hs hops hu (by simp)
    by_cases hut : u = t
    · have hnone := hrest u hne hut
      subst hut
      rw [ht, Option.some.injEq] at hy
      subst hy
      exact ⟨x, hself, (hstays hnone).1 honline⟩
    · exact ⟨y, (hother u hut).trans hy, honline⟩
  · intro l listener u hl hu hne
    obtain ⟨y, hy, hfit⟩ := h.listeners l listener u hl hu (by simp)
    by_cases hut : u = t
    · have hnone := hrest u hne hut
      subst hut
      exact ⟨x, hself, (hstays hnone).2, hperm⟩
    · exact ⟨y, (hother u hut).trans hy, hfit⟩
  · intro u hu
    have hut : u = t := by
      rcases hout with hnone | hsome
      · rw [hnone] at hu
        cases hu
      · exact (Option.some.inj (hsome.symm.trans hu)).symm
    subst hut
    refine ⟨hlt, fun y hy => ?_⟩
    rw [hself, Option.some.injEq] at hy
    exact hy ▸ hperm

-- Once the callbacks have run nobody is left that is bound to the transport.
theorem Gated.of_walked (h : Gated out after) (hw : Walked st t after)
    (hout : out = none ∨ out = some t) :
    Gated none after := by
  refine ⟨h.up, h.named, ?_, ?_, by simp⟩
  · intro a s u hs hops hu _
    refine h.remotes a s u hs hops hu fun heq => ?_
    rcases hout with hnot | hsome
    · rw [hnot] at heq
      cases heq
    · obtain rfl := Option.some.inj (hsome.symm.trans heq)
      exact hw.detached hs hops hu
  · intro l listener u hl hu _
    refine h.listeners l listener u hl hu fun heq => ?_
    rcases hout with hnot | hsome
    · rw [hnot] at heq
      cases heq
    · obtain rfl := Option.some.inj (hsome.symm.trans heq)
      exact hw.unbound hl hu

theorem setProperties_online (transport : ATransport) (banner : Bytes) :
    (setProperties transport banner).online = transport.online := by
  apply setProperties_keeps (·.online)
  intro transport token
  unfold setProperty
  split
  · rfl
  · simp only
    repeat' split
    all_goals rfl

-- A transport that has been taken offline.
structure Down (st : Server) (t : Nat) (after : Server) : Prop where
  walked : Walked st t after
  gated : Gated none after
  others : OthersSame st t after
  offline : ∃ x, after.transports t = some x ∧ x.connectionState = .offline

theorem takeOffline_down (h : Graph st) (hb : Books st) (hg : Gated none st)
    (ht : st.transports t = some transport) :
    ∃ after, takeOffline st t = .ok after ∧ Down st t after := by
  obtain ⟨after, hrun, hw⟩ := takeOffline_walked h hb ht
  obtain ⟨down, hdown⟩ : ∃ down : ATransport,
    down = { transport with connectionState := .offline, online := false } := ⟨_, rfl⟩
  have hput : takeOffline st t = runTransportDisconnects (st.putTransport t down) t := by
    simp [takeOffline, setConnectionState, handleOffline, Server.derefTransport, ht,
      Server.putTransport, hdown, bind, Except.bind, pure, Except.pure]
  have hmid : Gated (some t) (st.putTransport t down) :=
    hg.putTransport hb ht (by simp [hdown]) (by simp [hdown]) (Or.inr rfl) (by simp)
  have hbooks : Books (st.putTransport t down) := hb.putTransport ht (by rw [hdown])
  have hp := ((runTransportDisconnects_edits (D := Nobody) t).of_ok
    (hput ▸ hrun)).passes hbooks hmid
  have hfound : (st.putTransport t down).transports t = some down := by simp [Server.putTransport]
  obtain ⟨y, hy, -, hstate⟩ := found_of_plain (hp.same.plain t) hfound
  refine ⟨after, hrun, hw, hp.gated.of_walked hw (Or.inr rfl), ?_, y, hy, by rw [hstate, hdown]⟩
  exact (OthersSame.put st t down).trans (hp.same.others t)

theorem bannerState_fit {type : Bytes} {state : ConnectionState}
    (h : bannerState type = some state) :
    state ≠ .offline ∧ state ≠ .noPerm := by
  unfold bannerState at h
  repeat' split at h
  all_goals cases h
  all_goals decide

-- What the banner does before the transport goes online.
structure Named (st : Server) (t : Nat) (after : Server) : Prop where
  books : Books after
  gated : Gated none after
  others : OthersSame st t after
  unsent : Unsent st after
  fit : Fit after t

theorem parseBanner_named (h : Graph st) (hb : Books st) (hg : Gated none st) (t : Nat)
    (buffer : Bytes) :
    Ensures (parseBanner st t buffer) (Named st t) Anyway := by
  unfold parseBanner
  apply (derefTransport_any st t).bind
  intro transport ht
  simp only
  obtain ⟨base, hbase⟩ : ∃ base, base = setProperties transport (buffer.takeWhile (· ≠ 0)) :=
    ⟨_, rfl⟩
  have hdis : base.disconnects = transport.disconnects :=
    hbase ▸ setProperties_disconnects transport _
  have honline : base.online = transport.online := hbase ▸ setProperties_online transport _
  rw [← hbase]
  have hstate : ∀ state, state ≠ .offline ∧ state ≠ .noPerm →
      Named st t (st.putTransport t { base with connectionState := state }) := by
    intro state hfit
    refine ⟨hb.putTransport ht hdis, ?_, OthersSame.put st t _, .of_eq rfl,
      { base with connectionState := state }, by simp [Server.putTransport], hfit⟩
    exact hg.putTransport hb ht (fun _ => hfit) hfit.2 (Or.inl rfl) fun _ =>
      ⟨fun hup => honline.trans hup, hfit.1⟩
  split
  · rename_i state hbanner
    have hmid := hstate state (bannerState_fit hbanner)
    have hgraph := (calm_putTransport { base with connectionState := state } ht hdis).graph h
    apply ((updateTransports_works (D := AnySerial) (N := True) hgraph).and
      (updateTransports_unsent hgraph)).weaken
    rintro after ⟨hworks, hunsent⟩
    have hp := hworks.passes hmid.books hmid.gated
    exact ⟨hp.books, hp.gated, hmid.others.trans (hp.same.others t), hmid.unsent.trans hunsent,
      hp.same.fit hmid.fit⟩
  · exact hstate .host (by decide)

theorem handleOnline_named (hn : Named st t mid) :
    Ensures (handleOnline mid t) (fun after => Named st t after ∧ Online after t) Anyway := by
  unfold handleOnline
  apply (derefTransport_any mid t).bind
  intro transport ht
  obtain ⟨found, hfound, hfit⟩ := hn.fit
  rw [ht, Option.some.injEq] at hfound
  subst hfound
  have hself : (mid.putTransport t { transport with online := true }).transports t =
      some { transport with online := true } := by simp [Server.putTransport]
  refine ⟨⟨hn.books.putTransport ht rfl, ?_, hn.others.trans (OthersSame.put mid t _),
    hn.unsent.trans (.of_eq rfl), _, hself, hfit⟩, _, hself, rfl⟩
  exact hn.gated.putTransport hn.books ht (fun _ => hfit) hfit.2 (Or.inl rfl) fun _ =>
    ⟨fun _ => rfl, hfit.1⟩

end Handshake

section Steps

-- The server when no transport is being taken offline.
structure GateShut (st : Server) : Prop where
  books : Books st
  gated : Gated none st
  agrees : ∀ t, Fit st t → Online st t

theorem GateShut.up_iff (h : GateShut st) (ht : st.transports t = some transport) :
    transport.online = true ↔ transport.connectionState ≠ .offline ∧
      transport.connectionState ≠ .noPerm := by
  constructor
  · exact h.gated.up t transport ht
  · intro hfit
    obtain ⟨found, hfound, hup⟩ := h.agrees t ⟨transport, ht, hfit⟩
    rw [ht, Option.some.injEq] at hfound
    exact hfound ▸ hup

-- A step of the server: what is sent is the handshake, or the step takes no
-- transport offline and it goes to one that is online all along.
structure Guards (st : Server) (ordinary : Prop) (after : Server) : Prop where
  shut : GateShut after
  sends : SendsOnly (fun t message => message.command = A_SYNC ∨ message.command = A_CNXN ∨
    (ordinary ∧ Online st t ∧ Online after t)) st after

theorem agrees_of_others (h : ∀ u, Fit st u → Online st u) (hothers : OthersSame st t after)
    (ht : Fit after t → Online after t) (u : Nat) (hfit : Fit after u) : Online after u := by
  by_cases hut : u = t
  · subst hut
    exact ht hfit
  · have hold : Fit st u := hfit.of_plain (hothers u hut).symm
    exact (h u hold).of_plain (hothers u hut)

theorem Passes.guards (hp : Passes none st after) (h : GateShut st) : Guards st True after where
  shut := ⟨hp.books, hp.gated, fun t hfit => hp.same.online (h.agrees t (hp.same.symm.fit hfit))⟩
  sends := by
    apply hp.sends.mono
    intro t message hto
    refine hto.imp_right (Or.imp_right fun hfit => ?_)
    have hup := h.agrees t (hfit.resolve_right (by simp))
    exact ⟨trivial, hup, hp.same.online hup⟩

theorem Down.guards (hd : Down st t after) (h : GateShut st) : Guards st False after where
  shut := by
    refine ⟨hd.walked.books, hd.gated, agrees_of_others h.agrees hd.others ?_⟩
    rintro ⟨x, hx, hstate, -⟩
    obtain ⟨y, hy, hoffline⟩ := hd.offline
    rw [hx, Option.some.injEq] at hy
    exact absurd (hy ▸ hoffline) hstate
  sends := hd.walked.unsent.sends

theorem GateShut.note (h : GateShut st) (e : Event) : GateShut (st.note e) :=
  ⟨h.books.of_same (.of_eq rfl) rfl rfl rfl rfl,
    h.gated.congr ⟨fun _ => rfl, rfl⟩ rfl rfl, h.agrees⟩

theorem handleSync_guards (h : Graph st) (hs : GateShut st) (t : Nat) (packet : Packet)
    (harg : packet.arg0 = 0) : Ensures (handleSync st t packet) (Guards st False) Anyway := by
  unfold handleSync
  simp only
  rw [if_neg (not_not.mpr harg)]
  cases ht : st.transports t with
  | none => simp [setConnectionState, Server.derefTransport, ht, bind, Except.bind, Anyway]
  | some transport =>
      obtain ⟨mid, hrun, hdown⟩ := takeOffline_down h hs.books hs.gated ht
      have hmid := hdown.guards hs
      rw [← bind_assoc]
      apply (ensures_bind_ok hrun).mpr
      apply ((sendPacket_ensures mid (some t) _ none).mono fun _ _ => trivial).weaken
      rintro _ ⟨u, -, rfl⟩
      refine ⟨hmid.shut.note _, hdown.walked.unsent.sends.trans (.note rfl ?_)⟩
      rintro v message carried heq
      cases heq
      exact Or.inl rfl

theorem handleConnect_guards (h : Graph st) (hs : GateShut st) (t : Nat) (packet : Packet) :
    Ensures (handleConnect st t packet) (Guards st False) Anyway := by
  unfold handleConnect
  apply (derefTransport_any st t).bind
  intro transport ht
  have hdown : Ensures (if transport.connectionState ≠ .offline then takeOffline st t else pure st)
      (fun mid => Graph mid ∧ Guards st False mid ∧ OthersSame st t mid ∧
        Unsent st mid) Anyway := by
    split
    · obtain ⟨mid, hrun, hmid⟩ := takeOffline_down h hs.books hs.gated ht
      rw [hrun]
      exact ⟨hmid.walked.graph, hmid.guards hs, hmid.others, hmid.walked.unsent⟩
    · exact ⟨h, ⟨hs, .of_eq rfl⟩, fun _ _ => rfl, .of_eq rfl⟩
  apply hdown.bind
  rintro mid ⟨hgraph, hmid, hothers, hunsent⟩
  apply (parseBanner_named hgraph hmid.shut.books hmid.shut.gated t _).bind
  intro banner hbanner
  apply (handleOnline_named hbanner).weaken
  rintro after ⟨hafter, honline⟩
  have hrest := hothers.trans hafter.others
  exact ⟨⟨hafter.books, hafter.gated, agrees_of_others hs.agrees hrest fun _ => honline⟩,
    Unsent.sends (hunsent.trans hafter.unsent)⟩

-- The trackers are told of a change in the list.
theorem updateTransports_guards (h : Graph mid) (hs : GateShut mid) (hunsent : Unsent st mid) :
    Ensures (updateTransports mid) (Guards st False) Anyway := by
  apply ((updateTransports_works (D := AnySerial) (N := True) h).and
    (updateTransports_unsent h)).weaken
  rintro after ⟨hworks, hquiet⟩
  have hp := hworks.passes hs.books hs.gated
  exact ⟨(hp.guards hs).shut, Unsent.sends (hunsent.trans hquiet)⟩

theorem GateShut.register (h : GateShut st) (type : TransportType) (adbPort : Int)
    (serial devpath : Option Bytes) (writeable : Bool) : GateShut
      { st.putTransport st.nextTransport (newTransport type adbPort serial devpath writeable) with
        transportList := st.transportList ++ [st.nextTransport]
        nextTransport := st.nextTransport + 1 } := by
  obtain ⟨new, hnew⟩ : ∃ new, new = newTransport type adbPort serial devpath writeable := ⟨_, rfl⟩
  have honline : new.online = false := by rw [hnew]; rfl
  have hstate : ¬(new.connectionState ≠ .offline ∧ new.connectionState ≠ .noPerm) := by
    rw [hnew]
    cases writeable <;> simp [newTransport]
  have hnone := h.books.freshTransport st.nextTransport (Nat.le_refl _)
  rw [← hnew]
  obtain ⟨after, hafter⟩ : ∃ after, after = { st.putTransport st.nextTransport new with
    transportList := st.transportList ++ [st.nextTransport]
    nextTransport := st.nextTransport + 1 } := ⟨_, rfl⟩
  have hself : after.transports st.nextTransport = some new := by
    rw [hafter]; simp [Server.putTransport]
  have hother : ∀ u, u ≠ st.nextTransport → after.transports u = st.transports u := by
    intro u hu
    rw [hafter]
    simp [Server.putTransport, hu]
  -- whatever is there has not the number of the new one
  have hfound : ∀ u y, st.transports u = some y → after.transports u = some y := by
    intro u y hy
    rw [hother u ?_, hy]
    rintro rfl
    rw [hnone] at hy
    cases hy
  have hbooks : Books after := by
    rw [hafter]
    exact h.books.register (by rw [hnew]; rfl)
  rw [← hafter]
  refine ⟨hbooks, ⟨?_, ?_, ?_, ?_, by simp⟩, ?_⟩
  · intro u y hy hup
    by_cases hu : u = st.nextTransport
    · subst hu
      rw [hself, Option.some.injEq] at hy
      rw [← hy, honline] at hup
      cases hup
    · exact h.gated.up u y (hother u hu ▸ hy) hup
  · intro a s u hs hu
    rw [hafter] at hs
    obtain ⟨hlt, hperm⟩ := h.gated.named a s u hs hu
    refine ⟨by rw [hafter]; exact Nat.lt_succ_of_lt hlt, fun y hy => hperm y ?_⟩
    rw [← hy, hother u (by omega)]
  · intro a s u hs hops hu hout
    rw [hafter] at hs
    obtain ⟨y, hy, hup⟩ := h.gated.remotes a s u hs hops hu hout
    exact ⟨y, hfound u y hy, hup⟩
  · intro l listener u hl hu hout
    rw [hafter] at hl
    obtain ⟨y, hy, hfit⟩ := h.gated.listeners l listener u hl hu hout
    exact ⟨y, hfound u y hy, hfit⟩
  · rintro u ⟨y, hy, hfit⟩
    by_cases hu : u = st.nextTransport
    · subst hu
      rw [hself, Option.some.injEq] at hy
      exact absurd (hy ▸ hfit) hstate
    · obtain ⟨z, hz, hup⟩ := h.agrees u ⟨y, hother u hu ▸ hy, hfit⟩
      exact ⟨z, hfound u z hz, hup⟩

-- A transport goes once all its callbacks have run.
theorem GateShut.removed (h : GateShut mid) (hw : Walked st t mid) :
    GateShut { mid with transports := Function.update mid.transports t none } := by
  obtain ⟨after, hafter⟩ : ∃ after : Server,
    after = { mid with transports := Function.update mid.transports t none } := ⟨_, rfl⟩
  have hbooks : Books after := hafter ▸ hw.removed
  have hgone : after.transports t = none := by rw [hafter]; simp
  have hother : ∀ u, u ≠ t → after.transports u = mid.transports u := by
    intro u hu
    rw [hafter]
    simp [hu]
  have hfound : ∀ u y, after.transports u = some y → mid.transports u = some y := by
    intro u y hy
    by_cases hu : u = t
    · subst hu
      rw [hgone] at hy
      cases hy
    · exact hother u hu ▸ hy
  -- who has a record with a transport has it with another one
  have hrecorded : ∀ u e, Recorded after.transports u e → u ≠ t := by
    rintro u e ⟨y, hy, -⟩ rfl
    rw [hgone] at hy
    cases hy
  rw [← hafter]
  refine ⟨hbooks, ⟨fun u y hy => h.gated.up u y (hfound u y hy), ?_, ?_, ?_, by simp⟩, ?_⟩
  · intro a s u hs hu
    rw [hafter] at hs
    obtain ⟨hlt, hperm⟩ := h.gated.named a s u hs hu
    exact ⟨by rw [hafter]; exact hlt, fun y hy => hperm y (hfound u y hy)⟩
  · intro a s u hs hops hu hout
    obtain ⟨v, hv, hrecord⟩ := hbooks.remotes a s hs hops
    rw [hu, Option.some.injEq] at hv
    subst hv
    rw [hafter] at hs
    obtain ⟨y, hy, hup⟩ := h.gated.remotes a s u hs hops hu hout
    exact ⟨y, (hother u (hrecorded u _ hrecord)).trans hy, hup⟩
  · intro l listener u hl hu hout
    have hrecord := hbooks.listeners l listener u hl hu
    rw [hafter] at hl
    obtain ⟨y, hy, hfit⟩ := h.gated.listeners l listener u hl hu hout
    exact ⟨y, (hother u (hrecorded u _ hrecord)).trans hy, hfit⟩
  · rintro u ⟨y, hy, hfit⟩
    have hu : u ≠ t := by
      rintro rfl
      rw [hgone] at hy
      cases hy
    obtain ⟨z, hz, hup⟩ := h.agrees u ⟨y, hfound u y hy, hfit⟩
    exact ⟨z, (hother u hu).trans hz, hup⟩

theorem removeTransport_guards (h : Graph st) (hs : GateShut st) (t : Nat) :
    Ensures (removeTransport st t) (Guards st False) Anyway := by
  unfold removeTransport
  apply (derefTransport_any st t).bind
  intro transport ht
  obtain ⟨listed, hlisted⟩ : ∃ listed : Server,
    listed = { st with transportList := st.transportList.erase t } := ⟨_, rfl⟩
  have hgraph : Graph listed := hlisted ▸ (calm_delisted st (st.transportList.erase t)).graph h
  have hshut : GateShut listed := by
    rw [hlisted]
    exact ⟨hs.books.of_same (.of_eq rfl) rfl rfl rfl rfl,
      hs.gated.congr ⟨fun _ => rfl, rfl⟩ rfl rfl, hs.agrees⟩
  have hfound : listed.transports t = some transport := by
    rw [hlisted]
    exact ht
  have hunsent : Unsent st listed := .of_eq (by rw [hlisted])
  simp only [← hlisted]
  obtain ⟨mid, hrun, hmid⟩ := runTransportDisconnects_walked hgraph hshut.books hfound
  have hp := ((runTransportDisconnects_edits (D := Nobody) t).of_ok hrun).passes
    hshut.books hshut.gated
  apply (ensures_bind_ok hrun).mpr
  apply updateTransports_guards ((calm_removed mid t).graph hmid.graph)
  · exact (hp.guards hshut).shut.removed hmid
  · exact (hunsent.trans hmid.unsent).trans (.of_eq rfl)

theorem Guards.weaken {P Q : Prop} (h : Guards st P after) (hPQ : P → Q) : Guards st Q after :=
  ⟨h.shut, h.sends.mono fun _ _ hto => hto.imp_right (Or.imp_right fun hup => ⟨hPQ hup.1, hup.2⟩)⟩

theorem handle_guards (h : Graph st) (hs : GateShut st) (input : Input) :
    Ensures (handle st input) (Guards st input.Ordinary) Anyway := by
  by_cases hordinary : input.Ordinary
  · apply (handle_works (D := AnySerial) (N := True) h input hordinary (fun _ _ _ => trivial)
      fun _ _ => Or.inr trivial).weaken
    intro after hw
    exact ((hw.passes hs.books hs.gated).guards hs).weaken fun _ => hordinary
  have hnone : ∀ after, Guards st False after → Guards st input.Ordinary after :=
    fun after hg => hg.weaken False.elim
  cases input with
  | packet t packet =>
      simp only [handle]
      split
      · unfold handlePacket
        apply (derefTransport_any st t).bind
        intro transport _
        by_cases hsync : packet.command = A_SYNC
        · rw [if_pos hsync]
          have harg : packet.arg0 = 0 := by
            by_contra hne
            exact hordinary ⟨fun _ => hne, by rw [hsync]; decide⟩
          exact (handleSync_guards h hs t packet harg).weaken hnone
        · have hconnect : packet.command = A_CNXN := by
            by_contra hne
            exact hordinary ⟨fun heq => absurd heq hsync, hne⟩
          rw [if_neg hsync, if_pos hconnect]
          exact (handleConnect_guards h hs t packet).weaken hnone
      · trivial
  | register type adbPort serial devpath writeable =>
      simp only [handle, registerTransport]
      have hregister := hs.register type adbPort serial devpath writeable
      have hunsent : Unsent st { st.putTransport st.nextTransport
          (newTransport type adbPort serial devpath writeable) with
          transportList := st.transportList ++ [st.nextTransport]
          nextTransport := st.nextTransport + 1 } := .of_eq rfl
      exact (updateTransports_guards (h.register _ rfl) hregister hunsent).weaken hnone
  | remove t =>
      simp only [handle]
      split
      · exact (removeTransport_guards h hs t).weaken hnone
      · trivial
  | _ => exact absurd trivial hordinary

theorem gateShut_init : GateShut serverInit where
  books := books_init
  gated := by
    refine ⟨by simp [serverInit], by simp [serverInit], by simp [serverInit], ?_, by simp⟩
    intro l listener t hl ht
    simp only [serverInit] at hl
    split at hl
    · cases hl
      cases ht
    · cases hl
  agrees := by simp [Fit, serverInit]

theorem step_guards {input : Script × Input} (hw : Whole st) (hs : GateShut st)
    (hstep : step st input = .ok after) : Guards st input.2.Ordinary after := by
  have hscripted : GateShut (scripted st input) :=
    ⟨hs.books.of_same (.of_eq rfl) rfl rfl rfl rfl,
      hs.gated.congr ⟨fun _ => rfl, rfl⟩ rfl rfl, hs.agrees⟩
  have hg := (handle_guards (hw.scripted input).graph hscripted input.2).of_ok hstep
  exact ⟨hg.shut, hg.sends⟩

theorem run_gateShut {inputs : List (Script × Input)} (h : run step serverInit inputs = .ok st) :
    Whole st ∧ GateShut st :=
  run_invariant (P := fun st => Whole st ∧ GateShut st)
    (fun _ _ _ hs hstep => ⟨step_whole hs.1 hstep, (step_guards hs.1 hs.2 hstep).shut⟩)
    ⟨whole_init, gateShut_init⟩ h

end Steps

section Gate

-- A packet for the streams of a transport.
def Packet.OfStreams (p : Packet) : Prop :=
  p.command = A_OPEN ∨ p.command = A_OKAY ∨ p.command = A_CLSE ∨ p.command = A_WRTE

theorem handlePacket_gate {packet : Packet} (hp : packet.OfStreams)
    (ht : st.transports t = some transport)
    (hdown : transport.online = false) : handlePacket st t packet = .ok st := by
  have hsync : packet.command ≠ A_SYNC := by
    rcases hp with hp | hp | hp | hp <;> rw [hp] <;> decide
  have hconnect : packet.command ≠ A_CNXN := by
    rcases hp with hp | hp | hp | hp <;> rw [hp] <;> decide
  have hderef : st.derefTransport t = .ok transport := by simp [Server.derefTransport, ht]
  simp only [handlePacket, hderef, bind, Except.bind, if_neg hsync, if_neg hconnect, hdown]
  rfl

-- In every state of every run a transport is online if and only if it is neither
-- offline nor without permissions, one that is not online ignores the packets of
-- its streams, and what a step sends is the handshake, or goes to a transport that
-- is online before and after a step which takes no transport on or off.
theorem online_gate (inputs : List (Script × Input)) (st : Server)
    (hr : run step serverInit inputs = .ok st) :
    (∀ t transport, st.transports t = some transport → (transport.online = true ↔
      transport.connectionState ≠ .offline ∧ transport.connectionState ≠ .noPerm)) ∧
    (∀ script t transport (p : Packet), st.transports t = some transport →
      transport.online = false →
      p.OfStreams → handlePacket { st with script } t p = .ok { st with script }) ∧
    ∀ (input : Script × Input) (after : Server), step st input = .ok after →
      ∃ events, after.log = st.log ++ events ∧ ∀ t message carried,
        Event.sent t message carried ∈ events → message.command ≠ A_SYNC →
          message.command ≠ A_CNXN →
          input.2.Ordinary ∧ Online st t ∧ Online after t := by
  obtain ⟨hw, hs⟩ := run_gateShut hr
  refine ⟨fun t transport ht => hs.up_iff ht, ?_, ?_⟩
  · intro script t transport p ht hdown hp
    have ht' : ({ st with script } : Server).transports t = some transport := ht
    exact handlePacket_gate hp ht' hdown
  · intro input after hstep
    obtain ⟨events, hlog, hsent⟩ := (step_guards hw hs hstep).sends
    refine ⟨events, hlog, fun t message carried hmem hsync hconnect => ?_⟩
    exact ((hsent t message carried hmem).resolve_left hsync).resolve_left hconnect

set_option maxRecDepth 8000 in
-- The device of the shell is online, and nothing but the handshake goes to another one.
theorem online_gate_of_a_shell : ∃ st, run step serverInit shellStarted = .ok st ∧
    (∃ transport, st.transports 0 = some transport ∧ transport.online = true ∧
      transport.connectionState ≠ .offline) ∧
    ∀ (input : Script × Input) (after : Server), step st input = .ok after →
      ∃ events, after.log = st.log ++ events ∧ ∀ t message carried,
        Event.sent t message carried ∈ events → message.command ≠ A_SYNC →
          message.command ≠ A_CNXN →
          input.2.Ordinary ∧ Online st t ∧ Online after t := by
  obtain ⟨st, hrun, hup⟩ := exists_of_any (x := run step serverInit shellStarted)
    (p := fun st => (st.transports 0).any (·.online)) (by decide)
  rw [Option.any_eq_true] at hup
  obtain ⟨transport, ht, honline⟩ := hup
  obtain ⟨hagree, -, hsends⟩ := online_gate shellStarted st hrun
  exact ⟨st, hrun, ⟨transport, ht, honline, ((hagree 0 transport ht).mp honline).1⟩, hsends⟩

end Gate

end Adb.Host
