import Adb.Host.PacketOwners
import Adb.Host.SocketGraph

namespace Adb.Host

open Adb.Lib
open Adb.Transport (ConnectionState TransportType)

variable {st mid after : Server} {a b l p t : Nat} {s q : ASocket}

-- What every state of the server has: only local sockets queue packets.
structure Shapely (st : Server) : Prop where
  shaped : ∀ a s, st.socks a = some s → s.Shaped
  unused : ∀ a, st.nextSocket ≤ a → st.socks a = none

section Ledgers

-- Any ledger will do that has as many packets in each queue as the server.
theorem Shapely.sound (h : Shapely st) {ledger : Ledger Nat}
    (hqueues : ∀ a, (ledger.queue a).length = (backlog (st.socks a)).getD 0) :
    Holdings.Sound ⟨st, ledger⟩ where
  fits a := by
    have hqueue := hqueues a
    show Fits (st.socks a) (ledger.queue a)
    cases hs : st.socks a with
    | none => exact List.eq_nil_of_length_eq_zero (by simpa [hs, backlog] using hqueue)
    | some s => exact ⟨by simpa [hs, backlog] using hqueue, h.shaped a s hs⟩
  unused := h.unused

theorem Shapely.exists_ledger (h : Shapely st) : ∃ ledger, Holdings.Sound ⟨st, ledger⟩ :=
  ⟨⟨fun a => List.replicate ((backlog (st.socks a)).getD 0) 0, [], [], 1⟩,
    h.sound fun _ => List.length_replicate⟩

theorem Holdings.Sound.shapely {h : Holdings} (hsound : h.Sound) : Shapely h.server where
  shaped a s hs := by
    have hfits := hsound.fits a
    rw [hs] at hfits
    exact hfits.2
  unused := hsound.unused

theorem Shapely.steady (h : Shapely st) (hsteady : Steady st after) : Shapely after := by
  obtain ⟨ledger, hsound⟩ := h.exists_ledger
  exact (hsound.steady hsteady).shapely

-- What the server does without its packets it does with them.
theorem shapely_of_erases {x : Except Stop Holdings} {y : Except Stop Server}
    {good : Holdings → Prop} (he : Erases Holdings.server x y) (hx : Ensures x good Anyway)
    (hgood : ∀ h, good h → h.Sound) : Ensures y Shapely Anyway := by
  cases x with
  | ok h =>
      cases he
      exact (hgood h hx).shapely
  | error e =>
      cases he
      trivial

theorem shapely_of_outcome {α : Type} {x : Except Stop (α × Holdings)}
    {y : Except Stop (α × Server)} {good : α × Holdings → Prop}
    (he : Erases Holdings.outcome x y) (hx : Ensures x good Anyway)
    (hgood : ∀ r, good r → r.2.Sound) : Ensures y (fun r => Shapely r.2) Anyway := by
  cases x with
  | ok r =>
      cases he
      exact (hgood r hx).shapely
  | error e =>
      cases he
      trivial

theorem close_shapely (h : Shapely st) (a : Nat) : Ensures (close st a) Shapely Anyway := by
  obtain ⟨ledger, hsound⟩ := h.exists_ledger
  exact shapely_of_erases (Holdings.close_erases ⟨st, ledger⟩ a)
    (Holdings.close_closes _ a hsound) fun _ hc => hc.sound

theorem localSocketCloseLocked_shapely (h : Shapely st) (a : Nat) :
    Ensures (localSocketCloseLocked close st a) Shapely Anyway := by
  obtain ⟨ledger, hsound⟩ := h.exists_ledger
  exact shapely_of_erases
    (Holdings.localSocketCloseLocked_erases Holdings.close_erases ⟨st, ledger⟩ a)
    (Holdings.localSocketCloseLocked_closes Holdings.close_closes hsound a)
    fun _ hc => hc.sound

theorem enqueue_shapely (h : Shapely st) (a : Nat) (data : Bytes) :
    Ensures (enqueue st a data) (fun r => Shapely r.2) Anyway := by
  obtain ⟨ledger, hsound⟩ := h.exists_ledger
  exact shapely_of_outcome (Holdings.enqueue_erases ⟨st, ledger⟩ a 0 data)
    (Holdings.enqueueWithin_takes 2 _ a 0 data hsound) fun _ ht => ht.others.sound

theorem enqueue_spares : Holdings.Spares Holdings.enqueue := fun h a p data hsound =>
  (Holdings.enqueueWithin_takes 2 h a p data hsound).weaken fun _ ht => ht.others

theorem ready_shapely (h : Shapely st) (a : Nat) : Ensures (ready st a) Shapely Anyway := by
  obtain ⟨ledger, hsound⟩ := h.exists_ledger
  exact shapely_of_erases (Holdings.readyWith_erases Holdings.enqueue_erases ⟨st, ledger⟩ a)
    (Holdings.readyWith_keeps enqueue_spares hsound a) fun _ hk => hk.sound

theorem deviceTrackerSend_shapely (h : Shapely st) (a : Nat) (buffer : Bytes) :
    Ensures (deviceTrackerSend enqueue st a buffer) (fun r => Shapely r.2) Anyway := by
  obtain ⟨ledger, hsound⟩ := h.exists_ledger
  exact shapely_of_outcome
    (Holdings.deviceTrackerSend_erases Holdings.enqueue_erases ⟨st, ledger⟩ a buffer)
    (Holdings.deviceTrackerSend_keeps enqueue_spares hsound a buffer) fun _ hk => hk.sound

theorem createLocalSocket_shapely (h : Shapely st) (fd : Option Nat) :
    Ensures (createLocalSocket st fd) (fun r => Shapely r.2) Anyway := by
  obtain ⟨ledger, hsound⟩ := h.exists_ledger
  exact shapely_of_outcome (Holdings.createLocalSocket_erases ⟨st, ledger⟩ fd)
    (Holdings.createLocalSocket_keeps hsound fd) fun _ hk => hk.sound

theorem connectToRemote_shapely (h : Shapely st) (a : Nat) (destination : Bytes) :
    Ensures (connectToRemote st a destination) Shapely Anyway := by
  obtain ⟨ledger, hsound⟩ := h.exists_ledger
  exact shapely_of_erases (Holdings.connectToRemote_erases ⟨st, ledger⟩ a destination)
    (Holdings.connectToRemote_keeps hsound a destination) fun _ hk => hk.1.sound

theorem Shapely.alloc (h : Shapely st) (hpkts : s.pkts = []) : Shapely (allocSocket st s).2 := by
  obtain ⟨ledger, hsound⟩ := h.exists_ledger
  exact (Holdings.allocSocket_keeps hsound hpkts).sound.shapely

end Ledgers

section Handlers

theorem Shapely.of_eq (h : Shapely st) (hsocks : after.socks = st.socks)
    (hnext : after.nextSocket = st.nextSocket) : Shapely after :=
  h.steady (.of_eq hsocks hnext)

theorem Shapely.put_like (h : Shapely st) (hs : st.socks a = some s) (hops : q.ops = s.ops)
    (hpkts : q.pkts = s.pkts) : Shapely (st.put a q) :=
  h.steady (.put_like hs hops (by rw [hpkts]))

-- A local socket may have any queue.
theorem Shapely.put_local (h : Shapely st) (hs : st.socks a = some s)
    (hlocal : q.ops.isLocal = true) : Shapely (st.put a q) where
  shaped b x hx := by
    by_cases hba : b = a
    · have hself : q = x := by simpa [Server.put, hba] using hx
      exact hself ▸ ASocket.Shaped.local hlocal
    · exact h.shaped b x (by simpa [Server.put, hba] using hx)
  unused b hb := by
    have hba : b ≠ a := by
      rintro rfl
      rw [h.unused b hb] at hs
      cases hs
    simpa [Server.put, hba] using h.unused b hb

theorem sendPacket_shapely (h : Shapely st) (t : Option Nat) (message : Message)
    (carried : Option (Nat × Nat)) : Ensures (st.sendPacket t message carried) Shapely Anyway := by
  apply ((sendPacket_ensures st t message carried).mono fun _ _ => trivial).weaken
  rintro _ ⟨u, -, rfl⟩
  exact h.of_eq rfl rfl

theorem updateFrom_shapely (buffer : Bytes) (fuel : Nat) (tracker : Option Nat) (h : Shapely st) :
    Ensures (updateFrom buffer fuel tracker st) Shapely Anyway := by
  induction fuel generalizing st tracker with
  | zero => cases tracker <;> first | exact h | trivial
  | succ fuel ih =>
      cases tracker with
      | none => exact h
      | some tracker =>
          unfold updateFrom
          split
          · trivial
          · exact (deviceTrackerSend_shapely h tracker buffer).bind fun r hr => ih _ hr

theorem updateTransports_shapely (h : Shapely st) :
    Ensures (updateTransports st) Shapely Anyway := by
  unfold updateTransports
  apply ((listTransportsMsg_benign st).mono fun _ _ => trivial).bind
  exact fun buffer _ => updateFrom_shapely buffer _ _ h

theorem runDisconnect_shapely (h : Shapely st) (dis : Disconnect) :
    Ensures (runDisconnect st dis) Shapely Anyway := by
  have hfree : ∀ {mid : Server} (a : Nat), Shapely mid →
      Ensures (remoteSocketFree mid a) Shapely Anyway := by
    intro mid a hm
    unfold remoteSocketFree
    apply (deref_any mid a).bind
    intro s hs
    cases s.transport with
    | none => trivial
    | some t =>
        apply (removeTransportDisconnect_steady mid t (.remote a)).bind
        intro left hleft
        have hshapely := hm.steady hleft
        refine ⟨fun b x hx => ?_, fun b hb => ?_⟩
        · by_cases hba : b = a
          · simp [Server.free, hba] at hx
          · exact hshapely.shaped b x (by simpa [Server.free, hba] using hx)
        · by_cases hba : b = a
          · simp [Server.free, hba]
          · simpa [Server.free, hba] using hshapely.unused b hb
  cases dis with
  | remote a =>
      show Ensures (remoteSocketDisconnect close st a) Shapely Anyway
      unfold remoteSocketDisconnect
      apply (deref_any st a).bind
      intro s hs
      cases s.peer with
      | none => exact hfree a h
      | some p =>
          have hpeer : Ensures (closePeer close st p) Shapely Anyway := by
            unfold closePeer
            apply (deref_any st p).bind
            intro peer hp
            exact close_shapely (h.put_like (q := { peer with peer := none }) hp rfl rfl) p
          exact hpeer.bind fun mid hm => hfree a hm
  | listener l =>
      exact ((freeListener_calm st l).mono fun _ _ => trivial).weaken fun _ hc => h.steady hc.steady

theorem disconnectsFrom_shapely (t fuel : Nat) (dis : Option Disconnect) (h : Shapely st) :
    Ensures (disconnectsFrom t fuel dis st) Shapely Anyway := by
  induction fuel generalizing st dis with
  | zero => cases dis <;> first | exact h | trivial
  | succ fuel ih =>
      cases dis with
      | none => exact h
      | some dis =>
          unfold disconnectsFrom
          apply (derefTransport_any st t).bind
          intro transport _
          split
          · trivial
          · exact (runDisconnect_shapely h dis).bind fun mid hm => ih _ hm

theorem handleOffline_shapely (h : Shapely st) (t : Nat) :
    Ensures (handleOffline st t) Shapely Anyway := by
  unfold handleOffline runTransportDisconnects
  apply (derefTransport_any st t).bind
  intro transport _
  have hput : Shapely (st.putTransport t { transport with online := false }) := h.of_eq rfl rfl
  apply (derefTransport_any _ t).bind
  exact fun _ _ => disconnectsFrom_shapely t _ _ hput

theorem setConnectionState_shapely (h : Shapely st) (t : Nat) (state : ConnectionState) :
    Ensures (setConnectionState st t state) Shapely Anyway :=
  (derefTransport_any st t).bind fun _ _ => h.of_eq rfl rfl

theorem parseBanner_shapely (h : Shapely st) (t : Nat) (buffer : Bytes) :
    Ensures (parseBanner st t buffer) Shapely Anyway := by
  unfold parseBanner
  apply (derefTransport_any st t).bind
  intro transport _
  simp only
  split
  · exact updateTransports_shapely (h.of_eq rfl rfl)
  · exact h.of_eq rfl rfl

theorem attachRemote_shapely (h : Shapely st) (a : Nat) (id : UInt32) (t : Nat) :
    Ensures (attachRemote st a id t) Shapely Anyway := by
  unfold attachRemote createRemoteSocket Server.addTransportDisconnect
  simp only [bind_assoc]
  have halloc := h.alloc (s := { newSocket .remoteSocket with id, transport := some t }) rfl
  apply (derefTransport_any _ t).bind
  intro transport _
  have hadded : Shapely ((allocSocket st
      { newSocket .remoteSocket with id, transport := some t }).2.putTransport t { transport with
        disconnects := transport.disconnects ++ [.remote st.nextSocket] }) := halloc.of_eq rfl rfl
  apply (deref_any _ a).bind
  intro s hs
  have hput := hadded.put_like (q := { s with peer := some st.nextSocket }) hs rfl rfl
  apply (deref_any _ st.nextSocket).bind
  intro remote hremote
  exact (hput.put_like (q := { remote with peer := some a }) hremote rfl rfl).of_eq rfl rfl

theorem handleSync_shapely (h : Shapely st) (t : Nat) (packet : Packet) :
    Ensures (handleSync st t packet) Shapely Anyway := by
  unfold handleSync
  simp only
  split
  · exact (sendPacket_shapely h _ _ _).bind fun mid hm => sendPacket_shapely hm _ _ _
  · apply (setConnectionState_shapely h t .offline).bind
    intro mid hm
    exact (handleOffline_shapely hm t).bind fun left hleft => sendPacket_shapely hleft _ _ _

theorem handleConnect_shapely (h : Shapely st) (t : Nat) (packet : Packet) :
    Ensures (handleConnect st t packet) Shapely Anyway := by
  have hend : ∀ {mid : Server}, Shapely mid → Ensures (do
      let st ← parseBanner mid t (packet.payload ++ packet.slack)
      handleOnline st t) Shapely Anyway := by
    intro mid hm
    apply (parseBanner_shapely hm t _).bind
    exact fun left hleft => (derefTransport_any left t).bind fun _ _ => hleft.of_eq rfl rfl
  unfold handleConnect
  apply (derefTransport_any st t).bind
  intro transport _
  have hfirst : Ensures (if transport.connectionState ≠ .offline then do
      let st ← setConnectionState st t .offline
      handleOffline st t
    else pure st) Shapely Anyway := by
    split
    · exact (setConnectionState_shapely h t .offline).bind fun mid hm => handleOffline_shapely hm t
    · exact h
  exact hfirst.bind fun mid hm => hend hm

theorem createLocalServiceSocket_shapely (h : Shapely st) (name : Bytes) :
    Ensures (createLocalServiceSocket st name) (fun r => Shapely r.2) Anyway := by
  unfold createLocalServiceSocket
  have hopened : Ensures (serviceToFd st name) (fun r => Shapely r.2) Anyway := by
    unfold serviceToFd
    split
    · exact ((openFd_calm st).mono fun _ _ => trivial).weaken fun _ hc => h.steady hc.steady
    · exact h
  apply hopened.bind
  rintro ⟨fd, mid⟩ hm
  cases fd with
  | none => exact hm
  | some fd => exact (createLocalSocket_shapely hm (some fd)).bind fun r hr => hr

theorem handleOpen_shapely (h : Shapely st) (t : Nat) (packet : Packet) :
    Ensures (handleOpen st t packet) Shapely Anyway := by
  unfold handleOpen
  apply (createLocalServiceSocket_shapely h _).bind
  rintro ⟨found, mid⟩ hm
  cases found with
  | none => exact sendPacket_shapely hm _ _ _
  | some a =>
      apply (attachRemote_shapely hm a packet.arg0 t).bind
      intro attached hattached
      apply (deref_any attached a).bind
      intro s _
      have hopened : Shapely (attached.note (.opened a)) := hattached.of_eq rfl rfl
      exact (sendPacket_shapely hopened _ _ _).bind fun left hleft => ready_shapely hleft a

theorem findLocalSocket_any (st : Server) (id : UInt32) :
    Ensures (findLocalSocket st id) (fun _ => True) Anyway := by
  cases findLocalSocket st id <;> trivial

theorem handleOkay_shapely (h : Shapely st) (t : Nat) (packet : Packet) :
    Ensures (handleOkay st t packet) Shapely Anyway := by
  unfold handleOkay
  apply (findLocalSocket_any st packet.arg1).bind
  intro found _
  cases found with
  | none => exact h
  | some a =>
      apply (deref_any st a).bind
      intro s _
      have hend : ∀ {mid : Server}, Shapely mid →
          Ensures (ready (mid.note (.okayed a)) a) Shapely Anyway := by
        intro mid hm
        have hnoted : Shapely (mid.note (.okayed a)) := hm.of_eq rfl rfl
        exact ready_shapely hnoted a
      cases s.peer with
      | none => exact (attachRemote_shapely h a packet.arg0 t).bind fun mid hm => hend hm
      | some p => exact hend h

theorem handleWrite_shapely (h : Shapely st) (t : Nat) (packet : Packet) :
    Ensures (handleWrite st t packet) Shapely Anyway := by
  unfold handleWrite
  apply (findLocalSocket_any st packet.arg1).bind
  intro found _
  cases found with
  | none => exact h
  | some a =>
      apply (enqueue_shapely h a packet.payload).bind
      rintro ⟨r, mid⟩ hm
      simp only
      split
      · exact (deref_any mid a).bind fun s _ => sendPacket_shapely hm _ _ _
      · exact hm

theorem handlePacket_shapely (h : Shapely st) (t : Nat) (packet : Packet) :
    Ensures (handlePacket st t packet) Shapely Anyway := by
  unfold handlePacket
  apply (derefTransport_any st t).bind
  intro transport _
  repeat' split
  · exact handleSync_shapely h t packet
  · exact handleConnect_shapely h t packet
  · exact h
  · exact handleOpen_shapely h t packet
  · exact handleOkay_shapely h t packet
  · unfold handleClose
    apply (findLocalSocket_any st packet.arg1).bind
    intro found _
    cases found with
    | none => exact h
    | some a => exact close_shapely h a
  · exact handleWrite_shapely h t packet
  · exact h

theorem acceptClient_shapely (h : Shapely st) (l : Nat) :
    Ensures (acceptClient st l) Shapely Anyway := by
  unfold acceptClient
  apply ((derefListener_benign st l).mono fun _ _ => trivial).bind
  intro listener _
  have hopened : Shapely { st with nextFd := st.nextFd + 1 } := h.of_eq rfl rfl
  apply (createLocalSocket_shapely hopened _).bind
  rintro ⟨a, mid⟩ hm
  simp only
  split
  · -- the client gets a smart socket
    unfold connectToSmartsocket
    have halloc : Shapely (allocSocket mid (newSocket .smartSocket)).2 :=
      Shapely.alloc (s := newSocket .smartSocket) hm rfl
    apply (deref_any _ a).bind
    intro s hs
    have hput := halloc.put_like (q := { s with peer := some mid.nextSocket }) hs rfl rfl
    apply (deref_any _ mid.nextSocket).bind
    intro smart hsmart
    exact ready_shapely (hput.put_like (q := { smart with peer := some a }) hsmart rfl rfl) a
  · apply (deref_any mid a).bind
    intro s hs
    exact connectToRemote_shapely
      (hm.put_like (q := { s with transport := listener.transport }) hs rfl rfl) a _

theorem removeTransport_shapely (h : Shapely st) (t : Nat) :
    Ensures (removeTransport st t) Shapely Anyway := by
  unfold removeTransport runTransportDisconnects
  apply (derefTransport_any st t).bind
  intro transport _
  have hdelisted : Shapely { st with transportList := st.transportList.erase t } := h.of_eq rfl rfl
  simp only [bind_assoc]
  apply (derefTransport_any _ t).bind
  intro again _
  apply (disconnectsFrom_shapely t _ _ hdelisted).bind
  intro mid hm
  exact updateTransports_shapely (hm.of_eq rfl rfl)

theorem closeAllFrom_shapely (t fuel : Nat) (h : Shapely st) :
    Ensures (closeAllFrom t fuel st) Shapely Anyway := by
  induction fuel generalizing st with
  | zero => trivial
  | succ fuel ih =>
      unfold closeAllFrom
      have hsockets : Ensures (localSockets st) (fun _ => True) Anyway := by
        cases localSockets st <;> trivial
      apply hsockets.bind
      intro sockets _
      simp only
      split
      · exact h
      · rename_i a _
        exact (localSocketCloseLocked_shapely h a).bind fun mid hm => ih hm

theorem eventWrite_shapely (h : Shapely st) (hs : st.socks a = some s)
    (hlocal : s.ops.isLocal = true) :
    Ensures (eventWrite st a) (fun r => Shapely r.2) Anyway := by
  unfold eventWrite
  refine (ensures_bind_ok (Server.deref_some hs)).mpr ?_
  obtain ⟨result, hresult⟩ : ∃ result, result = drainQueue s.pkts st.script.writes := ⟨_, rfl⟩
  obtain ⟨mid, hmid⟩ : ∃ mid : Server, mid = ({ st with
      script := { st.script with writes := result.writes } }.put a
        { s with pkts := result.pkts }).note (.wrote a result.written) := ⟨_, rfl⟩
  have hput : Shapely (st.put a { s with pkts := result.pkts }) := h.put_local hs hlocal
  have hm : Shapely mid := by
    rw [hmid]
    exact hput.of_eq rfl rfl
  have hfound : mid.socks a = some { s with pkts := result.pkts } := by
    rw [hmid]
    simp [Server.put, Server.note]
  simp only [← hresult, ← hmid]
  cases result.outcome with
  | blocked => trivial
  | again => exact hm
  | failed => exact (close_shapely hm a).bind fun after ha => ha
  | done =>
      simp only
      split
      · exact (close_shapely hm a).bind fun after ha => ha
      · have hdrained := hm.put_local
          (q := { s with pkts := [], fde := fdeventDel s.fde FDE_WRITE }) hfound hlocal
        split
        · trivial
        · exact (ready_shapely hdrained _).bind fun after ha => ha

theorem logRead_shapely (h : Shapely st) (a : Nat) : Shapely (logRead st a) := by
  unfold logRead
  split
  · exact h
  · exact h.of_eq rfl rfl

theorem eventRead_shapely (h : Shapely st) (a : Nat) :
    Ensures (eventRead st a) Shapely Anyway := by
  unfold eventRead
  apply (deref_any st a).bind
  intro s _
  simp only
  split
  · trivial
  · obtain ⟨result, hresult⟩ : ∃ result, result = readLoop MAX_PAYLOAD st.script.reads := ⟨_, rfl⟩
    obtain ⟨mid, hmid⟩ : ∃ mid : Server, mid = { st with
        script := { st.script with reads := result.reads } }.note (.read a s.peer result.bytes) :=
      ⟨_, rfl⟩
    have hm : Shapely mid := by
      rw [hmid]
      exact h.of_eq rfl rfl
    have hfinish : ∀ {x : Server}, Shapely x → Ensures (do
        let _ ← x.deref a
        if result.outcome = .eof then close x a else .ok x) Shapely Anyway := by
      intro x hx
      apply (deref_any x a).bind
      intro s _
      split
      · exact close_shapely hx a
      · exact hx
    simp only [← hresult, ← hmid]
    cases s.peer with
    | none => exact hfinish hm
    | some p =>
        simp only
        split
        · exact hfinish hm
        · apply (enqueue_shapely hm p result.bytes).bind
          rintro ⟨r, after⟩ hafter
          have hlogged := logRead_shapely hafter a
          simp only
          split
          · exact hlogged
          · split
            · apply (deref_any _ a).bind
              intro q hq
              exact hfinish (hlogged.put_like
                (q := { q with fde := fdeventDel q.fde FDE_READ }) hq rfl rfl)
            · exact hfinish hlogged

theorem localSocketEventFunc_shapely (h : Shapely st) (hs : st.socks a = some s)
    (hlocal : s.ops.isLocal = true) (events : BitVec 16) :
    Ensures (localSocketEventFunc st a events) Shapely Anyway := by
  unfold localSocketEventFunc
  have hwrite : Ensures (if firesWrite events then eventWrite st a else pure (true, st))
      (fun r => Shapely r.2) Anyway := by
    split
    · exact eventWrite_shapely h hs hlocal
    · exact h
  apply hwrite.bind
  rintro ⟨goOn, mid⟩ hm
  simp only
  split
  · exact eventRead_shapely hm a
  · exact hm

end Handlers

section Runs

theorem handle_shapely (h : Shapely st) (input : Input) :
    Ensures (handle st input) Shapely Anyway := by
  cases input with
  | packet t packet =>
      simp only [handle]
      split
      · exact handlePacket_shapely h t packet
      · trivial
  | accept l =>
      simp only [handle]
      split
      · exact acceptClient_shapely h l
      · trivial
  | signal a =>
      simp only [handle]
      cases howner : fdeventOwner st a with
      | none => trivial
      | some s =>
          simp only
          cases eventHookSignal s.fde with
          | none => trivial
          | some fde => exact h.put_like (q := { s with fde }) (fdeventOwner_eq_some howner).1 rfl rfl
  | callback a =>
      simp only [handle]
      cases howner : fdeventOwner st a with
      | none => trivial
      | some s =>
          obtain ⟨hs, hlocal⟩ := fdeventOwner_eq_some howner
          simp only
          cases fdeventDequeue s.fde with
          | none => trivial
          | some fired =>
              have hput := h.put_like (q := { s with fde := fired.2 }) hs rfl rfl
              have hfound : (st.put a { s with fde := fired.2 }).socks a =
                  some { s with fde := fired.2 } := by simp [Server.put]
              exact localSocketEventFunc_shapely hput hfound hlocal fired.1
  | register type adbPort serial devpath writeable =>
      exact updateTransports_shapely (h.of_eq rfl rfl)
  | remove t =>
      simp only [handle]
      split
      · exact removeTransport_shapely h t
      · trivial
  | closeAll t =>
      simp only [handle]
      split
      · exact closeAllFrom_shapely t _ h
      · trivial

theorem shapely_init : Shapely serverInit where
  shaped a s hs := by cases hs
  unused a _ := rfl

-- Whatever has happened, the books of the packets are sound.
theorem run_sound {inputs : List (Script × Input)} {ledger : Ledger Nat}
    (hr : run step serverInit inputs = .ok st)
    (hqueues : ∀ a, (ledger.queue a).length = (backlog (st.socks a)).getD 0) :
    Holdings.Sound ⟨st, ledger⟩ := by
  have hstep : ∀ (s : Server) (input : Script × Input) (t : Server), Shapely s →
      step s input = .ok t → Shapely t := by
    intro s input t hs ht
    have hscript : Shapely { s with script := input.1 } := hs.of_eq rfl rfl
    exact (handle_shapely hscript input.2).of_ok ht
  exact (run_invariant hstep shapely_init hr).sound hqueues

end Runs

end Adb.Host
