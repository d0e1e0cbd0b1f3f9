import Adb.Host.Works

namespace Adb.Host

open Adb.Lib
open Adb.Transport (ConnectionState TransportType)

variable {st mid after : Server} {a l t : Nat} {p : Bytes}

-- A message for the streams of a device, and no longer than a packet may be.
structure Message.OfStreams (message : Message) : Prop where
  command : message.command = A_OPEN ∨ message.command = A_OKAY ∨ message.command = A_CLSE ∨
    message.command = A_WRTE
  short : message.data.length ≤ MAX_PAYLOAD

theorem Message.OfStreams.not_sync {message : Message} (h : message.OfStreams) :
    message.command ≠ A_SYNC := by
  rcases h.command with hc | hc | hc | hc <;> rw [hc] <;> decide

theorem Message.OfStreams.not_connect {message : Message} (h : message.OfStreams) :
    message.command ≠ A_CNXN := by
  rcases h.command with hc | hc | hc | hc <;> rw [hc] <;> decide

-- Nothing else is sent on the way.
abbrev Speaks : Server → Server → Prop := SendsOnly fun _ message => message.OfStreams

section Chains

variable {α β : Type} {x : Except Stop α} {v : α → Server}

theorem Speaks.refl (st : Server) : Speaks st st := .of_eq rfl

theorem speaks_after (h : Speaks st mid) (hx : Ensures x (fun r => Speaks mid (v r)) Anyway) :
    Ensures x (fun r => Speaks st (v r)) Anyway :=
  hx.weaken fun _ hr => h.trans hr

theorem speaks_only (hx : Ensures x (fun r => OnlyAt mid a (v r)) Anyway) (h : mid.log = st.log) :
    Ensures x (fun r => Speaks st (v r)) Anyway :=
  hx.weaken fun _ hr => SendsOnly.trans (.of_eq h) hr.unsent.sends

-- One call after the other.
theorem speaks_bind {f : Server → Except Stop Server} {x : Except Stop Server}
    (hx : Ensures x (Speaks st) Anyway) (hf : ∀ mid, Ensures (f mid) (Speaks mid) Anyway) :
    Ensures (x >>= f) (Speaks st) Anyway :=
  hx.bind fun mid hm => speaks_after (v := id) hm (hf mid)

end Chains

section Sockets

theorem sendPacket_speaks (st : Server) (o : Option Nat) {message : Message}
    (hm : message.OfStreams) (carried : Option (Nat × Nat)) :
    Ensures (st.sendPacket o message carried) (Speaks st) Anyway := by
  apply ((sendPacket_ensures st o message carried).mono fun _ _ => trivial).weaken
  intro after hsent
  obtain ⟨u, -, heq⟩ := hsent
  apply SendsOnly.note (e := .sent u message carried) (by rw [heq]; rfl)
  intro v other carried' hevent
  injection hevent with _ hother
  exact hother ▸ hm

theorem ofStreams_open (id : UInt32) {destination : Bytes}
    (h : ¬destination.length + 1 > MAX_PAYLOAD - 1) :
    Message.OfStreams ⟨A_OPEN, id, 0, destination ++ [0]⟩ := by
  refine ⟨Or.inl rfl, ?_⟩
  simp only [List.length_append, List.length_singleton]
  unfold MAX_PAYLOAD at *
  omega

theorem ofStreams_okay (arg0 arg1 : UInt32) : Message.OfStreams ⟨A_OKAY, arg0, arg1, []⟩ :=
  ⟨Or.inr (Or.inl rfl), Nat.zero_le _⟩

theorem ofStreams_close (arg0 arg1 : UInt32) : Message.OfStreams ⟨A_CLSE, arg0, arg1, []⟩ :=
  ⟨Or.inr (Or.inr (Or.inl rfl)), Nat.zero_le _⟩

theorem ofStreams_write (arg0 arg1 : UInt32) (hp : p.length ≤ MAX_PAYLOAD) :
    Message.OfStreams ⟨A_WRTE, arg0, arg1, p⟩ :=
  ⟨Or.inr (Or.inr (Or.inr rfl)), hp⟩

theorem openFd_speaks (st : Server) : Ensures st.openFd (fun r => Speaks st r.2) Anyway := by
  unfold Server.openFd
  split
  · exact .of_eq rfl
  · exact .of_eq rfl
  · trivial

theorem installLocalSocket_speaks (st : Server) (a : Nat) :
    Ensures (installLocalSocket st a) (Speaks st) Anyway := by
  unfold installLocalSocket
  apply (deref_any st a).bind
  intro s _
  exact speaks_only (v := id) (insertLocalSocket_only _ a .socketList) rfl

theorem createLocalSocket_speaks (st : Server) (fd : Option Nat) :
    Ensures (createLocalSocket st fd) (fun r => Speaks st r.2) Anyway := by
  cases fd with
  | none => trivial
  | some fd =>
      unfold createLocalSocket allocSocket
      apply (installLocalSocket_speaks _ _).bind
      intro after hinstall
      exact SendsOnly.trans (.of_eq rfl) hinstall

theorem addTransportDisconnect_speaks (st : Server) (t : Nat) (dis : Disconnect) :
    Ensures (st.addTransportDisconnect t dis) (Speaks st) Anyway := by
  unfold Server.addTransportDisconnect
  apply (derefTransport_any st t).bind
  intro transport _
  exact .of_eq rfl

theorem removeTransportDisconnect_speaks (st : Server) (t : Nat) (dis : Disconnect) :
    Ensures (st.removeTransportDisconnect t dis) (Speaks st) Anyway := by
  unfold Server.removeTransportDisconnect
  apply (derefTransport_any st t).bind
  intro transport _
  exact .of_eq rfl

theorem createRemoteSocket_speaks (st : Server) (id : UInt32) (t : Nat) :
    Ensures (createRemoteSocket st id t) (fun r => Speaks st r.2) Anyway := by
  unfold createRemoteSocket allocSocket
  apply (addTransportDisconnect_speaks _ t _).bind
  intro after hadd
  exact SendsOnly.trans (.of_eq rfl) hadd

section Close

variable {close : Server → Nat → Except Stop Server}
  (hclose : ∀ st a, Ensures (close st a) (Speaks st) Anyway)

include hclose

theorem closePeer_speaks (st : Server) (a : Nat) : Ensures (closePeer close st a) (Speaks st) Anyway := by
  unfold closePeer
  apply (deref_any st a).bind
  intro peer _
  exact (hclose _ a).weaken fun _ hm => SendsOnly.trans (.of_eq rfl) hm

theorem localSocketCloseLocked_speaks (st : Server) (a : Nat) :
    Ensures (localSocketCloseLocked close st a) (Speaks st) Anyway := by
  unfold localSocketCloseLocked
  apply (deref_any st a).bind
  intro s _
  cases s.peer with
  | none => exact speaks_only (v := id) (localSocketFinish_only st a) rfl
  | some p =>
      apply speaks_bind (closePeer_speaks hclose st p)
      intro mid
      apply (deref_any mid a).bind
      intro s' _
      exact speaks_only (v := id) (localSocketFinish_only _ a) rfl

theorem localSocketCloseNotify_speaks (st : Server) (a : Nat) :
    Ensures (localSocketCloseNotify close st a) (Speaks st) Anyway := by
  unfold localSocketCloseNotify
  apply (deref_any st a).bind
  intro s _
  apply speaks_bind
  · exact speaks_only (v := id) (writeStatus_only _ a _) rfl
  · exact fun mid => localSocketCloseLocked_speaks hclose mid a

theorem remoteSocketClose_speaks (st : Server) (a : Nat) :
    Ensures (remoteSocketClose close st a) (Speaks st) Anyway := by
  unfold remoteSocketClose
  apply (deref_any st a).bind
  intro s _
  have hrest : ∀ arg0 mid, Ensures (do
      let s ← mid.deref a
      let st ← mid.sendPacket s.transport ⟨A_CLSE, arg0, s.id, []⟩ none
      remoteSocketFree st a) (Speaks mid) Anyway := by
    intro arg0 mid
    apply (deref_any mid a).bind
    intro s' _
    apply speaks_bind (sendPacket_speaks mid s'.transport (ofStreams_close arg0 s'.id) none)
    intro sent
    exact (remoteSocketFree_only sent a).weaken fun _ h => h.1.unsent.sends
  cases s.peer with
  | none => exact hrest 0 st
  | some p =>
      apply (deref_any st p).bind
      intro peer _
      apply (closePeer_speaks hclose st p).bind
      intro mid hm
      exact speaks_after (v := id) hm (hrest peer.id mid)

theorem remoteSocketDisconnect_speaks (st : Server) (a : Nat) :
    Ensures (remoteSocketDisconnect close st a) (Speaks st) Anyway := by
  unfold remoteSocketDisconnect
  apply (deref_any st a).bind
  intro s _
  have hfree : ∀ mid, Ensures (remoteSocketFree mid a) (Speaks mid) Anyway :=
    fun mid => (remoteSocketFree_only mid a).weaken fun _ h => h.1.unsent.sends
  cases s.peer with
  | none => exact hfree st
  | some p => exact speaks_bind (closePeer_speaks hclose st p) hfree

theorem smartSocketClose_speaks (st : Server) (a : Nat) :
    Ensures (smartSocketClose close st a) (Speaks st) Anyway := by
  unfold smartSocketClose
  apply (deref_any st a).bind
  intro s _
  have hfree : ∀ mid, Ensures (do
      let _ ← mid.deref a
      return mid.free a) (Speaks mid) Anyway :=
    fun mid => (deref_any mid a).bind fun _ _ => .of_eq rfl
  cases s.peer with
  | none => exact hfree st
  | some p => exact speaks_bind (closePeer_speaks hclose st p) hfree

theorem deviceTrackerClose_speaks (st : Server) (a : Nat) :
    Ensures (deviceTrackerClose close st a) (Speaks st) Anyway := by
  unfold deviceTrackerClose
  apply (deref_any st a).bind
  intro s _
  have hfree : ∀ mid, Ensures (do
      let _ ← mid.deref a
      return { mid with deviceTrackerList := mid.deviceTrackerList.erase a }.free a)
      (Speaks mid) Anyway :=
    fun mid => (deref_any mid a).bind fun _ _ => .of_eq rfl
  cases s.peer with
  | none => exact hfree st
  | some p => exact speaks_bind (closePeer_speaks hclose st p) hfree

end Close

theorem closeWithin_speaks (depth : Nat) (st : Server) (a : Nat) :
    Ensures (closeWithin depth st a) (Speaks st) Anyway := by
  induction depth generalizing st a with
  | zero => trivial
  | succ depth ih =>
      unfold closeWithin
      apply (deref_any st a).bind
      intro s _
      cases s.ops with
      | localSocket => exact localSocketCloseLocked_speaks ih st a
      | localSocketNotify => exact localSocketCloseNotify_speaks ih st a
      | remoteSocket => exact remoteSocketClose_speaks ih st a
      | smartSocket => exact smartSocketClose_speaks ih st a
      | deviceTracker => exact deviceTrackerClose_speaks ih st a

theorem close_speaks (st : Server) (a : Nat) : Ensures (close st a) (Speaks st) Anyway :=
  closeWithin_speaks 3 st a

theorem queuePacket_speaks (st : Server) (a : Nat) (p : Bytes) :
    Ensures (queuePacket st a p) (fun r => Speaks st r.2) Anyway := by
  unfold queuePacket
  apply (deref_any st a).bind
  exact fun s _ => .of_eq rfl

-- What a call leaves is passed on with a number.
theorem speaks_returning {x : Except Stop Server} (r : Int) (hx : Ensures x (Speaks st) Anyway) :
    Ensures (do
      let st ← x
      return (r, st)) (fun r => Speaks st r.2) Anyway :=
  hx.bind fun _ hm => hm

theorem localSocketEnqueue_speaks (st : Server) (a : Nat) (p : Bytes) :
    Ensures (localSocketEnqueue st a p) (fun r => Speaks st r.2) Anyway := by
  unfold localSocketEnqueue
  apply (deref_any st a).bind
  intro s _
  split
  · exact queuePacket_speaks st a p
  · obtain ⟨result, hresult⟩ : ∃ result, result = writeLoop false p st.script.writes := ⟨_, rfl⟩
    have hwrote : Speaks st (({ st with script := { st.script with writes := result.writes } }).note
        (.wrote a result.written)) := .note rfl (by simp)
    simp only [← hresult]
    cases result.outcome with
    | blocked => trivial
    | failed => exact speaks_after hwrote (speaks_returning 1 (close_speaks _ a))
    | done => exact hwrote
    | again => exact speaks_after hwrote (queuePacket_speaks _ a result.rest)

theorem localSocketReady_speaks (st : Server) (a : Nat) :
    Ensures (localSocketReady st a) (Speaks st) Anyway := by
  unfold localSocketReady
  apply (deref_any st a).bind
  exact fun s _ => .of_eq rfl

theorem localSocketReadyNotify_speaks (st : Server) (a : Nat) :
    Ensures (localSocketReadyNotify st a) (Speaks st) Anyway := by
  unfold localSocketReadyNotify
  apply (deref_any st a).bind
  intro s _
  apply speaks_bind
  · exact speaks_only (v := id) (writeStatus_only _ a .okay) rfl
  · exact fun mid => localSocketReady_speaks mid a

theorem remoteSocketEnqueue_speaks (st : Server) (a : Nat) (hp : p.length ≤ MAX_PAYLOAD) :
    Ensures (remoteSocketEnqueue st a p) (fun r => Speaks st r.2) Anyway := by
  unfold remoteSocketEnqueue
  apply (deref_any st a).bind
  intro s _
  split
  · trivial
  · rename_i l _
    apply (deref_any st l).bind
    intro peer _
    exact speaks_returning 1 (sendPacket_speaks st s.transport (ofStreams_write peer.id s.id hp) _)

theorem remoteSocketReady_speaks (st : Server) (a : Nat) :
    Ensures (remoteSocketReady st a) (Speaks st) Anyway := by
  unfold remoteSocketReady
  apply (deref_any st a).bind
  intro s _
  split
  · trivial
  · rename_i l _
    apply (deref_any st l).bind
    intro peer _
    exact sendPacket_speaks st s.transport (ofStreams_okay peer.id s.id) none

theorem deviceTrackerEnqueue_speaks (st : Server) (a : Nat) :
    Ensures (deviceTrackerEnqueue st a) (fun r => Speaks st r.2) Anyway :=
  speaks_returning (-1) (deviceTrackerClose_speaks close_speaks st a)

theorem connectToRemote_speaks (st : Server) (a : Nat) (destination : Bytes) :
    Ensures (connectToRemote st a destination) (Speaks st) Anyway := by
  unfold connectToRemote
  apply (deref_any st a).bind
  intro s _
  split
  · trivial
  · rename_i hfits
    exact sendPacket_speaks st s.transport (ofStreams_open s.id hfits) none

theorem closeAllFrom_speaks (t : Nat) (fuel : Nat) (st : Server) :
    Ensures (closeAllFrom t fuel st) (Speaks st) Anyway := by
  induction fuel generalizing st with
  | zero => trivial
  | succ fuel ih =>
      unfold closeAllFrom
      cases localSockets st with
      | error e => trivial
      | ok sockets =>
          apply (ensures_bind_ok rfl).mpr
          simp only
          split
          · exact Speaks.refl st
          · exact speaks_bind (localSocketCloseLocked_speaks close_speaks st _) ih

end Sockets

section Requests

theorem freeListener_speaks (st : Server) (l : Nat) : Ensures (freeListener st l) (Speaks st) Anyway := by
  unfold freeListener Server.derefListener
  cases st.listeners l with
  | none => trivial
  | some listener =>
      apply (ensures_bind_ok rfl).mpr
      simp only
      cases listener.transport with
      | none => exact .of_eq rfl
      | some t =>
          apply (removeTransportDisconnect_speaks _ t (.listener l)).bind
          intro mid hm
          exact SendsOnly.trans (SendsOnly.trans (.of_eq rfl) hm) (.of_eq rfl)

theorem localNameToFd_speaks (st : Server) (name : Bytes) :
    Ensures (localNameToFd st name) (fun r => Speaks st r.2) Anyway := by
  unfold localNameToFd
  split
  · exact openFd_speaks st
  · exact Speaks.refl st

theorem installListener_speaks (st : Server) (localName connectTo : Bytes) (transport : Option Nat) :
    Ensures (installListener st localName connectTo transport) (fun r => Speaks st r.2) Anyway := by
  unfold installListener Server.derefListener
  split
  · rename_i l _
    cases st.listeners l with
    | none => trivial
    | some listener =>
        apply (ensures_bind_ok rfl).mpr
        split
        · exact Speaks.refl st
        · split
          · exact .of_eq rfl
          · split
            · rename_i old new _ _
              apply (removeTransportDisconnect_speaks st old (.listener l)).bind
              intro mid hm
              apply speaks_returning 0
              apply (addTransportDisconnect_speaks _ new (.listener l)).weaken
              intro after ha
              exact SendsOnly.trans hm (SendsOnly.trans (.of_eq rfl) ha)
            · trivial
  · apply (localNameToFd_speaks st localName).bind
    intro r hr
    obtain ⟨fd, mid⟩ := r
    cases fd with
    | none => exact hr
    | some fd =>
        cases transport with
        | none => exact SendsOnly.trans hr (.of_eq rfl)
        | some t =>
            apply speaks_returning 0
            apply (addTransportDisconnect_speaks _ t _).weaken
            intro after ha
            exact SendsOnly.trans hr (SendsOnly.trans (.of_eq rfl) ha)

theorem removeListener_speaks (st : Server) (localName connectTo : Bytes) (t : Nat) :
    Ensures (removeListener st localName connectTo t) (fun r => Speaks st r.2) Anyway := by
  unfold removeListener
  simp only
  split
  · exact Speaks.refl st
  · exact speaks_returning 0 (freeListener_speaks st _)

theorem runDisconnect_speaks (st : Server) (dis : Disconnect) :
    Ensures (runDisconnect st dis) (Speaks st) Anyway := by
  cases dis with
  | remote a => exact remoteSocketDisconnect_speaks close_speaks st a
  | listener l => exact freeListener_speaks st l

theorem disconnectsFrom_speaks (t : Nat) (fuel : Nat) (dis : Option Disconnect) (st : Server) :
    Ensures (disconnectsFrom t fuel dis st) (Speaks st) Anyway := by
  induction fuel generalizing dis st with
  | zero =>
      cases dis with
      | none => exact Speaks.refl st
      | some dis => trivial
  | succ fuel ih =>
      cases dis with
      | none => exact Speaks.refl st
      | some dis =>
          unfold disconnectsFrom
          apply (derefTransport_any st t).bind
          intro transport _
          split
          · trivial
          · exact speaks_bind (runDisconnect_speaks st dis) fun mid => ih _ mid

theorem runTransportDisconnects_speaks (st : Server) (t : Nat) :
    Ensures (runTransportDisconnects st t) (Speaks st) Anyway := by
  unfold runTransportDisconnects
  apply (derefTransport_any st t).bind
  exact fun transport _ => disconnectsFrom_speaks t _ _ st

theorem writeStatus_speaks (st : Server) (a : Nat) (status : Status) :
    Ensures (st.writeStatus a status) (Speaks st) Anyway :=
  speaks_only (v := id) (writeStatus_only st a status) rfl

theorem handleForward_speaks (st : Server) (create : Bool) (localName remote : Bytes)
    (ttype : TransportType) (serial : Option Bytes) (l : Nat) :
    Ensures (handleForward st create localName remote ttype serial l) (Speaks st) Anyway := by
  unfold handleForward
  cases acquireOneTransport st ttype serial with
  | error e => trivial
  | ok r =>
      obtain ⟨found, error⟩ := r
      apply (ensures_bind_ok rfl).mpr
      cases found with
      | none => exact writeStatus_speaks st l _
      | some t =>
          have hcall : Ensures (if create then installListener st localName remote (some t)
              else removeListener st localName remote t) (fun r => Speaks st r.2) Anyway := by
            split
            · exact installListener_speaks st localName remote (some t)
            · exact removeListener_speaks st localName remote t
          apply hcall.bind
          intro r hr
          apply speaks_after (v := id) hr
          simp only
          split
          · exact .note rfl (by simp)
          · split
            · exact writeStatus_speaks r.2 l _
            · exact writeStatus_speaks r.2 l _

theorem disconnectDevice_log (st : Server) (serial : Bytes) : (disconnectDevice st serial).log = st.log := by
  obtain ⟨ts, heq⟩ := disconnectDevice_same st serial
  rw [heq]

theorem handleHostRequest_speaks (st : Server) (request : Option HostRequest) (ttype : TransportType)
    (serial : Option Bytes) (l a : Nat) :
    Ensures (handleHostRequest st request ttype serial l a) (fun r => Speaks st r.2) Anyway := by
  have hnote : ∀ (mid : Server) (reply : Reply), mid.log = st.log → Speaks st (mid.note (.reply l reply)) :=
    fun mid reply h => .note (by rw [Server.note, h]) (by simp)
  unfold handleHostRequest
  cases request with
  | none => exact Speaks.refl st
  | some request =>
      cases request with
      | kill => trivial
      | transport type name =>
          simp only
          cases acquireOneTransport st type (name.or serial) with
          | error e => trivial
          | ok r =>
              obtain ⟨found, error⟩ := r
              apply (ensures_bind_ok rfl).mpr
              cases found with
              | none => exact speaks_returning 1 (writeStatus_speaks st l _)
              | some t =>
                  apply (deref_any st a).bind
                  intro smart _
                  apply speaks_returning 1
                  exact speaks_only (v := id) (writeStatus_only _ l .okay) rfl
      | devices long => exact hnote st _ rfl
      | connect host => exact hnote st _ rfl
      | disconnect name => exact hnote _ _ (disconnectDevice_log st name)
      | version => exact hnote st _ rfl
      | getSerialno => exact (acquireOneTransport_any st ttype serial).bind fun _ _ => hnote st _ rfl
      | getDevpath => exact (acquireOneTransport_any st ttype serial).bind fun _ _ => hnote st _ rfl
      | emulator => exact Speaks.refl st
      | malformedForward => exact speaks_returning 0 (writeStatus_speaks st l _)
      | forward create localName remote =>
          exact speaks_returning 0 (handleForward_speaks st create localName remote ttype serial l)
      | getState => exact (acquireOneTransport_any st ttype serial).bind fun _ _ => hnote st _ rfl

-- The buffer of device_tracker_ready and update_transports holds 1024 bytes.
theorem listLoop_length {size : Nat} {lines : List Bytes} {text result : Bytes} (h : text.length ≤ size)
    (hlist : listLoop size lines text = .ok result) : result.length ≤ size := by
  induction lines generalizing text with
  | nil =>
      have heq : text = result := Except.ok.inj hlist
      exact heq ▸ h
  | cons line lines ih =>
      unfold listLoop at hlist
      split at hlist
      · rename_i hfits
        split at hlist
        · exact Except.ok.inj hlist ▸ h
        · exact ih (by rw [List.length_append]; exact hfits) hlist
      · split at hlist
        · cases hlist
        · exact ih (by rw [List.length_dropLast]; omega) hlist

theorem listTransportsMsg_short (st : Server) :
    Ensures (listTransportsMsg st) (fun buffer => buffer.length ≤ MAX_PAYLOAD) Anyway := by
  unfold listTransportsMsg
  cases st.transportList.mapM st.derefTransport with
  | error e => trivial
  | ok transports =>
      apply (ensures_bind_ok rfl).mpr
      cases hlist : listLoop 1020 (transports.map formatTransport) [] with
      | error e => trivial
      | ok text =>
          have hshort := listLoop_length (Nat.zero_le _) hlist
          apply (ensures_bind_ok rfl).mpr
          simp only [hex4, ensures_pure, List.length_append, List.length_cons, List.length_nil, MAX_PAYLOAD]
          omega

section Dispatch

variable {enqueue : Server → Nat → Bytes → Except Stop (Int × Server)}
  (henqueue : ∀ (st : Server) (a : Nat) (p : Bytes), p.length ≤ MAX_PAYLOAD →
    Ensures (enqueue st a p) (fun r => Speaks st r.2) Anyway)

include henqueue

theorem deviceTrackerSend_speaks (st : Server) (a : Nat) (hp : p.length ≤ MAX_PAYLOAD) :
    Ensures (deviceTrackerSend enqueue st a p) (fun r => Speaks st r.2) Anyway := by
  unfold deviceTrackerSend
  apply (deref_any st a).bind
  intro tracker _
  cases tracker.peer with
  | none => trivial
  | some l => exact henqueue st l p hp

theorem deviceTrackerReady_speaks (st : Server) (a : Nat) :
    Ensures (deviceTrackerReady enqueue st a) (Speaks st) Anyway := by
  unfold deviceTrackerReady
  apply (deref_any st a).bind
  intro tracker _
  split
  · apply (listTransportsMsg_short _).bind
    intro buffer hshort
    apply (deviceTrackerSend_speaks henqueue _ a hshort).bind
    exact fun r hr => SendsOnly.trans (.of_eq rfl) hr
  · exact Speaks.refl st

theorem readyWith_speaks (st : Server) (a : Nat) :
    Ensures (readyWith enqueue st a) (Speaks st) Anyway := by
  unfold readyWith
  apply (deref_any st a).bind
  intro s _
  cases s.ops with
  | localSocket => exact localSocketReady_speaks st a
  | localSocketNotify => exact localSocketReadyNotify_speaks st a
  | remoteSocket => exact remoteSocketReady_speaks st a
  | smartSocket => exact Speaks.refl st
  | deviceTracker => exact deviceTrackerReady_speaks henqueue st a

omit henqueue in
theorem hostServiceToSocket_speaks (st : Server) (name : Bytes) :
    Ensures (hostServiceToSocket st name) (fun r => Speaks st r.2) Anyway := by
  unfold hostServiceToSocket
  split
  · exact .of_eq rfl
  · split
    · apply (openFd_speaks st).bind
      intro opened hopened
      apply (createLocalSocket_speaks opened.2 opened.1).bind
      exact fun created hcreated => hopened.trans hcreated
    · exact Speaks.refl st

omit henqueue in
theorem smartFail_speaks (st : Server) (a : Nat) :
    Ensures (smartFail st a) (fun r => Speaks st r.2) Anyway :=
  speaks_returning (-1) (close_speaks st a)

omit henqueue in
theorem handOver_speaks (st : Server) (a l s2 : Nat) :
    Ensures (handOver st a l s2) (Speaks st) Anyway := by
  unfold handOver
  apply speaks_bind (writeStatus_speaks st l .okay)
  intro mid
  apply (deref_any mid l).bind
  intro peer _
  apply (deref_any _ s2).bind
  intro service _
  apply (deref_any _ a).bind
  intro s _
  exact (close_speaks _ a).weaken fun _ hm => SendsOnly.trans (.of_eq rfl) hm

theorem bindService_speaks (st : Server) (a l s2 : Nat) :
    Ensures (bindService enqueue st a l s2) (fun r => Speaks st r.2) Anyway := by
  unfold bindService
  apply (handOver_speaks st a l s2).bind
  intro mid hm
  exact speaks_after hm (speaks_returning 0 (readyWith_speaks henqueue mid s2))

theorem smartHostRequest_speaks (st : Server) (a : Nat) (service : Bytes) (ttype : TransportType)
    (serial : Option Bytes) :
    Ensures (smartHostRequest enqueue st a service ttype serial) (fun r => Speaks st r.2) Anyway := by
  unfold smartHostRequest
  apply (deref_any st a).bind
  intro s _
  cases s.peer with
  | none => trivial
  | some l =>
      apply (handleHostRequest_speaks st (hostRequest service) ttype serial l a).bind
      intro r hr
      apply speaks_after hr
      simp only
      split
      · exact smartFail_speaks r.2 a
      · split
        · apply (deref_any r.2 a).bind
          exact fun smart _ => .of_eq rfl
        · apply (hostServiceToSocket_speaks r.2 service).bind
          intro found hfound
          obtain ⟨o, mid⟩ := found
          apply speaks_after hfound
          cases o with
          | none =>
              apply (writeStatus_speaks mid l _).bind
              exact fun told htold => speaks_after htold (smartFail_speaks told a)
          | some s2 => exact bindService_speaks henqueue mid a l s2

omit henqueue in
theorem smartForward_speaks (st : Server) (a : Nat) (service : Bytes) :
    Ensures (smartForward st a service) (fun r => Speaks st r.2) Anyway := by
  unfold smartForward
  apply (deref_any st a).bind
  intro s _
  cases s.peer with
  | none => trivial
  | some l =>
      simp only
      cases isOffline st s.transport with
      | error e => trivial
      | ok offline =>
          apply (ensures_bind_ok rfl).mpr
          split
          · apply (writeStatus_speaks st l _).bind
            exact fun told htold => speaks_after htold (smartFail_speaks told a)
          · apply (deref_any st l).bind
            intro peer _
            apply (connectToRemote_speaks _ l service).bind
            intro sent hsent
            have hfirst : Speaks st sent := SendsOnly.trans (.note rfl (by simp)) hsent
            apply speaks_returning 1
            exact (close_speaks _ a).weaken fun _ hm => hfirst.trans (SendsOnly.trans (.of_eq rfl) hm)

theorem smartSocketEnqueue_speaks (st : Server) (a : Nat) (p : Bytes) :
    Ensures (smartSocketEnqueue enqueue st a p) (fun r => Speaks st r.2) Anyway := by
  unfold smartSocketEnqueue
  apply (deref_any st a).bind
  intro s _
  simp only
  split
  · exact smartFail_speaks st a
  · obtain ⟨mid, hmid⟩ : ∃ mid, mid = st.put a { s with pkts := [s.pkts.headD [] ++ p] } := ⟨_, rfl⟩
    have hput : Speaks st mid := .of_eq (by rw [hmid]; rfl)
    rw [← hmid]
    apply speaks_after hput
    cases frame (s.pkts.headD [] ++ p) with
    | incomplete => exact Speaks.refl mid
    | badSize => exact smartFail_speaks mid a
    | complete service =>
        simp only
        cases parseRequest service with
        | host name ttype serial => exact smartHostRequest_speaks henqueue mid a name ttype serial
        | device name => exact smartForward_speaks mid a name

end Dispatch

theorem enqueueWithin_speaks (depth : Nat) (st : Server) (a : Nat) (p : Bytes)
    (hp : p.length ≤ MAX_PAYLOAD) :
    Ensures (enqueueWithin depth st a p) (fun r => Speaks st r.2) Anyway := by
  induction depth generalizing st a p with
  | zero => trivial
  | succ depth ih =>
      unfold enqueueWithin
      apply (deref_any st a).bind
      intro s _
      cases s.ops with
      | localSocket => exact localSocketEnqueue_speaks st a p
      | localSocketNotify => exact localSocketEnqueue_speaks st a p
      | remoteSocket => exact remoteSocketEnqueue_speaks st a hp
      | smartSocket => exact smartSocketEnqueue_speaks ih st a p
      | deviceTracker => exact deviceTrackerEnqueue_speaks st a

theorem enqueue_speaks (st : Server) (a : Nat) (p : Bytes) (hp : p.length ≤ MAX_PAYLOAD) :
    Ensures (enqueue st a p) (fun r => Speaks st r.2) Anyway :=
  enqueueWithin_speaks 2 st a p hp

theorem ready_speaks (st : Server) (a : Nat) : Ensures (ready st a) (Speaks st) Anyway :=
  readyWith_speaks enqueue_speaks st a

theorem connectToSmartsocket_speaks (st : Server) (a : Nat) :
    Ensures (connectToSmartsocket st a) (Speaks st) Anyway := by
  unfold connectToSmartsocket allocSocket
  apply (deref_any _ a).bind
  intro s _
  apply (deref_any _ _).bind
  intro smart _
  exact (ready_speaks _ a).weaken fun _ hm => SendsOnly.trans (.of_eq rfl) hm

end Requests

section Events

theorem eventWrite_speaks (st : Server) (a : Nat) :
    Ensures (eventWrite st a) (fun r => Speaks st r.2) Anyway := by
  unfold eventWrite
  apply (deref_any st a).bind
  intro s _
  obtain ⟨result, hresult⟩ : ∃ result, result = drainQueue s.pkts st.script.writes := ⟨_, rfl⟩
  obtain ⟨mid, hmid⟩ : ∃ mid, mid = ({ st with script := { st.script with writes := result.writes } }.put a
    { s with pkts := result.pkts }).note (.wrote a result.written) := ⟨_, rfl⟩
  have hwrote : Speaks st mid := .note (e := .wrote a result.written) (by rw [hmid]; rfl) (by simp)
  have hclose : Ensures (do
      let st ← close mid a
      return (false, st)) (fun r => Speaks st r.2) Anyway :=
    (close_speaks mid a).bind fun _ hm => hwrote.trans hm
  simp only [← hresult, ← hmid]
  cases result.outcome with
  | blocked => trivial
  | again => exact hwrote
  | failed => exact hclose
  | done =>
      simp only
      split
      · exact hclose
      · split
        · trivial
        · rename_i p _
          apply (ready_speaks _ p).bind
          exact fun _ hm => hwrote.trans (SendsOnly.trans (.of_eq rfl) hm)

theorem logRead_speaks (st : Server) (a : Nat) : Speaks st (logRead st a) := by
  unfold logRead
  split
  · exact Speaks.refl st
  · exact .note rfl (by simp)

theorem eventRead_speaks (st : Server) (a : Nat) : Ensures (eventRead st a) (Speaks st) Anyway := by
  have hfinish : ∀ (mid : Server) (eof : Prop) [Decidable eof], Speaks st mid → Ensures (do
      let _ ← mid.deref a
      if eof then close mid a else .ok mid) (Speaks st) Anyway := by
    intro mid eof _ hm
    apply (deref_any mid a).bind
    intro _ _
    split
    · exact speaks_after (v := id) hm (close_speaks mid a)
    · exact hm
  unfold eventRead
  apply (deref_any st a).bind
  intro s _
  obtain ⟨result, hresult⟩ : ∃ result, result = readLoop MAX_PAYLOAD st.script.reads := ⟨_, rfl⟩
  have hshort : result.bytes.length ≤ MAX_PAYLOAD := hresult ▸ readLoop_length _ _
  obtain ⟨mid, hmid⟩ : ∃ mid : Server, mid = ({ st with script := { st.script with
    reads := result.reads } }.note (.read a s.peer result.bytes)) := ⟨_, rfl⟩
  have hread : Speaks st mid := .note (e := .read a s.peer result.bytes) (by rw [hmid]; rfl) (by simp)
  simp only [← hresult, ← hmid]
  split
  · trivial
  · cases s.peer with
    | none => exact hfinish mid _ hread
    | some b =>
        simp only
        split
        · exact hfinish mid _ hread
        · apply (enqueue_speaks mid b result.bytes hshort).bind
          intro r hr
          obtain ⟨code, after⟩ := r
          have hlog : Speaks st (logRead after a) := (hread.trans hr).trans (logRead_speaks after a)
          simp only
          split
          · exact hlog
          · split
            · apply (deref_any _ a).bind
              intro x _
              exact hfinish _ _ (hlog.trans (.of_eq rfl))
            · exact hfinish _ _ hlog

theorem localSocketEventFunc_speaks (st : Server) (a : Nat) (events : BitVec 16) :
    Ensures (localSocketEventFunc st a events) (Speaks st) Anyway := by
  unfold localSocketEventFunc
  have hwrite : Ensures (if firesWrite events then eventWrite st a else pure (true, st))
      (fun r => Speaks st r.2) Anyway := by
    split
    · exact eventWrite_speaks st a
    · exact Speaks.refl st
  apply hwrite.bind
  intro r hr
  simp only
  split
  · exact speaks_after (v := id) hr (eventRead_speaks r.2 a)
  · exact hr

end Events

section Packets

theorem updateFrom_speaks (buffer : Bytes) (hshort : buffer.length ≤ MAX_PAYLOAD) (fuel : Nat)
    (tracker : Option Nat) (st : Server) :
    Ensures (updateFrom buffer fuel tracker st) (Speaks st) Anyway := by
  induction fuel generalizing tracker st with
  | zero =>
      cases tracker with
      | none => exact Speaks.refl st
      | some tracker => trivial
  | succ fuel ih =>
      cases tracker with
      | none => exact Speaks.refl st
      | some tracker =>
          unfold updateFrom
          split
          · trivial
          · apply (deviceTrackerSend_speaks enqueue_speaks st tracker hshort).bind
            exact fun r hr => speaks_after (v := id) hr (ih _ r.2)

theorem updateTransports_speaks (st : Server) : Ensures (updateTransports st) (Speaks st) Anyway := by
  unfold updateTransports
  apply (listTransportsMsg_short st).bind
  exact fun buffer hshort => updateFrom_speaks buffer hshort _ _ st

theorem handleOffline_speaks (st : Server) (t : Nat) : Ensures (handleOffline st t) (Speaks st) Anyway := by
  unfold handleOffline
  apply (derefTransport_any st t).bind
  intro transport _
  exact (runTransportDisconnects_speaks _ t).weaken fun _ hm => SendsOnly.trans (.of_eq rfl) hm

theorem handleOnline_speaks (st : Server) (t : Nat) : Ensures (handleOnline st t) (Speaks st) Anyway := by
  unfold handleOnline
  apply (derefTransport_any st t).bind
  exact fun transport _ => .of_eq rfl

theorem setConnectionState_speaks (st : Server) (t : Nat) (state : ConnectionState) :
    Ensures (setConnectionState st t state) (Speaks st) Anyway := by
  unfold setConnectionState
  apply (derefTransport_any st t).bind
  exact fun transport _ => .of_eq rfl

theorem parseBanner_speaks (st : Server) (t : Nat) (buffer : Bytes) :
    Ensures (parseBanner st t buffer) (Speaks st) Anyway := by
  unfold parseBanner
  apply (derefTransport_any st t).bind
  intro transport _
  simp only
  split
  · exact (updateTransports_speaks _).weaken fun _ hm => SendsOnly.trans (.of_eq rfl) hm
  · exact .of_eq rfl

theorem attachRemote_speaks (st : Server) (a : Nat) (id : UInt32) (t : Nat) :
    Ensures (attachRemote st a id t) (Speaks st) Anyway := by
  unfold attachRemote
  apply (createRemoteSocket_speaks st id t).bind
  intro created hcreated
  apply (deref_any created.2 a).bind
  intro s _
  apply (deref_any _ created.1).bind
  exact fun remote _ => hcreated.trans (.note rfl (by simp))

theorem sendReady_speaks (st : Server) (localId remoteId : UInt32) (t : Nat) :
    Ensures (sendReady st localId remoteId t) (Speaks st) Anyway :=
  sendPacket_speaks st (some t) (ofStreams_okay localId remoteId) none

theorem createLocalServiceSocket_speaks (st : Server) (name : Bytes) :
    Ensures (createLocalServiceSocket st name) (fun r => Speaks st r.2) Anyway := by
  have hfd : Ensures (serviceToFd st name) (fun r => Speaks st r.2) Anyway := by
    unfold serviceToFd
    split
    · exact openFd_speaks st
    · exact Speaks.refl st
  unfold createLocalServiceSocket
  apply hfd.bind
  intro opened hopened
  obtain ⟨fd, mid⟩ := opened
  cases fd with
  | none => exact hopened
  | some fd =>
      apply (createLocalSocket_speaks mid (some fd)).bind
      exact fun created hcreated => hopened.trans hcreated

theorem handleConnect_speaks (st : Server) (t : Nat) (packet : Packet) :
    Ensures (handleConnect st t packet) (Speaks st) Anyway := by
  unfold handleConnect
  apply (derefTransport_any st t).bind
  intro transport _
  have hoffline : Ensures (if transport.connectionState ≠ .offline then do
      let st ← setConnectionState st t .offline
      handleOffline st t
    else pure st) (Speaks st) Anyway := by
    split
    · exact speaks_bind (setConnectionState_speaks st t .offline) fun mid => handleOffline_speaks mid t
    · exact Speaks.refl st
  apply speaks_bind hoffline
  intro mid
  exact speaks_bind (parseBanner_speaks mid t _) fun named => handleOnline_speaks named t

theorem handleOpen_speaks (st : Server) (t : Nat) (packet : Packet) :
    Ensures (handleOpen st t packet) (Speaks st) Anyway := by
  unfold handleOpen
  apply (createLocalServiceSocket_speaks st _).bind
  intro created hcreated
  obtain ⟨o, mid⟩ := created
  apply speaks_after (v := id) hcreated
  cases o with
  | none => exact sendPacket_speaks mid (some t) (ofStreams_close 0 packet.arg0) none
  | some a =>
      apply speaks_bind (attachRemote_speaks mid a packet.arg0 t)
      intro tied
      apply (deref_any tied a).bind
      intro s _
      have hnote : Speaks tied (tied.note (.opened a)) := .note rfl (by simp)
      apply speaks_after (v := id) hnote
      exact speaks_bind (sendReady_speaks _ s.id packet.arg0 t) fun sent => ready_speaks sent a

theorem handleOkay_speaks (st : Server) (t : Nat) (packet : Packet) :
    Ensures (handleOkay st t packet) (Speaks st) Anyway := by
  unfold handleOkay
  cases findLocalSocket st packet.arg1 with
  | error e => trivial
  | ok found =>
      apply (ensures_bind_ok rfl).mpr
      cases found with
      | none => exact Speaks.refl st
      | some a =>
          apply (deref_any st a).bind
          intro s _
          have hready : ∀ mid : Server, Ensures (ready (mid.note (.okayed a)) a) (Speaks mid) Anyway :=
            fun mid => (ready_speaks _ a).weaken fun _ hm => SendsOnly.trans (.note rfl (by simp)) hm
          cases s.peer with
          | none => exact speaks_bind (attachRemote_speaks st a packet.arg0 t) hready
          | some p => exact hready st

theorem handleClose_speaks (st : Server) (packet : Packet) :
    Ensures (handleClose st packet) (Speaks st) Anyway := by
  unfold handleClose
  cases findLocalSocket st packet.arg1 with
  | error e => trivial
  | ok found =>
      apply (ensures_bind_ok rfl).mpr
      cases found with
      | none => exact Speaks.refl st
      | some a => exact close_speaks st a

theorem handleWrite_speaks (st : Server) (t : Nat) {packet : Packet}
    (hshort : packet.payload.length ≤ MAX_PAYLOAD) :
    Ensures (handleWrite st t packet) (Speaks st) Anyway := by
  unfold handleWrite
  cases findLocalSocket st packet.arg1 with
  | error e => trivial
  | ok found =>
      apply (ensures_bind_ok rfl).mpr
      cases found with
      | none => exact Speaks.refl st
      | some a =>
          apply (enqueue_speaks st a packet.payload hshort).bind
          intro r hr
          apply speaks_after (v := id) hr
          simp only
          split
          · apply (deref_any r.2 a).bind
            exact fun s _ => sendReady_speaks r.2 s.id packet.arg0 t
          · exact Speaks.refl r.2

-- Only A_SYNC is answered with the handshake.
theorem handlePacket_speaks (st : Server) (t : Nat) {packet : Packet} (hsync : packet.command ≠ A_SYNC)
    (hshort : packet.payload.length ≤ MAX_PAYLOAD) :
    Ensures (handlePacket st t packet) (Speaks st) Anyway := by
  unfold handlePacket
  apply (derefTransport_any st t).bind
  intro transport _
  rw [if_neg hsync]
  split
  · exact handleConnect_speaks st t packet
  · split
    · exact Speaks.refl st
    · split
      · exact handleOpen_speaks st t packet
      · split
        · exact handleOkay_speaks st t packet
        · split
          · exact handleClose_speaks st packet
          · split
            · exact handleWrite_speaks st t hshort
            · exact Speaks.refl st

theorem acceptClient_speaks (st : Server) (l : Nat) : Ensures (acceptClient st l) (Speaks st) Anyway := by
  unfold acceptClient Server.derefListener
  cases st.listeners l with
  | none => trivial
  | some listener =>
      apply (ensures_bind_ok rfl).mpr
      apply (createLocalSocket_speaks _ _).bind
      intro created hcreated
      have hfirst : Speaks st created.2 := SendsOnly.trans (.of_eq rfl) hcreated
      apply speaks_after (v := id) hfirst
      simp only
      split
      · exact connectToSmartsocket_speaks created.2 created.1
      · apply (deref_any created.2 created.1).bind
        intro s _
        exact (connectToRemote_speaks _ created.1 _).weaken fun _ hm => SendsOnly.trans (.of_eq rfl) hm

theorem removeTransport_speaks (st : Server) (t : Nat) :
    Ensures (removeTransport st t) (Speaks st) Anyway := by
  unfold removeTransport
  apply (derefTransport_any st t).bind
  intro transport _
  apply (runTransportDisconnects_speaks _ t).bind
  intro mid hm
  have hfirst : Speaks st mid := SendsOnly.trans (.of_eq rfl) hm
  exact (updateTransports_speaks _).weaken fun _ hrest => hfirst.trans (SendsOnly.trans (.of_eq rfl) hrest)

-- What the server sends belongs to the streams, but for the answers to A_SYNC.
theorem handle_speaks (st : Server) {input : Input}
    (hsync : ∀ t packet, input = .packet t packet → packet.command ≠ A_SYNC) :
    Ensures (handle st input) (Speaks st) Anyway := by
  cases input with
  | packet t packet =>
      simp only [handle]
      split
      · rename_i hfits
        exact handlePacket_speaks st t (hsync t packet rfl) hfits.1
      · trivial
  | accept l =>
      simp only [handle]
      split
      · exact acceptClient_speaks st l
      · trivial
  | signal a =>
      simp only [handle]
      split
      · trivial
      · split
        · trivial
        · exact .of_eq rfl
  | callback a =>
      simp only [handle]
      split
      · trivial
      · split
        · trivial
        · exact (localSocketEventFunc_speaks _ a _).weaken fun _ hm => SendsOnly.trans (.of_eq rfl) hm
  | register type adbPort serial devpath writeable =>
      simp only [handle, registerTransport]
      exact (updateTransports_speaks _).weaken fun _ hm => SendsOnly.trans (.of_eq rfl) hm
  | remove t =>
      simp only [handle]
      split
      · exact removeTransport_speaks st t
      · trivial
  | closeAll t =>
      simp only [handle]
      split
      · exact closeAllFrom_speaks t _ st
      · trivial

end Packets

end Adb.Host
