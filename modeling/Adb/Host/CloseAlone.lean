import Adb.Host.Wiring

namespace Adb.Host

open Adb.Lib

variable {st mid after : Server} {a p t : Nat} {s : ASocket}

-- However it ends otherwise.
def Anyway (_ : Stop) : Prop := True

theorem deref_any (st : Server) (a : Nat) :
    Ensures (st.deref a) (fun s => st.socks a = some s) Anyway :=
  (deref_ensures st a).mono fun _ _ => trivial

theorem derefTransport_any (st : Server) (t : Nat) :
    Ensures (st.derefTransport t) (fun transport => st.transports t = some transport) Anyway :=
  (derefTransport_ensures st t).mono fun _ _ => trivial

section Sends

variable {P Q : Nat → Message → Prop}

-- What is sent on the way, and to whom.
def SendsOnly (P : Nat → Message → Prop) (st after : Server) : Prop :=
  ∃ events, after.log = st.log ++ events ∧
    ∀ t message carried, Event.sent t message carried ∈ events → P t message

-- Nothing is sent on the way.
abbrev Unsent : Server → Server → Prop := SendsOnly fun _ _ => False

theorem SendsOnly.of_eq (h : after.log = st.log) : SendsOnly P st after :=
  ⟨[], by rw [h, List.append_nil], by simp⟩

theorem SendsOnly.note {e : Event} (h : after.log = st.log ++ [e])
    (he : ∀ t message carried, Event.sent t message carried = e → P t message) : SendsOnly P st after :=
  ⟨[e], h, fun t message carried hmem => he t message carried (List.mem_singleton.mp hmem)⟩

theorem SendsOnly.mono (h : SendsOnly P st after) (hPQ : ∀ t message, P t message → Q t message) :
    SendsOnly Q st after := by
  obtain ⟨events, hlog, hsent⟩ := h
  exact ⟨events, hlog, fun t message carried hmem => hPQ t message (hsent t message carried hmem)⟩

theorem Unsent.sends (h : Unsent st after) : SendsOnly P st after :=
  h.mono fun _ _ => False.elim

theorem SendsOnly.trans (h : SendsOnly P st mid) (h' : SendsOnly P mid after) : SendsOnly P st after := by
  obtain ⟨events, hlog, hsent⟩ := h
  obtain ⟨events', hlog', hsent'⟩ := h'
  refine ⟨events ++ events', by rw [hlog', hlog, List.append_assoc], ?_⟩
  intro t message carried hmem
  rcases List.mem_append.mp hmem with hmem | hmem
  · exact hsent t message carried hmem
  · exact hsent' t message carried hmem

end Sends

section Alone

-- Only one socket is touched, and nothing is sent.
structure OnlyAt (st : Server) (p : Nat) (after : Server) : Prop where
  others : ∀ c, c ≠ p → after.socks c = st.socks c
  unsent : Unsent st after

theorem OnlyAt.refl (st : Server) (p : Nat) : OnlyAt st p st := ⟨fun _ _ => rfl, .of_eq rfl⟩

theorem OnlyAt.trans (h : OnlyAt st p mid) (h' : OnlyAt mid p after) : OnlyAt st p after :=
  ⟨fun c hc => (h'.others c hc).trans (h.others c hc), h.unsent.trans h'.unsent⟩

theorem OnlyAt.put (st : Server) (p : Nat) (s : ASocket) : OnlyAt st p (st.put p s) :=
  ⟨fun c hc => by simp [Server.put, hc], .of_eq rfl⟩

theorem OnlyAt.free (st : Server) (p : Nat) : OnlyAt st p (st.free p) :=
  ⟨fun c hc => by simp [Server.free, hc], .of_eq rfl⟩

theorem insertLocalSocket_only (st : Server) (p : Nat) (list : SRef) :
    Ensures (insertLocalSocket st p list) (OnlyAt st p) Anyway := by
  unfold insertLocalSocket
  split
  · split
    · exact ⟨fun _ _ => rfl, .of_eq rfl⟩
    · trivial
  · trivial

theorem removeSocket_only (st : Server) (p : Nat) : Ensures (removeSocket st p) (OnlyAt st p) Anyway := by
  unfold removeSocket
  apply (deref_any st p).bind
  intro s _
  split
  · split
    · split
      · exact ⟨fun c hc => by simp [Server.put, hc], .of_eq rfl⟩
      · trivial
    · trivial
  · exact OnlyAt.refl st p

theorem localSocketDestroy_only (st : Server) (p : Nat) :
    Ensures (localSocketDestroy st p) (OnlyAt st p) Anyway := by
  unfold localSocketDestroy
  apply (deref_any st p).bind
  intro s _
  have hnote : OnlyAt st p (st.note (.closedFd p)) := ⟨fun _ _ => rfl, .note rfl (by simp)⟩
  apply (removeSocket_only _ p).bind
  intro mid hmid
  exact (hnote.trans hmid).trans (OnlyAt.free mid p)

theorem localSocketFinish_only (st : Server) (p : Nat) :
    Ensures (localSocketFinish st p) (OnlyAt st p) Anyway := by
  unfold localSocketFinish
  apply (deref_any st p).bind
  intro s _
  split
  · exact localSocketDestroy_only st p
  · apply (removeSocket_only _ p).bind
    intro mid hmid
    apply (insertLocalSocket_only mid p .closingList).weaken
    intro after hafter
    exact ((OnlyAt.put st p _).trans hmid).trans hafter

theorem writeStatus_only (st : Server) (p : Nat) (status : Status) :
    Ensures (st.writeStatus p status) (OnlyAt st p) Anyway := by
  apply ((writeStatus_ensures st p status).mono fun _ _ => trivial).weaken
  rintro _ ⟨ok, rest, -, rfl⟩
  exact ⟨fun _ _ => rfl, .note rfl (by simp)⟩

theorem remoteSocketFree_only (st : Server) (p : Nat) :
    Ensures (remoteSocketFree st p) (fun after => OnlyAt st p after ∧ after.socks p = none) Anyway := by
  unfold remoteSocketFree Server.removeTransportDisconnect
  apply (deref_any st p).bind
  intro s _
  split
  · trivial
  · simp only [bind_assoc]
    apply (derefTransport_any st _).bind
    intro transport _
    refine ⟨⟨fun c hc => ?_, .of_eq rfl⟩, ?_⟩
    · simp [Server.free, Server.putTransport, hc]
    · simp [Server.free]

-- What the close of a socket comes to when nobody is connected to it. A remote
-- socket tells its transport.
structure ClosedAlone (st : Server) (p : Nat) (s : ASocket) (after : Server) : Prop where
  others : ∀ c, c ≠ p → after.socks c = st.socks c
  gone : s.ops.isLocal = false → after.socks p = none
  unsent : s.ops ≠ .remoteSocket → Unsent st after

theorem OnlyAt.closed_local (h : OnlyAt st p after) (hlocal : s.ops.isLocal = true) :
    ClosedAlone st p s after :=
  ⟨h.others, fun hinner => by simp [hlocal] at hinner, fun _ => h.unsent⟩

theorem OnlyAt.closed_gone (h : OnlyAt st p after) (hgone : after.socks p = none) :
    ClosedAlone st p s after :=
  ⟨h.others, fun _ => hgone, fun _ => h.unsent⟩

variable (close : Server → Nat → Except Stop Server)

theorem localSocketCloseLocked_only (hs : st.socks p = some s) (halone : s.peer = none) :
    Ensures (localSocketCloseLocked close st p) (OnlyAt st p) Anyway := by
  unfold localSocketCloseLocked
  apply (ensures_bind_ok (Server.deref_some hs)).mpr
  rw [halone]
  exact localSocketFinish_only st p

theorem localSocketCloseNotify_only (hs : st.socks p = some s) (halone : s.peer = none) :
    Ensures (localSocketCloseNotify close st p) (OnlyAt st p) Anyway := by
  unfold localSocketCloseNotify
  apply (ensures_bind_ok (Server.deref_some hs)).mpr
  have hput := OnlyAt.put st p { s with ops := .localSocket }
  apply ((writeStatus_only _ p (.fail "closed")).and
    ((writeStatus_ensures _ p (.fail "closed")).mono fun _ _ => trivial)).bind
  rintro mid ⟨hmid, ok, rest, -, heq⟩
  have hfound : mid.socks p = some { s with ops := .localSocket } := by
    rw [heq]
    simp [Server.put]
  apply (localSocketCloseLocked_only close hfound halone).weaken
  intro after hafter
  exact (hput.trans hmid).trans hafter

theorem remoteSocketClose_alone (hs : st.socks p = some s) (halone : s.peer = none)
    (hops : s.ops = .remoteSocket) :
    Ensures (remoteSocketClose close st p) (ClosedAlone st p s) Anyway := by
  unfold remoteSocketClose
  apply (ensures_bind_ok (Server.deref_some hs)).mpr
  rw [halone]
  apply (ensures_bind_ok (a := ((0 : UInt32), st)) rfl).mpr
  apply (ensures_bind_ok (Server.deref_some hs)).mpr
  apply ((sendPacket_ensures st s.transport _ none).mono fun _ _ => trivial).bind
  rintro _ ⟨t, -, rfl⟩
  apply (remoteSocketFree_only _ p).weaken
  rintro after ⟨honly, hgone⟩
  exact ⟨honly.others, fun _ => hgone, fun hne => absurd hops hne⟩

theorem smartSocketClose_alone (hs : st.socks p = some s) (halone : s.peer = none) :
    Ensures (smartSocketClose close st p) (ClosedAlone st p s) Anyway := by
  unfold smartSocketClose
  apply (ensures_bind_ok (Server.deref_some hs)).mpr
  rw [halone]
  apply (ensures_bind_ok (a := st) rfl).mpr
  apply (ensures_bind_ok (Server.deref_some hs)).mpr
  exact (OnlyAt.free st p).closed_gone (by simp [Server.free])

theorem deviceTrackerClose_alone (hs : st.socks p = some s) (halone : s.peer = none) :
    Ensures (deviceTrackerClose close st p) (ClosedAlone st p s) Anyway := by
  unfold deviceTrackerClose
  apply (ensures_bind_ok (Server.deref_some hs)).mpr
  rw [halone]
  apply (ensures_bind_ok (a := st) rfl).mpr
  apply (ensures_bind_ok (Server.deref_some hs)).mpr
  have honly : OnlyAt st p ({ st with deviceTrackerList := st.deviceTrackerList.erase p }.free p) :=
    ⟨fun c hc => by simp [Server.free, hc], .of_eq rfl⟩
  exact honly.closed_gone (by simp [Server.free])

theorem closeWithin_alone (depth : Nat) (hs : st.socks p = some s) (halone : s.peer = none) :
    Ensures (closeWithin depth st p) (ClosedAlone st p s) Anyway := by
  cases depth with
  | zero => trivial
  | succ depth =>
      unfold closeWithin
      apply (ensures_bind_ok (Server.deref_some hs)).mpr
      cases hops : s.ops with
      | localSocket =>
          apply (localSocketCloseLocked_only _ hs halone).weaken
          exact fun _ h => h.closed_local (by rw [hops]; rfl)
      | localSocketNotify =>
          apply (localSocketCloseNotify_only _ hs halone).weaken
          exact fun _ h => h.closed_local (by rw [hops]; rfl)
      | remoteSocket => exact remoteSocketClose_alone _ hs halone hops
      | smartSocket => exact smartSocketClose_alone _ hs halone
      | deviceTracker => exact deviceTrackerClose_alone _ hs halone

-- The peer that is closed first has nobody any more.
theorem closePeer_alone (depth : Nat) (st : Server) (p : Nat) :
    Ensures (closePeer (closeWithin depth) st p)
      (fun after => ∃ peer, st.socks p = some peer ∧ ClosedAlone st p peer after) Anyway := by
  unfold closePeer
  apply (deref_any st p).bind
  intro peer hpeer
  apply (closeWithin_alone depth (s := { peer with peer := none }) (by simp [Server.put]) rfl).weaken
  intro after h
  have hput := OnlyAt.put st p { peer with peer := none }
  exact ⟨peer, hpeer, fun c hc => (h.others c hc).trans (hput.others c hc), h.gone,
    fun hops => hput.unsent.trans (h.unsent hops)⟩

end Alone

end Adb.Host
