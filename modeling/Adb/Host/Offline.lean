import Adb.Host.Books

namespace Adb.Host

open Adb.Lib

variable {D : Server → Bytes → Prop} {st mid after : Server} {a l t : Nat} {s : ASocket}
  {dis : Disconnect}
  {ds : List Disconnect}
  {transport : ATransport}

section Walk

-- A local socket that waits for the answer to the OPEN it has sent on t.
def ASocket.Pending (s : ASocket) (t : Nat) : Prop :=
  s.ops.isLocal = true ∧ s.closing = false ∧ s.peer = none ∧ s.transport = some t

-- The waiting sockets are the same as before.
def SamePending (st after : Server) (t : Nat) : Prop :=
  ∀ a s, s.Pending t → (after.socks a = some s ↔ st.socks a = some s)

theorem SamePending.of_eq (h : after.socks = st.socks) (t : Nat) : SamePending st after t := by
  intro a s _
  rw [h]

theorem SamePending.trans (h : SamePending st mid t) (h' : SamePending mid after t) :
    SamePending st after t := by
  intro a s hs
  rw [h' a s hs, h a s hs]

theorem not_pending_fate (s : ASocket) (x : ASocket) (h : fate s = some x) : ¬x.Pending t := by
  intro hp
  have hclosing := fate_closing h
  rw [hp.2.1] at hclosing
  cases hclosing

-- A socket that waits has no peer, so the end of a connection is not its own.
theorem Closed.samePending {p : Nat} (hc : Closed st a s after) (h : Graph st)
    (hs : st.socks a = some s)
    (hp : s.peer = some p) (t : Nat) : SamePending st after t := by
  obtain ⟨-, peer, hpeer, hback⟩ := h.peers.back a s p hs hp
  intro c x hx
  rw [hc.socks, hp]
  simp only [severed, hpeer, Option.bind_some]
  by_cases hca : c = a
  · subst hca
    rw [Function.update_self, hs, Option.some.injEq]
    constructor
    · intro hf
      exact absurd hx (not_pending_fate s x hf)
    · rintro rfl
      rw [hx.2.2.1] at hp
      cases hp
  · rw [Function.update_of_ne hca]
    by_cases hcp : c = p
    · subst hcp
      rw [Function.update_self, hpeer, Option.some.injEq]
      constructor
      · intro hf
        exact absurd hx (not_pending_fate peer x hf)
      · rintro rfl
        rw [hx.2.2.1] at hback
        cases hback
    · rw [Function.update_of_ne hcp]

-- The listeners on the list, each once.
def ListenersListed (st : Server) : Prop :=
  st.listenerList.Nodup ∧ ∀ l, l ∈ st.listenerList ↔ st.listeners l ≠ none

-- Listeners may have gone, but none that is not bound to t.
structure Unlistens (st : Server) (t : Nat) (after : Server) : Prop where
  kept : ∀ l, after.listeners l = st.listeners l ∨ (after.listeners l = none ∧
    ∃ listener, st.listeners l = some listener ∧ listener.transport = some t)
  listed : ListenersListed st → ListenersListed after

theorem Unlistens.of_eq (hl : after.listeners = st.listeners)
    (hlist : after.listenerList = st.listenerList)
    (t : Nat) : Unlistens st t after where
  kept := fun l => Or.inl (congrFun hl l)
  listed := by
    intro h
    rw [ListenersListed, hl, hlist]
    exact h

theorem Unlistens.trans (h : Unlistens st t mid) (h' : Unlistens mid t after) :
    Unlistens st t after where
  kept := by
    intro l
    obtain hl' | ⟨hgone, listener, hl', ht⟩ := h'.kept l
    · rw [hl']
      exact h.kept l
    · obtain hl | ⟨hgone', -⟩ := h.kept l
      · exact Or.inr ⟨hgone, listener, hl ▸ hl', ht⟩
      · rw [hgone'] at hl'
        cases hl'
  listed := fun hlisted => h'.listed (h.listed hlisted)

theorem ListenersListed.erase (h : ListenersListed st)
    (hl : after.listeners = Function.update st.listeners l none)
    (hlist : after.listenerList = st.listenerList.erase l) : ListenersListed after := by
  refine ⟨hlist ▸ h.1.erase l, fun k => ?_⟩
  rw [hlist, hl, h.1.mem_erase_iff, h.2 k]
  by_cases hk : k = l
  · simp [hk]
  · simp [hk]

theorem Unlistens.gone {listener : AListener} (hfound : st.listeners l = some listener)
    (ht : listener.transport = some t) (hl : after.listeners = Function.update st.listeners l none)
    (hlist : after.listenerList = st.listenerList.erase l) : Unlistens st t after where
  kept := by
    intro k
    by_cases hk : k = l
    · subst hk
      exact Or.inr ⟨by rw [hl, Function.update_self], listener, hfound, ht⟩
    · exact Or.inl (by rw [hl, Function.update_of_ne hk])
  listed := fun h => h.erase hl hlist

-- A callback of the list has run to its end: its record is off the list.
structure Undone (st : Server) (t : Nat) (dis : Disconnect) (after : Server) : Prop where
  graph : Graph after
  books : Books after
  transports : after.transports = forgets st.transports (some t) dis
  pending : SamePending st after t
  unlistens : Unlistens st t after
  unsent : Unsent st after

theorem remoteSocketDisconnect_eq (h : Graph st) (hs : st.socks a = some s)
    (hops : s.ops = .remoteSocket)
    (ht : s.transport = some t) (htransport : st.transports t = some transport) :
    ∃ after, remoteSocketDisconnect close st a = .ok after ∧
      after.transports = forgets st.transports (some t) (.remote a) ∧ Unlistens st t after ∧
      Unsent st after := by
  obtain ⟨p, peer, hp, hpeer, hlocal⟩ := h.peers.inner a s hs (by rw [hops]; rfl)
  obtain ⟨hpa, found, hfound, hback⟩ := h.peers.back a s p hs hp
  rw [hpeer, Option.some.injEq] at hfound
  subst hfound
  have hn := h.peers.not_notify hpeer (by simp [hback])
  have hplain : peer.ops = .localSocket := by
    cases hpops : peer.ops <;> simp_all [Ops.isLocal]
  obtain ⟨links, hclose, -⟩ := closePeer_local h.base hpeer hplain 2
  have hcut : closePeer close st p = .ok (st.relinked links p (fate peer) (fateLog p peer)) :=
    hclose
  have hkept : (st.relinked links p (fate peer) (fateLog p peer)).socks a = some s := by
    simp [Server.relinked, hpa.symm, hs]
  have hderef : (st.relinked links p (fate peer) (fateLog p peer)).derefTransport t =
      .ok transport := by
    simp [Server.derefTransport, Server.relinked, htransport]
  let left : ATransport := { transport with disconnects := transport.disconnects.erase (.remote a) }
  let after := ((st.relinked links p (fate peer) (fateLog p peer)).putTransport t left).free a
  have hunlistens : Unlistens st t after := .of_eq (by rfl) (by rfl) t
  have hunsent : Unsent st after :=
    ⟨fateLog p peer, rfl, fun u message carried hmem => by cases (mem_fateLog hmem).1⟩
  refine ⟨after, ?_, (forgets_some htransport (.remote a)).symm, hunlistens, hunsent⟩
  simp only [remoteSocketDisconnect, Server.deref_some hs, bind, Except.bind, hp, hcut,
    remoteSocketFree, Server.deref_some hkept, ht, Server.removeTransportDisconnect, hderef]
  rfl

theorem freeListener_eq {listener : AListener} (hl : st.listeners l = some listener)
    (ht : listener.transport = some t) (htransport : st.transports t = some transport) :
    ∃ after, freeListener st l = .ok after ∧ after.socks = st.socks ∧ after.log = st.log ∧
      after.transports = forgets st.transports (some t) (.listener l) ∧ Unlistens st t after := by
  let left : ATransport :=
    { transport with disconnects := transport.disconnects.erase (.listener l) }
  let after := { st.putTransport t left with
    listenerList := st.listenerList.erase l
    listeners := Function.update st.listeners l none }
  refine ⟨after, ?_, rfl, rfl, (forgets_some htransport (.listener l)).symm, .gone hl ht rfl rfl⟩
  simp only [freeListener, Server.derefListener, hl, bind, Except.bind, ht,
    Server.removeTransportDisconnect, Server.derefTransport, htransport]
  rfl

theorem disconnectsFrom_edits (t fuel : Nat) (dis : Option Disconnect) :
    Ensures (disconnectsFrom t fuel dis st) (Edits D st) Anyway := by
  induction fuel generalizing dis st with
  | zero =>
      cases dis with
      | none => exact Edits.refl st
      | some dis => trivial
  | succ fuel ih =>
      cases dis with
      | none => exact Edits.refl st
      | some dis =>
          unfold disconnectsFrom
          apply (derefTransport_any st t).bind
          intro transport _
          cases transport.disconnects.dropWhile (· ≠ dis) with
          | nil => trivial
          | cons head rest => exact edits_bind (runDisconnect_edits st dis) fun mid _ => ih rest.head?

theorem runTransportDisconnects_edits (t : Nat) :
    Ensures (runTransportDisconnects st t) (Edits D st) Anyway := by
  unfold runTransportDisconnects
  exact (derefTransport_any st t).bind fun transport _ => disconnectsFrom_edits t _ _

-- The callback of each record on the list comes to its end, whoever it belongs to.
theorem runDisconnect_undone (h : Graph st) (hb : Books st) (ht : st.transports t = some transport)
    (hd : dis ∈ transport.disconnects) :
    ∃ after, runDisconnect st dis = .ok after ∧ Undone st t dis after := by
  have hbooks : ∀ after, runDisconnect st dis = .ok after → Books after := by
    intro after hrun
    exact ((runDisconnect_edits (D := Nobody) st dis).of_ok hrun).books hb
  cases dis with
  | remote a =>
      have hrole := h.owners.disconnects t transport a ht hd
      obtain ⟨s, hs, hops⟩ := roleOf_eq_remote hrole
      have htransport : s.transport = some t := by simpa [hs, roleOf_remote hops] using hrole
      obtain ⟨after, hrun, htransports, hunlistens, hunsent⟩ :=
        remoteSocketDisconnect_eq h hs hops htransport ht
      have hc := (remoteSocketDisconnect_spec h hs hops 2).of_ok hrun
      obtain ⟨p, -, hp, -⟩ := h.peers.inner a s hs (by rw [hops]; rfl)
      exact ⟨after, hrun, hc.graph, hbooks after hrun, htransports,
        hc.samePending h hs hp t, hunlistens, hunsent⟩
  | listener l =>
      obtain ⟨listener, hl, hlt⟩ := hb.known t l ⟨transport, ht, hd⟩
      obtain ⟨after, hrun, hsocks, hlog, htransports, hunlistens⟩ := freeListener_eq hl hlt ht
      have hcalm := (freeListener_calm st l).of_ok hrun
      exact ⟨after, hrun, hcalm.graph h, hbooks after hrun, htransports,
        .of_eq hsocks t, hunlistens, .of_eq hlog⟩

-- Every callback has run.
structure Walked (st : Server) (t : Nat) (after : Server) : Prop where
  graph : Graph after
  books : Books after
  empty : ∃ transport, after.transports t = some transport ∧ transport.disconnects = []
  pending : SamePending st after t
  unlistens : Unlistens st t after
  unsent : Unsent st after

theorem Walked.unrecorded (hw : Walked st t after) (dis : Disconnect) :
    ¬Recorded after.transports t dis := by
  rintro ⟨found, hfound, hmem⟩
  obtain ⟨transport, ht, hempty⟩ := hw.empty
  rw [ht, Option.some.injEq] at hfound
  subst hfound
  rw [hempty] at hmem
  cases hmem

-- No remote socket and no listener of the transport is left behind the walk.
theorem Walked.detached (hw : Walked st t after) (hs : after.socks a = some s)
    (hops : s.ops = .remoteSocket) :
    s.transport ≠ some t := by
  intro heq
  obtain ⟨u, hu, hrecord⟩ := hw.books.remotes a s hs hops
  rw [heq, Option.some.injEq] at hu
  subst hu
  exact hw.unrecorded _ hrecord

theorem Walked.unbound {listener : AListener} (hw : Walked st t after)
    (hl : after.listeners l = some listener) :
    listener.transport ≠ some t :=
  fun ht => hw.unrecorded _ (hw.books.listeners l listener t hl ht)

-- The first record goes with each round, so the walk comes to the end of the list.
theorem disconnectsFrom_walked (ds : List Disconnect) (h : Graph st) (hb : Books st)
    (ht : st.transports t = some transport) (hds : transport.disconnects = ds) :
    ∃ after, disconnectsFrom t ds.length ds.head? st = .ok after ∧ Walked st t after := by
  induction ds generalizing st transport with
  | nil => exact ⟨st, rfl, h, hb, ⟨transport, ht, hds⟩, .of_eq rfl t, .of_eq rfl rfl t, .of_eq rfl⟩
  | cons dis rest ih =>
      have hdis : dis ∈ transport.disconnects := by simp [hds]
      obtain ⟨mid, hrun, hmid⟩ := runDisconnect_undone h hb ht hdis
      have hmt : mid.transports t = some { transport with disconnects := rest } := by
        rw [hmid.transports, forgets_some ht, Function.update_self, hds, List.erase_cons_head]
      obtain ⟨after, hrest, hafter⟩ := ih hmid.graph hmid.books hmt rfl
      refine ⟨after, ?_, hafter.graph, hafter.books, hafter.empty,
        hmid.pending.trans hafter.pending, hmid.unlistens.trans hafter.unlistens,
        hmid.unsent.trans hafter.unsent⟩
      have hderef : st.derefTransport t = .ok transport := by simp [Server.derefTransport, ht]
      have hdrop : transport.disconnects.dropWhile (· ≠ dis) = dis :: rest := by simp [hds]
      simp only [List.length_cons, List.head?_cons, disconnectsFrom, hderef, bind,
        Except.bind, hdrop, hrun]
      exact hrest

theorem runTransportDisconnects_walked (h : Graph st) (hb : Books st)
    (ht : st.transports t = some transport) :
    ∃ after, runTransportDisconnects st t = .ok after ∧ Walked st t after := by
  obtain ⟨after, hrun, hafter⟩ := disconnectsFrom_walked transport.disconnects h hb ht rfl
  refine ⟨after, ?_, hafter⟩
  simp only [runTransportDisconnects, Server.derefTransport, ht, bind, Except.bind]
  exact hrun

end Walk

section Runs

-- The records of a transport, if there is one.
def records : Option ATransport → List Disconnect
  | none => []
  | some transport => transport.disconnects

theorem recorded_iff {transports : Nat → Option ATransport} :
    Recorded transports t dis ↔ dis ∈ records (transports t) := by
  unfold Recorded records
  cases transports t with
  | none => simp
  | some transport => simp

theorem once_iff {transports : Nat → Option ATransport} :
    Once transports dis ↔ ∀ t, (records (transports t)).count dis ≤ 1 := by
  constructor
  · intro h t
    cases htr : transports t with
    | none => simp [records]
    | some transport => exact h t transport htr
  · intro h t transport htr
    have hone := h t
    rwa [htr] at hone

-- The books are about the records of the transports only.
theorem Books.of_records (h : Books st) (hsocks : after.socks = st.socks)
    (hlisteners : after.listeners = st.listeners) (hnext : after.nextListener = st.nextListener)
    (hrecords : ∀ u, records (after.transports u) = records (st.transports u))
    (hfresh : ∀ u, after.nextTransport ≤ u → after.transports u = none) : Books after := by
  have hsame : ∀ u e, Recorded after.transports u e ↔ Recorded st.transports u e := by
    intro u e
    rw [recorded_iff, recorded_iff, hrecords]
  constructor
  · intro a s hs hops
    obtain ⟨u, hu, hrecord⟩ := h.remotes a s (hsocks ▸ hs) hops
    exact ⟨u, hu, (hsame u _).mpr hrecord⟩
  · intro l listener u hl hu
    exact (hsame u _).mpr (h.listeners l listener u (hlisteners ▸ hl) hu)
  · intro u l hrecord
    rw [hlisteners]
    exact h.known u l ((hsame u _).mp hrecord)
  · intro l
    apply once_iff.mpr
    intro u
    rw [hrecords]
    exact once_iff.mp (h.once l) u
  · rw [hnext, hlisteners]
    exact h.freshListener
  · exact hfresh

theorem Books.putTransport (h : Books st) (ht : st.transports t = some transport) {x : ATransport}
    (hd : x.disconnects = transport.disconnects) : Books (st.putTransport t x) := by
  refine h.of_records rfl rfl rfl ?_ ?_
  · intro u
    by_cases hut : u = t
    · subst hut
      simp [Server.putTransport, records, ht, hd]
    · simp [Server.putTransport, hut]
  · intro u hu
    have hnone := h.freshTransport u hu
    by_cases hut : u = t
    · subst hut
      rw [ht] at hnone
      cases hnone
    · simp [Server.putTransport, hut, hnone]

theorem Books.register (h : Books st) (hd : transport.disconnects = []) :
    Books { st.putTransport st.nextTransport transport with
      transportList := st.transportList ++ [st.nextTransport]
      nextTransport := st.nextTransport + 1 } := by
  have hnone := h.freshTransport st.nextTransport (Nat.le_refl _)
  refine h.of_records rfl rfl rfl ?_ ?_
  · intro u
    by_cases hu : u = st.nextTransport
    · subst hu
      simp [Server.putTransport, records, hnone, hd]
    · simp [Server.putTransport, hu]
  · intro u hu
    have hlt : st.nextTransport < u := hu
    have hne : u ≠ st.nextTransport := by omega
    simp [Server.putTransport, hne, h.freshTransport u (by omega)]

-- A transport goes once all its callbacks have run.
theorem Walked.removed (hw : Walked st t mid) :
    Books { mid with transports := Function.update mid.transports t none } := by
  obtain ⟨transport, ht, hd⟩ := hw.empty
  refine hw.books.of_records rfl rfl rfl ?_ ?_
  · intro u
    by_cases hut : u = t
    · subst hut
      simp [records, ht, hd]
    · simp [hut]
  · intro u hu
    by_cases hut : u = t
    · simp [hut]
    · simp [hut, hw.books.freshTransport u hu]

-- What both packets of the handshake do first to a transport that is not offline.
def takeOffline (st : Server) (t : Nat) : Except Stop Server := do
  let st ← setConnectionState st t .offline
  handleOffline st t

theorem takeOffline_walked (h : Graph st) (hb : Books st) (ht : st.transports t = some transport) :
    ∃ after, takeOffline st t = .ok after ∧ Walked st t after := by
  obtain ⟨offline, hoffline⟩ : ∃ offline : ATransport,
    offline = { transport with connectionState := .offline } := ⟨_, rfl⟩
  obtain ⟨down, hdown⟩ : ∃ down : ATransport, down = { offline with online := false } := ⟨_, rfl⟩
  have hmid : (st.putTransport t offline).transports t = some offline := by
    simp [Server.putTransport]
  have hgraph := (calm_putTransport offline ht (by rw [hoffline])).graph h
  have hgraph' := (calm_putTransport down hmid (by rw [hdown])).graph hgraph
  have hbooks := hb.putTransport ht (x := offline) (by rw [hoffline])
  have hbooks' := hbooks.putTransport hmid (x := down) (by rw [hdown])
  have hput : ((st.putTransport t offline).putTransport t down).transports t = some down := by
    simp [Server.putTransport]
  obtain ⟨after, hrun, hafter⟩ := runTransportDisconnects_walked hgraph' hbooks' hput
  refine ⟨after, ?_, hafter.graph, hafter.books, hafter.empty, hafter.pending,
    ⟨hafter.unlistens.kept, hafter.unlistens.listed⟩, hafter.unsent⟩
  have hderef : st.derefTransport t = .ok transport := by simp [Server.derefTransport, ht]
  have hderef' : (st.putTransport t offline).derefTransport t = .ok offline := by
    simp [Server.derefTransport, hmid]
  simp only [takeOffline, setConnectionState, hderef, bind, Except.bind, pure, Except.pure,
    handleOffline, ← hoffline, hderef', ← hdown]
  exact hrun

-- Whatever a request asks to disconnect.
def AnySerial (_ : Server) (_ : Bytes) : Prop := True

theorem updateTransports_books (h : Graph st) (hb : Books st) :
    Ensures (updateTransports st) Books Anyway :=
  (updateTransports_works (D := AnySerial) (N := True) h).weaken fun _ hw => hw.books hb

theorem sendPacket_books (hb : Books st) (o : Option Nat) (m : Message) :
    Ensures (st.sendPacket o m none) Books Anyway := by
  apply ((sendPacket_ensures st o m none).mono fun _ _ => trivial).weaken
  rintro _ ⟨t, -, rfl⟩
  exact hb.of_same (.of_eq rfl) rfl rfl rfl rfl

theorem parseBanner_books (h : Graph st) (hb : Books st) (t : Nat) (buffer : Bytes) :
    Ensures (parseBanner st t buffer) Books Anyway := by
  unfold parseBanner
  apply (derefTransport_any st t).bind
  intro transport ht
  have hd := setProperties_disconnects transport (buffer.takeWhile (· ≠ 0))
  simp only
  split
  · rename_i state _
    apply updateTransports_books
    · exact (calm_putTransport { setProperties transport _ with connectionState := state }
        ht hd).graph h
    · exact hb.putTransport (x := { setProperties transport _ with connectionState := state }) ht hd
  · exact hb.putTransport (x := { setProperties transport _ with connectionState := .host }) ht hd

theorem handleSync_books (h : Graph st) (hb : Books st) (t : Nat) (packet : Packet) :
    Ensures (handleSync st t packet) Books Anyway := by
  unfold handleSync
  simp only
  by_cases harg : packet.arg0 = 0
  · rw [if_neg (not_not.mpr harg)]
    cases ht : st.transports t with
    | none => simp [setConnectionState, Server.derefTransport, ht, bind, Except.bind, Anyway]
    | some transport =>
        obtain ⟨mid, hrun, hmid⟩ := takeOffline_walked h hb ht
        rw [← bind_assoc]
        exact (ensures_bind_ok hrun).mpr (sendPacket_books hmid.books _ _)
  · rw [if_pos harg]
    apply (sendPacket_books hb _ _).bind
    intro mid hmid
    exact sendPacket_books hmid _ _

theorem handleOnline_books (hb : Books st) (t : Nat) :
    Ensures (handleOnline st t) Books Anyway := by
  unfold handleOnline
  apply (derefTransport_any st t).bind
  intro transport ht
  exact hb.putTransport (x := { transport with online := true }) ht rfl

theorem handleConnect_books (h : Graph st) (hb : Books st) (t : Nat) (packet : Packet) :
    Ensures (handleConnect st t packet) Books Anyway := by
  unfold handleConnect
  apply (derefTransport_any st t).bind
  intro transport ht
  have hdown : Ensures (if transport.connectionState ≠ .offline then takeOffline st t else pure st)
      (fun mid => Graph mid ∧ Books mid) Anyway := by
    split
    · obtain ⟨mid, hrun, hmid⟩ := takeOffline_walked h hb ht
      rw [hrun]
      exact ⟨hmid.graph, hmid.books⟩
    · exact ⟨h, hb⟩
  apply hdown.bind
  rintro mid ⟨hg, hmid⟩
  apply (parseBanner_books hg hmid t _).bind
  intro after ha
  exact handleOnline_books ha t

theorem handlePacket_books (h : Graph st) (hb : Books st) (t : Nat) (packet : Packet) :
    Ensures (handlePacket st t packet) Books Anyway := by
  by_cases hsync : packet.command = A_SYNC
  · unfold handlePacket
    apply (derefTransport_any st t).bind
    intro transport _
    rw [if_pos hsync]
    exact handleSync_books h hb t packet
  by_cases hconnect : packet.command = A_CNXN
  · unfold handlePacket
    apply (derefTransport_any st t).bind
    intro transport _
    rw [if_neg hsync, if_pos hconnect]
    exact handleConnect_books h hb t packet
  · apply (handlePacket_works (D := AnySerial) (N := True) h t packet (fun hc => absurd hc hsync)
      hconnect fun _ _ => Or.inr trivial).weaken
    intro after hw
    exact hw.books hb

theorem handle_books (h : Graph st) (hb : Books st) (input : Input) :
    Ensures (handle st input) Books Anyway := by
  by_cases hordinary : input.Ordinary
  · apply (handle_works (D := AnySerial) (N := True) h input hordinary (fun _ _ _ => trivial)
      fun _ _ => Or.inr trivial).weaken
    intro after hw
    exact hw.books hb
  cases input with
  | packet t packet =>
      simp only [handle]
      split
      · exact handlePacket_books h hb t packet
      · trivial
  | register type adbPort serial devpath writeable =>
      simp only [handle, registerTransport]
      exact updateTransports_books (h.register _ rfl) (hb.register rfl)
  | remove t =>
      simp only [handle]
      split
      · unfold removeTransport
        apply (derefTransport_any st t).bind
        intro transport ht
        have hgraph := (calm_delisted st (st.transportList.erase t)).graph h
        have hlisted : Books { st with transportList := st.transportList.erase t } :=
          hb.of_same (.of_eq rfl) rfl rfl rfl rfl
        obtain ⟨mid, hrun, hmid⟩ := runTransportDisconnects_walked hgraph hlisted ht
        apply (ensures_bind_ok hrun).mpr
        exact updateTransports_books ((calm_removed mid t).graph hmid.graph) hmid.removed
      · trivial
  | _ => exact absurd trivial hordinary

theorem books_init : Books serverInit where
  remotes := by simp [serverInit]
  listeners := by
    intro l listener t hl ht
    simp only [serverInit] at hl
    split at hl
    · cases hl
      cases ht
    · cases hl
  known := by simp [Recorded, serverInit]
  once := by simp [Once, serverInit]
  freshListener := by
    intro l hl
    have hpos : 1 ≤ l := hl
    have hne : l ≠ 0 := by omega
    simp [serverInit, hne]
  freshTransport := by simp [serverInit]

theorem step_books {input : Script × Input} (hw : Whole st) (hb : Books st)
    (hstep : step st input = .ok after) : Books after := by
  have hs := hw.scripted input
  have hscripted : Books (scripted st input) := hb.of_same (.of_eq rfl) rfl rfl rfl rfl
  exact (handle_books hs.graph hscripted input.2).of_ok hstep

theorem run_books {inputs : List (Script × Input)} (h : run step serverInit inputs = .ok st) :
    Books st := by
  have hboth : Whole st ∧ Books st := run_invariant (P := fun st => Whole st ∧ Books st)
    (fun _ _ _ hs hstep => ⟨step_whole hs.1 hstep, step_books hs.1 hs.2 hstep⟩)
      ⟨whole_init, books_init⟩ h
  exact hboth.2

end Runs

section Closing

-- The packets on which a transport is taken offline.
def TakesOffline (st : Server) (t : Nat) (p : Packet) : Prop :=
  (p.command = A_SYNC ∧ p.arg0 = 0) ∨
    (p.command = A_CNXN ∧
      (st.transports t).any fun transport => transport.connectionState ≠ .offline)

-- What is left to do for such a packet.
def afterOffline (t : Nat) (p : Packet) (st : Server) : Except Stop Server :=
  if p.command = A_SYNC then
    st.sendPacket (some t) ⟨A_SYNC, p.arg0, p.arg1, p.payload⟩ none
  else do
    let st ← parseBanner st t (p.payload ++ p.slack)
    handleOnline st t

theorem handlePacket_takesOffline {p : Packet} (hp : TakesOffline st t p)
    (ht : st.transports t = some transport) :
    handlePacket st t p = takeOffline st t >>= afterOffline t p := by
  have hderef : st.derefTransport t = .ok transport := by simp [Server.derefTransport, ht]
  rcases hp with ⟨hsync, harg⟩ | ⟨hconnect, hstate⟩
  · have hrest : afterOffline t p = fun st =>
        st.sendPacket (some t) ⟨A_SYNC, p.arg0, p.arg1, p.payload⟩ none := by
      funext st
      simp only [afterOffline, if_pos hsync]
    rw [hrest]
    simp only [handlePacket, hderef, bind, Except.bind, if_pos hsync, handleSync,
      if_neg (not_not.mpr harg), takeOffline]
    cases setConnectionState st t .offline <;> rfl
  · have hsync : p.command ≠ A_SYNC := by
      rw [hconnect]
      decide
    have hup : transport.connectionState ≠ .offline := by simpa [ht] using hstate
    have hrest : afterOffline t p = fun st => parseBanner st t (p.payload ++ p.slack) >>= fun st =>
        handleOnline st t := by
      funext st
      simp only [afterOffline, if_neg hsync]
    rw [hrest]
    simp only [handlePacket, hderef, bind, Except.bind, if_neg hsync, if_pos hconnect,
      handleConnect, if_pos hup, takeOffline]

-- Nothing is bound to the transport any more.
structure AllClosed (st : Server) (t : Nat) : Prop where
  remotes : ∀ a s, st.socks a = some s → s.ops = .remoteSocket → s.transport ≠ some t
  listeners : ∀ l listener, st.listeners l = some listener → listener.transport ≠ some t
  waiting : ∀ a s, st.socks a = some s → ¬s.Pending t

-- Whoever has a record is gone, and whoever waits is left.
theorem Walked.allClosed_iff (hw : Walked st t after) :
    AllClosed after t ↔ ∀ a s, st.socks a = some s → ¬s.Pending t := by
  constructor
  · intro hclosed a s hs hpending
    exact hclosed.waiting a s ((hw.pending a s hpending).mpr hs) hpending
  · intro hclear
    constructor
    · intro a s hs hops
      exact hw.detached hs hops
    · intro l listener hl
      exact hw.unbound hl
    · intro a s hs hpending
      exact hclear a s ((hw.pending a s hpending).mp hs) hpending

-- A transport that is taken offline loses all that is bound to it if and only if
-- no local socket waits for the answer to an OPEN on it.
theorem offline_closes_iff (inputs : List (Script × Input)) (st : Server)
    (hr : run step serverInit inputs = .ok st) (script : Script) (t : Nat) (p : Packet)
    (hp : TakesOffline st t p) (hlive : (st.transports t).isSome = true) :
    ∃ after, takeOffline { st with script } t = .ok after ∧
      handlePacket { st with script } t p = afterOffline t p after ∧
      (AllClosed after t ↔ ∀ a s, st.socks a = some s → ¬s.Pending t) := by
  obtain ⟨transport, ht⟩ := Option.isSome_iff_exists.mp hlive
  have hw := (run_whole hr).scripted (script, .packet t p)
  have hb : Books { st with script } := (run_books hr).of_same (.of_eq rfl) rfl rfl rfl rfl
  obtain ⟨after, hrun, hafter⟩ := takeOffline_walked hw.graph hb ht
  have hpacket : handlePacket { st with script } t p =
      takeOffline { st with script } t >>= afterOffline t p :=
    handlePacket_takesOffline hp ht
  have htaken : takeOffline { st with script } t = .ok after := hrun
  refine ⟨after, htaken, ?_, hafter.allClosed_iff⟩
  rw [hpacket, htaken]
  rfl

def resetPacket : Packet := ⟨A_SYNC, 0, 0, [], []⟩

def waits (st : Server) (t : Nat) : Bool :=
  (List.range st.nextSocket).any fun a => (st.socks a).any fun s =>
    s.ops.isLocal && !s.closing && s.peer.isNone && s.transport = some t

set_option maxRecDepth 8000 in
-- The shell is there when the transport goes.
theorem offline_closes_a_shell :
    ∃ st after, run step serverInit shellStarted = .ok st ∧
      takeOffline { st with script := silent } 0 = .ok after ∧ AllClosed after 0 := by
  obtain ⟨st, hrun, hboth⟩ := exists_of_any (x := run step serverInit shellStarted)
    (p := fun st => (st.transports 0).isSome && !waits st 0) (by decide)
  rw [Bool.and_eq_true, Bool.not_eq_true'] at hboth
  obtain ⟨hlive, hwaits⟩ := hboth
  obtain ⟨after, hafter, -, hiff⟩ := offline_closes_iff shellStarted st hrun silent 0 resetPacket
    (Or.inl ⟨rfl, rfl⟩) hlive
  refine ⟨st, after, hrun, hafter, hiff.mpr fun a s hs hpending => ?_⟩
  obtain ⟨hlocal, hopen, halone, htransport⟩ := hpending
  have hlt : a < st.nextSocket := by
    by_contra hge
    rw [(run_whole hrun).graph.owners.fresh a (by omega)] at hs
    cases hs
  have hall : waits st 0 = true := by
    unfold waits
    rw [List.any_eq_true]
    exact ⟨a, List.mem_range.mpr hlt, by simp [hs, hlocal, hopen, halone, htransport]⟩
  rw [hwaits] at hall
  cases hall

set_option maxRecDepth 8000 in
-- The shell has been asked for, and the device has not answered yet.
theorem offline_leaves_a_client :
    ¬ ∀ (inputs : List (Script × Input)) (st : Server), run step serverInit inputs = .ok st →
      ∀ (script : Script) (t : Nat) (p : Packet), TakesOffline st t p →
        ∀ after, takeOffline { st with script } t = .ok after → AllClosed after t := by
  intro h
  obtain ⟨st, hrun, hleft⟩ := exists_of_any (x := run step serverInit shellRequest)
    (p := fun st => (takeOffline { st with script := silent } 0).toOption.any fun after =>
      (after.socks 0).any fun s =>
        s.ops.isLocal && !s.closing && s.peer.isNone && s.transport = some 0)
    (by decide)
  rw [Option.any_eq_true] at hleft
  obtain ⟨after, hafter, hleft⟩ := hleft
  rw [Option.any_eq_true] at hleft
  obtain ⟨s, hs, hwaits⟩ := hleft
  have hclosed := h shellRequest st hrun silent 0 resetPacket (Or.inl ⟨rfl, rfl⟩) after
    (ok_of_toOption hafter)
  apply hclosed.waiting 0 s hs
  simp only [Bool.and_eq_true, Bool.not_eq_true', Option.isNone_iff_eq_none,
    decide_eq_true_eq] at hwaits
  exact ⟨hwaits.1.1.1, hwaits.1.1.2, hwaits.1.2, hwaits.2⟩

end Closing

end Adb.Host
