import Adb.Host.Events
import Adb.Lib.Cursor

namespace Adb.Host

open Adb.Lib
open Adb.Transport (ConnectionState TransportType)

variable {st mid after : Server} {a b l p t : Nat} {s q s' : ASocket} {B : Prop}

section Lookup

theorem benign_endless : Benign .endless := by simp [Benign]

-- The walk follows the list as far as it goes.
theorem walkList_ensures {xs : List Nat} {node : SRef} (fuel : Nat)
    (h : st.links.Linked node (xs.map .socket) .socketList) :
    Ensures (walkList st .socketList fuel (st.links.next node)) (fun found => found = xs) Benign := by
  induction xs generalizing node fuel with
  | nil =>
      rw [h.1]
      cases fuel with
      | zero => exact benign_endless
      | succ fuel => rfl
  | cons x xs ih =>
      rw [h.1]
      cases fuel with
      | zero => exact benign_endless
      | succ fuel =>
          unfold walkList
          refine (deref_ensures st x).bind fun s _ => ?_
          refine (ih fuel h.2.2).bind ?_
          rintro found rfl
          rfl

theorem localSockets_ensures {xs ys : List Nat} (h : Lists st xs ys) :
    Ensures (localSockets st) (fun found => found = xs) Benign :=
  walkList_ensures _ h.listed.1

-- Only a local socket that is not closing is found by its id.
structure Found (st : Server) (id : UInt32) (a : Nat) (s : ASocket) : Prop where
  live : st.socks a = some s
  islocal : s.ops.isLocal = true
  closing : s.closing = false
  id_eq : s.id = id

theorem findLocalSocket_ensures (h : Graph st) (id : UInt32) :
    Ensures (findLocalSocket st id)
      (fun found => ∀ a, found = some a → ∃ s, Found st id a s) Benign := by
  obtain ⟨xs, ys, hl⟩ := h.lists
  unfold findLocalSocket
  refine (localSockets_ensures hl).bind ?_
  rintro _ rfl a ha
  obtain ⟨s, hs, hlocal, hclosing⟩ := (hl.mem_listed a).mp (List.mem_of_find?_eq_some ha)
  have hid := List.find?_some ha
  exact ⟨s, hs, hlocal, hclosing, by simpa [hs] using hid⟩

end Lookup

section Transports

theorem Graph.tracker_mem (h : Graph st) (ha : a ∈ st.deviceTrackerList) :
    ∃ s, st.socks a = some s ∧ s.ops = .deviceTracker := by
  have hrole := (h.owners.trackers a).mp ha
  unfold roleOf at hrole
  split at hrole
  · cases hrole
  · rename_i s hs
    refine ⟨s, hs, ?_⟩
    split at hrole <;> simp_all

theorem updateFrom_ensures (buffer : Bytes) (fuel : Nat) (tracker : Option Nat) (h : Graph st) :
    Ensures (updateFrom buffer fuel tracker st) (Moves B st) Benign := by
  induction fuel generalizing tracker st with
  | zero =>
      cases tracker with
      | none => exact Moves.refl st
      | some a => exact benign_endless
  | succ fuel ih =>
      cases tracker with
      | none => exact Moves.refl st
      | some a =>
          unfold updateFrom
          cases hdrop : st.deviceTrackerList.dropWhile (· ≠ a) with
          | nil => exact benign_useAfterFree
          | cons head rest =>
              obtain ⟨-, ha⟩ := dropWhile_here hdrop
              obtain ⟨s, hs, hops⟩ := h.tracker_mem ha
              refine (deviceTrackerSend_ensures (B := B) (enqueueWithin_local 1) h hs hops
                buffer).bind ?_
              rintro ⟨r, mid⟩ ⟨p, peer, -, -, hr⟩
              exact (ih rest.head? hr.graph).weaken fun after hm => hr.moves.trans hm

theorem updateTransports_ensures (h : Graph st) :
    Ensures (updateTransports st) (Moves B st) Benign := by
  unfold updateTransports
  exact (listTransportsMsg_benign st).bind fun buffer _ => updateFrom_ensures buffer _ _ h

theorem roleOf_eq_remote {o : Option ASocket} {t : Option Nat} (h : roleOf o = some (.remote t)) :
    ∃ s, o = some s ∧ s.ops = .remoteSocket := by
  unfold roleOf at h
  split at h
  · cases h
  · rename_i s
    refine ⟨s, rfl, ?_⟩
    split at h <;> simp_all

theorem disconnectsFrom_ensures (t fuel : Nat) (dis : Option Disconnect) (h : Graph st) :
    Ensures (disconnectsFrom t fuel dis st) (Moves B st) Benign := by
  induction fuel generalizing dis st with
  | zero =>
      cases dis with
      | none => exact Moves.refl st
      | some dis => exact benign_endless
  | succ fuel ih =>
      cases dis with
      | none => exact Moves.refl st
      | some dis =>
          unfold disconnectsFrom
          refine (derefTransport_ensures st t).bind fun transport ht => ?_
          cases hdrop : transport.disconnects.dropWhile (· ≠ dis) with
          | nil => exact benign_useAfterFree
          | cons head rest =>
              obtain ⟨-, hmem⟩ := dropWhile_here hdrop
              have hone : Ensures (runDisconnect st dis) (Moves B st) Benign := by
                cases dis with
                | remote a =>
                    obtain ⟨s, hs, hops⟩ :=
                      roleOf_eq_remote (h.owners.disconnects t transport a ht hmem)
                    exact (remoteSocketDisconnect_spec h hs hops 2).weaken
                      fun after hc => (hc.ended hs (by simp [hops])).moves
                | listener l => exact (freeListener_calm st l).weaken fun after hc => hc.moves h
              refine hone.bind fun mid hm => ?_
              exact (ih rest.head? (hm.graph h)).weaken fun after hm' => hm.trans hm'

theorem runTransportDisconnects_ensures (h : Graph st) (t : Nat) :
    Ensures (runTransportDisconnects st t) (Moves B st) Benign := by
  unfold runTransportDisconnects
  exact (derefTransport_ensures st t).bind fun transport _ => disconnectsFrom_ensures t _ _ h

theorem putTransport_moves {transport : ATransport} (other : ATransport) (h : Graph st)
    (ht : st.transports t = some transport) (hdis : other.disconnects = transport.disconnects) :
    Moves B st (st.putTransport t other) :=
  (calm_putTransport other ht hdis).moves h

theorem handleOnline_ensures (h : Graph st) (t : Nat) :
    Ensures (handleOnline st t) (Moves B st) Benign := by
  unfold handleOnline
  refine (derefTransport_ensures st t).bind fun transport ht => ?_
  exact putTransport_moves { transport with online := true } h ht rfl

theorem handleOffline_ensures (h : Graph st) (t : Nat) :
    Ensures (handleOffline st t) (Moves B st) Benign := by
  unfold handleOffline
  refine (derefTransport_ensures st t).bind fun transport ht => ?_
  have hc := calm_putTransport { transport with online := false } ht rfl
  exact (runTransportDisconnects_ensures (B := B) (hc.graph h) t).weaken
    fun after hm => (hc.moves h).trans hm

theorem setConnectionState_ensures (h : Graph st) (t : Nat) (state : ConnectionState) :
    Ensures (setConnectionState st t state) (Moves B st) Benign := by
  unfold setConnectionState
  refine (derefTransport_ensures st t).bind fun transport ht => ?_
  exact putTransport_moves { transport with connectionState := state } h ht rfl

theorem setProperty_disconnects (transport : ATransport) (token : Bytes) :
    (setProperty transport token).disconnects = transport.disconnects := by
  unfold setProperty
  split
  · rfl
  · simp only
    repeat' split
    all_goals rfl

-- What no property is about is left by all of them.
theorem setProperties_keeps {α : Type} (f : ATransport → α)
    (hf : ∀ transport token, f (setProperty transport token) = f transport) (transport : ATransport)
    (banner : Bytes) : f (setProperties transport banner) = f transport := by
  have hfold : ∀ (tokens : List Bytes) (transport : ATransport),
      f (tokens.foldl setProperty transport) = f transport := by
    intro tokens
    induction tokens with
    | nil => exact fun _ => rfl
    | cons token tokens ih =>
        intro transport
        rw [List.foldl_cons, ih, hf]
  exact hfold _ transport

theorem setProperties_disconnects (transport : ATransport) (banner : Bytes) :
    (setProperties transport banner).disconnects = transport.disconnects :=
  setProperties_keeps (·.disconnects) setProperty_disconnects transport banner

theorem parseBanner_ensures (h : Graph st) (t : Nat) (buffer : Bytes) :
    Ensures (parseBanner st t buffer) (Moves B st) Benign := by
  unfold parseBanner
  refine (derefTransport_ensures st t).bind fun transport ht => ?_
  have hdis := setProperties_disconnects transport (buffer.takeWhile (· ≠ 0))
  simp only
  split
  · rename_i state _
    have hm := putTransport_moves (B := B)
      { setProperties transport (buffer.takeWhile (· ≠ 0)) with connectionState := state }
      h ht hdis
    exact (updateTransports_ensures (B := B) (hm.graph h)).weaken
      fun after hm' => hm.trans hm'
  · exact putTransport_moves
      { setProperties transport (buffer.takeWhile (· ≠ 0)) with connectionState := .host }
      h ht hdis

-- A packet of the protocol that carries no data of a socket.
theorem sendPacket_moves (h : Graph st) (t : Option Nat) {message : Message}
    (hm : message.command ≠ A_WRTE) :
    Ensures (st.sendPacket t message none) (Moves B st) Benign := by
  refine (sendPacket_ensures st t message none).weaken ?_
  rintro _ ⟨t', -, rfl⟩
  exact Moves.note h hm

theorem handleSync_ensures (h : Graph st) (t : Nat) (packet : Packet) :
    Ensures (handleSync st t packet) (Moves B st) Benign := by
  have hsync : (A_SYNC : UInt32) ≠ A_WRTE := by decide
  unfold handleSync
  simp only
  split
  · refine (sendPacket_moves (B := B) h (some t) hsync).bind fun mid hm => ?_
    refine (sendPacket_moves (B := B) (hm.graph h) (some t) ?_).weaken
      fun after hm' => hm.trans hm'
    decide
  · refine (setConnectionState_ensures (B := B) h t .offline).bind fun first h1 => ?_
    refine (handleOffline_ensures (B := B) (h1.graph h) t).bind fun second h2 => ?_
    exact (sendPacket_moves (B := B) (h2.graph (h1.graph h)) (some t) hsync).weaken
      fun after h3 => (h1.trans h2).trans h3

theorem handleConnect_ensures (h : Graph st) (t : Nat) (packet : Packet) :
    Ensures (handleConnect st t packet) (Moves B st) Benign := by
  unfold handleConnect
  refine (derefTransport_ensures st t).bind fun transport _ => ?_
  refine Ensures.bind (m := Moves B st) ?_ fun first h1 => ?_
  · split
    · refine (setConnectionState_ensures (B := B) h t .offline).bind fun mid hm => ?_
      exact (handleOffline_ensures (B := B) (hm.graph h) t).weaken
        fun after hm' => hm.trans hm'
    · exact Moves.refl st
  · have hg1 := h1.graph h
    refine (parseBanner_ensures (B := B) hg1 t _).bind fun second h2 => ?_
    exact (handleOnline_ensures (B := B) (h2.graph hg1) t).weaken
      fun after h3 => (h1.trans h2).trans h3

end Transports

section Streams

theorem createLocalServiceSocket_ensures (h : Graph st) (name : Bytes) :
    Ensures (createLocalServiceSocket st name) (fun result =>
      match result.1 with
      | none => Calm st result.2
      | some a => ∃ mid s, Calm st mid ∧ a = mid.nextSocket ∧ NewLocal mid s result.2) Benign := by
  unfold createLocalServiceSocket
  refine Ensures.bind (m := fun r => Calm st r.2) ?_ ?_
  · unfold serviceToFd
    split
    · exact openFd_calm st
    · exact Calm.refl st
  · rintro ⟨fd, mid⟩ hc
    cases fd with
    | none => exact hc
    | some fd =>
        refine (createLocalSocket_ensures (hc.graph h) (some fd)).bind ?_
        rintro ⟨a, after⟩ ⟨ha, s, hn⟩
        exact ⟨mid, s, hc, ha, hn⟩

theorem handleOpen_ensures (h : Graph st) (t : Nat) (packet : Packet) :
    Ensures (handleOpen st t packet) (Moves B st) Benign := by
  have hclose : (A_CLSE : UInt32) ≠ A_WRTE := by decide
  have hokay : (A_OKAY : UInt32) ≠ A_WRTE := by decide
  unfold handleOpen
  simp only
  refine (createLocalServiceSocket_ensures h _).bind ?_
  rintro ⟨found, born⟩ hborn
  cases found with
  | none =>
      have hc : Calm st born := hborn
      exact (sendPacket_moves (B := B) (hc.graph h) (some t) hclose).weaken
        fun after hm => (hc.moves h).trans hm
  | some a =>
      obtain ⟨mid, s, hc, rfl, hn⟩ := hborn
      simp only at hn ⊢
      have hs : born.socks mid.nextSocket = some s := by rw [hn.becomes.socks]; simp
      have hlocal : s.ops.isLocal = true := by rw [hn.ops]; rfl
      refine (attachRemote_ensures hn.graph.base hs hlocal packet.arg0 t).bind fun attached ha => ?_
      have hb := ha.becomes
      have hsa : attached.socks mid.nextSocket = some { s with peer := some born.nextSocket } := by
        rw [hb.socks, Function.update_self]
      refine (ensures_bind_ok (Server.deref_some hsa)).mpr ?_
      unfold sendReady
      refine (sendPacket_ensures _ _ _ _).bind ?_
      rintro _ ⟨t', -, rfl⟩
      have hsn : ∀ e e', ((attached.note e).note e').socks mid.nextSocket =
          some { s with peer := some born.nextSocket } := fun _ _ => hsa
      rw [ready_local (hsn _ _) hn.ops, localSocketReady_eq (hsn _ _)]
      refine ((hc.moves h).trans hn.moves).trans (Move.moves ?_)
      refine ha.move hn.graph hs hlocal hn.closing hn.peer (.opened mid.nextSocket)
        [.sent t' ⟨A_OKAY, s.id, packet.arg0, []⟩ none] ?_ rfl rfl rfl rfl ?_
        (fun _ hm => hm) (Or.inl rfl) (by simp [hn.ops]) ?_
      · simp [Server.put, Server.note, ASocket.awake, hn.ops]
      · simp [Server.put, Server.note]
      · intro _ e he
        rw [List.mem_singleton.mp he]
        exact hokay

-- What A_OKAY does to the socket it names.
theorem okayFound_ensures (h : Graph st) {id : UInt32} (hf : Found st id a s) (arg0 : UInt32)
    (t : Nat) :
    Ensures (do
        let st ← match s.peer with
          | none => attachRemote st a arg0 t
          | some _ => pure st
        ready (st.note (.okayed a)) a) (Move B st) Benign := by
  cases hp : s.peer with
  | none =>
      refine (attachRemote_ensures h.base hf.live hf.islocal arg0 t).bind fun mid ha => ?_
      exact okayAttached_ensures ha h hf.live hf.islocal hf.closing hp
  | some p =>
      have hops : s.ops = .localSocket := by
        have hn := h.peers.not_notify hf.live (by simp [hp])
        have hl := hf.islocal
        cases hops : s.ops <;> simp_all [Ops.isLocal]
      refine (ensures_bind_ok (a := st) rfl).mpr ?_
      have hs : (st.note (.okayed a)).socks a = some s := hf.live
      simp only
      rw [ready_local hs hops, localSocketReady_eq hs]
      refine ⟨.okay a p s hf.live hp ⟨rfl, rfl, rfl, fun _ hm => hm⟩, ?_⟩
      exact (h.note _).put_local hs hf.islocal rfl rfl rfl
        (fun hc => absurd (hf.closing.symm.trans hc) (by simp))

theorem handleOkay_ensures (h : Graph st) (t : Nat) (packet : Packet) :
    Ensures (handleOkay st t packet) (Moves B st) Benign := by
  unfold handleOkay
  refine (findLocalSocket_ensures h packet.arg1).bind fun found hfound => ?_
  cases found with
  | none => exact Moves.refl st
  | some a =>
      obtain ⟨s, hf⟩ := hfound a rfl
      refine (ensures_bind_ok (Server.deref_some hf.live)).mpr ?_
      exact (okayFound_ensures (B := B) h hf packet.arg0 t).weaken fun after hm => hm.moves

theorem handleClose_ensures (h : Graph st) (packet : Packet) :
    Ensures (handleClose st packet) (Moves B st) Benign := by
  unfold handleClose
  refine (findLocalSocket_ensures h packet.arg1).bind fun found hfound => ?_
  cases found with
  | none => exact Moves.refl st
  | some a =>
      obtain ⟨s, hf⟩ := hfound a rfl
      exact (close_ensures h hf.live).weaken fun after he => he.moves

theorem handleWrite_ensures (h : Graph st) (t : Nat) (packet : Packet) :
    Ensures (handleWrite st t packet) (Moves B st) Benign := by
  unfold handleWrite
  refine (findLocalSocket_ensures h packet.arg1).bind fun found hfound => ?_
  cases found with
  | none => exact Moves.refl st
  | some a =>
      obtain ⟨s, hf⟩ := hfound a rfl
      simp only
      rw [enqueue_local hf.live hf.islocal]
      refine (localSocketEnqueue_ensures (B := B) h hf.live hf.islocal packet.payload).bind ?_
      rintro ⟨r, mid⟩ hr
      have hm : Moves B st mid := hr.moves
      simp only
      split
      · refine (deref_ensures mid a).bind fun s' _ => ?_
        have hokay : (A_OKAY : UInt32) ≠ A_WRTE := by decide
        exact (sendPacket_moves (B := B) hr.graph (some t) hokay).weaken
          fun after hm' => hm.trans hm'
      · exact hm

theorem handlePacket_ensures (h : Graph st) (t : Nat) (packet : Packet) :
    Ensures (handlePacket st t packet) (Moves B st) Benign := by
  unfold handlePacket
  refine (derefTransport_ensures st t).bind fun transport _ => ?_
  split
  · exact handleSync_ensures h t packet
  · split
    · exact handleConnect_ensures h t packet
    · split
      · exact Moves.refl st
      · split
        · exact handleOpen_ensures h t packet
        · split
          · exact handleOkay_ensures h t packet
          · split
            · exact handleClose_ensures h packet
            · split
              · exact handleWrite_ensures h t packet
              · exact Moves.refl st

end Streams

section Steps

theorem acceptClient_ensures (h : Graph st) (l : Nat) :
    Ensures (acceptClient st l) (Moves B st) Benign := by
  unfold acceptClient
  refine (derefListener_benign st l).bind fun listener _ => ?_
  obtain ⟨opened, hopened⟩ : ∃ opened : Server, opened = { st with nextFd := st.nextFd + 1 } := ⟨_, rfl⟩
  have hc : Calm st opened := by
    rw [hopened]
    exact calm_of_eq rfl rfl rfl rfl rfl rfl rfl rfl
  simp only [← hopened]
  refine (createLocalSocket_ensures (hc.graph h) _).bind ?_
  rintro ⟨a, mid⟩ ⟨rfl, s, hn⟩
  simp only at hn ⊢
  split
  · exact (client_ensures (B := B) hn).weaken fun after hm => (hc.moves h).trans hm.moves
  · have hs : mid.socks opened.nextSocket = some s := by rw [hn.becomes.socks]; simp
    have hlocal : s.ops.isLocal = true := by rw [hn.ops]; rfl
    refine (ensures_bind_ok (Server.deref_some hs)).mpr ?_
    obtain ⟨s', hs'⟩ : ∃ s' : ASocket, s' = { s with transport := listener.transport } := ⟨_, rfl⟩
    rw [← hs']
    have hput : Moves B mid (mid.put opened.nextSocket s') := by
      refine Moves.tend hn.graph hs ⟨by rw [hs'], by rw [hs'], by rw [hs'], fun hw => ?_, fun _ hr => ?_⟩
        ((roleOf_local (by rw [hs']; exact hlocal)).trans (roleOf_local hlocal).symm)
        (fun hclosing => absurd (hn.closing.symm.trans hclosing) (by simp))
      · rw [hs'] at hw
        exact hw
      · rw [hs']
        exact hr
    refine (connectToRemote_ensures (s := s') (by simp [Server.put]) _).weaken ?_
    rintro _ ⟨t, m, rfl, hm⟩
    refine (((hc.moves h).trans hn.moves).trans hput).trans (Moves.note (hput.graph hn.graph) ?_)
    simp [Event.IsPlain, hm, A_OPEN, A_WRTE]

-- The new transport knows of no remote socket.
theorem Graph.register (h : Graph st) (transport : ATransport) (hd : transport.disconnects = []) :
    Graph { st.putTransport st.nextTransport transport with
      transportList := st.transportList ++ [st.nextTransport]
      nextTransport := st.nextTransport + 1 } := by
  have hother : ∀ t other, Function.update st.transports st.nextTransport (some transport) t = some other →
      (other.disconnects = [] ∨ st.transports t = some other) := by
    intro t other ht
    by_cases hne : t = st.nextTransport
    · subst hne
      rw [Function.update_self, Option.some.injEq] at ht
      exact Or.inl (ht ▸ hd)
    · rw [Function.update_of_ne hne] at ht
      exact Or.inr ht
  have hlists : ∃ xs ys, Lists { st.putTransport st.nextTransport transport with
      transportList := st.transportList ++ [st.nextTransport]
      nextTransport := st.nextTransport + 1 } xs ys := by
    obtain ⟨xs, ys, hl⟩ := h.lists
    exact ⟨xs, ys, hl.of_places rfl fun _ => rfl⟩
  refine ⟨hlists, h.peers, h.owners.fresh, h.owners.trackers, h.owners.trackers_once, ?_, ?_⟩
  · intro t other a ht hm
    rcases hother t other ht with hempty | hold
    · rw [hempty] at hm
      cases hm
    · exact h.owners.disconnects t other a hold hm
  · intro t other a ht
    rcases hother t other ht with hempty | hold
    · rw [hempty]
      simp
    · exact h.owners.disconnects_once t other a hold

theorem registerTransport_ensures (h : Graph st) (transport : ATransport)
    (hd : transport.disconnects = []) :
    Ensures (registerTransport st transport) (Moves B st) Benign := by
  have hgraph := h.register transport hd
  have hmove : Move B st { st.putTransport st.nextTransport transport with
      transportList := st.transportList ++ [st.nextTransport]
      nextTransport := st.nextTransport + 1 } :=
    ⟨.quiet [] (by simp) ⟨rfl, rfl, by simp [Server.putTransport], fun _ hm => hm⟩, hgraph⟩
  unfold registerTransport
  exact (updateTransports_ensures (B := B) hgraph).weaken fun after hm => hmove.moves.trans hm

theorem calm_removed (st : Server) (t : Nat) :
    Calm st { st with transports := Function.update st.transports t none } := by
  refine ⟨rfl, rfl, rfl, rfl, ?_, rfl, rfl, rfl⟩
  intro u other hu
  by_cases hut : u = t
  · simp [hut] at hu
  · exact ⟨other, by simpa [hut] using hu, fun _ => Nat.le_refl _⟩

theorem calm_delisted (st : Server) (ts : List Nat) : Calm st { st with transportList := ts } :=
  calm_of_eq rfl rfl rfl rfl rfl rfl rfl rfl

theorem removeTransport_ensures (h : Graph st) (t : Nat) :
    Ensures (removeTransport st t) (Moves B st) Benign := by
  unfold removeTransport
  refine (derefTransport_ensures st t).bind fun transport _ => ?_
  have hc := calm_delisted st (st.transportList.erase t)
  refine (runTransportDisconnects_ensures (B := B) (hc.graph h) t).bind fun mid hm => ?_
  have hgm := hm.graph (hc.graph h)
  have hfree := calm_removed mid t
  exact (updateTransports_ensures (B := B) (hfree.graph hgm)).weaken
    fun after hm' => ((hc.moves h).trans hm).trans ((hfree.moves hgm).trans hm')

-- A socket of the transport still waits for its status and has nothing left to
-- write, so closing it past local_socket_close_notify loses the status.
def losesStatus (st : Server) (t : Nat) (a : Nat) : Bool :=
  (st.socks a).any fun s => s.ops = .localSocketNotify ∧ s.closing = false ∧ s.transport = some t ∧
    s.pkts = []

theorem closeAllFrom_ensures (t fuel : Nat) (h : Graph st)
    (hb : ∀ a, losesStatus st t a = true → B) :
    Ensures (closeAllFrom t fuel st) (Moves B st) Benign := by
  induction fuel generalizing st with
  | zero => exact benign_endless
  | succ fuel ih =>
      obtain ⟨xs, ys, hl⟩ := h.lists
      unfold closeAllFrom
      refine (localSockets_ensures hl).bind ?_
      rintro _ rfl
      simp only
      split
      · exact Moves.refl st
      · rename_i a hfind
        obtain ⟨s, hs, hlocal, hclosing⟩ := (hl.mem_listed a).mp (List.mem_of_find?_eq_some hfind)
        have hbound := List.find?_some hfind
        refine (closeLocked_spec h hs hlocal 2).bind fun mid hc => ?_
        have hmove : Move B st mid := by
          refine ⟨.closed a s hs (fun hn => ?_) hc, hc.graph⟩
          by_cases hpkts : s.pkts = []
          · have hnone := h.peers.notify a s hs hn
            have ht : s.transport = some t := by simpa [hs, hnone] using hbound
            exact Or.inr (hb a (by simp [losesStatus, hs, hn, hclosing, ht, hpkts]))
          · exact Or.inl ⟨hclosing, hpkts⟩
        refine (ih hc.graph ?_).weaken fun after hm => hmove.moves.trans hm
        -- whoever waits now has waited before
        intro b hlost
        refine hb b ?_
        have hfate : ∀ x : ASocket, fate x = none ∨ ∃ y, fate x = some y ∧ y.closing = true := by
          intro x
          unfold fate
          split
          · exact Or.inr ⟨_, rfl, rfl⟩
          · exact Or.inl rfl
        unfold losesStatus at hlost ⊢
        rw [hc.socks] at hlost
        by_cases hba : b = a
        · rw [hba, Function.update_self] at hlost
          rcases hfate s with hf | ⟨y, hf, hy⟩ <;> simp_all
        · rw [Function.update_of_ne hba] at hlost
          cases hp : s.peer with
          | none => simpa [severed, hp] using hlost
          | some p =>
              rw [hp] at hlost
              by_cases hbp : b = p
              · subst hbp
                cases hq : st.socks b with
                | none => simp [severed, hq] at hlost
                | some q => rcases hfate q with hf | ⟨y, hf, hy⟩ <;> simp_all [severed]
              · simpa [severed, hbp] using hlost

-- The only way around local_socket_close_notify.
def bypassesNotify (st : Server) : Input → Bool
  | .closeAll t => (List.range st.nextSocket).any (losesStatus st t)
  | _ => false

-- The only way to a null peer.
def drainsUnconnected (st : Server) (writes : List WriteOutcome) : Input → Bool
  | .callback a => (fdeventOwner st a).any fun s => (fdeventDequeue s.fde).any fun (events, _) =>
      firesWrite events && decide (DrainsUnconnected s writes)
  | _ => false

-- The fdevent of a local socket that is not closing is as it should be.
def ASocket.Sound (s : ASocket) : Prop :=
  s.ops.isLocal = true → s.closing = false → s.fde.ReadSound

def Sound (st : Server) : Prop :=
  ∀ a s, st.socks a = some s → s.Sound

theorem localSocketEventFunc_ensures (h : Graph st) (events : BitVec 16) (hs : st.socks a = some s)
    (hlocal : s.ops.isLocal = true) (hquiet : s.fde.events = 0)
    (hwants : firesRead events = true → s.closing = false → s.fde.wantsRead = true) :
    Ensures (localSocketEventFunc st a events) (Moves B st) (fun stop => Benign stop ∨
      (stop = .nullPeer .eventFunc ∧ firesWrite events = true ∧
        DrainsUnconnected s st.script.writes)) := by
  unfold localSocketEventFunc
  have hwrite : Ensures (if firesWrite events then eventWrite st a else pure (true, st))
      (WriteDone B st a (firesRead events = true)) (fun stop => Benign stop ∨
        (stop = .nullPeer .eventFunc ∧ firesWrite events = true ∧
          DrainsUnconnected s st.script.writes)) := by
    split
    · rename_i hfires
      refine (eventWrite_ensures h hs hlocal hquiet hwants).mono fun stop hstop => ?_
      exact hstop.imp_right fun hnull => ⟨hnull.1, hfires, hnull.2⟩
    · refine ⟨Moves.refl st, h, fun _ hfires => ?_, fun _ s' hs' => ?_⟩
      · intro s' p q hs' hp _ _
        rw [hs, Option.some.injEq] at hs'
        subst hs'
        refine ⟨hquiet, hwants hfires ?_⟩
        by_contra hc
        have hnone := (h.peers.parked a s hs (by simpa using hc)).2.1
        rw [hp] at hnone
        cases hnone
      · rw [hs, Option.some.injEq] at hs'
        exact hs' ▸ hlocal
  refine hwrite.bind ?_
  rintro ⟨goOn, mid⟩ hdone
  simp only
  split
  · rename_i hgo
    have hread := eventRead_ensures (B := B) hdone.graph
      (hdone.poised hgo.1 hgo.2) (hdone.islocal hgo.1)
    exact (hread.weaken fun after hm => hdone.moves.trans hm).mono fun stop hstop => Or.inl hstop
  · exact hdone.moves

theorem benign_disabled : Benign .disabled := by simp [Benign]

theorem fdeventOwner_eq_some (h : fdeventOwner st a = some s) :
    st.socks a = some s ∧ s.ops.isLocal = true :=
  Option.filter_eq_some_iff.mp h

theorem Moves.fdevent (h : Graph st) (hs : st.socks a = some s) (hlocal : s.ops.isLocal = true)
    {fde : Fdevent} (hwants : fde.wantsRead = s.fde.wantsRead)
    (hsound : s.closing = false → fde.ReadSound) : Moves B st (st.put a { s with fde }) :=
  Moves.tend h hs ⟨rfl, rfl, rfl, fun hw => hwants ▸ hw, fun hc _ => hsound hc⟩
    ((roleOf_local hlocal).trans (roleOf_local (s := s) hlocal).symm)
    fun hc => (h.peers.parked a s hs hc).2.2

theorem readSound_quiet {fde : Fdevent} (h : fde.events = 0) : fde.ReadSound := by
  intro hf
  simp [firesRead, h] at hf

-- What a step comes to, whatever the input.
theorem handle_ensures (h : Graph st) (hsound : Sound st) (input : Input) :
    Ensures (handle st input) (Moves (bypassesNotify st input = true) st) (fun stop => Benign stop ∨
      (stop = .nullPeer .eventFunc ∧ drainsUnconnected st st.script.writes input = true)) := by
  have hmild : ∀ {x : Except Stop Server} {good : Server → Prop}, Ensures x good Benign →
      Ensures x good (fun stop => Benign stop ∨
        (stop = .nullPeer .eventFunc ∧ drainsUnconnected st st.script.writes input = true)) :=
    fun hx => hx.mono fun stop hstop => Or.inl hstop
  cases input with
  | packet t packet =>
      simp only [handle]
      split
      · exact hmild (handlePacket_ensures h t packet)
      · exact Or.inl benign_disabled
  | accept l =>
      simp only [handle]
      split
      · exact hmild (acceptClient_ensures h l)
      · exact Or.inl benign_disabled
  | signal a =>
      simp only [handle]
      cases howner : fdeventOwner st a with
      | none => exact Or.inl benign_disabled
      | some s =>
          obtain ⟨hs, hlocal⟩ := fdeventOwner_eq_some howner
          simp only
          cases hsignal : eventHookSignal s.fde with
          | none => exact Or.inl benign_disabled
          | some fde =>
              refine Moves.fdevent h hs hlocal ?_ ?_
              · unfold eventHookSignal at hsignal
                simp only at hsignal
                split at hsignal
                · cases hsignal
                · cases hsignal
                  simp [Fdevent.wantsRead, FDE_PENDING]
              · exact fun hc => (Fdevent.signal_spec (hsound a s hs hlocal hc) hsignal).2
  | callback a =>
      simp only [handle]
      cases howner : fdeventOwner st a with
      | none => exact Or.inl benign_disabled
      | some s =>
          obtain ⟨hs, hlocal⟩ := fdeventOwner_eq_some howner
          simp only
          cases hdequeue : fdeventDequeue s.fde with
          | none => exact Or.inl benign_disabled
          | some taken =>
              obtain ⟨events, fde⟩ := taken
              have hfde : fde.wantsRead = s.fde.wantsRead ∧ fde.events = 0 := by
                unfold fdeventDequeue at hdequeue
                split at hdequeue
                · cases hdequeue
                  exact ⟨by simp [Fdevent.wantsRead, FDE_PENDING], rfl⟩
                · cases hdequeue
              have hput := Moves.fdevent (B := bypassesNotify st (.callback a) = true) h hs hlocal
                hfde.1 fun _ => readSound_quiet hfde.2
              have hcallback := localSocketEventFunc_ensures
                (B := bypassesNotify st (.callback a) = true) (hput.graph h)
                events (a := a) (s := { s with fde }) (by simp [Server.put]) hlocal
                hfde.2 ?_
              · refine (hcallback.weaken fun after hm => hput.trans hm).mono fun stop hstop => ?_
                refine hstop.imp_right fun hnull => ⟨hnull.1, ?_⟩
                simp only [drainsUnconnected, howner, Option.any_some, hdequeue, hnull.2.1,
                  Bool.true_and, decide_eq_true_eq]
                exact hnull.2.2
              · intro hfires hc
                exact hfde.1.trans ((Fdevent.dequeue_spec (hsound a s hs hlocal hc) hdequeue).1 hfires)
  | register type adbPort serial devpath writeable =>
      exact hmild (registerTransport_ensures h _ rfl)
  | remove t =>
      simp only [handle]
      split
      · exact hmild (removeTransport_ensures h t)
      · exact Or.inl benign_disabled
  | closeAll t =>
      simp only [handle]
      split
      · refine hmild (closeAllFrom_ensures t _ h fun a hlost => ?_)
        have hlt : a < st.nextSocket := by
          by_contra hge
          rw [losesStatus, h.owners.fresh a (by omega)] at hlost
          simp at hlost
        simp only [bypassesNotify, List.any_eq_true, List.mem_range]
        exact ⟨a, hlt, hlost⟩
      · exact Or.inl benign_disabled

end Steps

end Adb.Host
