import Adb.Host.Peers

namespace Adb.Host

open Adb.Lib

-- What holds of the lists and the owners, whoever is connected to whom.
structure Base (st : Server) : Prop where
  lists : ∃ xs ys, Lists st xs ys
  owners : Owners st

theorem Graph.base {st : Server} (h : Graph st) : Base st := ⟨h.lists, h.owners⟩

variable {st after : Server} {a b p : Nat} {s peer : ASocket}

theorem roleOf_local {s : ASocket} (h : s.ops.isLocal = true) : roleOf (some s) = none := by
  unfold roleOf
  cases hops : s.ops <;> simp_all [Ops.isLocal]

theorem roleOf_alone {o : Option ASocket} (h : Alone o) : roleOf o = none := by
  cases o with
  | none => rfl
  | some s => exact roleOf_local (h s rfl).1

-- No transport has got to know of a remote socket.
def FewerDisconnects (st after : Server) : Prop :=
  ∀ t transport, after.transports t = some transport → ∃ old, st.transports t = some old ∧
    ∀ a, transport.disconnects.count (.remote a) ≤ old.disconnects.count (.remote a)

theorem FewerDisconnects.of_eq (h : after.transports = st.transports) :
    FewerDisconnects st after := by
  intro t transport ht
  exact ⟨transport, h ▸ ht, fun _ => Nat.le_refl _⟩

-- The roles decide what the owners have to know.
theorem Owners.of_roles (h : Owners st)
    (hfresh : ∀ a, after.nextSocket ≤ a → after.socks a = none)
    (htrackers : after.deviceTrackerList = st.deviceTrackerList)
    (hdis : FewerDisconnects st after)
    (hroles : ∀ a, roleOf (after.socks a) = roleOf (st.socks a)) : Owners after where
  fresh := hfresh
  trackers := by
    intro a
    rw [htrackers, hroles]
    exact h.trackers a
  trackers_once := htrackers ▸ h.trackers_once
  disconnects := by
    intro t transport a ht hm
    obtain ⟨old, ho, hcount⟩ := hdis t transport ht
    rw [hroles]
    refine h.disconnects t old a ho ?_
    rw [← List.count_pos_iff] at hm ⊢
    exact Nat.lt_of_lt_of_le hm (hcount a)
  disconnects_once := by
    intro t transport a ht
    obtain ⟨old, ho, hcount⟩ := hdis t transport ht
    exact Nat.le_trans (hcount a) (h.disconnects_once t old a ho)

theorem Owners.congr (h : Owners st) (hsocks : after.socks = st.socks)
    (hnext : after.nextSocket = st.nextSocket)
    (htrackers : after.deviceTrackerList = st.deviceTrackerList)
    (hdis : FewerDisconnects st after) : Owners after := by
  refine h.of_roles ?_ htrackers hdis ?_
  · intro a ha
    rw [hsocks]
    exact h.fresh a (hnext ▸ ha)
  · intro a
    rw [hsocks]

theorem Owners.relinked {links : Links SRef} {o : Option ASocket} {events : List Event}
    (h : Owners st) (hs : st.socks a = some s) (hlocal : s.ops.isLocal = true) (ho : roleOf o = none) :
    Owners (st.relinked links a o events) := by
  refine h.of_roles ?_ rfl (.of_eq rfl) ?_
  · intro c hc
    have hca : c ≠ a := by
      rintro rfl
      rw [h.fresh c hc] at hs
      cases hs
    simpa [Server.relinked, hca] using h.fresh c hc
  · intro c
    by_cases hca : c = a
    · subst hca
      simp [Server.relinked, ho, hs, roleOf_local hlocal]
    · simp [Server.relinked, hca]

-- A local socket that changes in place stays on its list.
theorem Lists.put {xs ys : List Nat} (h : Lists st xs ys) (hs : st.socks a = some s) {s' : ASocket}
    (hlocal : s'.ops.isLocal = s.ops.isLocal) (hc : s'.closing = s.closing) :
    Lists (st.put a s') xs ys where
  listed := h.listed
  closing := h.closing
  mem_listed := by
    intro b
    rw [h.mem_listed]
    by_cases hb : b = a
    · subst hb
      simp [OnList, Server.put, hs, hlocal, hc]
    · simp [OnList, Server.put, hb]
  mem_closing := by
    intro b
    rw [h.mem_closing]
    by_cases hb : b = a
    · subst hb
      simp [OnList, Server.put, hs, hlocal, hc]
    · simp [OnList, Server.put, hb]

theorem Base.put (h : Base st) (hs : st.socks a = some s) {s' : ASocket}
    (hlocal : s'.ops.isLocal = s.ops.isLocal) (hc : s'.closing = s.closing)
    (hrole : roleOf (some s') = roleOf (some s)) : Base (st.put a s') where
  lists := by
    obtain ⟨xs, ys, hl⟩ := h.lists
    exact ⟨xs, ys, hl.put hs hlocal hc⟩
  owners := by
    refine h.owners.of_roles ?_ rfl (.of_eq rfl) ?_
    · intro c hc
      have hca : c ≠ a := by
        rintro rfl
        rw [h.owners.fresh c hc] at hs
        cases hs
      simpa [Server.put, hca] using h.owners.fresh c hc
    · intro c
      by_cases hca : c = a
      · subst hca
        simp [Server.put, hs, hrole]
      · simp [Server.put, hca]

-- The end of a local socket whose peer pointer is clear.
theorem finish_base (h : Base st) (hs : st.socks a = some s) (hlocal : s.ops.isLocal = true)
    (hp : s.peer = none) :
    ∃ links, localSocketFinish st a = .ok (st.relinked links a (fate s) (fateLog a s)) ∧
      Base (st.relinked links a (fate s) (fateLog a s)) := by
  obtain ⟨xs, ys, hl⟩ := h.lists
  obtain ⟨links, xs', ys', he, hl'⟩ := localSocketFinish_eq hl hs hlocal hp
  exact ⟨links, he, ⟨xs', ys', hl'⟩, h.owners.relinked hs hlocal (roleOf_alone (alone_fate s))⟩

theorem fate_peer (s : ASocket) (o : Option Nat) : fate { s with peer := o } = fate s := rfl

theorem fateLog_peer (a : Nat) (s : ASocket) (o : Option Nat) :
    fateLog a { s with peer := o } = fateLog a s := rfl

theorem relinked_put (links : Links SRef) (x : ASocket) (o : Option ASocket) (es : List Event) :
    (st.put a x).relinked links a o es = st.relinked links a o es := by
  simp [Server.relinked, Server.put]

-- The pointer of a socket to its peer is cleared, and the socket ends.
theorem finish_cleared (h : Base st) (hs : st.socks a = some s) (hlocal : s.ops.isLocal = true) :
    ∃ links, localSocketFinish (st.put a { s with peer := none }) a =
        .ok (st.relinked links a (fate s) (fateLog a s)) ∧
      Base (st.relinked links a (fate s) (fateLog a s)) := by
  have hput : Base (st.put a { s with peer := none }) :=
    h.put hs rfl rfl (by rw [roleOf_local hlocal]; exact roleOf_local hlocal)
  obtain ⟨links, he, hb⟩ := finish_base hput (a := a) (s := { s with peer := none })
    (by simp [Server.put]) hlocal rfl
  rw [relinked_put, fate_peer, fateLog_peer] at he hb
  exact ⟨links, he, hb⟩

section Dispatch

variable {depth : Nat} {close : Server → Nat → Except Stop Server}

theorem closeWithin_local (hs : st.socks a = some s) (hops : s.ops = .localSocket) :
    closeWithin (depth + 1) st a = localSocketCloseLocked (closeWithin depth) st a := by
  simp only [closeWithin, Server.deref_some hs, bind, Except.bind, hops]

theorem closeWithin_notify (hs : st.socks a = some s) (hops : s.ops = .localSocketNotify) :
    closeWithin (depth + 1) st a = localSocketCloseNotify (closeWithin depth) st a := by
  simp only [closeWithin, Server.deref_some hs, bind, Except.bind, hops]

theorem closeWithin_remote (hs : st.socks a = some s) (hops : s.ops = .remoteSocket) :
    closeWithin (depth + 1) st a = remoteSocketClose (closeWithin depth) st a := by
  simp only [closeWithin, Server.deref_some hs, bind, Except.bind, hops]

theorem closeWithin_smart (hs : st.socks a = some s) (hops : s.ops = .smartSocket) :
    closeWithin (depth + 1) st a = smartSocketClose (closeWithin depth) st a := by
  simp only [closeWithin, Server.deref_some hs, bind, Except.bind, hops]

theorem closeWithin_tracker (hs : st.socks a = some s) (hops : s.ops = .deviceTracker) :
    closeWithin (depth + 1) st a = deviceTrackerClose (closeWithin depth) st a := by
  simp only [closeWithin, Server.deref_some hs, bind, Except.bind, hops]

theorem closeLocked_alone (hs : st.socks a = some s) (hp : s.peer = none) :
    localSocketCloseLocked close st a = localSocketFinish st a := by
  simp only [localSocketCloseLocked, Server.deref_some hs, bind, Except.bind, hp]

end Dispatch

-- A plain local peer ends when it is closed.
theorem closePeer_local (h : Base st) (hs : st.socks p = some peer)
    (hops : peer.ops = .localSocket) (depth : Nat) :
    ∃ links, closePeer (closeWithin (depth + 1)) st p =
        .ok (st.relinked links p (fate peer) (fateLog p peer)) ∧
      Base (st.relinked links p (fate peer) (fateLog p peer)) := by
  obtain ⟨links, he, hb⟩ := finish_cleared h hs (by rw [hops]; rfl)
  refine ⟨links, ?_, hb⟩
  have hput : (st.put p { peer with peer := none }).socks p = some { peer with peer := none } := by
    simp [Server.put]
  simp only [closePeer, Server.deref_some hs, bind, Except.bind]
  rw [closeWithin_local hput hops, closeLocked_alone hput rfl, he]

-- What the close functions send: the end of a stream.
def Event.IsNotice : Event → Prop
  | .sent _ message none => message.command = A_CLSE
  | _ => False

theorem Event.IsNotice.plain {e : Event} (h : e.IsNotice) : e.IsPlain := by
  unfold Event.IsNotice at h
  split at h
  · simp [Event.IsPlain, h, A_CLSE, A_WRTE]
  · exact h.elim

-- A socket that is not local is gone, and no list names it any more.
structure Dropped (st : Server) (p : Nat) (after : Server) : Prop where
  socks : after.socks = Function.update st.socks p none
  links : after.links = st.links
  nextSocket : after.nextSocket = st.nextSocket
  script : after.script = st.script
  log : ∃ events, after.log = st.log ++ events ∧ ∀ e ∈ events, e.IsNotice
  trackers : after.deviceTrackerList = st.deviceTrackerList.erase p
  disconnects : ∀ t transport, after.transports t = some transport →
    ∃ old, st.transports t = some old ∧ transport.disconnects.Sublist old.disconnects ∧
      .remote p ∉ transport.disconnects

theorem Dropped.owners (hd : Dropped st p after) (h : Owners st) : Owners after where
  fresh := by
    intro c hc
    rw [hd.nextSocket] at hc
    rw [hd.socks]
    by_cases hcp : c = p
    · simp [hcp]
    · simpa [hcp] using h.fresh c hc
  trackers := by
    intro c
    rw [hd.trackers, hd.socks, h.trackers_once.mem_erase_iff]
    by_cases hcp : c = p
    · simp [hcp, roleOf]
    · simp [hcp, h.trackers]
  trackers_once := by
    rw [hd.trackers]
    exact h.trackers_once.erase _
  disconnects := by
    intro t transport c ht hm
    obtain ⟨old, ho, hsub, hnot⟩ := hd.disconnects t transport ht
    have hcp : c ≠ p := by rintro rfl; exact hnot hm
    rw [hd.socks]
    simpa [hcp] using h.disconnects t old c ho (hsub.mem hm)
  disconnects_once := by
    intro t transport c ht
    obtain ⟨old, ho, hsub, -⟩ := hd.disconnects t transport ht
    exact Nat.le_trans (hsub.count_le _) (h.disconnects_once t old c ho)

theorem Dropped.base (hd : Dropped st p after) (h : Base st) (hs : st.socks p = some peer)
    (hinner : peer.ops.isLocal = false) : Base after where
  lists := by
    obtain ⟨xs, ys, hl⟩ := h.lists
    have hsame : ∀ c b, OnList after c b ↔ OnList st c b := by
      intro c b
      rw [OnList, OnList, hd.socks]
      by_cases hbp : b = p
      · subst hbp
        simp [hs, hinner]
      · simp [hbp]
    refine ⟨xs, ys, ?_, ?_, ?_, ?_⟩
    · rw [hd.links]; exact hl.listed
    · rw [hd.links]; exact hl.closing
    · intro b; rw [hl.mem_listed, hsame]
    · intro b; rw [hl.mem_closing, hsame]
  owners := hd.owners h.owners

theorem benign_useAfterFree : Benign .useAfterFree := by simp [Benign]

theorem benign_exited : Benign .exited := by simp [Benign]

theorem derefTransport_ensures (st : Server) (t : Nat) :
    Ensures (st.derefTransport t) (fun transport => st.transports t = some transport) Benign := by
  unfold Server.derefTransport
  cases st.transports t with
  | none => exact benign_useAfterFree
  | some transport => rfl

theorem deref_ensures (st : Server) (a : Nat) :
    Ensures (st.deref a) (fun s => st.socks a = some s) Benign := by
  unfold Server.deref
  cases st.socks a with
  | none => exact benign_useAfterFree
  | some s => rfl

theorem sendPacket_ensures (st : Server) (t : Option Nat) (m : Message)
    (carried : Option (Nat × Nat)) :
    Ensures (st.sendPacket t m carried)
      (fun after => ∃ t', t = some t' ∧ after = st.note (.sent t' m carried)) Benign := by
  unfold Server.sendPacket
  cases t with
  | none => exact benign_exited
  | some t' =>
      refine (derefTransport_ensures st t').bind ?_
      intro transport _
      exact ⟨t', rfl, rfl⟩

theorem roleOf_remote (h : s.ops = .remoteSocket) : roleOf (some s) = some (.remote s.transport) := by
  simp [roleOf, h]

variable (st) in
theorem remoteSocketFree_ensures (h : Owners st) (hs : st.socks p = some s)
    (hops : s.ops = .remoteSocket) :
    Ensures (remoteSocketFree st p) (fun after => Dropped st p after ∧ after.log = st.log) Benign := by
  have hnot : p ∉ st.deviceTrackerList := by
    rw [h.trackers, hs, roleOf_remote hops]
    simp
  unfold remoteSocketFree
  refine (ensures_bind_ok (Server.deref_some hs)).mpr ?_
  cases htr : s.transport with
  | none => exact benign_useAfterFree
  | some t =>
      simp only [Server.removeTransportDisconnect]
      refine Ensures.bind (m := fun after => ∃ transport, st.transports t = some transport ∧
        after = st.putTransport t
          { transport with disconnects := transport.disconnects.erase (.remote p) }) ?_ ?_
      · refine (derefTransport_ensures st t).bind ?_
        intro transport ht
        exact ⟨transport, ht, rfl⟩
      · rintro _ ⟨transport, ht, rfl⟩
        refine ⟨⟨rfl, rfl, rfl, rfl, ⟨[], by simp [Server.free, Server.putTransport], by simp⟩,
          (List.erase_of_not_mem hnot).symm, ?_⟩, rfl⟩
        intro u other hu
        by_cases hut : u = t
        · subst hut
          simp only [Server.free, Server.putTransport, Function.update_self,
            Option.some.injEq] at hu
          subst hu
          refine ⟨transport, ht, List.erase_sublist, ?_⟩
          have honce := h.disconnects_once u transport p ht
          rw [← List.count_eq_zero, List.count_erase_self]
          omega
        · simp only [Server.free, Server.putTransport, Function.update_of_ne hut] at hu
          refine ⟨other, hu, List.Sublist.refl _, ?_⟩
          intro hm
          have hrole := h.disconnects u other p hu hm
          rw [hs, roleOf_remote hops, htr] at hrole
          exact hut (by simpa using hrole.symm)

theorem smartSocketFree (hs : st.socks p = some s) (hops : s.ops = .smartSocket) (h : Owners st) :
    Dropped st p (st.free p) := by
  have hrole : roleOf (st.socks p) = none := by simp [roleOf, hs, hops]
  refine ⟨rfl, rfl, rfl, rfl, ⟨[], by simp [Server.free], by simp⟩, ?_, ?_⟩
  · rw [List.erase_of_not_mem]
    · rfl
    · rw [h.trackers, hrole]
      simp
  · intro t transport ht
    refine ⟨transport, ht, List.Sublist.refl _, fun hm => ?_⟩
    have := h.disconnects t transport p ht hm
    rw [hrole] at this
    cases this

theorem deviceTrackerFree (hs : st.socks p = some s) (hops : s.ops = .deviceTracker)
    (h : Owners st) :
    Dropped st p ({ st with deviceTrackerList := st.deviceTrackerList.erase p }.free p) := by
  refine ⟨rfl, rfl, rfl, rfl, ⟨[], by simp [Server.free], by simp⟩, rfl, ?_⟩
  intro t transport ht
  refine ⟨transport, ht, List.Sublist.refl _, fun hm => ?_⟩
  have := h.disconnects t transport p ht hm
  simp [roleOf, hs, hops] at this

theorem Dropped.of_note {e : Event} (hd : Dropped (st.note e) p after)
    (he : e.IsNotice) : Dropped st p after where
  socks := hd.socks
  links := hd.links
  nextSocket := hd.nextSocket
  script := hd.script
  log := by
    obtain ⟨events, hlog, hsent⟩ := hd.log
    refine ⟨e :: events, by simpa [Server.note] using hlog, ?_⟩
    intro e' he'
    rcases List.mem_cons.mp he' with rfl | he'
    · exact he
    · exact hsent e' he'
  trackers := hd.trackers
  disconnects := hd.disconnects

-- A socket that is not local goes when it is closed, its peer pointer being
-- clear by then.
theorem closeWithin_inner (h : Owners st) (hs : st.socks p = some peer)
    (hinner : peer.ops.isLocal = false) (hp : peer.peer = none) (depth : Nat) :
    Ensures (closeWithin (depth + 1) st p) (Dropped st p) Benign := by
  cases hops : peer.ops with
  | localSocket => simp [hops, Ops.isLocal] at hinner
  | localSocketNotify => simp [hops, Ops.isLocal] at hinner
  | remoteSocket =>
      rw [closeWithin_remote hs hops]
      unfold remoteSocketClose
      refine (ensures_bind_ok (Server.deref_some hs)).mpr ?_
      rw [hp]
      refine (ensures_bind_ok (a := (0, st)) rfl).mpr ?_
      refine (ensures_bind_ok (Server.deref_some hs)).mpr ?_
      refine (sendPacket_ensures _ _ _ _).bind ?_
      rintro _ ⟨t, -, rfl⟩
      refine (remoteSocketFree_ensures (st.note _) (s := peer) ?_ hs hops).weaken ?_
      · exact h.congr rfl rfl rfl (.of_eq rfl)
      · rintro after ⟨hd, -⟩
        exact hd.of_note (rfl)
  | smartSocket =>
      rw [closeWithin_smart hs hops]
      unfold smartSocketClose
      refine (ensures_bind_ok (Server.deref_some hs)).mpr ?_
      rw [hp]
      refine (ensures_bind_ok (a := st) rfl).mpr ?_
      refine (ensures_bind_ok (Server.deref_some hs)).mpr ?_
      exact smartSocketFree hs hops h
  | deviceTracker =>
      rw [closeWithin_tracker hs hops]
      unfold deviceTrackerClose
      refine (ensures_bind_ok (Server.deref_some hs)).mpr ?_
      rw [hp]
      refine (ensures_bind_ok (a := st) rfl).mpr ?_
      refine (ensures_bind_ok (Server.deref_some hs)).mpr ?_
      exact deviceTrackerFree hs hops h

-- What is written to the socket just before is gone with it.
theorem Dropped.of_put (hd : Dropped (st.put p s) p after) : Dropped st p after where
  socks := by
    rw [hd.socks]
    simp [Server.put]
  links := hd.links
  nextSocket := hd.nextSocket
  script := hd.script
  log := hd.log
  trackers := hd.trackers
  disconnects := hd.disconnects

theorem closePeer_inner (h : Base st) (hs : st.socks p = some peer)
    (hinner : peer.ops.isLocal = false) (depth : Nat) :
    Ensures (closePeer (closeWithin (depth + 1)) st p) (Dropped st p) Benign := by
  have hput : (st.put p { peer with peer := none }).socks p = some { peer with peer := none } := by
    simp [Server.put]
  have hbase : Base (st.put p { peer with peer := none }) := h.put hs rfl rfl rfl
  unfold closePeer
  refine (ensures_bind_ok (Server.deref_some hs)).mpr ?_
  exact (closeWithin_inner hbase.owners hput hinner rfl depth).weaken fun _ hd => hd.of_put

theorem fate_inner (hinner : s.ops.isLocal = false) : fate s = none := by
  simp [fate, hinner]

-- The sockets once the peer of a socket has been closed.
def severed (socks : Nat → Option ASocket) : Option Nat → Nat → Option ASocket
  | none => socks
  | some p => Function.update socks p ((socks p).bind fate)

-- What the close of a socket leaves: it and its peer have come to their ends.
structure Closed (st : Server) (a : Nat) (s : ASocket) (after : Server) : Prop where
  graph : Graph after
  socks : after.socks = Function.update (severed st.socks s.peer) a (fate s)
  nextSocket : after.nextSocket = st.nextSocket
  script : after.script = st.script
  log : ∃ events, after.log = st.log ++ events ∧ ∀ e ∈ events,
    e.IsNotice ∨ ∃ c, e = .closedFd c ∧ (c = a ∨ s.peer = some c) ∧ after.socks c = none

-- Where the fd is closed nothing is left of the socket.
theorem mem_fateLog {e : Event} (he : e ∈ fateLog a s) : e = .closedFd a ∧ fate s = none := by
  unfold fateLog at he
  split at he
  · rename_i hend
    exact ⟨by simpa using he, by simp [fate, hend.2]⟩
  · simp at he

-- The peer of a socket has come to its end, the socket itself is as it was.
structure Cut (st : Server) (p : Nat) (peer : ASocket) (after : Server) : Prop where
  base : Base after
  socks : after.socks = Function.update st.socks p (fate peer)
  nextSocket : after.nextSocket = st.nextSocket
  script : after.script = st.script
  log : ∃ events, after.log = st.log ++ events ∧ ∀ e ∈ events,
    e.IsNotice ∨ (e = .closedFd p ∧ fate peer = none)

theorem closePeer_cut (h : Base st) (hs : st.socks p = some peer)
    (hn : peer.ops ≠ .localSocketNotify) (depth : Nat) :
    Ensures (closePeer (closeWithin (depth + 1)) st p) (Cut st p peer) Benign := by
  cases hlocal : peer.ops.isLocal with
  | true =>
      have hops : peer.ops = .localSocket := by
        cases hops : peer.ops <;> simp_all [Ops.isLocal]
      obtain ⟨links, he, hb⟩ := closePeer_local h hs hops depth
      rw [he]
      exact ⟨hb, rfl, rfl, rfl, _, rfl, fun e he => Or.inr (mem_fateLog he)⟩
  | false =>
      refine (closePeer_inner h hs hlocal depth).weaken ?_
      intro after hd
      obtain ⟨events, hlog, hsent⟩ := hd.log
      refine ⟨hd.base h hs hlocal, ?_, hd.nextSocket, hd.script, events, hlog, ?_⟩
      · rw [hd.socks, fate_inner hlocal]
      · exact fun e he => Or.inl (hsent e he)

-- Both ends of a connection are gone or on their own.
theorem Cut.closed {mid : Server} (hc : Cut st p peer mid) (h : Graph st)
    (hs : st.socks a = some s) (hp : s.peer = some p) (hpeer : st.socks p = some peer)
    (hbase : Base after) (hsocks : after.socks = Function.update mid.socks a (fate s))
    (hnext : after.nextSocket = mid.nextSocket) (hscript : after.script = mid.script)
    (hlog : ∃ events, after.log = mid.log ++ events ∧ ∀ e ∈ events,
      e.IsNotice ∨ (e = .closedFd a ∧ fate s = none)) : Closed st a s after where
  graph := by
    refine ⟨hbase.lists, ?_, hbase.owners⟩
    rw [hsocks, hc.socks]
    exact h.peers.unpair hs hp (alone_fate s) (alone_fate peer)
  socks := by
    rw [hsocks, hc.socks, hp]
    simp [severed, hpeer]
  nextSocket := hnext.trans hc.nextSocket
  script := hscript.trans hc.script
  log := by
    obtain ⟨first, hfirst, hf⟩ := hc.log
    obtain ⟨second, hsecond, hg⟩ := hlog
    refine ⟨first ++ second, by rw [hsecond, hfirst, List.append_assoc], ?_⟩
    intro e he
    rcases List.mem_append.mp he with he | he
    · rcases hf e he with hsent | ⟨rfl, hgone⟩
      · exact Or.inl hsent
      · refine Or.inr ⟨p, rfl, Or.inr hp, ?_⟩
        rw [hsocks, Function.update_of_ne (h.peers.back a s p hs hp).1, hc.socks, Function.update_self, hgone]
    · rcases hg e he with hsent | ⟨rfl, hgone⟩
      · exact Or.inl hsent
      · exact Or.inr ⟨a, rfl, Or.inl rfl, by rw [hsocks, Function.update_self, hgone]⟩

-- A socket that has a peer is never one that waits for its status.
theorem Peers.not_notify {socks : Nat → Option ASocket} (h : Peers socks)
    (hs : socks a = some s) (hp : s.peer ≠ none) : s.ops ≠ .localSocketNotify :=
  fun hn => hp (h.notify a s hs hn)

theorem closeLocked_spec (h : Graph st) (hs : st.socks a = some s)
    (hlocal : s.ops.isLocal = true) (depth : Nat) :
    Ensures (localSocketCloseLocked (closeWithin (depth + 1)) st a) (Closed st a s) Benign := by
  cases hp : s.peer with
  | none =>
      obtain ⟨links, he, hb⟩ := finish_base h.base hs hlocal hp
      rw [closeLocked_alone hs hp, he]
      refine ⟨⟨hb.lists, ?_, hb.owners⟩, by simp [Server.relinked, severed, hp], rfl, rfl, _, rfl, ?_⟩
      · exact h.peers.alone hs hp (alone_fate s)
      · intro e he
        obtain ⟨rfl, hgone⟩ := mem_fateLog he
        exact Or.inr ⟨a, rfl, Or.inl rfl, by simp [Server.relinked, hgone]⟩
  | some p =>
      obtain ⟨hpa, peer, hpeer, hback⟩ := h.peers.back a s p hs hp
      have hn : peer.ops ≠ .localSocketNotify := h.peers.not_notify hpeer (by simp [hback])
      unfold localSocketCloseLocked
      refine (ensures_bind_ok (Server.deref_some hs)).mpr ?_
      rw [hp]
      refine (closePeer_cut h.base hpeer hn depth).bind ?_
      intro mid hc
      have hmid : mid.socks a = some s := by
        rw [hc.socks, Function.update_of_ne hpa.symm, hs]
      refine (ensures_bind_ok (Server.deref_some hmid)).mpr ?_
      obtain ⟨links, he, hb⟩ := finish_cleared hc.base hmid hlocal
      rw [he]
      exact hc.closed h hs hp hpeer hb rfl rfl rfl
        ⟨_, rfl, fun e he => Or.inr (mem_fateLog he)⟩

-- The way of a remote socket, a smart socket and a tracker: the peer is closed,
-- then the socket goes.
theorem Dropped.closed {mid : Server} (hd : Dropped mid a after) (hc : Cut st p peer mid)
    (h : Graph st) (hs : st.socks a = some s) (hinner : s.ops.isLocal = false)
    (hp : s.peer = some p) (hpeer : st.socks p = some peer) (hmid : mid.socks a = some s) :
    Closed st a s after := by
  refine hc.closed h hs hp hpeer (hd.base hc.base hmid hinner) ?_ hd.nextSocket hd.script ?_
  · rw [hd.socks, fate_inner hinner]
  · obtain ⟨events, hlog, hsent⟩ := hd.log
    exact ⟨events, hlog, fun e he => Or.inl (hsent e he)⟩

theorem remoteSocketDisconnect_spec (h : Graph st) (hs : st.socks a = some s)
    (hops : s.ops = .remoteSocket) (depth : Nat) :
    Ensures (remoteSocketDisconnect (closeWithin (depth + 1)) st a) (Closed st a s) Benign := by
  have hinner : s.ops.isLocal = false := by rw [hops]; rfl
  obtain ⟨p, peer, hp, hpeer, hlocal⟩ := h.peers.inner a s hs hinner
  obtain ⟨hpa, found, hpeer', hback⟩ := h.peers.back a s p hs hp
  rw [hpeer, Option.some.injEq] at hpeer'
  subst hpeer'
  unfold remoteSocketDisconnect
  refine (ensures_bind_ok (Server.deref_some hs)).mpr ?_
  rw [hp]
  refine (closePeer_cut h.base hpeer (h.peers.not_notify hpeer (by simp [hback])) depth).bind ?_
  intro mid hc
  have hmid : mid.socks a = some s := by rw [hc.socks, Function.update_of_ne hpa.symm, hs]
  refine (remoteSocketFree_ensures _ hc.base.owners hmid hops).weaken ?_
  rintro after ⟨hd, -⟩
  exact hd.closed hc h hs hinner hp hpeer hmid

theorem closeInner_spec (h : Graph st) (hs : st.socks a = some s)
    (hinner : s.ops.isLocal = false) (depth : Nat) :
    Ensures (closeWithin (depth + 2) st a) (Closed st a s) Benign := by
  obtain ⟨p, peer, hp, hpeer, hlocal⟩ := h.peers.inner a s hs hinner
  obtain ⟨hpa, found, hpeer', hback⟩ := h.peers.back a s p hs hp
  rw [hpeer, Option.some.injEq] at hpeer'
  subst hpeer'
  have hcut := closePeer_cut h.base hpeer (h.peers.not_notify hpeer (by simp [hback])) depth
  have hstay : ∀ mid, Cut st p peer mid → mid.socks a = some s := by
    intro mid hc
    rw [hc.socks, Function.update_of_ne hpa.symm, hs]
  cases hops : s.ops with
  | localSocket => simp [hops, Ops.isLocal] at hinner
  | localSocketNotify => simp [hops, Ops.isLocal] at hinner
  | remoteSocket =>
      rw [closeWithin_remote hs hops]
      unfold remoteSocketClose
      refine (ensures_bind_ok (Server.deref_some hs)).mpr ?_
      rw [hp]
      refine (ensures_bind_ok (Server.deref_some hpeer)).mpr ?_
      refine hcut.bind ?_
      intro mid hc
      refine (ensures_bind_ok (a := (peer.id, mid)) rfl).mpr ?_
      refine (ensures_bind_ok (Server.deref_some (hstay mid hc))).mpr ?_
      refine (sendPacket_ensures _ _ _ _).bind ?_
      rintro _ ⟨t, -, rfl⟩
      refine (remoteSocketFree_ensures (mid.note _) (s := s) ?_ (hstay mid hc) hops).weaken ?_
      · exact hc.base.owners.congr rfl rfl rfl (.of_eq rfl)
      · rintro after ⟨hd, -⟩
        exact (hd.of_note (rfl)).closed hc h hs hinner hp hpeer (hstay mid hc)
  | smartSocket =>
      rw [closeWithin_smart hs hops]
      unfold smartSocketClose
      refine (ensures_bind_ok (Server.deref_some hs)).mpr ?_
      rw [hp]
      refine hcut.bind ?_
      intro mid hc
      refine (ensures_bind_ok (Server.deref_some (hstay mid hc))).mpr ?_
      exact (smartSocketFree (hstay mid hc) hops hc.base.owners).closed hc h hs hinner hp hpeer
        (hstay mid hc)
  | deviceTracker =>
      rw [closeWithin_tracker hs hops]
      unfold deviceTrackerClose
      refine (ensures_bind_ok (Server.deref_some hs)).mpr ?_
      rw [hp]
      refine hcut.bind ?_
      intro mid hc
      refine (ensures_bind_ok (Server.deref_some (hstay mid hc))).mpr ?_
      exact (deviceTrackerFree (hstay mid hc) hops hc.base.owners).closed hc h hs hinner hp hpeer
        (hstay mid hc)

-- Any socket but one that waits for its status is closed without more ado.
theorem close_spec (h : Graph st) (hs : st.socks a = some s) (hn : s.ops ≠ .localSocketNotify) :
    Ensures (close st a) (Closed st a s) Benign := by
  cases hlocal : s.ops.isLocal with
  | true =>
      have hops : s.ops = .localSocket := by
        cases hops : s.ops <;> simp_all [Ops.isLocal]
      unfold close
      rw [closeWithin_local hs hops]
      exact closeLocked_spec h hs hlocal 1
  | false => exact closeInner_spec h hs hlocal 1

end Adb.Host
