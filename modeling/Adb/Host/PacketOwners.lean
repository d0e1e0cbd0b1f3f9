import Adb.Host.Holdings
import Adb.Host.Shapes

namespace Adb.Host

open Adb.Lib
open Adb.Transport (TransportType)

variable {st mid after : Server} {a b l p : Nat} {s q : ASocket}

namespace Holdings

variable {h h' m : Holdings}

section Closing

structure Sound (h : Holdings) : Prop where
  fits : ∀ a, Fits (h.server.socks a) (h.ledger.queue a)
  unused : ∀ a, h.server.nextSocket ≤ a → h.server.socks a = none

theorem Sound.steady (hsound : Sound h) (hsteady : Steady h.server after) :
    Sound { h with server := after } where
  fits a := hsteady.fits a _ (hsound.fits a)
  unused a ha := (hsteady.dead a).mpr (hsound.unused a (hsteady.next ▸ ha))

theorem Sound.books (hsound : Sound h) {ledger : Ledger Nat} (hqueue : ledger.queue = h.ledger.queue) :
    Sound { h with ledger } where
  fits a := by
    rw [hqueue]
    exact hsound.fits a
  unused := hsound.unused

theorem Sound.inner (hsound : Sound h) (hs : h.server.socks a = some s)
    (hops : s.ops = .remoteSocket ∨ s.ops = .deviceTracker) : h.ledger.queue a = [] := by
  have hfits := hsound.fits a
  rw [hs] at hfits
  have hnone : s.pkts = [] := by
    have hshaped := hfits.2
    rcases hops with hops | hops <;> simpa [ASocket.Shaped, hops] using hshaped
  exact List.eq_nil_of_length_eq_zero (by rw [hfits.1, hnone, List.length_nil])

theorem Sound.smart (hsound : Sound h) (hs : h.server.socks a = some s)
    (hops : s.ops = .smartSocket) :
    (h.ledger.queue a).length ≤ 1 ∧ (s.pkts = [] → h.ledger.queue a = []) := by
  have hfits := hsound.fits a
  rw [hs] at hfits
  have hone : s.pkts.length ≤ 1 := by simpa [ASocket.Shaped, hops] using hfits.2
  refine ⟨by rw [hfits.1]; exact hone, fun hpkts => ?_⟩
  exact List.eq_nil_of_length_eq_zero (by rw [hfits.1, hpkts, List.length_nil])

-- What closing sockets does to the packets: those of the sockets that go are put
-- back, the others stay where they are.
structure Closes (h h' : Holdings) : Prop where
  sound : Sound h'
  dead : ∀ a, h.server.socks a = none → h'.server.socks a = none
  drains : ∃ gone : Finset Nat, h.ledger.Drains gone h'.ledger ∧
    ∀ a, a ∈ gone → h'.server.socks a = none

theorem Closes.refl (hsound : Sound h) : Closes h h :=
  ⟨hsound, fun _ hd => hd, ∅, .refl _, by simp⟩

theorem Closes.trans (hc : Closes h m) (hc' : Closes m h') : Closes h h' where
  sound := hc'.sound
  dead a hd := hc'.dead a (hc.dead a hd)
  drains := by
    obtain ⟨gone, hdrains, hgone⟩ := hc.drains
    obtain ⟨more, hdrains', hmore⟩ := hc'.drains
    refine ⟨gone ∪ more, hdrains.trans hdrains', ?_⟩
    intro a ha
    rcases Finset.mem_union.mp ha with ha | ha
    · exact hc'.dead a (hgone a ha)
    · exact hmore a ha

theorem Closes.steady (hc : Closes h m) (hsteady : Steady m.server after) :
    Closes h { m with server := after } where
  sound := hc.sound.steady hsteady
  dead a hd := (hsteady.dead a).mpr (hc.dead a hd)
  drains := by
    obtain ⟨gone, hdrains, hgone⟩ := hc.drains
    exact ⟨gone, hdrains, fun a ha => (hsteady.dead a).mpr (hgone a ha)⟩

theorem Closes.on (hc : Closes h m) {result : Except Stop Server}
    (hresult : Ensures result (Steady m.server) Anyway) :
    Ensures (m.on result)
      (fun h' => Closes h h' ∧ ∀ a, h'.server.socks a = none ↔ m.server.socks a = none) Anyway :=
  hresult.bind fun _ hsteady => ⟨hc.steady hsteady, hsteady.dead⟩

-- A socket whose packets have been put back is freed.
theorem Closes.free (hc : Closes (h.putQueue a) m) (hs : m.server.socks a = some s) :
    Closes h (m.free a) where
  sound := by
    refine ⟨fun b => ?_, fun b hb => ?_⟩
    · by_cases hba : b = a
      · simp [Holdings.free, Server.free, Ledger.drop, hba, Fits]
      · simpa [Holdings.free, Server.free, Ledger.drop, hba] using hc.sound.fits b
    · by_cases hba : b = a
      · simp [Holdings.free, Server.free, hba]
      · simpa [Holdings.free, Server.free, hba] using hc.sound.unused b hb
  dead b hb := by
    by_cases hba : b = a
    · simp [Holdings.free, Server.free, hba]
    · simpa [Holdings.free, Server.free, hba] using hc.dead b hb
  drains := by
    obtain ⟨gone, hdrains, hgone⟩ := hc.drains
    have ha : a ∉ gone := by
      intro ha
      simp [hgone a ha] at hs
    refine ⟨insert a gone, hdrains.drop ha, ?_⟩
    intro b hb
    by_cases hba : b = a
    · simp [Holdings.free, Server.free, hba]
    · simpa [Holdings.free, Server.free, hba] using hgone b ((Finset.mem_insert.mp hb).resolve_left hba)

-- A packet that was new before them is sent after them.
theorem Closes.send (hc : Closes h.getApacket.2 m) (t : Option Nat) (message : Message)
    (carried : Option (Nat × Nat)) :
    Ensures (m.sendPacket h.ledger.next t message carried)
      (fun h' => Closes h h' ∧ h'.server.socks = m.server.socks ∧
        h'.ledger.queue = m.ledger.queue) Anyway := by
  unfold sendPacket
  apply ((sendPacket_ensures m.server t message carried).mono fun _ _ => trivial).bind
  rintro _ ⟨u, -, rfl⟩
  refine ⟨⟨?_, hc.dead, ?_⟩, rfl, rfl⟩
  · have hnoted : Sound { m with server := m.server.note (.sent u message carried) } :=
      hc.sound.steady (.of_eq rfl rfl)
    exact hnoted.books rfl
  · obtain ⟨gone, hdrains, hgone⟩ := hc.drains
    exact ⟨gone, hdrains.hand, hgone⟩

theorem putQueue_nil (hq : h.ledger.queue a = []) : h.putQueue a = h := by
  simp [putQueue, hq]

theorem putFirst_eq (hq : (h.ledger.queue a).length ≤ 1) : h.putFirst a = h.putQueue a := by
  unfold putFirst putQueue
  cases hlist : h.ledger.queue a with
  | nil => simp
  | cons p rest =>
      have hrest : rest = [] := by
        rw [hlist, List.length_cons] at hq
        exact List.eq_nil_of_length_eq_zero (by omega)
      rw [hrest]
      rfl

theorem Sound.putQueue (hsound : Sound h) (a : Nat) : Sound (h.putQueue a) := hsound.books rfl

-- A socket that is there is there still.
theorem live_of_iff (hs : h.server.socks a = some s)
    (hlive : ∀ b, m.server.socks b = none ↔ h.server.socks b = none) :
    ∃ q, m.server.socks a = some q := by
  rw [← Option.ne_none_iff_exists']
  intro hnone
  rw [(hlive a).mp hnone] at hs
  cases hs

theorem localSocketDestroy_closes (hsound : Sound h) (a : Nat) :
    Ensures (h.localSocketDestroy a) (Closes h) Anyway := by
  unfold localSocketDestroy
  apply (deref_any h.server a).bind
  intro s hs
  have hput : Closes (h.putQueue a) (h.putQueue a) := .refl (hsound.putQueue a)
  have hnoted : Steady (h.putQueue a).server (h.server.note (.closedFd a)) := .of_eq rfl rfl
  apply (hput.on ((removeSocket_steady _ a).weaken fun _ hr => hnoted.trans hr)).bind
  rintro m ⟨hm, hlive⟩
  obtain ⟨q, hq⟩ := live_of_iff (h := h.putQueue a) hs hlive
  exact hm.free hq

theorem Closes.put_like (hc : Closes h m) (hs : m.server.socks a = some s) (hops : q.ops = s.ops)
    (hsize : q.pkts.length = s.pkts.length) : Closes h (m.put a q) :=
  hc.steady (.put_like hs hops hsize)

-- A step behind others.
theorem Closes.then (hc : Closes h m) {x : Except Stop Holdings}
    (hx : Ensures x (Closes m) Anyway) : Ensures x (Closes h) Anyway :=
  hx.weaken fun _ hafter => hc.trans hafter

theorem localSocketFinish_closes (hsound : Sound h) (a : Nat) :
    Ensures (h.localSocketFinish a) (Closes h) Anyway := by
  unfold localSocketFinish
  apply (deref_any h.server a).bind
  intro s hs
  split
  · exact localSocketDestroy_closes hsound a
  · have hput : Closes h (h.put a { s with closing := true, fde := fdeventDel s.fde FDE_READ }) :=
      (Closes.refl hsound).put_like hs rfl rfl
    apply (hput.on (removeSocket_steady _ a)).bind
    rintro m ⟨hm, -⟩
    exact (hm.on (insertLocalSocket_steady _ a .closingList)).weaken fun _ hafter => hafter.1

-- What the close functions ask of the close of a peer.
abbrev Disposes (close : Holdings → Nat → Except Stop Holdings) : Prop :=
  ∀ h a, Sound h → Ensures (close h a) (Closes h) Anyway

variable {close : Holdings → Nat → Except Stop Holdings}

theorem closePeer_closes (hclose : Disposes close)
    (hsound : Sound h) (p : Nat) : Ensures (closePeer close h p) (Closes h) Anyway := by
  unfold closePeer
  apply (deref_any h.server p).bind
  intro peer hpeer
  have hput : Closes h (h.put p { peer with peer := none }) :=
    (Closes.refl hsound).put_like hpeer rfl rfl
  exact hput.then (hclose _ p hput.sound)

theorem localSocketCloseLocked_closes (hclose : Disposes close) (hsound : Sound h) (a : Nat) :
    Ensures (localSocketCloseLocked close h a) (Closes h) Anyway := by
  unfold localSocketCloseLocked
  apply (deref_any h.server a).bind
  intro s hs
  cases s.peer with
  | none => exact localSocketFinish_closes hsound a
  | some p =>
      apply (closePeer_closes hclose hsound p).bind
      intro m hm
      apply (deref_any m.server a).bind
      intro q hq
      have hput := hm.put_like (q := { q with peer := none }) hq rfl rfl
      exact hput.then (localSocketFinish_closes hput.sound a)

theorem localSocketCloseNotify_closes (hclose : Disposes close) (hsound : Sound h) (a : Nat) :
    Ensures (localSocketCloseNotify close h a) (Closes h) Anyway := by
  unfold localSocketCloseNotify
  apply (deref_any h.server a).bind
  intro s hs
  have hput : Closes h (h.put a { s with ops := .localSocket }) :=
    (Closes.refl hsound).steady (.put_local hs rfl rfl)
  apply (hput.on (writeStatus_steady _ a _)).bind
  rintro m ⟨hm, -⟩
  exact hm.then (localSocketCloseLocked_closes hclose hm.sound a)

-- The packets of such a socket have been put back, if it has had any.
theorem remoteSocketFree_closes (hc : Closes (h.putQueue a) m) :
    Ensures (m.remoteSocketFree a) (Closes h) Anyway := by
  unfold remoteSocketFree
  apply (deref_any m.server a).bind
  intro s hs
  cases s.transport with
  | none => trivial
  | some t =>
      apply (hc.on (removeTransportDisconnect_steady m.server t (.remote a))).bind
      rintro m' ⟨hm', hlive⟩
      obtain ⟨q, hq⟩ := live_of_iff hs hlive
      exact hm'.free hq

theorem remoteSocketClose_closes (hclose : Disposes close) (hsound : Sound h)
    (hs : h.server.socks a = some s) (hops : s.ops = .remoteSocket) :
    Ensures (remoteSocketClose close h a) (Closes h) Anyway := by
  have hfresh : Sound h.getApacket.2 := hsound.books rfl
  have hend : ∀ (arg0 : UInt32) (m : Holdings), Closes h.getApacket.2 m → Ensures
      (do
        let s ← m.server.deref a
        let m ← m.sendPacket h.ledger.next s.transport ⟨A_CLSE, arg0, s.id, []⟩ none
        m.remoteSocketFree a) (Closes h) Anyway := by
    intro arg0 m hm
    apply (deref_any m.server a).bind
    intro q _
    apply (hm.send q.transport _ none).bind
    rintro sent ⟨hsent, -, -⟩
    apply remoteSocketFree_closes
    rw [putQueue_nil (hsound.inner hs (.inl hops))]
    exact hsent
  unfold remoteSocketClose
  refine (ensures_bind_ok (Server.deref_some hs)).mpr ?_
  cases s.peer with
  | none => exact hend 0 _ (.refl hfresh)
  | some l =>
      apply (deref_any h.server l).bind
      intro peer _
      apply (closePeer_closes hclose hfresh l).bind
      exact fun m hm => hend peer.id m hm

theorem smartSocketClose_closes (hclose : Disposes close) (hsound : Sound h)
    (hs : h.server.socks a = some s) (hops : s.ops = .smartSocket) :
    Ensures (smartSocketClose close h a) (Closes h) Anyway := by
  have hend : ∀ m : Holdings, Closes (h.putQueue a) m → Ensures
      (do
        let _ ← m.server.deref a
        return m.free a) (Closes h) Anyway := by
    intro m hm
    apply (deref_any m.server a).bind
    exact fun q hq => hm.free hq
  unfold smartSocketClose
  refine (ensures_bind_ok (Server.deref_some hs)).mpr ?_
  rw [putFirst_eq (hsound.smart hs hops).1]
  cases s.peer with
  | none => exact hend _ (.refl (hsound.putQueue a))
  | some l => exact (closePeer_closes hclose (hsound.putQueue a) l).bind fun m hm => hend m hm

theorem deviceTrackerClose_closes (hclose : Disposes close) (hsound : Sound h)
    (hs : h.server.socks a = some s) (hops : s.ops = .deviceTracker) :
    Ensures (deviceTrackerClose close h a) (Closes h) Anyway := by
  have hend : ∀ m : Holdings, Closes h m → Ensures
      (do
        let _ ← m.server.deref a
        let server := { m.server with deviceTrackerList := m.server.deviceTrackerList.erase a }
        return { m with server }.free a) (Closes h) Anyway := by
    intro m hm
    apply (deref_any m.server a).bind
    intro q hq
    have hlisted : Closes (h.putQueue a) { m with server := { m.server with
        deviceTrackerList := m.server.deviceTrackerList.erase a } } := by
      rw [putQueue_nil (hsound.inner hs (.inr hops))]
      exact hm.steady (.of_eq rfl rfl)
    exact hlisted.free hq
  unfold deviceTrackerClose
  refine (ensures_bind_ok (Server.deref_some hs)).mpr ?_
  cases s.peer with
  | none => exact hend h (.refl hsound)
  | some l => exact (closePeer_closes hclose hsound l).bind fun m hm => hend m hm

theorem closeWithin_closes (depth : Nat) (h : Holdings) (a : Nat) (hsound : Sound h) :
    Ensures (closeWithin depth h a) (Closes h) Anyway := by
  induction depth generalizing h a with
  | zero => trivial
  | succ depth ih =>
      unfold closeWithin
      apply (deref_any h.server a).bind
      intro s hs
      cases hops : s.ops with
      | localSocket => exact localSocketCloseLocked_closes ih hsound a
      | localSocketNotify => exact localSocketCloseNotify_closes ih hsound a
      | remoteSocket => exact remoteSocketClose_closes ih hsound hs hops
      | smartSocket => exact smartSocketClose_closes ih hsound hs hops
      | deviceTracker => exact deviceTrackerClose_closes ih hsound hs hops

theorem close_closes : Disposes Holdings.close := fun h a hsound => closeWithin_closes 3 h a hsound

end Closing

section Keeping

-- Every packet that has its place has one still.
structure Keeps (h h' : Holdings) : Prop where
  sound : Sound h'
  ledger : h.ledger.Keeps h'.ledger

theorem Keeps.refl (hsound : Sound h) : Keeps h h := ⟨hsound, .refl _⟩

theorem Keeps.trans (hk : Keeps h m) (hk' : Keeps m h') : Keeps h h' :=
  ⟨hk'.sound, hk.ledger.trans hk'.ledger⟩

theorem Closes.keeps (hc : Closes h h') : Keeps h h' := by
  obtain ⟨gone, hdrains, -⟩ := hc.drains
  exact ⟨hc.sound, hdrains.keeps⟩

theorem Keeps.steady (hk : Keeps h m) (hsteady : Steady m.server after) :
    Keeps h { m with server := after } :=
  ⟨hk.sound.steady hsteady, hk.ledger⟩

theorem Keeps.then (hk : Keeps h m) {x : Except Stop Holdings} (hx : Ensures x (Keeps m) Anyway) :
    Ensures x (Keeps h) Anyway :=
  hx.weaken fun _ hafter => hk.trans hafter

theorem Keeps.thenValue {α : Type} (hk : Keeps h m) {x : Except Stop (α × Holdings)}
    (hx : Ensures x (fun r => Keeps m r.2) Anyway) : Ensures x (fun r => Keeps h r.2) Anyway :=
  hx.weaken fun _ hafter => hk.trans hafter

theorem on_keeps (hsound : Sound h) {result : Except Stop Server}
    (hresult : Ensures result (Steady h.server) Anyway) : Ensures (h.on result) (Keeps h) Anyway :=
  hresult.bind fun _ hsteady => (Keeps.refl hsound).steady hsteady

theorem onValue_keeps {α : Type} (hsound : Sound h) {result : Except Stop (α × Server)}
    (hresult : Ensures result (fun r => Steady h.server r.2) Anyway) :
    Ensures (h.onValue result) (fun r => Keeps h r.2 ∧ Steady h.server r.2.server) Anyway :=
  hresult.bind fun _ hsteady => ⟨(Keeps.refl hsound).steady hsteady, hsteady⟩

theorem close_keeps (hsound : Sound h) (a : Nat) : Ensures (h.close a) (Keeps h) Anyway :=
  (close_closes h a hsound).weaken fun _ hc => hc.keeps

-- A new packet is sent at once.
theorem send_keeps (hsound : Sound h) (t : Option Nat) (message : Message)
    (carried : Option (Nat × Nat)) :
    Ensures (h.getApacket.2.sendPacket h.ledger.next t message carried)
      (fun h' => Keeps h h' ∧ h'.server.socks = h.server.socks ∧
        h'.ledger.queue = h.ledger.queue) Anyway := by
  have hfresh : Sound h.getApacket.2 := hsound.books rfl
  exact ((Closes.refl hfresh).send t message carried).weaken
    fun _ hsent => ⟨hsent.1.keeps, hsent.2⟩

theorem remoteSocketReady_keeps (hsound : Sound h) (a : Nat) :
    Ensures (h.remoteSocketReady a) (Keeps h) Anyway := by
  unfold remoteSocketReady
  apply (deref_any h.server a).bind
  intro s _
  cases s.peer with
  | none => trivial
  | some l =>
      apply (deref_any h.server l).bind
      intro peer _
      exact (send_keeps hsound s.transport _ none).weaken fun _ hsent => hsent.1

theorem connectToRemote_keeps (hsound : Sound h) (a : Nat) (destination : Bytes) :
    Ensures (h.connectToRemote a destination)
      (fun h' => Keeps h h' ∧ h'.server.socks = h.server.socks ∧
        h'.ledger.queue = h.ledger.queue) Anyway := by
  unfold connectToRemote
  apply (deref_any h.server a).bind
  intro s _
  simp only
  split
  · trivial
  · exact send_keeps hsound s.transport _ none

theorem allocSocket_keeps (hsound : Sound h) (hpkts : s.pkts = []) :
    Keeps h (h.allocSocket s).2 := by
  have hunused : h.server.socks h.server.nextSocket = none := hsound.unused _ (Nat.le_refl _)
  have hqueue : h.ledger.queue h.server.nextSocket = [] := by
    have hfits := hsound.fits h.server.nextSocket
    rwa [hunused] at hfits
  have hdrop : h.ledger.drop h.server.nextSocket = h.ledger := by
    unfold Ledger.drop
    rw [← hqueue, Function.update_eq_self]
  simp only [allocSocket, Host.allocSocket, hdrop]
  refine ⟨⟨fun b => ?_, fun b hb => ?_⟩, .refl _⟩
  · by_cases hba : b = h.server.nextSocket
    · simpa [Server.put, hba, hqueue] using fits_new hpkts
    · simpa [Server.put, hba] using hsound.fits b
  · have hlt : h.server.nextSocket < b := hb
    simpa [Server.put, (Nat.ne_of_lt hlt).symm] using hsound.unused b (Nat.le_of_lt hlt)

theorem createLocalSocket_keeps (hsound : Sound h) (fd : Option Nat) :
    Ensures (h.createLocalSocket fd) (fun r => Keeps h r.2) Anyway := by
  cases fd with
  | none => trivial
  | some fd =>
      have halloc := allocSocket_keeps (s := { newSocket .localSocket with fd }) hsound rfl
      exact (on_keeps halloc.sound (installLocalSocket_steady _ _)).bind fun _ hm => halloc.trans hm

theorem hostServiceToSocket_keeps (hsound : Sound h) (name : Bytes) :
    Ensures (h.hostServiceToSocket name) (fun r => Keeps h r.2) Anyway := by
  unfold hostServiceToSocket
  split
  · have halloc := allocSocket_keeps
      (s := { newSocket .deviceTracker with updateNeeded := true }) hsound rfl
    exact halloc.steady (.of_eq rfl rfl)
  · split
    · have hopened : Ensures h.server.openFd (fun r => Steady h.server r.2) Anyway :=
        ((openFd_calm h.server).mono fun _ _ => trivial).weaken fun _ hcalm => hcalm.steady
      apply (onValue_keeps hsound hopened).bind
      rintro ⟨fd, m⟩ ⟨hm, -⟩
      exact (createLocalSocket_keeps hm.sound fd).bind fun _ hmade => hm.trans hmade
    · exact Keeps.refl hsound

theorem smartFail_keeps (hsound : Sound h) (a : Nat) :
    Ensures (h.smartFail a) (fun r => Keeps h r.2) Anyway :=
  (close_keeps hsound a).bind fun _ hk => hk

theorem Keeps.put_local (hk : Keeps h m) (hs : m.server.socks a = some s)
    (hlocal : q.ops.isLocal = true) (hsize : q.pkts.length = s.pkts.length) :
    Keeps h (m.put a q) :=
  hk.steady (.put_local hs hlocal hsize)

theorem Keeps.put_like (hk : Keeps h m) (hs : m.server.socks a = some s) (hops : q.ops = s.ops)
    (hsize : q.pkts.length = s.pkts.length) : Keeps h (m.put a q) :=
  hk.steady (.put_like hs hops hsize)

theorem handOver_keeps (hsound : Sound h) (a l s2 : Nat) :
    Ensures (h.handOver a l s2) (Keeps h) Anyway := by
  unfold handOver
  apply (on_keeps hsound (writeStatus_steady _ l .okay)).bind
  intro m hm
  apply (deref_any m.server l).bind
  intro peer hpeer
  have hclient := hm.put_local (q := { peer with ops := .localSocket, peer := some s2 }) hpeer rfl rfl
  apply (deref_any _ s2).bind
  intro service hservice
  have hbound := hclient.put_like (q := { service with peer := some l }) hservice rfl rfl
  apply (deref_any _ a).bind
  intro smart hsmart
  have halone := hbound.put_like (q := { smart with peer := none }) hsmart rfl rfl
  exact halone.then (close_keeps halone.sound a)

end Keeping

section Dispatch

-- The packets other than the one that is passed in.
structure KeepsBut (p : Nat) (h h' : Holdings) : Prop where
  sound : Sound h'
  ledger : h.ledger.KeepsBut p h'.ledger

theorem Keeps.but (hk : Keeps h h') (p : Nat) : KeepsBut p h h' := ⟨hk.sound, hk.ledger.but p⟩

theorem KeepsBut.trans (hb : KeepsBut p h m) (hk : Keeps m h') : KeepsBut p h h' :=
  ⟨hk.sound, hb.ledger.trans hk.ledger⟩

theorem KeepsBut.then (hb : KeepsBut p h m) {x : Except Stop (Int × Holdings)}
    (hx : Ensures x (fun r => Keeps m r.2) Anyway) : Ensures x (fun r => KeepsBut p h r.2) Anyway :=
  hx.weaken fun _ hafter => hb.trans hafter

-- What the enqueue of a peer is asked for.
abbrev Spares (enqueue : Holdings → Nat → Nat → Bytes → Except Stop (Int × Holdings)) : Prop :=
  ∀ h a p data, Sound h → Ensures (enqueue h a p data) (fun r => KeepsBut p h r.2) Anyway

variable {enqueue : Holdings → Nat → Nat → Bytes → Except Stop (Int × Holdings)}

theorem deviceTrackerSend_keeps (henqueue : Spares enqueue) (hsound : Sound h) (a : Nat)
    (buffer : Bytes) :
    Ensures (deviceTrackerSend enqueue h a buffer) (fun r => Keeps h r.2) Anyway := by
  have hfresh : Sound h.getApacket.2 := hsound.books rfl
  unfold deviceTrackerSend
  apply (deref_any h.server a).bind
  intro tracker _
  cases tracker.peer with
  | none => trivial
  | some l =>
      exact (henqueue _ l _ buffer hfresh).weaken fun _ hb => ⟨hb.sound, hb.ledger.of_fresh⟩

theorem deviceTrackerReady_keeps (henqueue : Spares enqueue) (hsound : Sound h) (a : Nat) :
    Ensures (deviceTrackerReady enqueue h a) (Keeps h) Anyway := by
  unfold deviceTrackerReady
  apply (deref_any h.server a).bind
  intro tracker htracker
  split
  · have hput := (Keeps.refl hsound).put_like (q := { tracker with updateNeeded := false })
      htracker rfl rfl
    apply ((listTransportsMsg_benign _).mono fun _ _ => trivial).bind
    intro buffer _
    exact (deviceTrackerSend_keeps henqueue hput.sound a buffer).bind fun _ hk => hput.trans hk
  · exact Keeps.refl hsound

theorem readyWith_keeps (henqueue : Spares enqueue) (hsound : Sound h) (a : Nat) :
    Ensures (readyWith enqueue h a) (Keeps h) Anyway := by
  unfold readyWith
  apply (deref_any h.server a).bind
  intro s _
  cases s.ops with
  | localSocket => exact on_keeps hsound (localSocketReady_steady _ a)
  | localSocketNotify => exact on_keeps hsound (localSocketReadyNotify_steady _ a)
  | remoteSocket => exact remoteSocketReady_keeps hsound a
  | smartSocket => exact Keeps.refl hsound
  | deviceTracker => exact deviceTrackerReady_keeps henqueue hsound a

theorem bindService_keeps (henqueue : Spares enqueue) (hsound : Sound h) (a l s2 : Nat) :
    Ensures (bindService enqueue h a l s2) (fun r => Keeps h r.2) Anyway := by
  unfold bindService
  apply (handOver_keeps hsound a l s2).bind
  intro m hm
  exact (readyWith_keeps henqueue hm.sound s2).bind fun _ hk => hm.trans hk

theorem smartHostRequest_keeps (henqueue : Spares enqueue) (hsound : Sound h)
    (hone : backlog (h.server.socks a) = some 1) (service : Bytes) (ttype : TransportType)
    (serial : Option Bytes) :
    Ensures (smartHostRequest enqueue h a service ttype serial) (fun r => Keeps h r.2) Anyway := by
  unfold smartHostRequest
  apply (deref_any h.server a).bind
  intro s _
  cases s.peer with
  | none => trivial
  | some l =>
      apply (onValue_keeps hsound (handleHostRequest_steady _ _ ttype serial l a)).bind
      rintro ⟨r, m⟩ ⟨hm, hsteady⟩
      simp only
      split
      · exact hm.thenValue (smartFail_keeps hm.sound a)
      · split
        · apply (deref_any m.server a).bind
          intro smart hsmart
          have hsize : smart.pkts.length = 1 := by
            have hsizes := (hsteady.sizes a).trans hone
            simpa [backlog, hsmart] using hsizes
          -- the packet stays, empty
          exact hm.put_like (q := { smart with pkts := [[]] }) hsmart rfl hsize.symm
        · apply (hostServiceToSocket_keeps hm.sound service).bind
          rintro ⟨found, made⟩ hmade
          have hboth := hm.trans hmade
          cases found with
          | none =>
              apply (on_keeps hboth.sound (writeStatus_steady _ l _)).bind
              intro told htold
              exact (hboth.trans htold).thenValue (smartFail_keeps htold.sound a)
          | some s2 => exact hboth.thenValue (bindService_keeps henqueue hboth.sound a l s2)

-- What has become of a smart socket's entry meanwhile, it gets its own back.
theorem Keeps.restore (hk : Keeps h m) (hsound : Sound h) (hs : h.server.socks a = some s)
    (hops : q.ops = s.ops) (hsize : q.pkts.length = s.pkts.length) (hlive : m.server.socks a ≠ none)
    (hqueue : m.ledger.queue = h.ledger.queue) : Keeps h (m.put a q) where
  sound := by
    refine ⟨fun b => ?_, fun b hb => ?_⟩
    · by_cases hba : b = a
      · have hfits := hsound.fits a
        rw [hs] at hfits
        simpa [Holdings.put, Server.put, hba, hqueue] using hfits.resize hops hsize
      · simpa [Holdings.put, Server.put, hba] using hk.sound.fits b
    · have hba : b ≠ a := by
        rintro rfl
        exact hlive (hk.sound.unused b hb)
      simpa [Holdings.put, Server.put, hba] using hk.sound.unused b hb
  ledger := hk.ledger

theorem smartForward_keeps (hsound : Sound h) (a : Nat) (service : Bytes) :
    Ensures (h.smartForward a service) (fun r => Keeps h r.2) Anyway := by
  unfold smartForward
  apply (deref_any h.server a).bind
  intro s hs
  cases s.peer with
  | none => trivial
  | some l =>
      apply ((isOffline_ensures h.server s.transport).mono fun _ _ => trivial).bind
      intro offline _
      split
      · apply (on_keeps hsound (writeStatus_steady _ l _)).bind
        intro told htold
        exact htold.thenValue (smartFail_keeps htold.sound a)
      · apply (deref_any h.server l).bind
        intro peer hpeer
        obtain ⟨waiting, hwaiting⟩ : ∃ waiting : ASocket, waiting = { peer with
            ops := .localSocketNotify, peer := none, transport := s.transport } := ⟨_, rfl⟩
        have hput : Steady h.server (h.server.put l waiting) :=
          .put_local hpeer (by rw [hwaiting]; rfl) (by rw [hwaiting])
        have hnoted : Keeps h { h with server := (h.server.put l waiting).note (.forwarded l) } :=
          (Keeps.refl hsound).steady (hput.trans (.of_eq rfl rfl))
        simp only [← hwaiting]
        apply (connectToRemote_keeps hnoted.sound l service).bind
        rintro m ⟨hm, hsocks, hqueue⟩
        have hlive : m.server.socks a ≠ none := by
          rw [hsocks]
          intro hnone
          rw [(hput.dead a).mp hnone] at hs
          cases hs
        have halone : Keeps h (m.put a { s with peer := none }) :=
          (hnoted.trans hm).restore hsound hs rfl rfl hlive hqueue
        exact (halone.then (close_keeps halone.sound a)).bind fun _ hclosed => hclosed

theorem smartRequest_keeps (henqueue : Spares enqueue) (hsound : Sound h)
    (hone : backlog (h.server.socks a) = some 1) (data : Bytes) :
    Ensures (smartRequest enqueue h a data) (fun r => Keeps h r.2) Anyway := by
  unfold smartRequest
  cases frame data with
  | incomplete => exact Keeps.refl hsound
  | badSize => exact smartFail_keeps hsound a
  | complete service =>
      simp only
      cases parseRequest service with
      | host service ttype serial => exact smartHostRequest_keeps henqueue hsound hone service ttype serial
      | device service => exact smartForward_keeps hsound a service

end Dispatch

section Fate

-- A packet is in one place, and where that is a queue its socket is there.
def Settled (h : Holdings) (p : Nat) : Prop :=
  ∃ x, h.ledger.Only p x ∧ ∀ a, x = .queue a → h.server.socks a ≠ none

theorem Sound.settled_iff (hsound : Sound h) : h.Settled p ↔ h.ledger.Settled p := by
  constructor
  · rintro ⟨x, honly, -⟩
    exact ⟨x, honly⟩
  · rintro ⟨x, honly⟩
    refine ⟨x, honly, ?_⟩
    rintro a rfl hdead
    have hfits := hsound.fits a
    rw [hdead] at hfits
    have hone : (h.ledger.queue a).count p = 1 := honly.1
    rw [show h.ledger.queue a = [] from hfits] at hone
    cases hone

-- What enqueue does with a packet: it comes to its place unless the write that is
-- made at once fails, and the others keep theirs.
structure Takes (fails : Prop) (p : Nat) (h h' : Holdings) : Prop where
  others : KeepsBut p h h'
  settled : ¬fails → p < h.ledger.next → h.ledger.Nowhere p → h'.ledger.Settled p
  lost : fails → p < h.ledger.next → h.ledger.Nowhere p → h'.ledger.Nowhere p

variable {fails : Prop}

theorem Takes.of_gains {x : Ledger.Place Nat} (hsound : Sound h') (hg : h.ledger.Gains x p h'.ledger)
    (hfails : ¬fails) : Takes fails p h h' where
  others := ⟨hsound, hg.keepsBut⟩
  settled _ _ hp := ⟨x, hg.only hp⟩
  lost hf := absurd hf hfails

theorem Takes.trans (ht : Takes fails p h m) (hk : Keeps m h') (hfails : ¬fails) :
    Takes fails p h h' where
  others := ht.others.trans hk
  settled hf hlt hp :=
    hk.ledger.settled p (Nat.lt_of_lt_of_le hlt ht.others.ledger.next) (ht.settled hf hlt hp)
  lost hf := absurd hf hfails

theorem Sound.keep (hsound : Sound h) (hs : h.server.socks a = some s)
    (hfits : Fits (some q) (h.ledger.queue a ++ [p])) :
    Sound ({ h with ledger := h.ledger.keep a p }.put a q) where
  fits b := by
    by_cases hba : b = a
    · simpa [Holdings.put, Server.put, Ledger.keep, hba] using hfits
    · simpa [Holdings.put, Server.put, Ledger.keep, hba] using hsound.fits b
  unused b hb := by
    have hba : b ≠ a := by
      rintro rfl
      rw [hsound.unused b hb] at hs
      cases hs
    simpa [Holdings.put, Server.put, hba] using hsound.unused b hb

theorem queuePacket_takes (hsound : Sound h) (hs : h.server.socks a = some s)
    (hlocal : s.ops.isLocal = true) (data : Bytes) (hfails : ¬fails) :
    Ensures (h.queuePacket a p data) (fun r => Takes fails p h r.2) Anyway := by
  unfold queuePacket
  refine (ensures_bind_ok (Server.deref_some hs)).mpr ?_
  obtain ⟨queued, hqueued⟩ : ∃ queued : ASocket, queued = { s with
      pkts := s.pkts ++ [data], fde := fdeventAdd s.fde FDE_WRITE } := ⟨_, rfl⟩
  have hroom : Fits (some queued) (h.ledger.queue a ++ [p]) := by
    have hfits := hsound.fits a
    rw [hs] at hfits
    rw [hqueued]
    exact ⟨by simp [hfits.1], .local hlocal⟩
  have hkept := hsound.keep (p := p) hs hroom
  simp only [← hqueued]
  exact Takes.of_gains hkept Ledger.gains_keep hfails

theorem localSocketEnqueue_takes (hsound : Sound h) (hs : h.server.socks a = some s)
    (hlocal : s.ops.isLocal = true) (data : Bytes) :
    Ensures (h.localSocketEnqueue a p data)
      (fun r => Takes (writeFails s data h.server.script.writes = true) p h r.2) Anyway := by
  unfold localSocketEnqueue
  refine (ensures_bind_ok (Server.deref_some hs)).mpr ?_
  by_cases hpkts : s.pkts = []
  · rw [if_neg (by simp [hpkts])]
    obtain ⟨result, hresult⟩ : ∃ result, result = writeLoop false data h.server.script.writes :=
      ⟨_, rfl⟩
    have hfails : writeFails s data h.server.script.writes = decide (result.outcome = .failed) := by
      simp [writeFails, hpkts, hresult]
    -- the state once the direct write is over
    obtain ⟨server, hserver⟩ : ∃ server : Server, server = ({ h.server with
        script := { h.server.script with writes := result.writes } }.note (.wrote a result.written)) :=
      ⟨_, rfl⟩
    have hsteady : Steady h.server server := by
      rw [hserver]
      exact .of_eq rfl rfl
    have hmid : Sound { h with server } := hsound.steady hsteady
    have hm : server.socks a = some s := by
      rw [hserver]
      exact hs
    simp only [← hresult, ← hserver, hfails, decide_eq_true_eq]
    cases hout : result.outcome with
    | blocked => trivial
    | failed =>
        apply (close_closes _ a hmid).bind
        intro m hclosed
        obtain ⟨gone, hdrains, -⟩ := hclosed.drains
        exact ⟨⟨hclosed.sound, hdrains.keeps.but p⟩, fun hf => absurd rfl hf,
          fun _ hlt hp => hdrains.nowhere hlt hp⟩
    | done => exact Takes.of_gains (hmid.books rfl) Ledger.gains_release (by simp)
    | again =>
        exact (queuePacket_takes hmid hm hlocal result.rest not_false).weaken
          fun _ ht => ⟨⟨ht.others.sound, ht.others.ledger⟩, fun _ => ht.settled not_false, by simp⟩
  · rw [if_pos hpkts]
    exact queuePacket_takes hsound hs hlocal data (by simp [writeFails, hpkts])

theorem remoteSocketEnqueue_takes (hsound : Sound h) (a : Nat) (data : Bytes) (hfails : ¬fails) :
    Ensures (h.remoteSocketEnqueue a p data) (fun r => Takes fails p h r.2) Anyway := by
  unfold remoteSocketEnqueue sendPacket
  apply (deref_any h.server a).bind
  intro s _
  cases s.peer with
  | none => trivial
  | some l =>
      apply (deref_any h.server l).bind
      intro peer _
      simp only [bind_assoc]
      apply ((sendPacket_ensures h.server s.transport _ _).mono fun _ _ => trivial).bind
      rintro _ ⟨u, -, rfl⟩
      have hnoted : Steady h.server
          (h.server.note (.sent u ⟨A_WRTE, peer.id, s.id, data⟩ (some (l, a)))) := .of_eq rfl rfl
      exact Takes.of_gains ((hsound.steady hnoted).books rfl) Ledger.gains_hand hfails

theorem putApacket_takes (hsound : Sound h) (p : Nat) (hfails : ¬fails) :
    Takes fails p h (h.putApacket p) :=
  .of_gains (hsound.books rfl) Ledger.gains_release hfails

theorem deviceTrackerEnqueue_takes (hsound : Sound h) (hs : h.server.socks a = some s)
    (hops : s.ops = .deviceTracker) (hfails : ¬fails) :
    Ensures (h.deviceTrackerEnqueue a p) (fun r => Takes fails p h r.2) Anyway := by
  unfold deviceTrackerEnqueue
  have hput := putApacket_takes hsound p hfails
  apply (deviceTrackerClose_closes close_closes hput.others.sound (a := a) hs hops).bind
  exact fun m hm => hput.trans hm.keeps hfails

theorem smartSocketEnqueue_takes
    {enqueue : Holdings → Nat → Nat → Bytes → Except Stop (Int × Holdings)}
    (henqueue : Spares enqueue) (hsound : Sound h) (hs : h.server.socks a = some s)
    (hops : s.ops = .smartSocket) (data : Bytes) (hfails : ¬fails) :
    Ensures (smartSocketEnqueue enqueue h a p data) (fun r => Takes fails p h r.2) Anyway := by
  unfold smartSocketEnqueue
  refine (ensures_bind_ok (Server.deref_some hs)).mpr ?_
  simp only
  split
  · rename_i hpkts
    have hempty : h.ledger.queue a = [] := (hsound.smart hs hops).2 hpkts
    have hkept := hsound.keep (p := p) (q := { s with pkts := [s.pkts.headD [] ++ data] }) hs
      ⟨by simp [hempty], by simp [ASocket.Shaped, hops]⟩
    have htaken : Takes fails p h _ := .of_gains hkept Ledger.gains_keep hfails
    have hone : backlog (({ h with ledger := h.ledger.keep a p }.put a
        { s with pkts := [s.pkts.headD [] ++ data] }).server.socks a) = some 1 := by
      simp [Holdings.put, Server.put, backlog]
    exact (smartRequest_keeps henqueue hkept hone _).weaken fun _ hk => htaken.trans hk hfails
  · rename_i hpkts
    have hput := putApacket_takes hsound p hfails
    split
    · exact (smartFail_keeps hput.others.sound a).weaken fun _ hk => hput.trans hk hfails
    · have hsize : s.pkts.length = 1 := by
        have hfits := hsound.fits a
        rw [hs] at hfits
        have hshaped : s.pkts.length ≤ 1 := by simpa [ASocket.Shaped, hops] using hfits.2
        have hpos : 0 < s.pkts.length := List.length_pos_iff.mpr hpkts
        omega
      have hk := (Keeps.refl hput.others.sound).put_like
        (q := { s with pkts := [s.pkts.headD [] ++ data] }) hs rfl hsize.symm
      have hone : backlog (((h.putApacket p).put a
          { s with pkts := [s.pkts.headD [] ++ data] }).server.socks a) = some 1 := by
        simp [Holdings.put, Server.put, backlog]
      exact (hk.thenValue (smartRequest_keeps henqueue hk.sound hone _)).weaken
        fun _ hafter => hput.trans hafter hfails

-- The socket is a local one, and the write that its enqueue makes at once fails.
def directWriteFails (st : Server) (a : Nat) (data : Bytes) : Bool :=
  (st.socks a).any fun s => s.ops.isLocal && writeFails s data st.script.writes

theorem enqueueWithin_takes (depth : Nat) (h : Holdings) (a p : Nat) (data : Bytes)
    (hsound : Sound h) :
    Ensures (enqueueWithin depth h a p data)
      (fun r => Takes (directWriteFails h.server a data = true) p h r.2) Anyway := by
  induction depth generalizing h a p data with
  | zero => trivial
  | succ depth ih =>
      unfold enqueueWithin
      apply (deref_any h.server a).bind
      intro s hs
      have hfails : directWriteFails h.server a data =
          (s.ops.isLocal && writeFails s data h.server.script.writes) := by
        simp [directWriteFails, hs]
      rw [hfails]
      cases hops : s.ops with
      | localSocket =>
          have htakes := localSocketEnqueue_takes (p := p) hsound hs (by rw [hops]; rfl) data
          simpa [Ops.isLocal] using htakes
      | localSocketNotify =>
          have htakes := localSocketEnqueue_takes (p := p) hsound hs (by rw [hops]; rfl) data
          simpa [Ops.isLocal] using htakes
      | remoteSocket => exact remoteSocketEnqueue_takes hsound a data (by simp [Ops.isLocal])
      | smartSocket =>
          have hspares : Spares (enqueueWithin depth) := fun h a p data hsound =>
            (ih h a p data hsound).weaken fun _ ht => ht.others
          exact smartSocketEnqueue_takes hspares hsound hs hops data (by simp [Ops.isLocal])
      | deviceTracker => exact deviceTrackerEnqueue_takes hsound hs hops (by simp [Ops.isLocal])

-- A server that has just made a socket for a descriptor, and a packet in hand.
def lone (writes : List WriteOutcome) : Except Stop (Nat × Holdings) :=
  createLocalSocket
    ⟨{ serverInit with script := ⟨[], writes, [], []⟩ }, ⟨fun _ => [], [], [], 1⟩⟩ (some 5)

theorem lone_sound {writes : List WriteOutcome} (hmade : lone writes = .ok (a, h)) : Sound h := by
  have hinit : Sound ⟨{ serverInit with script := ⟨[], writes, [], []⟩ }, ⟨fun _ => [], [], [], 1⟩⟩ :=
    ⟨fun _ => rfl, fun _ _ => rfl⟩
  exact ((createLocalSocket_keeps hinit (some 5)).of_ok hmade).sound

theorem lone_nowhere {writes : List WriteOutcome} (hmade : lone writes = .ok (a, h)) (p : Nat) :
    h.ledger.Nowhere p := by
  cases hmade
  have hqueue : Function.update (fun _ : Nat => ([] : List Nat)) 0 [] = fun _ => [] :=
    Function.update_eq_self 0 _
  intro x
  cases x with
  | queue b =>
      show (Function.update (fun _ : Nat => ([] : List Nat)) 0 [] b).count p = 0
      rw [hqueue, List.count_nil]
  | _ => rfl

-- The packet that is passed in is in one place afterwards, but for the write that
-- fails: then nobody has it.
theorem enqueue_settles_iff {r : Int} {data : Bytes} (hsound : Sound h)
    (hp : p < h.ledger.next) (hnew : h.ledger.Nowhere p) (hrun : h.enqueue a p data = .ok (r, h')) :
    h'.Settled p ↔ directWriteFails h.server a data = false := by
  have htakes := (enqueueWithin_takes 2 h a p data hsound).of_ok hrun
  rw [htakes.others.sound.settled_iff]
  constructor
  · intro hs
    by_contra hfails
    exact (htakes.lost (by simpa using hfails) hp hnew).not_settled hs
  · intro hf
    exact htakes.settled (by simp [hf]) hp hnew

theorem enqueue_settles_of_lone : ∃ h h', lone [.again] = .ok (0, h) ∧
    h.enqueue 0 0 (ascii "A") = .ok (1, h') ∧ h'.Settled 0 := by
  obtain ⟨h, hmade⟩ : ∃ h, lone [.again] = .ok (0, h) := ⟨_, rfl⟩
  obtain ⟨h', hrun⟩ : ∃ h', h.enqueue 0 0 (ascii "A") = .ok (1, h') := by
    cases hmade
    exact ⟨_, rfl⟩
  have hnext : 0 < h.ledger.next := by
    cases hmade
    decide
  have hwrites : directWriteFails h.server 0 (ascii "A") = false := by
    cases hmade
    decide
  exact ⟨h, h', hmade, hrun,
    (enqueue_settles_iff (lone_sound hmade) hnext (lone_nowhere hmade 0) hrun).mpr hwrites⟩

-- The socket is closed, and nobody has the packet.
theorem failed_write_leaks : ∃ h h', lone [.failed] = .ok (0, h) ∧ Sound h ∧ h.ledger.Nowhere 0 ∧
    h.enqueue 0 0 (ascii "A") = .ok (1, h') ∧ ¬h'.Settled 0 := by
  obtain ⟨h, hmade⟩ : ∃ h, lone [.failed] = .ok (0, h) := ⟨_, rfl⟩
  obtain ⟨h', hrun⟩ : ∃ h', h.enqueue 0 0 (ascii "A") = .ok (1, h') := by
    cases hmade
    exact ⟨_, rfl⟩
  have hsound := lone_sound hmade
  have hnew := lone_nowhere hmade 0
  refine ⟨h, h', hmade, hsound, hnew, hrun, ?_⟩
  have hnext : 0 < h.ledger.next := by
    cases hmade
    decide
  have hfails : directWriteFails h.server 0 (ascii "A") = true := by
    cases hmade
    decide
  have htakes := (enqueueWithin_takes 2 h 0 0 (ascii "A") hsound).of_ok hrun
  rw [htakes.others.sound.settled_iff]
  exact (htakes.lost hfails hnext hnew).not_settled

end Fate

end Holdings

end Adb.Host
