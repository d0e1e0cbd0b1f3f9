import Adb.Host.Offline
import Mathlib.Data.List.Perm.Subperm

namespace Adb.Host

open Adb.Lib

variable {st mid after : Server} {a b c p t : Nat} {s q peer : ASocket} {xs ys : List Nat}

-- A graph of sockets whose peers are symmetric: the two lists hold the local
-- sockets, a socket that waits for its status has no peer, and the transport of a
-- remote socket is there.
structure Symmetric (st : Server) : Prop where
  base : Base st
  back : ∀ a s b, st.socks a = some s → s.peer = some b →
    b ≠ a ∧ ∃ r, st.socks b = some r ∧ r.peer = some a
  notify : ∀ a s, st.socks a = some s → s.ops = .localSocketNotify → s.peer = none
  live : ∀ a s, st.socks a = some s → s.ops = .remoteSocket →
    ∃ t, s.transport = some t ∧ (st.transports t).isSome

theorem Symmetric.of_graph (h : Graph st) (hb : Books st) : Symmetric st where
  base := h.base
  back := h.peers.back
  notify := h.peers.notify
  live := by
    intro a s hs hops
    obtain ⟨t, ht, transport, htransport, -⟩ := hb.remotes a s hs hops
    exact ⟨t, ht, by rw [htransport]; rfl⟩

section Lists

theorem walkList_eq {node : SRef} {fuel : Nat} (h : st.links.Linked node (xs.map .socket) .socketList)
    (hlive : ∀ a ∈ xs, ∃ s, st.socks a = some s) (hfuel : xs.length < fuel) :
    walkList st .socketList fuel (st.links.next node) = .ok xs := by
  induction xs generalizing node fuel with
  | nil =>
      obtain ⟨fuel, rfl⟩ : ∃ k, fuel = k + 1 := ⟨fuel - 1, by omega⟩
      rw [h.1]
      rfl
  | cons x xs ih =>
      rw [List.length_cons] at hfuel
      obtain ⟨fuel, rfl⟩ : ∃ k, fuel = k + 1 := ⟨fuel - 1, by omega⟩
      obtain ⟨s, hs⟩ := hlive x (List.mem_cons_self ..)
      have hrest := @ih (.socket x) fuel h.2.2 (fun a ha => hlive a (List.mem_cons_of_mem _ ha)) (by omega)
      rw [h.1]
      simp only [walkList, Server.deref_some hs, hrest, bind, Except.bind]
      rfl

theorem Lists.nodup (hl : Lists st xs ys) : xs.Nodup :=
  List.Nodup.of_map _ (List.nodup_cons.mp hl.listed.2).2

theorem Lists.length_le (hl : Lists st xs ys) (h : Owners st) : xs.length ≤ st.nextSocket := by
  have hsub : xs ⊆ List.range st.nextSocket := by
    intro a ha
    obtain ⟨s, hs, -⟩ := (hl.mem_listed a).mp ha
    rw [List.mem_range]
    by_contra hge
    rw [h.fresh a (by omega)] at hs
    cases hs
  have hle := (List.subperm_of_subset hl.nodup hsub).length_le
  rwa [List.length_range] at hle

theorem localSockets_eq (hl : Lists st xs ys) (h : Owners st) : localSockets st = .ok xs := by
  apply walkList_eq hl.listed.1
  · intro a ha
    obtain ⟨s, hs, -⟩ := (hl.mem_listed a).mp ha
    exact ⟨s, hs⟩
  · have hle := hl.length_le h
    omega

end Lists

section Close

-- The transports that are there stay.
def SameTransports (st after : Server) : Prop :=
  ∀ t, (after.transports t).isSome = (st.transports t).isSome

theorem SameTransports.putTransport {transport : ATransport} (ht : st.transports t = some transport)
    (x : ATransport) : SameTransports st (st.putTransport t x) := by
  intro u
  by_cases hut : u = t
  · subst hut
    simp [Server.putTransport, ht]
  · simp [Server.putTransport, hut]

-- A remote socket goes with its record.
theorem remoteSocketFree_eq (hs : st.socks p = some s) (ht : s.transport = some t)
    (hlive : (st.transports t).isSome) :
    ∃ after, remoteSocketFree st p = .ok after ∧ SameTransports st after := by
  obtain ⟨transport, htransport⟩ := Option.isSome_iff_exists.mp hlive
  refine ⟨(st.putTransport t
    { transport with disconnects := transport.disconnects.erase (.remote p) }).free p, ?_, ?_⟩
  · simp only [remoteSocketFree, Server.deref_some hs, ht, Server.removeTransportDisconnect,
      Server.derefTransport, htransport, bind, Except.bind]
    rfl
  · exact SameTransports.putTransport htransport _

theorem remoteSocketClose_eq (hs : st.socks p = some s) (hp : s.peer = none) (ht : s.transport = some t)
    (hlive : (st.transports t).isSome) (close : Server → Nat → Except Stop Server) :
    ∃ after, remoteSocketClose close st p = .ok after ∧ SameTransports st after := by
  obtain ⟨transport, htransport⟩ := Option.isSome_iff_exists.mp hlive
  have hsend : st.sendPacket (some t) ⟨A_CLSE, 0, s.id, []⟩ none =
      .ok (st.note (.sent t ⟨A_CLSE, 0, s.id, []⟩ none)) := by
    simp only [Server.sendPacket, Server.derefTransport, htransport, bind, Except.bind]
    rfl
  have hsent : (st.note (.sent t ⟨A_CLSE, 0, s.id, []⟩ none)).socks p = some s := hs
  obtain ⟨after, hfree, hsame⟩ := remoteSocketFree_eq hsent ht hlive
  refine ⟨after, ?_, hsame⟩
  simp only [remoteSocketClose, Server.deref_some hs, hp, ht, hsend, hfree, bind, Except.bind, pure,
    Except.pure]

-- Whatever a socket is, its close comes to its end once its peer pointer is clear.
theorem closePeer_eq (h : Symmetric st) (hs : st.socks p = some peer)
    (hn : peer.ops ≠ .localSocketNotify) :
    ∃ mid, closePeer close st p = .ok mid ∧ SameTransports st mid := by
  have hput : (st.put p { peer with peer := none }).socks p = some { peer with peer := none } := by
    simp [Server.put]
  have hcall : closePeer close st p = closeWithin 3 (st.put p { peer with peer := none }) p := by
    simp only [closePeer, Server.deref_some hs, bind, Except.bind]
    rfl
  cases hops : peer.ops with
  | localSocket =>
      obtain ⟨links, he, -⟩ := closePeer_local h.base hs hops 2
      exact ⟨_, he, fun _ => rfl⟩
  | localSocketNotify => exact absurd hops hn
  | remoteSocket =>
      obtain ⟨t, ht, hlive⟩ := h.live p peer hs hops
      rw [hcall, closeWithin_remote hput hops]
      exact remoteSocketClose_eq hput rfl ht hlive _
  | smartSocket =>
      have hclose : closeWithin 3 (st.put p { peer with peer := none }) p =
          .ok ((st.put p { peer with peer := none }).free p) := by
        rw [closeWithin_smart hput hops]
        simp only [smartSocketClose, Server.deref_some hput, bind, Except.bind, pure, Except.pure]
      exact ⟨_, hcall.trans hclose, fun _ => rfl⟩
  | deviceTracker =>
      have hclose : closeWithin 3 (st.put p { peer with peer := none }) p =
          .ok ({ (st.put p { peer with peer := none }) with
            deviceTrackerList := st.deviceTrackerList.erase p }.free p) := by
        rw [closeWithin_tracker hput hops]
        simp only [deviceTrackerClose, Server.deref_some hput, bind, Except.bind, pure, Except.pure]
        rfl
      exact ⟨_, hcall.trans hclose, fun _ => rfl⟩

-- local_socket_close_locked returns, and the socket and its peer have come to
-- their ends.
structure Parted (st : Server) (a : Nat) (s : ASocket) (after : Server) : Prop where
  base : Base after
  socks : after.socks = Function.update (severed st.socks s.peer) a (fate s)
  transports : SameTransports st after
  nextSocket : after.nextSocket = st.nextSocket

theorem closeLocked_parted (h : Symmetric st) (hs : st.socks a = some s) (hlocal : s.ops.isLocal = true) :
    ∃ after, localSocketCloseLocked close st a = .ok after ∧ Parted st a s after := by
  cases hp : s.peer with
  | none =>
      obtain ⟨links, he, hb⟩ := finish_base h.base hs hlocal hp
      refine ⟨_, (closeLocked_alone hs hp).trans he, hb, ?_, fun _ => rfl, rfl⟩
      simp [Server.relinked, severed, hp]
  | some p =>
      obtain ⟨hpa, peer, hpeer, hback⟩ := h.back a s p hs hp
      have hn : peer.ops ≠ .localSocketNotify := by
        intro hops
        rw [h.notify p peer hpeer hops] at hback
        cases hback
      obtain ⟨mid, hclose, hsame⟩ := closePeer_eq h hpeer hn
      have hc : Cut st p peer mid := (closePeer_cut h.base hpeer hn 2).of_ok hclose
      have hmid : mid.socks a = some s := by
        rw [hc.socks, Function.update_of_ne hpa.symm, hs]
      obtain ⟨links, he, hb⟩ := finish_cleared hc.base hmid hlocal
      refine ⟨_, ?_, hb, ?_, hsame, hc.nextSocket⟩
      · simp only [localSocketCloseLocked, Server.deref_some hs, Server.deref_some hmid, hp, hclose,
          bind, Except.bind]
        exact he
      · rw [hp]
        simp [Server.relinked, severed, hc.socks, hpeer]

-- What is left was there before, or is on its own and waits to be destroyed.
theorem Parted.cases (he : Parted st a s after) (hs : st.socks a = some s) (hq : after.socks c = some q) :
    (c ≠ a ∧ s.peer ≠ some c ∧ st.socks c = some q) ∨
      ∃ old, st.socks c = some old ∧ fate old = some q := by
  rw [he.socks] at hq
  by_cases hca : c = a
  · subst hca
    rw [Function.update_self] at hq
    exact .inr ⟨s, hs, hq⟩
  · rw [Function.update_of_ne hca] at hq
    cases hp : s.peer with
    | none =>
        rw [hp] at hq
        exact .inl ⟨hca, by simp, hq⟩
    | some p =>
        rw [hp, severed] at hq
        by_cases hcp : c = p
        · subst hcp
          rw [Function.update_self, Option.bind_eq_some_iff] at hq
          exact .inr hq
        · rw [Function.update_of_ne hcp] at hq
          exact .inl ⟨hca, by simpa using Ne.symm hcp, hq⟩

-- Any other socket is as it was.
theorem Parted.others (he : Parted st a s after) (hca : c ≠ a) (hcp : s.peer ≠ some c) :
    after.socks c = st.socks c := by
  rw [he.socks, Function.update_of_ne hca]
  cases hp : s.peer with
  | none => rfl
  | some p => exact Function.update_of_ne (fun hc => hcp (by rw [hp, hc])) _ _

theorem fate_kept {old : ASocket} (h : fate old = some q) :
    q.closing = true ∧ q.peer = none ∧ q.ops = old.ops ∧ q.transport = old.transport ∧
      old.ops.isLocal = true := by
  unfold fate at h
  split at h
  · rename_i hlocal
    cases h
    exact ⟨rfl, rfl, rfl, rfl, hlocal.1⟩
  · cases h

theorem Parted.symmetric (he : Parted st a s after) (h : Symmetric st) (hs : st.socks a = some s) :
    Symmetric after where
  base := he.base
  back := by
    intro c q b hq hb
    obtain ⟨hca, hcp, hold⟩ | ⟨old, -, hf⟩ := he.cases hs hq
    · obtain ⟨hbc, r, hr, hback⟩ := h.back c q b hold hb
      have hba : b ≠ a := by
        intro hba
        subst hba
        rw [hs, Option.some.injEq] at hr
        subst hr
        exact hcp hback
      have hbp : s.peer ≠ some b := by
        intro hbp
        obtain ⟨-, r', hr', hback'⟩ := h.back a s b hs hbp
        rw [hr, Option.some.injEq] at hr'
        subst hr'
        rw [hback, Option.some.injEq] at hback'
        exact hca hback'
      exact ⟨hbc, r, (he.others hba hbp).trans hr, hback⟩
    · rw [(fate_kept hf).2.1] at hb
      cases hb
  notify := by
    intro c q hq hops
    obtain ⟨-, -, hold⟩ | ⟨old, -, hf⟩ := he.cases hs hq
    · exact h.notify c q hold hops
    · exact (fate_kept hf).2.1
  live := by
    intro c q hq hops
    obtain ⟨-, -, hold⟩ | ⟨old, -, hf⟩ := he.cases hs hq
    · obtain ⟨t, ht, hlive⟩ := h.live c q hold hops
      exact ⟨t, ht, (he.transports t).trans hlive⟩
    · obtain ⟨-, -, hsame, -, hlocal⟩ := fate_kept hf
      rw [← hsame, hops] at hlocal
      cases hlocal

end Close

section CloseAll

-- s->transport == t || (s->peer && s->peer->transport == t)
def boundTo (st : Server) (t a : Nat) : Bool :=
  (st.socks a).any fun s => s.transport = some t ∨
    (s.peer.bind st.socks).any fun peer => peer.transport = some t

theorem boundTo_iff (hs : st.socks a = some s) : boundTo st t a = true ↔
    s.transport = some t ∨ ∃ p peer, s.peer = some p ∧ st.socks p = some peer ∧ peer.transport = some t := by
  rw [boundTo, hs, Option.any_some, decide_eq_true_iff]
  refine or_congr_right ?_
  cases s.peer with
  | none => simp
  | some p =>
      rw [Option.bind_some]
      cases hp : st.socks p with
      | none => simp [hp]
      | some peer => simp [hp]

-- A socket that is neither bound to t nor a peer of such a one, as both ends of a
-- connection see it.
def Apart (st : Server) (t a : Nat) (s : ASocket) : Prop :=
  st.socks a = some s ∧ boundTo st t a = false

theorem Parted.apart (he : Parted st a s after) (h : Symmetric st) (hs : st.socks a = some s)
    (hbound : boundTo st t a = true) (hc : Apart st t c q) : Apart after t c q := by
  obtain ⟨hq, hfree⟩ := hc
  have hnot : ¬(q.transport = some t ∨
      ∃ p peer, q.peer = some p ∧ st.socks p = some peer ∧ peer.transport = some t) := by
    rw [← boundTo_iff hq, hfree]
    decide
  have hca : c ≠ a := by
    intro hca
    subst hca
    rw [hbound] at hfree
    cases hfree
  have hcp : s.peer ≠ some c := by
    intro hcp
    obtain ⟨-, r, hr, hback⟩ := h.back a s c hs hcp
    rw [hq, Option.some.injEq] at hr
    subst hr
    obtain hown | ⟨p, peer, hp, hpeer, ht⟩ := (boundTo_iff hs).mp hbound
    · exact hnot (.inr ⟨a, s, hback, hs, hown⟩)
    · rw [hcp, Option.some.injEq] at hp
      subst hp
      rw [hq, Option.some.injEq] at hpeer
      subst hpeer
      exact hnot (.inl ht)
  have hq' : after.socks c = some q := (he.others hca hcp).trans hq
  refine ⟨hq', ?_⟩
  rw [← Bool.not_eq_true, boundTo_iff hq']
  rintro (hown | ⟨p, peer, hp, hpeer, ht⟩)
  · exact hnot (.inl hown)
  · have hpa : p ≠ a := by
      intro hpa
      subst hpa
      obtain ⟨-, r, hr, hback⟩ := h.back c q p hq hp
      rw [hs, Option.some.injEq] at hr
      subst hr
      exact hcp hback
    have hpp : s.peer ≠ some p := by
      intro hpp
      obtain ⟨-, r, hr, hback⟩ := h.back c q p hq hp
      obtain ⟨-, r', hr', hback'⟩ := h.back a s p hs hpp
      rw [hr, Option.some.injEq] at hr'
      subst hr'
      rw [hback, Option.some.injEq] at hback'
      exact hca hback'
    rw [he.others hpa hpp] at hpeer
    exact hnot (.inr ⟨p, peer, hp, hpeer, ht⟩)

-- Each close takes the socket, at least, off the list.
theorem Parted.shorter (he : Parted st a s after) (hs : st.socks a = some s) (hl : Lists st xs ys)
    (ha : a ∈ xs) {xs' ys' : List Nat} (hl' : Lists after xs' ys') : xs'.length < xs.length := by
  have hsub : xs' ⊆ xs.erase a := by
    intro c hc
    obtain ⟨q, hq, hlocal, hopen⟩ := (hl'.mem_listed c).mp hc
    obtain ⟨hca, -, hold⟩ | ⟨old, -, hf⟩ := he.cases hs hq
    · rw [hl.nodup.mem_erase_iff]
      exact ⟨hca, (hl.mem_listed c).mpr ⟨q, hold, hlocal, hopen⟩⟩
    · rw [(fate_kept hf).1] at hopen
      cases hopen
  have hle := (List.subperm_of_subset hl'.nodup hsub).length_le
  have hpos := List.length_pos_of_mem ha
  rw [List.length_erase_of_mem ha] at hle
  omega

-- What close_all_sockets leaves.
structure AllGone (st : Server) (t : Nat) (after : Server) : Prop where
  symmetric : Symmetric after
  gone : ∃ xs, localSockets after = .ok xs ∧ ∀ a ∈ xs, boundTo after t a = false
  others : ∀ a s, Apart st t a s → after.socks a = some s

-- A turn closes the first socket of the list that has to do with t.
theorem closeAllFrom_turn (fuel t : Nat) (hlist : localSockets st = .ok xs) :
    closeAllFrom t (fuel + 1) st = (xs.find? (boundTo st t)).elim (.ok st)
      fun a => localSocketCloseLocked close st a >>= closeAllFrom t fuel := by
  simp only [closeAllFrom, hlist, bind, Except.bind]
  split
  · rename_i heq
    have hfind : xs.find? (boundTo st t) = none := heq
    rw [hfind]
    rfl
  · rename_i a heq
    have hfind : xs.find? (boundTo st t) = some a := heq
    rw [hfind]
    rfl

theorem closeAllFrom_gone {fuel : Nat} (t : Nat) (h : Symmetric st) (hl : Lists st xs ys)
    (hfuel : xs.length < fuel) : ∃ after, closeAllFrom t fuel st = .ok after ∧ AllGone st t after := by
  induction fuel generalizing st xs ys with
  | zero => omega
  | succ fuel ih =>
      have hlist := localSockets_eq hl h.base.owners
      rw [closeAllFrom_turn fuel t hlist]
      cases hfind : xs.find? (boundTo st t) with
      | none =>
          refine ⟨st, rfl, h, ⟨xs, hlist, fun a ha => ?_⟩, fun a s ha => ha.1⟩
          exact Bool.not_eq_true _ ▸ List.find?_eq_none.mp hfind a ha
      | some a =>
          have ha := List.mem_of_find?_eq_some hfind
          have hbound := List.find?_some hfind
          obtain ⟨s, hs, hlocal, -⟩ := (hl.mem_listed a).mp ha
          obtain ⟨mid, hclose, he⟩ := closeLocked_parted h hs hlocal
          obtain ⟨xs', ys', hl'⟩ := he.base.lists
          have hless := he.shorter hs hl ha hl'
          obtain ⟨after, hafter, hgone⟩ := ih (he.symmetric h hs) hl' (by omega)
          refine ⟨after, ?_, hgone.symmetric, hgone.gone, fun c q hc => ?_⟩
          · show localSocketCloseLocked close st a >>= closeAllFrom t fuel = .ok after
            rw [hclose]
            exact hafter
          · exact hgone.others c q (he.apart h hs hbound hc)

theorem boundTo_eq_false (hs : st.socks a = some s) : boundTo st t a = false ↔
    s.transport ≠ some t ∧
      ∀ p peer, s.peer = some p → st.socks p = some peer → peer.transport ≠ some t := by
  rw [← Bool.not_eq_true, boundTo_iff hs]
  push Not
  rfl

-- close_all_sockets returns, no socket of the list has to do with t any more, and
-- those that never had are as they were, on the list or not.
theorem close_all_sockets_spec (st : Server) (t : Nat) (h : Symmetric st) :
    ∃ after xs xs', closeAllSockets st t = .ok after ∧
      localSockets st = .ok xs ∧ localSockets after = .ok xs' ∧
      (∀ a ∈ xs', ∃ s, after.socks a = some s ∧ s.transport ≠ some t ∧
        ∀ p peer, s.peer = some p → after.socks p = some peer → peer.transport ≠ some t) ∧
      ∀ a s, st.socks a = some s → s.transport ≠ some t →
        (∀ p peer, s.peer = some p → st.socks p = some peer → peer.transport ≠ some t) →
          after.socks a = some s ∧ (a ∈ xs' ↔ a ∈ xs) := by
  obtain ⟨xs, ys, hl⟩ := h.base.lists
  have hlen := hl.length_le h.base.owners
  obtain ⟨after, hclose, hgone⟩ := closeAllFrom_gone t h hl (Nat.lt_succ_of_le hlen)
  obtain ⟨xs', ys', hl'⟩ := hgone.symmetric.base.lists
  obtain ⟨found, hfound, hfree⟩ := hgone.gone
  obtain rfl : found = xs' :=
    Except.ok.inj (hfound.symm.trans (localSockets_eq hl' hgone.symmetric.base.owners))
  refine ⟨after, xs, found, hclose, localSockets_eq hl h.base.owners, hfound, ?_, ?_⟩
  · intro a ha
    obtain ⟨s, hs, -⟩ := (hl'.mem_listed a).mp ha
    exact ⟨s, hs, (boundTo_eq_false hs).mp (hfree a ha)⟩
  · intro a s hs hown hpeers
    have hafter := hgone.others a s ⟨hs, (boundTo_eq_false hs).mpr ⟨hown, hpeers⟩⟩
    refine ⟨hafter, ?_⟩
    rw [hl.mem_listed, hl'.mem_listed, OnList, OnList, hs, hafter]

end CloseAll

-- The transport of a device goes while a client has a shell on it.
set_option maxRecDepth 8000 in
theorem close_all_sockets_of_a_shell : ∃ st after, run step serverInit shellStarted = .ok st ∧
    closeAllSockets st 0 = .ok after := by
  obtain ⟨st, hrun⟩ := exists_of_isOk (x := run step serverInit shellStarted) (by decide)
  have h : Symmetric st := .of_graph (run_whole hrun).graph (run_books hrun)
  obtain ⟨after, -, -, hclose, -⟩ := close_all_sockets_spec st 0 h
  exact ⟨st, after, hrun, hclose⟩

end Adb.Host
