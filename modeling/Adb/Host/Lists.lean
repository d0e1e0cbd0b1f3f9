import Adb.Host.Graph

namespace Adb.Host

open Adb.Lib

section Rings

variable {links : Links SRef} {h k : SRef} {xs ys : List Nat} {a : Nat}

-- Two lists of sockets that have no node in common.
structure TwoRings (links : Links SRef) (h : SRef) (xs : List Nat) (k : SRef) (ys : List Nat) :
    Prop where
  first : links.IsRing h (xs.map .socket)
  second : links.IsRing k (ys.map .socket)
  apart : ∀ r ∈ k :: ys.map .socket, r ∉ h :: xs.map .socket

theorem TwoRings.symm (hr : TwoRings links h xs k ys) : TwoRings links k ys h xs where
  first := hr.second
  second := hr.first
  apart := fun r hr' hr'' => hr.apart r hr'' hr'

theorem TwoRings.unlink (hr : TwoRings links h xs k ys) (ha : a ∈ xs) :
    ∃ p n m, links.prev (.socket a) = some p ∧ links.next (.socket a) = some n ∧
      p ∈ h :: xs.map .socket ∧ n ∈ h :: xs.map .socket ∧ links.unlink (.socket a) = some m ∧
      TwoRings ((m.setNext (.socket a) none).setPrev (.socket a) none) h (xs.erase a) k ys := by
  have hmem : SRef.socket a ∈ xs.map SRef.socket := List.mem_map_of_mem ha
  obtain ⟨p, hp, hprev, -⟩ := hr.first.prev_mem (List.mem_cons_of_mem h hmem)
  obtain ⟨n, hn, hnext, -⟩ := hr.first.next_mem (List.mem_cons_of_mem h hmem)
  obtain ⟨m, hm, hring, -, hframe⟩ := hr.first.unlink hmem
  have herase : (xs.map SRef.socket).erase (.socket a) = (xs.erase a).map .socket := by
    rw [List.map_erase fun _ _ => SRef.socket.inj]
  rw [herase] at hring
  have hout : SRef.socket a ∉ h :: (xs.erase a).map SRef.socket := by
    have hnd := List.nodup_cons.mp hr.first.2
    intro hin
    rcases List.mem_cons.mp hin with he | hin
    · exact hnd.1 (he ▸ hmem)
    · have hxs : xs.Nodup := List.Nodup.of_map _ hnd.2
      simp [hxs.mem_erase_iff] at hin
  refine ⟨p, n, m, hprev, hnext, hp, hn, hm, ?_, ?_, ?_⟩
  · refine hring.congr ?_ ?_ <;>
      · intro y hy
        have hya : y ≠ .socket a := by rintro rfl; exact hout hy
        simp [Links.setNext, Links.setPrev, Function.update_of_ne hya]
  · refine hr.second.congr ?_ ?_ <;>
      · intro y hy
        have hyx := hr.apart y hy
        have hya : y ≠ .socket a := by rintro rfl; exact hyx (List.mem_cons_of_mem h hmem)
        simp [Links.setNext, Links.setPrev, Function.update_of_ne hya, hframe y hyx]
  · intro r hrk hrh
    refine hr.apart r hrk ?_
    rcases List.mem_cons.mp hrh with rfl | hrh
    · exact List.mem_cons_self ..
    · obtain ⟨b, hb, rfl⟩ := List.mem_map.mp hrh
      exact List.mem_cons_of_mem h (List.mem_map_of_mem (List.mem_of_mem_erase hb))

theorem TwoRings.insert (hr : TwoRings links h xs k ys)
    (hx : SRef.socket a ∉ h :: xs.map .socket) (hy : SRef.socket a ∉ k :: ys.map .socket) :
    ∃ p m, links.prev h = some p ∧ p ∈ h :: xs.map .socket ∧
      links.insertTail h (.socket a) = some m ∧ TwoRings m h (xs ++ [a]) k ys := by
  obtain ⟨p, hp, hprev, -⟩ := hr.first.prev_mem (List.mem_cons_self ..)
  obtain ⟨m, hm, hring, hframe⟩ := hr.first.insertTail hx
  refine ⟨p, m, hprev, hp, hm, ?_, ?_, ?_⟩
  · simpa using hring
  · refine hr.second.congr ?_ ?_ <;>
      · intro y hyk
        have hya : y ≠ .socket a := by rintro rfl; exact hy hyk
        simp [hframe y (hr.apart y hyk) hya]
  · intro r hrk hrh
    rcases List.mem_cons.mp hrh with rfl | hrh
    · exact hr.apart r hrk (List.mem_cons_self ..)
    · obtain ⟨b, hb, rfl⟩ := List.mem_map.mp hrh
      rcases List.mem_append.mp hb with hb | hb
      · exact hr.apart _ hrk (List.mem_cons_of_mem h (List.mem_map_of_mem hb))
      · obtain rfl := List.mem_singleton.mp hb
        exact hy hrk

end Rings

section Operations

variable {st : Server} {xs ys : List Nat} {a : Nat} {s : ASocket}

theorem Lists.rings (h : Lists st xs ys) :
    TwoRings st.links .socketList xs .closingList ys where
  first := h.listed
  second := h.closing
  apart := by
    intro r hr hx
    rcases List.mem_cons.mp hr with rfl | hr
    · simp at hx
    · obtain ⟨b, hb, rfl⟩ := List.mem_map.mp hr
      have hbx : b ∈ xs := by simpa using hx
      obtain ⟨s, hs, -, hc⟩ := (h.mem_listed b).mp hbx
      obtain ⟨s', hs', -, hc'⟩ := (h.mem_closing b).mp hb
      rw [hs, Option.some.injEq] at hs'
      subst hs'
      rw [hc] at hc'
      cases hc'

theorem Server.deref_some (hs : st.socks a = some s) : st.deref a = .ok s := by
  simp [Server.deref, hs]

-- A socket on one of two lists is taken off it.
variable (st) in
theorem removeSocket_eq {h k : SRef} (hr : TwoRings st.links h xs k ys) (ha : a ∈ xs)
    (hs : st.socks a = some s) (hlive : ∀ r ∈ h :: xs.map .socket, st.live r = true) :
    ∃ links, removeSocket st a =
        .ok { st with links := links, socks := Function.update st.socks a (some { s with id := 0 }) } ∧
      TwoRings links h (xs.erase a) k ys := by
  obtain ⟨p, n, m, hprev, hnext, hp, hn, hm, hrings⟩ := hr.unlink ha
  refine ⟨_, ?_, hrings⟩
  simp only [removeSocket, Server.deref_some hs, bind, Except.bind, hprev, hnext, hlive p hp,
    hlive n hn, and_self, if_true, hm]
  rfl

variable (st a) in
theorem insertLocalSocket_eq {h k : SRef} (hr : TwoRings st.links h xs k ys)
    (hx : SRef.socket a ∉ h :: xs.map .socket) (hy : SRef.socket a ∉ k :: ys.map .socket)
    (hlive : ∀ r ∈ h :: xs.map .socket, st.live r = true) :
    ∃ links, insertLocalSocket st a h = .ok { st with links := links } ∧
      TwoRings links h (xs ++ [a]) k ys := by
  obtain ⟨p, m, hprev, hp, hm, hrings⟩ := hr.insert hx hy
  refine ⟨m, ?_, hrings⟩
  simp [insertLocalSocket, hprev, hlive p hp, hm]

-- What becomes of a socket that is closed when its peer is gone: a local one
-- with packets left to write is parked.
def fate (s : ASocket) : Option ASocket :=
  if s.ops.isLocal = true ∧ ¬(s.closing = true ∨ s.pkts = []) then
    some { s with peer := none, closing := true, id := 0, fde := fdeventDel s.fde FDE_READ }
  else
    none

def fateLog (a : Nat) (s : ASocket) : List Event :=
  if s.ops.isLocal = true ∧ (s.closing = true ∨ s.pkts = []) then [.closedFd a] else []

theorem Lists.live_listed (h : Lists st xs ys) :
    ∀ r ∈ SRef.socketList :: xs.map .socket, st.live r = true := by
  intro r hr
  rcases List.mem_cons.mp hr with rfl | hr
  · rfl
  · obtain ⟨b, hb, rfl⟩ := List.mem_map.mp hr
    obtain ⟨s, hs, -⟩ := (h.mem_listed b).mp hb
    simp [Server.live, hs]

theorem Lists.live_closing (h : Lists st xs ys) :
    ∀ r ∈ SRef.closingList :: ys.map .socket, st.live r = true := by
  intro r hr
  rcases List.mem_cons.mp hr with rfl | hr
  · rfl
  · obtain ⟨b, hb, rfl⟩ := List.mem_map.mp hr
    obtain ⟨s, hs, -⟩ := (h.mem_closing b).mp hb
    simp [Server.live, hs]

theorem mem_erase_iff_of_ring {links : Links SRef} {h : SRef}
    (hr : links.IsRing h (xs.map .socket)) (b : Nat) : b ∈ xs.erase a ↔ b ≠ a ∧ b ∈ xs :=
  (List.Nodup.of_map _ (List.nodup_cons.mp hr.2).2).mem_erase_iff

-- One socket is replaced, and the lists go with it.
def Server.relinked (st : Server) (links : Links SRef) (a : Nat) (o : Option ASocket)
    (events : List Event) : Server :=
  { st with links, socks := Function.update st.socks a o, log := st.log ++ events }

theorem Lists.replace {links : Links SRef} {xs' ys' : List Nat} {o : Option ASocket}
    {events : List Event} (h : Lists st xs ys)
    (hr : TwoRings links .socketList xs' .closingList ys')
    (hxs : ∀ b, b ≠ a → (b ∈ xs' ↔ b ∈ xs)) (hys : ∀ b, b ≠ a → (b ∈ ys' ↔ b ∈ ys))
    (hax : a ∈ xs' ↔ ∃ s, o = some s ∧ s.ops.isLocal = true ∧ s.closing = false)
    (hay : a ∈ ys' ↔ ∃ s, o = some s ∧ s.ops.isLocal = true ∧ s.closing = true) :
    Lists (st.relinked links a o events) xs' ys' where
  listed := hr.first
  closing := hr.second
  mem_listed := by
    intro b
    by_cases hb : b = a
    · subst hb
      simpa [OnList, Server.relinked] using hax
    · rw [hxs b hb, h.mem_listed]
      simp [OnList, Server.relinked, hb]
  mem_closing := by
    intro b
    by_cases hb : b = a
    · subst hb
      simpa [OnList, Server.relinked] using hay
    · rw [hys b hb, h.mem_closing]
      simp [OnList, Server.relinked, hb]

theorem localSocketDestroy_eq (h : Lists st xs ys) (hs : st.socks a = some s)
    (hlocal : s.ops.isLocal = true) :
    ∃ links xs' ys', localSocketDestroy st a = .ok (st.relinked links a none [.closedFd a]) ∧
      Lists (st.relinked links a none [.closedFd a]) xs' ys' := by
  cases hc : s.closing with
  | false =>
      have ha : a ∈ xs := (h.mem_listed a).mpr ⟨s, hs, hlocal, hc⟩
      have hay : a ∉ ys := fun hin =>
        h.rings.apart _ (List.mem_cons_of_mem _ (List.mem_map_of_mem hin))
          (List.mem_cons_of_mem _ (List.mem_map_of_mem ha))
      obtain ⟨links, hremove, hrings⟩ := removeSocket_eq
        (st.note (.closedFd a)) h.rings ha hs h.live_listed
      refine ⟨links, xs.erase a, ys, ?_, ?_⟩
      · simp only [localSocketDestroy, Server.deref_some hs, bind, Except.bind, hremove]
        simp [Server.free, Server.note, Server.relinked, pure, Except.pure]
      · refine h.replace hrings ?_ (fun _ _ => Iff.rfl) ?_ (by simp [hay])
        · intro b hb
          simp [mem_erase_iff_of_ring h.listed, hb]
        · simp [mem_erase_iff_of_ring h.listed]
  | true =>
      have ha : a ∈ ys := (h.mem_closing a).mpr ⟨s, hs, hlocal, hc⟩
      have hax : a ∉ xs := fun hin =>
        h.rings.apart _ (List.mem_cons_of_mem _ (List.mem_map_of_mem ha))
          (List.mem_cons_of_mem _ (List.mem_map_of_mem hin))
      obtain ⟨links, hremove, hrings⟩ := removeSocket_eq
        (st.note (.closedFd a)) h.rings.symm ha hs h.live_closing
      refine ⟨links, xs, ys.erase a, ?_, ?_⟩
      · simp only [localSocketDestroy, Server.deref_some hs, bind, Except.bind, hremove]
        simp [Server.free, Server.note, Server.relinked, pure, Except.pure]
      · refine h.replace hrings.symm (fun _ _ => Iff.rfl) ?_ (by simp [hax]) ?_
        · intro b hb
          simp [mem_erase_iff_of_ring h.closing, hb]
        · simp [mem_erase_iff_of_ring h.closing]

-- A local socket without a peer is destroyed, or goes to the closing list.
theorem localSocketFinish_eq (h : Lists st xs ys) (hs : st.socks a = some s)
    (hlocal : s.ops.isLocal = true) (hpeer : s.peer = none) :
    ∃ links xs' ys',
      localSocketFinish st a = .ok (st.relinked links a (fate s) (fateLog a s)) ∧
      Lists (st.relinked links a (fate s) (fateLog a s)) xs' ys' := by
  by_cases hend : s.closing = true ∨ s.pkts = []
  · have hfate : fate s = none := by simp [fate, hend]
    have hlog : fateLog a s = [.closedFd a] := by simp [fateLog, hend, hlocal]
    obtain ⟨links, xs', ys', he, hl⟩ := localSocketDestroy_eq h hs hlocal
    refine ⟨links, xs', ys', ?_, by rw [hfate, hlog]; exact hl⟩
    simp [localSocketFinish, Server.deref_some hs, bind, Except.bind, hend, he, hfate, hlog]
  · have hc : s.closing = false := by simpa using fun hc => hend (Or.inl hc)
    have ha : a ∈ xs := (h.mem_listed a).mpr ⟨s, hs, hlocal, hc⟩
    have hay : a ∉ ys := fun hin =>
      h.rings.apart _ (List.mem_cons_of_mem _ (List.mem_map_of_mem hin))
        (List.mem_cons_of_mem _ (List.mem_map_of_mem ha))
    obtain ⟨parked, hparked⟩ : ∃ parked : ASocket,
      parked = { s with closing := true, fde := fdeventDel s.fde FDE_READ } := ⟨_, rfl⟩
    have hfate : fate s = some { parked with id := 0 } := by
      simp [fate, hend, hlocal, hparked, hpeer]
    have hlog : fateLog a s = [] := by simp [fateLog, hend]
    have hput : ∀ b, (st.put a parked).socks b = if b = a then some parked else st.socks b := by
      intro b
      simp [Server.put, Function.update_apply]
    have hlive : ∀ r ∈ SRef.socketList :: xs.map .socket, (st.put a parked).live r = true := by
      intro r hr
      have := h.live_listed r hr
      cases r with
      | socket b => 
          by_cases hb : b = a <;> simp_all [Server.live]
      | _ => rfl
    obtain ⟨links, hremove, hrings⟩ := removeSocket_eq (st.put a parked) h.rings ha
      (s := parked) (by simp [hput]) hlive
    obtain ⟨links', hinsert, hrings'⟩ := insertLocalSocket_eq { st.put a parked with
        links := links
        socks := Function.update (st.put a parked).socks a (some { parked with id := 0 }) } a
      hrings.symm (by simpa using hay) (by simp [mem_erase_iff_of_ring h.listed])
      (by
        intro r hr
        have := h.live_closing r hr
        cases r with
        | socket b => by_cases hb : b = a <;> simp_all [Server.live]
        | _ => rfl)
    refine ⟨links', xs.erase a, ys ++ [a], ?_, ?_⟩
    · simp only [localSocketFinish, Server.deref_some hs, bind, Except.bind, hend, if_false,
        ← hparked, hremove, hinsert, hfate, hlog]
      simp [Server.relinked, Server.put]
    · refine h.replace hrings'.symm ?_ ?_ ?_ ?_
      · intro b hb
        simp [mem_erase_iff_of_ring h.listed, hb]
      · intro b hb
        simp [hb]
      · simp [mem_erase_iff_of_ring h.listed, hfate, hparked]
      · simp [hfate, hparked, hlocal]

end Operations

end Adb.Host
