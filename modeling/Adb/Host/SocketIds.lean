import Adb.Host.CloseAll

namespace Adb.Host

open Adb.Lib

def idOf (st : Server) (a : Nat) : UInt32 := (st.socks a).elim 0 (·.id)

-- Whether create_local_socket has an id to give: the counter is not zero, and no
-- socket of the list goes by it.
def IdFree (st : Server) : Prop :=
  st.localSocketNextId ≠ 0 ∧ ∀ a, OnList st false a → idOf st a ≠ st.localSocketNextId

-- The calls that number sockets or take their ids back, and what else the server
-- does meanwhile, which is neither. A socket can be created where the guard holds.
inductive SocketCall (guard : Server → Prop) : Server → Server → Prop
  | create (st after : Server) (fd a : Nat) (free : guard st)
      (call : createLocalSocket st (some fd) = .ok (a, after)) : SocketCall guard st after
  | close (st after : Server) (a : Nat) (call : close st a = .ok after) : SocketCall guard st after
  | closeLocked (st after : Server) (a : Nat) (s : ASocket) (found : st.socks a = some s)
      (islocal : s.ops.isLocal = true) (call : localSocketCloseLocked close st a = .ok after) :
      SocketCall guard st after
  | elsewhere (st after : Server) (graph : Graph after)
      (kept : ∀ a, OnList after false a → OnList st false a ∧ idOf after a = idOf st a) :
      SocketCall guard st after

variable {st after : Server} {a : Nat} {s : ASocket} {xs ys : List Nat}

def SocketCalls (guard : Server → Prop) : Server → Server → Prop :=
  Relation.ReflTransGen (SocketCall guard)

structure IdsApart (st : Server) : Prop where
  distinct : ∀ a b, OnList st false a → OnList st false b → idOf st a = idOf st b → a = b
  nonzero : ∀ a, OnList st false a → idOf st a ≠ 0

-- The ids of local_socket_list, and what find_local_socket makes of them.
def IdsUnique (st : Server) : Prop :=
  ∃ xs, localSockets st = .ok xs ∧ (xs.map (idOf st)).Nodup ∧ 0 ∉ xs.map (idOf st) ∧
    ∀ id, ∃ found, findLocalSocket st id = .ok found ∧
      ∀ a, found = some a ↔ a ∈ xs ∧ idOf st a = id

section Find

theorem IdsApart.map_nodup (h : IdsApart st) (hl : Lists st xs ys) : (xs.map (idOf st)).Nodup := by
  apply hl.nodup.map_on
  intro a ha b hb hid
  exact h.distinct a b ((hl.mem_listed a).mp ha) ((hl.mem_listed b).mp hb) hid

theorem IdsApart.zero_not_mem (h : IdsApart st) (hl : Lists st xs ys) : 0 ∉ xs.map (idOf st) := by
  intro hm
  obtain ⟨a, ha, hid⟩ := List.mem_map.mp hm
  exact h.nonzero a ((hl.mem_listed a).mp ha) hid

def goesBy (st : Server) (id : UInt32) (a : Nat) : Bool := (st.socks a).any fun s => s.id = id

theorem goesBy_iff (hl : Lists st xs ys) (ha : a ∈ xs) (id : UInt32) :
    goesBy st id a = true ↔ idOf st a = id := by
  obtain ⟨s, hs, -⟩ := (hl.mem_listed a).mp ha
  simp [goesBy, idOf, hs]

-- The first socket of an id is the only one.
theorem IdsApart.find_iff (h : IdsApart st) (hl : Lists st xs ys) (id : UInt32) (a : Nat) :
    xs.find? (goesBy st id) = some a ↔ a ∈ xs ∧ idOf st a = id := by
  constructor
  · intro hfind
    have ha := List.mem_of_find?_eq_some hfind
    exact ⟨ha, (goesBy_iff hl ha id).mp (List.find?_some hfind)⟩
  · rintro ⟨ha, hid⟩
    cases hfind : xs.find? (goesBy st id) with
    | none => exact absurd ((goesBy_iff hl ha id).mpr hid) (List.find?_eq_none.mp hfind a ha)
    | some b =>
        have hb := List.mem_of_find?_eq_some hfind
        have hidb := (goesBy_iff hl hb id).mp (List.find?_some hfind)
        rw [h.distinct b a ((hl.mem_listed b).mp hb) ((hl.mem_listed a).mp ha) (hidb.trans hid.symm)]

theorem IdsApart.unique (h : IdsApart st) (hg : Graph st) : IdsUnique st := by
  obtain ⟨xs, ys, hl⟩ := hg.lists
  have hlist := localSockets_eq hl hg.owners
  refine ⟨xs, hlist, h.map_nodup hl, h.zero_not_mem hl, fun id => ?_⟩
  refine ⟨xs.find? (goesBy st id), ?_, h.find_iff hl id⟩
  simp only [findLocalSocket, hlist, bind, Except.bind]
  rfl

end Find

section Create

-- The sockets of the list are the old ones and the new one, which has the counter.
theorem created_listed (st : Server) (fd : Nat) (links : Links SRef) (a : Nat) :
    (OnList (st.created fd links) false a ↔ a = st.nextSocket ∨ OnList st false a) ∧
      idOf (st.created fd links) a = if a = st.nextSocket then st.localSocketNextId else idOf st a := by
  by_cases ha : a = st.nextSocket
  · subst ha
    simp [OnList, idOf, Server.created, newSocket, Ops.isLocal]
  · simp [OnList, idOf, Server.created, ha]

theorem not_listed_next (h : Base st) : ¬OnList st false st.nextSocket := by
  rintro ⟨s, hs, -⟩
  rw [Graph.fresh_none h] at hs
  cases hs

-- A new socket keeps the ids apart where its own is free, and only there.
theorem created_apart_iff (h : Base st) (hi : IdsApart st) (fd : Nat) (links : Links SRef) :
    IdsApart (st.created fd links) ↔ IdFree st := by
  have hlisted := fun a => (created_listed st fd links a).1
  have hids := fun a => (created_listed st fd links a).2
  have hold : ∀ a, OnList st false a → a ≠ st.nextSocket := by
    rintro a ha rfl
    exact not_listed_next h ha
  constructor
  · intro hafter
    have hnew := (hlisted st.nextSocket).mpr (Or.inl rfl)
    refine ⟨?_, fun a ha hid => ?_⟩
    · have hzero := hafter.nonzero st.nextSocket hnew
      rwa [hids, if_pos rfl] at hzero
    · have hne := hold a ha
      refine hne (hafter.distinct a st.nextSocket ((hlisted a).mpr (Or.inr ha)) hnew ?_)
      rw [hids, hids, if_neg hne, if_pos rfl, hid]
  · rintro ⟨hzero, hfree⟩
    constructor
    · intro a b ha hb hid
      rw [hids, hids] at hid
      rcases (hlisted a).mp ha with rfl | ha
      · rcases (hlisted b).mp hb with rfl | hb
        · rfl
        · rw [if_pos rfl, if_neg (hold b hb)] at hid
          exact absurd hid.symm (hfree b hb)
      · rcases (hlisted b).mp hb with rfl | hb
        · rw [if_pos rfl, if_neg (hold a ha)] at hid
          exact absurd hid (hfree a ha)
        · rw [if_neg (hold a ha), if_neg (hold b hb)] at hid
          exact hi.distinct a b ha hb hid
    · intro a ha
      rw [hids]
      rcases (hlisted a).mp ha with rfl | ha
      · rwa [if_pos rfl]
      · rw [if_neg (hold a ha)]
        exact hi.nonzero a ha

-- A socket can always be created.
theorem createLocalSocket_graph (h : Graph st) (fd : Nat) :
    ∃ links, createLocalSocket st (some fd) = .ok (st.nextSocket, st.created fd links) ∧
      Graph (st.created fd links) := by
  obtain ⟨xs, ys, hl⟩ := h.lists
  obtain ⟨links, hc, hrings⟩ := createLocalSocket_eq hl h.base fd
  exact ⟨links, hc, h.created hl fd hrings⟩

theorem create_graph (h : Graph st) {fd : Nat} (hc : createLocalSocket st (some fd) = .ok (a, after)) :
    a = st.nextSocket ∧ ∃ links, after = st.created fd links ∧ Graph (st.created fd links) := by
  obtain ⟨links, heq, hg⟩ := createLocalSocket_graph h fd
  rw [heq, Except.ok.injEq, Prod.mk.injEq] at hc
  exact ⟨hc.1.symm, links, hc.2.symm, hg⟩

end Create

section Close

-- A socket is on the list of the living as it was, or it is not on it.
theorem fate_not_listed {s' : ASocket} (h : fate s = some s') : s'.closing = true := by
  unfold fate at h
  split at h
  · cases h
    rfl
  · cases h

theorem IdsApart.of_kept (h : IdsApart st)
    (hkept : ∀ a, OnList after false a → OnList st false a ∧ idOf after a = idOf st a) :
    IdsApart after := by
  constructor
  · intro a b ha hb hid
    obtain ⟨ha, hida⟩ := hkept a ha
    obtain ⟨hb, hidb⟩ := hkept b hb
    exact h.distinct a b ha hb (by rw [← hida, hid, hidb])
  · intro a ha
    obtain ⟨ha, hida⟩ := hkept a ha
    rw [hida]
    exact h.nonzero a ha

theorem listed_of_same (h : after.socks a = st.socks a) (ha : OnList after false a) :
    OnList st false a ∧ idOf after a = idOf st a := by
  refine ⟨?_, by rw [idOf, idOf, h]⟩
  obtain ⟨s, hs, hrest⟩ := ha
  exact ⟨s, h ▸ hs, hrest⟩

-- What comes to its end is not on the list any more.
theorem not_listed_of_fate {o : Option ASocket} (h : after.socks a = o.bind fate) :
    ¬OnList after false a := by
  rintro ⟨s', hs', -, hc⟩
  rw [h] at hs'
  obtain ⟨s, -, hfate⟩ := Option.bind_eq_some_iff.mp hs'
  rw [fate_not_listed hfate] at hc
  cases hc

theorem closed_kept {x : ASocket}
    (hsocks : after.socks = Function.update (severed st.socks s.peer) a (fate x)) (b : Nat)
    (hb : OnList after false b) : OnList st false b ∧ idOf after b = idOf st b := by
  by_cases hba : b = a
  · subst hba
    have hend : after.socks b = (some x).bind fate := by
      rw [hsocks]
      simp
    exact absurd hb (not_listed_of_fate hend)
  · have hrest : after.socks b = severed st.socks s.peer b := by
      rw [hsocks, Function.update_of_ne hba]
    cases hp : s.peer with
    | none => exact listed_of_same (by rw [hrest, hp, severed]) hb
    | some p =>
        rw [hp, severed] at hrest
        by_cases hbp : b = p
        · subst hbp
          rw [Function.update_self] at hrest
          exact absurd hb (not_listed_of_fate hrest)
        · rw [Function.update_of_ne hbp] at hrest
          exact listed_of_same hrest hb

end Close

section Calls

theorem close_apart (h : Graph st) (hi : IdsApart st) (hc : close st a = .ok after) :
    Graph after ∧ IdsApart after := by
  cases hs : st.socks a with
  | none =>
      simp only [close, closeWithin, Server.deref, hs, bind, Except.bind, reduceCtorEq] at hc
  | some s =>
      have hended := close_ensures (B := True) h hs
      rw [hc] at hended
      exact ⟨hended.graph, hi.of_kept fun b => closed_kept hended.socks b⟩

theorem closeLocked_apart (h : Graph st) (hi : IdsApart st) (hs : st.socks a = some s)
    (hlocal : s.ops.isLocal = true) (hc : localSocketCloseLocked close st a = .ok after) :
    Graph after ∧ IdsApart after := by
  have hclosed := closeLocked_spec h hs hlocal 2
  rw [show localSocketCloseLocked (closeWithin 3) st a = .ok after from hc] at hclosed
  exact ⟨hclosed.graph, hi.of_kept fun b => closed_kept hclosed.socks b⟩

theorem call_apart (h : Graph st) (hi : IdsApart st) (hcall : SocketCall IdFree st after) :
    Graph after ∧ IdsApart after := by
  cases hcall with
  | create fd a hfree hc =>
      obtain ⟨-, links, rfl, hg⟩ := create_graph h hc
      exact ⟨hg, (created_apart_iff h.base hi fd links).mpr hfree⟩
  | close a hc => exact close_apart h hi hc
  | closeLocked a s hs hlocal hc => exact closeLocked_apart h hi hs hlocal hc
  | elsewhere hg hkept => exact ⟨hg, hi.of_kept hkept⟩

theorem idsApart_init : IdsApart serverInit := by
  constructor <;> simp [OnList, serverInit]

theorem calls_apart (h : SocketCalls IdFree serverInit st) : Graph st ∧ IdsApart st := by
  induction h with
  | refl => exact ⟨graph_init, idsApart_init⟩
  | tail _ hcall ih => exact call_apart ih.1 ih.2 hcall

-- As long as every socket gets an id that is free, the ids of the list are apart.
theorem socket_ids_unique (h : SocketCalls IdFree serverInit st) : IdsUnique st := by
  obtain ⟨hg, hi⟩ := calls_apart h
  exact hi.unique hg

end Calls

section ComeAndGo

theorem close_alone (hs : st.socks a = some s) (hops : s.ops = .localSocket) (hp : s.peer = none) :
    close st a = localSocketFinish st a := by
  unfold close
  rw [closeWithin_local hs hops, closeLocked_alone hs hp]

-- A socket without a peer and without packets is gone once it is closed.
theorem close_created (h : Graph st) (fd : Nat) (links : Links SRef) (hg : Graph (st.created fd links)) :
    ∃ after, close (st.created fd links) st.nextSocket = .ok after ∧ Graph after ∧
      after.localSocketNextId = st.localSocketNextId + 1 ∧ ∀ a, after.socks a = st.socks a := by
  have hs : (st.created fd links).socks st.nextSocket =
      some { newSocket .localSocket with fd, id := st.localSocketNextId } := by
    simp [Server.created]
  obtain ⟨links', hfinish, -⟩ := finish_base hg.base hs rfl rfl
  have hclose := (close_alone hs rfl rfl).trans hfinish
  have hended := close_ensures (B := True) hg hs
  rw [hclose] at hended
  refine ⟨_, hclose, hended.graph, rfl, ?_⟩
  · intro a
    by_cases ha : a = st.nextSocket
    · subst ha
      simp [Server.relinked, fate, newSocket, Graph.fresh_none h.base]
    · simp [Server.relinked, Server.created, ha]

-- The ids so far are below the one that comes next.
structure Below (st : Server) (next : UInt32) : Prop where
  counter : st.localSocketNextId = next
  ids : ∀ a, OnList st false a → idOf st a < next

theorem Below.idFree {next : UInt32} (h : Below st next) (hnext : next ≠ 0) : IdFree st := by
  rw [IdFree, h.counter]
  exact ⟨hnext, fun a ha => UInt32.ne_of_lt (h.ids a ha)⟩

theorem Below.created {next : UInt32} (h : Below st next) (hnext : next < next + 1) (fd : Nat)
    (links : Links SRef) : Below (st.created fd links) (next + 1) := by
  refine ⟨congrArg (· + 1) h.counter, fun a ha => ?_⟩
  obtain ⟨hlisted, hid⟩ := created_listed st fd links a
  rw [hid]
  obtain rfl | ha := hlisted.mp ha
  · rw [if_pos rfl, h.counter]
    exact hnext
  · split
    · rw [h.counter]
      exact hnext
    · exact UInt32.lt_trans (h.ids a ha) hnext

-- The second of two sockets goes, and a third one comes.
theorem socket_ids_of_three_sockets : ∃ a b c one two closed three,
    createLocalSocket serverInit (some 7) = .ok (a, one) ∧ createLocalSocket one (some 8) = .ok (b, two) ∧
      close two b = .ok closed ∧ createLocalSocket closed (some 9) = .ok (c, three) ∧
        IdsUnique three ∧ idOf three a = 1 ∧ idOf three c = 3 := by
  have hinit : Below serverInit 1 := by
    refine ⟨rfl, fun a ha => ?_⟩
    obtain ⟨s, hs, -⟩ := ha
    cases hs
  obtain ⟨links, hfirst, hone⟩ := createLocalSocket_graph graph_init 7
  have hids := hinit.created (by decide) 7 links
  obtain ⟨links', hsecond, htwo⟩ := createLocalSocket_graph hone 8
  obtain ⟨closed, hclose, hclosed, hnext, hsocks⟩ := close_created hone 8 links' htwo
  have hleft : Below closed 3 := by
    refine ⟨hnext.trans (congrArg (· + 1) hids.counter), fun a ha => ?_⟩
    obtain ⟨hlisted, hid⟩ := listed_of_same (hsocks a) ha
    rw [hid]
    exact UInt32.lt_trans (hids.ids a hlisted) (by decide)
  obtain ⟨links'', hthird, hthree⟩ := createLocalSocket_graph hclosed 9
  have hrun : SocketCalls IdFree serverInit (closed.created 9 links'') :=
    (((Relation.ReflTransGen.single (.create _ _ 7 _ (hinit.idFree (by decide)) hfirst)).tail
      (.create _ _ 8 _ (hids.idFree (by decide)) hsecond)).tail (.close _ _ _ hclose)).tail
        (.create _ _ 9 _ (hleft.idFree (by decide)) hthird)
  have hold : serverInit.nextSocket ≠ closed.nextSocket := by
    intro h
    have hnone := Graph.fresh_none hclosed.base
    rw [← h, hsocks] at hnone
    cases hnone
  refine ⟨_, _, _, _, _, _, _, hfirst, hsecond, hclose, hthird, socket_ids_unique hrun, ?_, ?_⟩
  · rw [(created_listed closed 9 links'' _).2, if_neg hold, idOf, hsocks]
    rfl
  · rw [(created_listed closed 9 links'' _).2, if_pos rfl, hleft.counter]

-- The first socket stays while n others come and go.
theorem come_and_go (n : Nat) : ∃ st, SocketCalls (fun _ => True) serverInit st ∧ Graph st ∧
    OnList st false 0 ∧ idOf st 0 = 1 ∧ st.localSocketNextId = 2 + UInt32.ofNat n := by
  induction n with
  | zero =>
      obtain ⟨links, hc, hg⟩ := createLocalSocket_graph graph_init 7
      refine ⟨_, .single (.create _ _ 7 _ trivial hc), hg, ?_, ?_, rfl⟩
      · exact (created_listed serverInit 7 links 0).1.mpr (Or.inl rfl)
      · exact (created_listed serverInit 7 links 0).2
  | succ n ih =>
      obtain ⟨st, hrun, hg, hlisted, hid, hnext⟩ := ih
      obtain ⟨links, hc, hnew⟩ := createLocalSocket_graph hg 8
      obtain ⟨after, hclose, hafter, hcounter, hsocks⟩ := close_created hg 8 links hnew
      refine ⟨after, (hrun.tail (.create _ _ 8 _ trivial hc)).tail (.close _ _ _ hclose), hafter, ?_, ?_, ?_⟩
      · exact (hlisted.imp fun s hs => ⟨(hsocks 0).trans hs.1, hs.2⟩)
      · rw [idOf, hsocks]
        exact hid
      · rw [hcounter, hnext, UInt32.add_assoc]
        congr 1
        exact (UInt32.ofNat_add n 1).symm

-- The counter has come round to the id of the first socket.
theorem socket_id_comes_again : ∃ st, SocketCalls (fun _ => True) serverInit st ∧ ¬IdsUnique st := by
  obtain ⟨st, hrun, hg, hlisted, hid, hnext⟩ := come_and_go (2 ^ 32 - 1)
  obtain ⟨links, hc, hnew⟩ := createLocalSocket_graph hg 8
  refine ⟨_, hrun.tail (.create _ _ 8 _ trivial hc), ?_⟩
  rintro ⟨found, hfound, hnodup, -⟩
  obtain ⟨xs', ys', hl'⟩ := hnew.lists
  obtain rfl : found = xs' := Except.ok.inj (hfound.symm.trans (localSockets_eq hl' hnew.owners))
  have hne : 0 ≠ st.nextSocket := fun h => not_listed_next hg.base (h ▸ hlisted)
  have hold := (hl'.mem_listed 0).mpr ((created_listed st 8 links 0).1.mpr (Or.inr hlisted))
  have hlast := (hl'.mem_listed _).mpr ((created_listed st 8 links st.nextSocket).1.mpr (Or.inl rfl))
  refine hne (List.inj_on_of_nodup_map hnodup hold hlast ?_)
  rw [(created_listed st 8 links _).2, (created_listed st 8 links _).2, if_neg hne, if_pos rfl, hid, hnext]
  decide

end ComeAndGo

end Adb.Host
