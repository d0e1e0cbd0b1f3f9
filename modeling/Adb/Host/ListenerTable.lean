import Adb.Host.Offline

namespace Adb.Host

open Adb.Lib
open Adb.Transport (TransportType)

variable {st mid after next : Server} {l t : Nat} {r : Int}
  {name localName connectTo remote : Bytes}
  {transport : Option Nat} {listener : AListener}

-- Where each local name leads.
abbrev ForwardTable : Type := Bytes → Option (Bytes × Option Nat)

def noForwards : ForwardTable := fun _ => none

inductive ListenerCall where
  | install (localName connectTo : Bytes) (transport : Option Nat) (r : Int)
  | remove (localName connectTo : Bytes) (transport : Nat) (r : Int)
  | away (t : Nat)
  | elsewhere

-- What the calls are for: a name leads to where it was last sent with success,
-- until it is removed or its transport goes away.
def ListenerCall.record (table : ForwardTable) : ListenerCall → ForwardTable
  | .install localName connectTo transport r =>
      if r = 0 then Function.update table localName (some (connectTo, transport)) else table
  | .remove localName _ _ r => if r = 0 then Function.update table localName none else table
  | .away t => fun name => (table name).filter fun entry => entry.2 ≠ some t
  | .elsewhere => table

def ListenerCall.failed : ListenerCall → Prop
  | .install _ _ _ r | .remove _ _ _ r => r ≠ 0
  | _ => False

def smartsocket : Bytes := ascii "*smartsocket*"

-- The listeners are the same, and the transports know the same of them.
structure SameListeners (st after : Server) : Prop where
  listeners : after.listeners = st.listeners
  list : after.listenerList = st.listenerList
  next : after.nextListener = st.nextListener
  recorded : ∀ t l, .listener l ∈ records (after.transports t) ↔
    .listener l ∈ records (st.transports t)

-- The calls, with what they return, and what the server does otherwise, which
-- leaves the listeners alone.
inductive Takes : ListenerCall → Server → Server → Prop
  | startUp (st after : Server) (localName : Bytes) (r : Int)
      (call : installListener st localName smartsocket none = .ok (r, after)) :
      Takes (.install localName smartsocket none r) st after
  | forward (st after : Server) (spec localName remote : Bytes) (ttype : TransportType)
      (serial : Option Bytes) (t : Nat) (error : Option String) (r : Int)
      (parsed : forwardRequest true spec = .forward true localName remote)
      (acquired : acquireOneTransport st ttype serial = .ok (some t, error))
      (call : installListener st localName remote (some t) = .ok (r, after)) :
      Takes (.install localName remote (some t) r) st after
  | killforward (st after : Server) (spec localName remote : Bytes) (ttype : TransportType)
      (serial : Option Bytes) (t : Nat) (error : Option String) (r : Int)
      (parsed : forwardRequest false spec = .forward false localName remote)
      (acquired : acquireOneTransport st ttype serial = .ok (some t, error))
      (call : removeListener st localName remote t = .ok (r, after)) :
      Takes (.remove localName remote t r) st after
  | away (st after : Server) (t : Nat) (call : runTransportDisconnects st t = .ok after) :
      Takes (.away t) st after
  | elsewhere (st after : Server) (same : SameListeners st after) (graph : Graph after)
      (books : Books after) : Takes .elsewhere st after

-- The calls of a run, the first one first, from before the start-up.
inductive ListenerRun (start : Server) : List ListenerCall → Server → Prop
  | start : ListenerRun start [] start
  | call (calls : List ListenerCall) (call : ListenerCall) (st after : Server)
      (run : ListenerRun start calls st) (takes : Takes call st after) :
      ListenerRun start (calls ++ [call]) after

def tableOf (calls : List ListenerCall) : ForwardTable := calls.foldl ListenerCall.record noForwards

-- The table of the listeners, and the records of it that the transports have.
structure TableSound (st : Server) (table : ForwardTable) : Prop where
  listed : ListenersListed st
  names : ∀ l l' x x', st.listeners l = some x → st.listeners l' = some x' →
    x.localName = x'.localName → l = l'
  forwards : ∀ name entry, table name = some entry ↔ ∃ l listener, st.listeners l = some listener ∧
    listener.localName = name ∧ (listener.connectTo, listener.transport) = entry
  linked : ∀ l listener t, st.listeners l = some listener → listener.transport = some t →
    ∃ transport, st.transports t = some transport ∧ transport.disconnects.count (.listener l) = 1
  only : ∀ l t, .listener l ∈ records (st.transports t) →
    ∃ listener, st.listeners l = some listener ∧ listener.transport = some t

-- What holds of the table alone, whatever the transports know.
structure Entries (listeners : Nat → Option AListener) (table : ForwardTable) : Prop where
  names : ∀ l l' x x', listeners l = some x → listeners l' = some x' →
    x.localName = x'.localName → l = l'
  forwards : ∀ name entry, table name = some entry ↔ ∃ l listener, listeners l = some listener ∧
    listener.localName = name ∧ (listener.connectTo, listener.transport) = entry
  smart : ∀ l listener, listeners l = some listener →
    (listener.transport = none ↔ listener.connectTo.head? = some 42)

section Entries

variable {listeners : Nat → Option AListener} {table : ForwardTable} {x : AListener}

-- A listener is written that alone has its name.
theorem Entries.write (h : Entries listeners table)
    (hname : ∀ k y, listeners k = some y → (y.localName = x.localName ↔ k = l))
    (hsmart : x.transport = none ↔ x.connectTo.head? = some 42) :
    Entries (Function.update listeners l (some x))
      (Function.update table x.localName (some (x.connectTo, x.transport))) where
  names := by
    intro k k' y y' hy hy' hsame
    by_cases hk : k = l
    · by_cases hk' : k' = l
      · rw [hk, hk']
      · rw [hk, Function.update_self, Option.some.injEq] at hy
        rw [Function.update_of_ne hk'] at hy'
        rw [← hy] at hsame
        exact absurd ((hname k' y' hy').mp hsame.symm) hk'
    · rw [Function.update_of_ne hk] at hy
      by_cases hk' : k' = l
      · rw [hk', Function.update_self, Option.some.injEq] at hy'
        rw [← hy'] at hsame
        exact absurd ((hname k y hy).mp hsame) hk
      · rw [Function.update_of_ne hk'] at hy'
        exact h.names k k' y y' hy hy' hsame
  forwards := by
    intro name entry
    by_cases hn : name = x.localName
    · subst hn
      rw [Function.update_self, Option.some.injEq]
      constructor
      · rintro rfl
        exact ⟨l, x, Function.update_self .., rfl, rfl⟩
      · rintro ⟨k, y, hy, hyname, rfl⟩
        by_cases hk : k = l
        · rw [hk, Function.update_self, Option.some.injEq] at hy
          rw [hy]
        · rw [Function.update_of_ne hk] at hy
          exact absurd ((hname k y hy).mp hyname) hk
    · rw [Function.update_of_ne hn, h.forwards]
      have hother : ∀ k y, y.localName = name →
          (Function.update listeners l (some x) k = some y ↔ listeners k = some y) := by
        intro k y hy
        by_cases hk : k = l
        · subst hk
          rw [Function.update_self, Option.some.injEq]
          constructor
          · rintro rfl
            exact absurd hy.symm hn
          · intro hold
            exact absurd (hy.symm.trans ((hname k y hold).mpr rfl)) hn
        · rw [Function.update_of_ne hk]
      constructor
      · rintro ⟨k, y, hy, hyname, hentry⟩
        exact ⟨k, y, (hother k y hyname).mpr hy, hyname, hentry⟩
      · rintro ⟨k, y, hy, hyname, hentry⟩
        exact ⟨k, y, (hother k y hyname).mp hy, hyname, hentry⟩
  smart := by
    intro k y hy
    by_cases hk : k = l
    · rw [hk, Function.update_self, Option.some.injEq] at hy
      exact hy ▸ hsmart
    · rw [Function.update_of_ne hk] at hy
      exact h.smart k y hy

-- Some listeners go, and with each of them its name.
theorem Entries.keep (h : Entries listeners table) {left : Nat → Option AListener}
    (keep : AListener → Bool)
    (hleft : ∀ k, left k = (listeners k).filter keep)
    {table' : ForwardTable} (htable : ∀ name entry, table' name = some entry ↔
      ∃ k y, listeners k = some y ∧ y.localName = name ∧ (y.connectTo, y.transport) = entry ∧
        keep y = true) :
    Entries left table' where
  names := by
    intro k k' y y' hy hy' hsame
    rw [hleft, Option.filter_eq_some_iff] at hy hy'
    exact h.names k k' y y' hy.1 hy'.1 hsame
  forwards := by
    intro name entry
    rw [htable]
    constructor
    · rintro ⟨k, y, hy, hname, hentry, hkeep⟩
      exact ⟨k, y, by rw [hleft, Option.filter_eq_some_iff]; exact ⟨hy, hkeep⟩, hname, hentry⟩
    · rintro ⟨k, y, hy, hname, hentry⟩
      rw [hleft, Option.filter_eq_some_iff] at hy
      exact ⟨k, y, hy.1, hname, hentry, hy.2⟩
  smart := by
    intro k y hy
    rw [hleft, Option.filter_eq_some_iff] at hy
    exact h.smart k y hy.1

end Entries

section Calls

-- The table is as it was, and so are the disconnect lists.
structure SameTable (st after : Server) : Prop where
  listeners : after.listeners = st.listeners
  list : after.listenerList = st.listenerList
  transports : after.transports = st.transports

-- A successful call has written one listener, which alone has the name: a new one
-- or one that is no smart socket.
structure Written (st : Server) (localName connectTo : Bytes) (transport : Option Nat) (l : Nat)
    (x : AListener) (after : Server) : Prop where
  name : x.localName = localName
  connectTo : x.connectTo = connectTo
  transport : x.transport = transport
  listeners : after.listeners = Function.update st.listeners l (some x)
  alone : ∀ k y, st.listeners k = some y → (y.localName = localName ↔ k = l)
  plain : ∀ old, st.listeners l = some old → old.connectTo.head? ≠ some 42
  listed : ListenersListed st → ListenersListed after

theorem named_of_find {list : List Nat}
    (h : list.find? (fun l => (st.listeners l).any (·.localName = name)) =
    some l) : l ∈ list ∧ ∃ x, st.listeners l = some x ∧ x.localName = name := by
  refine ⟨List.mem_of_find?_eq_some h, ?_⟩
  have hany := List.find?_some h
  cases hl : st.listeners l with
  | none => simp [hl] at hany
  | some x => exact ⟨x, rfl, by simpa [hl] using hany⟩

theorem addTransportDisconnect_same (st : Server) (t : Nat) (dis : Disconnect) :
    Ensures (st.addTransportDisconnect t dis) (fun after =>
      after.listeners = st.listeners ∧ after.listenerList = st.listenerList) Anyway := by
  unfold Server.addTransportDisconnect
  exact (derefTransport_any st t).bind fun _ _ => ⟨rfl, rfl⟩

theorem removeTransportDisconnect_same (st : Server) (t : Nat) (dis : Disconnect) :
    Ensures (st.removeTransportDisconnect t dis) (fun after =>
      after.listeners = st.listeners ∧ after.listenerList = st.listenerList) Anyway := by
  unfold Server.removeTransportDisconnect
  exact (derefTransport_any st t).bind fun _ _ => ⟨rfl, rfl⟩

theorem ListenersListed.append {x : AListener} (h : ListenersListed st) (hl : st.listeners l = none)
    (hlisteners : after.listeners = Function.update st.listeners l (some x))
    (hlist : after.listenerList = st.listenerList ++ [l]) : ListenersListed after := by
  have hnew : l ∉ st.listenerList := fun hm => (h.2 l).mp hm hl
  refine ⟨?_, fun k => ?_⟩
  · rw [hlist]
    exact List.nodup_append.mpr ⟨h.1,
      List.nodup_singleton l, by simp; exact fun a ha he => hnew (he ▸ ha)⟩
  · rw [hlist, hlisteners, List.mem_append, List.mem_singleton, h.2 k]
    by_cases hk : k = l
    · simp [hk]
    · simp [hk]

theorem ListenersListed.update {old x : AListener} (h : ListenersListed st)
    (hl : st.listeners l = some old)
    (hlisteners : after.listeners = Function.update st.listeners l (some x))
    (hlist : after.listenerList = st.listenerList) : ListenersListed after := by
  refine ⟨hlist ▸ h.1, fun k => ?_⟩
  rw [hlist, hlisteners, h.2 k]
  by_cases hk : k = l
  · simp [hk, hl]
  · simp [hk]

theorem installListener_cases (hlisted : ListenersListed st)
    (hfresh : st.listeners st.nextListener = none)
    (hnames : ∀ k k' y y', st.listeners k = some y → st.listeners k' = some y' →
      y.localName = y'.localName → k = k') :
    Ensures (installListener st localName connectTo transport) (fun result =>
      (result.1 ≠ 0 ∧ SameTable st result.2) ∨
      (result.1 = 0 ∧ ∃ l x, Written st localName connectTo transport l x result.2)) Anyway := by
  unfold installListener
  split
  · rename_i l hfind
    obtain ⟨hm, x, hx, hname⟩ := named_of_find hfind
    have halone : ∀ k y, st.listeners k = some y → (y.localName = localName ↔ k = l) := by
      intro k y hy
      constructor
      · intro hsame
        exact hnames k l y x hy hx (hsame.trans hname.symm)
      · rintro rfl
        rw [hx, Option.some.injEq] at hy
        exact hy ▸ hname
    apply (derefListener_any st l).bind
    intro found hfound
    rw [hx, Option.some.injEq] at hfound
    subst hfound
    split
    · exact Or.inl ⟨by simp, rfl, rfl, rfl⟩
    · rename_i hplain
      have hold : ∀ old, st.listeners l = some old → old.connectTo.head? ≠ some 42 := by
        intro old ho
        rw [hx, Option.some.injEq] at ho
        exact ho ▸ hplain
      split
      · rename_i hsame
        exact Or.inr ⟨rfl, l, { x with connectTo }, hname, rfl, hsame, rfl, halone, hold,
          fun h => h.update hx rfl rfl⟩
      · split
        · rename_i old new _ _
          apply (removeTransportDisconnect_same st old (.listener l)).bind
          rintro mid ⟨hml, hmlist⟩
          apply (addTransportDisconnect_same _ new (.listener l)).bind
          rintro after ⟨hal, halist⟩
          have hlisteners : after.listeners = Function.update st.listeners l
              (some { x with connectTo, transport := some new }) := by
            rw [hal, ← hml]
            rfl
          exact Or.inr ⟨rfl, l, { x with connectTo, transport := some new }, hname, rfl,
            rfl, hlisteners, halone, hold, fun h => h.update hx hlisteners (halist.trans hmlist)⟩
        · trivial
  · rename_i hnone
    have hnew : ∀ k y, st.listeners k = some y → y.localName ≠ localName := by
      intro k y hy hname
      have hm : k ∈ st.listenerList := (hlisted.2 k).mpr (by simp [hy])
      have hno := List.find?_eq_none.mp hnone k hm
      simp [hy, hname] at hno
    apply (localNameToFd_same st localName).bind
    rintro ⟨fd, mid⟩ ⟨hml, hmlist, hmt, hmn⟩
    cases fd with
    | none => exact Or.inl ⟨by simp, hml, hmlist, hmt⟩
    | some fd =>
        simp only at hml hmlist hmt hmn ⊢
        have hwritten : ∀ after : Server,
            after.listeners = Function.update st.listeners st.nextListener
              (some ⟨localName, connectTo, transport, fd⟩) →
            after.listenerList = st.listenerList ++ [st.nextListener] →
            Written st localName connectTo transport st.nextListener
              ⟨localName, connectTo, transport, fd⟩ after := by
          intro after hlisteners hlist
          refine ⟨rfl, rfl, rfl, hlisteners,
            ?_, by simp [hfresh], fun h => h.append hfresh hlisteners hlist⟩
          intro k y hy
          constructor
          · exact fun hname => absurd hname (hnew k y hy)
          · rintro rfl
            rw [hfresh] at hy
            cases hy
        rw [hmn, hmlist]
        cases transport with
        | none => exact Or.inr ⟨rfl, _, _, hwritten _ (by rw [← hml]; rfl) rfl⟩
        | some t =>
            apply (addTransportDisconnect_same _ t (.listener st.nextListener)).bind
            rintro after ⟨hal, halist⟩
            exact Or.inr ⟨rfl, _, _, hwritten after (by rw [hal, ← hml]; rfl) halist⟩

theorem removeListener_cases (st : Server) (localName connectTo : Bytes) (t : Nat) :
    Ensures (removeListener st localName connectTo t) (fun result =>
      (result.1 ≠ 0 ∧ SameTable st result.2) ∨
      (result.1 = 0 ∧ ∃ l x, st.listeners l = some x ∧ x.localName = localName ∧
        x.transport = some t ∧
        result.2.listeners = Function.update st.listeners l none ∧
        result.2.listenerList = st.listenerList.erase l)) Anyway := by
  unfold removeListener
  simp only
  split
  · exact Or.inl ⟨by simp, rfl, rfl, rfl⟩
  · rename_i l hfind
    have hany := List.find?_some hfind
    obtain ⟨x, hx, hname, ht⟩ : ∃ x, st.listeners l = some x ∧ x.localName = localName ∧
        x.transport = some t := by
      cases hl : st.listeners l with
      | none => simp [hl] at hany
      | some x =>
          have hall : x.localName = localName ∧ x.connectTo = connectTo ∧ x.transport = some t := by
            simpa [hl] using hany
          exact ⟨x, rfl, hall.1, hall.2.2⟩
    apply (freeListener_ensures st l).bind
    rintro after ⟨_, _, rfl⟩
    exact Or.inr ⟨rfl, l, x, hx, hname, ht, rfl, rfl⟩

end Calls

section Runs

variable {table : ForwardTable} {call : ListenerCall} {calls : List ListenerCall}

-- What every run keeps.
structure Tabled (st : Server) (table : ForwardTable) : Prop where
  graph : Graph st
  books : Books st
  listed : ListenersListed st
  entries : Entries st.listeners table

theorem Tabled.sound (h : Tabled st table) : TableSound st table where
  listed := h.listed
  names := h.entries.names
  forwards := h.entries.forwards
  linked := by
    intro l listener t hl ht
    obtain ⟨transport, htransport, hm⟩ := h.books.listeners l listener t hl ht
    have hpos := List.count_pos_iff.mpr hm
    have hone := h.books.once l t transport htransport
    exact ⟨transport, htransport, by omega⟩
  only := by
    intro l t hm
    exact h.books.known t l (recorded_iff.mpr hm)

-- An install, from wherever it is issued: a forward does not lead to '*', and the
-- listener of the start-up does.
theorem Tabled.install (h : Tabled st table) (hplain : transport = none ↔ connectTo.head? = some 42)
    (hfit : ∀ t, transport = some t → Fit st t)
    (hcall : installListener st localName connectTo transport = .ok (r, after)) :
    Tabled after (ListenerCall.record table (.install localName connectTo transport r)) := by
  have hgraph := ((installListener_calm st localName connectTo transport).of_ok hcall).graph h.graph
  have hbooks :=
    ((installListener_edits (D := Nobody) st localName connectTo transport hfit).of_ok hcall).books
      h.books
  have hfresh := h.books.freshListener st.nextListener (Nat.le_refl _)
  obtain ⟨hr, hsame⟩ | ⟨hr, l, x, hw⟩ :=
    (installListener_cases h.listed hfresh h.entries.names).of_ok hcall
  · simp only at hr hsame
    rw [ListenerCall.record, if_neg hr]
    refine ⟨hgraph, hbooks, ?_, ?_⟩
    · rw [ListenersListed, hsame.listeners, hsame.list]
      exact h.listed
    · rw [hsame.listeners]
      exact h.entries
  · simp only at hr hw
    rw [ListenerCall.record, if_pos hr]
    refine ⟨hgraph, hbooks, hw.listed h.listed, ?_⟩
    rw [hw.listeners, ← hw.name, ← hw.connectTo, ← hw.transport]
    apply h.entries.write
    · rw [hw.name]
      exact hw.alone
    · rw [hw.connectTo, hw.transport]
      exact hplain

theorem Tabled.remove (h : Tabled st table)
    (hcall : removeListener st localName connectTo t = .ok (r, after)) :
    Tabled after (ListenerCall.record table (.remove localName connectTo t r)) := by
  have hgraph := ((removeListener_calm st localName connectTo t).of_ok hcall).graph h.graph
  have hbooks :=
    ((removeListener_edits (D := Nobody) st localName connectTo t).of_ok hcall).books h.books
  obtain ⟨hr, hsame⟩ | ⟨hr, l, x, hx, hname, -, hlisteners, hlist⟩ :=
    (removeListener_cases st localName connectTo t).of_ok hcall
  · simp only at hr hsame
    rw [ListenerCall.record, if_neg hr]
    refine ⟨hgraph, hbooks, ?_, ?_⟩
    · rw [ListenersListed, hsame.listeners, hsame.list]
      exact h.listed
    · rw [hsame.listeners]
      exact h.entries
  · simp only at hr hlisteners hlist
    rw [ListenerCall.record, if_pos hr]
    refine ⟨hgraph, hbooks, h.listed.erase hlisteners hlist, ?_⟩
    refine h.entries.keep (fun y => y.localName ≠ localName) (fun k => ?_) fun name entry => ?_
    · rw [hlisteners]
      by_cases hk : k = l
      · rw [hk, Function.update_self, hx]
        simp [Option.filter, hname]
      · rw [Function.update_of_ne hk]
        cases hy : st.listeners k with
        | none => rfl
        | some y =>
            have hother : y.localName ≠ localName := fun hsame =>
              hk (h.entries.names k l y x hy hx (hsame.trans hname.symm))
            simp [Option.filter, hother]
    · by_cases hn : name = localName
      · subst hn
        simp only [Function.update_self, reduceCtorEq, false_iff]
        rintro ⟨k, y, -, hy, -, hkeep⟩
        simp [hy] at hkeep
      · rw [Function.update_of_ne hn, h.entries.forwards]
        constructor
        · rintro ⟨k, y, hy, hyname, hentry⟩
          exact ⟨k, y, hy, hyname, hentry, by simp [hyname, hn]⟩
        · rintro ⟨k, y, hy, hyname, hentry, -⟩
          exact ⟨k, y, hy, hyname, hentry⟩

theorem away_walked (h : Tabled st table) (hcall : runTransportDisconnects st t = .ok after) :
    Walked st t after := by
  have hlive : st.transports t ≠ none := by
    intro hnone
    simp [runTransportDisconnects, Server.derefTransport, hnone, bind, Except.bind] at hcall
  obtain ⟨transport, ht⟩ := Option.ne_none_iff_exists'.mp hlive
  obtain ⟨found, hrun, hw⟩ := runTransportDisconnects_walked h.graph h.books ht
  rw [hcall, Except.ok.injEq] at hrun
  exact hrun ▸ hw

theorem Tabled.away (h : Tabled st table) (hcall : runTransportDisconnects st t = .ok after) :
    Tabled after (ListenerCall.record table (.away t)) := by
  have hw := away_walked h hcall
  refine ⟨hw.graph, hw.books, hw.unlistens.listed h.listed, ?_⟩
  refine h.entries.keep (fun y => y.transport ≠ some t) (fun k => ?_) fun name entry => ?_
  · obtain hsame | ⟨hgone, y, hy, ht⟩ := hw.unlistens.kept k
    · rw [hsame]
      cases hy : st.listeners k with
      | none => rfl
      | some y =>
          have hother := hw.unbound (hsame.trans hy)
          simp [Option.filter, hother]
    · rw [hgone, hy]
      simp [Option.filter, ht]
  · rw [ListenerCall.record, Option.filter_eq_some_iff, h.entries.forwards]
    constructor
    · rintro ⟨⟨k, y, hy, hname, rfl⟩, hkeep⟩
      exact ⟨k, y, hy, hname, rfl, hkeep⟩
    · rintro ⟨k, y, hy, hname, rfl, hkeep⟩
      exact ⟨⟨k, y, hy, hname, rfl⟩, hkeep⟩

theorem plain_of_parsed {create : Bool} {spec : Bytes}
    (h : forwardRequest create spec = .forward create localName remote) :
    remote.head? ≠ some 42 := by
  unfold forwardRequest at h
  simp only at h
  split at h
  · cases h
  · split at h
    · cases h
    · rename_i hok
      cases h
      exact fun hstar => hok (Or.inr (Or.inr hstar))

theorem Takes.tabled (ht : Takes call st after) (h : Tabled st table) :
    Tabled after (ListenerCall.record table call) := by
  cases ht with
  | startUp _ _ localName r call => exact h.install (by simp [smartsocket, ascii]) (by simp) call
  | forward _ _ spec localName remote ttype serial t error r parsed acquired call =>
      have hfit := (acquireOneTransport_any st ttype serial).of_ok acquired
      exact h.install (by simp [plain_of_parsed parsed]) hfit call
  | killforward _ _ spec localName remote ttype serial t error r parsed acquired call =>
      exact h.remove call
  | away _ _ t call => exact h.away call
  | elsewhere _ _ same graph books =>
      refine ⟨graph, books, ?_, ?_⟩
      · rw [ListenersListed, same.listeners, same.list]
        exact h.listed
      · rw [same.listeners]
        exact h.entries

theorem install_failed (h : Tabled st table) (hr : r ≠ 0)
    (hcall : installListener st localName connectTo transport = .ok (r, after)) :
    SameTable st after := by
  have hfresh := h.books.freshListener st.nextListener (Nat.le_refl _)
  obtain ⟨-, hsame⟩ | ⟨hzero, -⟩ :=
    (installListener_cases h.listed hfresh h.entries.names).of_ok hcall
  · exact hsame
  · exact absurd hzero hr

theorem install_star (h : Tabled st table) (hl : st.listeners l = some listener)
    (hstar : listener.connectTo.head? = some 42)
    (hcall : installListener st localName connectTo transport = .ok (r, after)) :
    after.listeners l = some listener := by
  have hfresh := h.books.freshListener st.nextListener (Nat.le_refl _)
  obtain ⟨-, hsame⟩ | ⟨-, k, x, hw⟩ :=
    (installListener_cases h.listed hfresh h.entries.names).of_ok hcall
  · exact hsame.listeners ▸ hl
  · have hlk : l ≠ k := by
      rintro rfl
      exact hw.plain listener hl hstar
    rw [hw.listeners, Function.update_of_ne hlk]
    exact hl

theorem Takes.same (ht : Takes call st after) (h : Tabled st table) (hf : call.failed) :
    SameTable st after := by
  cases ht with
  | startUp _ _ localName r call => exact install_failed h hf call
  | forward _ _ spec localName remote ttype serial t error r parsed acquired call =>
      exact install_failed h hf call
  | killforward _ _ spec localName remote ttype serial t error r parsed acquired call =>
      obtain ⟨-, hsame⟩ | ⟨hzero, -⟩ := (removeListener_cases st localName remote t).of_ok call
      · exact hsame
      · exact absurd hzero hf
  | away => exact hf.elim
  | elsewhere => exact hf.elim

-- The listener of the start-up has no transport, so nothing takes it away.
theorem Takes.star (ht : Takes call st after) (h : Tabled st table)
    (hl : st.listeners l = some listener)
    (hstar : listener.connectTo.head? = some 42) : after.listeners l = some listener := by
  have hnone : listener.transport = none := (h.entries.smart l listener hl).mpr hstar
  cases ht with
  | startUp _ _ localName r call => exact install_star h hl hstar call
  | forward _ _ spec localName remote ttype serial t error r parsed acquired call =>
      exact install_star h hl hstar call
  | killforward _ _ spec localName remote ttype serial t error r parsed acquired call =>
      obtain ⟨-, hsame⟩ | ⟨-, k, x, hx, -, hbound, hlisteners, -⟩ :=
        (removeListener_cases st localName remote t).of_ok call
      · exact hsame.listeners ▸ hl
      · have hlk : l ≠ k := by
          rintro rfl
          rw [hl, Option.some.injEq] at hx
          rw [← hx, hnone] at hbound
          cases hbound
        simp only at hlisteners
        rw [hlisteners, Function.update_of_ne hlk]
        exact hl
  | away _ _ t call =>
      obtain hsame | ⟨-, x, hx, hbound⟩ := (away_walked h call).unlistens.kept l
      · exact hsame.trans hl
      · rw [hl, Option.some.injEq] at hx
        rw [← hx, hnone] at hbound
        cases hbound
  | elsewhere _ _ same graph books => exact same.listeners ▸ hl

-- The server before its first listener.
def beforeStartUp : Server :=
  { serverInit with listeners := fun _ => none, listenerList := [], nextListener := 0, nextFd := 0 }

theorem tabled_beforeStartUp : Tabled beforeStartUp noForwards where
  graph := whole_init.graph.congr rfl rfl rfl rfl (.of_eq rfl)
  books := by
    constructor <;> simp [beforeStartUp, serverInit, Recorded, Once]
  listed := ⟨List.nodup_nil, fun l => by simp [beforeStartUp]⟩
  entries := by
    refine ⟨?_, ?_, ?_⟩ <;> simp [beforeStartUp, noForwards]

theorem ListenerRun.tabled (h : ListenerRun beforeStartUp calls st) :
    Tabled st (tableOf calls) := by
  induction h with
  | start => exact tabled_beforeStartUp
  | call calls call st after run takes ih =>
      have hafter := takes.tabled ih
      rw [tableOf, List.foldl_append]
      exact hafter

-- The table is that of the last successful installs, each entry linked once with
-- its transport; a call that fails leaves it as it is, a transport that goes away
-- leaves no listener, and the listener of the start-up stays.
theorem listener_table (hrun : ListenerRun beforeStartUp calls st) :
    TableSound st (tableOf calls) ∧ ∀ call after, Takes call st after →
      (call.failed → SameTable st after) ∧
      (∀ t, call = .away t → ∀ l listener, after.listeners l = some listener →
        listener.transport ≠ some t) ∧
      ∀ l listener, st.listeners l = some listener → listener.connectTo.head? = some 42 →
        after.listeners l = some listener := by
  have h := hrun.tabled
  refine ⟨h.sound,
    fun call after ht => ⟨ht.same h, ?_, fun l listener hl hstar => ht.star h hl hstar⟩⟩
  rintro t rfl l listener hl
  cases ht with
  | away _ _ _ call => exact (away_walked h call).unbound hl

end Runs

section Forwards

-- What the server does meanwhile, when it does not touch the listeners.
theorem Tabled.elsewhere {inputs : List (Script × Input)} (h : Tabled st table) (hsound : Sound st)
    (hrun : run step st inputs = .ok after) (hsame : SameListeners st after) :
    Takes .elsewhere st after := by
  have hkept : Whole after ∧ Books after :=
    run_invariant (P := fun st => Whole st ∧ Books st)
      (fun _ _ _ hs hstep => ⟨step_whole hs.1 hstep, step_books hs.1 hs.2 hstep⟩)
      ⟨⟨h.graph, hsound⟩, h.books⟩ hrun
  exact .elsewhere _ _ hsame hkept.1.graph hkept.2

-- A socket can be opened for the smart socket's listener.
def socketReady : Server := { beforeStartUp with script := ⟨[], [], [], [true]⟩ }

def comesOnline (t : Nat) (serial : Bytes) (script : Script) : List (Script × Input) :=
  [(silent, .register .usb 0 (some serial) none true), (script, .packet t connectPacket)]

-- Two devices come online, and sockets can be opened for three more listeners.
def twoDevices : List (Script × Input) :=
  comesOnline 0 (ascii "0123") silent ++
    comesOnline 1 (ascii "4567") { silent with opens := [true, true, true] }

def startUpCalls : List ListenerCall :=
  [.elsewhere, .install (ascii "tcp:5037") smartsocket none 0, .elsewhere]

-- Two names are sent to the first device, one of them then to the second device,
-- and the other is removed. A third one goes with the first device.
def forwardCalls : List ListenerCall :=
  [.install (ascii "tcp:6100") (ascii "tcp:7100") (some 0) 0,
    .install (ascii "tcp:6200") (ascii "tcp:7200") (some 0) 0,
    .install (ascii "tcp:6100") (ascii "tcp:7300") (some 1) 0,
    .remove (ascii "tcp:6200") (ascii "tcp:7200") 0 0,
    .install (ascii "tcp:6300") (ascii "tcp:7400") (some 0) 0,
    .away 0]

-- The server once it has started, once the devices are online, and after each of
-- the calls.
structure TwoDevicesRun (started online one two rebound killed three gone : Server) : Prop where
  start : installListener socketReady (ascii "tcp:5037") smartsocket none = .ok (0, started)
  quiet : ∀ a, started.socks a = none
  alone : ∀ t, started.transports t = none
  connect : run step started twoDevices = .ok online
  listeners : online.listeners = started.listeners
  list : online.listenerList = started.listenerList
  next : online.nextListener = started.nextListener
  recorded : ∀ t, records (online.transports t) = []
  forward : installListener online (ascii "tcp:6100") (ascii "tcp:7100") (some 0) = .ok (0, one)
  both : installListener one (ascii "tcp:6200") (ascii "tcp:7200") (some 0) = .ok (0, two)
  rebind : installListener two (ascii "tcp:6100") (ascii "tcp:7300") (some 1) = .ok (0, rebound)
  kill : removeListener rebound (ascii "tcp:6200") (ascii "tcp:7200") 0 = .ok (0, killed)
  third : installListener killed (ascii "tcp:6300") (ascii "tcp:7400") (some 0) = .ok (0, three)
  away : runTransportDisconnects three 0 = .ok gone
  first : ∀ st ∈ [online, one, rebound, killed],
    acquireOneTransport st .any (some (ascii "0123")) = .ok (some 0, none)
  second : acquireOneTransport two .any (some (ascii "4567")) = .ok (some 1, none)

set_option maxRecDepth 8000 in
theorem two_devices_run : ∃ started online one two rebound killed three gone,
    TwoDevicesRun started online one two rebound killed three gone := by
  refine ⟨_, _, _, _, _, _, _, _, rfl, fun _ => rfl, fun _ => rfl, rfl, rfl, rfl, rfl, ?_,
    rfl, rfl, rfl, rfl, rfl, rfl, ?_, rfl⟩
  · rintro (_ | _ | t) <;> rfl
  · simp only [List.forall_mem_cons]
    exact ⟨rfl, rfl, rfl, rfl, fun _ h => absurd h List.not_mem_nil⟩

theorem listener_table_of_two_devices :
    ∃ st, ListenerRun beforeStartUp (startUpCalls ++ forwardCalls) st ∧
    TableSound st (tableOf (startUpCalls ++ forwardCalls)) ∧
    tableOf (startUpCalls ++ forwardCalls) (ascii "tcp:5037") = some (smartsocket, none) ∧
    tableOf (startUpCalls ++ forwardCalls) (ascii "tcp:6100") = some (ascii "tcp:7300", some 1) ∧
    tableOf (startUpCalls ++ forwardCalls) (ascii "tcp:6200") = none ∧
    tableOf (startUpCalls ++ forwardCalls) (ascii "tcp:6300") = none := by
  obtain ⟨started, online, one, two, rebound, killed, three, gone, h⟩ := two_devices_run
  have hready : Takes .elsewhere beforeStartUp socketReady :=
    .elsewhere _ _ ⟨rfl, rfl, rfl, fun _ _ => Iff.rfl⟩
      (tabled_beforeStartUp.graph.congr rfl rfl rfl rfl (.of_eq rfl))
      (tabled_beforeStartUp.books.of_same (.of_eq rfl) rfl rfl rfl rfl)
  have hstarted : ListenerRun beforeStartUp
      [.elsewhere, .install (ascii "tcp:5037") smartsocket none 0] started :=
    .call [.elsewhere] _ socketReady started
      (.call [] .elsewhere beforeStartUp socketReady .start hready)
      (.startUp socketReady started (ascii "tcp:5037") 0 h.start)
  have hsound : Sound started := fun a s hs => by
    rw [h.quiet] at hs
    cases hs
  have hsame : SameListeners started online :=
    ⟨h.listeners, h.list, h.next, fun t l => by rw [h.recorded, h.alone]; rfl⟩
  have honline : ListenerRun beforeStartUp startUpCalls online :=
    .call _ .elsewhere started online hstarted (hstarted.tabled.elsewhere hsound h.connect hsame)
  have hrun : ListenerRun beforeStartUp (startUpCalls ++ forwardCalls) gone := by
    refine .call (startUpCalls ++ forwardCalls.take 5) _ three gone ?_ (.away _ _ 0 h.away)
    refine .call (startUpCalls ++ forwardCalls.take 4) _ killed three ?_
      (.forward _ _ (ascii "tcp:6300;tcp:7400") _ _ .any _ 0 _ 0 rfl
        (h.first killed (by simp)) h.third)
    refine .call (startUpCalls ++ forwardCalls.take 3) _ rebound killed ?_
      (.killforward _ _ (ascii "tcp:6200;tcp:7200") _ _ .any _ 0 _ 0 rfl
        (h.first rebound (by simp)) h.kill)
    refine .call (startUpCalls ++ forwardCalls.take 2) _ two rebound ?_
      (.forward _ _ (ascii "tcp:6100;tcp:7300") _ _ .any _ 1 _ 0 rfl h.second h.rebind)
    refine .call (startUpCalls ++ forwardCalls.take 1) _ one two ?_
      (.forward _ _ (ascii "tcp:6200;tcp:7200") _ _ .any _ 0 _ 0 rfl (h.first one (by simp)) h.both)
    exact .call startUpCalls _ online one honline
      (.forward _ _ (ascii "tcp:6100;tcp:7100") _ _ .any _ 0 _ 0 rfl
        (h.first online (by simp)) h.forward)
  exact ⟨gone, hrun, (listener_table hrun).1, rfl, rfl, rfl, rfl⟩

end Forwards

end Adb.Host
