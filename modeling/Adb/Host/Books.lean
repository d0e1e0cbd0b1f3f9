import Adb.Host.Works

namespace Adb.Host

open Adb.Lib

variable {D : Server → Bytes → Prop} {N : Prop} {st mid after : Server} {a b l t u : Nat}
  {s s' q : ASocket} {p : Bytes} {transports : Nat → Option ATransport} {dis e : Disconnect}
  {o : Option Nat}

section Records

-- The disconnect record is on the list of the transport.
def Recorded (transports : Nat → Option ATransport) (t : Nat) (dis : Disconnect) : Prop :=
  ∃ transport, transports t = some transport ∧ dis ∈ transport.disconnects

-- A record is on the list once at most.
def Once (transports : Nat → Option ATransport) (dis : Disconnect) : Prop :=
  ∀ t transport, transports t = some transport → transport.disconnects.count dis ≤ 1

theorem learns_eq_none : learns transports o dis t = none ↔ transports t = none := by
  cases o with
  | none => rfl
  | some u =>
      by_cases htu : t = u
      · subst htu
        simp [learns]
      · simp [learns, htu]

theorem forgets_eq_none : forgets transports o dis t = none ↔ transports t = none := by
  cases o with
  | none => rfl
  | some u =>
      by_cases htu : t = u
      · subst htu
        simp [forgets]
      · simp [forgets, htu]

theorem recorded_learns : Recorded (learns transports o dis) t e ↔
    Recorded transports t e ∨ (o = some t ∧ e = dis ∧ transports t ≠ none) := by
  cases o with
  | none => simp [learns]
  | some u =>
      by_cases htu : t = u
      · subst htu
        simp only [Recorded, learns, Function.update_self]
        cases transports t <;> simp
      · have hut : u ≠ t := fun h => htu h.symm
        simp [Recorded, learns, htu, hut]

theorem Recorded.of_forgets (h : Recorded (forgets transports o dis) t e) : Recorded transports t e := by
  cases o with
  | none => exact h
  | some u =>
      obtain ⟨transport, ht, hm⟩ := h
      by_cases htu : t = u
      · subst htu
        simp only [forgets, Function.update_self, Option.map_eq_some_iff] at ht
        obtain ⟨old, hold, rfl⟩ := ht
        exact ⟨old, hold, List.mem_of_mem_erase hm⟩
      · simp only [forgets, Function.update_of_ne htu] at ht
        exact ⟨transport, ht, hm⟩

theorem Recorded.forgets (h : Recorded transports t e) (hne : e ≠ dis) :
    Recorded (Adb.Host.forgets transports o dis) t e := by
  cases o with
  | none => exact h
  | some u =>
      obtain ⟨transport, ht, hm⟩ := h
      by_cases htu : t = u
      · subst htu
        refine ⟨{ transport with disconnects := transport.disconnects.erase dis }, ?_, ?_⟩
        · simp [Adb.Host.forgets, ht]
        · exact (List.mem_erase_of_ne hne).mpr hm
      · exact ⟨transport, by simp [Adb.Host.forgets, htu, ht], hm⟩

theorem not_recorded_forgets (h : Once transports dis) : ¬Recorded (forgets transports (some t) dis) t dis := by
  rintro ⟨transport, ht, hm⟩
  simp only [forgets, Function.update_self, Option.map_eq_some_iff] at ht
  obtain ⟨old, hold, rfl⟩ := ht
  have hone := h t old hold
  have hpos := List.count_pos_iff.mpr hm
  rw [List.count_erase_self] at hpos
  omega

theorem Once.forgets (h : Once transports e) : Once (Adb.Host.forgets transports o dis) e := by
  cases o with
  | none => exact h
  | some u =>
      intro t transport ht
      by_cases htu : t = u
      · subst htu
        simp only [Adb.Host.forgets, Function.update_self, Option.map_eq_some_iff] at ht
        obtain ⟨old, hold, rfl⟩ := ht
        exact Nat.le_trans (List.erase_sublist.count_le e) (h t old hold)
      · simp only [Adb.Host.forgets, Function.update_of_ne htu] at ht
        exact h t transport ht

theorem Once.learns (h : Once transports e) (hnew : e = dis → ∀ u, o = some u → ¬Recorded transports u dis) :
    Once (Adb.Host.learns transports o dis) e := by
  cases o with
  | none => exact h
  | some u =>
      intro t transport ht
      by_cases htu : t = u
      · subst htu
        simp only [Adb.Host.learns, Function.update_self, Option.map_eq_some_iff] at ht
        obtain ⟨old, hold, rfl⟩ := ht
        simp only [List.count_append]
        by_cases hed : e = dis
        · have hzero : old.disconnects.count e = 0 := by
            rw [List.count_eq_zero, hed]
            exact fun hm => hnew hed t rfl ⟨old, hold, hm⟩
          have hone : [dis].count e = 1 := by simp [hed]
          omega
        · have hzero : [dis].count e = 0 := by
            rw [List.count_eq_zero]
            simp [hed]
          have hold' := h t old hold
          omega
      · simp only [Adb.Host.learns, Function.update_of_ne htu] at ht
        exact h t transport ht

end Records

-- Whoever is bound to a transport has a record with it: each remote socket, and
-- each listener, exactly those. Listeners and transports are numbered in order.
structure Books (st : Server) : Prop where
  remotes : ∀ a s, st.socks a = some s → s.ops = .remoteSocket →
    ∃ t, s.transport = some t ∧ Recorded st.transports t (.remote a)
  listeners : ∀ l listener t, st.listeners l = some listener → listener.transport = some t →
    Recorded st.transports t (.listener l)
  known : ∀ t l, Recorded st.transports t (.listener l) →
    ∃ listener, st.listeners l = some listener ∧ listener.transport = some t
  once : ∀ l, Once st.transports (.listener l)
  freshListener : ∀ l, st.nextListener ≤ l → st.listeners l = none
  freshTransport : ∀ t, st.nextTransport ≤ t → st.transports t = none

section Edits

-- Only the remote sockets matter, and there may be fewer of them.
def FewerRemotes (st after : Server) : Prop :=
  ∀ a s, after.socks a = some s → s.ops = .remoteSocket →
    ∃ old, st.socks a = some old ∧ old.ops = .remoteSocket ∧ old.transport = s.transport

theorem FewerRemotes.of_eq (h : after.socks = st.socks) : FewerRemotes st after :=
  fun _ s hs hops => ⟨s, h ▸ hs, hops, rfl⟩

theorem fewerRemotes_update {x : Option ASocket} (h : after.socks = Function.update st.socks a x)
    (hx : ∀ s, x = some s → s.ops = .remoteSocket →
      ∃ old, st.socks a = some old ∧ old.ops = .remoteSocket ∧ old.transport = s.transport) :
    FewerRemotes st after := by
  intro c s hs hops
  rw [h] at hs
  by_cases hca : c = a
  · subst hca
    rw [Function.update_self] at hs
    exact hx s hs hops
  · rw [Function.update_of_ne hca] at hs
    exact ⟨s, hs, hops, rfl⟩

theorem Books.of_same (h : Books st) (hremotes : FewerRemotes st after)
    (htransports : after.transports = st.transports) (hlisteners : after.listeners = st.listeners)
    (hnext : after.nextListener = st.nextListener) (hnext' : after.nextTransport = st.nextTransport) :
    Books after where
  remotes := by
    intro a s hs hops
    obtain ⟨old, hold, hremote, heq⟩ := hremotes a s hs hops
    rw [htransports, ← heq]
    exact h.remotes a old hold hremote
  listeners := by
    rw [hlisteners, htransports]
    exact h.listeners
  known := by
    rw [hlisteners, htransports]
    exact h.known
  once := htransports ▸ h.once
  freshListener := by
    rw [hnext, hlisteners]
    exact h.freshListener
  freshTransport := by
    rw [hnext', htransports]
    exact h.freshTransport

theorem Books.attach (h : Books st) (hlive : st.transports t ≠ none) (htransport : s.transport = some t)
    (hsocks : after.socks = Function.update st.socks st.nextSocket (some s))
    (htransports : after.transports = learns st.transports (some t) (.remote st.nextSocket))
    (hlisteners : after.listeners = st.listeners) (hnext : after.nextListener = st.nextListener)
    (hnext' : after.nextTransport = st.nextTransport) : Books after where
  remotes := by
    intro a x hx hops
    rw [hsocks] at hx
    rw [htransports]
    by_cases ha : a = st.nextSocket
    · subst ha
      rw [Function.update_self, Option.some.injEq] at hx
      exact ⟨t, hx ▸ htransport, recorded_learns.mpr (Or.inr ⟨rfl, rfl, hlive⟩)⟩
    · rw [Function.update_of_ne ha] at hx
      obtain ⟨u, hu, hrecord⟩ := h.remotes a x hx hops
      exact ⟨u, hu, recorded_learns.mpr (Or.inl hrecord)⟩
  listeners := by
    intro l listener u hl hu
    rw [hlisteners] at hl
    rw [htransports]
    exact recorded_learns.mpr (Or.inl (h.listeners l listener u hl hu))
  known := by
    intro u l hrecord
    rw [htransports, recorded_learns] at hrecord
    rw [hlisteners]
    rcases hrecord with hrecord | ⟨-, heq, -⟩
    · exact h.known u l hrecord
    · cases heq
  once := by
    intro l
    rw [htransports]
    exact (h.once l).learns fun heq => by cases heq
  freshListener := by
    rw [hnext, hlisteners]
    exact h.freshListener
  freshTransport := by
    intro u hu
    rw [htransports, learns_eq_none]
    exact h.freshTransport u (hnext' ▸ hu)

theorem Books.detach (h : Books st) (hsocks : after.socks = Function.update st.socks a none)
    (htransports : after.transports = forgets st.transports o (.remote a))
    (hlisteners : after.listeners = st.listeners) (hnext : after.nextListener = st.nextListener)
    (hnext' : after.nextTransport = st.nextTransport) : Books after where
  remotes := by
    intro c x hx hops
    rw [hsocks] at hx
    rw [htransports]
    by_cases hca : c = a
    · subst hca
      rw [Function.update_self] at hx
      cases hx
    · rw [Function.update_of_ne hca] at hx
      obtain ⟨u, hu, hrecord⟩ := h.remotes c x hx hops
      exact ⟨u, hu, hrecord.forgets fun heq => hca (Disconnect.remote.inj heq)⟩
  listeners := by
    intro l listener u hl hu
    rw [hlisteners] at hl
    rw [htransports]
    exact (h.listeners l listener u hl hu).forgets (by simp)
  known := by
    intro u l hrecord
    rw [htransports] at hrecord
    rw [hlisteners]
    exact h.known u l hrecord.of_forgets
  once := by
    intro l
    rw [htransports]
    exact (h.once l).forgets
  freshListener := by
    rw [hnext, hlisteners]
    exact h.freshListener
  freshTransport := by
    intro u hu
    rw [htransports, forgets_eq_none]
    exact h.freshTransport u (hnext' ▸ hu)

-- A listener is installed, bound anew or freed: its old record goes, the new one
-- comes with its transport.
theorem Books.listener {x : Option AListener} (h : Books st)
    (hsocks : after.socks = st.socks)
    (hold : ∀ t, Recorded st.transports t (.listener l) → o = some t)
    (hlive : ∀ y t, x = some y → y.transport = some t → st.transports t ≠ none)
    (htransports : after.transports = learns (forgets st.transports o (.listener l))
      (x.bind (·.transport)) (.listener l))
    (hlisteners : after.listeners = Function.update st.listeners l x)
    (hnext : st.nextListener ≤ after.nextListener) (hl : x ≠ none → l < after.nextListener)
    (hnext' : after.nextTransport = st.nextTransport) : Books after := by
  -- nothing is left of the old record
  have hforgotten : ∀ t, ¬Recorded (forgets st.transports o (.listener l)) t (.listener l) := by
    intro t hrecord
    have ho := hold t hrecord.of_forgets
    rw [ho] at hrecord
    exact not_recorded_forgets (h.once l) hrecord
  have hother : ∀ t e, e ≠ .listener l → (Recorded after.transports t e ↔ Recorded st.transports t e) := by
    intro t e he
    rw [htransports, recorded_learns]
    constructor
    · rintro (hrecord | ⟨-, heq, -⟩)
      · exact hrecord.of_forgets
      · exact absurd heq he
    · exact fun hrecord => Or.inl (hrecord.forgets he)
  have hself : ∀ t, Recorded after.transports t (.listener l) ↔ x.bind (·.transport) = some t := by
    intro t
    rw [htransports, recorded_learns]
    constructor
    · rintro (hrecord | ⟨heq, -, -⟩)
      · exact absurd hrecord (hforgotten t)
      · exact heq
    · intro heq
      refine Or.inr ⟨heq, rfl, ?_⟩
      obtain ⟨x, hx, ht⟩ := Option.bind_eq_some_iff.mp heq
      exact fun hnone => hlive x t hx ht (forgets_eq_none.mp hnone)
  constructor
  · intro a x hx hops
    rw [hsocks] at hx
    obtain ⟨u, hu, hrecord⟩ := h.remotes a x hx hops
    exact ⟨u, hu, (hother u _ (by simp)).mpr hrecord⟩
  · intro c listener u hc hu
    rw [hlisteners] at hc
    by_cases hcl : c = l
    · subst hcl
      rw [Function.update_self] at hc
      rw [hself, hc, Option.bind_some, hu]
    · rw [Function.update_of_ne hcl] at hc
      rw [hother u _ fun heq => hcl (Disconnect.listener.inj heq)]
      exact h.listeners c listener u hc hu
  · intro u c hrecord
    rw [hlisteners]
    by_cases hcl : c = l
    · subst hcl
      rw [Function.update_self]
      exact Option.bind_eq_some_iff.mp ((hself u).mp hrecord)
    · rw [Function.update_of_ne hcl]
      exact h.known u c ((hother u _ fun heq => hcl (Disconnect.listener.inj heq)).mp hrecord)
  · intro c
    rw [htransports]
    apply (h.once c).forgets.learns
    exact fun _ u _ => hforgotten u
  · intro c hc
    have hcl : x ≠ none → c ≠ l := fun hn => by
      have hlt := hl hn
      omega
    rw [hlisteners]
    by_cases heq : c = l
    · subst heq
      rw [Function.update_self]
      by_contra hn
      exact hcl hn rfl
    · rw [Function.update_of_ne heq]
      exact h.freshListener c (by omega)
  · intro u hu
    rw [htransports, learns_eq_none, forgets_eq_none]
    exact h.freshTransport u (hnext' ▸ hu)

-- A listener forwards to another name.
theorem Books.retarget {listener : AListener} (h : Books st) (hl : st.listeners l = some listener)
    (connectTo : Bytes) : Books (st.putListener l { listener with connectTo }) where
  remotes := h.remotes
  listeners := by
    intro c x t hc ht
    simp only [Server.putListener] at hc
    by_cases hcl : c = l
    · subst hcl
      rw [Function.update_self, Option.some.injEq] at hc
      exact h.listeners c listener t hl (by rw [← hc] at ht; exact ht)
    · rw [Function.update_of_ne hcl] at hc
      exact h.listeners c x t hc ht
  known := by
    intro t c hrecord
    obtain ⟨x, hx, ht⟩ := h.known t c hrecord
    simp only [Server.putListener]
    by_cases hcl : c = l
    · subst hcl
      rw [hl, Option.some.injEq] at hx
      subst hx
      exact ⟨_, Function.update_self .., ht⟩
    · exact ⟨x, by rw [Function.update_of_ne hcl, hx], ht⟩
  once := h.once
  freshListener := by
    intro c hc
    have hfresh := h.freshListener c hc
    have hcl : c ≠ l := by
      rintro rfl
      rw [hl] at hfresh
      cases hfresh
    simp only [Server.putListener, Function.update_of_ne hcl]
    exact hfresh
  freshTransport := h.freshTransport

theorem Edit.books (he : Edit D st after) (h : Books st) : Books after := by
  cases he with
  | put a s s' found kin =>
      refine h.of_same (fewerRemotes_update (a := a) (x := some s') rfl ?_) rfl rfl rfl rfl
      intro x hx hops
      obtain rfl := Option.some.inj hx
      obtain ⟨hremote, htransport⟩ := kin.remote hops
      exact ⟨s, found, hremote, htransport.symm⟩
  | alloc s other tracker alone _ =>
      refine h.of_same (fewerRemotes_update (a := st.nextSocket) (x := some s) rfl ?_) rfl rfl rfl rfl
      intro x hx hops
      obtain rfl := Option.some.inj hx
      exact absurd hops other
  | free a =>
      exact h.of_same (fewerRemotes_update (a := a) (x := none) rfl (by simp)) rfl rfl rfl rfl
  | attach s t up remote alone transport => exact h.attach up.live transport rfl rfl rfl rfl rfl
  | detach a t s found transport => exact h.detach (o := some t) rfl rfl rfl rfl rfl
  | listen listener fit =>
      have hnone := h.freshListener st.nextListener (Nat.le_refl _)
      refine h.listener (l := st.nextListener) (o := none) (x := some listener) rfl ?_ ?_ rfl rfl
        (Nat.le_succ _) (fun _ => Nat.lt_succ_self _) rfl
      · intro t hrecord
        obtain ⟨listener, hl, -⟩ := h.known t _ hrecord
        rw [hnone] at hl
        cases hl
      · intro x t hx ht
        obtain rfl := Option.some.inj hx
        exact (fit t ht).live
  | retarget l listener connectTo found => exact h.retarget found connectTo
  | rebind l old new listener connectTo found bound moved fit =>
      have hlt : l < st.nextListener := by
        by_contra hge
        rw [h.freshListener l (by omega)] at found
        cases found
      refine h.listener (l := l) (o := some old)
        (x := some { listener with connectTo, transport := some new }) rfl ?_ ?_ rfl rfl
        (Nat.le_refl _) (fun _ => hlt) rfl
      · intro t hrecord
        obtain ⟨x, hx, ht⟩ := h.known t l hrecord
        rw [found, Option.some.injEq] at hx
        rw [← bound, hx, ht]
      · intro x t hx ht
        obtain rfl := Option.some.inj hx
        obtain rfl : new = t := Option.some.inj ht
        exact fit.live
  | unlisten l listener found =>
      refine h.listener (l := l) (o := listener.transport) (x := none) rfl ?_ (by simp) rfl rfl
        (Nat.le_refl _) (by simp) rfl
      intro t hrecord
      obtain ⟨x, hx, ht⟩ := h.known t l hrecord
      rw [found, Option.some.injEq] at hx
      rw [hx, ht]
  | delist serial asked =>
      obtain ⟨ts, hts⟩ := disconnectDevice_same st serial
      rw [hts]
      exact h.of_same (.of_eq rfl) rfl rfl rfl rfl
  | _ => exact h.of_same (.of_eq rfl) rfl rfl rfl rfl

theorem Edits.books (he : Edits D st after) (h : Books st) : Books after :=
  he.invariant (fun he hx => he.books hx) h

-- A socket that is written over with its kind and its transport kept.
theorem Books.put (h : Books st) (hs : st.socks a = some s) (hops : s'.ops = s.ops)
    (htransport : s'.transport = s.transport) : Books (st.put a s') := by
  refine h.of_same (fewerRemotes_update (a := a) (x := some s') rfl ?_) rfl rfl rfl rfl
  intro x hx hremote
  obtain rfl := Option.some.inj hx
  exact ⟨s, hs, hops ▸ hremote, htransport.symm⟩

theorem Books.wrote (h : Books st) (script : Script) (a : Nat) (sent : Bytes) :
    Books ({ st with script }.note (.wrote a sent)) :=
  h.of_same (.of_eq rfl) rfl rfl rfl rfl

theorem Delivers.books (hd : Delivers D st a p after) (h : Books st) : Books after := by
  cases hd with
  | written s script found empty => exact h.wrote script a p
  | waits s found busy => exact h.put found rfl rfl
  | queued s script sent rest found empty split =>
      exact (h.wrote script a sent).put (s := s) found rfl rfl
  | broken script sent _ edits gone => exact edits.books (h.wrote script a sent)

-- A tracker leaves no record.
theorem Books.hire (h : Books st) : Books (createDeviceTracker st).2 := by
  refine h.of_same (fewerRemotes_update (a := st.nextSocket)
    (x := some { newSocket .deviceTracker with updateNeeded := true }) rfl ?_) rfl rfl rfl rfl
  intro x hx hops
  obtain rfl := Option.some.inj hx
  simp [newSocket] at hops

theorem Announces.books (ha : Announces D st a after) (h : Books st) : Books after := by
  obtain ⟨l, s, p, found, tracker, peer, listed, delivers⟩ := ha
  exact delivers.books (h.put found rfl rfl)

theorem Work.books (hw : Work D N st after) (h : Books st) : Books after := by
  cases hw with
  | edit _ edit => exact edit.books h
  | drain a s script sent pkts found split =>
      have hput : Books ({ st with script }.put a { s with pkts }) :=
        (h.of_same (.of_eq rfl) rfl rfl rfl rfl : Books { st with script }).put (s := s) found rfl rfl
      exact hput.of_same (.of_eq rfl) rfl rfl rfl rfl
  | pass a s p _ found foreign delivers => exact delivers.books h
  | announce d _ announces => exact announces.books h
  | engage mid _ edits announces => exact announces.books (edits.books h.hire)
  | publish d l s p _ found tracker peer listed delivers => exact delivers.books h

theorem Works.books (hw : Works D N st after) (h : Books st) : Books after :=
  hw.invariant (fun hw hx => hw.books hx) h

end Edits

end Adb.Host
