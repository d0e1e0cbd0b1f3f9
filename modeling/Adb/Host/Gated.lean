import Adb.Host.Offline

namespace Adb.Host

open Adb.Lib
open Adb.Transport (ConnectionState TransportType)

variable {D : Server → Bytes → Prop} {N : Prop} {st mid after : Server} {a l p t u : Nat} {s s' : ASocket}
  {b : Bytes} {transport x : ATransport} {out : Option Nat}

section Transports

-- The same transports, whatever their records.
structure SameStates (st after : Server) : Prop where
  plain : ∀ t, (after.transports t).map ATransport.plain = (st.transports t).map ATransport.plain
  next : after.nextTransport = st.nextTransport

theorem SameStates.refl (st : Server) : SameStates st st := ⟨fun _ => rfl, rfl⟩

theorem SameStates.symm (h : SameStates st after) : SameStates after st :=
  ⟨fun t => (h.plain t).symm, h.next.symm⟩

theorem SameStates.trans (h : SameStates st mid) (h' : SameStates mid after) :
    SameStates st after :=
  ⟨fun t => (h'.plain t).trans (h.plain t), h'.next.trans h.next⟩

theorem found_of_plain
    (hplain : (after.transports t).map ATransport.plain = (st.transports t).map ATransport.plain)
    (ht : st.transports t = some transport) : ∃ y, after.transports t = some y ∧
      y.online = transport.online ∧ y.connectionState = transport.connectionState := by
  rw [ht, Option.map_some, Option.map_eq_some_iff] at hplain
  obtain ⟨y, hy, heq⟩ := hplain
  have honline : y.plain.online = transport.plain.online := by rw [heq]
  have hstate : y.plain.connectionState = transport.plain.connectionState := by rw [heq]
  exact ⟨y, hy, honline, hstate⟩

theorem Fit.of_plain (h : Fit st t)
    (hplain : (after.transports t).map ATransport.plain = (st.transports t).map ATransport.plain) :
    Fit after t := by
  obtain ⟨transport, ht, hstate⟩ := h
  obtain ⟨y, hy, -, heq⟩ := found_of_plain hplain ht
  exact ⟨y, hy, heq ▸ hstate⟩

theorem SameStates.online (h : SameStates st after) (hup : Online st t) : Online after t :=
  hup.of_plain (h.plain t)

theorem SameStates.fit (h : SameStates st after) (hfit : Fit st t) : Fit after t :=
  hfit.of_plain (h.plain t)

theorem Edit.sameStates (he : Edit D st after) : SameStates st after := by
  refine ⟨he.plain, ?_⟩
  cases he with
  | delist serial asked =>
      obtain ⟨ts, heq⟩ := disconnectDevice_same st serial
      rw [heq]
  | _ => rfl

end Transports

section Gate

-- A transport that a socket may have: it is no later one, and not without permissions.
def Permitted (st : Server) (t : Nat) : Prop :=
  t < st.nextTransport ∧
    ∀ transport, st.transports t = some transport → transport.connectionState ≠ .noPerm

theorem SameStates.permitted (h : SameStates st after) (hp : Permitted st t) :
    Permitted after t := by
  refine ⟨h.next ▸ hp.1, fun transport ht => ?_⟩
  obtain ⟨y, hy, -, heq⟩ := found_of_plain (h.symm.plain t) ht
  exact heq ▸ hp.2 y hy

theorem Fit.permitted (hb : Books st) (h : Fit st t) : Permitted st t := by
  obtain ⟨transport, ht, -, hperm⟩ := h
  constructor
  · by_contra hge
    rw [hb.freshTransport t (by omega)] at ht
    cases ht
  · intro x hx
    rw [ht, Option.some.injEq] at hx
    exact hx ▸ hperm

-- Remote sockets are bound to transports that are online, and listeners to such as
-- are fit, save for a transport that is just being taken offline.
structure Gated (out : Option Nat) (st : Server) : Prop where
  up : ∀ t transport, st.transports t = some transport → transport.online = true →
    transport.connectionState ≠ .offline ∧ transport.connectionState ≠ .noPerm
  named : ∀ a s t, st.socks a = some s → s.transport = some t → Permitted st t
  remotes : ∀ a s t, st.socks a = some s → s.ops = .remoteSocket → s.transport = some t →
    out ≠ some t → Online st t
  listeners : ∀ l listener t, st.listeners l = some listener → listener.transport = some t →
    out ≠ some t → Fit st t
  leaving : ∀ t, out = some t → Permitted st t

theorem Gated.fit_of_online (h : Gated out st) (hup : Online st t) : Fit st t := by
  obtain ⟨transport, ht, honline⟩ := hup
  exact ⟨transport, ht, h.up t transport ht honline⟩

-- However the handlers come by a transport, it is fit or on its way out.
theorem Gated.fit_of_reached (h : Gated out st) (hr : Reached st t) : Fit st t ∨ out = some t := by
  by_cases hout : out = some t
  · exact Or.inr hout
  refine Or.inl ?_
  cases hr with
  | online up => exact h.fit_of_online up
  | acquired fit => exact fit
  | named a s transport found name live up =>
      exact ⟨transport, live, up, (h.named a s t found name).2 transport live⟩
  | remote a s found ops name => exact h.fit_of_online (h.remotes a s t found ops name hout)
  | listener l listener found name => exact h.listeners l listener t found name hout

theorem Gated.permitted_of_reached (hb : Books st) (h : Gated out st) (hr : Reached st t) :
    Permitted st t := by
  rcases h.fit_of_reached hr with hfit | hout
  · exact hfit.permitted hb
  · exact h.leaving t hout

theorem Gated.of_same (h : Gated out st) (hsame : SameStates st after)
    (hnamed : ∀ a s t, after.socks a = some s → s.transport = some t → Permitted st t)
    (hremotes : ∀ a s t, after.socks a = some s → s.ops = .remoteSocket → s.transport = some t →
      out ≠ some t → Online st t)
    (hlisteners : ∀ l listener t, after.listeners l = some listener → listener.transport = some t →
      out ≠ some t → Fit st t) : Gated out after where
  up := by
    intro t transport ht honline
    obtain ⟨y, hy, hup, hstate⟩ := found_of_plain (hsame.symm.plain t) ht
    rw [← hstate]
    exact h.up t y hy (hup.trans honline)
  named := fun a s t hs ht => hsame.permitted (hnamed a s t hs ht)
  remotes := fun a s t hs hops ht hout => hsame.online (hremotes a s t hs hops ht hout)
  listeners := fun l listener t hl ht hout => hsame.fit (hlisteners l listener t hl ht hout)
  leaving := fun t hout => hsame.permitted (h.leaving t hout)

theorem Gated.congr (h : Gated out st) (hsame : SameStates st after) (hsocks : after.socks = st.socks)
    (hlisteners : after.listeners = st.listeners) : Gated out after := by
  apply h.of_same hsame
  · rw [hsocks]
    exact h.named
  · rw [hsocks]
    exact h.remotes
  · rw [hlisteners]
    exact h.listeners

-- One socket is written.
theorem Gated.update {o : Option ASocket} (h : Gated out st) (hsame : SameStates st after)
    (hsocks : after.socks = Function.update st.socks a o) (hlisteners : after.listeners = st.listeners)
    (hnamed : ∀ y t, o = some y → y.transport = some t → Permitted st t)
    (hremote : ∀ y t, o = some y → y.ops = .remoteSocket → y.transport = some t → out ≠ some t →
      Online st t) : Gated out after := by
  apply h.of_same hsame
  · intro c y t hy ht
    rw [hsocks] at hy
    by_cases hca : c = a
    · subst hca
      rw [Function.update_self] at hy
      exact hnamed y t hy ht
    · rw [Function.update_of_ne hca] at hy
      exact h.named c y t hy ht
  · intro c y t hy hops ht hout
    rw [hsocks] at hy
    by_cases hca : c = a
    · subst hca
      rw [Function.update_self] at hy
      exact hremote y t hy hops ht hout
    · rw [Function.update_of_ne hca] at hy
      exact h.remotes c y t hy hops ht hout
  · rw [hlisteners]
    exact h.listeners

-- A socket is written over with its transport kept.
theorem Gated.put (h : Gated out st) (hs : st.socks a = some s) (hops : s'.ops = s.ops)
    (ht : s'.transport = s.transport) : Gated out (st.put a s') := by
  refine h.update ⟨fun _ => rfl, rfl⟩ (o := some s') rfl rfl ?_ ?_
  · intro y u hy hu
    obtain rfl := Option.some.inj hy
    exact h.named a s u hs (ht ▸ hu)
  · intro y u hy hremote hu hout
    obtain rfl := Option.some.inj hy
    exact h.remotes a s u hs (hops ▸ hremote) (ht ▸ hu) hout

-- One listener is written.
theorem Gated.listener {o : Option AListener} (h : Gated out st) (hsame : SameStates st after)
    (hsocks : after.socks = st.socks) (hlisteners : after.listeners = Function.update st.listeners l o)
    (ho : ∀ y t, o = some y → y.transport = some t → out ≠ some t → Fit st t) : Gated out after := by
  apply h.of_same hsame
  · rw [hsocks]
    exact h.named
  · rw [hsocks]
    exact h.remotes
  · intro c y t hy ht hout
    rw [hlisteners] at hy
    by_cases hcl : c = l
    · subst hcl
      rw [Function.update_self] at hy
      exact ho y t hy ht hout
    · rw [Function.update_of_ne hcl] at hy
      exact h.listeners c y t hy ht hout

end Gate

section Chains

-- A stretch of the handlers' work that changes no transport. What is sent on the
-- way is the handshake or goes to a transport that is fit.
structure Passes (out : Option Nat) (st after : Server) : Prop where
  books : Books after
  gated : Gated out after
  same : SameStates st after
  sends : SendsOnly (fun t message =>
    message.command = A_SYNC ∨ message.command = A_CNXN ∨ Fit st t ∨ out = some t) st after

theorem Passes.refl (hb : Books st) (hg : Gated out st) : Passes out st st :=
  ⟨hb, hg, .refl st, .of_eq rfl⟩

theorem Passes.trans (h : Passes out st mid) (h' : Passes out mid after) : Passes out st after where
  books := h'.books
  gated := h'.gated
  same := h.same.trans h'.same
  sends := h.sends.trans (h'.sends.mono fun _ _ hto =>
    hto.imp_right (Or.imp_right (Or.imp_left h.same.symm.fit)))

theorem Passes.of_unsent (hb : Books after) (hg : Gated out after) (hsame : SameStates st after)
    (hunsent : Unsent st after) : Passes out st after :=
  ⟨hb, hg, hsame, hunsent.sends⟩

theorem Edit.gated (hb : Books st) (h : Gated out st) (he : Edit D st after) : Gated out after := by
  have hsame := he.sameStates
  cases he with
  | put a s s' found kin =>
      refine h.update hsame (o := some s') rfl rfl ?_ ?_
      · intro y t hy ht
        obtain rfl := Option.some.inj hy
        rcases kin.bound with hkept | hreached
        · exact h.named a s t found (hkept ▸ ht)
        · exact h.permitted_of_reached hb (hreached t ht).2
      · intro y t hy hops ht hout
        obtain rfl := Option.some.inj hy
        obtain ⟨hremote, hkept⟩ := kin.remote hops
        exact h.remotes a s t found hremote (hkept ▸ ht) hout
  | alloc s other tracker alone unbound =>
      refine h.update hsame (o := some s) rfl rfl ?_ ?_
      · intro y t hy ht
        obtain rfl := Option.some.inj hy
        rw [unbound] at ht
        cases ht
      · intro y t hy hops
        obtain rfl := Option.some.inj hy
        exact absurd hops other
  | free a => exact h.update hsame (o := none) rfl rfl (by simp) (by simp)
  | attach s t up remote alone transport =>
      refine h.update hsame (o := some s) rfl rfl ?_ ?_
      · intro y u hy hu
        obtain rfl := Option.some.inj hy
        rw [transport, Option.some.injEq] at hu
        exact hu ▸ (h.fit_of_online up).permitted hb
      · intro y u hy _ hu _
        obtain rfl := Option.some.inj hy
        rw [transport, Option.some.injEq] at hu
        exact hu ▸ up
  | detach a t s found transport => exact h.update hsame (o := none) rfl rfl (by simp) (by simp)
  | listen listener fit =>
      refine h.listener hsame rfl (o := some listener) rfl ?_
      intro y t hy ht _
      obtain rfl := Option.some.inj hy
      exact fit t ht
  | retarget l listener connectTo found =>
      refine h.listener hsame rfl (o := some { listener with connectTo }) rfl ?_
      intro y t hy ht hout
      obtain rfl := Option.some.inj hy
      exact h.listeners l listener t found ht hout
  | rebind l old new listener connectTo found bound moved fit =>
      refine h.listener hsame rfl (o := some { listener with connectTo, transport := some new }) rfl ?_
      intro y t hy ht _
      obtain rfl := Option.some.inj hy
      exact Option.some.inj ht ▸ fit
  | unlisten l listener found => exact h.listener hsame rfl (o := none) rfl (by simp)
  | delist serial asked =>
      obtain ⟨ts, heq⟩ := disconnectDevice_same st serial
      rw [heq] at hsame ⊢
      exact h.congr hsame rfl rfl
  | _ => exact h.congr hsame rfl rfl

theorem Edit.passes (hb : Books st) (h : Gated out st) (he : Edit D st after) : Passes out st after := by
  have hbooks := he.books hb
  have hgated := he.gated hb h
  have hsame := he.sameStates
  cases he with
  | note e quiet addressed =>
      refine ⟨hbooks, hgated, hsame, .note rfl ?_⟩
      rintro t message carried rfl
      exact addressed.imp_right (Or.imp_right h.fit_of_reached)
  | delist serial asked =>
      obtain ⟨ts, heq⟩ := disconnectDevice_same st serial
      exact .of_unsent hbooks hgated hsame (.of_eq (by rw [heq]))
  | _ => exact .of_unsent hbooks hgated hsame (.of_eq rfl)

theorem Edits.passes (hb : Books st) (h : Gated out st) (he : Edits D st after) : Passes out st after := by
  induction he with
  | refl => exact .refl hb h
  | tail _ he ih => exact ih.trans (he.passes ih.books ih.gated)

theorem passes_put (hb : Books st) (h : Gated out st) (hs : st.socks a = some s) (hops : s'.ops = s.ops)
    (ht : s'.transport = s.transport) : Passes out st (st.put a s') :=
  .of_unsent (hb.put hs hops ht) (h.put hs hops ht) ⟨fun _ => rfl, rfl⟩ (.of_eq rfl)

theorem passes_wrote (hb : Books st) (h : Gated out st) (script : Script) (a : Nat) (sent : Bytes) :
    Passes out st ({ st with script }.note (.wrote a sent)) :=
  .of_unsent (hb.wrote script a sent) (h.congr ⟨fun _ => rfl, rfl⟩ rfl rfl) ⟨fun _ => rfl, rfl⟩
    (.note rfl (by simp))

theorem Delivers.passes (hb : Books st) (h : Gated out st) (hd : Delivers D st a b after) :
    Passes out st after := by
  cases hd with
  | written s script found empty => exact passes_wrote hb h script a b
  | waits s found busy => exact passes_put hb h found rfl rfl
  | queued s script sent rest found empty split =>
      have hwrote := passes_wrote hb h script a sent
      exact hwrote.trans (passes_put hwrote.books hwrote.gated (s := s) found rfl rfl)
  | broken script sent _ edits gone =>
      have hwrote := passes_wrote hb h script a sent
      exact hwrote.trans (edits.passes hwrote.books hwrote.gated)

theorem Announces.passes (hb : Books st) (h : Gated out st) (ha : Announces D st a after) :
    Passes out st after := by
  obtain ⟨l, s, p, found, tracker, peer, listed, delivers⟩ := ha
  have hput : Passes out st (st.put a { s with updateNeeded := false }) := passes_put hb h found rfl rfl
  exact hput.trans (delivers.passes hput.books hput.gated)

theorem Gated.hire (h : Gated out st) : Gated out (createDeviceTracker st).2 := by
  refine h.update ⟨fun _ => rfl, rfl⟩ (a := st.nextSocket)
    (o := some { newSocket .deviceTracker with updateNeeded := true }) rfl rfl ?_ ?_
  · intro y t hy ht
    obtain rfl := Option.some.inj hy
    cases ht
  · intro y t hy hops
    obtain rfl := Option.some.inj hy
    simp [newSocket] at hops

theorem Work.passes (hb : Books st) (h : Gated out st) (hw : Work D N st after) : Passes out st after := by
  cases hw with
  | edit _ edit => exact edit.passes hb h
  | drain a s script sent pkts found split =>
      have hscript : Passes out st { st with script } :=
        .of_unsent (hb.of_same (.of_eq rfl) rfl rfl rfl rfl) (h.congr ⟨fun _ => rfl, rfl⟩ rfl rfl)
          ⟨fun _ => rfl, rfl⟩ (.of_eq rfl)
      have hput : Passes out { st with script } ({ st with script }.put a { s with pkts }) :=
        passes_put hscript.books hscript.gated (s := s) found rfl rfl
      have hwrote := passes_wrote hput.books hput.gated script a sent
      exact (hscript.trans hput).trans hwrote
  | pass a s p _ found foreign delivers => exact delivers.passes hb h
  | announce d _ announces => exact announces.passes hb h
  | engage mid _ edits announces =>
      have hhire : Passes out st (createDeviceTracker st).2 :=
        .of_unsent hb.hire h.hire ⟨fun _ => rfl, rfl⟩ (.of_eq rfl)
      have hedits := edits.passes hhire.books hhire.gated
      exact (hhire.trans hedits).trans (announces.passes hedits.books hedits.gated)
  | publish d l s p _ found tracker peer listed delivers => exact delivers.passes hb h

theorem Works.passes (hb : Books st) (h : Gated out st) (hw : Works D N st after) : Passes out st after := by
  induction hw with
  | refl => exact .refl hb h
  | tail _ hw ih => exact ih.trans (hw.passes ih.books ih.gated)

end Chains

end Adb.Host
