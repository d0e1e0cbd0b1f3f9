import Adb.Host.TrackerView

namespace Adb.Host

open Adb.Lib

variable {D : Server → Bytes → Prop} {N : Prop} {st mid after : Server} {a t : Nat} {s s' x : ASocket}
  {p : Bytes} {dis : Disconnect} {transport : ATransport}

-- The transport of a socket is one that is there.
def Bound (st : Server) : Prop :=
  ∀ a s t, st.socks a = some s → s.transport = some t → st.transports t ≠ none

-- Nobody holds the transport but its remote sockets, and the local sockets at the
-- other end of one that have nothing left to write.
def Released (st : Server) (t : Nat) : Prop :=
  ∀ a s, st.socks a = some s → s.transport = some t → s.ops = .remoteSocket ∨
    (s.ops.isLocal = true ∧ s.pkts = [] ∧
      ∃ b q, s.peer = some b ∧ st.socks b = some q ∧ q.ops = .remoteSocket ∧ q.transport = some t)

def ReleasedFirst (st : Server) (input : Script × Input) : Prop :=
  match input.2 with
  | .remove t => Released st t
  | _ => True

-- Whatever a live socket or a live listener points to has not been freed.
structure PointersLive (st : Server) : Prop where
  sockets : ∀ a s t, st.socks a = some s → s.transport = some t → (st.transports t).isSome
  listeners : ∀ l listener t, st.listeners l = some listener → listener.transport = some t →
    (st.transports t).isSome

section Edits

theorem Bound.of_same (h : Bound st) (hsocks : after.socks = st.socks)
    (htransports : ∀ t, st.transports t ≠ none → after.transports t ≠ none) : Bound after := by
  intro a s t hs ht
  exact htransports t (h a s t (hsocks ▸ hs) ht)

theorem Bound.update {o : Option ASocket} (h : Bound st)
    (hsocks : after.socks = Function.update st.socks a o)
    (htransports : ∀ t, st.transports t ≠ none → after.transports t ≠ none)
    (ho : ∀ x t, o = some x → x.transport = some t → after.transports t ≠ none) : Bound after := by
  intro c x t hx ht
  rw [hsocks] at hx
  by_cases hca : c = a
  · subst hca
    rw [Function.update_self] at hx
    exact ho x t hx ht
  · rw [Function.update_of_ne hca] at hx
    exact htransports t (h c x t hx ht)

theorem Bound.free (h : Bound st) (hsocks : after.socks = Function.update st.socks a none)
    (htransports : ∀ t, st.transports t ≠ none → after.transports t ≠ none) : Bound after :=
  h.update hsocks htransports fun x t hx => by cases hx

-- A socket that is written over keeps its transport.
theorem Bound.put (h : Bound st) (hs : st.socks a = some s) (ht : s'.transport = s.transport) :
    Bound (st.put a s') := by
  refine h.update rfl (fun _ hlive => hlive) ?_
  intro x t hx hxt
  obtain rfl := Option.some.inj hx
  exact h a s t hs (ht ▸ hxt)

theorem learns_live (transports : Nat → Option ATransport) (o : Option Nat) (dis : Disconnect) (t : Nat)
    (h : transports t ≠ none) : learns transports o dis t ≠ none :=
  fun hnone => h (learns_eq_none.mp hnone)

theorem forgets_live (transports : Nat → Option ATransport) (o : Option Nat) (dis : Disconnect) (t : Nat)
    (h : transports t ≠ none) : forgets transports o dis t ≠ none :=
  fun hnone => h (forgets_eq_none.mp hnone)

theorem Edit.bound (he : Edit D st after) (h : Bound st) : Bound after := by
  cases he with
  | put a s s' found kin =>
      refine h.update rfl (fun _ hlive => hlive) ?_
      intro x t hx hxt
      obtain rfl := Option.some.inj hx
      rcases kin.bound with hsame | hlive
      · exact h a s t found (hsame ▸ hxt)
      · exact (hlive t hxt).1
  | alloc s other tracker alone unbound =>
      refine h.update rfl (fun _ hlive => hlive) ?_
      intro x t hx hxt
      obtain rfl := Option.some.inj hx
      rw [unbound] at hxt
      cases hxt
  | free a => exact h.free rfl fun _ hlive => hlive
  | attach s t up remote alone transport =>
      refine h.update rfl (learns_live st.transports (some t) (.remote st.nextSocket)) ?_
      intro x u hx hxu
      obtain rfl := Option.some.inj hx
      rw [transport, Option.some.injEq] at hxu
      subst hxu
      exact learns_live st.transports (some t) (.remote st.nextSocket) t up.live
  | detach a t s found transport =>
      exact h.free rfl (forgets_live st.transports (some t) (.remote a))
  | listen listener fit =>
      exact h.of_same rfl (learns_live st.transports listener.transport (.listener st.nextListener))
  | rebind l old new listener connectTo found bound moved fit =>
      exact h.of_same rfl fun u hu => learns_live (forgets st.transports (some old) (.listener l)) (some new)
        (.listener l) u (forgets_live st.transports (some old) (.listener l) u hu)
  | unlisten l listener found =>
      exact h.of_same rfl (forgets_live st.transports listener.transport (.listener l))
  | delist serial asked =>
      obtain ⟨ts, hts⟩ := disconnectDevice_same st serial
      rw [hts]
      exact h
  | _ => exact h

theorem Edits.bound (he : Edits D st after) (h : Bound st) : Bound after :=
  he.invariant (fun he hx => he.bound hx) h

theorem Delivers.bound (hd : Delivers D st a p after) (h : Bound st) : Bound after := by
  cases hd with
  | written s script found empty => exact h
  | waits s found busy => exact h.put found rfl
  | queued s script sent rest found empty split =>
      have hnote : Bound ({ st with script }.note (.wrote a sent)) := h
      apply hnote.put (s := s) found
      rfl
  | broken script sent _ edits gone => exact edits.bound h

theorem Announces.bound (ha : Announces D st a after) (h : Bound st) : Bound after := by
  obtain ⟨l, s, p, found, tracker, peer, listed, delivers⟩ := ha
  exact delivers.bound (h.put found rfl)

theorem Bound.hire (h : Bound st) : Bound (createDeviceTracker st).2 := by
  refine h.update (a := st.nextSocket) rfl (fun _ hlive => hlive) ?_
  intro x t hx hxt
  obtain rfl := Option.some.inj hx
  cases hxt

theorem Work.bound (hw : Work D N st after) (h : Bound st) : Bound after := by
  cases hw with
  | edit _ edit => exact edit.bound h
  | drain a s script sent pkts found split =>
      have hscript : Bound { st with script } := h
      have hput : Bound ({ st with script }.put a { s with pkts }) := by
        apply hscript.put (s := s) found
        rfl
      exact hput
  | pass a s p _ found foreign delivers => exact delivers.bound h
  | announce d _ announces => exact announces.bound h
  | engage mid _ edits announces => exact announces.bound (edits.bound h.hire)
  | publish d l s p _ found tracker peer listed delivers => exact delivers.bound h

theorem Works.bound (hw : Works D N st after) (h : Bound st) : Bound after :=
  hw.invariant (fun hw hx => hw.bound hx) h

end Edits

section Removal

theorem fate_transport (h : fate s = some x) : x.transport = s.transport ∧ s.pkts ≠ [] := by
  unfold fate at h
  split at h
  · rename_i hstay
    cases h
    exact ⟨rfl, fun hpkts => hstay.2 (Or.inr hpkts)⟩
  · cases h

-- The end of a remote socket of t: the local socket at its other end either goes
-- as well or does not hold t.
theorem Closed.released (hc : Closed st a s after) (h : Graph st) (hs : st.socks a = some s)
    (hops : s.ops = .remoteSocket) (hr : Released st t) : Released after t := by
  obtain ⟨b, peer, hp, hpeer, hlocal⟩ := h.peers.inner a s hs (by rw [hops]; rfl)
  have hsocks : ∀ c, c ≠ a → c ≠ b → after.socks c = st.socks c := by
    intro c hca hcb
    rw [hc.socks, Function.update_of_ne hca, hp, severed, Function.update_of_ne hcb]
  intro c x hx hxt
  have hca : c ≠ a := by
    rintro rfl
    rw [hc.socks, Function.update_self, fate_inner (by rw [hops]; rfl)] at hx
    cases hx
  by_cases hcb : c = b
  · subst hcb
    rw [hc.socks, Function.update_of_ne hca, hp, severed, Function.update_self, hpeer,
      Option.bind_some] at hx
    obtain ⟨htransport, hpkts⟩ := fate_transport hx
    rcases hr c peer hpeer (htransport ▸ hxt) with hremote | ⟨-, hempty, -⟩
    · simp [hremote, Ops.isLocal] at hlocal
    · exact absurd hempty hpkts
  · rw [hsocks c hca hcb] at hx
    rcases hr c x hx hxt with hremote | ⟨hxlocal, hempty, d, q, hd, hq, hqops, hqt⟩
    · exact Or.inl hremote
    · refine Or.inr ⟨hxlocal, hempty, d, q, hd, ?_, hqops, hqt⟩
      have hda : d ≠ a := by
        rintro rfl
        obtain ⟨-, back, hback, hbackc⟩ := h.peers.back c x d hx hd
        rw [hs, Option.some.injEq] at hback
        subst hback
        rw [hp, Option.some.injEq] at hbackc
        exact hcb hbackc.symm
      have hdb : d ≠ b := by
        rintro rfl
        rw [hpeer, Option.some.injEq] at hq
        subst hq
        simp [hqops, Ops.isLocal] at hlocal
      rw [hsocks d hda hdb]
      exact hq

theorem runDisconnect_released (h : Graph st) (ht : st.transports t = some transport)
    (hd : dis ∈ transport.disconnects) (hr : Released st t) (hrun : runDisconnect st dis = .ok after) :
    Released after t := by
  cases dis with
  | remote a =>
      obtain ⟨s, hs, hops⟩ := roleOf_eq_remote (h.owners.disconnects t transport a ht hd)
      exact ((remoteSocketDisconnect_spec h hs hops 2).of_ok hrun).released h hs hops hr
  | listener l =>
      have hcalm := (freeListener_calm st l).of_ok hrun
      unfold Released
      rw [hcalm.socks]
      exact hr

theorem disconnectsFrom_released (ds : List Disconnect) (h : Graph st) (hb : Books st)
    (ht : st.transports t = some transport) (hds : transport.disconnects = ds) (hr : Released st t)
    (hrun : disconnectsFrom t ds.length ds.head? st = .ok after) : Released after t := by
  induction ds generalizing st transport with
  | nil =>
      cases hrun
      exact hr
  | cons dis rest ih =>
      have hdis : dis ∈ transport.disconnects := by simp [hds]
      obtain ⟨mid, hmid, hundone⟩ := runDisconnect_undone h hb ht hdis
      have hmt : mid.transports t = some { transport with disconnects := rest } := by
        rw [hundone.transports, forgets_some ht, Function.update_self, hds, List.erase_cons_head]
      have hderef : st.derefTransport t = .ok transport := by simp [Server.derefTransport, ht]
      have hdrop : transport.disconnects.dropWhile (· ≠ dis) = dis :: rest := by simp [hds]
      simp only [List.length_cons, List.head?_cons, disconnectsFrom, hderef, bind, Except.bind, hdrop,
        hmid] at hrun
      exact ih hundone.graph hundone.books hmt rfl (runDisconnect_released h ht hdis hr hmid) hrun

-- Once the callbacks have run, the transport can go.
theorem Walked.unheld (hw : Walked st t mid) (hr : Released mid t) (hs : mid.socks a = some s) :
    s.transport ≠ some t := by
  intro heq
  rcases hr a s hs heq with hremote | ⟨-, -, b, q, -, hq, hops, hqt⟩
  · exact hw.detached hs hremote heq
  · exact hw.detached hq hops hqt

end Removal

section Handlers

theorem Bound.putTransport (h : Bound st) (x : ATransport) : Bound (st.putTransport t x) := by
  refine h.of_same rfl fun u hu => ?_
  by_cases hut : u = t
  · subst hut
    simp [Server.putTransport]
  · simpa [Server.putTransport, hut] using hu

theorem updateTransports_bound (hg : Graph st) (h : Bound st) : Ensures (updateTransports st) Bound Anyway :=
  (updateTransports_works (D := AnySerial) (N := True) hg).weaken fun _ hw => hw.bound h

theorem sendPacket_bound (h : Bound st) (o : Option Nat) (m : Message) :
    Ensures (st.sendPacket o m none) Bound Anyway := by
  apply ((sendPacket_ensures st o m none).mono fun _ _ => trivial).weaken
  rintro _ ⟨t, -, rfl⟩
  exact h

theorem takeOffline_bound (h : Bound st) (t : Nat) : Ensures (takeOffline st t) Bound Anyway := by
  unfold takeOffline setConnectionState handleOffline
  simp only [bind_assoc]
  apply (derefTransport_any st t).bind
  intro transport _
  apply (derefTransport_any _ t).bind
  intro offline _
  apply (runTransportDisconnects_edits (D := AnySerial) t).weaken
  intro after he
  exact he.bound ((h.putTransport _).putTransport _)

theorem parseBanner_bound (hg : Graph st) (h : Bound st) (t : Nat) (buffer : Bytes) :
    Ensures (parseBanner st t buffer) Bound Anyway := by
  unfold parseBanner
  apply (derefTransport_any st t).bind
  intro transport ht
  have hd := setProperties_disconnects transport (buffer.takeWhile (· ≠ 0))
  simp only
  split
  · rename_i state _
    apply updateTransports_bound
    · exact (calm_putTransport { setProperties transport _ with connectionState := state } ht hd).graph hg
    · exact h.putTransport _
  · exact h.putTransport _

theorem handleSync_bound (h : Bound st) (t : Nat) (packet : Packet) :
    Ensures (handleSync st t packet) Bound Anyway := by
  unfold handleSync
  simp only
  by_cases harg : packet.arg0 = 0
  · rw [if_neg (not_not.mpr harg), ← bind_assoc]
    apply (takeOffline_bound h t).bind
    intro mid hmid
    exact sendPacket_bound hmid _ _
  · rw [if_pos harg]
    apply (sendPacket_bound h _ _).bind
    intro mid hmid
    exact sendPacket_bound hmid _ _

theorem handleConnect_bound (hg : Graph st) (hb : Books st) (h : Bound st) (t : Nat) (packet : Packet) :
    Ensures (handleConnect st t packet) Bound Anyway := by
  unfold handleConnect
  apply (derefTransport_any st t).bind
  intro transport ht
  have hdown : Ensures (if transport.connectionState ≠ .offline then takeOffline st t else pure st)
      (fun mid => Graph mid ∧ Bound mid) Anyway := by
    split
    · obtain ⟨mid, hrun, hmid⟩ := takeOffline_walked hg hb ht
      have hbound := (takeOffline_bound h t).of_ok hrun
      rw [hrun]
      exact ⟨hmid.graph, hbound⟩
    · exact ⟨hg, h⟩
  apply hdown.bind
  rintro mid ⟨hgraph, hmid⟩
  apply (parseBanner_bound hgraph hmid t _).bind
  intro after ha
  unfold handleOnline
  apply (derefTransport_any after t).bind
  intro online _
  exact ha.putTransport _

theorem handlePacket_bound (hg : Graph st) (hb : Books st) (h : Bound st) (t : Nat) (packet : Packet) :
    Ensures (handlePacket st t packet) Bound Anyway := by
  by_cases hsync : packet.command = A_SYNC
  · unfold handlePacket
    apply (derefTransport_any st t).bind
    intro transport _
    rw [if_pos hsync]
    exact handleSync_bound h t packet
  by_cases hconnect : packet.command = A_CNXN
  · unfold handlePacket
    apply (derefTransport_any st t).bind
    intro transport _
    rw [if_neg hsync, if_pos hconnect]
    exact handleConnect_bound hg hb h t packet
  · apply (handlePacket_works (D := AnySerial) (N := True) hg t packet (fun hc => absurd hc hsync)
      hconnect fun _ _ => Or.inr trivial).weaken
    intro after hw
    exact hw.bound h

-- The only step after which a pointer can be left behind.
theorem removeTransport_bound (hg : Graph st) (hb : Books st) (h : Bound st) (hr : Released st t) :
    Ensures (removeTransport st t) Bound Anyway := by
  unfold removeTransport
  apply (derefTransport_any st t).bind
  intro transport ht
  have hgraph := (calm_delisted st (st.transportList.erase t)).graph hg
  have hlisted : Books { st with transportList := st.transportList.erase t } :=
    hb.of_same (.of_eq rfl) rfl rfl rfl rfl
  obtain ⟨mid, hrun, hmid⟩ := runTransportDisconnects_walked hgraph hlisted ht
  have hbound : Bound mid := ((runTransportDisconnects_edits (D := AnySerial) t).of_ok hrun).bound h
  have hreleased : Released mid t := by
    apply disconnectsFrom_released transport.disconnects hgraph hlisted ht rfl hr
    rw [← hrun]
    simp only [runTransportDisconnects, Server.derefTransport, ht, bind, Except.bind]
  apply (ensures_bind_ok hrun).mpr
  apply updateTransports_bound ((calm_removed mid t).graph hmid.graph)
  intro a s u hs hu
  have hut : u ≠ t := by
    rintro rfl
    exact hmid.unheld hreleased hs hu
  simpa [hut] using hbound a s u hs hu

theorem handle_bound (hg : Graph st) (hb : Books st) (h : Bound st) (input : Input)
    (hr : ∀ t, input = .remove t → Released st t) : Ensures (handle st input) Bound Anyway := by
  by_cases hordinary : input.Ordinary
  · apply (handle_works (D := AnySerial) (N := True) hg input hordinary (fun _ _ _ => trivial)
      fun _ _ => Or.inr trivial).weaken
    intro after hw
    exact hw.bound h
  cases input with
  | packet t packet =>
      simp only [handle]
      split
      · exact handlePacket_bound hg hb h t packet
      · trivial
  | register type adbPort serial devpath writeable =>
      simp only [handle, registerTransport]
      exact updateTransports_bound (hg.register _ rfl) (h.putTransport _)
  | remove t =>
      simp only [handle]
      split
      · exact removeTransport_bound hg hb h (hr t rfl)
      · trivial
  | _ => exact absurd trivial hordinary

end Handlers

section Runs

theorem step_bound {input : Script × Input} (hw : Whole st) (hb : Books st) (h : Bound st)
    (hr : ReleasedFirst st input) (hstep : step st input = .ok after) : Bound after := by
  have hs := hw.scripted input
  have hscripted : Books (scripted st input) := hb.of_same (.of_eq rfl) rfl rfl rfl rfl
  have hbound : Bound (scripted st input) := h
  refine (handle_bound hs.graph hscripted hbound input.2 ?_).of_ok hstep
  intro t ht
  unfold ReleasedFirst at hr
  rw [ht] at hr
  exact hr

theorem bound_init : Bound serverInit := by
  intro a s t hs
  cases hs

-- As long as every transport is released before it goes, no pointer to a transport
-- dangles.
theorem no_dangling_transport {inputs : List (Script × Input)}
    (hg : Guarded step ReleasedFirst serverInit inputs) (hrun : run step serverInit inputs = .ok st) :
    PointersLive st := by
  have hall : Whole st ∧ Books st ∧ Bound st :=
    guarded_invariant (P := fun st => Whole st ∧ Books st ∧ Bound st)
      (fun _ _ _ hs hr hstep => ⟨step_whole hs.1 hstep, step_books hs.1 hs.2.1 hstep,
        step_bound hs.1 hs.2.1 hs.2.2 hr hstep⟩)
      ⟨whole_init, books_init, bound_init⟩ hg hrun
  obtain ⟨-, hbooks, hbound⟩ := hall
  refine ⟨fun a s t hs ht => Option.isSome_iff_ne_none.mpr (hbound a s t hs ht), ?_⟩
  intro l listener t hl ht
  obtain ⟨transport, htransport, -⟩ := hbooks.listeners l listener t hl ht
  rw [htransport]
  rfl

def Keeps (_ : Server) (input : Script × Input) : Prop :=
  match input.2 with
  | .remove _ => False
  | _ => True

def letsGo (st : Server) (t : Nat) (s : ASocket) : Bool :=
  s.transport ≠ some t || s.ops = .remoteSocket || (s.ops.isLocal && s.pkts.isEmpty &&
    (s.peer.bind st.socks).any fun q => q.ops = .remoteSocket && q.transport = some t)

theorem released_of_letsGo (h : Base st)
    (hall : (List.range st.nextSocket).all (fun a => (st.socks a).all (letsGo st t)) = true) : Released st t := by
  intro a s hs ht
  have hlow : a < st.nextSocket := by
    by_contra hhigh
    rw [h.owners.fresh a (Nat.not_lt.mp hhigh)] at hs
    cases hs
  have hgo := List.all_eq_true.mp hall a (List.mem_range.mpr hlow)
  rw [hs, Option.all_some] at hgo
  simp only [letsGo, ht, ne_eq, not_true, decide_false, Bool.false_or, Bool.or_eq_true, decide_eq_true_eq,
    Bool.and_eq_true, List.isEmpty_iff, Option.any_eq_true, Option.bind_eq_some_iff] at hgo
  obtain hremote | ⟨⟨hlocal, hempty⟩, q, ⟨b, hb, hq⟩, hops, hvia⟩ := hgo
  · exact Or.inl hremote
  · exact Or.inr ⟨hlocal, hempty, b, q, hb, hq, hops, hvia⟩

-- The device goes while the shell runs: the client has nothing left to write.
set_option maxRecDepth 8000 in
theorem no_dangling_transport_of_a_shell : ∃ mid st, run step serverInit shellStarted = .ok mid ∧
    (∃ a s, mid.socks a = some s ∧ s.transport = some 0) ∧ Released mid 0 ∧
      step mid (silent, .remove 0) = .ok st ∧ st.transports 0 = none ∧ PointersLive st := by
  obtain ⟨mid, hmid, hall⟩ := exists_of_any (x := run step serverInit shellStarted)
    (p := fun st => (List.range st.nextSocket).all (fun a => (st.socks a).all (letsGo st 0)) &&
      ((st.socks 0).any fun s => s.transport = some 0) &&
      (step st (silent, .remove 0)).toOption.any fun after => (after.transports 0).isNone) (by decide)
  rw [Bool.and_eq_true, Bool.and_eq_true, Option.any_eq_true] at hall
  obtain ⟨⟨hgo, s, hs, ht⟩, hgone⟩ := hall
  obtain ⟨st, hst, hnone⟩ := exists_of_any hgone
  have hreleased : Released mid 0 := released_of_letsGo (run_whole hmid).graph.base hgo
  have hkeeps : Guarded step Keeps serverInit shellStarted := by
    refine guarded_of_all (fun input hm => show Keeps serverInit input from ?_)
    simp only [shellStarted, shellRequest, List.cons_append, List.nil_append, List.mem_cons,
      List.not_mem_nil, or_false] at hm
    rcases hm with rfl | rfl | rfl | rfl | rfl | rfl | rfl | rfl <;> trivial
  have hfirst : Guarded step ReleasedFirst serverInit shellStarted := by
    refine hkeeps.mono fun s input hk => ?_
    unfold Keeps at hk
    unfold ReleasedFirst
    split at hk
    · exact hk.elim
    · trivial
  have hguarded : Guarded step ReleasedFirst serverInit (shellStarted ++ [(silent, .remove 0)]) := by
    refine guarded_append hfirst fun reached hreached => ?_
    cases hmid.symm.trans hreached
    exact ⟨hreleased, fun _ _ => trivial⟩
  have hrun : run step serverInit (shellStarted ++ [(silent, .remove 0)]) = .ok st := by
    rw [run_append, hmid, Except.bind, run_cons hst, run_nil]
  exact ⟨mid, st, hmid, ⟨0, s, hs, of_decide_eq_true ht⟩, hreleased, hst, Option.isNone_iff_eq_none.mp hnone,
    no_dangling_transport hguarded hrun⟩

-- A client selects the device, and the device goes before the next request.
def selectedThenGone : List (Script × Input) :=
  shellRequest.take 5 ++ [(silent, .remove 0)]

def nextRequest : List (Script × Input) :=
  [(silent, .signal 0), (reading (request "shell:ls"), .callback 0)]

def readsFreed : Except Stop Server → Bool
  | .error e => e = .useAfterFree
  | .ok _ => false

theorem readsFreed_iff {x : Except Stop Server} : readsFreed x = true ↔ x = .error .useAfterFree := by
  cases x <;> simp [readsFreed]

set_option maxRecDepth 8000 in
theorem selected_transport_dangles : ∃ st, run step serverInit selectedThenGone = .ok st ∧
    ¬PointersLive st ∧ run step st nextRequest = .error .useAfterFree := by
  obtain ⟨st, hrun, hboth⟩ := exists_of_any (x := run step serverInit selectedThenGone)
    (p := fun st => ((st.socks 1).any fun s => s.transport = some 0) && (st.transports 0).isNone &&
      readsFreed (run step st nextRequest)) (by decide)
  rw [Bool.and_eq_true, Bool.and_eq_true, Option.any_eq_true, readsFreed_iff] at hboth
  obtain ⟨⟨⟨s, hs, ht⟩, hgone⟩, hfreed⟩ := hboth
  refine ⟨st, hrun, fun hlive => ?_, hfreed⟩
  have hsome := hlive.sockets 1 s 0 hs (of_decide_eq_true ht)
  rw [Option.isNone_iff_eq_none.mp hgone] at hsome
  cases hsome

end Runs

end Adb.Host
