import Adb.Host.Offline

namespace Adb.Host

open Adb.Lib
open Adb.Transport (ConnectionState TransportType)

variable {D : Server → Bytes → Prop} {N : Prop} {st mid after : Server} {a b d l t : Nat}
  {s s' c q : ASocket} {p : Bytes} {x : Option ASocket} {transport : ATransport}

section Streams

-- What has been written to the fd of a socket.
def writtenTo (log : List Event) (l : Nat) : Bytes :=
  log.flatMap fun e =>
    match e with
    | .wrote c bytes => if c = l then bytes else []
    | _ => []

-- All that a local socket has been sent: what is written and what is queued.
def sentTo (st : Server) (l : Nat) : Bytes :=
  writtenTo st.log l ++ (st.socks l).elim [] (·.pkts.flatten)

-- A tracker at work and its client, which have each other.
structure Tracks (st : Server) (d l : Nat) : Prop where
  tracker : ∃ s, st.socks d = some s ∧ s.Settled ∧ s.peer = some l
  client : ∃ c, st.socks l = some c ∧ c.peer = some d

-- A tracker that has not sent anything yet.
def Unready (st : Server) (d : Nat) : Prop :=
  ∃ s, st.socks d = some s ∧ s.ops = .deviceTracker ∧ s.updateNeeded = true

-- No tracker starts, and no client of a tracker is sent anything.
structure Still (st after : Server) : Prop where
  tracks : ∀ d l, Tracks after d l → Tracks st d l ∧ sentTo after l = sentTo st l
  unready : ∀ d, Unready after d → Unready st d

theorem Still.refl (st : Server) : Still st st := ⟨fun _ _ h => ⟨h, rfl⟩, fun _ h => h⟩

theorem Still.trans (h : Still st mid) (h' : Still mid after) : Still st after where
  tracks := by
    intro d l ht
    obtain ⟨hm, heq'⟩ := h'.tracks d l ht
    obtain ⟨hs, heq⟩ := h.tracks d l hm
    exact ⟨hs, heq'.trans heq⟩
  unready := fun d hu => h.unready d (h'.unready d hu)

theorem writtenTo_append (log events : List Event) (l : Nat) :
    writtenTo (log ++ events) l = writtenTo log l ++ writtenTo events l := by
  simp [writtenTo]

theorem Tracks.of_socks (h : Tracks after d l) (hsocks : after.socks = st.socks) : Tracks st d l :=
  ⟨hsocks ▸ h.tracker, hsocks ▸ h.client⟩

theorem Still.of_same (hsocks : after.socks = st.socks) (hlog : ∀ l, writtenTo after.log l = writtenTo st.log l) :
    Still st after where
  tracks := by
    intro d l ht
    refine ⟨ht.of_socks hsocks, ?_⟩
    unfold sentTo
    rw [hsocks, hlog]
  unready := by
    intro d hu
    unfold Unready
    rw [← hsocks]
    exact hu

theorem Kin.settled (h : Kin st s s') (hs : s'.Settled) : s.Settled := by
  obtain ⟨hops, hneeded⟩ := h.tracker hs.1
  exact ⟨hops, hneeded ▸ hs.2⟩

-- One socket is written over, or comes, or goes.
theorem Still.update (hsocks : after.socks = Function.update st.socks a x) (hlog : after.log = st.log)
    (hx : ∀ s', x = some s' → (s'.ops ≠ .deviceTracker ∧ s'.peer = none) ∨
      ∃ s, st.socks a = some s ∧ Kin st s s') : Still st after where
  tracks := by
    rintro d l ⟨⟨s1, hs1, hsettled, hp⟩, c, hc, hback⟩
    rw [hsocks] at hs1 hc
    have htracker : ∃ s, st.socks d = some s ∧ s.Settled ∧ s.peer = some l := by
      by_cases hda : d = a
      · subst hda
        rw [Function.update_self] at hs1
        rcases hx s1 hs1 with ⟨hops, -⟩ | ⟨s, hs, hkin⟩
        · exact absurd hsettled.1 hops
        · rcases hkin.link with ⟨hpeer, -⟩ | hnone | ⟨hnot, -⟩
          · exact ⟨s, hs, hkin.settled hsettled, hpeer ▸ hp⟩
          · rw [hnone] at hp
            cases hp
          · exact absurd hsettled hnot
      · rw [Function.update_of_ne hda] at hs1
        exact ⟨s1, hs1, hsettled, hp⟩
    have hclient : ∃ c', st.socks l = some c' ∧ c'.peer = some d ∧ c.pkts = c'.pkts := by
      by_cases hla : l = a
      · subst hla
        rw [Function.update_self] at hc
        rcases hx c hc with ⟨-, hnone⟩ | ⟨s, hs, hkin⟩
        · rw [hnone] at hback
          cases hback
        · rcases hkin.link with ⟨hpeer, hpkts⟩ | hnone | ⟨hnot, hpeers⟩
          · exact ⟨s, hs, hpeer ▸ hback, hpkts⟩
          · rw [hnone] at hback
            cases hback
          · -- the tracker was at work before
            obtain ⟨q, hq, hqs, -⟩ := htracker
            exact absurd hqs (hpeers q (by rw [hback]; exact hq))
      · rw [Function.update_of_ne hla] at hc
        exact ⟨c, hc, hback, rfl⟩
    obtain ⟨c', hc', hback', hpkts⟩ := hclient
    refine ⟨⟨htracker, c', hc', hback'⟩, ?_⟩
    unfold sentTo
    rw [hlog, hsocks, hc, hc']
    simp only [Option.elim_some, hpkts]
  unready := by
    rintro d ⟨s1, hs1, hops, hneeded⟩
    rw [hsocks] at hs1
    by_cases hda : d = a
    · subst hda
      rw [Function.update_self] at hs1
      rcases hx s1 hs1 with ⟨hnot, -⟩ | ⟨s, hs, hkin⟩
      · exact absurd hops hnot
      · obtain ⟨hsops, hsame⟩ := hkin.tracker hops
        exact ⟨s, hs, hsops, hsame ▸ hneeded⟩
    · rw [Function.update_of_ne hda] at hs1
      exact ⟨s1, hs1, hops, hneeded⟩

theorem Edit.still (he : Edit D st after) : Still st after := by
  cases he with
  | note e quiet =>
      refine Still.of_same rfl ?_
      intro l
      show writtenTo (st.log ++ [e]) l = writtenTo st.log l
      rw [writtenTo_append]
      cases e with
      | wrote a bytes => exact absurd rfl (quiet a bytes)
      | _ => exact List.append_nil _
  | put a s s' found kin =>
      refine Still.update (a := a) (x := some s') rfl rfl ?_
      intro s1 hs1
      rw [Option.some.injEq] at hs1
      exact Or.inr ⟨s, found, hs1 ▸ kin⟩
  | alloc s other tracker alone _ =>
      refine Still.update (a := st.nextSocket) (x := some s) rfl rfl ?_
      intro s1 hs1
      rw [Option.some.injEq] at hs1
      exact Or.inl ⟨hs1 ▸ tracker, hs1 ▸ alone⟩
  | free a => exact Still.update (a := a) (x := none) rfl rfl (by simp)
  | attach s t live remote alone transport =>
      refine Still.update (a := st.nextSocket) (x := some s) rfl rfl ?_
      intro s1 hs1
      rw [Option.some.injEq] at hs1
      subst hs1
      exact Or.inl ⟨by simp [remote], alone⟩
  | detach a t s found transport => exact Still.update (a := a) (x := none) rfl rfl (by simp)
  | delist serial asked =>
      obtain ⟨ts, hts⟩ := disconnectDevice_same st serial
      rw [hts]
      exact Still.of_same rfl fun _ => rfl
  | _ => exact Still.of_same rfl fun _ => rfl

theorem Edits.still (he : Edits D st after) : Still st after := by
  induction he with
  | refl => exact Still.refl st
  | tail _ he ih => exact ih.trans he.still

-- A packet comes to a, and to nobody else.
structure Sent (st : Server) (a : Nat) (p : Bytes) (after : Server) : Prop where
  tracks : ∀ d l, Tracks after d l → Tracks st d l ∧
    sentTo after l = if l = a then sentTo st l ++ p else sentTo st l
  unready : ∀ d, Unready after d → Unready st d

theorem sentTo_wrote (st : Server) (script : Script) (sent : Bytes) (hla : l ≠ a) :
    sentTo ({ st with script }.note (.wrote a sent)) l = sentTo st l := by
  have hne : a ≠ l := fun h => hla h.symm
  simp [sentTo, Server.note, writtenTo, hne]

-- The queue of one socket changes, and what is written to it.
theorem sent_put (hs : st.socks a = some s) (hsocks : after.socks = Function.update st.socks a (some s'))
    (hpeer : s'.peer = s.peer) (hops : s'.ops = s.ops) (hneeded : s'.updateNeeded = s.updateNeeded)
    (hself : sentTo after a = sentTo st a ++ p)
    (hother : ∀ l, l ≠ a → writtenTo after.log l = writtenTo st.log l) : Sent st a p after where
  tracks := by
    rintro d l ⟨⟨s1, hs1, hsettled, hp⟩, c, hc, hback⟩
    have hfrom : ∀ e y, after.socks e = some y → ∃ z, st.socks e = some z ∧ y.peer = z.peer ∧
        y.ops = z.ops ∧ y.updateNeeded = z.updateNeeded := by
      intro e y hy
      rw [hsocks] at hy
      by_cases hea : e = a
      · subst hea
        rw [Function.update_self, Option.some.injEq] at hy
        subst hy
        exact ⟨s, hs, hpeer, hops, hneeded⟩
      · rw [Function.update_of_ne hea] at hy
        exact ⟨y, hy, rfl, rfl, rfl⟩
    obtain ⟨z, hz, hzp, hzo, hzn⟩ := hfrom d s1 hs1
    obtain ⟨y, hy, hyp, -, -⟩ := hfrom l c hc
    refine ⟨⟨⟨z, hz, ⟨hzo ▸ hsettled.1, hzn ▸ hsettled.2⟩, hzp ▸ hp⟩, y, hy, hyp ▸ hback⟩, ?_⟩
    by_cases hla : l = a
    · subst hla
      rw [if_pos rfl, hself]
    · rw [if_neg hla]
      unfold sentTo
      rw [hother l hla, hsocks, Function.update_of_ne hla]
  unready := by
    rintro d ⟨s1, hs1, h1, h2⟩
    rw [hsocks] at hs1
    by_cases hda : d = a
    · subst hda
      rw [Function.update_self, Option.some.injEq] at hs1
      subst hs1
      exact ⟨s, hs, hops ▸ h1, hneeded ▸ h2⟩
    · rw [Function.update_of_ne hda] at hs1
      exact ⟨s1, hs1, h1, h2⟩

theorem Delivers.sent (hd : Delivers D st a p after) : Sent st a p after := by
  cases hd with
  | written s script found empty =>
      refine ⟨fun d l ht => ⟨ht.of_socks rfl, ?_⟩, fun d hu => hu⟩
      by_cases hla : l = a
      · subst hla
        simp [sentTo, Server.note, writtenTo, found, empty]
      · rw [if_neg hla, sentTo_wrote st script p hla]
  | waits s found busy =>
      refine sent_put found rfl rfl rfl rfl ?_ fun l _ => rfl
      simp [sentTo, Server.put, found]
  | queued s script sent rest found empty split =>
      refine sent_put found rfl rfl rfl rfl ?_ fun l hla => ?_
      · simp [sentTo, Server.put, Server.note, writtenTo, found, empty, ← split]
      · have hne : a ≠ l := fun h => hla h.symm
        simp [Server.put, Server.note, writtenTo, hne]
  | broken script sent _ edits gone =>
      have hstill := edits.still
      refine ⟨fun d l ht => ?_, fun d hu => hstill.unready d hu⟩
      obtain ⟨hm, heq⟩ := hstill.tracks d l ht
      have hla : l ≠ a := by
        rintro rfl
        obtain ⟨c, hc, -⟩ := ht.client
        rw [gone] at hc
        cases hc
      refine ⟨hm.of_socks rfl, ?_⟩
      rw [heq, if_neg hla, sentTo_wrote st script sent hla]

theorem Sent.still (h : Sent st a [] after) : Still st after where
  tracks := by
    intro d l ht
    obtain ⟨hs, heq⟩ := h.tracks d l ht
    refine ⟨hs, ?_⟩
    rw [heq]
    split <;> simp
  unready := h.unready

end Streams

section View

-- Every client of a tracker has been sent the list of the devices last, and no
-- tracker has still to start.
structure Informed (st : Server) : Prop where
  started : ∀ d, ¬Unready st d
  current : ∀ p, listTransportsMsg st = .ok p → ∀ d l, Tracks st d l → p <:+ sentTo st l

-- A change nobody has to be told of: nobody listens, or the list reads the same.
def Harmless (st after : Server) : Prop :=
  (∀ d l, ¬Tracks st d l) ∨ listTransportsMsg after = listTransportsMsg st

theorem Informed.still (hi : Informed st) (hs : Still st after) (hh : Harmless st after) : Informed after where
  started := fun d hu => hi.started d (hs.unready d hu)
  current := by
    intro p hp d l ht
    obtain ⟨hb, heq⟩ := hs.tracks d l ht
    rcases hh with hnone | hsame
    · exact absurd hb (hnone d l)
    · rw [heq]
      exact hi.current p (hsame ▸ hp) d l hb

theorem Informed.edits (hi : Informed st) (he : Edits Nobody st after) : Informed after :=
  hi.still he.still (Or.inr he.sameListing.listTransportsMsg)

-- The list goes to one client more.
theorem Informed.sent (hi : Informed st) (hs : Sent st a p after)
    (hlisted : listTransportsMsg st = .ok p) (hsame : listTransportsMsg after = listTransportsMsg st) :
    Informed after where
  started := fun d hu => hi.started d (hs.unready d hu)
  current := by
    intro p' hp' d l ht
    rw [hsame, hlisted, Except.ok.injEq] at hp'
    subst hp'
    obtain ⟨hb, heq⟩ := hs.tracks d l ht
    rw [heq]
    split
    · exact List.suffix_append _ _
    · exact hi.current _ hlisted d l hb

-- All but one tracker have started, and their clients know.
structure InformedBut (st : Server) (e : Nat) : Prop where
  started : ∀ d, Unready st d → d = e
  current : ∀ p, listTransportsMsg st = .ok p → ∀ d l, Tracks st d l → p <:+ sentTo st l

theorem Informed.but (hi : Informed st) (e : Nat) : InformedBut st e :=
  ⟨fun d hu => absurd hu (hi.started d), hi.current⟩

theorem InformedBut.edits {e : Nat} (hi : InformedBut st e) (he : Edits Nobody st after) :
    InformedBut after e where
  started := fun d hu => hi.started d (he.still.unready d hu)
  current := by
    intro p hp d l ht
    obtain ⟨hb, heq⟩ := he.still.tracks d l ht
    rw [heq]
    exact hi.current p (he.sameListing.listTransportsMsg ▸ hp) d l hb

-- A tracker that has been asked for has no client yet.
theorem Informed.hire (hi : Informed st) : InformedBut (createDeviceTracker st).2 st.nextSocket := by
  have hsocks : (createDeviceTracker st).2.socks = Function.update st.socks st.nextSocket
      (some { newSocket .deviceTracker with updateNeeded := true }) := rfl
  have hsame : listTransportsMsg (createDeviceTracker st).2 = listTransportsMsg st :=
    listTransportsMsg_congr rfl fun _ => rfl
  constructor
  · rintro d ⟨s, hs, hops, hneeded⟩
    by_contra hne
    rw [hsocks, Function.update_of_ne hne] at hs
    exact hi.started d ⟨s, hs, hops, hneeded⟩
  · rintro p hp d l ⟨⟨s, hs, hsettled, hpeer⟩, c, hc, hback⟩
    have hd : d ≠ st.nextSocket := by
      rintro rfl
      rw [hsocks, Function.update_self, Option.some.injEq] at hs
      rw [← hs] at hsettled
      exact absurd hsettled.2 (by simp)
    have hl : l ≠ st.nextSocket := by
      rintro rfl
      rw [hsocks, Function.update_self, Option.some.injEq] at hc
      rw [← hc] at hback
      cases hback
    rw [hsocks, Function.update_of_ne hd] at hs
    rw [hsocks, Function.update_of_ne hl] at hc
    have hsent : sentTo (createDeviceTracker st).2 l = sentTo st l := by
      unfold sentTo
      rw [hsocks, Function.update_of_ne hl]
      rfl
    rw [hsent]
    exact hi.current p (hsame ▸ hp) d l ⟨⟨s, hs, hsettled, hpeer⟩, c, hc, hback⟩

-- The last tracker sends its first message.
theorem Announces.informed (ha : Announces Nobody st d after) (hi : InformedBut st d) : Informed after := by
  obtain ⟨l, s, p, found, tracker, peer, listed, delivers⟩ := ha
  obtain ⟨put, hput⟩ : ∃ put : Server, put = st.put d { s with updateNeeded := false } := ⟨_, rfl⟩
  rw [← hput] at delivers
  have hsent := delivers.sent
  have hsocks : put.socks = Function.update st.socks d (some { s with updateNeeded := false }) := by
    rw [hput]
    rfl
  have hlisted : listTransportsMsg put = listTransportsMsg st := by
    rw [hput]
    exact listTransportsMsg_congr rfl fun _ => rfl
  have hsame := delivers.sameListing.listTransportsMsg
  constructor
  · intro e hu
    obtain ⟨x, hx, hops, hneeded⟩ := hsent.unready e hu
    rw [hsocks] at hx
    by_cases hed : e = d
    · subst hed
      rw [Function.update_self, Option.some.injEq] at hx
      rw [← hx] at hneeded
      cases hneeded
    · rw [Function.update_of_ne hed] at hx
      exact hed (hi.started e ⟨x, hx, hops, hneeded⟩)
  · intro p' hp' e m ht
    rw [hsame, hlisted, listed, Except.ok.injEq] at hp'
    subst hp'
    obtain ⟨⟨⟨x, hx, hsettled, hpeer⟩, c, hc, hback⟩, heq⟩ := hsent.tracks e m ht
    rw [heq]
    by_cases hml : m = l
    · rw [if_pos hml]
      exact List.suffix_append _ _
    · -- any other client has another tracker
      rw [if_neg hml]
      have hed : e ≠ d := by
        rintro rfl
        rw [hsocks, Function.update_self, Option.some.injEq] at hx
        rw [← hx] at hpeer
        exact hml (Option.some.inj (hpeer.symm.trans peer))
      rw [hsocks, Function.update_of_ne hed] at hx
      have hclient : ∃ c', st.socks m = some c' ∧ c'.peer = some e := by
        by_cases hmd : m = d
        · subst hmd
          rw [hsocks, Function.update_self, Option.some.injEq] at hc
          rw [← hc] at hback
          exact ⟨s, found, hback⟩
        · rw [hsocks, Function.update_of_ne hmd] at hc
          exact ⟨c, hc, hback⟩
      have hkept : sentTo put m = sentTo st m := by
        unfold sentTo
        have hlog : put.log = st.log := by rw [hput]; rfl
        rw [hlog, hsocks]
        by_cases hmd : m = d
        · subst hmd
          rw [Function.update_self, found]
          rfl
        · rw [Function.update_of_ne hmd]
      rw [hkept]
      exact hi.current _ listed e m ⟨⟨x, hx, hsettled, hpeer⟩, hclient⟩

-- A request to disconnect may only be one that nobody has to be told of.
def Silent (st : Server) (serial : Bytes) : Prop := Harmless st (disconnectDevice st serial)

theorem Edit.harmless (he : Edit Silent st after) : Harmless st after := by
  have hplain := he.plain
  cases he with
  | delist serial asked => exact asked
  | _ => exact Or.inr (SameListing.listTransportsMsg ⟨rfl, hplain⟩)

theorem Work.informed (hw : Work Silent False st after) (hi : Informed st) : Informed after := by
  cases hw with
  | edit _ edit => exact hi.still edit.still edit.harmless
  | drain a s script sent pkts found split =>
      have hsent : Sent st a [] (({ st with script }.put a { s with pkts }).note (.wrote a sent)) := by
        have hsocks : ∀ st' : Server, st'.socks = st.socks → (st'.put a { s with pkts }).socks =
            Function.update st.socks a (some { s with pkts }) := fun st' h => by simp [Server.put, h]
        refine sent_put found (hsocks { st with script } rfl) rfl rfl rfl ?_ fun l hla => ?_
        · simp [sentTo, Server.put, Server.note, writtenTo, found, split]
        · have hne : a ≠ l := fun h => hla h.symm
          simp [Server.put, Server.note, writtenTo, hne]
      exact hi.still hsent.still (Or.inr (listTransportsMsg_congr rfl fun _ => rfl))
  | pass a s p _ found foreign delivers =>
      have hsent := delivers.sent
      have hstill : Still st after := by
        refine ⟨fun d l ht => ?_, hsent.unready⟩
        obtain ⟨hb, heq⟩ := hsent.tracks d l ht
        refine ⟨hb, ?_⟩
        have hla : l ≠ a := by
          rintro rfl
          obtain ⟨⟨q, hq, hsettled, -⟩, c, hc, hback⟩ := hb
          rw [found, Option.some.injEq] at hc
          subst hc
          exact foreign.resolve_right id q (by rw [hback]; exact hq) hsettled
        rw [heq, if_neg hla]
      exact hi.still hstill (Or.inr delivers.sameListing.listTransportsMsg)
  | announce d _ announces => exact announces.informed (hi.but d)
  | engage mid _ edits announces => exact announces.informed (hi.hire.edits edits)
  | publish d l s p _ found tracker peer listed delivers =>
      exact hi.sent delivers.sent listed delivers.sameListing.listTransportsMsg

theorem Works.informed (hw : Works Silent False st after) (hi : Informed st) : Informed after :=
  hw.invariant (fun hw hx => hw.informed hx) hi

end View

section Walk

variable {buffer : Bytes} {n : Nat} {rest : List Nat}

-- The list of trackers only ever gets shorter.
theorem Edit.fewerTrackers (he : Edit D st after) : after.deviceTrackerList.Sublist st.deviceTrackerList := by
  cases he with
  | trackers trackers fewer => exact fewer
  | delist serial asked =>
      obtain ⟨ts, hts⟩ := disconnectDevice_same st serial
      rw [hts]
  | _ => exact List.Sublist.refl _

theorem Edits.fewerTrackers (he : Edits D st after) :
    after.deviceTrackerList.Sublist st.deviceTrackerList := by
  induction he with
  | refl => exact List.Sublist.refl _
  | tail _ he ih => exact he.fewerTrackers.trans ih

theorem Delivers.fewerTrackers (hd : Delivers D st a p after) :
    after.deviceTrackerList.Sublist st.deviceTrackerList := by
  cases hd with
  | broken script sent _ edits gone => exact edits.fewerTrackers
  | _ => exact List.Sublist.refl _

-- What comes behind the next element of a list still does in a part of it.
theorem mem_dropWhile_of_sublist {xs ys : List Nat} (hnodup : xs.Nodup) (hsub : ys.Sublist xs)
    (hdrop : xs.dropWhile (· ≠ d) = d :: n :: rest) (hn : n ∈ ys) (ha : a ∈ n :: rest) (hy : a ∈ ys) :
    a ∈ ys.dropWhile (· ≠ n) := by
  have hsplit : xs = (xs.takeWhile (· ≠ d) ++ [d]) ++ (n :: rest) := by
    have h := List.takeWhile_append_dropWhile (p := (· ≠ d)) (l := xs)
    rw [hdrop] at h
    simpa using h.symm
  rw [hsplit] at hnodup hsub
  have hapart := (List.nodup_append.mp hnodup).2.2
  have htail := (List.nodup_append.mp hnodup).2.1
  obtain ⟨us, vs, rfl, hus, hvs⟩ := List.sublist_append_iff.mp hsub
  have hnot : ∀ x ∈ us, ∀ y ∈ n :: rest, x ≠ y := fun x hx y hy => hapart x (hus.mem hx) y hy
  have hskip : (us ++ vs).dropWhile (· ≠ n) = vs.dropWhile (· ≠ n) := by
    apply List.dropWhile_append_of_pos
    intro x hx
    simpa using hnot x hx n List.mem_cons_self
  rw [hskip]
  have hnv : n ∈ vs := (List.mem_append.mp hn).resolve_left fun hu => hnot n hu n List.mem_cons_self rfl
  have hav : a ∈ vs := (List.mem_append.mp hy).resolve_left fun hu => hnot a hu a ha rfl
  cases hvs with
  | cons _ hrest => exact absurd (hrest.mem hnv) (List.nodup_cons.mp htail).1
  | cons_cons _ hrest => simpa using hav

-- The trackers behind the one that is next have still to be told.
theorem updateFrom_informed (h : Graph st) (hlisted : listTransportsMsg st = .ok buffer)
    (hstarted : ∀ d, ¬Unready st d) (fuel : Nat) (tracker : Option Nat)
    (hview : ∀ d l, Tracks st d l → buffer <:+ sentTo st l ∨ ∃ n, tracker = some n ∧
      (n ∈ st.deviceTrackerList → d ∈ st.deviceTrackerList.dropWhile (· ≠ n))) :
    Ensures (updateFrom buffer fuel tracker st) Informed Anyway := by
  induction fuel generalizing st tracker with
  | zero =>
      cases tracker with
      | none => exact ⟨hstarted, fun p hp d l ht => by
          rw [hlisted, Except.ok.injEq] at hp
          subst hp
          simpa using hview d l ht⟩
      | some d => trivial
  | succ fuel ih =>
      cases tracker with
      | none => exact ⟨hstarted, fun p hp d l ht => by
          rw [hlisted, Except.ok.injEq] at hp
          subst hp
          simpa using hview d l ht⟩
      | some e =>
          unfold updateFrom
          cases hdrop : st.deviceTrackerList.dropWhile (· ≠ e) with
          | nil => trivial
          | cons head rest =>
              obtain ⟨rfl, he⟩ := dropWhile_here hdrop
              obtain ⟨s, hs, hops⟩ := h.tracker_mem he
              have hgraph := (deviceTrackerSend_ensures (B := False) (enqueueWithin_local 1) h hs hops
                buffer).mono (W := Anyway) fun _ _ => trivial
              apply (hgraph.and (deviceTrackerSend_delivers (enqueueWithin_local 1) h hs hops buffer)).bind
              rintro ⟨r, mid⟩ ⟨⟨p, peer, -, -, hr⟩, m, hm, hdelivers⟩
              have hsame := hdelivers.sameListing.listTransportsMsg
              have hsent := hdelivers.sent
              apply ih hr.graph (hsame.trans hlisted) (fun d hu => hstarted d (hsent.unready d hu))
              intro d l ht
              obtain ⟨hb, heq⟩ := hsent.tracks d l ht
              rw [heq]
              by_cases hlm : l = m
              · rw [if_pos hlm]
                exact Or.inl (List.suffix_append _ _)
              · rw [if_neg hlm]
                rcases hview d l hb with hold | ⟨n, hn, hbehind⟩
                · exact Or.inl hold
                · right
                  rw [Option.some.injEq] at hn
                  subst hn
                  have hmem := hbehind he
                  rw [hdrop, List.mem_cons] at hmem
                  have hrest : d ∈ rest := by
                    apply hmem.resolve_left
                    rintro rfl
                    obtain ⟨x, hx, -, hpeer⟩ := hb.tracker
                    rw [hs, Option.some.injEq] at hx
                    rw [← hx, hm] at hpeer
                    exact hlm (Option.some.inj hpeer).symm
                  cases rest with
                  | nil => cases hrest
                  | cons n rest =>
                      refine ⟨n, rfl, fun hn => ?_⟩
                      have hd : d ∈ mid.deviceTrackerList := by
                        obtain ⟨x, hx, hsettled, -⟩ := ht.tracker
                        apply (hr.graph.owners.trackers d).mpr
                        rw [hx]
                        simp [roleOf, hsettled.1]
                      exact mem_dropWhile_of_sublist h.owners.trackers_once hdelivers.fewerTrackers hdrop hn
                        hrest hd

-- update_transports sends the list to everybody.
theorem updateTransports_informed (h : Graph st) (hstarted : ∀ d, ¬Unready st d) :
    Ensures (updateTransports st) Informed Anyway := by
  unfold updateTransports
  cases hlisted : listTransportsMsg st with
  | error e => trivial
  | ok buffer =>
      apply updateFrom_informed h hlisted hstarted
      intro d l ht
      right
      have hd : d ∈ st.deviceTrackerList := by
        obtain ⟨x, hx, hsettled, -⟩ := ht.tracker
        apply (h.owners.trackers d).mpr
        rw [hx]
        simp [roleOf, hsettled.1]
      cases hlist : st.deviceTrackerList with
      | nil =>
          rw [hlist] at hd
          cases hd
      | cons n rest =>
          refine ⟨n, rfl, fun _ => ?_⟩
          rw [hlist] at hd
          simpa using hd

end Walk

section Handshake

-- The server with another state of one transport.
def withState (st : Server) (t : Nat) (state : ConnectionState) : Server :=
  match st.transports t with
  | none => st
  | some transport => st.putTransport t { transport with connectionState := state }

theorem withState_some (ht : st.transports t = some transport) (state : ConnectionState) :
    withState st t state = st.putTransport t { transport with connectionState := state } := by
  simp only [withState, ht]

theorem Still.putTransport (st : Server) (t : Nat) (transport : ATransport) :
    Still st (st.putTransport t transport) :=
  .of_same rfl fun _ => rfl

-- Of one transport the serial is kept, of all others the line in the list.
structure Kept (st : Server) (t : Nat) (after : Server) : Prop where
  graph : Graph after
  still : Still st after
  transportList : after.transportList = st.transportList
  others : ∀ u, u ≠ t → (after.transports u).map formatTransport = (st.transports u).map formatTransport
  serial : (after.transports t).map ATransport.serial = (st.transports t).map ATransport.serial

theorem Kept.refl (h : Graph st) (t : Nat) : Kept st t st :=
  ⟨h, .refl st, rfl, fun _ _ => rfl, rfl⟩

theorem Kept.trans (h : Kept st t mid) (h' : Kept mid t after) : Kept st t after :=
  ⟨h'.graph, h.still.trans h'.still, h'.transportList.trans h.transportList,
    fun u hu => (h'.others u hu).trans (h.others u hu), h'.serial.trans h.serial⟩

theorem Kept.putTransport (h : Graph st) (ht : st.transports t = some transport) {x : ATransport}
    (hd : x.disconnects = transport.disconnects) (hs : x.serial = transport.serial) :
    Kept st t (st.putTransport t x) where
  graph := (calm_putTransport x ht hd).graph h
  still := .putTransport st t x
  transportList := rfl
  others := fun u hu => by simp [Server.putTransport, hu]
  serial := by simp [Server.putTransport, ht, hs]

-- The list is the one with the state that the transport has in the end.
theorem Kept.listTransportsMsg (h : Kept st t after) (ht : after.transports t = some transport) :
    Adb.Host.listTransportsMsg after =
      Adb.Host.listTransportsMsg (withState st t transport.connectionState) := by
  have hserial := h.serial
  rw [ht, Option.map_some] at hserial
  cases hst : st.transports t with
  | none =>
      rw [hst] at hserial
      cases hserial
  | some old =>
      rw [hst, Option.map_some, Option.some.injEq] at hserial
      rw [withState_some hst]
      refine listTransportsMsg_congr h.transportList ?_
      intro u
      by_cases hut : u = t
      · subst hut
        simp [Server.putTransport, ht, formatTransport, hserial]
      · simp only [Server.putTransport, Function.update_of_ne hut]
        exact h.others u hut

theorem runTransportDisconnects_kept (h : Graph st) (ht : st.transports t = some transport) :
    Ensures (runTransportDisconnects st t) (fun after => Kept st t after ∧
      ∃ x, after.transports t = some x ∧ x.connectionState = transport.connectionState) Anyway := by
  have hgraph := (runTransportDisconnects_ensures (B := False) h t).mono (W := Anyway) fun _ _ => trivial
  apply (hgraph.and (runTransportDisconnects_edits (D := Nobody) t)).weaken
  rintro after ⟨hmoves, hedits⟩
  have hplain := hedits.sameListing.plain t
  rw [ht, Option.map_some, Option.map_eq_some_iff] at hplain
  obtain ⟨x, hx, heq⟩ := hplain
  refine ⟨⟨hmoves.graph h, hedits.still, hedits.sameListing.transportList,
    fun u _ => hedits.sameListing.lines u, ?_⟩, x, hx, ?_⟩
  · rw [hx, ht]
    exact congrArg some (show x.plain.serial = transport.plain.serial by rw [heq])
  · exact show x.plain.connectionState = transport.plain.connectionState by rw [heq]

theorem takeOffline_kept (h : Graph st) (t : Nat) :
    Ensures (takeOffline st t) (fun after => Kept st t after ∧
      ∃ x, after.transports t = some x ∧ x.connectionState = .offline) Anyway := by
  unfold takeOffline setConnectionState handleOffline
  simp only [bind_assoc, pure_bind]
  apply (derefTransport_any st t).bind
  intro transport ht
  have hfirst : Kept st t (st.putTransport t { transport with connectionState := .offline }) :=
    .putTransport h ht rfl rfl
  apply (derefTransport_any _ t).bind
  intro down hdown
  have hstate : down.connectionState = .offline := by
    simp only [Server.putTransport, Function.update_self, Option.some.injEq] at hdown
    rw [← hdown]
  have hsecond := Kept.putTransport (x := { down with online := false }) hfirst.graph hdown rfl rfl
  have hput : ((st.putTransport t { transport with connectionState := .offline }).putTransport t
      { down with online := false }).transports t = some { down with online := false } := by
    simp [Server.putTransport]
  apply (runTransportDisconnects_kept hsecond.graph hput).weaken
  rintro after ⟨hkept, x, hx, heq⟩
  exact ⟨(hfirst.trans hsecond).trans hkept, x, hx, heq.trans hstate⟩

theorem setProperties_serial (transport : ATransport) (banner : Bytes) :
    (setProperties transport banner).serial = transport.serial := by
  apply setProperties_keeps (·.serial)
  intro transport token
  unfold setProperty
  split
  · rfl
  · simp only
    repeat' split
    all_goals rfl

-- The state that the banner of an A_CNXN names.
def bannerOf (p : Packet) : Option ConnectionState :=
  bannerState (((p.payload ++ p.slack).takeWhile (· ≠ 0)).takeWhile (· ≠ 58))

theorem handleOnline_informed (hi : Informed st) (t : Nat) : Ensures (handleOnline st t) Informed Anyway := by
  unfold handleOnline
  apply (derefTransport_any st t).bind
  intro transport ht
  apply hi.still (.putTransport st t _)
  right
  refine listTransportsMsg_congr rfl ?_
  intro u
  by_cases hut : u = t
  · subst hut
    simp [Server.putTransport, ht, formatTransport]
  · simp [Server.putTransport, hut]

theorem handleConnect_informed (h : Graph st) (hi : Informed st) (t : Nat) (packet : Packet)
    (hhost : bannerOf packet = none → Harmless st (withState st t .host)) :
    Ensures (handleConnect st t packet) Informed Anyway := by
  unfold handleConnect
  apply (derefTransport_any st t).bind
  intro transport ht
  have hdown : Ensures (if transport.connectionState ≠ .offline then takeOffline st t else pure st)
      (Kept st t) Anyway := by
    split
    · exact (takeOffline_kept h t).weaken fun _ hk => hk.1
    · exact Kept.refl h t
  apply hdown.bind
  intro mid hmid
  unfold parseBanner
  simp only [bind_assoc]
  apply (derefTransport_any mid t).bind
  intro old hold
  obtain ⟨banner, hbanner⟩ : ∃ banner, banner = (packet.payload ++ packet.slack).takeWhile (· ≠ 0) := ⟨_, rfl⟩
  have hof : bannerOf packet = bannerState (banner.takeWhile (· ≠ 58)) := by rw [hbanner]; rfl
  simp only [← hbanner, ← hof]
  have hput : ∀ state, Kept mid t
      (mid.putTransport t { setProperties old banner with connectionState := state }) :=
    fun state => .putTransport hmid.graph hold (setProperties_disconnects old banner)
      (setProperties_serial old banner)
  cases hstate : bannerOf packet with
  | some state =>
      have hkept := hmid.trans (hput state)
      apply (updateTransports_informed hkept.graph fun d hu => hi.started d (hkept.still.unready d hu)).bind
      intro after ha
      exact handleOnline_informed ha t
  | none =>
      have hkept := hmid.trans (hput .host)
      have hfound : (mid.putTransport t { setProperties old banner with connectionState := .host }).transports t =
          some { setProperties old banner with connectionState := .host } := by simp [Server.putTransport]
      have hlist := hkept.listTransportsMsg hfound
      apply handleOnline_informed
      apply hi.still hkept.still
      rcases hhost hstate with hnone | hsame
      · exact Or.inl hnone
      · exact Or.inr (hlist.trans hsame)

theorem handleSync_informed (h : Graph st) (hi : Informed st) (t : Nat) (packet : Packet)
    (hoffline : packet.arg0 = 0 → Harmless st (withState st t .offline)) :
    Ensures (handleSync st t packet) Informed Anyway := by
  unfold handleSync
  simp only
  by_cases harg : packet.arg0 = 0
  · rw [if_neg (not_not.mpr harg), ← bind_assoc]
    apply (takeOffline_kept h t).bind
    rintro mid ⟨hkept, x, hx, hstate⟩
    have hlist := hkept.listTransportsMsg hx
    rw [hstate] at hlist
    have hmid : Informed mid := by
      apply hi.still hkept.still
      rcases hoffline harg with hnone | hsame
      · exact Or.inl hnone
      · exact Or.inr (hlist.trans hsame)
    exact (sendPacket_edits _ _ _ fun _ _ => Or.inl rfl).weaken fun _ he => hmid.edits he
  · rw [if_pos harg]
    apply (sendPacket_edits (D := Nobody) _ _ _ fun _ _ => Or.inl rfl).bind
    intro mid he
    apply (sendPacket_edits _ _ _ fun _ _ => Or.inr (Or.inl rfl)).weaken
    exact fun _ he' => (hi.edits he).edits he'

end Handshake

section Steps

-- A step after which everybody knows: where it changes the list without a call of
-- update_transports there is nobody to tell, or the list reads the same, and no
-- packet brings bytes to the client of a tracker.
structure Tells (st : Server) (input : Input) : Prop where
  offline : ∀ t p, input = .packet t p → p.command = A_SYNC → p.arg0 = 0 →
    Harmless st (withState st t .offline)
  host : ∀ t p, input = .packet t p → p.command = A_CNXN → bannerOf p = none →
    Harmless st (withState st t .host)
  disconnect : ∀ x serial, disconnects st input = some (x, serial) →
    Harmless x (disconnectDevice x serial)
  other : ∀ a, input.Brings st a → Untracked st a

theorem handle_informed (h : Graph st) (hi : Informed st) (input : Input) (hg : Tells st input) :
    Ensures (handle st input) Informed Anyway := by
  by_cases hordinary : input.Ordinary
  · apply (handle_works (D := Silent) (N := False) h input hordinary hg.disconnect
      fun a ha => Or.inl (hg.other a ha)).weaken
    intro after hw
    exact hw.informed hi
  cases input with
  | packet t packet =>
      simp only [handle]
      split
      · unfold handlePacket
        apply (derefTransport_any st t).bind
        intro transport _
        by_cases hsync : packet.command = A_SYNC
        · rw [if_pos hsync]
          exact handleSync_informed h hi t packet (hg.offline t packet rfl hsync)
        · rw [if_neg hsync]
          by_cases hconnect : packet.command = A_CNXN
          · rw [if_pos hconnect]
            exact handleConnect_informed h hi t packet (hg.host t packet rfl hconnect)
          · exact absurd ⟨fun hc => absurd hc hsync, hconnect⟩ hordinary
      · trivial
  | register type adbPort serial devpath writeable =>
      simp only [handle, registerTransport]
      exact updateTransports_informed (h.register _ rfl) hi.started
  | remove t =>
      simp only [handle]
      split
      · unfold removeTransport
        apply (derefTransport_any st t).bind
        intro transport ht
        have hgraph := (calm_delisted st (st.transportList.erase t)).graph h
        apply (runTransportDisconnects_kept hgraph ht).bind
        rintro mid ⟨hkept, -⟩
        apply updateTransports_informed ((calm_removed mid t).graph hkept.graph)
        intro d hu
        exact hi.started d (hkept.still.unready d hu)
      · trivial
  | _ => exact absurd trivial hordinary

theorem informed_init : Informed serverInit where
  started := by
    rintro d ⟨s, hs, -⟩
    cases hs
  current := by
    rintro p - d l ⟨⟨s, hs, -⟩, -⟩
    cases hs

theorem step_informed {input : Script × Input} (hw : Whole st) (hi : Informed st)
    (hg : Tells (scripted st input) input.2) (hstep : step st input = .ok after) : Informed after := by
  have hscripted : Informed (scripted st input) :=
    hi.still (.of_same rfl fun _ => rfl) (Or.inr (listTransportsMsg_congr rfl fun _ => rfl))
  exact (handle_informed (hw.scripted input).graph hscripted input.2 hg).of_ok hstep

-- In every run whose steps all tell, every tracker has a client, a local socket,
-- and the last that the client has been sent is the list of the devices as it is.
theorem device_tracker_view (inputs : List (Script × Input))
    (hg : Guarded step (fun st input => Tells (scripted st input) input.2) serverInit inputs) (st : Server)
    (hr : run step serverInit inputs = .ok st) (d : Nat) (s : ASocket) (hs : st.socks d = some s)
    (hops : s.ops = .deviceTracker) :
    ∃ l c, s.peer = some l ∧ st.socks l = some c ∧ c.ops.isLocal = true ∧
      ∀ p, listTransportsMsg st = .ok p → p <:+ sentTo st l := by
  have hboth : Whole st ∧ Informed st := guarded_invariant (P := fun st => Whole st ∧ Informed st)
    (fun _ _ _ hs hg hstep => ⟨step_whole hs.1 hstep, step_informed hs.1 hs.2 hg hstep⟩)
    ⟨whole_init, informed_init⟩ hg hr
  obtain ⟨hw, hi⟩ := hboth
  obtain ⟨l, c, hp, hc, hlocal⟩ := hw.graph.peers.inner d s hs (by rw [hops]; rfl)
  obtain ⟨-, c', hc', hback⟩ := hw.graph.peers.back d s l hs hp
  have hneeded : s.updateNeeded = false := by
    by_contra hn
    exact hi.started d ⟨s, hs, hops, by simpa using hn⟩
  refine ⟨l, c, hp, hc, hlocal, fun p hlisted => ?_⟩
  exact hi.current p hlisted d l ⟨⟨s, hs, ⟨hops, hneeded⟩, hp⟩, c', hc', hback⟩

-- A client asks for the list as it changes, and a device appears and connects.
def trackedDevice : List (Script × Input) :=
  [(silent, .accept 0), (silent, .signal 0),
    ({ reading (request "host:track-devices") with statuses := [true], writes := [.wrote 4] }, .callback 0),
    ({ silent with writes := [.wrote 21] }, usbDevice),
    ({ silent with writes := [.wrote 16] }, .packet 0 connectPacket)]

-- Steps that tell, as far as this run needs them.
def tells (st : Server) : Input → Bool
  | .packet _ p => p.command = A_CNXN && (bannerOf p).isSome
  | .callback a => (disconnects st (.callback a)).isNone
  | _ => true

theorem Tells.of_tells {input : Input} (h : tells st input = true) : Tells st input := by
  constructor
  · rintro t p rfl hsync
    simp [tells, hsync, A_SYNC, A_CNXN] at h
  · rintro t p rfl - hnone
    simp [tells, hnone] at h
  · intro x serial hx
    cases input with
    | callback a => simp [tells, hx] at h
    | _ => cases hx
  · intro a ha
    cases input with
    | packet t p =>
        have hcommand : p.command = A_WRTE := ha.1
        simp [tells, hcommand, A_WRTE, A_CNXN] at h
    | _ => exact ha.elim

def isTracker (st : Server) (d : Nat) : Bool :=
  (st.socks d).any fun s => s.ops = .deviceTracker

set_option maxRecDepth 8000 in
theorem device_tracker_view_of_a_device :
    ∃ st s l, run step serverInit trackedDevice = .ok st ∧ st.socks 2 = some s ∧
      s.ops = .deviceTracker ∧ s.peer = some l ∧
      ∀ p, listTransportsMsg st = .ok p → p <:+ sentTo st l := by
  have hg : Guarded step (fun st input => tells (scripted st input) input.2 = true) serverInit
      trackedDevice := by decide
  obtain ⟨st, hrun, htracker⟩ := exists_of_any (x := run step serverInit trackedDevice)
    (p := fun st => isTracker st 2) (by decide)
  unfold isTracker at htracker
  rw [Option.any_eq_true] at htracker
  obtain ⟨s, hs, hops⟩ := htracker
  rw [decide_eq_true_eq] at hops
  obtain ⟨l, c, hp, -, -, hview⟩ := device_tracker_view trackedDevice
    (hg.mono fun _ _ h => Tells.of_tells h) st hrun 2 s hs hops
  exact ⟨st, s, l, hrun, hs, hops, hp, hview⟩

def outOfDate (st : Server) : Bool :=
  (st.socks 2).any fun s => decide (s.ops = .deviceTracker) && decide (s.peer = some 0) &&
    (listTransportsMsg st).toOption.any fun p => !p.isSuffixOf (sentTo st 0)

set_option maxRecDepth 8000 in
-- The device's connection is reset, and the list says offline.
theorem offline_is_not_told :
    ¬ ∀ (inputs : List (Script × Input)) (st : Server), run step serverInit inputs = .ok st →
      ∀ d s, st.socks d = some s → s.ops = .deviceTracker →
        ∃ l c, s.peer = some l ∧ st.socks l = some c ∧ c.ops.isLocal = true ∧
          ∀ p, listTransportsMsg st = .ok p → p <:+ sentTo st l := by
  intro h
  obtain ⟨st, hrun, hold⟩ := exists_of_any
    (x := run step serverInit (trackedDevice ++ [(silent, .packet 0 resetPacket)])) (p := outOfDate) (by decide)
  unfold outOfDate at hold
  rw [Option.any_eq_true] at hold
  obtain ⟨s, hs, hold⟩ := hold
  simp only [Bool.and_eq_true, decide_eq_true_eq] at hold
  obtain ⟨⟨hops, hpeer⟩, hstale⟩ := hold
  rw [Option.any_eq_true] at hstale
  obtain ⟨p, hp, hnot⟩ := hstale
  obtain ⟨l, c, hp', -, -, hview⟩ := h _ st hrun 2 s hs hops
  rw [hpeer, Option.some.injEq] at hp'
  subst hp'
  have hsuffix := List.isSuffixOf_iff_suffix.mpr (hview p (ok_of_toOption hp))
  rw [hsuffix] at hnot
  cases hnot

end Steps

end Adb.Host
