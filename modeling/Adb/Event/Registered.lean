import Adb.Event.HookList

namespace Adb.Event

open Adb.Lib Adb.Host

section PendingList

variable {l : Links FdeRef} {queue : List Nat} {n : Nat}

theorem fde_injective : Function.Injective FdeRef.fde := fun _ _ h => FdeRef.fde.inj h

theorem mem_map_fde : FdeRef.fde n ∈ queue.map FdeRef.fde ↔ n ∈ queue :=
  List.mem_map_of_injective fde_injective

theorem IsRing.nodup_queue (h : l.IsRing .listPending (queue.map .fde)) : queue.Nodup :=
  List.Nodup.of_map _ (List.nodup_cons.mp h.2).2

-- The two last assignments are to different nodes, so that their order is no
-- matter.
theorem plistEnqueue_ring (h : l.IsRing .listPending (queue.map .fde)) (hn : n ∉ queue) :
    ∃ m, fdeventPlistEnqueue l (.fde n) = some m ∧
      m.IsRing .listPending ((queue ++ [n]).map .fde) := by
  have hnew : FdeRef.fde n ∉ FdeRef.listPending :: queue.map .fde := by
    simpa [mem_map_fde] using hn
  obtain ⟨m, hm, hring, -⟩ := h.insertTail hnew
  refine ⟨m, ?_, by simpa using hring⟩
  rw [← hm]
  simp [fdeventPlistEnqueue, Links.insertTail, Links.setNext, Links.setPrev]

theorem plistRemove_of_some {node before after : FdeRef} (hp : l.prev node = some before)
    (hn : l.next node = some after) (hne : before ≠ node) :
    fdeventPlistRemove l node =
      some (Links.clear ⟨Function.update l.next before (some after),
        Function.update l.prev after (some before)⟩ node) := by
  simp [fdeventPlistRemove, Links.setNext, Links.setPrev, hp, hn, Function.update_of_ne hne.symm]

theorem plistRemove_ring (h : l.IsRing .listPending (queue.map .fde)) (hn : n ∈ queue) :
    ∃ m, fdeventPlistRemove l (.fde n) = some m ∧
      m.IsRing .listPending ((queue.erase n).map .fde) := by
  obtain ⟨after, before, hnext, hprev, hring⟩ := h.detach (mem_map_fde.mpr hn)
  have hne : before ≠ .fde n := by
    intro he
    subst he
    obtain ⟨z, -, hz, hzn⟩ := h.prev_mem (List.mem_cons_of_mem _ (mem_map_fde.mpr hn))
    rw [hprev, Option.some.injEq] at hz
    subst hz
    exact h.next_ne (mem_map_fde.mpr hn) hzn rfl
  refine ⟨_, plistRemove_of_some hprev hnext hne, ?_⟩
  rwa [List.map_erase fde_injective]

theorem plistDequeue_nil (h : l.IsRing .listPending (([] : List Nat).map .fde)) :
    fdeventPlistDequeue l = some none := by
  have hnext : l.next .listPending = some .listPending := h.1.1
  simp [fdeventPlistDequeue, hnext]

theorem plistDequeue_ring (h : l.IsRing .listPending ((n :: queue).map .fde)) :
    ∃ m, fdeventPlistDequeue l = some (some (.fde n, m)) ∧
      m.IsRing .listPending (queue.map .fde) := by
  have hmem : FdeRef.fde n ∈ (n :: queue).map FdeRef.fde := by simp
  obtain ⟨after, before, hnext, hprev, hring⟩ := h.detach hmem
  have hfirst : l.next .listPending = some (.fde n) := h.1.1
  have hbefore : before = .listPending := by
    have hback : l.prev (.fde n) = some .listPending := h.1.2.1
    exact Option.some.inj (hprev.symm.trans hback)
  subst hbefore
  refine ⟨_, ?_, by simpa using hring⟩
  simp [fdeventPlistDequeue, hfirst, Links.setNext, Links.setPrev, hnext]

end PendingList

-- An fdevent that a hook has signalled, and one whose callback is called.
def Fde.signalled (fde : Fde) (wanted : BitVec 16) : Fde :=
  { fde with state := fde.state ||| FDE_PENDING, events := fde.events ||| wanted }

def Fde.called (fde : Fde) : Fde :=
  { fde with events := 0, state := fde.state &&& ~~~FDE_PENDING }

-- What is asked for on the handle in slot f.
def EventState.interestOn (st : EventState) (f : Nat) : BitVec 16 :=
  match st.fdTable f with
  | some n => interest (st.fdes n).toFdevent
  | none => 0

def EventState.active (st : EventState) (n : Nat) : Prop :=
  Event.active (st.fdes n).toFdevent = true

-- The four structures in step: the state words, the list of the pending
-- fdevents, fd_table and the hooks of the looper.
structure Registered (st : EventState) (queue : List Nat) : Prop where
  ring : st.links.IsRing .listPending (queue.map .fde)
  queued : ∀ n, n ∈ queue ↔ pending (st.fdes n).toFdevent = true
  queued_active : ∀ n ∈ queue, st.active n
  quiet : ∀ n, n ∉ queue → (st.fdes n).events = 0
  table : ∀ f n, st.fdTable f = some n ↔ st.active n ∧ (st.fdes n).fd = f + WIN32_FH_BASE
  carried : ∀ n, st.active n → ∃ f, st.fdTable f = some n ∧ (st.fhs f).used = true
  hooked : Hooked st.fhs st.hooks st.interestOn
  slots : ∀ f, (st.fhs f).used = true → f < st.fhCount ∧ (st.fhs f).clazz.isSome
  count : st.fhCount ≤ WIN32_MAX_FHS
  tableMax : st.fdTableMax = 0 ∧ (∀ f, st.fdTable f = none) ∨ 256 ≤ st.fdTableMax

theorem registered_init : Registered eventInit [] where
  ring := Links.isRing_init
  queued := by simp [eventInit, pending]
  queued_active := by simp
  quiet := by simp [eventInit]
  table := by simp [eventInit, EventState.active, Event.active]
  carried := by simp [eventInit, EventState.active, Event.active]
  hooked := {
    nodup := List.nodup_nil
    nonzero := by simp [eventInit]
    live := by simp [eventInit]
    wanted := fun _ => rfl }
  slots := by simp [eventInit]
  count := Nat.zero_le _
  tableMax := .inl ⟨rfl, fun _ => rfl⟩

section Steps

variable {st st' : EventState} {queue : List Nat} {n m f : Nat}

theorem Registered.used_of_table (h : Registered st queue) (ht : st.fdTable f = some n) :
    (st.fhs f).used = true := by
  obtain ⟨ha, hfd⟩ := (h.table f n).mp ht
  obtain ⟨g, hg, hused⟩ := h.carried n ha
  have hgf := ((h.table g n).mp hg).2
  have hfg : f = g := by
    simp only [hfd, WIN32_FH_BASE] at hgf
    omega
  rwa [hfg]

theorem Registered.fhFromInt (h : Registered st queue) (hu : (st.fhs f).used = true) :
    fhFromInt st (f + WIN32_FH_BASE) = some f := by
  have hcount := (h.slots f hu).1
  have hsub : (f : Int) + WIN32_FH_BASE - WIN32_FH_BASE = f := by omega
  have hrange : ¬((f : Int) < 0 ∨ (f : Int) ≥ st.fhCount) := by omega
  simp only [Event.fhFromInt, hsub, if_neg hrange, Int.toNat_natCast, hu, if_true]

theorem Registered.index_lt (h : Registered st queue) (hu : (st.fhs f).used = true) :
    f < WIN32_MAX_FHS :=
  Nat.lt_of_lt_of_le (h.slots f hu).1 h.count

theorem fhFromInt_some {fd : Int} (h : fhFromInt st fd = some f) :
    fd = f + WIN32_FH_BASE ∧ (st.fhs f).used = true := by
  simp only [fhFromInt] at h
  split at h
  · cases h
  · split at h
    · rename_i hrange hu
      cases h
      refine ⟨?_, hu⟩
      omega
    · cases h

theorem interestOn_setFde {fde : Fde}
    (links : Links FdeRef) (hooks : List EventHook) (g : Nat) :
    ({ st with links, hooks }.setFde n fde).interestOn g =
      if st.fdTable g = some n then interest fde.toFdevent else st.interestOn g := by
  simp only [EventState.interestOn, EventState.setFde]
  cases hg : st.fdTable g with
  | none => simp
  | some k =>
      by_cases hk : k = n
      · subst hk
        simp
      · simp [hk]

-- The two words of one fdevent change together with its place on the list and
-- with its hook.
theorem Registered.setFde (h : Registered st queue) {fde : Fde} {links : Links FdeRef}
    {hooks : List EventHook} {queue' : List Nat}
    (hactive : Event.active fde.toFdevent = true ↔ st.active n) (hfd : fde.fd = (st.fdes n).fd)
    (hhooked : Hooked st.fhs hooks fun g =>
      if st.fdTable g = some n then interest fde.toFdevent else st.interestOn g)
    (hring : links.IsRing .listPending (queue'.map .fde))
    (hothers : ∀ k, k ≠ n → (k ∈ queue' ↔ k ∈ queue))
    (hself : n ∈ queue' ↔ pending fde.toFdevent = true)
    (hqueued : n ∈ queue' → st.active n) (hquiet : n ∉ queue' → fde.events = 0) :
    Registered ({ st with links, hooks }.setFde n fde) queue' := by
  have hactive' : ∀ k, ({ st with links, hooks }.setFde n fde).active k ↔ st.active k := by
    intro k
    by_cases hk : k = n
    · subst hk
      simpa [EventState.active, EventState.setFde] using hactive
    · simp [EventState.active, EventState.setFde, hk]
  have hfd' : ∀ k, (({ st with links, hooks }.setFde n fde).fdes k).fd = (st.fdes k).fd := by
    intro k
    by_cases hk : k = n
    · subst hk
      simpa [EventState.setFde] using hfd
    · simp [EventState.setFde, hk]
  exact {
    ring := hring
    queued := by
      intro k
      by_cases hk : k = n
      · subst hk
        simpa [EventState.setFde] using hself
      · rw [hothers k hk, h.queued]
        simp [EventState.setFde, hk]
    queued_active := by
      intro k hkq
      rw [hactive']
      by_cases hk : k = n
      · subst hk
        exact hqueued hkq
      · exact h.queued_active k ((hothers k hk).mp hkq)
    quiet := by
      intro k hkq
      by_cases hk : k = n
      · subst hk
        simpa [EventState.setFde] using hquiet hkq
      · have hold := h.quiet k fun hm => hkq ((hothers k hk).mpr hm)
        simpa [EventState.setFde, hk] using hold
    table := by
      intro g k
      rw [hactive', hfd']
      exact h.table g k
    carried := by
      intro k hk
      exact h.carried k ((hactive' k).mp hk)
    hooked := hhooked.congr (interestOn_setFde links hooks)
    slots := h.slots
    count := h.count
    tableMax := h.tableMax }

-- A change that leaves the interest alone leaves the hooks alone.
theorem Registered.hooked_same (h : Registered st queue) {fde : Fde}
    (hi : st.active n → interest fde.toFdevent = interest (st.fdes n).toFdevent) :
    Hooked st.fhs st.hooks fun g =>
      if st.fdTable g = some n then interest fde.toFdevent else st.interestOn g := by
  refine h.hooked.congr fun g => ?_
  split
  · rename_i ht
    rw [hi ((h.table g n).mp ht).1, EventState.interestOn, ht]
  · rfl

-- No fdevent becomes pending or is told of more, and none that is pending moves
-- to another handle.
def Quieter (st : EventState) (queue : List Nat) (st' : EventState) (queue' : List Nat) : Prop :=
  ∀ k ∈ queue', k ∈ queue ∧ (st'.fdes k).fd = (st.fdes k).fd ∧
    ∃ kept, (st'.fdes k).events = (st.fdes k).events &&& kept

theorem Quieter.of_same (h : ∀ k, st'.fdes k = st.fdes k) : Quieter st queue st' queue := by
  intro k hk
  exact ⟨hk, by rw [h], BitVec.allOnes 16, by rw [h, BitVec.and_allOnes]⟩

theorem Quieter.of_others {queue' : List Nat} (hq : ∀ k ∈ queue', k ∈ queue)
    (h : ∀ k ∈ queue', k ≠ n → st'.fdes k = st.fdes k)
    (hn : n ∈ queue' → (st'.fdes n).fd = (st.fdes n).fd ∧
      ∃ kept, (st'.fdes n).events = (st.fdes n).events &&& kept) :
    Quieter st queue st' queue' := by
  intro k hk
  by_cases hkn : k = n
  · subst hkn
    exact ⟨hq k hk, hn hk⟩
  · exact ⟨hq k hk, by rw [h k hk hkn], BitVec.allOnes 16, by rw [h k hk hkn, BitVec.and_allOnes]⟩

theorem or_pending (h : pending (st.fdes n).toFdevent = true) :
    (st.fdes n).state ||| FDE_PENDING = (st.fdes n).state := by
  have hp : FDE_PENDING = BitVec.twoPow 16 9 := by decide
  apply BitVec.eq_of_getElem_eq
  intro i hi
  rw [BitVec.getElem_or, hp, BitVec.getElem_twoPow]
  by_cases h9 : i = 9
  · subst h9
    simp only [pending] at h
    simp [h]
  · simp [h9]

theorem Registered.hook_table (h : Registered st queue) {hook : EventHook}
    (hm : hook ∈ st.hooks) :
    ∃ n, st.fdTable hook.fh = some n ∧ st.active n ∧
      hook.wanted = interest (st.fdes n).toFdevent := by
  have hw := wantedOf_mem h.hooked.nodup hm
  rw [h.hooked.wanted, EventState.interestOn] at hw
  cases ht : st.fdTable hook.fh with
  | none =>
      rw [ht] at hw
      exact absurd hw.symm (h.hooked.nonzero hook hm)
  | some n =>
      rw [ht] at hw
      exact ⟨n, rfl, ((h.table _ n).mp ht).1, hw.symm⟩

theorem Registered.fhToInt (h : Registered st queue) (hu : (st.fhs f).used = true) :
    fhToInt st f = f + WIN32_FH_BASE := by
  have hlt := h.index_lt hu
  simp [Event.fhToInt, hu, hlt]

-- Signalling a hook finds the fdevent of its handle and puts it on the list
-- unless it is there already.
theorem eventHookSignal_spec (h : Registered st queue) {hook : EventHook}
    (hm : hook ∈ st.hooks) :
    ∃ n links, st.fdTable hook.fh = some n ∧
      eventHookSignal st hook =
        .ok ({ st with links }.setFde n ((st.fdes n).signalled hook.wanted)) ∧
      Registered ({ st with links }.setFde n ((st.fdes n).signalled hook.wanted))
        (if n ∈ queue then queue else queue ++ [n]) := by
  obtain ⟨n, ht, hactive, hwanted⟩ := h.hook_table hm
  have hu := h.used_of_table ht
  have hfd := ((h.table _ n).mp ht).2
  have hmax : (hook.fh : Int) < st.fdTableMax := by
    have hlt := h.index_lt hu
    have hdec : WIN32_MAX_FHS = 128 := rfl
    rcases h.tableMax with ⟨-, hnone⟩ | hmax
    · rw [hnone] at ht
      cases ht
    · omega
  have hindex : (hook.fh : Int) + WIN32_FH_BASE - WIN32_FH_BASE = hook.fh := by omega
  have hrange : ¬((hook.fh : Int) < 0 ∨ (hook.fh : Int) ≥ st.fdTableMax) := by omega
  have hbits : Event.active ((st.fdes n).signalled hook.wanted).toFdevent = true ↔ st.active n := by
    simp [EventState.active, Event.active, Fde.signalled, FDE_PENDING]
  have hself : pending ((st.fdes n).signalled hook.wanted).toFdevent = true := by
    simp [pending, Fde.signalled, FDE_PENDING]
  have hinterest : st.active n → interest ((st.fdes n).signalled hook.wanted).toFdevent =
      interest (st.fdes n).toFdevent := fun _ => interest_or_pending _
  have hsame := h.hooked_same hinterest
  by_cases hp : pending (st.fdes n).toFdevent = true
  · have hq := (h.queued n).mpr hp
    have hne := (pending_iff _).mpr hp
    refine ⟨n, st.links, ht, ?_, ?_⟩
    · simp only [eventHookSignal, h.fhToInt hu, hindex, if_neg hrange, Int.toNat_natCast, ht, hfd,
        if_true, if_neg hne, Fde.signalled, or_pending hp]
    · rw [if_pos hq]
      exact h.setFde hbits rfl hsame h.ring (fun _ _ => Iff.rfl) (by simp [hq, hself])
        (fun _ => hactive) (fun hn => absurd hq hn)
  · have hq : n ∉ queue := fun hq => hp ((h.queued n).mp hq)
    have hz : (st.fdes n).state &&& FDE_PENDING = 0 := by
      by_contra hne
      exact hp ((pending_iff _).mp hne)
    obtain ⟨links, he, hring⟩ := plistEnqueue_ring h.ring hq
    refine ⟨n, links, ht, ?_, ?_⟩
    · simp only [eventHookSignal, h.fhToInt hu, hindex, if_neg hrange, Int.toNat_natCast, ht, hfd,
        if_true, hz, he, Fde.signalled]
    · rw [if_neg hq]
      refine h.setFde hbits rfl hsame hring ?_ ?_ (fun _ => hactive) ?_
      · intro k hk
        simp [hk]
      · simp [hself]
      · intro hn
        exact absurd (by simp) hn

-- The loop takes the first fdevent off the list and leaves it with no event.
theorem dispatch_cons (h : Registered st (n :: queue)) :
    ∃ links, dispatch st = .ok (some (n, (st.fdes n).events),
        { st with links }.setFde n (st.fdes n).called) ∧
      Registered ({ st with links }.setFde n (st.fdes n).called) queue := by
  obtain ⟨links, he, hring⟩ := plistDequeue_ring h.ring
  have hnd := List.nodup_cons.mp (IsRing.nodup_queue h.ring)
  refine ⟨links, by simp only [dispatch, he, Fde.called], ?_⟩
  refine h.setFde ?_ rfl (h.hooked_same fun _ => interest_not_pending _) hring ?_ ?_ ?_ ?_
  · simp [EventState.active, Event.active, Fde.called, FDE_PENDING]
  · intro k hk
    simp [hk]
  · simp [hnd.1, pending, Fde.called, FDE_PENDING]
  · exact fun hn => absurd hn hnd.1
  · exact fun _ => rfl

theorem dispatch_nil (h : Registered st []) : dispatch st = .ok (none, st) := by
  simp only [dispatch, plistDequeue_nil h.ring]

theorem Registered.fh_eq (h : Registered st queue) (hu : (st.fhs f).used = true) :
    ∃ clazz, st.fhs f = ⟨some clazz, true⟩ := by
  obtain ⟨clazz, hc⟩ := Option.isSome_iff_exists.mp (h.slots f hu).2
  refine ⟨clazz, ?_⟩
  rw [← hu, ← hc]

theorem Registered.table_iff_eq (h : Registered st queue) (ht : st.fdTable f = some n) (g : Nat) :
    st.fdTable g = some n ↔ g = f := by
  refine ⟨fun hg => ?_, fun hg => hg ▸ ht⟩
  have h1 := ((h.table f n).mp ht).2
  have h2 := ((h.table g n).mp hg).2
  omega

theorem Registered.interestOn_of_table (_ : Registered st queue) (ht : st.fdTable f = some n) :
    st.interestOn f = interest (st.fdes n).toFdevent := by
  rw [EventState.interestOn, ht]

-- The two halves of fdevent_update on the hooks of one handle.
theorem Registered.looperHook (h : Registered st queue) (ht : st.fdTable f = some n)
    {hooks : List EventHook} {want : Nat → BitVec 16} (hh : Hooked st.fhs hooks want)
    (events : BitVec 16) :
    ∃ hooks', (if events ≠ 0 then
        EventState.looperHook { st with hooks } (st.fdes n).fd events else { st with hooks }) =
          { st with hooks := hooks' } ∧
      Hooked st.fhs hooks' (Function.update want f (want f ||| events)) := by
  have hu := h.used_of_table ht
  obtain ⟨clazz, hf⟩ := h.fh_eq hu
  have hfd := ((h.table f n).mp ht).2
  by_cases he : events = 0
  · refine ⟨hooks, by simp [he], hh.congr fun g => ?_⟩
    by_cases hg : g = f
    · subst hg
      simp [he]
    · simp [hg]
  · have hfrom : Event.fhFromInt { st with hooks } (f + WIN32_FH_BASE) = some f := h.fhFromInt hu
    refine ⟨_, ?_, hh.hook hf he⟩
    rw [if_pos he, hfd, EventState.looperHook, hfrom]
    simp only [hf]

theorem Registered.looperUnhook (h : Registered st queue) (ht : st.fdTable f = some n)
    {hooks : List EventHook} {want : Nat → BitVec 16} (hh : Hooked st.fhs hooks want)
    (events : BitVec 16) :
    ∃ hooks', (if events ≠ 0 then
        EventState.looperUnhook { st with hooks } (st.fdes n).fd events else { st with hooks }) =
          { st with hooks := hooks' } ∧
      Hooked st.fhs hooks' (Function.update want f (want f &&& ~~~events)) := by
  have hu := h.used_of_table ht
  have hfd := ((h.table f n).mp ht).2
  by_cases he : events = 0
  · refine ⟨hooks, by simp [he], hh.congr fun g => ?_⟩
    by_cases hg : g = f
    · subst hg
      rw [Function.update_self, he]
      exact BitVec.and_allOnes
    · simp [hg]
  · have hfrom : Event.fhFromInt { st with hooks } (f + WIN32_FH_BASE) = some f := h.fhFromInt hu
    refine ⟨_, ?_, hh.unhook f events⟩
    rw [if_pos he, hfd, EventState.looperUnhook, hfrom]

theorem fdeventUpdate_spec (h : Registered st queue) (ha : st.active n) (events : BitVec 16) :
    ∃ hooks, fdeventUpdate st n events = { st with hooks } ∧
      Hooked st.fhs hooks fun g => if st.fdTable g = some n then events else st.interestOn g := by
  obtain ⟨f, ht, -⟩ := h.carried n ha
  have hold := h.interestOn_of_table ht
  unfold fdeventUpdate
  by_cases hsame : events = (st.fdes n).state &&& FDE_EVENTMASK
  · refine ⟨st.hooks, by simp [hsame], h.hooked.congr fun g => ?_⟩
    split
    · rename_i hg
      rw [(h.table_iff_eq ht g).mp hg, hold, interest, hsame]
    · rfl
  · simp only [ne_eq, hsame, not_false_eq_true, if_true]
    obtain ⟨hooks, he, hh⟩ := h.looperUnhook ht h.hooked
      (((st.fdes n).state &&& FDE_EVENTMASK) &&& ~~~events)
    obtain ⟨hooks', he', hh'⟩ := h.looperHook ht hh
      (events &&& ~~~((st.fdes n).state &&& FDE_EVENTMASK))
    refine ⟨hooks', ?_, hh'.congr fun g => ?_⟩
    · rw [← he', ← he]
    · by_cases hg : g = f
      · subst hg
        have hnew := update_events ((st.fdes n).state &&& FDE_EVENTMASK) events
        rw [if_pos ht, Function.update_self, Function.update_self, hold, interest, hnew]
      · rw [if_neg fun hgn => hg ((h.table_iff_eq ht g).mp hgn), Function.update_of_ne hg,
          Function.update_of_ne hg]

-- The words of an fdevent whose interest is replaced.
def Fde.want (fde : Fde) (events : BitVec 16) : Fde :=
  { fde with state := (fde.state &&& FDE_STATEMASK) ||| events }

@[simp] theorem active_want (fde : Fde) (events : BitVec 16) :
    Event.active (fde.want (events &&& FDE_EVENTMASK)).toFdevent = Event.active fde.toFdevent := by
  simp [Event.active, Fde.want, FDE_STATEMASK, FDE_EVENTMASK]

@[simp] theorem pending_want (fde : Fde) (events : BitVec 16) :
    pending (fde.want (events &&& FDE_EVENTMASK)).toFdevent = pending fde.toFdevent := by
  simp [pending, Fde.want, FDE_STATEMASK, FDE_EVENTMASK]

theorem fdeventSet_spec (h : Registered st queue) (n : Nat) (events : BitVec 16) :
    ∃ st' queue', fdeventSet st n events = .ok st' ∧ Registered st' queue' ∧
      Quieter st queue st' queue' := by
  obtain ⟨ev, hev⟩ : ∃ ev, ev = events &&& FDE_EVENTMASK := ⟨_, rfl⟩
  unfold fdeventSet
  simp only [← hev]
  by_cases hsame : (st.fdes n).state &&& FDE_EVENTMASK = ev
  · exact ⟨st, queue, if_pos hsame, h, .of_same fun _ => rfl⟩
  · rw [if_neg hsame]
    have hinterest : ((st.fdes n).state &&& FDE_STATEMASK ||| ev) &&& FDE_EVENTMASK = ev := by
      rw [hev, interest_set]
    -- the hooks follow before the state word does
    obtain ⟨hooks, hupdate, hhooked⟩ : ∃ hooks,
        (if (st.fdes n).state &&& FDE_ACTIVE ≠ 0 then fdeventUpdate st n ev else st) =
            { st with hooks } ∧
          Hooked st.fhs hooks fun g => if st.fdTable g = some n then ev else st.interestOn g := by
      by_cases ha : st.active n
      · obtain ⟨hooks, he, hh⟩ := fdeventUpdate_spec h ha ev
        exact ⟨hooks, by rw [if_pos ((active_iff _).mpr ha), he], hh⟩
      · refine ⟨st.hooks, by rw [if_neg fun hne => ha ((active_iff _).mp hne)], ?_⟩
        refine h.hooked.congr fun g => ?_
        rw [if_neg fun hg => ha ((h.table g n).mp hg).1]
    have hkeep : ∀ fde : Fde, interest fde.toFdevent = ev → Hooked st.fhs hooks fun g =>
        if st.fdTable g = some n then interest fde.toFdevent else st.interestOn g := by
      intro fde he
      rw [he]
      exact hhooked
    have hactive : ∀ fde : Fde, Event.active fde.toFdevent =
        Event.active ((st.fdes n).want ev).toFdevent →
          (Event.active fde.toFdevent = true ↔ st.active n) := by
      intro fde he
      rw [he, hev, active_want, EventState.active]
    rw [hupdate]
    by_cases hp : pending (st.fdes n).toFdevent = true
    · have hq := (h.queued n).mpr hp
      have hne : ((st.fdes n).want ev).state &&& FDE_PENDING ≠ 0 := by
        rw [pending_iff, hev, pending_want]
        exact hp
      have ha := h.queued_active n hq
      rw [if_pos (show ((st.fdes n).state &&& FDE_STATEMASK ||| ev) &&& FDE_PENDING ≠ 0 from hne)]
      by_cases hz : (st.fdes n).events &&& ~~~ev = 0
      · obtain ⟨links, he, hring⟩ := plistRemove_ring h.ring hq
        have hnd := IsRing.nodup_queue h.ring
        rw [if_pos hz, he]
        refine ⟨_, queue.erase n, rfl, h.setFde (hactive _ ?_) rfl ?_ hring ?_ ?_ ?_ ?_, ?_⟩
        · simp [Event.active, Fde.want, FDE_PENDING]
        · exact hkeep _ ((interest_not_pending _).trans hinterest)
        · intro k hk
          exact List.mem_erase_of_ne hk
        · simp [hnd.mem_erase_iff, pending, FDE_PENDING]
        · exact fun _ => ha
        · exact fun _ => hz
        · refine .of_others (n := n) (fun k hk => List.mem_of_mem_erase hk) ?_ ?_
          · intro k _ hk
            simp [EventState.setFde, hk]
          · intro hk
            exact absurd rfl (hnd.mem_erase_iff.mp hk).1
      · rw [if_neg hz]
        refine ⟨_, queue, rfl, h.setFde (hactive _ rfl) rfl ?_ h.ring (fun _ _ => Iff.rfl) ?_
          (fun _ => ha) (fun hn => absurd hq hn), ?_⟩
        · exact hkeep _ hinterest
        · have hpw := pending_want (st.fdes n) events
          rw [← hev] at hpw
          rw [h.queued, ← hpw]
          rfl
        · refine .of_others (n := n) (fun k hk => hk) ?_ ?_
          · intro k _ hk
            simp [EventState.setFde, hk]
          · intro _
            exact ⟨by simp [EventState.setFde], ~~~ev, by simp [EventState.setFde]⟩
    · have hq : n ∉ queue := fun hq => hp ((h.queued n).mp hq)
      have hz : ¬((st.fdes n).want ev).state &&& FDE_PENDING ≠ 0 := by
        rw [pending_iff, hev, pending_want]
        exact hp
      rw [if_neg (show ¬((st.fdes n).state &&& FDE_STATEMASK ||| ev) &&& FDE_PENDING ≠ 0 from hz)]
      refine ⟨_, queue, rfl, h.setFde (hactive _ rfl) rfl ?_ h.ring (fun _ _ => Iff.rfl) ?_
        (fun hn => absurd hn hq) (fun _ => h.quiet n hq), ?_⟩
      · exact hkeep _ hinterest
      · have hpw := pending_want (st.fdes n) events
        rw [← hev] at hpw
        rw [h.queued, ← hpw]
        rfl
      · refine .of_others (n := n) (fun k hk => hk) ?_ (fun hn => absurd hn hq)
        intro k _ hk
        simp [EventState.setFde, hk]

end Steps

end Adb.Event
