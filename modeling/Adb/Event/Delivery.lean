import Adb.Event.Looks
import Adb.Event.Registration

namespace Adb.Event

open Adb.Lib Adb.Host

-- How a pass goes: it returns before it waits, something is ready at once, or a
-- wait ends with a hook that its check function does not refuse.
inductive Course where
  | idle
  | atOnce
  | woken (fh : Nat) (look : Look)

def findWoken (h : Nat) (look : Nat → Look) (hooks : List EventHook) : Option EventHook :=
  hooks.find? fun hook => hook.h = some h ∧ hook.core.accepts (look hook.fh)

def wakes (htab : List Nat) (hooks : List EventHook) : List Wait → Option (Nat × Look)
  | [] => none
  | wait :: rest =>
      match (wait.ret.bind fun index => htab[index]?).bind fun h =>
          findWoken h wait.check hooks with
      | some hook => some (hook.fh, wait.check hook.fh)
      | none => wakes htab hooks rest

def EventHook.reset (hook : EventHook) : EventHook := { hook with ready := 0 }

def course (env : PassEnv) (hooks : List EventHook) : Option Course :=
  if hooks.any fun hook => hook.core.finds (env.prepare hook.fh) ≠ 0 then
    some .atOnce
  else
    match fillTable (hooks.map EventHook.reset) [] with
    | (_, none) => some .idle
    | (_, some []) => some .idle
    | (started, some htab) => (wakes htab started env.waits).map fun w => .woken w.1 w.2

-- What the prepare, check and peek functions of a hook find in the pass.
def Course.finds (env : PassEnv) (core : Core) : Course → BitVec 16
  | .idle => 0
  | .atOnce => core.finds (env.prepare core.fh) ||| core.finds (env.peek core.fh)
  | .woken fh look =>
      (if core.fh = fh then core.checks look else 0) ||| core.finds (env.peek core.fh)

-- The hooks that a pass signals.
def Course.signals (env : PassEnv) (core : Core) : Course → Prop
  | .idle => False
  | .atOnce => core.finds (env.prepare core.fh) ||| core.finds (env.peek core.fh) ≠ 0
  | .woken fh _ => core.fh = fh ∨ core.finds (env.peek core.fh) ≠ 0

-- The hooks in the slots that meet S have been signalled since st0, in which
-- nothing was pending, and their fdevents are pending with all they want.
structure Alerted (st0 st : EventState) (queue : List Nat) (S : Nat → Prop) : Prop where
  registered : Registered st queue
  hooks : st.hooks = st0.hooks
  table : st.fdTable = st0.fdTable
  fd : ∀ n, (st.fdes n).fd = (st0.fdes n).fd
  interest : ∀ n, interest (st.fdes n).toFdevent = interest (st0.fdes n).toFdevent
  queued : ∀ n, n ∈ queue ↔ ∃ f, S f ∧ st0.fdTable f = some n
  events : ∀ n ∈ queue, (st.fdes n).events = Event.interest (st0.fdes n).toFdevent

section Pass

variable {st0 st : EventState} {queue : List Nat} {S : Nat → Prop} {env : PassEnv}
  {hooks : List EventHook}

theorem alerted_init (h : Registered st0 []) : Alerted st0 st0 [] fun _ => False where
  registered := h
  hooks := rfl
  table := rfl
  fd := fun _ => rfl
  interest := fun _ => rfl
  queued := by simp
  events := by simp

theorem Alerted.congr (h : Alerted st0 st queue S) {T : Nat → Prop} (hs : ∀ f, S f ↔ T f) :
    Alerted st0 st queue T where
  registered := h.registered
  hooks := h.hooks
  table := h.table
  fd := h.fd
  interest := h.interest
  queued := by
    intro n
    rw [h.queued]
    exact exists_congr fun f => and_congr_left fun _ => hs f
  events := h.events

-- Only the handle and what is wanted matter to a signal.
theorem eventHookSignal_core {hook other : EventHook} (hc : hook.core = other.core) :
    eventHookSignal st hook = eventHookSignal st other := by
  simp only [EventHook.core, Core.mk.injEq] at hc
  simp only [eventHookSignal, hc]

theorem Alerted.signal (h : Alerted st0 st queue S) {hook old : EventHook}
    (hm : old ∈ st0.hooks) (hc : hook.core = old.core) :
    ∃ st' queue', eventHookSignal st hook = .ok st' ∧
      Alerted st0 st' queue' fun f => S f ∨ f = hook.fh := by
  have hm' : old ∈ st.hooks := by rwa [h.hooks]
  obtain ⟨n, links, ht, he, hr⟩ := eventHookSignal_spec h.registered hm'
  obtain ⟨k, hk, -, hwanted⟩ := h.registered.hook_table hm'
  have hkn : k = n := Option.some.inj (hk.symm.trans ht)
  subst hkn
  have ht0 : st0.fdTable old.fh = some k := by rw [← h.table, ht]
  have hfh : hook.fh = old.fh := congrArg Core.fh hc
  refine ⟨_, _, by rw [eventHookSignal_core hc, he], hr, h.hooks, h.table, ?_, ?_, ?_, ?_⟩
  · intro m
    rw [← h.fd]
    by_cases hm : m = k
    · subst hm
      simp [EventState.setFde, Fde.signalled]
    · simp [EventState.setFde, hm]
  · intro m
    rw [← h.interest]
    by_cases hm : m = k
    · subst hm
      simp only [EventState.setFde, Function.update_self]
      exact interest_or_pending _
    · simp [EventState.setFde, hm]
  · intro m
    have hslot : (∃ f, f = hook.fh ∧ st0.fdTable f = some m) ↔ m = k := by
      simp only [exists_eq_left, hfh, ht0, Option.some.injEq, eq_comm]
    have hboth : (∃ f, (S f ∨ f = hook.fh) ∧ st0.fdTable f = some m) ↔ m ∈ queue ∨ m = k := by
      rw [h.queued, ← hslot]
      simp only [or_and_right, exists_or]
    rw [hboth]
    by_cases hq : k ∈ queue
    · rw [if_pos hq]
      constructor
      · exact fun hm => .inl hm
      · rintro (hm | rfl)
        · exact hm
        · exact hq
    · rw [if_neg hq]
      simp
  · intro m hmq
    by_cases hm : m = k
    · subst hm
      simp only [EventState.setFde, Function.update_self, Fde.signalled]
      rw [hwanted, ← h.interest]
      by_cases hq : m ∈ queue
      · rw [h.events m hq, ← h.interest, BitVec.or_self]
      · rw [h.registered.quiet m hq]
        simp
    · have hq : m ∈ queue := by
        by_cases hkq : k ∈ queue
        · rwa [if_pos hkq] at hmq
        · rw [if_neg hkq] at hmq
          simpa [hm] using hmq
      simpa [EventState.setFde, hm] using h.events m hq

theorem Alerted.signalIf (h : Alerted st0 st queue S) {old : EventHook} (hook : EventHook) (b : Bool)
    (hm : old ∈ st0.hooks) (hc : hook.core = old.core) :
    ∃ st' queue', signalIf b st hook = .ok st' ∧
      Alerted st0 st' queue' fun f => S f ∨ (b = true ∧ f = hook.fh) := by
  cases b with
  | false => exact ⟨st, queue, rfl, h.congr (by simp)⟩
  | true =>
      obtain ⟨st', queue', he, ha⟩ := h.signal hm hc
      exact ⟨st', queue', he, ha.congr (by simp)⟩

-- What the first loop makes of a hook.
def prepared (look : Nat → Look) (hook : EventHook) : EventHook :=
  hook.reset.addReady (hook.core.finds (look hook.fh))

def Copies (hooks : List EventHook) (st0 : EventState) : Prop :=
  ∀ hook ∈ hooks, ∃ old ∈ st0.hooks, hook.core = old.core

theorem prepareLoop_spec (look : Nat → Look) (hc : Copies hooks st0)
    (h : Alerted st0 st queue S) :
    ∃ st' queue', prepareLoop look hooks st = .ok (hooks.map (prepared look),
        hooks.any fun hook => hook.core.finds (look hook.fh) ≠ 0, st') ∧
      Alerted st0 st' queue' fun f =>
        S f ∨ ∃ hook ∈ hooks, hook.fh = f ∧ hook.core.finds (look hook.fh) ≠ 0 := by
  induction hooks generalizing st queue S with
  | nil => exact ⟨st, queue, rfl, h.congr (by simp)⟩
  | cons hook rest ih =>
      obtain ⟨old, hm, hcore⟩ := hc hook (List.mem_cons_self ..)
      have hlook : prepare { hook with ready := 0 } (look hook.fh) = prepared look hook :=
        prepare_eq _ _
      have hready : (prepared look hook).ready = hook.core.finds (look hook.fh) := by
        simp [prepared, EventHook.reset, EventHook.addReady]
      obtain ⟨st₁, queue₁, he₁, h₁⟩ := h.signalIf (prepared look hook)
        (decide ((prepared look hook).ready ≠ 0)) hm hcore
      obtain ⟨st₂, queue₂, he₂, h₂⟩ := ih (fun k hk => hc k (List.mem_cons_of_mem _ hk)) h₁
      refine ⟨st₂, queue₂, ?_, h₂.congr fun f => ?_⟩
      · rw [hready] at he₁
        simp only [prepareLoop, hlook, bind, Except.bind, hready, he₁, he₂, pure, Except.pure,
          List.map_cons, List.any_cons]
      · have hfh : (prepared look hook).fh = hook.fh := rfl
        simp only [hready, hfh, decide_eq_true_eq, List.mem_cons, exists_eq_or_imp, or_assoc]
        refine or_congr_right (or_congr_left ?_)
        rw [and_comm, eq_comm]

theorem peekLoop_spec (look : Nat → Look) (hc : Copies hooks st0)
    (hfile : ∀ hook ∈ hooks, ∀ handle, hook.clazz = .file handle →
      (hook.ready ||| hook.core.finds (look hook.fh) ≠ 0 ↔ hook.core.finds (look hook.fh) ≠ 0))
    (h : Alerted st0 st queue S) :
    ∃ hooks' st' queue', peekLoop look hooks st = .ok (hooks', st') ∧
      hooks'.map EventHook.core = hooks.map EventHook.core ∧
      Alerted st0 st' queue' fun f =>
        S f ∨ ∃ hook ∈ hooks, hook.fh = f ∧ hook.ready ||| hook.core.finds (look hook.fh) ≠ 0 := by
  induction hooks generalizing st queue S with
  | nil => exact ⟨[], st, queue, rfl, rfl, h.congr (by simp)⟩
  | cons hook rest ih =>
      obtain ⟨old, hm, hcore⟩ := hc hook (List.mem_cons_self ..)
      obtain ⟨hsig, hpcore⟩ := peek_eq hook (look hook.fh)
        (hfile hook (List.mem_cons_self ..))
      obtain ⟨st₁, queue₁, he₁, h₁⟩ := h.signalIf _ (peek hook (look hook.fh)).1 hm
        (hpcore.trans hcore)
      obtain ⟨hooks', st₂, queue₂, he₂, hcores, h₂⟩ := ih
        (fun k hk => hc k (List.mem_cons_of_mem _ hk))
        (fun k hk => hfile k (List.mem_cons_of_mem _ hk)) h₁
      refine ⟨(peek hook (look hook.fh)).2 :: hooks', st₂, queue₂, ?_, ?_, h₂.congr fun f => ?_⟩
      · simp only [peekLoop, bind, Except.bind, he₁, he₂, pure, Except.pure]
      · simp only [List.map_cons, hpcore, hcores]
      · have hfh : (peek hook (look hook.fh)).2.fh = hook.fh := congrArg Core.fh hpcore
        simp only [hsig, hfh, decide_eq_true_eq, List.mem_cons, exists_eq_or_imp, or_assoc]
        refine or_congr_right (or_congr_left ?_)
        rw [and_comm, eq_comm]

-- Only the hook that is woken has looked and found something.
theorem wokenLoop_spec (h : Nat) (look : Nat → Look) (hc : Copies hooks st0)
    (hready : ∀ hook ∈ hooks, hook.ready = 0) (ha : Alerted st0 st queue S) :
    match findWoken h look hooks with
    | none => wokenLoop h look hooks st = .ok (hooks, false, st)
    | some hook => ∃ hooks' st' queue', wokenLoop h look hooks st = .ok (hooks', true, st') ∧
        hooks'.map EventHook.core = hooks.map EventHook.core ∧
        (∀ k ∈ hooks', k.ready = 0 ∨ k.fh = hook.fh ∧ ∀ handle, k.clazz ≠ .file handle) ∧
        Alerted st0 st' queue' fun f => S f ∨ f = hook.fh := by
  induction hooks with
  | nil => rfl
  | cons hook rest ih =>
      have hrest := ih (fun k hk => hc k (List.mem_cons_of_mem _ hk))
        (fun k hk => hready k (List.mem_cons_of_mem _ hk))
      have hz := hready hook (List.mem_cons_self ..)
      have hcheck := check_eq hook (look hook.fh) hz
      by_cases hh : hook.h = some h
      · by_cases hacc : hook.core.accepts (look hook.fh) = true
        · have hfind : findWoken h look (hook :: rest) = some hook := by
            simp [findWoken, hh, hacc]
          obtain ⟨old, hm, hcore⟩ := hc hook (List.mem_cons_self ..)
          have hchecked : (hook.addReady (hook.core.checks (look hook.fh))).core = old.core := hcore
          obtain ⟨st', queue', he, ha'⟩ := ha.signal hm hchecked
          rw [hfind]
          refine ⟨hook.addReady (hook.core.checks (look hook.fh)) :: rest, st', queue', ?_, rfl, ?_,
            ha'⟩
          · simp only [wokenLoop, hh, if_true, hcheck, hacc, bind, Except.bind, he, pure,
              Except.pure]
          · intro k hk
            rcases List.mem_cons.mp hk with rfl | hk
            · by_cases hf : ∃ handle, hook.clazz = .file handle
              · obtain ⟨handle, hf⟩ := hf
                left
                simp [EventHook.addReady, Core.checks, EventHook.core, hf, hz]
              · exact .inr ⟨rfl, fun handle he => hf ⟨handle, he⟩⟩
            · exact .inl (hready k (List.mem_cons_of_mem _ hk))
        · have hfind : findWoken h look (hook :: rest) = findWoken h look rest := by
            simp [findWoken, hh, hacc]
          have hsame : hook.addReady (hook.core.checks (look hook.fh)) = hook := by
            -- a check that refuses has found nothing
            have hnone : hook.core.checks (look hook.fh) = 0 := by
              cases hcl : hook.core.clazz with
              | socket event =>
                  simp only [Core.accepts, hcl] at hacc
                  simpa [Core.checks, hcl] using hacc
              | file handle => simp [Core.checks, hcl]
              | socketpair evtRead evtWrite => simp [Core.checks, hcl]
            rw [hnone]
            exact addReady_zero
          rw [hfind]
          cases hf : findWoken h look rest with
          | none =>
              rw [hf] at hrest
              simp only at hrest
              simp only [wokenLoop, hh, if_true, hcheck, hacc, hsame, bind, Except.bind, hrest,
                pure, Except.pure, Bool.false_eq_true, if_false]
          | some found =>
              rw [hf] at hrest
              obtain ⟨hooks', st', queue', he, hcores, hzero, ha'⟩ := hrest
              refine ⟨hook :: hooks', st', queue', ?_, by simp only [List.map_cons, hcores], ?_, ha'⟩
              · simp only [wokenLoop, hh, if_true, hcheck, hacc, hsame, bind, Except.bind, he,
                  pure, Except.pure, Bool.false_eq_true, if_false]
              · intro k hk
                rcases List.mem_cons.mp hk with rfl | hk
                · exact .inl hz
                · exact hzero k hk
      · have hfind : findWoken h look (hook :: rest) = findWoken h look rest := by
          simp [findWoken, hh]
        rw [hfind]
        cases hf : findWoken h look rest with
        | none =>
            rw [hf] at hrest
            simp only at hrest
            simp only [wokenLoop, hh, if_false, bind, Except.bind, hrest, pure, Except.pure]
        | some found =>
            rw [hf] at hrest
            obtain ⟨hooks', st', queue', he, hcores, hzero, ha'⟩ := hrest
            refine ⟨hook :: hooks', st', queue', ?_, by simp only [List.map_cons, hcores], ?_, ha'⟩
            · simp only [wokenLoop, hh, if_false, bind, Except.bind, he, pure, Except.pure]
            · intro k hk
              rcases List.mem_cons.mp hk with rfl | hk
              · exact .inl hz
              · exact hzero k hk

theorem waitLoop_spec (htab : List Nat) (waits : List Wait) (hc : Copies hooks st0)
    (hready : ∀ hook ∈ hooks, hook.ready = 0) (ha : Alerted st0 st queue S) :
    match wakes htab hooks waits with
    | none => waitLoop htab waits hooks st = .ok none
    | some (fh, _) => ∃ hooks' st' queue', waitLoop htab waits hooks st = .ok (some (hooks', st')) ∧
        hooks'.map EventHook.core = hooks.map EventHook.core ∧
        (∀ k ∈ hooks', k.ready = 0 ∨ k.fh = fh ∧ ∀ handle, k.clazz ≠ .file handle) ∧
        Alerted st0 st' queue' fun f => S f ∨ f = fh := by
  induction waits with
  | nil => rfl
  | cons wait rest ih =>
      rw [wakes]
      cases hh : wait.ret.bind fun index => htab[index]? with
      | none =>
          simp only [Option.bind_none, waitLoop, hh]
          exact ih
      | some h =>
          have hloop := wokenLoop_spec h wait.check hc hready ha
          cases hf : findWoken h wait.check hooks with
          | none =>
              rw [hf] at hloop
              simp only at hloop
              simp only [Option.bind_some, hf, waitLoop, hh, bind, Except.bind, hloop,
                Bool.false_eq_true, if_false]
              exact ih
          | some hook =>
              rw [hf] at hloop
              obtain ⟨hooks', st', queue', he, hcores, hzero, ha'⟩ := hloop
              simp only [Option.bind_some, hf, waitLoop, hh, bind, Except.bind, he, if_true, pure,
                Except.pure]
              exact ⟨hooks', st', queue', rfl, hcores, hzero, ha'⟩

theorem wakes_mem {htab : List Nat} {waits : List Wait} {fh : Nat} {look : Look}
    (h : wakes htab hooks waits = some (fh, look)) : ∃ hook ∈ hooks, hook.fh = fh := by
  induction waits with
  | nil => cases h
  | cons wait rest ih =>
      rw [wakes] at h
      split at h
      · rename_i hook hf
        obtain ⟨handle, -, hfind⟩ := Option.bind_eq_some_iff.mp hf
        cases h
        exact ⟨hook, List.mem_of_find?_eq_some hfind, rfl⟩
      · exact ih h

-- What a look finds of a file does not depend on the look.
theorem finds_file_look {hook : EventHook} {handle : Nat} (hc : hook.clazz = .file handle)
    (look other : Look) : hook.core.finds look = hook.core.finds other := by
  simp [Core.finds, found, EventHook.core, hc, prepare]

theorem mem_of_cores {others : List EventHook} {hook : EventHook}
    (hc : others.map EventHook.core = hooks.map EventHook.core) (hm : hook ∈ hooks) :
    ∃ other ∈ others, other.core = hook.core := by
  have hmem : hook.core ∈ others.map EventHook.core := by
    rw [hc]
    exact List.mem_map_of_mem hm
  exact List.mem_map.mp hmem

theorem Copies.of_cores {others : List EventHook}
    (hc : others.map EventHook.core = st0.hooks.map EventHook.core) : Copies others st0 := by
  intro hook hm
  obtain ⟨old, ho, he⟩ := mem_of_cores hc.symm hm
  exact ⟨old, ho, he.symm⟩

theorem wantedOf_cores {others : List EventHook}
    (hc : others.map EventHook.core = hooks.map EventHook.core) (f : Nat) :
    wantedOf others f = wantedOf hooks f := by
  induction hooks generalizing others with
  | nil =>
      rw [List.map_nil, List.map_eq_nil_iff] at hc
      rw [hc]
  | cons hook rest ih =>
      cases others with
      | nil => cases hc
      | cons other others =>
          simp only [List.map_cons, List.cons.injEq, EventHook.core, Core.mk.injEq] at hc
          rw [wantedOf_cons, wantedOf_cons, ih hc.2, hc.1.1, hc.1.2.2]

-- A pass changes nothing of the hooks that the registration is about.
theorem Registered.withHooks (h : Registered st queue) {others : List EventHook}
    (hc : others.map EventHook.core = st.hooks.map EventHook.core) :
    Registered { st with hooks := others } queue where
  ring := h.ring
  queued := h.queued
  queued_active := h.queued_active
  quiet := h.quiet
  table := h.table
  carried := h.carried
  hooked := {
    nodup := by
      have hfh : others.map (·.fh) = st.hooks.map (·.fh) := by
        have hmap := congrArg (List.map Core.fh) hc
        rw [List.map_map, List.map_map] at hmap
        exact hmap
      rw [hfh]
      exact h.hooked.nodup
    nonzero := by
      intro hook hm
      obtain ⟨old, ho, he⟩ := Copies.of_cores hc hook hm
      have hw : hook.wanted = old.wanted := congrArg Core.wanted he
      rw [hw]
      exact h.hooked.nonzero old ho
    live := by
      intro hook hm
      obtain ⟨old, ho, he⟩ := Copies.of_cores hc hook hm
      have hfh : hook.fh = old.fh := congrArg Core.fh he
      have hcl : hook.clazz = old.clazz := congrArg Core.clazz he
      rw [hfh, hcl]
      exact h.hooked.live old ho
    wanted := fun f => (wantedOf_cores hc f).trans (h.hooked.wanted f) }
  slots := h.slots
  count := h.count
  tableMax := h.tableMax

-- Where a pass leaves the fdevents: those of the hooks it signals are pending
-- with all that they want, the others are not.
structure Signalled (st0 st : EventState) (queue : List Nat) (signals : Core → Prop) : Prop where
  registered : Registered st queue
  fd : ∀ n, (st.fdes n).fd = (st0.fdes n).fd
  queued : ∀ n, n ∈ queue ↔
    ∃ hook ∈ st0.hooks, signals hook.core ∧ st0.fdTable hook.fh = some n
  events : ∀ n ∈ queue, (st.fdes n).events = Event.interest (st0.fdes n).toFdevent

theorem Alerted.signalled (h : Alerted st0 st queue S) {others : List EventHook}
    (hc : others.map EventHook.core = st0.hooks.map EventHook.core) {signals : Core → Prop}
    (hs : ∀ f, S f ↔ ∃ hook ∈ st0.hooks, hook.fh = f ∧ signals hook.core) :
    Signalled st0 { st with hooks := others } queue signals where
  registered := h.registered.withHooks (by rw [hc, h.hooks])
  fd := h.fd
  queued := by
    intro n
    rw [h.queued]
    constructor
    · rintro ⟨f, hf, ht⟩
      obtain ⟨hook, hm, rfl, hsig⟩ := (hs f).mp hf
      exact ⟨hook, hm, hsig, ht⟩
    · rintro ⟨hook, hm, hsig, ht⟩
      exact ⟨hook.fh, (hs _).mpr ⟨hook, hm, rfl, hsig⟩, ht⟩
  events := h.events

variable (env) in
theorem atOnce_spec (h : Alerted st0 st queue fun f =>
      False ∨ ∃ hook ∈ st0.hooks, hook.fh = f ∧ hook.core.finds (env.prepare hook.fh) ≠ 0) :
    ∃ hooks' st' queue', peekLoop env.peek (st0.hooks.map (prepared env.prepare)) st =
        .ok (hooks', st') ∧
      Signalled st0 { st' with hooks := hooks' } queue' fun core => Course.atOnce.signals env core := by
  have hready : ∀ hook : EventHook, (prepared env.prepare hook).ready =
      hook.core.finds (env.prepare hook.fh) := by
    intro hook
    simp [prepared, EventHook.reset, EventHook.addReady]
  have hcores : (st0.hooks.map (prepared env.prepare)).map EventHook.core =
      st0.hooks.map EventHook.core := by
    rw [List.map_map]
    rfl
  obtain ⟨hooks', st', queue', he, hc, ha⟩ := peekLoop_spec env.peek (Copies.of_cores hcores) (by
    intro k hk handle hcl
    obtain ⟨hook, -, rfl⟩ := List.mem_map.mp hk
    have hsame : hook.core.finds (env.prepare hook.fh) = hook.core.finds (env.peek hook.fh) :=
      finds_file_look hcl _ _
    rw [hready, hsame]
    exact iff_of_eq (congrArg (· ≠ 0) BitVec.or_self)) h
  refine ⟨hooks', st', queue', he, ha.signalled (hc.trans hcores) fun f => ?_⟩
  simp only [List.mem_map, exists_exists_and_eq_and, hready, Course.signals]
  constructor
  · rintro ((hfalse | ⟨hook, hm, hf, hne⟩) | ⟨hook, hm, hf, hne⟩)
    · exact hfalse.elim
    · refine ⟨hook, hm, hf, fun hz => hne ?_⟩
      exact (BitVec.or_eq_zero_iff.mp hz).1
    · exact ⟨hook, hm, hf, hne⟩
  · rintro ⟨hook, hm, hf, hne⟩
    exact .inr ⟨hook, hm, hf, hne⟩

variable (env) in
theorem woken_spec {started : List EventHook} {fh : Nat} (look : Look)
    (hcores : started.map EventHook.core = st0.hooks.map EventHook.core)
    (hzero : ∀ k ∈ started, k.ready = 0 ∨ k.fh = fh ∧ ∀ handle, k.clazz ≠ .file handle)
    (hwoken : ∃ hook ∈ st0.hooks, hook.fh = fh)
    (h : Alerted st0 st queue fun f => False ∨ f = fh) :
    ∃ hooks' st' queue', peekLoop env.peek (started.map stop) st = .ok (hooks', st') ∧
      Signalled st0 { st' with hooks := hooks' } queue'
        fun core => (Course.woken fh look).signals env core := by
  have hstop : (started.map stop).map EventHook.core = st0.hooks.map EventHook.core := by
    rw [← hcores, List.map_map]
    exact List.map_congr_left fun k _ => core_stop k
  obtain ⟨hooks', st', queue', he, hc, ha⟩ := peekLoop_spec env.peek (Copies.of_cores hstop) (by
    intro k' hk' handle hcl
    obtain ⟨k, hk, rfl⟩ := List.mem_map.mp hk'
    have hclazz : k.clazz = .file handle := (congrArg Core.clazz (core_stop k)).symm.trans hcl
    rcases hzero k hk with hz | ⟨-, hno⟩
    · rw [ready_stop, hz]
      simp
    · exact absurd hclazz (hno handle)) h
  refine ⟨hooks', st', queue', he, ha.signalled (hc.trans hstop) fun f => ?_⟩
  simp only [Course.signals]
  constructor
  · rintro ((hfalse | rfl) | ⟨k', hk', rfl, hne⟩)
    · exact hfalse.elim
    · obtain ⟨hook, hm, hf⟩ := hwoken
      exact ⟨hook, hm, hf, .inl hf⟩
    · obtain ⟨k, hk, rfl⟩ := List.mem_map.mp hk'
      obtain ⟨hook, hm, he⟩ := mem_of_cores hcores.symm hk
      have hfh : (stop k).fh = hook.fh :=
        (congrArg Core.fh (core_stop k)).trans (congrArg Core.fh he).symm
      refine ⟨hook, hm, hfh.symm, ?_⟩
      rcases hzero k hk with hz | ⟨hf, -⟩
      · right
        rw [ready_stop, hz, core_stop, hfh, ← he] at hne
        simpa [EventHook.core] using hne
      · exact .inl ((congrArg Core.fh he).trans hf)
  · rintro ⟨hook, hm, rfl, hf | hne⟩
    · exact .inl (.inr hf)
    · obtain ⟨k', hk', he⟩ := mem_of_cores hstop hm
      have hfh : k'.fh = hook.fh := congrArg Core.fh he
      refine .inr ⟨k', hk', hfh, fun hz => hne ?_⟩
      have hnone := (BitVec.or_eq_zero_iff.mp hz).2
      rwa [he, hfh] at hnone

-- A pass that starts with nothing pending and returns has signalled the hooks
-- of its course.
theorem fdeventProcess_spec (h : Registered st []) (env : PassEnv) :
    match course env st.hooks with
    | none => fdeventProcess env st = .ok none
    | some c => ∃ st' queue, fdeventProcess env st = .ok (some st') ∧
        Signalled st st' queue fun core => c.signals env core := by
  obtain ⟨st₁, queue₁, he₁, h₁⟩ := prepareLoop_spec env.prepare
    (show Copies st.hooks st from Copies.of_cores rfl) (alerted_init h)
  unfold course
  by_cases hgot : (st.hooks.any fun hook => hook.core.finds (env.prepare hook.fh) ≠ 0) = true
  · obtain ⟨hooks', st', queue', he₂, hs⟩ := atOnce_spec env h₁
    simp only [hgot, if_true]
    refine ⟨_, queue', ?_, hs⟩
    simp only [fdeventProcess, bind, Except.bind, he₁, hgot, if_true, he₂, pure, Except.pure]
  · simp only [hgot, if_false, Bool.false_eq_true]
    rw [Bool.not_eq_true] at hgot
    have hnone : ∀ hook ∈ st.hooks, hook.core.finds (env.prepare hook.fh) = 0 := by
      intro hook hm
      have hany := List.any_eq_false.mp hgot hook hm
      simpa using hany
    have hreset : st.hooks.map (prepared env.prepare) = st.hooks.map EventHook.reset := by
      refine List.map_congr_left fun hook hm => ?_
      rw [prepared, hnone hook hm]
      exact addReady_zero
    have hquiet : Alerted st st₁ queue₁ fun _ => False := by
      refine h₁.congr fun f => ⟨?_, False.elim⟩
      rintro (hfalse | ⟨hook, hm, -, hne⟩)
      · exact hfalse
      · exact hne (hnone hook hm)
    have hcores : (st.hooks.map EventHook.reset).map EventHook.core = st.hooks.map EventHook.core := by
      rw [List.map_map]
      rfl
    obtain ⟨hfc, hfr⟩ := fillTable_core (st.hooks.map EventHook.reset) []
    have hidle : ∀ f, False ↔ ∃ hook ∈ st.hooks, hook.fh = f ∧ Course.idle.signals env hook.core := by
      simp [Course.signals]
    cases ht : fillTable (st.hooks.map EventHook.reset) [] with
    | mk started result =>
        rw [ht] at hfc hfr
        have hsc := hfc.trans hcores
        have hzero : ∀ k ∈ started, k.ready = 0 := by
          intro k hk
          have hmem : k.ready ∈ (st.hooks.map EventHook.reset).map EventHook.ready := by
            rw [← hfr]
            exact List.mem_map_of_mem hk
          rw [List.map_map] at hmem
          obtain ⟨hook, -, he⟩ := List.mem_map.mp hmem
          exact he.symm
        cases result with
        | none =>
            refine ⟨_, queue₁, ?_, hquiet.signalled hsc hidle⟩
            simp only [fdeventProcess, bind, Except.bind, he₁, hgot, Bool.false_eq_true, if_false,
              hreset, ht, pure, Except.pure]
        | some htab =>
            cases htab with
            | nil =>
                refine ⟨_, queue₁, ?_, hquiet.signalled hsc hidle⟩
                simp only [fdeventProcess, bind, Except.bind, he₁, hgot, Bool.false_eq_true,
                  if_false, hreset, ht, pure, Except.pure]
            | cons first others =>
                have hloop := waitLoop_spec (first :: others) env.waits (Copies.of_cores hsc) hzero
                  hquiet
                cases hw : wakes (first :: others) started env.waits with
                | none =>
                    rw [hw] at hloop
                    simp only at hloop
                    simp only [hw, Option.map_none]
                    simp only [fdeventProcess, bind, Except.bind, he₁, hgot, Bool.false_eq_true,
                      if_false, hreset, ht, hloop, pure, Except.pure]
                | some woken =>
                    rw [hw] at hloop
                    obtain ⟨hooks', st₂, queue₂, he₂, hc₂, hz₂, h₂⟩ := hloop
                    obtain ⟨hook, hm, hfh⟩ := wakes_mem hw
                    obtain ⟨old, ho, hcore⟩ := Copies.of_cores hsc hook hm
                    obtain ⟨hooks₃, st₃, queue₃, he₃, hs⟩ := woken_spec env woken.2
                      (hc₂.trans hsc) hz₂
                      ⟨old, ho, (congrArg Core.fh hcore).symm.trans hfh⟩ h₂
                    simp only [hw, Option.map_some]
                    refine ⟨_, queue₃, ?_, hs⟩
                    simp only [fdeventProcess, bind, Except.bind, he₁, hgot, Bool.false_eq_true,
                      if_false, hreset, ht, he₂, he₃, pure, Except.pure]

end Pass

end Adb.Event
