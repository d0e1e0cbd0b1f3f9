import Adb.Event.Delivery

namespace Adb.Event

open Adb.Lib Adb.Host

-- A call of a callback.
structure Call where
  n : Nat
  fd : Int
  events : BitVec 16
deriving DecidableEq

-- One turn of the inner loop of fdevent_loop: the callback is called and does
-- what it does to fdevents and handles.
def turn (s : EventState × List Call) (callback : List Op) :
    Except Fault (EventState × List Call) :=
  match dispatch s.1 with
  | .error e => .error e
  | .ok (none, _) => .ok s
  | .ok (some (n, events), st) =>
      (run step st callback).map fun after => (after, s.2 ++ [⟨n, (st.fdes n).fd, events⟩])

-- A callback does not signal hooks and does not dequeue.
def CallbackOk (st : EventState) (op : Op) : Prop :=
  Promised st op ∧ (∀ i, op ≠ .signal i) ∧ op ≠ .dequeue

def TurnOk (s : EventState × List Call) (callback : List Op) : Prop :=
  ∀ n events st, dispatch s.1 = .ok (some (n, events), st) → Guarded step CallbackOk st callback

-- Whatever the callbacks do in the loop after the pass, each is told only of
-- what its hook wanted and found in the pass.
def PassSound (env : PassEnv) (st : EventState) : Prop :=
  ∀ c st' callbacks s, course env st.hooks = some c → fdeventProcess env st = .ok (some st') →
    Guarded turn TurnOk (st', []) callbacks → run turn (st', []) callbacks = .ok s →
      ∀ call ∈ s.2, ∃ hook ∈ st.hooks, call.fd = hook.fh + WIN32_FH_BASE ∧
        call.events &&& (hook.wanted &&& c.finds env hook.core) = call.events

section Turns

variable {st st' : EventState} {queue queue' : List Nat} {env : PassEnv}

theorem Quieter.refl : Quieter st queue st queue := .of_same fun _ => rfl

theorem Quieter.trans {mid : EventState} {between : List Nat}
    (h : Quieter st queue mid between) (h' : Quieter mid between st' queue') :
    Quieter st queue st' queue' := by
  intro k hk
  obtain ⟨hm, hfd, kept, he⟩ := h' k hk
  obtain ⟨hq, hfd', kept', he'⟩ := h k hm
  exact ⟨hq, hfd.trans hfd', kept' &&& kept, by rw [he, he', BitVec.and_assoc]⟩

theorem run_quieter {ops : List Op} (h : Registered st queue)
    (hg : Guarded step CallbackOk st ops) :
    ∃ st', run step st ops = .ok st' ∧
      ∃ queue', Registered st' queue' ∧ Quieter st queue st' queue' := by
  refine guarded_total (P := fun now => ∃ queue', Registered now queue' ∧
    Quieter st queue now queue') ?_ ⟨queue, h, .refl⟩ hg
  intro now op hnow hok
  obtain ⟨between, hr, hquiet⟩ := hnow
  obtain ⟨next, queue', he, hr', hquiet'⟩ := step_spec hr op hok.1
  exact ⟨next, he, queue', hr', hquiet.trans (hquiet' hok.2.1)⟩

-- What is left of the calls that a pass has caused.
structure Bounded (hooks : List EventHook) (allowed : EventHook → BitVec 16)
    (s : EventState × List Call) (queue : List Nat) : Prop where
  registered : Registered s.1 queue
  waiting : ∀ k ∈ queue, ∃ hook ∈ hooks, (s.1.fdes k).fd = hook.fh + WIN32_FH_BASE ∧
    (s.1.fdes k).events &&& allowed hook = (s.1.fdes k).events
  called : ∀ call ∈ s.2, ∃ hook ∈ hooks, call.fd = hook.fh + WIN32_FH_BASE ∧
    call.events &&& allowed hook = call.events

theorem turn_bounded {hooks : List EventHook} {allowed : EventHook → BitVec 16}
    (s : EventState × List Call) (callback : List Op) (t : EventState × List Call)
    (h : ∃ queue, Bounded hooks allowed s queue) (hok : TurnOk s callback)
    (ht : turn s callback = .ok t) : ∃ queue, Bounded hooks allowed t queue := by
  obtain ⟨queue, h⟩ := h
  cases queue with
  | nil =>
      simp only [turn, dispatch_nil h.registered, Except.ok.injEq] at ht
      exact ⟨[], ht ▸ h⟩
  | cons n rest =>
      obtain ⟨links, he, hr⟩ := dispatch_cons h.registered
      obtain ⟨after, hrun, queue', hr', hquiet⟩ := run_quieter hr (hok _ _ _ he)
      simp only [turn, he, hrun, Except.map, Except.ok.injEq] at ht
      subst ht
      have hnd := List.nodup_cons.mp (IsRing.nodup_queue h.registered.ring)
      refine ⟨queue', hr', ?_, ?_⟩
      · intro k hk
        obtain ⟨hkq, hfd, kept, hev⟩ := hquiet k hk
        obtain ⟨hook, hm, hfd', hev'⟩ := h.waiting k (List.mem_cons_of_mem n hkq)
        have hkn : k ≠ n := fun he => hnd.1 (he ▸ hkq)
        simp only [EventState.setFde, Function.update_of_ne hkn] at hfd hev
        refine ⟨hook, hm, hfd.trans hfd', ?_⟩
        rw [hev, BitVec.and_assoc, BitVec.and_comm kept, ← BitVec.and_assoc, hev']
      · intro call hm
        rcases List.mem_append.mp hm with hm | hm
        · exact h.called call hm
        · rw [List.mem_singleton.mp hm]
          obtain ⟨hook, hm, hfd, hev⟩ := h.waiting n (List.mem_cons_self ..)
          exact ⟨hook, hm, by simpa [EventState.setFde, Fde.called] using hfd, hev⟩

-- Callbacks that do nothing let the loop reach every fdevent on the list.
theorem exists_call {n : Nat} (log : List Call) (h : Registered st queue) (hn : n ∈ queue) :
    ∃ count s, run turn (st, log) (List.replicate count []) = .ok s ∧
      (⟨n, (st.fdes n).fd, (st.fdes n).events⟩ : Call) ∈ s.2 := by
  induction queue generalizing st log with
  | nil => cases hn
  | cons first rest ih =>
      obtain ⟨links, he, hr⟩ := dispatch_cons h
      have hturn : ∀ log, turn (st, log) [] = .ok ({ st with links }.setFde first
          (st.fdes first).called, log ++ [⟨first, (st.fdes first).fd, (st.fdes first).events⟩]) := by
        intro log
        simp [turn, he, Except.map, EventState.setFde, Fde.called]
      rcases List.mem_cons.mp hn with rfl | hm
      · have hone : run turn (st, log) [[]] = _ := (run_cons (hturn log)).trans run_nil
        exact ⟨1, _, hone, List.mem_append.mpr (.inr (List.mem_singleton.mpr rfl))⟩
      · have hne : n ≠ first := by
          rintro rfl
          exact (List.nodup_cons.mp (IsRing.nodup_queue h.ring)).1 hm
        obtain ⟨count, s, hrun, hmem⟩ :=
          ih (log ++ [⟨first, (st.fdes first).fd, (st.fdes first).events⟩]) hr hm
        refine ⟨count + 1, s, ?_, by simpa [EventState.setFde, hne] using hmem⟩
        rw [List.replicate_succ, run_cons (hturn log), hrun]

theorem idle_turns (s : EventState × List Call) (count : Nat) :
    Guarded turn TurnOk s (List.replicate count []) := by
  have hidle : Guarded turn (fun _ callback => callback = []) s (List.replicate count []) :=
    guarded_of_all fun callback hm => List.eq_of_mem_replicate hm
  refine hidle.mono ?_
  rintro s callback rfl
  exact fun _ _ _ _ => trivial

-- From every state of the looper with nothing pending: all that the callbacks
-- are told was wanted and found exactly when each hook that the pass signals
-- found everything it wants.
theorem pass_sound_iff (h : Registered st []) :
    PassSound env st ↔ ∀ c, course env st.hooks = some c →
      ∀ hook ∈ st.hooks, c.signals env hook.core →
        hook.wanted &&& c.finds env hook.core = hook.wanted := by
  have hpass := fdeventProcess_spec h env
  constructor
  · intro hsound c hc hook hm hsig
    rw [hc] at hpass
    obtain ⟨st', queue, he, hs⟩ := hpass
    obtain ⟨n, ht, -, hwanted⟩ := h.hook_table hm
    have hq : n ∈ queue := (hs.queued n).mpr ⟨hook, hm, hsig, ht⟩
    obtain ⟨count, s, hrun, hcall⟩ := exists_call [] hs.registered hq
    obtain ⟨other, hom, hfd, hev⟩ := hsound c st' _ s hc he (idle_turns _ count) hrun _ hcall
    have hsame : other = hook := by
      have hslot := ((h.table _ n).mp ht).2
      have hother : (st'.fdes n).fd = other.fh + WIN32_FH_BASE := hfd
      rw [hs.fd] at hother
      have hfh : other.fh = hook.fh := by omega
      exact List.inj_on_of_nodup_map h.hooked.nodup hom hm hfh
    subst hsame
    rw [hs.events n hq, ← hwanted, ← BitVec.and_assoc, BitVec.and_self] at hev
    exact hev
  · intro hcond c st' callbacks s hc he hg hrun
    rw [hc] at hpass
    obtain ⟨st'', queue, he', hs⟩ := hpass
    obtain rfl : st' = st'' := Option.some.inj (Except.ok.inj (he.symm.trans he'))
    have hstart : Bounded st.hooks (fun hook => hook.wanted &&& c.finds env hook.core)
        (st', []) queue := by
      refine ⟨hs.registered, ?_, by simp⟩
      intro k hk
      obtain ⟨hook, hm, hsig, ht⟩ := (hs.queued k).mp hk
      obtain ⟨n, ht', -, hwanted⟩ := h.hook_table hm
      obtain rfl : n = k := Option.some.inj (ht'.symm.trans ht)
      refine ⟨hook, hm, ?_, ?_⟩
      · rw [hs.fd]
        exact ((h.table _ n).mp ht).2
      · rw [hs.events n hk, ← hwanted, hcond c hc hook hm hsig, BitVec.and_self]
    obtain ⟨queue', hb⟩ := guarded_invariant turn_bounded ⟨queue, hstart⟩ hg hrun
    exact hb.called

end Turns

theorem quiet_start (ops : List Op) {st : EventState}
    (hg : Guarded step CallbackOk eventInit ops) (hr : run step eventInit ops = .ok st) :
    Registered st [] := by
  obtain ⟨st', hr', queue, h, hquiet⟩ := run_quieter registered_init hg
  obtain rfl : st = st' := Except.ok.inj (hr.symm.trans hr')
  have hnil : queue = [] := List.eq_nil_iff_forall_not_mem.mpr fun k hk => by
    cases (hquiet k hk).1
  rwa [hnil] at h

-- An end of a socket pair that is to be read and written, and a pass in which
-- it can be written only.
def wantsBothOps : List Op := [.fhAlloc (.socketpair 1 2), .install 0 100, .set 0 3]

def wantsBoth : EventState :=
  match run step eventInit wantsBothOps with
  | .ok st => st
  | .error _ => eventInit

def writableOnly : PassEnv where
  prepare := fun _ => ⟨none, false, true⟩
  waits := []
  peek := fun _ => ⟨none, false, true⟩

theorem wantsBoth_quiet : Registered wantsBoth [] := by
  refine quiet_start wantsBothOps ⟨⟨trivial, by simp, by simp⟩, fun next hnext => ?_⟩ rfl
  obtain rfl := Except.ok.inj hnext
  have hidle : ∀ k, ¬(fhAlloc eventInit (.socketpair 1 2)).active k := by
    simp [EventState.active, active, fdes_fhAlloc, eventInit]
  refine ⟨⟨⟨hidle 0, by decide, fun k hk => absurd hk (hidle k)⟩, by simp, by simp⟩, fun next _ => ?_⟩
  exact ⟨⟨trivial, by simp, by simp⟩, fun _ _ => trivial⟩

-- Its callback is told of a read although there is nothing to read.
theorem told_of_read_when_writable :
    ¬ ∀ (env : PassEnv) (st : EventState), Registered st [] → PassSound env st := by
  intro h
  have hsound := h writableOnly wantsBoth wantsBoth_quiet
  obtain ⟨hook, hm, -, hev⟩ := hsound .atOnce _ [[]] _ rfl rfl (idle_turns _ 1) rfl
    ⟨0, 100, 3⟩ (by decide)
  have hhooks : wantsBoth.hooks = [⟨0, .socketpair 1 2, none, 3, 0⟩] := rfl
  rw [hhooks, List.mem_singleton] at hm
  subst hm
  revert hev
  decide

-- With that end readable as well, all that it wants is found.
theorem sound_when_both_found :
    PassSound ⟨fun _ => ⟨none, true, true⟩, [], fun _ => ⟨none, true, true⟩⟩ wantsBoth := by
  refine (pass_sound_iff wantsBoth_quiet).mpr ?_
  rintro c hc hook hm -
  obtain rfl : Course.atOnce = c := Option.some.inj hc
  have hhooks : wantsBoth.hooks = [⟨0, .socketpair 1 2, none, 3, 0⟩] := rfl
  rw [hhooks, List.mem_singleton] at hm
  subst hm
  decide

end Adb.Event
