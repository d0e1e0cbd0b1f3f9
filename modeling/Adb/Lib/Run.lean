import Mathlib.Logic.Relation

namespace Adb.Lib

section Run

variable {σ ℓ ε : Type}

-- A run follows the labels one by one and stops at the first step that fails.
def run (step : σ → ℓ → Except ε σ) : σ → List ℓ → Except ε σ
  | s, [] => .ok s
  | s, l :: rest =>
      match step s l with
      | .ok next => run step next rest
      | .error e => .error e

-- Every step of the run, taken from the state it is taken in, meets the guard.
def Guarded (step : σ → ℓ → Except ε σ) (guard : σ → ℓ → Prop) : σ → List ℓ → Prop
  | _, [] => True
  | s, l :: rest => guard s l ∧ ∀ next, step s l = .ok next → Guarded step guard next rest

variable {step : σ → ℓ → Except ε σ} {s t : σ} {l : ℓ} {rest : List ℓ}

@[simp] theorem run_nil : run step s [] = .ok s := rfl

theorem run_cons_ok (h : run step s (l :: rest) = .ok t) :
    ∃ next, step s l = .ok next ∧ run step next rest = .ok t := by
  simp only [run] at h
  split at h
  · rename_i next hn
    exact ⟨next, hn, h⟩
  · cases h

theorem run_cons (h : step s l = .ok t) : run step s (l :: rest) = run step t rest := by
  simp only [run, h]

theorem guarded_cons {guard : σ → ℓ → Prop} (h : step s l = .ok t) :
    Guarded step guard s (l :: rest) ↔ guard s l ∧ Guarded step guard t rest := by
  simp only [Guarded, h, Except.ok.injEq, forall_eq']

theorem guarded_of_error {guard : σ → ℓ → Prop} {e : ε} (h : step s l = .error e) :
    Guarded step guard s (l :: rest) ↔ guard s l := by
  simp only [Guarded, h, reduceCtorEq, false_implies, implies_true, and_true]

theorem Guarded.mono {guard guard' : σ → ℓ → Prop} {labels : List ℓ}
    (h : ∀ s l, guard s l → guard' s l) (hg : Guarded step guard s labels) :
    Guarded step guard' s labels := by
  induction labels generalizing s with
  | nil => trivial
  | cons l rest ih => exact ⟨h s l hg.1, fun next hn => ih (hg.2 next hn)⟩

-- A guard on the labels alone.
theorem guarded_of_all {guard : ℓ → Prop} {labels : List ℓ} (h : ∀ l ∈ labels, guard l) :
    Guarded step (fun _ l => guard l) s labels := by
  induction labels generalizing s with
  | nil => trivial
  | cons l rest ih =>
      refine ⟨h l (by simp), fun next _ => ih ?_⟩
      exact fun l hl => h l (List.mem_cons_of_mem _ hl)

theorem guarded_append {guard : σ → ℓ → Prop} {first second : List ℓ} (hg : Guarded step guard s first)
    (hthen : ∀ mid, run step s first = .ok mid → Guarded step guard mid second) :
    Guarded step guard s (first ++ second) := by
  induction first generalizing s with
  | nil => exact hthen s rfl
  | cons l rest ih =>
      refine ⟨hg.1, fun next hn => ih (hg.2 next hn) fun mid hmid => ?_⟩
      exact hthen mid ((run_cons hn).trans hmid)

instance decidableGuarded (step : σ → ℓ → Except ε σ) (guard : σ → ℓ → Prop)
    [∀ s l, Decidable (guard s l)] : ∀ s labels, Decidable (Guarded step guard s labels)
  | _, [] => .isTrue trivial
  | s, l :: rest =>
      match h : step s l with
      | .ok next =>
          have := decidableGuarded step guard next rest
          decidable_of_iff _ (guarded_cons h).symm
      | .error _ => decidable_of_iff _ (guarded_of_error h).symm

theorem run_append (first second : List ℓ) :
    run step s (first ++ second) = (run step s first).bind (run step · second) := by
  induction first generalizing s with
  | nil => rfl
  | cons l rest ih =>
      simp only [List.cons_append, run]
      cases step s l with
      | ok next => exact ih
      | error e => rfl

-- What holds at the start and survives every guarded step holds wherever a
-- guarded run ends.
theorem guarded_invariant {guard : σ → ℓ → Prop} {P : σ → Prop}
    (hstep : ∀ s l t, P s → guard s l → step s l = .ok t → P t)
    {labels : List ℓ} (hs : P s) (hg : Guarded step guard s labels)
    (hr : run step s labels = .ok t) : P t := by
  induction labels generalizing s with
  | nil => cases hr; exact hs
  | cons l rest ih =>
      obtain ⟨next, hn, hr⟩ := run_cons_ok hr
      exact ih (hstep s l next hs hg.1 hn) (hg.2 next hn) hr

theorem run_invariant {P : σ → Prop}
    (hstep : ∀ s l t, P s → step s l = .ok t → P t)
    {labels : List ℓ} (hs : P s) (hr : run step s labels = .ok t) : P t := by
  induction labels generalizing s with
  | nil => cases hr; exact hs
  | cons l rest ih =>
      obtain ⟨next, hn, hr⟩ := run_cons_ok hr
      exact ih (hstep s l next hs hn) hr

-- What every step keeps may also depend on the steps there have been.
theorem run_history {P : σ → List ℓ → Prop}
    (hstep : ∀ s done l t, P s done → step s l = .ok t → P t (done ++ [l]))
    {done labels : List ℓ} (hs : P s done) (hr : run step s labels = .ok t) : P t (done ++ labels) := by
  induction labels generalizing s done with
  | nil =>
      cases hr
      rwa [List.append_nil]
  | cons l rest ih =>
      obtain ⟨next, hn, hr⟩ := run_cons_ok hr
      have hall := ih (hstep s done l next hs hn) hr
      rwa [List.append_assoc, List.singleton_append] at hall

-- If every guarded step succeeds and keeps P, then so does a guarded run.
theorem guarded_total {guard : σ → ℓ → Prop} {P : σ → Prop}
    (hstep : ∀ s l, P s → guard s l → ∃ t, step s l = .ok t ∧ P t)
    {labels : List ℓ} (hs : P s) (hg : Guarded step guard s labels) :
    ∃ t, run step s labels = .ok t ∧ P t := by
  induction labels generalizing s with
  | nil => exact ⟨s, rfl, hs⟩
  | cons l rest ih =>
      obtain ⟨next, hn, hp⟩ := hstep s l hs hg.1
      obtain ⟨t, ht, hpt⟩ := ih hp (hg.2 next hn)
      exact ⟨t, by rw [run_cons hn, ht], hpt⟩

-- If a step goes wrong exactly when it misses the guard, then so does a run.
theorem run_error_iff {guard : σ → ℓ → Prop} {P : σ → Prop} {bad : ε → Prop}
    (hkeep : ∀ s l t, P s → step s l = .ok t → P t)
    (hstop : ∀ s l, P s → ((∃ e, step s l = .error e ∧ bad e) ↔ ¬guard s l))
    {labels : List ℓ} (hs : P s) :
    (∃ e, run step s labels = .error e ∧ bad e) ↔ ¬Guarded step guard s labels := by
  induction labels generalizing s with
  | nil => simp [Guarded]
  | cons l rest ih =>
      have hhead := hstop s l hs
      cases hl : step s l with
      | ok next =>
          have hmet : guard s l := by
            refine Classical.byContradiction fun hmiss => ?_
            obtain ⟨e, he, -⟩ := hhead.mpr hmiss
            rw [hl] at he
            cases he
          rw [run_cons hl, ih (hkeep s l next hs hl), guarded_cons hl]
          exact not_congr ⟨fun hg => ⟨hmet, hg⟩, And.right⟩
      | error e =>
          rw [guarded_of_error hl, ← hhead, hl]
          simp only [run, hl]

end Run

end Adb.Lib
