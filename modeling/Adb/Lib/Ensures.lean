import Mathlib.Logic.Basic

namespace Adb.Lib

section Ensures

variable {α β ε : Type}

-- A computation that may stop: what holds of its result, and of what stopped it.
def Ensures (x : Except ε α) (good : α → Prop) (bad : ε → Prop) : Prop :=
  match x with
  | .ok a => good a
  | .error e => bad e

variable {x : Except ε α} {f : α → Except ε β} {good m : α → Prop} {after : β → Prop}
  {bad : ε → Prop} {a : α} {e : ε}

@[simp] theorem ensures_ok : Ensures (.ok a : Except ε α) good bad ↔ good a := Iff.rfl

@[simp] theorem ensures_pure : Ensures (pure a : Except ε α) good bad ↔ good a := Iff.rfl

@[simp] theorem ensures_error : Ensures (.error e : Except ε α) good bad ↔ bad e := Iff.rfl

theorem Ensures.bind (hx : Ensures x m bad) (hf : ∀ a, m a → Ensures (f a) after bad) :
    Ensures (x >>= f) after bad := by
  cases x with
  | ok a => exact hf a hx
  | error e => exact hx

theorem Ensures.weaken (hx : Ensures x m bad) (h : ∀ a, m a → good a) :
    Ensures x good bad := by
  cases x with
  | ok a => exact h a hx
  | error e => exact hx

theorem Ensures.mono {W : ε → Prop} (hx : Ensures x good bad) (h : ∀ e, bad e → W e) :
    Ensures x good W := by
  cases x with
  | ok a => exact hx
  | error e => exact h e hx

theorem Ensures.and (hx : Ensures x good bad) (h : Ensures x m bad) :
    Ensures x (fun a => good a ∧ m a) bad := by
  cases x with
  | ok a => exact ⟨hx, h⟩
  | error e => exact hx

theorem Ensures.of_ok (hx : Ensures x good bad) (h : x = .ok a) : good a := by
  rw [h] at hx
  exact hx

theorem Ensures.of_error (hx : Ensures x good bad) (h : x = .error e) : bad e := by
  rw [h] at hx
  exact hx

-- What each step of a loop keeps holds at its end.
theorem Ensures.foldlM {δ : Type} {step : α → δ → Except ε α} {items : List δ}
    (hstep : ∀ a, good a → ∀ d ∈ items, Ensures (step a d) good bad) (h : good a) :
    Ensures (items.foldlM step a) good bad := by
  induction items generalizing a with
  | nil => exact h
  | cons d items ih =>
      rw [List.foldlM_cons]
      refine (hstep a h d (List.mem_cons_self ..)).bind fun b hb => ?_
      exact ih (fun a ha d hd => hstep a ha d (List.mem_cons_of_mem _ hd)) hb

-- What succeeds has gone through its first step.
theorem bind_ok {b : β} (h : x >>= f = .ok b) : ∃ a, x = .ok a ∧ f a = .ok b := by
  cases x with
  | ok a => exact ⟨a, rfl, h⟩
  | error e => cases h

-- The first step succeeds, so it is the rest that counts.
theorem ensures_bind_ok (h : x = .ok a) : Ensures (x >>= f) after bad ↔ Ensures (f a) after bad := by
  rw [h]
  rfl

end Ensures

end Adb.Lib
