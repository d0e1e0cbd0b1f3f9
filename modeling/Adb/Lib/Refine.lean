import Mathlib.Data.List.Basic

namespace Adb.Lib

section Answers

variable {σ τ κ ι α ε δ : Type}

-- The answers of a machine to a list of calls, one after the other. The first
-- call that fails ends it.
def answers (serve : σ → κ → Except ε (α × σ)) : σ → List κ → Except ε (List α × σ)
  | s, [] => .ok ([], s)
  | s, call :: rest => do
      let (answer, s) ← serve s call
      let (answers, s) ← answers serve s rest
      return (answer :: answers, s)

-- One call of the machine against the specification: the same answer and
-- related states, or the corresponding failure.
def Agrees (rel : σ → τ → Prop) (fault : δ → ε) :
    Except ε (α × σ) → Except δ (α × τ) → Prop
  | result, .ok (answer, t) => ∃ s, result = .ok (answer, s) ∧ rel s t
  | result, .error e => result = .error (fault e)

-- A machine that agrees with its specification on each call agrees with it on
-- every list of calls.
theorem answers_agree {rel : σ → τ → Prop} {fault : δ → ε} {request : κ → ι}
    {serve : σ → κ → Except ε (α × σ)} {spec : τ → ι → Except δ (α × τ)}
    (hstep : ∀ s t call, rel s t → Agrees rel fault (serve s call) (spec t (request call)))
    {s : σ} {t : τ} (h : rel s t) (calls : List κ) :
    Agrees rel fault (answers serve s calls) (answers spec t (calls.map request)) := by
  induction calls generalizing s t with
  | nil => exact ⟨s, rfl, h⟩
  | cons call rest ih =>
      have hcall := hstep s t call h
      simp only [List.map_cons, answers]
      cases hs : spec t (request call) with
      | error e =>
          rw [hs] at hcall
          simp only [Agrees] at hcall
          simp only [hcall, bind, Except.bind, Agrees]
      | ok served =>
          rw [hs] at hcall
          obtain ⟨middle, he, hm⟩ := hcall
          have hrest := ih hm
          simp only [he, bind, Except.bind]
          cases ha : answers spec served.2 (rest.map request) with
          | error e =>
              rw [ha] at hrest
              simp only [Agrees] at hrest
              simp only [hrest, Agrees]
          | ok answered =>
              rw [ha] at hrest
              obtain ⟨after, hr, hafter⟩ := hrest
              simp only [hr]
              exact ⟨after, rfl, hafter⟩

end Answers

section Erasure

variable {α β γ δ ε : Type} {r : α → β} {x : Except ε α} {y : Except ε β} {f : α → Except ε γ}

-- A computation that keeps books besides: without them it is the other one.
def Erases (r : α → β) (x : Except ε α) (y : Except ε β) : Prop := x.map r = y

theorem Erases.bind {r' : γ → δ} {g : β → Except ε δ} (h : Erases r x y)
    (hf : ∀ a, Erases r' (f a) (g (r a))) : Erases r' (x >>= f) (y >>= g) := by
  cases x with
  | ok a =>
      cases h
      exact hf a
  | error e =>
      cases h
      rfl

-- A first step that the books do not enter into.
theorem erases_bind {r' : γ → δ} {g : α → Except ε δ} (hf : ∀ a, Erases r' (f a) (g a)) :
    Erases r' (x >>= f) (x >>= g) := by
  cases x with
  | ok a => exact hf a
  | error e => rfl

end Erasure

end Adb.Lib
