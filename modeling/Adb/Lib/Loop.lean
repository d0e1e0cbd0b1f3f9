import Mathlib.Logic.Relation

namespace Adb.Lib

section Loop

variable {σ ε α : Type}

-- A loop: each turn goes on in another state, or leaves with a result. none: not at
-- its end yet.
def loop (turn : σ → Except ε (σ ⊕ α)) : Nat → σ → Option (Except ε α)
  | 0, _ => none
  | fuel + 1, s =>
      match turn s with
      | .error e => some (.error e)
      | .ok (.inl next) => loop turn fuel next
      | .ok (.inr result) => some (.ok result)

-- The states that a loop comes to.
def ComesTo (turn : σ → Except ε (σ ⊕ α)) : σ → σ → Prop :=
  Relation.ReflTransGen fun s next => turn s = .ok (.inl next)

variable {turn : σ → Except ε (σ ⊕ α)} {s t : σ} {result : α} {fuel : Nat}

theorem loop_succ (h : turn s = .ok (.inl t)) : loop turn (fuel + 1) s = loop turn fuel t := by
  simp only [loop, h]

theorem loop_leaves (h : turn s = .ok (.inr result)) : loop turn (fuel + 1) s = some (.ok result) := by
  simp only [loop, h]

-- A turn that leads back to where it began is taken over and over.
theorem loop_stalls (h : turn s = .ok (.inl s)) : loop turn fuel s = none := by
  induction fuel with
  | zero => rfl
  | succ fuel ih => rw [loop_succ h, ih]

-- More turns than a loop takes change nothing.
theorem loop_more {r : Except ε α} (h : loop turn fuel s = some r) (more : Nat) :
    loop turn (fuel + more) s = some r := by
  induction fuel generalizing s with
  | zero => cases h
  | succ fuel ih =>
      rw [Nat.add_right_comm]
      simp only [loop] at h ⊢
      cases hturn : turn s with
      | error e =>
          rw [hturn] at h
          exact h
      | ok r =>
          cases r with
          | inl next =>
              rw [hturn] at h
              exact ih h
          | inr result =>
              rw [hturn] at h
              exact h

theorem loop_unique {r r' : Except ε α} {fuel' : Nat} (h : loop turn fuel s = some r)
    (h' : loop turn fuel' s = some r') : r = r' := by
  have hmore := loop_more h fuel'
  rw [Nat.add_comm, loop_more h' fuel] at hmore
  exact (Option.some.inj hmore).symm

-- What comes of a computation, once it is given fuel enough.
def Ends (run : Nat → Option (Except ε α)) (r : Except ε α) : Prop :=
  ∃ enough, ∀ fuel, enough ≤ fuel → run fuel = some r

theorem Ends.unique {run : Nat → Option (Except ε α)} {r r' : Except ε α} (h : Ends run r) (h' : Ends run r') :
    r = r' := by
  obtain ⟨enough, hrun⟩ := h
  obtain ⟨enough', hrun'⟩ := h'
  exact Option.some.inj ((hrun (enough + enough') (by omega)).symm.trans (hrun' (enough + enough') (by omega)))

section Bind

variable {β : Type} {a : α} {r : Except ε β}

-- Where one step of such a computation comes to a value, the next goes on from it.
theorem mk_bind {step : Option (Except ε α)} (h : step = some (.ok a)) (next : α → ExceptT ε Option β) :
    ExceptT.mk step >>= next = next a := by
  subst h
  rfl

theorem lift_bind {step : Except ε α} (h : step = .ok a) (next : α → ExceptT ε Option β) :
    liftM step >>= next = next a := by
  subst h
  rfl

theorem Ends.mk_bind {step : Nat → Option (Except ε α)} {next : Nat → α → ExceptT ε Option β} (h : Ends step (.ok a))
    (hnext : Ends (fun fuel => next fuel a) r) :
    Ends (fun fuel => (ExceptT.mk (step fuel) >>= next fuel : ExceptT ε Option β)) r := by
  obtain ⟨enough, hstep⟩ := h
  obtain ⟨enough', hnext⟩ := hnext
  refine ⟨enough + enough', fun fuel hle => ?_⟩
  exact (Adb.Lib.mk_bind (hstep fuel (by omega)) (next fuel)).trans (hnext fuel (by omega))

theorem Ends.lift_bind {step : Except ε α} {next : Nat → α → ExceptT ε Option β} (h : step = .ok a)
    (hnext : Ends (fun fuel => next fuel a) r) :
    Ends (fun fuel => (liftM step >>= next fuel : ExceptT ε Option β)) r := by
  subst h
  exact hnext

theorem ends_pure (b : β) : Ends (fun _ => (pure b : ExceptT ε Option β)) (.ok b) := ⟨0, fun _ _ => rfl⟩

end Bind

theorem ends_loop {r : Except ε α} (h : loop turn fuel s = some r) : Ends (loop turn · s) r := by
  refine ⟨fuel, fun more hmore => ?_⟩
  obtain ⟨extra, rfl⟩ := Nat.exists_eq_add_of_le hmore
  exact loop_more h extra

-- What ends well goes on well from every state that it comes to.
theorem loop_comesTo (hloop : loop turn fuel s = some (.ok result)) (hcomes : ComesTo turn s t) :
    ∃ left, loop turn left t = some (.ok result) := by
  induction hcomes with
  | refl => exact ⟨fuel, hloop⟩
  | tail _ hturn ih =>
      obtain ⟨left, hleft⟩ := ih
      cases left with
      | zero => cases hleft
      | succ left => exact ⟨left, by rwa [loop_succ hturn] at hleft⟩

theorem loop_turn (hloop : loop turn fuel s = some (.ok result)) :
    (∃ r, turn s = .ok r) ∧ turn s ≠ .ok (.inl s) := by
  refine ⟨?_, fun hstall => ?_⟩
  · cases fuel with
    | zero => cases hloop
    | succ fuel =>
        cases hturn : turn s with
        | ok r => exact ⟨r, rfl⟩
        | error e =>
            simp only [loop, hturn] at hloop
            cases hloop
  · rw [loop_stalls hstall] at hloop
    cases hloop

-- The turn that a loop ends with.
theorem loop_ends {r : Except ε α} (h : loop turn fuel s = some r) :
    ∃ t, ComesTo turn s t ∧ turn t = r.map .inr := by
  induction fuel generalizing s with
  | zero => cases h
  | succ fuel ih =>
      simp only [loop] at h
      split at h
      · cases h
        exact ⟨s, Relation.ReflTransGen.refl, ‹_›⟩
      · obtain ⟨t, hcomes, hturn⟩ := ih h
        exact ⟨t, Relation.ReflTransGen.head ‹_› hcomes, hturn⟩
      · cases h
        exact ⟨s, Relation.ReflTransGen.refl, ‹_›⟩

-- A loop whose turns stand still or get on comes to a good end exactly where no turn
-- fails or stands still.
theorem loop_ok_iff (rank : σ → Nat) (hrank : ∀ s t, turn s = .ok (.inl t) → t = s ∨ rank t < rank s) :
    (∃ fuel result, loop turn fuel s = some (.ok result)) ↔
      ∀ t, ComesTo turn s t → (∃ r, turn t = .ok r) ∧ turn t ≠ .ok (.inl t) := by
  constructor
  · intro ⟨fuel, result, hloop⟩ t hcomes
    obtain ⟨left, hleft⟩ := loop_comesTo hloop hcomes
    exact loop_turn hleft
  · intro h
    induction hn : rank s using Nat.strongRecOn generalizing s with
    | _ n ih =>
        obtain ⟨⟨r, hturn⟩, hmoves⟩ := h s Relation.ReflTransGen.refl
        cases r with
        | inr result => exact ⟨1, result, loop_leaves hturn⟩
        | inl next =>
            have hless : rank next < n := by
              obtain rfl | hless := hrank s next hturn
              · exact absurd hturn hmoves
              · omega
            obtain ⟨fuel, result, hloop⟩ := ih (rank next) hless
              (fun t hcomes => h t (Relation.ReflTransGen.head hturn hcomes)) rfl
            exact ⟨fuel + 1, result, by rw [loop_succ hturn, hloop]⟩

end Loop

end Adb.Lib
