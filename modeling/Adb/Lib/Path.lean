import Mathlib.Data.List.Basic
import Mathlib.Data.List.Induction
import Mathlib.Data.List.TakeDrop

namespace Adb.Lib

section Path

variable {α : Type}

-- Where a component of a path leads.
inductive Hop (α : Type) where
  | stay
  | up
  | down (name : α)
deriving DecidableEq

-- Where a path leads, as far as its text tells: some levels up from where it
-- starts, and down from there. There is nothing above a root.
structure Place (α : Type) where
  rooted : Bool
  ups : Nat
  downs : List α
deriving DecidableEq

namespace Place

def hop (p : Place α) : Hop α → Place α
  | .stay => p
  | .down name => { p with downs := p.downs ++ [name] }
  | .up =>
      match p.downs with
      | [] => if p.rooted then p else { p with ups := p.ups + 1 }
      | _ :: _ => { p with downs := p.downs.dropLast }

def walk (p : Place α) (hops : List (Hop α)) : Place α := hops.foldl hop p

-- The way on its own, from wherever it starts.
def way (hops : List (Hop α)) : Place α := (⟨false, 0, []⟩ : Place α).walk hops

def climb (p : Place α) (n : Nat) : Place α :=
  { p with
    ups := p.ups + if p.rooted then 0 else n - p.downs.length
    downs := p.downs.take (p.downs.length - n) }

def descend (p : Place α) (names : List α) : Place α := { p with downs := p.downs ++ names }

-- p is reached from base by going down, at least once.
def Below (base p : Place α) : Prop :=
  p.rooted = base.rooted ∧ p.ups = base.ups ∧ ∃ rest, rest ≠ [] ∧ p.downs = base.downs ++ rest

variable (p : Place α) {names : List α}

theorem walk_append (first second : List (Hop α)) :
    p.walk (first ++ second) = (p.walk first).walk second := by
  simp [walk]

theorem hop_up_nil (h : p.downs = []) : p.hop .up = p.climb 1 := by
  cases p with
  | mk rooted ups downs =>
      cases h
      cases rooted <;> simp [hop, climb]

theorem hop_up_ne (h : p.downs ≠ []) : p.hop .up = { p with downs := p.downs.dropLast } := by
  cases hd : p.downs with
  | nil => contradiction
  | cons name rest => simp [hop, hd]

theorem climb_succ (n : Nat) : (p.climb n).hop .up = p.climb (n + 1) := by
  by_cases h : p.downs.length ≤ n
  · have hempty : (p.climb n).downs = [] := by simp [climb, Nat.sub_eq_zero_of_le h]
    rw [hop_up_nil _ hempty]
    have hn : p.downs.length - n = 0 := by omega
    have hm : p.downs.length - (n + 1) = 0 := by omega
    cases hr : p.rooted
    · simp only [climb, hr, hn, hm, List.take_zero, List.length_nil, if_false, Bool.false_eq_true,
        Nat.sub_zero, List.take_nil, Place.mk.injEq, true_and, and_true]
      omega
    · simp [climb, hr, hn, hm]
  · have hsome : (p.climb n).downs ≠ [] := by
      intro he
      have hlen := congrArg List.length he
      simp only [climb, List.length_take, List.length_nil] at hlen
      omega
    rw [hop_up_ne _ hsome]
    have hn : n - p.downs.length = 0 := by omega
    have hm : n + 1 - p.downs.length = 0 := by omega
    have htake : (p.downs.take (p.downs.length - n)).dropLast =
        p.downs.take (p.downs.length - (n + 1)) := by
      rw [List.dropLast_eq_take, List.length_take, List.take_take]
      congr 1
      omega
    simp [climb, hn, hm, htake]

theorem hop_rooted (h : Hop α) : (p.hop h).rooted = p.rooted := by
  cases h with
  | stay => rfl
  | down name => rfl
  | up =>
      by_cases hd : p.downs = []
      · rw [hop_up_nil p hd]
        rfl
      · rw [hop_up_ne p hd]

theorem walk_rooted (hops : List (Hop α)) : (p.walk hops).rooted = p.rooted := by
  induction hops generalizing p with
  | nil => rfl
  | cons h hops ih => exact (ih (p.hop h)).trans (hop_rooted p h)

theorem way_rooted (hops : List (Hop α)) : (way hops).rooted = false :=
  walk_rooted _ hops

-- Every way is a climb, and a descent from there.
theorem walk_eq (hops : List (Hop α)) : p.walk hops = (p.climb (way hops).ups).descend (way hops).downs := by
  induction hops using List.reverseRecOn with
  | nil => simp [walk, way, climb, descend]
  | append_singleton hops h ih =>
      have hway : way (hops ++ [h]) = (way hops).hop h := by simp [way, walk]
      have hstep : p.walk (hops ++ [h]) = (p.walk hops).hop h := by simp [walk]
      rw [hstep, ih, hway]
      cases h with
      | stay => rfl
      | down name => simp [hop, descend]
      | up =>
          by_cases hd : (way hops).downs = []
          · have hclimbed : (way hops).hop .up = { way hops with ups := (way hops).ups + 1 } := by
              rw [hop_up_nil _ hd]
              simp [climb, hd, way_rooted]
            have hstay : (p.climb (way hops).ups).descend [] = p.climb (way hops).ups := by simp [descend]
            rw [hclimbed, hd, hstay, climb_succ]
            simp [descend]
          · rw [hop_up_ne _ hd]
            have hne : ((p.climb (way hops).ups).descend (way hops).downs).downs ≠ [] := by simp [descend, hd]
            rw [hop_up_ne _ hne]
            simp [descend, List.dropLast_append_of_ne_nil hd]

-- Where a way ends below the place it starts from: it climbs no higher than the
-- names on it lead down again.
theorem below_walk_iff (hops : List (Hop α)) : p.Below (p.walk hops) ↔
    (p.rooted = true ∨ (way hops).ups ≤ p.downs.length) ∧ ∃ rest, rest ≠ [] ∧
      (way hops).downs = p.downs.drop (p.downs.length - (way hops).ups) ++ rest := by
  rw [walk_eq]
  have hups : ((p.climb (way hops).ups).descend (way hops).downs).ups = p.ups ↔
      p.rooted = true ∨ (way hops).ups ≤ p.downs.length := by
    cases hr : p.rooted
    · simp only [descend, climb, hr, Bool.false_eq_true, if_false, false_or]
      omega
    · simp [descend, climb, hr]
  have hdowns : ∀ rest, p.downs.take (p.downs.length - (way hops).ups) ++ (way hops).downs = p.downs ++ rest ↔
      (way hops).downs = p.downs.drop (p.downs.length - (way hops).ups) ++ rest := by
    intro rest
    have hsplit : p.downs ++ rest = p.downs.take (p.downs.length - (way hops).ups) ++
        (p.downs.drop (p.downs.length - (way hops).ups) ++ rest) := by
      rw [← List.append_assoc, List.take_append_drop]
    rw [hsplit, List.append_cancel_left_eq]
  unfold Below
  rw [hups]
  refine ⟨?_, ?_⟩
  · rintro ⟨-, hclimb, rest, hne, hrest⟩
    exact ⟨hclimb, rest, hne, (hdowns rest).mp hrest⟩
  · rintro ⟨hclimb, rest, hne, hrest⟩
    exact ⟨rfl, hclimb, rest, hne, (hdowns rest).mpr hrest⟩

-- A way that goes down wherever it goes.
theorem way_downs {hops : List (Hop α)} (h : .up ∉ hops) :
    (way hops).ups = 0 ∧ ((way hops).downs = [] ↔ ∀ hop ∈ hops, hop = .stay) := by
  induction hops using List.reverseRecOn with
  | nil => simp [way, walk]
  | append_singleton hops hop ih =>
      rw [List.mem_append, not_or] at h
      obtain ⟨hups, hdowns⟩ := ih h.1
      have hway : way (hops ++ [hop]) = (way hops).hop hop := by simp [way, walk]
      rw [hway]
      cases hop with
      | stay => simp [Place.hop, hups, hdowns, or_imp]
      | down name => simp [Place.hop, hups]
      | up => simp at h

end Place

end Path

end Adb.Lib
