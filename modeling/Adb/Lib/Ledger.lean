import Mathlib.Algebra.BigOperators.Group.Finset.Basic
import Mathlib.Data.Finset.Basic

namespace Adb.Lib

section Ledger

variable {ι : Type}

-- Where the tokens of an allocator are: some are released, some are handed over
-- for good, and some are kept in the queue of an owner. The rest is in the hands
-- of whoever runs, or lost.
structure Ledger (ι : Type) where
  queue : ι → List Nat
  freed : List Nat
  handed : List Nat
  next : Nat

namespace Ledger

inductive Place (ι : Type) where
  | freed
  | handed
  | queue (a : ι)

variable {l mid l' : Ledger ι} {p q : Nat} {a : ι} {x : Place ι}

def tokens (l : Ledger ι) : Place ι → List Nat
  | .freed => l.freed
  | .handed => l.handed
  | .queue a => l.queue a

def Nowhere (l : Ledger ι) (p : Nat) : Prop := ∀ x, (l.tokens x).count p = 0

-- Once in one place, and in no other.
def Only (l : Ledger ι) (p : Nat) (x : Place ι) : Prop :=
  (l.tokens x).count p = 1 ∧ ∀ y, y ≠ x → (l.tokens y).count p = 0

def Settled (l : Ledger ι) (p : Nat) : Prop := ∃ x, l.Only p x

theorem Nowhere.not_settled (h : l.Nowhere p) : ¬l.Settled p := by
  rintro ⟨x, hx, -⟩
  have hnone := h x
  omega

-- A new token.
def fresh (l : Ledger ι) : Ledger ι := { l with next := l.next + 1 }

def release (l : Ledger ι) (ps : List Nat) : Ledger ι := { l with freed := l.freed ++ ps }

def hand (l : Ledger ι) (p : Nat) : Ledger ι := { l with handed := l.handed ++ [p] }

@[simp] theorem fresh_tokens : l.fresh.tokens x = l.tokens x := by cases x <;> rfl

@[simp] theorem fresh_next : l.fresh.next = l.next + 1 := rfl

@[simp] theorem fresh_queue : l.fresh.queue = l.queue := rfl

@[simp] theorem release_queue {ps : List Nat} : (l.release ps).queue = l.queue := rfl

@[simp] theorem release_next {ps : List Nat} : (l.release ps).next = l.next := rfl

@[simp] theorem release_nil : l.release [] = l := by simp [release]

@[simp] theorem hand_queue : (l.hand p).queue = l.queue := rfl

@[simp] theorem hand_next : (l.hand p).next = l.next := rfl

section Owners

def keep [DecidableEq ι] (l : Ledger ι) (a : ι) (p : Nat) : Ledger ι :=
  { l with queue := Function.update l.queue a (l.queue a ++ [p]) }

-- The queue goes with its owner, and what is still in it is lost.
def drop [DecidableEq ι] (l : Ledger ι) (a : ι) : Ledger ι := { l with queue := Function.update l.queue a [] }

@[simp] theorem keep_next [DecidableEq ι] : (l.keep a p).next = l.next := rfl

@[simp] theorem drop_next [DecidableEq ι] : (l.drop a).next = l.next := rfl

-- The tokens that one place gets, the others being left alone.
structure Gains (l : Ledger ι) (x : Place ι) (p : Nat) (l' : Ledger ι) : Prop where
  there : l'.tokens x = l.tokens x ++ [p]
  others : ∀ y, y ≠ x → l'.tokens y = l.tokens y
  next : l'.next = l.next

theorem gains_release : l.Gains .freed p (l.release [p]) where
  there := rfl
  others y hy := by cases y <;> first | rfl | exact absurd rfl hy
  next := rfl

theorem gains_hand : l.Gains .handed p (l.hand p) where
  there := rfl
  others y hy := by cases y <;> first | rfl | exact absurd rfl hy
  next := rfl

theorem gains_keep [DecidableEq ι] : l.Gains (.queue a) p (l.keep a p) where
  there := by simp [tokens, keep]
  others y hy := by
    cases y with
    | queue b =>
        have hb : b ≠ a := fun heq => hy (heq ▸ rfl)
        simp [tokens, keep, hb]
    | _ => rfl
  next := rfl

-- A token that was in nobody's place is in one.
theorem Gains.only (h : l.Gains x p l') (hp : l.Nowhere p) : l'.Only p x := by
  refine ⟨?_, ?_⟩
  · rw [h.there, List.count_append, hp x]
    simp
  · intro y hy
    rw [h.others y hy]
    exact hp y

theorem Gains.same (h : l.Gains x p l') (hq : q ≠ p) (y : Place ι) :
    (l'.tokens y).count q = (l.tokens y).count q := by
  by_cases hy : y = x
  · rw [hy, h.there, List.count_append, List.count_singleton]
    simp [hq.symm]
  · rw [h.others y hy]

end Owners

section Keeps

-- Whatever token had its place has one still.
structure Keeps (l l' : Ledger ι) : Prop where
  next : l.next ≤ l'.next
  settled : ∀ q, q < l.next → l.Settled q → l'.Settled q

-- The same of all tokens but one.
structure KeepsBut (p : Nat) (l l' : Ledger ι) : Prop where
  next : l.next ≤ l'.next
  settled : ∀ q, q < l.next → q ≠ p → l.Settled q → l'.Settled q

theorem Keeps.refl (l : Ledger ι) : l.Keeps l := ⟨Nat.le_refl _, fun _ _ h => h⟩

theorem Keeps.trans (h : l.Keeps mid) (h' : mid.Keeps l') : l.Keeps l' where
  next := Nat.le_trans h.next h'.next
  settled q hq hs := h'.settled q (Nat.lt_of_lt_of_le hq h.next) (h.settled q hq hs)

theorem Keeps.but (h : l.Keeps l') (p : Nat) : l.KeepsBut p l' :=
  ⟨h.next, fun q hq _ hs => h.settled q hq hs⟩

theorem KeepsBut.trans (h : l.KeepsBut p mid) (h' : mid.Keeps l') : l.KeepsBut p l' where
  next := Nat.le_trans h.next h'.next
  settled q hq hp hs := h'.settled q (Nat.lt_of_lt_of_le hq h.next) (h.settled q hq hp hs)

-- A new token is none of those there have been.
theorem KeepsBut.of_fresh (h : l.fresh.KeepsBut l.next l') : l.Keeps l' where
  next := Nat.le_trans (Nat.le_succ _) h.next
  settled q hq hs := by
    refine h.settled q (Nat.lt_succ_of_lt hq) (Nat.ne_of_lt hq) ?_
    simpa [Settled, Only] using hs

theorem Gains.keepsBut (h : l.Gains x p l') : l.KeepsBut p l' where
  next := Nat.le_of_eq h.next.symm
  settled q _ hp := by
    rintro ⟨y, hy, hothers⟩
    refine ⟨y, ?_, ?_⟩
    · rw [h.same hp]
      exact hy
    · intro z hz
      rw [h.same hp]
      exact hothers z hz

end Keeps

section Drains

variable {gone more : Finset ι}

-- What some owners leave when they go: the tokens of their queues are released,
-- and nothing else happens to the tokens there were.
structure Drains (l : Ledger ι) (gone : Finset ι) (l' : Ledger ι) : Prop where
  next : l.next ≤ l'.next
  emptied : ∀ a, a ∈ gone → l'.queue a = []
  kept : ∀ a, a ∉ gone → l'.queue a = l.queue a
  freed : ∀ p, l'.freed.count p = l.freed.count p + ∑ a ∈ gone, (l.queue a).count p
  handed : ∀ p, p < l.next → l'.handed.count p = l.handed.count p

theorem Drains.refl (l : Ledger ι) : l.Drains ∅ l where
  next := Nat.le_refl _
  emptied := by simp
  kept _ _ := rfl
  freed := by simp
  handed _ _ := rfl

theorem Drains.trans [DecidableEq ι] (h : l.Drains gone mid) (h' : mid.Drains more l') :
    l.Drains (gone ∪ more) l' where
  next := Nat.le_trans h.next h'.next
  emptied a ha := by
    by_cases hmore : a ∈ more
    · exact h'.emptied a hmore
    · rw [h'.kept a hmore]
      exact h.emptied a ((Finset.mem_union.mp ha).resolve_right hmore)
  kept a ha := by
    rw [Finset.mem_union, not_or] at ha
    rw [h'.kept a ha.2, h.kept a ha.1]
  freed p := by
    -- what went before has nothing left to release
    have hmore : ∑ a ∈ more, (mid.queue a).count p = ∑ a ∈ more \ gone, (l.queue a).count p := by
      rw [← Finset.sum_subset Finset.sdiff_subset]
      · refine Finset.sum_congr rfl fun a ha => ?_
        rw [h.kept a (Finset.mem_sdiff.mp ha).2]
      · intro a ha hrest
        have hgone : a ∈ gone := by
          by_contra hgone
          exact hrest (Finset.mem_sdiff.mpr ⟨ha, hgone⟩)
        rw [h.emptied a hgone, List.count_nil]
    rw [h'.freed, h.freed, hmore, ← Finset.union_sdiff_self_eq_union,
      Finset.sum_union Finset.disjoint_sdiff, Nat.add_assoc]
  handed p hp := by
    rw [h'.handed p (Nat.lt_of_lt_of_le hp h.next), h.handed p hp]

-- An owner whose queue is released first, whatever goes before it does itself.
theorem Drains.drop [DecidableEq ι] (h : (l.release (l.queue a)).Drains gone l') (ha : a ∉ gone) :
    l.Drains (insert a gone) (l'.drop a) where
  next := h.next
  emptied b hb := by
    by_cases hba : b = a
    · simp [Ledger.drop, hba]
    · have hgone : b ∈ gone := (Finset.mem_insert.mp hb).resolve_left hba
      simpa [Ledger.drop, hba] using h.emptied b hgone
  kept b hb := by
    rw [Finset.mem_insert, not_or] at hb
    simpa [Ledger.drop, hb.1] using h.kept b hb.2
  freed p := by
    have hfreed := h.freed p
    simp only [release, List.count_append] at hfreed
    simp only [Ledger.drop, Finset.sum_insert ha, hfreed]
    omega
  handed p hp := h.handed p hp

theorem Drains.of_fresh (h : l.fresh.Drains gone l') : l.Drains gone l' where
  next := Nat.le_trans (Nat.le_succ _) h.next
  emptied := h.emptied
  kept := h.kept
  freed := h.freed
  handed p hp := h.handed p (Nat.lt_succ_of_lt hp)

-- A new token is handed over in the end.
theorem Drains.hand (h : l.fresh.Drains gone l') : l.Drains gone (l'.hand l.next) where
  next := h.of_fresh.next
  emptied := h.emptied
  kept := h.kept
  freed := h.freed
  handed p hp := by
    have hne : l.next ≠ p := (Nat.ne_of_lt hp).symm
    simp [Ledger.hand, h.of_fresh.handed p hp, hne]

theorem Drains.nowhere (h : l.Drains gone l') (hp : p < l.next) (hnone : l.Nowhere p) :
    l'.Nowhere p := by
  intro x
  cases x with
  | freed =>
      have hqueues : ∑ a ∈ gone, (l.queue a).count p = 0 :=
        Finset.sum_eq_zero fun a _ => hnone (.queue a)
      have hfreed : l.freed.count p = 0 := hnone .freed
      simp [tokens, h.freed, hfreed, hqueues]
  | handed =>
      rw [tokens, h.handed p hp]
      exact hnone .handed
  | queue a =>
      by_cases ha : a ∈ gone
      · simp [tokens, h.emptied a ha]
      · rw [tokens, h.kept a ha]
        exact hnone (.queue a)

-- The queues of those that stay have no more of it than before.
theorem Drains.absent (h : l.Drains gone l') (ha : a ∈ gone ∨ (l.queue a).count p = 0) :
    (l'.queue a).count p = 0 := by
  by_cases hgone : a ∈ gone
  · rw [h.emptied a hgone, List.count_nil]
  · rw [h.kept a hgone]
    exact ha.resolve_left hgone

theorem Drains.settled (h : l.Drains gone l') (hp : p < l.next) (hs : l.Settled p) :
    l'.Settled p := by
  obtain ⟨x, hx, hothers⟩ := hs
  have hhanded : l'.handed.count p = l.handed.count p := h.handed p hp
  cases x with
  | freed =>
      have hqueue : ∀ a, (l.queue a).count p = 0 := fun a => hothers (.queue a) (by simp)
      refine ⟨.freed, ?_, ?_⟩
      · rw [tokens, h.freed, Finset.sum_eq_zero fun a _ => hqueue a]
        exact hx
      · intro y hy
        cases y with
        | freed => exact absurd rfl hy
        | handed => exact hhanded.trans (hothers .handed (by simp))
        | queue a => exact h.absent (Or.inr (hqueue a))
  | handed =>
      have hqueue : ∀ a, (l.queue a).count p = 0 := fun a => hothers (.queue a) (by simp)
      refine ⟨.handed, hhanded.trans hx, ?_⟩
      intro y hy
      cases y with
      | freed =>
          rw [tokens, h.freed, Finset.sum_eq_zero fun a _ => hqueue a]
          exact hothers .freed (by simp)
      | handed => exact absurd rfl hy
      | queue a => exact h.absent (Or.inr (hqueue a))
  | queue b =>
      have hqueue : ∀ a, a ≠ b → (l.queue a).count p = 0 :=
        fun a hab => hothers (.queue a) (by simpa using hab)
      have hfreed : l.freed.count p = 0 := hothers .freed (by simp)
      have hnone : l'.handed.count p = 0 := hhanded.trans (hothers .handed (by simp))
      by_cases hb : b ∈ gone
      · -- it was in the queue of one that goes
        have hsum : ∑ a ∈ gone, (l.queue a).count p = 1 := by
          rw [Finset.sum_eq_single_of_mem b hb fun a _ hab => hqueue a hab]
          exact hx
        refine ⟨.freed, by rw [tokens, h.freed, hfreed, hsum], ?_⟩
        intro y hy
        cases y with
        | freed => exact absurd rfl hy
        | handed => exact hnone
        | queue a =>
            by_cases hab : a = b
            · exact h.absent (Or.inl (hab ▸ hb))
            · exact h.absent (Or.inr (hqueue a hab))
      · have hsum : ∑ a ∈ gone, (l.queue a).count p = 0 :=
          Finset.sum_eq_zero fun a ha => hqueue a fun hab => hb (hab ▸ ha)
        refine ⟨.queue b, ?_, ?_⟩
        · rw [tokens, h.kept b hb]
          exact hx
        · intro y hy
          cases y with
          | freed => rw [tokens, h.freed, hfreed, hsum]
          | handed => exact hnone
          | queue a => exact h.absent (Or.inr (hqueue a fun hab => hy (hab ▸ rfl)))

theorem Drains.keeps (h : l.Drains gone l') : l.Keeps l' :=
  ⟨h.next, fun _ hq hs => h.settled hq hs⟩

end Drains

end Ledger

end Ledger

end Adb.Lib
