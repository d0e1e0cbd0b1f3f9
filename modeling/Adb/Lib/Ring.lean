import Mathlib.Data.List.Nodup
import Mathlib.Logic.Function.Basic

namespace Adb.Lib

-- The two pointers of the nodes of circular doubly linked lists. A node that
-- was never on a list has none.
structure Links (ρ : Type) where
  next : ρ → Option ρ
  prev : ρ → Option ρ

namespace Links

section Operations

variable {ρ : Type} [DecidableEq ρ]

def setNext (l : Links ρ) (x : ρ) (target : Option ρ) : Links ρ :=
  { l with next := Function.update l.next x target }

def setPrev (l : Links ρ) (x : ρ) (target : Option ρ) : Links ρ :=
  { l with prev := Function.update l.prev x target }

-- A head whose two pointers name the head itself.
def init (l : Links ρ) (head : ρ) : Links ρ :=
  (l.setNext head (some head)).setPrev head (some head)

-- The node comes to stand before the head. A head that was never initialised
-- has no prev to follow.
def insertTail (l : Links ρ) (head x : ρ) : Option (Links ρ) := do
  let l := l.setNext x (some head)
  let l := l.setPrev x (l.prev head)
  let l := l.setPrev head (some x)
  let last ← l.prev x
  return l.setNext last (some x)

-- The neighbours of the node are joined. The node's own pointers stay as they
-- were.
def unlink (l : Links ρ) (x : ρ) : Option (Links ρ) := do
  let n ← l.next x
  let l := l.setPrev n (l.prev x)
  let p ← l.prev x
  return l.setNext p (l.next x)

-- A node that is on no list any more.
def clear (l : Links ρ) (x : ρ) : Links ρ :=
  (l.setNext x none).setPrev x none

end Operations

section Segments

variable {ρ : Type}

-- The nodes xs lie between a and b, and both pointers of every step agree.
def Linked (l : Links ρ) (a : ρ) : List ρ → ρ → Prop
  | [], b => l.next a = some b ∧ l.prev b = some a
  | x :: xs, b => l.next a = some x ∧ l.prev x = some a ∧ Linked l x xs b

def IsRing (l : Links ρ) (head : ρ) (xs : List ρ) : Prop :=
  l.Linked head xs head ∧ (head :: xs).Nodup

variable {l m : Links ρ} {a b c p x y head : ρ} {xs ys zs : List ρ}

theorem linked_append :
    l.Linked a (xs ++ y :: ys) b ↔ l.Linked a xs y ∧ l.Linked y ys b := by
  induction xs generalizing a with
  | nil => simp only [List.nil_append, Linked, and_assoc]
  | cons x xs ih => simp only [List.cons_append, Linked, ih, and_assoc]

-- Nothing but the pointers along the way matters.
theorem Linked.congr (h : l.Linked a xs b) (hn : ∀ y ∈ a :: xs, m.next y = l.next y)
    (hp : ∀ y ∈ xs ++ [b], m.prev y = l.prev y) : m.Linked a xs b := by
  induction xs generalizing a with
  | nil => exact ⟨by rw [hn a (by simp), h.1], by rw [hp b (by simp), h.2]⟩
  | cons x xs ih =>
      refine ⟨by rw [hn a (by simp), h.1], by rw [hp x (by simp), h.2.1], ?_⟩
      exact ih h.2.2 (fun y hy => hn y (List.mem_cons_of_mem a hy))
        (fun y hy => hp y (List.mem_cons_of_mem x hy))

theorem Linked.next_mem (h : l.Linked a xs b) (hy : y ∈ a :: xs) :
    ∃ z ∈ xs ++ [b], l.next y = some z ∧ l.prev z = some y := by
  induction xs generalizing a with
  | nil =>
      rw [List.mem_singleton.mp hy]
      exact ⟨b, by simp, h⟩
  | cons x xs ih =>
      rcases List.mem_cons.mp hy with rfl | hy
      · exact ⟨x, by simp, h.1, h.2.1⟩
      · obtain ⟨z, hz, hlink⟩ := ih h.2.2 hy
        exact ⟨z, List.mem_cons_of_mem x hz, hlink⟩

theorem Linked.prev_mem (h : l.Linked a xs b) (hy : y ∈ xs ++ [b]) :
    ∃ z ∈ a :: xs, l.prev y = some z ∧ l.next z = some y := by
  induction xs generalizing a with
  | nil =>
      rw [List.mem_singleton.mp hy]
      exact ⟨a, by simp, h.2, h.1⟩
  | cons x xs ih =>
      rcases List.mem_cons.mp hy with rfl | hy
      · exact ⟨a, by simp, h.2.1, h.1⟩
      · obtain ⟨z, hz, hlink⟩ := ih h.2.2 hy
        exact ⟨z, List.mem_cons_of_mem a hz, hlink⟩

-- The node behind the first one of a segment.
theorem Linked.next_first (h : l.Linked a xs b) : l.next a = some (xs.headD b) := by
  cases xs with
  | nil => exact h.1
  | cons x xs => exact h.1

theorem IsRing.next_mem (h : l.IsRing head xs) (hy : y ∈ head :: xs) :
    ∃ z ∈ head :: xs, l.next y = some z ∧ l.prev z = some y := by
  obtain ⟨z, hz, hlink⟩ := h.1.next_mem hy
  exact ⟨z, by simpa [or_comm] using hz, hlink⟩

theorem IsRing.prev_mem (h : l.IsRing head xs) (hy : y ∈ head :: xs) :
    ∃ z ∈ head :: xs, l.prev y = some z ∧ l.next z = some y := by
  obtain ⟨z, hz, hlink⟩ := h.1.prev_mem (y := y) (by simpa [or_comm] using hy)
  exact ⟨z, hz, hlink⟩

theorem IsRing.congr (h : l.IsRing head xs) (hn : ∀ y ∈ head :: xs, m.next y = l.next y)
    (hp : ∀ y ∈ head :: xs, m.prev y = l.prev y) : m.IsRing head xs :=
  ⟨h.1.congr hn (fun y hy => hp y (by simpa [or_comm] using hy)), h.2⟩

-- The end of a segment can be moved to another node by its last two pointers.
theorem Linked.retarget (h : l.Linked a xs b) (hp : l.prev b = some p) (hnd : (a :: xs).Nodup)
    (hn : ∀ y ∈ a :: xs, y ≠ p → m.next y = l.next y) (hv : ∀ y ∈ xs, m.prev y = l.prev y)
    (hpc : m.next p = some c) (hcp : m.prev c = some p) : m.Linked a xs c := by
  induction xs generalizing a with
  | nil =>
      obtain rfl : a = p := Option.some.inj (h.2.symm.trans hp)
      exact ⟨hpc, hcp⟩
  | cons x xs ih =>
      obtain ⟨q, hq, hbq, -⟩ := h.2.2.prev_mem (y := b) (by simp)
      obtain rfl : q = p := Option.some.inj (hbq.symm.trans hp)
      have hap : a ≠ q := by
        rintro rfl
        exact (List.nodup_cons.mp hnd).1 hq
      refine ⟨by rw [hn a (by simp) hap, h.1], by rw [hv x (by simp), h.2.1], ?_⟩
      exact ih h.2.2 (List.nodup_cons.mp hnd).2 (fun y hy => hn y (List.mem_cons_of_mem a hy))
        (fun y hy => hv y (List.mem_cons_of_mem x hy))

theorem IsRing.next_ne {n : ρ} (h : l.IsRing head xs) (hx : x ∈ xs) (hn : l.next x = some n) :
    n ≠ x := by
  obtain ⟨ys, zs, rfl⟩ := List.append_of_mem hx
  obtain ⟨z, hz, hxz, -⟩ := (linked_append.mp h.1).2.next_mem (y := x) (by simp)
  obtain rfl : z = n := Option.some.inj (hxz.symm.trans hn)
  rintro rfl
  have hnd := h.2
  simp [List.nodup_append] at hnd hz
  grind

end Segments

section Rings

variable {ρ : Type} [DecidableEq ρ] {l m : Links ρ} {x y head : ρ} {xs : List ρ}

theorem isRing_init : (l.init head).IsRing head [] := by
  simp [IsRing, Linked, init, setNext, setPrev]

theorem IsRing.insertTail (h : l.IsRing head xs) (hx : x ∉ head :: xs) :
    ∃ m, l.insertTail head x = some m ∧ m.IsRing head (xs ++ [x]) ∧
      ∀ y, y ∉ head :: xs → y ≠ x → m.next y = l.next y ∧ m.prev y = l.prev y := by
  obtain ⟨last, hlast, hp, -⟩ := h.prev_mem (y := head) (by simp)
  have hxh : x ≠ head := fun he => hx (by simp [he])
  have hxl : x ≠ last := fun he => hx (he ▸ hlast)
  have hne : ∀ y ∈ xs, y ≠ x ∧ y ≠ head := by
    intro y hy
    exact ⟨fun he => hx (he ▸ List.mem_cons_of_mem head hy),
      fun he => (List.nodup_cons.mp h.2).1 (he ▸ hy)⟩
  simp only [Links.insertTail, setNext, setPrev, hp, Option.bind_eq_bind,
    Function.update_of_ne hxh, Function.update_self, Option.bind_some]
  refine ⟨_, rfl, ⟨linked_append.mpr ⟨h.1.retarget hp h.2 ?_ ?_ ?_ ?_, ?_⟩, ?_⟩, ?_⟩
  · intro y hy hyl
    have hyx : y ≠ x := fun he => hx (he ▸ hy)
    simp [Function.update_of_ne hyl, Function.update_of_ne hyx]
  · intro y hy
    simp [Function.update_of_ne (hne y hy).1, Function.update_of_ne (hne y hy).2]
  · simp
  · simp [Function.update_of_ne hxh]
  · simp [Linked, Function.update_of_ne hxl]
  · have hnd : (head :: xs ++ x :: []).Nodup :=
      List.nodup_middle.mpr (List.nodup_cons.mpr ⟨by simpa using hx, by simpa using h.2⟩)
    simpa using hnd
  · intro y hy hyx
    have hyl : y ≠ last := fun he => hy (he ▸ hlast)
    have hyh : y ≠ head := fun he => hy (by simp [he])
    simp [Function.update_of_ne hyl, Function.update_of_ne hyx, Function.update_of_ne hyh]

-- A member of the ring leaves it; the order of the others stays.
theorem IsRing.unlink (h : l.IsRing head xs) (hx : x ∈ xs) :
    ∃ m, l.unlink x = some m ∧ m.IsRing head (xs.erase x) ∧
      (m.next x = l.next x ∧ m.prev x = l.prev x) ∧
      ∀ y, y ∉ head :: xs → m.next y = l.next y ∧ m.prev y = l.prev y := by
  obtain ⟨ys, zs, rfl⟩ := List.append_of_mem hx
  have hnd := h.2
  have hxys : x ∉ ys := by
    intro hm
    simp [List.nodup_append] at hnd
    exact absurd rfl (hnd.2.2.2 x hm).1
  obtain ⟨hfirst, hsecond⟩ := linked_append.mp h.1
  obtain ⟨p, hpm, hpx, hnp⟩ := hfirst.prev_mem (y := x) (by simp)
  obtain ⟨n, hnm, hnx, hpn⟩ := hsecond.next_mem (y := x) (by simp)
  have hnx' : x ≠ n := (h.next_ne hx hnx).symm
  have hpx' : x ≠ p := by
    rintro rfl
    simp [List.nodup_append] at hnd hpm
    grind
  have herase : (ys ++ x :: zs).erase x = ys ++ zs := by
    rw [List.erase_append_right _ hxys, List.erase_cons_head]
  have hsub : (head :: (ys ++ zs)).Nodup := by
    rw [← herase]
    exact List.Nodup.sublist (List.Sublist.cons_cons head List.erase_sublist) hnd
  simp only [Links.unlink, hnx, setPrev, setNext, Option.bind_eq_bind, Option.bind_some,
    Function.update_of_ne hnx', hpx]
  refine ⟨_, rfl, ?_, ⟨by simp [Function.update_of_ne hpx', hnx],
    by simp [Function.update_of_ne hnx', hpx]⟩, ?_⟩
  · rw [herase]
    refine ⟨?_, hsub⟩
    have hhead : ∀ y ∈ ys, y ≠ n := by
      rintro y hy rfl
      simp [List.nodup_append] at hnd hnm
      grind
    have hretarget : ∀ y ∈ head :: ys, y ≠ p →
        Function.update l.next p (some n) y = l.next y :=
      fun y _ hy => Function.update_of_ne hy _ _
    have hnodup : (head :: ys).Nodup := by
      refine List.Nodup.sublist ?_ hnd
      simp
    cases zs with
    | nil =>
        obtain rfl : n = head := by simpa using hnm
        rw [List.append_nil]
        exact hfirst.retarget hpx hnodup hretarget
          (fun y hy => Function.update_of_ne (hhead y hy) _ _) (by simp) (by simp)
    | cons z zs =>
        obtain rfl : n = z := Option.some.inj (hnx.symm.trans hsecond.1)
        refine linked_append.mpr ⟨hfirst.retarget hpx hnodup hretarget
          (fun y hy => Function.update_of_ne (hhead y hy) _ _) (by simp) (by simp), ?_⟩
        refine hsecond.2.2.congr (fun y hy => Function.update_of_ne ?_ _ _)
          (fun y hy => Function.update_of_ne ?_ _ _)
        · rintro rfl
          simp [List.nodup_append] at hnd hpm hy
          grind
        · rintro rfl
          simp [List.nodup_append] at hnd hy
          grind
  · intro y hy
    have hyp : y ≠ p := by
      rintro rfl
      simp at hy hpm
      grind
    have hyn : y ≠ n := by
      rintro rfl
      simp at hy hnm
      grind
    simp [Function.update_of_ne hyp, Function.update_of_ne hyn]

theorem unlink_of_some {n p : ρ} (hn : l.next x = some n) (hp : l.prev x = some p) :
    l.unlink x =
      some ⟨Function.update l.next p (some n), Function.update l.prev n (some p)⟩ := by
  by_cases hnx : x = n
  · subst hnx
    simp [Links.unlink, setPrev, setNext, hn, hp]
  · simp [Links.unlink, setPrev, setNext, hn, hp, Function.update_of_ne hnx]

theorem IsRing.clear (h : l.IsRing head xs) (hx : x ∉ head :: xs) : (l.clear x).IsRing head xs := by
  refine h.congr ?_ ?_
  · intro y hy
    have hyx : y ≠ x := fun he => hx (he ▸ hy)
    simp [Links.clear, setNext, setPrev, Function.update_of_ne hyx]
  · intro y hy
    have hyx : y ≠ x := fun he => hx (he ▸ hy)
    simp [Links.clear, setNext, setPrev, Function.update_of_ne hyx]

-- A member that leaves the ring with its own pointers cleared.
theorem IsRing.detach (h : l.IsRing head xs) (hx : x ∈ xs) :
    ∃ n p, l.next x = some n ∧ l.prev x = some p ∧
      (Links.clear ⟨Function.update l.next p (some n), Function.update l.prev n (some p)⟩ x).IsRing
        head (xs.erase x) := by
  obtain ⟨n, -, hn, -⟩ := h.next_mem (List.mem_cons_of_mem head hx)
  obtain ⟨p, -, hp, -⟩ := h.prev_mem (List.mem_cons_of_mem head hx)
  obtain ⟨m, hm, hring, -⟩ := h.unlink hx
  rw [unlink_of_some hn hp, Option.some.injEq] at hm
  refine ⟨n, p, hn, hp, ?_⟩
  rw [hm]
  refine hring.clear fun hmem => ?_
  have hnd := List.nodup_cons.mp h.2
  rcases List.mem_cons.mp hmem with rfl | hmem
  · exact hnd.1 hx
  · exact (hnd.2.mem_erase_iff.mp hmem).1 rfl

-- What unlinking a node once more, outside the ring, must find: each of the two
-- pointers it writes is outside the ring as well or has that value already.
def UnlinkHarmless (l : Links ρ) (onRing : ρ → Prop) (n p : ρ) : Prop :=
  (onRing p → l.next p = some n) ∧ (onRing n → l.prev n = some p)

theorem IsRing.unlink_outside {n p : ρ} (h : l.IsRing head xs) (hn : l.next x = some n)
    (hp : l.prev x = some p) (hsafe : l.UnlinkHarmless (· ∈ head :: xs) n p) :
    ∃ m, l.unlink x = some m ∧ m.IsRing head xs := by
  refine ⟨_, unlink_of_some hn hp, h.congr ?_ ?_⟩
  · intro y hy
    by_cases hyp : y = p
    · subst hyp
      simp [hsafe.1 hy]
    · simp [Function.update_of_ne hyp]
  · intro y hy
    by_cases hyn : y = n
    · subst hyn
      simp [hsafe.2 hy]
    · simp [Function.update_of_ne hyn]

-- Anything else breaks it: the node that lost its neighbour is no longer
-- reached from it.
theorem IsRing.unlink_outside_only {n p : ρ} {ys : List ρ} (h : l.IsRing head xs)
    (hn : l.next x = some n) (hp : l.prev x = some p) (hu : l.unlink x = some m)
    (hm : m.IsRing head ys) (hys : ∀ y, y ∈ head :: ys ↔ y ∈ head :: xs) :
    l.UnlinkHarmless (· ∈ head :: xs) n p := by
  obtain rfl := Option.some.inj ((unlink_of_some hn hp).symm.trans hu)
  have hnext : p ∈ head :: xs → l.next p = some n := by
    intro hpm
    obtain ⟨q, hq, hpq, hqp⟩ := h.next_mem hpm
    by_cases hqn : q = n
    · rw [hpq, hqn]
    · obtain ⟨z, -, hzq, hz⟩ := hm.prev_mem ((hys q).mpr hq)
      simp only [Function.update_of_ne hqn, hqp, Option.some.injEq] at hzq
      subst hzq
      simp only [Function.update_self, Option.some.injEq] at hz
      exact absurd hz.symm hqn
  refine ⟨hnext, fun hnm => ?_⟩
  obtain ⟨z, hz, hzn, -⟩ := hm.prev_mem ((hys n).mpr hnm)
  simp only [Function.update_self, Option.some.injEq] at hzn
  subst hzn
  obtain ⟨q, -, hpq, hqp⟩ := h.next_mem ((hys p).mp hz)
  rw [hnext ((hys p).mp hz), Option.some.injEq] at hpq
  rw [hpq, hqp]

end Rings

end Links

end Adb.Lib
