import Mathlib.Data.List.Infix

namespace Adb.Lib

-- A party that takes one turn after another and adds to what it has said. The
-- turn says whether there is another one.
structure Speaker (σ β : Type) where
  turn : σ → Bool × σ
  said : σ → List β
  adds : ∀ s, said s <+: said (turn s).2

namespace Speaker

section Hears

variable {σ β : Type} (m : Speaker σ β)

def turns : Nat → σ → σ
  | 0, s => s
  | n + 1, s =>
      match m.turn s with
      | (true, t) => turns n t
      | (false, t) => t

-- What comes to the other side, from the start on, of what is said in n turns.
def Hears (n : Nat) (s : σ) (heard : List β) : Prop := m.said s ++ heard <+: m.said (m.turns n s)

variable {m} {n : Nat} {s t : σ} {heard : List β}

theorem turns_succ (h : m.turn s = (true, t)) : m.turns (n + 1) s = m.turns n t := by
  rw [turns, h]

theorem said_turns (n : Nat) (s : σ) : m.said s <+: m.said (m.turns n s) := by
  induction n generalizing s with
  | zero => exact List.prefix_rfl
  | succ n ih =>
      have hadds := m.adds s
      unfold turns
      cases hturn : m.turn s with
      | mk more t =>
          rw [hturn] at hadds
          cases more with
          | true => exact hadds.trans (ih t)
          | false => exact hadds

-- What is heard is a part of what the first turn says, or all of it and more.
theorem Hears.cases (h : m.Hears n s heard) (hne : heard ≠ []) :
    ∃ k out, n = k + 1 ∧ m.said (m.turn s).2 = m.said s ++ out ∧
      (heard <+: out ∨ (m.turn s).1 = true ∧ ∃ more, heard = out ++ more ∧ m.Hears k (m.turn s).2 more) := by
  cases n with
  | zero =>
      have hlen := h.length_le
      rw [List.length_append, turns] at hlen
      exact absurd (List.length_eq_zero_iff.mp (by omega)) hne
  | succ k =>
      obtain ⟨out, hout⟩ := m.adds s
      refine ⟨k, out, rfl, hout.symm, ?_⟩
      unfold Hears turns at h
      cases hturn : m.turn s with
      | mk more t =>
          rw [hturn] at h hout
          cases more with
          | false =>
              rw [← hout] at h
              exact .inl ((List.prefix_append_right_inj _).mp h)
          | true =>
              have hlater := m.said_turns k t
              rw [← hout] at hlater
              obtain hp | hp := List.prefix_or_prefix_of_prefix h hlater
              · exact .inl ((List.prefix_append_right_inj _).mp hp)
              · obtain ⟨more, rfl⟩ := (List.prefix_append_right_inj _).mp hp
                refine .inr ⟨rfl, more, rfl, ?_⟩
                unfold Hears
                rwa [← hout, List.append_assoc]

end Hears

-- An object that is asked one thing after another: what it becomes, and what it
-- answers.
def respond {α ρ γ : Type} (act : α → ρ → α × γ) : α → List ρ → α × List γ
  | a, [] => (a, [])
  | a, q :: more =>
      let later := respond act (act a q).1 more
      (later.1, (act a q).2 :: later.2)

-- How the one who asks takes the answers from what it hears, one after another.
def TakesAll {ρ β γ : Type} (takes : ρ → List β → γ → List β → Prop) :
    List ρ → List β → List γ → List β → Prop
  | [], heard, answers, rest => answers = [] ∧ rest = heard
  | q :: more, heard, answers, rest =>
      ∃ first mid others, takes q heard first mid ∧ answers = first :: others ∧
        TakesAll takes more mid others rest

section Conversation

variable {σ β α ρ γ : Type} {m : Speaker σ β}

-- A party serves an object if each of its turns takes a request and gives the
-- answer of the object, whenever that answer is taken for one.
structure Serves (m : Speaker σ β) (reads : σ → List β → Prop) (asks : ρ → List β)
    (takes : ρ → List β → γ → List β → Prop) (view : σ → α) (act : α → ρ → α × γ)
    (keeps : σ → Prop) (fair : ρ → Prop) : Prop where
  turn : ∀ {n s q later heard answer rest}, keeps s → fair q → reads s (asks q ++ later) →
    takes q heard answer rest → m.Hears n s heard →
      ∃ k t, n = k + 1 ∧ m.turn s = (true, t) ∧ keeps t ∧ reads t later ∧ m.Hears k t rest ∧
        view t = (act (view s) q).1 ∧ answer = (act (view s) q).2

variable {reads : σ → List β → Prop} {asks : ρ → List β} {takes : ρ → List β → γ → List β → Prop}
  {view : σ → α} {act : α → ρ → α × γ} {keeps : σ → Prop} {fair : ρ → Prop}

-- Whenever the answers are taken, whether all of the requests have been sent by
-- then or one at a time, they are those of the object.
theorem Serves.conversation (h : m.Serves reads asks takes view act keeps fair) (requests : List ρ)
    {n : Nat} {s : σ} {later heard rest : List β} {answers : List γ} (hs : keeps s)
    (hfair : ∀ q ∈ requests, fair q) (hreads : reads s (requests.flatMap asks ++ later))
    (htakes : TakesAll takes requests heard answers rest) (hhears : m.Hears n s heard) :
    ∃ k t, n = k + requests.length ∧ m.turns n s = m.turns k t ∧ keeps t ∧ reads t later ∧
      m.Hears k t rest ∧ respond act (view s) requests = (view t, answers) := by
  induction requests generalizing n s heard answers with
  | nil =>
      obtain ⟨rfl, rfl⟩ := htakes
      exact ⟨n, s, rfl, rfl, hs, hreads, hhears, rfl⟩
  | cons q more ih =>
      obtain ⟨first, mid, others, htake, rfl, htakes⟩ := htakes
      rw [List.flatMap_cons, List.append_assoc] at hreads
      obtain ⟨k, t, rfl, hturn, ht, hreads', hhears', hview, hanswer⟩ :=
        h.turn hs (hfair q (List.mem_cons_self ..)) hreads htake hhears
      obtain ⟨j, u, rfl, hturns, hu, hreads'', hhears'', hrespond⟩ :=
        ih ht (fun q hq => hfair q (List.mem_cons_of_mem _ hq)) hreads' htakes hhears'
      refine ⟨j, u, rfl, (turns_succ hturn).trans hturns, hu, hreads'', hhears'', ?_⟩
      rw [respond, ← hview, hrespond, hanswer]

end Conversation

end Speaker

end Adb.Lib
