import Mathlib.Data.List.TakeWhile

namespace Adb.Lib

section Cut

variable {α : Type} [DecidableEq α] (sep stop : α)

-- What the piece that begins at an index of a buffer ends with is a separator or the
-- mark that the text stops at. A separator is overwritten by that mark, and the next
-- piece begins behind it. none: the buffer ends first.
def cutPiece (buffer : List α) (p : Nat) : Option (List α × Nat) :=
  let q := p + ((buffer.drop p).takeWhile fun c => c ≠ sep && c ≠ stop).length
  match buffer[q]? with
  | none => none
  | some c => if c = sep then some (buffer.set q stop, q + 1) else some (buffer, q)

-- The pieces of a text, each with the index it begins at. There is none behind the last
-- separator.
def piecesFrom (i : Nat) : List α → List (Nat × List α)
  | [] => []
  | c :: rest =>
      if c = sep then
        (i, []) :: piecesFrom (i + 1) rest
      else
        match piecesFrom (i + 1) rest with
        | [] => [(i, [c])]
        | (_, piece) :: more => (i, c :: piece) :: more

variable {sep stop} {piece text rest post pre : List α}

theorem piecesFrom_piece (h : sep ∉ piece) (i : Nat) (rest : List α) :
    piecesFrom sep i (piece ++ sep :: rest) = (i, piece) :: piecesFrom sep (i + piece.length + 1) rest := by
  induction piece generalizing i with
  | nil => simp [piecesFrom]
  | cons c piece ih =>
      have hc : c ≠ sep := fun heq => h (heq ▸ List.mem_cons_self ..)
      have hi : i + 1 + piece.length + 1 = i + (c :: piece).length + 1 := by rw [List.length_cons]; omega
      rw [List.cons_append, piecesFrom, if_neg hc, ih (fun hm => h (List.mem_cons_of_mem _ hm)), hi]

theorem piecesFrom_last (h : sep ∉ piece) (hne : piece ≠ []) (i : Nat) :
    piecesFrom sep i piece = [(i, piece)] := by
  induction piece generalizing i with
  | nil => exact absurd rfl hne
  | cons c piece ih =>
      have hc : c ≠ sep := fun heq => h (heq ▸ List.mem_cons_self ..)
      rw [piecesFrom, if_neg hc]
      cases piece with
      | nil => rfl
      | cons d piece => rw [ih (fun hm => h (List.mem_cons_of_mem _ hm)) (by simp)]

theorem takeWhile_piece {d : α} (hsep : sep ∉ piece) (hstop : stop ∉ piece) (hd : d = sep ∨ d = stop) (rest : List α) :
    (piece ++ d :: rest).takeWhile (fun c => c ≠ sep && c ≠ stop) = piece := by
  rw [List.takeWhile_append_of_pos, List.takeWhile_cons_of_neg, List.append_nil]
  · obtain rfl | rfl := hd <;> simp
  · intro c hc
    have hcsep : c ≠ sep := fun heq => hsep (heq ▸ hc)
    have hcstop : c ≠ stop := fun heq => hstop (heq ▸ hc)
    simp [hcsep, hcstop]

theorem cutPiece_piece (hsep : sep ∉ piece) (hstop : stop ∉ piece) (pre rest : List α) :
    cutPiece sep stop (pre ++ (piece ++ sep :: rest)) pre.length =
      some (pre ++ (piece ++ stop :: rest), pre.length + piece.length + 1) := by
  have hwhile := takeWhile_piece hsep hstop (.inl rfl) rest
  rw [cutPiece, List.drop_left, hwhile]
  simp

theorem cutPiece_last (hsep : sep ∉ piece) (hstop : stop ∉ piece) (hne : stop ≠ sep) (pre rest : List α) :
    cutPiece sep stop (pre ++ (piece ++ stop :: rest)) pre.length =
      some (pre ++ (piece ++ stop :: rest), pre.length + piece.length) := by
  have hwhile := takeWhile_piece hsep hstop (.inr rfl) rest
  rw [cutPiece, List.drop_left, hwhile]
  simp [hne]

-- A text is taken piece by piece, in a buffer that has been cut up to there.
theorem pieces_induction {motive : List α → List α → Prop} (ends : ∀ pre, motive pre [])
    (last : ∀ pre piece, sep ∉ piece → stop ∉ piece → piece ≠ [] → motive (pre ++ piece) [] → motive pre piece)
    (more : ∀ pre piece rest, sep ∉ piece → stop ∉ piece → motive (pre ++ (piece ++ [stop])) rest →
      motive pre (piece ++ sep :: rest))
    (pre text : List α) (htext : stop ∉ text) : motive pre text := by
  induction hn : text.length using Nat.strongRecOn generalizing text pre with
  | _ n ih =>
      by_cases hsep : sep ∈ text
      · obtain ⟨piece, rest, rfl, hpiece⟩ := List.eq_append_cons_of_mem hsep
        rw [List.mem_append, List.mem_cons, not_or, not_or] at htext
        exact more pre piece rest hpiece htext.1 (ih rest.length (by simp at hn; omega) _ rest htext.2.2 rfl)
      · by_cases hne : text = []
        · exact hne ▸ ends pre
        · exact last pre text hsep htext hne (ends _)

end Cut

end Adb.Lib
