import Adb.Lib.Print

namespace Adb.Lib

def readCell : List Cell → Except MemoryFault UInt8
  | [] => .error .overread
  | none :: _ => .error .uninitialised
  | some c :: _ => .ok c

def storeNul (buffer : List Cell) (i : Nat) : Except MemoryFault (List Cell) :=
  if i < buffer.length then .ok (buffer.set i (some 0)) else .error .overrun

-- How many bytes come before the first one that stops the scan.
def scan (stop : UInt8 → Bool) : List Cell → Except MemoryFault Nat
  | [] => .error .overread
  | none :: _ => .error .uninitialised
  | some c :: rest => if stop c then .ok 0 else (scan stop rest).map (· + 1)

-- strchr(buffer + s, ch), for a ch that is not NUL.
def strchr (buffer : List Cell) (s : Nat) (ch : UInt8) : Except MemoryFault (Option Nat) := do
  let n ← scan (fun c => c = ch || c = 0) (buffer.drop s)
  let c ← readCell (buffer.drop (s + n))
  return if c = ch then some (s + n) else none

-- strtok_r, where s is the pointer it is given, or *last if that is NULL: the
-- token, *last and the buffer with the token ended.
def strtokR (delim : List UInt8) (buffer : List Cell) (s : Option Nat) :
    Except MemoryFault (Option Nat × Option Nat × List Cell) :=
  match s with
  | none => .ok (none, none, buffer)
  | some s => do
      let skipped ← scan (fun c => c ∉ delim) (buffer.drop s)
      let tok := s + skipped
      let c ← readCell (buffer.drop tok)
      if c = 0 then
        return (none, none, buffer)
      else do
        let n ← scan (fun c => c = 0 || c ∈ delim) (buffer.drop (tok + 1))
        let c ← readCell (buffer.drop (tok + 1 + n))
        if c = 0 then
          return (some tok, none, buffer)
        else do
          let buffer ← storeNul buffer (tok + 1 + n)
          return (some tok, some (tok + 1 + n + 1), buffer)

section Scans

variable {stop : UInt8 → Bool} {text more : List UInt8} {pre rest : List Cell} {c ch : UInt8}

@[simp] theorem drop_cells (pre rest : List Cell) : (pre ++ rest).drop pre.length = rest :=
  List.drop_left

theorem drop_behind (pre rest : List Cell) (text : List UInt8) :
    (pre ++ (text.map some ++ rest)).drop (pre.length + text.length) = rest := by
  have hlen : text.length = (text.map some).length := (List.length_map some).symm
  rw [← List.drop_drop, drop_cells, hlen, drop_cells]

theorem storeNul_append (pre : List Cell) (x : Cell) (rest : List Cell) :
    storeNul (pre ++ x :: rest) pre.length = .ok (pre ++ some 0 :: rest) := by
  rw [storeNul, if_pos (by simp), List.set_append_right _ _ (Nat.le_refl _), Nat.sub_self,
    List.set_cons_zero]

theorem scan_stop (htext : ∀ b ∈ text, stop b = false) (hc : stop c = true) :
    scan stop (text.map some ++ some c :: rest) = .ok text.length := by
  induction text with
  | nil => simp [scan, hc]
  | cons b text ih =>
      have hb : stop b = false := htext b (by simp)
      have hrest := ih fun b hm => htext b (List.mem_cons_of_mem _ hm)
      simp [scan, hb, hrest, Except.map]

-- A scan that nothing stops runs out of the buffer.
theorem scan_open (htext : ∀ b ∈ text, stop b = false) :
    scan stop (text.map some) = .error .overread := by
  induction text with
  | nil => rfl
  | cons b text ih =>
      have hb : stop b = false := htext b (by simp)
      have hrest := ih fun b hm => htext b (List.mem_cons_of_mem _ hm)
      simp [scan, hb, hrest, Except.map]

variable (pre rest)

theorem strchr_found (hch : ch ∉ text) (htext : IsText text) :
    strchr (pre ++ (text.map some ++ some ch :: rest)) pre.length ch =
      .ok (some (pre.length + text.length)) := by
  have hscan : scan (fun c => c = ch || c = 0) (text.map some ++ some ch :: rest) =
      .ok text.length := by
    refine scan_stop (fun b hb => ?_) (by simp)
    have hne : b ≠ ch := fun heq => hch (heq ▸ hb)
    have hzero : b ≠ 0 := fun heq => htext (heq ▸ hb)
    simp [hne, hzero]
  simp [strchr, hscan, readCell, bind, Except.bind, pure, Except.pure]

theorem strchr_missing (hch : ch ∉ text) (htext : IsText text) (hzero : ch ≠ 0) :
    strchr (pre ++ (text.map some ++ some 0 :: rest)) pre.length ch = .ok none := by
  have hscan : scan (fun c => c = ch || c = 0) (text.map some ++ some 0 :: rest) =
      .ok text.length := by
    refine scan_stop (fun b hb => ?_) (by simp)
    have hne : b ≠ ch := fun heq => hch (heq ▸ hb)
    have hzero : b ≠ 0 := fun heq => htext (heq ▸ hb)
    simp [hne, hzero]
  simp [strchr, hscan, readCell, bind, Except.bind, pure, Except.pure, Ne.symm hzero]

theorem strchr_open (hch : ch ∉ text) (htext : IsText text) :
    strchr (pre ++ text.map some) pre.length ch = .error .overread := by
  have hscan : scan (fun c => c = ch || c = 0) (text.map some) = .error .overread := by
    refine scan_open fun b hb => ?_
    have hne : b ≠ ch := fun heq => hch (heq ▸ hb)
    have hzero : b ≠ 0 := fun heq => htext (heq ▸ hb)
    simp [hne, hzero]
  simp [strchr, hscan, bind, Except.bind]

end Scans

section Tokens

variable {delim skipped tok more : List UInt8} {pre rest : List Cell} {c d : UInt8}

theorem scan_delims (hskipped : ∀ c ∈ skipped, c ∈ delim) (hc : c ∉ delim) :
    scan (fun c => c ∉ delim) (skipped.map some ++ some c :: rest) = .ok skipped.length :=
  scan_stop (fun b hb => by simpa using hskipped b hb) (by simpa using hc)

variable (pre rest)

-- A call of strtok_r where there are only delimiters.
theorem strtokR_none (hskipped : ∀ c ∈ skipped, c ∈ delim) (hdelim : IsText delim) :
    strtokR delim (pre ++ (skipped.map some ++ some 0 :: rest)) (some pre.length) =
      .ok (none, none, pre ++ (skipped.map some ++ some 0 :: rest)) := by
  simp only [strtokR, drop_cells, scan_delims hskipped hdelim, drop_behind, readCell,
    bind, Except.bind, if_true]
  rfl

-- A call that finds a token, and how it ends it.
theorem strtokR_some (hskipped : ∀ b ∈ skipped, b ∈ delim) (hc : c ∉ delim) (hzero : c ≠ 0)
    (htok : ∀ b ∈ tok, b ∉ delim) (htext : IsText tok) (hd : d = 0 ∨ d ∈ delim) :
    strtokR delim (pre ++ ((skipped ++ c :: tok).map some ++ some d :: rest)) (some pre.length) =
      if d = 0 then
        .ok (some (pre.length + skipped.length), none,
          pre ++ ((skipped ++ c :: tok).map some ++ some d :: rest))
      else
        .ok (some (pre.length + skipped.length),
          some (pre.length + skipped.length + (tok.length + 1) + 1),
          pre ++ ((skipped ++ c :: tok).map some ++ some 0 :: rest)) := by
  have hsplit : ∀ e : UInt8, pre ++ ((skipped ++ c :: tok).map some ++ some e :: rest) =
      pre ++ (skipped.map some ++ some c :: (tok.map some ++ some e :: rest)) := by
    intro e
    simp
  have hword : ∀ e : UInt8, pre ++ ((skipped ++ c :: tok).map some ++ some e :: rest) =
      (pre ++ (skipped.map some ++ [some c])) ++ (tok.map some ++ some e :: rest) := by
    intro e
    simp
  have hlen : (pre ++ (skipped.map some ++ [some c])).length = pre.length + skipped.length + 1 := by
    simp [Nat.add_assoc]
  have hscan : scan (fun b => b = 0 || b ∈ delim) (tok.map some ++ some d :: rest) =
      .ok tok.length := by
    refine scan_stop (fun b hb => ?_) (by simpa using hd)
    have hne : b ≠ 0 := fun heq => htext (heq ▸ hb)
    simpa [hne] using htok b hb
  have hbehind : (pre ++ ((skipped ++ c :: tok).map some ++ some d :: rest)).drop
      (pre.length + skipped.length + 1) = tok.map some ++ some d :: rest := by
    rw [hword, ← hlen, drop_cells]
  have hend : (pre ++ ((skipped ++ c :: tok).map some ++ some d :: rest)).drop
      (pre.length + skipped.length + 1 + tok.length) = some d :: rest := by
    rw [hword, ← hlen, drop_behind]
  have hstore : storeNul (pre ++ ((skipped ++ c :: tok).map some ++ some d :: rest))
      (pre.length + skipped.length + 1 + tok.length) =
        .ok (pre ++ ((skipped ++ c :: tok).map some ++ some 0 :: rest)) := by
    have hat := storeNul_append ((pre ++ (skipped.map some ++ [some c])) ++ tok.map some)
      (some d) rest
    rw [List.length_append, hlen, List.length_map] at hat
    rw [hword, hword]
    simpa only [List.append_assoc] using hat
  rw [strtokR, hsplit, drop_cells, scan_delims hskipped hc, ← hsplit]
  simp only [bind, Except.bind]
  rw [hsplit, drop_behind, ← hsplit]
  simp only [readCell, if_neg hzero, hbehind, hscan, hend, hstore]
  by_cases hnul : d = 0
  · rw [if_pos hnul, if_pos hnul]
    rfl
  · rw [if_neg hnul, if_neg hnul]
    simp only [pure, Except.pure]
    congr 4
    omega

-- A call that runs out of the buffer: nothing in it ends a token.
theorem strtokR_open (hskipped : ∀ b ∈ skipped, b ∈ delim) (htok : ∀ b ∈ tok, b ∉ delim)
    (htext : IsText tok) :
    strtokR delim (pre ++ (skipped ++ tok).map some) (some pre.length) = .error .overread := by
  cases tok with
  | nil =>
      have hscan : scan (fun c => c ∉ delim) ((skipped ++ []).map some) = .error .overread :=
        scan_open fun b hb => by simpa using hskipped b (by simpa using hb)
      simp only [strtokR, drop_cells, hscan, bind, Except.bind]
  | cons c tok =>
      obtain ⟨hzero, htext⟩ := isText_cons.mp htext
      have hc := htok c (by simp)
      have hsplit : pre ++ (skipped ++ c :: tok).map some =
          pre ++ (skipped.map some ++ some c :: tok.map some) := by simp
      have hword : pre ++ (skipped.map some ++ some c :: tok.map some) =
          (pre ++ (skipped.map some ++ [some c])) ++ tok.map some := by simp
      have hlen : (pre ++ (skipped.map some ++ [some c])).length =
          pre.length + skipped.length + 1 := by
        simp [Nat.add_assoc]
      have hbehind : (pre ++ (skipped.map some ++ some c :: tok.map some)).drop
          (pre.length + skipped.length + 1) = tok.map some := by
        rw [hword, ← hlen, drop_cells]
      have hscan : scan (fun b => b = 0 || b ∈ delim) (tok.map some) = .error .overread := by
        refine scan_open fun b hb => ?_
        have hne : b ≠ 0 := fun heq => htext (heq ▸ hb)
        simpa [hne] using htok b (List.mem_cons_of_mem _ hb)
      rw [hsplit, strtokR, drop_cells, scan_delims hskipped hc]
      simp only [bind, Except.bind, drop_behind, readCell, if_neg hzero, hbehind, hscan]

end Tokens

end Adb.Lib
