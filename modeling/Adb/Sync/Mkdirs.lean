import Adb.Host.State
import Adb.Lib.Loop
import Adb.Lib.Strtok

namespace Adb.Sync

open Adb.Lib
open Adb.Host (Bytes ascii)

def OS_PATH_SEPARATOR : UInt8 := 92

-- strchr for '/' and for '\\', and the later of the two.
def adbDirstart (path : List Cell) (x : Nat) : Except MemoryFault (Option Nat) := do
  let p ← strchr path x 47
  let p2 ← strchr path x 92
  match p, p2 with
  | none, p2 => return p2
  | some p, some p2 => return some (if p2 > p then p2 else p)
  | some p, none => return some p

-- How CreateDirectory ends: exists is ERROR_ALREADY_EXISTS.
inductive MkdirOutcome where
  | created
  | exists
  | failed
deriving DecidableEq

-- adb_mkdir returns the BOOL that CreateDirectory returns.
def adbMkdir : MkdirOutcome → Int
  | .created => 1
  | .exists | .failed => 0

structure Mkdirs where
  name : List Cell
  x : Nat
  attempts : List Bytes

structure Made where
  ret : Int
  name : List Cell
  attempts : List Bytes

-- One turn of mkdirs; outcomes tells how each attempt ends.
def mkdirTurn (outcomes : Nat → MkdirOutcome) (m : Mkdirs) :
    Except MemoryFault (Mkdirs ⊕ Made) := do
  match ← adbDirstart m.name m.x with
  | none => return .inr ⟨0, m.name, m.attempts⟩
  | some x => do
      let ended ← storeNul m.name x
      let attempt ← readText ended
      let outcome := outcomes m.attempts.length
      let ret := adbMkdir outcome
      let name := ended.set x (some OS_PATH_SEPARATOR)
      if ret < 0 ∧ outcome ≠ .exists then
        return .inr ⟨ret, name, m.attempts ++ [attempt]⟩
      else
        return .inl ⟨name, x + 1, m.attempts ++ [attempt]⟩

-- none: the loop is not at its end yet.
def mkdirs (outcomes : Nat → MkdirOutcome) (fuel : Nat) (name : Bytes) :
    Option (Except MemoryFault Made) :=
  loop (mkdirTurn outcomes) fuel ⟨(name ++ [0]).map some, 1, []⟩

def isSep (c : UInt8) : Bool := c = 47 || c = 92

-- What stands before each separator of a text that follows on some other.
def ancestorsFrom (done : Bytes) : Bytes → List Bytes
  | [] => []
  | c :: rest =>
      if isSep c then done :: ancestorsFrom (done ++ [c]) rest else ancestorsFrom (done ++ [c]) rest

-- The proper ancestors of a path, below its first character.
def ancestors : Bytes → List Bytes
  | [] => []
  | c :: rest => ancestorsFrom [c] rest

-- The attempts up to the first one that fails.
def upToFailure (outcomes : Nat → MkdirOutcome) : List Bytes → List Bytes
  | [] => []
  | path :: more =>
      path :: if outcomes 0 = .failed then [] else upToFailure (fun i => outcomes (i + 1)) more

-- Windows takes either separator for the other.
def normal (path : Bytes) : Bytes := path.map fun c => if c = 47 then 92 else c

-- The ancestors are made in order, up to the first failure, and the path leads where it
-- has led before.
def MakesParents (outcomes : Nat → MkdirOutcome) (name : Bytes) : Prop :=
  ∃ fuel made text, mkdirs outcomes fuel name = some (.ok made) ∧
    made.attempts.map normal = (upToFailure outcomes (ancestors name)).map normal ∧
    readText made.name = .ok text ∧ normal text = normal name

section Dirstart

variable {pre part mid rest text : Bytes} {c d : UInt8}

-- Within a text, each of the two is found where it comes first.
theorem strchr_at (hc : c ∉ part) (htext : IsText part) (pre rest : Bytes) :
    strchr ((pre ++ (part ++ c :: rest) ++ [0]).map some) pre.length c =
      .ok (some (pre.length + part.length)) := by
  have h := strchr_found (pre.map some) ((rest ++ [0]).map some) hc htext
  rw [List.length_map] at h
  simpa using h

theorem strchr_nowhere (hc : c ∉ text) (htext : IsText text) (hzero : c ≠ 0) (pre : Bytes) :
    strchr ((pre ++ text ++ [0]).map some) pre.length c = .ok none := by
  have h := strchr_missing (pre.map some) [] hc htext hzero
  rw [List.length_map] at h
  simpa using h

theorem isSep_iff : isSep c = true ↔ c = 47 ∨ c = 92 := by simp [isSep]

-- With one kind of separators ahead, the first of them is found.
theorem adbDirstart_first (hpart : ∀ b ∈ part, isSep b = false) (htext : IsText (part ++ c :: rest))
    (hc : isSep c = true) (honly : ∀ b ∈ rest, isSep b = true → b = c) (pre : Bytes) :
    adbDirstart ((pre ++ (part ++ c :: rest) ++ [0]).map some) pre.length =
      .ok (some (pre.length + part.length)) := by
  have hpartText := (isText_append.mp htext).1
  have hnot : ∀ d, isSep d = true → d ∉ part := by
    intro d hd hm
    rw [hpart d hm] at hd
    cases hd
  have hother : ∀ d, isSep d = true → d ≠ c → d ∉ part ++ c :: rest := by
    intro d hd hdc hm
    rcases List.mem_append.mp hm with hm | hm
    · exact hnot d hd hm
    · rcases List.mem_cons.mp hm with hm | hm
      · exact hdc hm
      · exact hdc (honly d hm hd)
  rcases isSep_iff.mp hc with rfl | rfl
  · have hp := strchr_at (hnot 47 hc) hpartText pre rest
    have hp2 := strchr_nowhere (hother 92 (by decide) (by decide)) htext (by decide) pre
    simp only [adbDirstart, hp, hp2, bind, Except.bind]
    rfl
  · have hp := strchr_nowhere (hother 47 (by decide) (by decide)) htext (by decide) pre
    have hp2 := strchr_at (hnot 92 hc) hpartText pre rest
    simp only [adbDirstart, hp, hp2, bind, Except.bind]
    rfl

theorem adbDirstart_none (hnone : ∀ b ∈ text, isSep b = false) (htext : IsText text) (pre : Bytes) :
    adbDirstart ((pre ++ text ++ [0]).map some) pre.length = .ok none := by
  have hnot : ∀ d, isSep d = true → d ∉ text := by
    intro d hd hm
    rw [hnone d hm] at hd
    cases hd
  have hp := strchr_nowhere (hnot 47 (by decide)) htext (by decide) pre
  have hp2 := strchr_nowhere (hnot 92 (by decide)) htext (by decide) pre
  simp only [adbDirstart, hp, hp2, bind, Except.bind]
  rfl

-- With both kinds ahead, the first ones of one kind are passed over.
theorem adbDirstart_mixed (hpart : ∀ b ∈ part, isSep b = false) (hmid : d ∉ mid)
    (htext : IsText (part ++ c :: mid)) (hc : isSep c = true) (hd : isSep d = true) (hcd : c ≠ d)
    (pre rest : Bytes) :
    adbDirstart ((pre ++ (part ++ c :: mid ++ d :: rest) ++ [0]).map some) pre.length =
      .ok (some (pre.length + (part ++ c :: mid).length)) := by
  have hnot : ∀ d, isSep d = true → d ∉ part := by
    intro d hd hm
    rw [hpart d hm] at hd
    cases hd
  have hdpart : d ∉ part ++ c :: mid := by
    intro hm
    rcases List.mem_append.mp hm with hm | hm
    · exact hnot d hd hm
    · rcases List.mem_cons.mp hm with hm | hm
      · exact hcd hm.symm
      · exact hmid hm
  have hfirst := strchr_at (hnot c hc) (isText_append.mp htext).1 pre (mid ++ d :: rest)
  have hsecond := strchr_at hdpart htext pre rest
  rw [← List.cons_append, ← List.append_assoc part] at hfirst
  have hlt : pre.length + part.length < pre.length + (part ++ c :: mid).length := by
    rw [List.length_append, List.length_cons]
    omega
  rcases isSep_iff.mp hc with rfl | rfl <;> rcases isSep_iff.mp hd with rfl | rfl
  · exact absurd rfl hcd
  · simp only [adbDirstart, hfirst, hsecond, bind, Except.bind, if_pos hlt]
    rfl
  · simp only [adbDirstart, hfirst, hsecond, bind, Except.bind, if_neg (Nat.lt_asymm hlt)]
    rfl
  · exact absurd rfl hcd

end Dirstart

section Turn

variable {outcomes : Nat → MkdirOutcome} {pre part rest text : Bytes} {c : UInt8}
  {attempts : List Bytes} {m : Mkdirs}

-- A turn makes what stands before the separator that is found. No outcome stops it.
theorem mkdirTurn_attempt (outcomes : Nat → MkdirOutcome) (attempts : List Bytes)
    (htext : IsText (pre ++ part))
    (hstart : adbDirstart ((pre ++ (part ++ c :: rest) ++ [0]).map some) pre.length =
      .ok (some (pre.length + part.length))) :
    mkdirTurn outcomes ⟨(pre ++ (part ++ c :: rest) ++ [0]).map some, pre.length, attempts⟩ =
      .ok (.inl ⟨(pre ++ part ++ [92] ++ rest ++ [0]).map some, (pre ++ part ++ [92]).length,
        attempts ++ [pre ++ part]⟩) := by
  obtain ⟨behind, hbehind⟩ : ∃ behind : List Cell, behind = (rest ++ [0]).map some := ⟨_, rfl⟩
  have hcells : (pre ++ (part ++ c :: rest) ++ [0]).map some =
      (pre ++ part).map some ++ some c :: behind := by
    simp [hbehind]
  have hx : pre.length + part.length = ((pre ++ part).map some).length := by simp
  have hstore := storeNul_append ((pre ++ part).map some) (some c) behind
  have hread : readText ((pre ++ part).map some ++ some 0 :: behind) = .ok (pre ++ part) := by
    have h : readText ((pre ++ part ++ [0]).map some ++ behind) = .ok (pre ++ part) :=
      readText_terminated htext
    simpa using h
  have hset : ((pre ++ part).map some ++ some 0 :: behind).set ((pre ++ part).map some).length
      (some OS_PATH_SEPARATOR) = (pre ++ part ++ [92] ++ rest ++ [0]).map some := by
    rw [List.set_append_right _ _ (Nat.le_refl _), Nat.sub_self, List.set_cons_zero, hbehind]
    simp [OS_PATH_SEPARATOR]
  have hret : ¬ (adbMkdir (outcomes attempts.length) < 0 ∧ outcomes attempts.length ≠ .exists) := by
    cases outcomes attempts.length <;> decide
  have hnext : ((pre ++ part).map some).length + 1 = (pre ++ part ++ [92]).length := by
    simp [Nat.add_assoc]
  simp only [mkdirTurn, hstart, bind, Except.bind]
  rw [hcells, hx]
  simp only [hstore, hread, hset, if_neg hret, hnext]
  rfl

theorem mkdirTurn_end (hnone : ∀ b ∈ text, isSep b = false) (htext : IsText text) :
    mkdirTurn outcomes ⟨(pre ++ text ++ [0]).map some, pre.length, attempts⟩ =
      .ok (.inr ⟨0, (pre ++ text ++ [0]).map some, attempts⟩) := by
  simp only [mkdirTurn, adbDirstart_none hnone htext pre, bind, Except.bind]
  rfl

end Turn

section Ancestors

variable {outcomes : Nat → MkdirOutcome} {part rest text done pre : Bytes} {c : UInt8}
  {paths : List Bytes}

theorem ancestorsFrom_none (hnone : ∀ b ∈ text, isSep b = false) (done : Bytes) :
    ancestorsFrom done text = [] := by
  induction text generalizing done with
  | nil => rfl
  | cons b text ih =>
      obtain ⟨hb, hnone⟩ := List.forall_mem_cons.mp hnone
      rw [ancestorsFrom, hb, if_neg (by simp), ih hnone]

theorem ancestorsFrom_part (hpart : ∀ b ∈ part, isSep b = false) (hc : isSep c = true)
    (done rest : Bytes) :
    ancestorsFrom done (part ++ c :: rest) =
      (done ++ part) :: ancestorsFrom (done ++ part ++ [c]) rest := by
  induction part generalizing done with
  | nil => simp [ancestorsFrom, hc]
  | cons b part ih =>
      obtain ⟨hb, hpart⟩ := List.forall_mem_cons.mp hpart
      rw [List.cons_append, ancestorsFrom, hb, if_neg (by simp), ih hpart]
      simp

-- A text has a first separator, or none.
theorem first_separator (text : Bytes) : (∀ b ∈ text, isSep b = false) ∨
    ∃ part c rest, text = part ++ c :: rest ∧ (∀ b ∈ part, isSep b = false) ∧ isSep c = true := by
  cases hfind : text.find? isSep with
  | none => exact .inl fun b hb => by simpa using List.find?_eq_none.mp hfind b hb
  | some c =>
      obtain ⟨hc, part, rest, heq, hpart⟩ := List.find?_eq_some_iff_append.mp hfind
      exact .inr ⟨part, c, rest, heq, fun b hb => by simpa using hpart b hb, hc⟩

theorem normal_append (s t : Bytes) : normal (s ++ t) = normal s ++ normal t := List.map_append

theorem normal_separator (hc : isSep c = true) : normal [c] = [92] := by
  rcases isSep_iff.mp hc with rfl | rfl <;> decide

theorem upToFailure_begins (outcomes : Nat → MkdirOutcome) (paths : List Bytes) :
    upToFailure outcomes paths <+: paths := by
  induction paths generalizing outcomes with
  | nil => exact List.prefix_refl _
  | cons path more ih =>
      rw [upToFailure, List.cons_prefix_cons]
      refine ⟨rfl, ?_⟩
      split
      · exact List.nil_prefix
      · exact ih _

-- All attempts are to be made if and only if none but the last fails.
theorem upToFailure_length (outcomes : Nat → MkdirOutcome) (paths : List Bytes) :
    (upToFailure outcomes paths).length = paths.length ↔
      ∀ i, i + 1 < paths.length → outcomes i ≠ .failed := by
  induction paths generalizing outcomes with
  | nil => simp [upToFailure]
  | cons path more ih =>
      rw [upToFailure, List.length_cons, List.length_cons, Nat.add_right_cancel_iff]
      by_cases hfirst : outcomes 0 = .failed
      · rw [if_pos hfirst]
        constructor
        · intro hlen i hi
          rw [List.length_nil] at hlen
          omega
        · intro h
          by_contra hlen
          rw [List.length_nil] at hlen
          exact h 0 (by omega) hfirst
      · rw [if_neg hfirst, ih]
        constructor
        · intro h i hi
          cases i with
          | zero => exact hfirst
          | succ i => exact h i (by omega)
        · exact fun h i hi => h (i + 1) (by omega)

end Ancestors

section Run

variable {outcomes : Nat → MkdirOutcome} {text done pre part mid rest name : Bytes} {c d : UInt8}
  {attempts : List Bytes}

-- With one kind of separators all ancestors are made, whatever the outcomes.
theorem mkdirs_run (outcomes : Nat → MkdirOutcome) (hc : isSep c = true)
    (honly : ∀ b ∈ text, isSep b = true → b = c) (htext : IsText (pre ++ text))
    (hdone : normal done = normal pre) (attempts : List Bytes) :
    ∃ fuel made final, loop (mkdirTurn outcomes) fuel
      ⟨(pre ++ text ++ [0]).map some, pre.length, attempts⟩ =
        some (.ok made) ∧
      made.attempts.map normal = attempts.map normal ++ (ancestorsFrom done text).map normal ∧
      readText made.name = .ok final ∧ normal final = normal (pre ++ text) := by
  induction hn : text.length using Nat.strongRecOn generalizing text pre done attempts with
  | _ n ih =>
      rcases first_separator text with hnone | ⟨part, d, rest, rfl, hpart, hd⟩
      · refine ⟨1, _, pre ++ text, loop_leaves
          (mkdirTurn_end hnone (isText_append.mp htext).2), ?_, ?_, rfl⟩
        · rw [ancestorsFrom_none hnone, List.map_nil, List.append_nil]
        · have h : readText ((pre ++ text ++ [0]).map some ++ []) = .ok (pre ++ text) :=
            readText_terminated htext
          rwa [List.append_nil] at h
      · obtain rfl : d = c := honly d (by simp) hd
        have hpre : IsText (pre ++ part) := by
          rw [← List.append_assoc] at htext
          exact (isText_append.mp htext).1
        have hrest : IsText rest :=
          (isText_cons.mp (isText_append.mp (isText_append.mp htext).2).2).2
        have hstart := adbDirstart_first hpart (isText_append.mp htext).2 hd
          (fun b hb => honly b (by simp [hb])) pre
        have hturn := mkdirTurn_attempt outcomes attempts hpre hstart
        have hnext : normal (done ++ part ++ [d]) = normal (pre ++ part ++ [92]) := by
          rw [normal_append, normal_append, normal_append, normal_append, hdone,
            normal_separator hd]
          rfl
        obtain ⟨fuel, made, final, hloop, hattempts, hread, hfinal⟩ :=
          ih rest.length (by simp at hn; omega)
          (fun b hb => honly b (by simp [hb]))
            (isText_append.mpr ⟨isText_append.mpr ⟨hpre, by decide⟩, hrest⟩)
          hnext (attempts ++ [pre ++ part]) rfl
        refine ⟨fuel + 1, made, final, ?_, ?_, hread, ?_⟩
        · rw [loop_succ hturn, hloop]
        · rw [hattempts, ancestorsFrom_part hpart hd, List.map_append, List.map_cons, List.map_cons,
            normal_append pre, normal_append done, hdone]
          simp
        · rw [hfinal]
          rcases isSep_iff.mp hd with rfl | rfl <;> simp [normal]

def attemptsOf : Mkdirs ⊕ Made → List Bytes
  | .inl m => m.attempts
  | .inr made => made.attempts

-- Attempts are only ever added.
theorem mkdirTurn_attempts {m : Mkdirs} {next : Mkdirs ⊕ Made}
    (h : mkdirTurn outcomes m = .ok next) :
    m.attempts <+: attemptsOf next := by
  unfold mkdirTurn at h
  cases hstart : adbDirstart m.name m.x with
  | error fault =>
      rw [hstart] at h
      cases h
  | ok found =>
      rw [hstart] at h
      cases found with
      | none =>
          cases h
          exact List.prefix_refl _
      | some x =>
          simp only [bind, Except.bind] at h
          cases hstore : storeNul m.name x with
          | error fault =>
              rw [hstore] at h
              cases h
          | ok ended =>
              rw [hstore] at h
              simp only at h
              cases hread : readText ended with
              | error fault =>
                  rw [hread] at h
                  cases h
              | ok attempt =>
                  rw [hread] at h
                  simp only at h
                  split at h
                  · cases h
                    exact List.prefix_append _ _
                  · cases h
                    exact List.prefix_append _ _

theorem comesTo_attempts {m m' : Mkdirs} (h : ComesTo (mkdirTurn outcomes) m m') :
    m.attempts <+: m'.attempts := by
  induction h with
  | refl => exact List.prefix_refl _
  | tail _ hturn ih => exact ih.trans (mkdirTurn_attempts hturn)

theorem loop_attempts {m : Mkdirs} {fuel : Nat} {made : Made}
    (h : loop (mkdirTurn outcomes) fuel m = some (.ok made)) : m.attempts <+: made.attempts := by
  obtain ⟨last, hcomes, hturn⟩ := loop_ends h
  exact (comesTo_attempts hcomes).trans (mkdirTurn_attempts hturn)

-- With both kinds, the first attempt is not at the shortest ancestor.
theorem mkdirs_mixed (pre : Bytes) (hpart : ∀ b ∈ part, isSep b = false) (hc : isSep c = true)
    (hd : isSep d = true) (hcd : c ≠ d) (hmid : d ∉ mid)
    (htext : IsText (pre ++ (part ++ c :: mid))) {fuel : Nat} {made : Made}
    (hloop : loop (mkdirTurn outcomes) fuel
      ⟨(pre ++ (part ++ c :: mid ++ d :: rest) ++ [0]).map some, pre.length, []⟩ =
      some (.ok made)) : ∃ more, made.attempts = (pre ++ (part ++ c :: mid)) :: more := by
  have hstart := adbDirstart_mixed hpart hmid (isText_append.mp htext).2 hc hd hcd pre rest
  have hturn := mkdirTurn_attempt outcomes [] htext hstart
  cases fuel with
  | zero => cases hloop
  | succ fuel =>
      rw [loop_succ hturn] at hloop
      obtain ⟨more, hmore⟩ := loop_attempts hloop
      exact ⟨more, hmore.symm⟩

-- Both kinds of separators below the first character.
def Mixed (name : Bytes) : Prop := 47 ∈ name.drop 1 ∧ 92 ∈ name.drop 1

theorem mixed_split (h : Mixed name) :
    ∃ first part c mid d rest, name = first :: (part ++ c :: mid ++ d :: rest) ∧
    (∀ b ∈ part, isSep b = false) ∧ isSep c = true ∧ isSep d = true ∧ c ≠ d ∧ d ∉ mid := by
  cases name with
  | nil => cases h.1
  | cons first text =>
      obtain ⟨h47, h92⟩ := h
      rw [List.drop_succ_cons, List.drop_zero] at h47 h92
      rcases first_separator text with hnone | ⟨part, c, behind, rfl, hpart, hc⟩
      · exact absurd (hnone 47 h47) (by decide)
      · have hlater : ∀ d, isSep d = true → d ≠ c → d ∈ part ++ c :: behind → d ∈ behind := by
          intro d hd hdc hm
          rcases List.mem_append.mp hm with hm | hm
          · rw [hpart d hm] at hd
            cases hd
          · exact (List.mem_cons.mp hm).resolve_left hdc
        obtain ⟨d, hd, hcd, hmem⟩ : ∃ d, isSep d = true ∧ c ≠ d ∧ d ∈ behind := by
          rcases isSep_iff.mp hc with rfl | rfl
          · exact ⟨92, by decide, by decide, hlater 92 (by decide) (by decide) h92⟩
          · exact ⟨47, by decide, by decide, hlater 47 (by decide) (by decide) h47⟩
        obtain ⟨mid, rest, rfl, hmid⟩ := List.eq_append_cons_of_mem hmem
        exact ⟨first, part, c, mid, d, rest, by simp, hpart, hc, hd, hcd, hmid⟩

theorem mixed_fails (htext : IsText name) (h : Mixed name) : ¬MakesParents outcomes name := by
  rintro ⟨fuel, made, text, hloop, hattempts, -⟩
  obtain ⟨first, part, c, mid, d, rest, rfl, hpart, hc, hd, hcd, hmid⟩ := mixed_split h
  have hassoc : part ++ c :: mid ++ d :: rest = part ++ c :: (mid ++ d :: rest) := by simp
  have hbegins : IsText ([first] ++ (part ++ c :: mid)) := by
    rw [← List.cons_append] at htext
    exact (isText_append.mp htext).1
  obtain ⟨more, hmore⟩ := mkdirs_mixed [first] hpart hc hd hcd hmid hbegins hloop
  rw [hmore, ancestors, hassoc, ancestorsFrom_part hpart hc, upToFailure] at hattempts
  have hlen := congrArg List.length (List.cons.inj hattempts).1
  simp [normal] at hlen

theorem one_kind {first : UInt8} (h : ¬Mixed (first :: text)) :
    ∃ c, isSep c = true ∧ ∀ b ∈ text, isSep b = true → b = c := by
  by_cases h47 : 47 ∈ text
  · refine ⟨47, by decide, fun b hb hsep => (isSep_iff.mp hsep).resolve_right ?_⟩
    rintro rfl
    exact h ⟨h47, hb⟩
  · refine ⟨92, by decide, fun b hb hsep => (isSep_iff.mp hsep).resolve_left ?_⟩
    rintro rfl
    exact h47 hb

-- x is behind the NUL of an empty path.
theorem empty_fails : ¬MakesParents outcomes [] := by
  rintro ⟨fuel, made, text, hloop, -⟩
  have hturn : mkdirTurn outcomes ⟨(([] : Bytes) ++ [0]).map some, 1, []⟩ = .error .overread := rfl
  obtain ⟨⟨r, hr⟩, -⟩ := loop_turn hloop
  rw [hturn] at hr
  cases hr

-- The parents are made as they should be if and only if there is a first character to
-- pass over, the separators are of one kind, and no attempt but the last fails.
theorem makes_parents_iff (outcomes : Nat → MkdirOutcome) (name : Bytes) (htext : IsText name) :
    MakesParents outcomes name ↔ name ≠ [] ∧ ¬Mixed name ∧
      ∀ i, i + 1 < (ancestors name).length → outcomes i ≠ .failed := by
  cases name with
  | nil => exact iff_of_false empty_fails fun h => h.1 rfl
  | cons first text =>
      by_cases hmixed : Mixed (first :: text)
      · exact iff_of_false (mixed_fails htext hmixed) fun h => h.2.1 hmixed
      · obtain ⟨c, hc, honly⟩ := one_kind hmixed
        obtain ⟨fuel, made, final, hloop, hattempts, hread, hfinal⟩ :=
          mkdirs_run outcomes hc honly (show IsText ([first] ++ text) from htext)
            (Eq.refl (normal [first])) []
        rw [List.map_nil, List.nil_append] at hattempts
        rw [← upToFailure_length outcomes]
        constructor
        · rintro ⟨fuel', made', -, hloop', hattempts', -⟩
          obtain rfl : made = made' := Except.ok.inj (loop_unique hloop hloop')
          have hlen := congrArg List.length (hattempts.symm.trans hattempts')
          rw [List.length_map, List.length_map] at hlen
          exact ⟨by simp, hmixed, hlen.symm⟩
        · rintro ⟨-, -, hlen⟩
          have hall := (upToFailure_begins outcomes _).eq_of_length hlen
          rw [← show ancestors (first :: text) = ancestorsFrom [first] text from rfl,
            ← hall] at hattempts
          exact ⟨fuel, made, final, hloop, hattempts, hread, hfinal⟩

theorem makes_parents_of_two : MakesParents (fun _ => .exists) (ascii "a/b/c") :=
  (makes_parents_iff (fun _ => .exists) (ascii "a/b/c") (by decide)).mpr
    ⟨by decide, by unfold Mixed; decide, fun _ _ h => by cases h⟩

-- Of a/b\c the first directory that is made is the last one.
theorem mixed_path_skips : ¬ ∀ outcomes name, IsText name → MakesParents outcomes name := by
  intro h
  have hmixed :=
    ((makes_parents_iff (fun _ => .created) (ascii "a/b\\c") (by decide)).mp
      (h _ _ (by decide))).2.1
  exact hmixed (by unfold Mixed; decide)

end Run

end Adb.Sync
