import Adb.Host.State
import Adb.Lib.Memory

namespace Adb.Client

open Adb.Lib
open Adb.Host (Bytes ascii)

-- A space, a double quote, a backslash or a parenthesis.
def isQuoted (c : UInt8) : Bool := c = 32 || c = 34 || c = 92 || c = 40 || c = 41

-- The first pass of dupAndQuote. A string in memory is shorter than 2 ^ 31, so a size_t
-- counts twice its bytes.
def allocLen : Bytes → Nat
  | [] => 0
  | c :: ts => 1 + (if isQuoted c then 1 else 0) + allocLen ts

-- The second pass, with dest as an index into ret.
def copyQuoted : Bytes → List Cell → Nat → Except MemoryFault (List Cell)
  | [], ret, dest => store ret dest [0]
  | c :: ts, ret, dest => do
      let (ret, dest) ← (if isQuoted c then do
          let ret ← store ret dest [92]
          return (ret, dest + 1)
        else
          return (ret, dest))
      let ret ← store ret dest [c]
      copyQuoted ts ret (dest + 1)

def dupAndQuote (s : Bytes) : Except MemoryFault (List Cell) :=
  copyQuoted s (fresh (allocLen s + 1)) 0

-- strncat appends n bytes of a string at most, and always a NUL.
def strncat (buffer : List Cell) (src : Bytes) (n : Nat) : Except MemoryFault (List Cell) := do
  let text ← readText buffer
  store buffer text.length (src.take n ++ [0])

-- char buf[4096]
def PM_SIZE : Nat := 4096

def pmLoop (buf : List Cell) : List Bytes → Except MemoryFault (List Cell)
  | [] => .ok buf
  | arg :: argv => do
      let quoted ← dupAndQuote arg
      let buf ← strncat buf [32] (PM_SIZE - 1)
      let text ← readText quoted
      let buf ← strncat buf text (PM_SIZE - 1)
      pmLoop buf argv

-- What pm_command hands to send_shellcommand.
def pmCommand (argv : List Bytes) : Except MemoryFault Bytes := do
  let buf ← pmLoop (snprintf (fresh PM_SIZE) PM_SIZE (ascii "shell:pm")).1 argv
  readText buf

-- A string with its escapes, and without one level of them.
def quote (s : Bytes) : Bytes := s.flatMap fun c => if isQuoted c then [92, c] else [c]

def unescape : Bytes → Bytes
  | [] => []
  | c :: rest =>
      if c = 92 then
        match rest with
        | [] => [c]
        | d :: rest => d :: unescape rest
      else
        c :: unescape rest

-- The pieces between the spaces that no backslash stands before, escapes and all.
def splitUnescaped : Bytes → List Bytes
  | [] => [[]]
  | c :: rest =>
      if c = 92 then
        match rest with
        | [] => [[c]]
        | d :: rest => (splitUnescaped rest).modifyHead ([c, d] ++ ·)
      else if c = 32 then
        [] :: splitUnescaped rest
      else
        (splitUnescaped rest).modifyHead (c :: ·)

-- What a shell makes of a command: it passes over more spaces than one.
def words (command : Bytes) : List Bytes := ((splitUnescaped command).filter (· ≠ [])).map unescape

section Quote

variable {c : UInt8} {s rest : Bytes} {pre : List Cell} {n : Nat}

@[simp] theorem quote_nil : quote [] = [] := rfl

theorem quote_cons (c : UInt8) (s : Bytes) :
    quote (c :: s) = (if isQuoted c then [92, c] else [c]) ++ quote s := rfl

theorem length_quote (s : Bytes) : (quote s).length = allocLen s := by
  induction s with
  | nil => rfl
  | cons c s ih =>
      rw [quote_cons, List.length_append, ih, allocLen]
      split <;> rfl

theorem quote_ne_nil (h : s ≠ []) : quote s ≠ [] := by
  cases s with
  | nil => exact absurd rfl h
  | cons c s =>
      rw [quote_cons]
      split <;> simp

theorem isText_quote (h : IsText s) : IsText (quote s) := by
  induction s with
  | nil => exact isText_nil
  | cons c s ih =>
      obtain ⟨hc, hs⟩ := isText_cons.mp h
      rw [quote_cons, isText_append]
      refine ⟨?_, ih hs⟩
      split
      · exact isText_cons.mpr ⟨by decide, isText_cons.mpr ⟨hc, isText_nil⟩⟩
      · exact isText_cons.mpr ⟨hc, isText_nil⟩

-- What is not escaped is no backslash and no space.
theorem not_quoted (h : isQuoted c = false) : c ≠ 92 ∧ c ≠ 32 := by
  constructor <;> (rintro rfl; exact absurd h (by decide))

theorem unescape_escape (c : UInt8) (rest : Bytes) :
    unescape (92 :: c :: rest) = c :: unescape rest := rfl

theorem unescape_cons (h : c ≠ 92) (rest : Bytes) : unescape (c :: rest) = c :: unescape rest := by
  rw [unescape.eq_def]
  exact if_neg h

theorem unescape_quote (s : Bytes) : unescape (quote s) = s := by
  induction s with
  | nil => rfl
  | cons c s ih =>
      rw [quote_cons]
      cases hc : isQuoted c with
      | true =>
          show unescape (92 :: c :: quote s) = c :: s
          rw [unescape_escape, ih]
      | false =>
          show unescape (c :: quote s) = c :: s
          rw [unescape_cons (not_quoted hc).1, ih]

theorem splitUnescaped_escape (c : UInt8) (rest : Bytes) :
    splitUnescaped (92 :: c :: rest) = (splitUnescaped rest).modifyHead ([92, c] ++ ·) := rfl

theorem splitUnescaped_space (rest : Bytes) :
    splitUnescaped (32 :: rest) = [] :: splitUnescaped rest := by
  rw [splitUnescaped.eq_def]
  exact (if_neg (by decide)).trans (if_pos rfl)

theorem splitUnescaped_cons (h : c ≠ 92) (h' : c ≠ 32) (rest : Bytes) :
    splitUnescaped (c :: rest) = (splitUnescaped rest).modifyHead (c :: ·) := by
  rw [splitUnescaped.eq_def]
  exact (if_neg h).trans (if_neg h')

-- No piece ends within a quoted string.
theorem splitUnescaped_quote (s rest : Bytes) :
    splitUnescaped (quote s ++ rest) = (splitUnescaped rest).modifyHead (quote s ++ ·) := by
  induction s with
  | nil =>
      rw [quote_nil, List.nil_append]
      cases splitUnescaped rest <;> rfl
  | cons c s ih =>
      rw [quote_cons, List.append_assoc]
      cases hc : isQuoted c with
      | true =>
          show splitUnescaped (92 :: c :: (quote s ++ rest)) = _
          rw [splitUnescaped_escape, ih, List.modifyHead_modifyHead]
          rfl
      | false =>
          show splitUnescaped (c :: (quote s ++ rest)) = _
          rw [splitUnescaped_cons (not_quoted hc).1 (not_quoted hc).2, ih,
            List.modifyHead_modifyHead]
          rfl

-- The quoted strings with a space before each.
def joined (argv : List Bytes) : Bytes := argv.flatMap fun arg => 32 :: quote arg

theorem joined_cons (arg : Bytes) (argv : List Bytes) :
    joined (arg :: argv) = 32 :: (quote arg ++ joined argv) := rfl

theorem splitUnescaped_joined (argv : List Bytes) :
    splitUnescaped (joined argv) = [] :: argv.map quote := by
  induction argv with
  | nil => rfl
  | cons arg argv ih =>
      rw [joined_cons, splitUnescaped_space, splitUnescaped_quote, ih]
      simp

theorem words_command {argv : List Bytes} (hne : ∀ arg ∈ argv, arg ≠ []) :
    words (quote (ascii "shell:pm") ++ joined argv) = ascii "shell:pm" :: argv := by
  have hsplit : splitUnescaped (quote (ascii "shell:pm") ++ joined argv) =
      (ascii "shell:pm" :: argv).map quote := by
    rw [splitUnescaped_quote, splitUnescaped_joined, List.modifyHead_cons, List.append_nil,
      List.map_cons]
  have hkept : ((ascii "shell:pm" :: argv).map quote).filter (· ≠ []) =
      (ascii "shell:pm" :: argv).map quote := by
    apply List.filter_eq_self.mpr
    intro piece hp
    obtain ⟨arg, harg, rfl⟩ := List.mem_map.mp hp
    have harg' : arg ≠ [] := by
      obtain rfl | harg := List.mem_cons.mp harg
      · simp [ascii]
      · exact hne arg harg
    simpa using quote_ne_nil harg'
  rw [words, hsplit, hkept, List.map_map]
  exact (List.map_congr_left fun arg _ => unescape_quote arg).trans (List.map_id _)

end Quote

section Copy

variable {c : UInt8} {s done : Bytes} {rest : List Cell} {n : Nat}

-- A turn stores what the quoted string has for its character.
theorem copyQuoted_cons (s : Bytes) (h : (quote [c]).length ≤ rest.length) :
    copyQuoted (c :: s) (done.map some ++ rest) done.length =
      copyQuoted s ((done ++ quote [c]).map some ++ rest.drop (quote [c]).length)
        (done ++ quote [c]).length := by
  have hquote : quote [c] = if isQuoted c then [92, c] else [c] := List.append_nil _
  cases hc : isQuoted c with
  | true =>
      rw [hc, if_pos rfl] at hquote
      rw [hquote] at h ⊢
      have hlen : (done ++ [92]).length = done.length + 1 := List.length_append
      rw [List.length_cons, List.length_singleton] at h
      have hroom : [c].length ≤ (rest.drop 1).length := by
        rw [List.length_drop, List.length_singleton]; omega
      have hfirst := store_written done [92]
        (show [92].length ≤ rest.length by rw [List.length_singleton]; omega)
      have hsecond := store_written (done ++ [92]) [c] hroom
      rw [hlen] at hsecond
      simp only [copyQuoted, hc, if_true, bind, Except.bind, pure, Except.pure, hfirst]
      simp only [List.length_singleton, hsecond]
      simp
  | false =>
      rw [hc, if_neg (by simp)] at hquote
      rw [hquote] at h ⊢
      have hstore := store_written done [c] h
      simp only [copyQuoted, hc, Bool.false_eq_true, if_false, bind, Except.bind, pure,
        Except.pure, hstore]
      simp

-- The copy puts the quoted string where dest is, if there is room for it and a NUL.
theorem copyQuoted_ok (s done : Bytes) (rest : List Cell) (h : allocLen s + 1 ≤ rest.length) :
    copyQuoted s (done.map some ++ rest) done.length =
      .ok ((done ++ (quote s ++ [0])).map some ++ rest.drop (allocLen s + 1)) := by
  induction s generalizing done rest with
  | nil => exact store_written done [0] h
  | cons c s ih =>
      have hcons : quote (c :: s) = quote [c] ++ quote s := by
        rw [quote_cons, quote_cons, quote_nil, List.append_nil]
      have hlen := congrArg List.length hcons
      rw [List.length_append, length_quote, length_quote s] at hlen
      rw [copyQuoted_cons s (by omega), ih _ _ (by rw [List.length_drop]; omega),
        List.drop_drop, hcons, hlen]
      simp [Nat.add_assoc]

-- The allocation is filled to its last byte.
theorem dupAndQuote_eq (s : Bytes) : dupAndQuote s = .ok ((quote s ++ [0]).map some) := by
  have h := copyQuoted_ok s [] (fresh (allocLen s + 1)) (by rw [length_fresh])
  rw [List.map_nil, List.nil_append, List.length_nil, List.nil_append] at h
  rw [dupAndQuote, h, List.drop_of_length_le (by rw [length_fresh]), List.append_nil]

end Copy

section Command

variable {text : Bytes} {argv : List Bytes} {rest : List Cell} {n : Nat}

-- What is appended is there, with a NUL behind it.
theorem strncat_ok (src : Bytes) (rest : List Cell) (htext : IsText text) (hn : src.length ≤ n)
    (hroom : src.length ≤ rest.length) :
    strncat ((text ++ [0]).map some ++ rest) src n =
      .ok ((text ++ src ++ [0]).map some ++ rest.drop src.length) := by
  have hcells : (text ++ [0]).map some ++ rest = text.map some ++ some 0 :: rest := by simp
  have hlen : (src ++ [0]).length ≤ (some 0 :: rest).length := by
    rw [List.length_append, List.length_singleton, List.length_cons]
    omega
  have hstore := store_written text (src ++ [0]) hlen
  rw [List.length_append, List.length_singleton, List.drop_succ_cons, ← List.append_assoc] at hstore
  rw [strncat, readText_terminated htext, List.take_of_length_le hn, hcells]
  exact hstore

theorem pmLoop_ok (rest : List Cell) (htext : IsText text) (hargs : ∀ arg ∈ argv, IsText arg)
    (hroom : (joined argv).length ≤ rest.length) (hsize : rest.length < PM_SIZE) :
    ∃ rest', pmLoop ((text ++ [0]).map some ++ rest) argv =
      .ok ((text ++ joined argv ++ [0]).map some ++ rest') := by
  induction argv generalizing text rest with
  | nil => exact ⟨rest, by rw [pmLoop]; simp [joined]⟩
  | cons arg argv ih =>
      obtain ⟨harg, hargs⟩ := List.forall_mem_cons.mp hargs
      rw [joined_cons, List.length_cons, List.length_append] at hroom
      have hspaced : IsText (text ++ [32]) := isText_append.mpr ⟨htext, by decide⟩
      have hquoted : IsText (quote arg) := isText_quote harg
      have hspace := strncat_ok [32] rest htext (show [32].length ≤ PM_SIZE - 1 by decide)
        (by rw [List.length_singleton]; omega)
      have hread : readText ((quote arg ++ [0]).map some) = .ok (quote arg) := by
        have h : readText ((quote arg ++ [0]).map some ++ []) = .ok (quote arg) :=
          readText_terminated hquoted
        rwa [List.append_nil] at h
      have hword := strncat_ok (quote arg) (rest.drop 1) hspaced
        (show (quote arg).length ≤ PM_SIZE - 1 by omega)
        (by rw [List.length_drop]; omega)
      obtain ⟨rest', hloop⟩ :=
        ih ((rest.drop 1).drop (quote arg).length) (isText_append.mpr ⟨hspaced, hquoted⟩) hargs
        (by rw [List.length_drop, List.length_drop]; omega)
        (by rw [List.length_drop, List.length_drop]; omega)
      refine ⟨rest', ?_⟩
      simp only [pmLoop, dupAndQuote_eq, hspace, List.length_singleton, hread, hword, hloop,
        bind, Except.bind]
      simp [joined_cons]

theorem isText_joined (hargs : ∀ arg ∈ argv, IsText arg) : IsText (joined argv) := by
  induction argv with
  | nil => exact isText_nil
  | cons arg argv ih =>
      obtain ⟨harg, hargs⟩ := List.forall_mem_cons.mp hargs
      rw [joined_cons]
      exact isText_cons.mpr ⟨by decide, isText_append.mpr ⟨isText_quote harg, ih hargs⟩⟩

theorem pmCommand_eq (hargs : ∀ arg ∈ argv, IsText arg)
    (hfits : (ascii "shell:pm" ++ joined argv).length < PM_SIZE) :
    pmCommand argv = .ok (ascii "shell:pm" ++ joined argv) := by
  have hpm : (ascii "shell:pm").length = 8 := by decide
  have htext : IsText (ascii "shell:pm") := by decide
  rw [List.length_append, hpm] at hfits
  have hstart : (snprintf (fresh PM_SIZE) PM_SIZE (ascii "shell:pm")).1 =
      (ascii "shell:pm" ++ [0]).map some ++ fresh (PM_SIZE - 9) := by
    rw [snprintf, if_pos (by decide), overwrite, List.length_append, hpm, fresh,
      List.drop_replicate]
    rfl
  obtain ⟨rest', hloop⟩ := pmLoop_ok (fresh (PM_SIZE - 9)) htext hargs
    (by rw [length_fresh]; omega) (by rw [length_fresh]; decide)
  rw [pmCommand, hstart, hloop]
  exact readText_terminated (isText_append.mpr ⟨htext, isText_joined hargs⟩)

-- As long as the command fits, it is the arguments again for a shell that splits it
-- and takes the escapes off. dupAndQuote writes each byte that it allocates, and none
-- beyond.
theorem pm_command_round_trip (argv : List Bytes) (hargs : ∀ arg ∈ argv, IsText arg)
    (hne : ∀ arg ∈ argv, arg ≠ []) (hfits : (ascii "shell:pm" ++ joined argv).length < PM_SIZE) :
    (∃ command, pmCommand argv = .ok command ∧ words command = ascii "shell:pm" :: argv) ∧
      ∀ s, dupAndQuote s = .ok ((quote s ++ [0]).map some) := by
  have hquote : quote (ascii "shell:pm") = ascii "shell:pm" := by decide
  have hwords := words_command hne
  rw [hquote] at hwords
  exact ⟨⟨_, pmCommand_eq hargs hfits, hwords⟩, dupAndQuote_eq⟩

theorem pm_command_round_trip_of_install :
    (∃ command, pmCommand [ascii "install", ascii "My App (1).apk"] = .ok command ∧
      words command = ascii "shell:pm" :: [ascii "install", ascii "My App (1).apk"]) ∧
      ∀ s, dupAndQuote s = .ok ((quote s ++ [0]).map some) :=
  pm_command_round_trip [ascii "install", ascii "My App (1).apk"] (by decide)
    (by decide) (by decide)

end Command

end Adb.Client
