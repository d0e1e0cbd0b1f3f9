import Mathlib.Algebra.Group.Int.Defs
import Adb.Host.State
import Adb.Lib.Cut
import Adb.Lib.Loop
import Adb.Lib.Print

namespace Adb.Client

open Adb.Lib
open Adb.Host (Bytes ascii)

def LOCAL_CLIENT_PREFIX : Bytes := ascii "emulator-"

-- strtol with base 10, for a long of 32 bits.
def strtol10 (s : Bytes) : Int :=
  let value := fun digits => (decimalValue (digits.takeWhile isDecimal) : Int)
  let n := match s.dropWhile isSpace with
    | 45 :: rest => -value rest
    | 43 :: rest => value rest
    | rest => value rest
  max (-2 ^ 31) (min n (2 ^ 31 - 1))

-- What reads may hit: bytes behind the end of a block, or one that has been freed.
inductive BlockFault where
  | overread
  | freed
deriving DecidableEq

-- The loop over the lines of the reply. Pointers into tmp are indices of it.
structure LineScan where
  tmp : Bytes
  p : Nat
  serial : Option Nat
deriving DecidableEq

inductive ScanEnd where
  | several
  | ended (serial : Option Nat)
deriving DecidableEq

-- How much of the line it is given memcmp looks at is up to the library: it may stop
-- behind the first byte that differs, or take all the bytes it is asked to compare.
variable (looks : Bytes → Nat)

-- memcmp(p, LOCAL_CLIENT_PREFIX, sizeof(LOCAL_CLIENT_PREFIX) - 1) == 0
def beginsWithPrefix (tmp : Bytes) (p : Nat) : Except BlockFault Bool :=
  if p + looks ((tmp.drop p).takeWhile (· ≠ 0)) ≤ tmp.length then
    .ok (LOCAL_CLIENT_PREFIX <+: tmp.drop p)
  else
    .error .overread

def byteAt (tmp : Bytes) (i : Nat) : Except BlockFault UInt8 :=
  match tmp[i]? with
  | some c => .ok c
  | none => .error .overread

-- The line that begins at an index is cut at its newline; without one it ends with the
-- text. Where the next one begins comes with it.
def cutLine (tmp : Bytes) (p : Nat) : Except BlockFault (Bytes × Nat) :=
  match cutPiece 10 0 tmp p with
  | some cut => .ok cut
  | none => .error .overread

-- One turn.
def lineTurn (scan : LineScan) : Except BlockFault (LineScan ⊕ ScanEnd) := do
  let c ← byteAt scan.tmp scan.p
  if c = 0 then
    return .inr (.ended scan.serial)
  else
    let (tmp, q) ← cutLine scan.tmp scan.p
    let found ← beginsWithPrefix looks tmp scan.p
    if found then
      return if scan.serial = none then .inl ⟨tmp, q, some scan.p⟩ else .inr .several
    else
      return .inl ⟨tmp, q, scan.serial⟩

-- The text from an index of a block on; none is a block that has been freed.
def textAt (block : Option Bytes) (i : Nat) : Except BlockFault Bytes :=
  match block with
  | none => .error .freed
  | some bytes => .ok ((bytes.drop i).takeWhile (· ≠ 0))

-- What comes behind the loop. The reply is freed before its text is read.
def afterScan : ScanEnd → Except BlockFault Int
  | .several => .ok (-2)
  | .ended none => .ok (-1)
  | .ended (some serial) => do
      -- free(tmp)
      let tmp : Option Bytes := none
      let text ← textAt tmp (serial + LOCAL_CLIENT_PREFIX.length)
      return strtol10 text

-- adb_get_emulator_console_port without a serial, once there is a reply; the block has a
-- NUL behind it. none: the loop is not at its end yet.
def adbGetEmulatorConsolePort (fuel : Nat) (reply : Bytes) : Option (Except BlockFault Int) :=
  (loop (lineTurn looks) fuel ⟨reply ++ [0], 0, none⟩).map (· >>= afterScan)

section Scan

variable {looks : Bytes → Nat} {line text pre post : Bytes} {serial : Option Nat}

-- The scan, as it is of the lines.
def scanLines (looks : Bytes → Nat) (size : Nat) :
    Option Nat → List (Nat × Bytes) → Except BlockFault ScanEnd
  | serial, [] => .ok (.ended serial)
  | serial, (i, line) :: more =>
      if size < i + looks line then .error .overread
      else if LOCAL_CLIENT_PREFIX <+: line then
        if serial = none then scanLines looks size (some i) more else .ok .several
      else scanLines looks size serial more

-- The prefix has no NUL, so it is within the line or it is not there.
theorem prefix_line {name : Bytes} (hname : IsText name) (line post : Bytes) :
    name <+: line ++ 0 :: post ↔ name <+: line := by
  induction name generalizing line with
  | nil => simp
  | cons c name ih =>
      obtain ⟨hc, hname⟩ := isText_cons.mp hname
      cases line with
      | nil => simp [hc]
      | cons d line => simp [List.cons_prefix_cons, ih hname]

theorem beginsWithPrefix_eq (looks : Bytes → Nat) (pre post : Bytes) (hline : IsText line) :
    beginsWithPrefix looks (pre ++ (line ++ 0 :: post)) pre.length =
      if pre.length + looks line ≤ (pre ++ (line ++ 0 :: post)).length then
        .ok (decide (LOCAL_CLIENT_PREFIX <+: line))
      else .error .overread := by
  have hprefix : IsText LOCAL_CLIENT_PREFIX := by decide
  simp only [beginsWithPrefix, List.drop_left, takeWhile_until hline, prefix_line hprefix]

-- Where the scan goes on from a line.
def goOn (serial : Option Nat) (p : Nat) (tmp : Bytes) (q : Nat) (found : Bool) :
    LineScan ⊕ ScanEnd :=
  if found then if serial = none then .inl ⟨tmp, q, some p⟩ else .inr .several
    else .inl ⟨tmp, q, serial⟩

theorem byteAt_append (pre : Bytes) (c : UInt8) (post : Bytes) :
    byteAt (pre ++ c :: post) pre.length = .ok c := by
  simp [byteAt]

-- A line is cut, looked at, and left behind.
theorem lineTurn_eq (looks : Bytes → Nat) {tmp cut : Bytes} {p q : Nat} {c : UInt8}
    (serial : Option Nat)
    (hfirst : byteAt tmp p = .ok c) (hc : c ≠ 0) (hcut : cutPiece 10 0 tmp p = some (cut, q)) :
    lineTurn looks ⟨tmp, p, serial⟩ = (beginsWithPrefix looks cut p).map (goOn serial p cut q) := by
  simp only [lineTurn, hfirst, cutLine, hcut, if_neg hc, bind, Except.bind]
  cases beginsWithPrefix looks cut p with
  | error fault => rfl
  | ok found => cases found <;> rfl

-- The line is cut at its newline, and the next one begins behind it.
theorem lineTurn_line (looks : Bytes → Nat) (pre rest : Bytes) (serial : Option Nat)
    (hline : IsText line)
    (hten : 10 ∉ line) :
    lineTurn looks ⟨pre ++ (line ++ 10 :: rest), pre.length, serial⟩ =
      (beginsWithPrefix looks (pre ++ (line ++ 0 :: rest)) pre.length).map
        (goOn serial pre.length (pre ++ (line ++ 0 :: rest)) (pre.length + line.length + 1)) := by
  obtain ⟨c, hc, hfirst⟩ : ∃ c, c ≠ 0 ∧
      byteAt (pre ++ (line ++ 10 :: rest)) pre.length = .ok c := by
    cases line with
    | nil => exact ⟨10, by decide, byteAt_append pre 10 rest⟩
    | cons c line => exact ⟨c, (isText_cons.mp hline).1, byteAt_append pre c _⟩
  exact lineTurn_eq looks serial hfirst hc (cutPiece_piece hten hline pre rest)

-- The last one ends with the text.
theorem lineTurn_last (looks : Bytes → Nat) (pre post : Bytes) (serial : Option Nat)
    (hline : IsText line)
    (hten : 10 ∉ line) (hne : line ≠ []) :
    lineTurn looks ⟨pre ++ (line ++ 0 :: post), pre.length, serial⟩ =
      (beginsWithPrefix looks (pre ++ (line ++ 0 :: post)) pre.length).map
        (goOn serial pre.length (pre ++ (line ++ 0 :: post)) (pre.length + line.length)) := by
  have hcut := cutPiece_last hten hline (show (0 : UInt8) ≠ 10 by decide) pre post
  obtain ⟨c, rest, rfl⟩ := List.exists_cons_of_ne_nil hne
  exact lineTurn_eq looks serial (byteAt_append pre c _) (isText_cons.mp hline).1 hcut

-- One turn more, for the line in front.
theorem scan_cons {scan : LineScan} {tmp : Bytes} {i q size : Nat} {more : List (Nat × Bytes)}
    (hturn : lineTurn looks scan =
      (if i + looks line ≤ size then .ok (decide (LOCAL_CLIENT_PREFIX <+: line))
      else .error .overread : Except BlockFault Bool).map (goOn scan.serial i tmp q))
    (hmore : ∀ serial, ∃ fuel, loop (lineTurn looks) fuel ⟨tmp, q, serial⟩ =
      some (scanLines looks size serial more)) :
    ∃ fuel, loop (lineTurn looks) fuel scan =
      some (scanLines looks size scan.serial ((i, line) :: more)) := by
  rw [scanLines]
  by_cases hlooks : i + looks line ≤ size
  · rw [if_pos hlooks] at hturn
    rw [if_neg (Nat.not_lt.mpr hlooks)]
    by_cases hfound : LOCAL_CLIENT_PREFIX <+: line
    · rw [if_pos hfound]
      cases hserial : scan.serial with
      | none =>
          obtain ⟨fuel, hloop⟩ := hmore (some i)
          refine ⟨fuel + 1, ?_⟩
          rw [loop_succ (by rw [hturn]; simp [Except.map, goOn, hfound, hserial]; rfl), hloop]
          rfl
      | some first =>
          exact ⟨1, loop_leaves (by rw [hturn]; simp [Except.map, goOn, hfound, hserial])⟩
    · rw [if_neg hfound]
      obtain ⟨fuel, hloop⟩ := hmore scan.serial
      refine ⟨fuel + 1, ?_⟩
      rw [loop_succ (by rw [hturn]; simp [Except.map, goOn, hfound]; rfl), hloop]
  · rw [if_neg hlooks] at hturn
    rw [if_pos (Nat.not_le.mp hlooks)]
    refine ⟨1, ?_⟩
    simp only [loop, hturn, Except.map]

-- What is scanned comes to the same as the lines do.
theorem scan_eq (looks : Bytes → Nat) (post : Bytes) (htext : IsText text) (pre : Bytes) : ∀ serial,
    ∃ fuel, loop (lineTurn looks) fuel ⟨pre ++ (text ++ 0 :: post), pre.length, serial⟩ =
      some (scanLines looks (pre ++ (text ++ 0 :: post)).length serial
        (piecesFrom 10 pre.length text)) := by
  refine @pieces_induction UInt8 _ 10 0 (fun pre text => ∀ serial, ∃ fuel,
    loop (lineTurn looks) fuel ⟨pre ++ (text ++ 0 :: post), pre.length, serial⟩ =
      some (scanLines looks (pre ++ (text ++ 0 :: post)).length serial
        (piecesFrom 10 pre.length text)))
    ?_ ?_ ?_ pre text htext
  · intro pre serial
    refine ⟨1, loop_leaves ?_⟩
    have hbyte : byteAt (pre ++ ([] ++ 0 :: post)) pre.length = .ok 0 := byteAt_append pre 0 post
    simp only [lineTurn, hbyte, if_true, bind, Except.bind]
    rfl
  · intro pre line hten hline hne ih serial
    have hturn := lineTurn_last looks pre post serial hline hten hne
    rw [beginsWithPrefix_eq looks pre _ hline] at hturn
    rw [piecesFrom_last hten hne]
    refine scan_cons hturn fun serial => ?_
    have hnext := ih serial
    rwa [List.nil_append, List.append_assoc, List.length_append] at hnext
  · intro pre line rest hten hline ih serial
    have hassoc : line ++ 10 :: rest ++ 0 :: post = line ++ 10 :: (rest ++ 0 :: post) := by simp
    have hsize : (pre ++ (line ++ 0 :: (rest ++ 0 :: post))).length =
        (pre ++ (line ++ 10 :: (rest ++ 0 :: post))).length := by simp
    have hturn := lineTurn_line looks pre (rest ++ 0 :: post) serial hline hten
    rw [beginsWithPrefix_eq looks pre _ hline, hsize] at hturn
    rw [piecesFrom_piece hten, hassoc]
    refine scan_cons hturn fun serial => ?_
    have hp : (pre ++ (line ++ [0])).length = pre.length + line.length + 1 := by simp; omega
    have htmp : pre ++ (line ++ [0]) ++ (rest ++ 0 :: post) =
        pre ++ (line ++ 0 :: (rest ++ 0 :: post)) := by simp
    have hnext := ih serial
    rwa [htmp, hsize, hp] at hnext

end Scan

section Port

variable {looks : Bytes → Nat} {size : Nat} {serial : Option Nat} {lines : List (Nat × Bytes)}

def isEmulator (line : Nat × Bytes) : Bool := LOCAL_CLIENT_PREFIX <+: line.2

-- The lines that are looked at: up to the second one that is an emulator's.
def visited : Nat → List (Nat × Bytes) → List (Nat × Bytes)
  | _, [] => []
  | left, line :: more =>
      line :: (if isEmulator line then if left = 0 then [] else visited (left - 1) more
        else visited left more)

-- The lines of a reply, as far as it is a text.
def replyLines (reply : Bytes) : List (Nat × Bytes) := piecesFrom 10 0 (reply.takeWhile (· ≠ 0))

-- The port of the only emulator, -1 if there is none and -2 if there are several.
def portOf (reply : Bytes) : Int :=
  match (replyLines reply).filter isEmulator with
  | [] => -1
  | [(_, line)] => strtol10 (line.drop LOCAL_CLIENT_PREFIX.length)
  | _ => -2

def FindsPort (looks : Bytes → Nat) (reply : Bytes) : Prop :=
  ∃ fuel, adbGetEmulatorConsolePort looks fuel reply = some (.ok (portOf reply))

-- No comparison goes beyond the block.
def Inside (looks : Bytes → Nat) (size left : Nat) (lines : List (Nat × Bytes)) : Prop :=
  ∀ line ∈ visited left lines, line.1 + looks line.2 ≤ size

-- What one line adds to that.
theorem inside_cons {left : Nat} {line : Nat × Bytes} : Inside looks size left (line :: lines) ↔
    line.1 + looks line.2 ≤ size ∧
      (if isEmulator line then left = 0 ∨
        Inside looks size (left - 1) lines else Inside looks size left lines) := by
  simp only [Inside, visited, List.forall_mem_cons]
  split
  · split
    · rename_i hleft
      simp [hleft]
    · rename_i hleft
      simp [hleft]
  · rfl

theorem scanLines_cons (serial : Option Nat) (line : Nat × Bytes) (more : List (Nat × Bytes)) :
    scanLines looks size serial (line :: more) =
      if size < line.1 + looks line.2 then .error .overread
      else if isEmulator line then
        if serial = none then scanLines looks size (some line.1) more else .ok .several
      else scanLines looks size serial more := by
  obtain ⟨i, text⟩ := line
  simp only [scanLines, isEmulator, decide_eq_true_eq]

theorem scanLines_found (looks : Bytes → Nat) (size : Nat) (lines : List (Nat × Bytes))
    (first : Nat) :
    (Inside looks size 0 lines → scanLines looks size (some first) lines =
      .ok (if lines.any isEmulator then .several else .ended (some first))) ∧
    (¬Inside looks size 0 lines → scanLines looks size (some first) lines = .error .overread) := by
  induction lines with
  | nil => exact ⟨fun _ => rfl, fun h => absurd (by simp [Inside, visited]) h⟩
  | cons line more ih =>
      rw [scanLines_cons, inside_cons]
      by_cases hin : line.1 + looks line.2 ≤ size
      · cases hfound : isEmulator line with
        | false =>
            have hany : (line :: more).any isEmulator = more.any isEmulator := by
              rw [List.any_cons, hfound, Bool.false_or]
            rw [hany]
            simpa [hin, Nat.not_lt.mpr hin] using ih
        | true => simp [hin, Nat.not_lt.mpr hin, hfound]
      · simp [hin, Nat.not_le.mp hin]

def endOf (lines : List (Nat × Bytes)) : ScanEnd :=
  match lines.filter isEmulator with
  | [] => .ended none
  | [(i, _)] => .ended (some i)
  | _ => .several

theorem scanLines_none (looks : Bytes → Nat) (size : Nat) (lines : List (Nat × Bytes)) :
    (Inside looks size 1 lines → scanLines looks size none lines = .ok (endOf lines)) ∧
    (¬Inside looks size 1 lines → scanLines looks size none lines = .error .overread) := by
  induction lines with
  | nil => exact ⟨fun _ => rfl, fun h => absurd (by simp [Inside, visited]) h⟩
  | cons line more ih =>
      rw [scanLines_cons, inside_cons]
      by_cases hin : line.1 + looks line.2 ≤ size
      · cases hfound : isEmulator line with
        | false => simpa [hin, Nat.not_lt.mpr hin, hfound, endOf] using ih
        | true =>
            have hends : endOf (line :: more) =
                if more.any isEmulator then .several else .ended (some line.1) := by
              rw [endOf, List.filter_cons_of_pos hfound]
              cases hmore : more.filter isEmulator with
              | nil =>
                  have hnone : more.any isEmulator = false := by
                    rw [List.any_eq_false]
                    exact List.filter_eq_nil_iff.mp hmore
                  simp [hnone]
              | cons other rest =>
                  have hsome : more.any isEmulator = true := by
                    have hother : other ∈ more.filter isEmulator := by
                      rw [hmore]; exact List.mem_cons_self ..
                    exact List.any_eq_true.mpr ⟨other, List.mem_filter.mp hother⟩
                  simp [hsome]
            simpa [hin, Nat.not_lt.mpr hin, hfound, hends]
              using scanLines_found looks size more line.1
      · simp [hin, Nat.not_le.mp hin]

-- The block is a text with a NUL behind it, whatever else there is.
theorem block_text (reply : Bytes) :
    ∃ post, reply ++ [0] = reply.takeWhile (· ≠ 0) ++ 0 :: post := by
  have hsplit := List.takeWhile_append_dropWhile (p := (· ≠ 0)) (l := reply)
  cases hrest : reply.dropWhile (· ≠ 0) with
  | nil =>
      rw [hrest, List.append_nil] at hsplit
      exact ⟨[], by rw [hsplit]⟩
  | cons c rest =>
      have hc : c = 0 := by
        have hhead := List.head?_dropWhile_not (· ≠ (0 : UInt8)) reply
        rw [hrest] at hhead
        simpa using hhead
      subst hc
      refine ⟨rest ++ [0], ?_⟩
      rw [hrest] at hsplit
      rw [← List.cons_append, ← List.append_assoc, hsplit]

theorem scan_reply (looks : Bytes → Nat) (reply : Bytes) :
    ∃ fuel, loop (lineTurn looks) fuel ⟨reply ++ [0], 0, none⟩ =
      some (scanLines looks (reply.length + 1) none (replyLines reply)) := by
  obtain ⟨post, hblock⟩ := block_text reply
  have htext : IsText (reply.takeWhile (· ≠ 0)) := by
    intro h
    simpa using List.mem_takeWhile_imp h
  have hscan := scan_eq looks post htext [] none
  rw [List.nil_append, ← hblock, List.length_append] at hscan
  exact hscan

theorem findsPort_scan (looks : Bytes → Nat) (reply : Bytes) :
    FindsPort looks reply ↔
      scanLines looks (reply.length + 1) none (replyLines reply) >>= afterScan =
        .ok (portOf reply) := by
  obtain ⟨fuel, hscan⟩ := scan_reply looks reply
  constructor
  · rintro ⟨fuel', hport⟩
    obtain ⟨scanned, hloop, hend⟩ := Option.map_eq_some_iff.mp hport
    rw [loop_unique hscan hloop, hend]
  · intro hend
    exact ⟨fuel, by rw [adbGetEmulatorConsolePort, hscan, Option.map_some, hend]⟩

-- The port is found if and only if there is not exactly one: then its text is read from
-- the reply, which has been freed. And no line may be compared beyond the reply.
theorem finds_port_iff (looks : Bytes → Nat) (reply : Bytes) :
    FindsPort looks reply ↔ ((replyLines reply).filter isEmulator).length ≠ 1 ∧
      Inside looks (reply.length + 1) 1 (replyLines reply) := by
  obtain ⟨hinside, houtside⟩ := scanLines_none looks (reply.length + 1) (replyLines reply)
  rw [findsPort_scan]
  by_cases hin : Inside looks (reply.length + 1) 1 (replyLines reply)
  · rw [hinside hin, and_iff_left hin, portOf, endOf]
    cases (replyLines reply).filter isEmulator with
    | nil => exact iff_of_true rfl (by simp)
    | cons line more =>
        cases more with
        | nil => exact iff_of_false (fun h => by cases h) (by simp)
        | cons other rest => exact iff_of_true rfl (by simp)
  · rw [houtside hin]
    constructor
    · intro h
      cases h
    · exact fun h => absurd h.2 hin

theorem one_emulator_is_read_freed : ¬ ∀ looks reply, FindsPort looks reply := by
  intro h
  have hone := ((finds_port_iff (fun _ => LOCAL_CLIENT_PREFIX.length)
    (ascii "emulator-5554\tdevice\n")).mp
    (h _ _)).1
  exact hone (by decide)

end Port

end Adb.Client
