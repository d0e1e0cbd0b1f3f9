import Adb.Host.State
import Adb.Lib.Cut
import Adb.Lib.Loop
import Adb.Lib.Memory
import Adb.Lib.Print

namespace Adb.Device

open Adb.Lib
open Adb.Host (Bytes ascii)

inductive BackupOperation where
  | backup
  | restore
deriving DecidableEq

-- The string operation.
def BackupOperation.word : BackupOperation → Bytes
  | .backup => ascii "backup"
  | .restore => ascii "restore"

-- What the pointers of bu_args lead to. One into args is an index of it.
inductive CharPtr where
  | null
  | literal (s : Bytes)
  | portnum
  | args (p : Nat)
deriving DecidableEq

-- A turn of the first loop, over the block of args: p goes behind the next piece. The
-- cut itself is not made yet.
def countTurn (args : Bytes) (scan : Nat × Nat) : Except MemoryFault ((Nat × Nat) ⊕ Nat) :=
  let (p, argc) := scan
  match args[p]? with
  | none => .error .overread
  | some c =>
      if c = 0 then .ok (.inr argc)
      else
        match cutPiece 58 0 args p with
        | none => .error .overread
        | some (_, q) => .ok (.inl (q, argc + 1))

-- args is a block with a NUL behind the text, or NULL.
def countArgs (fuel : Nat) : Option Bytes → Option (Except MemoryFault Nat)
  | none => some (.ok 3)
  | some text => loop (countTurn (text ++ [0])) fuel (0, 3)

structure Filling where
  args : Bytes
  p : Nat
  bu_args : List (Option CharPtr)
  argc : Nat
deriving DecidableEq

-- A turn of the second loop.
def fillTurn (f : Filling) : Except MemoryFault (Filling ⊕ Filling) :=
  match f.args[f.p]? with
  | none => .error .overread
  | some c =>
      if c = 0 then .ok (.inr f)
      else do
        let bu_args ← store f.bu_args f.argc [.args f.p]
        match cutPiece 58 0 f.args f.p with
        | none => .error .overread
        | some (args, q) => return .inl ⟨args, q, bu_args, f.argc + 1⟩

def fillArgs (fuel : Nat) (bu_args : List (Option CharPtr)) :
    Option Bytes → Option (Except MemoryFault Filling)
  | none => some (.ok ⟨[], 0, bu_args, 3⟩)
  | some text => loop fillTurn fuel ⟨text ++ [0], 0, bu_args, 3⟩

-- What execvp is called with, and the memory behind its pointers.
structure Exec where
  bu_args : List (Option CharPtr)
  argc : Nat
  portnum : List Cell
  args : Bytes
deriving DecidableEq

def Exec.stringAt (e : Exec) : CharPtr → Except MemoryFault Bytes
  | .null => .error .overread
  | .literal s => .ok s
  | .portnum => readText e.portnum
  | .args p => readText ((e.args.drop p).map some)

-- The strings of a vector, up to its NULL.
def Exec.words (e : Exec) : List (Option CharPtr) → Except MemoryFault (List Bytes)
  | [] => .error .overread
  | none :: _ => .error .uninitialised
  | some .null :: _ => .ok []
  | some p :: rest => do
      let s ← e.stringAt p
      let more ← words e rest
      return s :: more

-- bu_args[0], bu_args[1] and bu_args[2]
def fixedArgs (op : BackupOperation) : List CharPtr :=
  [.literal (ascii "bu"), .portnum, .literal op.word]

-- The vector is built in a block for so many pointers; port is the descriptor s[1].
def buildVector (fuel places : Nat) (op : BackupOperation) (port : Int) (args : Option Bytes) :
    Option (Except MemoryFault Exec) :=
  match store (List.replicate places none) 0 (fixedArgs op) with
  | .error fault => some (.error fault)
  | .ok bu_args =>
      (fillArgs fuel bu_args args).map fun filled => do
        let f ← filled
        let bu_args ← store f.bu_args f.argc [.null]
        return ⟨bu_args, f.argc, (snprintf (fresh 16) 16 (printInt port)).1, f.args⟩

-- The child: alloca(argc*sizeof(char*) + 1) is room for as many pointers as fit into
-- that many bytes.
def backupChild (sizeofPtr fuel : Nat) (op : BackupOperation) (port : Int) (args : Option Bytes) :
    Option (Except MemoryFault Exec) :=
  match countArgs fuel args with
  | none => none
  | some (.error fault) => some (.error fault)
  | some (.ok argc) => buildVector fuel ((argc * sizeofPtr + 1) / sizeofPtr) op port args

-- The arguments of the string, each with the index it begins at.
def argPieces : Option Bytes → List (Nat × Bytes)
  | none => []
  | some text => piecesFrom 58 0 text

section Passes

variable {text pre : Bytes} {args : Option Bytes}

-- What the cuts leave of a text.
def cut (text : Bytes) : Bytes := text.map fun c => if c = 58 then 0 else c

theorem cut_piece {piece : Bytes} (h : 58 ∉ piece) : cut piece = piece := by
  refine (List.map_congr_left fun c hc => ?_).trans (List.map_id _)
  exact if_neg fun heq : c = 58 => h (heq ▸ hc)

theorem cut_cons {piece : Bytes} (h : 58 ∉ piece) (rest : Bytes) :
    cut (piece ++ 58 :: rest) = piece ++ 0 :: cut rest := by
  have happend : cut (piece ++ 58 :: rest) = cut piece ++ cut (58 :: rest) := List.map_append
  rw [happend, cut_piece h]
  rfl

-- Where a piece begins there is a byte, and it ends the text only if the text is over.
theorem first_byte (pre rest : Bytes) {piece : Bytes} {d : UInt8} (hpiece : IsText piece)
    (hd : piece ≠ [] ∨ d ≠ 0) :
    ∃ c, c ≠ 0 ∧ (pre ++ (piece ++ d :: rest))[pre.length]? = some c := by
  cases piece with
  | nil =>
      obtain h | hd := hd
      · exact absurd rfl h
      · exact ⟨d, hd, by simp⟩
  | cons c piece => exact ⟨c, (isText_cons.mp hpiece).1, by simp⟩

-- A turn of the first loop.
theorem countTurn_piece {block cutBlock : Bytes} {p q : Nat} (argc : Nat) {c : UInt8}
    (hfirst : block[p]? = some c)
    (hc : c ≠ 0) (hcut : cutPiece 58 0 block p = some (cutBlock, q)) :
    countTurn block (p, argc) = .ok (.inl (q, argc + 1)) := by
  simp only [countTurn, hfirst, if_neg hc, hcut]

-- It finds as many pieces as there are. The block is not cut by it.
theorem count_pieces (htext : IsText text) (pre : Bytes) :
    ∀ before argc, before.length = pre.length →
    ∃ fuel, loop (countTurn (before ++ (text ++ [0]))) fuel (pre.length, argc) =
      some (.ok (argc + (piecesFrom 58 pre.length text).length)) := by
  refine @pieces_induction UInt8 _ 58 0 (fun pre text => ∀ before argc, before.length = pre.length →
    ∃ fuel, loop (countTurn (before ++ (text ++ [0]))) fuel (pre.length, argc) =
      some (.ok (argc + (piecesFrom 58 pre.length text).length))) ?_ ?_ ?_ pre text htext
  · intro pre before argc hbefore
    refine ⟨1, loop_leaves ?_⟩
    rw [← hbefore]
    simp [countTurn, piecesFrom]
  · intro pre piece hsep hpiece hne ih before argc hbefore
    obtain ⟨c, hc, hfirst⟩ := first_byte before [] hpiece (d := 0) (.inl hne)
    have hcut := cutPiece_last hsep hpiece (show (0 : UInt8) ≠ 58 by decide) before []
    obtain ⟨fuel, hloop⟩ := ih (before ++ piece) (argc + 1) (by simp [hbefore])
    rw [hbefore] at hfirst hcut
    rw [List.nil_append, List.append_assoc, List.length_append] at hloop
    refine ⟨fuel + 1, ?_⟩
    rw [loop_succ (countTurn_piece argc hfirst hc hcut), hloop, piecesFrom_last hsep hne]
    rfl
  · intro pre piece rest hsep hpiece ih before argc hbefore
    obtain ⟨c, hc, hfirst⟩ := first_byte before (rest ++ [0]) hpiece (d := 58) (.inr (by decide))
    have hcut := cutPiece_piece hsep hpiece before (rest ++ [0])
    have hassoc : piece ++ 58 :: rest ++ [0] = piece ++ 58 :: (rest ++ [0]) := by simp
    have hlen : (pre ++ (piece ++ [0])).length = pre.length + piece.length + 1 := by simp; omega
    obtain ⟨fuel, hloop⟩ := ih (before ++ (piece ++ [58])) (argc + 1) (by simp [hbefore])
    have hbuffer : before ++ (piece ++ [58]) ++ (rest ++ [0]) =
        before ++ (piece ++ 58 :: (rest ++ [0])) := by simp
    rw [hbefore] at hfirst hcut
    rw [hbuffer, hlen] at hloop
    refine ⟨fuel + 1, ?_⟩
    rw [hassoc, loop_succ (countTurn_piece argc hfirst hc hcut), hloop, piecesFrom_piece hsep,
      List.length_cons, Nat.add_right_comm, Nat.add_assoc]

theorem fillTurn_piece {block cutBlock : Bytes} {p q : Nat} {c : UInt8} (pointers : List CharPtr)
    {rest : List (Option CharPtr)} (hroom : 0 < rest.length)
    (hfirst : block[p]? = some c) (hc : c ≠ 0)
    (hcut : cutPiece 58 0 block p = some (cutBlock, q)) :
    fillTurn ⟨block, p, pointers.map some ++ rest, pointers.length⟩ =
      .ok (.inl ⟨cutBlock, q, (pointers ++ [CharPtr.args p]).map some ++ rest.drop 1,
        (pointers ++ [CharPtr.args p]).length⟩) := by
  have hstore := store_written pointers [CharPtr.args p] hroom
  simp only [fillTurn, hfirst, if_neg hc, hcut, hstore, bind, Except.bind]
  rw [List.length_append]
  rfl

def pointersTo (pieces : List (Nat × Bytes)) : List CharPtr := pieces.map fun piece => .args piece.1

-- The second loop stores a pointer to each of them, as far as there are places, and
-- cuts them off from each other.
theorem fill_pieces (htext : IsText text) (pre : Bytes) :
    ∀ (pointers : List CharPtr) (rest : List (Option CharPtr)),
    (piecesFrom 58 pre.length text).length ≤ rest.length →
    ∃ fuel p, loop fillTurn fuel ⟨pre ++ (text ++ [0]), pre.length, pointers.map some ++ rest,
      pointers.length⟩ =
      some (.ok ⟨pre ++ (cut text ++ [0]), p,
        (pointers ++ pointersTo (piecesFrom 58 pre.length text)).map some ++
          rest.drop (piecesFrom 58 pre.length text).length,
        pointers.length + (piecesFrom 58 pre.length text).length⟩) := by
  refine @pieces_induction UInt8 _ 58 0
    (fun pre text => ∀ (pointers : List CharPtr) (rest : List (Option CharPtr)),
    (piecesFrom 58 pre.length text).length ≤ rest.length →
    ∃ fuel p, loop fillTurn fuel ⟨pre ++ (text ++ [0]), pre.length, pointers.map some ++ rest,
      pointers.length⟩ =
      some (.ok ⟨pre ++ (cut text ++ [0]), p,
        (pointers ++ pointersTo (piecesFrom 58 pre.length text)).map some ++
          rest.drop (piecesFrom 58 pre.length text).length,
        pointers.length + (piecesFrom 58 pre.length text).length⟩)) ?_ ?_ ?_ pre text htext
  · intro pre pointers rest _
    refine ⟨1, pre.length, loop_leaves ?_⟩
    simp [fillTurn, piecesFrom, cut, pointersTo]
  · intro pre piece hsep hpiece hne ih pointers rest hroom
    rw [piecesFrom_last hsep hne] at hroom ⊢
    obtain ⟨c, hc, hfirst⟩ := first_byte pre [] hpiece (d := 0) (.inl hne)
    have hcut := cutPiece_last hsep hpiece (show (0 : UInt8) ≠ 58 by decide) pre []
    obtain ⟨fuel, p, hloop⟩ := ih (pointers ++ [.args pre.length]) (rest.drop 1) (Nat.zero_le _)
    have hlen : (pre ++ piece).length = pre.length + piece.length := List.length_append
    rw [List.nil_append, List.append_assoc, hlen] at hloop
    refine ⟨fuel + 1, p, ?_⟩
    rw [loop_succ (fillTurn_piece pointers hroom hfirst hc hcut), hloop, cut_piece hsep]
    simp [piecesFrom, pointersTo, cut]
  · intro pre piece rest' hsep hpiece ih pointers rest hroom
    rw [piecesFrom_piece hsep] at hroom ⊢
    rw [List.length_cons] at hroom
    obtain ⟨c, hc, hfirst⟩ := first_byte pre (rest' ++ [0]) hpiece (d := 58) (.inr (by decide))
    have hcut := cutPiece_piece hsep hpiece pre (rest' ++ [0])
    have hassoc : piece ++ 58 :: rest' ++ [0] = piece ++ 58 :: (rest' ++ [0]) := by simp
    have hlen : (pre ++ (piece ++ [0])).length = pre.length + piece.length + 1 := by simp; omega
    have hbuffer : pre ++ (piece ++ [0]) ++ (rest' ++ [0]) =
        pre ++ (piece ++ 0 :: (rest' ++ [0])) := by simp
    have hnext := ih (pointers ++ [.args pre.length]) (rest.drop 1)
    rw [hbuffer, hlen] at hnext
    have hroom' : (piecesFrom 58 (pre.length + piece.length + 1) rest').length ≤
        (rest.drop 1).length := by
      rw [List.length_drop]
      omega
    obtain ⟨fuel, p, hloop⟩ := hnext hroom'
    have hplace : 0 < rest.length := by omega
    refine ⟨fuel + 1, p, ?_⟩
    rw [hassoc, loop_succ (fillTurn_piece pointers hplace hfirst hc hcut), hloop, cut_cons hsep]
    simp [pointersTo, Nat.add_assoc, Nat.add_comm]

-- Each pointer leads to its piece then.
theorem readText_pieces (htext : IsText text) (pre : Bytes) :
    ∀ piece ∈ piecesFrom 58 pre.length text,
    readText (((pre ++ (cut text ++ [0])).drop piece.1).map some) = .ok piece.2 := by
  refine @pieces_induction UInt8 _ 58 0 (fun pre text => ∀ piece ∈ piecesFrom 58 pre.length text,
    readText (((pre ++ (cut text ++ [0])).drop piece.1).map some) =
      .ok piece.2) ?_ ?_ ?_ pre text htext
  · intro pre piece hpiece
    cases hpiece
  · intro pre piece hsep hpiece hne _ first hfirst
    rw [piecesFrom_last hsep hne, List.mem_singleton] at hfirst
    subst hfirst
    rw [List.drop_left, cut_piece hsep, readText_until, IsText.takeWhile_ne hpiece]
  · intro pre piece rest hsep hpiece ih other hother
    have hbuffer : pre ++ (piece ++ [0]) ++ (cut rest ++ [0]) =
        pre ++ (cut (piece ++ 58 :: rest) ++ [0]) := by
      rw [cut_cons hsep]
      simp
    rw [piecesFrom_piece hsep] at hother
    obtain rfl | hother := List.mem_cons.mp hother
    · rw [List.drop_left, cut_cons hsep, List.append_assoc, List.cons_append, readText_until,
        IsText.takeWhile_ne hpiece]
    · have hlen : (pre ++ (piece ++ [0])).length = pre.length + piece.length + 1 := by simp; omega
      rw [hbuffer, hlen] at ih
      exact ih other hother

end Passes

section Vector

variable {sizeofPtr places argc : Nat} {op : BackupOperation} {port : Int}
  {args : Option Bytes} {e : Exec}

theorem words_pointers {pieces : List (Nat × Bytes)} (rest : List (Option CharPtr))
    (hpieces : ∀ piece ∈ pieces, e.stringAt (.args piece.1) = .ok piece.2) :
    e.words ((pointersTo pieces ++ [CharPtr.null]).map some ++ rest) =
      .ok (pieces.map Prod.snd) := by
  induction pieces with
  | nil => rfl
  | cons piece pieces ih =>
      obtain ⟨hpiece, hpieces⟩ := List.forall_mem_cons.mp hpieces
      have hmore := ih hpieces
      simp only [pointersTo, List.map_cons, List.cons_append, Exec.words, hpiece, bind,
        Except.bind] at hmore ⊢
      rw [hmore]
      rfl

theorem countArgs_eq (htext : ∀ text ∈ args, IsText text) :
    ∃ fuel, countArgs fuel args = some (.ok (3 + (argPieces args).length)) := by
  cases args with
  | none => exact ⟨0, rfl⟩
  | some text => exact count_pieces (htext text rfl) [] [] 3 rfl

-- Both passes have the memory that they ask for.
theorem fillArgs_eq (htext : ∀ text ∈ args, IsText text) {pointers : List CharPtr}
    {rest : List (Option CharPtr)}
    (hthree : pointers.length = 3) (hroom : (argPieces args).length ≤ rest.length) :
    ∃ fuel f, fillArgs fuel (pointers.map some ++ rest) args = some (.ok f) ∧
      f.bu_args = (pointers ++ pointersTo (argPieces args)).map some ++
        rest.drop (argPieces args).length ∧
      f.argc = 3 + (argPieces args).length ∧
      ∀ piece ∈ argPieces args, readText ((f.args.drop piece.1).map some) = .ok piece.2 := by
  cases args with
  | none => exact ⟨0, _, rfl, by simp [argPieces, pointersTo], rfl, by simp [argPieces]⟩
  | some text =>
      obtain ⟨fuel, p, hloop⟩ := fill_pieces (htext text rfl) [] pointers rest hroom
      rw [hthree] at hloop
      exact ⟨fuel, _, hloop, rfl, rfl, readText_pieces (htext text rfl) []⟩

-- The fixed words and a pointer to each piece have a place each. Then NULL is stored.
theorem buildVector_eq (op : BackupOperation) (port : Int) (htext : ∀ text ∈ args, IsText text)
    (hroom : 3 + (argPieces args).length ≤ places) :
    ∃ (fuel : Nat) (f : Filling), f.argc = 3 + (argPieces args).length ∧
      (∀ piece ∈ argPieces args, readText ((f.args.drop piece.1).map some) = .ok piece.2) ∧
      buildVector fuel places op port args =
        some ((store ((fixedArgs op ++ pointersTo (argPieces args)).map some ++
            List.replicate (places - (3 + (argPieces args).length)) none)
          (fixedArgs op ++ pointersTo (argPieces args)).length [CharPtr.null]).map
          fun bu_args =>
            ⟨bu_args, f.argc, (snprintf (fresh 16) 16 (printInt port)).1, f.args⟩) := by
  have hthree : (fixedArgs op).length = 3 := rfl
  have hplaces : (fixedArgs op).length ≤
      (List.replicate places (none : Option CharPtr)).length := by
    rw [List.length_replicate, hthree]
    omega
  have hfixed := store_written [] (fixedArgs op) hplaces
  rw [List.drop_replicate, hthree, List.nil_append] at hfixed
  have hrest : (argPieces args).length ≤
      (List.replicate (places - 3) (none : Option CharPtr)).length := by
    rw [List.length_replicate]
    omega
  obtain ⟨fuel, f, hfill, hargs, hargc, hread⟩ := fillArgs_eq htext hthree hrest
  have hlen : (fixedArgs op ++ pointersTo (argPieces args)).length = f.argc := by
    rw [List.length_append, hthree, hargc, pointersTo, List.length_map]
  rw [List.drop_replicate, Nat.sub_sub] at hargs
  refine ⟨fuel, f, hargc, hread, ?_⟩
  rw [hlen, ← hargs]
  unfold buildVector
  rw [show store (List.replicate places none) 0 (fixedArgs op) = _ from hfixed]
  simp only [hfill, Option.map_some, bind, Except.bind]
  cases store f.bu_args f.argc [CharPtr.null] with
  | error fault => rfl
  | ok bu_args => rfl

-- The words that bu is called with: the fixed ones, and the pieces of the string.
def buWords (op : BackupOperation) (port : Int) (args : Option Bytes) : List Bytes :=
  ascii "bu" :: printInt port :: op.word :: (argPieces args).map Prod.snd

-- Where there is a place for NULL too, the vector is as it should be, and both passes
-- find as many arguments.
theorem vector_of_room (op : BackupOperation) (port : Int) (htext : ∀ text ∈ args, IsText text)
    (hroom : 3 + (argPieces args).length < places) :
    ∃ fuel e, buildVector fuel places op port args = some (.ok e) ∧
      e.argc = 3 + (argPieces args).length ∧ e.words e.bu_args = .ok (buWords op port args) := by
  obtain ⟨fuel, f, hargc, hread, hbuild⟩ := buildVector_eq op port htext (Nat.le_of_lt hroom)
  have hplace : [CharPtr.null].length ≤
      (List.replicate (places - (3 + (argPieces args).length)) (none : Option CharPtr)).length := by
    rw [List.length_replicate, List.length_singleton]
    omega
  rw [store_written _ _ hplace] at hbuild
  refine ⟨fuel, _, hbuild, hargc, ?_⟩
  have hport : readText (snprintf (fresh 16) 16 (printInt port)).1 = .ok (printInt port) :=
    readText_snprintf_lt (isText_printInt port)
      (Nat.lt_of_le_of_lt (length_printInt_le port) (by decide))
  simp only [fixedArgs, List.cons_append, List.nil_append, List.map_cons, Exec.words,
    Exec.stringAt, hport, bind, Except.bind]
  rw [words_pointers _ hread]
  rfl

-- Without one, its store is beyond the block.
theorem null_overruns (op : BackupOperation) (port : Int) (htext : ∀ text ∈ args, IsText text)
    (hplaces : places = 3 + (argPieces args).length) :
    ∃ fuel, buildVector fuel places op port args = some (.error .overrun) := by
  obtain ⟨fuel, f, -, -, hbuild⟩ := buildVector_eq op port htext (Nat.le_of_eq hplaces.symm)
  refine ⟨fuel, ?_⟩
  rw [hbuild, hplaces, Nat.sub_self, List.replicate_zero, List.append_nil]
  have hover : store ((fixedArgs op ++ pointersTo (argPieces args)).map some)
      (fixedArgs op ++ pointersTo (argPieces args)).length [CharPtr.null] = .error .overrun :=
        store_overrun (by simp)
  rw [hover]
  rfl

theorem fillArgs_unique {fuel fuel' : Nat} {bu_args : List (Option CharPtr)}
    {r r' : Except MemoryFault Filling}
    (h : fillArgs fuel bu_args args = some r)
    (h' : fillArgs fuel' bu_args args = some r') : r = r' := by
  cases args with
  | none => exact Option.some.inj (h.symm.trans h')
  | some text => exact loop_unique h h'

theorem countArgs_unique {fuel fuel' : Nat} {r r' : Except MemoryFault Nat}
    (h : countArgs fuel args = some r)
    (h' : countArgs fuel' args = some r') : r = r' := by
  cases args with
  | none => exact Option.some.inj (h.symm.trans h')
  | some text => exact loop_unique h h'

theorem buildVector_unique {fuel fuel' : Nat} {r r' : Except MemoryFault Exec}
    (h : buildVector fuel places op port args = some r)
    (h' : buildVector fuel' places op port args = some r') :
    r = r' := by
  unfold buildVector at h h'
  cases hfixed : store (List.replicate places none) 0 (fixedArgs op) with
  | error fault =>
      rw [hfixed] at h h'
      exact Option.some.inj (h.symm.trans h')
  | ok bu_args =>
      rw [hfixed] at h h'
      obtain ⟨filled, hfill, hr⟩ := Option.map_eq_some_iff.mp h
      obtain ⟨filled', hfill', hr'⟩ := Option.map_eq_some_iff.mp h'
      rw [← hr, ← hr', fillArgs_unique hfill hfill']

-- The byte that is allocated for NULL is no place for a pointer.
theorem places_eq (argc : Nat) (hptr : 1 < sizeofPtr) :
    (argc * sizeofPtr + 1) / sizeofPtr = argc := by
  rw [Nat.mul_comm, Nat.mul_add_div (by omega), Nat.div_eq_of_lt hptr, Nat.add_zero]

-- So bu is not called, whatever the string.
theorem backupChild_faults (op : BackupOperation) (port : Int) (hptr : 1 < sizeofPtr)
    (htext : ∀ text ∈ args, IsText text) (fuel : Nat) :
    backupChild sizeofPtr fuel op port args ≠ some (.ok e) := by
  intro hchild
  obtain ⟨fuel', hover⟩ := null_overruns op port htext rfl
  obtain ⟨fuel'', hcount⟩ := countArgs_eq htext
  cases hpass : countArgs fuel args with
  | none =>
      rw [backupChild, hpass] at hchild
      cases hchild
  | some counted =>
      have hargc := countArgs_unique hpass hcount
      rw [hargc] at hpass
      simp only [backupChild, hpass, places_eq _ hptr] at hchild
      cases buildVector_unique hchild hover

-- The two passes agree, and bu is called with its words.
def ExecsVector (sizeofPtr : Nat) (op : BackupOperation) (port : Int)
    (args : Option Bytes) : Prop :=
  ∃ fuel e, backupChild sizeofPtr fuel op port args = some (.ok e) ∧
    countArgs fuel args = some (.ok e.argc) ∧ e.words e.bu_args = .ok (buWords op port args)

theorem never_execs_vector (sizeofPtr : Nat) (hptr : 1 < sizeofPtr)
    (op : BackupOperation) (port : Int)
    (args : Option Bytes) (htext : ∀ text ∈ args, IsText text) :
    ¬ ExecsVector sizeofPtr op port args :=
  fun ⟨fuel, _, hchild, _⟩ => backupChild_faults op port hptr htext fuel hchild

theorem never_execs_vector_of_all : ¬ ExecsVector 4 .backup 7 (some (ascii "-all:")) :=
  never_execs_vector 4 (by decide) .backup 7 (some (ascii "-all:")) (by decide)

theorem restore_is_not_executed :
    ¬ ∀ op port args, (∀ text ∈ args, IsText text) → ExecsVector 4 op port args := by
  intro h
  obtain ⟨fuel, e, hchild, -⟩ := h .restore 7 none (by simp)
  exact backupChild_faults .restore 7 (by decide) (by simp) fuel hchild

end Vector

end Adb.Device
