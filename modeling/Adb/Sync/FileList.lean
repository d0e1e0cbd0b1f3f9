import Adb.Lib.Ensures
import Adb.Lib.Path
import Adb.Lib.Refine
import Adb.Sync.Listing

namespace Adb.Sync

open Adb.Lib

def S_IFDIR : UInt32 := 0x4000

structure CopyInfo where
  src : List UInt8
  dst : List UInt8
  time : UInt32
  mode : UInt32
  size : UInt32
  flag : Bool
deriving DecidableEq

def mkcopyinfo (spath dpath name : List UInt8) (isdir : Bool) : CopyInfo where
  src := spath ++ name ++ if isdir then [47] else []
  dst := dpath ++ name ++ if isdir then [47] else []
  time := 0
  mode := 0
  size := 0
  flag := false

structure BuildLists where
  dirlist : List CopyInfo
  filelist : List CopyInfo

def Listed.isDirectory (e : Listed) : Bool := e.mode &&& S_IFMT = S_IFDIR

-- S_ISLNK is 0 here, so a link counts as a special file.
def Listed.isFile (e : Listed) : Bool := e.mode &&& S_IFMT = S_IFREG

-- "." and ".." are left out where the entry is a directory.
def syncLsBuildListCb (rpath lpath : List UInt8) (lists : BuildLists) (e : Listed) : BuildLists :=
  if e.isDirectory then
    if e.name = [46] ∨ e.name = [46, 46] then
      lists
    else
      { lists with dirlist := mkcopyinfo rpath lpath e.name true :: lists.dirlist }
  else if e.isFile then
    let ci := { mkcopyinfo rpath lpath e.name false with time := e.time, mode := e.mode, size := e.size }
    { lists with filelist := ci :: lists.filelist }
  else
    lists

-- Why a list is not built: endless is the bound that the model puts on the depth
-- of the calls.
inductive BuildStop where
  | memory (fault : MemoryFault)
  | endless
deriving DecidableEq

section Directories

variable {δ β γ : Type}

-- One directory after the other, until one fails.
def eachDirectory (build : Conn → β → δ → Except BuildStop (Int × β × Conn)) :
    List δ → Conn → β → Except BuildStop (Int × β × Conn)
  | [], c, files => .ok (0, files, c)
  | dir :: dirs, c, files =>
      match build c files dir with
      | .error stop => .error stop
      | .ok (code, files, c) => if code ≠ 0 then .ok (1, files, c) else eachDirectory build dirs c files

end Directories

def remoteBuildList : Nat → Conn → List CopyInfo → List UInt8 → List UInt8 →
    Except BuildStop (Int × List CopyInfo × Conn)
  | 0, _, _, _, _ => .error .endless
  | depth + 1, c, filelist, rpath, lpath =>
      match syncLs c rpath with
      | .error fault => .error (.memory fault)
      | .ok (code, listed, c) =>
          let lists := listed.foldl (syncLsBuildListCb rpath lpath) ⟨[], filelist⟩
          if code ≠ 0 then
            .ok (1, lists.filelist, c)
          else
            eachDirectory (fun c filelist dir => remoteBuildList depth c filelist dir.src dir.dst)
              lists.dirlist c lists.filelist

def slashed (path : List UInt8) : List UInt8 :=
  if path.getLast? = some 47 then path else path ++ [47]

-- Each directory takes a record of twenty bytes from the device at least.
def buildDepth (c : Conn) : Nat := (readable c.input).length + 1

section Copying

variable {π : Type} [DecidableEq π]

-- What is there at each local place.
abbrev Targets (π : Type) : Type := π → LocalTarget

-- Which place a local path leads to is up to the system: it may take two paths for one.
variable (place : List UInt8 → π)

def copyFiles : List CopyInfo → Conn → Targets π → Except BuildStop (Int × Conn × Targets π)
  | [], c, targets => .ok (0, c, targets)
  | ci :: files, c, targets =>
      if ci.flag then
        copyFiles files c targets
      else
        match syncRecv c ci.src (targets (place ci.dst)) with
        | .error fault => .error (.memory fault)
        | .ok (code, c, t) =>
            let targets := Function.update targets (place ci.dst) t
            if code ≠ 0 then .ok (1, c, targets) else copyFiles files c targets

-- The file list of copy_remote_dir_local.
def fileList (c : Conn) (rpath lpath : List UInt8) : Except BuildStop (Int × List CopyInfo × Conn) :=
  remoteBuildList (buildDepth c) c [] (slashed rpath) (slashed lpath)

def copyRemoteDirLocal (c : Conn) (rpath lpath : List UInt8) (targets : Targets π) :
    Except BuildStop (Int × Conn × Targets π) :=
  if rpath = [] ∨ lpath = [] then
    .ok (-1, c, targets)
  else
    match fileList c rpath lpath with
    | .error stop => .error stop
    | .ok (code, files, c) => if code ≠ 0 then .ok (-1, c, targets) else copyFiles place files c targets

end Copying

-- '/' and '\\', as adb_dirstop has them.
def isSeparator (c : UInt8) : Bool := c = 47 || c = 92

def hopOf (component : List UInt8) : Hop (List UInt8) :=
  if component = [] ∨ component = [46] then .stay
  else if component = [46, 46] then .up
  else .down component

def hops (path : List UInt8) : List (Hop (List UInt8)) :=
  (path.splitOnP isSeparator).map hopOf

def normalise (path : List UInt8) : Place (List UInt8) :=
  (⟨path.head?.any isSeparator, 0, []⟩ : Place (List UInt8)).walk (hops path)

-- An entry that the device lists, with the names of the directories it is in.
structure Announced where
  dirs : List (List UInt8)
  entry : Listed

def joined (dirs : List (List UInt8)) : List UInt8 := dirs.flatMap (· ++ [47])

def Announced.path (a : Announced) : List UInt8 := joined a.dirs ++ a.entry.name

def Listed.isFollowed (e : Listed) : Bool :=
  e.isDirectory && !(e.name = [46] || e.name = [46, 46])

-- The listing of a directory and of all that are followed from there, in the
-- order in which it comes.
def remoteListing : Nat → Conn → List Announced → List UInt8 → List (List UInt8) →
    Except BuildStop (Int × List Announced × Conn)
  | 0, _, _, _, _ => .error .endless
  | depth + 1, c, seen, rpath, dirs =>
      match syncLs c (rpath ++ joined dirs) with
      | .error fault => .error (.memory fault)
      | .ok (code, listed, c) =>
          let seen := seen ++ listed.map (Announced.mk dirs)
          if code ≠ 0 then
            .ok (1, seen, c)
          else
            eachDirectory (fun c seen dirs => remoteListing depth c seen rpath dirs)
              ((listed.filter Listed.isFollowed).reverse.map fun e => dirs ++ [e.name]) c seen

def announced (c : Conn) (rpath : List UInt8) : List Announced :=
  match remoteListing (buildDepth c) c [] (slashed rpath) [] with
  | .error _ => []
  | .ok (_, seen, _) => seen

-- The names of an entry, one after the other, climb no higher than they lead down
-- again by the names of lpath, and they end below it.
def StaysBelow (lpath : List UInt8) (a : Announced) : Prop :=
  let way := Place.way (hops a.path)
  let base := normalise lpath
  (base.rooted = true ∨ way.ups ≤ base.downs.length) ∧
    ∃ rest, rest ≠ [] ∧ way.downs = base.downs.drop (base.downs.length - way.ups) ++ rest

section Ends

variable {c c' : Conn} {path : List UInt8} {listed out : List Listed}

theorem readInto_shrinks {cap len : Nat} {bytes : List UInt8}
    (h : readInto cap c len = .ok (.done bytes c')) :
    (readable c'.input).length ≤ (readable c.input).length := by
  unfold readInto at h
  obtain ⟨input, he, hrest, -⟩ | ⟨input, he, -⟩ := c.readx_cases len
  · rw [he] at h
    dsimp only at h
    split at h
    · cases h
    · cases h
      rw [hrest, List.length_drop]
      omega
  · rw [he] at h
    dsimp only at h
    split at h <;> cases h

-- A listing that comes to its end has taken the record that ends it.
theorem lsLoop_shrinks {fuel : Nat} (h : lsLoop fuel c listed = .ok (0, out, c')) :
    (readable c'.input).length + 20 ≤ (readable c.input).length := by
  induction fuel generalizing c listed with
  | zero => simp [lsLoop] at h
  | succ fuel ih =>
      unfold lsLoop at h
      obtain ⟨input, he, hrest, hlen⟩ | ⟨input, he, -⟩ := c.readx_cases 20
      · have hdrop : (readable input).length + 20 = (readable c.input).length := by
          rw [hrest, List.length_drop]
          omega
        rw [he] at h
        dsimp only at h
        split at h
        · simp only [Except.ok.injEq, Prod.mk.injEq, true_and] at h
          rw [← h.2]
          exact hdrop.le
        split at h
        · simp at h
        split at h
        · simp at h
        split at h
        · cases h
        · simp at h
        · rename_i buf next hread
          have hnext := readInto_shrinks hread
          have hloop := ih h
          simp only at hnext
          omega
      · rw [he] at h
        simp at h

theorem syncLs_shrinks (h : syncLs c path = .ok (0, out, c')) :
    (readable c'.input).length + 20 ≤ (readable c.input).length := by
  unfold syncLs at h
  split at h
  · simp at h
  have hsends := c.writeAll_sends [syncmsg [ID_LIST, UInt32.ofNat path.length], path]
  split at h
  · simp at h
  · rename_i next hnext
    rw [hnext] at hsends
    rw [← hsends.1]
    exact lsLoop_shrinks h

-- What is left to read bounds the depth.
theorem remoteBuildList_ends (depth : Nat) (c : Conn) (files : List CopyInfo)
    (rpath lpath : List UInt8) (hdepth : (readable c.input).length < depth) :
    Ensures (remoteBuildList depth c files rpath lpath)
      (fun r => r.1 = 0 → (readable r.2.2.input).length ≤ (readable c.input).length)
      (· ≠ .endless) := by
  induction depth generalizing c files rpath lpath with
  | zero => omega
  | succ depth ih =>
      unfold remoteBuildList
      cases hls : syncLs c rpath with
      | error fault => simp
      | ok result =>
          obtain ⟨code, listed, next⟩ := result
          dsimp only
          split
          · simp
          · rename_i hcode
            have hzero : code = 0 := by simpa using hcode
            subst hzero
            have hshrinks := syncLs_shrinks hls
            -- the directories, each from where the one before has left off
            have hloop : ∀ (dirs : List CopyInfo) (mid : Conn) (files : List CopyInfo),
                (readable mid.input).length ≤ (readable next.input).length →
                Ensures (eachDirectory
                    (fun c files dir => remoteBuildList depth c files dir.src dir.dst) dirs mid files)
                  (fun r => r.1 = 0 → (readable r.2.2.input).length ≤ (readable c.input).length)
                  (· ≠ .endless) := by
              intro dirs
              induction dirs with
              | nil =>
                  intro mid files hmid _
                  show (readable mid.input).length ≤ _
                  omega
              | cons dir dirs ihd =>
                  intro mid files hmid
                  have hdir := ih mid files dir.src dir.dst (by omega)
                  unfold eachDirectory
                  cases hbuild : remoteBuildList depth mid files dir.src dir.dst with
                  | error stop => exact hdir.of_error hbuild
                  | ok result =>
                      have hok := hdir.of_ok hbuild
                      obtain ⟨code, files, after⟩ := result
                      dsimp only at hok ⊢
                      split
                      · simp
                      · rename_i hcode
                        exact ihd after files ((hok (by simpa using hcode)).trans hmid)
            exact hloop _ next _ le_rfl

theorem fileList_ends (c : Conn) (rpath lpath : List UInt8) : fileList c rpath lpath ≠ .error .endless := by
  have hends := remoteBuildList_ends (buildDepth c) c [] (slashed rpath) (slashed lpath) (Nat.lt_succ_self _)
  intro h
  exact hends.of_error h rfl

end Ends

section Copies

variable {rpath lpath : List UInt8} {files : List CopyInfo} {seen : List Announced}

def copyOf (rpath lpath : List UInt8) (a : Announced) : CopyInfo :=
  { mkcopyinfo (rpath ++ joined a.dirs) (lpath ++ joined a.dirs) a.entry.name false with
    time := a.entry.time, mode := a.entry.mode, size := a.entry.size }

-- The files that have been announced, the last first.
def copies (rpath lpath : List UInt8) (seen : List Announced) : List CopyInfo :=
  ((seen.filter fun a => a.entry.isFile).map (copyOf rpath lpath)).reverse

theorem isFile_not_directory {e : Listed} (h : e.isFile = true) : e.isDirectory = false := by
  simp only [Listed.isFile, Listed.isDirectory, decide_eq_true_eq, decide_eq_false_iff_not] at h ⊢
  rw [h]
  decide

theorem joined_concat (dirs : List (List UInt8)) (name : List UInt8) :
    joined (dirs ++ [name]) = joined dirs ++ (name ++ [47]) := by
  simp [joined]

-- What the callback makes of the entries of one directory.
theorem foldl_buildListCb (dirs : List (List UInt8)) (listed : List Listed) (lists : BuildLists) :
    listed.foldl (syncLsBuildListCb (rpath ++ joined dirs) (lpath ++ joined dirs)) lists =
      ⟨(((listed.filter Listed.isFollowed).map fun e =>
          mkcopyinfo (rpath ++ joined dirs) (lpath ++ joined dirs) e.name true).reverse ++ lists.dirlist),
        copies rpath lpath (listed.map (Announced.mk dirs)) ++ lists.filelist⟩ := by
  induction listed generalizing lists with
  | nil => rfl
  | cons e more ih =>
      rw [List.foldl_cons, ih]
      by_cases hd : e.isDirectory = true
      · have hfile : e.isFile = false := by
          cases hf : e.isFile with
          | false => rfl
          | true => simp [isFile_not_directory hf] at hd
        by_cases hdots : e.name = [46] ∨ e.name = [46, 46]
        · have hfollowed : e.isFollowed = false := by
            rcases hdots with hdots | hdots <;> simp [Listed.isFollowed, hdots]
          simp [syncLsBuildListCb, hd, hdots, hfollowed, copies, hfile]
        · have hfollowed : e.isFollowed = true := by
            simp only [not_or] at hdots
            simp [Listed.isFollowed, hd, hdots]
          simp [syncLsBuildListCb, hd, hdots, hfollowed, copies, hfile]
      · have hfollowed : e.isFollowed = false := by simp [Listed.isFollowed, hd]
        by_cases hf : e.isFile = true
        · simp [syncLsBuildListCb, hd, hf, hfollowed, copies, copyOf]
        · simp [syncLsBuildListCb, hd, hf, hfollowed, copies]

section Loops

variable {κ δ ι β γ : Type} {rel : β → γ → Prop} {toDir : κ → δ} {request : κ → ι}
  {build : Conn → β → δ → Except BuildStop (Int × β × Conn)}
  {list : Conn → γ → ι → Except BuildStop (Int × γ × Conn)}

-- The same connection, and what the two have put together so far.
def Alike (rel : β → γ → Prop) (s : β × Conn) (t : γ × Conn) : Prop := s.2 = t.2 ∧ rel s.1 t.1

theorem eachDirectory_agrees (hstep : ∀ c x y dir, rel x y →
      Agrees (Alike rel) id (build c x (toDir dir)) (list c y (request dir)))
    (dirs : List κ) (c : Conn) {x : β} {y : γ} (h : rel x y) :
    Agrees (Alike rel) id (eachDirectory build (dirs.map toDir) c x)
      (eachDirectory list (dirs.map request) c y) := by
  induction dirs generalizing c x y with
  | nil => exact ⟨(x, c), rfl, rfl, h⟩
  | cons dir dirs ih =>
      have hdir := hstep c x y dir h
      simp only [List.map_cons, eachDirectory]
      cases hlist : list c y (request dir) with
      | error stop =>
          rw [hlist] at hdir
          simp only [Agrees] at hdir
          simp [hdir, Agrees]
      | ok result =>
          rw [hlist] at hdir
          obtain ⟨⟨x', c'⟩, hbuild, hconn, hrel⟩ := hdir
          obtain ⟨code, y', c''⟩ := result
          simp only at hconn hrel hbuild
          subst hconn
          simp only [hbuild]
          split
          · exact ⟨(x', c'), rfl, rfl, hrel⟩
          · exact ih c' hrel

end Loops

-- The list holds the files that the device has announced, and no others.
theorem remoteBuildList_agrees (depth : Nat) (c : Conn) (files : List CopyInfo) (seen : List Announced)
    (dirs : List (List UInt8)) (h : files = copies rpath lpath seen) :
    Agrees (Alike fun files seen => files = copies rpath lpath seen) id
      (remoteBuildList depth c files (rpath ++ joined dirs) (lpath ++ joined dirs))
      (remoteListing depth c seen rpath dirs) := by
  induction depth generalizing c files seen dirs with
  | zero => rfl
  | succ depth ih =>
      unfold remoteBuildList remoteListing
      cases hls : syncLs c (rpath ++ joined dirs) with
      | error fault => rfl
      | ok result =>
          obtain ⟨code, listed, next⟩ := result
          have hfiles : copies rpath lpath (listed.map (Announced.mk dirs)) ++ files =
              copies rpath lpath (seen ++ listed.map (Announced.mk dirs)) := by
            rw [h]
            simp [copies]
          dsimp only
          rw [foldl_buildListCb, hfiles]
          split
          · exact ⟨_, rfl, rfl, rfl⟩
          · rw [List.append_nil, ← List.map_reverse]
            refine eachDirectory_agrees (fun c x y e hxy => ?_) _ next rfl
            have hpath : ∀ path : List UInt8, path ++ joined dirs ++ e.name ++ [47] =
                path ++ joined (dirs ++ [e.name]) := by
              intro path
              rw [joined_concat]
              simp
            show Agrees _ id (remoteBuildList depth c x (rpath ++ joined dirs ++ e.name ++ [47])
              (lpath ++ joined dirs ++ e.name ++ [47])) (remoteListing depth c y rpath (dirs ++ [e.name]))
            rw [hpath, hpath]
            exact ih c x y (dirs ++ [e.name]) hxy

theorem fileList_eq {c c' : Conn} {code : Int} (h : fileList c rpath lpath = .ok (code, files, c')) :
    files = copies (slashed rpath) (slashed lpath) (announced c rpath) := by
  have hagrees := @remoteBuildList_agrees (slashed rpath) (slashed lpath) (buildDepth c) c [] [] [] rfl
  have hnil : ∀ path : List UInt8, path ++ joined [] = path := by simp [joined]
  rw [hnil, hnil] at hagrees
  unfold fileList at h
  unfold announced
  rw [h] at hagrees
  cases hlist : remoteListing (buildDepth c) c [] (slashed rpath) [] with
  | error stop =>
      rw [hlist] at hagrees
      cases hagrees
  | ok result =>
      rw [hlist] at hagrees
      obtain ⟨s, hs, -, hrel⟩ := hagrees
      simp only [Except.ok.injEq, Prod.mk.injEq] at hs
      rw [← hs.2] at hrel
      exact hrel

theorem mem_copies {ci : CopyInfo} : ci ∈ copies rpath lpath seen ↔
    ∃ a ∈ seen, a.entry.isFile = true ∧ copyOf rpath lpath a = ci := by
  simp [copies, and_assoc]

end Copies

section Paths

variable {lpath path rest : List UInt8}

theorem hops_append_slash (path rest : List UInt8) : hops (path ++ 47 :: rest) = hops path ++ hops rest := by
  unfold hops
  rw [List.splitOnP_append_cons path rest (by rfl), List.map_append]

theorem hops_nil : hops [] = [.stay] := rfl

theorem walk_stay (p : Place (List UInt8)) : p.walk [.stay] = p := rfl

-- A local path is that of the user, and the way that the names lead from there.
theorem normalise_slashed (hl : lpath ≠ []) (rest : List UInt8) :
    normalise (slashed lpath ++ rest) = (normalise lpath).walk (hops rest) := by
  have happend : ∀ path : List UInt8, (path ++ 47 :: rest).head?.any isSeparator =
      (path ++ [47]).head?.any isSeparator := by
    intro path
    cases path <;> rfl
  unfold slashed
  split
  · rename_i hlast
    obtain ⟨path, rfl⟩ := List.getLast?_eq_some_iff.mp hlast
    rw [List.append_assoc, List.singleton_append]
    unfold normalise
    rw [happend, hops_append_slash, hops_append_slash, hops_nil, Place.walk_append, Place.walk_append,
      walk_stay]
  · have hhead : (lpath ++ 47 :: rest).head?.any isSeparator = lpath.head?.any isSeparator := by
      cases lpath with
      | nil => contradiction
      | cons c more => rfl
    rw [List.append_assoc, List.singleton_append]
    unfold normalise
    rw [hhead, hops_append_slash, Place.walk_append]

theorem dst_eq (rpath lpath : List UInt8) (a : Announced) : (copyOf rpath lpath a).dst = lpath ++ a.path := by
  simp [copyOf, mkcopyinfo, Announced.path]

theorem dst_below_iff (hl : lpath ≠ []) (rpath : List UInt8) (a : Announced) : (normalise lpath).Below
    (normalise (copyOf rpath (slashed lpath) a).dst) ↔ StaysBelow lpath a := by
  rw [dst_eq, normalise_slashed hl]
  exact Place.below_walk_iff _ _

-- Every local path on the file list lies below the directory of the user, if and
-- only if the names of every file that is announced stay below it.
theorem pull_stays_below_iff (c : Conn) {rpath lpath : List UInt8} (hl : lpath ≠ []) {code : Int}
    {files : List CopyInfo} {c' : Conn} (h : fileList c rpath lpath = .ok (code, files, c')) :
    (∀ ci ∈ files, (normalise lpath).Below (normalise ci.dst)) ↔
      ∀ a ∈ announced c rpath, a.entry.isFile = true → StaysBelow lpath a := by
  have hbelow := dst_below_iff hl (slashed rpath)
  rw [fileList_eq h]
  constructor
  · intro hall a ha hf
    exact (hbelow a).mp (hall _ (mem_copies.mpr ⟨a, ha, hf, rfl⟩))
  · intro hall ci hci
    obtain ⟨a, ha, hf, rfl⟩ := mem_copies.mp hci
    exact (hbelow a).mpr (hall a ha hf)

-- copy_remote_dir_local leaves every other place alone.
theorem copyFiles_touches {π : Type} [DecidableEq π] {place : List UInt8 → π} {q : π}
    {targets after : Targets π} {files : List CopyInfo} {c c' : Conn} {code : Int}
    (h : copyFiles place files c targets = .ok (code, c', after)) (hq : after q ≠ targets q) :
    ∃ ci ∈ files, place ci.dst = q := by
  induction files generalizing c targets with
  | nil =>
      simp only [copyFiles, Except.ok.injEq, Prod.mk.injEq] at h
      exact absurd (congrFun h.2.2.symm q) hq
  | cons ci files ih =>
      by_cases hdst : place ci.dst = q
      · exact ⟨ci, List.mem_cons_self .., hdst⟩
      have hrest : ∀ (c : Conn) (targets' : Targets π), targets' q = targets q →
          copyFiles place files c targets' = .ok (code, c', after) → ∃ ci' ∈ ci :: files, place ci'.dst = q := by
        intro c targets' hsame hcopy
        obtain ⟨ci', hm, hd⟩ := ih hcopy (by rwa [hsame])
        exact ⟨ci', List.mem_cons_of_mem _ hm, hd⟩
      unfold copyFiles at h
      split at h
      · exact hrest c targets rfl h
      split at h
      · cases h
      · rename_i t _
        have hsame : Function.update targets (place ci.dst) t q = targets q :=
          Function.update_of_ne (Ne.symm hdst) _ _
        dsimp only at h
        split at h
        · simp only [Except.ok.injEq, Prod.mk.injEq] at h
          rw [← h.2.2] at hq
          exact absurd hsame hq
        · exact hrest _ _ hsame h

theorem pulled_paths_below {π : Type} [DecidableEq π] {place : List UInt8 → π} {q : π} {c c' : Conn}
    {rpath : List UInt8} {targets after : Targets π} {code : Int}
    (hall : ∀ a ∈ announced c rpath, a.entry.isFile = true → StaysBelow lpath a)
    (h : copyRemoteDirLocal place c rpath lpath targets = .ok (code, c', after))
    (hq : after q ≠ targets q) : ∃ path, place path = q ∧ (normalise lpath).Below (normalise path) := by
  unfold copyRemoteDirLocal at h
  split at h
  · simp only [Except.ok.injEq, Prod.mk.injEq] at h
    exact absurd (congrFun h.2.2.symm q) hq
  rename_i hsome
  have hl : lpath ≠ [] := fun hl => hsome (Or.inr hl)
  split at h
  · cases h
  · rename_i files next hlist
    split at h
    · simp only [Except.ok.injEq, Prod.mk.injEq] at h
      exact absurd (congrFun h.2.2.symm q) hq
    · obtain ⟨ci, hci, rfl⟩ := copyFiles_touches h hq
      rw [fileList_eq hlist] at hci
      obtain ⟨a, ha, hf, rfl⟩ := mem_copies.mp hci
      exact ⟨_, rfl, (dst_below_iff hl (slashed rpath) a).mpr (hall a ha hf)⟩

-- Names that are names only.
theorem staysBelow_of_plain (lpath : List UInt8) (a : Announced) (hup : .up ∉ hops a.path)
    (hname : ∃ hop ∈ hops a.path, hop ≠ .stay) : StaysBelow lpath a := by
  obtain ⟨hups, hdowns⟩ := Place.way_downs hup
  refine ⟨Or.inr (by omega), (Place.way (hops a.path)).downs, ?_, ?_⟩
  · rw [ne_eq, hdowns]
    obtain ⟨hop, hm, hne⟩ := hname
    exact fun hall => hne (hall hop hm)
  · rw [hups]
    simp

end Paths

-- A directory d with a file y, beside a file x.
def twoListings : Conn where
  input := segmentOf (listAnswer [⟨0x41ED, 0, 1, [100]⟩, ⟨0x81A4, 3, 1, [120]⟩] ++
    listAnswer [⟨0x81A4, 5, 1, [121]⟩])
  writes := []
  output := []
  closed := false

-- A file by the name of "../x".
def climbingListing : Conn where
  input := segmentOf (listAnswer [⟨0x81A4, 3, 1, [46, 46, 47, 120]⟩])
  writes := []
  output := []
  closed := false

theorem pull_of_two_listings : ∃ files c', fileList twoListings [114] [108] = .ok (0, files, c') ∧
    files.length = 2 ∧ ∀ ci ∈ files, (normalise [108]).Below (normalise ci.dst) := by
  have hseen : announced twoListings [114] =
      [⟨[], ⟨0x41ED, 0, 1, [100]⟩⟩, ⟨[], ⟨0x81A4, 3, 1, [120]⟩⟩, ⟨[[100]], ⟨0x81A4, 5, 1, [121]⟩⟩] := rfl
  obtain ⟨files, c', h, hlen⟩ : ∃ files c', fileList twoListings [114] [108] = .ok (0, files, c') ∧
      files.length = 2 := ⟨_, _, rfl, rfl⟩
  refine ⟨files, c', h, hlen, (pull_stays_below_iff twoListings (by decide) h).mpr ?_⟩
  rw [hseen]
  intro a ha _
  simp only [List.mem_cons, List.not_mem_nil, or_false] at ha
  obtain rfl | rfl | rfl := ha
  · exact staysBelow_of_plain _ _ (by decide) ⟨.down [100], by decide, by decide⟩
  · exact staysBelow_of_plain _ _ (by decide) ⟨.down [120], by decide, by decide⟩
  · exact staysBelow_of_plain _ _ (by decide) ⟨.down [121], by decide, by decide⟩

theorem pull_climbs_out : ∃ files c', fileList climbingListing [114] [108] = .ok (0, files, c') ∧
    ∃ ci ∈ files, ci.dst = [108, 47, 46, 46, 47, 120] ∧
      ¬(normalise [108]).Below (normalise ci.dst) := by
  refine ⟨_, _, rfl, _, List.mem_cons_self .., rfl, ?_⟩
  rintro ⟨-, -, rest, -, hdowns⟩
  have hhead : [[120]] = [[(108 : UInt8)]] ++ rest := hdowns
  simp at hhead

end Adb.Sync
