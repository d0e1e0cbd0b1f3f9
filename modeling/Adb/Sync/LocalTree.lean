import Adb.Sync.Session

namespace Adb.Sync

open Adb.Lib

-- An entry that lies in the same place below the two directories.
def Under (lroot rroot : List UInt8) (ci : CopyInfo) : Prop :=
  ∃ rest, IsText rest ∧ ci.src = lroot ++ rest ∧ ci.dst = rroot ++ rest

-- What local_build_list puts on its list: regular files below lroot, by paths that
-- fit into stat_path.
structure LocalEntry (lroot rroot : List UInt8) (ci : CopyInfo) : Prop where
  under : Under lroot rroot ci
  short : ci.src.length < MAX_PATH
  regular : isType ci.mode S_IFREG = true
  unflagged : ci.flag = false

structure LocalDir (lroot rroot lpath : List UInt8) (dir : CopyInfo) : Prop where
  under : Under lroot rroot dir
  longer : lpath.length < dir.src.length
  short : dir.src.length ≤ MAX_PATH

structure LocalLists (lroot rroot lpath : List UInt8) (lists : BuildLists) : Prop where
  files : ∀ ci ∈ lists.filelist, LocalEntry lroot rroot ci
  dirs : ∀ dir ∈ lists.dirlist, LocalDir lroot rroot lpath dir

section Walk

variable {κ : Type} {fs : LocalFs κ} {lroot rroot way : List UInt8}

theorem under_mkcopyinfo (hway : IsText way) (name : Text) (isdir : Bool) :
    Under lroot rroot (mkcopyinfo (lroot ++ way) (rroot ++ way) name isdir) := by
  refine ⟨way ++ (name.val ++ if isdir then [47] else []), ?_, by simp [mkcopyinfo], by simp [mkcopyinfo]⟩
  rw [isText_append, isText_append]
  refine ⟨hway, name.property, ?_⟩
  cases isdir <;> decide

variable (fs) in
-- The names of one directory, whatever stat says of them.
theorem localNames_sound (cwd : κ) (hway : IsText way) (names : List Text) (st : Option Stat)
    (lists : BuildLists) (hlists : LocalLists lroot rroot (lroot ++ way) lists) :
    Ensures (localNames fs cwd (lroot ++ way) (rroot ++ way) names st lists)
      (fun r => LocalLists lroot rroot (lroot ++ way) r.2) (· = .uninitialised) := by
  fun_induction localNames fs cwd (lroot ++ way) (rroot ++ way) names st lists with
  | case1 st lists => exact hlists
  | case2 name more st lists hdots ih => exact ih hlists
  | case3 name st lists hdots hlong => exact hlists
  | case4 name st lists hdots hlong skipped more ih => exact ih hlists
  | case5 name more st lists hdots hlong hstat => rfl
  | case6 name more st lists hdots hlong st' hstat hdir ih =>
      refine ih ⟨hlists.files, fun dir hm => ?_⟩
      obtain rfl | hm := List.mem_cons.mp hm
      · refine ⟨under_mkcopyinfo hway name true, ?_, ?_⟩
        · simp [mkcopyinfo]
        · simp [mkcopyinfo, MAX_PATH] at hlong ⊢
          omega
      · exact hlists.dirs dir hm
  | case7 name more st lists hdots hlong st' hstat hfile ci hnone => exact hlists
  | case8 name more st lists hdots hlong st' hstat hfile ci st'' hsome hreg ci' ih =>
      refine ih ⟨fun other hm => ?_, hlists.dirs⟩
      obtain rfl | hm := List.mem_cons.mp hm
      · refine ⟨under_mkcopyinfo hway name false, ?_, hreg, rfl⟩
        simp [ci', ci, mkcopyinfo, MAX_PATH] at hlong ⊢
        omega
      · exact hlists.files other hm
  | case9 name more st lists hdots hlong st' hstat hfile ci st'' hsome hreg ih => exact ih hlists

-- The walk comes to its end in every file system, and what it lists lies below the
-- directory that it began with.
theorem localBuildList_sound (depth : Nat) (cwd : κ) (files : List CopyInfo) (hway : IsText way)
    (hpos : 0 < depth) (hdepth : localDepth ≤ depth + (lroot ++ way).length)
    (hfiles : ∀ ci ∈ files, LocalEntry lroot rroot ci) :
    Ensures (localBuildList fs depth cwd files (lroot ++ way) (rroot ++ way))
      (fun r => ∀ ci ∈ r.2.1, LocalEntry lroot rroot ci) (· = .uninitialised) := by
  induction depth generalizing cwd files way with
  | zero => omega
  | succ depth ih =>
      unfold localBuildList
      cases fs.chdir cwd (lroot ++ way) with
      | none => exact hfiles
      | some cwd =>
          dsimp only
          split
          · rfl
          have hnames := localNames_sound fs cwd hway (fs.names cwd) none ⟨[], files⟩
            ⟨hfiles, by simp⟩
          cases hwalk : localNames fs cwd (lroot ++ way) (rroot ++ way) (fs.names cwd) none ⟨[], files⟩ with
          | error stop => exact hnames.of_error hwalk
          | ok result =>
              obtain ⟨code, lists⟩ := result
              obtain ⟨hlisted, hdirs⟩ := hnames.of_ok hwalk
              dsimp only
              split
              · exact hlisted
              -- each directory begins where the one before has left the working directory
              have hloop : Ensures (lists.dirlist.foldlM (fun (s : List CopyInfo × κ) dir =>
                    (localBuildList fs depth s.2 s.1 dir.src dir.dst).map Prod.snd) (lists.filelist, cwd))
                  (fun s => ∀ ci ∈ s.1, LocalEntry lroot rroot ci) (· = .uninitialised) := by
                refine Ensures.foldlM (fun s hs dir hm => ?_) hlisted
                obtain ⟨⟨rest, htext, hsrc, hdst⟩, hlonger, hshort⟩ := hdirs dir hm
                rw [hsrc] at hlonger hshort
                have hdir := @ih rest s.2 s.1 htext
                  (by simp only [localDepth, MAX_PATH] at *; omega) (by omega) hs
                rw [hsrc, hdst]
                cases hbuild : localBuildList fs depth s.2 s.1 (lroot ++ rest) (rroot ++ rest) with
                | error stop => exact hdir.of_error hbuild
                | ok result => exact hdir.of_ok hbuild
              cases hfold : lists.dirlist.foldlM (fun (s : List CopyInfo × κ) dir =>
                  (localBuildList fs depth s.2 s.1 dir.src dir.dst).map Prod.snd) (lists.filelist, cwd) with
              | error stop => exact hloop.of_error hfold
              | ok s => exact hloop.of_ok hfold

variable (fs) in
-- local_build_list ends in every file system, also where a directory contains
-- itself, and lists regular files only, each for the same place below rpath.
theorem local_build_list_ends (cwd : κ) (lpath rpath : List UInt8) :
    Ensures (localBuildList fs localDepth cwd [] lpath rpath)
      (fun r => ∀ ci ∈ r.2.1, LocalEntry lpath rpath ci) (· = .uninitialised) := by
  have hsound : Ensures (localBuildList fs localDepth cwd [] (lpath ++ []) (rpath ++ []))
      (fun r => ∀ ci ∈ r.2.1, LocalEntry lpath rpath ci) (· = .uninitialised) :=
    localBuildList_sound localDepth cwd [] isText_nil (by decide) (Nat.le_add_right _ _) (by simp)
  rwa [List.append_nil, List.append_nil] at hsound

end Walk

end Adb.Sync
