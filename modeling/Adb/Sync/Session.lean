import Adb.Sync.FileList

namespace Adb.Sync

open Adb.Lib

def syncQuit (c : Conn) : Conn :=
  match c.writex (syncmsg [ID_QUIT, 0]) with
  | .done c | .failed c => c

-- The members of msg.stat behind the id.
structure RemoteStat where
  mode : UInt32
  size : UInt32
  time : UInt32
deriving DecidableEq

def syncStartReadtime (c : Conn) (path : List UInt8) : Int × Conn :=
  match c.writeAll [syncmsg [ID_STAT, UInt32.ofNat path.length], path] with
  | .failed c => (-1, c)
  | .done c => (0, c)

-- none for -1.
def syncFinishReadtime (c : Conn) : Option RemoteStat × Conn :=
  match c.readx 16 with
  | .failed _ c => (none, c)
  | .done msg c =>
      if wordAt msg 0 ≠ ID_STAT then (none, c)
      else (some ⟨wordAt msg 1, wordAt msg 2, wordAt msg 3⟩, c)

def syncReadmode (c : Conn) (path : List UInt8) : Option UInt32 × Conn :=
  match syncStartReadtime c path with
  | (0, c) => ((syncFinishReadtime c).1.map RemoteStat.mode, (syncFinishReadtime c).2)
  | (_, c) => (none, c)

-- The local file system as the calls of the C library show it from a working
-- directory: the one that _chdir changes to, the names that _findfirst("*.*") and
-- _findnext give, stat, and adb_open.
structure LocalFs (κ : Type) where
  chdir : κ → List UInt8 → Option κ
  names : κ → List Text
  stat : κ → List UInt8 → Option Stat
  file : κ → List UInt8 → Option LocalFile

-- Why a list of local files is not built: uninitialised stands for the use of what
-- _findfirst or stat has not filled in, endless for the bound of the model.
inductive LocalStop where
  | memory (fault : MemoryFault)
  | uninitialised
  | endless
deriving DecidableEq

-- __S_ISTYPE of win32_adb.h. S_ISLNK and S_ISBLK are 0 there.
def isType (mode mask : UInt32) : Bool := mode &&& S_IFMT = mask

def S_IFCHR : UInt32 := 0x2000

def statMode (st : Stat) : UInt32 := UInt32.ofNat st.mode

def MAX_PATH : Nat := 260

section Local

variable {κ : Type} (fs : LocalFs κ)

-- The loop of local_build_list over the names. A stat that fails leaves st as it
-- was; where a path is too long _findnext is called once more, so that the next
-- name is passed over as well.
def localNames (cwd : κ) (lpath rpath : List UInt8) :
    List Text → Option Stat → BuildLists → Except LocalStop (Int × BuildLists)
  | [], _, lists => .ok (0, lists)
  | name :: more, st, lists =>
      if name.val = [46] ∨ name.val = [46, 46] then
        localNames cwd lpath rpath more st lists
      else if lpath.length + name.val.length + 1 > MAX_PATH then
        match more with
        | [] => .ok (0, lists)
        | _ :: more => localNames cwd lpath rpath more st lists
      else
        match (fs.stat cwd (lpath ++ name)).or st with
        | none => .error .uninitialised
        | some st =>
            if statMode st &&& S_IFDIR ≠ 0 then
              localNames cwd lpath rpath more (some st)
                { lists with dirlist := mkcopyinfo lpath rpath name true :: lists.dirlist }
            else
              let ci := mkcopyinfo lpath rpath name false
              match fs.stat cwd ci.src with
              | none => .ok (-1, lists)
              | some st =>
                  if isType (statMode st) S_IFREG then
                    let ci := { ci with
                      time := UInt32.ofInt st.mtime
                      mode := statMode st
                      size := UInt32.ofNat st.size }
                    localNames cwd lpath rpath more (some st)
                      { lists with filelist := ci :: lists.filelist }
                  else
                    localNames cwd lpath rpath more (some st) lists

-- The list, with the directory that the walk leaves as the working directory. What
-- the calls for the directories return is not looked at.
def localBuildList : Nat → κ → List CopyInfo → List UInt8 → List UInt8 →
    Except LocalStop (Int × List CopyInfo × κ)
  | 0, _, _, _, _ => .error .endless
  | depth + 1, cwd, filelist, lpath, rpath =>
      match fs.chdir cwd lpath with
      | none => .ok (-1, filelist, cwd)
      | some cwd =>
          if (fs.names cwd).isEmpty then
            .error .uninitialised
          else
            match localNames fs cwd lpath rpath (fs.names cwd) none ⟨[], filelist⟩ with
            | .error stop => .error stop
            | .ok (code, lists) =>
                if code ≠ 0 then
                  .ok (code, lists.filelist, cwd)
                else
                  match lists.dirlist.foldlM (fun (s : List CopyInfo × κ) dir =>
                      (localBuildList depth s.2 s.1 dir.src dir.dst).map Prod.snd) (lists.filelist, cwd) with
                  | .error stop => .error stop
                  | .ok (filelist, cwd) => .ok (0, filelist, cwd)

-- Every directory makes the path longer.
def localDepth : Nat := MAX_PATH + 2

-- The two loops over the list of copy_local_dir_remote with checktimestamps: all of
-- the requests are sent before the first answer is read.
def startAll : List CopyInfo → Conn → Int × Conn
  | [], c => (0, c)
  | ci :: files, c =>
      match syncStartReadtime c ci.dst with
      | (0, c) => startAll files c
      | (_, c) => (1, c)

def isCurrent (ci : CopyInfo) (st : RemoteStat) : Bool :=
  st.size = ci.size && isType (ci.mode &&& st.mode) S_IFREG && st.time = ci.time

def finishAll : List CopyInfo → Conn → Option (List CopyInfo) × Conn
  | [], c => (some [], c)
  | ci :: files, c =>
      match syncFinishReadtime c with
      | (none, c) => (none, c)
      | (some st, c) =>
          let ci := if isCurrent ci st then { ci with flag := true } else ci
          ((finishAll files c).1.map (ci :: ·), (finishAll files c).2)

def checkTimestamps (files : List CopyInfo) (c : Conn) : Option (List CopyInfo) × Conn :=
  match startAll files c with
  | (0, c) => finishAll files c
  | (_, c) => (none, c)

-- Its last loop, over the files that are not flagged.
def sendAll (apk : ApkCheck) (cwd : κ) (listonly : Bool) :
    List CopyInfo → Conn → Except MemoryFault (Int × Conn)
  | [], c => .ok (0, c)
  | ci :: files, c =>
      if ci.flag ∨ listonly then
        sendAll apk cwd listonly files c
      else
        match syncSend apk c (fs.file cwd ci.src) ci.dst ci.time ci.mode false with
        | .error fault => .error fault
        | .ok (code, c) => if code ≠ 0 then .ok (1, c) else sendAll apk cwd listonly files c

def copyLocalDirRemote (apk : ApkCheck) (cwd : κ) (c : Conn) (lpath rpath : List UInt8)
    (checktimestamps listonly : Bool) : Except LocalStop (Int × Conn) :=
  if lpath = [] ∨ rpath = [] then
    .ok (-1, c)
  else
    match localBuildList fs localDepth cwd [] (slashed lpath) (slashed rpath) with
    | .error stop => .error stop
    | .ok (code, files, cwd) =>
        if code ≠ 0 then
          .ok (-1, c)
        else
          match if checktimestamps then checkTimestamps files c else (some files, c) with
          | (none, c) => .ok (1, c)
          | (some files, c) => (sendAll fs apk cwd listonly files c).mapError .memory

def strrchr (ch : UInt8) (s : List UInt8) : Option Nat :=
  (s.reverse.idxOf? ch).map fun i => s.length - 1 - i

def adbDirstop (path : List UInt8) : Option Nat :=
  match strrchr 47 path, strrchr 92 path with
  | none, p2 => p2
  | some p, some p2 => if p2 > p then some p2 else some p
  | some p, none => some p

-- The name that a file keeps in another directory.
def lastName (path : List UInt8) : List UInt8 :=
  match adbDirstop path with
  | none => path
  | some p => path.drop (p + 1)

def pushTarget (lpath rpath : List UInt8) (mode : UInt32) : List UInt8 :=
  if mode ≠ 0 ∧ isType mode S_IFDIR then rpath ++ 47 :: lastName lpath else rpath

def doSyncPush (apk : ApkCheck) (cwd : κ) (fd : Option Conn) (lpath rpath : List UInt8)
    (verifyApk : Bool) : Except LocalStop (Int × Option Conn) :=
  match fd with
  | none => .ok (1, none)
  | some c =>
      match fs.stat cwd lpath with
      | none => .ok (1, some (syncQuit c))
      | some st =>
          if isType (statMode st) S_IFDIR then
            match copyLocalDirRemote fs apk cwd c lpath rpath false false with
            | .error stop => .error stop
            | .ok (code, c) => if code ≠ 0 then .ok (1, some c) else .ok (0, some (syncQuit c))
          else
            match syncReadmode c rpath with
            | (none, c) => .ok (1, some c)
            | (some mode, c) =>
                match syncSend apk c (fs.file cwd lpath) (pushTarget lpath rpath mode)
                    (UInt32.ofInt st.mtime) (statMode st) verifyApk with
                | .error fault => .error (.memory fault)
                | .ok (code, c) => if code ≠ 0 then .ok (1, some c) else .ok (0, some (syncQuit c))

-- A single file goes into the directory that lpath may be.
def pullTarget (cwd : κ) (rpath lpath : List UInt8) : List UInt8 :=
  match fs.stat cwd lpath with
  | none => lpath
  | some st => if isType (statMode st) S_IFDIR then lpath ++ 47 :: lastName rpath else lpath

def doSyncPull {π : Type} [DecidableEq π] (place : List UInt8 → π) (cwd : κ) (fd : Option Conn)
    (rpath lpath : List UInt8) (targets : Targets π) : Except BuildStop (Int × Option Conn × Targets π) :=
  match fd with
  | none => .ok (1, none, targets)
  | some c =>
      match syncReadmode c rpath with
      | (none, c) => .ok (1, some c, targets)
      | (some mode, c) =>
          if mode = 0 then
            .ok (1, some c, targets)
          else if isType mode S_IFREG ∨ isType mode S_IFCHR then
            let target := place (pullTarget fs cwd rpath lpath)
            match syncRecv c rpath (targets target) with
            | .error fault => .error (.memory fault)
            | .ok (code, c, t) =>
                let targets := Function.update targets target t
                if code ≠ 0 then .ok (1, some c, targets) else .ok (0, some (syncQuit c), targets)
          else if isType mode S_IFDIR then
            match copyRemoteDirLocal place c rpath lpath targets with
            | .error stop => .error stop
            | .ok (code, c, targets) =>
                if code ≠ 0 then .ok (1, some c, targets) else .ok (0, some (syncQuit c), targets)
          else
            .ok (1, some c, targets)

end Local

def doSyncLs (fd : Option Conn) (path : List UInt8) : Except MemoryFault (Int × List Listed × Option Conn) :=
  match fd with
  | none => .ok (1, [], none)
  | some c =>
      match syncLs c path with
      | .error fault => .error fault
      | .ok (code, listed, c) =>
          if code ≠ 0 then .ok (1, listed, some c) else .ok (0, listed, some (syncQuit c))

end Adb.Sync
