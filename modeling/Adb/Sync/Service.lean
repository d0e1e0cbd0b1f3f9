import Adb.Lib.Print
import Adb.Sync.Syncmsg

namespace Adb.Sync

open Adb.Lib

-- A string of C.
abbrev Text : Type := { s : List UInt8 // IsText s }

-- The members of stat that are sent.
structure Stat where
  mode : Nat
  size : Nat
  mtime : Int
deriving DecidableEq

structure File where
  mode : Nat
  mtime : Nat
  data : List UInt8
deriving DecidableEq

-- The device: the connection, the files, what stops each open and each unlink
-- in turn (none: nothing does), how the writes to files go and how the reads of
-- each file that is opened. Directories are known by what opendir and lstat say.
structure Device where
  conn : Conn
  files : List UInt8 → Option File
  opens : List (Option Errno)
  unlinks : List (Option Errno)
  writes : List (CallOutcome Errno)
  reads : List (List (CallOutcome Errno))
  opendir : List UInt8 → Option (List Text)
  lstat : List UInt8 → Option Stat
  strerror : Errno → List UInt8

namespace Device

def setConn (dev : Device) (c : Conn) : Device := { dev with conn := c }

def setFile (dev : Device) (path : List UInt8) (file : Option File) : Device :=
  { dev with files := Function.update dev.files path file }

-- What the environment has for the next open and the next unlink.
def nextOpen (dev : Device) : Option Errno × Device :=
  (dev.opens.headD none, { dev with opens := dev.opens.tail })

def nextUnlink (dev : Device) : Option Errno × Device :=
  (dev.unlinks.headD none, { dev with unlinks := dev.unlinks.tail })

inductive Opened where
  | done (dev : Device)
  | failed (e : Errno) (dev : Device)

-- O_WRONLY | O_CREAT | O_EXCL
def openNew (dev : Device) (path : List UInt8) (mode : Nat) : Opened :=
  match dev.nextOpen with
  | (some e, dev) => .failed e dev
  | (none, dev) =>
      if (dev.files path).isSome then .failed .EEXIST dev
      else .done (dev.setFile path (some ⟨mode, 0, []⟩))

-- O_WRONLY
def openOld (dev : Device) (path : List UInt8) : Opened :=
  match dev.nextOpen with
  | (some e, dev) => .failed e dev
  | (none, dev) => if (dev.files path).isSome then .done dev else .failed .ENOENT dev

def adbUnlink (dev : Device) (path : List UInt8) : Device :=
  match dev.nextUnlink with
  | (some _, dev) => dev
  | (none, dev) => dev.setFile path none

inductive Written where
  | done (dev : Device)
  | failed (e : Errno) (dev : Device)

-- Bytes that are written at an offset of a file.
def putAt (data : List UInt8) (offset : Nat) (bytes : List UInt8) : List UInt8 :=
  data.take offset ++ bytes ++ data.drop (offset + bytes.length)

def putFile (dev : Device) (path : List UInt8) (offset : Nat) (bytes : List UInt8) : Device :=
  dev.setFile path ((dev.files path).map fun file => { file with data := putAt file.data offset bytes })

-- writex on the file that is open for writing at path.
def writeFile (dev : Device) (path : List UInt8) (offset : Nat) (bytes : List UInt8) : Written :=
  match writex dev.writes bytes with
  | .done rest => .done ({ dev with writes := rest }.putFile path offset bytes)
  | .failed taken e rest => .failed e ({ dev with writes := rest }.putFile path offset taken)

def utime (dev : Device) (path : List UInt8) (timestamp : UInt32) : Device :=
  dev.setFile path ((dev.files path).map fun file => { file with mtime := timestamp.toNat })

-- writex on the connection, several joined by ||; the value is the source's.
def send (dev : Device) (parts : List (List UInt8)) : Int × Device :=
  match dev.conn.writeAll parts with
  | .done c => (0, dev.setConn c)
  | .failed c => (-1, dev.setConn c)

end Device

def reason (s : String) : List UInt8 := s.toList.map fun c => UInt8.ofNat c.toNat

def failMessage (dev : Device) (text : List UInt8) : Int × Device :=
  dev.send [syncmsg [ID_FAIL, UInt32.ofNat text.length], text]

def failErrno (dev : Device) (e : Errno) : Int × Device := failMessage dev (dev.strerror e)

def doStat (dev : Device) (path : List UInt8) : Int × Device :=
  match dev.lstat path with
  | none => dev.send [syncmsg [ID_STAT, 0, 0, 0]]
  | some st =>
      dev.send [syncmsg [ID_STAT, UInt32.ofNat st.mode, UInt32.ofNat st.size, UInt32.ofInt st.mtime]]

-- tmp of do_list: the path, the separator and the name.
def entryPath (path name : List UInt8) : List UInt8 := path ++ 47 :: name

def listEntry (st : Stat) (name : List UInt8) : List UInt8 :=
  syncmsg [ID_DENT, UInt32.ofNat st.mode, UInt32.ofNat st.size, UInt32.ofInt st.mtime,
    UInt32.ofNat name.length]

def listLoop (path : List UInt8) : Device → List Text → Int × Device
  | dev, [] => (0, dev)
  | dev, name :: more =>
      if name.val.length > 256 then
        listLoop path dev more
      else
        match dev.lstat (entryPath path name) with
        | none => listLoop path dev more
        | some st =>
            match dev.send [listEntry st name, name] with
            | (0, dev) => listLoop path dev more
            | (_, dev) => (-1, dev)

def doList (dev : Device) (path : List UInt8) : Int × Device :=
  let listed :=
    match dev.opendir path with
    | none => (0, dev)
    | some names => listLoop path dev names
  match listed with
  | (0, dev) => dev.send [syncmsg [ID_DONE, 0, 0, 0, 0]]
  | (_, dev) => (-1, dev)

-- The label fail of handle_send_file.
def sendFails (dev : Device) (path : List UInt8) : Int × Device := (-1, dev.adbUnlink path)

-- The loop of handle_send_file; fd is the offset of the file that is open, and
-- none for -1.
def sendLoop : Nat → Device → List UInt8 → Option Nat → Int × Device
  | 0, dev, path, _ => sendFails dev path
  | fuel + 1, dev, path, fd =>
      match dev.conn.readx 8 with
      | .failed _ c => sendFails (dev.setConn c) path
      | .done msg c =>
          let dev := dev.setConn c
          if wordAt msg 0 ≠ ID_DATA then
            if wordAt msg 0 = ID_DONE then
              match fd with
              | none => (0, dev)
              | some _ => (dev.utime path (wordAt msg 1)).send [syncmsg [ID_OKAY, 0]]
            else
              sendFails (failMessage dev (reason "invalid data message")).2 path
          else if (wordAt msg 1).toNat > SYNC_DATA_MAX then
            sendFails (failMessage dev (reason "oversize data message")).2 path
          else
            match dev.conn.readx (wordAt msg 1).toNat with
            | .failed _ c => sendFails (dev.setConn c) path
            | .done buffer c =>
                let dev := dev.setConn c
                match fd with
                | none => sendLoop fuel dev path none
                | some offset =>
                    match dev.writeFile path offset buffer with
                    | .done dev => sendLoop fuel dev path (some (offset + buffer.length))
                    | .failed e dev =>
                        match failErrno (dev.adbUnlink path) e with
                        | (0, dev) => sendLoop fuel dev path none
                        | (_, dev) => (-1, dev)

-- The opens of handle_send_file: a new file, once more after mkdirs, or the file
-- that is there.
def openMade (dev : Device) (path : List UInt8) (mode : Nat) : Device.Opened :=
  match dev.openNew path mode with
  | .failed .ENOENT dev => dev.openNew path mode
  | opened => opened

def openForSend (dev : Device) (path : List UInt8) (mode : Nat) : Device.Opened :=
  match openMade dev path mode with
  | .failed .EEXIST dev => dev.openOld path
  | opened => opened

def handleSendFile (dev : Device) (path : List UInt8) (mode : Nat) : Int × Device :=
  match openForSend dev path mode with
  | .done dev => sendLoop ((stored dev.conn.input).length + 1) dev path (some 0)
  | .failed e dev =>
      match failErrno dev e with
      | (0, dev) => sendLoop ((stored dev.conn.input).length + 1) dev path none
      | (_, dev) => (-1, dev)

def isOctal (c : UInt8) : Bool := 48 ≤ c && c ≤ 55

def hexDigit (c : UInt8) : Option Nat :=
  if isDecimal c then some (c.toNat - 48)
  else if 97 ≤ c ∧ c ≤ 102 then some (c.toNat - 87)
  else if 65 ≤ c ∧ c ≤ 70 then some (c.toNat - 55)
  else none

def numberValue (base : Nat) (digits : List UInt8) : Nat :=
  digits.foldl (fun n c => base * n + (hexDigit c).getD 0) 0

-- What strtoul with base 0 reads after the sign.
def unsignedValue (s : List UInt8) : Nat :=
  match s with
  | 48 :: 120 :: rest | 48 :: 88 :: rest => numberValue 16 (rest.takeWhile fun c => (hexDigit c).isSome)
  | 48 :: rest => numberValue 8 (rest.takeWhile isOctal)
  | rest => numberValue 10 (rest.takeWhile isDecimal)

-- strtoul(s, NULL, 0), and whether it sets errno.
def strtoul (s : List UInt8) : Nat × Bool :=
  let limit (negative : Bool) (n : Nat) : Nat × Bool :=
    if n ≥ 2 ^ 32 then (2 ^ 32 - 1, true)
    else if negative then ((2 ^ 32 - n) % 2 ^ 32, false)
    else (n, false)
  match s.dropWhile isSpace with
  | 45 :: rest => limit true (unsignedValue rest)
  | 43 :: rest => limit false (unsignedValue rest)
  | rest => limit false (unsignedValue rest)

-- strrchr(path, ','): what comes before the last comma and what comes after it.
def splitLast (path : List UInt8) : Option (List UInt8 × List UInt8) :=
  let tail := path.reverse.takeWhile (· ≠ 44)
  if tail.length = path.length then none
  else some (path.take (path.length - tail.length - 1), tail.reverse)

-- The mode that do_send finds behind the comma.
def suffixMode (suffix : List UInt8) : Nat :=
  let (mode, errno) := strtoul suffix
  if errno then 0o644 else mode &&& 0o777

-- The path and the mode that do_send finds in the name of the request. Without
-- HAVE_SYMLINKS nothing is a link.
def sendTarget (name : List UInt8) : List UInt8 × Nat :=
  match splitLast name with
  | none => (name, 0o644)
  | some (path, suffix) => (path, suffixMode suffix)

def doSend (dev : Device) (name : List UInt8) : Int × Device :=
  let (path, mode) := sendTarget name
  let mode := mode ||| ((mode >>> 3) &&& 0o070)
  let mode := mode ||| ((mode >>> 3) &&& 0o007)
  handleSendFile (dev.adbUnlink path) path mode

def recvSendLoop : Nat → Device → Input → Int × Device
  | 0, dev, _ => (-1, dev)
  | fuel + 1, dev, fd =>
      match adbRead fd SYNC_DATA_MAX with
      | .got bytes fd =>
          if bytes.length = 0 then
            dev.send [syncmsg [ID_DONE, 0]]
          else
            match dev.send [syncmsg [ID_DATA, UInt32.ofNat bytes.length], bytes] with
            | (0, dev) => recvSendLoop fuel dev fd
            | (_, dev) => (-1, dev)
      | .interrupted fd => recvSendLoop fuel dev fd
      | .failed e _ => failErrno dev e

-- O_RDONLY: the file as its reads find it.
def Device.openRead (dev : Device) (path : List UInt8) : Except Errno Input × Device :=
  match dev.nextOpen with
  | (some e, dev) => (.error e, dev)
  | (none, dev) =>
      match dev.files path with
      | none => (.error .ENOENT, dev)
      | some file => (.ok (cut file.data (dev.reads.headD [])), { dev with reads := dev.reads.tail })

def doRecv (dev : Device) (path : List UInt8) : Int × Device :=
  match dev.openRead path with
  | (.error e, dev) => failErrno dev e
  | (.ok fd, dev) => recvSendLoop (turns fd) dev fd

-- The requests that file_sync_service knows.
def serve (dev : Device) (id : UInt32) (name : List UInt8) : Int × Device :=
  if id = ID_STAT then doStat dev name
  else if id = ID_LIST then doList dev name
  else if id = ID_SEND then doSend dev name
  else if id = ID_RECV then doRecv dev name
  else if id = ID_QUIT then (-1, dev)
  else (-1, (failMessage dev (reason "unknown command")).2)

-- A turn of the loop of file_sync_service, and whether there is another one.
def serveRequest (dev : Device) : Bool × Device :=
  match dev.conn.readx 8 with
  | .failed _ c => (false, (failMessage (dev.setConn c) (reason "command read failure")).2)
  | .done msg c =>
      if (wordAt msg 1).toNat > 1024 then
        (false, (failMessage (dev.setConn c) (reason "invalid namelen")).2)
      else
        match c.readx (wordAt msg 1).toNat with
        | .failed _ c => (false, (failMessage (dev.setConn c) (reason "filename read failure")).2)
        | .done name c =>
            let served := serve (dev.setConn c) (wordAt msg 0) (textOf name)
            (served.1 = 0, served.2)

def serviceLoop : Nat → Device → Device
  | 0, dev => dev
  | fuel + 1, dev =>
      match serveRequest dev with
      | (true, dev) => serviceLoop fuel dev
      | (false, dev) => dev

-- Each turn but the last takes eight bytes at least.
def fileSyncService (dev : Device) : Device :=
  let dev := serviceLoop ((stored dev.conn.input).length + 1) dev
  dev.setConn dev.conn.close

end Adb.Sync
