import Adb.Lib.Print
import Adb.Sync.Syncmsg

namespace Adb.Sync

open Adb.Lib

-- A read of len bytes into a buffer of cap bytes; a call that fails has put
-- there what came before.
def readInto (cap : Nat) (c : Conn) (len : Nat) : Except MemoryFault Conn.Read :=
  match c.readx len with
  | .done bytes c => if bytes.length > cap then .error .overrun else .ok (.done bytes c)
  | .failed bytes c => if bytes.length > cap then .error .overrun else .ok (.failed bytes c)

-- What sync_ls hands to its callback.
structure Listed where
  mode : UInt32
  size : UInt32
  time : UInt32
  name : List UInt8
deriving DecidableEq

def lsLoop : Nat → Conn → List Listed → Except MemoryFault (Int × List Listed × Conn)
  | 0, c, listed => .ok (-1, listed, c.close)
  | fuel + 1, c, listed =>
      match c.readx 20 with
      | .failed _ c => .ok (-1, listed, c.close)
      | .done msg c =>
          if wordAt msg 0 = ID_DONE then
            .ok (0, listed, c)
          else if wordAt msg 0 ≠ ID_DENT then
            .ok (-1, listed, c.close)
          else
            let len := asInt (wordAt msg 4)
            if len > 256 then
              .ok (-1, listed, c.close)
            else
              match readInto 257 c (asSize len) with
              | .error fault => .error fault
              | .ok (.failed _ c) => .ok (-1, listed, c.close)
              | .ok (.done buf c) =>
                  lsLoop fuel c
                    (listed ++ [⟨wordAt msg 1, wordAt msg 2, wordAt msg 3, textOf buf⟩])

-- The value, the calls of the callback and the connection. The loop takes twenty
-- bytes a turn at least.
def syncLs (c : Conn) (path : List UInt8) : Except MemoryFault (Int × List Listed × Conn) :=
  if path.length > 1024 then
    .ok (-1, [], c.close)
  else
    match c.writeAll [syncmsg [ID_LIST, UInt32.ofNat path.length], path] with
    | .failed c => .ok (-1, [], c.close)
    | .done c => lsLoop ((stored c.input).length + 1) c []

-- The file at lpath, and how the reads of it go.
structure LocalFile where
  data : List UInt8
  pattern : List (CallOutcome Errno)

def writeDataLoop : Nat → Input → Conn → Int × Conn
  | 0, _, c => (0, c)
  | fuel + 1, lfd, c =>
      match adbRead lfd SYNC_DATA_MAX with
      | .got bytes lfd =>
          if bytes.length = 0 then
            (0, c)
          else
            match c.writex (dataRecord bytes) with
            | .failed c => (-1, c)
            | .done c => writeDataLoop fuel lfd c
      | .interrupted lfd => writeDataLoop fuel lfd c
      | .failed _ _ => (0, c)

def writeDataFile (c : Conn) (lfile : Option LocalFile) : Int × Conn :=
  match lfile with
  | none => (-1, c)
  | some file =>
      let lfd := cut file.data file.pattern
      writeDataLoop (turns lfd) lfd c

def writeDataBuffer : Nat → Conn → List UInt8 → Int × Conn
  | 0, c, _ => (0, c)
  | fuel + 1, c, fileBuffer =>
      if fileBuffer.length > 0 then
        match c.writex (dataRecord (fileBuffer.take SYNC_DATA_MAX)) with
        | .failed c => (-1, c)
        | .done c => writeDataBuffer fuel c (fileBuffer.drop SYNC_DATA_MAX)
      else
        (0, c)

-- What the check of an APK depends on: the seeks, malloc and the zip library.
structure ApkCheck where
  seeks : Bool
  allocates : Bool
  initZipfile : List UInt8 → Bool
  hasManifest : List UInt8 → Bool

-- The part of sync_send under verifyApk: the buffer, or what sync_send returns.
def readApk (apk : ApkCheck) (lfile : Option LocalFile) : Except Int (List UInt8) :=
  match lfile with
  | none => .error (-1)
  | some file =>
      let size := (file.data.length : Int).bmod (2 ^ 32)
      if ¬apk.seeks ∨ size = -1 then
        .error 1
      else if ¬apk.allocates ∨ size < 0 then
        .error 1
      else
        match adbRead (cut file.data file.pattern) file.data.length with
        | .got buffer _ =>
            if buffer.length ≠ file.data.length then .error 1
            else if ¬apk.initZipfile buffer then .error 1
            else if ¬apk.hasManifest buffer then .error 1
            else .ok buffer
        | _ => .error 1

def S_IFMT : UInt32 := 0xF000
def S_IFREG : UInt32 := 0x8000

-- The end of sync_send: the DONE record and the status.
def finishSend (c : Conn) (mtime : UInt32) : Except MemoryFault (Int × Conn) :=
  match c.writex (syncmsg [ID_DONE, mtime]) with
  | .failed c => .ok (-1, c.close)
  | .done c =>
      match c.readx 8 with
      | .failed _ c => .ok (-1, c)
      | .done msg c =>
          if wordAt msg 0 = ID_OKAY then
            .ok (0, c)
          else if wordAt msg 0 = ID_FAIL then
            let len := asInt (wordAt msg 1)
            let len := if len > 256 then 256 else len
            match readInto SYNC_DATA_MAX c (asSize len) with
            | .error fault => .error fault
            | .ok (.failed _ c) | .ok (.done _ c) => .ok (-1, c)
          else
            .ok (-1, c)

-- The request: the path with the mode at its end.
def modeSuffix (mode : UInt32) : List UInt8 := 44 :: printInt (asInt mode)

def sendRequest (rpath : List UInt8) (mode : UInt32) : List (List UInt8) :=
  [syncmsg [ID_SEND, UInt32.ofNat (rpath.length + (modeSuffix mode).length)], rpath, modeSuffix mode]

def syncSend (apk : ApkCheck) (c : Conn) (lfile : Option LocalFile) (rpath : List UInt8)
    (mtime mode : UInt32) (verifyApk : Bool) : Except MemoryFault (Int × Conn) :=
  if rpath.length > 1024 then
    .ok (-1, c.close)
  else
    match if verifyApk then readApk apk lfile else .ok [] with
    | .error code => .ok (code, c)
    | .ok fileBuffer =>
        match c.writeAll (sendRequest rpath mode) with
        | .failed c => .ok (-1, c.close)
        | .done c =>
            -- what write_data_buffer and write_data_file return is not looked at
            if verifyApk then
              finishSend (writeDataBuffer fileBuffer.length c fileBuffer).2 mtime
            else if mode &&& S_IFMT = S_IFREG then
              finishSend (writeDataFile c lfile).2 mtime
            else
              .ok (-1, c.close)

-- What lpath names here, whether it can be unlinked and created, and how the
-- writes to it go.
structure LocalTarget where
  file : Option (List UInt8)
  unlinks : Bool
  creates : Bool
  writes : List (CallOutcome Errno)

def LocalTarget.unlink (t : LocalTarget) : LocalTarget :=
  if t.unlinks then { t with file := none } else t

inductive LocalTarget.Write where
  | done (t : LocalTarget)
  | failed (t : LocalTarget)

def LocalTarget.append (t : LocalTarget) (bytes : List UInt8) : LocalTarget :=
  { t with file := t.file.map (· ++ bytes) }

def LocalTarget.writex (t : LocalTarget) (bytes : List UInt8) : LocalTarget.Write :=
  match Sync.writex t.writes bytes with
  | .done rest => .done { t.append bytes with writes := rest }
  | .failed taken _ rest => .failed { t.append taken with writes := rest }

-- The label remote_error. What the message says is only printed.
def remoteError (c : Conn) (t : LocalTarget) (msg : List UInt8) :
    Except MemoryFault (Int × Conn × LocalTarget) :=
  let t := t.unlink
  if wordAt msg 0 = ID_FAIL then
    let len := asInt (wordAt msg 1)
    let len := if len > 256 then 256 else len
    match readInto SYNC_DATA_MAX c (asSize len) with
    | .error fault => .error fault
    | .ok (.failed _ c) => .ok (-1, c, t)
    | .ok (.done _ c) => .ok (0, c, t)
  else
    .ok (0, c, t)

-- From handle_data on, with the header that has been read.
def recvLoop : Nat → Conn → LocalTarget → List UInt8 →
    Except MemoryFault (Int × Conn × LocalTarget)
  | 0, c, t, _ => .ok (-1, c, t)
  | fuel + 1, c, t, msg =>
      if wordAt msg 0 = ID_DONE then
        .ok (0, c, t)
      else if wordAt msg 0 ≠ ID_DATA then
        remoteError c t msg
      else
        let len := asInt (wordAt msg 1)
        if len > SYNC_DATA_MAX then
          .ok (-1, c, t)
        else
          match readInto SYNC_DATA_MAX c (asSize len) with
          | .error fault => .error fault
          | .ok (.failed _ c) => .ok (-1, c, t)
          | .ok (.done buffer c) =>
              match t.writex buffer with
              | .failed t => .ok (-1, c, t)
              | .done t =>
                  match c.readx 8 with
                  | .failed _ c => .ok (-1, c, t)
                  | .done msg c => recvLoop fuel c t msg

-- What sync_recv does once the request is sent.
def recvAnswer (c : Conn) (t : LocalTarget) : Except MemoryFault (Int × Conn × LocalTarget) :=
  match c.readx 8 with
  | .failed _ c => .ok (-1, c, t)
  | .done msg c =>
      if wordAt msg 0 = ID_DATA ∨ wordAt msg 0 = ID_DONE then
        let t := t.unlink
        if t.creates then
          recvLoop ((stored c.input).length + 1) c { t with file := some [] } msg
        else
          .ok (-1, c, t)
      else
        remoteError c t msg

def syncRecv (c : Conn) (rpath : List UInt8) (t : LocalTarget) :
    Except MemoryFault (Int × Conn × LocalTarget) :=
  if rpath.length > 1024 then
    .ok (-1, c, t)
  else
    match c.writeAll [syncmsg [ID_RECV, UInt32.ofNat rpath.length], rpath] with
    | .failed c => .ok (-1, c, t)
    | .done c => recvAnswer c t

end Adb.Sync
