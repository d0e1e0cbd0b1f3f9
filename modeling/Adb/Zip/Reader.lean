import Adb.Lib.CString
import Adb.Lib.Words

namespace Adb.Zip

open Adb.Lib

def CD_SIGNATURE : Nat := 0x06054b50
def EOCD_LEN : Nat := 22
def MAX_COMMENT_LEN : Nat := 65535
def MAX_EOCD_SEARCH : Nat := MAX_COMMENT_LEN + EOCD_LEN
def ENTRY_SIGNATURE : Nat := 0x02014b50
def ENTRY_LEN : Nat := 46
def LFH_SIZE : Nat := 30

-- An entry of the list. Pointers into the file are offsets from buf on, and none
-- is NULL.
structure Zipentry where
  fileNameLength : Nat
  fileName : Option Nat
  compressionMethod : Nat
  uncompressedSize : Nat
  compressedSize : Nat
  data : Nat
deriving DecidableEq

structure Zipfile where
  disknum : Nat
  diskWithCentralDir : Nat
  entryCount : Nat
  totalEntryCount : Nat
  centralDirSize : Nat
  centralDirOffset : Nat
  commentLen : Nat
  comment : Option Nat
  entries : List Zipentry
deriving DecidableEq

-- A ssize_t is an int.
def ssize (i : Int) : Int := i.bmod (2 ^ 32)

-- The numbers that stand at a place of the file.
def leInt (data : List UInt8) (p : Nat) : Nat := ofLittleEndian ((data.drop p).take 4)

def leShort (data : List UInt8) (p : Nat) : Nat := ofLittleEndian ((data.drop p).take 2)

def readLeInt (data : List UInt8) (p : Nat) : Except MemoryFault Nat :=
  if p + 4 ≤ data.length then .ok (leInt data p) else .error .overread

def readLeShort (data : List UInt8) (p : Nat) : Except MemoryFault Nat :=
  if p + 2 ≤ data.length then .ok (leShort data p) else .error .overread

def readByte (data : List UInt8) (p : Nat) : Except MemoryFault UInt8 :=
  match data[p]? with
  | some byte => .ok byte
  | none => .error .overread

-- read_central_dir_values: what it stores in the file, or none for -1.
def readCentralDirValues (data : List UInt8) (buf : Nat) (len : Int) : Except MemoryFault (Option Zipfile) :=
  if len < EOCD_LEN then
    .ok none
  else do
    let disknum ← readLeShort data (buf + 0x04)
    let diskWithCentralDir ← readLeShort data (buf + 0x06)
    let entryCount ← readLeShort data (buf + 0x08)
    let totalEntryCount ← readLeShort data (buf + 0x0a)
    let centralDirSize ← readLeInt data (buf + 0x0c)
    let centralDirOffset ← readLeInt data (buf + 0x10)
    let commentLen ← readLeShort data (buf + 0x14)
    let file (comment : Option Nat) : Zipfile :=
      { disknum, diskWithCentralDir, entryCount, totalEntryCount, centralDirSize, centralDirOffset,
        commentLen, comment, entries := [] }
    if commentLen > 0 then
      if (EOCD_LEN + commentLen : Int) > len then .ok none else .ok (some (file (some (buf + EOCD_LEN))))
    else
      .ok (some (file none))

-- The fields of an entry of the central directory.
structure CentralDirEnt where
  versionMadeBy : Nat
  versionToExtract : Nat
  gpBitFlag : Nat
  compressionMethod : Nat
  lastModFileTime : Nat
  lastModFileDate : Nat
  crc32 : Nat
  compressedSize : Nat
  uncompressedSize : Nat
  fileNameLength : Nat
  extraFieldLength : Nat
  fileCommentLength : Nat
  diskNumberStart : Nat
  internalAttrs : Nat
  externalAttrs : Nat
  localHeaderRelOffset : Nat
deriving DecidableEq

def readCentralDirEnt (data : List UInt8) (p : Nat) : Except MemoryFault CentralDirEnt := do
  let versionMadeBy ← readLeShort data (p + 0x04)
  let versionToExtract ← readLeShort data (p + 0x06)
  let gpBitFlag ← readLeShort data (p + 0x08)
  let compressionMethod ← readLeShort data (p + 0x0a)
  let lastModFileTime ← readLeShort data (p + 0x0c)
  let lastModFileDate ← readLeShort data (p + 0x0e)
  let crc32 ← readLeInt data (p + 0x10)
  let compressedSize ← readLeInt data (p + 0x14)
  let uncompressedSize ← readLeInt data (p + 0x18)
  let fileNameLength ← readLeShort data (p + 0x1c)
  let extraFieldLength ← readLeShort data (p + 0x1e)
  let fileCommentLength ← readLeShort data (p + 0x20)
  let diskNumberStart ← readLeShort data (p + 0x22)
  let internalAttrs ← readLeShort data (p + 0x24)
  let externalAttrs ← readLeInt data (p + 0x26)
  let localHeaderRelOffset ← readLeInt data (p + 0x2a)
  return { versionMadeBy, versionToExtract, gpBitFlag, compressionMethod, lastModFileTime, lastModFileDate,
           crc32, compressedSize, uncompressedSize, fileNameLength, extraFieldLength, fileCommentLength,
           diskNumberStart, internalAttrs, externalAttrs, localHeaderRelOffset }

-- read_central_directory_entry: the entry and where buf points then, or none for
-- -1. What len points to is left as it is.
def readCentralDirectoryEntry (data : List UInt8) (buf : Nat) (len : Int) :
    Except MemoryFault (Option (Zipentry × Nat)) :=
  if len < ENTRY_LEN then
    .ok none
  else do
    let signature ← readLeInt data buf
    if signature ≠ ENTRY_SIGNATURE then
      .ok none
    else
      let header ← readCentralDirEnt data buf
      let p := buf + ENTRY_LEN
      let fileName := if header.fileNameLength ≠ 0 then some p else none
      let p := p + header.fileNameLength + header.extraFieldLength + header.fileCommentLength
      let extraFieldLength ← readLeShort data (header.localHeaderRelOffset + 0x1c)
      let dataOffset :=
        (header.localHeaderRelOffset + LFH_SIZE + header.fileNameLength + extraFieldLength) % 2 ^ 32
      .ok (some ({ fileNameLength := header.fileNameLength, fileName,
                   compressionMethod := header.compressionMethod,
                   uncompressedSize := header.uncompressedSize,
                   compressedSize := header.compressedSize, data := dataOffset }, p))

-- The search for the magic, from the place start + n - 1 down to start.
def findEocd (data : List UInt8) (start : Nat) : Nat → Except MemoryFault (Option Nat)
  | 0 => .ok none
  | n + 1 => do
      let byte ← readByte data (start + n)
      if byte = 0x50 then
        let signature ← readLeInt data (start + n)
        if signature = CD_SIGNATURE then .ok (some (start + n)) else findEocd data start n
      else
        findEocd data start n

-- The loop over the entries, n of which are left.
def readEntries (data : List UInt8) (len : Int) :
    Nat → Nat → List Zipentry → Except MemoryFault (Option (List Zipentry))
  | 0, _, entries => .ok (some entries)
  | n + 1, p, entries => do
      match ← readCentralDirectoryEntry data p len with
      | none => .ok none
      | some (entry, p) => readEntries data len n p (entry :: entries)

def readCentralDir (data : List UInt8) : Except MemoryFault (Option Zipfile) :=
  let bufsize := ssize data.length
  if bufsize < EOCD_LEN then
    .ok none
  else do
    let size := bufsize.toNat
    let start := if size > MAX_EOCD_SEARCH then size - MAX_EOCD_SEARCH else 0
    match ← findEocd data start (size - 4 + 1 - start) with
    | none => .ok none
    | some eocd =>
        match ← readCentralDirValues data eocd (bufsize - eocd) with
        | none => .ok none
        | some file =>
            if file.disknum ≠ 0 ∨ file.diskWithCentralDir ≠ 0 ∨ file.entryCount ≠ file.totalEntryCount then
              .ok none
            else
              match ← readEntries data (ssize (bufsize - file.centralDirOffset)) file.totalEntryCount
                  file.centralDirOffset [] with
              | none => .ok none
              | some entries => .ok (some { file with entries })

-- malloc gives the memory that is asked for.
def initZipfile (data : List UInt8) : Except MemoryFault (Option Zipfile) := readCentralDir data

end Adb.Zip
