import Adb.Lib.Ensures
import Adb.Zip.Reader

namespace Adb.Zip

open Adb.Lib

variable {data : List UInt8} {p n : Nat}

-- What is read of an entry whose fields lie in the file.
def centralDirEnt (data : List UInt8) (p : Nat) : CentralDirEnt where
  versionMadeBy := leShort data (p + 0x04)
  versionToExtract := leShort data (p + 0x06)
  gpBitFlag := leShort data (p + 0x08)
  compressionMethod := leShort data (p + 0x0a)
  lastModFileTime := leShort data (p + 0x0c)
  lastModFileDate := leShort data (p + 0x0e)
  crc32 := leInt data (p + 0x10)
  compressedSize := leInt data (p + 0x14)
  uncompressedSize := leInt data (p + 0x18)
  fileNameLength := leShort data (p + 0x1c)
  extraFieldLength := leShort data (p + 0x1e)
  fileCommentLength := leShort data (p + 0x20)
  diskNumberStart := leShort data (p + 0x22)
  internalAttrs := leShort data (p + 0x24)
  externalAttrs := leInt data (p + 0x26)
  localHeaderRelOffset := leInt data (p + 0x2a)

-- Where the next entry begins.
def nextEntry (data : List UInt8) (p : Nat) : Nat :=
  p + ENTRY_LEN + leShort data (p + 0x1c) + leShort data (p + 0x1e) + leShort data (p + 0x20)

-- Where the data of an entry begins, by its local header.
def dataOffset (data : List UInt8) (p : Nat) : Nat :=
  (leInt data (p + 0x2a) + LFH_SIZE + leShort data (p + 0x1c) +
    leShort data (leInt data (p + 0x2a) + 0x1c)) % 2 ^ 32

def entryAt (data : List UInt8) (p : Nat) : Zipentry where
  fileNameLength := leShort data (p + 0x1c)
  fileName := if leShort data (p + 0x1c) ≠ 0 then some (p + ENTRY_LEN) else none
  compressionMethod := leShort data (p + 0x0a)
  uncompressedSize := leInt data (p + 0x18)
  compressedSize := leInt data (p + 0x14)
  data := dataOffset data p

section Entry

theorem readLeInt_eq (h : p + 4 ≤ data.length) : readLeInt data p = .ok (leInt data p) := if_pos h

theorem readLeShort_eq (h : p + 2 ≤ data.length) : readLeShort data p = .ok (leShort data p) :=
  if_pos h

theorem readLeInt_beyond (h : data.length < p + 4) : readLeInt data p = .error .overread :=
  if_neg (by omega)

theorem readLeShort_beyond (h : data.length < p + 2) : readLeShort data p = .error .overread :=
  if_neg (by omega)

theorem readCentralDirEnt_eq (h : p + ENTRY_LEN ≤ data.length) :
    readCentralDirEnt data p = .ok (centralDirEnt data p) := by
  unfold ENTRY_LEN at h
  simp only [readCentralDirEnt, bind, Except.bind, pure, Except.pure,
    readLeShort_eq (show p + 0x04 + 2 ≤ data.length by omega),
    readLeShort_eq (show p + 0x06 + 2 ≤ data.length by omega),
    readLeShort_eq (show p + 0x08 + 2 ≤ data.length by omega),
    readLeShort_eq (show p + 0x0a + 2 ≤ data.length by omega),
    readLeShort_eq (show p + 0x0c + 2 ≤ data.length by omega),
    readLeShort_eq (show p + 0x0e + 2 ≤ data.length by omega),
    readLeInt_eq (show p + 0x10 + 4 ≤ data.length by omega),
    readLeInt_eq (show p + 0x14 + 4 ≤ data.length by omega),
    readLeInt_eq (show p + 0x18 + 4 ≤ data.length by omega),
    readLeShort_eq (show p + 0x1c + 2 ≤ data.length by omega),
    readLeShort_eq (show p + 0x1e + 2 ≤ data.length by omega),
    readLeShort_eq (show p + 0x20 + 2 ≤ data.length by omega),
    readLeShort_eq (show p + 0x22 + 2 ≤ data.length by omega),
    readLeShort_eq (show p + 0x24 + 2 ≤ data.length by omega),
    readLeInt_eq (show p + 0x26 + 4 ≤ data.length by omega),
    readLeInt_eq (show p + 0x2a + 4 ≤ data.length by omega)]
  rfl

-- The last of the fields is read whatever the ones before say.
theorem readCentralDirEnt_ok {header : CentralDirEnt} (h : readCentralDirEnt data p = .ok header) :
    p + ENTRY_LEN ≤ data.length := by
  unfold readCentralDirEnt at h
  iterate 15 obtain ⟨_, -, h⟩ := bind_ok h
  obtain ⟨offset, hlast, -⟩ := bind_ok h
  unfold readLeInt at hlast
  split at hlast
  · unfold ENTRY_LEN
    omega
  · cases hlast

-- The record of an entry and the length in its local header lie in the file.
structure EntryInside (data : List UInt8) (p : Nat) : Prop where
  record : p + ENTRY_LEN ≤ data.length
  localHeader : leInt data (p + 0x2a) + 0x1c + 2 ≤ data.length

theorem readCentralDirectoryEntry_eq (hlen : (ENTRY_LEN : Int) ≤ len)
    (hsig : leInt data p = ENTRY_SIGNATURE)
    (h : EntryInside data p) :
    readCentralDirectoryEntry data p len = .ok (some (entryAt data p, nextEntry data p)) := by
  have hrecord := h.record
  have hfirst : readLeInt data p = .ok (leInt data p) :=
    readLeInt_eq (by unfold ENTRY_LEN at hrecord; omega)
  have hheader := readCentralDirEnt_eq hrecord
  have hextra := readLeShort_eq h.localHeader
  unfold readCentralDirectoryEntry
  rw [if_neg (by omega), hfirst]
  simp only [bind, Except.bind, hsig, ne_eq, not_true, if_false, hheader, centralDirEnt, hextra]
  rfl

theorem readCentralDirectoryEntry_unsigned (hlen : (ENTRY_LEN : Int) ≤ len)
    (h : p + 4 ≤ data.length)
    (hsig : leInt data p ≠ ENTRY_SIGNATURE) : readCentralDirectoryEntry data p len = .ok none := by
  unfold readCentralDirectoryEntry
  rw [if_neg (by omega), readLeInt_eq h]
  exact if_pos hsig

theorem readCentralDirectoryEntry_ok (hlen : (ENTRY_LEN : Int) ≤ len)
    {result : Option (Zipentry × Nat)}
    (h : readCentralDirectoryEntry data p len = .ok result) :
    p + 4 ≤ data.length ∧ (leInt data p = ENTRY_SIGNATURE → EntryInside data p) := by
  unfold readCentralDirectoryEntry at h
  rw [if_neg (by omega)] at h
  obtain ⟨signature, hfirst, h⟩ := bind_ok h
  have hin : p + 4 ≤ data.length := by
    by_contra hout
    rw [readLeInt_beyond (by omega)] at hfirst
    cases hfirst
  refine ⟨hin, fun hsig => ?_⟩
  rw [readLeInt_eq hin, Except.ok.injEq] at hfirst
  rw [if_neg (by omega)] at h
  obtain ⟨header, hheader, h⟩ := bind_ok h
  have hrecord := readCentralDirEnt_ok hheader
  rw [readCentralDirEnt_eq hrecord, Except.ok.injEq] at hheader
  obtain ⟨extra, hextra, -⟩ := bind_ok h
  refine ⟨hrecord, ?_⟩
  by_contra hout
  rw [← hheader, readLeShort_beyond (by simp only [centralDirEnt]; omega)] at hextra
  cases hextra

end Entry

section Search

variable {start stop e : Nat}

-- The last place with the magic.
structure IsLast (data : List UInt8) (start stop e : Nat) : Prop where
  lower : start ≤ e
  upper : e < stop
  signature : leInt data e = CD_SIGNATURE
  last : ∀ i, e < i → i < stop → leInt data i ≠ CD_SIGNATURE

theorem IsLast.unique {e' : Nat} (h : IsLast data start stop e)
    (h' : IsLast data start stop e') : e = e' := by
  obtain hlt | rfl | hlt := Nat.lt_trichotomy e e'
  · exact absurd h'.signature (h.last e' hlt h'.upper)
  · rfl
  · exact absurd h.signature (h'.last e hlt h.upper)

-- The lowest byte of a number is the one that comes first.
theorem leInt_first {byte : UInt8} (h : data[p]? = some byte) :
    leInt data p % 256 = byte.toNat := by
  obtain ⟨hlt, hget⟩ := List.getElem?_eq_some_iff.mp h
  have hlt' := byte.toNat_lt
  unfold leInt
  rw [List.drop_eq_getElem_cons hlt, hget, List.take_succ_cons, ofLittleEndian]
  omega

-- The loop from the end on finds the last place.
theorem findEocd_spec (h : start + n + 3 ≤ data.length) :
    ∃ found, findEocd data start n = .ok found ∧ ∀ e, found = some e ↔
      IsLast data start (start + n) e := by
  induction n with
  | zero =>
      refine ⟨none, rfl, fun e => ?_⟩
      simp only [reduceCtorEq, false_iff]
      intro hlast
      have hlower := hlast.lower
      have hupper := hlast.upper
      omega
  | succ n ih =>
      obtain ⟨found, hfound, hspec⟩ := ih (by omega)
      have hget : data[start + n]? = some data[start + n] := List.getElem?_eq_getElem (by omega)
      have hfirst := leInt_first hget
      by_cases hsig : leInt data (start + n) = CD_SIGNATURE
      · refine ⟨some (start + n), ?_, fun e => ?_⟩
        · have hbyte : data[start + n] = 0x50 := by
            rw [hsig] at hfirst
            exact UInt8.toNat_inj.mp hfirst.symm
          unfold findEocd
          rw [readByte, hget]
          simp only [bind, Except.bind, hbyte, if_true,
            readLeInt_eq (show start + n + 4 ≤ data.length by omega), hsig]
        · have hlast : IsLast data start (start + (n + 1)) (start + n) :=
            ⟨by omega, by omega, hsig, fun i hi hlt => by omega⟩
          rw [Option.some.injEq]
          constructor
          · rintro rfl
            exact hlast
          · exact hlast.unique
      · refine ⟨found, ?_, fun e => ?_⟩
        · unfold findEocd
          rw [readByte, hget]
          simp only [bind, Except.bind, readLeInt_eq (show start + n + 4 ≤ data.length by omega),
            hsig, if_false, hfound, ite_self]
        · rw [hspec]
          constructor
          · intro hlast
            refine ⟨hlast.lower, by have := hlast.upper; omega, hlast.signature, fun i hi hlt => ?_⟩
            by_cases heq : i = start + n
            · rw [heq]
              exact hsig
            · exact hlast.last i hi (by omega)
          · intro hlast
            have hne : e ≠ start + n := by
              rintro rfl
              exact hsig hlast.signature
            exact ⟨hlast.lower, by have := hlast.upper; omega, hlast.signature,
              fun i hi hlt => hlast.last i hi (by omega)⟩

end Search

section Values

-- What read_central_dir_values stores.
def valuesAt (data : List UInt8) (eocd : Nat) : Zipfile where
  disknum := leShort data (eocd + 0x04)
  diskWithCentralDir := leShort data (eocd + 0x06)
  entryCount := leShort data (eocd + 0x08)
  totalEntryCount := leShort data (eocd + 0x0a)
  centralDirSize := leInt data (eocd + 0x0c)
  centralDirOffset := leInt data (eocd + 0x10)
  commentLen := leShort data (eocd + 0x14)
  comment := if 0 < leShort data (eocd + 0x14) then some (eocd + EOCD_LEN) else none
  entries := []

variable {eocd : Nat} {len : Int}

theorem readCentralDirValues_short (h : len < EOCD_LEN) :
    readCentralDirValues data eocd len = .ok none := if_pos h

-- The fields lie in the file where it says that there is as much left.
theorem readCentralDirValues_eq (hlen : (EOCD_LEN : Int) ≤ len)
    (h : eocd + EOCD_LEN ≤ data.length) :
    readCentralDirValues data eocd len =
      .ok (if (EOCD_LEN + leShort data (eocd + 0x14) : Int) ≤
        len then some (valuesAt data eocd) else none) := by
  unfold EOCD_LEN at h
  unfold readCentralDirValues
  rw [if_neg (by omega)]
  simp only [bind, Except.bind, readLeShort_eq (show eocd + 0x04 + 2 ≤ data.length by omega),
    readLeShort_eq (show eocd + 0x06 + 2 ≤ data.length by omega),
    readLeShort_eq (show eocd + 0x08 + 2 ≤ data.length by omega),
    readLeShort_eq (show eocd + 0x0a + 2 ≤ data.length by omega),
    readLeInt_eq (show eocd + 0x0c + 4 ≤ data.length by omega),
    readLeInt_eq (show eocd + 0x10 + 4 ≤ data.length by omega),
    readLeShort_eq (show eocd + 0x14 + 2 ≤ data.length by omega)]
  by_cases hcomment : 0 < leShort data (eocd + 0x14)
  · rw [if_pos hcomment]
    by_cases hfits : (EOCD_LEN + leShort data (eocd + 0x14) : Int) ≤ len
    · rw [if_neg (by omega), if_pos hfits, valuesAt, if_pos hcomment]
    · rw [if_pos (by omega), if_neg hfits]
  · rw [if_neg hcomment, if_pos (by omega), valuesAt, if_neg hcomment]

end Values

section Directory

-- The places of the entries, each behind the one before.
def place (data : List UInt8) : Nat → Nat → Nat
  | p, 0 => p
  | p, i + 1 => place data (nextEntry data p) i

def Signed (data : List UInt8) (p : Nat) : Prop := leInt data p = ENTRY_SIGNATURE

variable {len : Int} {entries : List Zipentry}

theorem forall_place {P : Nat → Prop} :
    (∀ i < n + 1, P (place data p i)) ↔ P p ∧ ∀ i < n, P (place data (nextEntry data p) i) := by
  constructor
  · intro h
    exact ⟨h 0 (by omega), fun i hi => h (i + 1) (by omega)⟩
  · intro ⟨hfirst, hmore⟩ i hi
    cases i with
    | zero => exact hfirst
    | succ i => exact hmore i (by omega)

-- The list of a directory with n entries, the last one first.
def entriesFrom (data : List UInt8) (p : Nat) (n : Nat) : List Zipentry :=
  ((List.range n).map fun i => entryAt data (place data p i)).reverse

theorem entriesFrom_succ (data : List UInt8) (p n : Nat) (entries : List Zipentry) :
    entriesFrom data p (n + 1) ++ entries =
      entriesFrom data (nextEntry data p) n ++ entryAt data p :: entries := by
  unfold entriesFrom
  rw [List.range_succ_eq_map, List.map_cons, List.map_map, List.reverse_cons, List.append_assoc]
  rfl

-- With every entry in the file the loop comes to its end.
theorem readEntries_eq (hlen : (ENTRY_LEN : Int) ≤ len)
    (hsigned : ∀ i < n, Signed data (place data p i))
    (hinside : ∀ i < n, EntryInside data (place data p i)) :
    readEntries data len n p entries = .ok (some (entriesFrom data p n ++ entries)) := by
  induction n generalizing p entries with
  | zero => rfl
  | succ n ih =>
      obtain ⟨hsig, hsigned⟩ := forall_place.mp hsigned
      obtain ⟨hin, hinside⟩ := forall_place.mp hinside
      unfold readEntries
      rw [readCentralDirectoryEntry_eq hlen hsig hin, entriesFrom_succ]
      exact ih hsigned hinside

end Directory

end Adb.Zip
