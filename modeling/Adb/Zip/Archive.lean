import Mathlib.Data.List.Forall2
import Adb.Lib.Layout
import Adb.Zip.Safety

namespace Adb.Zip

open Adb.Lib

-- A text whose length fits into the two bytes there are for it.
abbrev ShortText := { text : List UInt8 // text.length < 2 ^ 16 }

-- A file of an archive: what the central directory says about it, what its local
-- header says, and the bytes that are stored.
structure Member where
  versionMadeBy : UInt16
  versionToExtract : UInt16
  gpBitFlag : UInt16
  compressionMethod : UInt16
  lastModFileTime : UInt16
  lastModFileDate : UInt16
  crc32 : UInt32
  compressedSize : UInt32
  uncompressedSize : UInt32
  fileName : ShortText
  extraField : ShortText
  fileComment : ShortText
  diskNumberStart : UInt16
  internalAttrs : UInt16
  externalAttrs : UInt32
  localHeaderRelOffset : UInt32
  localFields : { fields : List UInt8 // fields.length = 22 }
  localExtraField : ShortText
  contents : List UInt8
  stored : contents.length = compressedSize.toNat

namespace Member

def recordFields (m : Member) : List RecordField :=
  [⟨4, ENTRY_SIGNATURE⟩, ⟨2, m.versionMadeBy.toNat⟩, ⟨2, m.versionToExtract.toNat⟩,
    ⟨2, m.gpBitFlag.toNat⟩, ⟨2, m.compressionMethod.toNat⟩, ⟨2, m.lastModFileTime.toNat⟩,
    ⟨2, m.lastModFileDate.toNat⟩, ⟨4, m.crc32.toNat⟩, ⟨4, m.compressedSize.toNat⟩,
    ⟨4, m.uncompressedSize.toNat⟩, ⟨2, m.fileName.val.length⟩, ⟨2, m.extraField.val.length⟩,
    ⟨2, m.fileComment.val.length⟩, ⟨2, m.diskNumberStart.toNat⟩, ⟨2, m.internalAttrs.toNat⟩,
    ⟨4, m.externalAttrs.toNat⟩, ⟨4, m.localHeaderRelOffset.toNat⟩]

-- The record of the member in the central directory.
def record (m : Member) : List UInt8 :=
  layout m.recordFields ++ (m.fileName.val ++ (m.extraField.val ++ m.fileComment.val))

-- The local header, behind whose lengths come the name and the extra field.
def localHeader (m : Member) : List UInt8 :=
  toLittleEndian 4 0x04034b50 ++ (m.localFields.val ++ (toLittleEndian 2 m.fileName.val.length ++
    (toLittleEndian 2 m.localExtraField.val.length ++ (m.fileName.val ++ m.localExtraField.val))))

-- The member stands where the central directory says.
def PlacedIn (front : List UInt8) (m : Member) : Prop :=
  ∃ before after, front = before ++ (m.localHeader ++ (m.contents ++ after)) ∧
    before.length = m.localHeaderRelOffset.toNat

end Member

def directory (members : List Member) : List UInt8 := members.flatMap Member.record

-- The end of a central directory of one disk.
def endFields (members : List Member) (front : List UInt8) (comment : ShortText) :
    List RecordField :=
  [⟨4, CD_SIGNATURE⟩, ⟨2, 0⟩, ⟨2, 0⟩, ⟨2, members.length⟩, ⟨2, members.length⟩,
    ⟨4, (directory members).length⟩, ⟨4, front.length⟩, ⟨2, comment.val.length⟩]

def archiveBytes (front : List UInt8) (members : List Member) (comment : ShortText) : List UInt8 :=
  front ++ (directory members ++ (layout (endFields members front comment) ++ comment.val))

-- A well-formed archive on one disk: the files and whatever stands between them, the
-- central directory, and its end, whose signature does not come again.
structure Archive where
  front : List UInt8
  members : List Member
  comment : ShortText
  count : members.length < 2 ^ 16
  position : front.length < 2 ^ 32
  size : (directory members).length < 2 ^ 32
  placed : ∀ m ∈ members, m.PlacedIn front
  last : ∀ i, front.length + (directory members).length < i →
    i + 4 ≤ (archiveBytes front members comment).length →
    leInt (archiveBytes front members comment) i ≠ CD_SIGNATURE

def Archive.bytes (archive : Archive) : List UInt8 :=
  archiveBytes archive.front archive.members archive.comment

-- The name an entry points to.
def Zipentry.name (data : List UInt8) (entry : Zipentry) : List UInt8 :=
  match entry.fileName with
  | some p => (data.drop p).take entry.fileNameLength
  | none => []

-- An entry says what the archive says of a member, and points to its contents.
structure Describes (data : List UInt8) (entry : Zipentry) (m : Member) : Prop where
  fileNameLength : entry.fileNameLength = m.fileName.val.length
  fileName : entry.name data = m.fileName.val
  compressionMethod : entry.compressionMethod = m.compressionMethod.toNat
  uncompressedSize : entry.uncompressedSize = m.uncompressedSize.toNat
  compressedSize : entry.compressedSize = m.compressedSize.toNat
  contents : (data.drop entry.data).take entry.compressedSize = m.contents
  data : entry.data = m.localHeaderRelOffset.toNat + m.localHeader.length

section Reading

variable {data pre rest front : List UInt8} {fields : List RecordField} {m : Member}
  {members : List Member}
  {comment : ShortText} {entries : List Zipentry} {len : Int} {p k value i : Nat}

theorem leShort_layout (hdata : data = pre ++ (layout fields ++ rest)) (hp : p = pre.length + k)
    (h : fields[i]? = some ⟨2, value⟩) (hk : offset fields i = k) (hvalue : value < 2 ^ 16) :
    leShort data p = value := by
  subst hdata hp hk
  exact read_layout h (by omega)

theorem leInt_layout (hdata : data = pre ++ (layout fields ++ rest)) (hp : p = pre.length + k)
    (h : fields[i]? = some ⟨4, value⟩) (hk : offset fields i = k) (hvalue : value < 2 ^ 32) :
    leInt data p = value := by
  subst hdata hp hk
  exact read_layout h (by omega)

theorem length_recordFields (m : Member) : (layout m.recordFields).length = ENTRY_LEN := by
  simp [length_layout, Member.recordFields, ENTRY_LEN]

theorem length_record (m : Member) : m.record.length =
    ENTRY_LEN + m.fileName.val.length + m.extraField.val.length + m.fileComment.val.length := by
  unfold Member.record
  rw [List.length_append, List.length_append, List.length_append, length_recordFields]
  omega

theorem length_localHeader (m : Member) : m.localHeader.length =
    LFH_SIZE + m.fileName.val.length + m.localExtraField.val.length := by
  unfold Member.localHeader LFH_SIZE
  simp only [List.length_append, length_toLittleEndian, m.localFields.property]
  omega

-- What the record of a member says where it stands.
theorem record_read (hdata : data = pre ++ (m.record ++ rest)) :
    leInt data pre.length = ENTRY_SIGNATURE ∧
      leShort data (pre.length + 0x0a) = m.compressionMethod.toNat ∧
      leInt data (pre.length + 0x14) = m.compressedSize.toNat ∧
      leInt data (pre.length + 0x18) = m.uncompressedSize.toNat ∧
      leShort data (pre.length + 0x1c) = m.fileName.val.length ∧
      leShort data (pre.length + 0x1e) = m.extraField.val.length ∧
      leShort data (pre.length + 0x20) = m.fileComment.val.length ∧
      leInt data (pre.length + 0x2a) = m.localHeaderRelOffset.toNat := by
  unfold Member.record at hdata
  rw [List.append_assoc] at hdata
  have hoffset : ∀ i k, ([4, 2, 2, 2, 2, 2, 2, 4, 4, 4, 2, 2, 2, 2, 2, 4, 4].take i).sum = k →
      offset m.recordFields i = k := fun i k h => by rw [← h, offset, List.map_take]; rfl
  exact ⟨leInt_layout hdata (Nat.add_zero _).symm rfl (hoffset 0 _ rfl) (by decide),
    leShort_layout hdata rfl rfl (hoffset 4 _ rfl) m.compressionMethod.toNat_lt,
    leInt_layout hdata rfl rfl (hoffset 8 _ rfl) m.compressedSize.toNat_lt,
    leInt_layout hdata rfl rfl (hoffset 9 _ rfl) m.uncompressedSize.toNat_lt,
    leShort_layout hdata rfl rfl (hoffset 10 _ rfl) m.fileName.property,
    leShort_layout hdata rfl rfl (hoffset 11 _ rfl) m.extraField.property,
    leShort_layout hdata rfl rfl (hoffset 12 _ rfl) m.fileComment.property,
    leInt_layout hdata rfl rfl (hoffset 16 _ rfl) m.localHeaderRelOffset.toNat_lt⟩

-- Where the local header stands, and the contents behind it.
theorem placed_read (hplaced : m.PlacedIn front) (hfront : front <+: data) :
    m.localHeaderRelOffset.toNat + LFH_SIZE ≤ data.length ∧
      leShort data (m.localHeaderRelOffset.toNat + 0x1c) = m.localExtraField.val.length ∧
      (data.drop (m.localHeaderRelOffset.toNat + m.localHeader.length)).take
        m.compressedSize.toNat = m.contents := by
  obtain ⟨before, after, rfl, hbefore⟩ := hplaced
  obtain ⟨rest, hdata⟩ := hfront
  replace hdata := hdata.symm
  refine ⟨?_, ?_, ?_⟩
  · rw [hdata, ← hbefore]
    have hheader := length_localHeader m
    simp only [List.length_append]
    omega
  · have hextra : data = (before ++ (toLittleEndian 4 0x04034b50 ++ (m.localFields.val ++
          toLittleEndian 2 m.fileName.val.length))) ++
            (layout [⟨2, m.localExtraField.val.length⟩] ++
          (m.fileName.val ++ (m.localExtraField.val ++ (m.contents ++ (after ++ rest))))) := by
      simp [hdata, Member.localHeader, layout]
    refine leShort_layout (i := 0) (k := 0) hextra ?_ rfl rfl m.localExtraField.property
    simp [m.localFields.property, ← hbefore]
  · have hcontents : data = (before ++ m.localHeader) ++ (m.contents ++ (after ++ rest)) := by
      simp [hdata]
    rw [hcontents, List.drop_left' (by rw [List.length_append, hbefore]), List.take_left' m.stored]

theorem name_entryAt (data : List UInt8) (p : Nat) :
    (entryAt data p).name data = (data.drop (p + ENTRY_LEN)).take (leShort data (p + 0x1c)) := by
  unfold entryAt Zipentry.name
  by_cases hempty : leShort data (p + 0x1c) = 0 <;> simp [hempty]

-- An entry of the directory is read as what describes its member.
theorem record_entry (hdata : data = pre ++ (m.record ++ rest)) (hplaced : m.PlacedIn front)
    (hfront : front <+: data) (hsmall : data.length < 2 ^ 32) :
    Signed data pre.length ∧ EntryInside data pre.length ∧
      nextEntry data pre.length = (pre ++ m.record).length ∧
        Describes data (entryAt data pre.length) m := by
  obtain ⟨hsig, hmethod, hcompressed, huncompressed, hname, hextra, hcomment, hoffset⟩ :=
    record_read hdata
  obtain ⟨hheader, hlocal, hcontents⟩ := placed_read hplaced hfront
  have hrecord := length_record m
  have hlength := congrArg List.length hdata
  simp only [List.length_append] at hlength
  have hbehind : m.localHeaderRelOffset.toNat + m.localHeader.length ≤ data.length := by
    obtain ⟨before, after, rfl, hbefore⟩ := hplaced
    have hle := hfront.length_le
    simp only [List.length_append] at hle
    omega
  have hdataOffset : dataOffset data pre.length =
      m.localHeaderRelOffset.toNat + m.localHeader.length := by
    rw [length_localHeader] at hbehind ⊢
    rw [dataOffset, hoffset, hname, hlocal, Nat.mod_eq_of_lt (by omega)]
    omega
  refine ⟨hsig, ⟨by omega, ?_⟩, ?_,
    ⟨hname, ?_, hmethod, huncompressed, hcompressed, ?_, hdataOffset⟩⟩
  · rw [hoffset]
    unfold LFH_SIZE at hheader
    omega
  · rw [nextEntry, hname, hextra, hcomment, List.length_append, hrecord]
    omega
  · have hnamed : data = (pre ++ layout m.recordFields) ++ (m.fileName.val ++ (m.extraField.val ++
        (m.fileComment.val ++ rest))) := by
      simp [hdata, Member.record]
    have hfields : (pre ++ layout m.recordFields).length = pre.length + ENTRY_LEN := by
      rw [List.length_append, length_recordFields]
    rw [name_entryAt, hname, hnamed, List.drop_left' hfields, List.take_left]
  · show (data.drop (dataOffset data pre.length)).take (leInt data (pre.length + 0x14)) = m.contents
    rw [hdataOffset, hcompressed, hcontents]

-- The loop over a directory that stands behind pre: each record is read from where
-- the one before ends, and its entry goes to the front of the list.
theorem readEntries_directory (hlen : members ≠ [] → (ENTRY_LEN : Int) ≤ len)
    (hdata : data = pre ++ (directory members ++ rest)) (hplaced : ∀ m ∈ members, m.PlacedIn front)
    (hfront : front <+: data) (hsmall : data.length < 2 ^ 32) :
    ∃ listed, readEntries data len members.length pre.length entries =
      .ok (some (listed ++ entries)) ∧
      List.Forall₂ (Describes data) listed members.reverse := by
  induction members generalizing pre entries with
  | nil => exact ⟨[], rfl, List.Forall₂.nil⟩
  | cons m members ih =>
      have hrecord : data = pre ++ (m.record ++ (directory members ++ rest)) := by
        simp [hdata, directory]
      obtain ⟨hsig, hinside, hnext, hdescribes⟩ :=
        record_entry hrecord (hplaced m List.mem_cons_self) hfront hsmall
      have hmore : data = (pre ++ m.record) ++ (directory members ++ rest) := by
        rw [hrecord, List.append_assoc]
      obtain ⟨listed, hread, hlisted⟩ := @ih (pre ++ m.record) (entryAt data pre.length :: entries)
        (fun _ => hlen (List.cons_ne_nil m members)) hmore fun m' hm' =>
          hplaced m' (List.mem_cons_of_mem m hm')
      refine ⟨listed ++ [entryAt data pre.length], ?_, ?_⟩
      · rw [List.length_cons, readEntries,
          readCentralDirectoryEntry_eq (hlen (List.cons_ne_nil m members)) hsig hinside, hnext,
            List.append_assoc]
        exact hread
      · rw [List.reverse_cons]
        exact List.rel_append hlisted (List.Forall₂.cons hdescribes List.Forall₂.nil)

-- What the end of the directory says.
theorem end_read (hdata : data = pre ++ (layout (endFields members front comment) ++ comment.val))
    (hcount : members.length < 2 ^ 16) (hposition : front.length < 2 ^ 32) :
    leInt data pre.length = CD_SIGNATURE ∧ leShort data (pre.length + 0x04) = 0 ∧
      leShort data (pre.length + 0x06) = 0 ∧ leShort data (pre.length + 0x08) = members.length ∧
      leShort data (pre.length + 0x0a) = members.length ∧
        leInt data (pre.length + 0x10) = front.length ∧
      leShort data (pre.length + 0x14) = comment.val.length := by
  have hoffset : ∀ i k, ([4, 2, 2, 2, 2, 4, 4, 2].take i).sum = k →
      offset (endFields members front comment) i = k :=
        fun i k h => by rw [← h, offset, List.map_take]; rfl
  exact ⟨leInt_layout hdata (Nat.add_zero _).symm rfl (hoffset 0 _ rfl) (by decide),
    leShort_layout hdata rfl rfl (hoffset 1 _ rfl) (by decide),
    leShort_layout hdata rfl rfl (hoffset 2 _ rfl) (by decide),
    leShort_layout hdata rfl rfl (hoffset 3 _ rfl) hcount,
    leShort_layout hdata rfl rfl (hoffset 4 _ rfl) hcount,
    leInt_layout hdata rfl rfl (hoffset 6 _ rfl) hposition,
    leShort_layout hdata rfl rfl (hoffset 7 _ rfl) comment.property⟩

end Reading

section Archives

variable {archive : Archive}

-- Where the directory of an archive ends.
def Archive.eocd (archive : Archive) : Nat := (archive.front ++ directory archive.members).length

theorem archive_ends (archive : Archive) :
    archive.bytes = (archive.front ++ directory archive.members) ++
    (layout (endFields archive.members archive.front archive.comment) ++ archive.comment.val) := by
  simp [Archive.bytes, archiveBytes]

theorem length_archive (archive : Archive) :
    archive.bytes.length = archive.eocd + EOCD_LEN + archive.comment.val.length := by
  rw [archive_ends, Archive.eocd, List.length_append, List.length_append, List.length_append,
    length_layout]
  simp [endFields, EOCD_LEN]
  omega

-- The search finds the end of the directory, however long the comment is.
theorem archive_located (hsmall : archive.bytes.length < 2 ^ 31) :
    Located archive.bytes archive.eocd := by
  obtain ⟨hmagic, hdisk, hstart, hcount, htotal, -, hcomment⟩ :=
    end_read (archive_ends archive) archive.count archive.position
  have hlength := length_archive archive
  have hshort := archive.comment.property
  have hcounted := counted_small hsmall
  refine ⟨?_, ⟨?_, ?_, hmagic, fun i hi hlt => ?_⟩, ?_, ⟨hdisk, hstart⟩, hcount.trans htotal.symm⟩
  · omega
  · unfold MAX_EOCD_SEARCH MAX_COMMENT_LEN
    omega
  · unfold EOCD_LEN at hlength
    omega
  · refine archive.last i ?_ (show i + 4 ≤ archive.bytes.length by omega)
    unfold Archive.eocd at hi
    rwa [List.length_append] at hi
  · unfold Archive.eocd at hlength ⊢
    rw [hcomment]
    omega

-- An archive that an int can count is read in full, the entry that comes last in the
-- directory first.
theorem init_zipfile_reads (archive : Archive) (hsmall : archive.bytes.length < 2 ^ 31) :
    ∃ file, initZipfile archive.bytes = .ok (some file) ∧
      List.Forall₂ (Describes archive.bytes) file.entries archive.members.reverse := by
  obtain ⟨-, -, -, -, htotal, hposition, -⟩ :=
    end_read (archive_ends archive) archive.count archive.position
  have hlength := length_archive archive
  have hcounted := counted_small hsmall
  have hdirectory : archive.bytes = archive.front ++ (directory archive.members ++
      (layout (endFields archive.members archive.front archive.comment) ++
        archive.comment.val)) := rfl
  have hroom : archive.members ≠ [] →
      (ENTRY_LEN : Int) ≤ ssize (counted archive.bytes - archive.front.length) := by
    intro hne
    obtain ⟨m, members, hmembers⟩ := List.exists_cons_of_ne_nil hne
    have hrecord := length_record m
    have hleast : ENTRY_LEN ≤ (directory archive.members).length := by
      rw [hmembers, directory, List.flatMap_cons, List.length_append]
      omega
    unfold Archive.eocd at hlength
    rw [List.length_append] at hlength
    rw [hcounted, ssize_small (by omega) (by omega)]
    omega
  obtain ⟨listed, hread, hlisted⟩ :=
    @readEntries_directory _ _ _ _ _ [] _ hroom hdirectory archive.placed
    ⟨_, rfl⟩ (by omega)
  rw [List.append_nil] at hread
  refine ⟨{ valuesAt archive.bytes archive.eocd with entries := listed }, ?_, hlisted⟩
  rw [initZipfile_located (archive_located hsmall)]
  unfold Archive.eocd
  rw [hposition, htotal, hread]
  rfl

-- What an int counts as negative looks too small.
theorem initZipfile_negative {data : List UInt8} (hlow : 2 ^ 31 ≤ data.length)
    (h : data.length < 2 ^ 32) :
    initZipfile data = .ok none := by
  have hneg : ssize data.length < 0 := ssize_large (by omega) (by omega)
  unfold initZipfile readCentralDir
  exact if_pos (by omega)

end Archives

section Stored

variable {contents : List UInt8}

-- A file with the name a that is stored as it is.
def storedMember (contents : List UInt8) (crc32 : UInt32)
    (h : contents.length < 2 ^ 32) : Member where
  versionMadeBy := 10
  versionToExtract := 10
  gpBitFlag := 0
  compressionMethod := 0
  lastModFileTime := 0
  lastModFileDate := 0x21
  crc32
  compressedSize := UInt32.ofNat contents.length
  uncompressedSize := UInt32.ofNat contents.length
  fileName := ⟨[0x61], by decide⟩
  extraField := ⟨[], by decide⟩
  fileComment := ⟨[], by decide⟩
  diskNumberStart := 0
  internalAttrs := 0
  externalAttrs := 0
  localHeaderRelOffset := 0
  localFields := ⟨layout [⟨2, 10⟩, ⟨2, 0⟩, ⟨2, 0⟩, ⟨2, 0⟩, ⟨2, 0x21⟩, ⟨4, crc32.toNat⟩,
    ⟨4, contents.length⟩, ⟨4, contents.length⟩], by simp [length_layout]⟩
  localExtraField := ⟨[], by decide⟩
  contents
  stored := (UInt32.toNat_ofNat_of_lt' h).symm

def storedEnd (position : Nat) : List RecordField :=
  [⟨4, CD_SIGNATURE⟩, ⟨2, 0⟩, ⟨2, 0⟩, ⟨2, 1⟩, ⟨2, 1⟩, ⟨4, 47⟩, ⟨4, position⟩, ⟨2, 0⟩]

-- The archive of that file alone.
def storedArchive (contents : List UInt8) (crc32 : UInt32) (h : contents.length + 31 < 2 ^ 32)
    (hlast : ∀ j < 19, 0 < j →
      ofLittleEndian (((layout (storedEnd (contents.length + 31))).drop j).take 4) ≠
        CD_SIGNATURE) : Archive :=
  let m := storedMember contents crc32 (by omega)
  have hheader : (m.localHeader ++ contents).length = contents.length + 31 := by
    rw [List.length_append, length_localHeader]
    simp [m, storedMember, LFH_SIZE]
    omega
  have hrecord : (directory [m]).length = 47 := by
    simp [directory, length_record, m, storedMember, ENTRY_LEN]
  { front := m.localHeader ++ contents
    members := [m]
    comment := ⟨[], by decide⟩
    count := by simp
    position := by omega
    size := by omega
    placed := fun m' hm' => by
      rw [List.mem_singleton] at hm'
      exact ⟨[], [], by simp [hm', m, storedMember], by simp [hm', m, storedMember]⟩
    last := fun i hi hlength => by
      have hfields : endFields [m] (m.localHeader ++ contents) ⟨[], by decide⟩ =
          storedEnd (contents.length + 31) := by
        simp only [endFields, hheader, hrecord]
        rfl
      obtain ⟨j, rfl⟩ := Nat.exists_eq_add_of_lt hi
      unfold archiveBytes at hlength ⊢
      rw [hfields, ← List.append_assoc] at hlength ⊢
      rw [List.length_append, List.length_append, List.append_nil, length_layout] at hlength
      have hj : j + 1 < 19 := by
        simp [storedEnd] at hlength
        omega
      have hdrop := hlast (j + 1) hj (by omega)
      unfold leInt
      rwa [← List.length_append, Nat.add_assoc, List.drop_append, List.drop_of_length_le (by omega),
        Nat.add_sub_cancel_left, List.nil_append, List.append_nil] }

theorem length_storedArchive (crc32 : UInt32) (h : contents.length + 31 < 2 ^ 32)
    (hlast : ∀ j < 19, 0 < j →
      ofLittleEndian (((layout (storedEnd (contents.length + 31))).drop j).take 4) ≠ CD_SIGNATURE) :
    (storedArchive contents crc32 h hlast).bytes.length = contents.length + 100 := by
  rw [length_archive]
  simp [Archive.eocd, storedArchive, storedMember, length_localHeader, directory,
    length_record, LFH_SIZE, ENTRY_LEN, EOCD_LEN]
  omega

-- The file a of one byte, and behind it a file b of two.
def memberA : Member := storedMember [0x78] 0x8cdc1683 (by decide)

def memberB : Member :=
  { storedMember [0x79, 0x7a] 0x0ff44862 (by decide) with
    fileName := ⟨[0x62], by decide⟩
    localHeaderRelOffset := 32 }

def twoFiles : List UInt8 :=
  (memberA.localHeader ++ memberA.contents) ++ (memberB.localHeader ++ memberB.contents)

-- Their archive, with a comment.
set_option maxRecDepth 8000 in
def archiveOfTwo : Archive where
  front := twoFiles
  members := [memberA, memberB]
  comment := ⟨[0x74, 0x77, 0x6f], by decide⟩
  count := by decide
  position := by decide
  size := by decide
  placed := by
    intro m hm
    obtain rfl | hm := List.mem_cons.mp hm
    · exact ⟨[], memberB.localHeader ++ memberB.contents, rfl, rfl⟩
    · obtain rfl := List.mem_singleton.mp hm
      exact ⟨memberA.localHeader ++ memberA.contents, [], rfl, rfl⟩
  last := by
    have hall : ∀ i < 181, 159 < i →
        leInt (archiveBytes twoFiles [memberA, memberB] ⟨[0x74, 0x77, 0x6f], by decide⟩) i ≠
          CD_SIGNATURE := by
      decide
    intro i hi hlength
    have hlength : i + 4 ≤ 184 := hlength
    exact hall i (by omega) hi

-- The entry of the file that comes last is the first one of the list.
theorem init_zipfile_reads_two : ∃ file, initZipfile archiveOfTwo.bytes = .ok (some file) ∧
    List.Forall₂ (Describes archiveOfTwo.bytes) file.entries [memberB, memberA] := by
  have hsmall : archiveOfTwo.bytes.length = 184 := rfl
  exact init_zipfile_reads archiveOfTwo (by rw [hsmall]; decide)

-- A file of zeros that is stored in an archive of more than 2 ^ 31 bytes.
theorem large_archive_is_refused : ¬ ∀ archive : Archive, ∃ file,
    initZipfile archive.bytes = .ok (some file) ∧
      List.Forall₂ (Describes archive.bytes) file.entries archive.members.reverse := by
  intro h
  obtain ⟨contents, hcontents⟩ : ∃ contents : List UInt8, contents.length = 2 ^ 31 :=
    ⟨List.replicate (2 ^ 31) 0, List.length_replicate⟩
  have hlast : ∀ j < 19, 0 < j →
      ofLittleEndian (((layout (storedEnd (contents.length + 31))).drop j).take 4) ≠
        CD_SIGNATURE := by
    rw [hcontents]
    decide
  have hlarge := length_storedArchive 0x4dbdf21c (by omega) hlast
  obtain ⟨file, hfile, -⟩ := h (storedArchive contents 0x4dbdf21c (by omega) hlast)
  rw [initZipfile_negative (by omega) (by omega)] at hfile
  cases hfile

end Stored

end Adb.Zip
