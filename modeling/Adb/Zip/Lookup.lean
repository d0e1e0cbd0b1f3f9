import Adb.Lib.Memory
import Adb.Sync.PushPath
import Adb.Zip.Archive

namespace Adb.Zip

open Adb.Lib

-- What stands from the name of an entry on.
def fileNameMemory (data : List UInt8) (entry : Zipentry) : List UInt8 :=
  match entry.fileName with
  | some p => data.drop p
  | none => []

-- lookup_zipentry, for an entryName with its NUL.
def lookupZipentry (data : List UInt8) (entryName : List UInt8) :
    List Zipentry → Except MemoryFault (Option Zipentry)
  | [] => .ok none
  | entry :: entries => do
      let order ← memcmp entryName (fileNameMemory data entry) entry.fileNameLength
      if order = 0 then .ok (some entry) else lookupZipentry data entryName entries

def ANDROID_MANIFEST : List UInt8 :=
  [65, 110, 100, 114, 111, 105, 100, 77, 97, 110, 105, 102, 101, 115, 116, 46, 120, 109, 108]

def isValidZip : Except MemoryFault (Option Zipfile) → Bool
  | .ok (some _) => true
  | _ => false

def containsManifest (data : List UInt8) : Except MemoryFault (Option Zipfile) → Bool
  | .ok (some file) =>
      match lookupZipentry data (ANDROID_MANIFEST ++ [0]) file.entries with
      | .ok (some _) => true
      | _ => false
  | _ => false

-- The check of sync_send. A read outside of the file ends the program.
def apkCheck (seeks allocates : Bool) : Sync.ApkCheck where
  seeks
  allocates
  initZipfile data := isValidZip (initZipfile data)
  hasManifest data := containsManifest data (initZipfile data)

-- The name of the entry is exactly the key.
def IsNamed (data key : List UInt8) (entry : Zipentry) : Prop :=
  entry.name data = key ∧ entry.fileNameLength = key.length

-- The name does not differ from the key with its NUL up to where one of them ends.
def Agrees (data key : List UInt8) (entry : Zipentry) : Prop :=
  entry.name data <+: key ++ [0] ∨ key ++ [0] <+: entry.name data

instance (data key : List UInt8) : DecidablePred (IsNamed data key) :=
  fun entry => inferInstanceAs (Decidable (entry.name data = key ∧ entry.fileNameLength = key.length))

instance (data key : List UInt8) : DecidablePred (Agrees data key) :=
  fun entry => inferInstanceAs (Decidable (entry.name data <+: key ++ [0] ∨ key ++ [0] <+: entry.name data))

-- The first name that agrees with the key is the key.
def FirstNamed (data key : List UInt8) (entries : List Zipentry) : Prop :=
  ∀ entry, entries.find? (fun entry => Agrees data key entry) = some entry → IsNamed data key entry

def LookupRight (data key : List UInt8) (entries : List Zipentry) : Prop :=
  match lookupZipentry data (key ++ [0]) entries with
  | .ok (some entry) => entry ∈ entries ∧ IsNamed data key entry
  | .ok none => ∀ entry ∈ entries, ¬ IsNamed data key entry
  | .error _ => False

section Lookup

variable {data key : List UInt8} {entry : Zipentry} {entries : List Zipentry}

theorem take_fileNameMemory (data : List UInt8) (entry : Zipentry) :
    (fileNameMemory data entry).take entry.fileNameLength = entry.name data := by
  unfold fileNameMemory Zipentry.name
  cases entry.fileName with
  | none => exact List.take_nil
  | some p => rfl

theorem IsNamed.agrees (h : IsNamed data key entry) : Agrees data key entry :=
  .inl (h.1 ▸ List.prefix_append _ _)

-- An entry that agrees ends the search, one way or another.
theorem lookup_agreeing (h : Agrees data key entry) :
    lookupZipentry data (key ++ [0]) (entry :: entries) = .ok (some entry) ∨
      lookupZipentry data (key ++ [0]) (entry :: entries) = .error .overread := by
  unfold lookupZipentry
  have hname := take_fileNameMemory data entry
  by_cases hprefix : entry.name data <+: key ++ [0]
  · rw [← hname] at hprefix
    rw [memcmp_begins hprefix]
    split
    · exact .inl rfl
    · exact .inr rfl
  · have hlonger := h.resolve_left hprefix
    rw [← hname] at hprefix hlonger
    rw [memcmp_behind hlonger fun heq => hprefix (heq ▸ List.prefix_rfl)]
    exact .inr rfl

theorem lookup_named (h : IsNamed data key entry) :
    lookupZipentry data (key ++ [0]) (entry :: entries) = .ok (some entry) := by
  have hname := take_fileNameMemory data entry
  obtain ⟨hkey, hlength⟩ := h
  rw [hkey] at hname
  have hprefix : (fileNameMemory data entry).take entry.fileNameLength <+: key ++ [0] :=
    hname ▸ List.prefix_append _ _
  have hwhole : entry.fileNameLength ≤ (fileNameMemory data entry).length := by
    have htake := congrArg List.length hname
    rw [List.length_take] at htake
    omega
  unfold lookupZipentry
  rw [memcmp_begins hprefix, if_pos hwhole]
  rfl

theorem lookup_differing (h : ¬ Agrees data key entry) :
    lookupZipentry data (key ++ [0]) (entry :: entries) = lookupZipentry data (key ++ [0]) entries := by
  obtain ⟨hname, hkey⟩ := not_or.mp h
  rw [← take_fileNameMemory] at hname hkey
  obtain ⟨d, hd, hcompare⟩ := memcmp_differs hname hkey
  rw [lookupZipentry, hcompare]
  exact if_neg hd

theorem lookup_none (h : entries.find? (fun entry => Agrees data key entry) = none) :
    lookupZipentry data (key ++ [0]) entries = .ok none := by
  induction entries with
  | nil => rfl
  | cons entry entries ih =>
      rw [List.find?_cons] at h
      split at h
      · cases h
      · rename_i hnot
        rw [lookup_differing (of_decide_eq_false hnot), ih h]

-- The search comes to the first entry that agrees.
theorem lookup_some (h : entries.find? (fun entry => Agrees data key entry) = some entry) :
    ∃ rest, lookupZipentry data (key ++ [0]) entries = lookupZipentry data (key ++ [0]) (entry :: rest) := by
  induction entries with
  | nil => cases h
  | cons first entries ih =>
      rw [List.find?_cons] at h
      split at h
      · cases h
        exact ⟨entries, rfl⟩
      · rename_i hnot
        rw [lookup_differing (of_decide_eq_false hnot)]
        exact ih h

theorem lookupRight_iff : LookupRight data key entries ↔ FirstNamed data key entries := by
  unfold LookupRight FirstNamed
  cases hfind : entries.find? (fun entry => Agrees data key entry) with
  | none =>
      rw [lookup_none hfind]
      refine iff_of_true (fun entry hentry hnamed => ?_) (fun entry h => by cases h)
      exact List.find?_eq_none.mp hfind entry hentry (decide_eq_true hnamed.agrees)
  | some entry =>
      obtain ⟨rest, hlookup⟩ := lookup_some hfind
      have hfound := List.find?_some hfind
      have hagrees : Agrees data key entry := of_decide_eq_true hfound
      rw [hlookup]
      constructor
      · intro hright found hfound
        cases hfound
        obtain hok | hfault := @lookup_agreeing data key entry rest hagrees
        · rw [hok] at hright
          exact hright.2
        · rw [hfault] at hright
          exact hright.elim
      · intro hnamed
        rw [lookup_named (hnamed entry rfl)]
        exact ⟨List.mem_of_find?_eq_some hfind, hnamed entry rfl⟩

end Lookup

section Verify

variable {data : List UInt8} {lfile : Option Sync.LocalFile}

-- What sync_send has read of an APK has gone through both of the checks.
theorem readApk_checked {apk : Sync.ApkCheck} {buffer : List UInt8} (h : Sync.readApk apk lfile = .ok buffer) :
    apk.hasManifest buffer = true := by
  unfold Sync.readApk at h
  split at h
  · cases h
  dsimp only at h
  split at h
  · cases h
  split at h
  · cases h
  split at h
  · split at h
    · cases h
    split at h
    · cases h
    split at h
    · cases h
    · rename_i hmanifest
      cases h
      exact not_not.mp hmanifest
  · cases h

theorem containsManifest_found {result : Except MemoryFault (Option Zipfile)}
    (h : containsManifest data result = true) :
    ∃ file entry, result = .ok (some file) ∧
      lookupZipentry data (ANDROID_MANIFEST ++ [0]) file.entries = .ok (some entry) := by
  unfold containsManifest at h
  split at h
  · rename_i file
    split at h
    · rename_i entry hlookup
      exact ⟨file, entry, rfl, hlookup⟩
    · cases h
  · cases h

-- What sync_send writes under verifyApk is from a file whose archive has the entry.
def SendRight (lfile : Option Sync.LocalFile) : Prop :=
  ∀ (seeks allocates : Bool) (c c' : Sync.Conn) (rpath : Sync.Text) (mtime mode : UInt32) (code : Int),
    Sync.syncSend (apkCheck seeks allocates) c lfile rpath mtime mode true = .ok (code, c') →
      c'.output ≠ c.output → ∃ apk file, lfile = some apk ∧ initZipfile apk.data = .ok (some file) ∧
        ∃ entry ∈ file.entries, IsNamed apk.data ANDROID_MANIFEST entry

-- lookup_zipentry decides what it is asked exactly where the first name that agrees
-- with the key up to the end of one of them is the key; for such archives the check
-- of sync_send is right.
theorem lookup_zipentry_right_iff (data key : List UInt8) (entries : List Zipentry) :
    (LookupRight data key entries ↔ FirstNamed data key entries) ∧
      ∀ apk : Sync.LocalFile, (∀ file, initZipfile apk.data = .ok (some file) →
        FirstNamed apk.data ANDROID_MANIFEST file.entries) → SendRight (some apk) := by
  refine ⟨lookupRight_iff, fun apk hfirst => ?_⟩
  intro seeks allocates c c' rpath mtime mode code hsend houtput
  obtain hsame | ⟨-, hread, -⟩ := Sync.syncSend_output hsend
  · exact absurd hsame houtput
  · obtain ⟨buffer, hbuffer⟩ := hread rfl
    obtain ⟨_, hlocal, rfl⟩ := Sync.readApk_ok hbuffer
    cases hlocal
    have hmanifest := readApk_checked hbuffer
    simp only [apkCheck] at hmanifest
    obtain ⟨file, entry, hfile, hlookup⟩ := containsManifest_found hmanifest
    have hright := lookupRight_iff.mpr (hfirst file hfile)
    unfold LookupRight at hright
    rw [hlookup] at hright
    exact ⟨apk, file, rfl, hfile, entry, hright⟩

-- An archive with one entry that has no name.
def nameless : List UInt8 :=
  toLittleEndian 4 0x04034b50 ++ List.replicate 26 0 ++ toLittleEndian 4 ENTRY_SIGNATURE ++
    List.replicate 42 0 ++ toLittleEndian 4 CD_SIGNATURE ++ List.replicate 4 0 ++ [1, 0, 1, 0, 46, 0, 0, 0, 30] ++
    List.replicate 5 0

def namelessEntry : Zipentry := ⟨0, none, 0, 0, 0, 30⟩

theorem nameless_entry_is_found : (apkCheck true true).hasManifest nameless = true ∧
    ∃ file, initZipfile nameless = .ok (some file) ∧
      ¬ LookupRight nameless ANDROID_MANIFEST file.entries := by
  have hread : initZipfile nameless = .ok (some ⟨0, 0, 1, 1, 46, 30, 0, none, [namelessEntry]⟩) := by
    decide +kernel
  have hfound : lookupZipentry nameless (ANDROID_MANIFEST ++ [0]) [namelessEntry] = .ok (some namelessEntry) := by
    decide +kernel
  refine ⟨?_, _, hread, fun hright => ?_⟩
  · decide +kernel
  · unfold LookupRight at hright
    rw [hfound] at hright
    exact absurd hright.2 (by decide)

end Verify

end Adb.Zip
