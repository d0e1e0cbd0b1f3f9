import Adb.Zip.Entries

namespace Adb.Zip

open Adb.Lib

variable {data : List UInt8} {p n eocd : Nat} {len : Int} {entries : List Zipentry}

-- The entries lie in the file as far as the loop gets, which an entry without the
-- signature ends.
structure WalkInside (data : List UInt8) (p n : Nat) : Prop where
  signature : ∀ i < n, (∀ j < i, Signed data (place data p j)) → place data p i + 4 ≤ data.length
  entry : ∀ i < n, (∀ j < i + 1, Signed data (place data p j)) → EntryInside data (place data p i)

section Walk

theorem walkInside_zero : WalkInside data p 0 :=
  ⟨fun i hi => absurd hi (Nat.not_lt_zero i), fun i hi => absurd hi (Nat.not_lt_zero i)⟩

theorem walkInside_succ : WalkInside data p (n + 1) ↔ p + 4 ≤ data.length ∧
    (Signed data p → EntryInside data p ∧ WalkInside data (nextEntry data p) n) := by
  constructor
  · intro h
    refine ⟨h.signature 0 (by omega) fun j hj => absurd hj (Nat.not_lt_zero j), fun hsig => ⟨?_, ?_, ?_⟩⟩
    · refine h.entry 0 (by omega) fun j hj => ?_
      obtain rfl : j = 0 := by omega
      exact hsig
    · intro i hi hsigned
      exact h.signature (i + 1) (by omega) (forall_place.mpr ⟨hsig, hsigned⟩)
    · intro i hi hsigned
      exact h.entry (i + 1) (by omega) (forall_place.mpr ⟨hsig, hsigned⟩)
  · intro ⟨hfirst, hmore⟩
    refine ⟨fun i hi hsigned => ?_, fun i hi hsigned => ?_⟩
    · cases i with
      | zero => exact hfirst
      | succ i =>
          obtain ⟨hsig, hsigned⟩ := forall_place.mp hsigned
          exact (hmore hsig).2.signature i (by omega) hsigned
    · obtain ⟨hsig, hsigned⟩ := forall_place.mp hsigned
      cases i with
      | zero => exact (hmore hsig).1
      | succ i => exact (hmore hsig).2.entry i (by omega) hsigned

-- The loop stays in the file exactly where the entries do.
theorem readEntries_ok_iff (hlen : (ENTRY_LEN : Int) ≤ len) :
    (∃ result, readEntries data len n p entries = .ok result) ↔ WalkInside data p n := by
  induction n generalizing p entries with
  | zero => exact iff_of_true ⟨_, rfl⟩ walkInside_zero
  | succ n ih =>
      rw [walkInside_succ]
      constructor
      · intro hok
        obtain ⟨result, h⟩ := hok
        unfold readEntries at h
        obtain ⟨found, hentry, h⟩ := bind_ok h
        obtain ⟨hin, hinside⟩ := readCentralDirectoryEntry_ok hlen hentry
        refine ⟨hin, fun hsig => ⟨hinside hsig, ?_⟩⟩
        rw [readCentralDirectoryEntry_eq hlen hsig (hinside hsig), Except.ok.injEq] at hentry
        rw [← hentry] at h
        exact ih.mp ⟨result, h⟩
      · intro hwalk
        obtain ⟨hin, hmore⟩ := hwalk
        unfold readEntries
        by_cases hsig : Signed data p
        · obtain ⟨hinside, hwalk⟩ := hmore hsig
          obtain ⟨result, h⟩ := ih.mpr hwalk
          exact ⟨result, by rw [readCentralDirectoryEntry_eq hlen hsig hinside]; exact h⟩
        · exact ⟨none, by rw [readCentralDirectoryEntry_unsigned hlen hin hsig]; rfl⟩

-- It comes to its end only past entries with the signature.
theorem readEntries_some (hlen : (ENTRY_LEN : Int) ≤ len) {listed : List Zipentry}
    (h : readEntries data len n p entries = .ok (some listed)) :
    (∀ i < n, Signed data (place data p i)) ∧ listed = entriesFrom data p n ++ entries := by
  induction n generalizing p entries with
  | zero =>
      cases h
      exact ⟨fun i hi => absurd hi (Nat.not_lt_zero i), rfl⟩
  | succ n ih =>
      unfold readEntries at h
      obtain ⟨found, hentry, h⟩ := bind_ok h
      obtain ⟨hin, hinside⟩ := readCentralDirectoryEntry_ok hlen hentry
      by_cases hsig : Signed data p
      · rw [readCentralDirectoryEntry_eq hlen hsig (hinside hsig), Except.ok.injEq] at hentry
        rw [← hentry] at h
        obtain ⟨hsigned, hlisted⟩ := ih h
        exact ⟨forall_place.mpr ⟨hsig, hsigned⟩, by rw [hlisted, entriesFrom_succ]⟩
      · rw [readCentralDirectoryEntry_unsigned hlen hin hsig, Except.ok.injEq] at hentry
        rw [← hentry] at h
        cases h

theorem readEntries_few (hlen : len < ENTRY_LEN) :
    ∃ result, readEntries data len n p [] = .ok result ∧ ∀ listed, result = some listed → listed = [] := by
  cases n with
  | zero => exact ⟨some [], rfl, fun listed h => (Option.some.inj h).symm⟩
  | succ n =>
      refine ⟨none, ?_, fun listed h => absurd h (by simp)⟩
      unfold readEntries readCentralDirectoryEntry
      rw [if_pos hlen]
      rfl

end Walk

-- The name and the place of the data of an entry are in the file.
def Zipentry.Inside (data : List UInt8) (entry : Zipentry) : Prop :=
  (∀ p, entry.fileName = some p → p + entry.fileNameLength ≤ data.length) ∧ entry.data < data.length

-- init_zipfile reads nothing outside of the file, and what it finds is in it.
def InitInside (data : List UInt8) : Prop :=
  ∃ result, initZipfile data = .ok result ∧
    ∀ file, result = some file → ∀ entry ∈ file.entries, entry.Inside data

-- As much of the file as bufsize counts.
def counted (data : List UInt8) : Nat := (ssize data.length).toNat

-- The end of the central directory is found and taken for good.
structure Located (data : List UInt8) (eocd : Nat) : Prop where
  least : EOCD_LEN ≤ counted data
  magic : IsLast data (counted data - MAX_EOCD_SEARCH) (counted data - 3) eocd
  fits : eocd + EOCD_LEN + leShort data (eocd + 0x14) ≤ counted data
  single : leShort data (eocd + 0x04) = 0 ∧ leShort data (eocd + 0x06) = 0
  whole : leShort data (eocd + 0x08) = leShort data (eocd + 0x0a)

-- So the loop over the entries begins, and does not stop at the length that is left.
structure Accepted (data : List UInt8) (eocd : Nat) : Prop extends Located data eocd where
  length : (ENTRY_LEN : Int) ≤ ssize (counted data - leInt data (eocd + 0x10))

structure DirectoryInside (data : List UInt8) (p n : Nat) : Prop where
  walk : WalkInside data p n
  found : (∀ i < n, Signed data (place data p i)) →
    ∀ i < n, (entryAt data (place data p i)).Inside data

section Init

theorem ssize_small {i : Int} (hlow : 0 ≤ i) (h : i < 2 ^ 31) : ssize i = i := by
  have hmod := Int.bmod_def (x := i) (m := 2 ^ 32)
  unfold ssize
  rw [hmod]
  split <;> omega

theorem ssize_large {i : Int} (h : 2 ^ 31 ≤ i) (hlt : i < 2 ^ 32) : ssize i < 0 := by
  have hmod := Int.bmod_def (x := i) (m := 2 ^ 32)
  unfold ssize
  rw [hmod]
  split <;> omega

theorem counted_le (data : List UInt8) : counted data ≤ data.length := by
  have hmod := Int.bmod_def (x := data.length) (m := 2 ^ 32)
  unfold counted ssize
  rw [hmod]
  split <;> omega

theorem counted_small (h : data.length < 2 ^ 31) : counted data = data.length := by
  unfold counted
  rw [ssize_small (by omega) (by omega), Int.toNat_natCast]

-- The search, over what is not too small.
theorem readCentralDir_search (hleast : EOCD_LEN ≤ counted data) :
    ∃ found, (∀ e, found = some e ↔ IsLast data (counted data - MAX_EOCD_SEARCH) (counted data - 3) e) ∧
      readCentralDir data = match found with
        | none => .ok none
        | some eocd => readCentralDirValues data eocd (counted data - eocd) >>= fun
            | none => .ok none
            | some file =>
                if file.disknum ≠ 0 ∨ file.diskWithCentralDir ≠ 0 ∨ file.entryCount ≠ file.totalEntryCount then
                  .ok none
                else
                  readEntries data (ssize (counted data - file.centralDirOffset)) file.totalEntryCount
                    file.centralDirOffset [] >>= fun
                    | none => .ok none
                    | some entries => .ok (some { file with entries }) := by
  have hsize : ssize data.length = counted data := by
    unfold EOCD_LEN counted at hleast
    unfold counted
    omega
  have hle := counted_le data
  have hwindow : EOCD_LEN ≤ MAX_EOCD_SEARCH := by decide
  unfold readCentralDir
  rw [hsize]
  -- The window is not to be counted down.
  generalize counted data = size, MAX_EOCD_SEARCH = window at *
  have hnat : (size : Int).toNat = size := Int.toNat_natCast size
  have hstart : (if size > window then size - window else 0) = size - window := by
    split <;> omega
  have hstop : size - window + (size - 4 + 1 - (size - window)) = size - 3 := by
    unfold EOCD_LEN at hleast hwindow
    omega
  obtain ⟨found, hfound, hspec⟩ := @findEocd_spec data (size - 4 + 1 - (size - window)) (size - window) (by
    unfold EOCD_LEN at hleast
    omega)
  refine ⟨found, fun e => ?_, ?_⟩
  · rw [hspec, hstop]
  · rw [if_neg (by omega)]
    simp only [hnat, hstart, hfound]
    cases found <;> rfl

-- What is located comes down to the loop over the entries.
theorem initZipfile_located (h : Located data eocd) :
    initZipfile data = readEntries data (ssize (counted data - leInt data (eocd + 0x10)))
      (leShort data (eocd + 0x0a)) (leInt data (eocd + 0x10)) [] >>= fun
        | none => .ok none
        | some entries => .ok (some { valuesAt data eocd with entries }) := by
  obtain ⟨found, hspec, hsearch⟩ := readCentralDir_search h.least
  have hle := counted_le data
  have hfits := h.fits
  obtain ⟨hdisk, hstart⟩ := h.single
  unfold initZipfile
  rw [hsearch, (hspec eocd).mpr h.magic]
  simp only
  rw [readCentralDirValues_eq (by omega) (by omega), if_pos (by omega)]
  simp only [bind, Except.bind, valuesAt, hdisk, hstart, h.whole, ne_eq, not_true, or_self, if_false]

-- Everything else ends without an entry.
theorem initZipfile_refused (h : ∀ eocd, ¬ Accepted data eocd) :
    ∃ result, initZipfile data = .ok result ∧ ∀ file, result = some file → file.entries = [] := by
  unfold initZipfile
  by_cases hleast : EOCD_LEN ≤ counted data
  · obtain ⟨found, hspec, hsearch⟩ := readCentralDir_search hleast
    rw [hsearch]
    cases found with
    | none => exact ⟨none, rfl, fun file hfile => by cases hfile⟩
    | some eocd =>
        have hmagic := (hspec eocd).mp rfl
        have hle := counted_le data
        by_cases hroom : eocd + EOCD_LEN ≤ counted data
        · simp only
          rw [readCentralDirValues_eq (by omega) (by omega)]
          by_cases hfits : eocd + EOCD_LEN + leShort data (eocd + 0x14) ≤ counted data
          · rw [if_pos (by omega)]
            simp only [bind, Except.bind]
            split
            · exact ⟨none, rfl, fun file hfile => by cases hfile⟩
            · rename_i hvalues
              simp only [valuesAt, not_or, not_not, ne_eq] at hvalues
              obtain ⟨hdisk, hstart, hwhole⟩ := hvalues
              have hfew : ssize (counted data - (valuesAt data eocd).centralDirOffset) < ENTRY_LEN := by
                by_contra hlength
                exact h eocd ⟨⟨hleast, hmagic, hfits, ⟨hdisk, hstart⟩, hwhole⟩, Int.not_lt.mp hlength⟩
              obtain ⟨result, hread, hentries⟩ := readEntries_few hfew
              rw [hread]
              cases result with
              | none => exact ⟨none, rfl, fun file hfile => by cases hfile⟩
              | some entries =>
                  refine ⟨_, rfl, fun file hfile => ?_⟩
                  cases hfile
                  exact hentries entries rfl
          · rw [if_neg (by omega)]
            exact ⟨none, rfl, fun file hfile => by cases hfile⟩
        · simp only
          rw [readCentralDirValues_short (by omega)]
          exact ⟨none, rfl, fun file hfile => by cases hfile⟩
  · refine ⟨none, ?_, fun file hfile => by cases hfile⟩
    unfold readCentralDir
    exact if_pos (by unfold counted at hleast; omega)

end Init

section Inside

theorem forall_entriesFrom {P : Zipentry → Prop} :
    (∀ entry ∈ entriesFrom data p n, P entry) ↔ ∀ i < n, P (entryAt data (place data p i)) := by
  simp [entriesFrom]

-- init_zipfile stays in the file exactly for what it refuses before the entries, and
-- for what has its directory inside.
theorem zip_reads_inside_iff (data : List UInt8) :
    InitInside data ↔ ∀ eocd, Accepted data eocd →
      DirectoryInside data (leInt data (eocd + 0x10)) (leShort data (eocd + 0x0a)) := by
  constructor
  · intro ⟨result, hresult, hinside⟩ eocd haccepted
    rw [initZipfile_located haccepted.toLocated] at hresult
    obtain ⟨listed, hread, hlisted⟩ := bind_ok hresult
    have hwalk := (readEntries_ok_iff haccepted.length).mp ⟨listed, hread⟩
    refine ⟨hwalk, fun hsigned => ?_⟩
    have hentries : ∀ i < leShort data (eocd + 0x0a), EntryInside data (place data (leInt data (eocd + 0x10)) i) :=
      fun i hi => hwalk.entry i hi fun j hj => hsigned j (by omega)
    rw [readEntries_eq haccepted.length hsigned hentries, Except.ok.injEq] at hread
    rw [← hread, Except.ok.injEq] at hlisted
    have hfound := hinside _ hlisted.symm
    rw [List.append_nil] at hfound
    exact forall_entriesFrom.mp hfound
  · intro h
    by_cases hsome : ∃ eocd, Accepted data eocd
    · obtain ⟨eocd, haccepted⟩ := hsome
      obtain ⟨hwalk, hfound⟩ := h eocd haccepted
      obtain ⟨listed, hread⟩ := (@readEntries_ok_iff _ _ _ _ [] haccepted.length).mpr hwalk
      unfold InitInside
      rw [initZipfile_located haccepted.toLocated, hread]
      cases listed with
      | none => exact ⟨none, rfl, fun file hfile => by cases hfile⟩
      | some entries =>
          obtain ⟨hsigned, rfl⟩ := readEntries_some haccepted.length hread
          refine ⟨_, rfl, fun file hfile => ?_⟩
          cases hfile
          rw [List.append_nil]
          exact forall_entriesFrom.mpr (hfound hsigned)
    · obtain ⟨result, hresult, hnone⟩ := initZipfile_refused (not_exists.mp hsome)
      refine ⟨result, hresult, fun file hfile entry hentry => ?_⟩
      rw [hnone file hfile] at hentry
      cases hentry

-- Two entries, the name of the first of which is longer than the file.
def longName : List UInt8 :=
  toLittleEndian 4 ENTRY_SIGNATURE ++ List.replicate 24 0 ++ [0xff, 0xff] ++ List.replicate 16 0 ++
    toLittleEndian 4 CD_SIGNATURE ++ List.replicate 4 0 ++ [2, 0, 2, 0] ++ List.replicate 10 0

theorem long_name_is_overread : initZipfile longName = .error .overread ∧ ¬ InitInside longName := by
  have hread : initZipfile longName = .error .overread := by decide
  refine ⟨hread, fun ⟨result, hresult, _⟩ => ?_⟩
  rw [hread] at hresult
  cases hresult

end Inside

end Adb.Zip
