import Adb.Lib.Dialogue
import Adb.Sync.Listing
import Adb.Sync.Receive

namespace Adb.Sync

open Adb.Lib

-- What a client asks for in one exchange. A SEND comes with the records that
-- hold the file.
inductive Request where
  | stat (path : Text)
  | list (path : Text)
  | send (path : Text) (mode : UInt32) (chunks : List (List UInt8)) (mtime : UInt32)
  | recv (path : Text)

inductive Answer where
  | stat (mode size time : UInt32)
  | listed (entries : List Listed)
  | sent
  | data (bytes : List UInt8)
  | refused

def Request.bytes : Request → List UInt8
  | .stat path => syncmsg [ID_STAT, UInt32.ofNat path.val.length] ++ path
  | .list path => listRequest path
  | .send path mode chunks mtime => (sendRequest path mode).flatten ++ pushRecords chunks mtime
  | .recv path => syncmsg [ID_RECV, UInt32.ofNat path.val.length] ++ path

-- The listing that a client takes, and what comes behind it.
inductive Entries : List UInt8 → List Listed → List UInt8 → Prop where
  | done (msg rest : List UInt8) : msg.length = 20 → wordAt msg 0 = ID_DONE →
      Entries (msg ++ rest) [] rest
  | dent (msg buf stream rest : List UInt8) (listed : List Listed) : msg.length = 20 →
      wordAt msg 0 = ID_DENT → (wordAt msg 4).toNat = buf.length → buf.length ≤ 256 →
      Entries stream listed rest →
      Entries (msg ++ (buf ++ stream))
        (⟨wordAt msg 1, wordAt msg 2, wordAt msg 3, textOf buf⟩ :: listed) rest

-- The data that a client takes, and what comes behind them.
inductive Received : List UInt8 → List UInt8 → List UInt8 → Prop where
  | done (msg rest : List UInt8) : msg.length = 8 → wordAt msg 0 = ID_DONE →
      Received (msg ++ rest) [] rest
  | data (msg payload stream bytes rest : List UInt8) : msg.length = 8 → wordAt msg 0 = ID_DATA →
      (wordAt msg 1).toNat = payload.length → payload.length ≤ SYNC_DATA_MAX →
      Received stream bytes rest → Received (msg ++ (payload ++ stream)) (payload ++ bytes) rest

-- The answer that a client takes from what it hears.
inductive Takes : Request → List UInt8 → Answer → List UInt8 → Prop where
  | stat (path : Text) (mode size time : UInt32) (rest : List UInt8) :
      Takes (.stat path) (syncmsg [ID_STAT, mode, size, time] ++ rest) (.stat mode size time) rest
  | list (path : Text) (heard : List UInt8) (listed : List Listed) (rest : List UInt8) :
      Entries heard listed rest → Takes (.list path) heard (.listed listed) rest
  | send (path : Text) (mode : UInt32) (chunks : List (List UInt8)) (mtime : UInt32)
      (msg rest : List UInt8) : msg.length = 8 → wordAt msg 0 = ID_OKAY →
      Takes (.send path mode chunks mtime) (msg ++ rest) .sent rest
  | recv (path : Text) (heard bytes rest : List UInt8) :
      Received heard bytes rest → Takes (.recv path) heard (.data bytes) rest

-- The files of a device, and what it says of its directories.
structure Store where
  files : List UInt8 → Option File
  stat : List UInt8 → Option Stat
  listing : List UInt8 → List Listed

def Device.store (dev : Device) : Store := ⟨dev.files, dev.lstat, entries dev⟩

-- What lstat says in 32 bits each, or nothing but zeros.
def statAnswer : Option Stat → UInt32 × UInt32 × UInt32
  | none => (0, 0, 0)
  | some st => (UInt32.ofNat st.mode, UInt32.ofNat st.size, UInt32.ofInt st.mtime)

-- The mode that do_send gives to a new file.
def fileMode (mode : Nat) : Nat :=
  let mode := mode ||| ((mode >>> 3) &&& 0o070)
  mode ||| ((mode >>> 3) &&& 0o007)

def pushedMode (path : List UInt8) (mode : UInt32) : Nat :=
  fileMode (sendTarget (path ++ modeSuffix mode)).2

def pushedFile (path : List UInt8) (mode : UInt32) (chunks : List (List UInt8))
    (mtime : UInt32) : File :=
  ⟨pushedMode path mode, mtime.toNat, chunks.flatten⟩

def Store.act (s : Store) : Request → Store × Answer
  | .stat path =>
      let (mode, size, time) := statAnswer (s.stat path)
      (s, .stat mode size time)
  | .list path => (s, .listed (s.listing path))
  | .send path mode chunks mtime =>
      ({ s with files := Function.update s.files path (some (pushedFile path mode chunks mtime)) },
        .sent)
  | .recv path =>
      match s.files path with
      | none => (s, .refused)
      | some file => (s, .data file.data)

-- The records of a SEND are no longer than file_sync_service takes them.
def Request.Fits : Request → Prop
  | .send _ _ chunks _ => ∀ chunk ∈ chunks, chunk.length ≤ SYNC_DATA_MAX
  | _ => True

section Taken

variable {heard more rest bytes : List UInt8} {listed : List Listed}

-- A first record that comes whole is that of the sender.
theorem head_of_prefix {msg first tail : List UInt8} (hlen : msg.length = first.length)
    (h : msg ++ rest <+: first ++ tail) : msg = first ∧ rest <+: tail := by
  obtain ⟨u, hu⟩ := h
  rw [List.append_assoc] at hu
  obtain ⟨hmsg, htail⟩ := List.append_inj hu hlen
  exact ⟨hmsg, u, htail⟩

theorem Entries.of_answer {entries : List Listed} (hfits : ∀ e ∈ entries, e.Fits)
    (h : Entries heard listed rest) (hp : heard <+: listAnswer entries ++ more) :
    heard = listAnswer entries ++ rest ∧ listed = entries := by
  induction entries generalizing heard listed with
  | nil =>
      have hlast : listAnswer [] = syncmsg [ID_DONE, 0, 0, 0, 0] := rfl
      rw [hlast] at hp ⊢
      cases h with
      | done msg rest hlen hid =>
          obtain ⟨rfl, -⟩ := head_of_prefix (by simp [hlen]) hp
          exact ⟨rfl, rfl⟩
      | dent msg buf stream rest listed hlen hid =>
          obtain ⟨rfl, -⟩ := head_of_prefix (by simp [hlen]) hp
          rw [wordAt_self _ 0 (by simp)] at hid
          exact absurd hid (by decide)
  | cons e others ih =>
      have hfit := hfits e (List.mem_cons_self ..)
      have hlength := hfit.length
      have hsplit : ∀ tail, listAnswer (e :: others) ++ tail =
          syncmsg [ID_DENT, e.mode, e.size, e.time, UInt32.ofNat e.name.length] ++
            (e.name ++ (listAnswer others ++ tail)) := by
        intro tail
        simp [listAnswer, Listed.record]
      rw [hsplit] at hp ⊢
      cases h with
      | done msg rest hlen hid =>
          obtain ⟨rfl, -⟩ := head_of_prefix (by simp [hlen]) hp
          rw [wordAt_self _ 0 (by simp), List.getElem_cons_zero] at hid
          exact absurd hid (by decide)
      | dent msg buf stream rest listed hlen hid hsize hmax hrest =>
          obtain ⟨rfl, hp'⟩ := head_of_prefix (by simp [hlen]) hp
          have hword := wordAt_self [ID_DENT, e.mode, e.size, e.time, UInt32.ofNat e.name.length]
          rw [hword 4 (by simp)] at hsize
          have hnat : (UInt32.ofNat e.name.length).toNat = e.name.length :=
            UInt32.toNat_ofNat_of_lt' (show e.name.length < 2 ^ 32 by omega)
          obtain ⟨rfl, hp''⟩ := head_of_prefix (hsize.symm.trans hnat) hp'
          obtain ⟨rfl, rfl⟩ := ih (fun e he => hfits e (List.mem_cons_of_mem _ he)) hrest hp''
          refine ⟨rfl, ?_⟩
          rw [hword 1 (by simp), hword 2 (by simp), hword 3 (by simp), textOf,
            hfit.text.takeWhile_ne]
          rfl

theorem Received.of_records {chunks : List (List UInt8)} {mtime : UInt32}
    (hmax : ∀ chunk ∈ chunks, chunk.length ≤ SYNC_DATA_MAX) (h : Received heard bytes rest)
    (hp : heard <+: pushRecords chunks mtime ++ more) :
    heard = pushRecords chunks mtime ++ rest ∧ bytes = chunks.flatten := by
  induction chunks generalizing heard bytes with
  | nil =>
      rw [pushRecords_nil] at hp ⊢
      cases h with
      | done msg rest hlen hid =>
          obtain ⟨rfl, -⟩ := head_of_prefix (by simp [hlen]) hp
          exact ⟨rfl, rfl⟩
      | data msg payload stream bytes rest hlen hid =>
          obtain ⟨rfl, -⟩ := head_of_prefix (by simp [hlen]) hp
          rw [wordAt_self _ 0 (by simp), List.getElem_cons_zero] at hid
          exact absurd hid (by decide)
  | cons chunk chunks ih =>
      have hnat := toNat_chunk (hmax chunk (List.mem_cons_self ..))
      have hsplit : ∀ tail, pushRecords (chunk :: chunks) mtime ++ tail =
          syncmsg [ID_DATA, UInt32.ofNat chunk.length] ++
            (chunk ++ (pushRecords chunks mtime ++ tail)) := by
        intro tail
        rw [pushRecords_cons, dataRecord]
        simp only [List.append_assoc]
      have hword := wordAt_self [ID_DATA, UInt32.ofNat chunk.length]
      rw [hsplit] at hp ⊢
      cases h with
      | done msg rest hlen hid =>
          obtain ⟨rfl, -⟩ := head_of_prefix (by simp [hlen]) hp
          rw [hword 0 (by simp), List.getElem_cons_zero] at hid
          exact absurd hid (by decide)
      | data msg payload stream bytes rest hlen hid hsize hle hrest =>
          obtain ⟨rfl, hp'⟩ := head_of_prefix (by simp [hlen]) hp
          rw [hword 1 (by simp)] at hsize
          obtain ⟨rfl, hp''⟩ := head_of_prefix (hsize.symm.trans hnat) hp'
          obtain ⟨rfl, rfl⟩ :=
            ih (fun chunk hm => hmax chunk (List.mem_cons_of_mem _ hm)) hrest hp''
          exact ⟨rfl, rfl⟩

-- Data that end in a failure are not taken.
theorem not_received_fail {chunks : List (List UInt8)} {text : List UInt8}
    (hmax : ∀ chunk ∈ chunks, chunk.length ≤ SYNC_DATA_MAX)
    (hp : heard <+: (chunks.map dataRecord).flatten ++ (failRecord text ++ more)) :
    ¬Received heard bytes rest := by
  induction chunks generalizing heard bytes with
  | nil =>
      intro h
      rw [List.map_nil, List.flatten_nil, List.nil_append, failRecord, List.append_assoc] at hp
      have hword := wordAt_self [ID_FAIL, UInt32.ofNat text.length] 0 (by simp)
      cases h with
      | done msg rest hlen hid =>
          obtain ⟨rfl, -⟩ := head_of_prefix (by simp [hlen]) hp
          rw [hword, List.getElem_cons_zero] at hid
          exact absurd hid (by decide)
      | data msg payload stream bytes rest hlen hid =>
          obtain ⟨rfl, -⟩ := head_of_prefix (by simp [hlen]) hp
          rw [hword, List.getElem_cons_zero] at hid
          exact absurd hid (by decide)
  | cons chunk chunks ih =>
      intro h
      have hnat := toNat_chunk (hmax chunk (List.mem_cons_self ..))
      rw [List.map_cons, List.flatten_cons, dataRecord] at hp
      simp only [List.append_assoc] at hp
      have hword := wordAt_self [ID_DATA, UInt32.ofNat chunk.length]
      cases h with
      | done msg rest hlen hid =>
          obtain ⟨rfl, -⟩ := head_of_prefix (by simp [hlen]) hp
          rw [hword 0 (by simp), List.getElem_cons_zero] at hid
          exact absurd hid (by decide)
      | data msg payload stream bytes rest hlen hid hsize hle hrest =>
          obtain ⟨rfl, hp'⟩ := head_of_prefix (by simp [hlen]) hp
          rw [hword 1 (by simp)] at hsize
          obtain ⟨-, hp''⟩ := head_of_prefix (hsize.symm.trans hnat) hp'
          refine ih (fun chunk hm => hmax chunk (List.mem_cons_of_mem _ hm)) ?_ hrest
          simpa only [List.append_assoc] using hp''

-- What is taken for an answer does not begin with a FAIL record.
theorem Takes.head {q : Request} {answer : Answer} (h : Takes q heard answer rest) :
    8 ≤ heard.length ∧ wordAt heard 0 ≠ ID_FAIL := by
  have hmsg : ∀ (id : UInt32) (msg tail : List UInt8), 8 ≤ msg.length → wordAt msg 0 = id →
      id ≠ ID_FAIL → 8 ≤ (msg ++ tail).length ∧ wordAt (msg ++ tail) 0 ≠ ID_FAIL := by
    intro id msg tail hlen hid hne
    refine ⟨by rw [List.length_append]; omega, ?_⟩
    rw [prefix_wordAt (List.prefix_append msg tail) (by omega), hid]
    exact hne
  cases h with
  | stat path mode size time rest =>
      exact hmsg ID_STAT _ _ (by simp) (wordAt_self _ 0 (by simp)) (by decide)
  | list path heard listed rest h =>
      cases h with
      | done msg rest hlen hid => exact hmsg ID_DONE msg _ (by omega) hid (by decide)
      | dent msg buf stream rest listed hlen hid =>
          exact hmsg ID_DENT msg _ (by omega) hid (by decide)
  | send path mode chunks mtime msg rest hlen hid =>
      exact hmsg ID_OKAY msg _ (by omega) hid (by decide)
  | recv path heard bytes rest h =>
      cases h with
      | done msg rest hlen hid => exact hmsg ID_DONE msg _ (by omega) hid (by decide)
      | data msg payload stream bytes rest hlen hid =>
          exact hmsg ID_DATA msg _ (by omega) hid (by decide)

theorem Takes.not_fail {q : Request} {answer : Answer} {text : List UInt8}
    (h : Takes q heard answer rest) :
    ¬heard <+: failRecord text ++ more := by
  intro hp
  obtain ⟨hlen, hid⟩ := h.head
  have hhead : wordAt (failRecord text ++ more) 0 = ID_FAIL := by
    rw [failRecord, List.append_assoc]
    exact wordAt_syncmsg _ _ 0 (by simp)
  rw [prefix_wordAt hp (by omega)] at hhead
  exact hid hhead

end Taken

end Adb.Sync
