import Adb.Sync.Push

namespace Adb.Sync

open Adb.Lib

-- The records of a push: the data, and the DONE that ends them.
def pushRecords (chunks : List (List UInt8)) (mtime : UInt32) : List UInt8 :=
  (chunks.map dataRecord).flatten ++ syncmsg [ID_DONE, mtime]

def okayRecord : List UInt8 := syncmsg [ID_OKAY, 0]

-- Whether the writes to the file take all of the chunks, one after the other.
def writesTake : List (CallOutcome Errno) → List (List UInt8) → Bool
  | _, [] => true
  | writes, chunk :: chunks =>
      match writex writes chunk with
      | .done writes => writesTake writes chunks
      | .failed _ _ _ => false

-- Whether the opens get as far as a file that is there: a new file cannot be made,
-- and the open without O_CREAT goes well.
def reopens (opens : List (Option Errno)) : Bool :=
  match opens.headD none with
  | none | some .EEXIST => opens.tail.headD none = none
  | some .ENOENT =>
      match opens.tail.headD none with
      | none | some .EEXIST => opens.tail.tail.headD none = none
      | some _ => false
  | some _ => false

section Loop

variable {dev : Device} {path rest chunk : List UInt8} {fd : Option Nat} {mtime : UInt32}
  {chunks : List (List UInt8)} {fuel : Nat}

theorem pushRecords_nil (mtime : UInt32) : pushRecords [] mtime = syncmsg [ID_DONE, mtime] :=
  List.nil_append _

theorem pushRecords_cons (chunk : List UInt8) (chunks : List (List UInt8)) (mtime : UInt32) :
    pushRecords (chunk :: chunks) mtime = dataRecord chunk ++ pushRecords chunks mtime := by
  rw [pushRecords, pushRecords, List.map_cons, List.flatten_cons, List.append_assoc]

variable (dev path)

-- A turn of the loop on a DATA record.
theorem sendLoop_data (fuel : Nat) (fd : Option Nat) (hmax : chunk.length ≤ SYNC_DATA_MAX)
    (h : readable dev.conn.input = dataRecord chunk ++ rest) :
    ∃ input, readable input = rest ∧ sendLoop (fuel + 1) dev path fd =
      match fd with
      | none => sendLoop fuel (dev.setConn { dev.conn with input }) path none
      | some offset =>
          match (dev.setConn { dev.conn with input }).writeFile path offset chunk with
          | .done dev => sendLoop fuel dev path (some (offset + chunk.length))
          | .failed e dev =>
              match failErrno (dev.adbUnlink path) e with
              | (0, dev) => sendLoop fuel dev path none
              | (_, dev) => (-1, dev) := by
  have hsize := toNat_chunk hmax
  rw [dataRecord, List.append_assoc] at h
  obtain ⟨input, he, hin⟩ := Conn.readx_take 8 h (by simp)
  obtain ⟨input', he', hin'⟩ := Conn.readx_take (c := { dev.conn with input }) chunk.length hin rfl
  have hid : wordAt (syncmsg [ID_DATA, UInt32.ofNat chunk.length]) 0 = ID_DATA := wordAt_self _ 0 (by simp)
  have hlen : wordAt (syncmsg [ID_DATA, UInt32.ofNat chunk.length]) 1 = UInt32.ofNat chunk.length :=
    wordAt_self _ 1 (by simp)
  refine ⟨input', hin', ?_⟩
  rw [sendLoop, he]
  simp only [hid, hlen, hsize, Device.setConn, he']
  rw [if_neg (not_not.mpr rfl), if_neg (by omega)]
  cases fd <;> rfl

-- A turn of the loop on the DONE record.
theorem sendLoop_done (fuel : Nat) (fd : Option Nat) (h : readable dev.conn.input = syncmsg [ID_DONE, mtime] ++ rest) :
    ∃ input, readable input = rest ∧ sendLoop (fuel + 1) dev path fd =
      match fd with
      | none => (0, dev.setConn { dev.conn with input })
      | some _ => ((dev.setConn { dev.conn with input }).utime path mtime).send [okayRecord] := by
  obtain ⟨input, he, hin⟩ := Conn.readx_take 8 h (by simp)
  have hid : wordAt (syncmsg [ID_DONE, mtime]) 0 = ID_DONE := wordAt_self _ 0 (by simp)
  have htime : wordAt (syncmsg [ID_DONE, mtime]) 1 = mtime := wordAt_self _ 1 (by simp)
  refine ⟨input, hin, ?_⟩
  rw [sendLoop, he]
  dsimp only
  rw [hid, htime, if_pos (by decide), if_pos rfl]
  cases fd <;> rfl

-- Without a file the records are read and nothing else happens.
theorem sendLoop_drains (hmax : ∀ chunk ∈ chunks, chunk.length ≤ SYNC_DATA_MAX)
    (h : readable dev.conn.input = pushRecords chunks mtime ++ rest) (hfuel : chunks.length < fuel) :
    ∃ input, readable input = rest ∧
      sendLoop fuel dev path none = (0, dev.setConn { dev.conn with input }) := by
  induction chunks generalizing dev fuel with
  | nil =>
      obtain ⟨fuel, rfl⟩ := Nat.exists_eq_add_one_of_ne_zero (Nat.ne_of_gt hfuel)
      rw [pushRecords_nil] at h
      exact sendLoop_done dev path fuel none h
  | cons chunk chunks ih =>
      obtain ⟨fuel, rfl⟩ := Nat.exists_eq_add_one_of_ne_zero (Nat.ne_zero_of_lt hfuel)
      rw [pushRecords_cons, List.append_assoc] at h
      obtain ⟨input, hin, he⟩ := sendLoop_data dev path fuel none
        (hmax chunk (by simp)) h
      have hlength : chunks.length < fuel := by
        rw [List.length_cons] at hfuel
        omega
      obtain ⟨input', hin', he'⟩ := ih (dev.setConn { dev.conn with input })
        (fun chunk hm => hmax chunk (List.mem_cons_of_mem _ hm)) hin hlength
      exact ⟨input', hin', he.trans he'⟩

-- What becomes of a request that has been served: behind what was sent before comes
-- its status, its records are read, and the loop of file_sync_service goes on.
structure Served (before rest status : List UInt8) (result : Int × Device) : Prop where
  returns : result.1 = 0
  sent : result.2.conn.output = before ++ status
  boundary : readable result.2.conn.input = rest

-- A failure is reported, and the records that are left are read.
theorem failErrno_drains (e : Errno) (hmax : ∀ chunk ∈ chunks, chunk.length ≤ SYNC_DATA_MAX)
    (hw : Healthy dev.conn.writes) (h : readable dev.conn.input = pushRecords chunks mtime ++ rest)
    (hfuel : chunks.length < fuel) :
    Served dev.conn.output rest (failRecord (dev.strerror e))
      (match failErrno dev e with
        | (0, dev) => sendLoop fuel dev path none
        | (_, dev) => (-1, dev)) := by
  obtain ⟨c, hfail, hinput, hout⟩ | ⟨c, part, hfail, -⟩ := failMessage_cases dev (dev.strerror e)
  case inr =>
    obtain ⟨writes, hsend, -⟩ :=
      Device.send_healthy hw [syncmsg [ID_FAIL, UInt32.ofNat (dev.strerror e).length], dev.strerror e]
    rw [failMessage, hsend] at hfail
    cases hfail
  obtain ⟨input, hin, he⟩ :=
    sendLoop_drains (dev.setConn c) path hmax (by rw [← h, ← hinput]; rfl) hfuel
  simp only [failErrno, hfail, he]
  exact ⟨rfl, hout, hin⟩

theorem writeFile_done {writes : List (CallOutcome Errno)} {file : File}
    (h : writex dev.writes chunk = .done writes) (hfile : dev.files path = some file) (offset : Nat) :
    ∃ after, dev.writeFile path offset chunk = .done after ∧ after.conn = dev.conn ∧
      after.writes = writes ∧
        after.files path = some { file with data := Device.putAt file.data offset chunk } := by
  unfold Device.writeFile
  rw [h]
  refine ⟨_, rfl, rfl, rfl, ?_⟩
  simp [Device.putFile, Device.setFile, hfile]

theorem writeFile_failed {writes : List (CallOutcome Errno)} {taken : List UInt8} {e : Errno}
    (h : writex dev.writes chunk = .failed taken e writes) (offset : Nat) :
    ∃ after, dev.writeFile path offset chunk = .failed e after ∧ after.conn = dev.conn := by
  unfold Device.writeFile
  rw [h]
  exact ⟨_, rfl, rfl⟩

-- With a file, the status says whether all of the writes went well.
theorem sendLoop_writes {offset : Nat} {file : File}
    (hmax : ∀ chunk ∈ chunks, chunk.length ≤ SYNC_DATA_MAX) (hw : Healthy dev.conn.writes)
    (h : readable dev.conn.input = pushRecords chunks mtime ++ rest) (hfuel : chunks.length < fuel)
    (hfile : dev.files path = some file) (hoffset : offset ≤ file.data.length) :
    if writesTake dev.writes chunks then
      Served dev.conn.output rest okayRecord (sendLoop fuel dev path (some offset)) ∧
        ∃ after, (sendLoop fuel dev path (some offset)).2.files path = some after ∧
          after.data = Device.putAt file.data offset chunks.flatten
    else
      ∃ text, Served dev.conn.output rest (failRecord text) (sendLoop fuel dev path (some offset)) := by
  induction chunks generalizing dev fuel offset file with
  | nil =>
      obtain ⟨fuel, rfl⟩ := Nat.exists_eq_add_one_of_ne_zero (Nat.ne_of_gt hfuel)
      rw [pushRecords_nil] at h
      obtain ⟨input, hin, he⟩ := sendLoop_done dev path fuel (some offset) h
      have hhealthy : Healthy ((dev.setConn { dev.conn with input }).utime path mtime).conn.writes := hw
      obtain ⟨writes, hsend, -⟩ := Device.send_healthy hhealthy [okayRecord]
      rw [writesTake, if_pos rfl, he]
      dsimp only
      rw [hsend]
      refine ⟨⟨rfl, by simp [Device.sent, Conn.sent, Device.setConn, Device.utime, Device.setFile], hin⟩,
        { file with mtime := mtime.toNat }, ?_, (putAt_nil _ _).symm⟩
      simp [Device.sent, Device.setConn, Device.utime, Device.setFile, hfile]
  | cons chunk chunks ih =>
      obtain ⟨fuel, rfl⟩ := Nat.exists_eq_add_one_of_ne_zero (Nat.ne_zero_of_lt hfuel)
      rw [pushRecords_cons, List.append_assoc] at h
      have hlength : chunks.length < fuel := by
        rw [List.length_cons] at hfuel
        omega
      have hrest : ∀ chunk ∈ chunks, chunk.length ≤ SYNC_DATA_MAX :=
        fun chunk hm => hmax chunk (List.mem_cons_of_mem _ hm)
      obtain ⟨input, hin, he⟩ := sendLoop_data dev path fuel (some offset)
        (hmax chunk (by simp)) h
      rw [he, writesTake]
      dsimp only
      cases hx : writex dev.writes chunk with
      | done writes =>
          obtain ⟨after, hwrite, hconn, hwrites, hput⟩ := writeFile_done
            (dev.setConn { dev.conn with input }) path hx hfile offset
          have hmore := ih after hrest (by rw [hconn]; exact hw) (by rw [hconn]; exact hin)
            hlength hput (length_putAt _ _ _ hoffset)
          rw [hwrites, hconn, putAt_putAt _ _ _ _ hoffset] at hmore
          rw [hwrite]
          exact hmore
      | failed taken e writes =>
          obtain ⟨after, hwrite, hconn⟩ := writeFile_failed
            (dev.setConn { dev.conn with input }) path hx offset
          have hunlink : (after.adbUnlink path).conn = { dev.conn with input } := by
            rw [adbUnlink_conn, hconn]
            rfl
          have hserved := failErrno_drains (after.adbUnlink path) path e hrest
            (by rw [hunlink]; exact hw) (by rw [hunlink]; exact hin) hlength
          rw [hunlink] at hserved
          rw [hwrite, if_neg Bool.false_ne_true]
          exact ⟨_, hserved⟩

end Loop

section Opens

variable (dev : Device) {path : List UInt8} {file : File}

theorem openNew_old (mode : Nat) (h : dev.files path = some file) :
    dev.openNew path mode =
      .failed ((dev.opens.headD none).getD .EEXIST) { dev with opens := dev.opens.tail } := by
  unfold Device.openNew Device.nextOpen
  cases dev.opens.headD none with
  | some e => rfl
  | none => simp [h]

theorem openOld_old (h : dev.files path = some file) :
    dev.openOld path =
      match dev.opens.headD none with
      | some e => .failed e { dev with opens := dev.opens.tail }
      | none => .done { dev with opens := dev.opens.tail } := by
  unfold Device.openOld Device.nextOpen
  cases dev.opens.headD none with
  | some e => rfl
  | none => simp [h]

-- The opens on a file that is there.
theorem openForSend_old (mode : Nat) (h : dev.files path = some file) :
    if reopens dev.opens then ∃ opens, openForSend dev path mode = .done { dev with opens }
    else ∃ e opens, openForSend dev path mode = .failed e { dev with opens } := by
  have hagain : ∀ opens : List (Option Errno), Device.openNew { dev with opens } path mode =
      .failed ((opens.headD none).getD .EEXIST) { dev with opens := opens.tail } :=
    fun opens => openNew_old { dev with opens } mode h
  have hold : ∀ opens : List (Option Errno), Device.openOld { dev with opens } path =
      match opens.headD none with
      | some e => .failed e { dev with opens := opens.tail }
      | none => .done { dev with opens := opens.tail } :=
    fun opens => openOld_old { dev with opens } h
  have hexists : ∀ opens : List (Option Errno),
      if opens.headD none = none then
        ∃ after, Device.openOld { dev with opens } path = .done { dev with opens := after }
      else ∃ e after, Device.openOld { dev with opens } path = .failed e { dev with opens := after } := by
    intro opens
    rw [hold]
    cases opens.headD none with
    | none => exact ⟨_, rfl⟩
    | some e => exact ⟨e, _, rfl⟩
  unfold openForSend openMade
  rw [openNew_old dev mode h]
  unfold reopens
  cases hfirst : dev.opens.headD none with
  | none => simpa using hexists dev.opens.tail
  | some e =>
      cases e with
      | EEXIST => simpa using hexists dev.opens.tail
      | other n => exact ⟨.other n, _, rfl⟩
      | ENOENT =>
          simp only [Option.getD_some]
          rw [hagain]
          cases hsecond : dev.opens.tail.headD none with
          | none => simpa using hexists dev.opens.tail.tail
          | some e =>
              cases e with
              | EEXIST => simpa using hexists dev.opens.tail.tail
              | other n => exact ⟨.other n, _, rfl⟩
              | ENOENT => exact ⟨.ENOENT, _, rfl⟩

theorem openNew_new (mode : Nat) (h : dev.files path = none) :
    (∃ opens, dev.openNew path mode = .done ({ dev with opens }.setFile path (some ⟨mode, 0, []⟩))) ∨
      ∃ e opens, dev.openNew path mode = .failed e { dev with opens } := by
  unfold Device.openNew Device.nextOpen
  cases dev.opens.headD none with
  | some e => exact .inr ⟨e, _, rfl⟩
  | none =>
      left
      simp only [h, Option.isSome_none, Bool.false_eq_true, if_false]
      exact ⟨_, rfl⟩

-- The opens where there is no file: an empty one is made, or they fail.
theorem openForSend_new (mode : Nat) (h : dev.files path = none) :
    (∃ opens, openForSend dev path mode =
        .done ({ dev with opens }.setFile path (some ⟨mode, 0, []⟩))) ∨
      ∃ e opens, openForSend dev path mode = .failed e { dev with opens } := by
  have hold : ∀ opens : List (Option Errno), ∃ e after,
      Device.openOld { dev with opens } path = .failed e { dev with opens := after } := by
    intro opens
    unfold Device.openOld Device.nextOpen
    cases opens.headD none with
    | some e => exact ⟨e, _, rfl⟩
    | none => exact ⟨.ENOENT, _, by simp [h]; rfl⟩
  have hmade : (∃ opens, openMade dev path mode =
      .done ({ dev with opens }.setFile path (some ⟨mode, 0, []⟩))) ∨
        ∃ e opens, openMade dev path mode = .failed e { dev with opens } := by
    unfold openMade
    obtain ⟨opens, ho⟩ | ⟨e, opens, ho⟩ := openNew_new dev mode h
    · exact .inl ⟨opens, by rw [ho]⟩
    · rw [ho]
      cases e with
      | ENOENT => exact openNew_new { dev with opens } mode h
      | EEXIST => exact .inr ⟨.EEXIST, opens, rfl⟩
      | other n => exact .inr ⟨.other n, opens, rfl⟩
  unfold openForSend
  obtain ⟨opens, ho⟩ | ⟨e, opens, ho⟩ := hmade
  · exact .inl ⟨opens, by rw [ho]⟩
  · rw [ho]
    cases e with
    | EEXIST => exact .inr (hold opens)
    | ENOENT => exact .inr ⟨.ENOENT, opens, rfl⟩
    | other n => exact .inr ⟨.other n, opens, rfl⟩

end Opens

-- A push is received: one status is sent, the records are read and nothing behind
-- them, and OKAY is sent for nothing but the data.
def ReceivesPush (dev : Device) (name data rest : List UInt8) : Prop :=
  ∃ status, Served dev.conn.output rest status (doSend dev name) ∧
    ((∃ text, status = failRecord text) ∨
      status = okayRecord ∧ ∃ file, (doSend dev name).2.files (sendTarget name).1 = some file ∧
        file.data = data)

-- A file that is longer than the data and cannot be unlinked is opened and written.
def Outlasts (dev : Device) (name : List UInt8) (chunks : List (List UInt8)) : Prop :=
  dev.unlinks.headD none ≠ none ∧
    chunks.flatten.length < (oldData dev (sendTarget name).1).length ∧
    reopens dev.opens = true ∧ writesTake dev.writes chunks = true

section Push

variable {dev : Device} {name path rest : List UInt8} {mtime : UInt32} {chunks : List (List UInt8)}

theorem okayRecord_ne_failRecord (text : List UInt8) : okayRecord ≠ failRecord text := by
  intro heq
  have hokay : Okay okayRecord := ⟨by simp [okayRecord], wordAt_self _ 0 (by simp)⟩
  exact not_okay_fail text [] (by rw [heq, List.append_nil]) hokay

theorem length_pushRecords (chunks : List (List UInt8)) (mtime : UInt32) :
    chunks.length ≤ (pushRecords chunks mtime).length := by
  induction chunks with
  | nil => exact Nat.zero_le _
  | cons chunk chunks ih =>
      rw [pushRecords_cons, List.length_append, length_dataRecord, List.length_cons]
      omega

-- The loop has turns enough.
theorem push_fuel (dev : Device) (h : readable dev.conn.input = pushRecords chunks mtime ++ rest) :
    chunks.length < (stored dev.conn.input).length + 1 := by
  have hrecords := length_pushRecords chunks mtime
  have hstored := (prefix_readable dev.conn.input).length_le
  rw [h, List.length_append] at hstored
  omega

theorem handleSendFile_failed {e : Errno} {opens : List (Option Errno)} (mode : Nat)
    (hmax : ∀ chunk ∈ chunks, chunk.length ≤ SYNC_DATA_MAX) (hw : Healthy dev.conn.writes)
    (h : readable dev.conn.input = pushRecords chunks mtime ++ rest)
    (hopen : openForSend dev path mode = .failed e { dev with opens }) :
    Served dev.conn.output rest (failRecord (dev.strerror e)) (handleSendFile dev path mode) := by
  have hserved := failErrno_drains { dev with opens } path e hmax hw h (push_fuel dev h)
  have hhealthy : Healthy { dev with opens }.conn.writes := hw
  obtain ⟨writes, hsend, -⟩ := Device.send_healthy hhealthy
    [syncmsg [ID_FAIL, UInt32.ofNat (dev.strerror e).length], dev.strerror e]
  rw [handleSendFile, hopen]
  simp only [failErrno, failMessage, hsend] at hserved ⊢
  exact hserved

theorem handleSendFile_opened {opened : Device} {file : File} (mode : Nat)
    (hmax : ∀ chunk ∈ chunks, chunk.length ≤ SYNC_DATA_MAX) (hw : Healthy dev.conn.writes)
    (h : readable dev.conn.input = pushRecords chunks mtime ++ rest)
    (hopen : openForSend dev path mode = .done opened) (hconn : opened.conn = dev.conn)
    (hfile : opened.files path = some file) :
    if writesTake opened.writes chunks then
      Served dev.conn.output rest okayRecord (handleSendFile dev path mode) ∧
        ∃ after, (handleSendFile dev path mode).2.files path = some after ∧
          after.data = Device.putAt file.data 0 chunks.flatten
    else
      ∃ text, Served dev.conn.output rest (failRecord text) (handleSendFile dev path mode) := by
  have hloop : handleSendFile dev path mode =
      sendLoop ((stored opened.conn.input).length + 1) opened path (some 0) := by
    rw [handleSendFile, hopen]
  have hwrites := sendLoop_writes opened path hmax (by rw [hconn]; exact hw)
    (by rw [hconn]; exact h) (push_fuel opened (by rw [hconn]; exact h)) hfile (Nat.zero_le _)
  rw [hloop]
  split at hwrites
  · rename_i htakes
    obtain ⟨hserved, hdata⟩ := hwrites
    rw [if_pos htakes]
    exact ⟨⟨hserved.returns, by rw [hserved.sent, hconn], hserved.boundary⟩, hdata⟩
  · rename_i htakes
    obtain ⟨text, hserved⟩ := hwrites
    rw [if_neg htakes]
    exact ⟨text, hserved.returns, by rw [hserved.sent, hconn], hserved.boundary⟩

theorem putAt_zero {old data : List UInt8} :
    Device.putAt old 0 data = data ↔ ¬data.length < old.length := by
  rw [Device.putAt, List.take_zero, List.nil_append, Nat.zero_add]
  constructor
  · intro heq
    have hlen := congrArg List.length heq
    rw [List.length_append, List.length_drop] at hlen
    omega
  · intro hle
    rw [List.drop_of_length_le (by omega), List.append_nil]

-- What do_send finds at the path, once it has tried to unlink it.
theorem adbUnlink_files (dev : Device) (path : List UInt8) :
    (dev.adbUnlink path).files path =
      if dev.unlinks.headD none = none then none else dev.files path := by
  unfold Device.adbUnlink Device.nextUnlink
  cases dev.unlinks.headD none with
  | none => simp [Device.setFile]
  | some e => rfl

theorem adbUnlink_opens (dev : Device) (path : List UInt8) :
    (dev.adbUnlink path).opens = dev.opens ∧ (dev.adbUnlink path).writes = dev.writes := by
  unfold Device.adbUnlink Device.nextUnlink
  cases dev.unlinks.headD none <;> exact ⟨rfl, rfl⟩

-- What the status of a push on a file that is there says, and what it leaves.
theorem receivesPush_old {file : File} (mode : Nat) {d : Device}
    (hmax : ∀ chunk ∈ chunks, chunk.length ≤ SYNC_DATA_MAX) (hw : Healthy d.conn.writes)
    (h : readable d.conn.input = pushRecords chunks mtime ++ rest) (hfile : d.files path = some file) :
    (∃ status, Served d.conn.output rest status (handleSendFile d path mode) ∧
      ((∃ text, status = failRecord text) ∨ status = okayRecord ∧ ∃ after,
        (handleSendFile d path mode).2.files path = some after ∧ after.data = chunks.flatten)) ↔
      ¬(chunks.flatten.length < file.data.length ∧ reopens d.opens = true ∧
        writesTake d.writes chunks = true) := by
  have hopen := openForSend_old d mode hfile
  by_cases hre : reopens d.opens = true
  case neg =>
    rw [if_neg hre] at hopen
    obtain ⟨e, opens, ho⟩ := hopen
    exact ⟨fun _ hbad => hre hbad.2.1, fun _ =>
      ⟨_, handleSendFile_failed mode hmax hw h ho, .inl ⟨_, rfl⟩⟩⟩
  rw [if_pos hre] at hopen
  obtain ⟨opens, ho⟩ := hopen
  have hdone := handleSendFile_opened mode hmax hw h ho rfl hfile
  by_cases htakes : writesTake d.writes chunks = true
  case neg =>
    rw [if_neg htakes] at hdone
    obtain ⟨text, hserved⟩ := hdone
    exact ⟨fun _ hbad => htakes hbad.2.2, fun _ => ⟨_, hserved, .inl ⟨text, rfl⟩⟩⟩
  rw [if_pos htakes] at hdone
  obtain ⟨hserved, after, hafter, hdata⟩ := hdone
  constructor
  · rintro ⟨status, hstatus, ⟨text, hfail⟩ | ⟨-, file', hfile', hdata'⟩⟩ ⟨hlt, -, -⟩
    · have hsame := List.append_cancel_left (hserved.sent.symm.trans hstatus.sent)
      exact okayRecord_ne_failRecord text (hsame.trans hfail)
    · have heq : file' = after := Option.some.inj (hfile'.symm.trans hafter)
      rw [heq, hdata] at hdata'
      exact putAt_zero.mp hdata' hlt
  · intro hgood
    have hle : ¬chunks.flatten.length < file.data.length := fun hlt => hgood ⟨hlt, hre, htakes⟩
    exact ⟨okayRecord, hserved, .inr ⟨rfl, after, hafter, hdata.trans (putAt_zero.mpr hle)⟩⟩

theorem receivesPush_new (mode : Nat) {d : Device}
    (hmax : ∀ chunk ∈ chunks, chunk.length ≤ SYNC_DATA_MAX) (hw : Healthy d.conn.writes)
    (h : readable d.conn.input = pushRecords chunks mtime ++ rest) (hfile : d.files path = none) :
    ∃ status, Served d.conn.output rest status (handleSendFile d path mode) ∧
      ((∃ text, status = failRecord text) ∨ status = okayRecord ∧ ∃ after,
        (handleSendFile d path mode).2.files path = some after ∧ after.data = chunks.flatten) := by
  obtain ⟨opens, ho⟩ | ⟨e, opens, ho⟩ := openForSend_new d mode hfile
  · have hmade : ({ d with opens }.setFile path (some ⟨mode, 0, []⟩)).files path =
        some ⟨mode, 0, []⟩ := Function.update_self ..
    have hdone := handleSendFile_opened mode hmax hw h ho rfl hmade
    split at hdone
    · obtain ⟨hserved, after, hafter, hdata⟩ := hdone
      exact ⟨okayRecord, hserved, .inr ⟨rfl, after, hafter, hdata.trans (putAt_zero.mpr (by simp))⟩⟩
    · obtain ⟨text, hserved⟩ := hdone
      exact ⟨_, hserved, .inl ⟨text, rfl⟩⟩
  · exact ⟨_, handleSendFile_failed mode hmax hw h ho, .inl ⟨_, rfl⟩⟩

-- A push is received unless an old file shows through behind the data.
theorem receives_push_iff (hmax : ∀ chunk ∈ chunks, chunk.length ≤ SYNC_DATA_MAX)
    (hw : Healthy dev.conn.writes) (h : readable dev.conn.input = pushRecords chunks mtime ++ rest) :
    ReceivesPush dev name chunks.flatten rest ↔ ¬Outlasts dev name chunks := by
  obtain ⟨mode, hsend⟩ : ∃ mode, doSend dev name =
      handleSendFile (dev.adbUnlink (sendTarget name).1) (sendTarget name).1 mode := ⟨_, rfl⟩
  have hconn := adbUnlink_conn dev (sendTarget name).1
  have hfiles := adbUnlink_files dev (sendTarget name).1
  obtain ⟨hopens, hwrites⟩ := adbUnlink_opens dev (sendTarget name).1
  have hout : dev.conn.output = (dev.adbUnlink (sendTarget name).1).conn.output := by rw [hconn]
  simp only [ReceivesPush, hsend]
  rw [hout]
  have hw' : Healthy (dev.adbUnlink (sendTarget name).1).conn.writes := by
    rw [hconn]
    exact hw
  have hin : readable (dev.adbUnlink (sendTarget name).1).conn.input = pushRecords chunks mtime ++ rest := by
    rw [hconn]
    exact h
  cases hfile : (dev.adbUnlink (sendTarget name).1).files (sendTarget name).1 with
  | none =>
      refine ⟨fun _ => ?_, fun _ => receivesPush_new mode hmax hw' hin hfile⟩
      rintro ⟨hunlink, hlt, -⟩
      rw [hfile, if_neg hunlink] at hfiles
      simp [oldData, ← hfiles] at hlt
  | some file =>
      rw [receivesPush_old mode hmax hw' hin hfile, hopens, hwrites]
      have hunlink : dev.unlinks.headD none ≠ none := by
        intro hnone
        rw [hfile, if_pos hnone] at hfiles
        cases hfiles
      rw [hfile, if_neg hunlink] at hfiles
      have hold : oldData dev (sendTarget name).1 = file.data := by simp [oldData, ← hfiles]
      rw [Outlasts, hold]
      exact not_congr ⟨fun hbad => ⟨hunlink, hbad⟩, fun hbad => hbad.2⟩

end Push

-- A push of two bytes in two records to a file that is not there.
theorem receives_push_of_two_records :
    ReceivesPush (emptyDevice (pushRecords [[1], [2]] 7 ++ [9])) [47, 97] [1, 2] [9] := by
  have hno : ¬Outlasts (emptyDevice (pushRecords [[1], [2]] 7 ++ [9])) [47, 97] [[1], [2]] := by
    rintro ⟨hunlink, -⟩
    exact hunlink rfl
  have hrecords : readable (emptyDevice (pushRecords [[1], [2]] 7 ++ [9])).conn.input =
      pushRecords [[1], [2]] 7 ++ [9] := by decide
  exact (receives_push_iff (by decide) healthy_nil hrecords).mpr hno

-- A file of three bytes that cannot be unlinked.
def stubborn (input : List UInt8) : Device :=
  { (emptyDevice input).setFile [47, 97] (some ⟨0, 0, [5, 6, 7]⟩) with unlinks := [some (.other 16)] }

theorem old_file_shows_through :
    ¬ReceivesPush (stubborn (pushRecords [[1]] 7)) [47, 97] [1] [] := by
  rintro ⟨status, hserved, ⟨text, hfail⟩ | ⟨-, file, hfile, hdata⟩⟩
  · have hsent := hserved.sent
    have hokay : (doSend (stubborn (pushRecords [[1]] 7)) [47, 97]).2.conn.output = okayRecord := by
      decide
    rw [hokay, hfail] at hsent
    exact okayRecord_ne_failRecord text hsent
  · have hleft : ((doSend (stubborn (pushRecords [[1]] 7)) [47, 97]).2.files [47, 97]).map File.data =
        some [1, 6, 7] := by decide
    have htarget : (sendTarget [47, 97]).1 = [47, 97] := by decide
    rw [htarget] at hfile
    rw [hfile, Option.map_some, hdata] at hleft
    cases hleft

end Adb.Sync
