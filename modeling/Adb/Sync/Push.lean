import Adb.Sync.SendFile

namespace Adb.Sync

open Adb.Lib

-- What write_data_file and write_data_buffer make records of.
def chunksRead : Nat → Input → List (List UInt8)
  | 0, _ => []
  | fuel + 1, lfd =>
      match adbRead lfd SYNC_DATA_MAX with
      | .got bytes lfd => if bytes.length = 0 then [] else bytes :: chunksRead fuel lfd
      | .interrupted lfd => chunksRead fuel lfd
      | .failed _ _ => []

def bufferChunks : Nat → List UInt8 → List (List UInt8)
  | 0, _ => []
  | fuel + 1, bytes =>
      if bytes.length > 0 then
        bytes.take SYNC_DATA_MAX :: bufferChunks fuel (bytes.drop SYNC_DATA_MAX)
      else
        []

def pushChunks (lfile : Option LocalFile) (verifyApk : Bool) : List (List UInt8) :=
  match lfile with
  | none => []
  | some file =>
      if verifyApk then bufferChunks file.data.length file.data
      else chunksRead (turns (cut file.data file.pattern)) (cut file.data file.pattern)

-- The records that are written whole, if the writes go like this.
def sentChunks : List (CallOutcome Errno) → List (List UInt8) → List (List UInt8)
  | _, [] => []
  | writes, chunk :: more =>
      match writex writes (dataRecord chunk) with
      | .done rest => chunk :: sentChunks rest more
      | .failed _ _ _ => []

def sendChunks : Conn → List (List UInt8) → Int × Conn
  | c, [] => (0, c)
  | c, chunk :: more =>
      match c.writex (dataRecord chunk) with
      | .failed c => (-1, c)
      | .done c => sendChunks c more

section Chunks

variable {lfd : Input} {bytes : List UInt8} {c : Conn}

theorem writeDataLoop_eq (fuel : Nat) (lfd : Input) (c : Conn) :
    writeDataLoop fuel lfd c = sendChunks c (chunksRead fuel lfd) := by
  induction fuel generalizing lfd c with
  | zero => rfl
  | succ fuel ih =>
      simp only [writeDataLoop, chunksRead]
      cases adbRead lfd SYNC_DATA_MAX with
      | got bytes lfd' =>
          dsimp only
          split
          · rfl
          · cases hw : c.writex (dataRecord bytes) with
            | done c' => simp only [sendChunks, hw, ih]
            | failed c' => simp only [sendChunks, hw]
      | interrupted lfd' => exact ih lfd' c
      | failed e lfd' => rfl

theorem writeDataBuffer_eq (fuel : Nat) (c : Conn) (bytes : List UInt8) :
    writeDataBuffer fuel c bytes = sendChunks c (bufferChunks fuel bytes) := by
  induction fuel generalizing bytes c with
  | zero => rfl
  | succ fuel ih =>
      simp only [writeDataBuffer, bufferChunks]
      split
      · cases hw : c.writex (dataRecord (bytes.take SYNC_DATA_MAX)) with
        | done c' => simp only [sendChunks, hw, ih]
        | failed c' => simp only [sendChunks, hw]
      · rfl

theorem prefix_chunksRead (fuel : Nat) (lfd : Input) :
    (chunksRead fuel lfd).flatten <+: stored lfd ∧
      ∀ chunk ∈ chunksRead fuel lfd, chunk.length ≤ SYNC_DATA_MAX := by
  induction fuel generalizing lfd with
  | zero => exact ⟨List.nil_prefix, by simp [chunksRead]⟩
  | succ fuel ih =>
      simp only [chunksRead]
      split
      · rename_i bytes lfd' hread
        obtain ⟨hstored, hmax⟩ := adbRead_got hread
        obtain ⟨hp, hall⟩ := ih lfd'
        split
        · exact ⟨List.nil_prefix, by simp⟩
        · rw [hstored, List.flatten_cons]
          refine ⟨(List.prefix_append_right_inj bytes).mpr hp, fun chunk hm => ?_⟩
          obtain rfl | hm := List.mem_cons.mp hm
          · exact hmax
          · exact hall chunk hm
      · rename_i lfd' hread
        rw [adbRead_interrupted hread]
        exact ih lfd'
      · exact ⟨List.nil_prefix, by simp⟩

theorem prefix_bufferChunks (fuel : Nat) (bytes : List UInt8) :
    (bufferChunks fuel bytes).flatten <+: bytes ∧
      ∀ chunk ∈ bufferChunks fuel bytes, chunk.length ≤ SYNC_DATA_MAX := by
  induction fuel generalizing bytes with
  | zero => exact ⟨List.nil_prefix, by simp [bufferChunks]⟩
  | succ fuel ih =>
      simp only [bufferChunks]
      split
      · obtain ⟨hp, hall⟩ := ih (bytes.drop SYNC_DATA_MAX)
        refine ⟨?_, fun chunk hm => ?_⟩
        · have hput := (List.prefix_append_right_inj (bytes.take SYNC_DATA_MAX)).mpr hp
          rwa [List.take_append_drop] at hput
        · obtain rfl | hm := List.mem_cons.mp hm
          · rw [List.length_take]
            omega
          · exact hall chunk hm
      · exact ⟨List.nil_prefix, by simp⟩

theorem prefix_pushChunks {content : List UInt8} {lfile : Option LocalFile} (verifyApk : Bool)
    (hfile : ∀ file, lfile = some file → file.data = content) :
    (pushChunks lfile verifyApk).flatten <+: content ∧
      ∀ chunk ∈ pushChunks lfile verifyApk, chunk.length ≤ SYNC_DATA_MAX := by
  unfold pushChunks
  cases lfile with
  | none => exact ⟨List.nil_prefix, by simp⟩
  | some file =>
      rw [← hfile file rfl]
      cases verifyApk with
      | true => exact prefix_bufferChunks _ _
      | false =>
          have hchunks := prefix_chunksRead (turns (cut file.data file.pattern))
            (cut file.data file.pattern)
          rw [stored_cut] at hchunks
          exact hchunks

theorem prefix_sentChunks (writes : List (CallOutcome Errno)) (chunks : List (List UInt8)) :
    sentChunks writes chunks <+: chunks := by
  induction chunks generalizing writes with
  | nil => exact List.nil_prefix
  | cons chunk more ih =>
      simp only [sentChunks]
      split
      · exact (List.prefix_cons_inj chunk).mpr (ih _)
      · exact List.nil_prefix

-- The whole records, and the beginning of one more where a write fails.
theorem sendChunks_output (c : Conn) (chunks : List (List UInt8)) :
    (sendChunks c chunks).2.input = c.input ∧ ∃ part, (sendChunks c chunks).2.output =
        c.output ++ ((sentChunks c.writes chunks).flatMap dataRecord ++ part) ∧
      (part = [] ∨ ∃ chunk ∈ chunks, part <+: dataRecord chunk ∧
        part.length < (dataRecord chunk).length) := by
  induction chunks generalizing c with
  | nil => exact ⟨rfl, [], by simp [sendChunks, sentChunks], .inl rfl⟩
  | cons chunk more ih =>
      simp only [sendChunks, sentChunks, Conn.writex]
      cases hw : writex c.writes (dataRecord chunk) with
      | done rest =>
          obtain ⟨hin, part, hout, hpart⟩ :=
            ih { c with output := c.output ++ dataRecord chunk, writes := rest }
          refine ⟨hin, part, ?_, hpart.imp_right ?_⟩
          · dsimp only
            rw [hout, List.flatMap_cons]
            simp only [List.append_assoc]
          · rintro ⟨other, hm, hp⟩
            exact ⟨other, List.mem_cons_of_mem _ hm, hp⟩
      | failed taken e rest =>
          obtain ⟨hp, hlt⟩ := writex_failed hw
          exact ⟨rfl, taken, by simp, .inr ⟨chunk, List.mem_cons_self .., hp, hlt⟩⟩

end Chunks

section Client

variable {apk : ApkCheck} {c c' : Conn} {lfile : Option LocalFile} {rpath : List UInt8}
  {mtime mode : UInt32} {verifyApk : Bool}

theorem readApk_ok {buffer : List UInt8} (h : readApk apk lfile = .ok buffer) :
    ∃ file, lfile = some file ∧ buffer = file.data := by
  unfold readApk at h
  split at h
  · cases h
  · rename_i file
    refine ⟨file, rfl, ?_⟩
    dsimp only at h
    split at h
    · cases h
    split at h
    · cases h
    split at h
    · rename_i bytes rest hread
      obtain ⟨hstored, -⟩ := adbRead_got hread
      rw [stored_cut] at hstored
      split at h
      · cases h
      · rename_i hlen
        have hrest : stored rest = [] := by
          have hsum := congrArg List.length hstored
          rw [List.length_append] at hsum
          exact List.length_eq_zero_iff.mp (by omega)
        rw [hrest, List.append_nil] at hstored
        split at h
        · cases h
        split at h
        · cases h
        · cases h
          exact hstored.symm
    · cases h

theorem readApk_error {code : Int} (h : readApk apk lfile = .error code) : code ≠ 0 := by
  unfold readApk at h
  split at h
  · cases h
    decide
  · dsimp only at h
    split at h
    · cases h
      decide
    split at h
    · cases h
      decide
    split at h
    · split at h
      · cases h
        decide
      split at h
      · cases h
        decide
      split at h
      · cases h
        decide
      · cases h
    · cases h
      decide

theorem finishSend_zero (h : finishSend c mtime = .ok (0, c')) :
    c'.output = c.output ++ syncmsg [ID_DONE, mtime] ∧ Okay (readable c.input) := by
  have hsends := c.writex_sends (syncmsg [ID_DONE, mtime])
  unfold finishSend at h
  cases hw : c.writex (syncmsg [ID_DONE, mtime]) with
  | failed d =>
      rw [hw] at h
      cases h
  | done d =>
      rw [hw] at h hsends
      obtain ⟨hin, hout⟩ := hsends
      dsimp only at h
      obtain ⟨input, he, hr, hlen⟩ | ⟨input, he, -⟩ := d.readx_cases 8
      case inr =>
        rw [he] at h
        cases h
      rw [he] at h
      dsimp only at h
      rw [hin] at h hlen
      split at h
      · rename_i hok
        cases h
        refine ⟨hout, hlen, ?_⟩
        have hhead := prefix_wordAt (List.take_prefix 8 (readable c.input))
          (by rw [List.length_take]; omega)
        exact hhead.trans hok
      · split at h
        · split at h
          · cases h
          · cases h
          · cases h
        · cases h

-- What sync_send has sent when it returns 0, and that it has read OKAY.
theorem syncSend_zero (h : syncSend apk c lfile rpath mtime mode verifyApk = .ok (0, c')) :
    rpath.length ≤ 1024 ∧ Okay (readable c.input) ∧
      ∃ d part, c.writeAll (sendRequest rpath mode) = .done d ∧
        c'.output = c.output ++ ((sendRequest rpath mode).flatten ++
          ((sentChunks d.writes (pushChunks lfile verifyApk)).flatMap dataRecord ++
            (part ++ syncmsg [ID_DONE, mtime]))) ∧
        (part = [] ∨ ∃ chunk ∈ pushChunks lfile verifyApk, part <+: dataRecord chunk ∧
          part.length < (dataRecord chunk).length) := by
  have hsends := c.writeAll_sends (sendRequest rpath mode)
  unfold syncSend at h
  split at h
  · cases h
  rename_i hlen
  cases hapk : (if verifyApk then readApk apk lfile else .ok []) with
  | error code =>
      rw [hapk] at h
      cases h
      cases verifyApk with
      | true => exact absurd rfl (readApk_error hapk)
      | false => cases hapk
  | ok buffer =>
      rw [hapk] at h
      dsimp only at h
      cases hw : c.writeAll (sendRequest rpath mode) with
      | failed d =>
          rw [hw] at h
          cases h
      | done d =>
          rw [hw] at h hsends
          obtain ⟨hin, hout⟩ := hsends
          have hsent : ∀ e : Conn, e = (sendChunks d (pushChunks lfile verifyApk)).2 →
              finishSend e mtime = .ok (0, c') → Okay (readable c.input) ∧
              ∃ d' part, Conn.Write.done d = .done d' ∧ c'.output = c.output ++
                  ((sendRequest rpath mode).flatten ++
                    ((sentChunks d'.writes (pushChunks lfile verifyApk)).flatMap dataRecord ++
                      (part ++ syncmsg [ID_DONE, mtime]))) ∧
                (part = [] ∨ ∃ chunk ∈ pushChunks lfile verifyApk, part <+: dataRecord chunk ∧
                  part.length < (dataRecord chunk).length) := by
            intro e he hfinish
            obtain ⟨hin', part, hout', hpart⟩ :=
              sendChunks_output d (pushChunks lfile verifyApk)
            obtain ⟨hfinal, hok⟩ := finishSend_zero hfinish
            rw [he, hin', hin] at hok
            refine ⟨hok, d, part, rfl, ?_, hpart⟩
            rw [hfinal, he, hout', hout]
            simp only [List.append_assoc]
          refine ⟨by omega, ?_⟩
          dsimp only at h
          split at h
          · rename_i hverify
            rw [hverify, if_pos rfl] at hapk
            obtain ⟨file, rfl, rfl⟩ := readApk_ok hapk
            refine hsent _ ?_ h
            rw [writeDataBuffer_eq]
            simp only [pushChunks, if_pos hverify]
          split at h
          · rename_i hverify hreg
            refine hsent _ ?_ h
            unfold writeDataFile pushChunks
            cases lfile with
            | none => rfl
            | some file =>
                simp only [writeDataLoop_eq, if_neg hverify]
          · cases h

end Client

section Streams

variable {stream bytes part chunk : List UInt8} {mtime : UInt32}

theorem toNat_ofWord32 (a b c d : UInt8) : (ofWord32 [a, b, c, d]).toNat =
    a.toNat + 256 * b.toNat + 65536 * c.toNat + 16777216 * d.toNat := by
  have ha := a.toNat_lt
  have hb := b.toNat_lt
  have hc := c.toNat_lt
  have hd := d.toNat_lt
  rw [ofWord32, UInt32.toNat_ofNat']
  simp only [ofLittleEndian]
  omega

theorem exists_word32 (w : UInt32) : ∃ a b c d, word32 w = [a, b, c, d] :=
  ⟨_, _, _, _, rfl⟩

-- Where the header of a record is cut off, the DONE record makes another id of
-- it, or a size that is too large.
theorem cut_header (n mtime : UInt32) (p : Nat) (hpos : 0 < p) (h8 : p < 8) (msg : List UInt8)
    (hmsg : msg = ((syncmsg [ID_DATA, n]).take p ++ syncmsg [ID_DONE, mtime]).take 8) :
    wordAt msg 0 ≠ ID_DONE ∧ (wordAt msg 0 = ID_DATA → SYNC_DATA_MAX < (wordAt msg 1).toNat) := by
  obtain ⟨a, b, c, d, hn⟩ := exists_word32 n
  obtain ⟨e, f, g, k, hm⟩ := exists_word32 mtime
  have hdata : syncmsg [ID_DATA, n] = [68, 65, 84, 65, a, b, c, d] := by
    rw [syncmsg, List.flatMap_cons, List.flatMap_cons, hn]
    rfl
  have hdone : syncmsg [ID_DONE, mtime] = [68, 79, 78, 69, e, f, g, k] := by
    rw [syncmsg, List.flatMap_cons, List.flatMap_cons, hm]
    rfl
  have hother : ∀ (x y z t : UInt8) (more : List UInt8), ofWord32 [x, y, z, t] ≠ ID_DONE →
      ofWord32 [x, y, z, t] ≠ ID_DATA → wordAt (x :: y :: z :: t :: more) 0 ≠ ID_DONE ∧
        (wordAt (x :: y :: z :: t :: more) 0 = ID_DATA →
          SYNC_DATA_MAX < (wordAt (x :: y :: z :: t :: more) 1).toNat) :=
    fun x y z t more hdone hdata => ⟨hdone, fun h => absurd h hdata⟩
  have hlarge : ∀ x y z t : UInt8, 0 < t.toNat → wordAt [68, 65, 84, 65, x, y, z, t] 0 ≠ ID_DONE ∧
      (wordAt [68, 65, 84, 65, x, y, z, t] 0 = ID_DATA →
        SYNC_DATA_MAX < (wordAt [68, 65, 84, 65, x, y, z, t] 1).toNat) := by
    intro x y z t ht
    have hid : wordAt [68, 65, 84, 65, x, y, z, t] 0 = ofWord32 [68, 65, 84, 65] := rfl
    have hword : wordAt [68, 65, 84, 65, x, y, z, t] 1 = ofWord32 [x, y, z, t] := rfl
    rw [hid, hword, toNat_ofWord32, SYNC_DATA_MAX]
    exact ⟨by decide, fun _ => by omega⟩
  rw [hdata, hdone] at hmsg
  subst hmsg
  have hp : p = 1 ∨ p = 2 ∨ p = 3 ∨ p = 4 ∨ p = 5 ∨ p = 6 ∨ p = 7 := by omega
  rcases hp with rfl | rfl | rfl | rfl | rfl | rfl | rfl
  · exact hother 68 68 79 78 [69, e, f, g] (by decide) (by decide)
  · exact hother 68 65 68 79 [78, 69, e, f] (by decide) (by decide)
  · exact hother 68 65 84 68 [79, 78, 69, e] (by decide) (by decide)
  · exact hlarge 68 79 78 69 (by decide)
  · exact hlarge a 68 79 78 (by decide)
  · exact hlarge a b 68 79 (by decide)
  · exact hlarge a b c 68 (by decide)

-- A record that is cut off and a DONE record behind it are no such stream.
theorem not_records_cut (hmax : chunk.length ≤ SYNC_DATA_MAX) (hpart : part <+: dataRecord chunk)
    (hlt : part.length < (dataRecord chunk).length) (hne : part ≠ [])
    (hp : stream <+: part ++ syncmsg [ID_DONE, mtime]) : ¬Records stream bytes := by
  intro h
  rw [length_dataRecord] at hlt
  have hpos := List.length_pos_of_ne_nil hne
  have hheader : (syncmsg [ID_DATA, UInt32.ofNat chunk.length]).length = 8 := by simp
  have htake := List.prefix_iff_eq_take.mp hpart
  rw [dataRecord, List.take_append, hheader] at htake
  by_cases h8 : 8 ≤ part.length
  · rw [List.take_of_length_le (by omega)] at htake
    rw [htake, List.append_assoc] at hp
    obtain ⟨hid, -⟩ | ⟨-, payload, rest, more, hlen, -, ht, -, hrest⟩ := h.header hp
    · exact absurd hid (by decide)
    · have hn := toNat_chunk hmax
      have hle := ht.length_le
      have hrest8 := hrest.length
      simp only [List.length_append, List.length_take, length_syncmsg, List.length_cons,
        List.length_nil] at hle
      omega
  · have hzero : part.length - 8 = 0 := by omega
    rw [hzero, List.take_zero, List.append_nil] at htake
    have hmsg : ∀ msg rest : List UInt8, msg.length = 8 → stream = msg ++ rest →
        msg = ((syncmsg [ID_DATA, UInt32.ofNat chunk.length]).take part.length ++
          syncmsg [ID_DONE, mtime]).take 8 := by
      intro msg rest hlen hs
      obtain ⟨u, hu⟩ := hp
      rw [← htake, ← hu, hs, List.append_assoc, List.take_left' hlen]
    cases h with
    | done msg rest hlen hid =>
        exact (cut_header _ _ _ hpos (by omega) msg (hmsg msg rest hlen rfl)).1 hid
    | data msg payload rest more hlen hid hsize hle _ =>
        have hlarge := (cut_header _ _ _ hpos (by omega) msg (hmsg msg _ hlen rfl)).2 hid
        omega

theorem records_sent (sent : List (List UInt8)) (hsent : ∀ chunk ∈ sent, chunk.length ≤ SYNC_DATA_MAX)
    (hpart : part = [] ∨ ∃ chunk : List UInt8, chunk.length ≤ SYNC_DATA_MAX ∧
      part <+: dataRecord chunk ∧ part.length < (dataRecord chunk).length)
    (hp : stream <+: sent.flatMap dataRecord ++ (part ++ syncmsg [ID_DONE, mtime]))
    (h : Records stream bytes) : bytes = sent.flatten := by
  induction sent generalizing stream bytes with
  | nil =>
      rw [List.flatMap_nil, List.nil_append] at hp
      by_cases hne : part = []
      · rw [hne, List.nil_append] at hp
        obtain ⟨-, hbytes⟩ | ⟨hid, -⟩ :=
          h.header (show stream <+: syncmsg [ID_DONE, mtime] ++ [] by rwa [List.append_nil])
        · exact hbytes
        · exact absurd hid (by decide)
      · obtain ⟨chunk, hmax, hpre, hlt⟩ := hpart.resolve_left hne
        exact absurd h (not_records_cut hmax hpre hlt hne hp)
  | cons chunk more ih =>
      rw [List.flatMap_cons, List.append_assoc] at hp
      obtain ⟨rest, others, hbytes, hrest, hrecords, -⟩ :=
        h.of_data (hsent chunk (List.mem_cons_self ..)) hp
      rw [hbytes, List.flatten_cons,
        ih (fun k hk => hsent k (List.mem_cons_of_mem _ hk)) hrest hrecords]

end Streams

section Names

theorem not_comma_printInt (i : Int) : ∀ c ∈ printInt i, c ≠ 44 := by
  intro c hc
  obtain rfl | ⟨d, rfl⟩ := mem_printInt hc
  · decide
  · have hdigit : ∀ d : Fin 10, UInt8.ofNat (48 + d.val) ≠ 44 := by decide
    exact hdigit d

-- The last comma is the one that sync_send puts in.
theorem splitLast_comma (path suffix : List UInt8) (h : ∀ c ∈ suffix, c ≠ 44) :
    splitLast (path ++ 44 :: suffix) = some (path, suffix) := by
  have htail : (path ++ 44 :: suffix).reverse.takeWhile (· ≠ 44) = suffix.reverse := by
    have hcomma : (44 : UInt8) ∉ suffix.reverse := fun hm => h 44 (List.mem_reverse.mp hm) rfl
    rw [List.reverse_append, List.reverse_cons, List.append_assoc]
    exact takeWhile_until hcomma _
  have hlen : (path ++ 44 :: suffix).length = path.length + (suffix.length + 1) := by simp
  unfold splitLast
  simp only [htail, List.length_reverse, hlen]
  rw [if_neg (by omega), show path.length + (suffix.length + 1) - suffix.length - 1 = path.length by omega,
    List.take_left, List.reverse_reverse]

theorem sendTarget_path (rpath : List UInt8) (mode : UInt32) :
    (sendTarget (rpath ++ modeSuffix mode)).1 = rpath := by
  have hsplit := splitLast_comma rpath (printInt (asInt mode)) (not_comma_printInt _)
  simp only [sendTarget, modeSuffix, hsplit]

theorem length_modeSuffix (mode : UInt32) : (modeSuffix mode).length ≤ 12 := by
  have hlen := length_printInt_le (asInt mode)
  rw [modeSuffix, List.length_cons]
  omega

theorem isText_modeSuffix (mode : UInt32) : IsText (modeSuffix mode) :=
  isText_cons.mpr ⟨by decide, isText_printInt _⟩

end Names

section Device

variable {dev : Device} {tail : List UInt8}

theorem oldData_setConn (c : Conn) (path : List UInt8) :
    oldData ((dev.setConn c).adbUnlink path) path = oldData (dev.adbUnlink path) path := by
  have hunlinks : (dev.setConn c).unlinks = dev.unlinks := rfl
  simp only [Device.adbUnlink, Device.nextUnlink, hunlinks]
  cases dev.unlinks.headD none <;> rfl

theorem doSend_okay (dev : Device) (name : List UInt8) :
    ∃ out, (doSend dev name).2.conn.output = dev.conn.output ++ out ∧
      (Okay out → ∃ bytes file, Records (readable dev.conn.input) bytes ∧
        (doSend dev name).2.files (sendTarget name).1 = some file ∧ file.data = Device.putAt
          (oldData (dev.adbUnlink (sendTarget name).1) (sendTarget name).1) 0 bytes) := by
  have hfile := handleSendFile_okay (dev.adbUnlink (sendTarget name).1) (sendTarget name).1
  simp only [adbUnlink_conn] at hfile
  exact hfile _

theorem answers_refusal (dev : Device) (c : Conn) (text : List UInt8) (hc : c.output = dev.conn.output) :
    ∃ out, (failMessage (dev.setConn c) text).2.conn.output = dev.conn.output ++ out ∧ ¬Okay out := by
  obtain ⟨out, hout, hfail⟩ := failMessage_output (dev.setConn c) text
  refine ⟨out, hout.trans (by rw [← hc]; rfl), ?_⟩
  exact not_okay_fail text [] (by rwa [List.append_nil])

-- What file_sync_service does with a SEND request of which all or a part comes.
theorem serveRequest_okay (name : Text) (hname : name.val.length < 4294967296)
    (hp : readable dev.conn.input <+:
      syncmsg [ID_SEND, UInt32.ofNat name.val.length] ++ (name.val ++ tail)) :
    ∃ out, (serveRequest dev).2.conn.output = dev.conn.output ++ out ∧
      (Okay out → ∃ rest bytes file, rest <+: tail ∧ Records rest bytes ∧
        (serveRequest dev).2.files (sendTarget name).1 = some file ∧
          file.data = Device.putAt
            (oldData (dev.adbUnlink (sendTarget name).1) (sendTarget name).1) 0 bytes) := by
  have hheader : (syncmsg [ID_SEND, UInt32.ofNat name.val.length]).length = 8 := by simp
  have hid : wordAt (syncmsg [ID_SEND, UInt32.ofNat name.val.length]) 0 = ID_SEND :=
    wordAt_self _ 0 (by simp)
  have hlen : wordAt (syncmsg [ID_SEND, UInt32.ofNat name.val.length]) 1 =
      UInt32.ofNat name.val.length := wordAt_self _ 1 (by simp)
  have hnat : (UInt32.ofNat name.val.length).toNat = name.val.length :=
    UInt32.toNat_ofNat_of_lt' (show name.val.length < 2 ^ 32 by omega)
  obtain ⟨u, hu⟩ := hp
  unfold serveRequest
  obtain ⟨input, he, hin, h8⟩ | ⟨input, he, -⟩ := dev.conn.readx_cases 8
  case inr =>
    rw [he]
    obtain ⟨out, hout, hno⟩ :=
      answers_refusal dev { dev.conn with input } (reason "command read failure") rfl
    exact ⟨out, hout, fun h => absurd h hno⟩
  have hmsg : (readable dev.conn.input).take 8 =
      syncmsg [ID_SEND, UInt32.ofNat name.val.length] := by
    have htake := congrArg (List.take 8) hu
    rwa [List.take_append_of_le_length h8, List.take_left' hheader] at htake
  have hrest : readable input ++ u = name.val ++ tail := by
    have hdrop := congrArg (List.drop 8) hu
    rwa [List.drop_append_of_le_length h8, ← hin, List.drop_left' hheader] at hdrop
  rw [he, hmsg]
  simp only [hid, hlen, hnat]
  split
  · obtain ⟨out, hout, hno⟩ :=
      answers_refusal dev { dev.conn with input } (reason "invalid namelen") rfl
    exact ⟨out, hout, fun h => absurd h hno⟩
  obtain ⟨input', he', hin', hle⟩ | ⟨input', he', -⟩ :=
    Conn.readx_cases { dev.conn with input } name.val.length
  case inr =>
    rw [he']
    obtain ⟨out, hout, hno⟩ := answers_refusal dev { dev.conn with input := input' }
      (reason "filename read failure") rfl
    exact ⟨out, hout, fun h => absurd h hno⟩
  dsimp only at hin' hle
  have hname' : (readable input).take name.val.length = name.val := by
    have htake := congrArg (List.take name.val.length) hrest
    rwa [List.take_append_of_le_length hle, List.take_left' rfl] at htake
  have htail : readable input' <+: tail := by
    have hdrop := congrArg (List.drop name.val.length) hrest
    rw [List.drop_append_of_le_length hle, ← hin', List.drop_left' rfl] at hdrop
    exact ⟨u, hdrop⟩
  rw [he']
  simp only [hname', textOf, name.property.takeWhile_ne]
  have hsend : serve (dev.setConn { dev.conn with input := input' }) ID_SEND name =
      doSend (dev.setConn { dev.conn with input := input' }) name := by
    rw [serve, if_neg (by decide), if_neg (by decide), if_pos rfl]
  rw [hsend]
  obtain ⟨out, hout, hok⟩ := doSend_okay (dev.setConn { dev.conn with input := input' }) name
  refine ⟨out, hout, fun h => ?_⟩
  obtain ⟨bytes, file, hrecords, hfile, hdata⟩ := hok h
  rw [oldData_setConn] at hdata
  exact ⟨readable input', bytes, file, htail, hrecords, hfile, hdata⟩

end Device

-- The bytes of the local file that go out in whole records.
def pushed (c : Conn) (lfile : Option LocalFile) (rpath : List UInt8) (mode : UInt32)
    (verifyApk : Bool) : List UInt8 :=
  match c.writeAll (sendRequest rpath mode) with
  | .failed _ => []
  | .done d => (sentChunks d.writes (pushChunks lfile verifyApk)).flatten

-- What is missing of the local file is what the file of the device already has
-- in its place: nothing, where sync_send has sent it all to a file that is new.
def NothingMissing (content sent old : List UInt8) : Prop :=
  content.drop sent.length = old.drop sent.length

instance (content sent old : List UInt8) : Decidable (NothingMissing content sent old) :=
  inferInstanceAs (Decidable (_ = _))

-- What comes to the device is a part, from the start on, of what the client has
-- written since, and the other way round.
def ToDevice (c c' : Conn) (dev : Device) : Prop :=
  ∃ sent, c'.output = c.output ++ sent ∧ readable dev.conn.input <+: sent

def ToClient (dev : Device) (c : Conn) : Prop :=
  ∃ answer, (serveRequest dev).2.conn.output = dev.conn.output ++ answer ∧
    readable c.input <+: answer

section Pushing

variable {apk : ApkCheck} {c c' : Conn} {lfile : Option LocalFile} {mtime mode : UInt32}
  {verifyApk : Bool} {dev : Device}

theorem Okay.mono {out more : List UInt8} (h : Okay out) (hp : out <+: more) : Okay more :=
  ⟨Nat.le_trans h.1 hp.length_le, (prefix_wordAt hp (Nat.le_trans (by omega) h.1)).trans h.2⟩

theorem putAt_eq_iff {content sent old : List UInt8} (hp : sent <+: content) :
    Device.putAt old 0 sent = content ↔ NothingMissing content sent old := by
  obtain ⟨missing, rfl⟩ := hp
  rw [NothingMissing, List.drop_left, Device.putAt, List.take_zero, List.nil_append, Nat.zero_add,
    List.append_cancel_left_eq, eq_comm]

-- A push that returns 0 leaves the whole of the local file on the device exactly
-- when nothing of it is missing.
theorem push_faithful_iff (rpath : Text) (content : List UInt8)
    (hfile : ∀ file, lfile = some file → file.data = content)
    (hsend : syncSend apk c lfile rpath mtime mode verifyApk = .ok (0, c'))
    (hdevice : ToDevice c c' dev) (hclient : ToClient dev c) :
    (∃ file, (serveRequest dev).2.files rpath = some file ∧ file.data = content) ↔
      NothingMissing content (pushed c lfile rpath mode verifyApk)
        (oldData (dev.adbUnlink rpath) rpath) := by
  obtain ⟨hlen, hokay, d, part, hw, hout, hpart⟩ := syncSend_zero hsend
  obtain ⟨hcontent, hmax⟩ := prefix_pushChunks verifyApk hfile
  have hpushed : pushed c lfile rpath mode verifyApk =
      (sentChunks d.writes (pushChunks lfile verifyApk)).flatten := by
    rw [pushed, hw]
  obtain ⟨sent, hsent, hto⟩ := hdevice
  have hsent' := List.append_cancel_left (hsent.symm.trans hout)
  have htext : IsText (rpath.val ++ modeSuffix mode) :=
    isText_append.mpr ⟨rpath.property, isText_modeSuffix mode⟩
  have hsuffix := length_modeSuffix mode
  have hrequest : readable dev.conn.input <+:
      syncmsg [ID_SEND, UInt32.ofNat (rpath.val ++ modeSuffix mode).length] ++
        ((rpath.val ++ modeSuffix mode) ++
          ((sentChunks d.writes (pushChunks lfile verifyApk)).flatMap dataRecord ++
            (part ++ syncmsg [ID_DONE, mtime]))) := by
    rw [hsent'] at hto
    simpa [sendRequest] using hto
  obtain ⟨out, hserved, hok⟩ := serveRequest_okay ⟨rpath.val ++ modeSuffix mode, htext⟩
    (by rw [List.length_append]; omega) hrequest
  obtain ⟨answer, hanswer, hfrom⟩ := hclient
  have hsame := List.append_cancel_left (hserved.symm.trans hanswer)
  obtain ⟨rest, bytes, file, hrest, hrecords, hf, hd⟩ := hok (hsame ▸ hokay.mono hfrom)
  have hbytes : bytes = (sentChunks d.writes (pushChunks lfile verifyApk)).flatten := by
    apply records_sent _ _ _ hrest hrecords
    · intro chunk hchunk
      exact hmax chunk ((prefix_sentChunks d.writes _).subset hchunk)
    · refine hpart.imp_right ?_
      rintro ⟨chunk, hchunk, hpre, hlt⟩
      exact ⟨chunk, hmax chunk hchunk, hpre, hlt⟩
  have hsub : (sentChunks d.writes (pushChunks lfile verifyApk)).flatten <+: content := by
    obtain ⟨more, hmore⟩ := prefix_sentChunks d.writes (pushChunks lfile verifyApk)
    rw [← hmore, List.flatten_append] at hcontent
    exact (List.prefix_append _ _).trans hcontent
  dsimp only at hf hd
  rw [sendTarget_path] at hf hd
  rw [hpushed, ← putAt_eq_iff hsub, ← hbytes, ← hd]
  constructor
  · rintro ⟨other, hother, hdata⟩
    rwa [← Option.some.inj (hf.symm.trans hother)] at hdata
  · intro hdata
    exact ⟨file, hf, hdata⟩

end Pushing

-- A file of three bytes that is pushed to the path a, a device on which there is
-- nothing, and what goes over the connection if these bytes of it are read.
def threeBytes (pattern : List (CallOutcome Errno)) : LocalFile := ⟨[1, 2, 3], pattern⟩

def anyApk : ApkCheck := ⟨true, true, fun _ => true, fun _ => true⟩

def pushed97 (bytes : List UInt8) : List UInt8 :=
  syncmsg [ID_SEND, 7] ++ [97, 44, 51, 51, 49, 56, 56] ++ dataRecord bytes ++ syncmsg [ID_DONE, 0]

def answered : Conn := ⟨segmentOf (syncmsg [ID_OKAY, 0]), [], [], false⟩

def emptyDevice (input : List UInt8) : Device where
  conn := ⟨segmentOf input, [], [], false⟩
  files := fun _ => none
  opens := []
  unlinks := []
  writes := []
  reads := []
  opendir := fun _ => none
  lstat := fun _ => none
  strerror := fun _ => []

theorem push_of_three_bytes : ∃ file,
    (serveRequest (emptyDevice (pushed97 [1, 2, 3]))).2.files [97] = some file ∧
      file.data = [1, 2, 3] := by
  refine (@push_faithful_iff anyApk answered { answered with input := [], output := pushed97 [1, 2, 3] }
    (some (threeBytes [.interrupted])) 0 33188 false (emptyDevice (pushed97 [1, 2, 3]))
    ⟨[97], by decide⟩ [1, 2, 3] (by simp [threeBytes]) (by decide +kernel)
    ⟨pushed97 [1, 2, 3], rfl, List.prefix_rfl⟩ ⟨syncmsg [ID_OKAY, 0], ?_, List.prefix_rfl⟩).mpr ?_
  · decide +kernel
  · decide +kernel

-- The second read of the file fails.
theorem push_of_one_byte_of_three : ∃ c',
    syncSend anyApk answered (some (threeBytes [.moved 0, .failed (.other 5)])) [97] 0 33188 false =
        .ok (0, c') ∧
      ToDevice answered c' (emptyDevice (pushed97 [1])) ∧
      ToClient (emptyDevice (pushed97 [1])) answered ∧
      ∃ file, (serveRequest (emptyDevice (pushed97 [1]))).2.files [97] = some file ∧
        file.data ≠ (threeBytes []).data := by
  have hfile : (serveRequest (emptyDevice (pushed97 [1]))).2.files [97] =
      some ⟨0o666, 0, [1]⟩ := by
    decide +kernel
  have hanswer : (serveRequest (emptyDevice (pushed97 [1]))).2.conn.output =
      syncmsg [ID_OKAY, 0] := by
    decide +kernel
  exact ⟨{ answered with input := [], output := pushed97 [1] }, by decide +kernel,
    ⟨pushed97 [1], rfl, List.prefix_rfl⟩, ⟨syncmsg [ID_OKAY, 0], hanswer, List.prefix_rfl⟩,
    ⟨0o666, 0, [1]⟩, hfile, by decide⟩

end Adb.Sync
