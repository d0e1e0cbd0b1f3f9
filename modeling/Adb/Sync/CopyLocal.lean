import Adb.Sync.Asking
import Adb.Sync.LocalTree

namespace Adb.Sync

open Adb.Lib Adb.Lib.Speaker

-- What comes to each side is a part, from the start on, of what the other writes.
structure Connected (c c' : Conn) (dev : Device) : Prop where
  toDevice : ToDevice c c' dev
  toClient : ∃ said, (fileSyncService dev).conn.output = dev.conn.output ++ said ∧
    readable c.input <+: said

section Files

variable {lfd : Input}

theorem adbRead_turns {rest : Input} {bytes : List UInt8} {len : Nat} (hlen : 0 < len)
    (h : adbRead lfd len = .got bytes rest) (hne : bytes ≠ []) : turns rest < turns lfd := by
  cases lfd with
  | nil =>
      cases h
      contradiction
  | cons segment more =>
      cases segment with
      | data first others =>
          cases h
          obtain ⟨len, rfl⟩ := Nat.exists_eq_succ_of_ne_zero (Nat.ne_of_gt hlen)
          rw [List.drop_succ_cons]
          cases hdrop : others.drop len with
          | nil =>
              simp only [segmentOf, List.nil_append, turns]
              omega
          | cons next later =>
              have hcount := congrArg List.length hdrop
              rw [List.length_drop, List.length_cons] at hcount
              simp only [segmentOf, List.cons_append, List.nil_append, turns]
              omega
      | interrupted => cases h
      | failed e => cases h

-- The reads of a file of which none fails.
theorem adbRead_sound {rest : Input} {bytes : List UInt8} {len : Nat}
    (hread : adbRead lfd len = .got bytes rest)
    (h : ∀ e, Segment.failed e ∉ lfd) : ∀ e, Segment.failed e ∉ rest := by
  intro e hm
  cases lfd with
  | nil =>
      cases hread
      cases hm
  | cons segment more =>
      cases segment with
      | data first others =>
          cases hread
          obtain hm | hm := List.mem_append.mp hm
          · cases hdrop : (first :: others).drop len <;> simp [hdrop, segmentOf] at hm
          · exact h e (List.mem_cons_of_mem _ hm)
      | interrupted => cases hread
      | failed e => cases hread

theorem interrupted_sound {rest : Input} {len fuel : Nat}
    (hread : adbRead lfd len = .interrupted rest)
    (hfuel : turns lfd ≤ fuel + 1) (h : ∀ e, Segment.failed e ∉ lfd) :
    turns rest ≤ fuel ∧ ∀ e, Segment.failed e ∉ rest := by
  cases lfd with
  | nil => cases hread
  | cons segment more =>
      cases segment with
      | data first others => cases hread
      | interrupted =>
          cases hread
          simp only [turns] at hfuel
          exact ⟨by omega, fun e hm => h e (List.mem_cons_of_mem _ hm)⟩
      | failed e => cases hread

theorem adbRead_not_failed {rest : Input} {len : Nat} {e : Errno}
    (h : ∀ e, Segment.failed e ∉ lfd) :
    adbRead lfd len ≠ .failed e rest := by
  intro hread
  cases lfd with
  | nil => cases hread
  | cons segment more =>
      cases segment with
      | data first others => cases hread
      | interrupted => cases hread
      | failed e => exact h e (List.mem_cons_self ..)

theorem turns_pos (lfd : Input) : 0 < turns lfd := by
  cases lfd with
  | nil => simp [turns]
  | cons segment more => cases segment <;> simp only [turns] <;> omega

-- A file of which no read fails is read to its end.
theorem chunksRead_flatten {fuel : Nat} (hfuel : turns lfd ≤ fuel)
    (h : ∀ e, Segment.failed e ∉ lfd) :
    (chunksRead fuel lfd).flatten = stored lfd := by
  induction fuel generalizing lfd with
  | zero => exact absurd hfuel (Nat.not_le_of_gt (turns_pos lfd))
  | succ fuel ih =>
      rw [chunksRead]
      cases hread : adbRead lfd SYNC_DATA_MAX with
      | got bytes rest =>
          obtain ⟨hstored, -⟩ := adbRead_got hread
          dsimp only
          split
          · rename_i hzero
            obtain rfl := List.length_eq_zero_iff.mp hzero
            rw [adbRead_end hread (by simp [SYNC_DATA_MAX])]
            rfl
          · rename_i hsome
            have hturns := adbRead_turns (by simp [SYNC_DATA_MAX]) hread
              (fun hnil => hsome (by rw [hnil]; rfl))
            rw [List.flatten_cons, ih (by omega) (adbRead_sound hread h), hstored]
      | interrupted rest =>
          have hnext := interrupted_sound hread hfuel h
          rw [adbRead_interrupted hread]
          exact ih hnext.1 hnext.2
      | failed e rest => exact absurd hread (adbRead_not_failed h)

theorem not_failed_cut (data : List UInt8) {pattern : List (CallOutcome Errno)}
    (h : Healthy pattern) :
    ∀ e, Segment.failed e ∉ (cut data pattern : Input) := by
  have hsegment : ∀ (text : List UInt8) e, Segment.failed e ∉ (segmentOf text : Input) := by
    intro text e hm
    cases text <;> simp [segmentOf] at hm
  induction pattern generalizing data with
  | nil => exact hsegment data
  | cons outcome pattern ih =>
      intro e hm
      cases outcome with
      | moved k =>
          obtain hm | hm := List.mem_append.mp hm
          · exact hsegment _ e hm
          · exact ih _ h.tail e hm
      | interrupted =>
          obtain hm | hm := List.mem_cons.mp hm
          · cases hm
          · exact ih _ h.tail e hm
      | failed e' => exact h e' (List.mem_cons_self ..)

end Files

section Copy

variable {κ : Type} {fs : LocalFs κ} {cwd : κ} {dev : Device} {c c' : Conn} {files : List CopyInfo}

variable (fs) in
-- What is sent of a local file; of one that cannot be opened, nothing.
def localData (cwd : κ) (path : List UInt8) : List UInt8 :=
  ((fs.file cwd path).map LocalFile.data).getD []

variable (fs) in
def Readable : Prop := ∀ cwd path file, fs.file cwd path = some file → Healthy file.pattern

theorem pushChunks_flatten (h : Readable fs) (cwd : κ) (path : List UInt8) :
    (pushChunks (fs.file cwd path) false).flatten = localData fs cwd path := by
  unfold pushChunks localData
  cases hfile : fs.file cwd path with
  | none => rfl
  | some file =>
      have hread :=
        chunksRead_flatten (Nat.le_refl _) (not_failed_cut file.data (h cwd path file hfile))
      rw [stored_cut] at hread
      simpa using hread

variable (fs) in
-- A file that is sent is new on the device, with the mode, the time and the data
-- of the local one.
def putFile (cwd : κ) (store : List UInt8 → Option File) (ci : CopyInfo) :
    List UInt8 → Option File :=
  Function.update store ci.dst
    (some ⟨pushedMode ci.dst ci.mode, ci.time.toNat, localData fs cwd ci.src⟩)

theorem hears_service (hconn : Connected c c' dev) :
    service.Hears ((stored dev.conn.input).length + 1) dev (readable c.input) := by
  obtain ⟨said, hsaid, hp⟩ := hconn.toClient
  unfold Speaker.Hears
  rw [← serviceLoop_eq]
  have hout : (serviceLoop ((stored dev.conn.input).length + 1) dev).conn.output =
      dev.conn.output ++ said := hsaid
  show dev.conn.output ++ readable c.input <+: (serviceLoop _ dev).conn.output
  rw [hout]
  exact (List.prefix_append_right_inj _).mpr hp

theorem fileSyncService_files (dev : Device) :
    (fileSyncService dev).files =
      (service.turns ((stored dev.conn.input).length + 1) dev).files := by
  rw [← serviceLoop_eq]
  rfl

theorem syncQuit_output (c : Conn) :
    ∃ part, (syncQuit c).output = c.output ++ part ∧ part <+: syncmsg [ID_QUIT, 0] := by
  have hsends := c.writex_sends (syncmsg [ID_QUIT, 0])
  unfold syncQuit
  cases hw : c.writex (syncmsg [ID_QUIT, 0]) with
  | done d =>
      rw [hw] at hsends
      exact ⟨_, hsends.2, List.prefix_rfl⟩
  | failed d =>
      rw [hw] at hsends
      obtain ⟨-, part, hout, hp, -⟩ := hsends
      exact ⟨part, hout, hp⟩

theorem failMessage_files (dev : Device) (text : List UInt8) :
    (failMessage dev text).2.files = dev.files := by
  obtain ⟨c, he, -⟩ | ⟨c, part, he, -⟩ := failMessage_cases dev text <;> rw [he] <;> rfl

-- QUIT, or what comes of it, leaves the files alone and ends the service.
theorem turns_quit (n : Nat) (h : readable dev.conn.input <+: syncmsg [ID_QUIT, 0]) :
    (service.turns n dev).files = dev.files := by
  cases n with
  | zero => rfl
  | succ n =>
      have hturn : service.turn dev = serveRequest dev := rfl
      have hstop : (serveRequest dev).1 = false ∧ (serveRequest dev).2.files = dev.files := by
        have h0 : wordAt (syncmsg [ID_QUIT, 0]) 0 = ID_QUIT := wordAt_self _ 0 (by simp)
        have h1 : wordAt (syncmsg [ID_QUIT, 0]) 1 = 0 := wordAt_self _ 1 (by simp)
        unfold serveRequest
        rw [← List.append_nil (syncmsg [ID_QUIT, 0])] at h
        obtain ⟨input, he, hrest⟩ | ⟨bytes, input, he⟩ := Conn.readx_first 8 h (by simp)
        · rw [he]
          simp only [h0, h1]
          rw [if_neg (by decide)]
          rw [← List.nil_append []] at hrest
          obtain ⟨input', he', -⟩ | ⟨bytes, input', he'⟩ :=
            Conn.readx_first (c := { dev.conn with input }) (0 : UInt32).toNat hrest rfl
          · rw [he']
            have hquit : ∀ d name, serve d ID_QUIT name = (-1, d) := by
              intro d name
              rw [serve, if_neg (by decide), if_neg (by decide), if_neg (by decide),
                if_neg (by decide), if_pos rfl]
            simp only [hquit]
            exact ⟨by decide, rfl⟩
          · rw [he']
            exact ⟨rfl, failMessage_files _ _⟩
        · rw [he]
          exact ⟨rfl, failMessage_files _ _⟩
      rw [Speaker.turns, hturn]
      cases hserve : serveRequest dev with
      | mk more after =>
          rw [hserve] at hstop
          obtain ⟨rfl, hfiles⟩ := hstop
          exact hfiles

theorem RemoteStat.answer_inj {st st' : RemoteStat} (h : st.answer = st'.answer) : st = st' := by
  cases st
  cases st'
  simpa [RemoteStat.answer] using h

end Copy

section Sync

variable {κ : Type} {fs : LocalFs κ} {cwd : κ} {dev : Device} {c c' : Conn} {apk : ApkCheck}
  {lpath : List UInt8} {rpath : Text} {listonly : Bool}

theorem isText_slashed (path : Text) : IsText (slashed path) := by
  unfold slashed
  split
  · exact path.property
  · exact isText_append.mpr ⟨path.property, by decide⟩

theorem length_slashed (path : List UInt8) : (slashed path).length ≤ path.length + 1 := by
  unfold slashed
  split <;> simp

-- What the walk finds can be asked for.
theorem LocalEntry.fair {lroot : List UInt8} {ci : CopyInfo} (hlong : rpath.val.length < 2147483648)
    (h : LocalEntry lroot (slashed rpath) ci) : IsText ci.dst ∧ (statOf ci).Fair := by
  obtain ⟨rest, htext, hsrc, hdst⟩ := h.under
  have hshort := h.short
  have hslash := length_slashed rpath
  have hdstText : IsText ci.dst := by
    rw [hdst]
    exact isText_append.mpr ⟨isText_slashed rpath, htext⟩
  refine ⟨hdstText, trivial, ?_⟩
  show (asText ci.dst).val.length < 4294967296
  rw [asText_val hdstText, hdst, List.length_append]
  rw [hsrc, List.length_append, MAX_PATH] at hshort
  omega

end Sync

theorem isText_dot : IsText [46] := by decide

theorem isText_a : IsText [97] := by decide

-- One file a of two bytes in the directory l of a host; the device has nothing.
def hostWithFile : LocalFs Unit where
  chdir _ _ := some ()
  names _ := [⟨[46], isText_dot⟩, ⟨[97], isText_a⟩]
  stat _ path := if path = [108, 47, 97] then some ⟨33188, 2, 7⟩ else none
  file _ path := if path = [108, 47, 97] then some ⟨[5, 6], [.moved 0, .interrupted]⟩ else none

theorem hostWithFile_readable : Readable hostWithFile := by
  intro cwd path file h
  simp only [hostWithFile] at h
  split at h
  · cases h
    simp [Healthy]
  · cases h

def client (answers : List UInt8) : Conn := ⟨segmentOf answers, [.moved 3, .interrupted], [], false⟩

section Push

variable {κ : Type} {fs : LocalFs κ} {cwd : κ} {dev : Device} {c c' : Conn} {apk : ApkCheck}
  {lpath rpath : Text} {verifyApk : Bool}

theorem syncReadmode_takes {path : Text} {mode : UInt32} (hc : Healthy c.writes)
    (h : syncReadmode c path = (some mode, c')) :
    ∃ st : RemoteStat, mode = st.mode ∧ Healthy c'.writes ∧
      c'.output = c.output ++ (Request.stat path).bytes ∧
      Takes (.stat path) (readable c.input) st.answer (readable c'.input) := by
  obtain ⟨writes, hstart, hw⟩ := syncStartReadtime_healthy hc path.property
  have hpath : asText path.val = path := Subtype.ext (asText_val path.property)
  rw [hpath] at hstart
  unfold syncReadmode at h
  rw [hstart] at h
  have hmode : ((syncFinishReadtime (c.sent (Request.stat path).bytes writes)).1.map
      RemoteStat.mode, (syncFinishReadtime (c.sent (Request.stat path).bytes writes)).2) =
      (some mode, c') := h
  clear h
  cases hfinish : syncFinishReadtime (c.sent (Request.stat path).bytes writes) with
  | mk found d =>
      rw [hfinish] at hmode
      cases found with
      | none => cases hmode
      | some st =>
          cases hmode
          obtain ⟨hin, hout, hwrites⟩ := syncFinishReadtime_takes hfinish
          refine ⟨st, rfl, by rw [hwrites]; exact hw, hout, ?_⟩
          have hsame : readable c.input =
              syncmsg [ID_STAT, st.mode, st.size, st.time] ++ readable d.input := hin
          rw [hsame]
          exact .stat ..

-- The buffer goes out whole.
theorem bufferChunks_flatten {fuel : Nat} {bytes : List UInt8} (h : bytes.length ≤ fuel) :
    (bufferChunks fuel bytes).flatten = bytes := by
  induction fuel generalizing bytes with
  | zero =>
      rw [List.length_eq_zero_iff.mp (Nat.le_zero.mp h)]
      rfl
  | succ fuel ih =>
      rw [bufferChunks]
      split
      · rename_i hpos
        rw [List.flatten_cons, ih (by rw [List.length_drop, SYNC_DATA_MAX]; omega),
          List.take_append_drop]
      · rename_i hzero
        have hnil : bytes = [] := List.length_eq_zero_iff.mp (by omega)
        rw [hnil]
        rfl

theorem pushed_flatten (hreads : Readable fs) (path : List UInt8) (verifyApk : Bool) :
    (pushChunks (fs.file cwd path) verifyApk).flatten = localData fs cwd path := by
  cases verifyApk with
  | false => exact pushChunks_flatten hreads cwd path
  | true =>
      unfold pushChunks localData
      cases fs.file cwd path with
      | none => rfl
      | some file => exact bufferChunks_flatten (Nat.le_refl _)

theorem isText_lastName (path : Text) : IsText (lastName path) := by
  unfold lastName
  split
  · exact path.property
  · exact fun hm => path.property (List.mem_of_mem_drop hm)

theorem isText_pushTarget (lpath rpath : Text) (mode : UInt32) :
    IsText (pushTarget lpath rpath mode) := by
  unfold pushTarget
  split
  · exact isText_append.mpr ⟨rpath.property, isText_cons.mpr ⟨by decide, isText_lastName lpath⟩⟩
  · exact rpath.property

-- What has happened when do_sync_push returns 0 for a file.
theorem doSyncPush_zero {st : Stat} (hst : fs.stat cwd lpath = some st)
    (hfile : isType (statMode st) S_IFDIR = false)
    (h : doSyncPush fs apk cwd (some c) lpath rpath verifyApk = .ok (0, some c')) :
    ∃ mode d e, syncReadmode c rpath = (some mode, d) ∧
      syncSend apk d (fs.file cwd lpath) (pushTarget lpath rpath mode) (UInt32.ofInt st.mtime)
        (statMode st)
        verifyApk = .ok (0, e) ∧ c' = syncQuit e := by
  unfold doSyncPush at h
  dsimp only at h
  rw [hst] at h
  dsimp only at h
  rw [hfile] at h
  rw [if_neg Bool.false_ne_true] at h
  cases hread : syncReadmode c rpath with
  | mk mode d =>
      rw [hread] at h
      cases mode with
      | none => simp at h
      | some mode =>
          dsimp only at h
          cases hsend : syncSend apk d (fs.file cwd lpath) (pushTarget lpath rpath mode)
              (UInt32.ofInt st.mtime) (statMode st) verifyApk with
          | error fault =>
              rw [hsend] at h
              cases h
          | ok result =>
              obtain ⟨code, e⟩ := result
              rw [hsend] at h
              dsimp only at h
              split at h
              · simp at h
              · rename_i hcode
                obtain rfl : code = 0 := not_not.mp hcode
                exact ⟨mode, d, e, rfl, hsend, by simpa using h.symm⟩

-- A push of a file that returns 0 has put the file into the place that the device's
-- answer to STAT leads to, and nothing else has changed there.
theorem push_brings_file {st : Stat} (hreads : Readable fs) (hc : Healthy c.writes)
    (hunlinks : dev.Unlinks)
    (hlong : rpath.val.length < 2147483648) (hst : fs.stat cwd lpath = some st)
    (hfile : isType (statMode st) S_IFDIR = false)
    (hpush : doSyncPush fs apk cwd (some c) lpath rpath verifyApk = .ok (0, some c'))
    (hconn : Connected c c' dev) :
    (fileSyncService dev).files =
      Function.update dev.files (pushTarget lpath rpath (remoteStat dev rpath).mode)
        (some ⟨pushedMode (pushTarget lpath rpath (remoteStat dev rpath).mode) (statMode st),
          (UInt32.ofInt st.mtime).toNat, localData fs cwd lpath⟩) := by
  obtain ⟨mode, d, e, hread, hsend, rfl⟩ := doSyncPush_zero hst hfile hpush
  obtain ⟨answer, rfl, hw, hout, htake⟩ := syncReadmode_takes hc hread
  have htext := isText_pushTarget lpath rpath answer.mode
  obtain ⟨hlen, -, hout', htake'⟩ := syncSend_takes hw htext hsend
  have hhears := hears_service hconn
  obtain ⟨sent, hsent, hin⟩ := hconn.toDevice
  obtain ⟨part, hquit, hpart⟩ := syncQuit_output e
  rw [hquit, hout', hout, List.append_assoc, List.append_assoc] at hsent
  rw [← List.append_cancel_left hsent] at hin
  generalize hq : Request.send (asText (pushTarget lpath rpath answer.mode)) (statMode st)
    (pushChunks (fs.file cwd lpath) verifyApk) (UInt32.ofInt st.mtime) = q at hin htake'
  have hfair : ∀ r ∈ [Request.stat rpath, q], r.Fair := by
    intro r hr
    obtain rfl | hr := List.mem_cons.mp hr
    · exact ⟨trivial, by show rpath.val.length < 4294967296; omega⟩
    · obtain rfl := List.mem_singleton.mp hr
      rw [← hq]
      refine ⟨?_, ?_⟩
      · cases hopen : fs.file cwd lpath with
        | none => simp [Request.Fits, pushChunks]
        | some file => exact (prefix_pushChunks verifyApk (by rintro _ ⟨⟩; rfl)).2
      · have hsuffix := length_modeSuffix (statMode st)
        show ((asText _).val ++ modeSuffix (statMode st)).length < 4294967296
        rw [asText_val htext, List.length_append]
        omega
  obtain ⟨k, t, -, hturns, -, hreads', -, hrespond⟩ :=
    service_serves.conversation [.stat rpath, q] hunlinks hfair (by simpa using hin)
      ⟨answer.answer, _, [.sent], htake, rfl, .sent, _, [], htake', rfl, rfl, rfl⟩ hhears
  rw [fileSyncService_files, hturns, turns_quit k (hreads'.trans hpart)]
  -- the answer to STAT, and with it the place
  have hanswer : answer = remoteStat dev rpath := by
    have hanswers := congrArg Prod.snd hrespond
    have hfirst : (remoteStat dev rpath).answer = answer.answer := (List.cons.inj hanswers).1
    exact (RemoteStat.answer_inj hfirst).symm
  have hstore := congrArg (fun r => r.1.files) hrespond
  rw [← hq] at hstore
  simp only [respond, Store.act, pushedFile, asText_val htext, pushed_flatten hreads] at hstore
  rw [← hanswer]
  exact hstore.symm

end Push

def pushSent : List UInt8 :=
  syncmsg [ID_STAT, 1] ++ [114] ++ syncmsg [ID_SEND, 7] ++ [114, 44, 51, 51, 49, 56, 56] ++
    dataRecord [5] ++ dataRecord [6] ++ syncmsg [ID_DONE, 7] ++ syncmsg [ID_QUIT, 0]

theorem push_of_one_file : (fileSyncService (emptyDevice pushSent)).files =
    Function.update (fun _ => none) [114] (some ⟨pushedMode [114] 33188, 7, [5, 6]⟩) :=
  @push_brings_file Unit hostWithFile () (emptyDevice pushSent)
    (client (syncmsg [ID_STAT, 0, 0, 0] ++ okayRecord)) ⟨[], [], pushSent, false⟩ anyApk
    ⟨[108, 47, 97], by decide⟩ ⟨[114], by decide⟩ false ⟨33188, 2, 7⟩ hostWithFile_readable
    (by simp [Healthy, client]) (by simp [Device.Unlinks, emptyDevice]) (by decide)
      (by decide) (by decide)
    (by decide +kernel) ⟨⟨pushSent, rfl, by decide +kernel⟩, _, by decide +kernel, List.prefix_rfl⟩

end Adb.Sync
