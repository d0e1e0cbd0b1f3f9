import Adb.Sync.Pull
import Adb.Sync.Requests

namespace Adb.Sync

open Adb.Lib

section Says

variable (dev : Device)

-- Nothing that has been sent is taken back.
theorem send_speaks (parts : List (List UInt8)) :
    dev.conn.output <+: (dev.send parts).2.conn.output := by
  obtain ⟨c, he, -, hout⟩ | ⟨c, part, he, -, hout, -⟩ := dev.send_cases parts
  · rw [he]
    exact ⟨_, hout.symm⟩
  · rw [he]
    exact ⟨_, hout.symm⟩

theorem listLoop_says (path : List UInt8) (names : List Text) :
    dev.conn.output <+: (listLoop path dev names).2.conn.output := by
  induction names generalizing dev with
  | nil => exact List.prefix_rfl
  | cons name more ih =>
      unfold listLoop
      split
      · exact ih dev
      split
      · exact ih dev
      · rename_i st _
        have hsend := send_speaks dev [listEntry st name, name]
        split
        · rename_i dev' he
          rw [he] at hsend
          exact hsend.trans (ih dev')
        · rename_i code dev' _ he
          rw [he] at hsend
          exact hsend

theorem doList_says (path : List UInt8) : dev.conn.output <+: (doList dev path).2.conn.output := by
  unfold doList
  cases dev.opendir path with
  | none => exact send_speaks dev _
  | some names =>
      have hlisted := listLoop_says dev path names
      dsimp only
      generalize listLoop path dev names = listed at hlisted
      split
      · exact hlisted.trans (send_speaks _ _)
      · exact hlisted

theorem serve_says (id : UInt32) (name : List UInt8) :
    dev.conn.output <+: (serve dev id name).2.conn.output := by
  unfold serve
  split
  · unfold doStat
    cases dev.lstat name with
    | none => exact send_speaks dev _
    | some st => exact send_speaks dev _
  split
  · exact doList_says dev name
  split
  · obtain ⟨out, hout, -⟩ := doSend_okay dev name
    exact ⟨out, hout.symm⟩
  split
  · obtain ⟨out, hout, -⟩ := doRecv_output dev name
    exact ⟨out, hout.symm⟩
  split
  · exact List.prefix_rfl
  · obtain ⟨out, hout, -⟩ := failMessage_output dev (reason "unknown command")
    exact ⟨out, hout.symm⟩

theorem serveRequest_says : dev.conn.output <+: (serveRequest dev).2.conn.output := by
  have hfail : ∀ (c : Conn) (text : List UInt8), c.output = dev.conn.output →
      dev.conn.output <+: (failMessage (dev.setConn c) text).2.conn.output := by
    intro c text hc
    obtain ⟨out, hout, -⟩ := failMessage_output (dev.setConn c) text
    rw [← hc]
    exact ⟨out, hout.symm⟩
  unfold serveRequest
  obtain ⟨input, he, -⟩ | ⟨input, he, -⟩ := dev.conn.readx_cases 8
  case inr =>
    rw [he]
    exact hfail _ _ rfl
  rw [he]
  dsimp only
  split
  · exact hfail _ _ rfl
  obtain ⟨input', he', -⟩ | ⟨input', he', -⟩ := Conn.readx_cases { dev.conn with input }
    (wordAt ((readable dev.conn.input).take 8) 1).toNat
  · rw [he']
    exact serve_says (dev.setConn { dev.conn with input := input' }) _ _
  · rw [he']
    exact hfail _ _ rfl

end Says

-- file_sync_service as the client hears it.
def service : Speaker Device UInt8 where
  turn := serveRequest
  said dev := dev.conn.output
  adds := serveRequest_says

theorem serviceLoop_eq (fuel : Nat) (dev : Device) :
    serviceLoop fuel dev = service.turns fuel dev := by
  induction fuel generalizing dev with
  | zero => rfl
  | succ fuel ih =>
      unfold serviceLoop Speaker.turns
      have hturn : service.turn dev = serveRequest dev := rfl
      rw [hturn]
      cases serveRequest dev with
      | mk more after =>
          cases more with
          | true => exact ih after
          | false => rfl

def Request.id : Request → UInt32
  | .stat _ => ID_STAT
  | .list _ => ID_LIST
  | .send _ _ _ _ => ID_SEND
  | .recv _ => ID_RECV

def Request.name : Request → Text
  | .stat path => path
  | .list path => path
  | .send path mode _ _ =>
      ⟨path.val ++ modeSuffix mode, isText_append.mpr ⟨path.property, isText_modeSuffix mode⟩⟩
  | .recv path => path

def Request.payload : Request → List UInt8
  | .send _ _ chunks mtime => pushRecords chunks mtime
  | _ => []

theorem Request.bytes_append (q : Request) (later : List UInt8) : q.bytes ++ later =
    syncmsg [q.id, UInt32.ofNat q.name.val.length] ++ (q.name.val ++ (q.payload ++ later)) := by
  cases q with
  | stat path => simp [Request.bytes, Request.id, Request.name, Request.payload]
  | list path => simp [Request.bytes, Request.id, Request.name, Request.payload, listRequest]
  | send path mode chunks mtime =>
      simp [Request.bytes, Request.id, Request.name, Request.payload, sendRequest]
  | recv path => simp [Request.bytes, Request.id, Request.name, Request.payload]

-- No unlink goes wrong.
def Device.Unlinks (dev : Device) : Prop := ∀ e, some e ∉ dev.unlinks

-- The records of a request are such as file_sync_service takes them, and its name
-- has a length in 32 bits.
structure Request.Fair (q : Request) : Prop where
  fits : q.Fits
  name : q.name.val.length < 4294967296

-- Bytes that are taken for an answer to q in one way only.
def Tells (q : Request) (a : Answer) (whole : List UInt8) : Prop :=
  ∀ heard more answer rest, Takes q heard answer rest → heard <+: whole ++ more →
    heard = whole ++ rest ∧ answer = a

-- What is said instead of an answer, and whatever comes behind it, is not taken
-- for one.
def Unanswered (q : Request) (dev : Device) (result : Int × Device) : Prop :=
  ∃ out, result.2.conn.output = dev.conn.output ++ out ∧
    ∀ heard more answer rest, heard <+: out ++ more → (result.1 ≠ 0 → more = []) →
      ¬Takes q heard answer rest

structure Answered (q : Request) (later : List UInt8) (dev : Device) (result : Int × Device)
    (whole : List UInt8) : Prop where
  returns : result.1 = 0
  sent : result.2.conn.output = dev.conn.output ++ whole
  boundary : readable result.2.conn.input <+: later
  store : result.2.store = (dev.store.act q).1
  unlinks : result.2.Unlinks
  tells : Tells q (dev.store.act q).2 whole

def Outcome (q : Request) (later : List UInt8) (dev : Device) (result : Int × Device) : Prop :=
  (∃ whole, Answered q later dev result whole) ∨ Unanswered q dev result

section Outcomes

variable {q : Request} {dev mid : Device} {later said whole out : List UInt8}
  {result : Int × Device}

-- An answer that breaks off is none.
theorem unanswered_cut {a : Answer} (hcode : result.1 ≠ 0)
    (hsent : result.2.conn.output = dev.conn.output ++ out) (hp : out <+: whole)
    (hlt : out.length < whole.length) (htells : Tells q a whole) : Unanswered q dev result := by
  refine ⟨out, hsent, fun heard more answer rest hheard hmore htake => ?_⟩
  rw [hmore hcode, List.append_nil] at hheard
  obtain ⟨rfl, -⟩ :=
    htells heard [] answer rest htake (by rw [List.append_nil]; exact hheard.trans hp)
  have hle := hheard.length_le
  rw [List.length_append] at hle
  omega

theorem unanswered_fail (text part : List UInt8)
    (hsent : result.2.conn.output = dev.conn.output ++ (failRecord text ++ part)) :
    Unanswered q dev result := by
  refine ⟨_, hsent, fun heard more answer rest hheard _ htake => ?_⟩
  rw [List.append_assoc] at hheard
  exact htake.not_fail hheard

theorem unanswered_fail_cut {text : List UInt8} (hcode : result.1 ≠ 0)
    (hsent : result.2.conn.output = dev.conn.output ++ out) (hp : out <+: failRecord text) :
    Unanswered q dev result := by
  refine ⟨out, hsent, fun heard more answer rest hheard hmore htake => ?_⟩
  rw [hmore hcode, List.append_nil] at hheard
  exact htake.not_fail ((hheard.trans hp).trans (List.prefix_append _ []))

-- The last part of an answer, which is sent when all the rest is done.
theorem outcome_send (parts : List (List UInt8)) (hsent : mid.conn.output = dev.conn.output ++ said)
    (hin : readable mid.conn.input <+: later) (hstore : mid.store = (dev.store.act q).1)
    (hunlinks : mid.Unlinks) (htells : Tells q (dev.store.act q).2 (said ++ parts.flatten)) :
    Outcome q later dev (mid.send parts) := by
  obtain ⟨c, he, hinput, hout⟩ | ⟨c, part, he, -, hout, hp, hlt⟩ := mid.send_cases parts
  · rw [he]
    refine .inl ⟨said ++ parts.flatten, rfl, ?_, ?_, hstore, hunlinks, htells⟩
    · rw [← List.append_assoc, ← hsent]
      exact hout
    · show readable c.input <+: later
      rwa [hinput]
  · rw [he]
    have hsaid : c.output = dev.conn.output ++ (said ++ part) := by
      rw [← List.append_assoc, ← hsent]
      exact hout
    refine .inr (unanswered_cut (by simp) hsaid
      ((List.prefix_append_right_inj said).mpr hp) ?_ htells)
    rw [List.length_append, List.length_append]
    omega

theorem tells_stat (path : Text) (mode size time : UInt32) :
    Tells (.stat path) (.stat mode size time) (syncmsg [ID_STAT, mode, size, time]) := by
  intro heard more answer rest htake hp
  cases htake with
  | stat path mode' size' time' rest =>
      obtain ⟨hmsg, -⟩ := head_of_prefix (by simp) hp
      have hword : ∀ (i : Nat) (hi : i < 4),
          [ID_STAT, mode', size', time'][i] = [ID_STAT, mode, size, time][i] := by
        intro i hi
        rw [← wordAt_self [ID_STAT, mode', size', time'] i hi, hmsg,
          wordAt_self [ID_STAT, mode, size, time] i hi]
      have hmode := hword 1 (by omega)
      have hsize := hword 2 (by omega)
      have htime := hword 3 (by omega)
      simp only [List.getElem_cons_succ, List.getElem_cons_zero] at hmode hsize htime
      rw [hmode, hsize, htime]
      exact ⟨rfl, rfl⟩

theorem doStat_outcome (path : Text) (hin : readable dev.conn.input <+: later)
    (hunlinks : dev.Unlinks) :
    Outcome (.stat path) later dev (doStat dev path) := by
  have hanswer : doStat dev path = dev.send [syncmsg [ID_STAT, (statAnswer (dev.lstat path)).1,
      (statAnswer (dev.lstat path)).2.1, (statAnswer (dev.lstat path)).2.2]] := by
    unfold doStat statAnswer
    cases dev.lstat path <;> rfl
  rw [hanswer]
  refine outcome_send _ (List.append_nil _).symm hin rfl hunlinks ?_
  rw [List.nil_append, List.flatten_singleton]
  exact tells_stat path _ _ _

theorem tells_list (path : Text) (dev : Device) :
    Tells (.list path) (.listed (entries dev path)) (listAnswer (entries dev path)) := by
  intro heard more answer rest htake hp
  cases htake with
  | list path heard listed rest h =>
      obtain ⟨hheard, rfl⟩ := h.of_answer entries_fit hp
      exact ⟨hheard, rfl⟩

-- The entries that are listed, or a part of them where a write fails.
theorem listLoop_cases (path : List UInt8) (dev : Device) (names : List Text) :
    ∃ c, (listLoop path dev names).2 = dev.setConn c ∧ c.input = dev.conn.input ∧
      ((listLoop path dev names).1 = 0 ∧
          c.output = dev.conn.output ++ (names.filterMap (entryOf dev path)).flatMap Listed.record ∨
        (listLoop path dev names).1 = -1 ∧ ∃ out, c.output = dev.conn.output ++ out ∧
          out <+: (names.filterMap (entryOf dev path)).flatMap Listed.record) := by
  induction names generalizing dev with
  | nil => exact ⟨dev.conn, rfl, rfl, .inl ⟨rfl, by simp⟩⟩
  | cons name more ih =>
      unfold listLoop
      split
      · rename_i hlong
        have hnone : entryOf dev path name = none := if_neg (by omega)
        rw [List.filterMap_cons_none hnone]
        exact ih dev
      rename_i hlen
      have hentry : entryOf dev path name = (dev.lstat (entryPath path name)).map (listedAs name) :=
        if_pos (by omega)
      cases hst : dev.lstat (entryPath path name) with
      | none =>
          rw [hst] at hentry
          rw [List.filterMap_cons_none hentry]
          exact ih dev
      | some st =>
          rw [hst] at hentry
          have hrecord : [listEntry st name, name.val].flatten = (listedAs name st).record := by
            simp [listEntry, Listed.record, listedAs]
          rw [List.filterMap_cons_some hentry, List.flatMap_cons, ← hrecord]
          obtain ⟨c, he, hinput, hout⟩ | ⟨c, part, he, hinput, hout, hp, -⟩ :=
            dev.send_cases [listEntry st name, name.val]
          · obtain ⟨c', hdev, hinput', hcases⟩ := ih (dev.setConn c)
            have hentries : (entryOf (dev.setConn c) path) = entryOf dev path := rfl
            rw [hentries] at hcases
            refine ⟨c', ?_, hinput'.trans hinput, ?_⟩
            · simp only [he]
              exact hdev
            · simp only [he]
              rw [← List.append_assoc, ← hout]
              refine hcases.imp_right ?_
              rintro ⟨hcode, out, hout', hp⟩
              refine ⟨hcode, [listEntry st name, name.val].flatten ++ out, ?_,
                (List.prefix_append_right_inj _).mpr hp⟩
              rw [← List.append_assoc, ← hout]
              exact hout'
          · refine ⟨c, ?_, hinput, .inr ⟨?_, part, hout, hp.trans (List.prefix_append _ _)⟩⟩
            · simp only [he]
            · simp only [he]

theorem doList_outcome (path : Text) (hin : readable dev.conn.input <+: later)
    (hunlinks : dev.Unlinks) :
    Outcome (.list path) later dev (doList dev path) := by
  have hend : ∀ c : Conn, c.input = dev.conn.input →
      c.output = dev.conn.output ++ (entries dev path).flatMap Listed.record →
      Outcome (.list path) later dev ((dev.setConn c).send [syncmsg [ID_DONE, 0, 0, 0, 0]]) := by
    intro c hinput hout
    refine outcome_send _ hout (by rw [← hinput] at hin; exact hin) rfl hunlinks ?_
    rw [List.flatten_singleton]
    exact tells_list path dev
  unfold doList
  cases hopen : dev.opendir path with
  | none =>
      have hnone : entries dev path = [] := by simp [entries, hopen]
      refine hend dev.conn rfl ?_
      rw [hnone, List.flatMap_nil, List.append_nil]
  | some names =>
      have hentries : entries dev path = names.filterMap (entryOf dev path) := by
        simp [entries, hopen]
      obtain ⟨c, hdev, hinput, ⟨hcode, hout⟩ | ⟨hcode, out, hout, hp⟩⟩ :=
        listLoop_cases path dev names
      · rw [← hentries] at hout
        have hpair : listLoop path dev names = (0, dev.setConn c) := by rw [← hcode, ← hdev]
        simp only [hpair]
        exact hend c hinput hout
      · have hpair : listLoop path dev names = (-1, dev.setConn c) := by rw [← hcode, ← hdev]
        simp only [hpair]
        refine .inr (unanswered_cut (by simp) hout ?_ ?_ (tells_list path dev))
        · rw [hentries]
          exact hp.trans (List.prefix_append _ _)
        · have hle := hp.length_le
          rw [hentries, listAnswer, List.length_append, length_syncmsg]
          simp only [List.length_cons]
          omega

theorem tells_recv (path : Text) {chunks : List (List UInt8)}
    (hmax : ∀ chunk ∈ chunks, chunk.length ≤ SYNC_DATA_MAX) :
    Tells (.recv path) (.data chunks.flatten) (pushRecords chunks 0) := by
  intro heard more answer rest htake hp
  cases htake with
  | recv path heard bytes rest h =>
      obtain ⟨hheard, rfl⟩ := h.of_records hmax hp
      exact ⟨hheard, rfl⟩

-- What do_recv sends of a file that is open: all of it, a part of the records, or
-- some of them and a failure.
inductive Sending (data before : List UInt8) : Int → List UInt8 → Prop where
  | whole (chunks : List (List UInt8)) : (∀ chunk ∈ chunks, chunk.length ≤ SYNC_DATA_MAX) →
      chunks.flatten = data → Sending data before 0 (before ++ pushRecords chunks 0)
  | cut (chunks : List (List UInt8)) (code : Int) (out : List UInt8) : code ≠ 0 →
      (∀ chunk ∈ chunks, chunk.length ≤ SYNC_DATA_MAX) → out <+: pushRecords chunks 0 →
      out.length < (pushRecords chunks 0).length → Sending data before code (before ++ out)
  | failed (chunks : List (List UInt8)) (code : Int) (text part : List UInt8) :
      (∀ chunk ∈ chunks, chunk.length ≤ SYNC_DATA_MAX) → part <+: failRecord text →
      (code = 0 → part = failRecord text) →
      Sending data before code (before ++ ((chunks.map dataRecord).flatten ++ part))

theorem Sending.cons {data before chunk out : List UInt8} {code : Int}
    (hmax : chunk.length ≤ SYNC_DATA_MAX) (h : Sending data (before ++ dataRecord chunk) code out) :
    Sending (chunk ++ data) before code out := by
  have hall : ∀ chunks : List (List UInt8), (∀ chunk ∈ chunks, chunk.length ≤ SYNC_DATA_MAX) →
      ∀ other ∈ chunk :: chunks, other.length ≤ SYNC_DATA_MAX := by
    intro chunks h other hm
    obtain rfl | hm := List.mem_cons.mp hm
    · exact hmax
    · exact h other hm
  cases h with
  | whole chunks hchunks hdata =>
      rw [List.append_assoc, ← pushRecords_cons]
      exact .whole (chunk :: chunks) (hall chunks hchunks) (by rw [List.flatten_cons, hdata])
  | cut chunks code out hcode hchunks hp hlt =>
      rw [List.append_assoc]
      refine .cut (chunk :: chunks) code _ hcode (hall chunks hchunks) ?_ ?_
      · rw [pushRecords_cons]
        exact (List.prefix_append_right_inj _).mpr hp
      · rw [pushRecords_cons, List.length_append, List.length_append]
        omega
  | failed chunks code text part hchunks hp hzero =>
      have hflat : before ++ dataRecord chunk ++ ((chunks.map dataRecord).flatten ++ part) =
          before ++ (((chunk :: chunks).map dataRecord).flatten ++ part) := by
        simp
      rw [hflat]
      exact .failed (chunk :: chunks) code text part (hall chunks hchunks) hp hzero

theorem recvSendLoop_cases (fuel : Nat) (dev : Device) (fd : Input) :
    ∃ c, (recvSendLoop fuel dev fd).2 = dev.setConn c ∧ c.input = dev.conn.input ∧
      Sending (stored fd) dev.conn.output (recvSendLoop fuel dev fd).1 c.output := by
  induction fuel generalizing dev fd with
  | zero =>
      refine ⟨dev.conn, rfl, rfl, ?_⟩
      have hcut : Sending (stored fd) dev.conn.output (-1) (dev.conn.output ++ []) :=
        .cut [] (-1) [] (by decide) (by simp) List.nil_prefix (by rw [pushRecords_nil]; simp)
      rwa [List.append_nil] at hcut
  | succ fuel ih =>
      simp only [recvSendLoop]
      split
      · rename_i chunk fd' hread
        obtain ⟨hstored, hmax⟩ := adbRead_got hread
        split
        · rename_i hzero
          obtain rfl := List.length_eq_zero_iff.mp hzero
          have hnil := adbRead_end hread (by simp [SYNC_DATA_MAX])
          have hend : pushRecords [] 0 = syncmsg [ID_DONE, 0] := pushRecords_nil 0
          obtain ⟨c, he, hinput, hout⟩ | ⟨c, part, he, hinput, hout, hp, hlt⟩ :=
            dev.send_cases [syncmsg [ID_DONE, 0]]
          · rw [List.flatten_singleton, ← hend] at hout
            refine ⟨c, by rw [he], hinput, ?_⟩
            rw [he, hout, hnil]
            exact .whole [] (by simp) rfl
          · rw [List.flatten_singleton, ← hend] at hp hlt
            refine ⟨c, by rw [he], hinput, ?_⟩
            rw [he, hout]
            exact .cut [] _ part (by simp) (by simp) hp hlt
        · have hflat : [syncmsg [ID_DATA, UInt32.ofNat chunk.length], chunk].flatten =
              dataRecord chunk := by simp [dataRecord]
          obtain ⟨c, he, hinput, hout⟩ | ⟨c, part, he, hinput, hout, hp, hlt⟩ :=
            dev.send_cases [syncmsg [ID_DATA, UInt32.ofNat chunk.length], chunk]
          · rw [hflat] at hout
            obtain ⟨c', hdev, hinput', hsend⟩ := ih (dev.setConn c) fd'
            have hbefore : (dev.setConn c).conn.output = dev.conn.output ++ dataRecord chunk := hout
            rw [hbefore] at hsend
            rw [hstored]
            simp only [he]
            exact ⟨c', hdev, hinput'.trans hinput, hsend.cons hmax⟩
          · rw [hflat] at hp hlt
            simp only [he]
            refine ⟨c, rfl, hinput, ?_⟩
            rw [hout]
            refine .cut [chunk] _ part (by simp) (by simpa using hmax) ?_ ?_
            · rw [pushRecords_cons]
              exact hp.trans (List.prefix_append _ _)
            · rw [pushRecords_cons, List.length_append]
              omega
      · rename_i fd' hread
        rw [adbRead_interrupted hread]
        exact ih dev fd'
      · rename_i e _ _
        obtain ⟨c, he, hinput, hout⟩ | ⟨c, part, he, hinput, hout, hp⟩ :=
          failMessage_cases dev (dev.strerror e)
        · refine ⟨c, by rw [failErrno, he], hinput, ?_⟩
          rw [failErrno, he, hout]
          exact .failed [] _ _ _ (by simp) List.prefix_rfl fun _ => rfl
        · refine ⟨c, by rw [failErrno, he], hinput, ?_⟩
          rw [failErrno, he, hout]
          exact .failed [] _ _ _ (by simp) hp fun h => by simp at h

theorem doRecv_outcome (path : Text) (hin : readable dev.conn.input <+: later)
    (hunlinks : dev.Unlinks) :
    Outcome (.recv path) later dev (doRecv dev path) := by
  unfold doRecv
  cases ho : dev.openRead path with
  | mk opened after =>
      have hafter : after.conn = dev.conn ∧ after.unlinks = dev.unlinks ∧ after.store = dev.store ∧
          ∀ fd, opened = .ok fd → ∃ file pattern, dev.files path = some file ∧
            fd = cut file.data pattern := by
        unfold Device.openRead Device.nextOpen at ho
        cases hhead : dev.opens.headD none with
        | some e =>
            rw [hhead] at ho
            cases ho
            exact ⟨rfl, rfl, rfl, by simp⟩
        | none =>
            cases hfile : dev.files path with
            | none =>
                simp only [hhead, hfile] at ho
                cases ho
                exact ⟨rfl, rfl, rfl, by simp⟩
            | some file =>
                simp only [hhead, hfile] at ho
                cases ho
                refine ⟨rfl, rfl, rfl, fun fd hfd => ⟨file, dev.reads.headD [], rfl, ?_⟩⟩
                exact (Except.ok.inj hfd).symm
      obtain ⟨hconn, hsame, hstore, hopened⟩ := hafter
      have hunlinks' : after.Unlinks := by
        unfold Device.Unlinks
        rwa [hsame]
      cases opened with
      | error e =>
          right
          simp only [failErrno]
          obtain ⟨c, he, -, hout⟩ | ⟨c, part, he, -, hout, hp⟩ :=
            failMessage_cases after (after.strerror e)
          · rw [he]
            exact unanswered_fail (after.strerror e) []
              (by rw [← hconn, List.append_nil]; exact hout)
          · rw [he]
            exact unanswered_fail_cut (by simp) (by rw [← hconn]; exact hout) hp
      | ok fd =>
          obtain ⟨file, pattern, hfile, rfl⟩ := hopened fd rfl
          have hact : dev.store.act (.recv path) = (dev.store, .data file.data) := by
            simp [Store.act, Device.store, hfile]
          obtain ⟨c, hdev, hinput, hsend⟩ :=
            recvSendLoop_cases (turns (cut file.data pattern)) after (cut file.data pattern)
          rw [stored_cut, hconn] at hsend
          dsimp only
          generalize recvSendLoop (turns (cut file.data pattern)) after
            (cut file.data pattern) = result
            at hdev hsend
          obtain ⟨code, d⟩ := result
          simp only at hdev hsend
          subst hdev
          generalize hbytes : c.output = sent at hsend
          cases hsend with
          | whole chunks hmax hdata =>
              refine .inl ⟨pushRecords chunks 0, rfl, hbytes, ?_, ?_, hunlinks', ?_⟩
              · show readable c.input <+: later
                rwa [hinput, hconn]
              · rw [hact]
                exact hstore
              · rw [hact, ← hdata]
                exact tells_recv path hmax
          | cut chunks code out hcode hmax hp hlt =>
              exact .inr (unanswered_cut hcode hbytes hp hlt (tells_recv path hmax))
          | failed chunks code text part hmax hp hzero =>
              refine .inr ⟨_, hbytes, fun heard more answer rest hheard hmore htake => ?_⟩
              have hlong : heard <+: (chunks.map dataRecord).flatten ++
                  (failRecord text ++ more) := by
                by_cases hcode : code = 0
                · rwa [hzero hcode, List.append_assoc] at hheard
                · rw [hmore hcode, List.append_nil] at hheard
                  refine hheard.trans ((List.prefix_append_right_inj _).mpr ?_)
                  exact hp.trans (List.prefix_append _ _)
              cases htake with
              | recv path heard bytes rest h => exact not_received_fail hmax hlong h

theorem unanswered_short (hcode : result.1 ≠ 0)
    (hsent : result.2.conn.output = dev.conn.output ++ out)
    (hlt : out.length < 8) : Unanswered q dev result := by
  refine ⟨out, hsent, fun heard more answer rest hheard hmore htake => ?_⟩
  rw [hmore hcode, List.append_nil] at hheard
  have hlen := htake.head.1
  have hle := hheard.length_le
  omega

theorem unanswered_silent (hcode : result.1 ≠ 0) (hsent : result.2.conn.output = dev.conn.output) :
    Unanswered q dev result :=
  unanswered_short hcode (hsent.trans (List.append_nil _).symm) (by simp)

theorem Unanswered.of_output (h : Unanswered q mid result)
    (hout : mid.conn.output = dev.conn.output) :
    Unanswered q dev result := by
  obtain ⟨out, hsent, hnone⟩ := h
  exact ⟨out, by rw [hsent, hout], hnone⟩

-- A read of what comes first, which may break off.
theorem Conn.readx_first {c : Conn} {first tail : List UInt8} (len : Nat)
    (h : readable c.input <+: first ++ tail) (hlen : first.length = len) :
    (∃ input, c.readx len = .done first { c with input } ∧ readable input <+: tail) ∨
      ∃ bytes input, c.readx len = .failed bytes { c with input } := by
  obtain ⟨input, he, hin, hle⟩ | ⟨input, he, -⟩ := c.readx_cases len
  · rw [← List.take_append_drop len (readable c.input)] at h
    obtain ⟨hfirst, hrest⟩ := head_of_prefix (by rw [List.length_take_of_le hle, hlen]) h
    exact .inl ⟨input, by rw [he, hfirst], by rwa [hin]⟩
  · exact .inr ⟨_, input, he⟩

section Push

variable {path : List UInt8} {chunks : List (List UInt8)} {mtime : UInt32}

theorem sendFails_unanswered (hout : mid.conn.output = dev.conn.output) :
    Unanswered q dev (sendFails mid path) :=
  unanswered_silent (by simp [sendFails]) (by rw [sendFails, adbUnlink_conn, hout])

-- A failure is reported before anything else is said.
theorem failErrno_unanswered (e : Errno) (fuel : Device → Nat)
    (hout : mid.conn.output = dev.conn.output) :
    Unanswered q dev (match failErrno mid e with
      | (0, after) => sendLoop (fuel after) after path none
      | (_, after) => (-1, after)) := by
  simp only [failErrno]
  obtain ⟨c, he, -, hsent⟩ | ⟨c, part, he, -, hsent, hp⟩ := failMessage_cases mid (mid.strerror e)
  · obtain ⟨more, hmore, -⟩ := sendLoop_okay (fuel (mid.setConn c)) (mid.setConn c) path none
    rw [he]
    refine unanswered_fail (mid.strerror e) more ?_
    rw [← List.append_assoc, ← hout, ← hsent]
    exact hmore
  · rw [he]
    exact unanswered_fail_cut (by simp) (by rw [← hout]; exact hsent) hp

-- The file holds all of the records when OKAY is sent, and nothing but they have
-- been read.
theorem sendLoop_cases (q : Request)
    (hmax : ∀ chunk ∈ chunks, chunk.length ≤ SYNC_DATA_MAX) (fuel : Nat)
    (dev : Device) {offset : Nat} {file : File}
    (hin : readable dev.conn.input <+: pushRecords chunks mtime ++ later)
    (hfile : dev.files path = some file) (hoffset : offset ≤ file.data.length) :
    (∃ c writes, sendLoop fuel dev path (some offset) = (0, { dev with
        conn := c
        writes
        files := Function.update dev.files path
          (some ⟨file.mode, mtime.toNat, Device.putAt file.data offset chunks.flatten⟩) }) ∧
      c.output = dev.conn.output ++ okayRecord ∧ readable c.input <+: later) ∨
      Unanswered q dev (sendLoop fuel dev path (some offset)) := by
  induction chunks generalizing fuel dev offset file with
  | nil =>
      rw [pushRecords_nil] at hin
      cases fuel with
      | zero => exact .inr (sendFails_unanswered rfl)
      | succ fuel =>
          have hid : wordAt (syncmsg [ID_DONE, mtime]) 0 = ID_DONE := wordAt_self _ 0 (by simp)
          have htime : wordAt (syncmsg [ID_DONE, mtime]) 1 = mtime := wordAt_self _ 1 (by simp)
          rw [sendLoop]
          obtain ⟨input, he, hrest⟩ | ⟨bytes, input, he⟩ := Conn.readx_first 8 hin (by simp)
          case inr =>
            rw [he]
            exact .inr (sendFails_unanswered rfl)
          rw [he]
          simp only [hid, htime]
          rw [if_pos (by decide)]
          obtain ⟨c, hs, hinput, hout⟩ | ⟨c, part, hs, -, hout, hp, hlt⟩ := ((dev.setConn
              { dev.conn with input }).utime path mtime).send_cases [syncmsg [ID_OKAY, 0]]
          · rw [List.flatten_singleton] at hout
            refine .inl ⟨c, dev.writes, ?_, hout, by rw [hinput]; exact hrest⟩
            rw [if_pos True.intro, hs, List.flatten_nil, putAt_nil]
            simp [Device.setConn, Device.utime, Device.setFile, hfile]
          · rw [if_pos True.intro, hs]
            refine .inr (unanswered_short (by simp) hout ?_)
            simpa using hlt
  | cons chunk chunks ih =>
      have hchunk := hmax chunk (List.mem_cons_self ..)
      have hnat := toNat_chunk hchunk
      rw [pushRecords_cons, dataRecord] at hin
      simp only [List.append_assoc] at hin
      cases fuel with
      | zero => exact .inr (sendFails_unanswered rfl)
      | succ fuel =>
          have hid : wordAt (syncmsg [ID_DATA, UInt32.ofNat chunk.length]) 0 = ID_DATA :=
            wordAt_self _ 0 (by simp)
          have hlen : wordAt (syncmsg [ID_DATA, UInt32.ofNat chunk.length]) 1 =
              UInt32.ofNat chunk.length :=
            wordAt_self _ 1 (by simp)
          rw [sendLoop]
          obtain ⟨input, he, hrest⟩ | ⟨bytes, input, he⟩ := Conn.readx_first 8 hin (by simp)
          case inr =>
            rw [he]
            exact .inr (sendFails_unanswered rfl)
          rw [he]
          simp only [hid, hlen, hnat]
          rw [if_neg (by decide), if_neg (by omega)]
          obtain ⟨input', he', hrest'⟩ | ⟨bytes, input', he'⟩ :=
            Conn.readx_first (c := { dev.conn with input }) chunk.length hrest rfl
          case inr =>
            simp only [Device.setConn, he']
            exact .inr (sendFails_unanswered rfl)
          simp only [Device.setConn, he']
          unfold Device.writeFile
          cases hw : writex dev.writes chunk with
          | done writes =>
              simp only
              have hput : (Device.putFile
                  { dev with conn := { dev.conn with input := input' }, writes }
                  path offset chunk).files path =
                    some { file with data := Device.putAt file.data offset chunk } := by
                simp [Device.putFile, Device.setFile, hfile]
              obtain ⟨c, writes', hloop, hout, hlater⟩ | hnone := ih
                (fun chunk hm => hmax chunk (List.mem_cons_of_mem _ hm)) fuel
                (Device.putFile { dev with conn := { dev.conn with input := input' }, writes } path
                  offset chunk)
                hrest' hput (length_putAt _ _ _ hoffset)
              · refine .inl ⟨c, writes', ?_, hout, hlater⟩
                rw [hloop, putAt_putAt _ _ _ _ hoffset]
                simp [Device.putFile, Device.setFile]
              · exact .inr (hnone.of_output rfl)
          | failed taken e writes =>
              simp only
              refine .inr (failErrno_unanswered e (fun _ => fuel) ?_)
              rw [adbUnlink_conn]
              rfl

theorem tells_send (path : Text) (mode : UInt32) :
    Tells (.send path mode chunks mtime) .sent okayRecord := by
  intro heard more answer rest htake hp
  cases htake with
  | send path mode chunks mtime msg rest hlen hid =>
      obtain ⟨rfl, -⟩ := head_of_prefix (by rw [hlen, okayRecord]; simp) hp
      exact ⟨rfl, rfl⟩

theorem doSend_outcome (path : Text) (mode : UInt32)
    (hmax : ∀ chunk ∈ chunks, chunk.length ≤ SYNC_DATA_MAX)
    (hin : readable dev.conn.input <+: pushRecords chunks mtime ++ later) (hunlinks : dev.Unlinks) :
    Outcome (.send path mode chunks mtime) later dev
      (doSend dev (path.val ++ modeSuffix mode)) := by
  have htarget := sendTarget_path path.val mode
  have hsend : doSend dev (path.val ++ modeSuffix mode) =
      handleSendFile (dev.adbUnlink path) path (pushedMode path mode) := by
    have hmode : doSend dev (path.val ++ modeSuffix mode) =
        handleSendFile (dev.adbUnlink (sendTarget (path.val ++ modeSuffix mode)).1)
          (sendTarget (path.val ++ modeSuffix mode)).1 (pushedMode path mode) := rfl
    rw [hmode, htarget]
  have hhead : dev.unlinks.headD none = none := by
    cases hlist : dev.unlinks with
    | nil => rfl
    | cons first more =>
        cases first with
        | none => rfl
        | some e => exact absurd (by rw [hlist]; exact List.mem_cons_self ..) (hunlinks e)
  have hunlink : dev.adbUnlink path =
      { dev with unlinks := dev.unlinks.tail, files := Function.update dev.files path none } := by
    unfold Device.adbUnlink Device.nextUnlink
    rw [hhead]
    rfl
  have hfile : (dev.adbUnlink path).files path = none := by
    rw [hunlink]
    exact Function.update_self ..
  have hconn : (dev.adbUnlink path).conn = dev.conn := adbUnlink_conn dev path
  rw [hsend, handleSendFile]
  obtain ⟨opens, ho⟩ | ⟨e, opens, ho⟩ :=
    openForSend_new (dev.adbUnlink path) (pushedMode path mode) hfile
  · rw [ho]
    simp only
    generalize hfuel : (stored (Device.setFile { dev.adbUnlink path with opens } path
      (some ⟨pushedMode path mode, 0, []⟩)).conn.input).length + 1 = fuel
    have hin' : readable (Device.setFile { dev.adbUnlink path with opens } path
        (some ⟨pushedMode path mode, 0, []⟩)).conn.input <+: pushRecords chunks mtime ++ later := by
      show readable (dev.adbUnlink path).conn.input <+: _
      rw [hconn]
      exact hin
    obtain ⟨c, writes, hloop, hout, hlater⟩ | hnone :=
      sendLoop_cases (.send path mode chunks mtime) hmax fuel
      (Device.setFile { dev.adbUnlink path with opens } path
        (some ⟨pushedMode path mode, 0, []⟩)) hin'
      (Function.update_self ..) (Nat.zero_le _)
    · left
      rw [hloop, hunlink]
      refine ⟨okayRecord, rfl, ?_, hlater, ?_, ?_, tells_send path mode⟩
      · rw [hout]
        show (dev.adbUnlink path).conn.output ++ okayRecord = _
        rw [hconn]
      · simp [Store.act, Device.store, Device.setFile, Device.putAt, pushedFile]
        rfl
      · intro e hm
        exact hunlinks e (List.mem_of_mem_tail hm)
    · right
      refine hnone.of_output ?_
      show (dev.adbUnlink path).conn.output = dev.conn.output
      rw [hconn]
  · rw [ho]
    simp only
    right
    refine failErrno_unanswered e (fun after => (stored after.conn.input).length + 1) ?_
    show (dev.adbUnlink path).conn.output = dev.conn.output
    rw [hconn]

end Push

theorem serve_outcome (hfits : q.Fits) (hin : readable dev.conn.input <+: q.payload ++ later)
    (hunlinks : dev.Unlinks) : Outcome q later dev (serve dev q.id q.name) := by
  cases q with
  | stat path =>
      have hserve : serve dev ID_STAT path = doStat dev path := if_pos rfl
      exact hserve ▸ doStat_outcome path hin hunlinks
  | list path =>
      have hserve : serve dev ID_LIST path = doList dev path := by
        rw [serve, if_neg (by decide), if_pos rfl]
      exact hserve ▸ doList_outcome path hin hunlinks
  | send path mode chunks mtime =>
      have hserve : serve dev ID_SEND (path.val ++ modeSuffix mode) =
          doSend dev (path.val ++ modeSuffix mode) := by
        rw [serve, if_neg (by decide), if_neg (by decide), if_pos rfl]
      exact hserve ▸ doSend_outcome path mode hfits hin hunlinks
  | recv path =>
      have hserve : serve dev ID_RECV path = doRecv dev path := by
        rw [serve, if_neg (by decide), if_neg (by decide), if_neg (by decide), if_pos rfl]
      exact hserve ▸ doRecv_outcome path hin hunlinks

-- A turn either gives up with a FAIL record or serves the request.
theorem serveRequest_cases (hname : q.name.val.length < 4294967296)
    (hin : readable dev.conn.input <+: q.bytes ++ later) :
    (∃ input, readable input <+: q.payload ++ later ∧ serveRequest dev =
        (decide ((serve (dev.setConn { dev.conn with input }) q.id q.name).1 = 0),
          (serve (dev.setConn { dev.conn with input }) q.id q.name).2)) ∨
      ∃ text out, (serveRequest dev).1 = false ∧
        (serveRequest dev).2.conn.output = dev.conn.output ++ out ∧ out <+: failRecord text := by
  have hid : wordAt (syncmsg [q.id, UInt32.ofNat q.name.val.length]) 0 = q.id :=
    wordAt_self _ 0 (by simp)
  have hlen : wordAt (syncmsg [q.id, UInt32.ofNat q.name.val.length]) 1 =
      UInt32.ofNat q.name.val.length := wordAt_self _ 1 (by simp)
  have hnat : (UInt32.ofNat q.name.val.length).toNat = q.name.val.length :=
    UInt32.toNat_ofNat_of_lt' (show q.name.val.length < 2 ^ 32 by omega)
  have hfail : ∀ (c : Conn) (text : List UInt8), c.output = dev.conn.output → ∃ said out,
      (failMessage (dev.setConn c) text).2.conn.output = dev.conn.output ++ out ∧
        out <+: failRecord said := by
    intro c text hc
    obtain ⟨out, hout, hp⟩ := failMessage_output (dev.setConn c) text
    exact ⟨text, out, by rw [← hc]; exact hout, hp⟩
  rw [q.bytes_append] at hin
  unfold serveRequest
  obtain ⟨input, he, hrest⟩ | ⟨bytes, input, he⟩ := Conn.readx_first 8 hin (by simp)
  case inr =>
    obtain ⟨text, out, hout, hp⟩ :=
      hfail { dev.conn with input } (reason "command read failure") rfl
    rw [he]
    exact .inr ⟨text, out, rfl, hout, hp⟩
  rw [he]
  simp only [hid, hlen, hnat]
  split
  · obtain ⟨text, out, hout, hp⟩ := hfail { dev.conn with input } (reason "invalid namelen") rfl
    exact .inr ⟨text, out, rfl, hout, hp⟩
  obtain ⟨input', he', hrest'⟩ | ⟨bytes, input', he'⟩ :=
    Conn.readx_first (c := { dev.conn with input }) q.name.val.length hrest rfl
  · rw [he']
    simp only [textOf, q.name.property.takeWhile_ne]
    exact .inl ⟨input', hrest', rfl⟩
  · obtain ⟨text, out, hout, hp⟩ :=
      hfail { dev.conn with input := input' } (reason "filename read failure") rfl
    rw [he']
    exact .inr ⟨text, out, rfl, hout, hp⟩

-- file_sync_service serves the files of the device.
theorem service_serves : service.Serves (fun dev bytes => readable dev.conn.input <+: bytes)
    Request.bytes Takes Device.store Store.act Device.Unlinks Request.Fair := by
  refine ⟨fun {n dev q later heard answer rest} hunlinks hfair hin htake hhears => ?_⟩
  have hne : heard ≠ [] := by
    intro hnil
    have hlen := htake.head.1
    simp [hnil] at hlen
  obtain ⟨k, said, rfl, hsaid, hcases⟩ := hhears.cases hne
  have hturn : service.turn dev = serveRequest dev := rfl
  rw [hturn] at hsaid hcases
  obtain ⟨input, hpayload, hserve⟩ | ⟨text, out, hstop, hout, hp⟩ :=
    serveRequest_cases hfair.name hin
  case inr =>
    obtain rfl := List.append_cancel_left (hsaid.symm.trans hout)
    obtain hheard | ⟨hmore, -⟩ := hcases
    · exact absurd ((hheard.trans hp).trans (List.prefix_append _ [])) htake.not_fail
    · rw [hstop] at hmore
      cases hmore
  have houtcome : Outcome q later (dev.setConn { dev.conn with input })
      (serve (dev.setConn { dev.conn with input }) q.id q.name) :=
    serve_outcome hfair.fits hpayload hunlinks
  generalize serve (dev.setConn { dev.conn with input }) q.id q.name = result at hserve houtcome
  obtain ⟨code, after⟩ := result
  rw [hserve] at hsaid hcases
  obtain ⟨whole, hanswered⟩ | ⟨out, hout, hnone⟩ := houtcome
  · obtain rfl := List.append_cancel_left (hsaid.symm.trans hanswered.sent)
    have hcode : code = 0 := hanswered.returns
    have hshort : ∃ more, heard <+: said ++ more := by
      obtain hheard | ⟨-, more, rfl, -⟩ := hcases
      · exact ⟨[], by rwa [List.append_nil]⟩
      · exact ⟨more, List.prefix_rfl⟩
    obtain ⟨more, hlong⟩ := hshort
    obtain ⟨hheard, hanswer⟩ := hanswered.tells heard more answer rest htake hlong
    refine ⟨k, after, rfl, ?_, hanswered.unlinks, hanswered.boundary, ?_, hanswered.store, hanswer⟩
    · rw [hturn, hserve]
      simp [hcode]
    · obtain hp | ⟨-, more, hsplit, hhears'⟩ := hcases
      · have hnil : rest = [] := by
          have hle := hp.length_le
          rw [hheard, List.length_append] at hle
          exact List.length_eq_zero_iff.mp (by omega)
        unfold Speaker.Hears
        rw [hnil, List.append_nil]
        exact Speaker.said_turns k after
      · rw [hsplit] at hheard
        rw [← List.append_cancel_left hheard]
        exact hhears'
  · obtain rfl := List.append_cancel_left (hsaid.symm.trans hout)
    exfalso
    obtain hheard | ⟨hmore, more, rfl, -⟩ := hcases
    · exact hnone heard [] answer rest (by rwa [List.append_nil]) (fun _ => rfl) htake
    · refine hnone _ more answer rest List.prefix_rfl (fun hcode => ?_) htake
      exact absurd (by simpa using hmore) hcode

end Outcomes

end Adb.Sync
