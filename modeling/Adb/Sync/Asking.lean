import Adb.Sync.Serving
import Adb.Sync.Session

namespace Adb.Sync

open Adb.Lib Adb.Lib.Speaker

-- The C string that bytes hold.
def asText (bytes : List UInt8) : Text :=
  ⟨textOf bytes, fun h => by simpa using List.mem_takeWhile_imp h⟩

theorem asText_val {bytes : List UInt8} (h : IsText bytes) : (asText bytes).val = bytes :=
  h.takeWhile_ne

def RemoteStat.answer (st : RemoteStat) : Answer := .stat st.mode st.size st.time

-- What STAT says of a path.
def remoteStat (dev : Device) (path : List UInt8) : RemoteStat :=
  ⟨(statAnswer (dev.lstat path)).1, (statAnswer (dev.lstat path)).2.1,
    (statAnswer (dev.lstat path)).2.2⟩

def statOf (ci : CopyInfo) : Request := .stat (asText ci.dst)

section Exchange

variable {c c' : Conn} {files marked : List CopyInfo} {path : List UInt8}

theorem syncStartReadtime_healthy (hc : Healthy c.writes) (hpath : IsText path) :
    ∃ writes, syncStartReadtime c path = (0, c.sent (Request.stat (asText path)).bytes writes) ∧
      Healthy writes := by
  obtain ⟨writes, he, hw⟩ :=
    Conn.writeAll_healthy hc [syncmsg [ID_STAT, UInt32.ofNat path.length], path]
  refine ⟨writes, ?_, hw⟩
  have hflat : [syncmsg [ID_STAT, UInt32.ofNat path.length], path].flatten =
      (Request.stat (asText path)).bytes := by
    simp [Request.bytes, asText_val hpath]
  rw [syncStartReadtime, he, hflat]

theorem syncFinishReadtime_takes {st : RemoteStat} (h : syncFinishReadtime c = (some st, c')) :
    readable c.input = syncmsg [ID_STAT, st.mode, st.size, st.time] ++ readable c'.input ∧
      c'.output = c.output ∧ c'.writes = c.writes := by
  unfold syncFinishReadtime at h
  obtain ⟨input, he, hrest, hlen⟩ | ⟨input, he, -⟩ := c.readx_cases 16
  case inr =>
    rw [he] at h
    cases h
  rw [he] at h
  dsimp only at h
  have hmsg := List.length_take_of_le hlen
  have hsplit := (List.take_append_drop 16 (readable c.input)).symm
  rw [← hrest] at hsplit
  generalize (readable c.input).take 16 = msg at h hmsg hsplit
  split at h
  · cases h
  · rename_i hid
    cases h
    refine ⟨?_, rfl, rfl⟩
    rw [hsplit, ← not_not.mp hid]
    congr 1
    exact (syncmsg_wordAt 4 msg hmsg).symm

theorem sendChunks_healthy (hc : Healthy c.writes) (chunks : List (List UInt8)) :
    ∃ writes, sendChunks c chunks = (0, c.sent (chunks.map dataRecord).flatten writes) ∧
      Healthy writes := by
  induction chunks generalizing c with
  | nil => exact ⟨c.writes, by simp [sendChunks, Conn.sent], hc⟩
  | cons chunk more ih =>
      obtain ⟨writes, he, hw⟩ := c.writex_healthy hc (dataRecord chunk)
      obtain ⟨writes', he', hw'⟩ := @ih (c.sent (dataRecord chunk) writes) hw
      refine ⟨writes', ?_, hw'⟩
      rw [sendChunks, he]
      simp only [he']
      simp [Conn.sent]

theorem finishSend_takes {mtime : UInt32} (hc : Healthy c.writes)
    (h : finishSend c mtime = .ok (0, c')) :
    c'.output = c.output ++ syncmsg [ID_DONE, mtime] ∧ Healthy c'.writes ∧
      ∃ msg, readable c.input = msg ++ readable c'.input ∧ msg.length = 8 ∧
        wordAt msg 0 = ID_OKAY := by
  obtain ⟨writes, he, hw⟩ := c.writex_healthy hc (syncmsg [ID_DONE, mtime])
  unfold finishSend at h
  rw [he] at h
  dsimp only at h
  obtain ⟨input, hread, hrest, hlen⟩ | ⟨input, hread, -⟩ :=
    (c.sent (syncmsg [ID_DONE, mtime]) writes).readx_cases 8
  case inr =>
    rw [hread] at h
    simp at h
  rw [hread] at h
  dsimp only at h
  split at h
  · rename_i hokay
    simp only [Except.ok.injEq, Prod.mk.injEq, true_and] at h
    rw [← h]
    refine ⟨rfl, hw, _, ?_, List.length_take_of_le hlen, hokay⟩
    show readable c.input = (readable c.input).take 8 ++ readable input
    rw [hrest]
    exact (List.take_append_drop 8 _).symm
  split at h
  · split at h
    · cases h
    · simp at h
    · simp at h
  · simp at h

-- A push that succeeds over a connection whose writes do: the whole request has
-- been sent, and the answer taken.
theorem syncSend_takes {apk : ApkCheck} {lfile : Option LocalFile} {rpath : List UInt8}
    {mtime mode : UInt32} {verifyApk : Bool} (hc : Healthy c.writes) (hpath : IsText rpath)
    (h : syncSend apk c lfile rpath mtime mode verifyApk = .ok (0, c')) :
    rpath.length ≤ 1024 ∧ Healthy c'.writes ∧
      c'.output = c.output ++
        (Request.send (asText rpath) mode (pushChunks lfile verifyApk) mtime).bytes ∧
      Takes (.send (asText rpath) mode (pushChunks lfile verifyApk) mtime) (readable c.input) .sent
        (readable c'.input) := by
  have hfinish : ∀ writes, Healthy writes →
      finishSend (sendChunks (c.sent (sendRequest rpath mode).flatten writes)
        (pushChunks lfile verifyApk)).2 mtime = .ok (0, c') → Healthy c'.writes ∧
      c'.output = c.output ++
        (Request.send (asText rpath) mode (pushChunks lfile verifyApk) mtime).bytes ∧
      Takes (.send (asText rpath) mode (pushChunks lfile verifyApk) mtime) (readable c.input) .sent
        (readable c'.input) := by
    intro writes hw hend
    have hsent : Healthy (c.sent (sendRequest rpath mode).flatten writes).writes := hw
    obtain ⟨writes', he, hw'⟩ := sendChunks_healthy hsent (pushChunks lfile verifyApk)
    rw [he] at hend
    obtain ⟨hout, hhealthy, msg, hin, hlen, hid⟩ := finishSend_takes hw' hend
    refine ⟨hhealthy, ?_, ?_⟩
    · rw [hout]
      simp [Conn.sent, Request.bytes, asText_val hpath, pushRecords]
    · have hsame : readable c.input = msg ++ readable c'.input := hin
      rw [hsame]
      exact .send (asText rpath) mode _ mtime msg _ hlen hid
  unfold syncSend at h
  split at h
  · simp at h
  rename_i hshort
  cases hapk : (if verifyApk then readApk apk lfile else .ok []) with
  | error code =>
      rw [hapk] at h
      simp only [Except.ok.injEq, Prod.mk.injEq] at h
      cases verifyApk with
      | true => exact absurd h.1 (readApk_error hapk)
      | false => cases hapk
  | ok buffer =>
      obtain ⟨writes, he, hw⟩ := Conn.writeAll_healthy hc (sendRequest rpath mode)
      rw [hapk, he] at h
      dsimp only at h
      refine ⟨by omega, ?_⟩
      split at h
      · rename_i hverify
        rw [hverify, if_pos rfl] at hapk
        obtain ⟨file, rfl, rfl⟩ := readApk_ok hapk
        refine hfinish writes hw ?_
        rw [writeDataBuffer_eq] at h
        simpa only [pushChunks, if_pos hverify] using h
      split at h
      · rename_i hverify hreg
        refine hfinish writes hw ?_
        unfold writeDataFile at h
        unfold pushChunks
        cases lfile with
        | none => exact h
        | some file => simpa only [writeDataLoop_eq, if_neg hverify] using h
      · simp at h

end Exchange

section Sending

variable {κ : Type} (fs : LocalFs κ) (cwd : κ)

variable {fs cwd} {apk : ApkCheck} {c c' : Conn} {files : List CopyInfo}

end Sending

end Adb.Sync
