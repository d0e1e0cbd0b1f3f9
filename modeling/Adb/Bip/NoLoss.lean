import Adb.Bip.Channel
import Adb.Bip.Fifo

namespace Adb.Bip

open Adb.Lib

-- No read reports an error while accepted bytes are still unread.
def NoLoss (c : Channel) : Prop :=
  ∀ failure ∈ c.failures, failure.returned = failure.accepted

-- The reader has found can_read clear and will test closed before it tests
-- can_read again.
def ReaderAt.pastEmptyTest : ReaderAt → Prop
  | .leftLock _ | .waiting _ | .woken _ => True
  | _ => False

def WriterAt.hasClosed : WriterAt → Prop
  | .testRead | .signalRead | .testWrite | .signalWrite | .done => True
  | _ => False

-- The step that sets closed does not come between a failed test of can_read
-- and the test of closed that follows it, once bytes have arrived in between.
def ClosesSafely (c : Channel) (move : Move) : Prop :=
  match move, c.writer with
  | .writer, .setClosed => c.reader.pastEmptyTest → c.bip.canRead = false
  | _, _ => True

instance : ∀ reader : ReaderAt, Decidable reader.pastEmptyTest
  | .idle | .enter _ => .isFalse id
  | .leftLock _ | .waiting _ | .woken _ => .isTrue trivial

instance (c : Channel) (move : Move) : Decidable (ClosesSafely c move) := by
  unfold ClosesSafely
  split <;> infer_instance

structure ChannelInv (c : Channel) : Prop where
  stored : ∃ queue, Represents c.bip queue ∧ c.accepted = c.returned ++ queue
  closed_iff : c.bip.closed = true ↔ c.writer.hasClosed
  window : c.bip.closed = true → c.reader.pastEmptyTest → c.bip.canRead = false
  noLoss : NoLoss c

theorem channelInv_init : ChannelInv channelInit where
  stored := ⟨[], represents_init, rfl⟩
  closed_iff := by simp [channelInit, bipBufferInit, WriterAt.hasClosed]
  window := by simp [channelInit, bipBufferInit]
  noLoss := by simp [NoLoss, channelInit]

-- The events play no part in what the buffer holds.
theorem Represents.of_events {bip : BipBuffer} {queue : List UInt8} (h : Represents bip queue)
    (closed evtWrite evtRead : Bool) :
    Represents { bip with closed := closed, evtWrite := evtWrite, evtRead := evtRead } queue where
  toLayout := h.toLayout.of_same_regions rfl rfl rfl rfl
  can_read := h.can_read
  can_write := h.can_write

theorem ChannelInv.unread_nil {c : Channel} (h : ChannelInv c) (hr : c.bip.canRead = false) :
    c.returned = c.accepted := by
  obtain ⟨queue, hq, ha⟩ := h.stored
  have hnil : queue = [] := by
    by_contra hne
    simp [hq.can_read.mpr hne] at hr
  rw [ha, hnil, List.append_nil]

theorem readerFails_inv {c : Channel} (h : ChannelInv c) (hr : c.bip.canRead = false) :
    ChannelInv (readerFails c) where
  stored := h.stored
  closed_iff := h.closed_iff
  window := by simp [readerFails, ReaderAt.pastEmptyTest]
  noLoss := by
    intro failure hf
    rcases List.mem_cons.mp hf with rfl | hf
    · exact h.unread_nil hr
    · exact h.noLoss failure hf

-- A locked section that is entered with nothing to move fails its assertion.
theorem readLocked_zero {bip : BipBuffer} {queue : List UInt8} (h : Represents bip queue)
    (hr : bip.canRead = true) : readLocked bip 0 = .assertFailed := by
  have hne := List.length_pos_of_ne_nil (h.can_read.mp hr)
  have hle := h.start_le_end
  have hlen := h.toLayout.length
  have hb := h.b_le_start
  have hempty := h.empty
  have havail : bip.aEnd - bip.aStart > 0 := by omega
  have hlt : bip.aStart < bip.aEnd := by omega
  simp [readLocked, havail, hlt, readExit]

theorem writeLocked_zero {bip : BipBuffer} {src : Nat → UInt8} :
    writeLocked bip src 0 = .assertFailed := by
  unfold writeLocked
  by_cases havail : BIP_BUFFER_SIZE - bip.aEnd > 0
  · have hend : bip.aEnd ≠ BIP_BUFFER_SIZE := by omega
    simp [havail, hend, writeRegionB, writeExit]
  · simp [havail, writeRegionB, writeExit]

theorem readerStep_inv {c d : Channel} (h : ChannelInv c) (hs : readerStep c = .ok d) :
    ChannelInv d := by
  unfold readerStep at hs
  split at hs
  case h_1 => cases hs
  case h_2 len hat =>
    by_cases hr : c.bip.canRead = true
    · -- the locked read takes from the front of the queue
      rw [if_pos hr] at hs
      obtain ⟨queue, hq, ha⟩ := h.stored
      rcases Nat.eq_zero_or_pos len with rfl | hpos
      · rw [readLocked_zero hq hr] at hs
        cases hs
      · obtain ⟨after, he, hrep, hc⟩ := readLocked_spec _ hq hr hpos
        simp only [he, Except.ok.injEq] at hs
        subst hs
        exact {
          stored := ⟨queue.drop len, hrep, by simp [ha]⟩
          closed_iff := by rw [hc]; exact h.closed_iff
          window := by simp [ReaderAt.pastEmptyTest]
          noLoss := h.noLoss }
    · rw [if_neg hr, Except.ok.injEq] at hs
      subst hs
      exact ⟨h.stored, h.closed_iff, fun _ _ => by simpa using hr, h.noLoss⟩
  case h_3 len hat =>
    split at hs
    · rename_i hc
      cases hs
      exact readerFails_inv h (h.window hc (by rw [hat]; trivial))
    · cases hs
      rename_i hc
      exact ⟨h.stored, h.closed_iff, fun hc' => absurd hc' hc, h.noLoss⟩
  case h_4 len hat =>
    split at hs
    · cases hs
      exact ⟨h.stored, h.closed_iff, fun hc _ => h.window hc (by rw [hat]; trivial), h.noLoss⟩
    · cases hs
  case h_5 len hat =>
    split at hs
    · rename_i hc
      cases hs
      exact readerFails_inv h (h.window hc (by rw [hat]; trivial))
    · cases hs
      exact ⟨h.stored, h.closed_iff, by simp [ReaderAt.pastEmptyTest], h.noLoss⟩

-- A step that leaves the bytes, closed and what was counted alone.
theorem ChannelInv.of_writer {c : Channel} (h : ChannelInv c) {writer : WriterAt}
    (hw : writer.hasClosed ↔ c.writer.hasClosed) (evtWrite evtRead : Bool) :
    ChannelInv { c with
      bip := { c.bip with evtWrite := evtWrite, evtRead := evtRead }, writer := writer } where
  stored := by
    obtain ⟨queue, hq, ha⟩ := h.stored
    exact ⟨queue, hq.of_events _ _ _, ha⟩
  closed_iff := h.closed_iff.trans hw.symm
  window := h.window
  noLoss := h.noLoss

theorem writerStep_inv {c d : Channel} (h : ChannelInv c) (hg : ClosesSafely c .writer)
    (hs : writerStep c = .ok d) : ChannelInv d := by
  have hsame : ∀ writer : WriterAt, (writer.hasClosed ↔ c.writer.hasClosed) →
      ChannelInv { c with writer := writer } :=
    fun writer hw => h.of_writer hw c.bip.evtWrite c.bip.evtRead
  unfold writerStep at hs
  split at hs
  case h_1 => cases hs
  case h_2 src len hat =>
    by_cases hcan : c.bip.canWrite = true
    · rw [if_pos hcan] at hs
      obtain ⟨queue, hq, ha⟩ := h.stored
      -- nothing is written after the close, so no test of closed is pending
      have hopen : c.bip.closed = false := by
        simpa [hat, WriterAt.hasClosed] using h.closed_iff
      rcases Nat.eq_zero_or_pos len with rfl | hpos
      · rw [writeLocked_zero] at hs
        cases hs
      · obtain ⟨after, he, hrep, hc⟩ := writeLocked_spec src _ hq hcan hpos
        simp only [he, Except.ok.injEq] at hs
        subst hs
        exact {
          stored := ⟨_, hrep, by simp only [Int.toNat_natCast, ha, List.append_assoc]⟩
          closed_iff := by simp [hc, hopen, WriterAt.hasClosed]
          window := by simp [hc, hopen]
          noLoss := h.noLoss }
    · rw [if_neg hcan] at hs
      cases hs
      exact hsame _ (by simp [hat, WriterAt.hasClosed])
  case h_3 src len hat =>
    cases hs
    exact hsame _ (by split <;> simp [hat, WriterAt.hasClosed])
  case h_4 src len hat =>
    split at hs
    · cases hs
      exact hsame _ (by simp [hat, WriterAt.hasClosed])
    · cases hs
  case h_5 src len hat =>
    cases hs
    exact hsame _ (by split <;> simp [hat, WriterAt.hasClosed])
  case h_6 hat =>
    cases hs
    simp only [ClosesSafely, hat] at hg
    obtain ⟨queue, hq, ha⟩ := h.stored
    exact {
      stored := ⟨queue, hq.of_events true _ _, ha⟩
      closed_iff := by simp [WriterAt.hasClosed]
      window := fun _ => hg
      noLoss := h.noLoss }
  case h_7 hat =>
    cases hs
    exact hsame _ (by split <;> simp [hat, WriterAt.hasClosed])
  case h_8 hat =>
    cases hs
    exact h.of_writer (by simp [hat, WriterAt.hasClosed]) _ true
  case h_9 hat =>
    cases hs
    exact hsame _ (by split <;> simp [hat, WriterAt.hasClosed])
  case h_10 hat =>
    cases hs
    exact h.of_writer (by simp [hat, WriterAt.hasClosed]) true _
  case h_11 => cases hs

theorem channelStep_inv (c : Channel) (move : Move) (d : Channel) (h : ChannelInv c)
    (hg : ClosesSafely c move) (hs : channelStep c move = .ok d) : ChannelInv d := by
  cases move with
  | callWrite src len =>
      simp only [channelStep] at hs
      split at hs
      · rename_i hat
        cases hs
        split
        · exact h
        · exact h.of_writer (by simp [hat, WriterAt.hasClosed]) _ _
      · cases hs
  | callClose =>
      simp only [channelStep] at hs
      split at hs
      · rename_i hat
        cases hs
        exact h.of_writer (by simp [hat, WriterAt.hasClosed]) _ _
      · cases hs
  | writer => exact writerStep_inv h hg hs
  | callRead len =>
      simp only [channelStep] at hs
      split at hs
      · cases hs
        split
        · exact h
        · exact ⟨h.stored, h.closed_iff, by simp [ReaderAt.pastEmptyTest], h.noLoss⟩
      · cases hs
  | reader => exact readerStep_inv h hs

-- Whatever the two threads do, no read reports an error before the accepted
-- bytes are read, as long as the writer does not set closed while the reader
-- stands between a failed test of can_read and its test of closed and bytes
-- have arrived since.
theorem no_loss_on_close (moves : List Move) (c : Channel)
    (hg : Guarded channelStep ClosesSafely channelInit moves)
    (hr : run channelStep channelInit moves = .ok c) : NoLoss c :=
  (guarded_invariant channelStep_inv channelInv_init hg hr).noLoss

-- A read that waits is woken by a write and takes its byte, the writer closes,
-- and the next read reports the end with nothing left behind.
theorem no_loss_when_closed_after_the_read :
    ∃ c, c.failures = [⟨[120], [120]⟩] ∧ NoLoss c := by
  exact ⟨_, rfl, no_loss_on_close
    [.callRead 1, .reader, .reader, .callWrite (fun _ => 120) 1, .writer, .reader, .reader,
      .reader, .callClose, .writer, .writer, .callRead 1, .reader, .reader] _ (by decide) rfl⟩

-- The reader finds the buffer empty, and a byte is accepted and the end closed
-- before it tests closed.
theorem close_can_lose_bytes :
    ¬ ∀ (moves : List Move) (c : Channel),
      run channelStep channelInit moves = .ok c → NoLoss c := by
  intro h
  have hloss := h [.callRead 1, .reader, .callWrite (fun _ => 120) 1, .writer, .callClose,
    .writer, .reader] _ rfl
  have hfail := hloss ⟨[120], []⟩ (List.mem_cons_self ..)
  simp at hfail

end Adb.Bip
