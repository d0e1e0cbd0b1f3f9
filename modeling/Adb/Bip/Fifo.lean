import Adb.Bip.Buffer
import Adb.Lib.Fifo
import Adb.Lib.Refine

namespace Adb.Bip

open Adb.Lib

section Bytes

variable {p q : Nat → UInt8} {offset count dst len : Nat}

@[simp] theorem length_bytesAt : (bytesAt p offset count).length = count := by
  simp [bytesAt]

theorem append_bytesAt_ne_nil (queue : List UInt8) (h : 0 < count) : queue ++ bytesAt p offset count ≠ [] := by
  apply List.ne_nil_of_length_pos
  simp only [List.length_append, length_bytesAt]
  omega

@[simp] theorem bytesAt_zero : bytesAt p offset 0 = [] := rfl

theorem bytesAt_add (m n : Nat) :
    bytesAt p offset (m + n) = bytesAt p offset m ++ bytesAt p (offset + m) n := by
  simp only [bytesAt, List.range_add, List.map_append, List.map_map]
  congr 1
  apply List.map_congr_left
  intro i _
  simp [Nat.add_assoc]

theorem bytesAt_shift : bytesAt (fun i => p (offset + i)) 0 count = bytesAt p offset count := by
  simp [bytesAt]

theorem take_bytesAt (n : Nat) : (bytesAt p offset count).take n = bytesAt p offset (min n count) := by
  by_cases h : n ≤ count
  · obtain ⟨rest, rfl⟩ := Nat.exists_eq_add_of_le h
    rw [bytesAt_add, List.take_left' length_bytesAt]
    simp
  · rw [List.take_of_length_le (by simp; omega), Nat.min_eq_right (by omega)]

theorem drop_bytesAt (n : Nat) (h : n ≤ count) :
    (bytesAt p offset count).drop n = bytesAt p (offset + n) (count - n) := by
  obtain ⟨rest, rfl⟩ := Nat.exists_eq_add_of_le h
  rw [bytesAt_add, List.drop_left' length_bytesAt]
  simp

theorem bytesAt_memcpy_self : bytesAt (memcpy p dst q len) dst len = bytesAt q 0 len := by
  apply List.map_congr_left
  intro i hi
  have := List.mem_range.mp hi
  simp [memcpy, this]

theorem bytesAt_memcpy_disjoint (h : offset + count ≤ dst ∨ dst + len ≤ offset) :
    bytesAt (memcpy p dst q len) offset count = bytesAt p offset count := by
  apply List.map_congr_left
  intro i hi
  have := List.mem_range.mp hi
  have hn : ¬(dst ≤ offset + i ∧ offset + i < dst + len) := by omega
  simp [memcpy, hn]

end Bytes

def contents (bip : BipBuffer) : List UInt8 :=
  bytesAt bip.buff bip.aStart (bip.aEnd - bip.aStart) ++ bytesAt bip.buff 0 bip.bEnd

-- Region B is in use only when region A reaches the end of the buffer, and
-- region A is used up only in the empty buffer.
structure Layout (bip : BipBuffer) (queue : List UInt8) : Prop where
  start_le_end : bip.aStart ≤ bip.aEnd
  end_le_size : bip.aEnd ≤ BIP_BUFFER_SIZE
  b_le_start : bip.bEnd ≤ bip.aStart
  b_used : 0 < bip.bEnd → bip.aEnd = BIP_BUFFER_SIZE
  empty : bip.aStart = bip.aEnd → bip.aEnd = 0
  contents_eq : contents bip = queue

structure Represents (bip : BipBuffer) (queue : List UInt8) : Prop extends Layout bip queue where
  can_read : bip.canRead = true ↔ queue ≠ []
  can_write : bip.canWrite = true ↔ queue.length < BIP_BUFFER_SIZE

variable {bip : BipBuffer} {queue : List UInt8} {src : Nat → UInt8} {count len : Nat}

theorem Layout.length (h : Layout bip queue) :
    queue.length = (bip.aEnd - bip.aStart) + bip.bEnd := by
  rw [← h.contents_eq]
  simp [contents]

theorem Layout.length_le (h : Layout bip queue) : queue.length ≤ BIP_BUFFER_SIZE := by
  have := h.length
  have := h.start_le_end
  have := h.end_le_size
  have := h.b_le_start
  omega

-- The layout is a matter of the indices and the bytes alone.
theorem Layout.of_same_regions {other : BipBuffer} (hl : Layout bip queue)
    (hs : other.aStart = bip.aStart) (he : other.aEnd = bip.aEnd) (hb : other.bEnd = bip.bEnd)
    (hc : other.buff = bip.buff) : Layout other queue where
  start_le_end := by rw [hs, he]; exact hl.start_le_end
  end_le_size := by rw [he]; exact hl.end_le_size
  b_le_start := by rw [hs, hb]; exact hl.b_le_start
  b_used := by rw [hb, he]; exact hl.b_used
  empty := by rw [hs, he]; exact hl.empty
  contents_eq := by rw [← hl.contents_eq, contents, contents, hs, he, hb, hc]

theorem represents_init : Represents bipBufferInit [] where
  start_le_end := Nat.le_refl 0
  end_le_size := Nat.zero_le _
  b_le_start := Nat.le_refl 0
  b_used := by simp [bipBufferInit]
  empty := fun _ => rfl
  contents_eq := rfl
  can_read := by simp [bipBufferInit]
  can_write := by simp [bipBufferInit, BIP_BUFFER_SIZE]

variable (count) in
theorem writeExit_spec (hl : Layout bip queue) (hne : queue ≠ [])
    (hw : bip.canWrite = true ↔ queue.length < BIP_BUFFER_SIZE) (hc : 0 < count) :
    ∃ after, writeExit bip count = .returned count after ∧ Represents after queue ∧
      after.closed = bip.closed := by
  unfold writeExit
  rw [if_pos hc]
  refine ⟨_, rfl, ?_, ?_⟩
  · split
    · rename_i hr
      exact ⟨hl, by simp [hr, hne], hw⟩
    · exact ⟨hl.of_same_regions rfl rfl rfl rfl, by simp [hne], hw⟩
  · split <;> rfl

variable (src) in
theorem Layout.append_b (hl : Layout bip queue) (hend : bip.aEnd = BIP_BUFFER_SIZE) (n : Nat)
    (hn : bip.bEnd + n ≤ bip.aStart) :
    Layout { bip with buff := memcpy bip.buff bip.bEnd src n, bEnd := bip.bEnd + n }
      (queue ++ bytesAt src 0 n) where
  start_le_end := hl.start_le_end
  end_le_size := hl.end_le_size
  b_le_start := hn
  b_used := fun _ => hend
  empty := hl.empty
  contents_eq := by
    rw [← hl.contents_eq]
    simp only [contents, bytesAt_add, Nat.zero_add, bytesAt_memcpy_self, List.append_assoc]
    rw [bytesAt_memcpy_disjoint (Or.inr hn), bytesAt_memcpy_disjoint (Or.inl (by omega))]

variable (src) in
theorem Layout.append_a (hl : Layout bip queue) (n : Nat) (hpos : 0 < n)
    (hn : bip.aEnd + n ≤ BIP_BUFFER_SIZE) :
    Layout { bip with buff := memcpy bip.buff bip.aEnd src n, aEnd := bip.aEnd + n }
      (queue ++ bytesAt src 0 n) where
  start_le_end := by have := hl.start_le_end; simp only; omega
  end_le_size := hn
  b_le_start := hl.b_le_start
  b_used := by intro hb; have := hl.b_used hb; omega
  empty := by intro he; have := hl.start_le_end; simp only at he; omega
  contents_eq := by
    have hb : bip.bEnd = 0 := by
      by_contra h
      have := hl.b_used (Nat.pos_of_ne_zero h)
      omega
    have hs := hl.start_le_end
    have hlen : bip.aEnd + n - bip.aStart = (bip.aEnd - bip.aStart) + n := by omega
    rw [← hl.contents_eq]
    simp only [contents, hb, bytesAt_zero, List.append_nil, hlen, bytesAt_add]
    rw [Nat.add_sub_cancel' hs, bytesAt_memcpy_self, bytesAt_memcpy_disjoint (Or.inl (by omega))]

-- Region A reaches the end of the buffer here unless nothing is left to store.
variable (src count len) in
theorem writeRegionB_spec (hl : Layout bip queue) (hw : bip.canWrite = true)
    (hroom : queue.length < BIP_BUFFER_SIZE) (hend : bip.aEnd = BIP_BUFFER_SIZE ∨ len = 0)
    (hne : 0 < count → queue ≠ []) (hpos : 0 < count + len) :
    ∃ after, writeRegionB bip src count len =
        .returned (count + min (BIP_BUFFER_SIZE - queue.length) len : Nat) after ∧
      Represents after (queue ++ bytesAt src 0 (min (BIP_BUFFER_SIZE - queue.length) len)) ∧
      after.closed = bip.closed := by
  unfold writeRegionB
  by_cases hz : len = 0
  · subst hz
    obtain ⟨after, he, hr, hc⟩ :=
      writeExit_spec count hl (hne (by omega)) (by simp [hw, hroom]) (by omega)
    exact ⟨after, by simpa using he, by simpa using hr, hc⟩
  · have hend := hend.resolve_right hz
    have hlen := hl.length
    have hle := hl.start_le_end
    have hb := hl.b_le_start
    have hfree : BIP_BUFFER_SIZE - queue.length = bip.aStart - bip.bEnd := by omega
    have havail : bip.aStart - bip.bEnd > 0 := by omega
    rw [if_neg hz, hfree]
    simp only [havail, if_true]
    obtain ⟨n, hn⟩ : ∃ n, n = min (bip.aStart - bip.bEnd) len := ⟨_, rfl⟩
    have hnpos : 0 < n := by omega
    have hlayout := hl.append_b src hend n (by omega)
    have hqlen := hlayout.length
    simp only at hqlen
    rw [← hn]
    have hnonempty : queue ++ bytesAt src 0 n ≠ [] := append_bytesAt_ne_nil queue (by omega)
    by_cases hfull : bip.bEnd + n = bip.aStart
    · rw [if_pos hfull]
      exact writeExit_spec _ (hlayout.of_same_regions rfl rfl rfl rfl) hnonempty
        (by simp only [Bool.false_eq_true, false_iff]; omega) (by omega)
    · rw [if_neg hfull]
      exact writeExit_spec _ hlayout hnonempty (by simp only [hw, true_iff]; omega) (by omega)

variable (src len) in
theorem writeLocked_spec (h : Represents bip queue) (hw : bip.canWrite = true) (hpos : 0 < len) :
    ∃ after, writeLocked bip src len =
        .returned (min (BIP_BUFFER_SIZE - queue.length) len : Nat) after ∧
      Represents after (queue ++ bytesAt src 0 (min (BIP_BUFFER_SIZE - queue.length) len)) ∧
      after.closed = bip.closed := by
  have hl := h.toLayout
  have hroom := h.can_write.mp hw
  have hlen := hl.length
  have hle := hl.start_le_end
  have hb := hl.b_le_start
  unfold writeLocked
  by_cases havail : BIP_BUFFER_SIZE - bip.aEnd > 0
  · have hb0 : bip.bEnd = 0 := by
      by_contra hne
      have := hl.b_used (Nat.pos_of_ne_zero hne)
      omega
    simp only [havail, if_true]
    obtain ⟨n, hn⟩ : ∃ n, n = min (BIP_BUFFER_SIZE - bip.aEnd) len := ⟨_, rfl⟩
    have hlayout := hl.append_a src n (by omega) (by omega)
    have hqlen := hlayout.length
    simp only at hqlen
    rw [← hn]
    have hnonempty : queue ++ bytesAt src 0 n ≠ [] := append_bytesAt_ne_nil queue (by omega)
    by_cases hfull : bip.aEnd + n = BIP_BUFFER_SIZE ∧ bip.aStart = 0
    · -- region A spans the whole buffer: what does not fit is refused
      have htaken : min (BIP_BUFFER_SIZE - queue.length) len = n := by omega
      rw [if_pos hfull, htaken]
      exact writeExit_spec _ (hlayout.of_same_regions rfl rfl rfl rfl) hnonempty
        (by simp only [Bool.false_eq_true, false_iff]; omega) (by omega)
    · rw [if_neg hfull]
      have hnlen : (queue ++ bytesAt src 0 n).length = queue.length + n := by simp
      obtain ⟨after, he, hr, hc⟩ := writeRegionB_spec (fun i => src (n + i)) n
        (len - n) hlayout hw (by omega) (by simp only; omega) (fun _ => hnonempty) (by omega)
      have htaken : min (BIP_BUFFER_SIZE - queue.length) len =
          n + min (BIP_BUFFER_SIZE - (queue ++ bytesAt src 0 n).length) (len - n) := by omega
      refine ⟨after, by rw [he, htaken], ?_, hc⟩
      rw [htaken, bytesAt_add, Nat.zero_add, ← List.append_assoc]
      rwa [bytesAt_shift] at hr
  · simp only [havail, if_false]
    have hend := hl.end_le_size
    obtain ⟨after, he, hr, hc⟩ := writeRegionB_spec src 0 len hl hw
      hroom (by omega) (by omega) (by omega)
    exact ⟨after, by simpa using he, hr, hc⟩

theorem readExit_spec {dst : List UInt8} (hl : Layout bip queue)
    (hr : bip.canRead = true ↔ queue ≠ []) (hroom : queue.length < BIP_BUFFER_SIZE)
    (hd : 0 < dst.length) :
    ∃ after, readExit bip dst = .returned dst after ∧ Represents after queue ∧
      after.closed = bip.closed := by
  unfold readExit
  rw [if_pos hd]
  refine ⟨_, rfl, ?_, ?_⟩
  · split
    · rename_i hw
      exact ⟨hl, hr, by simp [hw, hroom]⟩
    · exact ⟨hl.of_same_regions rfl rfl rfl rfl, hr, by simp [hroom]⟩
  · split <;> rfl

-- An empty buffer is stored with all three indices at zero.
theorem Layout.empty_regions (hs : bip.aStart = 0) (he : bip.aEnd = 0) (hb : bip.bEnd = 0) :
    Layout bip [] where
  start_le_end := by omega
  end_le_size := by omega
  b_le_start := by omega
  b_used := by omega
  empty := fun _ => he
  contents_eq := by simp [contents, hs, he, hb]

-- Region B has become region A and n of its bytes are gone.
theorem Layout.region_a {n : Nat} (hn : n < bip.bEnd) (hb : bip.bEnd ≤ BIP_BUFFER_SIZE) :
    Layout { bip with aStart := n, aEnd := bip.bEnd, bEnd := 0 }
      ((bytesAt bip.buff 0 bip.bEnd).drop n) where
  start_le_end := Nat.le_of_lt hn
  end_le_size := hb
  b_le_start := Nat.zero_le _
  b_used := by simp
  empty := by intro he; simp only at he; omega
  contents_eq := by simp [contents, drop_bytesAt n (Nat.le_of_lt hn)]

variable (bip len) in
theorem readRegionB_spec (dst : List UInt8) (hr : bip.canRead = true)
    (hb : bip.bEnd < BIP_BUFFER_SIZE) (hd : 0 < dst.length) :
    ∃ after, readRegionB bip dst len =
        .returned (dst ++ (bytesAt bip.buff 0 bip.bEnd).take len) after ∧
      Represents after ((bytesAt bip.buff 0 bip.bEnd).drop len) ∧ after.closed = bip.closed := by
  unfold readRegionB
  by_cases hpos : bip.bEnd > 0
  · simp only [hpos, if_true, Nat.zero_add]
    obtain ⟨n, hn⟩ : ∃ n, n = min bip.bEnd len := ⟨_, rfl⟩
    have htake : (bytesAt bip.buff 0 bip.bEnd).take len = bytesAt bip.buff 0 n := by
      rw [take_bytesAt, Nat.min_comm, hn]
    have hdst : 0 < (dst ++ bytesAt bip.buff 0 n).length := by simp only [List.length_append]; omega
    rw [htake, ← hn]
    by_cases hleft : n < bip.bEnd
    · have hlen : n = len := by omega
      rw [if_pos hleft, ← hlen]
      have hrest : (bytesAt bip.buff 0 bip.bEnd).drop n ≠ [] := by
        apply List.ne_nil_of_length_pos
        simp only [List.length_drop, length_bytesAt]
        omega
      exact readExit_spec (Layout.region_a hleft (by omega)) (by simp [hr, hrest])
        (by simp only [List.length_drop, length_bytesAt]; omega) hdst
    · have hdrop : (bytesAt bip.buff 0 bip.bEnd).drop len = [] :=
        List.drop_eq_nil_of_le (by simp only [length_bytesAt]; omega)
      rw [if_neg hleft, hdrop]
      exact readExit_spec (Layout.empty_regions rfl rfl rfl) (by simp)
        (by simp [BIP_BUFFER_SIZE]) hdst
  · have hz : bip.bEnd = 0 := by omega
    simp only [hz, gt_iff_lt, Nat.lt_irrefl, if_false, bytesAt_zero, List.take_nil,
      List.drop_nil, List.append_nil]
    exact readExit_spec (Layout.empty_regions rfl rfl rfl) (by simp) (by simp [BIP_BUFFER_SIZE]) hd

variable (len) in
theorem readLocked_spec (h : Represents bip queue) (hr : bip.canRead = true) (hpos : 0 < len) :
    ∃ after, readLocked bip len = .returned (queue.take len) after ∧
      Represents after (queue.drop len) ∧ after.closed = bip.closed := by
  have hl := h.toLayout
  have hne := h.can_read.mp hr
  have hle := hl.start_le_end
  have hend := hl.end_le_size
  have hb := hl.b_le_start
  have hlen := hl.length
  have hqpos := List.length_pos_of_ne_nil hne
  have havail : bip.aEnd - bip.aStart > 0 := by
    by_contra hz
    have := hl.empty (by omega)
    omega
  unfold readLocked
  simp only [havail, if_true]
  obtain ⟨n, hn⟩ : ∃ n, n = min (bip.aEnd - bip.aStart) len := ⟨_, rfl⟩
  rw [← hn]
  have hqueue : queue = bytesAt bip.buff bip.aStart n ++
      (bytesAt bip.buff (bip.aStart + n) (bip.aEnd - bip.aStart - n) ++
        bytesAt bip.buff 0 bip.bEnd) := by
    have hsplit : bip.aEnd - bip.aStart = n + (bip.aEnd - bip.aStart - n) := by omega
    rw [← hl.contents_eq, contents, hsplit, bytesAt_add, List.append_assoc,
      Nat.add_sub_cancel_left]
  by_cases hleft : bip.aStart + n < bip.aEnd
  · -- region A has bytes left, so len was the limit
    have hlen' : len = n := by omega
    have hlayout : Layout { bip with aStart := bip.aStart + n }
        (bytesAt bip.buff (bip.aStart + n) (bip.aEnd - bip.aStart - n) ++
          bytesAt bip.buff 0 bip.bEnd) :=
      { start_le_end := Nat.le_of_lt hleft
        end_le_size := hend
        b_le_start := by simp only; omega
        b_used := hl.b_used
        empty := by intro he; simp only at he; omega
        contents_eq := by simp only [contents]; rw [Nat.sub_sub] }
    have hlayoutLen := hlayout.length
    simp only at hlayoutLen
    rw [if_pos hleft, hlen', hqueue, List.take_left' length_bytesAt, List.drop_left' length_bytesAt]
    refine readExit_spec hlayout ?_ (by omega) (by simp only [length_bytesAt]; omega)
    simp only [hr, true_iff]
    exact List.ne_nil_of_length_pos (by omega)
  · have hn' : n = bip.aEnd - bip.aStart := by omega
    have hrest : queue = bytesAt bip.buff bip.aStart n ++ bytesAt bip.buff 0 bip.bEnd := by
      rw [hqueue, hn', Nat.sub_self, bytesAt_zero, List.nil_append]
    obtain ⟨after, he, hrep, hc⟩ := readRegionB_spec { bip with aStart := bip.aStart + n } (len - n)
      (bytesAt bip.buff bip.aStart n) hr (by simp only; omega)
      (by simp only [length_bytesAt]; omega)
    have htake : queue.take len = bytesAt bip.buff bip.aStart n ++
        (bytesAt bip.buff 0 bip.bEnd).take (len - n) := by
      rw [hrest, List.take_append, length_bytesAt, List.take_of_length_le (by simp; omega)]
    have hdrop : queue.drop len = (bytesAt bip.buff 0 bip.bEnd).drop (len - n) := by
      rw [hrest, List.drop_append, length_bytesAt, List.drop_eq_nil_of_le (by simp; omega),
        List.nil_append]
    rw [if_neg hleft, htake, hdrop]
    exact ⟨after, he, hrep, hc⟩

-- A call of the two functions, and what it answers.
inductive BipCall where
  | write (src : Nat → UInt8) (len : Int)
  | read (len : Int)

inductive Stuck where
  | wouldBlock
  | assertion
deriving DecidableEq

def BipCall.request : BipCall → Fifo.Call UInt8
  | .write src len => .put (bytesAt src 0 len.toNat)
  | .read len => .get len.toNat

def Outcome.answer {α : Type} (f : α → Fifo.Answer UInt8) :
    Outcome α → Except Stuck (Fifo.Answer UInt8 × BipBuffer)
  | .returned value bip => .ok (f value, bip)
  | .waiting => .error .wouldBlock
  | .assertFailed => .error .assertion

def serve (bip : BipBuffer) : BipCall → Except Stuck (Fifo.Answer UInt8 × BipBuffer)
  | .write src len => (bipBufferWrite bip src len).answer fun count => .accepted count.toNat
  | .read len => (bipBufferRead bip len).answer .got

def Stuck.ofWait : Fifo.Wait → Stuck
  | .wouldBlock => .wouldBlock

-- One call answers what the queue answers, and waits exactly when the queue
-- makes it wait.
theorem serve_agrees (bip : BipBuffer) (queue : List UInt8) (call : BipCall)
    (h : Represents bip queue) :
    Agrees Represents Stuck.ofWait (serve bip call)
      (Fifo.serve BIP_BUFFER_SIZE queue call.request) := by
  cases call with
  | write src len =>
      by_cases hpos : len ≤ 0
      · have hz : len.toNat = 0 := by omega
        simp only [BipCall.request, hz, bytesAt_zero, Fifo.serve, if_true, serve, bipBufferWrite,
          hpos, Outcome.answer]
        exact ⟨bip, rfl, h⟩
      · have hne : bytesAt src 0 len.toNat ≠ [] :=
          List.ne_nil_of_length_pos (by simp only [length_bytesAt]; omega)
        simp only [BipCall.request, Fifo.serve, hne, if_false, serve, bipBufferWrite, hpos]
        by_cases hroom : queue.length < BIP_BUFFER_SIZE
        · have hw := h.can_write.mpr hroom
          obtain ⟨after, he, hr, -⟩ := writeLocked_spec src len.toNat h hw (by omega)
          simp only [hroom, if_true, hw, he, Outcome.answer, take_bytesAt, length_bytesAt,
            Int.toNat_natCast]
          exact ⟨after, rfl, hr⟩
        · have hw : bip.canWrite = false := by
            simpa [hroom] using h.can_write
          simp [hroom, hw, Outcome.answer, Agrees, Stuck.ofWait]
  | read len =>
      by_cases hpos : len ≤ 0
      · have hz : len.toNat = 0 := by omega
        simp only [BipCall.request, hz, Fifo.serve, if_true, serve, bipBufferRead, hpos,
          Outcome.answer]
        exact ⟨bip, rfl, h⟩
      · have hlen : len.toNat ≠ 0 := by omega
        simp only [BipCall.request, Fifo.serve, hlen, if_false, serve, bipBufferRead, hpos]
        by_cases hq : queue = []
        · have hr : bip.canRead = false := by
            simpa [hq] using h.can_read
          simp [hq, hr, Outcome.answer, Agrees, Stuck.ofWait]
        · have hr := h.can_read.mpr hq
          obtain ⟨after, he, hrep, -⟩ := readLocked_spec len.toNat h hr (by omega)
          simp only [hq, if_false, hr, if_true, he, Outcome.answer]
          exact ⟨after, rfl, hrep⟩

-- From the fresh buffer on, any sequence of calls gets the answers of the
-- bounded queue of bytes, and no assertion fails. The flags are the two tests
-- of the queue.
theorem bip_buffer_is_fifo (calls : List BipCall) :
    match answers (Fifo.serve BIP_BUFFER_SIZE) [] (calls.map BipCall.request) with
    | .ok (replies, queue) =>
        ∃ bip, answers serve bipBufferInit calls = .ok (replies, bip) ∧ contents bip = queue ∧
          (bip.canRead = true ↔ queue ≠ []) ∧
          (bip.canWrite = true ↔ queue.length < BIP_BUFFER_SIZE)
    | .error _ => answers serve bipBufferInit calls = .error .wouldBlock := by
  have h := answers_agree serve_agrees represents_init calls
  cases hs : answers (Fifo.serve BIP_BUFFER_SIZE) [] (calls.map BipCall.request) with
  | error wait =>
      rw [hs] at h
      cases wait
      exact h
  | ok served =>
      rw [hs] at h
      obtain ⟨after, he, hr⟩ := h
      exact ⟨after, he, hr.contents_eq, hr.can_read, hr.can_write⟩

end Adb.Bip
