import Adb.Bip.NoLoss

namespace Adb.Bip

open Adb.Lib

-- Where a thread stands in a call of bip_buffer_write or bip_buffer_read.
inductive CallAt where
  | enter
  | leftLock
  | waiting
  | woken
deriving DecidableEq

-- write_packet and transport_write_action are the same loop: p and len are
-- what is left of the unit, here beside the unit itself.
structure UnitWriter where
  stands : CallAt
  unit : List UInt8
  p : Nat → UInt8
  len : Nat

-- read_packet and transport_read_action: got is what p has passed.
structure UnitReader where
  stands : CallAt
  got : List UInt8
  len : Nat

-- What one critical section of bip_buffer_write took of its thread's unit.
structure Section where
  thread : Nat
  unit : List UInt8
  part : List UInt8
deriving DecidableEq

-- One direction of a socket pair with any number of writing threads. The lists
-- are the calls made, the critical sections in their order, the writes that
-- returned (true for 0 and false for -1) and what the reads returned.
structure UnitChannel where
  bip : BipBuffer
  writer : Nat → Option UnitWriter
  reader : Option UnitReader
  calls : List (Nat × List UInt8)
  sections : List Section
  writes : List (Nat × List UInt8 × Bool)
  reads : List (Option (List UInt8))

def unitChannelInit : UnitChannel where
  bip := bipBufferInit
  writer := fun _ => none
  reader := none
  calls := []
  sections := []
  writes := []
  reads := []

inductive UnitMove where
  | callWrite (thread : Nat) (object : Nat → UInt8)
  | writer (thread : Nat)
  | callRead
  | reader

def UnitChannel.setWriter (c : UnitChannel) (thread : Nat) (w : Option UnitWriter) : UnitChannel :=
  { c with writer := Function.update c.writer thread w }

-- The write functions return.
def UnitChannel.finishWrite (c : UnitChannel) (thread : Nat) (w : UnitWriter) (ok : Bool) :
    UnitChannel :=
  { c.setWriter thread none with writes := c.writes ++ [(thread, w.unit, ok)] }

-- What the loop does with the return value r of adb_write.
def afterWrite (c : UnitChannel) (thread : Nat) (w : UnitWriter) (r : Int) : UnitChannel :=
  if r > 0 then
    let len := w.len - r.toNat
    if len > 0 then
      c.setWriter thread (some
        { w with stands := .enter, p := fun i => w.p (r.toNat + i), len := len })
    else
      c.finishWrite thread w true
  else
    c.finishWrite thread w false

def unitWriterStep (c : UnitChannel) (thread : Nat) : Except NoMove UnitChannel :=
  match c.writer thread with
  | none => .error .disabled
  | some w =>
      match w.stands with
      | .enter =>
          if c.bip.canWrite then
            match writeLocked c.bip w.p w.len with
            | .returned r bip =>
                let taken := ⟨thread, w.unit, bytesAt w.p 0 r.toNat⟩
                .ok (afterWrite { c with bip, sections := c.sections ++ [taken] } thread w r)
            | _ => .error .assertion
          else
            .ok (c.setWriter thread (some { w with stands := .leftLock }))
      | .leftLock =>
          if c.bip.closed then .ok (afterWrite c thread w (-1))
          else .ok (c.setWriter thread (some { w with stands := .waiting }))
      | .waiting =>
          if c.bip.evtWrite then .ok (c.setWriter thread (some { w with stands := .woken }))
          else .error .waits
      | .woken =>
          if c.bip.closed then .ok (afterWrite c thread w (-1))
          else .ok (c.setWriter thread (some { w with stands := .enter }))

def UnitChannel.finishRead (c : UnitChannel) (result : Option (List UInt8)) : UnitChannel :=
  { c with reader := none, reads := c.reads ++ [result] }

-- What the loop does with what adb_read returned and stored at p; a failed
-- call returns -1 and stores nothing.
def afterRead (c : UnitChannel) (r : UnitReader) : Option (List UInt8) → UnitChannel
  | some dst =>
      if dst.length > 0 then
        let got := r.got ++ dst
        let len := r.len - dst.length
        if len > 0 then
          { c with reader := some ⟨.enter, got, len⟩ }
        else
          c.finishRead (some got)
      else
        c.finishRead none
  | none => c.finishRead none

def unitReaderStep (c : UnitChannel) : Except NoMove UnitChannel :=
  match c.reader with
  | none => .error .disabled
  | some r =>
      match r.stands with
      | .enter =>
          if c.bip.canRead then
            match readLocked c.bip r.len with
            | .returned dst bip => .ok (afterRead { c with bip } r (some dst))
            | _ => .error .assertion
          else
            .ok { c with reader := some { r with stands := .leftLock } }
      | .leftLock =>
          if c.bip.closed then .ok (afterRead c r none)
          else .ok { c with reader := some { r with stands := .waiting } }
      | .waiting =>
          if c.bip.evtRead then .ok { c with reader := some { r with stands := .woken } }
          else .error .waits
      | .woken =>
          if c.bip.closed then .ok (afterRead c r none)
          else .ok { c with reader := some { r with stands := .enter } }

-- size is sizeof(apacket*) or sizeof(struct tmsg).
def unitStep (size : Nat) (c : UnitChannel) : UnitMove → Except NoMove UnitChannel
  | .callWrite thread object =>
      match c.writer thread with
      | none =>
          let unit := bytesAt object 0 size
          .ok { c.setWriter thread (some ⟨.enter, unit, object, size⟩) with
            calls := c.calls ++ [(thread, unit)] }
      | some _ => .error .disabled
  | .writer thread => unitWriterStep c thread
  | .callRead =>
      match c.reader with
      | none => .ok { c with reader := some ⟨.enter, [], size⟩ }
      | some _ => .error .disabled
  | .reader => unitReaderStep c

-- The units that one thread asked to write, those that its critical sections
-- were about, and the one it still has to write.
def callsOf (calls : List (Nat × List UInt8)) (thread : Nat) : List (List UInt8) :=
  (calls.filter (·.1 = thread)).map (·.2)

def sectionsOf (sections : List Section) (thread : Nat) : List (List UInt8) :=
  (sections.filter (·.thread = thread)).map (·.unit)

def pendingOf (writer : Option UnitWriter) : List (List UInt8) :=
  (writer.map (·.unit)).toList

-- A writer that none of its unit has been taken from.
def UnitWriter.Ready (size : Nat) (w : UnitWriter) : Prop :=
  w.len = size ∧ w.unit = bytesAt w.p 0 size

-- The sections so far are whole units, and the buffer holds those that no read
-- has returned, one behind the other.
structure Whole (size : Nat) (c : UnitChannel) (unread : List (List UInt8)) : Prop where
  stored : Represents c.bip unread.flatten
  sized : ∀ unit ∈ unread, unit.length = size
  order : c.sections.map (fun s => some s.unit) = c.reads ++ unread.map some
  parts : ∀ s ∈ c.sections, s.part = s.unit ∧ s.unit.length = size
  writes : c.writes = c.sections.map fun s => (s.thread, s.unit, true)
  opened : c.bip.closed = false
  writing : ∀ thread w, c.writer thread = some w → w.Ready size
  reading : ∀ r, c.reader = some r → r.len = size ∧ r.got = []
  calls : ∀ thread, callsOf c.calls thread =
    sectionsOf c.sections thread ++ pendingOf (c.writer thread)

theorem whole_init (size : Nat) : Whole size unitChannelInit [] where
  stored := represents_init
  sized := by simp
  order := rfl
  parts := by simp [unitChannelInit]
  writes := rfl
  opened := rfl
  writing := by simp [unitChannelInit]
  reading := by simp [unitChannelInit]
  calls := fun _ => rfl

section Steps

variable {size : Nat} {c d : UnitChannel} {unread : List (List UInt8)} {thread : Nat}

theorem ready_setWriter (h : ∀ thread w, c.writer thread = some w → w.Ready size)
    {new : Option UnitWriter} (hnew : ∀ w, new = some w → w.Ready size) :
    ∀ other w, (c.setWriter thread new).writer other = some w → w.Ready size := by
  intro other w hw
  by_cases heq : other = thread
  · subst heq
    simp only [UnitChannel.setWriter, Function.update_self] at hw
    exact hnew w hw
  · simp only [UnitChannel.setWriter, Function.update_of_ne heq] at hw
    exact h other w hw

theorem callsOf_append (calls : List (Nat × List UInt8)) (thread other : Nat)
    (unit : List UInt8) :
    callsOf (calls ++ [(thread, unit)]) other =
      callsOf calls other ++ if thread = other then [unit] else [] := by
  by_cases heq : thread = other <;> simp [callsOf, heq]

theorem sectionsOf_append (sections : List Section) (s : Section) (other : Nat) :
    sectionsOf (sections ++ [s]) other =
      sectionsOf sections other ++ if s.thread = other then [s.unit] else [] := by
  by_cases heq : s.thread = other <;> simp [sectionsOf, heq]

-- A thread that only moves on inside its call.
theorem Whole.moveWriter (h : Whole size c unread) {w : UnitWriter}
    (hw : c.writer thread = some w) (stands : CallAt) :
    Whole size (c.setWriter thread (some { w with stands := stands })) unread where
  stored := h.stored
  sized := h.sized
  order := h.order
  parts := h.parts
  writes := h.writes
  opened := h.opened
  writing := ready_setWriter h.writing fun w' hw' => by
    cases hw'
    exact h.writing thread w hw
  reading := h.reading
  calls := by
    intro other
    have hcalls := h.calls other
    by_cases heq : other = thread
    · subst heq
      simpa [UnitChannel.setWriter, pendingOf, hw] using hcalls
    · simpa [UnitChannel.setWriter, heq] using hcalls

theorem Whole.moveReader (h : Whole size c unread) {r : UnitReader} (hr : c.reader = some r)
    (stands : CallAt) : Whole size { c with reader := some { r with stands := stands } } unread where
  stored := h.stored
  sized := h.sized
  order := h.order
  parts := h.parts
  writes := h.writes
  opened := h.opened
  writing := h.writing
  reading := by
    intro r' hr'
    cases hr'
    exact h.reading r hr
  calls := h.calls

-- A call that is let in finds room for its whole unit.
theorem Whole.writeSection (h : Whole size c unread) (hd : size ∣ BIP_BUFFER_SIZE)
    {w : UnitWriter} (hw : c.writer thread = some w) (hcan : c.bip.canWrite = true) :
    ∃ after, writeLocked c.bip w.p w.len = .returned size after ∧
      Represents after (unread.flatten ++ w.unit) ∧ after.closed = false := by
  obtain ⟨hlen, hunit⟩ := h.writing thread w hw
  have hroom := h.stored.can_write.mp hcan
  have hfit := Fifo.room_for_unit h.sized hd hroom
  have hpos : 0 < size := Nat.pos_of_dvd_of_pos hd (by decide)
  obtain ⟨after, he, hrep, hc⟩ := writeLocked_spec w.p w.len h.stored hcan (by omega)
  have htaken : min (BIP_BUFFER_SIZE - unread.flatten.length) w.len = size := by omega
  rw [htaken] at he hrep
  exact ⟨after, he, by rwa [hunit], by rw [hc, h.opened]⟩

theorem unitWriterStep_whole (h : Whole size c unread) (hd : size ∣ BIP_BUFFER_SIZE)
    (hs : unitWriterStep c thread = .ok d) : ∃ unread', Whole size d unread' := by
  have hopen := h.opened
  unfold unitWriterStep at hs
  split at hs
  case h_1 => cases hs
  case h_2 w hw =>
    split at hs
    case h_1 hat =>
      by_cases hcan : c.bip.canWrite = true
      · -- the thread's only critical section, and the end of its write
        obtain ⟨after, he, hrep, hclosed⟩ := h.writeSection hd hw hcan
        obtain ⟨hlen, hunit⟩ := h.writing thread w hw
        have hpos : 0 < size := Nat.pos_of_dvd_of_pos hd (by decide)
        have hpos' : (size : Int) > 0 := by omega
        have hdone : ¬w.len - size > 0 := by omega
        simp only [hcan, if_true, he, afterWrite, hpos', Int.toNat_natCast, hdone, if_false,
          Except.ok.injEq] at hs
        subst hs
        refine ⟨unread ++ [w.unit], ?_⟩
        exact {
          stored := by simpa [UnitChannel.finishWrite, UnitChannel.setWriter] using hrep
          sized := by
            intro unit hm
            rcases List.mem_append.mp hm with hm | hm
            · exact h.sized unit hm
            · rw [List.mem_singleton.mp hm, hunit, length_bytesAt]
          order := by
            simp [UnitChannel.finishWrite, UnitChannel.setWriter, h.order]
          parts := by
            intro s hm
            rcases List.mem_append.mp hm with hm | hm
            · exact h.parts s hm
            · rw [List.mem_singleton.mp hm, hunit]
              exact ⟨rfl, length_bytesAt⟩
          writes := by
            simp [UnitChannel.finishWrite, UnitChannel.setWriter, h.writes]
          opened := hclosed
          writing := ready_setWriter h.writing (by simp)
          reading := h.reading
          calls := by
            intro other
            have hcalls := h.calls other
            simp only [UnitChannel.finishWrite, UnitChannel.setWriter, sectionsOf_append]
            by_cases heq : other = thread
            · subst heq
              simpa [pendingOf, hw] using hcalls
            · simpa [heq, Ne.symm heq] using hcalls }
      · rw [if_neg hcan] at hs
        cases hs
        exact ⟨unread, h.moveWriter hw .leftLock⟩
    case h_2 hat =>
      rw [hopen] at hs
      cases hs
      exact ⟨unread, h.moveWriter hw .waiting⟩
    case h_3 hat =>
      split at hs
      · cases hs
        exact ⟨unread, h.moveWriter hw .woken⟩
      · cases hs
    case h_4 hat =>
      rw [hopen] at hs
      cases hs
      exact ⟨unread, h.moveWriter hw .enter⟩

-- A read that is let in gets the front unit, whole.
theorem Whole.readSection (h : Whole size c unread) (hpos : 0 < size) {r : UnitReader}
    (hr : c.reader = some r) (hcan : c.bip.canRead = true) :
    ∃ unit rest after, unread = unit :: rest ∧
      readLocked c.bip r.len = .returned unit after ∧ Represents after rest.flatten ∧
      after.closed = false := by
  obtain ⟨hlen, -⟩ := h.reading r hr
  have hne := h.stored.can_read.mp hcan
  cases unread with
  | nil => simp at hne
  | cons unit rest =>
      have hunit := h.sized unit (List.mem_cons_self ..)
      obtain ⟨after, he, hrep, hc⟩ := readLocked_spec r.len h.stored hcan (by omega)
      have hsize : unit.length = r.len := by omega
      rw [List.flatten_cons, List.take_left' hsize] at he
      rw [List.flatten_cons, List.drop_left' hsize] at hrep
      exact ⟨unit, rest, after, rfl, he, hrep, by rw [hc, h.opened]⟩

theorem unitReaderStep_whole (h : Whole size c unread) (hpos : 0 < size)
    (hs : unitReaderStep c = .ok d) : ∃ unread', Whole size d unread' := by
  have hopen := h.opened
  unfold unitReaderStep at hs
  split at hs
  case h_1 => cases hs
  case h_2 r hr =>
    split at hs
    case h_1 hat =>
      by_cases hcan : c.bip.canRead = true
      · obtain ⟨unit, rest, after, rfl, he, hrep, hclosed⟩ := h.readSection hpos hr hcan
        obtain ⟨hlen, hgot⟩ := h.reading r hr
        have hunit := h.sized unit (List.mem_cons_self ..)
        have hsome : unit.length > 0 := by omega
        have hdone : ¬r.len - unit.length > 0 := by omega
        simp only [hcan, if_true, he, afterRead, hsome, hdone, if_false, hgot, List.nil_append,
          Except.ok.injEq] at hs
        subst hs
        exact ⟨rest, {
          stored := hrep
          sized := fun other hm => h.sized other (List.mem_cons_of_mem _ hm)
          order := by simp [UnitChannel.finishRead, h.order]
          parts := h.parts
          writes := h.writes
          opened := hclosed
          writing := h.writing
          reading := by simp [UnitChannel.finishRead]
          calls := h.calls }⟩
      · rw [if_neg hcan] at hs
        cases hs
        exact ⟨unread, h.moveReader hr .leftLock⟩
    case h_2 hat =>
      rw [hopen] at hs
      cases hs
      exact ⟨unread, h.moveReader hr .waiting⟩
    case h_3 hat =>
      split at hs
      · cases hs
        exact ⟨unread, h.moveReader hr .woken⟩
      · cases hs
    case h_4 hat =>
      rw [hopen] at hs
      cases hs
      exact ⟨unread, h.moveReader hr .enter⟩

theorem Whole.callWrite (h : Whole size c unread) (hidle : c.writer thread = none)
    (object : Nat → UInt8) :
    Whole size { c.setWriter thread (some ⟨.enter, bytesAt object 0 size, object, size⟩) with
      calls := c.calls ++ [(thread, bytesAt object 0 size)] } unread where
  stored := h.stored
  sized := h.sized
  order := h.order
  parts := h.parts
  writes := h.writes
  opened := h.opened
  writing := ready_setWriter h.writing fun w hw => by
    cases hw
    exact ⟨rfl, rfl⟩
  reading := h.reading
  calls := by
    intro other
    have hcalls := h.calls other
    simp only [UnitChannel.setWriter, callsOf_append]
    by_cases heq : other = thread
    · subst heq
      simpa [pendingOf, hidle] using hcalls
    · simpa [heq, Ne.symm heq] using hcalls

theorem unitStep_whole (hd : size ∣ BIP_BUFFER_SIZE) (c : UnitChannel) (move : UnitMove)
    (d : UnitChannel) (h : ∃ unread, Whole size c unread) (hs : unitStep size c move = .ok d) :
    ∃ unread, Whole size d unread := by
  obtain ⟨unread, h⟩ := h
  cases move with
  | callWrite thread object =>
      simp only [unitStep] at hs
      split at hs
      · rename_i hidle
        cases hs
        exact ⟨unread, h.callWrite hidle object⟩
      · cases hs
  | writer thread => exact unitWriterStep_whole h hd hs
  | callRead =>
      simp only [unitStep] at hs
      split at hs
      · cases hs
        exact ⟨unread, h.stored, h.sized, h.order, h.parts, h.writes, h.opened, h.writing,
          by simp, h.calls⟩
      · cases hs
  | reader => exact unitReaderStep_whole h (Nat.pos_of_dvd_of_pos hd (by decide)) hs

-- No assertion of the buffer fails under such use.
theorem Whole.no_assertion (h : Whole size c unread) (hd : size ∣ BIP_BUFFER_SIZE)
    (move : UnitMove) : unitStep size c move ≠ .error .assertion := by
  intro hs
  have hpos : 0 < size := Nat.pos_of_dvd_of_pos hd (by decide)
  cases move with
  | callWrite thread object =>
      simp only [unitStep] at hs
      split at hs <;> cases hs
  | callRead =>
      simp only [unitStep] at hs
      split at hs <;> cases hs
  | writer thread =>
      simp only [unitStep, unitWriterStep] at hs
      split at hs
      · cases hs
      · rename_i w hw
        by_cases hcan : c.bip.canWrite = true
        · obtain ⟨after, he, -⟩ := h.writeSection hd hw hcan
          simp only [he, hcan, if_true] at hs
          split at hs <;> first | cases hs | (split at hs <;> cases hs)
        · simp only [if_neg hcan] at hs
          split at hs <;> first | cases hs | (split at hs <;> cases hs)
  | reader =>
      simp only [unitStep, unitReaderStep] at hs
      split at hs
      · cases hs
      · rename_i r hr
        by_cases hcan : c.bip.canRead = true
        · obtain ⟨unit, rest, after, -, he, -⟩ := h.readSection hpos hr hcan
          simp only [he, hcan, if_true] at hs
          split at hs <;> first | cases hs | (split at hs <;> cases hs)
        · simp only [if_neg hcan] at hs
          split at hs <;> first | cases hs | (split at hs <;> cases hs)

end Steps

-- Any number of threads write units of one size into an end that stays open.
-- Each critical section takes a whole unit and ends a successful write, what
-- the reads return are the units of the sections in their order, the rest is
-- what the buffer holds, and each thread's units come in the order of its calls
-- with at most the current one missing.
theorem units_cross_whole (size : Nat) (hd : size ∣ BIP_BUFFER_SIZE) (moves : List UnitMove)
    (c : UnitChannel) (hr : run (unitStep size) unitChannelInit moves = .ok c) :
    (∀ s ∈ c.sections, s.part = s.unit ∧ s.unit.length = size) ∧
      c.writes = c.sections.map (fun s => (s.thread, s.unit, true)) ∧
      (∃ unread : List (List UInt8), c.sections.map (fun s => some s.unit) = c.reads ++ unread.map some ∧
        contents c.bip = unread.flatten) ∧
      (∀ thread, callsOf c.calls thread =
        sectionsOf c.sections thread ++ pendingOf (c.writer thread)) ∧
      ∀ move, unitStep size c move ≠ .error .assertion := by
  obtain ⟨unread, h⟩ := run_invariant (unitStep_whole hd) ⟨[], whole_init size⟩ hr
  exact ⟨h.parts, h.writes, ⟨unread, h.order, h.stored.contents_eq⟩, h.calls,
    h.no_assertion hd⟩

-- Two packet pointers of four bytes from two threads, the second one first.
theorem units_of_two_threads :
    ∃ c : UnitChannel, c.reads = [some [66, 66, 66, 66]] ∧ contents c.bip = [65, 65, 65, 65] ∧
      ∃ unread : List (List UInt8),
        c.sections.map (fun s => some s.unit) = c.reads ++ unread.map some ∧
          contents c.bip = unread.flatten := by
  have h := units_cross_whole 4 (by decide)
    [.callWrite 0 (fun _ => 65), .callWrite 1 (fun _ => 66), .callRead, .reader, .writer 1,
      .writer 0, .reader, .reader, .reader, .reader] _ rfl
  exact ⟨_, rfl, rfl, h.2.2.1⟩

end Adb.Bip
