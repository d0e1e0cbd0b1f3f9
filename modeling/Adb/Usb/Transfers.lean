import Mathlib.Data.List.Infix
import Adb.Lib.Run

namespace Adb.Usb

open Adb.Lib

-- How a transfer has ended: status 0 or not, and the bytes that it has moved.
structure Done where
  ok : Bool
  data : List UInt8

-- An URB while the kernel has it, from USBDEVFS_SUBMITURB to USBDEVFS_REAPURB.
inductive Urb (α : Type) where
  | free
  | submitted (asked : α)
  | complete (done : Done)

-- What USBDEVFS_REAPURB returns.
inductive Reap where
  | interrupted
  | failed
  | urbIn
  | urbOut
deriving DecidableEq

-- Where usb_bulk_read is: not called, in USBDEVFS_REAPURB without the lock, or back
-- from it and after the lock. A reader whose REAPURB has failed calls no more.
inductive Reader where
  | idle
  | reaping
  | reaped (out : Reap)
  | ended
deriving DecidableEq

inductive Writer where
  | idle
  | waiting
deriving DecidableEq

-- A usb_handle with the thread that reads and the one that writes. inDone and outDone
-- are the status and the actual_length of urb_in and urb_out. notified: the writer has
-- been woken by a broadcast. moved has what the kernel has done for each direction,
-- reads and writes have what the calls have found in their URBs at their end.
structure Transfers where
  writeable : Bool
  dead : Bool
  urbIn : Urb Nat
  urbOut : Urb (List UInt8)
  inDone : Done
  outDone : Done
  urbInBusy : Bool
  urbOutBusy : Bool
  reader : Reader
  writer : Writer
  notified : Bool
  inMoved : List Done
  outMoved : List Done
  reads : List Done
  writes : List Done

-- register_device
def registered (writeable : Bool) : Transfers :=
  ⟨writeable, false, .free, .free, ⟨false, []⟩, ⟨false, []⟩, false, false, .idle, .idle, false,
    [], [], [], []⟩

-- What cannot be done now.
inductive Stuck where
  | blocked

namespace Transfers

-- usb_bulk_read up to its first USBDEVFS_REAPURB. submits: SUBMITURB returns 0.
def bulkRead (st : Transfers) (len : Nat) (submits : Bool) : Except Stuck Transfers :=
  if st.reader ≠ .idle then
    .error .blocked
  else
    let st := { st with inDone := ⟨false, []⟩ }
    if st.dead ∨ ¬submits then .ok st
    else .ok { st with urbIn := .submitted len, urbInBusy := true, reader := .reaping }

-- The ioctl fills in the fields of the URB that it returns.
def reap (st : Transfers) (out : Reap) : Except Stuck Transfers :=
  if st.reader ≠ .reaping then
    .error .blocked
  else
    match out with
    | .interrupted | .failed => .ok { st with reader := .reaped out }
    | .urbIn =>
        match st.urbIn with
        | .complete done => .ok { st with urbIn := .free, inDone := done, reader := .reaped .urbIn }
        | _ => .error .blocked
    | .urbOut =>
        match st.urbOut with
        | .complete done =>
            .ok { st with urbOut := .free, outDone := done, reader := .reaped .urbOut }
        | _ => .error .blocked

-- usb_bulk_read from there to the next USBDEVFS_REAPURB or its end.
def handleReap (st : Transfers) : Except Stuck Transfers :=
  match st.reader with
  | .reaped out =>
      if st.dead then
        .ok { st with reader := .idle }
      else
        match out with
        | .interrupted => .ok { st with reader := .reaping }
        | .failed => .ok { st with reader := .ended }
        | .urbIn => .ok { st with urbInBusy := false, reads := st.reads ++ [st.inDone], reader := .idle }
        | .urbOut => .ok { st with urbOutBusy := false, notified := true, reader := .reaping }
  | _ => .error .blocked

-- usb_bulk_write up to its first wait.
def bulkWrite (st : Transfers) (data : List UInt8) (submits : Bool) : Except Stuck Transfers :=
  if st.writer ≠ .idle then
    .error .blocked
  else
    let st := { st with outDone := ⟨false, []⟩ }
    if st.dead ∨ ¬submits then .ok st
    else .ok { st with urbOut := .submitted data, urbOutBusy := true, writer := .waiting, notified := false }

-- pthread_cond_timedwait returns: after a broadcast, after five seconds or for no
-- reason. On a handle that is dead the URB is not looked at.
def wake (st : Transfers) : Except Stuck Transfers :=
  if st.writer ≠ .waiting then
    .error .blocked
  else if st.dead then
    .ok { st with writer := .idle }
  else if st.urbOutBusy then
    .ok { st with notified := false }
  else
    .ok { st with writes := st.writes ++ [st.outDone], writer := .idle }

-- The transfer of an URB ends, by itself or with USBDEVFS_DISCARDURB, which does
-- nothing to one that the kernel does not have or has done with.
def completeIn (st : Transfers) (done : Done) : Transfers :=
  match st.urbIn with
  | .submitted len =>
      let done := { done with data := done.data.take len }
      { st with urbIn := .complete done, inMoved := st.inMoved ++ [done] }
  | _ => st

def completeOut (st : Transfers) (ok : Bool) (count : Nat) : Transfers :=
  match st.urbOut with
  | .submitted data =>
      let done := ⟨ok, data.take count⟩
      { st with urbOut := .complete done, outMoved := st.outMoved ++ [done] }
  | _ => st

-- part and count are what the discarded transfers have moved until then.
def usbKick (st : Transfers) (part : List UInt8) (count : Nat) : Transfers :=
  if st.dead then
    st
  else
    let st := { st with dead := true }
    if st.writeable then
      let st := (st.completeIn ⟨false, part⟩).completeOut false count
      { st with
        inDone := { st.inDone with ok := false }
        outDone := { st.outDone with ok := false }
        urbInBusy := false
        urbOutBusy := false
        notified := true }
    else
      -- unregister_usb_transport
      st

end Transfers

inductive Transfer where
  | bulkRead (len : Nat) (submits : Bool)
  | reap (out : Reap)
  | handleReap
  | bulkWrite (data : List UInt8) (submits : Bool)
  | wake
  | completeIn (done : Done)
  | completeOut (ok : Bool) (count : Nat)
  | kick (part : List UInt8) (count : Nat)

def transferStep (st : Transfers) : Transfer → Except Stuck Transfers
  | .bulkRead len submits => st.bulkRead len submits
  | .reap out => st.reap out
  | .handleReap => st.handleReap
  | .bulkWrite data submits => st.bulkWrite data submits
  | .wake => st.wake
  | .completeIn done => .ok (st.completeIn done)
  | .completeOut ok count => .ok (st.completeOut ok count)
  | .kick part count => .ok (st.usbKick part count)

-- The way of an IN transfer on a handle that is not dead. A reader that is busy has
-- its URB in the kernel, until it is reaped.
inductive InPhase (st : Transfers) : Prop
  | idle (reader : st.reader = .idle) (urb : st.urbIn = .free) (moved : st.inMoved = st.reads)
  | submitted (len : Nat) (busy : st.reader ≠ .idle) (other : st.reader ≠ .reaped .urbIn)
      (urb : st.urbIn = .submitted len) (moved : st.inMoved = st.reads)
  | complete (done : Done) (busy : st.reader ≠ .idle) (other : st.reader ≠ .reaped .urbIn)
      (urb : st.urbIn = .complete done) (moved : st.inMoved = st.reads ++ [done])
  | taken (reader : st.reader = .reaped .urbIn) (urb : st.urbIn = .free)
      (moved : st.inMoved = st.reads ++ [st.inDone])

-- The way of an OUT transfer, which goes through the hands of the reader.
inductive OutPhase (st : Transfers) : Prop
  | idle (writer : st.writer = .idle) (urb : st.urbOut = .free)
      (other : st.reader ≠ .reaped .urbOut)
      (moved : st.outMoved = st.writes)
  | submitted (data : List UInt8) (writer : st.writer = .waiting) (busy : st.urbOutBusy = true)
      (other : st.reader ≠ .reaped .urbOut) (urb : st.urbOut = .submitted data)
      (moved : st.outMoved = st.writes)
  | complete (done : Done) (writer : st.writer = .waiting) (busy : st.urbOutBusy = true)
      (other : st.reader ≠ .reaped .urbOut) (urb : st.urbOut = .complete done)
      (moved : st.outMoved = st.writes ++ [done])
  | taken (writer : st.writer = .waiting) (busy : st.urbOutBusy = true)
      (reader : st.reader = .reaped .urbOut)
      (urb : st.urbOut = .free) (moved : st.outMoved = st.writes ++ [st.outDone])
  | settled (writer : st.writer = .waiting) (busy : st.urbOutBusy = false)
      (other : st.reader ≠ .reaped .urbOut) (urb : st.urbOut = .free)
      (notified : st.notified = true)
      (moved : st.outMoved = st.writes ++ [st.outDone])

-- A handle that usb_kick has been at: the kernel is done with all URBs, and nobody
-- stays where they are.
structure Kicked (st : Transfers) : Prop where
  urbIn : ∀ len, st.urbIn ≠ .submitted len
  urbOut : ∀ data, st.urbOut ≠ .submitted data
  reader : st.reader = .reaping → st.urbIn ≠ .free
  writer : st.writer = .waiting → st.notified = true

structure TransfersSound (st : Transfers) : Prop where
  reads : st.reads <+: st.inMoved
  writes : st.writes <+: st.outMoved
  inPhase : st.dead = false → InPhase st
  outPhase : st.dead = false → OutPhase st
  kicked : st.dead = true → st.writeable = true → Kicked st

section Phases

variable {st after : Transfers}

-- One completion at most is still on its way to its call.
theorem InPhase.rest (h : InPhase st) :
    ∃ rest, st.inMoved = st.reads ++ rest ∧ rest.length ≤ 1 := by
  cases h with
  | idle reader urb moved => exact ⟨[], by rw [moved, List.append_nil], Nat.zero_le 1⟩
  | submitted len busy other urb moved => exact ⟨[], by rw [moved, List.append_nil], Nat.zero_le 1⟩
  | complete done busy other urb moved => exact ⟨[done], moved, Nat.le_refl 1⟩
  | taken reader urb moved => exact ⟨[st.inDone], moved, Nat.le_refl 1⟩

theorem OutPhase.rest (h : OutPhase st) :
    ∃ rest, st.outMoved = st.writes ++ rest ∧ rest.length ≤ 1 := by
  cases h with
  | idle writer urb other moved => exact ⟨[], by rw [moved, List.append_nil], Nat.zero_le 1⟩
  | submitted data writer busy other urb moved =>
      exact ⟨[], by rw [moved, List.append_nil], Nat.zero_le 1⟩
  | complete done writer busy other urb moved => exact ⟨[done], moved, Nat.le_refl 1⟩
  | taken writer busy reader urb moved => exact ⟨[st.outDone], moved, Nat.le_refl 1⟩
  | settled writer busy other urb notified moved => exact ⟨[st.outDone], moved, Nat.le_refl 1⟩

theorem InPhase.reads (h : InPhase st) : st.reads <+: st.inMoved := by
  obtain ⟨rest, hrest, -⟩ := h.rest
  exact ⟨rest, hrest.symm⟩

theorem OutPhase.writes (h : OutPhase st) : st.writes <+: st.outMoved := by
  obtain ⟨rest, hrest, -⟩ := h.rest
  exact ⟨rest, hrest.symm⟩

theorem TransfersSound.alive (hdead : st.dead = false) (hin : InPhase st) (hout : OutPhase st) :
    TransfersSound st :=
  ⟨hin.reads, hout.writes, fun _ => hin, fun _ => hout, fun h => by rw [hdead] at h; cases h⟩

theorem TransfersSound.buried (hdead : st.dead = true) (hreads : st.reads <+: st.inMoved)
    (hwrites : st.writes <+: st.outMoved) (hkicked : st.writeable = true → Kicked st) :
    TransfersSound st where
  reads := hreads
  writes := hwrites
  inPhase := fun h => absurd (hdead.symm.trans h) (by decide)
  outPhase := fun h => absurd (hdead.symm.trans h) (by decide)
  kicked := fun _ => hkicked

end Phases

section Steps

variable {st after : Transfers}

-- A step that has nothing to do with one of the directions.
structure SameIn (st after : Transfers) : Prop where
  urbIn : after.urbIn = st.urbIn
  inDone : after.inDone = st.inDone
  inMoved : after.inMoved = st.inMoved
  reads : after.reads = st.reads

structure SameOut (st after : Transfers) : Prop where
  urbOut : after.urbOut = st.urbOut
  outDone : after.outDone = st.outDone
  urbOutBusy : after.urbOutBusy = st.urbOutBusy
  writer : after.writer = st.writer
  notified : after.notified = st.notified
  outMoved : after.outMoved = st.outMoved
  writes : after.writes = st.writes

theorem InPhase.sameReader (h : InPhase st) (same : SameIn st after)
    (hreader : after.reader = st.reader) :
    InPhase after := by
  cases h with
  | idle reader urb moved =>
      exact .idle (hreader.trans reader) (same.urbIn.trans urb)
        (by rw [same.inMoved, same.reads, moved])
  | submitted len busy other urb moved =>
      exact .submitted len (hreader ▸ busy) (hreader ▸ other) (same.urbIn.trans urb)
        (by rw [same.inMoved, same.reads, moved])
  | complete done busy other urb moved =>
      exact .complete done (hreader ▸ busy) (hreader ▸ other) (same.urbIn.trans urb)
        (by rw [same.inMoved, same.reads, moved])
  | taken reader urb moved =>
      exact .taken (hreader.trans reader) (same.urbIn.trans urb)
        (by rw [same.inMoved, same.reads, same.inDone, moved])

-- The reader does something else while its URB is in the kernel.
theorem InPhase.elsewhere (h : InPhase st) (same : SameIn st after) (hbusy : st.reader ≠ .idle)
    (hother : st.reader ≠ .reaped .urbIn) (hbusy' : after.reader ≠ .idle)
    (hother' : after.reader ≠ .reaped .urbIn) : InPhase after := by
  cases h with
  | idle reader urb moved => exact absurd reader hbusy
  | submitted len busy other urb moved =>
      exact .submitted len hbusy' hother' (same.urbIn.trans urb)
        (by rw [same.inMoved, same.reads, moved])
  | complete done busy other urb moved =>
      exact .complete done hbusy' hother' (same.urbIn.trans urb)
        (by rw [same.inMoved, same.reads, moved])
  | taken reader urb moved => exact absurd reader hother

-- Nothing for the writer in the hands of the reader.
theorem OutPhase.elsewhere (h : OutPhase st) (same : SameOut st after)
    (hother : st.reader ≠ .reaped .urbOut)
    (hother' : after.reader ≠ .reaped .urbOut) : OutPhase after := by
  cases h with
  | idle writer urb other moved =>
      exact .idle (same.writer.trans writer) (same.urbOut.trans urb) hother'
        (by rw [same.outMoved, same.writes, moved])
  | submitted data writer busy other urb moved =>
      exact .submitted data (same.writer.trans writer) (same.urbOutBusy.trans busy) hother'
        (same.urbOut.trans urb) (by rw [same.outMoved, same.writes, moved])
  | complete done writer busy other urb moved =>
      exact .complete done (same.writer.trans writer) (same.urbOutBusy.trans busy) hother'
        (same.urbOut.trans urb) (by rw [same.outMoved, same.writes, moved])
  | taken writer busy reader urb moved => exact absurd reader hother
  | settled writer busy other urb notified moved =>
      exact .settled (same.writer.trans writer) (same.urbOutBusy.trans busy) hother'
        (same.urbOut.trans urb)
        (same.notified.trans notified) (by rw [same.outMoved, same.writes, same.outDone, moved])

theorem OutPhase.sameReader (h : OutPhase st) (same : SameOut st after)
    (hreader : after.reader = st.reader) :
    OutPhase after := by
  by_cases htaken : st.reader = .reaped .urbOut
  · cases h with
    | taken writer busy reader urb moved =>
        exact .taken (same.writer.trans writer) (same.urbOutBusy.trans busy) (hreader.trans reader)
          (same.urbOut.trans urb) (by rw [same.outMoved, same.writes, same.outDone, moved])
    | idle writer urb other moved => exact absurd htaken other
    | submitted data writer busy other urb moved => exact absurd htaken other
    | complete done writer busy other urb moved => exact absurd htaken other
    | settled writer busy other urb notified moved => exact absurd htaken other
  · exact h.elsewhere same htaken (hreader ▸ htaken)

theorem bulkRead_sound (h : TransfersSound st) {len : Nat} {submits : Bool}
    (hstep : st.bulkRead len submits = .ok after) : TransfersSound after := by
  unfold Transfers.bulkRead at hstep
  split at hstep
  · cases hstep
  rename_i hidle
  have hreader : st.reader = .idle := not_not.mp hidle
  dsimp only at hstep
  cases hdead : st.dead with
  | true =>
      rw [if_pos (Or.inl hdead)] at hstep
      cases hstep
      have hkicked := h.kicked hdead
      exact .buried hdead h.reads h.writes fun hw =>
        ⟨(hkicked hw).urbIn, (hkicked hw).urbOut, (hkicked hw).reader, (hkicked hw).writer⟩
  | false =>
      -- nothing of the last transfer is left
      obtain ⟨hfree, hmoved⟩ : st.urbIn = .free ∧ st.inMoved = st.reads := by
        cases h.inPhase hdead with
        | idle reader urb moved => exact ⟨urb, moved⟩
        | submitted len busy other urb moved => exact absurd hreader busy
        | complete done busy other urb moved => exact absurd hreader busy
        | taken reader urb moved => exact absurd (hreader.symm.trans reader) (by decide)
      have hother : st.reader ≠ .reaped .urbOut := by simp [hreader]
      have hout := h.outPhase hdead
      split at hstep
      · cases hstep
        exact .alive hdead (.idle hreader hfree hmoved)
          (hout.elsewhere ⟨rfl, rfl, rfl, rfl, rfl, rfl, rfl⟩ hother hother)
      · cases hstep
        exact .alive hdead (.submitted len (by simp) (by simp) rfl hmoved)
          (hout.elsewhere ⟨rfl, rfl, rfl, rfl, rfl, rfl, rfl⟩ hother (by simp))

theorem reap_sound (h : TransfersSound st) {out : Reap} (hstep : st.reap out = .ok after) :
    TransfersSound after := by
  unfold Transfers.reap at hstep
  split at hstep
  · cases hstep
  rename_i hreaping
  have hreader : st.reader = .reaping := not_not.mp hreaping
  -- the ioctl comes back with no URB of its own
  have hplain : ∀ out, out ≠ .urbIn → out ≠ .urbOut →
      TransfersSound { st with reader := .reaped out } := by
    intro out hnotIn hnotOut
    obtain hdead | hdead := Bool.eq_false_or_eq_true st.dead
    · have hkicked := h.kicked hdead
      exact .buried hdead h.reads h.writes fun hw =>
        ⟨(hkicked hw).urbIn, (hkicked hw).urbOut, fun heq => (by cases heq), (hkicked hw).writer⟩
    · exact .alive hdead
        ((h.inPhase hdead).elsewhere ⟨rfl, rfl, rfl, rfl⟩ (by simp [hreader])
          (by simp [hreader]) (by simp)
          (by simpa using hnotIn))
        ((h.outPhase hdead).elsewhere ⟨rfl, rfl, rfl, rfl, rfl, rfl, rfl⟩ (by simp [hreader])
          (by simpa using hnotOut))
  cases out with
  | interrupted =>
      cases hstep
      exact hplain .interrupted (by decide) (by decide)
  | failed =>
      cases hstep
      exact hplain .failed (by decide) (by decide)
  | urbIn =>
      dsimp only at hstep
      cases hurb : st.urbIn with
      | free => rw [hurb] at hstep; cases hstep
      | submitted len => rw [hurb] at hstep; cases hstep
      | complete done =>
          rw [hurb] at hstep
          cases hstep
          obtain hdead | hdead := Bool.eq_false_or_eq_true st.dead
          · have hkicked := h.kicked hdead
            exact .buried hdead h.reads h.writes fun hw =>
              ⟨fun len heq => (by cases heq), (hkicked hw).urbOut, fun heq => (by cases heq),
                (hkicked hw).writer⟩
          · refine .alive hdead ?_ ((h.outPhase hdead).elsewhere ⟨rfl, rfl, rfl, rfl, rfl, rfl, rfl⟩
              (by simp [hreader]) (by simp))
            cases h.inPhase hdead with
            | idle reader urb moved => exact absurd (hreader.symm.trans reader) (by decide)
            | submitted len busy other urb moved => rw [hurb] at urb; cases urb
            | complete found busy other urb moved =>
                rw [hurb] at urb
                cases urb
                exact .taken rfl rfl moved
            | taken reader urb moved => exact absurd (hreader.symm.trans reader) (by decide)
  | urbOut =>
      dsimp only at hstep
      cases hurb : st.urbOut with
      | free => rw [hurb] at hstep; cases hstep
      | submitted data => rw [hurb] at hstep; cases hstep
      | complete done =>
          rw [hurb] at hstep
          cases hstep
          obtain hdead | hdead := Bool.eq_false_or_eq_true st.dead
          · have hkicked := h.kicked hdead
            exact .buried hdead h.reads h.writes fun hw =>
              ⟨(hkicked hw).urbIn, fun data heq => (by cases heq), fun heq => (by cases heq),
                (hkicked hw).writer⟩
          · refine .alive hdead
              ((h.inPhase hdead).elsewhere ⟨rfl, rfl, rfl, rfl⟩ (by simp [hreader])
              (by simp [hreader]) (by simp) (by simp)) ?_
            cases h.outPhase hdead with
            | idle writer urb other moved => rw [hurb] at urb; cases urb
            | submitted data writer busy other urb moved => rw [hurb] at urb; cases urb
            | complete found writer busy other urb moved =>
                rw [hurb] at urb
                cases urb
                exact .taken writer busy rfl rfl moved
            | taken writer busy reader urb moved =>
                exact absurd (hreader.symm.trans reader) (by decide)
            | settled writer busy other urb notified moved => rw [hurb] at urb; cases urb

theorem handleReap_sound (h : TransfersSound st) (hstep : st.handleReap = .ok after) :
    TransfersSound after := by
  unfold Transfers.handleReap at hstep
  cases hreader : st.reader with
  | idle => rw [hreader] at hstep; cases hstep
  | reaping => rw [hreader] at hstep; cases hstep
  | ended => rw [hreader] at hstep; cases hstep
  | reaped out =>
      rw [hreader] at hstep
      dsimp only at hstep
      obtain hdead | hdead := Bool.eq_false_or_eq_true st.dead
      · rw [if_pos hdead] at hstep
        cases hstep
        have hkicked := h.kicked hdead
        exact .buried hdead h.reads h.writes fun hw =>
          ⟨(hkicked hw).urbIn, (hkicked hw).urbOut, fun heq => (by cases heq), (hkicked hw).writer⟩
      · rw [if_neg (by simp [hdead])] at hstep
        have hin := h.inPhase hdead
        have hout := h.outPhase hdead
        cases out with
        | interrupted =>
            cases hstep
            exact .alive hdead
              (hin.elsewhere ⟨rfl, rfl, rfl, rfl⟩ (by simp [hreader]) (by simp [hreader])
                (by simp) (by simp))
              (hout.elsewhere ⟨rfl, rfl, rfl, rfl, rfl, rfl, rfl⟩ (by simp [hreader]) (by simp))
        | failed =>
            cases hstep
            exact .alive hdead
              (hin.elsewhere ⟨rfl, rfl, rfl, rfl⟩ (by simp [hreader]) (by simp [hreader])
                (by simp) (by simp))
              (hout.elsewhere ⟨rfl, rfl, rfl, rfl, rfl, rfl, rfl⟩ (by simp [hreader]) (by simp))
        | urbIn =>
            cases hstep
            refine .alive hdead ?_
              (hout.elsewhere ⟨rfl, rfl, rfl, rfl, rfl, rfl, rfl⟩ (by simp [hreader]) (by simp))
            cases hin with
            | idle reader urb moved => exact absurd (hreader.symm.trans reader) (by decide)
            | submitted len busy other urb moved => exact absurd hreader other
            | complete done busy other urb moved => exact absurd hreader other
            | taken reader urb moved => exact .idle rfl urb moved
        | urbOut =>
            cases hstep
            refine .alive hdead
              (hin.elsewhere ⟨rfl, rfl, rfl, rfl⟩ (by simp [hreader]) (by simp [hreader])
              (by simp) (by simp)) ?_
            cases hout with
            | idle writer urb other moved => exact absurd hreader other
            | submitted data writer busy other urb moved => exact absurd hreader other
            | complete done writer busy other urb moved => exact absurd hreader other
            | taken writer busy reader urb moved =>
                exact .settled writer rfl (by simp) urb rfl moved
            | settled writer busy other urb notified moved => exact absurd hreader other

theorem bulkWrite_sound (h : TransfersSound st) {data : List UInt8} {submits : Bool}
    (hstep : st.bulkWrite data submits = .ok after) : TransfersSound after := by
  unfold Transfers.bulkWrite at hstep
  split at hstep
  · cases hstep
  rename_i hidle
  have hwriter : st.writer = .idle := not_not.mp hidle
  have hwaits : st.writer ≠ .waiting := by simp [hwriter]
  dsimp only at hstep
  obtain hdead | hdead := Bool.eq_false_or_eq_true st.dead
  · rw [if_pos (Or.inl hdead)] at hstep
    cases hstep
    have hkicked := h.kicked hdead
    exact .buried hdead h.reads h.writes fun hw =>
      ⟨(hkicked hw).urbIn, (hkicked hw).urbOut, (hkicked hw).reader, (hkicked hw).writer⟩
  · have hin := h.inPhase hdead
    cases h.outPhase hdead with
    | idle writer urb other moved =>
        split at hstep
        · cases hstep
          exact .alive hdead (hin.sameReader ⟨rfl, rfl, rfl, rfl⟩ rfl)
            (.idle writer urb other moved)
        · cases hstep
          exact .alive hdead (hin.sameReader ⟨rfl, rfl, rfl, rfl⟩ rfl)
            (.submitted data rfl rfl other rfl moved)
    | submitted data writer busy other urb moved => exact absurd writer hwaits
    | complete done writer busy other urb moved => exact absurd writer hwaits
    | taken writer busy reader urb moved => exact absurd writer hwaits
    | settled writer busy other urb notified moved => exact absurd writer hwaits

theorem wake_sound (h : TransfersSound st) (hstep : st.wake = .ok after) :
    TransfersSound after := by
  unfold Transfers.wake at hstep
  split at hstep
  · cases hstep
  rename_i hwaiting
  have hwriter : st.writer = .waiting := not_not.mp hwaiting
  obtain hdead | hdead := Bool.eq_false_or_eq_true st.dead
  · rw [if_pos hdead] at hstep
    cases hstep
    have hkicked := h.kicked hdead
    exact .buried hdead h.reads h.writes fun hw =>
      ⟨(hkicked hw).urbIn, (hkicked hw).urbOut, (hkicked hw).reader, fun heq => (by cases heq)⟩
  · rw [if_neg (by simp [hdead])] at hstep
    have hin := h.inPhase hdead
    split at hstep
    · -- it goes on waiting
      rename_i hbusy
      cases hstep
      refine .alive hdead (hin.sameReader ⟨rfl, rfl, rfl, rfl⟩ rfl) ?_
      cases h.outPhase hdead with
      | idle writer urb other moved => exact absurd (hwriter.symm.trans writer) (by decide)
      | submitted data writer busy other urb moved =>
          exact .submitted data writer busy other urb moved
      | complete done writer busy other urb moved =>
          exact .complete done writer busy other urb moved
      | taken writer busy reader urb moved => exact .taken writer busy reader urb moved
      | settled writer busy other urb notified moved =>
          exact absurd (hbusy.symm.trans busy) (by decide)
    · rename_i hbusy
      cases hstep
      refine .alive hdead (hin.sameReader ⟨rfl, rfl, rfl, rfl⟩ rfl) ?_
      cases h.outPhase hdead with
      | idle writer urb other moved => exact absurd (hwriter.symm.trans writer) (by decide)
      | submitted data writer busy other urb moved => exact absurd busy hbusy
      | complete done writer busy other urb moved => exact absurd busy hbusy
      | taken writer busy reader urb moved => exact absurd busy hbusy
      | settled writer busy other urb notified moved => exact .idle rfl urb other moved

theorem completeIn_sound (h : TransfersSound st) (done : Done) :
    TransfersSound (st.completeIn done) := by
  unfold Transfers.completeIn
  cases hurb : st.urbIn with
  | free => exact h
  | complete other => exact h
  | submitted len =>
      dsimp only
      obtain hdead | hdead := Bool.eq_false_or_eq_true st.dead
      · refine .buried hdead (h.reads.trans (List.prefix_append ..)) h.writes fun hw => ?_
        exact absurd hurb ((h.kicked hdead hw).urbIn len)
      · refine .alive
          hdead ?_ ((h.outPhase hdead).sameReader ⟨rfl, rfl, rfl, rfl, rfl, rfl, rfl⟩ rfl)
        cases h.inPhase hdead with
        | idle reader urb moved => rw [hurb] at urb; cases urb
        | submitted len busy other urb moved => exact .complete _ busy other rfl (by rw [moved])
        | complete found busy other urb moved => rw [hurb] at urb; cases urb
        | taken reader urb moved => rw [hurb] at urb; cases urb

theorem completeOut_sound (h : TransfersSound st) (ok : Bool) (count : Nat) :
    TransfersSound (st.completeOut ok count) := by
  unfold Transfers.completeOut
  cases hurb : st.urbOut with
  | free => exact h
  | complete other => exact h
  | submitted data =>
      dsimp only
      obtain hdead | hdead := Bool.eq_false_or_eq_true st.dead
      · refine .buried hdead h.reads (h.writes.trans (List.prefix_append ..)) fun hw => ?_
        exact absurd hurb ((h.kicked hdead hw).urbOut data)
      · refine .alive hdead ((h.inPhase hdead).sameReader ⟨rfl, rfl, rfl, rfl⟩ rfl) ?_
        cases h.outPhase hdead with
        | idle writer urb other moved => rw [hurb] at urb; cases urb
        | submitted data writer busy other urb moved =>
            exact .complete _ writer busy other rfl (by rw [moved])
        | complete found writer busy other urb moved => rw [hurb] at urb; cases urb
        | taken writer busy reader urb moved => rw [hurb] at urb; cases urb
        | settled writer busy other urb notified moved => rw [hurb] at urb; cases urb

-- What a discarded transfer leaves.
theorem completeIn_eq (st : Transfers) (done : Done) : ∃ urb moved,
    st.completeIn done = { st with urbIn := urb, inMoved := moved } ∧ st.inMoved <+: moved ∧
      (∀ len, urb ≠ .submitted len) ∧ (urb = .free → st.urbIn = .free) := by
  unfold Transfers.completeIn
  cases hurb : st.urbIn with
  | free =>
      refine ⟨.free, st.inMoved, ?_, List.prefix_rfl, by simp, fun _ => rfl⟩
      dsimp only
      rw [← hurb]
  | complete other =>
      refine ⟨.complete other, st.inMoved, ?_, List.prefix_rfl, by simp, fun heq => by cases heq⟩
      dsimp only
      rw [← hurb]
  | submitted len => exact ⟨_, _, rfl, List.prefix_append .., by simp, fun heq => by cases heq⟩

theorem completeOut_eq (st : Transfers) (ok : Bool) (count : Nat) : ∃ urb moved,
    st.completeOut ok count = { st with urbOut := urb, outMoved := moved } ∧ st.outMoved <+: moved ∧
      ∀ data, urb ≠ .submitted data := by
  unfold Transfers.completeOut
  cases hurb : st.urbOut with
  | free =>
      refine ⟨.free, st.outMoved, ?_, List.prefix_rfl, by simp⟩
      dsimp only
      rw [← hurb]
  | complete other =>
      refine ⟨.complete other, st.outMoved, ?_, List.prefix_rfl, by simp⟩
      dsimp only
      rw [← hurb]
  | submitted data => exact ⟨_, _, rfl, List.prefix_append .., by simp⟩

theorem InPhase.reaping (h : InPhase st) (hreader : st.reader = .reaping) : st.urbIn ≠ .free := by
  cases h with
  | idle reader urb moved => exact absurd (hreader.symm.trans reader) (by decide)
  | submitted len busy other urb moved => simp [urb]
  | complete done busy other urb moved => simp [urb]
  | taken reader urb moved => exact absurd (hreader.symm.trans reader) (by decide)

theorem usbKick_sound (h : TransfersSound st) (part : List UInt8) (count : Nat) :
    TransfersSound (st.usbKick part count) := by
  unfold Transfers.usbKick
  split
  · exact h
  rename_i hnot
  have hdead : st.dead = false := Bool.eq_false_iff.mpr hnot
  dsimp only
  obtain ⟨urbIn, inMoved, hin, hinMoved, hnotIn, hfree⟩ :=
    completeIn_eq { st with dead := true } ⟨false, part⟩
  obtain ⟨urbOut, outMoved, hout, houtMoved, hnotOut⟩ := completeOut_eq
    { st with dead := true, urbIn := urbIn, inMoved := inMoved } false count
  split
  · rw [hin, hout]
    refine .buried rfl (h.reads.trans hinMoved) (h.writes.trans houtMoved) fun _ => ?_
    exact ⟨hnotIn, hnotOut, fun hreader hurb => (h.inPhase hdead).reaping hreader (hfree hurb),
      fun _ => rfl⟩
  · rename_i hreadonly
    exact .buried rfl h.reads h.writes fun hw => absurd hw hreadonly

theorem transferStep_sound {move : Transfer} (h : TransfersSound st)
    (hstep : transferStep st move = .ok after) :
    TransfersSound after := by
  cases move with
  | bulkRead len submits => exact bulkRead_sound h hstep
  | reap out => exact reap_sound h hstep
  | handleReap => exact handleReap_sound h hstep
  | bulkWrite data submits => exact bulkWrite_sound h hstep
  | wake => exact wake_sound h hstep
  | completeIn done =>
      cases hstep
      exact completeIn_sound h done
  | completeOut ok count =>
      cases hstep
      exact completeOut_sound h ok count
  | kick part count =>
      cases hstep
      exact usbKick_sound h part count

end Steps

section Runs

variable {st : Transfers} {writeable : Bool} {moves : List Transfer}

theorem registered_sound (writeable : Bool) : TransfersSound (registered writeable) :=
  .alive rfl (.idle rfl rfl rfl) (.idle rfl rfl (by simp [registered]) rfl)

-- The calls get what the kernel has done for them: each completion goes to the call
-- whose transfer it is, in order, and the last one only may still be on its way. A
-- writer whose transfer is reaped, or whose handle is kicked, has been woken, and a
-- reader finds an URB to reap on a handle that is kicked.
structure Delivered (st : Transfers) : Prop where
  reads : ∃ rest, st.inMoved = st.reads ++ rest ∧ (st.dead = false → rest.length ≤ 1)
  writes : ∃ rest, st.outMoved = st.writes ++ rest ∧ (st.dead = false → rest.length ≤ 1)
  quiet : st.dead = false → st.reader = .idle → st.inMoved = st.reads
  settled : st.dead = false → st.writer = .idle → st.outMoved = st.writes
  woken : st.writer = .waiting → st.dead = false → st.urbOutBusy = false → st.notified = true
  kicked : st.writer = .waiting → st.dead = true → st.writeable = true → st.notified = true
  unblocked : st.reader = .reaping → st.dead = true → st.writeable = true →
    ∃ done, st.urbIn = .complete done

theorem every_transfer_is_delivered (writeable : Bool) (moves : List Transfer) (st : Transfers)
    (hr : run transferStep (registered writeable) moves = .ok st) : Delivered st := by
  have h : TransfersSound st :=
    run_invariant (fun _ _ _ => transferStep_sound) (registered_sound writeable) hr
  constructor
  · obtain hdead | hdead := Bool.eq_false_or_eq_true st.dead
    · obtain ⟨rest, hrest⟩ := h.reads
      exact ⟨rest, hrest.symm, fun halive => absurd (hdead.symm.trans halive) (by decide)⟩
    · obtain ⟨rest, hrest, hlen⟩ := (h.inPhase hdead).rest
      exact ⟨rest, hrest, fun _ => hlen⟩
  · obtain hdead | hdead := Bool.eq_false_or_eq_true st.dead
    · obtain ⟨rest, hrest⟩ := h.writes
      exact ⟨rest, hrest.symm, fun halive => absurd (hdead.symm.trans halive) (by decide)⟩
    · obtain ⟨rest, hrest, hlen⟩ := (h.outPhase hdead).rest
      exact ⟨rest, hrest, fun _ => hlen⟩
  · intro hdead hreader
    cases h.inPhase hdead with
    | idle reader urb moved => exact moved
    | submitted len busy other urb moved => exact moved
    | complete done busy other urb moved => exact absurd hreader busy
    | taken reader urb moved => exact absurd (hreader.symm.trans reader) (by decide)
  · intro hdead hwriter
    cases h.outPhase hdead with
    | idle writer urb other moved => exact moved
    | submitted data writer busy other urb moved => exact moved
    | complete done writer busy other urb moved =>
        exact absurd (hwriter.symm.trans writer) (by decide)
    | taken writer busy reader urb moved => exact absurd (hwriter.symm.trans writer) (by decide)
    | settled writer busy other urb notified moved =>
        exact absurd (hwriter.symm.trans writer) (by decide)
  · intro hwriter hdead hbusy
    cases h.outPhase hdead with
    | idle writer urb other moved => exact absurd (hwriter.symm.trans writer) (by decide)
    | submitted data writer busy other urb moved => exact absurd (hbusy.symm.trans busy) (by decide)
    | complete done writer busy other urb moved => exact absurd (hbusy.symm.trans busy) (by decide)
    | taken writer busy reader urb moved => exact absurd (hbusy.symm.trans busy) (by decide)
    | settled writer busy other urb notified moved => exact notified
  · exact fun hwriter hdead hw => (h.kicked hdead hw).writer hwriter
  · intro hreader hdead hw
    have hkicked := h.kicked hdead hw
    cases hurb : st.urbIn with
    | free => exact absurd hurb (hkicked.reader hreader)
    | submitted len => exact absurd hurb (hkicked.urbIn len)
    | complete done => exact ⟨done, rfl⟩

-- A packet is written while the reader waits for one, and then that one comes.
def oneEachWay : List Transfer :=
  [.bulkRead 2 true, .bulkWrite [7] true, .completeOut true 1, .reap .urbOut, .handleReap, .wake,
    .completeIn ⟨true, [9]⟩, .reap .urbIn, .handleReap]

theorem every_transfer_is_delivered_one_each_way : ∃ st,
    run transferStep (registered true) oneEachWay = .ok st ∧ st.reads = [⟨true, [9]⟩] ∧
      st.writes = [⟨true, [7]⟩] ∧ Delivered st :=
  ⟨_, rfl, rfl, rfl, every_transfer_is_delivered true oneEachWay _ rfl⟩

end Runs

end Adb.Usb
