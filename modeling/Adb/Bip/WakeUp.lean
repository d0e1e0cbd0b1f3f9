import Adb.Bip.NoLoss
import Adb.Event.Process

namespace Adb.Bip

open Adb.Lib Adb.Event

def MAXIMUM_WAIT_OBJECTS : Nat := 64

inductive Direction where
  | a2b
  | b2a
deriving DecidableEq

-- The two ends of a pair, a_fd and the other.
inductive PairEnd where
  | a
  | b
deriving DecidableEq

-- The four events of the pair among the handles of the program.
def evtRead : Direction → Nat
  | .a2b => 0
  | .b2a => 2

def evtWrite : Direction → Nat
  | .a2b => 1
  | .b2a => 3

inductive ClosePhase where
  | setClosed
  | testRead
  | signalRead
  | testWrite
  | signalWrite
deriving DecidableEq

-- Where _fh_socketpair_close of an end stands: it closes b2a_bip first.
inductive CloseAt where
  | idle
  | busy (d : Direction) (phase : ClosePhase)
  | done
deriving DecidableEq

-- Where fdevent_process stands: in its first loop, with the hooks that are
-- prepared and those that are not, or in WaitForMultipleObjects.
inductive LooperAt where
  | idle
  | preparing (done todo : List EventHook)
  | waiting (hooks : List EventHook) (htab : List Nat)

structure PairState where
  bip : Direction → BipBuffer
  closer : PairEnd → CloseAt
  looper : LooperAt

def pairInit : PairState where
  bip := fun _ => bipBufferInit
  closer := fun _ => .idle
  looper := .idle

namespace PairState

def setBip (st : PairState) (d : Direction) (bip : BipBuffer) : PairState :=
  { st with bip := Function.update st.bip d bip }

def setCloser (st : PairState) (e : PairEnd) (c : CloseAt) : PairState :=
  { st with closer := Function.update st.closer e c }

end PairState

-- write and read stand for any thread that is let into the locked section of
-- the direction; hooks is what the looper waits for when a pass begins.
inductive PairMove where
  | write (d : Direction) (src : Nat → UInt8) (len : Int)
  | read (d : Direction) (len : Int)
  | close (e : PairEnd)
  | closer (e : PairEnd)
  | pass (hooks : List EventHook)
  | prepare (look : Look)
  | wake (index : Nat) (look : Nat → Look)

-- What the closing thread does after a buffer.
def closeNext : Direction → CloseAt
  | .b2a => .busy .a2b .setClosed
  | .a2b => .done

-- One step of bip_buffer_close, which takes no lock.
def closerStep (st : PairState) (e : PairEnd) : Except NoMove PairState :=
  match st.closer e with
  | .idle | .done => .error .disabled
  | .busy d .setClosed =>
      .ok ((st.setBip d { st.bip d with closed := true }).setCloser e (.busy d .testRead))
  | .busy d .testRead =>
      .ok (st.setCloser e (.busy d (if (st.bip d).canRead then .testWrite else .signalRead)))
  | .busy d .signalRead =>
      .ok ((st.setBip d { st.bip d with evtRead := true }).setCloser e (.busy d .testWrite))
  | .busy d .testWrite =>
      .ok (st.setCloser e (if (st.bip d).canWrite then closeNext d else .busy d .signalWrite))
  | .busy d .signalWrite =>
      .ok ((st.setBip d { st.bip d with evtWrite := true }).setCloser e (closeNext d))

-- What a hook of an end of the pair finds is what the flags are; for any other
-- hook it is up to its handle.
def lookAt (st : PairState) (look : Look) : FHClass → Look
  | .socketpair r w =>
      { look with
        canRead := if r = evtRead .a2b then (st.bip .a2b).canRead
          else if r = evtRead .b2a then (st.bip .b2a).canRead else look.canRead
        canWrite := if w = evtWrite .a2b then (st.bip .a2b).canWrite
          else if w = evtWrite .b2a then (st.bip .b2a).canWrite else look.canWrite }
  | _ => look

-- After the first loop the pass goes on only if nothing is ready, and waits only
-- if every start function agrees.
def afterPrepare (hooks : List EventHook) : LooperAt :=
  if hooks.any fun hook => hook.ready ≠ 0 then
    .idle
  else
    match fillTable hooks [] with
    | (hooks, some (h :: htab)) => .waiting hooks (h :: htab)
    | _ => .idle

def signalledIn (st : PairState) (h : Nat) : Bool :=
  if h = evtRead .a2b then (st.bip .a2b).evtRead
  else if h = evtWrite .a2b then (st.bip .a2b).evtWrite
  else if h = evtRead .b2a then (st.bip .b2a).evtRead
  else if h = evtWrite .b2a then (st.bip .b2a).evtWrite
  else true

-- WSAResetEvent on the handle that woke the pass.
def resetEvent (st : PairState) (h : Nat) : PairState :=
  if h = evtRead .a2b then st.setBip .a2b { st.bip .a2b with evtRead := false }
  else if h = evtWrite .a2b then st.setBip .a2b { st.bip .a2b with evtWrite := false }
  else if h = evtRead .b2a then st.setBip .b2a { st.bip .b2a with evtRead := false }
  else if h = evtWrite .b2a then st.setBip .b2a { st.bip .b2a with evtWrite := false }
  else st

def pairStep (st : PairState) : PairMove → Except NoMove PairState
  | .write d src len =>
      match bipBufferWrite (st.bip d) src len with
      | .returned _ bip => .ok (st.setBip d bip)
      | .waiting => .ok st
      | .assertFailed => .error .assertion
  | .read d len =>
      match bipBufferRead (st.bip d) len with
      | .returned _ bip => .ok (st.setBip d bip)
      | .waiting => .ok st
      | .assertFailed => .error .assertion
  | .close e =>
      match st.closer e with
      | .idle => .ok (st.setCloser e (.busy .b2a .setClosed))
      | _ => .error .disabled
  | .closer e => closerStep st e
  | .pass hooks =>
      match st.looper with
      | .idle => .ok { st with looper := .preparing [] hooks }
      | _ => .error .disabled
  | .prepare look =>
      match st.looper with
      | .preparing done (hook :: todo) =>
          let hook := Event.prepare { hook with ready := 0 } (lookAt st look hook.clazz)
          .ok { st with looper := .preparing (done ++ [hook]) todo }
      | .preparing done [] => .ok { st with looper := afterPrepare done }
      | _ => .error .disabled
  | .wake index look =>
      match st.looper with
      | .waiting hooks htab =>
          match htab[index]? with
          | none => .ok st
          | some h =>
              if signalledIn st h then
                -- _wait_for_all takes the place of the wait and the reset
                let st := if htab.length ≤ MAXIMUM_WAIT_OBJECTS then resetEvent st h else st
                let gotone := hooks.any fun hook =>
                  hook.h = some h ∧ (check hook (look hook.fh)).1 = true
                .ok { st with looper := if gotone then .idle else .waiting hooks htab }
              else
                .error .waits
      | _ => .error .disabled

-- A close call that stands here has closed to set, or has set it, and will
-- signal the reader (the writer) of the direction if its flag is still clear.
def CloseAt.willSignalRead (d : Direction) : CloseAt → Bool
  | .busy d' .setClosed | .busy d' .testRead | .busy d' .signalRead => d' = d
  | _ => false

def CloseAt.willSignalWrite (d : Direction) : CloseAt → Bool
  | .busy d' _ => d' = d
  | _ => false

def closingRead (st : PairState) (d : Direction) : Bool :=
  (st.closer .a).willSignalRead d || (st.closer .b).willSignalRead d

def closingWrite (st : PairState) (d : Direction) : Bool :=
  (st.closer .a).willSignalWrite d || (st.closer .b).willSignalWrite d

-- Who waits on a direction that is closed or holds bytes (or has room for some)
-- is not left asleep.
def ReaderAwake (bip : BipBuffer) : Prop :=
  bip.closed = true ∨ contents bip ≠ [] → bip.canRead = true ∨ bip.evtRead = true

def WriterAwake (bip : BipBuffer) : Prop :=
  bip.closed = true ∨ (contents bip).length < BIP_BUFFER_SIZE →
    bip.canWrite = true ∨ bip.evtWrite = true

def Awake (st : PairState) : Prop :=
  ∀ d, (closingRead st d = false → ReaderAwake (st.bip d)) ∧
    (closingWrite st d = false → WriterAwake (st.bip d))

-- A direction is closed, and no close call will signal its reader (its writer)
-- any more.
def settledRead (st : PairState) (d : Direction) : Prop :=
  (st.bip d).closed = true ∧ closingRead st d = false

def settledWrite (st : PairState) (d : Direction) : Prop :=
  (st.bip d).closed = true ∧ closingWrite st d = false

-- A pass is not woken by an event of such a direction whose flag is clear.
def KeepsEvents (st : PairState) (h : Nat) (d : Direction) : Prop :=
  (settledRead st d → h = evtRead d → (st.bip d).canRead = true) ∧
    (settledWrite st d → h = evtWrite d → (st.bip d).canWrite = true)

-- On such a direction a read leaves a byte and a write leaves room for one.
def KeepsAwake (st : PairState) : PairMove → Prop
  | .write d _ len => settledWrite st d → (st.bip d).canWrite = true →
      (contents (st.bip d)).length + len.toNat < BIP_BUFFER_SIZE
  | .read d len => settledRead st d → (st.bip d).canRead = true →
      len.toNat < (contents (st.bip d)).length
  | .wake index _ =>
      match st.looper with
      | .waiting _ htab =>
          match htab[index]? with
          | some h => htab.length ≤ MAXIMUM_WAIT_OBJECTS →
              KeepsEvents st h .a2b ∧ KeepsEvents st h .b2a
          | none => True
      | _ => True
  | _ => True

instance (st : PairState) (d : Direction) : Decidable (settledRead st d) := by
  unfold settledRead
  infer_instance

instance (st : PairState) (d : Direction) : Decidable (settledWrite st d) := by
  unfold settledWrite
  infer_instance

instance (st : PairState) (h : Nat) (d : Direction) : Decidable (KeepsEvents st h d) := by
  unfold KeepsEvents
  infer_instance

instance (st : PairState) (move : PairMove) : Decidable (KeepsAwake st move) := by
  unfold KeepsAwake
  split
  · infer_instance
  · infer_instance
  · split
    · split <;> infer_instance
    · infer_instance
  · infer_instance

section Invariant

variable {st st' : PairState} {bip after : BipBuffer} {len : Nat}

def PairEnd.other : PairEnd → PairEnd
  | .a => .b
  | .b => .a

theorem closingRead_eq (e : PairEnd) (d : Direction) : closingRead st d =
    ((st.closer e).willSignalRead d || (st.closer e.other).willSignalRead d) := by
  cases e <;> simp [closingRead, PairEnd.other, Bool.or_comm]

theorem closingWrite_eq (e : PairEnd) (d : Direction) : closingWrite st d =
    ((st.closer e).willSignalWrite d || (st.closer e.other).willSignalWrite d) := by
  cases e <;> simp [closingWrite, PairEnd.other, Bool.or_comm]

theorem readExit_events {bip : BipBuffer} {dst value : List UInt8}
    (h : readExit bip dst = .returned value after) :
    after.canRead = bip.canRead ∧ after.evtRead = bip.evtRead := by
  unfold readExit at h
  split at h
  · cases h
    split <;> exact ⟨rfl, rfl⟩
  · cases h

theorem writeExit_events {bip : BipBuffer} {count : Nat} {value : Int}
    (h : writeExit bip count = .returned value after) :
    after.canWrite = bip.canWrite ∧ after.evtWrite = bip.evtWrite := by
  unfold writeExit at h
  split at h
  · cases h
    split <;> exact ⟨rfl, rfl⟩
  · cases h

-- A read that clears can_read resets the event, whatever closed says.
theorem readLocked_drained {dst : List UInt8} (h : readLocked bip len = .returned dst after)
    (hr : bip.canRead = true) (hd : after.canRead = false) : after.evtRead = false := by
  have hkeep : ∀ {other : BipBuffer} {part : List UInt8}, other.canRead = true →
      readExit other part ≠ .returned dst after := by
    intro other part ho he
    rw [(readExit_events he).1, ho] at hd
    cases hd
  unfold readLocked at h
  simp only at h
  split at h
  · split at h
    · exact absurd h (hkeep hr)
    · unfold readRegionB at h
      simp only at h
      split at h
      · split at h
        · exact absurd h (hkeep hr)
        · exact (readExit_events h).2
      · exact (readExit_events h).2
  · cases h

theorem writeLocked_filled {src : Nat → UInt8} {value : Int}
    (h : writeLocked bip src len = .returned value after) (hw : bip.canWrite = true)
    (hd : after.canWrite = false) : after.evtWrite = false := by
  have hkeep : ∀ {other : BipBuffer} {count : Nat}, other.canWrite = true →
      writeExit other count ≠ .returned value after := by
    intro other count ho he
    rw [(writeExit_events he).1, ho] at hd
    cases hd
  have hregion : ∀ {other : BipBuffer} {src : Nat → UInt8} {count len : Nat},
      writeRegionB other src count len = .returned value after → other.canWrite = true →
        after.evtWrite = false := by
    intro other src count len he ho
    unfold writeRegionB at he
    simp only at he
    split at he
    · exact absurd he (hkeep ho)
    · split at he
      · split at he
        · exact (writeExit_events he).2
        · exact absurd he (hkeep ho)
      · cases he
  unfold writeLocked at h
  simp only at h
  split at h
  · split at h
    · exact (writeExit_events h).2
    · exact hregion h hw
  · exact hregion h hw

-- Awake, as far as a closed direction is concerned.
def SettledAwake (st : PairState) (d : Direction) : Prop :=
  (settledRead st d → (st.bip d).canRead = true ∨ (st.bip d).evtRead = true) ∧
    (settledWrite st d → (st.bip d).canWrite = true ∨ (st.bip d).evtWrite = true)

def PairStored (st : PairState) : Prop :=
  ∀ d, ∃ queue, Represents (st.bip d) queue

-- The flags say what there is to say of the bytes.
theorem awake_iff (h : PairStored st) : Awake st ↔ ∀ d, SettledAwake st d := by
  refine forall_congr' fun d => ?_
  obtain ⟨queue, hq⟩ := h d
  have hr := hq.can_read
  have hw := hq.can_write
  rw [SettledAwake, ReaderAwake, WriterAwake, hq.contents_eq, ← hr, ← hw, settledRead, settledWrite]
  cases (st.bip d).closed <;> cases (st.bip d).canRead <;> cases (st.bip d).canWrite <;>
    cases closingRead st d <;> cases closingWrite st d <;> simp

theorem pairStored_init : PairStored pairInit :=
  fun _ => ⟨[], represents_init⟩

theorem awake_init : Awake pairInit := by
  rw [awake_iff pairStored_init]
  intro d
  simp [SettledAwake, settledRead, settledWrite, pairInit, bipBufferInit]

section Fields

variable (d d' : Direction) (e : PairEnd) (c : CloseAt)

@[simp] theorem setBip_same : (st.setBip d bip).bip d = bip := by
  simp [PairState.setBip]

theorem setBip_other (h : d' ≠ d) : (st.setBip d bip).bip d' = st.bip d' := by
  simp [PairState.setBip, h]

@[simp] theorem setBip_closer : (st.setBip d bip).closer = st.closer := rfl

@[simp] theorem setCloser_bip : (st.setCloser e c).bip = st.bip := rfl

@[simp] theorem setBip_closingRead : closingRead (st.setBip d bip) d' = closingRead st d' := rfl

@[simp] theorem setBip_closingWrite : closingWrite (st.setBip d bip) d' = closingWrite st d' := rfl

theorem setCloser_closingRead : closingRead (st.setCloser e c) d =
    (c.willSignalRead d || (st.closer e.other).willSignalRead d) := by
  rw [closingRead_eq e]
  cases e <;> simp [PairState.setCloser, PairEnd.other]

theorem setCloser_closingWrite : closingWrite (st.setCloser e c) d =
    (c.willSignalWrite d || (st.closer e.other).willSignalWrite d) := by
  rw [closingWrite_eq e]
  cases e <;> simp [PairState.setCloser, PairEnd.other]

end Fields

theorem PairStored.setBip (h : PairStored st) (d : Direction)
    (hb : ∃ queue, Represents bip queue) : PairStored (st.setBip d bip) := by
  intro d'
  by_cases hd : d' = d
  · rw [hd, setBip_same]
    exact hb
  · rw [setBip_other d d' hd]
    exact h d'

-- A change of one buffer is a matter of that direction.
theorem settledAwake_setBip (ha : ∀ d, SettledAwake st d) (d : Direction) :
    (∀ d', SettledAwake (st.setBip d bip) d') ↔ SettledAwake (st.setBip d bip) d := by
  refine ⟨fun h => h d, fun h d' => ?_⟩
  by_cases hd : d' = d
  · rw [hd]
    exact h
  · have hother := ha d'
    simp only [SettledAwake, settledRead, settledWrite, setBip_closingRead, setBip_closingWrite,
      setBip_other d d' hd] at hother ⊢
    exact hother

theorem setBip_self (st : PairState) (d : Direction) : st.setBip d (st.bip d) = st := by
  simp [PairState.setBip]

-- A write leaves the reader awake; the writer only where there is room left.
theorem write_awake_iff {src : Nat → UInt8} {value : Int} {d : Direction} {len : Int}
    (hs : PairStored st) (ha : ∀ d, SettledAwake st d)
    (h : bipBufferWrite (st.bip d) src len = .returned value after) :
    PairStored (st.setBip d after) ∧ ((∀ d', SettledAwake (st.setBip d after) d') ↔
      (settledWrite st d → (st.bip d).canWrite = true →
        (contents (st.bip d)).length + len.toNat < BIP_BUFFER_SIZE)) := by
  obtain ⟨queue, hq⟩ := hs d
  rw [hq.contents_eq]
  unfold bipBufferWrite at h
  split at h
  · rename_i hlen
    cases h
    have hzero : len.toNat = 0 := by omega
    rw [setBip_self]
    refine ⟨hs, fun _ _ hc => ?_, fun _ => ha⟩
    have := hq.can_write.mp hc
    omega
  split at h
  · rename_i hlen hc
    have hpos : 0 < len.toNat := by omega
    obtain ⟨_, he, hq', hclosed⟩ := writeLocked_spec src len.toNat hq hc hpos
    have hfilled := fun hf => writeLocked_filled h hc hf
    rw [he] at h
    cases h
    have hread : after.canRead = true := hq'.can_read.mpr (by
      have hroom := hq.can_write.mp hc
      refine List.ne_nil_of_length_pos ?_
      simp only [List.length_append, length_bytesAt]
      omega)
    have hwrite : after.canWrite = true ↔ queue.length + len.toNat < BIP_BUFFER_SIZE := by
      have hroom := hq.can_write.mp hc
      rw [hq'.can_write, List.length_append, length_bytesAt]
      omega
    refine ⟨hs.setBip d ⟨_, hq'⟩, ?_⟩
    rw [settledAwake_setBip ha]
    simp only [SettledAwake, settledRead, settledWrite, setBip_same, setBip_closingRead,
      setBip_closingWrite, hclosed, hread, hc, true_or, implies_true, true_and, true_implies]
    refine imp_congr_right fun _ => ?_
    rw [← hwrite]
    refine ⟨fun hor => ?_, .inl⟩
    by_contra hno
    rw [hfilled (by simpa using hno)] at hor
    exact hno (hor.resolve_right (by simp))
  · cases h

-- A read leaves the writer awake; the reader only where a byte is left.
theorem read_awake_iff {value : List UInt8} {d : Direction} {len : Int}
    (hs : PairStored st) (ha : ∀ d, SettledAwake st d)
    (h : bipBufferRead (st.bip d) len = .returned value after) :
    PairStored (st.setBip d after) ∧ ((∀ d', SettledAwake (st.setBip d after) d') ↔
      (settledRead st d → (st.bip d).canRead = true →
        len.toNat < (contents (st.bip d)).length)) := by
  obtain ⟨queue, hq⟩ := hs d
  rw [hq.contents_eq]
  unfold bipBufferRead at h
  split at h
  · rename_i hlen
    cases h
    have hzero : len.toNat = 0 := by omega
    rw [setBip_self]
    refine ⟨hs, fun _ _ hc => ?_, fun _ => ha⟩
    rw [hzero]
    exact List.length_pos_of_ne_nil (hq.can_read.mp hc)
  split at h
  · rename_i hlen hc
    have hpos : 0 < len.toNat := by omega
    obtain ⟨_, he, hq', hclosed⟩ := readLocked_spec len.toNat hq hc hpos
    have hdrained := fun hf => readLocked_drained h hc hf
    rw [he] at h
    cases h
    have hwrite : after.canWrite = true := hq'.can_write.mpr (by
      have hne := List.length_pos_of_ne_nil (hq.can_read.mp hc)
      have hle := hq.toLayout.length_le
      rw [List.length_drop]
      omega)
    have hread : after.canRead = true ↔ len.toNat < queue.length := by
      rw [hq'.can_read, ← List.length_pos_iff, List.length_drop]
      omega
    refine ⟨hs.setBip d ⟨_, hq'⟩, ?_⟩
    rw [settledAwake_setBip ha]
    simp only [SettledAwake, settledRead, settledWrite, setBip_same, setBip_closingRead,
      setBip_closingWrite, hclosed, hwrite, hc, true_or, implies_true, and_true, true_implies]
    refine imp_congr_right fun _ => ?_
    rw [← hread]
    refine ⟨fun hor => ?_, .inl⟩
    by_contra hno
    rw [hdrained (by simpa using hno)] at hor
    exact hno (hor.resolve_right (by simp))
  · cases h

-- The closing thread works on one direction at a time.
theorem closer_awake {e : PairEnd} {c : CloseAt} {d : Direction} {phase : ClosePhase}
    (hc : st.closer e = .busy d phase) (ha : ∀ d, SettledAwake st d)
    (hd : SettledAwake ((st.setBip d bip).setCloser e c) d) :
    ∀ d', SettledAwake ((st.setBip d bip).setCloser e c) d' := by
  intro d'
  by_cases heq : d' = d
  · rw [heq]
    exact hd
  · have hother := ha d'
    have hread : (st.closer e).willSignalRead d' = false := by
      rw [hc]
      cases phase <;> simp [CloseAt.willSignalRead, Ne.symm heq]
    have hwrite : (st.closer e).willSignalWrite d' = false := by
      rw [hc]
      simp [CloseAt.willSignalWrite, Ne.symm heq]
    simp only [SettledAwake, settledRead, settledWrite, closingRead_eq e, closingWrite_eq e, hread,
      hwrite, Bool.false_or] at hother
    simp only [SettledAwake, settledRead, settledWrite, setCloser_closingRead,
      setCloser_closingWrite, setCloser_bip, setBip_closer, setBip_other d d' heq,
      Bool.or_eq_false_iff]
    exact ⟨fun h => hother.1 ⟨h.1, h.2.2⟩, fun h => hother.2 ⟨h.1, h.2.2⟩⟩

-- It leaves nobody asleep whom it will not signal.
theorem closerStep_awake {e : PairEnd} (hs : PairStored st) (ha : ∀ d, SettledAwake st d)
    (h : closerStep st e = .ok st') : PairStored st' ∧ ∀ d, SettledAwake st' d := by
  unfold closerStep at h
  split at h
  · cases h
  · cases h
  · rename_i d hc
    cases h
    obtain ⟨queue, hq⟩ := hs d
    refine ⟨hs.setBip d ⟨queue, hq.of_events true _ _⟩, closer_awake hc ha ?_⟩
    simp [SettledAwake, settledRead, settledWrite, setCloser_closingRead, setCloser_closingWrite,
      CloseAt.willSignalRead, CloseAt.willSignalWrite]
  · rename_i d hc
    cases h
    rw [← setBip_self st d]
    refine ⟨by rw [setBip_self]; exact hs, closer_awake hc ha ?_⟩
    by_cases hr : (st.bip d).canRead = true
    · simp [SettledAwake, settledRead, settledWrite, setCloser_closingRead,
        setCloser_closingWrite, CloseAt.willSignalRead, CloseAt.willSignalWrite, hr]
    · simp [SettledAwake, settledRead, settledWrite, setCloser_closingRead,
        setCloser_closingWrite, CloseAt.willSignalRead, CloseAt.willSignalWrite, hr]
  · rename_i d hc
    cases h
    obtain ⟨queue, hq⟩ := hs d
    refine ⟨hs.setBip d ⟨queue, hq.of_events _ _ true⟩, closer_awake hc ha ?_⟩
    simp [SettledAwake, settledRead, settledWrite, setCloser_closingRead, setCloser_closingWrite,
      CloseAt.willSignalRead, CloseAt.willSignalWrite]
  · rename_i d hc
    cases h
    rw [← setBip_self st d]
    refine ⟨by rw [setBip_self]; exact hs, closer_awake hc ha ?_⟩
    have hd := (ha d).1
    simp only [settledRead, closingRead_eq e, hc, CloseAt.willSignalRead, Bool.false_or] at hd
    by_cases hw : (st.bip d).canWrite = true
    · simp only [SettledAwake, settledRead, settledWrite, setCloser_closingRead, setBip_self,
        setCloser_bip, hw, if_true, Bool.or_eq_false_iff, true_or, implies_true, and_true]
      exact fun hcl => hd ⟨hcl.1, hcl.2.2⟩
    · simp only [SettledAwake, settledRead, settledWrite, setCloser_closingRead,
        setCloser_closingWrite, setBip_self, setCloser_bip, hw, CloseAt.willSignalRead,
        CloseAt.willSignalWrite, Bool.or_eq_false_iff]
      exact ⟨fun hcl => hd ⟨hcl.1, hcl.2.2⟩, fun hcl => by simp at hcl⟩
  · rename_i d hc
    cases h
    obtain ⟨queue, hq⟩ := hs d
    refine ⟨hs.setBip d ⟨queue, hq.of_events _ true _⟩, closer_awake hc ha ?_⟩
    have hd := (ha d).1
    simp only [settledRead, closingRead_eq e, hc, CloseAt.willSignalRead, Bool.false_or] at hd
    simp only [SettledAwake, settledRead, settledWrite, setCloser_closingRead, setBip_same,
      setCloser_bip, setBip_closer, Bool.or_eq_false_iff, or_true, implies_true, and_true]
    exact fun hcl => hd ⟨hcl.1, hcl.2.2⟩

theorem resetEvent_closer (st : PairState) (h : Nat) : (resetEvent st h).closer = st.closer := by
  unfold resetEvent
  split_ifs <;> rfl

theorem resetEvent_bip (st : PairState) (h : Nat) (d : Direction) :
    (resetEvent st h).bip d =
      { st.bip d with
        evtRead := (st.bip d).evtRead && decide (h ≠ evtRead d)
        evtWrite := (st.bip d).evtWrite && decide (h ≠ evtWrite d) } := by
  unfold resetEvent
  split_ifs with h1 h2 h3 h4 <;> cases d <;>
    simp_all [PairState.setBip, evtRead, evtWrite, Function.update]

-- A reset takes back what a settled direction whose flag is clear relies on.
theorem resetEvent_awake_iff (hs : PairStored st) (ha : ∀ d, SettledAwake st d) (h : Nat) :
    PairStored (resetEvent st h) ∧ ((∀ d, SettledAwake (resetEvent st h) d) ↔
      KeepsEvents st h .a2b ∧ KeepsEvents st h .b2a) := by
  refine ⟨fun d => ?_, ?_⟩
  · obtain ⟨queue, hq⟩ := hs d
    rw [resetEvent_bip]
    exact ⟨queue, hq.of_events _ _ _⟩
  · have hone : ∀ d, SettledAwake (resetEvent st h) d ↔ KeepsEvents st h d := by
      intro d
      have hd := ha d
      simp only [SettledAwake, KeepsEvents, settledRead, settledWrite, closingRead, closingWrite,
        resetEvent_closer, resetEvent_bip] at hd ⊢
      by_cases hr : h = evtRead d <;> by_cases hw : h = evtWrite d <;> simp_all
    refine ⟨fun hall => ⟨(hone _).mp (hall _), (hone _).mp (hall _)⟩, fun hk d => (hone d).mpr ?_⟩
    cases d
    · exact hk.1
    · exact hk.2

-- A step lets nobody fall asleep exactly when it meets the guard.
theorem pairStep_awake_iff {move : PairMove} (hs : PairStored st) (ha : ∀ d, SettledAwake st d)
    (h : pairStep st move = .ok st') :
    PairStored st' ∧ ((∀ d, SettledAwake st' d) ↔ KeepsAwake st move) := by
  have hsame : ∀ looper, PairStored { st with looper := looper } ∧
      ((∀ d, SettledAwake { st with looper := looper } d) ↔ True) :=
    fun _ => ⟨hs, iff_true_intro ha⟩
  cases move with
  | write d src len =>
      simp only [pairStep] at h
      split at h
      · rename_i value bip hb
        cases h
        exact write_awake_iff hs ha hb
      · rename_i hb
        cases h
        refine ⟨hs, fun _ _ hc => ?_, fun _ => ha⟩
        unfold bipBufferWrite at hb
        rw [if_pos hc] at hb
        split at hb
        · cases hb
        · rename_i hlen
          obtain ⟨queue, hq⟩ := hs d
          obtain ⟨bip, he, -⟩ := writeLocked_spec src len.toNat hq hc (by omega)
          rw [he] at hb
          cases hb
      · cases h
  | read d len =>
      simp only [pairStep] at h
      split at h
      · rename_i value bip hb
        cases h
        exact read_awake_iff hs ha hb
      · rename_i hb
        cases h
        refine ⟨hs, fun _ _ hc => ?_, fun _ => ha⟩
        unfold bipBufferRead at hb
        rw [if_pos hc] at hb
        split at hb
        · cases hb
        · rename_i hlen
          obtain ⟨queue, hq⟩ := hs d
          obtain ⟨bip, he, -⟩ := readLocked_spec len.toNat hq hc (by omega)
          rw [he] at hb
          cases hb
      · cases h
  | close e =>
      simp only [pairStep] at h
      split at h
      · rename_i hc
        cases h
        refine ⟨hs, fun _ => trivial, fun _ d => ?_⟩
        have hd := ha d
        simp only [SettledAwake, settledRead, settledWrite, closingRead_eq e, closingWrite_eq e, hc,
          CloseAt.willSignalRead, CloseAt.willSignalWrite, Bool.false_or] at hd
        simp only [SettledAwake, settledRead, settledWrite, setCloser_closingRead,
          setCloser_closingWrite, setCloser_bip, Bool.or_eq_false_iff]
        exact ⟨fun hcl => hd.1 ⟨hcl.1, hcl.2.2⟩, fun hcl => hd.2 ⟨hcl.1, hcl.2.2⟩⟩
      · cases h
  | closer e =>
      obtain ⟨hs', ha'⟩ := closerStep_awake hs ha h
      exact ⟨hs', iff_of_true ha' trivial⟩
  | pass hooks =>
      simp only [pairStep] at h
      split at h
      · cases h
        exact hsame _
      · cases h
  | prepare look =>
      simp only [pairStep] at h
      split at h
      · cases h
        exact hsame _
      · cases h
        exact hsame _
      · cases h
  | wake index look =>
      simp only [pairStep] at h
      split at h
      · rename_i hooks htab hl
        simp only [KeepsAwake, hl]
        split at h
        · rename_i hi
          cases h
          simp only [hi]
          exact hsame _
        · rename_i handle hi
          simp only [hi]
          split at h
          · cases h
            by_cases hmax : htab.length ≤ MAXIMUM_WAIT_OBJECTS
            · simp only [hmax, true_implies]
              exact resetEvent_awake_iff hs ha handle
            · simp only [hmax, false_implies]
              exact hsame _
          · cases h
      · cases h

-- In a run that keeps to the guard nobody who waits on an end of the pair is
-- left asleep, but by a close call that has yet to signal them.
theorem no_lost_wake_up (moves : List PairMove) (st : PairState)
    (hg : Guarded pairStep KeepsAwake pairInit moves) (hr : run pairStep pairInit moves = .ok st) :
    Awake st := by
  have hinv : PairStored st ∧ ∀ d, SettledAwake st d := by
    refine guarded_invariant (P := fun st => PairStored st ∧ ∀ d, SettledAwake st d) ?_
      ⟨pairStored_init, (awake_iff pairStored_init).mp awake_init⟩ hg hr
    intro st move st' hi hk hstep
    obtain ⟨hs', hiff⟩ := pairStep_awake_iff hi.1 hi.2 hstep
    exact ⟨hs', hiff.mpr hk⟩
  exact (awake_iff hinv.1).mpr hinv.2

end Invariant

-- The other end wrote three bytes and closed; the reader takes two of them.
def closedWithBytes : List PairMove :=
  [.write .b2a (fun _ => 65) 3, .close .b, .closer .b, .closer .b, .closer .b, .closer .b,
    .closer .b, .closer .b, .closer .b, .read .b2a 2]

theorem awake_while_bytes_are_left : ∃ st : PairState,
    run pairStep pairInit closedWithBytes = .ok st ∧ Awake st := by
  refine ⟨_, rfl, no_lost_wake_up closedWithBytes _ ?_ rfl⟩
  decide

-- The last byte of the closed direction takes the event with it.
theorem asleep_on_closed_direction : ∃ st : PairState,
    run pairStep pairInit (closedWithBytes ++ [.read .b2a 1]) = .ok st ∧
      (st.bip .b2a).closed = true ∧ closingRead st .b2a = false ∧
      (st.bip .b2a).canRead = false ∧ (st.bip .b2a).evtRead = false := by
  refine ⟨_, rfl, ?_⟩
  decide

end Adb.Bip
