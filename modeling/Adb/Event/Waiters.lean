import Adb.Lib.Run
import Mathlib.Data.List.Basic
import Mathlib.Logic.Function.Basic
import Mathlib.Tactic.Common

namespace Adb.Event

open Adb.Lib

def WAIT_ALL_CHUNK_SIZE : Nat := 63

def WAIT_FAILED : Int := -1

section Model

variable {Handle : Type}

-- handles has handles_count entries.
structure WaitForAllParam (Handle : Type) where
  handles : List Handle
  firstHandleIndex : Nat

def chunkParam (handles : List Handle) (chunk count : Nat) : WaitForAllParam Handle where
  handles := (handles.drop (WAIT_ALL_CHUNK_SIZE * chunk)).take count
  firstHandleIndex := WAIT_ALL_CHUNK_SIZE * chunk

-- The array threads, once _wait_for_all has filled it.
def threads (handles : List Handle) : List (WaitForAllParam Handle) :=
  let chunks := handles.length / WAIT_ALL_CHUNK_SIZE
  let remains := handles.length % WAIT_ALL_CHUNK_SIZE
  (List.range chunks).map (fun chunk => chunkParam handles chunk WAIT_ALL_CHUNK_SIZE) ++
    if remains = 0 then [] else [chunkParam handles chunks remains]

-- The array wait_on of a waiter: the main event, then its handles.
def waitOn (param : WaitForAllParam Handle) : List (Option Handle) :=
  none :: param.handles.map some

-- Where a waiter stands. One that is woken knows what WaitForMultipleObjects has
-- returned, one that has recorded is about to set the main event.
inductive WaiterAt where
  | absent
  | waiting
  | woken (res : Nat)
  | recorded
  | leaving
  | exited
deriving DecidableEq

inductive CallerAt where
  | allocating
  | starting (chunk : Nat)
  | waiting
  | joining (chunk : Nat)
  | returned (ret : Int)
deriving DecidableEq

-- What is set now, and what has been set at some time.
structure WaitState (Handle : Type) where
  isSet : Handle → Bool
  beenSet : Handle → Bool
  mainEvent : Bool
  sigIndex : Int
  chunks : Nat
  waiter : Nat → WaiterAt
  caller : CallerAt

def waitForAllInit (handles : List Handle) (isSet : Handle → Bool) : WaitState Handle where
  isSet := isSet
  beenSet := isSet
  mainEvent := false
  sigIndex := -1
  chunks := (threads handles).length
  waiter := fun _ => .absent
  caller := .allocating

-- Handles are set and reset by anyone, also by the waits on them. A creation that
-- fails is one of the array, of the main event or of a thread.
inductive WaitMove (Handle : Type) where
  | signal (h : Handle)
  | reset (h : Handle)
  | caller
  | creationFails
  | waiter (chunk res : Nat)

inductive NoTurn where
  | blocked
  | finished
deriving DecidableEq

def WaitState.objectSet (st : WaitState Handle) : Option Handle → Bool
  | none => st.mainEvent
  | some h => st.isSet h

def WaitState.setWaiter (st : WaitState Handle) (chunk : Nat) (w : WaiterAt) : WaitState Handle :=
  { st with waiter := Function.update st.waiter chunk w }

-- InterlockedCompareExchange with -1 as what is expected.
def WaitState.record (st : WaitState Handle) (index : Int) : WaitState Handle :=
  if st.sigIndex = -1 then { st with sigIndex := index } else st

-- _in_waiter_thread
def waiterStep (param : WaitForAllParam Handle) (st : WaitState Handle) (chunk res : Nat) :
    Except NoTurn (WaitState Handle) :=
  match st.waiter chunk with
  | .absent => .error .blocked
  | .waiting =>
      match (waitOn param)[res]? with
      | none => .error .blocked
      | some object =>
          if st.objectSet object then .ok (st.setWaiter chunk (.woken res)) else .error .blocked
  | .woken res =>
      let st := if res > 0 ∧ res < param.handles.length + 1 then
        st.record (res - 1 + param.firstHandleIndex) else st
      .ok (st.setWaiter chunk .recorded)
  | .recorded => .ok ({ st with mainEvent := true }.setWaiter chunk .leaving)
  | .leaving => .ok (st.setWaiter chunk .exited)
  | .exited => .error .finished

-- _wait_for_all
def callerStep (st : WaitState Handle) : Except NoTurn (WaitState Handle) :=
  match st.caller with
  | .allocating => .ok { st with caller := .starting 0 }
  | .starting chunk =>
      if chunk < st.chunks then
        .ok ({ st with caller := .starting (chunk + 1) }.setWaiter chunk .waiting)
      else
        .ok { st with caller := .waiting }
  | .waiting => if st.mainEvent then .ok { st with caller := .joining 0 } else .error .blocked
  | .joining chunk =>
      if chunk < st.chunks then
        if st.waiter chunk = .exited then .ok { st with caller := .joining (chunk + 1) }
        else .error .blocked
      else
        .ok { st with caller := .returned (if st.sigIndex ≥ 0 then st.sigIndex else WAIT_FAILED) }
  | .returned _ => .error .finished

def callerFails (st : WaitState Handle) : Except NoTurn (WaitState Handle) :=
  match st.caller with
  | .allocating => .ok { st with caller := .returned WAIT_FAILED }
  | .starting chunk =>
      if chunk < st.chunks then .ok { st with chunks := chunk, mainEvent := true, caller := .waiting }
      else .error .blocked
  | _ => .error .blocked

def waitStep [DecidableEq Handle] (handles : List Handle) (st : WaitState Handle) :
    WaitMove Handle → Except NoTurn (WaitState Handle)
  | .signal h => .ok { st with
      isSet := Function.update st.isSet h true
      beenSet := Function.update st.beenSet h true }
  | .reset h => .ok { st with isSet := Function.update st.isSet h false }
  | .caller => callerStep st
  | .creationFails => callerFails st
  | .waiter chunk res =>
      match (threads handles)[chunk]? with
      | none => .error .blocked
      | some param => waiterStep param st chunk res

end Model

section Chunks

variable {Handle : Type} {handles : List Handle} {param : WaitForAllParam Handle} {chunk : Nat}

theorem chunk_size (n : Nat) :
    n / WAIT_ALL_CHUNK_SIZE = n / 63 ∧ n % WAIT_ALL_CHUNK_SIZE = n % 63 := ⟨rfl, rfl⟩

theorem length_threads (handles : List Handle) :
    (threads handles).length = (handles.length + 62) / 63 := by
  obtain ⟨hdiv, hmod⟩ := chunk_size handles.length
  simp only [threads, List.length_append, List.length_map, List.length_range]
  split
  · rw [List.length_nil]
    omega
  · rw [List.length_singleton]
    omega

-- A chunk of the array is 63 handles, or as many as remain.
theorem threads_get (h : (threads handles)[chunk]? = some param) :
    param.firstHandleIndex = 63 * chunk ∧ param.handles = (handles.drop (63 * chunk)).take 63 := by
  unfold threads at h
  dsimp only at h
  by_cases hfull : chunk < handles.length / WAIT_ALL_CHUNK_SIZE
  · rw [List.getElem?_append_left (by simpa using hfull), List.getElem?_map,
      List.getElem?_range hfull] at h
    cases h
    exact ⟨rfl, rfl⟩
  rw [List.getElem?_append_right (by simpa using hfull), List.length_map, List.length_range] at h
  split at h
  case isTrue => cases h
  cases hlast : chunk - handles.length / WAIT_ALL_CHUNK_SIZE with
  | succ n =>
      rw [hlast] at h
      cases h
  | zero =>
      rw [hlast] at h
      cases h
      obtain ⟨hdiv, hmod⟩ := chunk_size handles.length
      have hchunk : chunk = handles.length / 63 := by omega
      refine ⟨by rw [hchunk]; rfl, ?_⟩
      -- what remains is less than a chunk
      have hlen : (handles.drop (63 * chunk)).length = handles.length % 63 := by
        rw [List.length_drop]
        omega
      rw [List.take_of_length_le (by omega)]
      simp only [chunkParam, WAIT_ALL_CHUNK_SIZE]
      rw [← hchunk, List.take_of_length_le (by omega)]

theorem length_handles (h : (threads handles)[chunk]? = some param) :
    param.handles.length = min 63 (handles.length - 63 * chunk) := by
  rw [(threads_get h).2, List.length_take, List.length_drop]

theorem length_waitOn (h : (threads handles)[chunk]? = some param) : (waitOn param).length ≤ 64 := by
  have hlen := length_handles h
  rw [waitOn, List.length_cons, List.length_map]
  omega

-- The handles of a chunk are where its first index says.
theorem handles_get (h : (threads handles)[chunk]? = some param) {k : Nat} (hk : k < param.handles.length) :
    param.handles[k]? = handles[param.firstHandleIndex + k]? := by
  obtain ⟨hfirst, hslice⟩ := threads_get h
  rw [length_handles h] at hk
  rw [hslice, List.getElem?_take_of_lt (by omega), List.getElem?_drop, hfirst]

-- Every handle is in the chunk that its index says, and in no other.
theorem chunk_of_handle {i : Nat} (hi : i < handles.length) :
    ∃! chunk : Nat, ∃ param : WaitForAllParam Handle, (threads handles)[chunk]? = some param ∧
      ∃ k, k < param.handles.length ∧ param.firstHandleIndex + k = i := by
  have hchunk : i / 63 < (threads handles).length := by
    rw [length_threads]
    omega
  have hget := List.getElem?_eq_getElem hchunk
  refine ⟨i / 63, ⟨_, hget, i % 63, ?_, ?_⟩, ?_⟩
  · rw [length_handles hget]
    omega
  · rw [(threads_get hget).1]
    omega
  · intro chunk hwaits
    obtain ⟨param, h, k, hk, hsum⟩ := hwaits
    have hfirst := (threads_get h).1
    rw [length_handles h] at hk
    omega

end Chunks

section Invariant

variable {Handle : Type} {handles : List Handle} {st st' : WaitState Handle}

-- An index that has been recorded is that of a handle that has been set.
def Recorded (handles : List Handle) (st : WaitState Handle) : Prop :=
  ∃ i h, st.sigIndex = Int.ofNat i ∧ handles[i]? = some h ∧ st.beenSet h = true

-- A waiter that is woken knows an object that has been set; one that is past it
-- has left an index behind.
def WaiterSound (handles : List Handle) (st : WaitState Handle) (chunk : Nat) : Prop :=
  match st.waiter chunk with
  | .absent | .waiting => True
  | .woken 0 => Recorded handles st
  | .woken (k + 1) => ∃ param h, (threads handles)[chunk]? = some param ∧
      param.handles[k]? = some h ∧ st.beenSet h = true
  | .recorded | .leaving | .exited => Recorded handles st

def CallerSound (handles : List Handle) (st : WaitState Handle) : Prop :=
  match st.caller with
  | .allocating | .starting _ | .waiting => True
  | .joining chunk => Recorded handles st ∧ ∀ c, c < chunk → st.waiter c = .exited
  | .returned ret => Recorded handles st ∧ ret = st.sigIndex ∧
      ∀ c, c < (threads handles).length → st.waiter c = .exited

structure WaitSound (handles : List Handle) (st : WaitState Handle) : Prop where
  set : ∀ h, st.isSet h = true → st.beenSet h = true
  index : st.sigIndex = -1 ∨ Recorded handles st
  event : st.mainEvent = true → Recorded handles st
  chunks : st.chunks = (threads handles).length
  waiters : ∀ chunk, WaiterSound handles st chunk
  caller : CallerSound handles st

-- Nothing is forgotten of what has been set and recorded.
structure Grows (st st' : WaitState Handle) : Prop where
  beenSet : ∀ h, st.beenSet h = true → st'.beenSet h = true
  index : st.sigIndex ≠ -1 → st'.sigIndex = st.sigIndex

theorem Recorded.ne (h : Recorded handles st) : st.sigIndex ≠ -1 := by
  obtain ⟨i, -, hi, -⟩ := h
  rw [hi]
  simp

theorem Recorded.mono (h : Recorded handles st) (hg : Grows st st') : Recorded handles st' := by
  have hne := h.ne
  obtain ⟨i, handle, hi, hget, hset⟩ := h
  exact ⟨i, handle, (hg.index hne).trans hi, hget, hg.beenSet handle hset⟩

theorem WaiterSound.mono {chunk : Nat} (h : WaiterSound handles st chunk) (hg : Grows st st')
    (hw : st'.waiter chunk = st.waiter chunk) : WaiterSound handles st' chunk := by
  unfold WaiterSound at h ⊢
  rw [hw]
  split at h
  · trivial
  · trivial
  · exact h.mono hg
  · obtain ⟨param, handle, hget, hk, hset⟩ := h
    exact ⟨param, handle, hget, hk, hg.beenSet handle hset⟩
  · exact h.mono hg
  · exact h.mono hg
  · exact h.mono hg

-- More has been set, and nothing else has happened.
theorem WaitSound.grow (hs : WaitSound handles st) (hg : Grows st st')
    (hset : ∀ h, st'.isSet h = true → st'.beenSet h = true) (hindex : st'.sigIndex = st.sigIndex)
    (hevent : st'.mainEvent = st.mainEvent) (hchunks : st'.chunks = st.chunks)
    (hwaiter : st'.waiter = st.waiter) (hcaller : st'.caller = st.caller) : WaitSound handles st' := by
  refine ⟨hset, ?_, fun h => ?_, hchunks.trans hs.chunks, fun c => ?_, ?_⟩
  · rw [hindex]
    exact hs.index.imp_right fun h => h.mono hg
  · rw [hevent] at h
    exact (hs.event h).mono hg
  · exact (hs.waiters c).mono hg (by rw [hwaiter])
  · have hold := hs.caller
    unfold CallerSound at hold ⊢
    rw [hcaller, hwaiter, hindex]
    split at hold
    · trivial
    · trivial
    · trivial
    · exact ⟨hold.1.mono hg, hold.2⟩
    · exact ⟨hold.1.mono hg, hold.2⟩

-- A waiter moves: it is sound where it is now, and everything else is kept.
theorem WaitSound.setWaiter (hs : WaitSound handles st) (hg : Grows st st') {chunk : Nat} {w : WaiterAt}
    (hset : ∀ h, st'.isSet h = true → st'.beenSet h = true)
    (hindex : st'.sigIndex = -1 ∨ Recorded handles st') (hevent : st'.mainEvent = true → Recorded handles st')
    (hchunks : st'.chunks = st.chunks) (hcaller : st'.caller = st.caller)
    (hwaiter : st'.waiter = Function.update st.waiter chunk w) (hw : WaiterSound handles st' chunk)
    (hnot : st.waiter chunk ≠ .exited) : WaitSound handles st' := by
  have hother : ∀ c, c ≠ chunk → st'.waiter c = st.waiter c := by
    intro c hc
    rw [hwaiter, Function.update_of_ne hc]
  have hexited : ∀ c, st.waiter c = .exited → st'.waiter c = .exited := by
    intro c hc
    have hne : c ≠ chunk := by
      intro heq
      exact hnot (heq ▸ hc)
    rw [hother c hne, hc]
  refine ⟨hset, hindex, hevent, hchunks.trans hs.chunks, fun c => ?_, ?_⟩
  · by_cases hc : c = chunk
    · rw [hc]
      exact hw
    · exact (hs.waiters c).mono hg (hother c hc)
  · have hold := hs.caller
    unfold CallerSound at hold ⊢
    rw [hcaller]
    split at hold
    · trivial
    · trivial
    · trivial
    · exact ⟨hold.1.mono hg, fun c hc => hexited c (hold.2 c hc)⟩
    · obtain ⟨hrec, hret, hall⟩ := hold
      exact ⟨hrec.mono hg, hret.trans (hg.index hrec.ne).symm, fun c hc => hexited c (hall c hc)⟩

-- Of the indices that are recorded, the first one stays.
theorem record_spec (hs : WaitSound handles st) {i : Nat} {handle : Handle} (hget : handles[i]? = some handle)
    (hset : st.beenSet handle = true) :
    Recorded handles (st.record i) ∧ Grows st (st.record i) := by
  unfold WaitState.record
  by_cases hfree : st.sigIndex = -1
  · rw [if_pos hfree]
    exact ⟨⟨i, handle, rfl, hget, hset⟩, fun _ h => h, fun hne => absurd hfree hne⟩
  · rw [if_neg hfree]
    exact ⟨hs.index.resolve_left hfree, fun _ h => h, fun _ => rfl⟩

@[simp] theorem record_isSet (index : Int) : (st.record index).isSet = st.isSet := by
  unfold WaitState.record
  split <;> rfl

@[simp] theorem record_beenSet (index : Int) : (st.record index).beenSet = st.beenSet := by
  unfold WaitState.record
  split <;> rfl

@[simp] theorem record_chunks (index : Int) : (st.record index).chunks = st.chunks := by
  unfold WaitState.record
  split <;> rfl

@[simp] theorem record_caller (index : Int) : (st.record index).caller = st.caller := by
  unfold WaitState.record
  split <;> rfl

@[simp] theorem record_waiter (index : Int) : (st.record index).waiter = st.waiter := by
  unfold WaitState.record
  split <;> rfl

theorem waiterStep_sound (hs : WaitSound handles st) {param : WaitForAllParam Handle} {chunk res : Nat}
    (hparam : (threads handles)[chunk]? = some param) (h : waiterStep param st chunk res = .ok st') :
    WaitSound handles st' := by
  unfold waiterStep at h
  have hold := hs.waiters chunk
  unfold WaiterSound at hold
  split at h
  case h_1 => cases h
  case h_2 hat =>
    -- a wait returns the index of what is set
    split at h
    case h_1 => cases h
    rename_i object hobject
    split at h
    case isFalse => cases h
    rename_i hsignalled
    cases h
    refine hs.setWaiter ⟨fun _ h => h, fun _ => rfl⟩ hs.set hs.index hs.event rfl rfl rfl ?_ (by rw [hat]; simp)
    unfold WaiterSound
    simp only [WaitState.setWaiter, Function.update_self]
    cases res with
    | zero =>
        cases hobject
        exact hs.event hsignalled
    | succ k =>
        rw [waitOn, List.getElem?_cons_succ, List.getElem?_map] at hobject
        obtain ⟨handle, hk, rfl⟩ := Option.map_eq_some_iff.mp hobject
        exact ⟨param, handle, hparam, hk, hs.set handle hsignalled⟩
  case h_3 woken hat =>
    cases h
    rw [hat] at hold
    have hnot : st.waiter chunk ≠ .exited := by
      rw [hat]
      simp
    cases woken with
    | zero =>
        -- another waiter has been there before
        rw [if_neg (by simp)]
        refine hs.setWaiter ⟨fun _ h => h, fun _ => rfl⟩ hs.set hs.index hs.event rfl rfl rfl ?_ hnot
        unfold WaiterSound
        simp only [WaitState.setWaiter, Function.update_self]
        exact hold
    | succ k =>
        obtain ⟨param', handle, hparam', hk, hbeen⟩ := hold
        obtain rfl := Option.some.inj (hparam.symm.trans hparam')
        have hlt : k < param.handles.length := (List.getElem?_eq_some_iff.mp hk).1
        have hindex : ((k + 1 : Nat) : Int) - 1 + param.firstHandleIndex =
            ((param.firstHandleIndex + k : Nat) : Int) := by
          push_cast
          omega
        rw [if_pos ⟨Nat.succ_pos k, by omega⟩, hindex]
        rw [handles_get hparam hlt] at hk
        obtain ⟨hrec, hgrows⟩ := record_spec hs hk hbeen
        refine hs.setWaiter (w := .recorded) ⟨hgrows.beenSet, hgrows.index⟩ ?_ (.inr hrec) (fun _ => hrec) ?_ ?_ ?_ ?_
          hnot
        · simpa [WaitState.setWaiter] using hs.set
        · simp [WaitState.setWaiter]
        · simp [WaitState.setWaiter]
        · simp only [WaitState.setWaiter, record_waiter]
        · unfold WaiterSound
          simp only [WaitState.setWaiter, Function.update_self]
          exact hrec
  case h_4 hat =>
    cases h
    rw [hat] at hold
    refine hs.setWaiter ⟨fun _ h => h, fun _ => rfl⟩ hs.set hs.index (fun _ => hold) rfl rfl rfl ?_
      (by rw [hat]; simp)
    unfold WaiterSound
    simp only [WaitState.setWaiter, Function.update_self]
    exact hold
  case h_5 hat =>
    cases h
    rw [hat] at hold
    refine hs.setWaiter ⟨fun _ h => h, fun _ => rfl⟩ hs.set hs.index hs.event rfl rfl rfl ?_
      (by rw [hat]; simp)
    unfold WaiterSound
    simp only [WaitState.setWaiter, Function.update_self]
    exact hold
  case h_6 => cases h

theorem callerStep_sound (hs : WaitSound handles st) (h : callerStep st = .ok st') : WaitSound handles st' := by
  unfold callerStep at h
  have hcaller := hs.caller
  unfold CallerSound at hcaller
  split at h
  case h_1 =>
    cases h
    exact { hs with caller := trivial }
  case h_2 chunk hat =>
    split at h
    · cases h
      refine { hs with waiters := fun c => ?_, caller := trivial }
      by_cases hc : c = chunk
      · unfold WaiterSound
        simp only [WaitState.setWaiter, hc, Function.update_self]
      · exact (hs.waiters c).mono ⟨fun _ h => h, fun _ => rfl⟩ (Function.update_of_ne hc ..)
    · cases h
      exact { hs with caller := trivial }
  case h_3 =>
    split at h
    · rename_i hevent
      cases h
      exact { hs with caller := ⟨hs.event hevent, fun c hc => absurd hc (Nat.not_lt_zero c)⟩ }
    · cases h
  case h_4 chunk hat =>
    rw [hat] at hcaller
    obtain ⟨hrec, hjoined⟩ := hcaller
    split at h
    · split at h
      · rename_i hexited
        cases h
        refine { hs with caller := ⟨hrec, fun c hc => ?_⟩ }
        obtain hlt | rfl := Nat.lt_succ_iff_lt_or_eq.mp hc
        · exact hjoined c hlt
        · exact hexited
      · cases h
    · rename_i hall
      cases h
      have hret : (if st.sigIndex ≥ 0 then st.sigIndex else WAIT_FAILED) = st.sigIndex := by
        obtain ⟨i, -, hi, -⟩ := hrec
        rw [hi]
        exact if_pos (Int.natCast_nonneg i)
      refine { hs with caller := ⟨hrec, hret, fun c hc => hjoined c ?_⟩ }
      rw [hs.chunks] at hall
      omega
  case h_5 => cases h

theorem waitSound_init (handles : List Handle) (isSet : Handle → Bool) :
    WaitSound handles (waitForAllInit handles isSet) where
  set := fun _ h => h
  index := .inl rfl
  event := fun h => Bool.noConfusion h
  chunks := rfl
  waiters := fun _ => trivial
  caller := trivial

theorem waitStep_sound [DecidableEq Handle] {move : WaitMove Handle} (hs : WaitSound handles st)
    (hmove : move ≠ .creationFails)
    (h : waitStep handles st move = .ok st') : WaitSound handles st' := by
  cases move with
  | signal handle =>
      cases h
      have hbeen : ∀ h, st.beenSet h = true → Function.update st.beenSet handle true h = true := by
        intro h hbeen
        by_cases heq : h = handle
        · rw [heq, Function.update_self]
        · rwa [Function.update_of_ne heq]
      have hset : ∀ h, Function.update st.isSet handle true h = true →
          Function.update st.beenSet handle true h = true := by
        intro h hnow
        by_cases heq : h = handle
        · rw [heq, Function.update_self]
        · rw [Function.update_of_ne heq] at hnow ⊢
          exact hs.set h hnow
      exact hs.grow ⟨hbeen, fun _ => rfl⟩ hset rfl rfl rfl rfl rfl
  | reset handle =>
      cases h
      refine { hs with set := fun h hnow => ?_ }
      dsimp only at hnow ⊢
      by_cases heq : h = handle
      · rw [heq, Function.update_self] at hnow
        cases hnow
      · rw [Function.update_of_ne heq] at hnow
        exact hs.set h hnow
  | caller => exact callerStep_sound hs h
  | creationFails => exact absurd rfl hmove
  | waiter chunk res =>
      unfold waitStep at h
      dsimp only at h
      split at h
      · cases h
      · rename_i param hparam
        exact waiterStep_sound hs hparam h

end Invariant

section Runs

variable {Handle : Type} [DecidableEq Handle] {handles : List Handle} {isSet : Handle → Bool}
  {st : WaitState Handle} {moves : List (WaitMove Handle)}

theorem waitSound_run (hr : run (waitStep handles) (waitForAllInit handles isSet) moves = .ok st)
    (hmoves : ∀ move ∈ moves, move ≠ .creationFails) : WaitSound handles st := by
  have hguard : Guarded (waitStep handles) (fun _ move => move ≠ .creationFails)
      (waitForAllInit handles isSet) moves := guarded_of_all hmoves
  exact guarded_invariant (fun _ _ _ hs hmove h => waitStep_sound hs hmove h)
    (waitSound_init handles isSet) hguard hr

-- The chunks of the array, and what the caller returns.
theorem wait_for_all_chunks
    (hr : run (waitStep handles) (waitForAllInit handles isSet) moves = .ok st)
    (hmoves : ∀ move ∈ moves, move ≠ .creationFails) :
    (∀ i, i < handles.length → ∃! chunk : Nat, ∃ param : WaitForAllParam Handle,
      (threads handles)[chunk]? = some param ∧
        ∃ k, k < param.handles.length ∧ param.firstHandleIndex + k = i) ∧
    (∀ param ∈ threads handles, (waitOn param).length ≤ 64 ∧
      ∀ k, k < param.handles.length → param.handles[k]? = handles[param.firstHandleIndex + k]?) ∧
    ∀ ret, st.caller = .returned ret →
      (∃ i h, ret = Int.ofNat i ∧ handles[i]? = some h ∧ st.beenSet h = true) ∧
        ∀ chunk, chunk < (threads handles).length → st.waiter chunk = .exited := by
  refine ⟨fun i hi => chunk_of_handle hi, fun param hparam => ?_, fun ret hret => ?_⟩
  · obtain ⟨chunk, hget⟩ := List.mem_iff_getElem?.mp hparam
    exact ⟨length_waitOn hget, fun k hk => handles_get hget hk⟩
  · have hcaller := (waitSound_run hr hmoves).caller
    unfold CallerSound at hcaller
    rw [hret] at hcaller
    obtain ⟨hrec, hindex, hexited⟩ := hcaller
    rw [hindex]
    exact ⟨hrec, hexited⟩

end Runs

-- Two waiters for 65 handles, of which the last is set.
def twoWaiters : List (WaitMove Nat) :=
  [.caller, .caller, .caller, .caller, .signal 64, .waiter 1 2, .waiter 1 0, .waiter 1 0, .waiter 0 0,
    .caller, .waiter 1 0, .waiter 0 0, .waiter 0 0, .waiter 0 0, .caller, .caller, .caller]

theorem wait_for_all_of_two_waiters :
    ∃ st, run (waitStep (List.range 65)) (waitForAllInit (List.range 65) fun _ => false) twoWaiters = .ok st ∧
      st.caller = .returned 64 ∧
      (∃ i h, (64 : Int) = Int.ofNat i ∧ (List.range 65)[i]? = some h ∧ st.beenSet h = true) ∧
      ∀ chunk, chunk < (threads (List.range 65)).length → st.waiter chunk = .exited := by
  obtain ⟨st, hr⟩ : ∃ st,
      run (waitStep (List.range 65)) (waitForAllInit (List.range 65) fun _ => false) twoWaiters = .ok st :=
    ⟨_, rfl⟩
  have hret : (run (waitStep (List.range 65)) (waitForAllInit (List.range 65) fun _ => false)
      twoWaiters).toOption.map WaitState.caller = some (.returned 64) := by decide
  rw [hr] at hret
  have hcaller : st.caller = .returned 64 := Option.some.inj hret
  have hmoves : ∀ move ∈ twoWaiters, move ≠ .creationFails := by
    intro move hmem heq
    subst heq
    simp [twoWaiters] at hmem
  obtain ⟨-, -, hreturned⟩ := wait_for_all_chunks hr hmoves
  exact ⟨st, hr, hcaller, hreturned 64 hcaller⟩

end Adb.Event
