import Mathlib.Tactic.Common

namespace Adb.Host

def FDE_READ : BitVec 16 := 0x0001

def FDE_WRITE : BitVec 16 := 0x0002

def FDE_EVENTMASK : BitVec 16 := 0x00ff

def FDE_STATEMASK : BitVec 16 := 0xff00

def FDE_ACTIVE : BitVec 16 := 0x0100

def FDE_PENDING : BitVec 16 := 0x0200

-- The two words of an fdevent. Its fd, func and arg are those of the socket it
-- is a part of; being on list_pending is FDE_PENDING.
structure Fdevent where
  state : BitVec 16
  events : BitVec 16
deriving DecidableEq

def fdeventInstall : Fdevent where
  state := FDE_ACTIVE
  events := 0

-- A pending event that is wanted from now on is dropped and one that is not
-- wanted any more is kept: the mask is taken of the new set, not of its
-- complement.
def fdeventSet (fde : Fdevent) (events : BitVec 16) : Fdevent :=
  let events := events &&& FDE_EVENTMASK
  if fde.state &&& FDE_EVENTMASK = events then
    fde
  else
    let fde := { fde with state := (fde.state &&& FDE_STATEMASK) ||| events }
    if fde.state &&& FDE_PENDING ≠ 0 then
      let fde := { fde with events := fde.events &&& ~~~events }
      if fde.events = 0 then { fde with state := fde.state &&& ~~~FDE_PENDING } else fde
    else
      fde

def fdeventAdd (fde : Fdevent) (events : BitVec 16) : Fdevent :=
  fdeventSet fde ((fde.state &&& FDE_EVENTMASK) ||| (events &&& FDE_EVENTMASK))

def fdeventDel (fde : Fdevent) (events : BitVec 16) : Fdevent :=
  fdeventSet fde ((fde.state &&& FDE_EVENTMASK) &&& ~~~(events &&& FDE_EVENTMASK))

-- The hook of an fdevent is there as long as it wants something, and signals
-- everything it wants.
def eventHookSignal (fde : Fdevent) : Option Fdevent :=
  let wanted := fde.state &&& FDE_EVENTMASK
  if wanted = 0 then
    none
  else
    some { state := fde.state ||| FDE_PENDING, events := fde.events ||| wanted }

-- What fdevent_loop takes off list_pending before it calls func.
def fdeventDequeue (fde : Fdevent) : Option (BitVec 16 × Fdevent) :=
  if fde.state &&& FDE_PENDING ≠ 0 then
    some (fde.events, { state := fde.state &&& ~~~FDE_PENDING, events := 0 })
  else
    none

def firesRead (events : BitVec 16) : Bool := events[0]

def firesWrite (events : BitVec 16) : Bool := events[1]

namespace Fdevent

variable {fde after : Fdevent} {ev : BitVec 16}

def wantsRead (fde : Fdevent) : Bool := fde.state[0]

def isPending (fde : Fdevent) : Bool := fde.state.getLsbD 9

-- A read event is only ever pending while it is wanted.
def ReadSound (fde : Fdevent) : Prop :=
  firesRead fde.events = true → fde.isPending = true ∧ fde.wantsRead = true

theorem pending_ne_zero_iff (state : BitVec 16) :
    state &&& FDE_PENDING ≠ 0 ↔ state.getLsbD 9 = true := by
  have hp : FDE_PENDING = BitVec.twoPow 16 9 := by decide
  rw [hp, BitVec.and_twoPow]
  split
  · rename_i h
    simp only [h, iff_true]
    decide
  · rename_i h
    simpa using h

theorem wantsRead_set : (fdeventSet fde ev).wantsRead = ev[0] := by
  unfold fdeventSet wantsRead
  simp only
  split
  · rename_i h
    have hbit := congrArg (·[0]) h
    simpa [FDE_EVENTMASK] using hbit
  · split
    · split <;> simp [FDE_EVENTMASK, FDE_STATEMASK, FDE_PENDING]
    · simp [FDE_EVENTMASK, FDE_STATEMASK]

-- A pending read that is wanted again is dropped, so none is left over as long
-- as reading stays wanted.
theorem readSound_set (h : fde.ReadSound) (hkeep : fde.wantsRead = true → ev[0] = true) :
    (fdeventSet fde ev).ReadSound := by
  intro hf
  rw [wantsRead_set]
  by_cases hsame : fde.state &&& FDE_EVENTMASK = ev &&& FDE_EVENTMASK
  · have hset : fdeventSet fde ev = fde := if_pos hsame
    rw [hset] at hf ⊢
    exact ⟨(h hf).1, hkeep (h hf).2⟩
  · by_cases hp : (fde.state &&& FDE_STATEMASK ||| ev &&& FDE_EVENTMASK) &&& FDE_PENDING ≠ 0
    · -- what is left pending is not in the new set, although it was wanted
      have hevents : (fdeventSet fde ev).events = fde.events &&& ~~~(ev &&& FDE_EVENTMASK) := by
        simp only [fdeventSet, hsame, hp, if_false, ne_eq, not_false_eq_true, if_true]
        split <;> rfl
      rw [firesRead, hevents] at hf
      have hold : fde.events[0] = true ∧ ev[0] = false := by simpa [FDE_EVENTMASK] using hf
      rw [hkeep (h hold.1).2] at hold
      cases hold.2
    · have hevents : (fdeventSet fde ev).events = fde.events := by
        simp only [fdeventSet, hsame, hp, if_false]
      rw [hevents] at hf
      have hpending : fde.state.getLsbD 9 = true := (h hf).1
      rw [pending_ne_zero_iff] at hp
      simp [FDE_STATEMASK, FDE_EVENTMASK, hpending] at hp

@[simp] theorem wantsRead_add : (fdeventAdd fde ev).wantsRead = (fde.wantsRead || ev[0]) := by
  rw [fdeventAdd, wantsRead_set]
  simp [wantsRead, FDE_EVENTMASK]

@[simp] theorem wantsRead_del : (fdeventDel fde ev).wantsRead = (fde.wantsRead && !ev[0]) := by
  rw [fdeventDel, wantsRead_set]
  simp [wantsRead, FDE_EVENTMASK]

theorem readSound_add (h : fde.ReadSound) : (fdeventAdd fde ev).ReadSound := by
  refine readSound_set h ?_
  intro hw
  simp only [wantsRead] at hw
  simp [FDE_EVENTMASK, hw]

theorem readSound_del (h : fde.ReadSound) (he : ev[0] = false) :
    (fdeventDel fde ev).ReadSound := by
  refine readSound_set h ?_
  intro hw
  simp only [wantsRead] at hw
  simp [FDE_EVENTMASK, hw, he]

-- With no event pending, reading can be given up.
theorem readSound_del_quiet (h : fde.events = 0) : (fdeventDel fde ev).ReadSound := by
  intro hf
  unfold fdeventDel fdeventSet firesRead at hf
  simp only at hf
  split at hf
  · simp [h] at hf
  · split at hf
    · split at hf <;> simp [h] at hf
    · simp [h] at hf

theorem readSound_install : fdeventInstall.ReadSound := by
  intro hf
  simp [fdeventInstall, firesRead] at hf

theorem signal_spec (hs : fde.ReadSound) (h : eventHookSignal fde = some after) :
    after.wantsRead = fde.wantsRead ∧ after.ReadSound := by
  simp only [eventHookSignal] at h
  split at h
  · cases h
  · cases h
    have hw : (fde.state ||| FDE_PENDING)[0] = fde.state[0] := by simp [FDE_PENDING]
    refine ⟨hw, ?_⟩
    intro hf
    refine ⟨by simp [isPending, FDE_PENDING], ?_⟩
    have hor : fde.events[0] = true ∨ fde.state[0] = true := by
      simpa [firesRead, FDE_EVENTMASK] using hf
    rw [wantsRead, hw]
    rcases hor with he | he
    · exact (hs he).2
    · exact he

-- The callback gets no read event that is not wanted, and nothing is pending
-- while it runs.
theorem dequeue_spec {events : BitVec 16} (hs : fde.ReadSound)
    (h : fdeventDequeue fde = some (events, after)) :
    (firesRead events = true → fde.wantsRead = true) ∧ after.wantsRead = fde.wantsRead ∧
      after.events = 0 := by
  unfold fdeventDequeue at h
  split at h
  · cases h
    exact ⟨fun hf => (hs hf).2, by simp [wantsRead, FDE_PENDING], rfl⟩
  · cases h

end Fdevent

end Adb.Host
