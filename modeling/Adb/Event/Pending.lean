import Adb.Event.Registration

namespace Adb.Event

open Adb.Lib Adb.Host

-- list_pending holds the fdevents that are marked FDE_PENDING.
structure PendingList (st : EventState) (queue : List Nat) : Prop where
  ring : st.links.IsRing .listPending (queue.map .fde)
  queued : ∀ n, n ∈ queue ↔ pending (st.fdes n).toFdevent = true

theorem Registered.pendingList {st : EventState} {queue : List Nat} (h : Registered st queue) :
    PendingList st queue := ⟨h.ring, h.queued⟩

def pendingEvents (fde : Fdevent) : BitVec 16 := if pending fde then fde.events else 0

-- The three calls that replace the interest of an fdevent.
inductive InterestCall where
  | set (events : BitVec 16)
  | add (events : BitVec 16)
  | del (events : BitVec 16)

def InterestCall.run (st : EventState) (n : Nat) : InterestCall → Except Fault EventState
  | .set events => fdeventSet st n events
  | .add events => fdeventAdd st n events
  | .del events => fdeventDel st n events

-- The events that are wanted from the call on.
def InterestCall.wanted (fde : Fdevent) : InterestCall → BitVec 16
  | .set events => events &&& FDE_EVENTMASK
  | .add events => interest fde ||| (events &&& FDE_EVENTMASK)
  | .del events => interest fde &&& ~~~(events &&& FDE_EVENTMASK)

section Words

variable {fde : Fdevent} {ev : BitVec 16}

theorem interest_mask (fde : Fdevent) (ev : BitVec 16) :
    (interest fde ||| (ev &&& FDE_EVENTMASK)) &&& FDE_EVENTMASK =
      interest fde ||| (ev &&& FDE_EVENTMASK) := by
  rw [BitVec.and_or_distrib_right, interest_self, BitVec.and_assoc, BitVec.and_self]

theorem interest_mask_not (fde : Fdevent) (ev : BitVec 16) :
    (interest fde &&& ~~~(ev &&& FDE_EVENTMASK)) &&& FDE_EVENTMASK =
      interest fde &&& ~~~(ev &&& FDE_EVENTMASK) := by
  rw [← mask_and, interest_self]

theorem pending_stateMask (state ev : BitVec 16) :
    (state &&& FDE_STATEMASK ||| ev &&& FDE_EVENTMASK) &&& FDE_PENDING = state &&& FDE_PENDING := by
  have hin : FDE_STATEMASK &&& FDE_PENDING = FDE_PENDING := by decide
  have hout : FDE_EVENTMASK &&& FDE_PENDING = 0 := by decide
  rw [BitVec.and_or_distrib_right, BitVec.and_assoc, hin, BitVec.and_assoc, hout]
  simp

-- A set is split by any other one.
theorem and_or_and_not (x y : BitVec 16) : (x &&& y) ||| (x &&& ~~~y) = x := by
  apply BitVec.eq_of_getElem_eq
  intro i hi
  simp only [BitVec.getElem_or, BitVec.getElem_and, BitVec.getElem_not]
  cases x[i] <;> cases y[i] <;> rfl

theorem eq_zero_of_and_eq_and_not {x y : BitVec 16} (h : x &&& ~~~y = x &&& y) : x = 0 := by
  have hzero : x &&& y = 0 := by
    have hboth := congrArg (· &&& y) h
    simp only [BitVec.and_assoc, BitVec.and_self] at hboth
    rw [← hboth]
    simp
  rw [← and_or_and_not x y, h, hzero]
  rfl

theorem fdeventSet_same (h : interest fde = ev &&& FDE_EVENTMASK) : Host.fdeventSet fde ev = fde :=
  if_pos h

theorem pending_fdeventSet_idle (h : pending fde = false) (ev : BitVec 16) :
    pending (Host.fdeventSet fde ev) = false := by
  by_cases hsame : interest fde = ev &&& FDE_EVENTMASK
  · rw [fdeventSet_same hsame, h]
  · have hidle : ¬(fde.state &&& FDE_PENDING ≠ 0) := by
      rw [pending_iff, h]
      decide
    unfold Host.fdeventSet
    simp only [interest] at hsame
    simp only [hsame, if_false, pending_stateMask, hidle]
    rw [← Bool.not_eq_true, ← pending_iff, pending_stateMask]
    exact hidle

-- The mask of the source keeps what is not wanted any more.
theorem fdeventSet_changed (hp : pending fde = true) (h : interest fde ≠ ev &&& FDE_EVENTMASK) :
    (Host.fdeventSet fde ev).events = fde.events &&& ~~~(ev &&& FDE_EVENTMASK) ∧
      (pending (Host.fdeventSet fde ev) = true ↔
        fde.events &&& ~~~(ev &&& FDE_EVENTMASK) ≠ 0) := by
  have hset := (pending_iff fde).mpr hp
  unfold Host.fdeventSet
  simp only [interest, ne_eq] at h
  simp only [h, if_false, pending_stateMask, hset, ne_eq, not_false_eq_true, if_true]
  split
  · rename_i hz
    refine ⟨rfl, iff_of_false ?_ (not_not_intro hz)⟩
    rw [← pending_iff]
    have hclear : ∀ s : BitVec 16, s &&& ~~~FDE_PENDING &&& FDE_PENDING = 0 := by
      intro s
      rw [BitVec.and_assoc, show ~~~FDE_PENDING &&& FDE_PENDING = 0 by decide]
      simp
    exact not_not_intro (hclear _)
  · rename_i hz
    refine ⟨rfl, iff_of_true ?_ hz⟩
    rw [← pending_iff, pending_stateMask]
    exact hset

-- When the events that were pending and still are wanted stay pending.
theorem pendingEvents_set_iff (fde : Fdevent) (ev : BitVec 16) :
    (pendingEvents (Host.fdeventSet fde ev) = pendingEvents fde &&& (ev &&& FDE_EVENTMASK) ∧
      (pending (Host.fdeventSet fde ev) = true ↔
        pendingEvents fde &&& (ev &&& FDE_EVENTMASK) ≠ 0)) ↔
    (pending fde = true → if interest fde = ev &&& FDE_EVENTMASK
      then fde.events ≠ 0 ∧ fde.events &&& (ev &&& FDE_EVENTMASK) = fde.events else fde.events = 0) := by
  cases hp : pending fde with
  | false =>
      have hidle := pending_fdeventSet_idle hp ev
      refine iff_of_true ?_ (by simp)
      simp [pendingEvents, hp, hidle]
  | true =>
      by_cases hsame : interest fde = ev &&& FDE_EVENTMASK
      · rw [fdeventSet_same hsame]
        simp only [pendingEvents, hp, if_true, hsame, forall_const, true_iff]
        constructor
        · rintro ⟨hkept, hne⟩
          exact ⟨hkept ▸ hne, hkept.symm⟩
        · rintro ⟨hne, hkept⟩
          exact ⟨hkept.symm, hkept.symm ▸ hne⟩
      · obtain ⟨hevents, hpending⟩ := fdeventSet_changed hp hsame
        simp only [hsame, if_false, forall_const]
        constructor
        · rintro ⟨hkept, hstays⟩
          apply eq_zero_of_and_eq_and_not (y := ev &&& FDE_EVENTMASK)
          simp only [pendingEvents, hp, if_true] at hkept hstays
          by_cases hz : fde.events &&& ~~~(ev &&& FDE_EVENTMASK) = 0
          · have hno : ¬fde.events &&& (ev &&& FDE_EVENTMASK) ≠ 0 := fun hne =>
              hpending.mp (hstays.mpr hne) hz
            rw [hz, not_ne_iff.mp hno]
          · rw [if_pos (hpending.mpr hz), hevents] at hkept
            exact hkept
        · intro hz
          have hout : pending (Host.fdeventSet fde ev) = false := by
            rw [← Bool.not_eq_true, hpending, hz]
            simp
          simp [pendingEvents, hp, hout, hz]

end Words

section Calls

variable {st : EventState} {queue : List Nat} {n : Nat}

theorem fdeventUpdate_hooks (st : EventState) (n : Nat) (events : BitVec 16) :
    ∃ hooks, fdeventUpdate st n events = { st with hooks } := by
  have hhook : ∀ (st : EventState) fd events, ∃ hooks, st.looperHook fd events = { st with hooks } := by
    intro st fd events
    unfold EventState.looperHook
    split
    · split
      · exact ⟨_, rfl⟩
      · exact ⟨st.hooks, rfl⟩
    · exact ⟨st.hooks, rfl⟩
  have hunhook : ∀ (st : EventState) fd events,
      ∃ hooks, st.looperUnhook fd events = { st with hooks } := by
    intro st fd events
    unfold EventState.looperUnhook
    split
    · exact ⟨_, rfl⟩
    · exact ⟨st.hooks, rfl⟩
  unfold fdeventUpdate
  dsimp only
  split
  · obtain ⟨hooks, he⟩ : ∃ hooks,
        (if (st.fdes n).state &&& FDE_EVENTMASK &&& ~~~events ≠ 0 then
          st.looperUnhook (st.fdes n).fd ((st.fdes n).state &&& FDE_EVENTMASK &&& ~~~events)
        else st) = { st with hooks } := by
      split
      · exact hunhook st _ _
      · exact ⟨st.hooks, rfl⟩
    rw [he]
    split
    · obtain ⟨hooks', he'⟩ := hhook { st with hooks } (st.fdes n).fd
        (events &&& ~~~((st.fdes n).state &&& FDE_EVENTMASK))
      exact ⟨hooks', he'⟩
    · exact ⟨hooks, rfl⟩
  · exact ⟨st.hooks, rfl⟩

-- fdevent_set on the whole state does to the words of the fdevent what it does to
-- the words alone, and the list follows FDE_PENDING.
theorem fdeventSet_words (h : PendingList st queue) (n : Nat) (events : BitVec 16) :
    ∃ after queue', fdeventSet st n events = .ok after ∧ PendingList after queue' ∧
      (after.fdes n).toFdevent = Host.fdeventSet (st.fdes n).toFdevent events := by
  unfold fdeventSet Host.fdeventSet
  by_cases hsame : (st.fdes n).state &&& FDE_EVENTMASK = events &&& FDE_EVENTMASK
  · exact ⟨st, queue, if_pos hsame, h, by rw [if_pos hsame]⟩
  · simp only [hsame, if_false]
    obtain ⟨hooks, hupdate⟩ : ∃ hooks,
        (if (st.fdes n).state &&& FDE_ACTIVE ≠ 0 then fdeventUpdate st n (events &&& FDE_EVENTMASK)
        else st) = { st with hooks } := by
      split
      · exact fdeventUpdate_hooks st n _
      · exact ⟨st.hooks, rfl⟩
    have hothers : ∀ (fde : Fde) (k : Nat), k ≠ n →
        ({ st with hooks }.setFde n fde).fdes k = st.fdes k :=
      fun fde k hk => Function.update_of_ne hk _ _
    rw [hupdate]
    by_cases hp : ((st.fdes n).state &&& FDE_STATEMASK ||| events &&& FDE_EVENTMASK) &&&
        FDE_PENDING ≠ 0
    · have hq : n ∈ queue := by
        rw [h.queued, ← pending_iff, ← pending_stateMask _ events]
        exact hp
      simp only [hp, ne_eq, not_false_eq_true, if_true]
      split
      · obtain ⟨links, he, hring⟩ := plistRemove_ring h.ring hq
        have hnd := IsRing.nodup_queue h.ring
        rw [he]
        refine ⟨_, queue.erase n, rfl, ⟨hring, fun k => ?_⟩, by simp [EventState.setFde]⟩
        by_cases hk : k = n
        · subst hk
          simp [hnd.mem_erase_iff, EventState.setFde, pending, FDE_PENDING]
        · rw [List.mem_erase_of_ne hk, h.queued]
          simp [EventState.setFde, hk]
      · refine ⟨_, queue, rfl, ⟨h.ring, fun k => ?_⟩, by simp [EventState.setFde]⟩
        by_cases hk : k = n
        · subst hk
          refine iff_of_true hq ?_
          rw [← pending_iff]
          simpa [EventState.setFde] using hp
        · rw [h.queued, hothers _ k hk]
    · have hq : n ∉ queue := by
        rw [h.queued, ← pending_iff, ← pending_stateMask _ events]
        exact hp
      simp only [hp, if_false]
      refine ⟨_, queue, rfl, ⟨h.ring, fun k => ?_⟩, by simp [EventState.setFde]⟩
      by_cases hk : k = n
      · subst hk
        refine iff_of_false hq ?_
        rw [← pending_iff]
        simpa [EventState.setFde] using hp
      · rw [h.queued, hothers _ k hk]

-- What is pending after the call is what was and is wanted, and the fdevent is on
-- the list as long as that is something.
def KeepsWanted (st : EventState) (n : Nat) (call : InterestCall) : Prop :=
  ∃ after queue, call.run st n = .ok after ∧ PendingList after queue ∧
    pendingEvents (after.fdes n).toFdevent =
      pendingEvents (st.fdes n).toFdevent &&& call.wanted (st.fdes n).toFdevent ∧
    (n ∈ queue ↔ pendingEvents (st.fdes n).toFdevent &&& call.wanted (st.fdes n).toFdevent ≠ 0)

-- Nothing is pending, or the interest stays and covers what is.
def NothingToDrop (fde : Fdevent) (wanted : BitVec 16) : Prop :=
  pending fde = true →
    if interest fde = wanted then fde.events ≠ 0 ∧ fde.events &&& wanted = fde.events
    else fde.events = 0

theorem InterestCall.run_eq (st : EventState) (n : Nat) (call : InterestCall) :
    ∃ events, call.run st n = fdeventSet st n events ∧
      events &&& FDE_EVENTMASK = call.wanted (st.fdes n).toFdevent := by
  cases call with
  | set events => exact ⟨events, rfl, rfl⟩
  | add events => exact ⟨_, rfl, interest_mask _ events⟩
  | del events => exact ⟨_, rfl, interest_mask_not _ events⟩

theorem keeps_wanted_iff (h : PendingList st queue) (n : Nat) (call : InterestCall) :
    KeepsWanted st n call ↔
      NothingToDrop (st.fdes n).toFdevent (call.wanted (st.fdes n).toFdevent) := by
  obtain ⟨events, hrun, hwanted⟩ := call.run_eq st n
  obtain ⟨after, queue', hset, hlist, hwords⟩ := fdeventSet_words h n events
  have hiff := pendingEvents_set_iff (st.fdes n).toFdevent events
  rw [← hwords, hwanted] at hiff
  rw [NothingToDrop, ← hiff, ← hlist.queued]
  constructor
  · rintro ⟨other, queue'', he, hother, hevents, hmem⟩
    rw [hrun, hset, Except.ok.injEq] at he
    subst he
    exact ⟨hevents, (hlist.queued n).trans ((hother.queued n).symm.trans hmem)⟩
  · rintro ⟨hevents, hmem⟩
    exact ⟨after, queue', hrun.trans hset, hlist, hevents, hmem⟩

end Calls

-- A socket that is read and has something to read.
def readPendingOps : List Op :=
  [.fhAlloc (.socket (some 1)), .install 0 100, .add 0 FDE_READ, .signal 0]

def readPending : EventState :=
  match run step eventInit readPendingOps with
  | .ok st => st
  | .error _ => eventInit

theorem readPending_list : ∃ queue, PendingList readPending queue := by
  have hg : Guarded step Promised eventInit readPendingOps := by
    refine ⟨trivial, fun next hnext => ?_⟩
    obtain rfl := Except.ok.inj hnext
    have hidle : ∀ k, ¬(fhAlloc eventInit (.socket (some 1))).active k := by
      simp [EventState.active, Event.active, fdes_fhAlloc, eventInit]
    refine ⟨⟨hidle 0, by decide, fun k hk => absurd hk (hidle k)⟩, fun next _ => ?_⟩
    exact Guarded.mono (fun _ _ => promised_of_free) (guarded_of_all (by simp [Op.free]))
  obtain ⟨st, queue, hr, h⟩ := registered_run hg
  obtain rfl : readPending = st := Except.ok.inj hr
  exact ⟨queue, h.pendingList⟩

theorem read_stays_pending : KeepsWanted readPending 0 (.add FDE_READ) := by
  obtain ⟨queue, h⟩ := readPending_list
  refine (keeps_wanted_iff h 0 (.add FDE_READ)).mpr fun _ => ?_
  decide

-- The backlog of a write takes the read off that is pending and wanted.
theorem wanted_read_is_dropped : ¬KeepsWanted readPending 0 (.add FDE_WRITE) := by
  rintro ⟨after, queue, hrun, -, hevents, -⟩
  obtain rfl := Except.ok.inj hrun
  revert hevents
  decide

end Adb.Event
