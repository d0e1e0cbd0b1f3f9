import Adb.Event.Process
import Adb.Event.Registered

namespace Adb.Event

open Adb.Lib Adb.Host

-- What one look finds ready of what a hook of this class wants.
def found (clazz : FHClass) (wanted : BitVec 16) (look : Look) : BitVec 16 :=
  (prepare ⟨0, clazz, none, wanted, 0⟩ look).ready

-- What of a hook no pass changes.
structure Core where
  fh : Nat
  clazz : FHClass
  wanted : BitVec 16
deriving DecidableEq

def EventHook.core (hook : EventHook) : Core := ⟨hook.fh, hook.clazz, hook.wanted⟩

def Core.finds (core : Core) (look : Look) : BitVec 16 := found core.clazz core.wanted look

section Looks

variable {hook : EventHook} {look : Look}

@[simp] theorem core_addReady (ready : BitVec 16) : (hook.addReady ready).core = hook.core := rfl

@[simp] theorem wants_addReady (ready event : BitVec 16) :
    wants (hook.addReady ready) event = wants hook event := rfl

theorem addReady_addReady (first second : BitVec 16) :
    (hook.addReady first).addReady second = hook.addReady (first ||| second) := by
  simp [EventHook.addReady, BitVec.or_assoc]

@[simp] theorem addReady_zero : hook.addReady 0#16 = hook := by
  simp [EventHook.addReady]

-- A step that only adds to ready, and adds the same whatever was ready before.
def Adds (f : EventHook → EventHook) : Prop :=
  ∀ hook : EventHook, ∃ ready, ∀ other : EventHook, other.clazz = hook.clazz → other.wanted = hook.wanted →
    f other = other.addReady ready

theorem Adds.comp {f g : EventHook → EventHook} (hf : Adds f) (hg : Adds g) :
    Adds fun hook => g (f hook) := by
  intro hook
  obtain ⟨first, hfirst⟩ := hf hook
  obtain ⟨second, hsecond⟩ := hg hook
  refine ⟨first ||| second, fun other hc hw => ?_⟩
  simp only [hfirst other hc hw]
  rw [hsecond (other.addReady first) hc hw, addReady_addReady]

theorem adds_when (event : BitVec 16) (extra : Prop) [Decidable extra]
    (ready : BitVec 16 → BitVec 16) :
    Adds fun hook => if wants hook event ∧ extra then hook.addReady (ready hook.wanted) else hook := by
  intro hook
  by_cases h : wants hook event = true ∧ extra
  · refine ⟨ready hook.wanted, fun other _ hw => ?_⟩
    have hwants : wants other event = wants hook event := by simp only [wants, hw]
    simp only [hwants, if_pos h, hw]
  · refine ⟨0, fun other _ hw => ?_⟩
    have hwants : wants other event = wants hook event := by simp only [wants, hw]
    simp only [hwants, if_neg h]
    exact addReady_zero.symm

theorem adds_id : Adds fun hook => hook := fun _ => ⟨0, fun _ _ _ => addReady_zero.symm⟩

theorem Adds.ite {f : EventHook → EventHook} (hf : Adds f) (c : Prop) [Decidable c] :
    Adds fun hook => if c then f hook else hook := by
  by_cases hc : c
  · simpa only [if_pos hc] using hf
  · simpa only [if_neg hc] using adds_id

theorem adds_socketVerify (evts : NetworkEvents) : Adds fun hook => eventSocketVerify hook evts := by
  have hwhen : ∀ event ready : BitVec 16,
      Adds fun hook => if wants hook event then hook.addReady ready else hook := by
    intro event ready
    simpa using adds_when event True fun _ => ready
  have herror : ∀ code : Int,
      Adds fun hook => if code ≠ 0 ∧ wants hook FDE_ERROR then hook.addReady FDE_ERROR else hook := by
    intro code
    simpa only [and_comm] using adds_when FDE_ERROR (code ≠ 0) fun _ => FDE_ERROR
  exact ((((hwhen FDE_READ FDE_READ).comp (herror _)).ite _).comp
    (((hwhen FDE_WRITE FDE_WRITE).comp (herror _)).ite _)).comp
      ((hwhen FDE_ERROR FDE_ERROR).ite _)

theorem adds_prepare (look : Look) : Adds fun hook => prepare hook look := by
  intro hook
  cases hc : hook.clazz with
  | file handle =>
      obtain ⟨ready, hr⟩ := adds_when (FDE_READ ||| FDE_WRITE) True
        (fun wanted => wanted &&& (FDE_READ ||| FDE_WRITE)) hook
      refine ⟨ready, fun other hoc how => ?_⟩
      have hother := hr other (hoc.trans hc.symm) how
      simpa [prepare, hoc, eventFilePrepare] using hother
  | socket event =>
      cases he : look.evts with
      | none =>
          exact ⟨0, fun other hoc _ => by simp [prepare, hoc, eventSocketPrepare, he, addReady_zero]⟩
      | some evts =>
          obtain ⟨ready, hr⟩ := adds_socketVerify evts hook
          refine ⟨ready, fun other hoc how => ?_⟩
          have hother := hr other (hoc.trans hc.symm) how
          simpa [prepare, hoc, eventSocketPrepare, he] using hother
  | socketpair evtRead evtWrite =>
      obtain ⟨ready, hr⟩ := ((adds_when FDE_READ (look.canRead = true) fun _ => FDE_READ).comp
        (adds_when FDE_WRITE (look.canWrite = true) fun _ => FDE_WRITE)) hook
      refine ⟨ready, fun other hoc how => ?_⟩
      have hother := hr other (hoc.trans hc.symm) how
      simpa [prepare, hoc, eventSocketpairPrepare] using hother

-- A look adds what it finds to what was ready.
theorem prepare_eq (hook : EventHook) (look : Look) :
    prepare hook look = hook.addReady (hook.core.finds look) := by
  obtain ⟨ready, hr⟩ := adds_prepare look hook
  have hfresh : prepare ⟨0, hook.clazz, none, hook.wanted, 0⟩ look = _ := hr _ rfl rfl
  have hfound : hook.core.finds look = ready := by
    simp only [Core.finds, found, EventHook.core]
    rw [hfresh]
    simp [EventHook.addReady]
  rw [hfound]
  exact hr hook rfl rfl

-- What the check function of a hook finds. Only a socket looks.
def Core.checks (core : Core) (look : Look) : BitVec 16 :=
  match core.clazz with
  | .socket _ => core.finds look
  | _ => 0

def Core.accepts (core : Core) (look : Look) : Bool :=
  match core.clazz with
  | .socket _ => core.finds look ≠ 0
  | _ => true

theorem check_eq (hook : EventHook) (look : Look) (hr : hook.ready = 0) :
    check hook look = (hook.core.accepts look, hook.addReady (hook.core.checks look)) := by
  have hp := prepare_eq hook look
  cases hc : hook.clazz with
  | file handle => simp [check, Core.accepts, Core.checks, EventHook.core, hc, addReady_zero]
  | socketpair evtRead evtWrite =>
      simp [check, Core.accepts, Core.checks, EventHook.core, hc, addReady_zero]
  | socket event =>
      have hcc : hook.core.clazz = .socket event := hc
      simp only [prepare, hc, eventSocketPrepare] at hp
      simp only [check, hc, Core.accepts, hcc, Core.checks]
      cases he : look.evts with
      | none =>
          simp only [he] at hp
          have hz : hook.core.finds look = 0 := by
            have hready := congrArg EventHook.ready hp
            simpa [EventHook.addReady, hr] using hready.symm
          simp [hz, addReady_zero]
      | some evts =>
          simp only [he] at hp
          simp [hp, EventHook.addReady, hr]

-- A file that wants to be read or written always finds that.
theorem finds_file {handle : Nat} (hc : hook.clazz = .file handle) :
    hook.core.finds look ≠ 0 ↔ wants hook (FDE_READ ||| FDE_WRITE) = true := by
  have hcore : hook.core.finds look =
      (eventFilePrepare ⟨0, .file handle, none, hook.wanted, 0⟩).ready := by
    simp [Core.finds, found, EventHook.core, hc, prepare]
  rw [hcore]
  by_cases h : hook.wanted &&& (FDE_READ ||| FDE_WRITE) = 0#16
  · simp [eventFilePrepare, wants, h]
  · simp [eventFilePrepare, wants, EventHook.addReady, h]

-- The peek functions after what was found before.
theorem peek_eq (hook : EventHook) (look : Look)
    (hfile : ∀ handle, hook.clazz = .file handle →
      (hook.ready ||| hook.core.finds look ≠ 0 ↔ hook.core.finds look ≠ 0)) :
    (peek hook look).1 = decide (hook.ready ||| hook.core.finds look ≠ 0) ∧
      (peek hook look).2.core = hook.core := by
  have hp := prepare_eq hook look
  cases hc : hook.clazz with
  | file handle =>
      simp only [peek, hc, and_true]
      rw [Bool.eq_iff_iff, decide_eq_true_iff, hfile handle hc, finds_file hc]
  | socket event =>
      simp only [peek, hc, hp]
      exact ⟨rfl, rfl⟩
  | socketpair evtRead evtWrite =>
      simp only [peek, hc, hp]
      exact ⟨rfl, rfl⟩

@[simp] theorem core_start (hook : EventHook) : (start hook).2.core = hook.core := by
  unfold start
  split
  · rfl
  · rfl
  · split
    · rfl
    · split <;> rfl

@[simp] theorem ready_start (hook : EventHook) : (start hook).2.ready = hook.ready := by
  unfold start
  split
  · rfl
  · rfl
  · split
    · rfl
    · split <;> rfl

@[simp] theorem core_stop (hook : EventHook) : (stop hook).core = hook.core := by
  unfold stop
  split <;> rfl

@[simp] theorem ready_stop (hook : EventHook) : (stop hook).ready = hook.ready := by
  unfold stop
  split <;> rfl

theorem fillTable_core (hooks : List EventHook) (htab : List Nat) :
    (fillTable hooks htab).1.map EventHook.core = hooks.map EventHook.core ∧
      (fillTable hooks htab).1.map EventHook.ready = hooks.map EventHook.ready := by
  induction hooks generalizing htab with
  | nil => exact ⟨rfl, rfl⟩
  | cons hook rest ih =>
      have hcore := core_start hook
      have hready := ready_start hook
      rw [fillTable]
      split
      · rename_i started he
        rw [he] at hcore hready
        simp only at hcore hready
        simp only [List.map_cons, hcore, hready, and_self]
      · rename_i started he
        rw [he] at hcore hready
        simp only at hcore hready
        obtain ⟨hc, hr⟩ := ih (addHandle htab started.h)
        simp only [List.map_cons, hcore, hready, hc, hr, and_self]

end Looks

end Adb.Event
