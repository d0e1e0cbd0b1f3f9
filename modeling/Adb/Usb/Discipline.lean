import Adb.Usb.Handles

namespace Adb.Usb

open Adb.Lib

variable {st after : UsbState} {usb h : Nat} {handle : UsbHandle} {call : UsbCall}
  {calls : List UsbCall}

-- A device that is open: its three fields are one handle of the driver.
def openDevice (h : Nat) : UsbHandle := ⟨some h, some h, some h, some adbGetInterfaceName⟩

def UsbState.isOpen (st : UsbState) (usb : Nat) : Bool :=
  (st.heap usb).any fun handle => handle.adbInterface.isSome

-- The call does not come to usb_cleanup_handle for a device that has a handle of the
-- driver.
def CleansNothing (st : UsbState) : UsbCall → Prop
  | .findDevices mallocs creates names =>
      knownDeviceLocked st adbGetInterfaceName = true ∨ mallocs = false ∨
        creates = false ∨ names = true
  | .usbKick usb | .usbCleanupHandle usb | .usbClose usb => ∀ device ∈ usb, st.isOpen device = false
  | .usbRead usb _ invalid | .usbWrite usb _ invalid =>
      invalid = true → ∀ device ∈ usb, st.isOpen device = false

def closes (st : UsbState) (h : Nat) : Nat := st.log.count (.closed h)

-- No handle is used after it was closed.
def UsedWhileOpen (st : UsbState) : Prop :=
  st.log.Pairwise fun earlier later => ∀ h, earlier = .closed h → later ≠ .used h

-- A pass of find_devices that puts nothing on the list leaves no device and no open
-- handle behind.
def PassLeavesNothing (st : UsbState) : Prop :=
  ∀ mallocs creates names after, findDevices st mallocs creates names = .ok after →
    after.handleList = st.handleList →
      after.heap = st.heap ∧ ∀ h, st.created ≤ h → h < after.created → .closed h ∈ after.log

structure HandlesDisciplined (st : UsbState) : Prop where
  once : ∀ h, closes st h ≤ 1
  used : UsedWhileOpen st
  failed : PassLeavesNothing st

structure UsbInv (st : UsbState) : Prop where
  device : ∀ usb handle, st.heap usb = some handle →
    handle = UsbHandle.cleaned ∨ ∃ h, handle = openDevice h ∧ h < st.created ∧ .closed h ∉ st.log
  own : ∀ usb usb' h, st.heap usb = some (openDevice h) →
    st.heap usb' = some (openDevice h) → usb = usb'
  fresh : ∀ usb, st.fresh ≤ usb → st.heap usb = none
  listed : ∀ usb ∈ st.handleList, usb < st.fresh
  created : ∀ h, st.created ≤ h → .closed h ∉ st.log
  closes : ∀ h, closes st h = 0 ∨ closes st h = 3
  used : UsedWhileOpen st

-- What a call does that closes nothing.
inductive Quiet (st : UsbState) : UsbState → Prop where
  | kept (adbHandle : Option Nat) : Quiet st { st with adbHandle }
  | transferred (usb h calls : Nat) (hopen : st.heap usb = some (openDevice h)) :
      Quiet st { st with log := st.log ++ List.replicate calls (.used h) }
  | opened : Quiet st { st with
      heap := Function.update st.heap st.fresh (some (openDevice st.created))
      fresh := st.fresh + 1
      handleList := st.handleList ++ [st.fresh]
      adbHandle := some st.created
      created := st.created + 1
      log := st.log ++ List.replicate 3 (.used st.created) }
  | dropped (usb : Nat) (content : Option UsbHandle) (list : List Nat)
      (hcleaned : st.heap usb = some UsbHandle.cleaned)
      (hcontent : ∀ handle, content = some handle → handle = UsbHandle.cleaned)
      (hlist : ∀ device ∈ list, device ∈ st.handleList) :
      Quiet st { st with heap := Function.update st.heap usb content, handleList := list }

-- What one does that cleans up after a failed open, or cleans up a device.
inductive Closing (st : UsbState) : UsbState → Prop where
  | failed : Closing st { st with
      adbHandle := some st.created
      created := st.created + 1
      log := st.log ++ (.used st.created :: List.replicate 3 (.closed st.created)) }
  | cleaned (usb h calls : Nat) (content : Option UsbHandle) (list : List Nat)
      (hopen : st.heap usb = some (openDevice h))
      (hcontent : ∀ handle, content = some handle → handle = UsbHandle.cleaned)
      (hlist : ∀ device ∈ list, device ∈ st.handleList) :
      Closing st { st with
        heap := Function.update st.heap usb content
        handleList := list
        log := st.log ++ (List.replicate calls (.used h) ++ List.replicate 3 (.closed h)) }

section Effects

-- What closing the fields of a device and using its pipe leaves in the log.
def closeLog (handle : UsbHandle) : List HandleEvent :=
  (handle.adbWritePipe.toList ++
    (handle.adbReadPipe.toList ++ handle.adbInterface.toList)).map .closed

def useLog (pipe : Option Nat) (n : Nat) : List HandleEvent :=
  (List.replicate n (pipe.toList.map .used)).flatten

theorem closeFields_eq (st : UsbState) (handle : UsbHandle) :
    closeFields st handle = { st with log := st.log ++ closeLog handle } := by
  obtain ⟨interface, read, write, name⟩ := handle
  cases write <;> cases read <;> cases interface <;>
    simp [closeFields, closeLog, adbCloseHandle, UsbState.logged]

theorem foldl_uses (st : UsbState) (pipe : Option Nat) (n : Nat) :
    (List.replicate n pipe).foldl UsbState.uses st =
      { st with log := st.log ++ useLog pipe n } := by
  induction n generalizing st with
  | zero => simp [useLog]
  | succ n ih =>
      rw [List.replicate_succ, List.foldl_cons, ih]
      cases pipe <;> simp [UsbState.uses, UsbState.logged, useLog, List.replicate_succ]

theorem useLog_none (n : Nat) : useLog none n = [] := by simp [useLog]

theorem useLog_some (h n : Nat) : useLog (some h) n = List.replicate n (.used h) := by simp [useLog]

theorem isOpen_cleaned (h : st.heap usb = some UsbHandle.cleaned) : st.isOpen usb = false := by
  simp [UsbState.isOpen, h, UsbHandle.cleaned]

theorem isOpen_open (hopen : st.heap usb = some (openDevice h)) : st.isOpen usb = true := by
  simp [UsbState.isOpen, hopen, openDevice]

-- A pipe of a device is its handle of the driver.
structure IsPipe (pipe : UsbHandle → Option Nat) : Prop where
  cleaned : pipe UsbHandle.cleaned = none
  opened : ∀ h, pipe (openDevice h) = some h

-- What the calls of usb_cleanup_handle come to, after some transfers: content and list
-- are what is left of the device and of the list.
theorem cleanup_cases (hinv : UsbInv st) (pipe : UsbHandle → Option Nat)
    (hpipe : IsPipe pipe) {n : Nat}
    {list : List Nat} (hlist : ∀ device ∈ list, device ∈ st.handleList) {content : Option UsbHandle}
    (hcontent : ∀ handle, content = some handle → handle = UsbHandle.cleaned)
    (hheap : st.heap usb = some handle)
    (hafter : after = { st with
      heap := Function.update st.heap usb content
      handleList := list
      log := st.log ++ (useLog (pipe handle) n ++ closeLog handle) }) :
    (st.isOpen usb = false → Quiet st after) ∧ (st.isOpen usb = true → Closing st after) := by
  subst hafter
  obtain rfl | ⟨h, rfl, -⟩ := hinv.device usb handle hheap
  · rw [isOpen_cleaned hheap, hpipe.cleaned, useLog_none]
    have hquiet := Quiet.dropped usb content list hheap hcontent hlist
    refine ⟨fun _ => ?_, fun hopen => (by cases hopen)⟩
    simpa [closeLog, UsbHandle.cleaned] using hquiet
  · rw [isOpen_open hheap, hpipe.opened, useLog_some]
    exact ⟨fun hclosed => (by cases hclosed),
      fun _ => Closing.cleaned usb h n content list hheap hcontent hlist⟩

theorem forall_target {P : Nat → Prop} : (∀ device ∈ some usb, P device) ↔ P usb := by simp

theorem usbKick_cases {target : Option Nat} (hinv : UsbInv st)
    (hstep : usbKick st target = .ok after) :
    ((∀ device ∈ target, st.isOpen device = false) → Quiet st after) ∧
      (¬ (∀ device ∈ target, st.isOpen device = false) → Closing st after) := by
  cases target with
  | none =>
      cases hstep
      exact ⟨fun _ => Quiet.kept st.adbHandle,
        fun hopen => absurd (fun device h => (by cases h)) hopen⟩
  | some usb =>
      simp only [usbKick, usbCleanupHandle] at hstep
      split at hstep
      · cases hstep
      · rename_i handle hheap
        rw [Except.ok.injEq, closeFields_eq] at hstep
        rw [forall_target, Bool.not_eq_false]
        exact cleanup_cases hinv UsbHandle.adbReadPipe ⟨rfl, fun h => rfl⟩ (n := 0)
          (fun device h => h) (fun handle h => (Option.some.inj h).symm) hheap hstep.symm

theorem usbClose_cases {target : Option Nat} (hinv : UsbInv st)
    (hstep : usbClose st target = .ok after) :
    ((∀ device ∈ target, st.isOpen device = false) → Quiet st after) ∧
      (¬ (∀ device ∈ target, st.isOpen device = false) → Closing st after) := by
  cases target with
  | none =>
      cases hstep
      exact ⟨fun _ => Quiet.kept st.adbHandle,
        fun hopen => absurd (fun device h => (by cases h)) hopen⟩
  | some usb =>
      simp only [usbClose, usbCleanupHandle] at hstep
      cases hheap : st.heap usb with
      | none =>
          rw [hheap] at hstep
          cases hstep
      | some handle =>
          rw [hheap] at hstep
          simp only [bind, Except.bind, pure, Except.pure, Except.ok.injEq, closeFields_eq,
            UsbState.store, Function.update_idem] at hstep
          rw [forall_target, Bool.not_eq_false]
          exact cleanup_cases hinv UsbHandle.adbReadPipe ⟨rfl, fun h => rfl⟩ (n := 0)
            (fun device h => List.mem_of_mem_erase h)
              (fun handle h => (by cases h)) hheap hstep.symm

theorem usbTransfer_cases {target : Option Nat} {n : Nat} {invalid : Bool} (hinv : UsbInv st)
    {pipe : UsbHandle → Option Nat} (hpipe : IsPipe pipe)
    (hstep : usbTransfer st pipe target n invalid = .ok after) :
    ((invalid = true → ∀ device ∈ target, st.isOpen device = false) → Quiet st after) ∧
      (¬ (invalid = true → ∀ device ∈ target, st.isOpen device = false) → Closing st after) := by
  cases target with
  | none =>
      cases hstep
      exact ⟨fun _ => Quiet.kept st.adbHandle,
        fun hopen => absurd (fun _ device h => (by cases h)) hopen⟩
  | some usb =>
      simp only [usbTransfer] at hstep
      split at hstep
      · cases hstep
      · rename_i handle hheap
        rw [foldl_uses] at hstep
        cases invalid with
        | true =>
            simp only [if_true, usbKick, usbCleanupHandle, hheap, closeFields_eq,
              Except.ok.injEq] at hstep
            simp only [forall_const, forall_target, Bool.not_eq_false]
            refine cleanup_cases hinv pipe hpipe (n := n) (fun device h => h)
              (fun handle h => (Option.some.inj h).symm) hheap ?_
            rw [← hstep, UsbState.store, List.append_assoc]
        | false =>
            cases hstep
            refine ⟨fun _ => ?_, fun hopen => absurd (fun h => (by cases h)) hopen⟩
            obtain rfl | ⟨h, rfl, -⟩ := hinv.device usb handle hheap
            · rw [hpipe.cleaned, useLog_none, List.append_nil]
              exact Quiet.kept st.adbHandle
            · rw [hpipe.opened, useLog_some]
              exact Quiet.transferred usb h n hheap

-- What do_usb_open comes to, by what fails.
def failedOpen (st : UsbState) : UsbState :=
  { st with
    adbHandle := some st.created
    created := st.created + 1
    log := st.log ++ (.used st.created :: List.replicate 3 (.closed st.created)) }

def newDevice (st : UsbState) : UsbState :=
  { st with
    heap := Function.update st.heap st.fresh (some (openDevice st.created))
    fresh := st.fresh + 1
    adbHandle := some st.created
    created := st.created + 1
    log := st.log ++ List.replicate 2 (.used st.created) }

theorem doUsbOpen_eq (st : UsbState) (mallocs creates names : Bool) :
    doUsbOpen st mallocs creates names = .ok (
      if mallocs = false then (none, st)
      else if creates = false then (none, { st with adbHandle := none })
      else if names = false then (none, failedOpen st)
      else (some st.fresh, newDevice st)) := by
  cases mallocs with
  | false => rfl
  | true =>
      cases creates with
      | false => rfl
      | true =>
          cases names with
          | false => simp [doUsbOpen, adbCreateInterfaceByName, adbOpenDefaultBulkReadEndpoint,
              adbOpenDefaultBulkWriteEndpoint, closeFields_eq, closeLog, UsbState.uses,
                UsbState.logged, failedOpen,
              List.replicate]
          | true => simp [doUsbOpen, adbCreateInterfaceByName, adbOpenDefaultBulkReadEndpoint,
              adbOpenDefaultBulkWriteEndpoint, UsbState.uses, UsbState.logged, UsbState.store,
                newDevice, openDevice,
              List.replicate]

-- A new device is not on the list, so its name is on the list only if it was before.
theorem knownDeviceLocked_new (hinv : UsbInv st) (event : HandleEvent) (name : List UInt8) :
    knownDeviceLocked ((newDevice st).logged event) name = knownDeviceLocked st name := by
  have hsame : ∀ usb ∈ st.handleList, (newDevice st).heap usb = st.heap usb := fun usb husb =>
    Function.update_of_ne (Nat.ne_of_lt (hinv.listed usb husb)) _ _
  rw [Bool.eq_iff_iff]
  unfold knownDeviceLocked
  rw [List.any_eq_true, List.any_eq_true]
  refine exists_congr fun usb => and_congr_right fun husb => ?_
  show hasName name ((newDevice st).heap usb) = true ↔ hasName name (st.heap usb) = true
  rw [hsame usb husb]

theorem findDevices_eq (hinv : UsbInv st) (mallocs creates names : Bool) :
    findDevices st mallocs creates names = .ok (
      if knownDeviceLocked st adbGetInterfaceName ∨ mallocs = false then st
      else if creates = false then { st with adbHandle := none }
      else if names = false then failedOpen st
      else { newDevice st with
        handleList := st.handleList ++ [st.fresh]
        log := st.log ++ List.replicate 3 (.used st.created) }) := by
  unfold findDevices
  by_cases hknown : knownDeviceLocked st adbGetInterfaceName = true
  · rw [if_pos hknown, if_pos (.inl hknown)]
  · rw [if_neg hknown, doUsbOpen_eq]
    cases mallocs with
    | false => simp [bind, Except.bind]
    | true =>
        cases creates with
        | false => simp [bind, Except.bind, hknown]
        | true =>
            cases names with
            | false => simp [bind, Except.bind, hknown]
            | true =>
                have hheap : (newDevice st).heap st.fresh = some (openDevice st.created) :=
                  Function.update_self _ _ _
                have hfresh :
                    ¬ knownDeviceLocked ((newDevice st).logged (.used st.created))
                      adbGetInterfaceName = true := by
                  rwa [knownDeviceLocked_new hinv]
                simp only [bind, Except.bind, Bool.true_eq_false, if_false, hheap,
                  registerNewDevice, openDevice, UsbState.uses, Option.any_some,
                  if_neg hfresh, hknown]
                simp [newDevice, UsbState.logged, List.replicate]

theorem usbStep_cases (hinv : UsbInv st) (hstep : usbStep st call = .ok after) :
    (CleansNothing st call → Quiet st after) ∧ (¬ CleansNothing st call → Closing st after) := by
  cases call with
  | usbKick target => exact usbKick_cases hinv hstep
  | usbCleanupHandle target => exact usbKick_cases hinv hstep
  | usbClose target => exact usbClose_cases hinv hstep
  | usbRead target n invalid => exact usbTransfer_cases hinv ⟨rfl, fun h => rfl⟩ hstep
  | usbWrite target n invalid => exact usbTransfer_cases hinv ⟨rfl, fun h => rfl⟩ hstep
  | findDevices mallocs creates names =>
      simp only [usbStep, findDevices_eq hinv, Except.ok.injEq] at hstep
      subst hstep
      have hguard : CleansNothing st (.findDevices mallocs creates names) ↔
          knownDeviceLocked st adbGetInterfaceName = true ∨ mallocs = false ∨ creates = false ∨
            names = true :=
        Iff.rfl
      rw [hguard]
      by_cases hnothing : knownDeviceLocked st adbGetInterfaceName = true ∨ mallocs = false
      · rw [if_pos hnothing]
        refine ⟨fun _ => Quiet.kept st.adbHandle, fun hopen => absurd ?_ hopen⟩
        obtain hknown | hmalloc := hnothing
        · exact .inl hknown
        · exact .inr (.inl hmalloc)
      · rw [if_neg hnothing]
        obtain ⟨hknown, hmalloc⟩ := not_or.mp hnothing
        rw [or_iff_right hknown, or_iff_right hmalloc]
        cases creates with
        | false => exact ⟨fun _ => Quiet.kept none, fun hopen => absurd (.inl rfl) hopen⟩
        | true =>
            cases names with
            | false => exact ⟨fun hclosed => (by simp at hclosed), fun _ => Closing.failed⟩
            | true => exact ⟨fun _ => Quiet.opened, fun hopen => absurd (.inr rfl) hopen⟩

end Effects

section Log

variable {log : List HandleEvent} {n h' : Nat}

theorem closed_mem_uses : HandleEvent.closed h' ∈ log ++ List.replicate n (HandleEvent.used h) ↔
    HandleEvent.closed h' ∈ log := by
  simp [List.mem_replicate]

theorem closed_mem_closes : HandleEvent.closed h' ∈ log ++ (List.replicate n (HandleEvent.used h) ++
    List.replicate 3 (HandleEvent.closed h)) ↔ HandleEvent.closed h' ∈ log ∨ h' = h := by
  simp [List.mem_replicate]

theorem count_uses : (log ++ List.replicate n (HandleEvent.used h)).count (HandleEvent.closed h') =
    log.count (HandleEvent.closed h') := by
  rw [List.count_append, List.count_replicate]
  simp

theorem count_closes : (log ++ (List.replicate n (HandleEvent.used h) ++
    List.replicate 3 (HandleEvent.closed h))).count (HandleEvent.closed h') =
      log.count (HandleEvent.closed h') + if h' = h then 3 else 0 := by
  rw [← List.append_assoc, List.count_append, count_uses, List.count_replicate]
  by_cases heq : h' = h
  · simp [heq]
  · simp [heq, Ne.symm heq]

-- The use of a handle that nothing has closed, and then its closes.
theorem pairwise_uses
    (hlog : log.Pairwise fun earlier later => ∀ h, earlier = .closed h → later ≠ .used h)
    (hopen : HandleEvent.closed h ∉ log) : (log ++ List.replicate n (HandleEvent.used h)).Pairwise
      fun earlier later => ∀ h, earlier = .closed h → later ≠ .used h := by
  refine List.pairwise_append.mpr
    ⟨hlog, List.pairwise_replicate.mpr (.inr fun h hclosed => (by cases hclosed)), ?_⟩
  intro earlier hearlier later hlater h' hclosed hused
  rw [List.eq_of_mem_replicate hlater] at hused
  cases hused
  exact hopen (hclosed ▸ hearlier)

theorem pairwise_closes
    (hlog : log.Pairwise fun earlier later => ∀ h, earlier = .closed h → later ≠ .used h)
    (hopen : HandleEvent.closed h ∉ log) :
    (log ++ (List.replicate n (HandleEvent.used h) ++
      List.replicate 3 (HandleEvent.closed h))).Pairwise
      fun earlier later => ∀ h, earlier = .closed h → later ≠ .used h := by
  rw [← List.append_assoc]
  refine List.pairwise_append.mpr ⟨pairwise_uses hlog hopen,
    List.pairwise_replicate.mpr (.inr fun h _ hused => (by cases hused)), ?_⟩
  intro earlier _ later hlater h' _ hused
  rw [List.eq_of_mem_replicate hlater] at hused
  cases hused

end Log

section Invariant

theorem usbInv_init : UsbInv usbInit where
  device := fun usb handle hheap => (by cases hheap)
  own := fun usb usb' h hheap => (by cases hheap)
  fresh := fun usb _ => rfl
  listed := fun usb husb => absurd husb List.not_mem_nil
  created := fun h _ => List.not_mem_nil
  closes := fun h => .inl rfl
  used := List.Pairwise.nil

theorem openDevice_ne (h : Nat) : openDevice h ≠ UsbHandle.cleaned := by
  simp [openDevice, UsbHandle.cleaned]

theorem openDevice_inj {h h' : Nat} (heq : openDevice h = openDevice h') : h = h' := by
  simpa [openDevice] using heq

theorem update_some {heap : Nat → Option UsbHandle} {content : Option UsbHandle} {other : Nat}
    (hheap : Function.update heap usb content other = some handle) :
    other = usb ∧ content = some handle ∨ other ≠ usb ∧ heap other = some handle := by
  by_cases heq : other = usb
  · rw [heq, Function.update_self] at hheap
    exact .inl ⟨heq, hheap⟩
  · rw [Function.update_of_ne heq] at hheap
    exact .inr ⟨heq, hheap⟩

-- A device that is cleaned up or freed, and a list that gets no longer.
theorem UsbInv.remove (hinv : UsbInv st) {content : Option UsbHandle} {list : List Nat}
    (hthere : st.heap usb = some handle)
    (hcontent : ∀ handle, content = some handle → handle = UsbHandle.cleaned)
    (hlist : ∀ device ∈ list, device ∈ st.handleList) :
    UsbInv { st with heap := Function.update st.heap usb content, handleList := list } := by
  refine ⟨fun usb' handle' hheap => ?_, fun first second h hfirst hsecond => ?_,
    fun usb' hfresh => ?_, fun usb' husb =>
    hinv.listed usb' (hlist usb' husb), hinv.created, hinv.closes, hinv.used⟩
  · obtain ⟨-, hnew⟩ | ⟨-, hold⟩ := update_some hheap
    · exact .inl (hcontent handle' hnew)
    · exact hinv.device usb' handle' hold
  · obtain ⟨-, hnew⟩ | ⟨-, hold⟩ := update_some hfirst
    · exact absurd (hcontent _ hnew) (openDevice_ne h)
    · obtain ⟨-, hnew⟩ | ⟨-, hold'⟩ := update_some hsecond
      · exact absurd (hcontent _ hnew) (openDevice_ne h)
      · exact hinv.own first second h hold hold'
  · have hne : usb' ≠ usb := by
      rintro rfl
      rw [hinv.fresh usb' hfresh] at hthere
      cases hthere
    show Function.update st.heap usb content usb' = none
    rw [Function.update_of_ne hne]
    exact hinv.fresh usb' hfresh

theorem Quiet.inv (hinv : UsbInv st) (hquiet : Quiet st after) : UsbInv after := by
  cases hquiet with
  | kept adbHandle =>
      exact ⟨hinv.device, hinv.own, hinv.fresh, hinv.listed, hinv.created, hinv.closes, hinv.used⟩
  | transferred usb h n hopen =>
      obtain hcleaned | ⟨h', heq, hlt, hnot⟩ := hinv.device usb _ hopen
      · exact absurd hcleaned (openDevice_ne h)
      obtain rfl := openDevice_inj heq
      refine ⟨fun usb' handle hheap => ?_, hinv.own, hinv.fresh, hinv.listed, fun h' hh' => ?_,
        fun h' => ?_, pairwise_uses hinv.used hnot⟩
      · obtain hcleaned | ⟨h', hdevice, hlt', hnot'⟩ := hinv.device usb' handle hheap
        · exact .inl hcleaned
        · exact .inr ⟨h', hdevice, hlt', mt closed_mem_uses.mp hnot'⟩
      · exact mt closed_mem_uses.mp (hinv.created h' hh')
      · unfold closes
        rw [count_uses]
        exact hinv.closes h'
  | opened =>
      have hnot : .closed st.created ∉ st.log := hinv.created st.created (Nat.le_refl _)
      refine ⟨fun usb' handle hheap => ?_, fun first second h hfirst hsecond => ?_,
        fun usb' husb => ?_, fun usb' husb => ?_, fun h' hh' => ?_, fun h' =>
        ?_, pairwise_uses hinv.used hnot⟩
      · obtain ⟨rfl, hnew⟩ | ⟨hne, hold⟩ := update_some hheap
        · cases hnew
          exact .inr ⟨st.created, rfl, Nat.lt_succ_self _, mt closed_mem_uses.mp hnot⟩
        · obtain hcleaned | ⟨h', hdevice, hlt, hnot'⟩ := hinv.device usb' handle hold
          · exact .inl hcleaned
          · exact .inr ⟨h', hdevice, Nat.lt_succ_of_lt hlt, mt closed_mem_uses.mp hnot'⟩
      · -- the handle is new, so no other device has it
        have hother : ∀ other, other ≠ st.fresh → st.heap other = some (openDevice h) →
            h ≠ st.created := by
          intro other _ hheap heq
          obtain hcleaned | ⟨h', hdevice, hlt, -⟩ := hinv.device other _ hheap
          · exact absurd hcleaned (openDevice_ne h)
          · have hsame := openDevice_inj hdevice
            omega
        obtain ⟨rfl, hnew⟩ | ⟨hne, hold⟩ := update_some hfirst
        · have hh := openDevice_inj (Option.some.inj hnew)
          obtain ⟨hsame, -⟩ | ⟨hne', hold'⟩ := update_some hsecond
          · exact hsame.symm
          · exact absurd hh.symm (hother second hne' hold')
        · obtain ⟨rfl, hnew⟩ | ⟨hne', hold'⟩ := update_some hsecond
          · exact absurd (openDevice_inj (Option.some.inj hnew)).symm (hother first hne hold)
          · exact hinv.own first second h hold hold'
      · have hne : usb' ≠ st.fresh := Nat.ne_of_gt husb
        show Function.update st.heap st.fresh _ usb' = none
        rw [Function.update_of_ne hne]
        exact hinv.fresh usb' (Nat.le_of_lt husb)
      · obtain hold | hnew := List.mem_append.mp husb
        · exact Nat.lt_succ_of_lt (hinv.listed usb' hold)
        · rw [List.mem_singleton.mp hnew]
          exact Nat.lt_succ_self _
      · exact mt closed_mem_uses.mp (hinv.created h' (Nat.le_of_succ_le hh'))
      · unfold closes
        rw [count_uses]
        exact hinv.closes h'
  | dropped usb content list hcleaned hcontent hlist => exact hinv.remove hcleaned hcontent hlist

-- A handle that gets closed three times over, which no device has any more.
theorem UsbInv.close_thrice (hinv : UsbInv st) {n : Nat} (hlt : h < st.created)
    (hopen : HandleEvent.closed h ∉ st.log) (hgone : ∀ usb, st.heap usb ≠ some (openDevice h)) :
    UsbInv { st with log := st.log ++
      (List.replicate n (.used h) ++ List.replicate 3 (.closed h)) } := by
  refine ⟨fun usb handle hheap => ?_, hinv.own, hinv.fresh, hinv.listed, fun h' hh' => ?_,
    fun h' => ?_, pairwise_closes hinv.used hopen⟩
  · obtain hcleaned | ⟨h', rfl, hlt', hnot⟩ := hinv.device usb handle hheap
    · exact .inl hcleaned
    · refine .inr ⟨h', rfl, hlt', fun hclosed => ?_⟩
      obtain hbefore | rfl := closed_mem_closes.mp hclosed
      · exact hnot hbefore
      · exact hgone usb hheap
  · intro hclosed
    obtain hbefore | rfl := closed_mem_closes.mp hclosed
    · exact hinv.created h' hh' hbefore
    · exact absurd hlt (Nat.not_lt.mpr hh')
  · have hcount : Usb.closes { st with
          log := st.log ++ (List.replicate n (.used h) ++ List.replicate 3 (.closed h)) } h' =
        Usb.closes st h' + if h' = h then 3 else 0 := count_closes
    rw [hcount]
    by_cases heq : h' = h
    · have hzero : Usb.closes st h' = 0 := by
        rw [heq]
        exact List.count_eq_zero.mpr hopen
      rw [if_pos heq, hzero]
      exact .inr rfl
    · rw [if_neg heq, Nat.add_zero]
      exact hinv.closes h'

theorem Closing.inv (hinv : UsbInv st) (hclosing : Closing st after) : UsbInv after := by
  cases hclosing with
  | failed =>
      have hnot : HandleEvent.closed st.created ∉ st.log := hinv.created st.created (Nat.le_refl _)
      have hcreated : UsbInv { st with adbHandle := some st.created, created := st.created + 1 } := by
        refine ⟨fun usb handle hheap => ?_, hinv.own, hinv.fresh, hinv.listed,
          fun h hh => hinv.created h (Nat.le_of_succ_le hh), hinv.closes, hinv.used⟩
        obtain hcleaned | ⟨h, hdevice, hlt, hopen⟩ := hinv.device usb handle hheap
        · exact .inl hcleaned
        · exact .inr ⟨h, hdevice, Nat.lt_succ_of_lt hlt, hopen⟩
      refine hcreated.close_thrice (n := 1) (Nat.lt_succ_self _) hnot fun usb hheap => ?_
      obtain hcleaned | ⟨h, hdevice, hlt, -⟩ := hinv.device usb _ hheap
      · exact openDevice_ne _ hcleaned
      · have hsame := openDevice_inj hdevice
        omega
  | cleaned usb h n content list hopen hcontent hlist =>
      obtain hcleaned | ⟨h', heq, hlt, hnot⟩ := hinv.device usb _ hopen
      · exact absurd hcleaned (openDevice_ne h)
      obtain rfl := openDevice_inj heq
      refine (hinv.remove hopen hcontent hlist).close_thrice hlt hnot fun usb' hheap => ?_
      obtain ⟨-, hnew⟩ | ⟨hne, hold⟩ := update_some hheap
      · exact openDevice_ne h (hcontent _ hnew)
      · exact hne (hinv.own usb' usb h hold hopen)

theorem usbStep_inv (hinv : UsbInv st) (hstep : usbStep st call = .ok after) : UsbInv after := by
  obtain ⟨hquiet, hclosing⟩ := usbStep_cases hinv hstep
  by_cases hguard : CleansNothing st call
  · exact (hquiet hguard).inv hinv
  · exact (hclosing hguard).inv hinv

-- No step closes a handle only once, and a step that cleans nothing closes none.
theorem Quiet.closes (hquiet : Quiet st after) (h' : Nat) :
    Usb.closes after h' = Usb.closes st h' := by
  cases hquiet with
  | kept adbHandle => rfl
  | transferred usb h n hopen => exact count_uses
  | opened => exact count_uses
  | dropped usb content list hcleaned hcontent hlist => rfl

theorem Closing.closes (hclosing : Closing st after) :
    ∃ h, ∀ h', Usb.closes after h' = Usb.closes st h' + if h' = h then 3 else 0 := by
  cases hclosing with
  | failed => exact ⟨st.created, fun h' => count_closes (n := 1)⟩
  | cleaned usb h n content list hopen hcontent hlist => exact ⟨h, fun h' => count_closes⟩

theorem closes_le (hinv : UsbInv st) (hstep : usbStep st call = .ok after) (h : Nat) :
    closes st h ≤ closes after h := by
  obtain ⟨hquiet, hclosing⟩ := usbStep_cases hinv hstep
  by_cases hguard : CleansNothing st call
  · exact Nat.le_of_eq ((hquiet hguard).closes h).symm
  · obtain ⟨handle, hcount⟩ := (hclosing hguard).closes
    rw [hcount]
    omega

theorem run_closes_le (hinv : UsbInv st) (hr : run usbStep st calls = .ok after) (h : Nat) :
    closes st h ≤ closes after h := by
  induction calls generalizing st with
  | nil =>
      cases hr
      exact Nat.le_refl _
  | cons call calls ih =>
      obtain ⟨next, hstep, hr⟩ := run_cons_ok hr
      exact Nat.le_trans (closes_le hinv hstep h) (ih (usbStep_inv hinv hstep) hr)

-- One call that cleans something up is enough.
theorem unguarded_closes (hinv : UsbInv st) (hr : run usbStep st calls = .ok after)
    (hg : ¬ Guarded usbStep CleansNothing st calls) : ∃ h, 3 ≤ closes after h := by
  induction calls generalizing st with
  | nil => exact absurd trivial hg
  | cons call calls ih =>
      obtain ⟨next, hstep, hr⟩ := run_cons_ok hr
      rw [guarded_cons hstep, not_and] at hg
      by_cases hguard : CleansNothing st call
      · exact ih (usbStep_inv hinv hstep) hr (hg hguard)
      · obtain ⟨h, hcount⟩ := ((usbStep_cases hinv hstep).2 hguard).closes
        have hthree := hcount h
        have hle := run_closes_le (usbStep_inv hinv hstep) hr h
        rw [if_pos rfl] at hthree
        exact ⟨h, by omega⟩

-- What find_devices leaves when it adds nothing.
theorem passLeavesNothing (hinv : UsbInv st) : PassLeavesNothing st := by
  intro mallocs creates names after hstep hlist
  rw [findDevices_eq hinv, Except.ok.injEq] at hstep
  subst hstep
  split at hlist
  · rename_i hnothing
    rw [if_pos hnothing]
    exact ⟨rfl, fun h hle hlt => absurd hle (Nat.not_le.mpr hlt)⟩
  · rename_i hsomething
    rw [if_neg hsomething]
    split at hlist
    · rename_i hcreates
      rw [if_pos hcreates]
      exact ⟨rfl, fun h hle hlt => absurd hle (Nat.not_le.mpr hlt)⟩
    · rename_i hcreates
      rw [if_neg hcreates]
      split at hlist
      · rename_i hnames
        rw [if_pos hnames]
        refine ⟨rfl, fun h hle hlt => ?_⟩
        have hsame : h = st.created := Nat.le_antisymm (Nat.le_of_lt_succ hlt) hle
        rw [hsame]
        exact (closed_mem_closes (n := 1)).mpr (.inr rfl)
      · exact absurd (congrArg List.length hlist) (by simp)

-- In every run a handle is closed at most once exactly where no call cleans up a
-- device that has one; the rest of the discipline is kept in any case.
theorem usb_handle_discipline (calls : List UsbCall) (st : UsbState)
    (hr : run usbStep usbInit calls = .ok st) :
    (HandlesDisciplined st ↔ Guarded usbStep CleansNothing usbInit calls) ∧ UsedWhileOpen st ∧
      PassLeavesNothing st := by
  have hinv : UsbInv st := run_invariant (fun _ _ _ => usbStep_inv) usbInv_init hr
  refine ⟨⟨fun hdisciplined => ?_, fun hg => ⟨fun h => ?_, hinv.used, passLeavesNothing hinv⟩⟩,
    hinv.used, passLeavesNothing hinv⟩
  · by_contra hg
    obtain ⟨h, hthree⟩ := unguarded_closes usbInv_init hr hg
    have honce := hdisciplined.once h
    omega
  · have hnone : UsbInv st ∧ closes st h = 0 := by
      refine guarded_invariant (P := fun s => UsbInv s ∧ closes s h = 0)
        (fun s call next hs hguard hstep => ?_)
        ⟨usbInv_init, rfl⟩ hg hr
      refine ⟨usbStep_inv hs.1 hstep, ?_⟩
      rw [((usbStep_cases hs.1 hstep).1 hguard).closes h]
      exact hs.2
    rw [hnone.2]
    exact Nat.zero_le 1

theorem usb_handle_discipline_of_one_device : ∃ st, st.handleList = [0] ∧ HandlesDisciplined st :=
  ⟨_, rfl, (usb_handle_discipline
    [.findDevices true true true, .usbRead (some 0) 2 false] _ rfl).1.mpr
    ⟨.inr (.inr (.inr rfl)), fun next _ => ⟨fun h => (by cases h), fun _ _ => trivial⟩⟩⟩

-- A device is found and closed.
theorem close_closes_thrice : ∃ st,
    run usbStep usbInit [.findDevices true true true, .usbClose (some 0)] = .ok st ∧
    closes st 0 = 3 ∧ ¬ HandlesDisciplined st := by
  refine ⟨_, rfl, by decide, fun hdisciplined => ?_⟩
  have honce := hdisciplined.once 0
  exact absurd honce (by decide)

end Invariant

end Adb.Usb
