import Adb.Lib.Run
import Adb.Lib.Slots

namespace Adb.Sysdeps

open Adb.Lib

def WIN32_FH_BASE : Int := 100

def WIN32_MAX_FHS : Nat := 128

def O_RDONLY : Int := 0

def O_WRONLY : Int := 1

def O_RDWR : Int := 2

def SOCK_STREAM : Int := 1

inductive FHClass where
  | file
  | socket
  | socketpair
deriving DecidableEq

-- _win32_fhs up to _win32_fh_count: the clazz of each handle. used is set as long
-- as there is a clazz.
structure HandleTable where
  fhs : List (Option FHClass)
  bounded : fhs.length ≤ WIN32_MAX_FHS

inductive HandleStop where
  | nullPointer
  | exits
deriving DecidableEq

-- What a function opens: its handles or none, which is the return value -1.
abbrev Opened := Except HandleStop (Option (List Int) × HandleTable)

namespace HandleTable

def used (table : HandleTable) (n : Nat) : Bool := (holder table.fhs n).isSome

def free (table : HandleTable) : Nat := freeSlots WIN32_MAX_FHS table.fhs

end HandleTable

def fhToInt (f : Nat) : Int := f + WIN32_FH_BASE

def fhFromInt (table : HandleTable) (fd : Int) : Option Nat :=
  let n := (fd - WIN32_FH_BASE).toNat
  if WIN32_FH_BASE ≤ fd ∧ table.used n then some n else none

-- A handle, or NULL.
def fhAlloc (table : HandleTable) (clazz : FHClass) : Option Nat × HandleTable :=
  match h : allocSlot WIN32_MAX_FHS table.fhs clazz with
  | some (n, fhs) => (some n, ⟨fhs, length_allocSlot table.bounded h⟩)
  | none => (none, table)

def fhClose (table : HandleTable) : Option Nat → Except HandleStop HandleTable
  | none => .error .nullPointer
  | some f =>
      if table.used f then .ok ⟨freeSlot table.fhs f, by simpa using table.bounded⟩
      else .ok table

-- What comes of a call to the system. Some failures end the program.
inductive Call where
  | succeeds
  | fails
  | exits
deriving DecidableEq

def called (ok : Bool) : Call := if ok then .succeeds else .fails

-- _init_winsock, which gives up when WSAStartup fails.
def started (ok : Bool) : Call := if ok then .succeeds else .exits

-- The calls in their order, up to the first that does not succeed.
def runCalls : List Call → Call
  | [] => .succeeds
  | .succeeds :: rest => runCalls rest
  | .fails :: _ => .fails
  | .exits :: _ => .exits

-- A handle is allocated, and closed again when one of the calls fails.
def openHandle (table : HandleTable) (clazz : FHClass) (calls : List Call) : Opened :=
  match fhAlloc table clazz with
  | (none, table) => .ok (none, table)
  | (some f, table) =>
      match runCalls calls with
      | .succeeds => .ok (some [fhToInt f], table)
      | .fails => do return (none, ← fhClose table (some f))
      | .exits => .error .exits

def adbOpen (table : HandleTable) (options : Int) (createFile : Bool) : Opened :=
  if options = O_RDONLY ∨ options = O_WRONLY ∨ options = O_RDWR then
    openHandle table .file [called createFile]
  else
    .ok (none, table)

def adbCreat (table : HandleTable) (createFile : Bool) : Opened :=
  openHandle table .file [called createFile]

def socketLoopbackClient (table : HandleTable) (startup socket connect : Bool) : Opened :=
  openHandle table .socket [started startup, called socket, called connect]

-- Where socket fails, the handle is not closed.
def socketLoopbackServer (table : HandleTable) (type : Int) (startup socket bind listen : Bool) : Opened :=
  match fhAlloc table .socket with
  | (none, table) => .ok (none, table)
  | (some f, table) =>
      if ¬startup then .error .exits
      else if ¬socket then .ok (none, table)
      else if ¬bind ∨ (type = SOCK_STREAM ∧ ¬listen) then do return (none, ← fhClose table (some f))
      else .ok (some [fhToInt f], table)

def socketNetworkClient (table : HandleTable) (startup gethostbyname socket connect : Bool) : Opened :=
  openHandle table .socket [started startup, called gethostbyname, called socket, called connect]

def socketInaddrAnyServer (table : HandleTable) (type : Int) (startup socket bind listen : Bool) : Opened :=
  openHandle table .socket
    [started startup, called socket, called bind, called (type ≠ SOCK_STREAM ∨ listen)]

-- A server socket that cannot be selected again ends the program.
def adbSocketAccept (table : HandleTable) (serverfd : Int) (accept eventSelect : Bool) : Opened :=
  match fhFromInt table serverfd with
  | none => .ok (none, table)
  | some serverfh =>
      if holder table.fhs serverfh ≠ some .socket then .ok (none, table)
      else openHandle table .socket [called accept, started eventSelect]

def adbSocketpair (table : HandleTable) (malloc : Bool) : Opened :=
  match fhAlloc table .socketpair with
  | (fa, table) =>
      match fhAlloc table .socketpair with
      | (fb, table) =>
          match fa, fb, malloc with
          | some fa, some fb, true => .ok (some [fhToInt fa, fhToInt fb], table)
          | fa, fb, _ => do
              let table ← fhClose table fb
              let table ← fhClose table fa
              return (none, table)

def adbClose (table : HandleTable) (fd : Int) : Except HandleStop HandleTable :=
  match fhFromInt table fd with
  | none => .ok table
  | some f => fhClose table (some f)

-- A call of one of the functions, with what the system answers.
inductive HandleOp where
  | adbOpen (options : Int) (createFile : Bool)
  | adbCreat (createFile : Bool)
  | socketLoopbackClient (startup socket connect : Bool)
  | socketLoopbackServer (type : Int) (startup socket bind listen : Bool)
  | socketNetworkClient (startup gethostbyname socket connect : Bool)
  | socketInaddrAnyServer (type : Int) (startup socket bind listen : Bool)
  | adbSocketAccept (serverfd : Int) (accept eventSelect : Bool)
  | adbSocketpair (malloc : Bool)

def perform (table : HandleTable) : HandleOp → Opened
  | .adbOpen options createFile => adbOpen table options createFile
  | .adbCreat createFile => adbCreat table createFile
  | .socketLoopbackClient startup socket connect => socketLoopbackClient table startup socket connect
  | .socketLoopbackServer type startup socket bind listen =>
      socketLoopbackServer table type startup socket bind listen
  | .socketNetworkClient startup gethostbyname socket connect =>
      socketNetworkClient table startup gethostbyname socket connect
  | .socketInaddrAnyServer type startup socket bind listen =>
      socketInaddrAnyServer table type startup socket bind listen
  | .adbSocketAccept serverfd accept eventSelect => adbSocketAccept table serverfd accept eventSelect
  | .adbSocketpair malloc => adbSocketpair table malloc

-- Exactly the slots that are returned have been free and are used, or all are as
-- they were.
def Accounted (table : HandleTable) : Opened → Prop
  | .ok (some fds, after) => ∃ slots : List Nat, fds = slots.map fhToInt ∧ slots ≠ [] ∧ slots.Nodup ∧
      (∀ n ∈ slots, n < WIN32_MAX_FHS ∧ table.used n = false) ∧
      ∀ n, after.used n = true ↔ table.used n = true ∨ n ∈ slots
  | .ok (none, after) => ∀ n, after.used n = table.used n
  | .error _ => False

-- When the slots are accounted for: the program does not give up, socket does not
-- fail for a server on the loopback, and there are two slots for a pair.
def Tidy (table : HandleTable) : HandleOp → Prop
  | .adbOpen _ _ | .adbCreat _ => True
  | .socketLoopbackClient startup _ _ | .socketNetworkClient startup _ _ _
  | .socketInaddrAnyServer _ startup _ _ _ => table.free = 0 ∨ startup = true
  | .socketLoopbackServer _ startup socket _ _ => table.free = 0 ∨ (startup = true ∧ socket = true)
  | .adbSocketAccept serverfd accept eventSelect => eventSelect = true ∨ accept = false ∨ table.free = 0 ∨
      ∀ f, fhFromInt table serverfd = some f → holder table.fhs f ≠ some .socket
  | .adbSocketpair _ => 2 ≤ table.free

section Operations

variable {table after : HandleTable} {clazz : FHClass} {calls : List Call} {n : Nat}

theorem used_lt (h : table.used n = true) : n < WIN32_MAX_FHS := by
  obtain ⟨clazz, hc⟩ := Option.isSome_iff_exists.mp h
  exact Nat.lt_of_lt_of_le (holder_lt hc) table.bounded

-- A handle that is allocated has been free, and the others stay as they are.
structure Allocated (table : HandleTable) (n : Nat) (after : HandleTable) : Prop where
  free : table.used n = false
  used : ∀ m, after.used m = true ↔ table.used m = true ∨ m = n
  left : after.free + 1 = table.free

theorem fhAlloc_cases (table : HandleTable) (clazz : FHClass) :
    (fhAlloc table clazz = (none, table) ∧ table.free = 0) ∨
      ∃ n after, fhAlloc table clazz = (some n, after) ∧ Allocated table n after := by
  have hiff := allocSlot_isSome_iff (a := clazz) table.bounded
  unfold fhAlloc
  split
  · rename_i n fhs halloc
    obtain ⟨hfree, hholder⟩ := allocSlot_spec halloc
    refine .inr ⟨n, _, rfl, ?_, fun m => ?_, freeSlots_alloc table.bounded halloc⟩
    · rw [HandleTable.used, hfree]
      rfl
    · rw [HandleTable.used, HandleTable.used, hholder]
      by_cases hm : m = n
      · simp [hm]
      · simp [hm]
  · rename_i halloc
    rw [halloc] at hiff
    left
    refine ⟨rfl, ?_⟩
    simp only [Option.isSome_none, Bool.false_eq_true, false_iff] at hiff
    exact Nat.eq_zero_of_not_pos hiff

theorem fhClose_some (table : HandleTable) (f : Nat) :
    ∃ after, fhClose table (some f) = .ok after ∧
      ∀ m, after.used m = true ↔ table.used m = true ∧ m ≠ f := by
  unfold fhClose
  dsimp only
  by_cases hused : table.used f = true
  · rw [if_pos hused]
    refine ⟨_, rfl, fun m => ?_⟩
    obtain ⟨clazz, hc⟩ := Option.isSome_iff_exists.mp hused
    rw [HandleTable.used, HandleTable.used, freeSlot_spec hc]
    by_cases hm : m = f
    · simp [hm]
    · simp [hm]
  · rw [if_neg hused]
    refine ⟨_, rfl, fun m => ⟨fun h => ⟨h, ?_⟩, And.left⟩⟩
    rintro rfl
    exact hused h

-- A handle that is allocated and closed again leaves nothing behind.
theorem Allocated.closed (h : Allocated table n after) :
    ∃ last, fhClose after (some n) = .ok last ∧ ∀ m, last.used m = table.used m := by
  obtain ⟨last, hclose, hused⟩ := fhClose_some after n
  refine ⟨last, hclose, fun m => ?_⟩
  rw [Bool.eq_iff_iff, hused, h.used]
  constructor
  · rintro ⟨hm | hm, hne⟩
    · exact hm
    · exact absurd hm hne
  · intro hm
    refine ⟨.inl hm, ?_⟩
    rintro rfl
    rw [h.free] at hm
    cases hm

theorem Allocated.accounted (h : Allocated table n after) :
    Accounted table (.ok (some [fhToInt n], after)) := by
  refine ⟨[n], rfl, by simp, by simp, fun m hm => ?_, fun m => ?_⟩
  · rw [List.mem_singleton.mp hm]
    exact ⟨used_lt ((h.used n).mpr (.inr rfl)), h.free⟩
  · rw [h.used, List.mem_singleton]

theorem openHandle_accounted :
    Accounted table (openHandle table clazz calls) ↔ table.free = 0 ∨ runCalls calls ≠ .exits := by
  unfold openHandle
  obtain ⟨halloc, hfree⟩ | ⟨n, after, halloc, h⟩ := fhAlloc_cases table clazz
  · rw [halloc]
    exact ⟨fun _ => .inl hfree, fun _ _ => rfl⟩
  · have hleft : table.free ≠ 0 := by
      have hcount := h.left
      omega
    rw [halloc]
    dsimp only
    cases hcalls : runCalls calls with
    | succeeds => exact ⟨fun _ => .inr (by simp), fun _ => h.accounted⟩
    | fails =>
        obtain ⟨last, hclose, hlast⟩ := h.closed
        simp only [bind, Except.bind, hclose]
        exact ⟨fun _ => .inr (by simp), fun _ => hlast⟩
    | exits => exact ⟨fun hfalse => hfalse.elim, fun hor => hor.elim (absurd · hleft) (absurd rfl)⟩

theorem socketLoopbackServer_accounted (type : Int) (startup socket bound listen : Bool) :
    Accounted table (socketLoopbackServer table type startup socket bound listen) ↔
      table.free = 0 ∨ (startup = true ∧ socket = true) := by
  unfold socketLoopbackServer
  obtain ⟨halloc, hfree⟩ | ⟨n, after, halloc, h⟩ := fhAlloc_cases table .socket
  · rw [halloc]
    exact ⟨fun _ => .inl hfree, fun _ _ => rfl⟩
  have hleft : table.free ≠ 0 := by
    have hcount := h.left
    omega
  rw [halloc]
  dsimp only
  by_cases hstartup : startup = true
  case neg =>
    rw [if_pos hstartup]
    exact ⟨fun hfalse => hfalse.elim, fun hor => hor.elim (absurd · hleft) fun hboth => hstartup hboth.1⟩
  rw [if_neg (not_not.mpr hstartup)]
  by_cases hsocket : socket = true
  case neg =>
    -- the handle stays used
    rw [if_pos hsocket]
    constructor
    · intro hsame
      have hused := (h.used n).mpr (.inr rfl)
      rw [hsame n, h.free] at hused
      cases hused
    · rintro (hzero | hboth)
      · exact absurd hzero hleft
      · exact absurd hboth.2 hsocket
  rw [if_neg (not_not.mpr hsocket)]
  refine iff_of_true ?_ (.inr ⟨hstartup, hsocket⟩)
  split
  · obtain ⟨last, hclose, hlast⟩ := h.closed
    simp only [bind, Except.bind, hclose]
    exact hlast
  · exact h.accounted

theorem adbSocketAccept_accounted (serverfd : Int) (accept eventSelect : Bool) :
    Accounted table (adbSocketAccept table serverfd accept eventSelect) ↔
      (eventSelect = true ∨ accept = false ∨ table.free = 0 ∨
        ∀ f, fhFromInt table serverfd = some f → holder table.fhs f ≠ some .socket) := by
  unfold adbSocketAccept
  cases hserver : fhFromInt table serverfd with
  | none => exact iff_of_true (fun _ => rfl) (by simp)
  | some f =>
      dsimp only
      by_cases hclazz : holder table.fhs f ≠ some .socket
      · rw [if_pos hclazz]
        exact iff_of_true (fun _ => rfl) (by simp [hclazz])
      · rw [if_neg hclazz, openHandle_accounted]
        have hsocket : holder table.fhs f = some .socket := not_not.mp hclazz
        cases accept <;> cases eventSelect <;> simp [runCalls, called, started, hsocket]

-- Without two free slots, Fail closes a handle that is NULL.
theorem adbSocketpair_short (h : table.free < 2) (malloc : Bool) :
    adbSocketpair table malloc = .error .nullPointer := by
  unfold adbSocketpair
  obtain ⟨halloc, hfree⟩ | ⟨a, mid, halloc, ha⟩ := fhAlloc_cases table .socketpair
  · rw [halloc]
    dsimp only
    rw [halloc]
    rfl
  rw [halloc]
  dsimp only
  have hone := ha.left
  obtain ⟨halloc', hfree⟩ | ⟨b, after, halloc', hb⟩ := fhAlloc_cases mid .socketpair
  · rw [halloc']
    rfl
  · have htwo := hb.left
    omega

-- The second handle of a pair, too, is new.
theorem adbSocketpair_free (h : 2 ≤ table.free) (malloc : Bool) :
    Accounted table (adbSocketpair table malloc) := by
  unfold adbSocketpair
  obtain ⟨-, hfree⟩ | ⟨a, mid, halloc, ha⟩ := fhAlloc_cases table .socketpair
  · omega
  rw [halloc]
  dsimp only
  have hone := ha.left
  obtain ⟨-, hfree⟩ | ⟨b, after, halloc', hb⟩ := fhAlloc_cases mid .socketpair
  · omega
  rw [halloc']
  have hne : a ≠ b := by
    rintro rfl
    have hused := (ha.used a).mpr (.inr rfl)
    rw [hb.free] at hused
    cases hused
  cases malloc with
  | false =>
      obtain ⟨last, hclose, hlast⟩ := hb.closed
      obtain ⟨final, hclose', hfinal⟩ := fhClose_some last a
      simp only [bind, Except.bind, hclose, hclose']
      intro n
      rw [Bool.eq_iff_iff, hfinal, hlast, ha.used]
      constructor
      · rintro ⟨hn | hn, hna⟩
        · exact hn
        · exact absurd hn hna
      · intro hn
        refine ⟨.inl hn, ?_⟩
        rintro rfl
        rw [ha.free] at hn
        cases hn
  | true =>
      refine ⟨[a, b], rfl, by simp, by simp [hne], ?_, fun n => ?_⟩
      · intro n hn
        have hlt : ∀ m, after.used m = true → m < WIN32_MAX_FHS := fun m => used_lt
        obtain rfl | hn := List.mem_cons.mp hn
        · exact ⟨hlt n ((hb.used n).mpr (.inl ((ha.used n).mpr (.inr rfl)))), ha.free⟩
        · rw [List.mem_singleton] at hn
          subst hn
          refine ⟨hlt n ((hb.used n).mpr (.inr rfl)), ?_⟩
          by_contra hused
          have hmid := (ha.used n).mpr (.inl (by simpa using hused))
          rw [hb.free] at hmid
          cases hmid
      · rw [hb.used, ha.used, List.mem_cons, List.mem_singleton, or_assoc]

theorem adbSocketpair_accounted (malloc : Bool) :
    Accounted table (adbSocketpair table malloc) ↔ 2 ≤ table.free := by
  by_cases h : 2 ≤ table.free
  · exact iff_of_true (adbSocketpair_free h malloc) h
  · rw [adbSocketpair_short (Nat.lt_of_not_le h)]
    exact iff_of_false (fun hfalse => hfalse) h

theorem runCalls_called (oks : List Bool) : runCalls (oks.map called) ≠ .exits := by
  induction oks with
  | nil => simp [runCalls]
  | cons ok oks ih =>
      cases ok with
      | false => simp [called, runCalls]
      | true => exact ih

theorem runCalls_started (startup : Bool) (oks : List Bool) :
    runCalls (started startup :: oks.map called) ≠ .exits ↔ startup = true := by
  cases startup with
  | false => simp [started, runCalls]
  | true => exact iff_of_true (runCalls_called oks) rfl

theorem perform_accounted (table : HandleTable) (op : HandleOp) :
    Accounted table (perform table op) ↔ Tidy table op := by
  cases op with
  | adbOpen options createFile =>
      refine iff_of_true ?_ trivial
      simp only [perform, adbOpen]
      split
      · exact openHandle_accounted.mpr (.inr (runCalls_called [createFile]))
      · exact fun _ => rfl
  | adbCreat createFile =>
      exact iff_of_true (openHandle_accounted.mpr (.inr (runCalls_called [createFile]))) trivial
  | socketLoopbackClient startup socket connect =>
      exact openHandle_accounted.trans (or_congr_right (runCalls_started startup [socket, connect]))
  | socketLoopbackServer type startup socket bound listen => exact socketLoopbackServer_accounted ..
  | socketNetworkClient startup gethostbyname socket connect =>
      exact openHandle_accounted.trans
        (or_congr_right (runCalls_started startup [gethostbyname, socket, connect]))
  | socketInaddrAnyServer type startup socket bound listen =>
      exact openHandle_accounted.trans
        (or_congr_right (runCalls_started startup [socket, bound, type ≠ SOCK_STREAM ∨ listen]))
  | adbSocketAccept serverfd accept eventSelect => exact adbSocketAccept_accounted ..
  | adbSocketpair malloc => exact adbSocketpair_accounted malloc

end Operations

section Runs

-- What has been handed out and closed, the latest first.
inductive HandleEvent where
  | handedOut (n : Nat)
  | closed (n : Nat)
deriving DecidableEq

-- Handed out and not closed since.
def held : List HandleEvent → Nat → Bool
  | [], _ => false
  | .handedOut m :: log, n => m = n || held log n
  | .closed m :: log, n => m ≠ n && held log n

-- No slot is handed out twice without a close in between.
def OncePerClose : List HandleEvent → Prop
  | [] => True
  | .handedOut n :: log => held log n = false ∧ OncePerClose log
  | .closed _ :: log => OncePerClose log

structure HandleRun where
  table : HandleTable
  log : List HandleEvent

inductive HandleMove where
  | perform (op : HandleOp)
  | close (fd : Int)

def handleInit : HandleRun where
  table := ⟨[], Nat.zero_le _⟩
  log := []

def handleStep (st : HandleRun) : HandleMove → Except HandleStop HandleRun
  | .perform op => do
      let (fds, table) ← perform st.table op
      return ⟨table, ((fds.getD []).map fun fd => .handedOut (fd - WIN32_FH_BASE).toNat) ++ st.log⟩
  | .close fd => do
      let table ← adbClose st.table fd
      return ⟨table, ((fhFromInt st.table fd).toList.map .closed) ++ st.log⟩

variable {table after : HandleTable} {st next : HandleRun} {log : List HandleEvent} {slots : List Nat}

-- What is returned has been free and is used; what has been used stays so.
def Grown (table : HandleTable) : Opened → Prop
  | .ok (some fds, after) => Accounted table (.ok (some fds, after))
  | .ok (none, after) => ∀ n, table.used n = true → after.used n = true
  | .error _ => True

theorem Accounted.grown {opened : Opened} (h : Accounted table opened) : Grown table opened := by
  match opened with
  | .ok (some fds, after) => exact h
  | .ok (none, after) =>
      intro n hn
      rw [h n, hn]
  | .error e => trivial

theorem openHandle_grown (table : HandleTable) (clazz : FHClass) (calls : List Call) :
    Grown table (openHandle table clazz calls) := by
  by_cases h : table.free = 0 ∨ runCalls calls ≠ .exits
  · exact (openHandle_accounted.mpr h).grown
  · obtain ⟨hfree, hcalls⟩ := not_or.mp h
    unfold openHandle
    obtain ⟨-, hzero⟩ | ⟨n, after, halloc, -⟩ := fhAlloc_cases table clazz
    · exact absurd hzero hfree
    · rw [halloc, not_not.mp hcalls]
      trivial

theorem socketLoopbackServer_grown (table : HandleTable) (type : Int) (startup socket bound listen : Bool) :
    Grown table (socketLoopbackServer table type startup socket bound listen) := by
  by_cases h : table.free = 0 ∨ (startup = true ∧ socket = true)
  · exact ((socketLoopbackServer_accounted ..).mpr h).grown
  · obtain ⟨hfree, hcalls⟩ := not_or.mp h
    unfold socketLoopbackServer
    obtain ⟨-, hzero⟩ | ⟨n, after, halloc, ha⟩ := fhAlloc_cases table .socket
    · exact absurd hzero hfree
    · rw [halloc]
      dsimp only
      split
      · trivial
      · rename_i hstartup
        have hsocket : ¬socket = true := fun hs => hcalls ⟨not_not.mp hstartup, hs⟩
        rw [if_pos hsocket]
        exact fun m hm => (ha.used m).mpr (.inl hm)

theorem perform_grown (table : HandleTable) (op : HandleOp) : Grown table (perform table op) := by
  by_cases h : Tidy table op
  · exact ((perform_accounted table op).mpr h).grown
  cases op with
  | adbOpen options createFile => exact absurd trivial h
  | adbCreat createFile => exact absurd trivial h
  | socketLoopbackClient startup socket connect => exact openHandle_grown ..
  | socketLoopbackServer type startup socket bound listen => exact socketLoopbackServer_grown ..
  | socketNetworkClient startup gethostbyname socket connect => exact openHandle_grown ..
  | socketInaddrAnyServer type startup socket bound listen => exact openHandle_grown ..
  | adbSocketAccept serverfd accept eventSelect =>
      simp only [perform, adbSocketAccept]
      split
      · exact fun _ hn => hn
      · split
        · exact fun _ hn => hn
        · exact openHandle_grown ..
  | adbSocketpair malloc =>
      simp only [perform, adbSocketpair_short (Nat.lt_of_not_le h)]
      trivial

theorem held_handedOut (n : Nat) :
    held (slots.map .handedOut ++ log) n = true ↔ n ∈ slots ∨ held log n = true := by
  induction slots with
  | nil => simp
  | cons m slots ih =>
      simp only [List.map_cons, List.cons_append, held, Bool.or_eq_true, decide_eq_true_eq, ih, List.mem_cons]
      rw [or_assoc, eq_comm]

theorem oncePerClose_handedOut (hnodup : slots.Nodup) (hfree : ∀ n ∈ slots, held log n = false)
    (h : OncePerClose log) : OncePerClose (slots.map .handedOut ++ log) := by
  induction slots with
  | nil => exact h
  | cons m slots ih =>
      obtain ⟨hm, hnodup⟩ := List.nodup_cons.mp hnodup
      have hnot : held (slots.map .handedOut ++ log) m = false := by
        rw [← Bool.not_eq_true, held_handedOut]
        rintro (hmem | hheld)
        · exact hm hmem
        · rw [hfree m (by simp)] at hheld
          cases hheld
      exact ⟨hnot, ih hnodup fun n hn => hfree n (List.mem_cons_of_mem _ hn)⟩

structure HandleSound (st : HandleRun) : Prop where
  used : ∀ n, held st.log n = true → st.table.used n = true
  once : OncePerClose st.log

theorem performStep_sound {op : HandleOp} (h : HandleSound st)
    (hs : handleStep st (.perform op) = .ok next) : HandleSound next := by
  have hgrown := perform_grown st.table op
  simp only [handleStep, bind, Except.bind] at hs
  split at hs
  · cases hs
  rename_i result hperform
  obtain ⟨fds, after⟩ := result
  cases hs
  rw [hperform] at hgrown
  cases fds with
  | none =>
      exact ⟨fun n hn => hgrown n (h.used n hn), h.once⟩
  | some fds =>
      obtain ⟨slots, rfl, -, hnodup, hfree, hused⟩ := hgrown
      have hlog : (slots.map fhToInt).map (fun fd => HandleEvent.handedOut (fd - WIN32_FH_BASE).toNat) =
          slots.map .handedOut := by
        rw [List.map_map]
        refine List.map_congr_left fun n _ => ?_
        simp only [Function.comp_apply, fhToInt]
        congr 1
        omega
      have hunheld : ∀ n ∈ slots, held st.log n = false := by
        intro n hn
        rw [← Bool.not_eq_true]
        intro hheld
        have hbusy := h.used n hheld
        rw [(hfree n hn).2] at hbusy
        cases hbusy
      refine ⟨fun n hn => ?_, ?_⟩
      · simp only [Option.getD_some, hlog, held_handedOut] at hn
        refine (hused n).mpr ?_
        obtain hn | hn := hn
        · exact .inr hn
        · exact .inl (h.used n hn)
      · simp only [Option.getD_some, hlog]
        exact oncePerClose_handedOut hnodup hunheld h.once

theorem closeStep_sound {fd : Int} (h : HandleSound st) (hs : handleStep st (.close fd) = .ok next) :
    HandleSound next := by
  simp only [handleStep, adbClose, bind, Except.bind] at hs
  cases hf : fhFromInt st.table fd with
  | none =>
      rw [hf] at hs
      cases hs
      exact h
  | some f =>
      obtain ⟨after, hclose, hused⟩ := fhClose_some st.table f
      simp only [hf, hclose] at hs
      cases hs
      refine ⟨fun n hn => ?_, h.once⟩
      simp only [Option.toList_some, List.map_cons, List.map_nil, List.cons_append, List.nil_append, held,
        Bool.and_eq_true, decide_eq_true_eq] at hn
      exact (hused n).mpr ⟨h.used n hn.2, Ne.symm hn.1⟩

theorem handleStep_sound {move : HandleMove} (h : HandleSound st) (hs : handleStep st move = .ok next) :
    HandleSound next := by
  cases move with
  | perform op => exact performStep_sound h hs
  | close fd => exact closeStep_sound h hs

theorem handle_table (table : HandleTable) (op : HandleOp) :
    (Accounted table (perform table op) ↔ Tidy table op) ∧
      ∀ moves st, run handleStep handleInit moves = .ok st →
        OncePerClose st.log ∧ ∀ n, held st.log n = true → st.table.used n = true := by
  refine ⟨perform_accounted table op, fun moves st hr => ?_⟩
  have hinit : HandleSound handleInit := ⟨fun n hn => Bool.noConfusion hn, trivial⟩
  have hsound : HandleSound st := run_invariant (fun _ _ _ h hs => handleStep_sound h hs) hinit hr
  exact ⟨hsound.once, hsound.used⟩

-- A pair, of which one end is closed, and a server that cannot get a socket.
theorem handle_table_of_a_pair :
    ∃ st, run handleStep handleInit [.perform (.adbSocketpair true), .close 100,
        .perform (.socketLoopbackServer SOCK_STREAM true false true true)] = .ok st ∧
      st.log = [.closed 0, .handedOut 0, .handedOut 1] ∧ OncePerClose st.log := by
  obtain ⟨st, hr⟩ : ∃ st, run handleStep handleInit [.perform (.adbSocketpair true), .close 100,
      .perform (.socketLoopbackServer SOCK_STREAM true false true true)] = .ok st := ⟨_, rfl⟩
  have hlog : (run handleStep handleInit [.perform (.adbSocketpair true), .close 100,
      .perform (.socketLoopbackServer SOCK_STREAM true false true true)]).toOption.map HandleRun.log =
        some [.closed 0, .handedOut 0, .handedOut 1] := by decide
  rw [hr] at hlog
  exact ⟨st, hr, Option.some.inj hlog, ((handle_table handleInit.table (.adbSocketpair true)).2 _ st hr).1⟩

theorem socket_failure_leaks :
    ¬Accounted handleInit.table
      (perform handleInit.table (.socketLoopbackServer SOCK_STREAM true false true true)) := by
  intro h
  have hused := h 0
  revert hused
  decide

end Runs

end Adb.Sysdeps
