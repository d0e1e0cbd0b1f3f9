import Mathlib.Logic.Function.Basic
import Adb.Lib.Print

namespace Adb.Device

open Adb.Lib

def MAX_OUT_FDS : Nat := 4

-- inBuff is in_buff as far as in_len says.
structure JdwpProcess where
  pid : Int
  socket : Nat
  inBuff : List UInt8
  outFds : List Nat
  outCount : Nat

-- The descriptors that are to be sent.
def JdwpProcess.queue (proc : JdwpProcess) : List Nat := proc.outFds.take proc.outCount

-- What happens to a descriptor: it is queued for a process, it goes out with a
-- sendmsg to one, or adb_close is called for it.
inductive FdEvent where
  | queued (proc fd : Nat)
  | sent (proc fd : Nat)
  | closed (fd : Nat)
deriving DecidableEq

-- A process that is not there any more is looked at.
inductive JdwpFault where
  | freed

-- A process is its number in the order of allocation, a descriptor is its number in
-- the order in which the system has opened them for adbd.
structure JdwpState where
  heap : Nat → Option JdwpProcess
  fresh : Nat
  jdwpList : List Nat
  created : Nat
  log : List FdEvent

def jdwpInit : JdwpState := ⟨fun _ => none, 0, [], 0, []⟩

namespace JdwpState

def put (st : JdwpState) (p : Nat) (content : Option JdwpProcess) : JdwpState :=
  { st with heap := Function.update st.heap p content }

def logged (st : JdwpState) (events : List FdEvent) : JdwpState := { st with log := st.log ++ events }

end JdwpState

-- jdwp_process_free: out of the list, its socket and then what is still counted.
def jdwpProcessFree (st : JdwpState) (p : Nat) (proc : JdwpProcess) : JdwpState :=
  { (st.logged (.closed proc.socket :: proc.queue.map .closed)).put p none with jdwpList := st.jdwpList.erase p }

-- jdwp_control_event with what accept has given, and jdwp_process_alloc, for which the
-- memory and the fdevent are there or not.
def jdwpControlEvent (st : JdwpState) (allocs : Bool) : JdwpState :=
  if allocs then
    { st.put st.fresh (some ⟨-1, st.created, [], List.replicate MAX_OUT_FDS 0, 0⟩) with
      fresh := st.fresh + 1
      jdwpList := st.jdwpList ++ [st.fresh]
      created := st.created + 1 }
  else
    { st with created := st.created + 1 }

-- What a recv returns: bytes, EINTR, EAGAIN, another error or the end of the stream.
inductive Recv where
  | bytes (first : UInt8) (more : List UInt8)
  | interrupted
  | again
  | failed
  | ended
deriving DecidableEq

inductive PidEnd where
  | complete
  | again
  | broken
deriving DecidableEq

-- The loop that reads the PID: the bytes that it gets and how it ends. After the last
-- recv there is nothing for now.
def recvPid : Nat → List Recv → List UInt8 × PidEnd
  | 0, _ => ([], .complete)
  | _ + 1, [] => ([], .again)
  | size + 1, .bytes first more :: rest =>
      let got := (first :: more).take (size + 1)
      let (bytes, ending) := recvPid (size + 1 - got.length) rest
      (got ++ bytes, ending)
  | size + 1, .interrupted :: rest => recvPid (size + 1) rest
  | _ + 1, .again :: _ => ([], .again)
  | _ + 1, .failed :: _ => ([], .broken)
  | _ + 1, .ended :: _ => ([], .broken)
termination_by structural _ recvs => recvs

def hexValue (c : UInt8) : Option Nat :=
  if isDecimal c then some (c.toNat - 48)
  else if 97 ≤ c ∧ c ≤ 102 then some (c.toNat - 87)
  else if 65 ≤ c ∧ c ≤ 70 then some (c.toNat - 55)
  else none

-- The number behind the sign, which may begin with 0x.
def scanHexDigits (s : List UInt8) : Option Nat :=
  let digits := match s with
    | 48 :: 120 :: rest | 48 :: 88 :: rest => rest
    | rest => rest
  match digits.takeWhile fun c => (hexValue c).isSome with
  | [] => none
  | digits => some (digits.foldl (fun n c => 16 * n + (hexValue c).getD 0) 0)

-- sscanf(temp, "%04x", &pid)
def scanPid (temp : List UInt8) : Option Int :=
  match (((temp.takeWhile (· ≠ 0)).dropWhile isSpace).take 4) with
  | 45 :: rest => (scanHexDigits rest).map fun n => -(n : Int)
  | 43 :: rest => (scanHexDigits rest).map fun n => (n : Int)
  | rest => (scanHexDigits rest).map fun n => (n : Int)

-- The loop that reads what a known process has to say: whether its socket is at its
-- end.
def recvEnds : List Recv → Bool
  | [] => false
  | .bytes _ _ :: rest => recvEnds rest
  | .interrupted :: rest => recvEnds rest
  | .again :: _ => false
  | .failed :: _ => true
  | .ended :: _ => true

-- How what is done for FDE_READ ends: return, CloseProcess, or on to FDE_WRITE.
inductive ReadEnd where
  | returns (proc : JdwpProcess)
  | closeProcess (proc : JdwpProcess)
  | goesOn (proc : JdwpProcess)

def jdwpRead (proc : JdwpProcess) (recvs : List Recv) : ReadEnd :=
  if proc.pid < 0 then
    let (bytes, ending) := recvPid (4 - proc.inBuff.length) recvs
    let proc := { proc with inBuff := proc.inBuff ++ bytes }
    match ending with
    | .again => .returns proc
    | .broken => .closeProcess proc
    | .complete =>
        match scanPid proc.inBuff with
        | none => .closeProcess proc
        | some pid => .goesOn { proc with pid }
  else if recvEnds recvs then
    .closeProcess proc
  else
    .returns proc

-- One event of a process, with what the system calls return that it comes to: the
-- three calls of fcntl, and sendmsg once it is not interrupted.
structure EventCalls where
  read : Bool
  write : Bool
  recvs : List Recv
  getfl : Bool
  setfl : Bool
  sendmsg : Bool
  restores : Bool

-- The rest of the array one place to the front; the last place keeps what it has.
def JdwpProcess.shifted (proc : JdwpProcess) : JdwpProcess :=
  { proc with outFds := proc.queue.tail ++ proc.outFds.drop (proc.outCount - 1) }

-- What is done for FDE_WRITE.
def jdwpWrite (st : JdwpState) (p : Nat) (proc : JdwpProcess) (calls : EventCalls) : JdwpState :=
  match proc.queue with
  | [] => st
  | fd :: _ =>
      if ¬(calls.getfl ∧ calls.setfl ∧ calls.sendmsg) then
        jdwpProcessFree st p proc
      else
        let st := (st.logged [.sent p fd, .closed fd]).put p (some proc.shifted)
        if ¬calls.restores then
          jdwpProcessFree st p proc.shifted
        else
          st.put p (some { proc.shifted with outCount := proc.outCount - 1 })

def jdwpProcessEvent (st : JdwpState) (p : Nat) (calls : EventCalls) : Except JdwpFault JdwpState :=
  match st.heap p with
  | none => .error .freed
  | some proc =>
      match if calls.read then jdwpRead proc calls.recvs else .goesOn proc with
      | .returns proc => .ok (st.put p (some proc))
      | .closeProcess proc => .ok (jdwpProcessFree st p proc)
      | .goesOn proc =>
          let st := st.put p (some proc)
          .ok (if calls.write then jdwpWrite st p proc calls else st)

-- A descriptor in the next place of the array.
def JdwpProcess.enqueue (proc : JdwpProcess) (fd : Nat) : JdwpProcess :=
  { proc with outFds := proc.outFds.set proc.outCount fd, outCount := proc.outCount + 1 }

def findPid (st : JdwpState) (pid : Int) : List Nat → Except JdwpFault (Option Nat)
  | [] => .ok none
  | p :: rest =>
      match st.heap p with
      | none => .error .freed
      | some proc => if proc.pid = pid then .ok (some p) else findPid st pid rest

-- The descriptor that is returned, if it is one, and what is left behind. pairs: the
-- socket pair can be had.
def createJdwpConnectionFd (st : JdwpState) (pid : Int) (pairs : Bool) :
    Except JdwpFault (Option Nat × JdwpState) := do
  match ← findPid st pid st.jdwpList with
  | none => return (none, st)
  | some p =>
      match st.heap p with
      | none => .error .freed
      | some proc =>
          if MAX_OUT_FDS ≤ proc.outCount then
            return (none, st)
          else if ¬pairs then
            return (none, st)
          else
            let fds := (st.created, st.created + 1)
            let st := (st.logged [.queued p fds.2]).put p (some (proc.enqueue fds.2))
            return (some fds.1, { st with created := st.created + 2 })

inductive JdwpCall where
  | control (allocs : Bool)
  | event (p : Nat) (calls : EventCalls)
  | create (pid : Int) (pairs : Bool)

def jdwpStep (st : JdwpState) : JdwpCall → Except JdwpFault JdwpState
  | .control allocs => .ok (jdwpControlEvent st allocs)
  | .event p calls => jdwpProcessEvent st p calls
  | .create pid pairs => (createJdwpConnectionFd st pid pairs).map Prod.snd

end Adb.Device
