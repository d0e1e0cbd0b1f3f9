import Adb.Host.State
import Adb.Lib.Loop
import Adb.Lib.Memory

namespace Adb.Client

open Adb.Lib
open Adb.Host (Bytes ascii)
open Adb.Transport (TransportType)

section Commandline

-- What the modifiers set, and the arguments that are left.
structure Modifiers where
  isServer : Bool
  noDaemon : Bool
  isDaemon : Bool
  persist : Bool
  argv : List Bytes
deriving DecidableEq

def Modifiers.start (argv : List Bytes) : Modifiers := ⟨false, false, false, false, argv⟩

-- One turn of the loop over the modifiers. No branch moves argv on.
def modifierTurn (m : Modifiers) : Except Unit (Modifiers ⊕ Modifiers) :=
  match m.argv with
  | [] => .ok (.inr m)
  | arg :: _ =>
      if arg = ascii "server" then .ok (.inl { m with isServer := true })
      else if arg = ascii "nodaemon" then .ok (.inl { m with noDaemon := true })
      else if arg = ascii "fork-server" then .ok (.inl { m with isDaemon := true })
      else if arg = ascii "persist" then .ok (.inl { m with persist := true })
      else .ok (.inr m)

-- What adb_commandline comes to: it starts a server, prints its usage, or dispatches on
-- a command word with a transport selected.
inductive Outcome where
  | server (noDaemon isDaemon : Bool)
  | usage
  | dispatch (ttype : TransportType) (serial : Option Bytes) (argv : List Bytes)
deriving DecidableEq

-- ttype and serial have no option that sets them.
def afterModifiers (m : Modifiers) : Outcome :=
  if m.isServer then .server m.noDaemon m.isDaemon
  else if m.argv = [] then .usage
  else .dispatch .any none m.argv

-- none: the loop is not at its end yet.
def adbCommandline (fuel : Nat) (argv : List Bytes) : Option Outcome :=
  match loop modifierTurn fuel (.start argv) with
  | some (.ok m) => some (afterModifiers m)
  | _ => none

def isModifier (arg : Bytes) : Bool :=
  arg = ascii "server" || arg = ascii "nodaemon" || arg = ascii "fork-server" || arg =
    ascii "persist"

def Outcome.commandWord : Outcome → Option Bytes
  | .dispatch _ _ argv => argv.head?
  | _ => none

-- The loop ends behind the longest run of modifiers, and unless a server is started the
-- argument there is what counts.
structure TakesModifiers (argv : List Bytes) (fuel : Nat) (m : Modifiers) : Prop where
  ends : loop modifierTurn fuel (.start argv) = some (.ok m)
  rest : m.argv = argv.dropWhile isModifier
  word : m.isServer = false → (afterModifiers m).commandWord = argv.find? fun arg => !isModifier arg

variable {m : Modifiers} {arg : Bytes} {argv : List Bytes} {fuel : Nat}

-- A turn at a modifier sets what it stands for, and stays at it.
theorem modifierTurn_stays (h : m.argv.head? = some arg) (hmod : isModifier arg = true) :
    ∃ m', modifierTurn m = .ok (.inl m') ∧ m'.argv = m.argv := by
  obtain ⟨rest, hargv⟩ := List.head?_eq_some_iff.mp h
  simp only [isModifier, Bool.or_eq_true, decide_eq_true_eq] at hmod
  simp only [modifierTurn, hargv]
  split
  · exact ⟨_, rfl, rfl⟩
  · split
    · exact ⟨_, rfl, rfl⟩
    · split
      · exact ⟨_, rfl, rfl⟩
      · split
        · exact ⟨_, rfl, rfl⟩
        · simp_all

theorem modifierTurn_leaves (h : ∀ arg ∈ m.argv.head?, isModifier arg = false) :
    modifierTurn m = .ok (.inr m) := by
  unfold modifierTurn
  cases hargv : m.argv with
  | nil => rfl
  | cons arg rest =>
      have hmod := h arg (by rw [hargv]; rfl)
      simp only [isModifier, Bool.or_eq_false_iff, decide_eq_false_iff_not] at hmod
      obtain ⟨⟨⟨hserver, hnodaemon⟩, hfork⟩, hpersist⟩ := hmod
      simp only [if_neg hserver, if_neg hnodaemon, if_neg hfork, if_neg hpersist]

-- So the loop is at one argument all the time.
theorem comesTo_argv (hmod : ∀ arg ∈ m.argv.head?, isModifier arg = true) {m' : Modifiers}
    (h : ComesTo modifierTurn m m') : m'.argv = m.argv := by
  induction h with
  | refl => rfl
  | @tail mid last _ hturn ih =>
      cases hhead : mid.argv.head? with
      | none =>
          rw [modifierTurn_leaves (by rw [hhead]; simp)] at hturn
          cases hturn
      | some arg =>
          obtain ⟨next, hnext, hargv⟩ :=
            modifierTurn_stays hhead (hmod arg (by rw [← ih, hhead]; rfl))
          rw [hnext] at hturn
          cases hturn
          exact hargv.trans ih

theorem modifier_stalls (h : m.argv.head? = some arg) (hmod : isModifier arg = true)
    (result : Modifiers) :
    loop modifierTurn fuel m ≠ some (.ok result) := by
  intro hloop
  obtain ⟨last, hcomes, hturn⟩ := loop_ends hloop
  have hargv := comesTo_argv (by rw [h]; rintro _ ⟨⟩; exact hmod) hcomes
  obtain ⟨next, hnext, -⟩ := modifierTurn_stays (m := last) (by rw [hargv, h]) hmod
  rw [hnext] at hturn
  cases hturn

theorem plain_leaves (h : ∀ arg ∈ m.argv.head?, isModifier arg = false) (fuel : Nat) :
    loop modifierTurn (fuel + 1) m = some (.ok m) :=
  loop_leaves (modifierTurn_leaves h)

-- The loop takes the modifiers if and only if there are none at the beginning.
theorem takes_modifiers_iff (argv : List Bytes) :
    (∃ fuel m, TakesModifiers argv fuel m) ↔ ∀ arg ∈ argv.head?, isModifier arg = false := by
  constructor
  · rintro ⟨fuel, m, htakes⟩ arg harg
    by_contra hmod
    exact modifier_stalls (m := .start argv) harg (by simpa using hmod) m htakes.ends
  · intro h
    refine ⟨1, .start argv, plain_leaves h 0, ?_, ?_⟩
    · cases argv with
      | nil => rfl
      | cons arg rest => exact (List.dropWhile_cons_of_neg (by simp [h arg rfl])).symm
    · intro _
      cases argv with
      | nil => rfl
      | cons arg rest => exact (List.find?_cons_of_pos (by simp [h arg rfl])).symm

-- adb server does not get past its first argument.
theorem server_is_not_taken : ¬ ∀ argv, ∃ fuel m, TakesModifiers argv fuel m := by
  intro h
  have hfirst := (takes_modifiers_iff [ascii "server"]).mp (h _) _ rfl
  exact absurd hfirst (by decide)

end Commandline

section Command

-- char *argv[16]
def ARGV_SIZE : Nat := 16

-- The vector that do_cmd puts together. The null pointer behind the last argument is
-- stored as well; none stands for it.
def commandVector (ttype : TransportType) (serial : Option Bytes) (cmd : Bytes)
    (args : List Bytes) :
    Except MemoryFault (List Bytes) := do
  let options := match serial, ttype with
    | some serial, _ => [ascii "-s", serial]
    | none, .usb => [ascii "-d"]
    | none, .loopback => [ascii "-e"]
    | none, _ => []
  let argv := options ++ cmd :: args
  let _ ← store (List.replicate ARGV_SIZE none) 0 (argv.map some ++ [none])
  return argv

def doCmd (fuel : Nat) (ttype : TransportType) (serial : Option Bytes) (cmd : Bytes)
    (args : List Bytes) :
    Except MemoryFault (Option Outcome) :=
  (commandVector ttype serial cmd args).map (adbCommandline fuel)

-- The command is executed, with its arguments and for the transport that is asked for.
def Redispatches (ttype : TransportType) (serial : Option Bytes) (cmd : Bytes)
    (args : List Bytes) : Prop :=
  ∃ fuel, doCmd fuel ttype serial cmd args = .ok (some (.dispatch ttype serial (cmd :: args)))

variable {fuel : Nat} {ttype : TransportType} {serial : Option Bytes} {cmd : Bytes}
  {argv args : List Bytes}

theorem adbCommandline_selects {word : List Bytes}
    (h : adbCommandline fuel argv = some (.dispatch ttype serial word)) :
    ttype = .any ∧ serial = none := by
  unfold adbCommandline at h
  split at h
  · rename_i m _
    rw [Option.some.injEq] at h
    unfold afterModifiers at h
    split at h
    · cases h
    · split at h
      · cases h
      · cases h
        exact ⟨rfl, rfl⟩
  · cases h

-- Without options the vector is the command and its arguments.
theorem commandVector_plain (cmd : Bytes) (args : List Bytes) :
    commandVector .any none cmd args = if args.length ≤
      14 then .ok (cmd :: args) else .error .overrun := by
  have hlen : (((cmd :: args).map some) ++ [none] : List (Option Bytes)).length =
      args.length + 2 := by simp
  unfold commandVector
  simp only [List.nil_append]
  split
  · rename_i hfits
    have hstore :=
      @store_append _ [] (List.replicate ARGV_SIZE none) ((cmd :: args).map some ++ [none]) 0 rfl
      (by rw [hlen, List.length_replicate]; exact Nat.add_le_add_right hfits 2)
    rw [List.nil_append] at hstore
    rw [hstore]
    rfl
  · rename_i hlong
    rw [store_overrun (by rw [hlen, List.length_replicate]; unfold ARGV_SIZE; omega)]
    rfl

theorem adbCommandline_plain (hcmd : isModifier cmd = false) (fuel : Nat) (args : List Bytes) :
    adbCommandline (fuel + 1) (cmd :: args) = some (.dispatch .any none (cmd :: args)) := by
  rw [adbCommandline, plain_leaves (m := .start (cmd :: args)) (by rintro _ ⟨⟩; exact hcmd)]
  rfl

-- The command comes through if and only if nothing is to be selected, the word is not
-- taken for a modifier and the vector has room.
theorem redispatches_iff (ttype : TransportType) (serial : Option Bytes) (cmd : Bytes)
    (args : List Bytes) :
    Redispatches ttype serial cmd args ↔
      serial = none ∧ ttype = .any ∧ isModifier cmd = false ∧ args.length ≤ 14 := by
  constructor
  · rintro ⟨fuel, hdo⟩
    obtain ⟨argv, hvector, hline⟩ : ∃ argv, commandVector ttype serial cmd args = .ok argv ∧
        adbCommandline fuel argv = some (.dispatch ttype serial (cmd :: args)) := by
      unfold doCmd at hdo
      cases hvector : commandVector ttype serial cmd args with
      | error fault =>
          rw [hvector] at hdo
          cases hdo
      | ok argv =>
          rw [hvector] at hdo
          exact ⟨argv, rfl, Except.ok.inj hdo⟩
    obtain ⟨rfl, rfl⟩ := adbCommandline_selects hline
    rw [commandVector_plain] at hvector
    split at hvector
    · rename_i hfits
      cases hvector
      refine ⟨rfl, rfl, ?_, hfits⟩
      by_contra hmod
      unfold adbCommandline at hline
      split at hline
      · rename_i m hloop
        exact modifier_stalls (m := .start (cmd :: args)) rfl (by simpa using hmod) m hloop
      · cases hline
    · cases hvector
  · rintro ⟨rfl, rfl, hcmd, hfits⟩
    refine ⟨1, ?_⟩
    rw [doCmd, commandVector_plain, if_pos hfits, Except.map, adbCommandline_plain hcmd]

-- adb_commandline takes -d for the command.
theorem usb_is_not_selected : ¬ ∀ ttype serial cmd args, Redispatches ttype serial cmd args := by
  intro h
  have hany := ((redispatches_iff .usb none (ascii "wait-for-device") []).mp (h _ _ _ _)).2.1
  cases hany

end Command

end Adb.Client
