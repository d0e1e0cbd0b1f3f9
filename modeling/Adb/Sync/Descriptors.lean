import Adb.Lib.Stream

namespace Adb.Sync

open Adb.Lib

inductive Errno where
  | ENOENT
  | EEXIST
  | other (n : Nat)
deriving DecidableEq

-- A descriptor that is open for reading. What comes after its segments is the
-- end of the file, or of the connection.
abbrev Input : Type := List (Segment UInt8 Errno)

inductive ReadCall where
  | got (bytes : List UInt8) (rest : Input)
  | interrupted (rest : Input)
  | failed (e : Errno) (rest : Input)

def adbRead : Input → Nat → ReadCall
  | [], _ => .got [] []
  | .data first more :: rest, len =>
      .got ((first :: more).take len) (segmentOf ((first :: more).drop len) ++ rest)
  | .interrupted :: rest, _ => .interrupted rest
  | .failed e :: rest, _ => .failed e rest

-- A bound on the calls of adb_read until the end is seen.
def turns : Input → Nat
  | [] => 1
  | .data _ more :: rest => more.length + 2 + turns rest
  | _ :: rest => 1 + turns rest

-- How a call of readx ends, with what it has put into the buffer.
inductive ReadX where
  | done (bytes : List UInt8) (rest : Input)
  | failed (bytes : List UInt8) (rest : Input)

def ReadX.after (bytes : List UInt8) : ReadX → ReadX
  | .done more rest => .done (bytes ++ more) rest
  | .failed more rest => .failed (bytes ++ more) rest

-- The loop of readx, an adb_read a turn.
def readx : Input → Nat → ReadX
  | [], len => if len > 0 then .failed [] [] else .done [] []
  | segment :: rest, len =>
      if len > 0 then
        match segment with
        | .data first more =>
            let bytes := (first :: more).take len
            if len - bytes.length > 0 then
              (readx rest (len - bytes.length)).after bytes
            else
              .done bytes (segmentOf ((first :: more).drop len) ++ rest)
        | .interrupted => readx rest len
        | .failed _ => .failed [] rest
      else
        .done [] (segment :: rest)

-- How a call of writex ends, with what has been written.
inductive WriteX where
  | done (rest : List (CallOutcome Errno))
  | failed (taken : List UInt8) (e : Errno) (rest : List (CallOutcome Errno))

def WriteX.after (bytes : List UInt8) : WriteX → WriteX
  | .done rest => .done rest
  | .failed taken e rest => .failed (bytes ++ taken) e rest

-- The loop of writex, an adb_write a turn. Writes beyond the outcomes that are
-- given take all they are asked to.
def writex : List (CallOutcome Errno) → List UInt8 → WriteX
  | [], _ => .done []
  | outcome :: rest, bytes =>
      if bytes.length > 0 then
        match outcome with
        | .moved k => (writex rest (bytes.drop (k + 1))).after (bytes.take (k + 1))
        | .interrupted => writex rest bytes
        | .failed e => .failed [] e rest
      else
        .done (outcome :: rest)

-- One end of a connection; output is all that has been written to it.
structure Conn where
  input : Input
  writes : List (CallOutcome Errno)
  output : List UInt8
  closed : Bool
deriving DecidableEq

namespace Conn

def close (c : Conn) : Conn := { c with closed := true }

inductive Read where
  | done (bytes : List UInt8) (c : Conn)
  | failed (bytes : List UInt8) (c : Conn)

inductive Write where
  | done (c : Conn)
  | failed (c : Conn)

def readx (c : Conn) (len : Nat) : Read :=
  match Sync.readx c.input len with
  | .done bytes rest => .done bytes { c with input := rest }
  | .failed bytes rest => .failed bytes { c with input := rest }

def writex (c : Conn) (bytes : List UInt8) : Write :=
  match Sync.writex c.writes bytes with
  | .done rest => .done { c with output := c.output ++ bytes, writes := rest }
  | .failed taken _ rest => .failed { c with output := c.output ++ taken, writes := rest }

-- Calls of writex joined by ||.
def writeAll : Conn → List (List UInt8) → Write
  | c, [] => .done c
  | c, bytes :: more =>
      match c.writex bytes with
      | .done c => c.writeAll more
      | .failed c => .failed c

end Conn

section Spec

variable {input : Input} {len : Nat}

-- All that counts for readx is what comes before the first failure.
theorem readx_done (h : len ≤ (readable input).length) :
    ∃ rest, readx input len = .done ((readable input).take len) rest ∧
      readable rest = (readable input).drop len := by
  induction input generalizing len with
  | nil =>
      have hlen : len = 0 := Nat.le_zero.mp h
      subst hlen
      exact ⟨[], rfl, rfl⟩
  | cons segment rest ih =>
      by_cases hpos : len > 0
      · simp only [readx, if_pos hpos]
        cases segment with
        | data first more =>
            dsimp only
            simp only [readable, List.length_append] at h
            by_cases hshort : len - ((first :: more).take len).length > 0
            · have hlen : (first :: more).length ≤ len := by
                rw [List.length_take] at hshort
                omega
              have htake : (first :: more).take len = first :: more := List.take_of_length_le hlen
              rw [htake] at hshort ⊢
              obtain ⟨after, he, hr⟩ := @ih (len - (first :: more).length) (by omega)
              refine ⟨after, ?_, ?_⟩
              · rw [if_pos hshort, he, ReadX.after, readable, List.take_append, htake]
              · rw [hr, readable, List.drop_append, List.drop_of_length_le hlen, List.nil_append]
            · have hlen : len ≤ (first :: more).length := by
                rw [List.length_take] at hshort
                omega
              refine ⟨segmentOf ((first :: more).drop len) ++ rest, ?_, ?_⟩
              · rw [if_neg hshort, readable, List.take_append_of_le_length hlen]
              · rw [readable_segmentOf_append, readable, List.drop_append_of_le_length hlen]
        | interrupted => exact ih h
        | failed e =>
            have hlen : len = 0 := Nat.le_zero.mp h
            omega
      · have hlen : len = 0 := by omega
        subst hlen
        exact ⟨segment :: rest, rfl, rfl⟩

theorem readx_failed (h : (readable input).length < len) :
    ∃ rest, readx input len = .failed (readable input) rest := by
  induction input generalizing len with
  | nil =>
      refine ⟨[], ?_⟩
      simp only [readx, readable]
      rw [if_pos (by omega)]
  | cons segment rest ih =>
      have hpos : len > 0 := by omega
      simp only [readx, if_pos hpos]
      cases segment with
      | data first more =>
          dsimp only
          simp only [readable, List.length_append] at h
          have hlen : (first :: more).length ≤ len := by omega
          have htake : (first :: more).take len = first :: more := List.take_of_length_le hlen
          obtain ⟨after, he⟩ := @ih (len - (first :: more).length) (by omega)
          rw [htake]
          exact ⟨after, by rw [if_pos (by omega), he, ReadX.after, readable]⟩
      | interrupted => exact ih h
      | failed e => exact ⟨rest, rfl⟩

-- A call of writex that fails leaves a part of its bytes unwritten.
theorem writex_failed {outcomes rest : List (CallOutcome Errno)} {bytes taken : List UInt8}
    {e : Errno} (h : writex outcomes bytes = .failed taken e rest) :
    taken <+: bytes ∧ taken.length < bytes.length := by
  induction outcomes generalizing bytes taken with
  | nil => cases h
  | cons outcome outcomes ih =>
      simp only [writex] at h
      split at h
      · rename_i hpos
        cases outcome with
        | moved k =>
            simp only at h
            cases hx : writex outcomes (bytes.drop (k + 1)) with
            | done after =>
                rw [hx] at h
                cases h
            | failed more e' after =>
                rw [hx] at h
                cases h
                obtain ⟨hp, hlt⟩ := ih hx
                have hsplit := List.take_append_drop (k + 1) bytes
                refine ⟨?_, ?_⟩
                · have hp' := (List.prefix_append_right_inj (bytes.take (k + 1))).mpr hp
                  rwa [hsplit] at hp'
                · have hlen := congrArg List.length hsplit
                  simp only [List.length_append] at hlen ⊢
                  omega
        | interrupted => exact ih h
        | failed e' =>
            cases h
            exact ⟨List.nil_prefix, hpos⟩
      · cases h

end Spec

end Adb.Sync
