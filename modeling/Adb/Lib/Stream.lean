import Mathlib.Data.List.Infix

namespace Adb.Lib

section Stream

variable {α ε : Type}

-- What the reads of a descriptor find next: a piece of data, of which a read
-- takes as much as it asks for, or no data this time.
inductive Segment (α ε : Type) where
  | data (first : α) (more : List α)
  | interrupted
  | failed (e : ε)
deriving DecidableEq

-- How one call of read or write goes; moved k takes k + 1 at most.
inductive CallOutcome (ε : Type) where
  | moved (k : Nat)
  | interrupted
  | failed (e : ε)
deriving DecidableEq

def segmentOf : List α → List (Segment α ε)
  | [] => []
  | first :: more => [.data first more]

-- All that the descriptor holds.
def stored : List (Segment α ε) → List α
  | [] => []
  | .data first more :: segments => first :: more ++ stored segments
  | .interrupted :: segments => stored segments
  | .failed _ :: segments => stored segments

-- What comes before the first failure, and what is left behind it.
def readable : List (Segment α ε) → List α
  | [] => []
  | .data first more :: segments => first :: more ++ readable segments
  | .interrupted :: segments => readable segments
  | .failed _ :: _ => []

def unreadable : List (Segment α ε) → List α
  | [] => []
  | .data _ _ :: segments => unreadable segments
  | .interrupted :: segments => unreadable segments
  | .failed _ :: segments => stored segments

-- A file as its reads find it, if they go as the pattern says.
def cut : List α → List (CallOutcome ε) → List (Segment α ε)
  | text, [] => segmentOf text
  | text, .moved k :: pattern => segmentOf (text.take (k + 1)) ++ cut (text.drop (k + 1)) pattern
  | text, .interrupted :: pattern => .interrupted :: cut text pattern
  | text, .failed e :: pattern => .failed e :: cut text pattern

variable {text : List α} {segments : List (Segment α ε)}

@[simp] theorem stored_segmentOf :
    stored (segmentOf text : List (Segment α ε)) = text := by
  cases text <;> simp [segmentOf, stored]

@[simp] theorem stored_segmentOf_append : stored (segmentOf text ++ segments) = text ++ stored segments := by
  cases text <;> simp [segmentOf, stored]

@[simp] theorem readable_segmentOf_append :
    readable (segmentOf text ++ segments) = text ++ readable segments := by
  cases text <;> simp [segmentOf, readable]

@[simp] theorem unreadable_segmentOf_append :
    unreadable (segmentOf text ++ segments) = unreadable segments := by
  cases text <;> simp [segmentOf, unreadable]

theorem readable_append_unreadable (segments : List (Segment α ε)) :
    readable segments ++ unreadable segments = stored segments := by
  induction segments with
  | nil => rfl
  | cons segment segments ih =>
      cases segment with
      | data first more => simp [readable, unreadable, stored, ih]
      | interrupted => exact ih
      | failed e => rfl

theorem prefix_readable (segments : List (Segment α ε)) : readable segments <+: stored segments :=
  ⟨_, readable_append_unreadable segments⟩

@[simp] theorem stored_cut (text : List α) (pattern : List (CallOutcome ε)) :
    stored (cut text pattern) = text := by
  induction pattern generalizing text with
  | nil => exact stored_segmentOf
  | cons outcome pattern ih =>
      cases outcome with
      | moved k => simp [cut, ih]
      | interrupted => exact ih text
      | failed e => exact ih text

end Stream

end Adb.Lib
