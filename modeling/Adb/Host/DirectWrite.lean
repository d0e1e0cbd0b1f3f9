import Adb.Host.Sockets

namespace Adb.Host

-- What comes of a packet: the bytes that are written, and whether s->close is
-- called because a write fails.
structure Drained where
  written : Bytes
  closed : Bool
deriving DecidableEq

def Drained.after (bytes : Bytes) (d : Drained) : Drained := ⟨bytes ++ d.written, d.closed⟩

-- The calls of local_socket_event_func for FDE_WRITE, one more after each EAGAIN.
def drainEvents : Nat → List Bytes → List WriteOutcome → Drained
  | 0, _, _ => ⟨[], false⟩
  | turns + 1, pkts, writes =>
      let result := drainQueue pkts writes
      match result.outcome with
      | .again => (drainEvents turns result.pkts result.writes).after result.written
      | .failed => ⟨result.written, true⟩
      | .done | .blocked => ⟨result.written, false⟩

-- The packet on an empty queue, as local_socket_enqueue takes it, and queued
-- before anything of it is written.
def enqueueDirectly (p : Bytes) (writes : List WriteOutcome) : Drained :=
  let result := writeLoop false p writes
  match result.outcome with
  | .again => (drainEvents (result.writes.length + 1) [result.rest] result.writes).after result.written
  | .failed => ⟨result.written, true⟩
  | .done | .blocked => ⟨result.written, false⟩

def enqueueQueued (p : Bytes) (writes : List WriteOutcome) : Drained :=
  drainEvents (writes.length + 1) [p] writes

-- What the script has behind the EINTR that the direct loop meets, if it meets one
-- before the packet is out, EAGAIN or a failure.
def afterEintr : Bytes → List WriteOutcome → Option (List WriteOutcome)
  | [], _ => none
  | _, [] => none
  | p, .wrote count :: writes => if count = 0 then none else afterEintr (p.drop count) writes
  | _, .intr :: writes => some writes
  | _, .again :: _ => none
  | _, .failed :: _ => none

-- Nothing more is written before a write fails.
def failsNext : List WriteOutcome → Bool
  | .again :: writes => failsNext writes
  | .intr :: writes => failsNext writes
  | .failed :: _ => true
  | .wrote count :: _ => count = 0
  | [] => false

section Loops

variable {p : Bytes} {writes : List WriteOutcome} {turns : Nat}

-- The packet to its end, however often the fd is not ready.
def persist : Bytes → List WriteOutcome → Drained
  | [], _ => ⟨[], false⟩
  | _, [] => ⟨[], false⟩
  | p, .wrote count :: writes =>
      if count = 0 then ⟨[], true⟩ else (persist (p.drop count) writes).after (p.take count)
  | p, .again :: writes => persist p writes
  | p, .intr :: writes => persist p writes
  | _, .failed :: _ => ⟨[], true⟩

@[simp] theorem persist_nil (writes : List WriteOutcome) : persist [] writes = ⟨[], false⟩ := by
  cases writes <;> rfl

@[simp] theorem writeLoop_nil (retry : Bool) (writes : List WriteOutcome) :
    writeLoop retry [] writes = ⟨.done, [], [], writes⟩ := by
  cases writes <;> rfl

theorem writeLoop_wrote (retry : Bool) {count : Nat} (hp : p ≠ []) (hz : count ≠ 0) :
    writeLoop retry p (.wrote count :: writes) =
      { writeLoop retry (p.drop count) writes with
        written := p.take count ++ (writeLoop retry (p.drop count) writes).written } := by
  obtain ⟨c, p, rfl⟩ := List.exists_cons_of_ne_nil hp
  exact if_neg hz

theorem persist_wrote {count : Nat} (hp : p ≠ []) (hz : count ≠ 0) :
    persist p (.wrote count :: writes) = (persist (p.drop count) writes).after (p.take count) := by
  obtain ⟨c, p, rfl⟩ := List.exists_cons_of_ne_nil hp
  exact if_neg hz

-- One event, with the packet alone in the queue.
theorem drainEvents_single (turns : Nat) (p : Bytes) (writes : List WriteOutcome) :
    drainEvents (turns + 1) [p] writes =
      match (writeLoop true p writes).outcome with
      | .again => (drainEvents turns [(writeLoop true p writes).rest]
          (writeLoop true p writes).writes).after (writeLoop true p writes).written
      | .failed => ⟨(writeLoop true p writes).written, true⟩
      | .done | .blocked => ⟨(writeLoop true p writes).written, false⟩ := by
  rw [drainEvents, drainQueue]
  cases h : (writeLoop true p writes).outcome <;> simp [drainQueue]

theorem drainEvents_eq (h : writes.length < turns) : drainEvents turns [p] writes = persist p writes := by
  obtain ⟨turns, rfl⟩ : ∃ k, turns = k + 1 := ⟨turns - 1, by omega⟩
  induction writes generalizing p turns with
  | nil => cases p <;> rfl
  | cons outcome writes ih =>
      cases p with
      | nil => rw [persist_nil, drainEvents_single, writeLoop_nil]
      | cons c p =>
          simp only [List.length_cons] at h
          have hp := List.cons_ne_nil c p
          cases outcome with
          | wrote count =>
              by_cases hz : count = 0
              · rw [hz, drainEvents_single]
                rfl
              · have hrest := @ih ((c :: p).drop count) turns (by omega)
                rw [drainEvents_single] at hrest ⊢
                rw [writeLoop_wrote true hp hz, persist_wrote hp hz, ← hrest]
                dsimp only
                cases (writeLoop true ((c :: p).drop count) writes).outcome <;>
                  simp [Drained.after]
          | again =>
              obtain ⟨turns, rfl⟩ : ∃ k, turns = k + 1 := ⟨turns - 1, by omega⟩
              have hrest := @ih (c :: p) turns (by omega)
              exact hrest
          | intr =>
              have hrest := @ih (c :: p) turns (by omega)
              rw [drainEvents_single] at hrest ⊢
              exact hrest
          | failed => rfl

theorem after_inj {bytes : Bytes} {d e : Drained} : d.after bytes = e.after bytes ↔ d = e := by
  cases d
  cases e
  simp [Drained.after]

theorem persist_failed_iff (hp : p ≠ []) : persist p writes = ⟨[], true⟩ ↔ failsNext writes = true := by
  induction writes with
  | nil =>
      obtain ⟨c, p, rfl⟩ := List.exists_cons_of_ne_nil hp
      simp [persist, failsNext]
  | cons outcome writes ih =>
      obtain ⟨c, p, rfl⟩ := List.exists_cons_of_ne_nil hp
      cases outcome with
      | wrote count =>
          rw [failsNext]
          by_cases hz : count = 0
          · simp [hz, persist]
          · obtain ⟨k, rfl⟩ : ∃ k, count = k + 1 := ⟨count - 1, by omega⟩
            rw [persist_wrote hp hz]
            simp [Drained.after]
      | again => exact ih
      | intr => exact ih
      | failed => simp [persist, failsNext]

theorem enqueueDirectly_wrote {count : Nat} (hp : p ≠ []) (hz : count ≠ 0) :
    enqueueDirectly p (.wrote count :: writes) =
      (enqueueDirectly (p.drop count) writes).after (p.take count) := by
  rw [enqueueDirectly, writeLoop_wrote false hp hz, enqueueDirectly]
  dsimp only
  cases (writeLoop false (p.drop count) writes).outcome <;> simp [Drained.after]

-- The direct loop differs in what it makes of EINTR.
theorem enqueueDirectly_eq_iff (p : Bytes) (writes : List WriteOutcome) :
    enqueueDirectly p writes = persist p writes ↔
      ∀ rest ∈ afterEintr p writes, failsNext rest = true := by
  induction writes generalizing p with
  | nil =>
      refine iff_of_true ?_ ?_ <;> cases p <;> simp [enqueueDirectly, writeLoop, persist, afterEintr]
  | cons outcome writes ih =>
      cases p with
      | nil => simp [enqueueDirectly, afterEintr]
      | cons c p =>
          have hp := List.cons_ne_nil c p
          cases outcome with
          | wrote count =>
              by_cases hz : count = 0
              · simp [hz, enqueueDirectly, writeLoop, persist, afterEintr]
              · have hnext : afterEintr (c :: p) (.wrote count :: writes) =
                    afterEintr ((c :: p).drop count) writes := if_neg hz
                rw [enqueueDirectly_wrote hp hz, persist_wrote hp hz, after_inj, ih, hnext]
          | again =>
              have hdirect : enqueueDirectly (c :: p) (.again :: writes) =
                  drainEvents (writes.length + 1) [c :: p] writes := by
                simp [enqueueDirectly, writeLoop, Drained.after]
              rw [hdirect, drainEvents_eq (by omega)]
              simp [persist, afterEintr]
          | intr =>
              have hpersist : persist (c :: p) (.intr :: writes) = persist (c :: p) writes := rfl
              rw [hpersist, show enqueueDirectly (c :: p) (.intr :: writes) = ⟨[], true⟩ from rfl,
                eq_comm, persist_failed_iff hp]
              simp [afterEintr]
          | failed => simp [enqueueDirectly, writeLoop, persist, afterEintr]

end Loops

-- The two ways come to the same unless EINTR gets in the way of the direct one.
theorem direct_write_iff (p : Bytes) (writes : List WriteOutcome) :
    enqueueDirectly p writes = enqueueQueued p writes ↔
      ∀ rest ∈ afterEintr p writes, failsNext rest = true := by
  rw [enqueueQueued, drainEvents_eq (Nat.lt_succ_self _)]
  exact enqueueDirectly_eq_iff p writes

theorem interrupted_write_closes :
    enqueueDirectly [1, 2] [.wrote 1, .intr, .wrote 1] = ⟨[1], true⟩ ∧
      enqueueQueued [1, 2] [.wrote 1, .intr, .wrote 1] = ⟨[1, 2], false⟩ :=
  ⟨rfl, rfl⟩

end Adb.Host
