import Adb.Lib.Ensures
import Adb.Transport.Registry

namespace Adb.Transport

open Adb.Lib

def BothFinished (st : Registry) (t : Nat) : Prop :=
  st.threads t .input = .finished ∧ st.threads t .output = .finished

instance (st : Registry) (t : Nat) : Decidable (BothFinished st t) :=
  inferInstanceAs (Decidable (_ ∧ _))

-- The count is never negative, one removal message is posted once both threads
-- have finished and none before, and what is freed was finished with.
structure Lifetime (st : Registry) : Prop where
  ref_nonneg : ∀ t record, st.heap t = some record → 0 ≤ record.refCount
  removed_once : ∀ t, st.removals t = if BothFinished st t then 1 else 0
  freed_after : ∀ t < st.nextTransport, st.heap t = none → BothFinished st t

-- A client's request to disconnect takes no reference away: it does not get to
-- the last section of unregister_transport, and unregister_all_tcp_transports
-- finds nothing to unregister.
def DropsNoReference (st : Registry) (move : Move) : Prop :=
  match move, st.main with
  | .main, .unregUnref _ => False
  | .unregisterAllTcp, _ => st.findListed Registry.isTcp = .ok none
  | _, _ => True

instance (st : Registry) (move : Move) : Decidable (DropsNoReference st move) := by
  unfold DropsNoReference
  split <;> infer_instance

-- The message the main loop is handling, as long as what it asks for is not done.
def MainAt.handling : MainAt → List TMsg
  | .removing t | .freeing t => [⟨t, .remove⟩]
  | .starting t => [⟨t, .register⟩]
  | _ => []

def Registry.inFlight (st : Registry) : List TMsg :=
  st.main.handling ++ st.mailbox

-- The references the two threads still hold.
def heldRefs (threads : Thread → ThreadAt) : Int :=
  (if threads .input = .absent ∧ threads .output = .absent then 0 else 2) -
    (if threads .input = .finished then 1 else 0) - (if threads .output = .finished then 1 else 0)

structure LifetimeInv (st : Registry) : Prop where
  count : ∀ t record, st.heap t = some record → record.refCount = heldRefs (st.threads t)
  removed_once : ∀ t, st.removals t = if BothFinished st t then 1 else 0
  freed_after : ∀ t < st.nextTransport, st.heap t = none → BothFinished st t
  fresh : ∀ t, st.nextTransport ≤ t → st.heap t = none ∧ ∀ thread, st.threads t thread = .absent
  sent_known : ∀ m ∈ st.inFlight, m.transport < st.nextTransport
  removal_sent : ∀ t, ⟨t, .remove⟩ ∈ st.inFlight → BothFinished st t
  register_sent : ∀ t, ⟨t, .register⟩ ∈ st.inFlight → ∀ thread, st.threads t thread = .absent
  register_once : ∀ t, st.inFlight.count ⟨t, .register⟩ ≤ 1
  half_started : ∀ t, st.main = .startOutput t →
    st.threads t .input ≠ .absent ∧ st.threads t .output = .absent

theorem heldRefs_nonneg (threads : Thread → ThreadAt) : 0 ≤ heldRefs threads := by
  unfold heldRefs
  cases threads .input <;> cases threads .output <;> simp

theorem LifetimeInv.lifetime {st : Registry} (h : LifetimeInv st) : Lifetime st where
  ref_nonneg := fun t record hr => h.count t record hr ▸ heldRefs_nonneg _
  removed_once := h.removed_once
  freed_after := h.freed_after

theorem lifetimeInv_init : LifetimeInv registryInit where
  count := by simp [registryInit]
  removed_once := by simp [registryInit, BothFinished]
  freed_after := by simp [registryInit]
  fresh := by simp [registryInit]
  sent_known := by simp [registryInit, Registry.inFlight, MainAt.handling]
  removal_sent := by simp [registryInit, Registry.inFlight, MainAt.handling]
  register_sent := by simp [registryInit, Registry.inFlight, MainAt.handling]
  register_once := by simp [registryInit, Registry.inFlight, MainAt.handling]
  half_started := by simp [registryInit]

-- A step that neither posts a message nor touches a thread or a count.
theorem LifetimeInv.of_same {st after : Registry} (h : LifetimeInv st)
    (hheap : ∀ t, (after.heap t).map (·.refCount) = (st.heap t).map (·.refCount))
    (hthreads : after.threads = st.threads) (hremovals : after.removals = st.removals)
    (hnext : after.nextTransport = st.nextTransport)
    (hsent : after.inFlight.Sublist st.inFlight)
    (hhalf : ∀ t, after.main = .startOutput t → st.main = .startOutput t) :
    LifetimeInv after where
  count := by
    intro t record hr
    have hmap := hheap t
    rw [hr, Option.map_some] at hmap
    obtain ⟨old, ho, hcount⟩ := Option.map_eq_some_iff.mp hmap.symm
    rw [← hcount, hthreads]
    exact h.count t old ho
  removed_once := by
    intro t
    have hiff : BothFinished after t ↔ BothFinished st t := by rw [BothFinished, hthreads]; rfl
    rw [hremovals, h.removed_once t]
    exact if_congr hiff.symm rfl rfl
  freed_after := by
    intro t ht hn
    have hmap := hheap t
    rw [hn, Option.map_none] at hmap
    have hold := h.freed_after t (hnext ▸ ht) (Option.map_eq_none_iff.mp hmap.symm)
    simpa only [BothFinished, hthreads] using hold
  fresh := by
    intro t ht
    obtain ⟨hn, habsent⟩ := h.fresh t (hnext ▸ ht)
    have hmap := hheap t
    rw [hn, Option.map_none] at hmap
    exact ⟨Option.map_eq_none_iff.mp hmap, by rw [hthreads]; exact habsent⟩
  sent_known := fun m hm => hnext ▸ h.sent_known m (hsent.mem hm)
  removal_sent := by
    intro t ht
    simpa only [BothFinished, hthreads] using h.removal_sent t (hsent.mem ht)
  register_sent := fun t ht => hthreads ▸ h.register_sent t (hsent.mem ht)
  register_once := fun t => Nat.le_trans (hsent.count_le _) (h.register_once t)
  half_started := fun t ht => hthreads ▸ h.half_started t (hhalf t ht)

section Operations

variable {st after : Registry} {t : Nat}

theorem Registry.deref_ok {record : ATransport} (h : st.deref t = .ok record) :
    st.heap t = some record := by
  unfold Registry.deref at h
  split at h
  · cases h
    assumption
  · cases h

theorem Registry.unlinkTransport_ok (h : st.unlinkTransport t = .ok after) :
    ∃ links, st.links.unlink (.transport t) = some links ∧
      after = { st with links, onList := Function.update st.onList t false } := by
  unfold Registry.unlinkTransport at h
  split at h
  · split at h
    · cases h
      exact ⟨_, by assumption, rfl⟩
    · cases h
  · cases h

theorem Registry.linkTransport_ok (h : st.linkTransport t = .ok after) :
    (st.heap t).isSome ∧ ∃ links, st.links.insertTail .transportList (.transport t) = some links ∧
      after = { st with links, onList := Function.update st.onList t true } := by
  unfold Registry.linkTransport at h
  split at h
  · rename_i hlive
    split at h
    · cases h
      exact ⟨hlive.1, _, by assumption, rfl⟩
    · cases h
  · cases h

theorem Registry.kickTransport_ok (h : st.kickTransport t = .ok after) :
    ∃ record, st.heap t = some record ∧ after = st.setRecord t { record with kicked := true } := by
  simp only [Registry.kickTransport, bind, Except.bind] at h
  split at h
  · cases h
  · rename_i record hr
    cases h
    exact ⟨record, Registry.deref_ok hr, rfl⟩

theorem Registry.transportUnrefLocked_ok (h : st.transportUnrefLocked t = .ok after) :
    ∃ record, st.heap t = some record ∧
      ((record.refCount - 1 = 0 ∧ ∃ closed : ATransport, closed.refCount = 0 ∧
          after = (st.setRecord t closed).removeTransport t) ∨
        (record.refCount - 1 ≠ 0 ∧
          after = st.setRecord t { record with refCount := record.refCount - 1 })) := by
  simp only [Registry.transportUnrefLocked, bind, Except.bind] at h
  split at h
  · cases h
  · rename_i record hr
    refine ⟨record, Registry.deref_ok hr, ?_⟩
    split at h
    · rename_i hz
      cases h
      refine Or.inl ⟨hz, _, ?_, rfl⟩
      unfold Registry.closeRecord
      split <;> exact hz
    · rename_i hz
      cases h
      exact Or.inr ⟨hz, rfl⟩

-- A turn of the loop on a transport. A TCP transport is taken off the list, kicked and
-- dropped, and the node to go on with was read before.
theorem Registry.unregisterTcpFrom_turn {fuel : Nat}
    (h : Registry.unregisterTcpFrom (fuel + 1) (.transport t) st = .ok after) :
    ∃ record next, st.heap t = some record ∧ st.links.next (.transport t) = some next ∧
      ((Registry.isTcp record = true ∧ ∃ unlinked kicked dropped, st.unlinkTransport t = .ok unlinked ∧
          unlinked.kickTransport t = .ok kicked ∧ kicked.transportUnrefLocked t = .ok dropped ∧
          Registry.unregisterTcpFrom fuel next dropped = .ok after) ∨
        (¬Registry.isTcp record = true ∧ Registry.unregisterTcpFrom fuel next st = .ok after)) := by
  unfold Registry.unregisterTcpFrom at h
  obtain ⟨record, hderef, h⟩ := bind_ok h
  cases hnext : st.links.next (.transport t) with
  | none =>
      rw [hnext] at h
      cases h
  | some next =>
      rw [hnext] at h
      refine ⟨record, next, Registry.deref_ok hderef, rfl, ?_⟩
      by_cases htcp : Registry.isTcp record = true
      · simp only [if_pos htcp] at h
        obtain ⟨unlinked, hunlink, h⟩ := bind_ok h
        obtain ⟨kicked, hkick, h⟩ := bind_ok h
        obtain ⟨dropped, hdrop, h⟩ := bind_ok h
        exact .inl ⟨htcp, unlinked, kicked, dropped, hunlink, hkick, hdrop, h⟩
      · simp only [if_neg htcp] at h
        exact .inr ⟨htcp, h⟩

theorem setRecord_sameCounts {record other : ATransport} (hr : st.heap t = some record)
    (hc : other.refCount = record.refCount) (u : Nat) :
    ((st.setRecord t other).heap u).map (·.refCount) = (st.heap u).map (·.refCount) := by
  by_cases hut : u = t
  · subst hut
    simp [Registry.setRecord, hr, hc]
  · simp [Registry.setRecord, Function.update_of_ne hut]

end Operations

-- The outcome of dropping a reference, for a thread that has not finished.
theorem heldRefs_finish {threads : Thread → ThreadAt} {thread : Thread}
    (hu : threads thread = .unref) :
    heldRefs (Function.update threads thread .finished) = heldRefs threads - 1 := by
  cases thread with
  | input =>
      simp only [heldRefs, Function.update_self, ne_eq, reduceCtorEq, not_false_eq_true,
        Function.update_of_ne, hu, false_and, if_false, if_true]
      omega
  | output => simp [heldRefs, hu]

theorem heldRefs_kicked {threads : Thread → ThreadAt} {thread : Thread}
    (hu : threads thread = .running) :
    heldRefs (Function.update threads thread .unref) = heldRefs threads := by
  cases thread <;> simp [heldRefs, hu]

theorem heldRefs_eq_zero (threads : Thread → ThreadAt) (thread : Thread)
    (hu : threads thread ≠ .absent) :
    heldRefs threads = 0 ↔ threads .input = .finished ∧ threads .output = .finished := by
  unfold heldRefs
  cases thread <;> cases hi : threads .input <;> cases ho : threads .output <;> simp_all

section Steps

variable {st after : Registry} {t : Nat}

theorem LifetimeInv.known (h : LifetimeInv st) {thread : Thread}
    (ha : st.threads t thread ≠ .absent) : t < st.nextTransport := by
  by_contra hge
  exact ha ((h.fresh t (Nat.le_of_not_lt hge)).2 thread)

-- A running thread of t moves on. The count of t follows, and the removal is
-- posted when it was the last one to finish.
theorem LifetimeInv.of_thread (h : LifetimeInv st) {thread : Thread} (phase : ThreadAt)
    (hold : st.threads t thread ≠ .absent ∧ st.threads t thread ≠ .finished)
    (hphase : phase ≠ .absent)
    (hthreads : after.threads = (st.setThread t thread phase).threads)
    (hother : ∀ u, u ≠ t → after.heap u = st.heap u ∧ after.removals u = st.removals u)
    (hrecord : ∃ record, after.heap t = some record ∧ record.refCount = heldRefs (after.threads t))
    (hremoved : after.removals t = if BothFinished after t then 1 else 0)
    (hnext : after.nextTransport = st.nextTransport) (hmain : after.main = st.main)
    (hmail : after.mailbox = st.mailbox ∨
      after.mailbox = st.mailbox ++ [⟨t, .remove⟩] ∧ BothFinished after t) :
    LifetimeInv after := by
  have hsame : ∀ u, u ≠ t → after.threads u = st.threads u := by
    intro u hu
    rw [hthreads]
    exact Function.update_of_ne hu _ _
  have hnot : ¬BothFinished st t := by
    intro hb
    cases thread with
    | input => exact hold.2 hb.1
    | output => exact hold.2 hb.2
  have hfinished : ∀ u, BothFinished st u → BothFinished after u := by
    intro u hb
    have hu : u ≠ t := by rintro rfl; exact hnot hb
    rw [BothFinished, hsame u hu]
    exact hb
  have hregister : ∀ u, ⟨u, .register⟩ ∈ after.inFlight → ⟨u, .register⟩ ∈ st.inFlight ∧ u ≠ t := by
    intro u hu
    have hin : ⟨u, .register⟩ ∈ st.inFlight := by
      rcases hmail with hm | ⟨hm, -⟩ <;> simpa [Registry.inFlight, hm, hmain] using hu
    refine ⟨hin, ?_⟩
    rintro rfl
    exact hold.1 (h.register_sent u hin thread)
  obtain ⟨record, hr, hcount⟩ := hrecord
  exact {
    count := by
      intro u other hu
      by_cases hut : u = t
      · subst hut
        rw [hr, Option.some.injEq] at hu
        rw [← hu, hcount]
      · rw [hsame u hut]
        exact h.count u other ((hother u hut).1 ▸ hu)
    removed_once := by
      intro u
      by_cases hut : u = t
      · rw [hut, hremoved]
      · rw [(hother u hut).2, h.removed_once u]
        exact if_congr (by rw [BothFinished, BothFinished, hsame u hut]) rfl rfl
    freed_after := by
      intro u hu hn
      have hut : u ≠ t := by rintro rfl; simp [hr] at hn
      exact hfinished u (h.freed_after u (hnext ▸ hu) ((hother u hut).1 ▸ hn))
    fresh := by
      intro u hu
      rw [hnext] at hu
      have hut : u ≠ t := by
        rintro rfl
        exact absurd (h.known hold.1) (Nat.not_lt.mpr hu)
      rw [(hother u hut).1, hsame u hut]
      exact h.fresh u hu
    sent_known := by
      intro m hm
      rw [hnext]
      rcases hmail with he | ⟨he, -⟩
      · exact h.sent_known m (by simpa [Registry.inFlight, he, hmain] using hm)
      · simp only [Registry.inFlight, he, hmain, ← List.append_assoc, List.mem_append,
          List.mem_singleton] at hm
        rcases hm with hm | rfl
        · exact h.sent_known m (List.mem_append.mpr hm)
        · exact h.known hold.1
    removal_sent := by
      intro u hu
      rcases hmail with he | ⟨he, hb⟩
      · exact hfinished u (h.removal_sent u (by simpa [Registry.inFlight, he, hmain] using hu))
      · simp only [Registry.inFlight, he, hmain, ← List.append_assoc, List.mem_append,
          List.mem_singleton, TMsg.mk.injEq, and_true] at hu
        rcases hu with hu | rfl
        · exact hfinished u (h.removal_sent u (List.mem_append.mpr hu))
        · exact hb
    register_sent := by
      intro u hu
      obtain ⟨hin, hut⟩ := hregister u hu
      rw [hsame u hut]
      exact h.register_sent u hin
    register_once := by
      intro u
      have := h.register_once u
      rcases hmail with he | ⟨he, -⟩ <;>
        simpa [Registry.inFlight, he, hmain, List.count_append] using this
    half_started := by
      intro u hu
      obtain ⟨hi, ho⟩ := h.half_started u (hmain ▸ hu)
      by_cases hut : u = t
      · subst hut
        cases thread with
        | input => simpa [hthreads, Registry.setThread, hphase] using ho
        | output => exact absurd ho hold.1
      · rw [hsame u hut]
        exact ⟨hi, ho⟩ }

theorem LifetimeInv.not_removed (h : LifetimeInv st) {thread : Thread}
    (hp : st.threads t thread ≠ .finished) : st.removals t = 0 := by
  have hunfinished : ¬BothFinished st t := by
    intro hb
    cases thread with
    | input => exact hp hb.1
    | output => exact hp hb.2
  rw [h.removed_once t, if_neg hunfinished]

theorem threadStep_inv (h : LifetimeInv st) {thread : Thread}
    (hs : threadStep st t thread = .ok after) : LifetimeInv after := by
  simp only [threadStep, bind, Except.bind] at hs
  split at hs
  · rename_i hrun
    split at hs
    · cases hs
    · rename_i kicked hk
      obtain ⟨record, hr, rfl⟩ := Registry.kickTransport_ok hk
      cases hs
      have hphase : st.threads t thread ≠ .absent ∧ st.threads t thread ≠ .finished := by
        simp [hrun]
      refine h.of_thread .unref hphase (by decide) rfl ?_ ?_ ?_ rfl rfl (Or.inl rfl)
      · intro u hu
        exact ⟨Function.update_of_ne hu _ _, rfl⟩
      · refine ⟨{ record with kicked := true }, by simp, ?_⟩
        rw [Registry.setThread_threads_self, Registry.setRecord_threads, heldRefs_kicked hrun]
        exact h.count t record hr
      · rw [if_neg]
        · exact h.not_removed hphase.2
        · cases thread <;> simp [BothFinished]
  · rename_i hrun
    split at hs
    · cases hs
    · rename_i dropped hd
      obtain ⟨record, hr, hcase⟩ := Registry.transportUnrefLocked_ok hd
      cases hs
      have hcount := h.count t record hr
      have hheld := heldRefs_finish hrun
      have hzero := heldRefs_eq_zero (Function.update (st.threads t) thread .finished)
        thread (by simp)
      have hphase : st.threads t thread ≠ .absent ∧ st.threads t thread ≠ .finished := by
        simp [hrun]
      rcases hcase with ⟨hz, closed, hclosed, rfl⟩ | ⟨hz, rfl⟩
      · -- the last reference: the removal is posted
        have hboth : BothFinished (((st.setRecord t closed).removeTransport t).setThread t
            thread .finished) t := by
          simpa [BothFinished] using hzero.mp (by omega)
        refine h.of_thread .finished hphase (by decide) rfl ?_ ?_ ?_ rfl rfl
          (Or.inr ⟨rfl, hboth⟩)
        · intro u hu
          exact ⟨Function.update_of_ne hu _ _, Function.update_of_ne hu _ _⟩
        · refine ⟨closed, by simp, ?_⟩
          simp only [Registry.setThread_threads_self, Registry.removeTransport_threads,
            Registry.setRecord_threads]
          omega
        · rw [if_pos hboth]
          simp [Registry.setThread, Registry.removeTransport, Registry.setRecord, Registry.post,
            h.not_removed hphase.2]
      · refine h.of_thread .finished hphase (by decide) rfl ?_ ?_ ?_ rfl rfl
          (Or.inl rfl)
        · intro u hu
          exact ⟨Function.update_of_ne hu _ _, rfl⟩
        · refine ⟨_, by simp only [Registry.setThread_heap, Registry.setRecord_heap_self]; rfl, ?_⟩
          simp only [Registry.setThread_threads_self, Registry.setRecord_threads]
          omega
        · rw [if_neg]
          · exact h.not_removed hphase.2
          · intro hb
            refine hz ?_
            have := hzero.mpr (by simpa [BothFinished] using hb)
            omega
  · cases hs

theorem register_inv (h : LifetimeInv st) {record : ATransport} (hz : record.refCount = 0) :
    LifetimeInv (st.registerTransport record) := by
  have habsent := (h.fresh _ (Nat.le_refl st.nextTransport)).2
  have hold : ∀ t, t ≠ st.nextTransport → (st.registerTransport record).heap t = st.heap t :=
    fun t ht => Function.update_of_ne ht _ _
  have hsent : (st.registerTransport record).inFlight =
      st.inFlight ++ [⟨st.nextTransport, .register⟩] := by
    simp [Registry.registerTransport, Registry.inFlight, Registry.post, Registry.setRecord]
  exact {
    count := by
      intro t other ht
      by_cases hn : t = st.nextTransport
      · subst hn
        simp only [Registry.registerTransport, Registry.post, Registry.setRecord,
          Function.update_self, Option.some.injEq] at ht
        subst ht
        simp [Registry.registerTransport, Registry.post, Registry.setRecord, heldRefs, habsent, hz]
      · exact h.count t other (hold t hn ▸ ht)
    removed_once := h.removed_once
    freed_after := by
      intro t ht hn
      have hne : t ≠ st.nextTransport := by
        rintro rfl
        simp [Registry.registerTransport, Registry.post, Registry.setRecord] at hn
      have hlt : t < st.nextTransport + 1 := ht
      exact h.freed_after t (by omega) (hold t hne ▸ hn)
    fresh := by
      intro t ht
      have hge : st.nextTransport + 1 ≤ t := ht
      rw [hold t (by omega)]
      exact h.fresh t (by omega)
    sent_known := by
      intro m hm
      rw [hsent, List.mem_append, List.mem_singleton] at hm
      have hlt : m.transport ≤ st.nextTransport := by
        rcases hm with hm | rfl
        · exact Nat.le_of_lt (h.sent_known m hm)
        · exact Nat.le_refl _
      exact Nat.lt_succ_of_le hlt
    removal_sent := by
      intro t ht
      rw [hsent] at ht
      exact h.removal_sent t (by simpa using ht)
    register_sent := by
      intro t ht
      rw [hsent, List.mem_append] at ht
      rcases ht with ht | ht
      · exact h.register_sent t ht
      · obtain rfl : t = st.nextTransport := by simpa using ht
        exact habsent
    register_once := by
      intro t
      rw [hsent, List.count_append]
      by_cases hn : t = st.nextTransport
      · subst hn
        have hzero : st.inFlight.count ⟨st.nextTransport, .register⟩ = 0 := by
          rw [List.count_eq_zero]
          intro hm
          exact absurd (h.sent_known _ hm) (Nat.lt_irrefl _)
        simp [hzero]
      · have hne : (⟨st.nextTransport, .register⟩ : TMsg) ≠ ⟨t, .register⟩ := by
          simpa using Ne.symm hn
        simpa [List.count_singleton, hne] using h.register_once t
    half_started := h.half_started }

theorem unlink_inv (h : LifetimeInv st) (hu : st.unlinkTransport t = .ok after) (main : MainAt)
    (hsent : main.handling.Sublist st.main.handling) (hhalf : ∀ u, main ≠ .startOutput u) :
    LifetimeInv { after with main := main } := by
  obtain ⟨links, -, rfl⟩ := Registry.unlinkTransport_ok hu
  exact h.of_same (fun _ => rfl) rfl rfl rfl (hsent.append (List.Sublist.refl _))
    (fun u hu => absurd hu (hhalf u))

theorem kick_inv (h : LifetimeInv st) (hk : st.kickTransport t = .ok after) (main : MainAt)
    (hsent : main.handling.Sublist st.main.handling) (hhalf : ∀ u, main ≠ .startOutput u) :
    LifetimeInv { after with main := main } := by
  obtain ⟨record, hr, rfl⟩ := Registry.kickTransport_ok hk
  exact h.of_same (setRecord_sameCounts hr rfl) rfl rfl rfl (hsent.append (List.Sublist.refl _))
    (fun u hu => absurd hu (hhalf u))

theorem link_inv (h : LifetimeInv st) (hl : st.linkTransport t = .ok after) (main : MainAt)
    (hsent : main.handling.Sublist st.main.handling) (hhalf : ∀ u, main ≠ .startOutput u) :
    LifetimeInv { after with main := main } := by
  obtain ⟨-, links, -, rfl⟩ := Registry.linkTransport_ok hl
  exact h.of_same (fun _ => rfl) rfl rfl rfl (hsent.append (List.Sublist.refl _))
    (fun u hu => absurd hu (hhalf u))

-- A transport that is freed was removed, and its removal was posted when both
-- threads had finished.
theorem free_inv (h : LifetimeInv st) (hm : st.main = .freeing t) :
    LifetimeInv { st with heap := Function.update st.heap t none, main := .idle } where
  count := by
    intro u record hu
    by_cases hut : u = t
    · subst hut
      simp at hu
    · simp only [Function.update_of_ne hut] at hu
      exact h.count u record hu
  removed_once := h.removed_once
  freed_after := by
    intro u hu hn
    by_cases hut : u = t
    · subst hut
      exact h.removal_sent u (by simp [Registry.inFlight, hm, MainAt.handling])
    · simp only [Function.update_of_ne hut] at hn
      exact h.freed_after u hu hn
  fresh := by
    intro u hu
    obtain ⟨hn, habsent⟩ := h.fresh u hu
    refine ⟨?_, habsent⟩
    by_cases hut : u = t
    · subst hut
      simp
    · simp only [Function.update_of_ne hut, hn]
  sent_known := fun m hmem => h.sent_known m (List.mem_append_right _ hmem)
  removal_sent := fun u hu => h.removal_sent u (List.mem_append_right _ hu)
  register_sent := fun u hu => h.register_sent u (List.mem_append_right _ hu)
  register_once := fun u =>
    Nat.le_trans ((List.sublist_append_right _ _).count_le _) (h.register_once u)
  half_started := by simp

-- ref_count = 2, and the input thread is created.
theorem start_inv (h : LifetimeInv st) (hm : st.main = .starting t) {record : ATransport}
    (hr : st.heap t = some record) :
    LifetimeInv { (st.setRecord t { record with refCount := 2 }).setThread t .input .running with
      main := .startOutput t } := by
  have hin : (⟨t, .register⟩ : TMsg) ∈ st.inFlight := by
    simp [Registry.inFlight, hm, MainAt.handling]
  have habsent := h.register_sent t hin
  have hlt := h.sent_known _ hin
  have hnomore : (⟨t, .register⟩ : TMsg) ∉ st.mailbox := by
    have := h.register_once t
    simp only [Registry.inFlight, hm, MainAt.handling, List.singleton_append,
      List.count_cons_self] at this
    rw [← List.count_eq_zero]
    omega
  have hsame : ∀ u, u ≠ t →
      Function.update st.threads t (Function.update (st.threads t) .input .running) u =
        st.threads u := fun u hu => Function.update_of_ne hu _ _
  have hfinished : ∀ u, BothFinished st u → u ≠ t := by
    rintro u hb rfl
    simp [BothFinished, habsent] at hb
  exact {
    count := by
      intro u other hu
      by_cases hut : u = t
      · subst hut
        simp only [Registry.setThread_heap, Registry.setRecord_heap_self, Option.some.injEq] at hu
        subst hu
        simp [heldRefs, habsent]
      · simp only [Registry.setThread, Registry.setRecord, Function.update_of_ne hut] at hu ⊢
        exact h.count u other hu
    removed_once := by
      intro u
      by_cases hut : u = t
      · subst hut
        simp [BothFinished, Registry.setThread, Registry.setRecord, habsent, h.removed_once]
      · simp only [Registry.setThread, Registry.setRecord, BothFinished, hsame u hut]
        exact h.removed_once u
    freed_after := by
      intro u hu hn
      have hut : u ≠ t := by rintro rfl; simp at hn
      simp only [Registry.setThread, Registry.setRecord, Function.update_of_ne hut] at hn
      simp only [Registry.setThread, Registry.setRecord, BothFinished, hsame u hut]
      exact h.freed_after u hu hn
    fresh := by
      intro u hu
      have hut : u ≠ t := by rintro rfl; exact absurd hlt (Nat.not_lt.mpr hu)
      simp only [Registry.setThread, Registry.setRecord, Function.update_of_ne hut]
      exact h.fresh u hu
    sent_known := fun m hmem => h.sent_known m (List.mem_append_right _ hmem)
    removal_sent := by
      intro u hu
      have hb := h.removal_sent u (List.mem_append_right _ hu)
      simp only [Registry.setThread, Registry.setRecord, BothFinished, hsame u (hfinished u hb)]
      exact hb
    register_sent := by
      intro u hu
      have hut : u ≠ t := by rintro rfl; exact hnomore hu
      simp only [Registry.setThread, Registry.setRecord, hsame u hut]
      exact h.register_sent u (List.mem_append_right _ hu)
    register_once := fun u =>
      Nat.le_trans ((List.sublist_append_right _ _).count_le _) (h.register_once u)
    half_started := by
      intro u hu
      obtain rfl : t = u := by simpa using hu
      simp [habsent] }

theorem startOutput_inv (h : LifetimeInv st) (hm : st.main = .startOutput t) :
    LifetimeInv { st.setThread t .output .running with main := .linking t } := by
  obtain ⟨hinput, houtput⟩ := h.half_started t hm
  have hsame : ∀ u, u ≠ t →
      Function.update st.threads t (Function.update (st.threads t) .output .running) u =
        st.threads u := fun u hu => Function.update_of_ne hu _ _
  have hfinished : ∀ u, BothFinished st u → u ≠ t := by
    rintro u hb rfl
    simp [BothFinished, houtput] at hb
  exact {
    count := by
      intro u other hu
      by_cases hut : u = t
      · subst hut
        have := h.count u other hu
        simpa [heldRefs, hinput, houtput] using this
      · simp only [Registry.setThread, hsame u hut]
        exact h.count u other hu
    removed_once := by
      intro u
      by_cases hut : u = t
      · subst hut
        simp [BothFinished, Registry.setThread, houtput, h.removed_once]
      · simp only [Registry.setThread, BothFinished, hsame u hut]
        exact h.removed_once u
    freed_after := by
      intro u hu hn
      have hb := h.freed_after u hu hn
      simp only [Registry.setThread, BothFinished, hsame u (hfinished u hb)]
      exact hb
    fresh := by
      intro u hu
      have hut : u ≠ t := by rintro rfl; exact absurd (h.known hinput) (Nat.not_lt.mpr hu)
      simp only [Registry.setThread, hsame u hut]
      exact h.fresh u hu
    sent_known := fun m hmem => h.sent_known m (List.mem_append_right _ hmem)
    removal_sent := by
      intro u hu
      have hb := h.removal_sent u (List.mem_append_right _ hu)
      simp only [Registry.setThread, BothFinished, hsame u (hfinished u hb)]
      exact hb
    register_sent := by
      intro u hu
      have hold := h.register_sent u (List.mem_append_right _ hu)
      have hut : u ≠ t := by rintro rfl; exact hinput (hold .input)
      simp only [Registry.setThread, hsame u hut]
      exact hold
    register_once := fun u =>
      Nat.le_trans ((List.sublist_append_right _ _).count_le _) (h.register_once u)
    half_started := by simp }

theorem mainStep_inv (h : LifetimeInv st) (hg : ∀ t, st.main ≠ .unregUnref t)
    (hs : mainStep st = .ok after) : LifetimeInv after := by
  simp only [mainStep, bind, Except.bind] at hs
  split at hs
  case h_1 hm =>
    split at hs
    · cases hs
    · rename_i t rest hbox
      cases hs
      refine h.of_same (fun _ => rfl) rfl rfl rfl ?_ (by simp)
      simp [Registry.inFlight, hbox, MainAt.handling]
    · rename_i t rest hbox
      cases hs
      refine h.of_same (fun _ => rfl) rfl rfl rfl ?_ (by simp)
      simp [Registry.inFlight, hbox, MainAt.handling]
  case h_2 t hm =>
    split at hs
    · cases hs
    · rename_i unlinked hu
      cases hs
      exact unlink_inv h hu _ (by simp [hm, MainAt.handling]) (by simp)
  case h_3 t hm =>
    split at hs
    · cases hs
    · cases hs
      exact free_inv h hm
  case h_4 t hm =>
    split at hs
    · cases hs
    · rename_i record hr
      split at hs
      · cases hs
        exact start_inv h hm (Registry.deref_ok hr)
      · cases hs
        refine h.of_same (fun _ => rfl) rfl rfl rfl ?_ (by simp)
        simp [Registry.inFlight, hm, MainAt.handling]
  case h_5 t hm =>
    cases hs
    exact startOutput_inv h hm
  case h_6 t hm =>
    split at hs
    · cases hs
    · rename_i linked hl
      cases hs
      exact link_inv h hl _ (by simp [MainAt.handling]) (by simp)
  case h_7 t hm =>
    split at hs
    · cases hs
    · rename_i unlinked hu
      cases hs
      exact unlink_inv h hu _ (by simp [MainAt.handling]) (by simp)
  case h_8 t hm =>
    split at hs
    · cases hs
    · rename_i kicked hk
      cases hs
      exact kick_inv h hk _ (by simp [MainAt.handling]) (by simp)
  case h_9 t hm => exact absurd hm (hg t)

-- Nothing to unregister: the loop comes back to the head with nothing done.
theorem unregisterTcpFrom_none {fuel : Nat} {r : TRef}
    (hf : st.findFrom Registry.isTcp fuel r = .ok none) :
    Registry.unregisterTcpFrom fuel r st = .ok st := by
  induction fuel generalizing r with
  | zero => cases hf
  | succ fuel ih =>
      cases r with
      | transportList => rfl
      | transport t =>
          simp only [Registry.findFrom, bind, Except.bind] at hf
          simp only [Registry.unregisterTcpFrom, bind, Except.bind]
          split at hf
          · cases hf
          · split at hf
            · cases hf
            · rename_i record _ hn
              split at hf
              · rename_i next hnext
                simp only [hnext, hn, Bool.false_eq_true, if_false]
                exact ih hf
              · cases hf

theorem step_inv (st : Registry) (move : Move) (after : Registry) (h : LifetimeInv st)
    (hg : DropsNoReference st move) (hs : step st move = .ok after) : LifetimeInv after := by
  cases move with
  | registerSocket serial adbPort isLocal =>
      cases hs
      exact register_inv h rfl
  | registerUsb usb serial writeable =>
      cases hs
      exact register_inv h rfl
  | main =>
      refine mainStep_inv h ?_ hs
      intro t hm
      simp [DropsNoReference, hm] at hg
  | thread t thread => exact threadStep_inv h hs
  | unregister serial =>
      simp only [step, bind, Except.bind] at hs
      split at hs
      · rename_i hm
        split at hs
        · cases hs
        · split at hs
          · cases hs
            refine h.of_same (fun _ => rfl) rfl rfl rfl ?_ (by simp)
            simp [Registry.inFlight, hm, MainAt.handling]
          · cases hs
            exact h
      · cases hs
  | unregisterAllTcp =>
      simp only [step] at hs
      split at hs
      · simp only [DropsNoReference, Registry.findListed] at hg
        simp only [Registry.unregisterAllTcpTransports] at hs
        split at hs
        · rename_i first hfirst
          rw [hfirst] at hg
          rw [unregisterTcpFrom_none hg] at hs
          cases hs
          exact h
        · cases hs
      · cases hs
  | unregisterUsb usb =>
      simp only [step, Registry.unregisterUsbTransport, bind, Except.bind] at hs
      split at hs
      · cases hs
      · split at hs
        · obtain ⟨links, -, rfl⟩ := Registry.unlinkTransport_ok hs
          exact h.of_same (fun _ => rfl) rfl rfl rfl (List.Sublist.refl _) (fun _ => id)
        · cases hs
          exact h

end Steps

-- As long as no request to disconnect drops a reference, every interleaving
-- keeps the count at the references the threads hold, posts one removal when
-- both have finished, and frees nothing before that.
theorem transport_lifetime (moves : List Move) (st : Registry)
    (hg : Guarded step DropsNoReference registryInit moves)
    (hr : run step registryInit moves = .ok st) : Lifetime st :=
  (guarded_invariant step_inv lifetimeInv_init hg hr).lifetime

-- A device is registered, starts, dies and is freed.
theorem transport_lifetime_of_one_device :
    ∃ st, st.heap 0 = none ∧ st.removals 0 = 1 ∧ Lifetime st :=
  ⟨_, rfl, rfl, transport_lifetime
    [.registerSocket [97] 0 false, .main, .main, .main, .main, .thread 0 .input,
      .thread 0 .output, .thread 0 .output, .thread 0 .input, .main, .main, .main] _
    (by decide) rfl⟩

-- The input thread exits, then a client disconnects the device: the last of the
-- two references is gone, and the output thread still runs when the transport
-- is freed.
theorem disconnect_frees_under_a_thread :
    ¬ ∀ (moves : List Move) (st : Registry),
      run step registryInit moves = .ok st → Lifetime st := by
  intro h
  have hlife := h [.registerSocket [97] 0 false, .main, .main, .main, .main, .thread 0 .input,
    .thread 0 .input, .unregister [97], .main, .main, .main, .main, .main, .main] _ rfl
  have hfinished := (hlife.freed_after 0 (by decide) rfl).2
  exact absurd hfinished (by decide)

end Adb.Transport
