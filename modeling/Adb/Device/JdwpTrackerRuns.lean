import Adb.Device.JdwpTrackers

namespace Adb.Device

open Adb.Lib
open Adb.Host (Bytes MAX_PAYLOAD hex4)

section Log

variable {log : List (Nat × Bytes)} {trackers : List Nat} {t : Nat}

theorem sentTo_append (log more : List (Nat × Bytes)) (t : Nat) :
    sentTo (log ++ more) t = sentTo log t ++ sentTo more t :=
  List.filterMap_append

theorem sentTo_update_of_not_mem (buffer : Bytes) (h : t ∉ trackers) :
    sentTo (trackers.map fun u => (u, buffer)) t = [] := by
  rw [sentTo, List.filterMap_eq_nil_iff]
  intro entry hentry
  obtain ⟨u, hu, rfl⟩ := List.mem_map.mp hentry
  have hne : u ≠ t := fun heq => h (heq ▸ hu)
  simp [hne]

-- One pass over the trackers is one packet for each of them.
theorem sentTo_update (buffer : Bytes) (hnodup : trackers.Nodup) (ht : t ∈ trackers) :
    sentTo (trackers.map fun u => (u, buffer)) t = [buffer] := by
  induction trackers with
  | nil => cases ht
  | cons u rest ih =>
      obtain ⟨hu, hrest⟩ := List.nodup_cons.mp hnodup
      have hsplit : sentTo ((u :: rest).map fun u => (u, buffer)) t =
          sentTo [(u, buffer)] t ++ sentTo (rest.map fun u => (u, buffer)) t :=
        sentTo_append [(u, buffer)] _ t
      rw [hsplit]
      by_cases hut : u = t
      · subst hut
        rw [sentTo_update_of_not_mem buffer hu]
        simp [sentTo]
      · have hmem : t ∈ rest := (List.mem_cons.mp ht).resolve_left (Ne.symm hut)
        rw [ih hrest hmem]
        simp [sentTo, hut]

end Log

section Runs

variable {ad after : Adbd} {p t : Nat} {proc : JdwpProcess} {jdwp : JdwpState}

-- The first packet comes from the ready function, with the whole of its data, the
-- others come from jdwp_process_list_updated.
def bufferSize (earlier : List Bytes) : Nat := if earlier = [] then MAX_PAYLOAD else UPDATE_SIZE

-- What holds at any time: each tracker has been sent something, nobody has who is not
-- there yet, and what has been sent is in good order.
structure Adbd.Sound (ad : Adbd) : Prop where
  listed : Listed ad.jdwp
  small : SmallPids ad.jdwp
  nodup : ad.trackers.Nodup
  born : ∀ t ∈ ad.trackers, t < ad.fresh
  early : ∀ t, ad.fresh ≤ t → sentTo ad.log t = []
  settled : ∀ t ∈ ad.trackers, ad.needUpdate t = false
  greeted : ∀ t ∈ ad.trackers, sentTo ad.log t ≠ []
  framed : ∀ entry ∈ ad.log, Framed entry.2

-- The last packet of each tracker is the list as it is now.
def Adbd.Told (ad : Adbd) : Prop :=
  ∀ t ∈ ad.trackers, ∃ earlier, sentTo ad.log t =
    earlier ++ [jdwpProcessListMsg (knownPids ad.jdwp) (bufferSize earlier)]

theorem Adbd.Sound.withJdwp (h : ad.Sound) (hlisted : Listed jdwp) (hsmall : SmallPids jdwp) :
    ({ ad with jdwp } : Adbd).Sound :=
  ⟨hlisted, hsmall, h.nodup, h.born, h.early, h.settled, h.greeted, h.framed⟩

theorem Adbd.Told.withJdwp (h : ad.Told) (hknown : knownPids jdwp = knownPids ad.jdwp) :
    ({ ad with jdwp } : Adbd).Told := by
  intro t ht
  obtain ⟨earlier, hsent⟩ := h t ht
  exact ⟨earlier, by rw [hknown]; exact hsent⟩

theorem Adbd.Sound.pids (h : ad.Sound) : ∃ pids, jdwpPids ad.jdwp ad.jdwp.jdwpList = .ok pids ∧
    ∀ size, jdwpProcessListMsg pids size = jdwpProcessListMsg (knownPids ad.jdwp) size :=
  ⟨_, jdwpPids_there h.listed.there, fun size => (jdwpProcessListMsg_known _ size).symm⟩

-- The list goes out, whatever the trackers have known before.
theorem Adbd.Sound.updated (h : ad.Sound) :
    ∃ after, ad.jdwpProcessListUpdated = .ok after ∧ after.jdwp = ad.jdwp ∧ after.Sound ∧
      after.Told := by
  obtain ⟨pids, hpids, hmsg⟩ := h.pids
  obtain ⟨buffer, hbuffer⟩ : ∃ buffer, buffer = jdwpProcessListMsg pids UPDATE_SIZE := ⟨_, rfl⟩
  have hsent : ∀ t, t ∉ ad.trackers →
      sentTo (ad.log ++ ad.trackers.map fun t => (t, buffer)) t = sentTo ad.log t := by
    intro t ht
    rw [sentTo_append, sentTo_update_of_not_mem buffer ht, List.append_nil]
  have htold : ∀ t ∈ ad.trackers,
      sentTo (ad.log ++ ad.trackers.map fun t => (t, buffer)) t = sentTo ad.log t ++ [buffer] := by
    intro t ht
    rw [sentTo_append, sentTo_update buffer h.nodup ht]
  refine ⟨{ ad with log := ad.log ++ ad.trackers.map fun t => (t, buffer) }, ?_, rfl, ?_, ?_⟩
  · simp only [jdwpProcessListUpdated, hpids, bind, Except.bind, pure, Except.pure, hbuffer]
  · refine ⟨h.listed, h.small, h.nodup, h.born, fun t ht => ?_, h.settled, fun t ht => ?_,
      fun entry hentry => ?_⟩
    · have hnot : t ∉ ad.trackers := fun hmem => absurd (h.born t hmem) (Nat.not_lt.mpr ht)
      exact (hsent t hnot).trans (h.early t ht)
    · show sentTo (ad.log ++ ad.trackers.map fun t => (t, buffer)) t ≠ []
      rw [htold t ht]
      simp
    · obtain hold | hnew := List.mem_append.mp hentry
      · exact h.framed entry hold
      · obtain ⟨u, -, rfl⟩ := List.mem_map.mp hnew
        rw [hbuffer]
        exact framed_msg pids (by decide) (by decide)
  · intro t ht
    refine ⟨sentTo ad.log t, ?_⟩
    rw [bufferSize, if_neg (h.greeted t ht), ← hmsg, ← hbuffer]
    exact htold t ht

-- Good before a handler runs and after it.
structure Adbd.Current (ad : Adbd) : Prop where
  sound : ad.Sound
  told : ad.Told

theorem Adbd.Current.write (h : ad.Current) (hproc : ad.jdwp.heap p = some proc)
    (calls : EventCalls) :
    ∃ after, ad.processWrite p proc calls = .ok after ∧ after.Current := by
  have hsound := h.sound.withJdwp (h.sound.listed.write p proc calls)
    (h.sound.small.write (h.sound.small p proc hproc) p calls)
  unfold processWrite
  cases hgone : ((jdwpWrite ad.jdwp p proc calls).heap p).isNone with
  | true =>
      obtain ⟨after, hafter, -, hok, htold⟩ := hsound.updated
      exact ⟨after, by simpa only [hgone, if_true] using hafter, hok, htold⟩
  | false =>
      refine ⟨_, by simp only [hgone, Bool.false_eq_true, if_false], hsound, ?_⟩
      exact h.told.withJdwp (knownPids_write hproc calls hgone)

theorem Adbd.Current.event (h : ad.Current) (hproc : ad.jdwp.heap p = some proc)
    (calls : EventCalls) :
    ∃ after, ad.processEvent p calls = .ok after ∧ after.Current := by
  have hsmall := h.sound.small p proc hproc
  -- the rest of the handler, once FDE_READ is dealt with
  have hrest : ∀ (here : Adbd) (proc' : JdwpProcess), here.Current → here.jdwp.heap p = some proc' →
      ∃ after, (if calls.write then here.processWrite p proc' calls else return here) = .ok after ∧
        after.Current := by
    intro here proc' hhere hthere
    split
    · exact hhere.write hthere calls
    · exact ⟨here, rfl, hhere⟩
  simp only [processEvent, hproc]
  cases hread : calls.read with
  | false =>
      have hsame : knownPids (ad.jdwp.put p (some proc)) = knownPids ad.jdwp :=
        knownPids_put hproc rfl
      have hhere : ({ ad with jdwp := ad.jdwp.put p (some proc) } : Adbd).Current :=
        ⟨h.sound.withJdwp (h.sound.listed.put p proc) (h.sound.small.put p proc hsmall),
          h.told.withJdwp hsame⟩
      exact hrest _ proc hhere (Function.update_self ..)
  | true =>
      have hpid := jdwpRead_pid proc calls.recvs
      simp only [if_true]
      cases hends : jdwpRead proc calls.recvs with
      | returns proc' =>
          rw [hends] at hpid
          have hsame : knownPids (ad.jdwp.put p (some proc')) = knownPids ad.jdwp :=
            knownPids_put hproc hpid
          exact ⟨_, rfl, h.sound.withJdwp (h.sound.listed.put p proc')
            (h.sound.small.put p proc' (hpid ▸ hsmall)), h.told.withJdwp hsame⟩
      | closeProcess proc' =>
          obtain ⟨after, hafter, -, hsound,
              htold⟩ := (h.sound.withJdwp (h.sound.listed.free p proc')
            (h.sound.small.free p proc')).updated
          exact ⟨after, hafter, hsound, htold⟩
      | goesOn proc' =>
          rw [hends] at hpid
          obtain ⟨here, hupdated, hjdwp, hsound,
              htold⟩ := (h.sound.withJdwp (h.sound.listed.put p proc')
            (h.sound.small.put p proc' hpid)).updated
          have hthere : here.jdwp.heap p = some proc' := by
            rw [hjdwp]
            exact Function.update_self ..
          simp only [hupdated, bind, Except.bind]
          exact hrest here proc' ⟨hsound, htold⟩ hthere

theorem Adbd.Current.control (h : ad.Current) (allocs : Bool) :
    ({ ad with jdwp := jdwpControlEvent ad.jdwp allocs } : Adbd).Current :=
  ⟨h.sound.withJdwp (h.sound.listed.control allocs) (h.sound.small.control allocs),
    h.told.withJdwp (knownPids_control h.sound.listed allocs)⟩

theorem Adbd.Current.create {pid : Int} {pairs : Bool} (h : ad.Current)
    (hstep : jdwpStep ad.jdwp (.create pid pairs) = .ok jdwp) :
    ({ ad with jdwp } : Adbd).Current := by
  have hlisted := step_listed h.sound.listed hstep
  obtain rfl | ⟨p, proc, hproc, -, rfl⟩ := create_cases hstep
  · exact h
  · have hsmall :=
      h.sound.small.put p (proc.enqueue (ad.jdwp.created + 1)) (h.sound.small p proc hproc)
    have hknown : knownPids (ad.jdwp.put p (some (proc.enqueue (ad.jdwp.created + 1)))) =
        knownPids ad.jdwp :=
      knownPids_put hproc rfl
    exact ⟨h.sound.withJdwp hlisted hsmall, h.told.withJdwp hknown⟩

-- A new tracker is told at once.
theorem Adbd.Current.track (h : ad.Current) : ∃ after,
    ad.createJdwpTrackerServiceSocket.jdwpTrackerReady ad.fresh = .ok after ∧ after.Current := by
  obtain ⟨pids, hpids, hmsg⟩ := h.sound.pids
  have hnew : ad.fresh ∉ ad.trackers := fun hmem => absurd (h.sound.born _ hmem) (Nat.lt_irrefl _)
  obtain ⟨first, hfirst⟩ : ∃ first, first = jdwpProcessListMsg pids MAX_PAYLOAD := ⟨_, rfl⟩
  have hothers : ∀ t, t ≠ ad.fresh →
      sentTo (ad.log ++ [(ad.fresh, first)]) t = sentTo ad.log t := by
    intro t ht
    rw [sentTo_append]
    simp [sentTo, Ne.symm ht]
  have hself : sentTo (ad.log ++ [(ad.fresh, first)]) ad.fresh = [first] := by
    rw [sentTo_append, h.sound.early _ (Nat.le_refl _)]
    simp [sentTo]
  have hready : ad.createJdwpTrackerServiceSocket.jdwpTrackerReady ad.fresh = .ok { ad with
      trackers := ad.trackers ++ [ad.fresh]
      needUpdate := Function.update (Function.update ad.needUpdate ad.fresh true) ad.fresh false
      fresh := ad.fresh + 1
      log := ad.log ++ [(ad.fresh, first)] } := by
    simp only [createJdwpTrackerServiceSocket, jdwpTrackerReady, Function.update_self,
      if_true, hpids, bind, Except.bind, pure, Except.pure, hfirst]
  refine ⟨_, hready, ⟨h.sound.listed, h.sound.small, ?_, ?_, ?_, ?_, ?_, ?_⟩, ?_⟩
  · show (ad.trackers ++ [ad.fresh]).Nodup
    rw [List.nodup_append]
    exact ⟨h.sound.nodup, List.nodup_singleton _, fun a ha b hb heq =>
      hnew (List.mem_singleton.mp hb ▸ heq ▸ ha)⟩
  · intro t ht
    obtain hold | hlast := List.mem_append.mp ht
    · exact Nat.lt_succ_of_lt (h.sound.born t hold)
    · rw [List.mem_singleton.mp hlast]
      exact Nat.lt_succ_self _
  · intro t ht
    have hlt : ad.fresh < t := ht
    exact (hothers t (by omega)).trans (h.sound.early t (by omega))
  · intro t ht
    by_cases hself' : t = ad.fresh
    · rw [hself']
      exact Function.update_self ..
    · have hold : t ∈ ad.trackers := (List.mem_append.mp ht).resolve_right fun hlast =>
        hself' (List.mem_singleton.mp hlast)
      simp only [Function.update_of_ne hself']
      exact h.sound.settled t hold
  · intro t ht
    show sentTo (ad.log ++ [(ad.fresh, first)]) t ≠ []
    obtain hold | hlast := List.mem_append.mp ht
    · rw [hothers t fun heq => hnew (heq ▸ hold)]
      exact h.sound.greeted t hold
    · rw [List.mem_singleton.mp hlast, hself]
      simp
  · intro entry hentry
    obtain hold | hlast := List.mem_append.mp hentry
    · exact h.sound.framed entry hold
    · rw [List.mem_singleton.mp hlast, hfirst]
      exact framed_msg pids (by decide) (by decide)
  · intro t ht
    obtain hold | hlast := List.mem_append.mp ht
    · obtain ⟨earlier, hsent⟩ := h.told t hold
      exact ⟨earlier, (hothers t fun heq => hnew (heq ▸ hold)).trans hsent⟩
    · refine ⟨[], ?_⟩
      rw [List.mem_singleton.mp hlast, bufferSize, if_pos rfl, ← hmsg, ← hfirst]
      exact hself

theorem Adbd.Current.close (h : ad.Current) (t : Nat) : (ad.jdwpTrackerClose t).Current := by
  have hfewer : ∀ u ∈ ad.trackers.erase t, u ∈ ad.trackers := fun u hu => List.mem_of_mem_erase hu
  refine ⟨⟨h.sound.listed, h.sound.small, h.sound.nodup.erase t, ?_, h.sound.early, ?_, ?_,
    h.sound.framed⟩, ?_⟩
  · exact fun u hu => h.sound.born u (hfewer u hu)
  · exact fun u hu => h.sound.settled u (hfewer u hu)
  · exact fun u hu => h.sound.greeted u (hfewer u hu)
  · exact fun u hu => h.told u (hfewer u hu)

-- An A_OKAY brings nothing new: the tracker has been made ready by the A_OPEN.
theorem Adbd.Sound.ready_again (h : ad.Sound) (ht : t ∈ ad.trackers) :
    ad.jdwpTrackerReady t = .ok ad := by
  rw [jdwpTrackerReady, h.settled t ht, if_neg (by decide)]

theorem adbdStep_current {call : AdbdCall} (h : ad.Current) (hstep : adbdStep ad call = .ok after) :
    after.Current := by
  cases call with
  | control allocs =>
      cases hstep
      exact h.control allocs
  | event p calls =>
      cases hproc : ad.jdwp.heap p with
      | none =>
          simp only [adbdStep, Adbd.processEvent, hproc] at hstep
          cases hstep
      | some proc =>
          obtain ⟨next, hnext, hcurrent⟩ := h.event hproc calls
          obtain rfl : next = after := Except.ok.inj (hnext.symm.trans hstep)
          exact hcurrent
  | create pid pairs =>
      cases hcreate : createJdwpConnectionFd ad.jdwp pid pairs with
      | error e =>
          simp only [adbdStep, hcreate] at hstep
          cases hstep
      | ok r =>
          have hjdwp : jdwpStep ad.jdwp (.create pid pairs) = .ok r.2 := by
            simp only [jdwpStep, hcreate, Except.map]
          simp only [adbdStep, hcreate, Except.map] at hstep
          cases hstep
          exact h.create hjdwp
  | track =>
      obtain ⟨next, hnext, hcurrent⟩ := h.track
      obtain rfl : next = after := Except.ok.inj (hnext.symm.trans hstep)
      exact hcurrent
  | ready t =>
      by_cases ht : t ∈ ad.trackers
      · simp only [adbdStep, if_pos ht, h.sound.ready_again ht] at hstep
        cases hstep
        exact h
      · simp only [adbdStep, if_neg ht] at hstep
        cases hstep
        exact h
  | enqueue t =>
      cases hstep
      exact h.close t
  | close t =>
      cases hstep
      exact h.close t

theorem adbdInit_current : adbdInit.Current := by
  refine ⟨⟨⟨List.nodup_nil, ?_, ?_⟩, ?_, List.nodup_nil, ?_, ?_, ?_, ?_, ?_⟩, ?_⟩
  · exact fun p hp => absurd hp List.not_mem_nil
  · exact fun p hp => absurd hp List.not_mem_nil
  · intro p proc hproc
    cases hproc
  · exact fun t ht => absurd ht List.not_mem_nil
  · exact fun t _ => rfl
  · exact fun t ht => absurd ht List.not_mem_nil
  · exact fun t ht => absurd ht List.not_mem_nil
  · exact fun entry hentry => absurd hentry List.not_mem_nil
  · exact fun t ht => absurd ht List.not_mem_nil

theorem run_current {calls : List AdbdCall} (hr : run adbdStep adbdInit calls = .ok ad) :
    ad.Current :=
  run_invariant (fun _ _ _ => adbdStep_current) adbdInit_current hr

theorem knownPids_small (h : SmallPids ad.jdwp) :
    ∀ pid ∈ knownPids ad.jdwp, 0 ≤ pid ∧ pid < 65536 := by
  intro pid hpid
  obtain ⟨hmem, hknown⟩ := List.mem_filter.mp hpid
  obtain ⟨p, -, hp⟩ := List.mem_filterMap.mp hmem
  obtain ⟨proc, hproc, rfl⟩ := Option.map_eq_some_iff.mp hp
  exact ⟨by simpa using hknown, h p proc hproc⟩

-- A tracker is up to date: its last packet is the list of the processes that are
-- known, with every one of up to 169 of them.
structure UpToDate (ad : Adbd) (t : Nat) : Prop where
  last : ∃ earlier, sentTo ad.log t =
    earlier ++ [jdwpProcessListMsg (knownPids ad.jdwp) (bufferSize earlier)]
  framed : ∀ message ∈ sentTo ad.log t, Framed message
  whole : (knownPids ad.jdwp).length ≤ 169 → (sentTo ad.log t).getLast? =
    some (hex4 ((knownPids ad.jdwp).flatMap pidLine).length ++ (knownPids ad.jdwp).flatMap pidLine)

theorem tracker_is_up_to_date (calls : List AdbdCall) (ad : Adbd)
    (hr : run adbdStep adbdInit calls = .ok ad) (t : Nat) (ht : t ∈ ad.trackers) :
    UpToDate ad t := by
  have hcurrent := run_current hr
  obtain ⟨earlier, hsent⟩ := hcurrent.told t ht
  refine ⟨⟨earlier, hsent⟩, fun message hmessage => ?_, fun hfew => ?_⟩
  · obtain ⟨entry, hentry, hto⟩ := List.mem_filterMap.mp hmessage
    have hframed := hcurrent.sound.framed entry hentry
    split at hto
    · exact Option.some.inj hto ▸ hframed
    · cases hto
  · have hsmall := knownPids_small hcurrent.sound.small
    have hlines := length_lines hsmall
    have hsize : 1020 ≤ bufferSize earlier - 4 := by
      unfold bufferSize MAX_PAYLOAD UPDATE_SIZE
      split <;> omega
    have hall := jdwpProcessList_all (fun pid hpid => (hsmall pid hpid).1)
      (show ((knownPids ad.jdwp).flatMap pidLine).length < bufferSize earlier - 4 by omega)
    rw [hsent, List.getLast?_concat, jdwpProcessListMsg, hall]

-- A tracker is there before the first process says that it is 0x1f.
def trackedProcess : List AdbdCall :=
  [.control true, .track, .event 0 ⟨true, false, [.bytes 48 [48, 49, 102]], true, true, true, true⟩]

theorem tracker_is_up_to_date_of_one : ∃ ad, run adbdStep adbdInit trackedProcess = .ok ad ∧
    knownPids ad.jdwp = [31] ∧ UpToDate ad 0 :=
  ⟨_, rfl, by decide, tracker_is_up_to_date trackedProcess _ rfl 0 (by decide)⟩

-- The trackers only watch.
theorem updated_jdwp (h : ad.jdwpProcessListUpdated = .ok after) : after.jdwp = ad.jdwp := by
  unfold Adbd.jdwpProcessListUpdated at h
  cases hpids : jdwpPids ad.jdwp ad.jdwp.jdwpList with
  | error e =>
      rw [hpids] at h
      cases h
  | ok pids =>
      rw [hpids] at h
      cases h
      rfl

theorem processWrite_jdwp {calls : EventCalls} (h : ad.processWrite p proc calls = .ok after) :
    after.jdwp = jdwpWrite ad.jdwp p proc calls := by
  unfold Adbd.processWrite at h
  simp only at h
  split at h
  · exact updated_jdwp h
  · cases h
    rfl

theorem processEvent_jdwp {calls : EventCalls} (h : ad.processEvent p calls = .ok after) :
    jdwpProcessEvent ad.jdwp p calls = .ok after.jdwp := by
  unfold Adbd.processEvent at h
  unfold jdwpProcessEvent
  cases hproc : ad.jdwp.heap p with
  | none =>
      rw [hproc] at h
      cases h
  | some proc =>
      rw [hproc] at h
      simp only at h ⊢
      have hrest : ∀ (here : Adbd) (proc' : JdwpProcess),
          (if calls.write then here.processWrite p proc' calls
          else return here) = .ok after → (if calls.write then jdwpWrite here.jdwp p proc' calls
            else here.jdwp) = after.jdwp := by
        intro here proc' hhere
        split at hhere
        · rw [if_pos ‹_›]
          exact (processWrite_jdwp hhere).symm
        · rw [if_neg ‹_›]
          cases hhere
          rfl
      cases hread : calls.read with
      | false =>
          rw [hread] at h
          exact congrArg Except.ok (hrest { ad with jdwp := ad.jdwp.put p (some proc) } proc h)
      | true =>
          rw [hread, if_pos rfl] at h
          rw [if_pos rfl]
          cases hends : jdwpRead proc calls.recvs with
          | returns proc' =>
              rw [hends] at h
              cases h
              rfl
          | closeProcess proc' =>
              rw [hends] at h
              exact congrArg Except.ok (updated_jdwp h).symm
          | goesOn proc' =>
              rw [hends] at h
              simp only [if_true] at h
              cases hupdated : Adbd.jdwpProcessListUpdated
                { ad with jdwp := ad.jdwp.put p (some proc') } with
              | error e =>
                  rw [hupdated] at h
                  cases h
              | ok here =>
                  rw [hupdated] at h
                  have hhere := hrest here proc' h
                  rw [updated_jdwp hupdated] at hhere
                  exact congrArg Except.ok hhere

theorem jdwpTrackerReady_jdwp (ad : Adbd) (t : Nat) (h : ad.jdwpTrackerReady t = .ok after) :
    after.jdwp = ad.jdwp := by
  unfold Adbd.jdwpTrackerReady at h
  split at h
  · cases hpids : jdwpPids ad.jdwp ad.jdwp.jdwpList with
    | error e =>
        rw [hpids] at h
        cases h
    | ok pids =>
        rw [hpids] at h
        cases h
        rfl
  · cases h
    rfl

-- What the trackers leave of a run is a run of the processes alone.
theorem run_jdwp {calls : List AdbdCall} (hr : run adbdStep ad calls = .ok after) :
    ∃ jdwpCalls, run jdwpStep ad.jdwp jdwpCalls = .ok after.jdwp := by
  induction calls generalizing ad with
  | nil =>
      cases hr
      exact ⟨[], rfl⟩
  | cons call rest ih =>
      obtain ⟨next, hnext, hrest⟩ := run_cons_ok hr
      obtain ⟨jdwpCalls, hjdwp⟩ := ih hrest
      have hstay : next.jdwp = ad.jdwp →
          ∃ jdwpCalls, run jdwpStep ad.jdwp jdwpCalls = .ok after.jdwp :=
        fun heq => ⟨jdwpCalls, heq ▸ hjdwp⟩
      have hstep : ∀ jdwpCall, jdwpStep ad.jdwp jdwpCall = .ok next.jdwp →
          ∃ jdwpCalls, run jdwpStep ad.jdwp jdwpCalls = .ok after.jdwp :=
        fun jdwpCall hcall => ⟨jdwpCall :: jdwpCalls, (run_cons hcall).trans hjdwp⟩
      cases call with
      | control allocs =>
          cases hnext
          exact hstep (.control allocs) rfl
      | event p calls => exact hstep (.event p calls) (processEvent_jdwp hnext)
      | create pid pairs =>
          apply hstep (.create pid pairs)
          simp only [adbdStep] at hnext
          cases hcreate : createJdwpConnectionFd ad.jdwp pid pairs with
          | error e =>
              rw [hcreate] at hnext
              cases hnext
          | ok r =>
              rw [hcreate] at hnext
              cases hnext
              simp only [jdwpStep, hcreate, Except.map]
      | track => exact hstay (jdwpTrackerReady_jdwp ad.createJdwpTrackerServiceSocket ad.fresh hnext)
      | ready t =>
          simp only [adbdStep] at hnext
          split at hnext
          · exact hstay (jdwpTrackerReady_jdwp ad t hnext)
          · cases hnext
            exact hstay rfl
      | enqueue t =>
          cases hnext
          exact hstay rfl
      | close t =>
          cases hnext
          exact hstay rfl

-- No handler looks at a process that has been freed, as long as no event comes for one.
theorem adbdStep_ok {calls : List AdbdCall} (hr : run adbdStep adbdInit calls = .ok ad)
    (call : AdbdCall)
    (hlive : ∀ p calls, call = .event p calls → ad.jdwp.heap p ≠ none) :
    ∃ after, adbdStep ad call = .ok after := by
  have hcurrent := run_current hr
  cases call with
  | control allocs => exact ⟨_, rfl⟩
  | event p calls =>
      obtain ⟨proc, hproc⟩ := Option.ne_none_iff_exists'.mp (hlive p calls rfl)
      obtain ⟨after, hafter, -⟩ := hcurrent.event hproc calls
      exact ⟨after, hafter⟩
  | create pid pairs =>
      obtain ⟨jdwpCalls, hjdwp⟩ := run_jdwp hr
      obtain ⟨jdwp, hcreate⟩ := create_jdwp_connection_fd_ok hjdwp pid pairs
      simp only [jdwpStep] at hcreate
      cases hresult : createJdwpConnectionFd ad.jdwp pid pairs with
      | error e =>
          rw [hresult] at hcreate
          cases hcreate
      | ok r => exact ⟨{ ad with jdwp := r.2 }, by simp only [adbdStep, hresult, Except.map]⟩
  | track =>
      obtain ⟨after, hafter, -⟩ := hcurrent.track
      exact ⟨after, hafter⟩
  | ready t =>
      by_cases ht : t ∈ ad.trackers
      · exact ⟨ad, by simp only [adbdStep, if_pos ht, hcurrent.sound.ready_again ht]⟩
      · exact ⟨ad, by simp only [adbdStep, if_neg ht]⟩
  | enqueue t => exact ⟨_, rfl⟩
  | close t => exact ⟨_, rfl⟩

end Runs

end Adb.Device
