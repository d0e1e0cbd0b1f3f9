import Adb.Transport.HandleViews

namespace Adb.Transport

open Adb.Lib
open Adb.Sysdeps (WIN32_MAX_FHS)

variable {st mid after : Handles} {reg : Registry} {t u : Nat} {d : Descriptor}
  {record : ATransport}

section Kicks

variable {ks : List (Party × Nat)} {p : Party}

-- The record of one transport, and the kicks on their way, change.
theorem view_record_other (hu : u ≠ t)
    (hks : (ks.countP fun k => k.2 = u) = st.kicks.countP fun k => k.2 = u) :
    ({ st with registry := st.registry.setRecord t record, kicks := ks }).view u = st.view u := by
  have hheap : (st.registry.setRecord t record).heap u = st.registry.heap u :=
    Function.update_of_ne hu _ _
  unfold Handles.view
  simp only [hheap, hks]
  rfl

theorem view_record_self :
    ({ st with registry := st.registry.setRecord t record, kicks := ks }).view t =
      { st.view t with record := some record.counts, kicks := ks.countP fun k => k.2 = t } := by
  unfold Handles.view
  simp only [Registry.setRecord_heap_self, Option.map_some]
  rfl

theorem view_record (hr : st.registry.heap t = some record) :
    (st.view t).record = some (record.type, record.kicked, record.refCount) := by
  simp [Handles.view, hr, ATransport.counts]

-- kicked is set, and from now on a kick is on its way.
theorem kickTransport_inv (h : OwnInv st) (hkick : st.kickTransport p t = .ok after) :
    OwnInv after := by
  unfold Handles.kickTransport at hkick
  cases hr : st.registry.heap t with
  | none =>
      simp only [Registry.deref, hr, bind, Except.bind] at hkick
      cases hkick
  | some record =>
      simp only [Registry.kickTransport, Registry.deref, hr, bind, Except.bind, pure,
        Except.pure] at hkick
      have hrecord := view_record hr
      have hsound := h.sound t
      cases hkicked : record.kicked with
      | true =>
          rw [hkicked, if_pos rfl] at hkick
          cases hkick
          refine h.of_one (h.tallied.elsewhere _ _) (fun u hu => view_record_other hu rfl) ?_
          have hself : (st.view t).record = some { record with kicked := true }.counts := by
            rw [hrecord, ATransport.counts, hkicked]
          rw [view_record_self, ← hself]
          exact hsound
      | false =>
          rw [hkicked, if_neg (by decide)] at hkick
          cases hkick
          refine h.of_one (h.tallied.elsewhere _ _) (fun u hu => view_record_other hu ?_) ?_
          · rw [List.countP_cons, if_neg (by simpa using Ne.symm hu)]
            rfl
          rw [hkicked] at hrecord
          have hmore : (((p, t) :: st.kicks).countP fun k => k.2 = t) = (st.view t).kicks + 1 :=
            List.countP_cons_of_pos (by simp)
          rw [view_record_self, hmore]
          exact hsound.kick_begins hrecord

-- The kick that is called is no longer on its way.
theorem countP_erase_kick {kick : Party × Nat} (hm : kick ∈ ks) (u : Nat) :
    (ks.countP fun k => k.2 = u) =
      ((ks.erase kick).countP fun k => k.2 = u) + if kick.2 = u then 1 else 0 := by
  rw [(List.perm_cons_erase hm).countP_eq, List.countP_cons]
  simp

theorem kickUnlocked_inv (h : OwnInv st) (hkick : st.kickUnlocked p = .ok after) :
    OwnInv after := by
  unfold Handles.kickUnlocked at hkick
  split at hkick
  case h_1 => cases hkick
  rename_i p t hfind
  have hmem := List.mem_of_find?_eq_some hfind
  cases hr : st.registry.heap t with
  | none =>
      simp only [Registry.deref, hr, bind, Except.bind] at hkick
      cases hkick
  | some record =>
      simp only [Registry.deref, hr, bind, Except.bind, pure, Except.pure, Except.ok.injEq] at hkick
      have hcount := countP_erase_kick hmem t
      rw [if_pos rfl] at hcount
      have hrecord := view_record hr
      have hsound := h.sound t
      have hold := hsound.record _ _ _ hrecord
      have hone : (st.view t).kicks = ((st.kicks.erase (p, t)).countP fun k => k.2 = t) + 1 :=
        hcount
      have hle := hsound.kicks
      have hkicked : record.kicked = true := hold.flying (by omega)
      have hzero : ((st.kicks.erase (p, t)).countP fun k => k.2 = t) = 0 := by omega
      rw [hkicked] at hrecord
      -- the kicks without this one, and then its close
      obtain ⟨mid, hmid⟩ : ∃ mid, mid = { st with kicks := st.kicks.erase (p, t) } := ⟨_, rfl⟩
      have htallied : Tallied mid := hmid ▸ h.tallied.elsewhere _ _
      have hheld : Held mid t = Held st t := by rw [hmid]; rfl
      have hcloses := kick_closes htallied record.type fun htype => by
        rw [hheld]
        exact hold.sfd.mpr ⟨htype, Or.inr (by omega)⟩
      rw [← hmid] at hkick
      rw [hkick] at hcloses
      refine h.of_one hcloses.tallied (fun u (hu : u ≠ t) => ?_) ?_
      · have hother := countP_erase_kick hmem u
        rw [if_neg (Ne.symm hu), Nat.add_zero] at hother
        rw [hcloses.view_other hu, hmid]
        unfold Handles.view
        simp only [← hother]
        rfl
      · have hview : mid.view t = { st.view t with kicks := 0 } := by
          rw [hmid]
          unfold Handles.view
          simp only [hzero]
          rfl
        rw [hcloses.view_self, hview, hheld]
        exact hsound.kick_called hrecord

theorem kickLocked_inv (h : OwnInv st) (hkick : st.kickLocked t = .ok after) : OwnInv after := by
  unfold Handles.kickLocked at hkick
  cases hr : st.registry.heap t with
  | none =>
      simp only [Registry.deref, hr, bind, Except.bind] at hkick
      cases hkick
  | some record =>
      simp only [Registry.kickTransport, Registry.deref, hr, bind, Except.bind, pure, Except.pure,
        Except.ok.injEq] at hkick
      have hrecord := view_record hr
      have hsound := h.sound t
      obtain ⟨mid, hmid⟩ : ∃ mid, mid =
          { st with registry := st.registry.setRecord t { record with kicked := true } } := ⟨_, rfl⟩
      have htallied : Tallied mid := hmid ▸ h.tallied.elsewhere _ _
      have hother : ∀ u, u ≠ t → mid.view u = st.view u :=
        fun u hu => hmid ▸ view_record_other hu rfl
      have hself : mid.view t =
          { st.view t with record := some (record.type, true, record.refCount) } :=
        hmid ▸ view_record_self
      rw [← hmid] at hkick
      cases hkicked : record.kicked with
      | true =>
          rw [hkicked] at hrecord
          rw [hkicked, if_pos rfl] at hkick
          subst hkick
          refine h.of_one htallied hother ?_
          rw [hself, ← hrecord]
          exact hsound
      | false =>
          rw [hkicked] at hrecord
          rw [hkicked, if_neg (by decide)] at hkick
          have hheld : Held mid t = Held st t := by rw [hmid]; rfl
          have hcloses := kick_closes htallied record.type fun htype => by
            rw [hheld]
            exact (hsound.record _ _ _ hrecord).sfd.mpr ⟨htype, Or.inl rfl⟩
          rw [hkick] at hcloses
          refine h.of_one hcloses.tallied
            (fun u hu => (hcloses.view_other hu).trans (hother u hu)) ?_
          rw [hcloses.view_self, hself, hheld]
          exact hsound.kick_locked hrecord

end Kicks

section References

-- The registry's part of the last transport_unref_locked.
theorem view_last_other (hu : u ≠ t)
    (hreg : reg = (st.registry.setRecord t record).removeTransport t) :
    ({ st with registry := reg }).view u = st.view u := by
  have hheap : reg.heap u = st.registry.heap u := by
    rw [hreg]
    exact Function.update_of_ne hu _ _
  have hdue : reg.due = st.registry.due ++ [⟨t, .remove⟩] := by
    rw [hreg]
    exact (List.append_assoc _ _ _).symm
  have hregisters : reg.due.count ⟨u, .register⟩ = st.registry.due.count ⟨u, .register⟩ := by
    rw [hdue, List.count_append]
    simp
  have hremoves : reg.due.count ⟨u, .remove⟩ = st.registry.due.count ⟨u, .remove⟩ := by
    rw [hdue, List.count_append]
    simp [Ne.symm hu]
  unfold Handles.view
  simp only [hheap, hregisters, hremoves]
  subst hreg
  rfl

theorem view_last_self (hreg : reg = (st.registry.setRecord t record).removeTransport t) :
    ({ st with registry := reg }).view t =
      { st.view t with record := some record.counts, removes := (st.view t).removes + 1 } := by
  have hheap : reg.heap t = some record := by
    rw [hreg]
    exact Function.update_self ..
  have hdue : reg.due = st.registry.due ++ [⟨t, .remove⟩] := by
    rw [hreg]
    exact (List.append_assoc _ _ _).symm
  have hregisters : reg.due.count ⟨t, .register⟩ = st.registry.due.count ⟨t, .register⟩ := by
    rw [hdue, List.count_append]
    simp
  have hremoves : reg.due.count ⟨t, .remove⟩ = st.registry.due.count ⟨t, .remove⟩ + 1 := by
    rw [hdue, List.count_append]
    simp
  unfold Handles.view
  simp only [hheap, hregisters, hremoves]
  subst hreg
  rfl

theorem counts_close (other : ATransport) : (Registry.closeRecord other).counts = other.counts := by
  unfold Registry.closeRecord
  split <;> rfl

theorem transportUnrefLocked_inv (h : OwnInv st) (hunref : st.transportUnrefLocked t = .ok after) :
    OwnInv after := by
  unfold Handles.transportUnrefLocked at hunref
  cases hr : st.registry.heap t with
  | none =>
      simp only [Registry.deref, hr, bind, Except.bind] at hunref
      cases hunref
  | some record =>
      have hrecord := view_record hr
      have hsound := h.sound t
      simp only [Registry.transportUnrefLocked, Registry.deref, hr, bind, Except.bind, pure,
        Except.pure] at hunref
      by_cases hlast : record.refCount - 1 = 0
      · simp only [if_pos hlast, Except.ok.injEq] at hunref
        obtain ⟨closed, hclosed⟩ : ∃ closed, closed =
            Registry.closeRecord { record with refCount := record.refCount - 1, kicked := true } :=
              ⟨_, rfl⟩
        have hcounts : closed.counts = (record.type, true, record.refCount - 1) := by
          rw [hclosed, counts_close]
          rfl
        obtain ⟨mid, hmid⟩ : ∃ mid, mid =
            { st with registry := (st.registry.setRecord t closed).removeTransport t } := ⟨_, rfl⟩
        have htallied : Tallied mid := hmid ▸ h.tallied.elsewhere _ _
        have hother : ∀ u, u ≠ t → mid.view u = st.view u :=
          fun u hu => hmid ▸ view_last_other hu rfl
        have hself : mid.view t = { st.view t with
            record := some closed.counts, removes := (st.view t).removes + 1 } :=
          hmid ▸ view_last_self rfl
        have hheld : Held mid t = Held st t := by rw [hmid]; rfl
        rw [← hclosed, ← hmid] at hunref
        have hold := hsound.record _ _ _ hrecord
        obtain ⟨kicked, hkicked⟩ : ∃ kicked, kicked =
            (if record.kicked then mid else mid.kick t record.type) := ⟨_, rfl⟩
        have hkick : Closes mid t .sfd (record.kicked = false ∧ record.type ≠ .usb) kicked := by
          cases hk : record.kicked with
          | true =>
              rw [hk, if_pos rfl] at hkicked
              rw [hkicked]
              exact (closes_nothing htallied .sfd).congr (by simp)
          | false =>
              rw [hk, if_neg (by decide)] at hkicked
              rw [hkicked]
              refine (kick_closes htallied record.type fun htype => ?_).congr (by simp)
              rw [hheld]
              exact hold.sfd.mpr ⟨htype, Or.inl hk⟩
        rw [← hkicked] at hunref
        have hclose := close_closes hkick.tallied record.type fun _ => by
          rw [hkick.held, hheld]
          exact ⟨(hold.counted (by omega)).1, by simp⟩
        rw [hunref] at hclose
        refine h.of_one hclose.tallied (fun u (hu : u ≠ t) => ?_) ?_
        · rw [hclose.view_other hu, hkick.view_other hu, hother u hu]
        · have hfinal := hsound.last_ref hrecord hlast
          rw [hclose.view_self, hkick.view_self, hself, hcounts, hkick.held_self, hheld]
          exact hfinal
      · simp only [if_neg hlast, Except.ok.injEq] at hunref
        subst hunref
        refine h.of_one (h.tallied.elsewhere _ _)
          (fun u (hu : u ≠ t) => view_record_other hu rfl) ?_
        rw [view_record_self]
        exact hsound.unref hrecord

-- The loops that hold the lock.
theorem unlink_inv_own (h : OwnInv st) (hu : st.registry.unlinkTransport t = .ok reg) :
    OwnInv { st with registry := reg } := by
  obtain ⟨links, -, hreg⟩ := Registry.unlinkTransport_ok hu
  subst hreg
  exact h.quiet (fun _ => rfl) rfl rfl fun _ => Iff.rfl

theorem unregisterTcpFrom_inv {fuel : Nat} {r : TRef} (h : OwnInv st)
    (hrun : Handles.unregisterTcpFrom fuel r st = .ok after) : OwnInv after := by
  induction fuel generalizing r st with
  | zero => cases hrun
  | succ fuel ih =>
      cases r with
      | transportList =>
          cases hrun
          exact h
      | transport t =>
          unfold Handles.unregisterTcpFrom at hrun
          obtain ⟨record, -, hrun⟩ := bind_ok hrun
          cases hnext : st.registry.links.next (.transport t) with
          | none =>
              rw [hnext] at hrun
              cases hrun
          | some next =>
              rw [hnext] at hrun
              simp only at hrun
              split at hrun
              · obtain ⟨reg, hunlink, hrun⟩ := bind_ok hrun
                obtain ⟨kicked, hkick, hrun⟩ := bind_ok hrun
                obtain ⟨dropped, hdrop, hrun⟩ := bind_ok hrun
                have hunlinked := unlink_inv_own h hunlink
                exact ih (transportUnrefLocked_inv (kickLocked_inv hunlinked hkick) hdrop) hrun
              · exact ih h hrun

theorem closeUsbFrom_inv {fuel : Nat} {r : TRef} (h : OwnInv st)
    (hrun : Handles.closeUsbFrom fuel r st = .ok after) : OwnInv after := by
  induction fuel generalizing r st with
  | zero => cases hrun
  | succ fuel ih =>
      cases r with
      | transportList =>
          cases hrun
          exact h
      | transport t =>
          unfold Handles.closeUsbFrom at hrun
          obtain ⟨kicked, hkick, hrun⟩ := bind_ok hrun
          cases hnext : kicked.registry.links.next (.transport t) with
          | none =>
              rw [hnext] at hrun
              cases hrun
          | some next =>
              rw [hnext] at hrun
              exact ih (kickLocked_inv h hkick) hrun

end References

section Messages

-- A record that has been cleared, and the message about it.
theorem view_register_other (hu : u ≠ st.registry.nextTransport) :
    ({ st with registry := st.registry.registerTransport record }).view u = st.view u := by
  have hheap : (st.registry.registerTransport record).heap u = st.registry.heap u :=
    Function.update_of_ne hu _ _
  have hdue : (st.registry.registerTransport record).due =
      st.registry.due ++ [⟨st.registry.nextTransport, .register⟩] := (List.append_assoc _ _ _).symm
  have hregisters : (st.registry.registerTransport record).due.count ⟨u, .register⟩ =
      st.registry.due.count ⟨u, .register⟩ := by
    rw [hdue, List.count_append]
    simp [Ne.symm hu]
  have hremoves : (st.registry.registerTransport record).due.count ⟨u, .remove⟩ =
      st.registry.due.count ⟨u, .remove⟩ := by
    rw [hdue, List.count_append]
    simp
  have hknown : (u < (st.registry.registerTransport record).nextTransport) =
      (u < st.registry.nextTransport) := by
    show (u < st.registry.nextTransport + 1) = _
    simp only [eq_iff_iff]
    omega
  unfold Handles.view
  simp only [hheap, hregisters, hremoves, hknown]
  rfl

theorem view_register_self (ht : t = st.registry.nextTransport) :
    ({ st with registry := st.registry.registerTransport record }).view t =
      { st.view t with record := some record.counts, registers := (st.view t).registers + 1, known := True } := by
  have hheap : (st.registry.registerTransport record).heap t = some record := by
    rw [ht]
    exact Function.update_self ..
  have hdue : (st.registry.registerTransport record).due =
      st.registry.due ++ [⟨st.registry.nextTransport, .register⟩] := (List.append_assoc _ _ _).symm
  have hregisters : (st.registry.registerTransport record).due.count ⟨t, .register⟩ =
      st.registry.due.count ⟨t, .register⟩ + 1 := by
    rw [hdue, List.count_append, ht]
    simp
  have hremoves : (st.registry.registerTransport record).due.count ⟨t, .remove⟩ =
      st.registry.due.count ⟨t, .remove⟩ := by
    rw [hdue, List.count_append]
    simp
  have hknown : (t < (st.registry.registerTransport record).nextTransport) = True := by
    show (t < st.registry.nextTransport + 1) = True
    simp only [ht, eq_iff_iff, iff_true]
    omega
  unfold Handles.view
  simp only [hheap, hregisters, hremoves, hknown]
  rfl

theorem OwnInv.not_known (h : OwnInv st) (ht : t = st.registry.nextTransport) :
    ¬(st.view t).known ∧ ¬(st.view t).freeing ∧ ∀ d, ¬Held st t d := by
  have hnew : ¬(st.view t).known := by
    show ¬t < st.registry.nextTransport
    omega
  refine ⟨hnew, fun hfree => hnew ((h.sound t).freeing hfree).1, fun d => ?_⟩
  exact (h.tallied.unopened t d (((h.sound t).unknown hnew).2.2.2.2 d)).1

theorem registerSocketTransport_inv (h : OwnInv st) {serial : List UInt8} {adbPort : Int}
    {isLocal : Bool}
    (hregister : st.registerSocketTransport serial adbPort isLocal = .ok after) : OwnInv after := by
  obtain ⟨mid, hopen, hregister⟩ := bind_ok hregister
  cases hregister
  obtain ⟨t, ht⟩ : ∃ t, t = st.registry.nextTransport := ⟨_, rfl⟩
  obtain ⟨hnew, hfree, hnone⟩ := h.not_known ht
  have hunopened := ((h.sound t).unknown hnew).2.2.2.2
  rw [← ht] at hopen
  have hopens := openHandle_opens h.tallied (hunopened .sfd) hopen
  have hnext : t = mid.registry.nextTransport := by rw [hopens.registry, ht]
  refine ⟨hopens.tallied.elsewhere _ mid.kicks, fun u => ?_⟩
  by_cases hu : u = t
  · subst hu
    rw [view_register_self hnext, hopens.view_self]
    have hfd : (u, .fd) ∉ st.opened := hunopened .fd
    have hsocket : (u, .transportSocket) ∉ st.opened := hunopened .transportSocket
    exact (h.sound u).registered hnew _ _ (by simp [Registry.socketTransport])
      ⟨by simp [hfd], by simp [hsocket]⟩ hfree
  · rw [view_register_other (hnext ▸ hu), hopens.view_other hu]
    exact h.sound u

theorem registerSocketFails_inv (h : OwnInv st) (hregister : st.registerSocketFails = .ok after) :
    OwnInv after := by
  obtain ⟨t, ht⟩ : ∃ t, t = st.registry.nextTransport := ⟨_, rfl⟩
  unfold Handles.registerSocketFails at hregister
  simp only [← ht] at hregister
  obtain ⟨mid, hopen, hregister⟩ := bind_ok hregister
  cases hregister
  obtain ⟨hnew, hfree, hnone⟩ := h.not_known ht
  have hunopened := ((h.sound t).unknown hnew).2.2.2.2
  have hopens := openHandle_opens h.tallied (hunopened .sfd) hopen
  have hcloses : Closes mid t .sfd True (mid.adbClose t .sfd (mid.fields t .sfd)) :=
    adbClose_closes hopens.tallied ((hopens.held t .sfd).mpr (Or.inr ⟨rfl, rfl⟩))
  obtain ⟨closed, hclosed⟩ : ∃ closed, closed = mid.adbClose t .sfd (mid.fields t .sfd) := ⟨_, rfl⟩
  rw [← hclosed] at hcloses ⊢
  have hregistry : closed.registry = st.registry := hcloses.registry.trans hopens.registry
  have hview : ∀ u,
      ({ closed with registry := { closed.registry with nextTransport := t + 1 } }).view u =
      { closed.view u with known := u < t + 1 } := fun u => rfl
  refine ⟨hcloses.tallied.elsewhere _ closed.kicks, fun u => ?_⟩
  rw [hview]
  by_cases hu : u = t
  · subst hu
    have hknown : (u < u + 1) = True := by simp
    rw [hcloses.view_self, hopens.view_self, hknown]
    refine (h.sound u).failed hnew _ _ (fun d hd => ?_) hfree
    rcases (hopens.held u d).mp hd.1 with hold | hsame
    · exact hnone d hold
    · exact hd.2 ⟨trivial, hsame.2⟩
  · have hknown : (u < t + 1) = (st.view u).known := by
      show (u < t + 1) = (u < st.registry.nextTransport)
      simp only [eq_iff_iff]
      omega
    rw [hcloses.view_other hu, hopens.view_other hu, hknown]
    exact h.sound u

theorem registerUsb_inv (h : OwnInv st) (hcleared : record.counts = (.usb, false, 0)) :
    OwnInv { st with registry := st.registry.registerTransport record } := by
  obtain ⟨t, ht⟩ : ∃ t, t = st.registry.nextTransport := ⟨_, rfl⟩
  obtain ⟨hnew, hfree, hnone⟩ := h.not_known ht
  have hunopened := ((h.sound t).unknown hnew).2.2.2.2
  refine ⟨h.tallied.elsewhere _ st.kicks, fun u => ?_⟩
  by_cases hu : u = t
  · subst hu
    rw [view_register_self ht, hcleared]
    exact (h.sound u).registered hnew (Held st u) _ (by simpa using hnone .sfd)
      ⟨hunopened .fd, hunopened .transportSocket⟩ hfree
  · rw [view_register_other (ht ▸ hu)]
    exact h.sound u

end Messages

section Main

-- A message that the main loop has taken up counts for its own kind and transport.
theorem count_mailbox {msg other : TMsg} (hdue : st.registry.due = msg :: st.registry.mailbox)
    (hne : msg ≠ other) :
    st.registry.mailbox.count other = st.registry.due.count other := by
  rw [hdue, List.count_cons_of_ne hne]

-- transport_registration_func closes both halves of the socket pair.
theorem removing_inv (h : OwnInv st) (hm : st.registry.main = .removing t)
    (husb : ∀ record ∈ st.registry.heap t, record.type = .usb) (hstep : st.mainStep = .ok after) :
    OwnInv after := by
  unfold Handles.mainStep at hstep
  simp only [hm] at hstep
  obtain ⟨record, hderef, hstep⟩ := bind_ok hstep
  obtain ⟨reg, hmain, hstep⟩ := bind_ok hstep
  have hr := Registry.deref_ok hderef
  have hrecord := view_record hr
  rw [husb record hr] at hrecord
  have hsound := h.sound t
  have hdue : st.registry.due = ⟨t, .remove⟩ :: st.registry.mailbox := by
    rw [Registry.due, hm]
    rfl
  have hremoves : (st.view t).removes = st.registry.mailbox.count ⟨t, .remove⟩ + 1 := by
    show st.registry.due.count ⟨t, .remove⟩ = _
    rw [hdue, List.count_cons_self]
  obtain ⟨hsocket, -, hfd⟩ := (hsound.record _ _ _ hrecord).removing (by omega)
  have hfirst := adbClose_closes h.tallied hsocket
  obtain ⟨mid, hmid⟩ : ∃ mid, mid = st.adbClose t .transportSocket (st.fields t .transportSocket) :=
    ⟨_, rfl⟩
  rw [← hmid] at hfirst hstep hmain
  have hsecond : Closes mid t .fd True (mid.adbClose t .fd (mid.fields t .fd)) := by
    refine adbClose_closes hfirst.tallied ((hfirst.held t .fd).mpr ⟨hfd.mpr rfl, by simp⟩)
  obtain ⟨closed, hclosed⟩ : ∃ closed, closed = mid.adbClose t .fd (mid.fields t .fd) := ⟨_, rfl⟩
  rw [← hclosed] at hsecond hstep hmain
  have hregistry : closed.registry = st.registry := hsecond.registry.trans hfirst.registry
  rw [hregistry] at hmain
  simp only [mainStep, hm] at hmain
  obtain ⟨unlinked, hunlink, hmain⟩ := bind_ok hmain
  obtain ⟨links, -, hunlinked⟩ := Registry.unlinkTransport_ok hunlink
  cases hmain
  cases hstep
  have hview : ∀ u, ({ closed with registry := { unlinked with main := .freeing t } }).view u =
      { closed.view u with
        registers := st.registry.mailbox.count ⟨u, .register⟩
        removes := st.registry.mailbox.count ⟨u, .remove⟩
        freeing := t = u } := by
    intro u
    have hfreeing : (MainAt.freeing t = MainAt.freeing u) = (t = u) := by simp
    unfold Handles.view
    simp only [hregistry, hunlinked, hfreeing]
    rfl
  have hregisters : ∀ u, st.registry.mailbox.count ⟨u, .register⟩ = (st.view u).registers :=
    fun u =>
    count_mailbox hdue (by simp)
  refine ⟨hsecond.tallied.elsewhere _ closed.kicks, fun u => ?_⟩
  rw [hview, hregisters]
  by_cases hu : u = t
  · subst hu
    have hnone : st.registry.mailbox.count ⟨u, .remove⟩ = 0 := by
      have hle := hsound.removes
      omega
    have htrue : (u = u) = True := by simp
    rw [hsecond.view_self, hfirst.held_self, hfirst.view_self, hnone, htrue]
    simp only [true_and]
    exact hsound.removed hrecord (by omega)
  · have hsame : st.registry.mailbox.count ⟨u, .remove⟩ = (st.view u).removes :=
      count_mailbox hdue (by simp [Ne.symm hu])
    have hfalse : (t = u) = (st.view u).freeing := by
      show (t = u) = (st.registry.main = .freeing u)
      simp [hm, Ne.symm hu]
    rw [hsecond.view_other hu, hfirst.view_other hu, hsame, hfalse]
    exact h.sound u

-- ... and opens them, unless there are no threads. Before that the two threads are
-- counted.
def Handles.counted (st : Handles) (t : Nat) (record : ATransport) : Handles :=
  { st with registry :=
    { (st.registry.setRecord t { record with refCount := 2 }).setThread t .input .running with
      main := .startOutput t } }

theorem view_counted_self (hdue : st.registry.due = ⟨t, .register⟩ :: st.registry.mailbox)
    (hone : (st.view t).registers ≤ 1) : (st.counted t record).view t =
      { st.view t with record := some (record.type, record.kicked, 2), registers := 0, freeing := False } := by
  have hheap : (st.counted t record).registry.heap t = some { record with refCount := 2 } :=
    Function.update_self ..
  have hdue' : (st.counted t record).registry.due = st.registry.mailbox := rfl
  have hfreeing : ((st.counted t record).registry.main = .freeing t) = False := by
    simp [Handles.counted]
  have hregisters : st.registry.mailbox.count ⟨t, .register⟩ = 0 := by
    have hall : (st.view t).registers = st.registry.mailbox.count ⟨t, .register⟩ + 1 := by
      show st.registry.due.count ⟨t, .register⟩ = _
      rw [hdue, List.count_cons_self]
    omega
  have hremoves := count_mailbox hdue (show (⟨t, .register⟩ : TMsg) ≠ ⟨t, .remove⟩ by simp)
  unfold Handles.view
  simp only [hheap, hdue', hfreeing, hregisters, hremoves]
  rfl

theorem view_counted_other (hm : st.registry.main = .starting t)
    (hdue : st.registry.due = ⟨t, .register⟩ :: st.registry.mailbox) (hu : u ≠ t) :
    (st.counted t record).view u = st.view u := by
  have hheap : (st.counted t record).registry.heap u = st.registry.heap u :=
    Function.update_of_ne hu _ _
  have hdue' : (st.counted t record).registry.due = st.registry.mailbox := rfl
  have hfreeing : ((st.counted t record).registry.main = .freeing u) =
      (st.registry.main = .freeing u) := by
    simp [Handles.counted, hm]
  have hregisters :=
    count_mailbox hdue (show (⟨t, .register⟩ : TMsg) ≠ ⟨u, .register⟩ by simp [Ne.symm hu])
  have hremoves := count_mailbox hdue (show (⟨t, .register⟩ : TMsg) ≠ ⟨u, .remove⟩ by simp)
  unfold Handles.view
  simp only [hheap, hdue', hfreeing, hregisters, hremoves]
  rfl

theorem starting_inv (h : OwnInv st) (hm : st.registry.main = .starting t)
    (hstep : st.mainStep = .ok after) :
    OwnInv after := by
  unfold Handles.mainStep at hstep
  simp only [hm] at hstep
  obtain ⟨record, hderef, hstep⟩ := bind_ok hstep
  obtain ⟨reg, hmain, hstep⟩ := bind_ok hstep
  have hr := Registry.deref_ok hderef
  have hrecord := view_record hr
  have hsound := h.sound t
  have hdue : st.registry.due = ⟨t, .register⟩ :: st.registry.mailbox := by
    rw [Registry.due, hm]
    rfl
  have hregisters : (st.view t).registers = st.registry.mailbox.count ⟨t, .register⟩ + 1 := by
    show st.registry.due.count ⟨t, .register⟩ = _
    rw [hdue, List.count_cons_self]
  have hle := hsound.registers
  have hfree : ∀ u, (st.view u).freeing = False := by
    intro u
    show (st.registry.main = .freeing u) = False
    simp [hm]
  simp only [mainStep, hm, Registry.deref, hr, bind, Except.bind, pure, Except.pure] at hmain
  by_cases hperm : record.connectionState ≠ .noPerm
  · rw [if_pos hperm] at hmain hstep
    cases hmain
    obtain ⟨base, hbase⟩ : ∃ base, base = st.counted t record := ⟨_, rfl⟩
    have htallied : Tallied base := hbase ▸ h.tallied.elsewhere _ st.kicks
    obtain ⟨-, hfd, hsocket⟩ := hsound.registering (by omega)
    obtain ⟨mid, hopen, hstep⟩ := bind_ok hstep
    have hopen : base.openHandle t .transportSocket = .ok mid := by
      rw [hbase]
      exact hopen
    have hfirst := openHandle_opens htallied (by rw [hbase]; exact hsocket) hopen
    have hunopened : (t, .fd) ∉ mid.opened := by
      rw [hfirst.opened, hbase]
      have hfd : (t, .fd) ∉ (st.counted t record).opened := hfd
      simp [hfd]
    have hsecond := openHandle_opens hfirst.tallied hunopened hstep
    refine h.of_one hsecond.tallied (fun u (hu : u ≠ t) => ?_) ?_
    · rw [hsecond.view_other hu, hfirst.view_other hu, hbase, view_counted_other hm hdue hu]
    · have hfinal := hsound.started hrecord (by omega) (by simp [hfree])
      have hopened : ∀ e, ((t, e) ∈ mid.opened) = ((t, e) ∈ base.opened ∨ e = .transportSocket) :=
        fun e =>
        congrFun hfirst.opened_self e
      simp only [hfree t] at hfinal
      rw [hsecond.view_self, hfirst.held_self, hfirst.view_self, hbase, view_counted_self hdue hle]
      simp only [hopened]
      subst hbase
      exact hfinal
  · rw [if_neg hperm] at hmain hstep
    cases hmain
    cases hstep
    have hnone : st.registry.mailbox.count ⟨t, .register⟩ = 0 := by omega
    have hremoves : ∀ u, st.registry.mailbox.count ⟨u, .remove⟩ = (st.view u).removes := fun u =>
      count_mailbox hdue (by simp)
    have hview : ∀ u, ({ st with registry := { st.registry with main := .linking t } }).view u =
        { st.view u with
          registers := st.registry.mailbox.count ⟨u, .register⟩
          removes := st.registry.mailbox.count ⟨u, .remove⟩
          freeing := False } := by
      intro u
      have hfreeing : (MainAt.linking t = MainAt.freeing u) = False := by simp
      unfold Handles.view
      simp only [hfreeing]
      rfl
    refine h.of_one (h.tallied.elsewhere _ st.kicks) (fun u (hu : u ≠ t) => ?_) ?_
    · have hregisters : st.registry.mailbox.count ⟨u, .register⟩ = (st.view u).registers :=
        count_mailbox hdue (by simp [Ne.symm hu])
      rw [hview, hremoves, hregisters, ← hfree u]
    · rw [hview, hremoves, hnone, ← hfree t]
      exact hsound.started_bare

-- The memory is handed back.
theorem freeing_inv (h : OwnInv st) (hm : st.registry.main = .freeing t) :
    OwnInv { st with registry :=
      { st.registry with heap := Function.update st.registry.heap t none, main := .idle } } := by
  refine h.of_one (h.tallied.elsewhere _ st.kicks) (fun u (hu : u ≠ t) => ?_) ?_
  · have hheap : Function.update st.registry.heap t none u = st.registry.heap u :=
      Function.update_of_ne hu _ _
    have hfreeing : (MainAt.idle = MainAt.freeing u) = (st.registry.main = .freeing u) := by
      rw [hm]
      simp [Ne.symm hu]
    have hdue : st.registry.due = st.registry.mailbox := by
      rw [Registry.due, hm]
      rfl
    unfold Handles.view
    simp only [hheap, hfreeing, hdue]
    rfl
  · have hheap : Function.update st.registry.heap t none t = none := Function.update_self ..
    have hfreeing : (MainAt.idle = MainAt.freeing t) = False := by simp
    have hdue : st.registry.due = st.registry.mailbox := by
      rw [Registry.due, hm]
      rfl
    have hview : ({ st with registry :=
        { st.registry with heap := Function.update st.registry.heap t none, main := .idle } }).view
          t =
        { st.view t with record := none, freeing := False } := by
      unfold Handles.view
      simp only [hheap, hfreeing, hdue]
      rfl
    rw [hview]
    exact (h.sound t).freed_now hm

-- The main loop goes on to where nothing depends on it.
theorem OwnInv.at_main (h : OwnInv st) {main : MainAt} (hdue : main.due = st.registry.main.due)
    (hold : ∀ u, st.registry.main ≠ .freeing u) (hnew : ∀ u, main ≠ .freeing u) :
    OwnInv { st with registry := { st.registry with main := main } } := by
  refine h.quiet (fun _ => rfl) ?_ rfl fun u => iff_of_false (hnew u) (hold u)
  rw [Registry.due, Registry.due, hdue]

theorem adbClose_registry (st : Handles) (t : Nat) (d : Descriptor) (fd : Int) :
    (st.adbClose t d fd).registry = st.registry := by
  unfold Handles.adbClose
  split <;> rfl

theorem kick_registry (st : Handles) (t : Nat) (type : TransportType) :
    (st.kick t type).registry = st.registry := by
  cases type with
  | usb => rfl
  | loopback | any | host => exact adbClose_registry _ _ _ _

theorem close_registry (st : Handles) (t : Nat) (type : TransportType) :
    (st.close t type).registry = st.registry := by
  cases type with
  | usb => rfl
  | loopback | any | host => exact adbClose_registry _ _ _ _

theorem kickTransport_main (hkick : st.kickTransport p t = .ok after) :
    after.registry.main = st.registry.main := by
  obtain ⟨record, -, hkick⟩ := bind_ok hkick
  obtain ⟨reg, hreg, hkick⟩ := bind_ok hkick
  obtain ⟨record, -, hreg⟩ := Registry.kickTransport_ok hreg
  cases hkick
  rw [hreg]
  rfl

theorem transportUnrefLocked_main (hunref : st.transportUnrefLocked t = .ok after) :
    after.registry.main = st.registry.main := by
  obtain ⟨record, -, hunref⟩ := bind_ok hunref
  obtain ⟨reg, hreg, hunref⟩ := bind_ok hunref
  have hmain : reg.main = st.registry.main := by
    obtain ⟨record, -, ⟨-, closed, -, heq⟩ | ⟨-, heq⟩⟩ := Registry.transportUnrefLocked_ok hreg
    · rw [heq]
      rfl
    · rw [heq]
      rfl
  rw [← hmain]
  simp only at hunref
  split at hunref
  · cases hunref
    rw [close_registry]
    split
    · rfl
    · rw [kick_registry]
  · cases hunref
    rfl

-- Every section of the main loop.
theorem mainStep_inv_own (h : OwnInv st)
    (hguard : ∀ t, st.registry.main = .removing t →
      ∀ record ∈ st.registry.heap t, record.type = .usb)
    (hstep : st.mainStep = .ok after) : OwnInv after := by
  cases hm : st.registry.main with
  | removing t => exact removing_inv h hm (hguard t hm) hstep
  | starting t => exact starting_inv h hm hstep
  | unregKick t =>
      simp only [Handles.mainStep, hm] at hstep
      obtain ⟨kicked, hkick, hstep⟩ := bind_ok hstep
      cases hstep
      have hmain := (kickTransport_main hkick).trans hm
      refine (kickTransport_inv h hkick).at_main ?_ (fun u => ?_) fun u =>
        ?_ <;> simp [hmain, MainAt.due]
  | unregUnref t =>
      simp only [Handles.mainStep, hm] at hstep
      obtain ⟨dropped, hdrop, hstep⟩ := bind_ok hstep
      cases hstep
      have hmain := (transportUnrefLocked_main hdrop).trans hm
      refine (transportUnrefLocked_inv h hdrop).at_main ?_ (fun u => ?_) fun u =>
        ?_ <;> simp [hmain, MainAt.due]
  | idle =>
      simp only [Handles.mainStep, hm] at hstep
      obtain ⟨reg, hmain, hstep⟩ := bind_ok hstep
      cases hstep
      simp only [mainStep, hm] at hmain
      -- the message is due as long as it is handled
      cases hmail : st.registry.mailbox with
      | nil =>
          rw [hmail] at hmain
          cases hmain
      | cons m rest =>
          obtain ⟨t, action⟩ := m
          rw [hmail] at hmain
          cases action <;> cases hmain
          all_goals refine h.quiet (fun _ => rfl) ?_ rfl fun u => ?_
          all_goals simp [Registry.due, MainAt.due, hm, hmail]
  | freeing t =>
      simp only [Handles.mainStep, hm] at hstep
      obtain ⟨reg, hmain, hstep⟩ := bind_ok hstep
      cases hstep
      simp only [mainStep, hm] at hmain
      obtain ⟨record, -, hmain⟩ := bind_ok hmain
      cases hmain
      exact freeing_inv h hm
  | startOutput t =>
      simp only [Handles.mainStep, hm] at hstep
      obtain ⟨reg, hmain, hstep⟩ := bind_ok hstep
      cases hstep
      simp only [mainStep, hm] at hmain
      cases hmain
      refine h.quiet (fun _ => rfl) ?_ rfl fun u =>
        ?_ <;> simp [Registry.due, MainAt.due, hm, Registry.setThread]
  | linking t =>
      simp only [Handles.mainStep, hm] at hstep
      obtain ⟨reg, hmain, hstep⟩ := bind_ok hstep
      cases hstep
      simp only [mainStep, hm] at hmain
      obtain ⟨linked, hlink, hmain⟩ := bind_ok hmain
      obtain ⟨-, links, -, hlinked⟩ := Registry.linkTransport_ok hlink
      cases hmain
      rw [hlinked]
      refine h.quiet (fun _ => rfl) ?_ rfl fun u => ?_ <;> simp [Registry.due, MainAt.due, hm]
  | unregUnlink t =>
      simp only [Handles.mainStep, hm] at hstep
      obtain ⟨reg, hmain, hstep⟩ := bind_ok hstep
      cases hstep
      simp only [mainStep, hm] at hmain
      obtain ⟨unlinked, hunlink, hmain⟩ := bind_ok hmain
      obtain ⟨links, -, hunlinked⟩ := Registry.unlinkTransport_ok hunlink
      cases hmain
      rw [hunlinked]
      refine h.quiet (fun _ => rfl) ?_ rfl fun u => ?_ <;> simp [Registry.due, MainAt.due, hm]

end Main

section Runs

theorem threadStep_inv_own (h : OwnInv st) {thread : Thread}
    (hstep : st.threadStep t thread = .ok after) :
    OwnInv after := by
  unfold Handles.threadStep at hstep
  split at hstep
  · obtain ⟨kicked, hkick, hstep⟩ := bind_ok hstep
    cases hstep
    exact (kickTransport_inv h hkick).quiet (fun _ => rfl) rfl rfl fun _ => Iff.rfl
  · obtain ⟨dropped, hdrop, hstep⟩ := bind_ok hstep
    cases hstep
    exact (transportUnrefLocked_inv h hdrop).quiet (fun _ => rfl) rfl rfl fun _ => Iff.rfl
  · cases hstep

theorem registryStep_inv (h : OwnInv st) {move : Move}
    (hguard : RemovesNoSocket st (.registry move))
    (hstep : st.registryStep move = .ok after) : OwnInv after := by
  cases move with
  | registerSocket serial adbPort isLocal => exact registerSocketTransport_inv h hstep
  | registerUsb usb serial writeable =>
      cases hstep
      exact registerUsb_inv h rfl
  | main =>
      refine mainStep_inv_own h (fun t hm => ?_) hstep
      simp only [RemovesNoSocket, hm] at hguard
      exact hguard
  | thread t thread => exact threadStep_inv_own h hstep
  | unregister serial =>
      obtain ⟨reg, hreg, hstep⟩ := bind_ok hstep
      cases hstep
      simp only [step] at hreg
      split at hreg
      · rename_i hm
        obtain ⟨found, -, hreg⟩ := bind_ok hreg
        cases found with
        | none =>
            cases hreg
            exact h
        | some t =>
            cases hreg
            refine h.at_main ?_ (fun u => ?_) fun u => ?_ <;> simp [hm, MainAt.due]
      · cases hreg
  | unregisterAllTcp =>
      simp only [Handles.registryStep] at hstep
      split at hstep
      · unfold Handles.unregisterAllTcpTransports at hstep
        split at hstep
        · exact unregisterTcpFrom_inv h hstep
        · cases hstep
      · cases hstep
  | unregisterUsb usb =>
      obtain ⟨reg, hreg, hstep⟩ := bind_ok hstep
      cases hstep
      simp only [step, Registry.unregisterUsbTransport] at hreg
      obtain ⟨found, -, hreg⟩ := bind_ok hreg
      cases found with
      | none =>
          cases hreg
          exact h
      | some t => exact unlink_inv_own h hreg

-- The handles of the rest of the program come and go.
theorem OwnInv.other (h : OwnInv st) {table : List (Option Holder)}
    (hholder : ∀ n t d, holder table n = some (.transport t d) ↔
      holder st.table n = some (.transport t d)) :
    OwnInv { st with table := table } := by
  obtain ⟨after, hafter⟩ : ∃ after, after = { st with table := table } := ⟨_, rfl⟩
  have htable : ∀ n t d, holder after.table n = some (.transport t d) ↔
      holder st.table n = some (.transport t d) :=
    hafter ▸ hholder
  obtain ⟨htallied, hheld⟩ : Tallied after ∧ ∀ t d, Held after t d ↔ Held st t d :=
    h.tallied.other (by rw [hafter]) (by rw [hafter]) (by rw [hafter]) htable
  rw [← hafter]
  refine ⟨htallied, fun u => ?_⟩
  have hsame : Held after u = Held st u := funext fun d => propext (hheld u d)
  have hview : after.view u = st.view u := by
    unfold Handles.view
    rw [hsame, hafter]
  rw [hview]
  exact h.sound u

theorem handlesStep_inv (st : Handles) (move : HandleMove) (after : Handles) (h : OwnInv st)
    (hguard : RemovesNoSocket st move) (hstep : handlesStep st move = .ok after) :
    OwnInv after := by
  cases move with
  | registry move =>
      simp only [handlesStep] at hstep
      split at hstep
      · cases hstep
      · exact registryStep_inv h hguard hstep
  | registerSocketFails => exact registerSocketFails_inv h hstep
  | kick p => exact kickUnlocked_inv h hstep
  | kickTransport n t =>
      simp only [handlesStep] at hstep
      split at hstep
      · cases hstep
      · exact kickTransport_inv h hstep
  | closeUsbDevices =>
      simp only [handlesStep, Handles.closeUsbDevices] at hstep
      split at hstep
      · exact closeUsbFrom_inv h hstep
      · cases hstep
  | openOther =>
      simp only [handlesStep] at hstep
      split at hstep
      · rename_i n table halloc
        cases hstep
        obtain ⟨hfree, hholder⟩ := allocSlot_spec halloc
        refine h.other fun m t d => ?_
        rw [hholder]
        by_cases hm : m = n
        · rw [if_pos hm, hm, hfree]
          simp
        · rw [if_neg hm]
      · cases hstep
  | closeOther n =>
      simp only [handlesStep] at hstep
      split at hstep
      · rename_i hother
        cases hstep
        refine h.other fun m t d => ?_
        rw [freeSlot_spec hother]
        by_cases hm : m = n
        · rw [if_pos hm, hm, hother]
          simp
        · rw [if_neg hm]
      · cases hstep

-- Each descriptor that has been opened for a transport is closed once, and no
-- adb_close of a transport closes anything else.
structure DescriptorsOwned (st : Handles) : Prop where
  own : ∀ c ∈ st.closes, c.hit = some (.transport c.transport c.descriptor)
  once : ∀ t d, timesClosed st t d ≤ 1
  freed : ∀ t < st.registry.nextTransport, st.registry.heap t = none →
    ∀ d, (t, d) ∈ st.opened → timesClosed st t d = 1

theorem OwnInv.owned (h : OwnInv st) : DescriptorsOwned st where
  own := h.tallied.own
  once := fun t d => by
    by_cases hopened : (t, d) ∈ st.opened
    · rcases h.tallied.opened t d hopened with ⟨-, hzero⟩ | ⟨-, hone⟩ <;> omega
    · have hzero := (h.tallied.unopened t d hopened).2
      omega
  freed := fun t ht hnone d hopened => by
    have hrecord : (st.view t).record = none := by
      show (st.registry.heap t).map ATransport.counts = none
      rw [hnone]
      rfl
    rcases h.tallied.opened t d hopened with ⟨hheld, -⟩ | ⟨-, hone⟩
    · exact absurd hheld ((h.sound t).freed ht hrecord d)
    · exact hone

-- An adb_close is one more, whatever it hits.
theorem adbClose_closes_more (st : Handles) (t : Nat) (d : Descriptor) (fd : Int) (u : Nat)
    (e : Descriptor) :
    timesClosed (st.adbClose t d fd) u e = timesClosed st u e + if t = u ∧ d = e then 1 else 0 := by
  unfold Handles.adbClose timesClosed
  split <;> simp [List.countP_append, List.countP_cons]

-- What a removal outside the condition does: t->fd has been closed by t->close.
theorem removing_closes_twice (h : OwnInv st) {move : HandleMove}
    (hguard : ¬RemovesNoSocket st move)
    (hstep : handlesStep st move = .ok after) : ¬DescriptorsOwned after := by
  unfold RemovesNoSocket at hguard
  split at hguard
  case h_2 => exact absurd trivial hguard
  split at hguard
  case h_2 => exact absurd trivial hguard
  rename_i t hm
  simp only [not_forall, Option.mem_def] at hguard
  obtain ⟨record, hr, htype⟩ := hguard
  have hrecord := view_record hr
  have hdue : (st.view t).removes = st.registry.mailbox.count ⟨t, .remove⟩ + 1 := by
    show st.registry.due.count ⟨t, .remove⟩ = _
    rw [Registry.due, hm]
    exact List.count_cons_self
  obtain ⟨-, hopened, hfd⟩ := ((h.sound t).record _ _ _ hrecord).removing (by omega)
  have honce : timesClosed st t .fd = 1 := by
    rcases h.tallied.opened t .fd hopened with ⟨hheld, -⟩ | ⟨-, hone⟩
    · exact absurd (hfd.mp hheld) htype
    · exact hone
  simp only [handlesStep] at hstep
  split at hstep
  · cases hstep
  simp only [Handles.registryStep, Handles.mainStep, hm] at hstep
  obtain ⟨record, -, hstep⟩ := bind_ok hstep
  obtain ⟨reg, -, hstep⟩ := bind_ok hstep
  cases hstep
  intro howned
  have htwice := howned.once t .fd
  have hcloses : ∀ closed : Handles,
      timesClosed { closed with registry := reg } t .fd = timesClosed closed t .fd :=
    fun _ => rfl
  rw [hcloses, adbClose_closes_more, adbClose_closes_more, honce] at htwice
  simp at htwice

-- As long as no socket transport is removed, every descriptor is closed once and
-- by its owner. The first such removal ends that.
theorem descriptors_owned (moves : List HandleMove) (st : Handles)
    (hg : Guarded handlesStep RemovesNoSocket handlesInit moves)
    (hr : run handlesStep handlesInit moves = .ok st) :
    DescriptorsOwned st ∧
      ∀ move after, ¬RemovesNoSocket st move → handlesStep st move = .ok after →
        ¬DescriptorsOwned after := by
  have hinv : OwnInv st := guarded_invariant handlesStep_inv ownInv_init hg hr
  exact ⟨hinv.owned, fun move after hguard hstep => removing_closes_twice hinv hguard hstep⟩

-- A usb device comes and goes.
theorem descriptors_owned_of_one_device :
    ∃ st, st.registry.heap 0 = none ∧ st.opened.length = 2 ∧ DescriptorsOwned st :=
  ⟨_, rfl, rfl, (descriptors_owned
    [.openOther, .registry (.registerUsb 7 none true), .registry .main, .registry .main,
      .registry .main, .registry .main, .registry (.thread 0 .input), .kick (.thread 0 .input),
      .registry (.thread 0 .input), .registry (.thread 0 .output), .registry (.thread 0 .output),
      .registry .main, .registry .main, .registry .main] _ (by decide) rfl).1⟩

-- The rest of the program opens handles as long as there are new slots.
theorem run_openOther {n : Nat} (hroom : st.table.length + n ≤ WIN32_MAX_FHS) :
    run handlesStep st (List.replicate n .openOther) =
      .ok { st with table := st.table ++ List.replicate n (some .other) } := by
  induction n generalizing st with
  | zero => simp
  | succ n ih =>
      have hstep : handlesStep st .openOther =
          .ok { st with table := st.table ++ [some .other] } := by
        simp only [handlesStep, allocSlot]
        rw [if_pos (by omega)]
      rw [List.replicate_succ, run_cons hstep,
        ih (by rw [List.length_append, List.length_singleton]; omega)]
      simp [List.replicate_succ]

-- A table with room for one transport.
def crowded : Handles := { handlesInit with table := List.replicate 125 (some .other) }

-- A TCP device comes and goes, and the rest of the program opens two handles before
-- the main loop gets to the removal.
def tcpGoes : List HandleMove :=
  [.registry (.registerSocket [97] 0 false), .registry .main, .registry .main, .registry .main,
    .registry .main, .registry (.thread 0 .input), .kick (.thread 0 .input),
    .registry (.thread 0 .input), .registry (.thread 0 .output), .registry (.thread 0 .output),
    .openOther, .openOther, .registry .main, .registry .main]

set_option maxRecDepth 10000 in
theorem tcpGoes_hits :
    ∃ st, run handlesStep crowded tcpGoes = .ok st ∧ ⟨0, .fd, some .other⟩ ∈ st.closes :=
  ⟨_, rfl, by decide⟩

theorem reused_slot_is_closed :
    ¬ ∀ (moves : List HandleMove) (st : Handles), run handlesStep handlesInit moves = .ok st →
      DescriptorsOwned st := by
  intro h
  have hcrowded : run handlesStep handlesInit (List.replicate 125 .openOther) = .ok crowded := by
    rw [run_openOther (by decide)]
    simp only [handlesInit, crowded, List.nil_append]
  obtain ⟨st, hrun, hhit⟩ := tcpGoes_hits
  have hboth : run handlesStep handlesInit (List.replicate 125 .openOther ++ tcpGoes) = .ok st := by
    rw [run_append, hcrowded, Except.bind]
    exact hrun
  exact absurd ((h _ _ hboth).own _ hhit) (by decide)

end Runs

end Adb.Transport
