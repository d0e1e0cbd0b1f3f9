import Adb.Host.SocketGraph

namespace Adb.Host

open Adb.Lib

variable {st after : Server} {a b l p t : Nat} {s q x s' : ASocket} {events since : List Event}

section Log

def NoStatus (a : Nat) (events : List Event) : Prop :=
  ∀ status ok, .status a status ok ∉ events

def NotAttached (a : Nat) (events : List Event) : Prop :=
  ∀ r, .attached a r ∉ events

-- One status and no other one: OKAY once the device has accepted, and FAIL where
-- it has not.
def OneStatus (a : Nat) (events : List Event) : Prop :=
  ∃ before status ok behind, events = before ++ .status a status ok :: behind ∧
    NoStatus a before ∧ NoStatus a behind ∧ (status = .okay ↔ ¬NotAttached a before)

-- What has happened since a client's request was forwarded, while it waits and
-- when it does no longer.
structure Waits (a : Nat) (since : List Event) : Prop where
  noStatus : NoStatus a since
  notAttached : NotAttached a since
  notClosed : .closedFd a ∉ since

structure Told (a : Nat) (since : List Event) : Prop where
  one : OneStatus a since
  closed : ∀ between rest, since = between ++ .closedFd a :: rest → OneStatus a between

theorem noStatus_append {first second : List Event} :
    NoStatus a (first ++ second) ↔ NoStatus a first ∧ NoStatus a second := by
  simp only [NoStatus, List.mem_append, not_or, forall_and]

theorem OneStatus.append (h : OneStatus a since) (he : NoStatus a events) :
    OneStatus a (since ++ events) := by
  obtain ⟨before, status, ok, behind, rfl, hbefore, hbehind, hiff⟩ := h
  refine ⟨before, status, ok, behind ++ events, by simp, hbefore, ?_, hiff⟩
  exact noStatus_append.mpr ⟨hbehind, he⟩

theorem Told.append (h : Told a since) (he : NoStatus a events) : Told a (since ++ events) where
  one := h.one.append he
  closed := by
    intro between rest heq
    rcases List.append_eq_append_iff.mp heq with ⟨mid, rfl, hrest⟩ | ⟨mid, hsince, hrest⟩
    · apply h.one.append
      rw [hrest] at he
      exact (noStatus_append.mp he).1
    · cases mid with
      | nil =>
          rw [List.append_nil] at hsince
          rw [← hsince]
          exact h.one
      | cons e mid =>
          obtain ⟨rfl, -⟩ := List.cons.inj hrest
          exact h.closed between mid hsince

theorem Waits.append (h : Waits a since) (hstatus : NoStatus a events) (hattached : NotAttached a events)
    (hclosed : .closedFd a ∉ events) : Waits a (since ++ events) where
  noStatus := noStatus_append.mpr ⟨h.noStatus, hstatus⟩
  notAttached := by
    intro r hr
    exact (List.mem_append.mp hr).elim (h.notAttached r) (hattached r)
  notClosed := by
    intro hc
    exact (List.mem_append.mp hc).elim h.notClosed hclosed

-- A log that grows by events that forward no request of the client.
theorem split_forwarded {log start after : List Event} (hnot : .forwarded a ∉ events)
    (h : log ++ events = start ++ .forwarded a :: after) :
    ∃ since, log = start ++ .forwarded a :: since ∧ after = since ++ events := by
  rcases List.append_eq_append_iff.mp h with ⟨mid, -, hevents⟩ | ⟨mid, hlog, hafter⟩
  · rw [hevents] at hnot
    simp at hnot
  · cases mid with
    | nil =>
        rw [List.nil_append] at hafter
        rw [← hafter] at hnot
        simp at hnot
    | cons e mid =>
        obtain ⟨rfl, hrest⟩ := List.cons.inj hafter
        exact ⟨mid, hlog, hrest⟩

end Log

section Phases

def Notifies (socks : Nat → Option ASocket) (a : Nat) : Prop :=
  ∃ s, socks a = some s ∧ s.ops = .localSocketNotify

-- The socket waits for its status as long as it is a notifying one.
structure Phase (socks : Nat → Option ASocket) (a : Nat) (since : List Event) : Prop where
  waits : Notifies socks a → Waits a since
  told : ¬Notifies socks a → Told a since

structure Phases (st : Server) : Prop where
  phase : ∀ a start since, st.log = start ++ .forwarded a :: since → Phase st.socks a since
  unserved : ∀ p q, st.socks p = some q → q.ops = .smartSocket →
    ∀ a, q.peer = some a → .forwarded a ∉ st.log
  known : ∀ a, .forwarded a ∈ st.log → a < st.nextSocket

-- An event that does not concern the status of the socket.
def Event.Beside (a : Nat) : Event → Prop
  | .status b _ _ | .attached b _ | .closedFd b | .forwarded b => b ≠ a
  | _ => True

theorem Event.IsPlain.beside {e : Event} (h : e.IsPlain) (a : Nat) : e.Beside a := by
  unfold Event.IsPlain at h
  split at h <;> trivial

theorem noStatus_beside (h : ∀ e ∈ events, e.Beside a) : NoStatus a events :=
  fun _ _ he => h _ he rfl

theorem notAttached_beside (h : ∀ e ∈ events, e.Beside a) : NotAttached a events :=
  fun _ he => h _ he rfl

theorem Phase.beside {socks socks' : Nat → Option ASocket} (h : Phase socks a since)
    (he : ∀ e ∈ events, e.Beside a) (hiff : Notifies socks' a ↔ Notifies socks a) :
    Phase socks' a (since ++ events) where
  waits := fun hn => (h.waits (hiff.mp hn)).append (noStatus_beside he) (notAttached_beside he)
    fun hc => he _ hc rfl
  told := fun hn => (h.told fun ho => hn (hiff.mpr ho)).append (noStatus_beside he)

-- Once the status is out, the socket may be connected and closed.
theorem Phase.done {socks socks' : Nat → Option ASocket} (h : Phase socks a since)
    (he : NoStatus a events) (hold : ¬Notifies socks a) (hnew : ¬Notifies socks' a) :
    Phase socks' a (since ++ events) where
  waits := fun hn => absurd hn hnew
  told := fun _ => (h.told hold).append he

-- The status comes out, and the socket waits no longer.
theorem Waits.told {before behind : List Event} {status : Status} {ok : Bool} (h : Waits a since)
    (hiff : status = .okay ↔ ¬NotAttached a before) (hbefore : NoStatus a before)
    (hbehind : NoStatus a behind) (hclosed : .closedFd a ∉ before ++ .status a status ok :: behind) :
    Told a (since ++ (before ++ .status a status ok :: behind)) where
  one := by
    refine ⟨since ++ before, status, ok, behind, by simp, ?_, hbehind, ?_⟩
    · exact noStatus_append.mpr ⟨h.noStatus, hbefore⟩
    · rw [hiff, not_iff_not]
      constructor
      · intro hn r hr
        exact (List.mem_append.mp hr).elim (h.notAttached r) (hn r)
      · exact fun hn r hr => hn r (List.mem_append_right _ hr)
  closed := by
    intro between rest heq
    have hmem : .closedFd a ∈ since ++ (before ++ .status a status ok :: behind) := by rw [heq]; simp
    exact absurd ((List.mem_append.mp hmem).resolve_left h.notClosed) hclosed

-- A smart socket that was there before, or one of a new client.
def SmartFrom (socks : Nat → Option ASocket) (n p : Nat) (q : ASocket) : Prop :=
  q.ops = .smartSocket →
    (∃ q', socks p = some q' ∧ q'.ops = .smartSocket ∧ q'.peer = q.peer) ∨
      ∃ a, q.peer = some a ∧ n ≤ a

theorem smartFrom_old {socks : Nat → Option ASocket} {n : Nat} :
    ∀ p q, socks p = some q → SmartFrom socks n p q :=
  fun _ q hq hops => Or.inl ⟨q, hq, hops, rfl⟩

theorem smartFrom_other {socks : Nat → Option ASocket} {n : Nat} (h : q.ops ≠ .smartSocket) :
    SmartFrom socks n p q :=
  fun hops => absurd hops h

-- An effect that forwards nothing: what it does to each phase, and to the smart
-- sockets.
theorem Phases.step (h : Phases st) (hlog : after.log = st.log ++ events)
    (hforward : ∀ a, .forwarded a ∉ events) (hnext : st.nextSocket ≤ after.nextSocket)
    (hphase : ∀ a since, .forwarded a ∈ st.log → Phase st.socks a since →
      Phase after.socks a (since ++ events))
    (hsmart : ∀ p q, after.socks p = some q → SmartFrom st.socks st.nextSocket p q) : Phases after where
  phase := by
    intro a start since' heq
    rw [hlog] at heq
    obtain ⟨since, hsince, rfl⟩ := split_forwarded (hforward a) heq
    exact hphase a since (by rw [hsince]; simp) (h.phase a start since hsince)
  unserved := by
    intro p q hq hops a hp hmem
    rw [hlog, List.mem_append] at hmem
    have hold := hmem.resolve_right (hforward a)
    rcases hsmart p q hq hops with ⟨q', hq', hops', hpeer⟩ | ⟨b, hb, hfresh⟩
    · exact h.unserved p q' hq' hops' a (hpeer.trans hp) hold
    · have hknown := h.known a hold
      obtain rfl : b = a := Option.some.inj (hb.symm.trans hp)
      omega
  known := by
    intro a hmem
    rw [hlog, List.mem_append] at hmem
    have hknown := h.known a (hmem.resolve_right (hforward a))
    omega

theorem Phases.beside (h : Phases st) (hlog : after.log = st.log ++ events)
    (he : ∀ a, ∀ e ∈ events, e.Beside a) (hnext : st.nextSocket ≤ after.nextSocket)
    (hiff : ∀ a, a < st.nextSocket → (Notifies after.socks a ↔ Notifies st.socks a))
    (hsmart : ∀ p q, after.socks p = some q → SmartFrom st.socks st.nextSocket p q) : Phases after :=
  h.step hlog (fun a hm => he a _ hm rfl) hnext
    (fun a _ hm hp => hp.beside (he a) (hiff a (h.known a hm))) hsmart

end Phases

section Effects

variable {socks : Nat → Option ASocket} {o : Option ASocket} {c : Nat}

theorem notifies_of_ne (h : c ≠ a) : Notifies (Function.update socks a o) c ↔ Notifies socks c := by
  rw [Notifies, Function.update_of_ne h]
  rfl

theorem notifies_self : Notifies (Function.update socks a (some s)) a ↔ s.ops = .localSocketNotify := by
  simp [Notifies]

theorem notifies_iff (hs : socks a = some s) : Notifies socks a ↔ s.ops = .localSocketNotify := by
  simp [Notifies, hs]

theorem not_notifies_none (hs : socks a = none) : ¬Notifies socks a := by
  simp [Notifies, hs]

-- A socket is looked after in place.
theorem notifies_put (hs : socks a = some s) (hops : s'.ops = s.ops) :
    Notifies (Function.update socks a (some s')) c ↔ Notifies socks c := by
  by_cases hca : c = a
  · subst hca
    rw [notifies_self, notifies_iff hs, hops]
  · exact notifies_of_ne hca

theorem smartFrom_put {n : Nat} (hs : socks a = some s) (hops : s'.ops = s.ops) (hp : s'.peer = s.peer) :
    ∀ p q, Function.update socks a (some s') p = some q → SmartFrom socks n p q :=
  all_update smartFrom_old (all_some fun hsmart => Or.inl ⟨s, hs, hops ▸ hsmart, hp.symm⟩)

theorem fate_ops (h : fate s = some x) : x.ops = s.ops := by
  unfold fate at h
  split at h
  · cases h
    rfl
  · cases h

theorem Closed.notifies (hc : Closed st a s after) (hg : Graph st) (hs : st.socks a = some s)
    (hwaiting : s.ops = .localSocketNotify → s.closing = false ∧ s.pkts ≠ []) :
    Notifies after.socks c ↔ Notifies st.socks c := by
  rw [hc.socks]
  by_cases hca : c = a
  · subst hca
    rw [notifies_iff hs]
    constructor
    · intro hn
      obtain ⟨x, hx, hops⟩ := hn
      rw [Function.update_self] at hx
      exact (fate_ops hx).symm.trans hops
    · intro hops
      obtain ⟨hopen, hpkts⟩ := hwaiting hops
      refine ⟨{ s with peer := none, closing := true, id := 0, fde := fdeventDel s.fde FDE_READ }, ?_, hops⟩
      rw [Function.update_self, fate, if_pos]
      simp [hops, Ops.isLocal, hopen, hpkts]
  · rw [notifies_of_ne hca]
    cases hp : s.peer with
    | none => rfl
    | some p =>
        by_cases hcp : c = p
        · subst hcp
          obtain ⟨-, q, hq, hback⟩ := hg.peers.back a s c hs hp
          have hnot := hg.peers.not_notify hq (by simp [hback])
          rw [notifies_iff hq]
          constructor
          · intro hn
            obtain ⟨x, hx, hops⟩ := hn
            simp only [severed, Function.update_self, hq, Option.bind_some] at hx
            exact (fate_ops hx).symm.trans hops
          · exact fun hops => absurd hops hnot
        · exact notifies_of_ne hcp

theorem Phases.closed (h : Phases st) (hg : Graph st) (hs : st.socks a = some s)
    (hwaiting : s.ops = .localSocketNotify → s.closing = false ∧ s.pkts ≠ [])
    (hc : Closed st a s after) : Phases after := by
  obtain ⟨events, hlog, hevents⟩ := hc.log
  have hstatus : ∀ c, NoStatus c events := by
    intro c status ok hm
    rcases hevents _ hm with hplain | ⟨_, heq, -⟩
    · exact hplain
    · cases heq
  have hattached : ∀ c, NotAttached c events := by
    intro c r hm
    rcases hevents _ hm with hplain | ⟨_, heq, -⟩
    · exact hplain
    · cases heq
  have hgone : ∀ c, .closedFd c ∈ events → after.socks c = none := by
    intro c hm
    rcases hevents _ hm with hplain | ⟨_, heq, -, hnone⟩
    · exact hplain.elim
    · cases heq
      exact hnone
  refine h.step hlog ?_ (Nat.le_of_eq hc.nextSocket.symm) ?_ ?_
  · intro c hm
    rcases hevents _ hm with hplain | ⟨_, heq, -⟩
    · exact hplain
    · cases heq
  · intro c since _ hphase
    have hiff : Notifies after.socks c ↔ Notifies st.socks c := hc.notifies hg hs hwaiting
    by_cases hn : Notifies st.socks c
    · refine ⟨fun _ => ?_, fun hnot => absurd (hiff.mpr hn) hnot⟩
      apply (hphase.waits hn).append (hstatus c) (hattached c)
      exact fun hm => not_notifies_none (hgone c hm) (hiff.mpr hn)
    · exact hphase.done (hstatus c) hn fun hnew => hn (hiff.mp hnew)
  · have hfate : ∀ x y, fate x = some y → y.ops ≠ .smartSocket := by
      intro x y hy hsmart
      have hlocal := (alone_fate x y hy).1
      rw [hsmart] at hlocal
      cases hlocal
    rw [hc.socks]
    refine all_update ?_ fun x hx => smartFrom_other (hfate s x hx)
    cases s.peer with
    | none => exact smartFrom_old
    | some p =>
        refine all_update smartFrom_old fun x hx => ?_
        obtain ⟨q, -, hfq⟩ := Option.bind_eq_some_iff.mp hx
        exact smartFrom_other (hfate q x hfq)

-- A first A_OKAY, or an A_OPEN: the status that the socket waits for comes right
-- behind.
theorem Phases.connect (h : Phases st) {r : ASocket} {credit : Event} {rest : List Event}
    (hs : st.socks a = some s) (hr : r.ops = .remoteSocket)
    (hcredit : credit = .opened a ∨ credit = .okayed a)
    (hwaiting : s.ops = .localSocketNotify → ∃ ok, rest = [.status a .okay ok])
    (hplain : s.ops ≠ .localSocketNotify → ∀ e ∈ rest, e.IsPlain)
    (hb : Becomes st after (Function.update (Function.update st.socks st.nextSocket (some r))
      a (some { s.awake with ops := .localSocket, peer := some st.nextSocket })) 1
      (.attached a st.nextSocket :: credit :: rest)) : Phases after := by
  have hbeside : ∀ c, c ≠ a → ∀ e ∈ .attached a st.nextSocket :: credit :: rest, e.Beside c := by
    intro c hca e he
    simp only [List.mem_cons] at he
    rcases he with rfl | rfl | he
    · exact fun hac => hca hac.symm
    · rcases hcredit with rfl | rfl <;> trivial
    · by_cases hops : s.ops = .localSocketNotify
      · obtain ⟨ok, rfl⟩ := hwaiting hops
        rw [List.mem_singleton.mp he]
        exact fun hac => hca hac.symm
      · exact (hplain hops e he).beside c
  have hstatus : NoStatus a [.attached a st.nextSocket, credit] := by
    intro status ok hm
    rcases hcredit with rfl | rfl <;> simp at hm
  refine h.step hb.log ?_ (by rw [hb.nextSocket]; omega) ?_ ?_
  · intro c hm
    by_cases hca : c = a
    · subst hca
      by_cases hops : s.ops = .localSocketNotify
      · obtain ⟨ok, rfl⟩ := hwaiting hops
        rcases hcredit with rfl | rfl <;> simp at hm
      · rcases hcredit with rfl | rfl <;> simp only [List.mem_cons, reduceCtorEq, false_or] at hm
        all_goals exact hplain hops _ hm
    · exact hbeside c hca _ hm rfl
  · intro c since hm hphase
    rw [hb.socks]
    by_cases hca : c = a
    · subst hca
      have hnew : ¬Notifies (Function.update (Function.update st.socks st.nextSocket (some r)) c
          (some { s.awake with ops := .localSocket, peer := some st.nextSocket })) c := by
        rw [notifies_self]
        simp
      by_cases hops : s.ops = .localSocketNotify
      · obtain ⟨ok, rfl⟩ := hwaiting hops
        refine ⟨fun hn => absurd hn hnew, fun _ => ?_⟩
        have hwaits := hphase.waits ((notifies_iff hs).mpr hops)
        have hattached : ¬NotAttached c [.attached c st.nextSocket, credit] :=
          fun hn => hn st.nextSocket (by simp)
        refine hwaits.told (iff_of_true rfl hattached) hstatus (by simp [NoStatus]) ?_
        rcases hcredit with rfl | rfl <;> simp
      · refine hphase.done ?_ (fun hn => hops ((notifies_iff hs).mp hn)) hnew
        have hrest := noStatus_beside fun e he => (hplain hops e he).beside c
        exact noStatus_append.mpr ⟨hstatus, hrest⟩
    · refine hphase.beside (hbeside c hca) ?_
      have hknown := h.known c hm
      rw [notifies_of_ne hca, notifies_of_ne (by omega)]
  · rw [hb.socks]
    refine all_update (all_update smartFrom_old (all_some ?_)) (all_some (smartFrom_other (by simp)))
    exact smartFrom_other (by simp [hr])

theorem Phases.failNotify (h : Phases st) {reason : String} {ok : Bool} (hs : st.socks a = some s)
    (hops : s.ops = .localSocketNotify)
    (hb : Becomes st after (Function.update st.socks a (some { s with ops := .localSocket })) 0
      [.status a (.fail reason) ok]) : Phases after := by
  refine h.step hb.log (by simp) (Nat.le_of_eq hb.nextSocket.symm) ?_ ?_
  · intro c since _ hphase
    rw [hb.socks]
    by_cases hca : c = a
    · subst hca
      refine ⟨fun hn => ?_, fun _ => ?_⟩
      · rw [notifies_self] at hn
        cases hn
      · have hwaits := hphase.waits ((notifies_iff hs).mpr hops)
        have hnone : NotAttached c [] := by simp [NotAttached]
        exact hwaits.told (iff_of_false (by simp) (not_not_intro hnone)) (by simp [NoStatus])
          (by simp [NoStatus]) (by simp)
    · refine hphase.beside (fun e he => ?_) (notifies_of_ne hca)
      rw [List.mem_singleton.mp he]
      exact fun hac => hca hac.symm
  · rw [hb.socks]
    exact all_update smartFrom_old (all_some (smartFrom_other (by simp)))

-- The client's request goes to the device, and the client begins to wait.
theorem Phases.forward (h : Phases st) (hg : Graph st) {rest : List Event} (hs : st.socks l = some s)
    (hp : s.peer = some a) (hq : st.socks a = some q) (hops : q.ops = .smartSocket)
    (hnotify : s'.ops = .localSocketNotify) (hplain : ∀ e ∈ rest, e.IsPlain)
    (hb : Becomes st after (Function.update (Function.update st.socks a none) l (some s')) 0
      (.forwarded l :: rest)) : Phases after := by
  obtain ⟨hal, q', hq', hback⟩ := hg.peers.back l s a hs hp
  rw [hq, Option.some.injEq] at hq'
  subst hq'
  have hfirst := h.unserved a q hq hops l hback
  have hrest : ∀ c, .forwarded c ∉ rest := fun c hm => hplain _ hm
  constructor
  · intro c start since heq
    rw [hb.log] at heq
    rw [hb.socks]
    by_cases hcl : c = l
    · subst hcl
      obtain ⟨-, -, rfl⟩ := (List.append_cons_inj_of_notMem hfirst (hrest c)).mp heq
      have hbeside : ∀ e ∈ rest, e.Beside c := fun e he => (hplain e he).beside c
      refine ⟨fun _ => ?_, fun hn => absurd (notifies_self.mpr hnotify) hn⟩
      exact ⟨noStatus_beside hbeside, notAttached_beside hbeside, fun hm => hbeside _ hm rfl⟩
    · obtain ⟨since', hsince, rfl⟩ := split_forwarded (by simp [hcl, hrest c]) heq
      refine (h.phase c start since' hsince).beside (fun e he => ?_) ?_
      · rcases List.mem_cons.mp he with rfl | he
        · exact fun hlc => hcl hlc.symm
        · exact (hplain e he).beside c
      · rw [notifies_of_ne hcl]
        by_cases hca : c = a
        · subst hca
          rw [notifies_iff hq, hops]
          simp [Notifies]
        · exact notifies_of_ne hca
  · intro p x hx hsmart c hxc hm
    have hold : ∃ x', st.socks p = some x' ∧ x'.ops = .smartSocket ∧ x'.peer = x.peer ∧ p ≠ a := by
      rw [hb.socks] at hx
      by_cases hpl : p = l
      · subst hpl
        rw [Function.update_self, Option.some.injEq] at hx
        rw [← hx, hnotify] at hsmart
        cases hsmart
      · rw [Function.update_of_ne hpl] at hx
        by_cases hpa : p = a
        · subst hpa
          simp at hx
        · rw [Function.update_of_ne hpa] at hx
          exact ⟨x, hx, hsmart, rfl, hpa⟩
    obtain ⟨x', hx', hops', hpeer, hpa⟩ := hold
    have hback' := hpeer.trans hxc
    rw [hb.log, List.mem_append, List.mem_cons] at hm
    rcases hm with hm | heq | hm
    · exact h.unserved p x' hx' hops' c hback' hm
    · cases heq
      obtain ⟨-, s'', hs'', hps⟩ := hg.peers.back p x' l hx' hback'
      rw [hs, Option.some.injEq] at hs''
      subst hs''
      exact hpa (Option.some.inj (hps.symm.trans hp))
    · exact hrest c hm
  · intro c hm
    rw [hb.log, List.mem_append, List.mem_cons] at hm
    rw [hb.nextSocket]
    rcases hm with hm | heq | hm
    · exact h.known c hm
    · cases heq
      by_contra hge
      have hnone := hg.owners.fresh l (by omega)
      rw [hs] at hnone
      cases hnone
    · exact absurd hm (hrest c)

-- The client gets a service of the server.
theorem Phases.bind (h : Phases st) (hg : Graph st) {s2 fresh : Nat} {rest : List Event}
    (hs : st.socks l = some s) (hp : s.peer = some a) (hq : st.socks a = some q)
    (hops : q.ops = .smartSocket)
    (hservice : ∀ old, st.socks s2 = some old → old.ops = .localSocket)
    (hkind : x.ops = .localSocket ∨ x.ops = .deviceTracker) (hplain : ∀ e ∈ rest, e.IsPlain)
    (hb : Becomes st after (Function.update (Function.update (Function.update st.socks a none)
      l (some { s with ops := .localSocket, peer := some s2 })) s2 (some x)) fresh rest) : Phases after := by
  refine h.beside hb.log (fun c e he => (hplain e he).beside c) (by rw [hb.nextSocket]; omega) ?_ ?_
  · intro c _
    rw [hb.socks]
    by_cases hcs : c = s2
    · subst hcs
      rw [notifies_self]
      refine iff_of_false (fun hx => ?_) fun hn => ?_
      · rcases hkind with hk | hk <;> simp [hk] at hx
      · obtain ⟨old, ho, hnotify⟩ := hn
        rw [hservice old ho] at hnotify
        cases hnotify
    · rw [notifies_of_ne hcs]
      by_cases hcl : c = l
      · subst hcl
        rw [notifies_self, notifies_iff hs]
        refine iff_of_false (by simp) ?_
        exact hg.peers.not_notify hs (by simp [hp])
      · rw [notifies_of_ne hcl]
        by_cases hca : c = a
        · subst hca
          rw [notifies_iff hq, hops]
          simp [Notifies]
        · exact notifies_of_ne hca
  · rw [hb.socks]
    refine all_update (all_update (all_update smartFrom_old all_none) (all_some ?_)) (all_some ?_)
    · exact smartFrom_other (by simp)
    · apply smartFrom_other
      rcases hkind with hk | hk <;> simp [hk]

theorem Effect.phases {B : Prop} (he : Effect B st after) (hB : ¬B) (hg : Graph st) (h : Phases st) :
    Phases after := by
  cases he with
  | quiet events plain becomes =>
      refine h.beside becomes.log (fun a e he => (plain e he).beside a) (Nat.le_of_eq becomes.nextSocket.symm)
        (fun a _ => by rw [becomes.socks]) ?_
      rw [becomes.socks]
      exact smartFrom_old
  | status l p s q reply ok found peer smart ops accepted becomes =>
      obtain ⟨-, q', hq', hback⟩ := hg.peers.back l s p found peer
      rw [smart, Option.some.injEq] at hq'
      subst hq'
      have hnot := h.unserved p q smart ops l hback
      refine h.step becomes.log (by simp) (Nat.le_of_eq becomes.nextSocket.symm) ?_ ?_
      · intro a since hm hphase
        rw [becomes.socks]
        refine hphase.beside (fun e he => ?_) Iff.rfl
        rw [List.mem_singleton.mp he]
        intro hla
        exact hnot (hla ▸ hm)
      · rw [becomes.socks]
        exact smartFrom_old
  | tend a s s' found tended becomes =>
      refine h.beside becomes.log (by simp) (Nat.le_of_eq becomes.nextSocket.symm) ?_ ?_
      · intro c _
        rw [becomes.socks]
        exact notifies_put found tended.ops
      · rw [becomes.socks]
        exact smartFrom_put found tended.ops tended.peer
  | wake a p s q found peer other ops becomes =>
      refine h.beside becomes.log (by simp) (Nat.le_of_eq becomes.nextSocket.symm) ?_ ?_
      · intro c _
        rw [becomes.socks]
        exact notifies_put found rfl
      · rw [becomes.socks]
        exact smartFrom_put found rfl rfl
  | okay a p s found peer becomes =>
      refine h.beside becomes.log ?_ (Nat.le_of_eq becomes.nextSocket.symm) ?_ ?_
      · intro c e he
        rw [List.mem_singleton.mp he]
        trivial
      · intro c _
        rw [becomes.socks]
        exact notifies_put found rfl
      · rw [becomes.socks]
        exact smartFrom_put found rfl rfl
  | connect a s r credit rest found islocal closing alone remote back credits waiting plain becomes =>
      refine h.connect found remote credits (fun hn => ?_) plain becomes
      obtain ⟨ok, -, hrest⟩ := waiting hn
      exact ⟨ok, hrest⟩
  | newLocal s ops peer closing fde becomes =>
      refine h.beside becomes.log (by simp) (by rw [becomes.nextSocket]; omega) ?_ ?_
      · intro c hc
        rw [becomes.socks]
        exact notifies_of_ne (by omega)
      · rw [becomes.socks]
        exact all_update smartFrom_old (all_some (smartFrom_other (by simp [ops])))
  | newClient s q ops peer closing sound smart back becomes =>
      refine h.beside becomes.log (by simp) (by rw [becomes.nextSocket]; omega) ?_ ?_
      · intro c hc
        rw [becomes.socks, notifies_of_ne (by omega), notifies_of_ne (by omega)]
      · rw [becomes.socks]
        refine all_update (all_update smartFrom_old (all_some (smartFrom_other (by simp [ops])))) ?_
        exact all_some fun _ => Or.inr ⟨_, back, Nat.le_refl _⟩
  | closed a s found waiting becomes =>
      exact h.closed hg found (fun hn => (waiting hn).resolve_right hB) becomes
  | failNotify a s reason ok found ops accepted becomes => exact h.failNotify found ops becomes
  | forward l a s q s' rest found islocal peer smart ops notify alone asleep sound plain becomes =>
      exact h.forward hg found peer smart ops notify plain becomes
  | bind l a s2 fresh s q x rest found islocal peer smart ops service kind back sound plain becomes =>
      refine h.bind hg found peer smart ops (fun old ho => ?_) kind plain becomes
      rcases service with ⟨hnone, -⟩ | ⟨old', ho', hops', -⟩
      · rw [hnone] at ho
        cases ho
      · rw [ho', Option.some.injEq] at ho
        exact ho ▸ hops'
  | readOther a s bytes found other becomes =>
      refine h.beside becomes.log ?_ (Nat.le_of_eq becomes.nextSocket.symm)
        (fun a _ => by rw [becomes.socks]) ?_
      · intro c e he
        rw [List.mem_singleton.mp he]
        trivial
      · rw [becomes.socks]
        exact smartFrom_old
  | carry a r t s q message found peer remote ops wanted sound command nonempty short becomes =>
      refine h.beside becomes.log ?_ (Nat.le_of_eq becomes.nextSocket.symm) ?_ ?_
      · intro c e he
        simp only [List.mem_cons, List.not_mem_nil, or_false] at he
        rcases he with rfl | rfl <;> trivial
      · intro c _
        rw [becomes.socks]
        exact notifies_put found rfl
      · rw [becomes.socks]
        exact smartFrom_put found rfl rfl

end Effects

section Statuses

-- Between the forwarding of a client's request and the closing of its fd there
-- is one status for it.
def ExactlyOneStatus (st : Server) : Prop :=
  ∀ a start between rest, st.log = start ++ .forwarded a :: (between ++ .closedFd a :: rest) →
    OneStatus a between

-- No socket that waits for its status is closed past local_socket_close_notify.
def KeepsStatus (st : Server) (input : Script × Input) : Prop :=
  bypassesNotify st input.2 = false

instance (st : Server) (input : Script × Input) : Decidable (KeepsStatus st input) :=
  inferInstanceAs (Decidable (_ = _))

-- A status is written in full if the system takes it.
structure Accepted (st : Server) : Prop where
  written : ∀ a status ok, .status a status ok ∈ st.log → ok = true
  script : ∀ ok ∈ st.script.statuses, ok = true

theorem phases_init : Phases serverInit := by
  constructor <;> simp [serverInit]

theorem Phases.exactlyOne (h : Phases st) : ExactlyOneStatus st := by
  intro a start between rest heq
  have hphase := h.phase a start _ heq
  apply (hphase.told _).closed between rest rfl
  intro hn
  exact (hphase.waits hn).notClosed (by simp)

theorem Accepted.grow {socks : Nat → Option ASocket} {fresh : Nat} (h : Accepted st)
    (hb : Becomes st after socks fresh events)
    (he : ∀ a status ok, .status a status ok ∈ events → ok ∈ st.script.statuses) : Accepted after where
  written := by
    intro a status ok hm
    rw [hb.log] at hm
    rcases List.mem_append.mp hm with hm | hm
    · exact h.written a status ok hm
    · exact h.script ok (he a status ok hm)
  script := fun ok hm => h.script ok (hb.statuses ok hm)

theorem Effect.accepted {B : Prop} (he : Effect B st after) (h : Accepted st) : Accepted after := by
  have hplain : ∀ {events : List Event}, (∀ e ∈ events, e.IsPlain) →
      ∀ a status ok, .status a status ok ∈ events → ok ∈ st.script.statuses :=
    fun hp _ _ _ hm => (hp _ hm).elim
  cases he with
  | quiet events plain becomes => exact h.grow becomes (hplain plain)
  | status l p s q reply ok found peer smart ops accepted becomes =>
      refine h.grow becomes fun a status ok' hm => ?_
      obtain ⟨-, -, rfl⟩ := Event.status.inj (List.mem_singleton.mp hm)
      exact accepted
  | tend a s s' found tended becomes => exact h.grow becomes (by simp)
  | wake a p s q found peer other ops becomes => exact h.grow becomes (by simp)
  | okay a p s found peer becomes => exact h.grow becomes (by simp)
  | connect a s r credit rest found islocal closing alone remote back credits waiting plain becomes =>
      refine h.grow becomes fun b status ok hm => ?_
      have hrest : .status b status ok ∈ rest := by
        rcases credits with rfl | rfl <;> simpa using hm
      by_cases hops : s.ops = .localSocketNotify
      · obtain ⟨ok', hok, rfl⟩ := waiting hops
        obtain ⟨-, -, rfl⟩ := Event.status.inj (List.mem_singleton.mp hrest)
        exact hok
      · exact hplain (plain hops) b status ok hrest
  | newLocal s ops peer closing fde becomes => exact h.grow becomes (by simp)
  | newClient s q ops peer closing sound smart back becomes => exact h.grow becomes (by simp)
  | closed a s found waiting becomes =>
      obtain ⟨events, hlog, hevents⟩ := becomes.log
      refine ⟨fun b status ok hm => ?_, becomes.script ▸ h.script⟩
      rw [hlog, List.mem_append] at hm
      rcases hm with hm | hm
      · exact h.written b status ok hm
      · rcases hevents _ hm with hp | ⟨_, heq, -⟩
        · exact hp.elim
        · cases heq
  | failNotify a s reason ok found ops accepted becomes =>
      refine h.grow becomes fun b status ok' hm => ?_
      obtain ⟨-, -, rfl⟩ := Event.status.inj (List.mem_singleton.mp hm)
      exact accepted
  | forward l a s q s' rest found islocal peer smart ops notify alone asleep sound plain becomes =>
      exact h.grow becomes fun b status ok hm => hplain plain b status ok (by simpa using hm)
  | bind l a s2 fresh s q x rest found islocal peer smart ops service kind back sound plain becomes =>
      exact h.grow becomes (hplain plain)
  | readOther a s bytes found other becomes => exact h.grow becomes (by simp)
  | carry a r t s q message found peer remote ops wanted sound command nonempty short becomes =>
      exact h.grow becomes (by simp)

theorem step_phases (input : Script × Input) (hw : Whole st) (hg : KeepsStatus st input) (h : Phases st)
    (hs : step st input = .ok after) : Phases after := by
  have hB : ¬bypassesNotify st input.2 = true := by
    rw [hg]
    simp
  have hscripted : Phases (scripted st input) := ⟨h.phase, h.unserved, h.known⟩
  exact (step_moves hw hs).invariant (fun hx _ he hp => he.phases hB hx hp) (hw.scripted input).graph hscripted

theorem step_accepted (input : Script × Input) (hw : Whole st) (hg : ∀ ok ∈ input.1.statuses, ok = true)
    (h : Accepted st) (hs : step st input = .ok after) : Accepted after :=
  (step_moves hw hs).invariant (fun _ _ he ha => he.accepted ha) (hw.scripted input).graph ⟨h.written, hg⟩

-- Every run that closes no waiting socket past its close function: each client
-- gets one status, and in full as long as the system takes what is written.
theorem exactly_one_status (inputs : List (Script × Input)) (st : Server)
    (hg : Guarded step KeepsStatus serverInit inputs) (hr : run step serverInit inputs = .ok st) :
    ExactlyOneStatus st ∧
      ((∀ input ∈ inputs, ∀ ok ∈ input.1.statuses, ok = true) →
        ∀ a status ok, .status a status ok ∈ st.log → ok = true) := by
  constructor
  · have hboth : Whole st ∧ Phases st := guarded_invariant (P := fun st => Whole st ∧ Phases st)
      (fun _ input _ h hmet hs => ⟨step_whole h.1 hs, step_phases input h.1 hmet h.2 hs⟩)
      ⟨whole_init, phases_init⟩ hg hr
    exact hboth.2.exactlyOne
  · intro htaken
    have hboth : Whole st ∧ Accepted st := guarded_invariant (P := fun st => Whole st ∧ Accepted st)
      (fun _ input _ h hmet hs => ⟨step_whole h.1 hs, step_accepted input h.1 hmet h.2 hs⟩)
      ⟨whole_init, by constructor <;> simp [serverInit]⟩ (guarded_of_all htaken) hr
    exact hboth.2.written

-- The device refuses the shell.
def shellRefused : List (Script × Input) :=
  shellRequest ++ [({ silent with statuses := [true] }, .packet 0 ⟨A_CLSE, 0, 1, [], []⟩)]

set_option maxRecDepth 8000 in
theorem exactly_one_status_of_a_refusal :
    ∃ st, run step serverInit shellRefused = .ok st ∧ .closedFd 0 ∈ st.log ∧ ExactlyOneStatus st := by
  obtain ⟨st, hrun, hclosed⟩ := exists_of_any (x := run step serverInit shellRefused)
    (p := fun st => decide (.closedFd 0 ∈ st.log)) (by decide)
  exact ⟨st, hrun, of_decide_eq_true hclosed, (exactly_one_status shellRefused st (by decide) hrun).1⟩

-- The device's input thread ends while the client waits. All that has happened
-- since then is the packet that asks for the shell.
def shellLost : List (Script × Input) := shellRequest ++ [(silent, .closeAll 0)]

set_option maxRecDepth 8000 in
theorem lost_device_tells_nothing :
    ¬ ∀ (inputs : List (Script × Input)) (st : Server), run step serverInit inputs = .ok st →
      ExactlyOneStatus st := by
  intro h
  obtain ⟨st, hrun, hlog⟩ := exists_of_any (x := run step serverInit shellLost)
    (p := fun st => decide (st.log = st.log.take 3 ++ .forwarded 0 ::
      ([.sent 0 ⟨A_OPEN, 1, 0, ascii "shell:ls" ++ [0]⟩ none] ++ .closedFd 0 :: []))) (by decide)
  obtain ⟨before, status, ok, behind, heq, -⟩ := h shellLost st hrun 0 _ _ _ (of_decide_eq_true hlog)
  have hmem : .status 0 status ok ∈ [Event.sent 0 ⟨A_OPEN, 1, 0, ascii "shell:ls" ++ [0]⟩ none] := by
    rw [heq]
    simp
  simp at hmem

end Statuses

end Adb.Host
