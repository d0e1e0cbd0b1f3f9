import Mathlib.Data.List.Nodup
import Adb.Lib.Run
import Adb.Device.Jdwp

namespace Adb.Device

open Adb.Lib

-- The descriptors that were queued for a process, and those that were sent to it.
def fdsQueued (log : List FdEvent) (p : Nat) : List Nat :=
  log.filterMap fun | .queued q fd => if q = p then some fd else none | _ => none

def fdsSent (log : List FdEvent) (p : Nat) : List Nat :=
  log.filterMap fun | .sent q fd => if q = p then some fd else none | _ => none

def closes (log : List FdEvent) (fd : Nat) : Nat := log.count (.closed fd)

-- What is queued for a process is sent in order and at most once. It is closed once
-- when it is sent or when the process goes, and until then it is what is counted.
structure FdsDisciplined (st : JdwpState) : Prop where
  distinct : ∀ p, (fdsQueued st.log p).Nodup
  fifo : ∀ p, fdsSent st.log p <+: fdsQueued st.log p
  once : ∀ p, ∀ fd ∈ fdsQueued st.log p, closes st.log fd ≤ 1
  sent : ∀ p, ∀ fd ∈ fdsSent st.log p, closes st.log fd = 1
  gone : ∀ p, st.heap p = none → ∀ fd ∈ fdsQueued st.log p, closes st.log fd = 1
  room : ∀ p proc, st.heap p = some proc → proc.outCount ≤ MAX_OUT_FDS
  count : ∀ p proc, st.heap p = some proc →
    proc.outCount = ((fdsQueued st.log p).filter fun fd => closes st.log fd = 0).length

-- What is received completes the PID of a process that has had none.
def PidComes (proc : JdwpProcess) (recvs : List Recv) : Prop :=
  proc.pid < 0 ∧ (recvPid (4 - proc.inBuff.length) recvs).2 = .complete ∧
    (scanPid (proc.inBuff ++ (recvPid (4 - proc.inBuff.length) recvs).1)).isSome = true

-- The event comes to FDE_WRITE: it does not read, or it gets the PID.
def ComesToWrite (proc : JdwpProcess) (calls : EventCalls) : Prop :=
  calls.write = true ∧ (calls.read = true → PidComes proc calls.recvs)

-- The flags of the socket can be set again after a descriptor was sent.
def RestoresFlags (st : JdwpState) : JdwpCall → Prop
  | .event p calls => ∀ proc, st.heap p = some proc → ComesToWrite proc calls → 0 < proc.outCount →
      calls.getfl = true → calls.setfl = true → calls.sendmsg = true → calls.restores = true
  | _ => True

-- What there is to say about one process and its descriptors.
structure Account (content : Option JdwpProcess) (queued sent : List Nat)
    (count : Nat → Nat) : Prop where
  distinct : queued.Nodup
  order : sent <+: queued
  sentClosed : ∀ fd ∈ sent, count fd = 1
  live : ∀ proc, content = some proc → proc.outFds.length = MAX_OUT_FDS ∧
    proc.outCount ≤ MAX_OUT_FDS ∧
    queued = sent ++ proc.queue ∧ ∀ fd ∈ proc.queue, count fd = 0
  gone : content = none → ∀ fd ∈ queued, count fd = 1

structure JdwpInv (st : JdwpState) : Prop where
  account : ∀ p, Account (st.heap p) (fdsQueued st.log p) (fdsSent st.log p) (closes st.log)
  apart : ∀ p q fd, fd ∈ fdsQueued st.log p → fd ∈ fdsQueued st.log q → p = q
  sockets : ∀ p proc, st.heap p = some proc → proc.socket < st.created ∧
    ∀ q, proc.socket ∉ fdsQueued st.log q
  opened : ∀ p, ∀ fd ∈ fdsQueued st.log p, fd < st.created
  unborn : ∀ p, st.fresh ≤ p → st.heap p = none ∧ fdsQueued st.log p = []
  unused : ∀ fd, st.created ≤ fd → closes st.log fd = 0

section Accounts

variable {content : Option JdwpProcess} {proc proc' : JdwpProcess} {queued sent rest : List Nat}
  {count count' : Nat → Nat} {fd : Nat}

-- The descriptors of the process are as they were.
structure JdwpProcess.Keeps (proc proc' : JdwpProcess) : Prop where
  socket : proc'.socket = proc.socket
  outFds : proc'.outFds = proc.outFds
  outCount : proc'.outCount = proc.outCount

theorem JdwpProcess.Keeps.queue (h : proc.Keeps proc') : proc'.queue = proc.queue := by
  rw [JdwpProcess.queue, h.outFds, h.outCount, JdwpProcess.queue]

-- Only the descriptors of the process count.
theorem Account.congr (h : Account content queued sent count)
    (hcount : ∀ fd ∈ queued, count' fd = count fd) :
    Account content queued sent count' := by
  refine ⟨h.distinct, h.order, fun fd hfd => ?_, fun proc hproc => ?_, fun hgone fd hfd => ?_⟩
  · rw [hcount fd (h.order.subset hfd)]
    exact h.sentClosed fd hfd
  · obtain ⟨hlen, hroom, hqueued, hopen⟩ := h.live proc hproc
    refine ⟨hlen, hroom, hqueued, fun fd hfd => ?_⟩
    rw [hcount fd (by rw [hqueued]; exact List.mem_append_right _ hfd)]
    exact hopen fd hfd
  · rw [hcount fd hfd]
    exact h.gone hgone fd hfd

theorem Account.keep (h : Account (some proc) queued sent count) (hkeeps : proc.Keeps proc') :
    Account (some proc') queued sent count := by
  obtain ⟨hlen, hroom, hqueued, hopen⟩ := h.live proc rfl
  refine ⟨h.distinct, h.order, h.sentClosed, fun other hother => ?_, nofun⟩
  cases hother
  rw [hkeeps.outFds, hkeeps.outCount, hkeeps.queue]
  exact ⟨hlen, hroom, hqueued, hopen⟩

theorem take_set_succ (fds : List Nat) (n fd : Nat) (h : n < fds.length) :
    (fds.set n fd).take (n + 1) = fds.take n ++ [fd] := by
  rw [List.take_add_one, List.take_set_of_le (Nat.le_refl n), List.getElem?_set_self h]
  rfl

-- A descriptor is queued for a process that has room for it.
theorem Account.enqueue (h : Account (some proc) queued sent count)
    (hroom : proc.outCount < MAX_OUT_FDS)
    (hnew : fd ∉ queued) (hcount : count fd = 0) :
    Account (some (proc.enqueue fd)) (queued ++ [fd]) sent count := by
  obtain ⟨hlen, -, hqueued, hopen⟩ := h.live proc rfl
  refine ⟨?_, h.order.trans (List.prefix_append _ _), h.sentClosed, fun other hother => ?_, nofun⟩
  · rw [List.nodup_append]
    refine ⟨h.distinct, List.nodup_singleton fd, fun a ha b hb heq => hnew ?_⟩
    rw [← List.mem_singleton.mp hb, ← heq]
    exact ha
  · cases hother
    have hqueue := take_set_succ proc.outFds proc.outCount fd (by rw [hlen]; exact hroom)
    refine ⟨by rw [JdwpProcess.enqueue, List.length_set, hlen], hroom, ?_, fun fd' hfd' => ?_⟩
    · show queued ++ [fd] = sent ++ (proc.outFds.set proc.outCount fd).take (proc.outCount + 1)
      rw [hqueue, hqueued, JdwpProcess.queue, List.append_assoc]
    · change fd' ∈ (proc.outFds.set proc.outCount fd).take (proc.outCount + 1) at hfd'
      rw [hqueue, List.mem_append, List.mem_singleton] at hfd'
      obtain hold | rfl := hfd'
      · exact hopen fd' hold
      · exact hcount

theorem Account.length_queue (h : Account (some proc) queued sent count) :
    proc.queue.length = proc.outCount := by
  obtain ⟨hlen, hroom, -, -⟩ := h.live proc rfl
  exact List.length_take_of_le (hlen ▸ hroom)

-- The first one of the queue goes out.
theorem Account.deliver (h : Account (some proc) queued sent count)
    (hqueue : proc.queue = fd :: rest)
    (hcount : ∀ x ∈ queued, count' x = count x + if x = fd then 1 else 0) :
    Account (some { proc.shifted with outCount := proc.outCount - 1 }) queued
      (sent ++ [fd]) count' := by
  obtain ⟨hlen, hroom, hqueued, hopen⟩ := h.live proc rfl
  have hlength := h.length_queue
  rw [hqueue, List.length_cons] at hlength
  have hqueued' : queued = sent ++ [fd] ++ rest := by
    rw [hqueued, hqueue, List.append_assoc, List.singleton_append]
  have hdistinct := h.distinct
  rw [hqueued, hqueue, List.nodup_append, List.nodup_cons] at hdistinct
  have hrest : { proc.shifted with outCount := proc.outCount - 1 }.queue = rest := by
    show (proc.queue.tail ++ proc.outFds.drop (proc.outCount - 1)).take (proc.outCount - 1) = rest
    rw [hqueue, List.tail_cons, List.take_left' (by omega)]
  refine ⟨h.distinct, ⟨rest, hqueued'.symm⟩, fun x hx => ?_, fun other hother => ?_, nofun⟩
  · rw [hcount x (by rw [hqueued']; exact List.mem_append_left _ hx)]
    obtain hbefore | hnow := List.mem_append.mp hx
    · have hne : x ≠ fd := fun heq => hdistinct.2.2 x hbefore fd (List.mem_cons_self ..) heq
      rw [if_neg hne, h.sentClosed x hbefore]
    · have heq : x = fd := List.mem_singleton.mp hnow
      rw [if_pos heq, heq, hopen fd (by rw [hqueue]; exact List.mem_cons_self ..)]
  · cases hother
    refine ⟨?_, Nat.le_trans (Nat.sub_le _ _) hroom, by rw [hrest]; exact hqueued', fun x hx => ?_⟩
    · show (proc.queue.tail ++ proc.outFds.drop (proc.outCount - 1)).length = MAX_OUT_FDS
      rw [List.length_append, hqueue, List.tail_cons, List.length_drop]
      omega
    · rw [hrest] at hx
      have hne : x ≠ fd := fun heq => hdistinct.2.1.1 (heq ▸ hx)
      rw [hcount x (by rw [hqueued']; exact List.mem_append_right _ hx), if_neg hne,
        hopen x (by rw [hqueue]; exact List.mem_cons_of_mem _ hx)]

-- All that is left is closed.
theorem Account.free (h : Account (some proc) queued sent count)
    (hcount : ∀ x ∈ queued, count' x = count x + proc.queue.count x) :
    Account none queued sent count' := by
  obtain ⟨-, -, hqueued, hopen⟩ := h.live proc rfl
  have hdistinct := h.distinct
  rw [hqueued, List.nodup_append] at hdistinct
  have hsent : ∀ x ∈ sent, count' x = 1 := fun x hx => by
    have hnot : x ∉ proc.queue := fun hmem => hdistinct.2.2 x hx x hmem rfl
    rw [hcount x (h.order.subset hx), h.sentClosed x hx, List.count_eq_zero.mpr hnot]
  refine ⟨h.distinct, h.order, hsent, nofun, fun _ x hx => ?_⟩
  rw [hqueued] at hx
  obtain hbefore | hleft := List.mem_append.mp hx
  · exact hsent x hbefore
  · rw [hcount x (by rw [hqueued]; exact List.mem_append_right _ hleft), hopen x hleft,
      List.count_eq_one_of_mem hdistinct.2.1 hleft]

end Accounts

section Log

variable {log events : List FdEvent} {p fd : Nat}

theorem fdsQueued_append : fdsQueued (log ++ events) p = fdsQueued log p ++ fdsQueued events p :=
  List.filterMap_append

theorem fdsSent_append : fdsSent (log ++ events) p = fdsSent log p ++ fdsSent events p :=
  List.filterMap_append

theorem closes_append : closes (log ++ events) fd = closes log fd + closes events fd :=
  List.count_append

end Log

section Steps

variable {st after : JdwpState} {p : Nat} {proc : JdwpProcess}

-- What is done for one process: only its descriptors are queued, sent or closed, and
-- sockets that are in no queue.
theorem JdwpInv.advance (hinv : JdwpInv st) (p : Nat) (content : Option JdwpProcess)
    (events : List FdEvent)
    (hheap : after.heap = Function.update st.heap p content)
    (hlog : after.log = st.log ++ events) (hfresh : st.fresh ≤ after.fresh) (hp : p < after.fresh)
    (hcreated : st.created ≤ after.created)
    (hothers : ∀ q, q ≠ p → fdsQueued events q = [] ∧ fdsSent events q = [])
    (hcloses : ∀ fd, closes events fd ≠ 0 → fd < after.created ∧ ∀ q, q ≠ p →
      fd ∉ fdsQueued st.log q)
    (hnew : ∀ fd ∈ fdsQueued events p, st.created ≤ fd ∧ fd < after.created)
    (hsocket : ∀ proc, content = some proc → proc.socket < after.created ∧
      ∀ q, proc.socket ∉ fdsQueued after.log q)
    (haccount : Account content (fdsQueued after.log p) (fdsSent after.log p) (closes after.log)) :
    JdwpInv after := by
  have hqueued : ∀ q, q ≠ p → fdsQueued after.log q = fdsQueued st.log q := fun q hq => by
    rw [hlog, fdsQueued_append, (hothers q hq).1, List.append_nil]
  have hsent : ∀ q, q ≠ p → fdsSent after.log q = fdsSent st.log q := fun q hq => by
    rw [hlog, fdsSent_append, (hothers q hq).2, List.append_nil]
  have hmine : ∀ fd ∈ fdsQueued after.log p, fd ∈ fdsQueued st.log p ∨ st.created ≤ fd ∧
      fd < after.created := by
    intro fd hfd
    rw [hlog, fdsQueued_append, List.mem_append] at hfd
    exact hfd.imp_right (hnew fd)
  have hother : ∀ q fd, q ≠ p → fd ∈ fdsQueued after.log p → fd ∉ fdsQueued st.log q := by
    intro q fd hq hfd hmem
    obtain hold | ⟨hlate, -⟩ := hmine fd hfd
    · exact hq (hinv.apart q p fd hmem hold)
    · exact absurd (hinv.opened q fd hmem) (Nat.not_lt.mpr hlate)
  refine ⟨fun q => ?_, fun q r fd hq hr => ?_, fun q proc hproc => ?_, fun q fd hfd => ?_,
    fun q hq => ?_, fun fd hfd => ?_⟩
  · by_cases hq : q = p
    · rw [hq, hheap, Function.update_self]
      exact haccount
    · rw [hheap, Function.update_of_ne hq, hqueued q hq, hsent q hq]
      refine (hinv.account q).congr fun fd hfd => ?_
      have hnone : closes events fd = 0 := by
        by_contra hclosed
        exact (hcloses fd hclosed).2 q hq hfd
      rw [hlog, closes_append, hnone, Nat.add_zero]
  · by_cases hqp : q = p
    · by_cases hrp : r = p
      · rw [hqp, hrp]
      · rw [hqp] at hq
        rw [hqueued r hrp] at hr
        exact absurd hr (hother r fd hrp hq)
    · rw [hqueued q hqp] at hq
      by_cases hrp : r = p
      · rw [hrp] at hr
        exact absurd hq (hother q fd hqp hr)
      · rw [hqueued r hrp] at hr
        exact hinv.apart q r fd hq hr
  · by_cases hqp : q = p
    · rw [hqp, hheap, Function.update_self] at hproc
      exact hsocket proc hproc
    · rw [hheap, Function.update_of_ne hqp] at hproc
      obtain ⟨hlt, hnot⟩ := hinv.sockets q proc hproc
      refine ⟨Nat.lt_of_lt_of_le hlt hcreated, fun r hr => ?_⟩
      by_cases hrp : r = p
      · rw [hrp] at hr
        obtain hold | ⟨hlate, -⟩ := hmine _ hr
        · exact hnot p hold
        · omega
      · rw [hqueued r hrp] at hr
        exact hnot r hr
  · by_cases hqp : q = p
    · rw [hqp] at hfd
      obtain hold | ⟨-, hlt⟩ := hmine fd hfd
      · exact Nat.lt_of_lt_of_le (hinv.opened p fd hold) hcreated
      · exact hlt
    · rw [hqueued q hqp] at hfd
      exact Nat.lt_of_lt_of_le (hinv.opened q fd hfd) hcreated
  · have hqp : q ≠ p := Nat.ne_of_gt (Nat.lt_of_lt_of_le hp hq)
    rw [hheap, Function.update_of_ne hqp, hqueued q hqp]
    exact hinv.unborn q (Nat.le_trans hfresh hq)
  · have hnone : closes events fd = 0 := by
      by_contra hclosed
      exact absurd (hcloses fd hclosed).1 (Nat.not_lt.mpr hfd)
    rw [hlog, closes_append, hnone, hinv.unused fd (Nat.le_trans hcreated hfd)]

theorem put_put (st : JdwpState) (p : Nat) (content content' : Option JdwpProcess) :
    (st.put p content).put p content' = st.put p content' := by
  simp [JdwpState.put]

theorem JdwpInv.born (hinv : JdwpInv st) (hproc : st.heap p = some proc) : p < st.fresh := by
  by_contra hlate
  rw [(hinv.unborn p (Nat.not_lt.mp hlate)).1] at hproc
  cases hproc

theorem JdwpInv.keep {proc' : JdwpProcess} (hinv : JdwpInv st) (hproc : st.heap p = some proc)
    (hkeeps : proc.Keeps proc') : JdwpInv (st.put p (some proc')) := by
  have haccount := hinv.account p
  rw [hproc] at haccount
  refine hinv.advance p (some proc') [] rfl (List.append_nil _).symm (Nat.le_refl _)
    (hinv.born hproc) (Nat.le_refl _) (fun q _ => ⟨rfl, rfl⟩)
      (fun fd hclosed => absurd rfl hclosed) nofun
    (fun other hother => ?_) (haccount.keep hkeeps)
  cases hother
  rw [hkeeps.socket]
  exact hinv.sockets p proc hproc

theorem fdsQueued_closes (fds : List Nat) (q : Nat) : fdsQueued (fds.map .closed) q = [] := by
  simp [fdsQueued, List.filterMap_map]

theorem fdsSent_closes (fds : List Nat) (q : Nat) : fdsSent (fds.map .closed) q = [] := by
  simp [fdsSent, List.filterMap_map]

theorem closes_closes (fds : List Nat) (fd : Nat) : closes (fds.map .closed) fd = fds.count fd := by
  induction fds with
  | nil => rfl
  | cons first fds ih =>
      unfold closes at ih ⊢
      rw [List.map_cons, List.count_cons, List.count_cons, ih]
      simp only [beq_iff_eq, FdEvent.closed.injEq]

theorem closes_sent (p x fd : Nat) :
    closes [.sent p fd, .closed fd] x = if x = fd then 1 else 0 := by
  show closes [.closed fd] x = _
  rw [show [FdEvent.closed fd] = [fd].map .closed from rfl, closes_closes, List.count_singleton]
  simp only [beq_iff_eq]
  exact if_congr eq_comm rfl rfl

theorem JdwpInv.mem_queue (hinv : JdwpInv st) (hproc : st.heap p = some proc) {fd : Nat}
    (hfd : fd ∈ proc.queue) :
    fd ∈ fdsQueued st.log p := by
  obtain ⟨-, -, hqueued, -⟩ := (hinv.account p).live proc hproc
  rw [hqueued]
  exact List.mem_append_right _ hfd

theorem JdwpInv.free (hinv : JdwpInv st) (hproc : st.heap p = some proc) :
    JdwpInv (jdwpProcessFree st p proc) := by
  have haccount := hinv.account p
  rw [hproc] at haccount
  obtain ⟨hsocket, hnot⟩ := hinv.sockets p proc hproc
  refine hinv.advance p none ((proc.socket :: proc.queue).map .closed) rfl rfl (Nat.le_refl _)
    (hinv.born hproc)
    (Nat.le_refl _) (fun q _ => ⟨fdsQueued_closes _ q, fdsSent_closes _ q⟩) (fun fd hclosed => ?_)
      (fun fd hfd => ?_)
    nofun ?_
  · rw [closes_closes] at hclosed
    obtain rfl | hfd := List.mem_cons.mp (List.count_pos_iff.mp (Nat.pos_of_ne_zero hclosed))
    · exact ⟨hsocket, fun q _ => hnot q⟩
    · have hmine := hinv.mem_queue hproc hfd
      exact ⟨hinv.opened p fd hmine, fun q hq hother => hq (hinv.apart q p fd hother hmine)⟩
  · rw [fdsQueued_closes] at hfd
    cases hfd
  · show Account none (fdsQueued (st.log ++ (proc.socket :: proc.queue).map .closed) p)
      (fdsSent (st.log ++ (proc.socket :: proc.queue).map .closed) p)
      (closes (st.log ++ (proc.socket :: proc.queue).map .closed))
    rw [fdsQueued_append, fdsSent_append, fdsQueued_closes, fdsSent_closes, List.append_nil,
      List.append_nil]
    refine haccount.free fun fd hfd => ?_
    have hne : proc.socket ≠ fd := fun heq => hnot p (heq ▸ hfd)
    rw [closes_append, closes_closes, List.count_cons_of_ne hne]

theorem jdwpProcessFree_keeps {proc' : JdwpProcess} (hkeeps : proc.Keeps proc') :
    jdwpProcessFree st p proc' = jdwpProcessFree st p proc := by
  rw [jdwpProcessFree, jdwpProcessFree, hkeeps.socket, hkeeps.queue]

-- What the log says when the first one of the queue goes out.
theorem JdwpInv.deliver (hinv : JdwpInv st) (hproc : st.heap p = some proc) {fd : Nat}
    {rest : List Nat}
    (hqueue : proc.queue = fd :: rest) :
    JdwpInv ((st.logged [.sent p fd, .closed fd]).put p
      (some { proc.shifted with outCount := proc.outCount - 1 })) := by
  have haccount := hinv.account p
  rw [hproc] at haccount
  have hmine : fd ∈ fdsQueued st.log p :=
    hinv.mem_queue hproc (by rw [hqueue]; exact List.mem_cons_self ..)
  have hqueued : ∀ q, fdsQueued (st.log ++ [.sent p fd, .closed fd]) q = fdsQueued st.log q :=
    fun q =>
    fdsQueued_append.trans (List.append_nil _)
  refine hinv.advance p _ [.sent p fd, .closed fd] rfl rfl (Nat.le_refl _) (hinv.born hproc)
    (Nat.le_refl _)
    (fun q hq => ⟨rfl, ?_⟩) (fun x hclosed => ?_) nofun (fun other hother => ?_) ?_
  · simp [fdsSent, hq.symm]
  · rw [closes_sent] at hclosed
    have hx : x = fd := by
      by_contra hne
      rw [if_neg hne] at hclosed
      exact hclosed rfl
    rw [hx]
    exact ⟨hinv.opened p fd hmine, fun q hq hother => hq (hinv.apart q p fd hother hmine)⟩
  · cases hother
    obtain ⟨hlt, hnot⟩ := hinv.sockets p proc hproc
    refine ⟨hlt, fun q hq => hnot q ?_⟩
    rw [← hqueued q]
    exact hq
  · show Account _ (fdsQueued (st.log ++ [.sent p fd, .closed fd]) p)
      (fdsSent (st.log ++ [.sent p fd, .closed fd]) p)
      (closes (st.log ++ [.sent p fd, .closed fd]))
    rw [hqueued, fdsSent_append, show fdsSent [.sent p fd, .closed fd] p = [fd] by simp [fdsSent]]
    refine haccount.deliver hqueue fun x _ => ?_
    rw [closes_append, closes_sent]

-- A new descriptor takes the next place.
theorem JdwpInv.enqueue (hinv : JdwpInv st) (hproc : st.heap p = some proc)
    (hroom : proc.outCount < MAX_OUT_FDS) :
    JdwpInv { (st.logged [.queued p (st.created + 1)]).put p
      (some (proc.enqueue (st.created + 1))) with
      created := st.created + 2 } := by
  have haccount := hinv.account p
  rw [hproc] at haccount
  have hnew : ∀ q, st.created + 1 ∉ fdsQueued st.log q := fun q hq => by
    have hlt := hinv.opened q _ hq
    omega
  refine hinv.advance p _ [.queued p (st.created + 1)] rfl rfl (Nat.le_refl _) (hinv.born hproc)
    (Nat.le_add_right _ 2) (fun q hq => ⟨?_, rfl⟩) (fun x hclosed => absurd rfl hclosed)
      (fun x hx => ?_)
    (fun other hother => ?_) ?_
  · simp [fdsQueued, hq.symm]
  · have heq : x = st.created + 1 := by simpa [fdsQueued] using hx
    exact ⟨by omega, show x < st.created + 2 by omega⟩
  · cases hother
    obtain ⟨hlt, hnot⟩ := hinv.sockets p proc hproc
    refine ⟨Nat.lt_of_lt_of_le hlt (Nat.le_add_right _ 2), fun q hq => ?_⟩
    obtain hold | hlate := List.mem_append.mp ((congrArg (proc.socket ∈ ·) fdsQueued_append).mp hq)
    · exact hnot q hold
    · have heq : p = q ∧ st.created + 1 = proc.socket := by simpa [fdsQueued] using hlate
      omega
  · show Account _ (fdsQueued (st.log ++ [.queued p (st.created + 1)]) p)
      (fdsSent (st.log ++ [.queued p (st.created + 1)]) p)
        (closes (st.log ++ [.queued p (st.created + 1)]))
    rw [fdsQueued_append, show fdsQueued [.queued p (st.created + 1)] p =
      [st.created + 1] by simp [fdsQueued], fdsSent_append,
      show fdsSent [.queued p (st.created + 1)] p = [] from rfl, List.append_nil]
    have hclosed : closes (st.log ++ [.queued p (st.created + 1)]) = closes st.log :=
      funext fun x => closes_append
    rw [hclosed]
    exact haccount.enqueue hroom (hnew p) (hinv.unused _ (Nat.le_add_right _ 1))

theorem jdwpInv_init : JdwpInv jdwpInit :=
  ⟨fun _ => ⟨List.nodup_nil, List.prefix_rfl, nofun, nofun, nofun⟩, nofun, nofun, nofun,
    fun _ _ => ⟨rfl, rfl⟩, fun _ _ => rfl⟩

theorem JdwpInv.control (hinv : JdwpInv st) (allocs : Bool) :
    JdwpInv (jdwpControlEvent st allocs) := by
  obtain ⟨-, hqueued⟩ := hinv.unborn st.fresh (Nat.le_refl _)
  have hsent : fdsSent st.log st.fresh = [] :=
    List.prefix_nil.mp (hqueued ▸ (hinv.account st.fresh).order)
  have hsocket : ∀ q, st.created ∉ fdsQueued st.log q := fun q hq =>
    absurd (hinv.opened q _ hq) (Nat.lt_irrefl _)
  cases allocs with
  | true =>
      refine hinv.advance st.fresh
        (some ⟨-1, st.created, [], List.replicate MAX_OUT_FDS 0, 0⟩) [] rfl
        (List.append_nil _).symm (Nat.le_succ _) (Nat.lt_succ_self _) (Nat.le_succ _)
          (fun q _ => ⟨rfl, rfl⟩)
        (fun fd hclosed => absurd rfl hclosed) nofun (fun proc hproc => ?_) ?_
      · cases hproc
        exact ⟨Nat.lt_succ_self _, hsocket⟩
      · show Account _ (fdsQueued st.log st.fresh) (fdsSent st.log st.fresh) (closes st.log)
        rw [hqueued, hsent]
        refine ⟨List.nodup_nil, List.prefix_rfl, nofun, fun proc hproc => ?_, nofun⟩
        cases hproc
        exact ⟨List.length_replicate, Nat.zero_le _, rfl, nofun⟩
  | false =>
      refine ⟨hinv.account, hinv.apart, fun p proc hproc => ?_, fun p fd hfd => ?_, hinv.unborn,
        fun fd hfd => ?_⟩
      · obtain ⟨hlt, hnot⟩ := hinv.sockets p proc hproc
        exact ⟨Nat.lt_succ_of_lt hlt, hnot⟩
      · exact Nat.lt_succ_of_lt (hinv.opened p fd hfd)
      · exact hinv.unused fd (Nat.le_of_succ_le hfd)

theorem findPid_found {pid : Int} {list : List Nat} (h : findPid st pid list = .ok (some p)) :
    ∃ proc, st.heap p = some proc := by
  induction list with
  | nil => cases h
  | cons first list ih =>
      simp only [findPid] at h
      split at h
      · cases h
      · split at h
        · cases h
          exact ⟨_, ‹_›⟩
        · exact ih h

-- What create_jdwp_connection_fd does: nothing, or one more descriptor is queued.
theorem create_cases {pid : Int} {pairs : Bool}
    (hstep : jdwpStep st (.create pid pairs) = .ok after) :
    after = st ∨ ∃ p proc, st.heap p = some proc ∧ proc.outCount < MAX_OUT_FDS ∧
      after = { (st.logged [.queued p (st.created + 1)]).put p
        (some (proc.enqueue (st.created + 1))) with
        created := st.created + 2 } := by
  simp only [jdwpStep, createJdwpConnectionFd, bind, Except.bind, pure, Except.pure] at hstep
  cases hfind : findPid st pid st.jdwpList with
  | error e =>
      rw [hfind] at hstep
      cases hstep
  | ok found =>
      rw [hfind] at hstep
      cases found with
      | none =>
          cases hstep
          exact .inl rfl
      | some p =>
          obtain ⟨proc, hproc⟩ := findPid_found hfind
          simp only [hproc] at hstep
          split at hstep
          · cases hstep
            exact .inl rfl
          · split at hstep
            · cases hstep
              exact .inl rfl
            · cases hstep
              exact .inr ⟨p, proc, hproc, Nat.not_le.mp ‹_›, rfl⟩

theorem JdwpInv.write {calls : EventCalls} (hinv : JdwpInv st) (hproc : st.heap p = some proc)
    (hguard : 0 < proc.outCount → calls.getfl = true → calls.setfl = true → calls.sendmsg = true →
      calls.restores = true) : JdwpInv (jdwpWrite st p proc calls) := by
  have haccount := hinv.account p
  rw [hproc] at haccount
  have hlength := haccount.length_queue
  unfold jdwpWrite
  cases hqueue : proc.queue with
  | nil => exact hinv
  | cons fd rest =>
      rw [hqueue, List.length_cons] at hlength
      dsimp only
      by_cases hsends : calls.getfl = true ∧ calls.setfl = true ∧ calls.sendmsg = true
      · have hrestores := hguard (by omega) hsends.1 hsends.2.1 hsends.2.2
        rw [if_neg (not_not.mpr hsends), if_neg (not_not.mpr hrestores), put_put]
        exact hinv.deliver hproc hqueue
      · rw [if_pos hsends]
        exact hinv.free hproc

-- Where the flags cannot be set again, the last one of the queue is closed twice.
theorem JdwpInv.write_twice {calls : EventCalls} (hinv : JdwpInv st) (hproc : st.heap p = some proc)
    (hcount : 0 < proc.outCount)
    (hsends : calls.getfl = true ∧ calls.setfl = true ∧ calls.sendmsg = true)
    (hrestores : calls.restores = false) :
    ∃ fd ∈ fdsQueued st.log p, 2 ≤ closes (jdwpWrite st p proc calls).log fd := by
  have haccount := hinv.account p
  rw [hproc] at haccount
  obtain ⟨hlen, hroom, -, -⟩ := haccount.live proc rfl
  have hlast : proc.outCount - 1 < proc.outFds.length := by omega
  have hqueue : proc.queue = proc.outFds.take (proc.outCount - 1) ++
      [proc.outFds[proc.outCount - 1]] := by
    rw [← List.take_succ_eq_append_getElem hlast, Nat.sub_add_cancel hcount]
    rfl
  have hlength := haccount.length_queue
  have hshifted : proc.shifted.queue = proc.queue.tail ++ [proc.outFds[proc.outCount - 1]] := by
    have htail : proc.queue.tail.length = proc.outCount - 1 := by rw [List.length_tail, hlength]
    show (proc.queue.tail ++ proc.outFds.drop (proc.outCount - 1)).take proc.outCount = _
    rw [List.take_append, List.take_of_length_le (by omega), htail, List.drop_eq_getElem_cons hlast,
      Nat.sub_sub_self hcount]
    rfl
  refine ⟨proc.outFds[proc.outCount - 1], hinv.mem_queue hproc ?_, ?_⟩
  · rw [hqueue]
    exact List.mem_append_right _ (List.mem_singleton_self _)
  · cases hfirst : proc.queue with
    | nil =>
        rw [hfirst] at hlength
        exact absurd hlength (Nat.ne_of_lt hcount)
    | cons fd rest =>
        have hmem : 1 ≤ (fd :: rest).count proc.outFds[proc.outCount - 1] := by
          rw [← hfirst, hqueue]
          exact List.count_pos_iff.mpr (List.mem_append_right _ (List.mem_singleton_self _))
        have hlog : (jdwpWrite st p proc calls).log = st.log ++ [.sent p fd, .closed fd] ++
            (proc.socket :: proc.shifted.queue).map .closed := by
          simp [jdwpWrite, hfirst, hsends, hrestores, jdwpProcessFree, JdwpState.logged,
            JdwpState.put]
          rfl
        rw [hlog, closes_append, closes_append, closes_sent, closes_closes, hshifted, hfirst,
          List.tail_cons, List.count_cons, List.count_append, List.count_singleton_self]
        by_cases hsame : proc.outFds[proc.outCount - 1] = fd
        · rw [if_pos hsame]
          omega
        · rw [List.count_cons_of_ne (Ne.symm hsame)] at hmem
          omega

-- What an event comes to: it changes nothing of the descriptors, the process goes, or
-- it gets to FDE_WRITE.
inductive EventEnd (st : JdwpState) (p : Nat) (proc : JdwpProcess) (calls : EventCalls) :
    JdwpState → Prop where
  | kept (proc' : JdwpProcess) (hkeeps : proc.Keeps proc') (hnot : ¬ComesToWrite proc calls) :
      EventEnd st p proc calls (st.put p (some proc'))
  | freed (hnot : ¬ComesToWrite proc calls) : EventEnd st p proc calls (jdwpProcessFree st p proc)
  | wrote (proc' : JdwpProcess) (hkeeps : proc.Keeps proc') (hwrite : ComesToWrite proc calls) :
      EventEnd st p proc calls (jdwpWrite (st.put p (some proc')) p proc' calls)

theorem jdwpRead_cases (proc : JdwpProcess) (recvs : List Recv) :
    match jdwpRead proc recvs with
    | .returns proc' | .closeProcess proc' => proc.Keeps proc' ∧ ¬PidComes proc recvs
    | .goesOn proc' => proc.Keeps proc' ∧ PidComes proc recvs := by
  unfold jdwpRead PidComes
  by_cases hpid : proc.pid < 0
  · rw [if_pos hpid]
    obtain ⟨bytes, ending⟩ := recvPid (4 - proc.inBuff.length) recvs
    cases ending with
    | again => exact ⟨⟨rfl, rfl, rfl⟩, fun h => (by cases h.2.1)⟩
    | broken => exact ⟨⟨rfl, rfl, rfl⟩, fun h => (by cases h.2.1)⟩
    | complete =>
        dsimp only
        cases hscan : scanPid (proc.inBuff ++ bytes) with
        | none => exact ⟨⟨rfl, rfl, rfl⟩, fun h => (by cases h.2.2)⟩
        | some pid => exact ⟨⟨rfl, rfl, rfl⟩, hpid, rfl, rfl⟩
  · rw [if_neg hpid]
    by_cases hends : recvEnds recvs = true
    · rw [if_pos hends]
      exact ⟨⟨rfl, rfl, rfl⟩, fun h => hpid h.1⟩
    · rw [if_neg hends]
      exact ⟨⟨rfl, rfl, rfl⟩, fun h => hpid h.1⟩

theorem event_cases {calls : EventCalls} (hproc : st.heap p = some proc)
    (hstep : jdwpStep st (.event p calls) = .ok after) : EventEnd st p proc calls after := by
  have hread := jdwpRead_cases proc calls.recvs
  simp only [jdwpStep, jdwpProcessEvent, hproc] at hstep
  by_cases hreads : calls.read = true
  · rw [if_pos hreads] at hstep
    cases hends : jdwpRead proc calls.recvs with
    | returns proc' =>
        rw [hends] at hread hstep
        cases hstep
        exact .kept proc' hread.1 fun h => hread.2 (h.2 hreads)
    | closeProcess proc' =>
        rw [hends] at hread hstep
        cases hstep
        rw [jdwpProcessFree_keeps hread.1]
        exact .freed fun h => hread.2 (h.2 hreads)
    | goesOn proc' =>
        rw [hends] at hread hstep
        cases hstep
        split
        · exact .wrote proc' hread.1 ⟨‹_›, fun _ => hread.2⟩
        · exact .kept proc' hread.1 fun h => absurd h.1 ‹_›
  · rw [if_neg hreads] at hstep
    cases hstep
    split
    · exact .wrote proc ⟨rfl, rfl, rfl⟩ ⟨‹_›, fun h => absurd h hreads⟩
    · exact .kept proc ⟨rfl, rfl, rfl⟩ fun h => absurd h.1 ‹_›

theorem step_inv {call : JdwpCall} (hinv : JdwpInv st) (hguard : RestoresFlags st call)
    (hstep : jdwpStep st call = .ok after) : JdwpInv after := by
  cases call with
  | control allocs =>
      cases hstep
      exact hinv.control allocs
  | create pid pairs =>
      obtain rfl | ⟨p, proc, hproc, hroom, rfl⟩ := create_cases hstep
      · exact hinv
      · exact hinv.enqueue hproc hroom
  | event p calls =>
      cases hproc : st.heap p with
      | none =>
          simp only [jdwpStep, jdwpProcessEvent, hproc] at hstep
          cases hstep
      | some proc =>
          cases event_cases hproc hstep with
          | kept proc' hkeeps hnot => exact hinv.keep hproc hkeeps
          | freed hnot => exact hinv.free hproc
          | wrote proc' hkeeps hwrite =>
              refine (hinv.keep hproc hkeeps).write (Function.update_self ..) fun hcount => ?_
              rw [hkeeps.outCount] at hcount
              exact hguard proc hproc hwrite hcount

-- A descriptor is closed twice where the guard is missed.
theorem step_twice {call : JdwpCall} (hinv : JdwpInv st) (hmiss : ¬RestoresFlags st call)
    (hstep : jdwpStep st call = .ok after) :
    ∃ p, ∃ fd ∈ fdsQueued st.log p, 2 ≤ closes after.log fd := by
  cases call with
  | control allocs => exact absurd trivial hmiss
  | create pid pairs => exact absurd trivial hmiss
  | event p calls =>
      simp only [RestoresFlags, not_forall, Bool.not_eq_true] at hmiss
      obtain ⟨proc, hproc, hwrite, hcount, hgetfl, hsetfl, hsendmsg, hrestores⟩ := hmiss
      refine ⟨p, ?_⟩
      cases event_cases hproc hstep with
      | kept proc' hkeeps hnot => exact absurd hwrite hnot
      | freed hnot => exact absurd hwrite hnot
      | wrote proc' hkeeps _ =>
          exact (hinv.keep hproc hkeeps).write_twice (Function.update_self ..)
            (hkeeps.outCount ▸ hcount)
            ⟨hgetfl, hsetfl, hsendmsg⟩ hrestores

-- The log only grows.
theorem write_log (st : JdwpState) (p : Nat) (proc : JdwpProcess) (calls : EventCalls) :
    st.log <+: (jdwpWrite st p proc calls).log := by
  unfold jdwpWrite
  split
  · exact List.prefix_rfl
  · split
    · exact List.prefix_append _ _
    · dsimp only
      split
      · exact (List.prefix_append _ _).trans (List.prefix_append _ _)
      · exact List.prefix_append _ _

theorem step_log {call : JdwpCall} (hstep : jdwpStep st call = .ok after) :
    st.log <+: after.log := by
  cases call with
  | control allocs =>
      cases hstep
      cases allocs <;> exact List.prefix_rfl
  | create pid pairs =>
      obtain rfl | ⟨p, proc, -, -, rfl⟩ := create_cases hstep
      · exact List.prefix_rfl
      · exact List.prefix_append _ _
  | event p calls =>
      cases hproc : st.heap p with
      | none =>
          simp only [jdwpStep, jdwpProcessEvent, hproc] at hstep
          cases hstep
      | some proc =>
          cases event_cases hproc hstep with
          | kept proc' hkeeps hnot => exact List.prefix_rfl
          | freed hnot => exact List.prefix_append _ _
          | wrote proc' hkeeps hwrite => exact write_log (st.put p (some proc')) p proc' calls

theorem run_log {calls : List JdwpCall} (hr : run jdwpStep st calls = .ok after) :
    st.log <+: after.log := by
  induction calls generalizing st with
  | nil =>
      cases hr
      exact List.prefix_rfl
  | cons call calls ih =>
      obtain ⟨next, hstep, hr⟩ := run_cons_ok hr
      exact (step_log hstep).trans (ih hr)

theorem unguarded_twice {calls : List JdwpCall} (hinv : JdwpInv st)
    (hr : run jdwpStep st calls = .ok after)
    (hg : ¬Guarded jdwpStep RestoresFlags st calls) :
    ∃ p, ∃ fd ∈ fdsQueued after.log p, 2 ≤ closes after.log fd := by
  induction calls generalizing st with
  | nil => exact absurd trivial hg
  | cons call calls ih =>
      obtain ⟨next, hstep, hr⟩ := run_cons_ok hr
      rw [guarded_cons hstep, not_and] at hg
      by_cases hguard : RestoresFlags st call
      · exact ih (step_inv hinv hguard hstep) hr (hg hguard)
      · obtain ⟨p, fd, hqueued, htwice⟩ := step_twice hinv hguard hstep
        obtain ⟨later, hlater⟩ := run_log hr
        have hmem : fd ∈ fdsQueued after.log p := by
          obtain ⟨more, hmore⟩ := (step_log hstep).trans (run_log hr)
          rw [← hmore, fdsQueued_append]
          exact List.mem_append_left _ hqueued
        refine ⟨p, fd, hmem, ?_⟩
        rw [← hlater, closes_append]
        omega

theorem Account.filter_open {queued sent : List Nat} {count : Nat → Nat}
    (h : Account (some proc) queued sent count) :
    (queued.filter fun fd => count fd = 0) = proc.queue := by
  obtain ⟨-, -, hqueued, hopen⟩ := h.live proc rfl
  have hsent : (sent.filter fun fd => count fd = 0) = [] := by
    rw [List.filter_eq_nil_iff]
    intro fd hfd
    simp [h.sentClosed fd hfd]
  have hqueue : (proc.queue.filter fun fd => count fd = 0) = proc.queue := by
    rw [List.filter_eq_self]
    intro fd hfd
    simp [hopen fd hfd]
  rw [hqueued, List.filter_append, hsent, hqueue, List.nil_append]

theorem JdwpInv.disciplined (hinv : JdwpInv st) : FdsDisciplined st := by
  refine ⟨fun p => (hinv.account p).distinct, fun p => (hinv.account p).order, fun p fd hfd => ?_,
    fun p => (hinv.account p).sentClosed, fun p => (hinv.account p).gone, fun p proc hproc => ?_,
    fun p proc hproc => ?_⟩
  · have haccount := hinv.account p
    cases hproc : st.heap p with
    | none => exact Nat.le_of_eq (haccount.gone hproc fd hfd)
    | some proc =>
        obtain ⟨-, -, hqueued, hopen⟩ := haccount.live proc hproc
        rw [hqueued] at hfd
        obtain hsent | hleft := List.mem_append.mp hfd
        · exact Nat.le_of_eq (haccount.sentClosed fd hsent)
        · rw [hopen fd hleft]
          exact Nat.zero_le 1
  · exact ((hinv.account p).live proc hproc).2.1
  · have haccount := hinv.account p
    rw [hproc] at haccount
    rw [haccount.filter_open, haccount.length_queue]

end Steps

section Alive

variable {st after : JdwpState} {p : Nat} {proc : JdwpProcess} {calls : List JdwpCall}

-- Every process on the list is there.
structure Listed (st : JdwpState) : Prop where
  nodup : st.jdwpList.Nodup
  born : ∀ p ∈ st.jdwpList, p < st.fresh
  there : ∀ p ∈ st.jdwpList, (st.heap p).isSome = true

theorem Listed.logged (h : Listed st) (events : List FdEvent) : Listed (st.logged events) :=
  ⟨h.nodup, h.born, h.there⟩

theorem Listed.put (h : Listed st) (p : Nat) (proc : JdwpProcess) :
    Listed (st.put p (some proc)) := by
  refine ⟨h.nodup, h.born, fun q hq => ?_⟩
  show (Function.update st.heap p (some proc) q).isSome = true
  by_cases hqp : q = p
  · rw [hqp, Function.update_self]
    rfl
  · rw [Function.update_of_ne hqp]
    exact h.there q hq

theorem Listed.free (h : Listed st) (p : Nat) (proc : JdwpProcess) :
    Listed (jdwpProcessFree st p proc) := by
  refine ⟨h.nodup.erase p, fun q hq => h.born q (List.mem_of_mem_erase hq), fun q hq => ?_⟩
  obtain ⟨hqp, hmem⟩ := (List.Nodup.mem_erase_iff h.nodup).mp hq
  show (Function.update st.heap p none q).isSome = true
  rw [Function.update_of_ne hqp]
  exact h.there q hmem

theorem Listed.write (h : Listed st) (p : Nat) (proc : JdwpProcess) (calls : EventCalls) :
    Listed (jdwpWrite st p proc calls) := by
  unfold jdwpWrite
  split
  · exact h
  · split
    · exact h.free p proc
    · dsimp only
      split
      · exact ((h.logged _).put p _).free p _
      · exact ((h.logged _).put p _).put p _

theorem Listed.control (h : Listed st) (allocs : Bool) : Listed (jdwpControlEvent st allocs) := by
  cases allocs with
  | false => exact ⟨h.nodup, h.born, h.there⟩
  | true =>
      have hnew : st.fresh ∉ st.jdwpList := fun hmem => absurd (h.born _ hmem) (Nat.lt_irrefl _)
      refine ⟨?_, fun q hq => ?_, fun q hq => ?_⟩
      · show (st.jdwpList ++ [st.fresh]).Nodup
        rw [List.nodup_append]
        exact ⟨h.nodup, List.nodup_singleton _,
          fun a ha b hb heq => hnew (List.mem_singleton.mp hb ▸ heq ▸ ha)⟩
      · obtain hold | hlast := List.mem_append.mp hq
        · exact Nat.lt_succ_of_lt (h.born q hold)
        · rw [List.mem_singleton.mp hlast]
          exact Nat.lt_succ_self _
      · show (Function.update st.heap st.fresh _ q).isSome = true
        by_cases hq' : q = st.fresh
        · rw [hq', Function.update_self]
          rfl
        · rw [Function.update_of_ne hq']
          obtain hold | hlast := List.mem_append.mp hq
          · exact h.there q hold
          · exact absurd (List.mem_singleton.mp hlast) hq'

theorem step_listed {call : JdwpCall} (h : Listed st) (hstep : jdwpStep st call = .ok after) :
    Listed after := by
  cases call with
  | control allocs =>
      cases hstep
      exact h.control allocs
  | create pid pairs =>
      obtain rfl | ⟨p, proc, -, -, rfl⟩ := create_cases hstep
      · exact h
      · have hput := (h.logged [.queued p (st.created + 1)]).put p (proc.enqueue (st.created + 1))
        exact ⟨hput.nodup, hput.born, hput.there⟩
  | event p calls =>
      cases hproc : st.heap p with
      | none =>
          simp only [jdwpStep, jdwpProcessEvent, hproc] at hstep
          cases hstep
      | some proc =>
          cases event_cases hproc hstep with
          | kept proc' hkeeps hnot => exact h.put p proc'
          | freed hnot => exact h.free p proc
          | wrote proc' hkeeps hwrite => exact (h.put p proc').write p proc' calls

-- A search comes by processes that are there only.
theorem findPid_ok (pid : Int) {list : List Nat} (h : ∀ p ∈ list, (st.heap p).isSome = true) :
    ∃ found, findPid st pid list = .ok found := by
  induction list with
  | nil => exact ⟨none, rfl⟩
  | cons p list ih =>
      obtain ⟨proc, hproc⟩ := Option.isSome_iff_exists.mp (h p (List.mem_cons_self ..))
      simp only [findPid, hproc]
      split
      · exact ⟨some p, rfl⟩
      · exact ih fun q hq => h q (List.mem_cons_of_mem _ hq)

-- In no run does create_jdwp_connection_fd look at a process that was freed.
theorem create_jdwp_connection_fd_ok (hr : run jdwpStep jdwpInit calls = .ok st) (pid : Int)
    (pairs : Bool) :
    ∃ after, jdwpStep st (.create pid pairs) = .ok after := by
  have hlisted : Listed st := run_invariant (fun _ _ _ => step_listed) ⟨List.nodup_nil,
    fun _ hp => absurd hp List.not_mem_nil, fun _ hp => absurd hp List.not_mem_nil⟩ hr
  obtain ⟨found, hfind⟩ := findPid_ok pid hlisted.there
  simp only [jdwpStep, createJdwpConnectionFd, hfind, bind, Except.bind, pure, Except.pure]
  cases found with
  | none => exact ⟨_, rfl⟩
  | some p =>
      obtain ⟨proc, hproc⟩ := findPid_found hfind
      simp only [hproc]
      split
      · exact ⟨_, rfl⟩
      · split <;> exact ⟨_, rfl⟩

end Alive

-- In every run the descriptors are treated as they should exactly where the flags of
-- the socket can be set again after each one that is sent.
theorem jdwp_fds_disciplined_iff (calls : List JdwpCall) (st : JdwpState)
    (hr : run jdwpStep jdwpInit calls = .ok st) :
    FdsDisciplined st ↔ Guarded jdwpStep RestoresFlags jdwpInit calls := by
  constructor
  · intro hdisciplined
    by_contra hg
    obtain ⟨p, fd, hqueued, htwice⟩ := unguarded_twice jdwpInv_init hr hg
    have honce := hdisciplined.once p fd hqueued
    omega
  · intro hg
    exact (guarded_invariant (fun _ _ _ => step_inv) jdwpInv_init hg hr).disciplined

-- Events of the first process: it says that it is 0x1f, and its socket can be written.
def firstSays : JdwpCall :=
  .event 0 ⟨true, false, [.bytes 48 [48, 49, 102]], true, true, true, true⟩

def firstTakes (restores : Bool) : JdwpCall :=
  .event 0 ⟨false, true, [], true, true, true, restores⟩

theorem jdwp_fds_disciplined_of_one : ∃ st, fdsSent st.log 0 = [2] ∧ FdsDisciplined st :=
  ⟨_, rfl, (jdwp_fds_disciplined_iff
    [.control true, firstSays, .create 31 true, firstTakes true] _ rfl).mpr
    ⟨trivial, fun _ _ => ⟨fun _ _ _ _ _ _ _ => rfl, fun _ _ => ⟨trivial, fun _ _ =>
      ⟨fun _ _ _ _ _ _ _ => rfl, fun _ _ => trivial⟩⟩⟩⟩⟩

-- The only descriptor is sent and closed, and then it is closed with the process.
theorem unrestored_flags_close_twice : ∃ st,
    run jdwpStep jdwpInit [.control true, firstSays, .create 31 true, firstTakes false] = .ok st ∧
      closes st.log 2 = 2 ∧ ¬FdsDisciplined st := by
  refine ⟨_, rfl, by decide, fun hdisciplined => ?_⟩
  have honce := hdisciplined.once 0 2 (by decide)
  exact absurd honce (by decide)

end Adb.Device
