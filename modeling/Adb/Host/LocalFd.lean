import Adb.Host.Works

namespace Adb.Host

open Adb.Lib

-- One local socket: what has been put into it, and what its fd has taken.
structure LocalFd where
  socket : Option ASocket
  enqueued : Bytes
  written : Bytes
  failed : Bool

-- What the peer of the socket does to it, on its own account or while it is called.
inductive PeerCall where
  | enqueue (p : Bytes) (writes : List WriteOutcome)
  | ready
  | close

def PeerCall.closes : PeerCall → Bool
  | .close => true
  | _ => false

-- What happens around one call of local_socket_event_func. result is what
-- peer->enqueue returns.
structure Callback where
  writes : List WriteOutcome
  onReady : List PeerCall
  reads : List ReadOutcome
  onEnqueue : List PeerCall
  result : Int

inductive FdInput where
  | peer (call : PeerCall)
  | signal
  | callback (c : Callback)

namespace LocalFd

def deref (fd : LocalFd) : Except Stop ASocket :=
  match fd.socket with
  | some s => .ok s
  | none => .error .useAfterFree

-- local_socket_close, with the peer taken off.
def close (fd : LocalFd) (s : ASocket) : LocalFd :=
  { fd with socket := fate s }

def queue (fd : LocalFd) (s : ASocket) (p : Bytes) : LocalFd :=
  { fd with socket := some { s with pkts := s.pkts ++ [p], fde := fdeventAdd s.fde FDE_WRITE } }

def enqueue (fd : LocalFd) (p : Bytes) (writes : List WriteOutcome) : Except Stop LocalFd := do
  let s ← fd.deref
  let fd := { fd with enqueued := fd.enqueued ++ p }
  if s.pkts ≠ [] then
    return fd.queue s p
  else
    let result := writeLoop false p writes
    let fd := { fd with written := fd.written ++ result.written }
    match result.outcome with
    | .blocked => .error .blocked
    | .failed => return { fd with failed := true }.close s
    | .done => return fd
    | .again => return fd.queue s result.rest

def ready (fd : LocalFd) : Except Stop LocalFd := do
  let s ← fd.deref
  return { fd with socket := some { s with fde := fdeventAdd s.fde FDE_READ } }

-- A peer that has closed the socket, or has been closed by it, is not linked to it.
def peerClose (fd : LocalFd) : Except Stop LocalFd := do
  let s ← fd.deref
  match s.peer with
  | none => .error .disabled
  | some _ => return fd.close s

def call (fd : LocalFd) : PeerCall → Except Stop LocalFd
  | .enqueue p writes => fd.enqueue p writes
  | .ready => fd.ready
  | .close => fd.peerClose

def eventWrite (fd : LocalFd) (c : Callback) : Except Stop (Bool × LocalFd) := do
  let s ← fd.deref
  let result := drainQueue s.pkts c.writes
  let s := { s with pkts := result.pkts }
  let fd := { fd with socket := some s, written := fd.written ++ result.written }
  match result.outcome with
  | .blocked => .error .blocked
  | .again => return (false, fd)
  | .failed => return (false, { fd with failed := true }.close s)
  | .done =>
      if s.closing then
        return (false, fd.close s)
      else
        match s.peer with
        | none => .error (.nullPeer .eventFunc)
        | some _ => do
            let s := { s with fde := fdeventDel s.fde FDE_WRITE }
            let fd ← run call { fd with socket := some s } c.onReady
            return (true, fd)

-- What is left after the reads and after peer->enqueue.
def finishRead (fd : LocalFd) (eof : Bool) : Except Stop LocalFd := do
  let s ← fd.deref
  return if eof then fd.close s else fd

def eventRead (fd : LocalFd) (c : Callback) : Except Stop LocalFd := do
  let s ← fd.deref
  let result := readLoop MAX_PAYLOAD c.reads
  let eof := result.outcome = .eof
  if result.outcome = .blocked then
    .error .blocked
  else if s.peer = none ∨ result.bytes = [] then
    fd.finishRead eof
  else do
    let fd ← run call fd c.onEnqueue
    if c.result < 0 then
      return fd
    else if c.result > 0 then do
      let s ← fd.deref
      { fd with socket := some { s with fde := fdeventDel s.fde FDE_READ } }.finishRead eof
    else
      fd.finishRead eof

def eventFunc (fd : LocalFd) (events : BitVec 16) (c : Callback) : Except Stop LocalFd := do
  let (goOn, fd) ← (if firesWrite events then fd.eventWrite c else pure (true, fd))
  if goOn ∧ firesRead events then
    fd.eventRead c
  else
    return fd

def step (fd : LocalFd) : FdInput → Except Stop LocalFd
  | .peer call => fd.call call
  | .signal =>
      match fd.socket with
      | none => .error .disabled
      | some s =>
          match eventHookSignal s.fde with
          | none => .error .disabled
          | some fde => .ok { fd with socket := some { s with fde } }
  | .callback c =>
      match fd.socket with
      | none => .error .disabled
      | some s =>
          match fdeventDequeue s.fde with
          | none => .error .disabled
          | some (events, fde) => { fd with socket := some { s with fde } }.eventFunc events c

end LocalFd

-- A socket from create_local_socket that has been given a peer.
def localFdInit : LocalFd where
  socket := some { newSocket .localSocket with peer := some 1 }
  enqueued := []
  written := []
  failed := false

-- The fd is at its end, or of no more use, before a packet is full.
def endsReading : Nat → List ReadOutcome → Bool
  | 0, _ => false
  | _ + 1, [] => false
  | avail + 1, .data bytes :: reads => bytes = [] || endsReading (avail + 1 - bytes.length) reads
  | _ + 1, .again :: _ => false
  | avail + 1, .intr :: reads => endsReading (avail + 1) reads
  | _ + 1, .failed :: _ => true

-- A callback that finds the end of the stream finds the socket open, or it writes
-- first; and no peer has closed the socket in a call that the callback goes on from.
def InTime (fd : LocalFd) : FdInput → Prop
  | .callback c => ∀ s events fde, fd.socket = some s → fdeventDequeue s.fde = some (events, fde) →
      firesRead events = true → endsReading MAX_PAYLOAD c.reads = true →
      (s.closing = true → firesWrite events = true) ∧
      (firesWrite events = true → c.onReady.any PeerCall.closes = false) ∧
      (c.onEnqueue.any PeerCall.closes = true → c.result < 0)
  | _ => True

theorem readLoop_eof_iff (avail : Nat) (reads : List ReadOutcome) :
    (readLoop avail reads).outcome = .eof ↔ endsReading avail reads = true := by
  induction avail, reads using readLoop.induct with
  | case1 reads => simp [readLoop, endsReading]
  | case2 avail => simp [readLoop, endsReading]
  | case3 avail bytes reads got hgot =>
      have htake : bytes.take (avail + 1) = [] := hgot
      have hnil : bytes = [] := by simpa using htake
      simp [readLoop, endsReading, hnil]
  | case4 avail bytes reads got hgot ih =>
      have htake : ¬bytes.take (avail + 1) = [] := hgot
      have hnil : ¬bytes = [] := by simpa using htake
      have hlen : avail + 1 - (bytes.take (avail + 1)).length = avail + 1 - bytes.length := by
        rw [List.length_take]
        omega
      have ih' : (readLoop (avail + 1 - (bytes.take (avail + 1)).length) reads).outcome = .eof ↔
          endsReading (avail + 1 - (bytes.take (avail + 1)).length) reads = true := ih
      rw [hlen] at ih'
      simp only [readLoop, if_neg htake, endsReading, hnil, decide_false, Bool.false_or, hlen]
      exact ih'
  | case5 avail reads => simp [readLoop, endsReading]
  | case6 avail reads ih => simpa [readLoop, endsReading] using ih
  | case7 avail reads => simp [readLoop, endsReading]

namespace LocalFd

variable {fd after : LocalFd} {s : ASocket} {p : Bytes}

-- What the fd has taken, followed by the queue, is what has been put in.
structure Ordered (fd : LocalFd) : Prop where
  islocal : ∀ s, fd.socket = some s → s.ops = .localSocket
  split : ∀ s, fd.socket = some s → fd.written ++ s.pkts.flatten = fd.enqueued
  apart : ∀ s, fd.socket = some s → s.closing = true → s.peer = none
  order : fd.written <+: fd.enqueued

-- Nothing is lost with the socket.
def Sent (fd : LocalFd) : Prop :=
  fd.socket = none → fd.failed = false → fd.written = fd.enqueued

def Open (fd : LocalFd) : Prop :=
  ∀ s, fd.socket = some s → s.closing = false

theorem deref_ensures (fd : LocalFd) : Ensures fd.deref (fun s => fd.socket = some s) Anyway := by
  unfold deref
  cases fd.socket with
  | none => trivial
  | some s => rfl

theorem Ordered.put {x : ASocket} (hs : fd.socket = some x) (hx : x.ops = .localSocket)
    (hsplit : fd.written ++ x.pkts.flatten = fd.enqueued) (hapart : x.closing = true → x.peer = none) :
    Ordered fd where
  islocal := by
    intro y hy
    rw [hs, Option.some.injEq] at hy
    exact hy ▸ hx
  split := by
    intro y hy
    rw [hs, Option.some.injEq] at hy
    exact hy ▸ hsplit
  apart := by
    intro y hy
    rw [hs, Option.some.injEq] at hy
    exact hy ▸ hapart
  order := ⟨x.pkts.flatten, hsplit⟩

theorem Ordered.of_none (hs : fd.socket = none) (h : fd.written <+: fd.enqueued) : Ordered fd := by
  refine ⟨?_, ?_, ?_, h⟩ <;> simp [hs]

theorem Sent.of_live (hs : fd.socket = some s) : Sent fd := by
  intro hn
  rw [hs] at hn
  cases hn

theorem Sent.of_failed (hf : fd.failed = true) : Sent fd := by
  intro _ hok
  rw [hf] at hok
  cases hok

theorem close_ordered (hlocal : s.ops = .localSocket)
    (hsplit : fd.written ++ s.pkts.flatten = fd.enqueued) : Ordered (fd.close s) := by
  cases hf : fate s with
  | none => exact Ordered.of_none hf ⟨s.pkts.flatten, hsplit⟩
  | some x =>
      have hlive : (fd.close s).socket = some x := hf
      have hx : x = { s with peer := none, closing := true, id := 0, fde := fdeventDel s.fde FDE_READ } := by
        unfold fate at hf
        split at hf
        · exact (Option.some.inj hf).symm
        · cases hf
      apply Ordered.put hlive
      · rw [hx]
        exact hlocal
      · rw [hx]
        exact hsplit
      · intro _
        rw [hx]

-- A socket is only destroyed with a queue when it was closing before.
theorem close_sent (hlocal : s.ops = .localSocket)
    (hsplit : fd.written ++ s.pkts.flatten = fd.enqueued) (h : s.closing = false ∨ s.pkts = []) :
    Sent (fd.close s) := by
  intro hgone _
  have hempty : s.pkts = [] := by
    rcases h with hopen | hempty
    · by_contra hne
      have hlive : (fd.close s).socket = some _ :=
        if_pos ⟨by rw [hlocal]; rfl, by simp [hopen, hne]⟩
      rw [hlive] at hgone
      cases hgone
    · exact hempty
  rw [hempty, List.flatten_nil, List.append_nil] at hsplit
  exact hsplit

-- What a call of the peer leaves of a socket it has found.
structure Kept (fd : LocalFd) (closes : Bool) (after : LocalFd) : Prop where
  ordered : Ordered after
  sent : Sent after
  stays : closes = false → Open fd → Open after

theorem Kept.of_closed {closes : Bool} (h : Ordered after) (hsent : Sent after)
    (hgone : after.socket = none) : Kept fd closes after := by
  refine ⟨h, hsent, fun _ _ x hx => ?_⟩
  rw [hgone] at hx
  cases hx

theorem queue_kept {start : LocalFd} (hs : start.socket = some s) (hlocal : s.ops = .localSocket)
    (hapart : s.closing = true → s.peer = none)
    (hsplit : fd.written ++ (s.pkts ++ [p]).flatten = fd.enqueued) :
    Kept start false (fd.queue s p) := by
  have hq : (fd.queue s p).socket =
      some { s with pkts := s.pkts ++ [p], fde := fdeventAdd s.fde FDE_WRITE } := rfl
  refine ⟨Ordered.put hq hlocal hsplit hapart, Sent.of_live hq, fun _ hopen x hx => ?_⟩
  rw [hq, Option.some.injEq] at hx
  subst hx
  exact hopen s hs

theorem enqueue_kept (h : Ordered fd) (writes : List WriteOutcome) :
    Ensures (fd.enqueue p writes) (Kept fd false) Anyway := by
  unfold enqueue
  apply (deref_ensures fd).bind
  intro s hs
  have hlocal := h.islocal s hs
  have hsplit := h.split s hs
  simp only
  by_cases hpkts : s.pkts = []
  · rw [if_neg (by simp [hpkts])]
    rw [hpkts, List.flatten_nil, List.append_nil] at hsplit
    obtain ⟨result, hresult⟩ : ∃ result, result = writeLoop false p writes := ⟨_, rfl⟩
    have hparts : result.written ++ result.rest = p := hresult ▸ writeLoop_split false p writes
    simp only [← hresult]
    cases hout : result.outcome with
    | blocked => trivial
    | failed =>
        have hclosed : fate s = none := fate_nil hpkts
        refine Kept.of_closed (Ordered.of_none hclosed ⟨result.rest, ?_⟩) (Sent.of_failed rfl) hclosed
        show (fd.written ++ result.written) ++ result.rest = fd.enqueued ++ p
        rw [List.append_assoc, hparts, hsplit]
    | done =>
        have hrest : result.rest = [] := by
          rw [hresult] at hout ⊢
          exact writeLoop_done false p writes hout
        rw [hrest, List.append_nil] at hparts
        refine ⟨Ordered.put hs hlocal ?_ (h.apart s hs), Sent.of_live hs, fun _ hopen => hopen⟩
        show (fd.written ++ result.written) ++ s.pkts.flatten = fd.enqueued ++ p
        rw [hpkts, List.flatten_nil, List.append_nil, hparts, hsplit]
    | again =>
        apply queue_kept hs hlocal (h.apart s hs)
        show (fd.written ++ result.written) ++ (s.pkts ++ [result.rest]).flatten = fd.enqueued ++ p
        rw [hpkts, List.nil_append, List.flatten_singleton, List.append_assoc, hparts, hsplit]
  · rw [if_pos hpkts]
    apply queue_kept hs hlocal (h.apart s hs)
    show fd.written ++ (s.pkts ++ [p]).flatten = fd.enqueued ++ p
    rw [List.flatten_append, List.flatten_singleton, ← List.append_assoc, hsplit]

-- The socket is the same but for its fdevent.
theorem Ordered.interest (h : Ordered fd) (hs : fd.socket = some s) (fde : Fdevent) :
    Kept fd false { fd with socket := some { s with fde } } := by
  refine ⟨Ordered.put rfl (h.islocal s hs) (h.split s hs) (h.apart s hs), Sent.of_live rfl,
    fun _ hopen x hx => ?_⟩
  rw [Option.some.injEq] at hx
  subst hx
  exact hopen s hs

theorem call_kept (h : Ordered fd) (c : PeerCall) :
    Ensures (fd.call c) (Kept fd c.closes) Anyway := by
  cases c with
  | enqueue p writes => exact enqueue_kept h writes
  | ready =>
      show Ensures fd.ready _ _
      unfold ready
      apply (deref_ensures fd).bind
      intro s hs
      exact h.interest hs _
  | close =>
      show Ensures fd.peerClose _ _
      unfold peerClose
      apply (deref_ensures fd).bind
      intro s hs
      cases hp : s.peer with
      | none => trivial
      | some q =>
          have hopen : s.closing = false := by
            cases hc : s.closing with
            | false => rfl
            | true => simp [h.apart s hs hc] at hp
          have hlocal := h.islocal s hs
          have hsplit := h.split s hs
          exact ⟨close_ordered hlocal hsplit, close_sent hlocal hsplit (Or.inl hopen), by simp [PeerCall.closes]⟩

theorem calls_kept (h : Ordered fd) (hsent : Sent fd) (calls : List PeerCall) :
    Ensures (run call fd calls) (Kept fd (calls.any PeerCall.closes)) Anyway := by
  induction calls generalizing fd with
  | nil => exact ⟨h, hsent, fun _ hopen => hopen⟩
  | cons c rest ih =>
      have hfirst := call_kept h c
      unfold run
      cases hc : fd.call c with
      | error e => trivial
      | ok next =>
          have hn := hfirst.of_ok hc
          apply (ih hn.ordered hn.sent).weaken
          intro after hk
          refine ⟨hk.ordered, hk.sent, fun hno hopen => ?_⟩
          rw [List.any_cons, Bool.or_eq_false_iff] at hno
          exact hk.stays hno.2 (hn.stays hno.1 hopen)

theorem eventWrite_kept (h : Ordered fd) (c : Callback) :
    Ensures (fd.eventWrite c) (fun r => Ordered r.2 ∧ Sent r.2 ∧
      (r.1 = true → c.onReady.any PeerCall.closes = false → Open r.2)) Anyway := by
  unfold eventWrite
  apply (deref_ensures fd).bind
  intro s hs
  have hlocal := h.islocal s hs
  have hsplit := h.split s hs
  obtain ⟨result, hresult⟩ : ∃ result, result = drainQueue s.pkts c.writes := ⟨_, rfl⟩
  have hparts : result.written ++ result.pkts.flatten = s.pkts.flatten :=
    hresult ▸ drainQueue_split s.pkts c.writes
  have hafter : (fd.written ++ result.written) ++ result.pkts.flatten = fd.enqueued := by
    rw [List.append_assoc, hparts, hsplit]
  simp only [← hresult]
  cases hout : result.outcome with
  | blocked => trivial
  | again => exact ⟨Ordered.put rfl hlocal hafter (h.apart s hs), Sent.of_live rfl, by simp⟩
  | failed => exact ⟨close_ordered hlocal hafter, Sent.of_failed rfl, by simp⟩
  | done =>
      have hempty : result.pkts = [] := by
        rw [hresult] at hout ⊢
        exact drainQueue_done s.pkts c.writes hout
      by_cases hclosing : s.closing = true
      · simp only [if_pos hclosing]
        exact ⟨close_ordered hlocal hafter, close_sent hlocal hafter (Or.inr hempty), by simp⟩
      · simp only [if_neg hclosing]
        cases hp : s.peer with
        | none => trivial
        | some q =>
            have hdrained : Ordered { fd with
                socket := some { s with
                  pkts := result.pkts, peer := some q, fde := fdeventDel s.fde FDE_WRITE },
                written := fd.written ++ result.written } :=
              Ordered.put rfl hlocal hafter fun hc => absurd hc hclosing
            apply (calls_kept hdrained (Sent.of_live rfl) c.onReady).bind
            intro after hk
            refine ⟨hk.ordered, hk.sent, fun _ hno => hk.stays hno ?_⟩
            intro x hx
            rw [Option.some.injEq] at hx
            subst hx
            exact eq_false_of_ne_true hclosing

theorem finishRead_kept (h : Ordered fd) (eof : Bool) :
    Ensures (fd.finishRead eof) (fun r => Ordered r ∧ ((eof = true → Open fd) → Sent r)) Anyway := by
  unfold finishRead
  apply (deref_ensures fd).bind
  intro s hs
  cases eof with
  | false => exact ⟨h, fun _ => Sent.of_live hs⟩
  | true =>
      have hlocal := h.islocal s hs
      have hsplit := h.split s hs
      exact ⟨close_ordered hlocal hsplit, fun hopen => close_sent hlocal hsplit (Or.inl (hopen rfl s hs))⟩

theorem eventRead_kept (h : Ordered fd) (c : Callback) :
    Ensures (fd.eventRead c) (fun r => Ordered r ∧ ((endsReading MAX_PAYLOAD c.reads = true →
      Open fd ∧ (c.onEnqueue.any PeerCall.closes = true → c.result < 0)) → Sent r)) Anyway := by
  unfold eventRead
  apply (deref_ensures fd).bind
  intro s hs
  have heof := readLoop_eof_iff MAX_PAYLOAD c.reads
  obtain ⟨result, hresult⟩ : ∃ result, result = readLoop MAX_PAYLOAD c.reads := ⟨_, rfl⟩
  rw [← hresult] at heof
  simp only [← hresult]
  split
  · trivial
  split
  · apply (finishRead_kept h _).weaken
    rintro after ⟨hordered, hsent⟩
    exact ⟨hordered, fun hok => hsent fun he => (hok (heof.mp (of_decide_eq_true he))).1⟩
  apply (calls_kept h (Sent.of_live hs) c.onEnqueue).bind
  intro mid hk
  -- the peer has left the socket open, or the callback ends here
  have hopen : ¬c.result < 0 → (endsReading MAX_PAYLOAD c.reads = true →
      Open fd ∧ (c.onEnqueue.any PeerCall.closes = true → c.result < 0)) →
      result.outcome = .eof → Open mid := by
    intro hgo hok he
    obtain ⟨hfd, hno⟩ := hok (heof.mp he)
    exact hk.stays (eq_false_of_ne_true fun hc => hgo (hno hc)) hfd
  split
  · exact ⟨hk.ordered, fun _ => hk.sent⟩
  · rename_i hgo
    split
    · apply (deref_ensures mid).bind
      intro x hx
      have hdel := hk.ordered.interest hx (fdeventDel x.fde FDE_READ)
      apply (finishRead_kept hdel.ordered _).weaken
      rintro after ⟨hordered, hsent⟩
      exact ⟨hordered, fun hok => hsent fun he =>
        hdel.stays rfl (hopen hgo hok (of_decide_eq_true he))⟩
    · apply (finishRead_kept hk.ordered _).weaken
      rintro after ⟨hordered, hsent⟩
      exact ⟨hordered, fun hok => hsent fun he => hopen hgo hok (of_decide_eq_true he)⟩

theorem eventFunc_kept (h : Ordered fd) (hsent : Sent fd) {events : BitVec 16} (c : Callback) :
    Ensures (fd.eventFunc events c) (fun r => Ordered r ∧
      ((firesRead events = true → endsReading MAX_PAYLOAD c.reads = true →
        (firesWrite events = false → Open fd) ∧
        (firesWrite events = true → c.onReady.any PeerCall.closes = false) ∧
        (c.onEnqueue.any PeerCall.closes = true → c.result < 0)) → Sent r)) Anyway := by
  unfold eventFunc
  -- the read part, from wherever the write part has led
  have hread : ∀ (goOn : Bool) (mid : LocalFd), Ordered mid → Sent mid →
      (goOn = true → (firesWrite events = false → Open fd) →
        (firesWrite events = true → c.onReady.any PeerCall.closes = false) → Open mid) →
      Ensures (if goOn = true ∧ firesRead events = true then mid.eventRead c else pure mid)
        (fun r => Ordered r ∧ ((firesRead events = true → endsReading MAX_PAYLOAD c.reads = true →
          (firesWrite events = false → Open fd) ∧
          (firesWrite events = true → c.onReady.any PeerCall.closes = false) ∧
          (c.onEnqueue.any PeerCall.closes = true → c.result < 0)) → Sent r)) Anyway := by
    intro goOn mid hmid hms hopen
    split
    · rename_i hgo
      apply (eventRead_kept hmid c).weaken
      rintro after ⟨hordered, hs⟩
      refine ⟨hordered, fun hok => hs fun he => ?_⟩
      obtain ⟨hfirst, hready, henqueue⟩ := hok hgo.2 he
      exact ⟨hopen hgo.1 hfirst hready, henqueue⟩
    · exact ⟨hmid, fun _ => hms⟩
  cases hw : firesWrite events with
  | false =>
      simp only [hw] at hread ⊢
      exact hread true fd h hsent fun _ hopen _ => hopen trivial
  | true =>
      simp only [hw] at hread ⊢
      apply (eventWrite_kept h c).bind
      rintro ⟨goOn, mid⟩ ⟨hordered, hs, hopen⟩
      exact hread goOn mid hordered hs fun hgo _ hready => hopen hgo (hready trivial)

theorem step_kept (h : Ordered fd) (input : FdInput) :
    Ensures (fd.step input) (fun r => Ordered r ∧ (InTime fd input → Sent r)) Anyway := by
  cases input with
  | peer c => exact (call_kept h c).weaken fun after hk => ⟨hk.ordered, fun _ => hk.sent⟩
  | signal =>
      unfold step
      cases hs : fd.socket with
      | none => trivial
      | some s =>
          simp only
          split
          · trivial
          · rename_i fde _
            have hk := h.interest hs fde
            exact ⟨hk.ordered, fun _ => hk.sent⟩
  | callback c =>
      unfold step
      cases hs : fd.socket with
      | none => trivial
      | some s =>
          simp only
          split
          · trivial
          · rename_i events fde hde
            have hk := h.interest hs fde
            apply (eventFunc_kept hk.ordered hk.sent c).weaken
            rintro after ⟨hordered, hs'⟩
            refine ⟨hordered, fun htime => hs' fun hr he => ?_⟩
            obtain ⟨hclosing, hready, henqueue⟩ := htime s events fde hs hde hr he
            refine ⟨fun hw => hk.stays rfl ?_, hready, henqueue⟩
            intro x hx
            rw [hs, Option.some.injEq] at hx
            subst hx
            cases hc : s.closing with
            | false => rfl
            | true => simp [hclosing hc] at hw

section Server

variable {st : Server} {a : Nat}

theorem close_fate (h : Graph st) (hs : st.socks a = some s) (hops : s.ops = .localSocket) :
    Ensures (Host.close st a) (fun after => after.socks a = fate s) Anyway := by
  apply ((close_ensures (B := True) h hs).mono (W := Anyway) fun _ _ => trivial).weaken
  intro after he
  rw [he.socks, Function.update_self, ASocket.told, if_neg (by simp [hops])]

-- What local_socket_enqueue does to the socket it is called on.
theorem localSocketEnqueue_fd (h : Graph st) (hs : st.socks a = some s)
    (hops : s.ops = .localSocket) (hfd : fd.socket = some s) :
    Ensures (localSocketEnqueue st a p) (fun r => ∃ next,
      fd.enqueue p st.script.writes = .ok next ∧ next.socket = r.2.socks a) Anyway := by
  have hderef : fd.deref = .ok s := by rw [deref, hfd]
  unfold localSocketEnqueue
  apply (ensures_bind_ok (Server.deref_some hs)).mpr
  simp only [enqueue, hderef, bind, Except.bind]
  by_cases hpkts : s.pkts = []
  · obtain ⟨result, hresult⟩ : ∃ result, result = writeLoop false p st.script.writes := ⟨_, rfl⟩
    obtain ⟨mid, hmid⟩ : ∃ mid : Server, mid = ({ st with
      script := { st.script with writes := result.writes } }.note (.wrote a result.written)) :=
      ⟨_, rfl⟩
    have hm : mid.socks a = some s := by rw [hmid]; exact hs
    simp only [hpkts, ne_eq, not_true_eq_false, if_false, ← hresult, ← hmid]
    cases hout : result.outcome with
    | blocked => trivial
    | failed =>
        have hgraph : Graph mid := by
          rw [hmid]
          exact h.congr rfl rfl rfl rfl (.of_eq rfl)
        apply (close_fate hgraph hm hops).bind
        intro after hafter
        exact ⟨_, rfl, hafter.symm⟩
    | done => exact ⟨_, rfl, hfd.trans hm.symm⟩
    | again =>
        simp only
        rw [queuePacket_eq hm]
        refine ⟨_, rfl, ?_⟩
        simp [queue, Server.put, hpkts]
  · rw [if_pos hpkts, if_pos hpkts, queuePacket_eq hs]
    refine ⟨_, rfl, ?_⟩
    simp [queue, Server.put]

-- A local socket of the server whose peer, if it has one, is a remote socket.
structure Forwarding (st : Server) (a : Nat) (s : ASocket) : Prop where
  graph : Graph st
  found : st.socks a = some s
  islocal : s.ops = .localSocket
  remote : ∀ p q, s.peer = some p → st.socks p = some q → q.ops = .remoteSocket

-- The callback as such a peer and the script of the server answer it.
def answers (st : Server) : Callback := ⟨st.script.writes, [], st.script.reads, [], 1⟩

theorem remoteSocketReady_ensures {q : Nat} {peer : ASocket} (hq : st.socks q = some peer)
    (hs : st.socks a = some s) (hp : peer.peer = some a) :
    Ensures (remoteSocketReady st q) (fun after => ∃ t,
      after = st.note (.sent t ⟨A_OKAY, s.id, peer.id, []⟩ none)) Anyway := by
  unfold remoteSocketReady
  apply (ensures_bind_ok (Server.deref_some hq)).mpr
  rw [hp]
  apply (ensures_bind_ok (Server.deref_some hs)).mpr
  apply ((sendPacket_ensures _ _ _ _).mono (W := Anyway) fun _ _ => trivial).weaken
  rintro _ ⟨t, -, rfl⟩
  exact ⟨t, rfl⟩

theorem eventWrite_fd (h : Forwarding st a s) (hfd : fd.socket = some s) :
    Ensures (Host.eventWrite st a) (fun r => ∃ next,
      fd.eventWrite (answers st) = .ok (r.1, next) ∧ next.socket = r.2.socks a ∧
      (r.1 = true → r.2.script.reads = st.script.reads ∧ ∃ x, Forwarding r.2 a x)) Anyway := by
  have hderef : fd.deref = .ok s := by rw [deref, hfd]
  unfold Host.eventWrite
  apply (ensures_bind_ok (Server.deref_some h.found)).mpr
  simp only [eventWrite, hderef, bind, Except.bind, answers]
  obtain ⟨result, hresult⟩ : ∃ result, result = drainQueue s.pkts st.script.writes := ⟨_, rfl⟩
  obtain ⟨mid, hmid⟩ : ∃ mid : Server, mid = ({ st with
    script := { st.script with writes := result.writes } }.note (.wrote a result.written)) := ⟨_, rfl⟩
  have hput : ∀ x, (({ st with script := { st.script with writes := result.writes } }.put a x).note
      (.wrote a result.written)) = mid.put a x := by
    intro x
    rw [hmid]
    rfl
  have hm : mid.socks a = some s := by rw [hmid]; exact h.found
  have hgraph : Graph mid := by
    rw [hmid]
    exact h.graph.congr rfl rfl rfl rfl (.of_eq rfl)
  have hlocal : s.ops.isLocal = true := by rw [h.islocal]; rfl
  simp only [← hresult, hput]
  cases hout : result.outcome with
  | blocked => trivial
  | again => exact ⟨_, rfl, by simp [Server.put], by simp⟩
  | failed =>
      have hleft : result.pkts ≠ [] := by
        rw [hresult] at hout ⊢
        exact drainQueue_left _ _ (by simp [hout])
      have hg : Graph (mid.put a { s with pkts := result.pkts }) :=
        hgraph.put_local hm hlocal rfl rfl rfl fun _ => hleft
      apply (close_fate hg (s := { s with pkts := result.pkts }) (by simp [Server.put]) h.islocal).bind
      intro after hafter
      exact ⟨_, rfl, hafter.symm, by simp⟩
  | done =>
      by_cases hclosing : s.closing = true
      · have hnone := (h.graph.peers.parked a s h.found hclosing).2.1
        simp only [if_pos hclosing]
        rw [close_put (x := { s with pkts := result.pkts }) hm hlocal hclosing hnone rfl hclosing hnone]
        apply (close_fate hgraph hm h.islocal).bind
        intro after hafter
        refine ⟨_, rfl, ?_, by simp⟩
        rw [hafter]
        simp [close, fate, hclosing]
      · simp only [if_neg hclosing]
        have hempty : result.pkts = [] := by
          rw [hresult] at hout ⊢
          exact drainQueue_done _ _ hout
        cases hp : s.peer with
        | none => trivial
        | some p =>
            obtain ⟨hpa, q, hq, hback⟩ := h.graph.peers.back a s p h.found hp
            have hops := h.remote p q hp hq
            obtain ⟨x, hx⟩ : ∃ x : ASocket, x = { s with
              pkts := [], peer := some p, fde := fdeventDel s.fde FDE_WRITE } := ⟨_, rfl⟩
            have hover : ∀ y, (mid.put a y).put a x = mid.put a x := by simp [Server.put]
            have hxa : (mid.put a x).socks a = some x := by simp [Server.put]
            have hxq : (mid.put a x).socks p = some q := by
              rw [hmid]
              simp [Server.put, Server.note, hpa, hq]
            simp only [← hx, hover, ready_remote hxq hops, run_nil]
            apply (remoteSocketReady_ensures hxq hxa hback).bind
            rintro _ ⟨t, rfl⟩
            refine ⟨_, rfl, ?_, fun _ => ⟨?_, x, ?_, hxa, ?_, ?_⟩⟩
            · simp [Server.note, Server.put, hx, hempty]
            · rw [hmid]
              rfl
            · have hg : Graph (mid.put a x) :=
                hgraph.put_local hm hlocal (by rw [hx]) (by rw [hx]) (by rw [hx, hp])
                  fun hc => absurd hc hclosing
              exact hg.note _
            · rw [hx]
              exact h.islocal
            · intro p' q' hp' hq'
              have hpp : p = p' := by
                rw [hx] at hp'
                exact Option.some.inj hp'
              subst hpp
              rw [show ((mid.put a x).note _).socks p = some q from hxq, Option.some.injEq] at hq'
              exact hq' ▸ hops

theorem eventRead_fd (h : Forwarding st a s) (hfd : fd.socket = some s) {c : Callback}
    (hreads : c.reads = st.script.reads) (hquiet : c.onEnqueue = []) (hresult : c.result = 1) :
    Ensures (Host.eventRead st a) (fun after => ∃ next,
      fd.eventRead c = .ok next ∧ next.socket = after.socks a) Anyway := by
  have hderef : fd.deref = .ok s := by rw [deref, hfd]
  unfold Host.eventRead
  apply (ensures_bind_ok (Server.deref_some h.found)).mpr
  simp only [eventRead, hderef, bind, Except.bind, hreads, hquiet, hresult, run_nil]
  obtain ⟨result, hres⟩ : ∃ result, result = readLoop MAX_PAYLOAD st.script.reads := ⟨_, rfl⟩
  obtain ⟨mid, hmid⟩ : ∃ mid : Server, mid = ({ st with
    script := { st.script with reads := result.reads } }.note (.read a s.peer result.bytes)) := ⟨_, rfl⟩
  have hm : mid.socks a = some s := by rw [hmid]; exact h.found
  have hgraph : Graph mid := by
    rw [hmid]
    exact h.graph.congr rfl rfl rfl rfl (.of_eq rfl)
  -- the end of the callback, on a socket that is there
  have hfinish : ∀ (x : ASocket) (mid : Server) (fd : LocalFd), Graph mid → mid.socks a = some x →
      x.ops = .localSocket → fd.socket = some x →
      Ensures (do let _ ← mid.deref a; if result.outcome = .eof then Host.close mid a else .ok mid)
        (fun after => ∃ next, fd.finishRead (decide (result.outcome = .eof)) = .ok next ∧
          next.socket = after.socks a) Anyway := by
    intro x mid fd hg hx hops hfdx
    have hd : fd.deref = .ok x := by rw [deref, hfdx]
    apply (ensures_bind_ok (Server.deref_some hx)).mpr
    simp only [finishRead, hd, bind, Except.bind]
    by_cases heof : result.outcome = .eof
    · rw [if_pos heof]
      apply (close_fate hg hx hops).weaken
      intro after hafter
      exact ⟨_, rfl, by simp [heof, close, hafter]⟩
    · rw [if_neg heof]
      exact ⟨_, rfl, by simp [heof, hfdx, hx]⟩
  simp only [← hres, ← hmid]
  split
  · trivial
  cases hp : s.peer with
  | none =>
      simp only [true_or, if_true]
      exact hfinish s mid fd hgraph hm h.islocal hfd
  | some p =>
      obtain ⟨hpa, q, hq, hback⟩ := h.graph.peers.back a s p h.found hp
      have hops := h.remote p q hp hq
      have hmq : mid.socks p = some q := by rw [hmid]; exact hq
      simp only [reduceCtorEq, false_or]
      by_cases hbytes : result.bytes = []
      · rw [if_pos hbytes, if_pos hbytes]
        exact hfinish s mid fd hgraph hm h.islocal hfd
      · rw [if_neg hbytes, if_neg hbytes, enqueue_remote hmq hops]
        have hsent := (remoteSocketEnqueue_ensures hmq hback hm result.bytes).mono (W := Anyway)
          fun _ _ => trivial
        apply hsent.bind
        rintro _ ⟨t, rfl⟩
        obtain ⟨sent, hnote⟩ : ∃ sent, sent =
          mid.note (.sent t ⟨A_WRTE, s.id, q.id, result.bytes⟩ (some (a, p))) := ⟨_, rfl⟩
        have hsa : sent.socks a = some s := by rw [hnote]; exact hm
        have hg : Graph sent := by
          rw [hnote]
          exact hgraph.note _
        have hlocal : s.ops.isLocal = true := by rw [h.islocal]; rfl
        simp only [← hnote, logRead_some hsa, Server.deref_some hsa]
        exact hfinish { s with fde := fdeventDel s.fde FDE_READ } _ _
          (hg.put_local hsa hlocal rfl rfl rfl fun hc => (hg.peers.parked a s hsa hc).2.2)
          (by simp [Server.put]) h.islocal (by rw [hp])

-- The callback of the server is that of its socket.
theorem localSocketEventFunc_fd (h : Forwarding st a s) (hfd : fd.socket = some s)
    (events : BitVec 16) :
    Ensures (localSocketEventFunc st a events) (fun after => ∃ next,
      fd.eventFunc events (answers st) = .ok next ∧ next.socket = after.socks a) Anyway := by
  unfold localSocketEventFunc eventFunc
  cases hw : firesWrite events with
  | false =>
      simp only [Bool.false_eq_true, if_false, pure_bind, true_and]
      by_cases hr : firesRead events = true
      · rw [if_pos hr, if_pos hr]
        exact eventRead_fd h hfd rfl rfl rfl
      · rw [if_neg hr, if_neg hr]
        exact ⟨fd, rfl, hfd.trans h.found.symm⟩
  | true =>
      simp only [if_true]
      apply (eventWrite_fd h hfd).bind
      rintro ⟨goOn, after⟩ ⟨next, hnext, hsocket, hgoes⟩
      simp only [hnext, bind, Except.bind]
      split
      · rename_i hgo
        obtain ⟨hreads, x, hx⟩ := hgoes hgo.1
        apply (eventRead_fd hx (hsocket.trans hx.found) (c := answers st) hreads.symm rfl rfl).weaken
        intro last hlast
        exact hlast
      · exact ⟨next, rfl, hsocket⟩

end Server

end LocalFd

theorem localFdInit_ordered : localFdInit.Ordered :=
  LocalFd.Ordered.put rfl rfl rfl fun hc => by cases hc

-- What the fd has taken comes in order; and it takes everything before the socket
-- goes, as long as no write fails and no callback closes it past its queue.
theorem local_fd_delivery {inputs : List FdInput} {fd : LocalFd}
    (hrun : run LocalFd.step localFdInit inputs = .ok fd) :
    fd.written <+: fd.enqueued ∧ (Guarded LocalFd.step InTime localFdInit inputs →
      fd.failed = false → fd.socket = none → fd.written = fd.enqueued) := by
  constructor
  · have hordered : fd.Ordered :=
      run_invariant (fun _ input _ h hstep => ((LocalFd.step_kept h input).of_ok hstep).1)
        localFdInit_ordered hrun
    exact hordered.order
  · intro hg hfailed hgone
    have hall : fd.Ordered ∧ fd.Sent :=
      guarded_invariant (P := fun fd => fd.Ordered ∧ fd.Sent)
        (fun fd input after h htime hstep =>
          have hk := (LocalFd.step_kept h.1 input).of_ok hstep
          ⟨hk.1, hk.2 htime⟩)
        ⟨localFdInit_ordered, LocalFd.Sent.of_live rfl⟩ hg hrun
    exact hall.2 hgone hfailed

-- The other side goes while its data waits for the fd, which has been read to its
-- end by then.
def closedWithBacklog : List FdInput :=
  [.peer .ready, .peer (.enqueue [1, 2, 3] [.wrote 1, .again]), .signal, .peer .close]

def drained : Callback := ⟨[.wrote 2], [], [], [], 0⟩

def readToEnd : Callback := ⟨[], [], [.data []], [], 0⟩

theorem local_fd_delivery_of_a_backlog :
    ∃ fd, run LocalFd.step localFdInit
        [.peer (.enqueue [1, 2, 3] [.wrote 1, .again]), .peer .close, .signal, .callback drained] =
      .ok fd ∧ fd.socket = none ∧ fd.written = fd.enqueued := by
  have hrun : run LocalFd.step localFdInit
      [.peer (.enqueue [1, 2, 3] [.wrote 1, .again]), .peer .close, .signal, .callback drained] =
      .ok ⟨none, [1, 2, 3], [1, 2, 3], false⟩ := rfl
  refine ⟨_, hrun, rfl, (local_fd_delivery hrun).2 ?_ rfl rfl⟩
  refine ⟨trivial, fun _ _ => ⟨trivial, fun _ _ => ⟨trivial, fun _ _ => ⟨?_, fun _ _ => trivial⟩⟩⟩⟩
  intro s events fde _ _ _ hend
  exact absurd hend (by decide)

theorem backlog_is_lost :
    ∃ fd, run LocalFd.step localFdInit (closedWithBacklog ++ [.callback readToEnd]) = .ok fd ∧
      fd.socket = none ∧ fd.failed = false ∧ fd.enqueued = [1, 2, 3] ∧ fd.written = [1] := by
  refine ⟨⟨none, [1, 2, 3], [1], false⟩, ?_, rfl, rfl, rfl, rfl⟩
  rfl

end Adb.Host
