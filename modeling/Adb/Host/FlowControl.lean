import Adb.Host.SocketGraph

namespace Adb.Host

open Adb.Lib

variable {st mid after : Server} {a b c l p r t : Nat} {s q s' : ASocket} {B : Prop}

section Log

variable {log events : List Event} {next next' : Nat}

def isWrteOf (a : Nat) : Event → Bool
  | .sent _ message (some (b, _)) => message.command = A_WRTE ∧ b = a
  | _ => false

-- How many A_WRTE packets have been sent on behalf of a local socket.
def wrtesSent (log : List Event) (a : Nat) : Nat := log.countP (isWrteOf a)

-- How many A_OKAY packets have been handled for the id of a local socket.
def okaysHandled (log : List Event) (a : Nat) : Nat := log.count (.okayed a)

def credits (log : List Event) (a : Nat) : Nat :=
  okaysHandled log a + if .opened a ∈ log then 1 else 0

def payloadOf (a r : Nat) : Event → Bytes
  | .sent _ message (some (b, c)) => if b = a ∧ c = r then message.data else []
  | _ => []

-- What a local socket has had sent while a remote socket was its peer.
def payloadsSent (log : List Event) (a r : Nat) : Bytes := log.flatMap (payloadOf a r)

def readOf (a r : Nat) : Event → Bytes
  | .read b (some c) bytes => if b = a ∧ c = r then bytes else []
  | _ => []

-- What has been read from its fd meanwhile.
def bytesRead (log : List Event) (a r : Nat) : Bytes := log.flatMap (readOf a r)

-- What the streams take no notice of.
def Event.IsAside : Event → Prop
  | .sent _ message carried => carried = none ∧ message.command ≠ A_WRTE
  | .attached _ _ | .opened _ | .okayed _ | .read _ _ _ => False
  | _ => True

theorem Event.IsPlain.aside {e : Event} (h : e.IsPlain) : e.IsAside := by
  cases e with
  | sent t message carried =>
      cases carried with
      | none => exact ⟨rfl, h⟩
      | some carried => exact h.elim
  | wrote a bytes => trivial
  | reply a reply => trivial
  | readFreed a => trivial
  | _ => exact h.elim

theorem wrtesSent_append (log events : List Event) (a : Nat) :
    wrtesSent (log ++ events) a = wrtesSent log a + wrtesSent events a :=
  List.countP_append

theorem okaysHandled_append (log events : List Event) (a : Nat) :
    okaysHandled (log ++ events) a = okaysHandled log a + okaysHandled events a :=
  List.count_append

theorem payloadsSent_append (log events : List Event) (a r : Nat) :
    payloadsSent (log ++ events) a r = payloadsSent log a r ++ payloadsSent events a r :=
  List.flatMap_append

theorem bytesRead_append (log events : List Event) (a r : Nat) :
    bytesRead (log ++ events) a r = bytesRead log a r ++ bytesRead events a r :=
  List.flatMap_append

-- What is set aside adds to none of the counts.
structure Aside (events : List Event) : Prop where
  aside : ∀ e ∈ events, e.IsAside

theorem Aside.wrtes (h : Aside events) (a : Nat) : wrtesSent events a = 0 := by
  rw [wrtesSent, List.countP_eq_zero]
  intro e he
  have hside := h.aside e he
  cases e with
  | sent t message carried => simp [isWrteOf, hside.1]
  | _ => simp [isWrteOf]

theorem Aside.okays (h : Aside events) (a : Nat) : okaysHandled events a = 0 := by
  rw [okaysHandled, List.count_eq_zero]
  exact fun he => h.aside _ he

theorem Aside.payloads (h : Aside events) (a r : Nat) : payloadsSent events a r = [] := by
  rw [payloadsSent, List.flatMap_eq_nil_iff]
  intro e he
  have hside := h.aside e he
  cases e with
  | sent t message carried => simp [payloadOf, hside.1]
  | _ => simp [payloadOf]

theorem Aside.reads (h : Aside events) (a r : Nat) : bytesRead events a r = [] := by
  rw [bytesRead, List.flatMap_eq_nil_iff]
  intro e he
  have hside := h.aside e he
  cases e with
  | read b peer bytes => exact hside.elim
  | _ => simp [readOf]

theorem Aside.mem_iff (h : Aside events) {e : Event} (he : ¬e.IsAside) :
    e ∈ log ++ events ↔ e ∈ log := by
  rw [List.mem_append]
  exact ⟨fun hm => hm.elim id fun hin => absurd (h.aside e hin) he, Or.inl⟩

theorem Aside.credits (h : Aside events) (a : Nat) :
    Adb.Host.credits (log ++ events) a = Adb.Host.credits log a := by
  have hmem : .opened a ∈ log ++ events ↔ .opened a ∈ log := h.mem_iff (by simp [Event.IsAside])
  simp only [Adb.Host.credits, okaysHandled_append, h.okays, hmem, Nat.add_zero]

-- What the log says for itself.
structure LogFlow (log : List Event) (next : Nat) : Prop where
  bounded : ∀ a, wrtesSent log a ≤ credits log a
  streams : ∀ a r, .attached a r ∈ log → payloadsSent log a r = bytesRead log a r
  sizes : ∀ t message a r, .sent t message (some (a, r)) ∈ log →
    message.command = A_WRTE ∧ message.data ≠ [] ∧ message.data.length ≤ MAX_PAYLOAD ∧ r < next
  others : ∀ t message, .sent t message none ∈ log → message.command ≠ A_WRTE
  opened : ∀ a, .opened a ∈ log → ∃ r, .attached a r ∈ log
  named : ∀ a r, .attached a r ∈ log → a < next ∧ r < next
  reads : ∀ a r bytes, .read a (some r) bytes ∈ log → r < next

theorem LogFlow.mono (h : LogFlow log next) (hn : next ≤ next') : LogFlow log next' where
  bounded := h.bounded
  streams := h.streams
  sizes := by
    intro t message a r hm
    obtain ⟨hc, hd, hl, hr⟩ := h.sizes t message a r hm
    exact ⟨hc, hd, hl, by omega⟩
  others := h.others
  opened := h.opened
  named := fun a r hm => ⟨by have := (h.named a r hm).1; omega, by have := (h.named a r hm).2; omega⟩
  reads := fun a r bytes hm => by have := h.reads a r bytes hm; omega

theorem LogFlow.aside (h : LogFlow log next) (hs : Aside events) : LogFlow (log ++ events) next where
  bounded := by
    intro a
    rw [wrtesSent_append, hs.wrtes, hs.credits]
    exact h.bounded a
  streams := by
    intro a r hm
    rw [payloadsSent_append, bytesRead_append, hs.payloads, hs.reads,
      h.streams a r ((hs.mem_iff (by simp [Event.IsAside])).mp hm)]
  sizes := fun t message a r hm =>
    h.sizes t message a r ((hs.mem_iff (by simp [Event.IsAside])).mp hm)
  others := by
    intro t message hm
    rcases List.mem_append.mp hm with hm | hm
    · exact h.others t message hm
    · exact (hs.aside _ hm).2
  opened := by
    intro a hm
    obtain ⟨r, hr⟩ := h.opened a ((hs.mem_iff (by simp [Event.IsAside])).mp hm)
    exact ⟨r, List.mem_append_left _ hr⟩
  named := fun a r hm => h.named a r ((hs.mem_iff (by simp [Event.IsAside])).mp hm)
  reads := fun a r bytes hm => h.reads a r bytes ((hs.mem_iff (by simp [Event.IsAside])).mp hm)

-- How the log grows when a local socket gets a remote one, and a credit with it.
structure Connects (log log' : List Event) (a r : Nat) : Prop where
  wrtes : ∀ c, wrtesSent log' c = wrtesSent log c
  payloads : ∀ c b, payloadsSent log' c b = payloadsSent log c b
  bytes : ∀ c b, bytesRead log' c b = bytesRead log c b
  credits : ∀ c, credits log c + (if c = a then 1 else 0) ≤ credits log' c
  attached : ∀ c b, .attached c b ∈ log' ↔ .attached c b ∈ log ∨ (c = a ∧ b = r)
  carried : ∀ t message x, .sent t message (some x) ∈ log' → .sent t message (some x) ∈ log
  others : ∀ t message, .sent t message none ∈ log' →
    .sent t message none ∈ log ∨ message.command ≠ A_WRTE
  opened : ∀ c, .opened c ∈ log' → .opened c ∈ log ∨ c = a
  reads : ∀ c b data, .read c b data ∈ log' → .read c b data ∈ log

theorem connects {credit : Event} {rest : List Event} {r : Nat}
    (hcredit : credit = .opened a ∨ credit = .okayed a) (hrest : Aside rest)
    (hopen : .opened a ∉ log) : Connects log (log ++ .attached a r :: credit :: rest) a r where
  wrtes := by
    intro c
    have hnone := hrest.wrtes c
    rw [wrtesSent_append]
    rcases hcredit with rfl | rfl <;> simpa [wrtesSent, isWrteOf] using hnone
  payloads := by
    intro c b
    have hnone := hrest.payloads c b
    rw [payloadsSent_append]
    rcases hcredit with rfl | rfl <;> simpa [payloadsSent, payloadOf] using hnone
  bytes := by
    intro c b
    have hnone := hrest.reads c b
    rw [bytesRead_append]
    rcases hcredit with rfl | rfl <;> simpa [bytesRead, readOf] using hnone
  credits := by
    intro c
    unfold Adb.Host.credits
    rw [okaysHandled_append]
    rcases hcredit with rfl | rfl
    · by_cases hca : c = a
      · subst hca
        simp [hopen]
      · by_cases hopened : .opened c ∈ log
        · simp [hca, hopened]
        · simp only [hca, hopened, if_false, Nat.add_zero]
          omega
    · have hcount : okaysHandled (.attached a r :: .okayed a :: rest) c =
          (if c = a then 1 else 0) + okaysHandled rest c := by
        by_cases hca : c = a
        · subst hca
          simp [okaysHandled, Nat.add_comm]
        · simp [okaysHandled, hca, Ne.symm hca]
      rw [hcount]
      by_cases hopened : .opened c ∈ log <;> simp [hopened] <;> omega
  attached := by
    intro c b
    have hnot : Event.attached c b ∉ rest := fun hm => hrest.aside _ hm
    rw [List.mem_append]
    rcases hcredit with rfl | rfl <;> simp [hnot]
  carried := by
    intro t message x hm
    have hnot : Event.sent t message (some x) ∉ rest := fun hin => by simpa using (hrest.aside _ hin).1
    rw [List.mem_append] at hm
    rcases hcredit with rfl | rfl <;> simpa [hnot] using hm
  others := by
    intro t message hm
    rw [List.mem_append, List.mem_cons, List.mem_cons] at hm
    rcases hm with hm | hm | hm | hm
    · exact Or.inl hm
    · cases hm
    · rcases hcredit with rfl | rfl <;> cases hm
    · exact Or.inr (hrest.aside _ hm).2
  opened := by
    intro c hm
    have hnot : Event.opened c ∉ rest := fun hin => hrest.aside _ hin
    rw [List.mem_append] at hm
    rcases hcredit with rfl | rfl
    · simpa [hnot] using hm
    · exact Or.inl (by simpa [hnot] using hm)
  reads := by
    intro c b data hm
    have hnot : Event.read c b data ∉ rest := fun hin => hrest.aside _ hin
    rw [List.mem_append] at hm
    rcases hcredit with rfl | rfl <;> simpa [hnot] using hm

-- Nothing has been read for or sent to a socket that is not there yet.
theorem LogFlow.fresh (h : LogFlow log next) (a : Nat) :
    payloadsSent log a next = [] ∧ bytesRead log a next = [] := by
  constructor
  · rw [payloadsSent, List.flatMap_eq_nil_iff]
    intro e he
    cases e with
    | sent t message carried =>
        cases carried with
        | none => rfl
        | some carried =>
            obtain ⟨-, -, -, hlt⟩ := h.sizes t message carried.1 carried.2 he
            simp only [payloadOf]
            rw [if_neg (by omega)]
    | _ => rfl
  · rw [bytesRead, List.flatMap_eq_nil_iff]
    intro e he
    cases e with
    | read b peer bytes =>
        cases peer with
        | none => rfl
        | some r =>
            have hlt := h.reads b r bytes he
            simp only [readOf]
            rw [if_neg (by omega)]
    | _ => rfl

theorem LogFlow.connects {log' : List Event} (h : LogFlow log next) (hc : Connects log log' a next)
    (ha : a < next) : LogFlow log' (next + 1) where
  bounded := by
    intro c
    have hold := h.bounded c
    have hmore := hc.credits c
    rw [hc.wrtes]
    omega
  streams := by
    intro c r hm
    rw [hc.payloads, hc.bytes]
    rcases (hc.attached c r).mp hm with hold | ⟨rfl, rfl⟩
    · exact h.streams c r hold
    · obtain ⟨hsent, hread⟩ := h.fresh c
      rw [hsent, hread]
  sizes := by
    intro t message c r hm
    obtain ⟨hcommand, hdata, hshort, hlt⟩ := h.sizes t message c r (hc.carried t message _ hm)
    exact ⟨hcommand, hdata, hshort, by omega⟩
  others := fun t message hm => (hc.others t message hm).elim (h.others t message) id
  opened := by
    intro c hm
    rcases hc.opened c hm with hold | rfl
    · obtain ⟨r, hr⟩ := h.opened c hold
      exact ⟨r, (hc.attached c r).mpr (Or.inl hr)⟩
    · exact ⟨next, (hc.attached c next).mpr (Or.inr ⟨rfl, rfl⟩)⟩
  named := by
    intro c r hm
    rcases (hc.attached c r).mp hm with hold | ⟨rfl, rfl⟩
    · have hlt := h.named c r hold
      omega
    · omega
  reads := by
    intro c r data hm
    have hlt := h.reads c r data (hc.reads c _ data hm)
    omega

end Log

section Sockets

variable {log log' : List Event} {remote remote' : Nat → Prop}

def IsRemote (socks : Nat → Option ASocket) (r : Nat) : Prop :=
  ∃ q, socks r = some q ∧ q.ops = .remoteSocket

-- The read interest of a socket whose peer is remote is a credit for one packet
-- more. A socket that was connected to a remote one stays so until it closes.
structure SocketFlow (log : List Event) (remote : Nat → Prop) (c : Nat) (s : ASocket) : Prop where
  credit : ∀ r, s.peer = some r → remote r → s.fde.wantsRead = true →
    wrtesSent log c + 1 ≤ credits log c
  known : ∀ r, s.ops.isLocal = true → s.peer = some r → remote r → .attached c r ∈ log
  idle : s.ops.isLocal = true → s.peer = none → s.closing = false → s.fde.wantsRead = false
  kept : ∀ r, .attached c r ∈ log → s.peer = some r ∨ s.closing = true
  isRemote : ∀ b, .attached b c ∈ log → s.ops = .remoteSocket

theorem SocketFlow.mono (h : SocketFlow log remote c s) (hw : wrtesSent log' c = wrtesSent log c)
    (hk : credits log c ≤ credits log' c)
    (hatt : ∀ b r, b = c ∨ r = c → (.attached b r ∈ log' ↔ .attached b r ∈ log))
    (hr : ∀ r, s.peer = some r → remote' r → remote r) : SocketFlow log' remote' c s where
  credit := by
    intro r hp hrem hwants
    have := h.credit r hp (hr r hp hrem) hwants
    omega
  known := fun r hl hp hrem => (hatt c r (Or.inl rfl)).mpr (h.known r hl hp (hr r hp hrem))
  idle := h.idle
  kept := fun r hm => h.kept r ((hatt c r (Or.inl rfl)).mp hm)
  isRemote := fun b hm => h.isRemote b ((hatt b c (Or.inr rfl)).mp hm)

theorem SocketFlow.tended (h : SocketFlow log remote c s) (ht : Tended s s') :
    SocketFlow log remote c s' where
  credit := fun r hp hr hw => h.credit r (ht.peer ▸ hp) hr (ht.wants hw)
  known := fun r hl hp hr => h.known r (ht.ops ▸ hl) (ht.peer ▸ hp) hr
  idle := by
    intro hl hp hc
    have hidle := h.idle (ht.ops ▸ hl) (ht.peer ▸ hp) (ht.closing ▸ hc)
    by_contra hw
    rw [ht.wants (by simpa using hw)] at hidle
    cases hidle
  kept := fun r hm => by rw [ht.peer, ht.closing]; exact h.kept r hm
  isRemote := fun b hm => ht.ops.trans (h.isRemote b hm)

-- A socket that never was connected to a remote one and has none now.
theorem SocketFlow.unattached (hatt : ∀ r, .attached c r ∉ log) (hrem : ∀ b, .attached b c ∉ log)
    (hpeer : ∀ r, s.peer = some r → ¬remote r)
    (hidle : s.ops.isLocal = true → s.peer = none → s.closing = false → s.fde.wantsRead = false) :
    SocketFlow log remote c s where
  credit := fun r hp hr => absurd hr (hpeer r hp)
  known := fun r _ hp hr => absurd hr (hpeer r hp)
  idle := hidle
  kept := fun r hm => absurd hm (hatt r)
  isRemote := fun b hm => absurd hm (hrem b)

theorem fate_local (h : fate s = some s') : s.ops.isLocal = true ∧ s'.ops = s.ops ∧ s'.peer = none := by
  unfold fate at h
  split at h
  · rename_i hl
    cases h
    exact ⟨hl.1, rfl, rfl⟩
  · cases h

theorem SocketFlow.fate (h : SocketFlow log remote c s) (hf : fate s = some s') :
    SocketFlow log remote c s' := by
  obtain ⟨hl, hops, hp⟩ := fate_local hf
  refine ⟨?_, ?_, ?_, fun r _ => Or.inr (fate_closing hf), fun b hm => hops.trans (h.isRemote b hm)⟩
  · intro r hpr
    rw [hp] at hpr
    cases hpr
  · intro r _ hpr
    rw [hp] at hpr
    cases hpr
  · intro _ _ hc
    rw [fate_closing hf] at hc
    cases hc

end Sockets

section Effects

structure Flow (st : Server) : Prop where
  log : LogFlow st.log st.nextSocket
  socks : ∀ c s, st.socks c = some s → SocketFlow st.log (IsRemote st.socks) c s

theorem Flow.not_named (h : Flow st) {c : Nat} (hc : st.nextSocket ≤ c) :
    (∀ r, .attached c r ∉ st.log) ∧ ∀ b, .attached b c ∉ st.log := by
  constructor
  · intro r hm
    have := (h.log.named c r hm).1
    omega
  · intro b hm
    have := (h.log.named b c hm).2
    omega

-- An effect that the streams take no notice of, and that makes no socket a remote
-- one, is judged by the log there was.
theorem Flow.aside {socks : Nat → Option ASocket} {fresh : Nat} {events : List Event} (h : Flow st)
    (hb : Becomes st after socks fresh events) (hs : Aside events)
    (hrem : ∀ r, IsRemote socks r → IsRemote st.socks r)
    (hsocks : ∀ c s, socks c = some s → SocketFlow st.log (IsRemote st.socks) c s) : Flow after where
  log := by
    rw [hb.log, hb.nextSocket]
    exact (h.log.aside hs).mono (by omega)
  socks := by
    intro c s hc
    rw [hb.socks] at hc
    rw [hb.log, hb.socks]
    refine (hsocks c s hc).mono ?_ ?_ ?_ fun r _ hr => hrem r hr
    · rw [wrtesSent_append, hs.wrtes, Nat.add_zero]
    · exact Nat.le_of_eq (hs.credits c).symm
    · exact fun b r _ => hs.mem_iff (by simp [Event.IsAside])

theorem isRemote_update {socks : Nat → Option ASocket} {o : Option ASocket}
    (h : ∀ r, IsRemote socks r → IsRemote st.socks r)
    (ho : ∀ x, o = some x → x.ops = .remoteSocket → IsRemote st.socks a) :
    ∀ r, IsRemote (Function.update socks a o) r → IsRemote st.socks r := by
  rintro r ⟨q, hq, hops⟩
  by_cases hra : r = a
  · subst hra
    rw [Function.update_self] at hq
    exact ho q hq hops
  · rw [Function.update_of_ne hra] at hq
    exact h r ⟨q, hq, hops⟩

theorem isRemote_severed (o : Option Nat) :
    ∀ r, IsRemote (severed st.socks o) r → IsRemote st.socks r := by
  cases o with
  | none => exact fun r hr => hr
  | some p =>
      refine isRemote_update (fun r hr => hr) fun x hx hops => ?_
      obtain ⟨q, -, hq⟩ := Option.bind_eq_some_iff.mp hx
      obtain ⟨hl, hsame, -⟩ := fate_local hq
      rw [← hsame, hops] at hl
      cases hl

theorem not_remote_of_local (hs : st.socks a = some s) (hl : s.ops.isLocal = true) :
    ¬IsRemote st.socks a := by
  rintro ⟨q, hq, hops⟩
  rw [hs, Option.some.injEq] at hq
  rw [hq, hops] at hl
  cases hl

theorem aside_of_plain {events : List Event} (h : ∀ e ∈ events, e.IsPlain) : Aside events :=
  ⟨fun e he => (h e he).aside⟩

theorem local_not_remote {o : Ops} (h : o.isLocal = true) : o ≠ .remoteSocket := by
  rintro rfl
  cases h

-- The client of a smart socket has never been connected to a remote one.
theorem Flow.client_unattached (h : Flow st) (hg : Graph st) (hs : st.socks l = some s)
    (hl : s.ops.isLocal = true) (hp : s.peer = some a) (hq : st.socks a = some q)
    (hops : q.ops ≠ .remoteSocket) :
    (∀ r, .attached l r ∉ st.log) ∧ ∀ b, .attached b l ∉ st.log := by
  constructor
  · intro r hm
    rcases (h.socks l s hs).kept r hm with hr | hc
    · obtain rfl : a = r := Option.some.inj (hp.symm.trans hr)
      exact hops ((h.socks a q hq).isRemote l hm)
    · have hnone := (hg.peers.parked l s hs hc).2.1
      rw [hp] at hnone
      cases hnone
  · exact fun b hm => local_not_remote hl ((h.socks l s hs).isRemote b hm)

theorem Closed.becomes (h : Closed st a s after) : ∃ events, Aside events ∧
    Becomes st after (Function.update (severed st.socks s.peer) a (fate s)) 0 events := by
  obtain ⟨events, hlog, hevents⟩ := h.log
  refine ⟨events, ⟨fun e he => ?_⟩, h.socks, h.nextSocket, hlog, fun _ hm => h.script ▸ hm⟩
  rcases hevents e he with hnotice | ⟨c, rfl, -⟩
  · exact hnotice.plain.aside
  · trivial

theorem Flow.closed (h : Flow st) (hs : st.socks a = some s) (hc : Closed st a s after) :
    Flow after := by
  obtain ⟨events, haside, hb⟩ := hc.becomes
  refine h.aside hb haside ?_ ?_
  · refine isRemote_update (isRemote_severed s.peer) fun x hx hops => ?_
    obtain ⟨hl, hsame, -⟩ := fate_local hx
    exact absurd (hsame.symm.trans hops) (local_not_remote hl)
  · refine all_update ?_ fun s' hs' => (h.socks a s hs).fate hs'
    cases s.peer with
    | none => exact h.socks
    | some p =>
        refine all_update h.socks fun s' hs' => ?_
        obtain ⟨q, hq, hf⟩ := Option.bind_eq_some_iff.mp hs'
        exact (h.socks p q hq).fate hf

-- A first A_OKAY, or an A_OPEN: there is a new remote socket, and one credit.
theorem Flow.connect (h : Flow st) (hg : Graph st) {credit : Event} {rest : List Event}
    {remote : ASocket} (hs : st.socks a = some s) (hl : s.ops.isLocal = true)
    (hc : s.closing = false) (hp : s.peer = none) (hops : remote.ops = .remoteSocket)
    (hback : remote.peer = some a) (hcredit : credit = .opened a ∨ credit = .okayed a) (hrest : Aside rest)
    (hb : Becomes st after (Function.update (Function.update st.socks st.nextSocket (some remote))
      a (some { s.awake with ops := .localSocket, peer := some st.nextSocket })) 1
      (.attached a st.nextSocket :: credit :: rest)) : Flow after := by
  have halt : a < st.nextSocket := by
    by_contra hge
    rw [hg.owners.fresh a (by omega)] at hs
    cases hs
  obtain ⟨hfresh, hfresh'⟩ := h.not_named (Nat.le_refl st.nextSocket)
  have hlone : ∀ r, .attached a r ∉ st.log := by
    intro r hm
    rcases (h.socks a s hs).kept r hm with hr | hcl
    · rw [hp] at hr
      cases hr
    · rw [hc] at hcl
      cases hcl
  have hlog : Connects st.log after.log a st.nextSocket := by
    rw [hb.log]
    exact connects hcredit hrest fun hm => (h.log.opened a hm).elim hlone
  have hnota : ¬IsRemote after.socks a := by
    rintro ⟨q, hq, hqo⟩
    rw [hb.socks, Function.update_self, Option.some.injEq] at hq
    rw [← hq] at hqo
    cases hqo
  have hremote : ∀ c x r, st.socks c = some x → x.peer = some r → IsRemote after.socks r →
      IsRemote st.socks r := by
    rintro c x r hx hpr ⟨q, hq, hqo⟩
    have hra : r ≠ a := by
      rintro rfl
      exact hnota ⟨q, hq, hqo⟩
    have hrn : r ≠ st.nextSocket := by
      rintro rfl
      obtain ⟨-, y, hy, -⟩ := hg.peers.back c x _ hx hpr
      rw [hg.owners.fresh _ (Nat.le_refl _)] at hy
      cases hy
    refine ⟨q, ?_, hqo⟩
    rwa [hb.socks, Function.update_of_ne hra, Function.update_of_ne hrn] at hq
  have hself : SocketFlow after.log (IsRemote after.socks) a
      { s.awake with ops := .localSocket, peer := some st.nextSocket } := by
    refine ⟨fun r _ _ _ => ?_, fun r _ hpr _ => ?_, fun _ hpr => ?_, fun r hm => ?_, fun b hm => ?_⟩
    · have hold := h.log.bounded a
      have hmore := hlog.credits a
      rw [if_pos rfl] at hmore
      rw [hlog.wrtes]
      omega
    · obtain rfl : st.nextSocket = r := Option.some.inj hpr
      exact (hlog.attached a _).mpr (Or.inr ⟨rfl, rfl⟩)
    · cases hpr
    · rcases (hlog.attached a r).mp hm with hold | ⟨-, rfl⟩
      · exact absurd hold (hlone r)
      · exact Or.inl rfl
    · rcases (hlog.attached b a).mp hm with hold | ⟨-, rfl⟩
      · exact absurd ((h.socks a s hs).isRemote b hold) (local_not_remote hl)
      · exact absurd halt (Nat.lt_irrefl _)
  have hnew : SocketFlow after.log (IsRemote after.socks) st.nextSocket remote := by
    refine ⟨fun r hpr hr => ?_, fun r hlr => ?_, fun hlr => ?_, fun r hm => ?_, fun _ _ => hops⟩
    · obtain rfl : a = r := Option.some.inj (hback.symm.trans hpr)
      exact absurd hr hnota
    · exact absurd hops (local_not_remote hlr)
    · exact absurd hops (local_not_remote hlr)
    · rcases (hlog.attached _ r).mp hm with hold | ⟨heq, -⟩
      · exact absurd hold (hfresh r)
      · omega
  constructor
  · rw [hb.nextSocket]
    exact h.log.connects hlog halt
  · intro c x hx
    rw [hb.socks] at hx
    by_cases hca : c = a
    · subst hca
      rw [Function.update_self, Option.some.injEq] at hx
      exact hx ▸ hself
    rw [Function.update_of_ne hca] at hx
    by_cases hcn : c = st.nextSocket
    · subst hcn
      rw [Function.update_self, Option.some.injEq] at hx
      exact hx ▸ hnew
    rw [Function.update_of_ne hcn] at hx
    refine (h.socks c x hx).mono (hlog.wrtes c) ?_ ?_ fun r hpr hr => hremote c x r hx hpr hr
    · exact Nat.le_trans (Nat.le_add_right _ _) (hlog.credits c)
    · intro b r hbr
      rw [hlog.attached]
      refine ⟨?_, Or.inl⟩
      rintro (hold | ⟨rfl, rfl⟩)
      · exact hold
      · rcases hbr with rfl | rfl
        · exact absurd rfl hca
        · exact absurd rfl hcn

-- A further A_OKAY is one credit more.
theorem Flow.okay (h : Flow st) (hs : st.socks a = some s) (hp : s.peer = some p)
    (hb : Becomes st after (Function.update st.socks a (some s.awake)) 0 [.okayed a]) : Flow after := by
  have hw : ∀ c, wrtesSent after.log c = wrtesSent st.log c := by
    intro c
    rw [hb.log, wrtesSent_append]
    simp [wrtesSent, isWrteOf]
  have hmem : ∀ {e : Event}, e ≠ .okayed a → (e ∈ after.log ↔ e ∈ st.log) := by
    intro e he
    rw [hb.log, List.mem_append, List.mem_singleton]
    exact ⟨fun hm => hm.elim id fun heq => absurd heq he, Or.inl⟩
  have hcr : ∀ c, credits after.log c = credits st.log c + if c = a then 1 else 0 := by
    intro c
    have hopen : .opened c ∈ after.log ↔ .opened c ∈ st.log := hmem (by simp)
    have hcount : okaysHandled after.log c = okaysHandled st.log c + if c = a then 1 else 0 := by
      rw [hb.log, okaysHandled_append]
      by_cases hca : c = a
      · simp [okaysHandled, hca]
      · simp [okaysHandled, hca, Ne.symm hca]
    simp only [credits, hcount, hopen]
    omega
  have hrem : ∀ r, IsRemote after.socks r → IsRemote st.socks r := by
    rw [hb.socks]
    exact isRemote_update (fun r hr => hr) (all_some fun hops => ⟨s, hs, hops⟩)
  constructor
  · rw [hb.nextSocket]
    refine ⟨fun c => ?_, fun c r hm => ?_, fun t message c r hm => ?_, fun t message hm => ?_,
      fun c hm => ?_, fun c r hm => ?_, fun c r bytes hm => ?_⟩
    · rw [hw, hcr]
      exact Nat.le_trans (h.log.bounded c) (Nat.le_add_right _ _)
    · have hold := h.log.streams c r ((hmem (by simp)).mp hm)
      rw [hb.log, payloadsSent_append, bytesRead_append, hold]
      simp [payloadsSent, bytesRead, payloadOf, readOf]
    · exact h.log.sizes t message c r ((hmem (by simp)).mp hm)
    · exact h.log.others t message ((hmem (by simp)).mp hm)
    · obtain ⟨r, hr⟩ := h.log.opened c ((hmem (by simp)).mp hm)
      exact ⟨r, (hmem (by simp)).mpr hr⟩
    · exact h.log.named c r ((hmem (by simp)).mp hm)
    · exact h.log.reads c r bytes ((hmem (by simp)).mp hm)
  · have hold : ∀ c x, st.socks c = some x → SocketFlow after.log (IsRemote after.socks) c x := by
      intro c x hx
      refine (h.socks c x hx).mono (hw c) ?_ (fun b r _ => hmem (by simp)) fun r _ hr => hrem r hr
      rw [hcr]
      exact Nat.le_add_right _ _
    rw [hb.socks]
    rw [hb.socks] at hold
    refine all_update hold (all_some ?_)
    have hself := hold a s hs
    refine ⟨fun r _ _ _ => ?_, hself.known, fun _ hpr => ?_, hself.kept, hself.isRemote⟩
    · rw [hw, hcr, if_pos rfl]
      exact Nat.succ_le_succ (h.log.bounded a)
    · rw [show s.peer = none from hpr] at hp
      cases hp

-- Bytes that are read and do not go to a remote socket.
theorem Flow.readOther {bytes : Bytes} (h : Flow st) (hg : Graph st) (hs : st.socks a = some s)
    (hother : bytes ≠ [] → ∀ p q, s.peer = some p → st.socks p = some q → q.ops ≠ .remoteSocket)
    (hb : Becomes st after st.socks 0 [.read a s.peer bytes]) : Flow after := by
  have hmem : ∀ {e : Event}, e ≠ .read a s.peer bytes → (e ∈ after.log ↔ e ∈ st.log) := by
    intro e he
    rw [hb.log, List.mem_append, List.mem_singleton]
    exact ⟨fun hm => hm.elim id fun heq => absurd heq he, Or.inl⟩
  have hw : ∀ c, wrtesSent after.log c = wrtesSent st.log c := by
    intro c
    rw [hb.log, wrtesSent_append]
    simp [wrtesSent, isWrteOf]
  have hcr : ∀ c, credits after.log c = credits st.log c := by
    intro c
    have hopen : .opened c ∈ after.log ↔ .opened c ∈ st.log := hmem (by simp)
    have hcount : okaysHandled after.log c = okaysHandled st.log c := by
      rw [hb.log, okaysHandled_append]
      simp [okaysHandled]
    simp only [credits, hcount, hopen]
  have hlive : ∀ r, s.peer = some r → r < st.nextSocket := by
    intro r hr
    obtain ⟨-, q, hq, -⟩ := hg.peers.back a s r hs hr
    by_contra hge
    rw [hg.owners.fresh r (by omega)] at hq
    cases hq
  constructor
  · rw [hb.nextSocket]
    refine ⟨fun c => ?_, fun c r hm => ?_, fun t message c r hm => ?_, fun t message hm => ?_,
      fun c hm => ?_, fun c r hm => ?_, fun c r data hm => ?_⟩
    · rw [hw, hcr]
      exact h.log.bounded c
    · have hatt := (hmem (by simp)).mp hm
      have hnone : bytesRead [.read a s.peer bytes] c r = [] := by
        cases hp : s.peer with
        | none => rfl
        | some p =>
            simp only [bytesRead, List.flatMap_cons, List.flatMap_nil, List.append_nil, readOf]
            split
            · -- the socket is attached to a remote one, so nothing was read
              rename_i heq
              by_contra hne
              obtain ⟨-, q, hq, -⟩ := hg.peers.back a s p hs hp
              rw [heq.2] at hp hq
              exact hother hne r q hp hq ((h.socks r q hq).isRemote c hatt)
            · rfl
      rw [hb.log, payloadsSent_append, bytesRead_append, hnone, h.log.streams c r hatt]
      simp [payloadsSent, payloadOf]
    · exact h.log.sizes t message c r ((hmem (by simp)).mp hm)
    · exact h.log.others t message ((hmem (by simp)).mp hm)
    · obtain ⟨r, hr⟩ := h.log.opened c ((hmem (by simp)).mp hm)
      exact ⟨r, (hmem (by simp)).mpr hr⟩
    · exact h.log.named c r ((hmem (by simp)).mp hm)
    · rw [hb.log, List.mem_append, List.mem_singleton] at hm
      rcases hm with hm | hm
      · exact h.log.reads c r data hm
      · injection hm with _ hpeer
        exact hlive r hpeer.symm
  · rw [hb.socks]
    intro c x hx
    refine (h.socks c x hx).mono (hw c) (Nat.le_of_eq (hcr c).symm) (fun b r _ => hmem (by simp))
      fun r _ hr => hr

-- Bytes that are read go to the remote socket, as one packet, and the credit is
-- used up.
theorem Flow.carry {message : Message} (h : Flow st) (hg : Graph st) (hs : st.socks a = some s)
    (hp : s.peer = some r) (hq : st.socks r = some q) (hops : q.ops = .remoteSocket)
    (hwants : s.fde.wantsRead = true) (hcommand : message.command = A_WRTE)
    (hdata : message.data ≠ []) (hshort : message.data.length ≤ MAX_PAYLOAD)
    (hb : Becomes st after (Function.update st.socks a (some s.asleep)) 0
      [.read a (some r) message.data, .sent t message (some (a, r))]) : Flow after := by
  have hcredit := (h.socks a s hs).credit r hp ⟨q, hq, hops⟩ hwants
  have hlive : r < st.nextSocket := by
    by_contra hge
    rw [hg.owners.fresh r (by omega)] at hq
    cases hq
  have hmem : ∀ {e : Event}, e ≠ .read a (some r) message.data → e ≠ .sent t message (some (a, r)) →
      (e ∈ after.log ↔ e ∈ st.log) := by
    intro e hread hsent
    rw [hb.log, List.mem_append]
    refine ⟨?_, Or.inl⟩
    rintro (hm | hm)
    · exact hm
    · simp [hread, hsent] at hm
  have hw : ∀ c, wrtesSent after.log c = wrtesSent st.log c + if c = a then 1 else 0 := by
    intro c
    rw [hb.log, wrtesSent_append]
    by_cases hca : c = a
    · simp [wrtesSent, isWrteOf, hcommand, hca]
    · simp [wrtesSent, isWrteOf, hca, Ne.symm hca]
  have hcr : ∀ c, credits after.log c = credits st.log c := by
    intro c
    have hopen : .opened c ∈ after.log ↔ .opened c ∈ st.log := hmem (by simp) (by simp)
    have hcount : okaysHandled after.log c = okaysHandled st.log c := by
      rw [hb.log, okaysHandled_append]
      simp [okaysHandled]
    simp only [credits, hcount, hopen]
  have hrem : ∀ r, IsRemote after.socks r → IsRemote st.socks r := by
    rw [hb.socks]
    exact isRemote_update (fun r hr => hr) (all_some fun hops => ⟨s, hs, hops⟩)
  constructor
  · rw [hb.nextSocket]
    refine ⟨fun c => ?_, fun c b hm => ?_, fun u other c b hm => ?_, fun u other hm => ?_,
      fun c hm => ?_, fun c b hm => ?_, fun c b data hm => ?_⟩
    · have hold := h.log.bounded c
      rw [hw, hcr]
      split
      · rename_i hca
        subst hca
        exact hcredit
      · exact hold
    · have hold := h.log.streams c b ((hmem (by simp) (by simp)).mp hm)
      rw [hb.log, payloadsSent_append, bytesRead_append, hold]
      simp [payloadsSent, bytesRead, payloadOf, readOf]
    · rw [hb.log, List.mem_append] at hm
      rcases hm with hm | hm
      · exact h.log.sizes u other c b hm
      · obtain ⟨-, rfl, rfl, rfl⟩ : u = t ∧ other = message ∧ c = a ∧ b = r := by simpa using hm
        exact ⟨hcommand, hdata, hshort, hlive⟩
    · exact h.log.others u other ((hmem (by simp) (by simp)).mp hm)
    · obtain ⟨b, hr⟩ := h.log.opened c ((hmem (by simp) (by simp)).mp hm)
      exact ⟨b, (hmem (by simp) (by simp)).mpr hr⟩
    · exact h.log.named c b ((hmem (by simp) (by simp)).mp hm)
    · rw [hb.log, List.mem_append] at hm
      rcases hm with hm | hm
      · exact h.log.reads c b data hm
      · obtain ⟨rfl, rfl, rfl⟩ : c = a ∧ b = r ∧ data = message.data := by simpa using hm
        exact hlive
  · rw [hb.socks]
    intro c x hx
    by_cases hca : c = a
    · subst hca
      rw [Function.update_self, Option.some.injEq] at hx
      subst hx
      have hself := h.socks c s hs
      refine ⟨fun _ _ _ hwake => ?_, fun b hl hpb _ => ?_, fun _ hpr => ?_, fun b hm => ?_, fun b hm => ?_⟩
      · simp [ASocket.asleep, FDE_READ] at hwake
      · obtain rfl : r = b := Option.some.inj (hp.symm.trans hpb)
        exact (hmem (by simp) (by simp)).mpr (hself.known r hl hp ⟨q, hq, hops⟩)
      · rw [show s.peer = none from hpr] at hp
        cases hp
      · exact hself.kept b ((hmem (by simp) (by simp)).mp hm)
      · exact hself.isRemote b ((hmem (by simp) (by simp)).mp hm)
    · rw [Function.update_of_ne hca] at hx
      refine (h.socks c x hx).mono ?_ (Nat.le_of_eq (hcr c).symm)
        (fun b r _ => hmem (by simp) (by simp)) fun b _ hr => hrem b (hb.socks ▸ hr)
      rw [hw, if_neg hca, Nat.add_zero]

-- A socket is watched for reading only by those that would carry what it reads.
theorem SocketFlow.awake {log : List Event} {remote : Nat → Prop} {c : Nat}
    (h : SocketFlow log remote c s) (hp : s.peer = some p) (hrem : ¬remote p) :
    SocketFlow log remote c s.awake where
  credit := by
    intro r hpr hr
    obtain rfl : p = r := Option.some.inj (hp.symm.trans hpr)
    exact absurd hr hrem
  known := h.known
  idle := by
    intro _ hpr
    rw [show s.peer = none from hpr] at hp
    cases hp
  kept := h.kept
  isRemote := h.isRemote

-- The service that a client is bound to has never been connected either.
theorem Flow.service_unattached {s2 fresh : Nat} (h : Flow st)
    (hservice : (st.socks s2 = none ∧ s2 = st.nextSocket ∧ fresh = 1) ∨
      ∃ old, st.socks s2 = some old ∧ old.ops = .localSocket ∧ old.peer = none ∧
        old.closing = false ∧ fresh = 0) :
    (∀ r, .attached s2 r ∉ st.log) ∧ (∀ b, .attached b s2 ∉ st.log) ∧ ¬IsRemote st.socks s2 := by
  rcases hservice with ⟨hnone, rfl, -⟩ | ⟨old, hold, hops, hp, hc, -⟩
  · obtain ⟨hout, hin⟩ := h.not_named (Nat.le_refl st.nextSocket)
    refine ⟨hout, hin, ?_⟩
    rintro ⟨q, hq, -⟩
    rw [hnone] at hq
    cases hq
  · have hlocal : old.ops.isLocal = true := by rw [hops]; rfl
    refine ⟨fun r hm => ?_, fun b hm => ?_, not_remote_of_local hold hlocal⟩
    · rcases (h.socks s2 old hold).kept r hm with hr | hcl
      · rw [hp] at hr
        cases hr
      · rw [hc] at hcl
        cases hcl
    · exact local_not_remote hlocal ((h.socks s2 old hold).isRemote b hm)

theorem not_isRemote_fresh (hg : Graph st) (hp : st.nextSocket ≤ p) : ¬IsRemote st.socks p := by
  rintro ⟨q, hq, -⟩
  rw [hg.owners.fresh p hp] at hq
  cases hq

theorem Effect.flow (hg : Graph st) (he : Effect B st after) (h : Flow st) : Flow after := by
  cases he with
  | quiet events plain becomes =>
      exact h.aside becomes (aside_of_plain plain) (fun r hr => hr) h.socks
  | status l p s q reply ok found peer smart ops accepted becomes =>
      refine h.aside becomes ⟨fun e he => ?_⟩ (fun r hr => hr) h.socks
      rw [List.mem_singleton.mp he]
      trivial
  | tend a s s' found tended becomes =>
      refine h.aside becomes ⟨by simp⟩ ?_ (all_update h.socks (all_some ((h.socks a s found).tended tended)))
      exact isRemote_update (fun r hr => hr) (all_some fun hops => ⟨s, found, tended.ops ▸ hops⟩)
  | wake a p s q found peer other ops becomes =>
      refine h.aside becomes ⟨by simp⟩ ?_ (all_update h.socks (all_some ?_))
      · exact isRemote_update (fun r hr => hr) (all_some fun hops => ⟨s, found, hops⟩)
      · exact (h.socks a s found).awake peer (not_remote_of_local other ops)
  | okay a p s found peer becomes => exact h.okay found peer becomes
  | connect a s r credit rest found islocal closing alone remote back credits waiting plain becomes =>
      refine h.connect hg found islocal closing alone remote back credits ?_ becomes
      by_cases hn : s.ops = .localSocketNotify
      · obtain ⟨ok, -, hrest⟩ := waiting hn
        refine ⟨fun e he => ?_⟩
        rw [hrest, List.mem_singleton] at he
        rw [he]
        trivial
      · exact aside_of_plain (plain hn)
  | newLocal s ops peer closing fde becomes =>
      obtain ⟨hout, hin⟩ := h.not_named (Nat.le_refl st.nextSocket)
      refine h.aside becomes ⟨by simp⟩ ?_ (all_update h.socks (all_some ?_))
      · exact isRemote_update (fun r hr => hr) (all_some fun hr => by rw [ops] at hr; cases hr)
      · refine SocketFlow.unattached hout hin (by simp [peer]) fun _ _ _ => ?_
        rw [fde]
        rfl
  | newClient s q ops peer closing sound smart back becomes =>
      obtain ⟨hout, hin⟩ := h.not_named (Nat.le_refl st.nextSocket)
      obtain ⟨hout', hin'⟩ := h.not_named (Nat.le_succ st.nextSocket)
      refine h.aside becomes ⟨by simp⟩ ?_ (all_update (all_update h.socks (all_some ?_)) (all_some ?_))
      · refine isRemote_update (isRemote_update (fun r hr => hr) (all_some fun hr => ?_)) (all_some fun hr => ?_)
        · rw [ops] at hr
          cases hr
        · rw [smart] at hr
          cases hr
      · refine SocketFlow.unattached hout hin (fun r hr => ?_) fun _ hp => ?_
        · obtain rfl : st.nextSocket + 1 = r := Option.some.inj (peer.symm.trans hr)
          exact not_isRemote_fresh hg (Nat.le_succ _)
        · rw [peer] at hp
          cases hp
      · refine SocketFlow.unattached hout' hin' (fun r hr => ?_) fun _ hp => ?_
        · obtain rfl : st.nextSocket = r := Option.some.inj (back.symm.trans hr)
          exact not_isRemote_fresh hg (Nat.le_refl _)
        · rw [back] at hp
          cases hp
  | closed a s found waiting becomes => exact h.closed found becomes
  | failNotify a s reason ok found ops accepted becomes =>
      have hlocal : s.ops.isLocal = true := by rw [ops]; rfl
      have hs := h.socks a s found
      refine h.aside becomes ⟨fun e he => ?_⟩ ?_ (all_update h.socks (all_some ?_))
      · rw [List.mem_singleton.mp he]
        trivial
      · exact isRemote_update (fun r hr => hr) (all_some fun hr => by cases hr)
      · exact ⟨hs.credit, fun r _ => hs.known r hlocal, fun _ => hs.idle hlocal, hs.kept,
          fun b hm => absurd (hs.isRemote b hm) (local_not_remote hlocal)⟩
  | forward l a s q s' rest found islocal peer smart ops notify alone asleep sound plain becomes =>
      obtain ⟨hout, hin⟩ := h.client_unattached hg found islocal peer smart (by rw [ops]; simp)
      refine h.aside becomes ⟨fun e he => ?_⟩ ?_ (all_update (all_update h.socks all_none) (all_some ?_))
      · rcases List.mem_cons.mp he with rfl | he
        · trivial
        · exact (plain e he).aside
      · refine isRemote_update (isRemote_update (fun r hr => hr) (by simp)) (all_some fun hr => ?_)
        rw [notify] at hr
        cases hr
      · exact SocketFlow.unattached hout hin (by simp [alone]) fun _ _ _ => asleep
  | bind l a s2 fresh s q x rest found islocal peer smart ops service kind back sound plain becomes =>
      obtain ⟨hout, hin⟩ := h.client_unattached hg found islocal peer smart (by rw [ops]; simp)
      obtain ⟨hout', hin', hnot⟩ := h.service_unattached service
      refine h.aside becomes (aside_of_plain plain) ?_
        (all_update (all_update (all_update h.socks all_none) (all_some ?_)) (all_some ?_))
      · refine isRemote_update (isRemote_update (isRemote_update (fun r hr => hr) (by simp))
          (all_some fun hr => by cases hr)) (all_some fun hr => ?_)
        rcases kind with hk | hk <;> rw [hk] at hr <;> cases hr
      · refine SocketFlow.unattached hout hin (fun r hr => ?_) fun _ hp => by cases hp
        obtain rfl : s2 = r := Option.some.inj hr
        exact hnot
      · refine SocketFlow.unattached hout' hin' (fun r hr => ?_) fun _ hp => ?_
        · obtain rfl : l = r := Option.some.inj (back.symm.trans hr)
          exact not_remote_of_local found islocal
        · rw [back] at hp
          cases hp
  | readOther a s bytes found other becomes => exact h.readOther hg found other becomes
  | carry a r t s q message found peer remote ops wanted sound command nonempty short becomes =>
      exact h.carry hg found peer remote ops wanted command nonempty short becomes

end Effects

section Streams

theorem flow_init : Flow serverInit where
  log := by
    constructor <;> simp [serverInit, wrtesSent, payloadsSent, bytesRead]
  socks := by
    intro c s hs
    cases hs

theorem run_flow {inputs : List (Script × Input)} (h : run step serverInit inputs = .ok st) : Flow st :=
  run_keeps flow_init (fun _ hf => ⟨hf.log, hf.socks⟩) (fun hg _ he hf => he.flow hg hf) h

-- The stream from a local socket s to its remote peer r.
structure OutgoingFlow (log : List Event) (s r : Nat) : Prop where
  credit : wrtesSent log s ≤ okaysHandled log s + if .opened s ∈ log then 1 else 0
  sizes : ∀ t message, .sent t message (some (s, r)) ∈ log →
    message.command = A_WRTE ∧ 1 ≤ message.data.length ∧ message.data.length ≤ MAX_PAYLOAD
  order : payloadsSent log s r = bytesRead log s r

-- A packet A_WRTE is sent for some local socket only, so none goes uncounted.
theorem outgoing_flow_control (inputs : List (Script × Input)) (st : Server)
    (h : run step serverInit inputs = .ok st) :
    (∀ t message, .sent t message none ∈ st.log → message.command ≠ A_WRTE) ∧
      ∀ a s r q, st.socks a = some s → s.ops.isLocal = true → s.peer = some r →
        st.socks r = some q → q.ops = .remoteSocket → OutgoingFlow st.log a r := by
  have hf := run_flow h
  refine ⟨hf.log.others, ?_⟩
  intro a s r q hs hl hp hq hops
  have hatt : .attached a r ∈ st.log := (hf.socks a s hs).known r hl hp ⟨q, hq, hops⟩
  refine ⟨hf.log.bounded a, ?_, hf.log.streams a r hatt⟩
  intro t message hm
  obtain ⟨hcommand, hdata, hshort, -⟩ := hf.log.sizes t message a r hm
  exact ⟨hcommand, List.length_pos_iff.mpr hdata, hshort⟩

-- The client of the shell writes to it once. The remote socket is 2.
def shellWritten : List (Script × Input) :=
  shellStarted ++ [(silent, .signal 0), (reading (ascii "ls"), .callback 0)]

set_option maxRecDepth 8000 in
theorem outgoing_flow_control_of_a_shell :
    ∃ st, run step serverInit shellWritten = .ok st ∧ payloadsSent st.log 0 2 = ascii "ls" ∧
      ∀ a s r q, st.socks a = some s → s.ops.isLocal = true → s.peer = some r →
        st.socks r = some q → q.ops = .remoteSocket → OutgoingFlow st.log a r := by
  obtain ⟨st, h, hsent⟩ := exists_of_any (x := run step serverInit shellWritten)
    (p := fun st => decide (payloadsSent st.log 0 2 = ascii "ls")) (by decide)
  exact ⟨st, h, of_decide_eq_true hsent, (outgoing_flow_control shellWritten st h).2⟩

end Streams

end Adb.Host
