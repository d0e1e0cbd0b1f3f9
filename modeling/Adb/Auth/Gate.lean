import Adb.Auth.Daemon
import Mathlib.Data.List.Induction

namespace Adb.Auth

open Adb.Host (Bytes Packet Stop ascii MAX_PAYLOAD A_CNXN)
open Adb.Lib

section Specification

variable {Key : Type} (rsaVerify : Key → Bytes → Bytes → Bool)

def tokenOf (t : Nat) : Event Key → Option Bytes
  | .token u token => if u = t then some token else none
  | _ => none

-- The token most recently sent on a transport.
def lastToken (log : List (Event Key)) (t : Nat) : Option Bytes :=
  (log.filterMap (tokenOf t)).getLast?

-- The framework's OK to a key of t, as it is read.
def okFor (t : Nat) : List (UInt8 × Option Nat) := (ascii "OK").map (·, some t)

-- What has to have come last before t is put online: a signature on t that holds for
-- the token most recently sent on it, or the OK that the framework has given to a key
-- of t.
inductive Authorised (t : Nat) : List (Event Key) → Prop
  | signature (log : List (Event Key)) (sig : Bytes) (keys : List Key) (token : Bytes) :
      lastToken log t = some token → adbAuthVerify rsaVerify keys token sig = true →
      Authorised t (log ++ [.signature t sig keys])
  | allowed (log : List (Event Key)) : .answered t ∈ log → Authorised t (log ++ [.response t (okFor t)])

-- t has been put online and not offline again.
def PutOnline (log : List (Event Key)) (t : Nat) : Prop :=
  ∃ before rest, log = before ++ .online t :: rest ∧ .offline t ∉ rest

-- Each time that a transport was put online it had just been authorised, and only
-- those are online that have been put online.
structure Gated (st : Daemon Key) : Prop where
  authorised : ∀ t before rest, st.log = before ++ .online t :: rest → Authorised rsaVerify t before
  online : ∀ t x, st.transports t = some x → x.online = true → PutOnline st.log t

def requestOf (t : Nat) : Event Key → Option (Option Bytes)
  | .token u token => if u = t then some (some token) else none
  | .noToken u => if u = t then some none else none
  | _ => none

-- How the last request for a signature on a transport went: with a token, or not
-- at all because there was none.
def lastRequest (log : List (Event Key)) (t : Nat) : Option (Option Bytes) :=
  (log.filterMap (requestOf t)).getLast?

def Owed (connection : Connection) (v : Nat) : Prop :=
  v ∈ connection.keys ∨ ∃ b, (b, v) ∈ connection.incoming

-- The auth_fde of u is for fd, and it is about to be called or some descriptor
-- leads to it.
def Reached (st : Daemon Key) (u fd : Nat) (via : Nat → Prop) : Prop :=
  ∃ x, st.transports u = some x ∧ x.authFde.fd = fd ∧
    (u ∈ st.pending ∨ ∃ d, via d ∧ st.fdTable d = some u)

-- No other transport waits for an answer on the connection, and none would still be
-- called for it.
def KeyAlone (st : Daemon Key) (fd t : Nat) : Prop :=
  (∀ connection v, st.connections fd = some connection → Owed connection v → v = t) ∧
    ∀ u, u ≠ t → ¬Reached st u fd (· ≠ fd)

-- A key that is passed on to the framework.
def PassedOn (key : Bytes) (written : Bool) : Prop :=
  key.getLast? = some 0 ∧ 2 + (key.takeWhile (· ≠ 0)).length < MAX_PAYLOAD ∧ written = true

def WellTimed (st : Daemon Key) : Input Key → Prop
  | .packet t p _ written => p.command = A_AUTH →
      (p.arg0 = ADB_AUTH_SIGNATURE →
        (∃ x, st.transports t = some x ∧ adbAuthVerify rsaVerify st.keyList x.token p.payload = true) →
        ∃ token, lastRequest st.log t = some (some token)) ∧
      (p.arg0 = ADB_AUTH_RSAPUBLICKEY → PassedOn p.payload written →
        ∀ fd, st.frameworkFd = some fd → KeyAlone st fd t)
  | .callback t _ _ => ∀ x, st.transports t = some x → st.connections x.authFde.fd ≠ none
  | _ => True

end Specification

section Log

variable {Key : Type} {rsaVerify : Key → Bytes → Bytes → Bool} {log : List (Event Key)} {t u : Nat}
  {e : Event Key} {token : Bytes}

theorem PutOnline.append (h : PutOnline log t) (he : e ≠ .offline t) : PutOnline (log ++ [e]) t := by
  obtain ⟨before, rest, rfl, hrest⟩ := h
  refine ⟨before, rest ++ [e], by simp, ?_⟩
  rw [List.mem_append, List.mem_singleton, not_or]
  exact ⟨hrest, he.symm⟩

-- An event is one of those before, or the last one.
theorem authorised_append
    (h : ∀ t before rest, log = before ++ .online t :: rest → Authorised rsaVerify t before)
    (he : ∀ t, e = .online t → Authorised rsaVerify t log) (t : Nat) (before rest : List (Event Key))
    (hsplit : log ++ [e] = before ++ .online t :: rest) : Authorised rsaVerify t before := by
  obtain rfl | ⟨rest, last, rfl⟩ := List.eq_nil_or_concat rest
  · obtain ⟨rfl, hlast⟩ := List.append_inj' hsplit rfl
    exact he t (List.singleton_inj.mp hlast)
  · rw [List.concat_eq_append, ← List.cons_append, ← List.append_assoc] at hsplit
    exact h t before rest (List.append_inj' hsplit rfl).1

theorem lastRequest_append (log : List (Event Key)) (t : Nat) (e : Event Key) :
    lastRequest (log ++ [e]) t = (requestOf t e).or (lastRequest log t) := by
  unfold lastRequest
  rw [List.filterMap_append]
  cases h : requestOf t e <;> simp [h, List.getLast?_append]

theorem lastToken_append (log : List (Event Key)) (t : Nat) (e : Event Key) :
    lastToken (log ++ [e]) t = (tokenOf t e).or (lastToken log t) := by
  unfold lastToken
  rw [List.filterMap_append]
  cases h : tokenOf t e <;> simp [h, List.getLast?_append]

-- A request that went out with a token was the last token.
theorem lastToken_of_request (h : lastRequest log t = some (some token)) :
    lastToken log t = some token := by
  induction log using List.reverseRecOn with
  | nil => simp [lastRequest] at h
  | append_singleton log e ih =>
      rw [lastRequest_append] at h
      rw [lastToken_append]
      cases e with
      | token u sent =>
          by_cases hu : u = t
          · simp_all [requestOf, tokenOf]
          · simp_all [requestOf, tokenOf]
      | noToken u =>
          by_cases hu : u = t
          · simp_all [requestOf]
          · simp_all [requestOf, tokenOf]
      | _ => simpa [tokenOf] using ih (by simpa [requestOf] using h)

end Log

section Sound

variable {Key : Type} {rsaVerify : Key → Bytes → Bytes → Bool} {st mid after : Daemon Key}
  {t u fd : Nat} {x x' : ATransport}

-- What holds between two steps.
structure Sound (rsaVerify : Key → Bytes → Bytes → Bool) (st : Daemon Key) : Prop extends
    Gated rsaVerify st where
  token : ∀ t x token, st.transports t = some x → lastRequest st.log t = some (some token) →
    x.token = token
  answers : ∀ fd connection v, st.connections fd = some connection → (75, v) ∈ connection.incoming →
    .answered v ∈ st.log
  alone : ∀ fd connection v u, st.connections fd = some connection → Owed connection v →
    Reached st u fd (fun _ => True) → u = v
  known : ∀ d u, st.fdTable d = some u → u < st.nextTransport
  pending : ∀ u ∈ st.pending, u < st.nextTransport
  fresh : ∀ t, st.nextTransport ≤ t → st.transports t = none ∧ lastRequest st.log t = none

theorem sound_init (keyList : List Key) : Sound rsaVerify (daemonInit keyList) := by
  refine ⟨⟨?_, ?_⟩, ?_, ?_, ?_, ?_, ?_, ?_⟩ <;> simp [daemonInit, lastRequest]

-- An event that has nothing to do with tokens. Who is put online has been authorised, and
-- who is put offline is not online.
theorem Sound.note (h : Sound rsaVerify st) (e : Event Key) (he : ∀ t, requestOf t e = none)
    (hon : ∀ t, e = .online t → Authorised rsaVerify t st.log)
    (hoff : ∀ t x, e = .offline t → st.transports t = some x → x.online = false) :
    Sound rsaVerify (st.note e) where
  authorised := authorised_append h.authorised hon
  online := by
    intro t x hx ho
    refine (h.online t x hx ho).append fun hgone => ?_
    rw [hoff t x hgone hx] at ho
    cases ho
  token := by
    intro t x token hx hr
    refine h.token t x token hx ?_
    simpa [Daemon.note, lastRequest_append, he t] using hr
  answers := fun fd connection v hc hv => List.mem_append_left _ (h.answers fd connection v hc hv)
  alone := h.alone
  known := h.known
  pending := h.pending
  fresh := by
    intro t ht
    refine ⟨(h.fresh t ht).1, ?_⟩
    simpa [Daemon.note, lastRequest_append, he t] using (h.fresh t ht).2

theorem Sound.lt_of_some (h : Sound rsaVerify st) (hx : st.transports t = some x) :
    t < st.nextTransport := by
  by_contra hlt
  rw [(h.fresh t (by omega)).1] at hx
  cases hx

theorem reached_put {p : Nat → Prop} (hx : st.transports t = some x)
    (hfd : x'.authFde.fd = x.authFde.fd) : Reached (st.put t x') u fd p ↔ Reached st u fd p := by
  by_cases hu : u = t
  · subst hu
    simp [Reached, Daemon.put, hx, hfd]
  · simp [Reached, Daemon.put, hu]

-- A transport changes, and its token and the descriptor of its fdevent stay.
theorem Sound.put (h : Sound rsaVerify st) (hx : st.transports t = some x)
    (htoken : x'.token = x.token) (hfd : x'.authFde.fd = x.authFde.fd)
    (ho : x'.online = true → PutOnline st.log t) : Sound rsaVerify (st.put t x') where
  authorised := h.authorised
  online := by
    intro u y hy hon
    by_cases hu : u = t
    · subst hu
      simp only [Daemon.put, Function.update_self, Option.some.injEq] at hy
      exact ho (hy ▸ hon)
    · simp only [Daemon.put, Function.update_of_ne hu] at hy
      exact h.online u y hy hon
  token := by
    intro u y token hy hr
    by_cases hu : u = t
    · subst hu
      simp only [Daemon.put, Function.update_self, Option.some.injEq] at hy
      rw [← hy, htoken]
      exact h.token u x token hx hr
    · simp only [Daemon.put, Function.update_of_ne hu] at hy
      exact h.token u y token hy hr
  answers := h.answers
  alone := fun fd connection v u hc hv hr => h.alone fd connection v u hc hv ((reached_put hx hfd).mp hr)
  known := h.known
  pending := h.pending
  fresh := by
    intro u hu
    have hlt := h.lt_of_some hx
    have hle : st.nextTransport ≤ u := hu
    refine ⟨?_, (h.fresh u hle).2⟩
    simp only [Daemon.put]
    rw [Function.update_of_ne (by omega)]
    exact (h.fresh u hle).1

theorem deref_eq (hx : st.transports t = some x) : st.deref t = .ok x := by
  simp only [Daemon.deref, hx]

theorem handleOnline_eq (hx : st.transports t = some x) :
    handleOnline st t = .ok ((st.put t { x with online := true }).note (.online t)) := by
  simp only [handleOnline, deref_eq hx, bind, Except.bind]
  rfl

-- The only call of handle_online.
theorem adbAuthVerified_sound (h : Sound rsaVerify st) (hx : st.transports t = some x)
    (ha : Authorised rsaVerify t st.log) (hok : adbAuthVerified st t = .ok after) :
    Sound rsaVerify after ∧ after.transports t = some { x with online := true } := by
  simp only [adbAuthVerified, handleOnline_eq hx, bind, Except.bind] at hok
  cases hok
  have hnote : Sound rsaVerify (st.note (.online t)) := by
    refine h.note (.online t) (fun _ => rfl) (fun u hu => ?_) nofun
    cases hu
    exact ha
  have hx' : (st.note (.online t)).transports t = some x := hx
  have hput : Sound rsaVerify ((st.note (.online t)).put t { x with online := true }) :=
    hnote.put hx' rfl rfl fun _ => ⟨st.log, [], rfl, List.not_mem_nil⟩
  refine ⟨hput.note (.connect t) (fun _ => rfl) nofun nofun, ?_⟩
  simp [Daemon.note, Daemon.put]

-- A request for a signature takes another token, and is the last one from then on.
theorem Sound.request (h : Sound rsaVerify st) (hx : st.transports t = some x) {token : Bytes}
    {e : Event Key} {r : Option Bytes} (he : requestOf t e = some r)
    (hothers : ∀ u, u ≠ t → requestOf u e = none) (hr : ∀ sent, r = some sent → token = sent) :
    Sound rsaVerify ((st.put t { x with token }).note e) where
  authorised := by
    refine authorised_append h.authorised fun u hu => ?_
    subst hu
    cases he
  online := by
    intro u y hy hon
    have hstays : e ≠ .offline u := by
      rintro rfl
      cases he
    by_cases hu : u = t
    · subst hu
      simp only [Daemon.note, Daemon.put, Function.update_self, Option.some.injEq] at hy
      subst hy
      exact (h.online u x hx hon).append hstays
    · simp only [Daemon.note, Daemon.put, Function.update_of_ne hu] at hy
      exact (h.online u y hy hon).append hstays
  token := by
    intro u y sent hy hlast
    have hlog : lastRequest (st.log ++ [e]) u = some (some sent) := hlast
    rw [lastRequest_append] at hlog
    by_cases hu : u = t
    · subst hu
      simp only [Daemon.note, Daemon.put, Function.update_self, Option.some.injEq] at hy
      rw [he, Option.some_or, Option.some.injEq] at hlog
      rw [← hy]
      exact hr sent hlog
    · simp only [Daemon.note, Daemon.put, Function.update_of_ne hu] at hy
      rw [hothers u hu, Option.none_or] at hlog
      exact h.token u y sent hy hlog
  answers := fun fd connection v hc hv => List.mem_append_left _ (h.answers fd connection v hc hv)
  alone := by
    intro fd connection v u hc hv hreached
    have hkept : ({ x with token } : ATransport).authFde.fd = x.authFde.fd := rfl
    exact h.alone fd connection v u hc hv ((reached_put hx hkept).mp hreached)
  known := h.known
  pending := h.pending
  fresh := by
    intro u hu
    have hlt := h.lt_of_some hx
    have hle : st.nextTransport ≤ u := hu
    constructor
    · simp only [Daemon.note, Daemon.put]
      rw [Function.update_of_ne (by omega)]
      exact (h.fresh u hle).1
    · show lastRequest (st.log ++ [e]) u = none
      rw [lastRequest_append, hothers u (by omega), Option.none_or]
      exact (h.fresh u hle).2

theorem sendAuthRequest_sound (h : Sound rsaVerify st) (hx : st.transports t = some x)
    {urandom : Option Bytes} (hok : sendAuthRequest st t urandom = .ok after) :
    Sound rsaVerify after := by
  simp only [sendAuthRequest, deref_eq hx, bind, Except.bind] at hok
  split at hok
  · cases hok
    exact h.request hx (e := .noToken t) (r := none) (by simp [requestOf])
      (fun u hu => by simp [requestOf, hu.symm]) (by simp)
  · cases hok
    refine h.request hx (e := .token t _) (r := some _) (by simp [requestOf]; rfl)
      (fun u hu => by simp [requestOf, hu.symm]) ?_
    intro sent hs
    exact Option.some.inj hs

theorem setConnectionState_sound {state : Adb.Transport.ConnectionState} (h : Sound rsaVerify st)
    (hok : setConnectionState st t state = .ok after) :
    Sound rsaVerify after ∧ ∃ x, after.transports t = some x := by
  cases hx : st.transports t with
  | none => simp [setConnectionState, Daemon.deref, hx, bind, Except.bind] at hok
  | some x =>
      simp only [setConnectionState, deref_eq hx, bind, Except.bind] at hok
      cases hok
      refine ⟨h.put hx rfl rfl (h.online t x hx), { x with connectionState := state }, ?_⟩
      simp [Daemon.put]

theorem handleOffline_sound (h : Sound rsaVerify st) (hok : handleOffline st t = .ok after) :
    Sound rsaVerify after := by
  cases hx : st.transports t with
  | none => simp [handleOffline, Daemon.deref, hx, bind, Except.bind] at hok
  | some x =>
      simp only [handleOffline, deref_eq hx, bind, Except.bind] at hok
      cases hok
      have hput : Sound rsaVerify (st.put t { x with online := false }) := h.put hx rfl rfl (by simp)
      refine hput.note (.offline t) (fun _ => rfl) (nofun) fun u y hu hy => ?_
      cases hu
      simp only [Daemon.put, Function.update_self, Option.some.injEq] at hy
      rw [← hy]

-- Two calls, one after the other.
theorem sound_bind {first : Except Stop (Daemon Key)} {rest : Daemon Key → Except Stop (Daemon Key)}
    (hfirst : ∀ mid, first = .ok mid → Sound rsaVerify mid)
    (hrest : ∀ mid, first = .ok mid → Sound rsaVerify mid → rest mid = .ok after → Sound rsaVerify after)
    (hok : first >>= rest = .ok after) : Sound rsaVerify after := by
  cases h : first with
  | error e => simp [h, bind, Except.bind] at hok
  | ok mid =>
      simp only [h, bind, Except.bind] at hok
      exact hrest mid h (hfirst mid h) hok

theorem handleSync_sound {p : Packet} (h : Sound rsaVerify st)
    (hok : handleSync st t p = .ok after) : Sound rsaVerify after := by
  unfold handleSync at hok
  split at hok
  · cases hok
    exact h
  · apply sound_bind (fun mid hmid => (setConnectionState_sound h hmid).1) ?_ hok
    intro mid _ hs hrest
    exact handleOffline_sound hs hrest

theorem handleConnect_sound {p : Packet} {urandom : Option Bytes} (h : Sound rsaVerify st)
    (hok : handleConnect st t p urandom = .ok after) : Sound rsaVerify after := by
  cases hx : st.transports t with
  | none => simp [handleConnect, Daemon.deref, hx, bind, Except.bind] at hok
  | some x =>
      unfold handleConnect at hok
      rw [deref_eq hx] at hok
      have hfirst : ∀ mid, (if x.connectionState ≠ .offline then
          setConnectionState st t .offline >>= fun st => handleOffline st t else pure st) = .ok mid →
          Sound rsaVerify mid := by
        intro mid hmid
        split at hmid
        · apply sound_bind (fun first hfirst => (setConnectionState_sound h hfirst).1) ?_ hmid
          intro first _ hs hrest
          exact handleOffline_sound hs hrest
        · cases hmid
          exact h
      apply sound_bind hfirst ?_ hok
      intro mid _ hs hrest
      apply sound_bind (fun banner hbanner => (setConnectionState_sound hs hbanner).1) ?_ hrest
      intro banner hbanner hs' hrequest
      obtain ⟨y, hy⟩ := (setConnectionState_sound hs hbanner).2
      exact sendAuthRequest_sound hs' hy hrequest

-- A signature that holds is one for the last token, which has been sent.
theorem handleSignature_sound {sig : Bytes} {urandom : Option Bytes} (h : Sound rsaVerify st)
    (hx : st.transports t = some x)
    (hsent : adbAuthVerify rsaVerify st.keyList x.token sig = true →
      ∃ token, lastRequest st.log t = some (some token))
    (hok : handleSignature rsaVerify st t sig urandom = .ok after) : Sound rsaVerify after := by
  have hnote : Sound rsaVerify (st.note (.signature t sig st.keyList)) :=
    h.note _ (fun _ => rfl) nofun nofun
  have hx' : (st.note (.signature t sig st.keyList)).transports t = some x := hx
  unfold handleSignature at hok
  rw [deref_eq hx] at hok
  change (if adbAuthVerify rsaVerify st.keyList x.token sig then _ else _) = _ at hok
  split at hok
  · rename_i hverify
    obtain ⟨token, hlast⟩ := hsent hverify
    obtain rfl := h.token t x token hx hlast
    have ha : Authorised rsaVerify t (st.note (.signature t sig st.keyList)).log :=
      .signature st.log sig st.keyList x.token (lastToken_of_request hlast) hverify
    apply sound_bind (fun mid hmid => (adbAuthVerified_sound hnote hx' ha hmid).1) ?_ hok
    intro mid hmid hs hrest
    have hy := (adbAuthVerified_sound hnote hx' ha hmid).2
    rw [deref_eq hy] at hrest
    cases hrest
    exact hs.put hy rfl rfl fun _ => hs.online t _ hy rfl
  · have hput : Sound rsaVerify ((st.note (.signature t sig st.keyList)).put t
        { x with failedAuthAttempts := x.failedAuthAttempts + 1 }) :=
      hnote.put hx' rfl rfl (hnote.online t x hx')
    have hy : ((st.note (.signature t sig st.keyList)).put t
        { x with failedAuthAttempts := x.failedAuthAttempts + 1 }).transports t =
        some { x with failedAuthAttempts := x.failedAuthAttempts + 1 } := by
      simp [Daemon.put]
    exact sendAuthRequest_sound hput hy hok

end Sound

section Framework

variable {Key : Type} {rsaVerify : Key → Bytes → Bytes → Bool} {st mid after : Daemon Key}
  {t u fd : Nat} {x x' : ATransport}

-- The fdevent of a transport leads to the connection its key has gone to.
theorem Sound.install (h : Sound rsaVerify st) (hx : st.transports t = some x)
    (halone : KeyAlone st fd t) {connections : Nat → Option Connection}
    (hsent : ∀ c connection, connections c = some connection → ∃ old, st.connections c = some old ∧
      connection.incoming = old.incoming ∧ ∀ v ∈ connection.keys, v ∈ old.keys ∨ c = fd ∧ v = t) :
    Sound rsaVerify { (st.put t { x with authFde := ⟨fd, true⟩ }) with
      connections
      fdTable := Function.update st.fdTable fd (some t)
      pending := st.pending.filter (· ≠ t)
      log := st.log ++ [.key fd t] } where
  authorised := authorised_append h.authorised nofun
  online := by
    intro u y hy hon
    by_cases hu : u = t
    · subst hu
      simp only [Daemon.put, Function.update_self, Option.some.injEq] at hy
      subst hy
      exact (h.online u x hx hon).append nofun
    · simp only [Daemon.put, Function.update_of_ne hu] at hy
      exact (h.online u y hy hon).append nofun
  token := by
    intro u y token hy hlast
    rw [lastRequest_append] at hlast
    by_cases hu : u = t
    · subst hu
      simp only [Daemon.put, Function.update_self, Option.some.injEq] at hy
      subst hy
      exact h.token u x token hx hlast
    · simp only [Daemon.put, Function.update_of_ne hu] at hy
      exact h.token u y token hy hlast
  answers := by
    intro c connection v hc hv
    obtain ⟨old, hold, hin, -⟩ := hsent c connection hc
    exact List.mem_append_left _ (h.answers c old v hold (hin ▸ hv))
  alone := by
    intro c connection v u hc hv hreached
    obtain ⟨old, hold, hin, hkeys⟩ := hsent c connection hc
    have howed : Owed old v ∨ c = fd ∧ v = t := by
      rcases hv with hv | ⟨b, hv⟩
      · exact (hkeys v hv).imp_left Or.inl
      · exact Or.inl (Or.inr ⟨b, hin ▸ hv⟩)
    obtain ⟨y, hy, hfd, hway⟩ := hreached
    by_cases hu : u = t
    · -- the transport itself is called for this connection only
      subst hu
      simp only [Daemon.put, Function.update_self, Option.some.injEq] at hy
      subst hy
      rcases howed with howed | ⟨-, rfl⟩
      · have hcfd : fd = c := hfd
        subst hcfd
        exact (halone.1 old v hold howed).symm
      · rfl
    · simp only [Daemon.put, Function.update_of_ne hu] at hy
      have hold' : Reached st u c fun d => c = fd → d ≠ fd := by
        refine ⟨y, hy, hfd, ?_⟩
        rcases hway with hp | ⟨d, -, hd⟩
        · exact Or.inl (List.mem_filter.mp hp).1
        · have hd : Function.update st.fdTable fd (some t) d = some u := hd
          refine Or.inr ⟨d, ?_, ?_⟩
          · rintro - rfl
            simp only [Function.update_self, Option.some.injEq] at hd
            exact hu hd.symm
          · by_cases hdf : d = fd
            · subst hdf
              simp only [Function.update_self, Option.some.injEq] at hd
              exact absurd hd.symm hu
            · rwa [Function.update_of_ne hdf] at hd
      by_cases hcfd : c = fd
      · subst hcfd
        refine absurd ?_ (halone.2 u hu)
        obtain ⟨y, hy, hfd, hway⟩ := hold'
        exact ⟨y, hy, hfd, hway.imp_right fun ⟨d, hd, ht⟩ => ⟨d, hd rfl, ht⟩⟩
      · have howed : Owed old v := howed.resolve_right fun hf => hcfd hf.1
        apply h.alone c old v u hold howed
        obtain ⟨y, hy, hfd, hway⟩ := hold'
        exact ⟨y, hy, hfd, hway.imp_right fun ⟨d, _, ht⟩ => ⟨d, trivial, ht⟩⟩
  known := by
    intro d u hd
    have hd : Function.update st.fdTable fd (some t) d = some u := hd
    by_cases hdf : d = fd
    · subst hdf
      simp only [Function.update_self, Option.some.injEq] at hd
      subst hd
      exact h.lt_of_some hx
    · rw [Function.update_of_ne hdf] at hd
      exact h.known d u hd
  pending := fun u hu => h.pending u (List.mem_filter.mp hu).1
  fresh := by
    intro u hu
    have hlt := h.lt_of_some hx
    have hle : st.nextTransport ≤ u := hu
    constructor
    · simp only [Daemon.put]
      rw [Function.update_of_ne (by omega)]
      exact (h.fresh u hle).1
    · rw [lastRequest_append]
      exact (h.fresh u hle).2

theorem adbAuthConfirmKey_sound {key : Bytes} {written : Bool} (h : Sound rsaVerify st)
    (hx : st.transports t = some x)
    (halone : PassedOn key written → ∀ fd, st.frameworkFd = some fd → KeyAlone st fd t)
    (hok : adbAuthConfirmKey st key t written = .ok after) : Sound rsaVerify after := by
  unfold adbAuthConfirmKey at hok
  split at hok
  · cases hok
    exact h
  · rename_i fd hfd
    split at hok
    · cases hok
      exact h
    · rename_i hlast
      split at hok
      · cases hok
        exact h
      · rename_i hlong
        split at hok
        · cases hok
          exact h
        · rename_i hwritten
          have hka := halone ⟨not_not.mp hlast, by omega, not_not.mp hwritten⟩ fd hfd
          cases hc : st.connections fd with
          | none =>
              simp only [hc] at hok
              have hx' : (st.note (.key fd t)).transports t = some x := hx
              rw [installAuthFde, deref_eq hx'] at hok
              cases hok
              have hsent : ∀ c connection, st.connections c = some connection →
                  ∃ old, st.connections c = some old ∧ connection.incoming = old.incoming ∧
                    ∀ v ∈ connection.keys, v ∈ old.keys ∨ c = fd ∧ v = t :=
                fun c connection hcc => ⟨connection, hcc, rfl, fun v hv => Or.inl hv⟩
              exact h.install hx hka hsent
          | some connection =>
              simp only [hc] at hok
              have hx' : ((st.putConnection fd { connection with keys := connection.keys ++ [t] }).note
                  (.key fd t)).transports t = some x := hx
              rw [installAuthFde, deref_eq hx'] at hok
              cases hok
              have hsent : ∀ c found, Function.update st.connections fd
                  (some { connection with keys := connection.keys ++ [t] }) c = some found →
                  ∃ old, st.connections c = some old ∧ found.incoming = old.incoming ∧
                    ∀ v ∈ found.keys, v ∈ old.keys ∨ c = fd ∧ v = t := by
                intro c found hcc
                by_cases hcf : c = fd
                · subst hcf
                  rw [Function.update_self, Option.some.injEq] at hcc
                  subst hcc
                  refine ⟨connection, hc, rfl, fun v hv => ?_⟩
                  rcases List.mem_append.mp hv with hv | hv
                  · exact Or.inl hv
                  · exact Or.inr ⟨rfl, List.mem_singleton.mp hv⟩
                · rw [Function.update_of_ne hcf] at hcc
                  exact ⟨found, hcc, rfl, fun v hv => Or.inl hv⟩
              exact h.install hx hka hsent

-- Descriptors lead to no more transports than before, and nobody owes more.
structure Fewer (st after : Daemon Key) : Prop where
  transports : after.transports = st.transports
  nextTransport : after.nextTransport = st.nextTransport
  log : after.log = st.log
  fdTable : ∀ d u, after.fdTable d = some u → st.fdTable d = some u
  pending : ∀ u ∈ after.pending, u ∈ st.pending ∨ ∃ d, st.fdTable d = some u
  connections : ∀ fd connection, after.connections fd = some connection →
    connection = ⟨[], []⟩ ∨ ∃ old, st.connections fd = some old ∧
      (∀ e ∈ connection.incoming, e ∈ old.incoming) ∧ ∀ v ∈ connection.keys, v ∈ old.keys

theorem Fewer.of_same (htransports : after.transports = st.transports)
    (hnext : after.nextTransport = st.nextTransport) (hlog : after.log = st.log)
    (htable : after.fdTable = st.fdTable) (hpending : after.pending = st.pending)
    (hconnections : after.connections = st.connections) : Fewer st after where
  transports := htransports
  nextTransport := hnext
  log := hlog
  fdTable := fun _ _ hd => htable ▸ hd
  pending := fun _ hu => Or.inl (hpending ▸ hu)
  connections := fun _ connection hc =>
    Or.inr ⟨connection, hconnections ▸ hc, fun _ he => he, fun _ hv => hv⟩

theorem Fewer.reached (hf : Fewer st after) (hr : Reached after u fd fun _ => True) :
    Reached st u fd fun _ => True := by
  obtain ⟨y, hy, hfd, hway⟩ := hr
  refine ⟨y, hf.transports ▸ hy, hfd, ?_⟩
  rcases hway with hp | ⟨d, -, hd⟩
  · exact (hf.pending u hp).imp_right fun ⟨d, hd⟩ => ⟨d, trivial, hd⟩
  · exact Or.inr ⟨d, trivial, hf.fdTable d u hd⟩

theorem Sound.fewer (h : Sound rsaVerify st) (hf : Fewer st after) : Sound rsaVerify after where
  authorised := by
    rw [hf.log]
    exact h.authorised
  online := by
    rw [hf.transports, hf.log]
    exact h.online
  token := by
    rw [hf.transports, hf.log]
    exact h.token
  answers := by
    intro fd connection v hc hv
    rw [hf.log]
    rcases hf.connections fd connection hc with rfl | ⟨old, hold, hin, -⟩
    · simp at hv
    · exact h.answers fd old v hold (hin _ hv)
  alone := by
    intro fd connection v u hc hv hr
    rcases hf.connections fd connection hc with rfl | ⟨old, hold, hin, hkeys⟩
    · simp [Owed] at hv
    · exact h.alone fd old v u hold (hv.imp (hkeys v) fun ⟨b, hb⟩ => ⟨b, hin _ hb⟩) (hf.reached hr)
  known := fun d u hd => hf.nextTransport ▸ h.known d u (hf.fdTable d u hd)
  pending := by
    intro u hu
    rw [hf.nextTransport]
    rcases hf.pending u hu with hp | ⟨d, hd⟩
    · exact h.pending u hp
    · exact h.known d u hd
  fresh := by
    rw [hf.transports, hf.log, hf.nextTransport]
    exact h.fresh

theorem putConnection_iff {c : Nat} {next found : Connection} :
    (st.putConnection fd next).connections c = some found ↔
      (c = fd ∧ next = found) ∨ (c ≠ fd ∧ st.connections c = some found) := by
  by_cases hcf : c = fd
  · subst hcf
    simp [Daemon.putConnection]
  · simp [Daemon.putConnection, hcf]

-- A connection changes, and nobody is owed more than before.
theorem Sound.putConnection {connection next : Connection} (h : Sound rsaVerify st)
    (hc : st.connections fd = some connection) (howed : ∀ v, Owed next v → Owed connection v)
    (hin : ∀ v, (75, v) ∈ next.incoming → .answered v ∈ st.log) :
    Sound rsaVerify (st.putConnection fd next) where
  authorised := h.authorised
  online := h.online
  token := h.token
  answers := by
    intro c found v hco hv
    rcases putConnection_iff.mp hco with ⟨rfl, rfl⟩ | ⟨-, hco⟩
    · exact hin v hv
    · exact h.answers c found v hco hv
  alone := by
    intro c found v u hco hv hr
    rcases putConnection_iff.mp hco with ⟨rfl, rfl⟩ | ⟨-, hco⟩
    · exact h.alone c connection v u hc (howed v hv) hr
    · exact h.alone c found v u hco hv hr
  known := h.known
  pending := h.pending
  fresh := h.fresh

-- The framework answers one of the keys it owes an answer for.
theorem frameworkAnswer_sound {i : Nat} {allow : Bool} (h : Sound rsaVerify st)
    (hok : frameworkAnswer st fd i allow = .ok after) : Sound rsaVerify after := by
  unfold frameworkAnswer at hok
  split at hok
  · cases hok
  · rename_i connection hc
    split at hok
    · cases hok
    · rename_i t ht
      have howed : ∀ answer : Bytes, ∀ v, Owed { connection with
          keys := connection.keys.eraseIdx i
          incoming := connection.incoming ++ answer.map (·, t) } v → Owed connection v := by
        rintro answer v (hv | ⟨b, hv⟩)
        · exact Or.inl (List.mem_of_mem_eraseIdx hv)
        · rcases List.mem_append.mp hv with hv | hv
          · exact Or.inr ⟨b, hv⟩
          · obtain ⟨c, -, hcv⟩ := List.mem_map.mp hv
            cases hcv
            exact Or.inl (List.mem_of_getElem? ht)
      cases allow with
      | false =>
          cases hok
          apply h.putConnection hc (howed (ascii "NO"))
          intro v hv
          rcases List.mem_append.mp hv with hv | hv
          · exact h.answers fd connection v hc hv
          · simp [ascii] at hv
      | true =>
          cases hok
          have hnote := h.note (.answered t) (fun _ => rfl) nofun nofun
          have hc' : (st.note (.answered t)).connections fd = some connection := hc
          apply hnote.putConnection hc' (howed (ascii "OK"))
          intro v hv
          rcases List.mem_append.mp hv with hv | hv
          · exact List.mem_append_left _ (h.answers fd connection v hc hv)
          · obtain ⟨b, -, hb⟩ := List.mem_map.mp hv
            cases hb
            exact List.mem_append_right _ (List.mem_singleton.mpr rfl)

end Framework

section Calls

variable {Key : Type} {rsaVerify : Key → Bytes → Bytes → Bool} {st mid after : Daemon Key}
  {t u fd : Nat} {x x' : ATransport} {connection : Connection}

theorem unixRead_fewer (st : Daemon Key) (fd : Nat) (read : ReadOutcome) :
    Fewer st (unixRead st fd read).2 := by
  have hsame : Fewer st st := .of_same rfl rfl rfl rfl rfl rfl
  unfold unixRead
  split
  · exact hsame
  · rename_i count others
    split
    · exact hsame
    · rename_i connection hc
      refine ⟨rfl, rfl, rfl, fun _ _ h => h, fun _ h => Or.inl h, ?_⟩
      intro c other hco
      rcases putConnection_iff.mp hco with ⟨rfl, rfl⟩ | ⟨-, hco⟩
      · exact Or.inr ⟨connection, hc, fun e he => List.mem_of_mem_drop he, fun _ hv => hv⟩
      · exact Or.inr ⟨other, hco, fun _ he => he, fun _ hv => hv⟩

-- What is read as an OK comes from the answers to some keys.
theorem unixRead_ok (hc : st.connections fd ≠ none) {read : ReadOutcome}
    {response : List (UInt8 × Option Nat)} (hread : (unixRead st fd read).1 = some response)
    (hok : response.map Prod.fst = ascii "OK") :
    ∃ connection v w, st.connections fd = some connection ∧ (79, v) ∈ connection.incoming ∧
      (75, w) ∈ connection.incoming ∧ response = [(79, some v), (75, some w)] := by
  unfold unixRead at hread
  split at hread
  · cases hread
  · rename_i count others
    split at hread
    · rename_i hnone
      exact absurd hnone hc
    · rename_i connection hc
      obtain rfl := Option.some.inj hread
      have htaken : ∀ e ∈ connection.incoming.take (min count 2), e ∈ connection.incoming :=
        fun e he => List.mem_of_mem_take he
      generalize connection.incoming.take (min count 2) = taken at hok htaken ⊢
      rw [List.map_map] at hok
      obtain ⟨⟨b, v⟩, more, rfl, hb, hmore⟩ := List.map_eq_cons_iff.mp hok
      obtain ⟨⟨b', w⟩, last, rfl, hb', hlast⟩ := List.map_eq_cons_iff.mp hmore
      obtain rfl := List.map_eq_nil_iff.mp hlast
      obtain rfl : b = 79 := hb
      obtain rfl : b' = 75 := hb'
      exact ⟨connection, v, w, hc, htaken _ (by simp), htaken _ (by simp), rfl⟩

theorem removeAuthFde_sound (h : Sound rsaVerify st)
    (hok : removeAuthFde st t = .ok after) : Sound rsaVerify after := by
  cases hx : st.transports t with
  | none => simp [removeAuthFde, Daemon.deref, hx, bind, Except.bind] at hok
  | some x =>
      have hput : Sound rsaVerify (st.put t { x with authFde := { x.authFde with active := false } }) :=
        h.put hx rfl rfl (h.online t x hx)
      simp only [removeAuthFde, deref_eq hx, bind, Except.bind] at hok
      split at hok
      · cases hok
        exact hput
      · split at hok
        · cases hok
          refine hput.fewer ⟨rfl, rfl, rfl, ?_, fun _ hu => Or.inl hu, ?_⟩
          · intro d u hd
            have hd : Function.update st.fdTable x.authFde.fd none d = some u := hd
            by_cases hdf : d = x.authFde.fd
            · simp [hdf] at hd
            · rwa [Function.update_of_ne hdf] at hd
          · intro c other hco
            have hco : Function.update st.connections x.authFde.fd none c = some other := hco
            by_cases hcf : c = x.authFde.fd
            · simp [hcf] at hco
            · rw [Function.update_of_ne hcf] at hco
              exact Or.inr ⟨other, hco, fun _ he => he, fun _ hv => hv⟩
        · cases hok

-- The OK that is read there is the answer to a key of its transport.
theorem ok_authorised {read : ReadOutcome} {response : List (UInt8 × Option Nat)}
    (h : Sound rsaVerify st) (hp : t ∈ st.pending) (hx : st.transports t = some x)
    (hc : st.connections x.authFde.fd ≠ none)
    (hmid : unixRead { st with pending := st.pending.erase t } x.authFde.fd read =
      (some response, mid))
    (hresponse : response.map Prod.fst = ascii "OK") :
    Authorised rsaVerify t (mid.note (.response t response)).log := by
  have hlog := (unixRead_fewer { st with pending := st.pending.erase t } x.authFde.fd read).log
  rw [hmid] at hlog
  have hc' : ({ st with pending := st.pending.erase t } : Daemon Key).connections x.authFde.fd ≠
      none := hc
  obtain ⟨connection, v, w, hconn, hv, hw, rfl⟩ :=
    unixRead_ok hc' (congrArg Prod.fst hmid) hresponse
  have hreached : Reached st t x.authFde.fd fun _ => True := ⟨x, hx, rfl, Or.inl hp⟩
  obtain rfl : t = v := h.alone x.authFde.fd connection v t hconn (Or.inr ⟨79, hv⟩) hreached
  obtain rfl : t = w := h.alone x.authFde.fd connection w t hconn (Or.inr ⟨75, hw⟩) hreached
  refine .allowed mid.log ?_
  rw [hlog]
  exact h.answers x.authFde.fd connection t hconn hw

-- An fdevent is called for a connection where nobody but its transport is owed
-- an answer.
theorem callback_sound {read : ReadOutcome} {reloaded : List Key} (h : Sound rsaVerify st)
    (hp : t ∈ st.pending) (hx : st.transports t = some x) (hc : st.connections x.authFde.fd ≠ none)
    (hok : adbAuthEvent { st with pending := st.pending.erase t } x.authFde.fd t read reloaded =
      .ok after) : Sound rsaVerify after := by
  have hcalled : Sound rsaVerify { st with pending := st.pending.erase t } :=
    h.fewer ⟨rfl, rfl, rfl, fun _ _ hd => hd, fun _ hu => Or.inl (List.mem_of_mem_erase hu),
      fun fd c hc => Or.inr ⟨c, hc, fun _ he => he, fun _ hv => hv⟩⟩
  have hread := hcalled.fewer (unixRead_fewer { st with pending := st.pending.erase t } x.authFde.fd read)
  have hsame := (unixRead_fewer { st with pending := st.pending.erase t } x.authFde.fd read).transports
  unfold adbAuthEvent at hok
  split at hok
  · rename_i mid hmid
    rw [hmid] at hread
    apply sound_bind (fun removed hremoved => removeAuthFde_sound hread hremoved) ?_ hok
    intro removed _ hs hrest
    cases hrest
    exact hs.fewer (.of_same rfl rfl rfl rfl rfl rfl)
  · rename_i response mid hmid
    rw [hmid] at hread hsame
    have hnote : Sound rsaVerify (mid.note (.response t response)) :=
      hread.note _ (fun _ => rfl) nofun nofun
    dsimp only at hok
    split at hok
    · rename_i hresponse
      have ha := ok_authorised h hp hx hc hmid hresponse
      have hreload : Sound rsaVerify
          { mid.note (.response t response) with keyList := reloaded } :=
        hnote.fewer (.of_same rfl rfl rfl rfl rfl rfl)
      exact (adbAuthVerified_sound hreload (hsame ▸ hx) ha hok).1
    · cases hok
      exact hnote

theorem handlePacket_sound {p : Packet} {urandom : Option Bytes} {written : Bool}
    (h : Sound rsaVerify st) (hw : WellTimed rsaVerify st (.packet t p urandom written))
    (hok : handlePacket rsaVerify st t p urandom written = .ok after) : Sound rsaVerify after := by
  cases hx : st.transports t with
  | none => simp [handlePacket, Daemon.deref, hx, bind, Except.bind] at hok
  | some x =>
      simp only [handlePacket, deref_eq hx, bind, Except.bind] at hok
      split at hok
      · exact handleSync_sound h hok
      · split at hok
        · exact handleConnect_sound h hok
        · split at hok
          · rename_i hauth
            obtain ⟨hsig, hkey⟩ := hw hauth
            unfold handleAuth at hok
            split at hok
            · cases hok
              exact h
            · split at hok
              · rename_i hs
                exact handleSignature_sound h hx (fun hv => hsig hs ⟨x, hx, hv⟩) hok
              · split at hok
                · rename_i hk
                  exact adbAuthConfirmKey_sound h hx (hkey hk) hok
                · cases hok
                  exact h
          · cases hok
            exact h

theorem register_sound (h : Sound rsaVerify st) :
    Sound rsaVerify { st.put st.nextTransport newTransport with nextTransport := st.nextTransport + 1 } where
  authorised := h.authorised
  online := by
    intro u y hy hon
    by_cases hu : u = st.nextTransport
    · subst hu
      simp only [Daemon.put, Function.update_self, Option.some.injEq] at hy
      subst hy
      cases hon
    · simp only [Daemon.put, Function.update_of_ne hu] at hy
      exact h.online u y hy hon
  token := by
    intro u y token hy hlast
    have hlast : lastRequest st.log u = some (some token) := hlast
    by_cases hu : u = st.nextTransport
    · subst hu
      rw [(h.fresh st.nextTransport (Nat.le_refl _)).2] at hlast
      cases hlast
    · simp only [Daemon.put, Function.update_of_ne hu] at hy
      exact h.token u y token hy hlast
  answers := h.answers
  alone := by
    intro c connection v u hc hv hr
    obtain ⟨y, hy, hfd, hway⟩ := hr
    have hu : u ≠ st.nextTransport := by
      rintro rfl
      rcases hway with hp | ⟨d, -, hd⟩
      · exact Nat.lt_irrefl _ (h.pending _ hp)
      · exact Nat.lt_irrefl _ (h.known d _ hd)
    simp only [Daemon.put, Function.update_of_ne hu] at hy
    exact h.alone c connection v u hc hv ⟨y, hy, hfd, hway⟩
  known := fun d u hd => Nat.lt_succ_of_lt (h.known d u hd)
  pending := fun u hu => Nat.lt_succ_of_lt (h.pending u hu)
  fresh := by
    intro u hu
    have hle : st.nextTransport + 1 ≤ u := hu
    refine ⟨?_, (h.fresh u (by omega)).2⟩
    simp only [Daemon.put]
    rw [Function.update_of_ne (by omega)]
    exact (h.fresh u (by omega)).1

theorem remove_sound (h : Sound rsaVerify st) (t : Nat) :
    Sound rsaVerify { st with transports := Function.update st.transports t none } where
  authorised := h.authorised
  online := by
    intro u y hy hon
    have hut : u ≠ t := by
      rintro rfl
      simp at hy
    simp only [Function.update_of_ne hut] at hy
    exact h.online u y hy hon
  token := by
    intro u y token hy hlast
    have hut : u ≠ t := by
      rintro rfl
      simp at hy
    simp only [Function.update_of_ne hut] at hy
    exact h.token u y token hy hlast
  answers := h.answers
  alone := by
    intro c connection v u hc hv hr
    obtain ⟨y, hy, hrest⟩ := hr
    have hut : u ≠ t := by
      rintro rfl
      simp at hy
    simp only [Function.update_of_ne hut] at hy
    exact h.alone c connection v u hc hv ⟨y, hy, hrest⟩
  known := h.known
  pending := h.pending
  fresh := by
    intro u hu
    refine ⟨?_, (h.fresh u hu).2⟩
    by_cases hut : u = t
    · simp [hut]
    · simpa [hut] using (h.fresh u hu).1

theorem step_sound {input : Input Key} (h : Sound rsaVerify st) (hw : WellTimed rsaVerify st input)
    (hok : step rsaVerify st input = .ok after) : Sound rsaVerify after := by
  cases input with
  | register =>
      cases hok
      exact register_sound h
  | remove t =>
      cases hok
      exact remove_sound h t
  | packet t p urandom written =>
      simp only [step] at hok
      split at hok
      · exact handlePacket_sound h hw hok
      · cases hok
  | accept fd =>
      simp only [step] at hok
      split at hok
      · cases hok
      · cases hok
        refine h.fewer ⟨rfl, rfl, rfl, fun _ _ hd => hd, fun _ hu => Or.inl hu, ?_⟩
        intro c connection hco
        rcases putConnection_iff.mp hco with ⟨-, rfl⟩ | ⟨-, hco⟩
        · exact Or.inl rfl
        · exact Or.inr ⟨connection, hco, fun _ he => he, fun _ hv => hv⟩
  | answer fd i allow => exact frameworkAnswer_sound h hok
  | signal fd =>
      simp only [step] at hok
      split at hok
      · cases hok
      · rename_i t ht
        cases hx : st.transports t with
        | none => simp [Daemon.deref, hx, bind, Except.bind] at hok
        | some x =>
            simp only [deref_eq hx, bind, Except.bind] at hok
            cases hok
            refine h.fewer ⟨rfl, rfl, rfl, fun _ _ hd => hd, ?_, fun c connection hco =>
              Or.inr ⟨connection, hco, fun _ he => he, fun _ hv => hv⟩⟩
            intro u hu
            simp only at hu
            split at hu
            · exact Or.inl hu
            · rcases List.mem_append.mp hu with hu | hu
              · exact Or.inl hu
              · exact Or.inr ⟨fd, List.mem_singleton.mp hu ▸ ht⟩
  | callback t read reloaded =>
      simp only [step] at hok
      split at hok
      · rename_i hp
        cases hx : st.transports t with
        | none => simp [Daemon.deref, hx, bind, Except.bind] at hok
        | some x =>
            simp only [deref_eq hx, bind, Except.bind] at hok
            exact callback_sound h hp hx (hw x hx) hok
      · cases hok

-- Wherever a run of well timed steps leads, whoever is online or has ever been has been
-- authorised each time, with the token of that time.
theorem online_only_if_authorised {keyList : List Key} {inputs : List (Input Key)}
    (hw : Guarded (step rsaVerify) (WellTimed rsaVerify) (daemonInit keyList) inputs)
    (hrun : run (step rsaVerify) (daemonInit keyList) inputs = .ok st) : Gated rsaVerify st :=
  (guarded_invariant (P := Sound rsaVerify) (fun _ _ _ hs hg hok => step_sound hs hg hok)
    (sound_init keyList) hw hrun).toGated

end Calls

section Runs

def connectPacket : Packet := ⟨A_CNXN, 0, 0, ascii "host::", [0]⟩

def keyPacket (key : Bytes) : Packet := ⟨A_AUTH, ADB_AUTH_RSAPUBLICKEY, 0, key ++ [0], []⟩

def signaturePacket (b : UInt8) : Packet := ⟨A_AUTH, ADB_AUTH_SIGNATURE, 0, List.replicate RSANUMBYTES b, []⟩

-- A device connects and signs its token, and does both again with another token.
def signedTwice : List (Input Unit) :=
  [.register, .packet 0 connectPacket (some (List.replicate TOKEN_SIZE 5)) true,
    .packet 0 (signaturePacket 5) none true,
    .packet 0 connectPacket (some (List.replicate TOKEN_SIZE 8)) true,
    .packet 0 (signaturePacket 8) none true]

def repeatsToken (_ : Unit) (sig token : Bytes) : Bool :=
  sig.eraseDups = token.eraseDups

set_option maxRecDepth 8000 in
theorem online_of_a_signature : ∃ st, run (step repeatsToken) (daemonInit [()]) signedTwice = .ok st ∧
    Gated repeatsToken st ∧ st.log.count (.online 0) = 2 := by
  obtain ⟨st, hrun, htwice⟩ : ∃ st, run (step repeatsToken) (daemonInit [()]) signedTwice = .ok st ∧
      st.log.count (.online 0) = 2 := ⟨_, rfl, rfl⟩
  have hconnect : connectPacket.command ≠ A_AUTH := by decide
  have hsignature : ∀ b, (signaturePacket b).arg0 ≠ ADB_AUTH_RSAPUBLICKEY := fun b => by
    show ADB_AUTH_SIGNATURE ≠ ADB_AUTH_RSAPUBLICKEY
    decide
  refine ⟨st, hrun, online_only_if_authorised ?_ hrun, htwice⟩
  refine ⟨trivial, fun first hfirst => ?_⟩
  cases hfirst
  refine ⟨fun h => absurd h hconnect, fun second hsecond => ?_⟩
  cases hsecond
  refine ⟨fun _ => ⟨fun _ _ => ⟨List.replicate TOKEN_SIZE 5, rfl⟩, fun h => absurd h (hsignature 5)⟩,
    fun third hthird => ?_⟩
  cases hthird
  refine ⟨fun h => absurd h hconnect, fun fourth hfourth => ?_⟩
  cases hfourth
  exact ⟨fun _ => ⟨fun _ _ => ⟨List.replicate TOKEN_SIZE 8, rfl⟩, fun h => absurd h (hsignature 8)⟩,
    fun _ _ => trivial⟩

-- Two devices send their keys, and the framework allows the first one.
def twoKeys : List (Input Unit) :=
  [.register, .register, .accept 9,
    .packet 0 connectPacket (some (List.replicate TOKEN_SIZE 5)) true,
    .packet 1 connectPacket (some (List.replicate TOKEN_SIZE 6)) true,
    .packet 0 (keyPacket (ascii "first")) none true,
    .packet 1 (keyPacket (ascii "second")) none true,
    .answer 9 0 true, .signal 9, .callback 1 (.got 2 []) []]

-- A device signs the token of a transport that has not been sent any.
def unasked : List (Input Unit) := [.register, .packet 0 (signaturePacket 7) none true]

def verifiesAll (_ : Unit) (_ _ : Bytes) : Bool := true

theorem Authorised.getLast {rsaVerify : Unit → Bytes → Bytes → Bool} {t : Nat} {log : List (Event Unit)}
    (h : Authorised rsaVerify t log) :
    (∃ sig keys, log.getLast? = some (.signature t sig keys) ∧ lastToken log.dropLast t ≠ none) ∨
      log.getLast? = some (.response t (okFor t)) := by
  cases h with
  | signature before sig keys token hlast hverify =>
      refine Or.inl ⟨sig, keys, List.getLast?_concat, ?_⟩
      rw [List.dropLast_concat, hlast]
      simp
  | allowed before hanswered => exact Or.inr List.getLast?_concat

set_option maxRecDepth 8000 in
theorem online_without_authorisation :
    (∃ st x, run (step verifiesAll) (daemonInit []) twoKeys = .ok st ∧ st.transports 1 = some x ∧
      x.online = true ∧ ¬Gated verifiesAll st) ∧
    ∃ st x, run (step verifiesAll) (daemonInit [()]) unasked = .ok st ∧ st.transports 0 = some x ∧
      x.online = true ∧ ¬Gated verifiesAll st := by
  constructor
  · -- the OK for transport 0 was read for transport 1
    obtain ⟨st, x, hrun, hx, ho, hsplit, hlast⟩ : ∃ st x, run (step verifiesAll) (daemonInit []) twoKeys = .ok st ∧
        st.transports 1 = some x ∧ x.online = true ∧
        st.log = st.log.dropLast.dropLast ++ [.online 1, .connect 1] ∧
        st.log.dropLast.dropLast.getLast? = some (.response 1 (okFor 0)) := ⟨_, _, rfl, rfl, rfl, rfl, rfl⟩
    refine ⟨st, x, hrun, hx, ho, fun h => ?_⟩
    obtain ⟨sig, keys, hsig, -⟩ | hok := (h.authorised 1 _ _ hsplit).getLast
    · rw [hlast] at hsig
      cases hsig
    · rw [hlast] at hok
      exact absurd hok (by decide)
  · -- no token has gone out
    obtain ⟨st, x, hrun, hx, ho, hsplit, hlast, hnone⟩ : ∃ st x,
        run (step verifiesAll) (daemonInit [()]) unasked = .ok st ∧ st.transports 0 = some x ∧ x.online = true ∧
        st.log = st.log.dropLast.dropLast ++ [.online 0, .connect 0] ∧
        st.log.dropLast.dropLast.getLast? = some (.signature 0 (List.replicate RSANUMBYTES 7) [()]) ∧
        lastToken st.log.dropLast.dropLast.dropLast 0 = none := ⟨_, _, rfl, rfl, rfl, rfl, rfl, rfl⟩
    refine ⟨st, x, hrun, hx, ho, fun h => ?_⟩
    obtain ⟨sig, keys, -, htoken⟩ | hok := (h.authorised 0 _ _ hsplit).getLast
    · exact htoken hnone
    · rw [hlast] at hok
      cases hok

end Runs

end Adb.Auth
