import Adb.Auth.Keys
import Mathlib.Data.List.Induction

namespace Adb.Auth

open Adb.Host (Bytes Packet Stop MAX_PAYLOAD A_CNXN A_SYNC A_VERSION ascii bannerState)
open Adb.Lib
open Adb.Transport (ConnectionState)

-- What send_connect, send_auth_request, send_auth_response and send_auth_publickey
-- send.
def cnxnPacket (banner : Bytes) : Packet := ⟨A_CNXN, A_VERSION, 4096, banner ++ [0], []⟩

def authToken (token : Bytes) : Packet := ⟨A_AUTH, ADB_AUTH_TOKEN, 0, token, []⟩

def authSignature (sig : Bytes) : Packet := ⟨A_AUTH, ADB_AUTH_SIGNATURE, 0, sig, []⟩

def authPublickey (key : Bytes) : Packet := ⟨A_AUTH, ADB_AUTH_RSAPUBLICKEY, 0, key, []⟩

def Event.packet {Key : Type} : Event Key → Option Packet
  | .token _ bytes => some (authToken bytes)
  | .connect _ => some (cnxnPacket (ascii "device::"))
  | _ => none

def Answer.packet {Rsa : Type} : Answer Rsa → Option Packet
  | .signature _ sent => sent.map authSignature
  | .publickey sent => sent.map authPublickey

-- Where the framework or its socket takes part.
def Input.ofFramework {Key : Type} : Input Key → Bool
  | .accept _ | .answer _ _ _ | .signal _ | .callback _ _ _ => true
  | _ => false

-- A host, its devices, and what is under way between them. The connection is transport t
-- of the host and transport 0 of device t.
structure Network (Rsa Key : Type) where
  host : KeyHost Rsa
  devices : Nat → Daemon Key
  toHost : Nat → List Packet
  toDevice : Nat → List Packet

namespace Network

section Model

variable {Rsa Key : Type} (rsaSign : Rsa → Bytes → Option Bytes)
  (rsaVerify : Key → Bytes → Bytes → Bool)

-- A packet comes to the host or to a device, or the framework of a device does something.
inductive Input (Key : Type) where
  | toHost (t : Nat) (file : Option Bytes)
  | toDevice (t : Nat) (urandom : Option Bytes) (written : Bool)
  | framework (t : Nat) (input : Auth.Input Key)

def replies (t : Nat) (before after : KeyHost Rsa) : List Packet :=
  ((answersTo t after.log).drop (answersTo t before.log).length).filterMap Answer.packet

def requests (before after : Daemon Key) : List Packet :=
  (after.log.drop before.log.length).filterMap Event.packet

def step (st : Network Rsa Key) : Input Key → Except Stop (Network Rsa Key)
  | .toHost t file =>
      match st.toHost t with
      | [] => .error .disabled
      | p :: rest => do
          let host ← KeyHost.step rsaSign st.host (.packet t p file)
          return { st with
            host
            toHost := Function.update st.toHost t rest
            toDevice := Function.update st.toDevice t (st.toDevice t ++ replies t st.host host) }
  | .toDevice t urandom written =>
      match st.toDevice t with
      | [] => .error .disabled
      | p :: rest => do
          let device ← Auth.step rsaVerify (st.devices t) (.packet 0 p urandom written)
          return { st with
            devices := Function.update st.devices t device
            toDevice := Function.update st.toDevice t rest
            toHost := Function.update st.toHost t (st.toHost t ++ requests (st.devices t) device) }
  | .framework t input =>
      if input.ofFramework then do
        let device ← Auth.step rsaVerify (st.devices t) input
        return { st with
          devices := Function.update st.devices t device
          toHost := Function.update st.toHost t (st.toHost t ++ requests (st.devices t) device) }
      else .error .disabled

-- adbd with the keys it has stored, once it has a transport.
def attachedDevice (keys : List Key) : Daemon Key :=
  { (daemonInit keys).put 0 newTransport with nextTransport := 1 }

-- Each device has been registered, and the host has sent its A_CNXN.
def init (store : KeyStore Rsa) (stored : List (List Key)) : Network Rsa Key where
  host := { KeyHost.init store with
    transports := fun t => if t < stored.length then some ⟨none, 0⟩ else none
    nextTransport := stored.length }
  devices t := attachedDevice (stored.getD t [])
  toHost _ := []
  toDevice t := if t < stored.length then [cnxnPacket (ascii "host::")] else []

end Model

section Conversation

variable {Rsa Key : Type} (rsaSign : Rsa → Bytes → Option Bytes)
  (rsaVerify : Key → Bytes → Bytes → Bool)

-- The signature with the key whose turn it is after j other tokens.
def signatureInTurn (rsas : List Rsa) (j : Nat) (token : Bytes) : Bytes :=
  (cursorAt rsas (j + 1)).elim [] fun rsa => KeyHost.adbAuthSign rsaSign rsa token

def sentToken : Event Key → Option Bytes
  | .token _ token => some token
  | _ => none

def checked : Event Key → Option (Bytes × List Key)
  | .signature _ sig keys => some (sig, keys)
  | _ => none

-- What a device with these keys has to do with a host that has those private keys, as its
-- log shows it: each signature is the one in turn for the token that has been sent last,
-- no token is sent before the one before it has been answered, and as long as tokens
-- follow the signatures are no good.
structure Conversed (rsas : List Rsa) (keys : List Key) (log : List (Event Key)) : Prop where
  inTurn : log.filterMap checked =
    ((log.filterMap sentToken).take (log.filterMap checked).length).mapIdx
      fun j token => (signatureInTurn rsaSign rsas j token, keys)
  answered : (log.filterMap sentToken).length ≤ (log.filterMap checked).length + 1
  bounded : (log.filterMap checked).length ≤ rsas.length
  refused : ∀ j token, j + 1 < (log.filterMap sentToken).length →
    (log.filterMap sentToken)[j]? = some token →
      adbAuthVerify rsaVerify keys token (signatureInTurn rsaSign rsas j token) = false

-- What has passed between the two as far as every signature was refused.
def rounds (rsas : List Rsa) (keys : List Key) (tried : List Bytes) : List (Event Key) :=
  (tried.mapIdx fun j token =>
    [Event.token 0 token, .signature 0 (signatureInTurn rsaSign rsas j token) keys]).flatten

-- adbd before a public key has come in: the framework knows of nothing.
structure Early (keys : List Key) (d : Daemon Key) : Prop where
  keyList : d.keyList = keys
  fdTable : ∀ fd, d.fdTable fd = none
  pending : d.pending = []
  connections : ∀ fd connection, d.connections fd = some connection → connection.keys = []

-- No token and no signature. All that the host may get to hear is that the device is online.
structure Apart (events : List (Event Key)) : Prop where
  tokens : events.filterMap sentToken = []
  signatures : events.filterMap checked = []
  greetings : ∀ p ∈ events.filterMap Event.packet, p = cnxnPacket (ascii "device::")

-- How far the two have come once these tokens have been answered in vain, after how many
-- packets. One packet is under way, unless they have come to an end: the device is online,
-- or has shown the public key to its user, or, where not all goes smoothly, an answer is
-- missing.
inductive Phase (smooth filed : Prop) (rsas : List Rsa) (keys : List Key) (tried : List Bytes) :
    Nat → List (Answer Rsa) → Daemon Key → List Packet → List Packet → Prop
  | announced (d : Daemon Key) (x : ATransport) (early : Early keys d)
      (found : d.transports 0 = some x)
      (offline : x.connectionState = .offline) (log : d.log = []) (start : tried = []) :
      Phase smooth filed rsas keys tried 0 [] d [] [cnxnPacket (ascii "host::")]
  | asked (answers : List (Answer Rsa)) (d : Daemon Key) (x : ATransport) (early : Early keys d)
      (found : d.transports 0 = some x)
      (log : d.log = rounds rsaSign rsas keys tried ++ [.token 0 x.token])
      (inTurn : answers.length = tried.length) (bounded : tried.length ≤ rsas.length) :
      Phase smooth filed rsas keys tried (2 * tried.length + 1) answers d [authToken x.token] []
  | signed (answers : List (Answer Rsa)) (d : Daemon Key) (x : ATransport) (early : Early keys d)
      (found : d.transports 0 = some x)
      (log : d.log = rounds rsaSign rsas keys tried ++ [.token 0 x.token])
      (inTurn : answers.length = tried.length + 1) (bounded : tried.length < rsas.length) :
      Phase smooth filed rsas keys tried (2 * tried.length + 2) answers d []
        [authSignature (signatureInTurn rsaSign rsas tried.length x.token)]
  | verified (answers : List (Answer Rsa)) (d : Daemon Key) (x : ATransport) (token : Bytes)
      (early : Early keys d)
      (found : d.transports 0 = some x) (online : x.online = true)
      (log : d.log = rounds rsaSign rsas keys (tried ++ [token]) ++ [.online 0, .connect 0])
      (bounded : tried.length < rsas.length)
      (passes : adbAuthVerify rsaVerify keys token
        (signatureInTurn rsaSign rsas tried.length token) = true)
      (used : Nat) (toHost : List Packet)
      (greetings : ∀ p ∈ toHost, p = cnxnPacket (ascii "device::"))
      (last : used + toHost.length = 2 * tried.length + 4) :
      Phase smooth filed rsas keys tried used answers d toHost []
  | offered (answers : List (Answer Rsa)) (d : Daemon Key) (x : ATransport) (key : Bytes)
      (early : Early keys d)
      (found : d.transports 0 = some x)
      (log : d.log = rounds rsaSign rsas keys tried ++ [.token 0 x.token])
      (all : tried.length = rsas.length) (used : Nat)
      (last : answers.getLast? = some (.publickey (some key))) :
      Phase smooth filed rsas keys tried used answers d [] [authPublickey key]
  | shown (answers : List (Answer Rsa)) (d : Daemon Key) (x : ATransport) (key token : Bytes)
      (events : List (Event Key)) (found : d.transports 0 = some x) (apart : Apart events)
      (log : d.log = rounds rsaSign rsas keys tried ++ .token 0 token :: events)
      (all : tried.length = rsas.length) (used : Nat) (toHost : List Packet)
      (greetings : ∀ p ∈ toHost, p = cnxnPacket (ascii "device::"))
      (last : answers.getLast? = some (.publickey (some key))) :
      Phase smooth filed rsas keys tried used answers d toHost []
  | stuck (answers : List (Answer Rsa)) (d : Daemon Key)
      (rough : smooth → tried.length = rsas.length ∧ ¬filed)
      (early : Early keys d) (asked : Option Bytes) (events : List (Event Key))
      (apart : Apart events)
      (log : d.log = rounds rsaSign rsas keys tried ++ (asked.map (Event.token 0)).toList ++ events)
      (bounded : tried.length ≤ rsas.length) (used : Nat) :
      Phase smooth filed rsas keys tried used answers d [] []

-- None of these tokens has been answered with a signature that is any good.
def Refused (rsas : List Rsa) (keys : List Key) (tried : List Bytes) : Prop :=
  ∀ j token, tried[j]? = some token →
    adbAuthVerify rsaVerify keys token (signatureInTurn rsaSign rsas j token) = false

-- A key always signs, and /dev/urandom and the file of the public key give what they
-- should.
def Signs : Prop := ∀ rsa token, KeyHost.adbAuthSign rsaSign rsa token ≠ []

def Input.Drawn : Input Key → Prop
  | .toDevice _ urandom _ => ∃ bytes, urandom = some bytes ∧ TOKEN_SIZE ≤ bytes.length
  | _ => True

def Input.Filed : Input Key → Prop
  | .toHost _ file => ∃ data, file = some data ∧ data.length + 1 ≤ MAX_PAYLOAD
  | _ => True

end Conversation

section Rounds

variable {Rsa Key : Type} {rsaSign : Rsa → Bytes → Option Bytes}
  {rsaVerify : Key → Bytes → Bytes → Bool}
  {rsas : List Rsa} {keys : List Key} {tried : List Bytes} {token : Bytes}

theorem rounds_concat (tried : List Bytes) (token : Bytes) :
    rounds rsaSign rsas keys (tried ++ [token]) = rounds rsaSign rsas keys tried ++
      [.token 0 token, .signature 0 (signatureInTurn rsaSign rsas tried.length token) keys] := by
  simp [rounds, List.mapIdx_append]

theorem rounds_tokens (tried : List Bytes) :
    (rounds rsaSign rsas keys tried).filterMap sentToken = tried := by
  induction tried using List.reverseRecOn with
  | nil => rfl
  | append_singleton tried token ih =>
      rw [rounds_concat, List.filterMap_append, ih]
      rfl

theorem rounds_checked (tried : List Bytes) : (rounds rsaSign rsas keys tried).filterMap checked =
    tried.mapIdx fun j token => (signatureInTurn rsaSign rsas j token, keys) := by
  induction tried using List.reverseRecOn with
  | nil => rfl
  | append_singleton tried token ih =>
      simp only [rounds_concat, List.filterMap_append, ih, List.mapIdx_append]
      rw [List.mapIdx_cons, List.mapIdx_nil, Nat.zero_add]
      rfl

theorem Refused.concat (h : Refused rsaSign rsaVerify rsas keys tried)
    (hbad : adbAuthVerify rsaVerify keys token
      (signatureInTurn rsaSign rsas tried.length token) = false) :
    Refused rsaSign rsaVerify rsas keys (tried ++ [token]) := by
  intro j x hx
  rw [List.getElem?_append] at hx
  split at hx
  · exact h j x hx
  · have hj : j = tried.length := by
      by_contra hne
      rw [List.getElem?_singleton, if_neg (by omega)] at hx
      cases hx
    subst hj
    rw [Nat.sub_self, List.getElem?_cons_zero, Option.some.injEq] at hx
    exact hx ▸ hbad

-- Whatever the log has behind the rounds, as long as it is one token at most.
theorem conversed_of_rounds (asked : Option Bytes) {events : List (Event Key)}
    (h : ∀ j token, j + 1 < tried.length + asked.toList.length → tried[j]? = some token →
      adbAuthVerify rsaVerify keys token (signatureInTurn rsaSign rsas j token) = false)
    (hapart : Apart events) (hlen : tried.length ≤ rsas.length) :
    Conversed rsaSign rsaVerify rsas keys
      (rounds rsaSign rsas keys tried ++ (asked.map (Event.token 0)).toList ++ events) := by
  have htokens : (rounds rsaSign rsas keys tried ++ (asked.map (Event.token 0)).toList ++
      events).filterMap
      sentToken = tried ++ asked.toList := by
    rw [List.filterMap_append, List.filterMap_append, rounds_tokens, hapart.tokens, List.append_nil]
    cases asked <;> rfl
  have hchecked : (rounds rsaSign rsas keys tried ++ (asked.map (Event.token 0)).toList ++
      events).filterMap
      checked = tried.mapIdx fun j token => (signatureInTurn rsaSign rsas j token, keys) := by
    rw [List.filterMap_append, List.filterMap_append, rounds_checked, hapart.signatures,
      List.append_nil]
    cases asked <;> simp [checked]
  constructor
  · rw [htokens, hchecked, List.length_mapIdx, List.take_left]
  · rw [htokens, hchecked, List.length_mapIdx, List.length_append]
    cases asked <;> simp
  · rw [hchecked, List.length_mapIdx]
    exact hlen
  · intro j token hj hget
    rw [htokens] at hj hget
    rw [List.length_append] at hj
    have hshort : j < tried.length := by
      cases asked with
      | none => simpa using Nat.lt_of_succ_lt hj
      | some asked => simpa using hj
    rw [List.getElem?_append_left hshort] at hget
    exact h j token hj hget

end Rounds

section Parties

variable {Rsa Key : Type} {rsaSign : Rsa → Bytes → Option Bytes}
  {rsaVerify : Key → Bytes → Bytes → Bool}
  {keys : List Key} {d after : Daemon Key} {x : ATransport}

theorem requests_append {events : List (Event Key)} (h : after.log = d.log ++ events) :
    requests d after = events.filterMap Event.packet := by
  rw [requests, h, List.drop_left]

theorem Early.wrote (h : Early keys d) (t : Nat) (x : ATransport) (e : Event Key) :
    Early keys ((d.put t x).note e) :=
  ⟨h.keyList, h.fdTable, h.pending, h.connections⟩

-- A token goes out, unless /dev/urandom has let it down.
theorem sendAuthRequest_cases (hx : d.transports 0 = some x) (urandom : Option Bytes) :
    ∃ token, sendAuthRequest d 0 urandom = .ok ((d.put 0 { x with token }).note (.token 0 token)) ∨
      ((¬∃ bytes, urandom = some bytes ∧ TOKEN_SIZE ≤ bytes.length) ∧
        sendAuthRequest d 0 urandom = .ok ((d.put 0 { x with token }).note (.noToken 0))) := by
  unfold sendAuthRequest adbAuthGenerateToken
  simp only [Daemon.deref, hx, bind, Except.bind]
  cases urandom with
  | none => exact ⟨x.token, Or.inr ⟨by simp, rfl⟩⟩
  | some bytes =>
      by_cases hfull : TOKEN_SIZE ≤ bytes.length
      · simp only [if_pos hfull]
        exact ⟨bytes.take TOKEN_SIZE, Or.inl rfl⟩
      · simp only [if_neg hfull]
        exact ⟨bytes ++ x.token.drop bytes.length, Or.inr ⟨by simpa using hfull, rfl⟩⟩

-- The host's A_CNXN is answered with a token.
theorem connect_received (hx : d.transports 0 = some x) (hoffline : x.connectionState = .offline)
    (urandom : Option Bytes) (written : Bool) :
    Auth.step rsaVerify d (.packet 0 (cnxnPacket (ascii "host::")) urandom written) =
      sendAuthRequest (d.put 0 { x with connectionState := .host }) 0 urandom := by
  have hbanner : (bannerState
      ((((ascii "host::" ++ [0]) ++ []).takeWhile (· ≠ 0)).takeWhile (· ≠ 58))).getD
      .host = .host := by decide
  have hne : A_CNXN ≠ A_SYNC := by decide
  simp only [Auth.step, hx, Option.isSome_some, if_true, Auth.handlePacket, Daemon.deref,
    bind, Except.bind, cnxnPacket, if_neg hne, Auth.handleConnect, hoffline, ne_eq,
    not_true_eq_false, if_false, pure, Except.pure, Auth.parseBanner, Auth.setConnectionState]
  rw [hbanner]

theorem signature_received (hx : d.transports 0 = some x) (sig : Bytes) (urandom : Option Bytes)
    (written : Bool) :
    Auth.step rsaVerify d (.packet 0 (authSignature sig) urandom written) =
      handleSignature rsaVerify d 0 sig urandom := by
  have hsync : A_AUTH ≠ A_SYNC := by decide
  have hconnect : A_AUTH ≠ A_CNXN := by decide
  have htoken : ADB_AUTH_SIGNATURE ≠ ADB_AUTH_TOKEN := by decide
  simp only [Auth.step, hx, Option.isSome_some, if_true, Auth.handlePacket, Daemon.deref,
    bind, Except.bind, authSignature, if_neg hsync, if_neg hconnect, Auth.handleAuth, if_neg htoken]

theorem publickey_received (hx : d.transports 0 = some x) (key : Bytes) (urandom : Option Bytes)
    (written : Bool) :
    Auth.step rsaVerify d (.packet 0 (authPublickey key) urandom written) =
      adbAuthConfirmKey d key 0 written := by
  have hsync : A_AUTH ≠ A_SYNC := by decide
  have hconnect : A_AUTH ≠ A_CNXN := by decide
  have htoken : ADB_AUTH_RSAPUBLICKEY ≠ ADB_AUTH_TOKEN := by decide
  have hsignature : ADB_AUTH_RSAPUBLICKEY ≠ ADB_AUTH_SIGNATURE := by decide
  simp only [Auth.step, hx, Option.isSome_some, if_true, Auth.handlePacket, Daemon.deref,
    bind, Except.bind, authPublickey, if_neg hsync, if_neg hconnect, Auth.handleAuth, if_neg htoken,
    if_neg hsignature]

theorem handleSignature_passes (hx : d.transports 0 = some x) {sig : Bytes}
    (hgood : adbAuthVerify rsaVerify d.keyList x.token sig = true) (urandom : Option Bytes) :
    ∃ y : ATransport, y.online = true ∧ handleSignature rsaVerify d 0 sig urandom =
      .ok ((((d.note (.signature 0 sig d.keyList)).note (.online 0)).note
        (.connect 0)).put 0 y) := by
  refine ⟨{ x with online := true, failedAuthAttempts := 0 }, rfl, ?_⟩
  simp [handleSignature, Daemon.deref, Daemon.note, Daemon.put, hx, hgood, bind, Except.bind,
    adbAuthVerified, Auth.handleOnline, pure, Except.pure]

theorem handleSignature_refuses (hx : d.transports 0 = some x) {sig : Bytes}
    (hbad : adbAuthVerify rsaVerify d.keyList x.token sig = false) (urandom : Option Bytes) :
    handleSignature rsaVerify d 0 sig urandom =
      sendAuthRequest ((d.note (.signature 0 sig d.keyList)).put 0
      { x with failedAuthAttempts := x.failedAuthAttempts + 1 }) 0 urandom := by
  simp [handleSignature, Daemon.deref, Daemon.note, hx, hbad, bind, Except.bind]

-- The device keeps its transport, and nothing happens to tokens and signatures.
def Minor (d after : Daemon Key) : Prop :=
  ∃ events, after.log = d.log ++ events ∧ Apart events ∧ (after.transports 0).isSome = true

theorem apart_nil : Apart ([] : List (Event Key)) := ⟨rfl, rfl, by simp⟩

theorem Apart.append {events more : List (Event Key)} (h : Apart events) (h' : Apart more) :
    Apart (events ++ more) where
  tokens := by rw [List.filterMap_append, h.tokens, h'.tokens, List.append_nil]
  signatures := by rw [List.filterMap_append, h.signatures, h'.signatures, List.append_nil]
  greetings := by
    intro p hp
    rw [List.filterMap_append, List.mem_append] at hp
    exact hp.elim (h.greetings p) (h'.greetings p)

theorem Minor.of_same (hlog : after.log = d.log) (hx : (after.transports 0).isSome = true) :
    Minor d after :=
  ⟨[], by rw [hlog, List.append_nil], apart_nil, hx⟩

theorem Minor.trans {mid : Daemon Key} (h : Minor d mid) (h' : Minor mid after) :
    Minor d after := by
  obtain ⟨events, hlog, hapart, -⟩ := h
  obtain ⟨more, hmore, hapart', hx⟩ := h'
  exact ⟨events ++ more, by rw [hmore, hlog, List.append_assoc], hapart.append hapart', hx⟩

theorem isSome_put (hx : (d.transports 0).isSome = true) (t : Nat) (y : ATransport) :
    ((d.put t y).transports 0).isSome = true := by
  by_cases ht : t = 0
  · simp [Daemon.put, ht]
  · simpa [Daemon.put, Function.update_of_ne (Ne.symm ht)] using hx

theorem adbAuthVerified_minor (hx : (d.transports 0).isSome = true) (t : Nat) :
    Ensures (adbAuthVerified d t) (Minor d) fun _ => True := by
  unfold adbAuthVerified Auth.handleOnline Daemon.deref
  cases d.transports t with
  | none => trivial
  | some y =>
      refine ⟨[.online t, .connect t], ?_, ⟨rfl, rfl, by simp [Event.packet]⟩, isSome_put hx t _⟩
      exact List.append_assoc d.log [.online t] [.connect t]

theorem removeAuthFde_minor (hx : (d.transports 0).isSome = true) (t : Nat) :
    Ensures (removeAuthFde d t) (Minor d) fun _ => True := by
  unfold removeAuthFde Daemon.deref
  cases d.transports t with
  | none => trivial
  | some y =>
      simp only [bind, Except.bind]
      split
      · exact Minor.of_same rfl (isSome_put hx t _)
      · split
        · exact Minor.of_same rfl (isSome_put hx t _)
        · trivial

-- The key is shown to the user, if there is a framework and the key fits.
theorem adbAuthConfirmKey_minor (hx : d.transports 0 = some x) (key : Bytes) (written : Bool) :
    Ensures (adbAuthConfirmKey d key 0 written) (Minor d) fun _ => False := by
  have hsome : (d.transports 0).isSome = true := by rw [hx]; rfl
  unfold adbAuthConfirmKey
  split
  · exact Minor.of_same rfl hsome
  split
  · exact Minor.of_same rfl hsome
  split
  · exact Minor.of_same rfl hsome
  split
  · exact Minor.of_same rfl hsome
  · rename_i fd _ _ _ _
    unfold installAuthFde Daemon.deref
    have hkey : Apart [(Event.key fd 0 : Event Key)] := ⟨rfl, rfl, by simp [Event.packet]⟩
    cases hconnection : d.connections fd with
    | none =>
        simp only [Daemon.note, hx, bind, Except.bind]
        exact ⟨[.key fd 0], rfl, hkey, by simp [Daemon.put]⟩
    | some connection =>
        simp only [Daemon.note, Daemon.putConnection, hx, bind, Except.bind]
        exact ⟨[.key fd 0], rfl, hkey, by simp [Daemon.put]⟩

theorem adbAuthEvent_minor (hx : (d.transports 0).isSome = true) (fd t : Nat) (read : ReadOutcome)
    (reloaded : List Key) :
    Ensures (adbAuthEvent d fd t read reloaded) (Minor d) fun _ => True := by
  have hread : (unixRead d fd read).2.log = d.log ∧
      (unixRead d fd read).2.transports = d.transports := by
    unfold unixRead
    split
    · exact ⟨rfl, rfl⟩
    · split <;> exact ⟨rfl, rfl⟩
  unfold adbAuthEvent
  generalize unixRead d fd read = r at hread ⊢
  obtain ⟨response, mid⟩ := r
  have hmid : Minor d mid := Minor.of_same hread.1 (by rw [hread.2]; exact hx)
  have hmx : (mid.transports 0).isSome = true := by rw [hread.2]; exact hx
  cases response with
  | none =>
      refine (removeAuthFde_minor hmx t).bind fun after ha => ?_
      obtain ⟨events, hlog, hapart, hsome⟩ := ha
      exact hmid.trans ⟨events, hlog, hapart, hsome⟩
  | some response =>
      have hnote : Minor d (mid.note (.response t response)) :=
        hmid.trans ⟨[.response t response], rfl, ⟨rfl, rfl, by simp [Event.packet]⟩, hmx⟩
      dsimp only
      split
      · have hloaded : Minor d { mid.note (.response t response) with keyList := reloaded } :=
          hnote.trans (Minor.of_same rfl hmx)
        exact (adbAuthVerified_minor
          (d := { mid.note (.response t response) with keyList := reloaded }) hmx t).weaken
          fun _ ha => hloaded.trans ha
      · exact hnote

theorem framework_minor (hx : (d.transports 0).isSome = true) {input : Auth.Input Key}
    (hin : input.ofFramework = true) :
    Ensures (Auth.step rsaVerify d input) (Minor d) fun _ => True := by
  cases input with
  | register => cases hin
  | remove t => cases hin
  | packet t p urandom written => cases hin
  | accept fd =>
      simp only [Auth.step]
      split
      · trivial
      · exact Minor.of_same rfl hx
  | answer fd i allow =>
      simp only [Auth.step, frameworkAnswer]
      split
      · trivial
      split
      · trivial
      · rename_i t _
        split
        · exact ⟨[.answered t], rfl, ⟨rfl, rfl, by simp [Event.packet]⟩, hx⟩
        · exact Minor.of_same rfl hx
  | signal fd =>
      simp only [Auth.step]
      split
      · trivial
      · refine (Ensures.bind (m := fun _ => True) ?_ fun _ _ => ?_)
        · unfold Daemon.deref
          split <;> trivial
        · exact Minor.of_same rfl hx
  | callback t read reloaded =>
      simp only [Auth.step]
      split
      · refine (Ensures.bind (m := fun _ => True) ?_ fun y _ => ?_)
        · unfold Daemon.deref
          split <;> trivial
        · exact (adbAuthEvent_minor (d := { d with pending := d.pending.erase t }) hx y.authFde.fd t
            read reloaded)
      · trivial

-- Before that, it can only connect.
theorem framework_early (h : Early keys d) {input : Auth.Input Key} (hin : input.ofFramework = true)
    (hstep : Auth.step rsaVerify d input = .ok after) :
    Early keys after ∧ after.log = d.log ∧ after.transports = d.transports := by
  cases input with
  | register => cases hin
  | remove t => cases hin
  | packet t p urandom written => cases hin
  | accept fd =>
      simp only [Auth.step] at hstep
      split at hstep
      · cases hstep
      · cases hstep
        refine ⟨⟨h.keyList, h.fdTable, h.pending, fun f connection hf => ?_⟩, rfl, rfl⟩
        by_cases hfd : f = fd
        · subst hfd
          simp only [Daemon.putConnection, Function.update_self, Option.some.injEq] at hf
          rw [← hf]
        · simp only [Daemon.putConnection, Function.update_of_ne hfd] at hf
          exact h.connections f connection hf
  | answer fd i allow =>
      simp only [Auth.step, frameworkAnswer] at hstep
      cases hconnection : d.connections fd with
      | none =>
          rw [hconnection] at hstep
          cases hstep
      | some connection =>
          rw [hconnection] at hstep
          simp only [h.connections fd connection hconnection] at hstep
          cases hstep
  | signal fd =>
      simp only [Auth.step, h.fdTable fd] at hstep
      cases hstep
  | callback t read reloaded =>
      simp only [Auth.step, h.pending, List.not_mem_nil, if_false] at hstep
      cases hstep

end Parties

section Phases

variable {Rsa Key : Type} {rsaSign : Rsa → Bytes → Option Bytes}
  {rsaVerify : Key → Bytes → Bytes → Bool}
  {smooth filed : Prop} {rsas : List Rsa} {keys : List Key} {tried : List Bytes} {used : Nat}
  {answers : List (Answer Rsa)} {d after : Daemon Key} {p : Packet}
  {rest toHost toDevice : List Packet}

-- A token that goes out, or does not, after these.
theorem request_phase {urandom : Option Bytes} {x : ATransport} {n : Nat} (early : Early keys d)
    (hx : d.transports 0 = some x) (hlog : d.log = rounds rsaSign rsas keys tried)
    (hdrawn : smooth → ∃ bytes, urandom = some bytes ∧ TOKEN_SIZE ≤ bytes.length)
    (hanswers : answers.length = tried.length) (hbounded : tried.length ≤ rsas.length)
    (hused : n = 2 * tried.length + 1) :
    ∃ after, sendAuthRequest d 0 urandom = .ok after ∧
      ∃ events, after.log = d.log ++ events ∧
        Phase rsaSign rsaVerify smooth filed rsas keys tried n answers after
          (events.filterMap Event.packet) [] := by
  subst hused
  obtain ⟨token, hsent | ⟨hrough, hnone⟩⟩ := sendAuthRequest_cases hx urandom
  · refine ⟨_, hsent, [.token 0 token], rfl, ?_⟩
    exact Phase.asked answers _ { x with token } (early.wrote 0 _ _)
      (by simp [Daemon.put, Daemon.note])
      (by rw [← hlog]; rfl) hanswers hbounded
  · refine ⟨_, hnone, [.noToken 0], rfl, ?_⟩
    exact Phase.stuck answers _ (fun hs => absurd (hdrawn hs) hrough)
      (early.wrote 0 _ _) none [.noToken 0]
      ⟨rfl, rfl, by simp [Event.packet]⟩
        (by rw [← hlog, Option.map_none, Option.toList_none, List.append_nil]; rfl) hbounded _

-- The device has the signature for the token that it has sent last.
theorem signature_phase {x : ATransport} (early : Early keys d) (found : d.transports 0 = some x)
    (log : d.log = rounds rsaSign rsas keys tried ++ [.token 0 x.token])
    (inTurn : answers.length = tried.length + 1)
    (bounded : tried.length < rsas.length) (hrefused : Refused rsaSign rsaVerify rsas keys tried)
    {urandom : Option Bytes}
    (hdrawn : smooth → ∃ bytes, urandom = some bytes ∧ TOKEN_SIZE ≤ bytes.length) :
    ∃ after, handleSignature rsaVerify d 0
      (signatureInTurn rsaSign rsas tried.length x.token) urandom = .ok after ∧
      ∃ tried', Refused rsaSign rsaVerify rsas keys tried' ∧
        Phase rsaSign rsaVerify smooth filed rsas keys tried' (2 * tried.length + 3) answers after
          (requests d after) [] := by
  obtain ⟨sig, hsig⟩ : ∃ sig, sig = signatureInTurn rsaSign rsas tried.length x.token := ⟨_, rfl⟩
  have hrounds : rounds rsaSign rsas keys (tried ++ [x.token]) =
      d.log ++ [.signature 0 sig keys] := by
    rw [rounds_concat, log, hsig, List.append_assoc]
    rfl
  rw [← hsig]
  cases hverify : adbAuthVerify rsaVerify keys x.token sig with
  | true =>
      obtain ⟨y, hy, hpass⟩ := handleSignature_passes found (early.keyList.symm ▸ hverify) urandom
      refine ⟨_, hpass, tried, hrefused, ?_⟩
      obtain ⟨after, hafter⟩ : ∃ after, after =
        (((d.note (.signature 0 sig d.keyList)).note (.online 0)).note (.connect 0)).put 0 y :=
          ⟨_, rfl⟩
      rw [← hafter]
      have hlog : after.log = d.log ++ [.signature 0 sig keys, .online 0, .connect 0] := by
        rw [hafter, ← early.keyList]
        simp [Daemon.note, Daemon.put]
      have hearly : Early keys after := by
        rw [hafter]
        exact ⟨early.keyList, early.fdTable, early.pending, early.connections⟩
      rw [requests_append hlog]
      refine Phase.verified answers after y x.token hearly ?_ hy ?_ bounded
        (hsig ▸ hverify) _ _ ?_ rfl
      · simp [hafter, Daemon.put]
      · rw [hlog, hrounds, List.append_assoc]
        rfl
      · simp [Event.packet]
  | false =>
      obtain ⟨mid, hmid⟩ : ∃ mid, mid = (d.note (.signature 0 sig d.keyList)).put 0
        { x with failedAuthAttempts := x.failedAuthAttempts + 1 } := ⟨_, rfl⟩
      have hearly : Early keys mid := by
        rw [hmid]
        exact ⟨early.keyList, early.fdTable, early.pending, early.connections⟩
      have hx : mid.transports 0 = some
          { x with failedAuthAttempts := x.failedAuthAttempts + 1 } := by
        simp [hmid, Daemon.put]
      have hlog : mid.log = rounds rsaSign rsas keys (tried ++ [x.token]) := by
        rw [hmid, hrounds, ← early.keyList]
        rfl
      have hanswers : answers.length = (tried ++ [x.token]).length := by
        rw [inTurn, List.length_append, List.length_singleton]
      have hbounded : (tried ++ [x.token]).length ≤ rsas.length := hanswers ▸ inTurn ▸ bounded
      have hused : 2 * tried.length + 3 = 2 * (tried ++ [x.token]).length + 1 := by
        rw [List.length_append, List.length_singleton]
        omega
      obtain ⟨after, hsent, events, hafter, hphase⟩ :=
        request_phase hearly hx hlog hdrawn hanswers hbounded hused
      rw [hsig] at hverify
      refine ⟨after, ?_, tried ++ [x.token], hrefused.concat hverify, ?_⟩
      · rw [← hsig] at hverify
        rw [handleSignature_refuses found (early.keyList.symm ▸ hverify), ← hmid, hsent]
      · have hall : after.log = d.log ++ .signature 0 sig keys :: events := by
          rw [hafter, hlog, hrounds, List.append_assoc]
          rfl
        rw [requests_append hall]
        exact hphase

-- A device has got a packet.
theorem Phase.received
    (h : Phase rsaSign rsaVerify smooth filed rsas keys tried used answers d toHost (p :: rest))
    (hrefused : Refused rsaSign rsaVerify rsas keys tried) {urandom : Option Bytes}
    (hdrawn : smooth → ∃ bytes, urandom = some bytes ∧ TOKEN_SIZE ≤ bytes.length) (written : Bool) :
    ∃ after, Auth.step rsaVerify d (.packet 0 p urandom written) = .ok after ∧
      ∃ tried', Refused rsaSign rsaVerify rsas keys tried' ∧
        Phase rsaSign rsaVerify smooth filed rsas keys tried' (used + 1) answers after
          (toHost ++ requests d after) rest := by
  cases h with
  | announced _ x early found offline log start =>
      obtain ⟨mid, hmid⟩ : ∃ mid, mid = d.put 0 { x with connectionState := .host } := ⟨_, rfl⟩
      have hearly : Early keys mid := by
        rw [hmid]
        exact ⟨early.keyList, early.fdTable, early.pending, early.connections⟩
      have hx : mid.transports 0 = some { x with connectionState := .host } := by
        simp [hmid, Daemon.put]
      have hlog : mid.log = rounds rsaSign rsas keys tried := by
        rw [hmid, start]
        exact log
      have hsame : mid.log = d.log := by rw [hmid]; rfl
      have hanswers : ([] : List (Answer Rsa)).length = tried.length := by rw [start]; rfl
      have hused : 0 + 1 = 2 * tried.length + 1 := by rw [start]; rfl
      obtain ⟨after, hsent, events, hafter, hphase⟩ :=
        request_phase hearly hx hlog hdrawn hanswers (by rw [start]; exact Nat.zero_le _) hused
      refine ⟨after, by rw [connect_received found offline, ← hmid, hsent], tried, hrefused, ?_⟩
      rw [requests_append (hafter.trans (by rw [hsame]))]
      exact hphase
  | signed _ _ x early found log inTurn bounded =>
      obtain ⟨after, hrun, hphase⟩ := signature_phase early found log inTurn bounded hrefused hdrawn
      exact ⟨after, by rw [signature_received found, hrun], hphase⟩
  | offered _ _ x key early found log all used last =>
      have hminor := adbAuthConfirmKey_minor found key written
      cases hrun : adbAuthConfirmKey d key 0 written with
      | error e => exact (hminor.of_error hrun).elim
      | ok after =>
          obtain ⟨events, hafter, hapart, hsome⟩ := hminor.of_ok hrun
          obtain ⟨y, hy⟩ := Option.isSome_iff_exists.mp hsome
          refine ⟨after, by rw [publickey_received found, hrun], tried, hrefused, ?_⟩
          rw [requests_append hafter]
          exact Phase.shown answers after y key x.token events hy hapart
            (by rw [hafter, log]; simp) all (used + 1)
            (events.filterMap Event.packet) hapart.greetings last

-- The framework of a device has done something.
theorem Phase.framework
    (h : Phase rsaSign rsaVerify smooth filed rsas keys tried used answers d toHost toDevice)
    {input : Auth.Input Key} (hin : input.ofFramework = true)
    (hstep : Auth.step rsaVerify d input = .ok after) :
    Phase rsaSign rsaVerify smooth filed rsas keys tried used answers after
      (toHost ++ requests d after) toDevice := by
  have hquiet : ∀ early : Early keys d, Early keys after ∧ after.log = d.log ∧
      after.transports = d.transports ∧ toHost ++ requests d after = toHost := by
    intro early
    obtain ⟨hearly, hlog, hsame⟩ := framework_early early hin hstep
    refine ⟨hearly, hlog, hsame, ?_⟩
    rw [requests, hlog, List.drop_length, List.filterMap_nil, List.append_nil]
  cases h with
  | announced _ x early found offline log start =>
      obtain ⟨hearly, hlog, hsame, hqueue⟩ := hquiet early
      rw [hqueue]
      exact .announced after x hearly (hsame ▸ found) offline (hlog.trans log) start
  | asked _ _ x early found log inTurn bounded =>
      obtain ⟨hearly, hlog, hsame, hqueue⟩ := hquiet early
      rw [hqueue]
      exact .asked answers after x hearly (hsame ▸ found) (hlog.trans log) inTurn bounded
  | signed _ _ x early found log inTurn bounded =>
      obtain ⟨hearly, hlog, hsame, hqueue⟩ := hquiet early
      rw [hqueue]
      exact .signed answers after x hearly (hsame ▸ found) (hlog.trans log) inTurn bounded
  | verified _ _ x token early found online log bounded passes used _ greetings last =>
      obtain ⟨hearly, hlog, hsame, hqueue⟩ := hquiet early
      rw [hqueue]
      exact .verified answers after x token hearly (hsame ▸ found) online
        (hlog.trans log) bounded passes
        used toHost greetings last
  | offered _ _ x key early found log all used last =>
      obtain ⟨hearly, hlog, hsame, hqueue⟩ := hquiet early
      rw [hqueue]
      exact .offered answers after x key hearly (hsame ▸ found) (hlog.trans log) all used last
  | shown _ _ x key token events found apart log all used _ greetings last =>
      obtain ⟨more, hafter, hapart, hsome⟩ := (framework_minor (by rw [found]; rfl) hin).of_ok hstep
      obtain ⟨y, hy⟩ := Option.isSome_iff_exists.mp hsome
      rw [requests_append hafter]
      refine .shown answers after y key token (events ++ more) hy (apart.append hapart)
        (by rw [hafter, log]; simp) all used _ (fun p hp => ?_) last
      exact (List.mem_append.mp hp).elim (greetings p) (hapart.greetings p)
  | stuck _ _ rough early asked events apart log bounded used =>
      obtain ⟨hearly, hlog, hsame, hqueue⟩ := hquiet early
      rw [hqueue]
      exact .stuck answers after rough hearly asked events apart (hlog.trans log) bounded used

-- The answer in turn: a signature, and after the last key the public key.
theorem answerInTurn_signature {j : Nat} (hj : j < rsas.length) (token : Bytes × Option Bytes) :
    answerInTurn rsaSign rsas j token =
      .signature rsas[j] (KeyHost.sent (signatureInTurn rsaSign rsas j token.1)) := by
  have hcursor : cursorAt rsas (j + 1) = some rsas[j] := by
    rw [cursorAt_first (Nat.le_of_lt hj), List.getElem?_eq_getElem hj]
  simp only [answerInTurn, signatureInTurn, hcursor, Option.elim_some]

theorem answerInTurn_publickey (token : Bytes × Option Bytes) :
    answerInTurn rsaSign rsas rsas.length token =
      .publickey (KeyHost.sent (KeyHost.adbAuthGetUserkey token.2 MAX_PAYLOAD)) := by
  have hcursor : cursorAt rsas (rsas.length + 1) = none := by
    rw [cursorAt_first (Nat.le_refl _), List.getElem?_eq_none (Nat.le_refl _)]
  simp only [answerInTurn, hcursor]

theorem signatureInTurn_ne (hsigns : Signs rsaSign) {j : Nat} (hj : j < rsas.length)
    (token : Bytes) :
    signatureInTurn rsaSign rsas j token ≠ [] := by
  have hcursor : cursorAt rsas (j + 1) = some rsas[j] := by
    rw [cursorAt_first (Nat.le_of_lt hj), List.getElem?_eq_getElem hj]
  rw [signatureInTurn, hcursor]
  exact hsigns rsas[j] token

-- The host has got a token after so many others.
theorem answer_phase {x : ATransport} (early : Early keys d) (found : d.transports 0 = some x)
    (log : d.log = rounds rsaSign rsas keys tried ++ [.token 0 x.token])
    (inTurn : answers.length = tried.length)
    (bounded : tried.length ≤ rsas.length) {file : Option Bytes}
    (hfile : filed → ∃ data, file = some data ∧ data.length + 1 ≤ MAX_PAYLOAD)
    (hsigns : smooth → Signs rsaSign) :
    ∃ answer, answerInTurn rsaSign rsas answers.length (x.token, file) = answer ∧
      Phase rsaSign rsaVerify smooth filed rsas keys tried (2 * tried.length + 2)
        (answers ++ [answer]) d []
        answer.packet.toList := by
  refine ⟨_, rfl, ?_⟩
  rw [inTurn]
  have hlog : d.log = rounds rsaSign rsas keys tried ++
      ((some x.token).map (Event.token 0)).toList ++ [] := by
    rw [log, List.append_nil]
    rfl
  obtain hlt | heq := Nat.lt_or_eq_of_le bounded
  · rw [answerInTurn_signature hlt]
    by_cases hsig : signatureInTurn rsaSign rsas tried.length x.token = []
    · have hrough : smooth → tried.length = rsas.length ∧ ¬filed :=
        fun hs => absurd hsig (signatureInTurn_ne (hsigns hs) hlt x.token)
      simp only [KeyHost.sent, hsig, if_true, Answer.packet, Option.map_none, Option.toList_none]
      exact .stuck _ d hrough early (some x.token) [] apart_nil hlog bounded _
    · simp only [KeyHost.sent, hsig, if_false, Answer.packet, Option.map_some, Option.toList_some]
      exact .signed _ d x early found log (by simp [inTurn]) hlt
  · rw [heq, answerInTurn_publickey]
    by_cases hkey : KeyHost.adbAuthGetUserkey file MAX_PAYLOAD = []
    · have hrough : ¬filed := by
        intro hs
        obtain ⟨data, rfl, hdata⟩ := hfile hs
        simp only [KeyHost.adbAuthGetUserkey, if_neg (Nat.not_lt.mpr hdata)] at hkey
        exact List.append_ne_nil_of_right_ne_nil _ (by simp) hkey
      simp only [KeyHost.sent, hkey, if_true, Answer.packet, Option.map_none, Option.toList_none]
      exact .stuck _ d (fun _ => ⟨heq, hrough⟩) early (some x.token) [] apart_nil hlog bounded _
    · simp only [KeyHost.sent, hkey, if_false, Answer.packet, Option.map_some, Option.toList_some]
      exact .offered _ d x _ early found log heq _ (by simp)

-- The host has got a packet.
theorem Phase.heard
    (h : Phase rsaSign rsaVerify smooth filed rsas keys tried used answers d (p :: rest) toDevice)
    (t : Nat)
    {file : Option Bytes} (hfile : filed → ∃ data, file = some data ∧ data.length + 1 ≤ MAX_PAYLOAD)
    (hsigns : smooth → Signs rsaSign) :
    ∃ new, ((tokenTo t (.packet t p file)).map (answerInTurn rsaSign rsas answers.length)).toList =
      new ∧
      Phase rsaSign rsaVerify smooth filed rsas keys tried (used + 1) (answers ++ new) d rest
        (toDevice ++ new.filterMap Answer.packet) := by
  have hgreeting : tokenTo t (.packet t (cnxnPacket (ascii "device::")) file) = none := by
    simp [tokenTo, cnxnPacket, A_CNXN, A_AUTH]
  cases h with
  | asked _ _ x early found log inTurn bounded =>
      obtain ⟨answer, hanswer, hphase⟩ := answer_phase early found log inTurn bounded hfile hsigns
      refine ⟨[answer], ?_, ?_⟩
      · have htoken : tokenTo t (.packet t (authToken x.token) file) = some (x.token, file) := by
          simp [tokenTo, authToken]
        rw [htoken, Option.map_some, hanswer]
        rfl
      · have hpackets : [answer].filterMap Answer.packet = answer.packet.toList := by
          cases hp : answer.packet <;> simp [hp]
        rw [hpackets]
        exact hphase
  | verified _ _ x token early found online log bounded passes used _ greetings last =>
      refine ⟨[], by rw [greetings p (List.mem_cons_self ..), hgreeting]; rfl, ?_⟩
      rw [List.append_nil]
      refine .verified answers d x token early found online log bounded passes (used + 1) rest
        (fun q hq => greetings q (List.mem_cons_of_mem _ hq)) ?_
      rw [List.length_cons] at last
      omega
  | shown _ _ x key token events found apart log all used _ greetings last =>
      refine ⟨[], by rw [greetings p (List.mem_cons_self ..), hgreeting]; rfl, ?_⟩
      rw [List.append_nil]
      exact .shown answers d x key token events found apart log all (used + 1) rest
        (fun q hq => greetings q (List.mem_cons_of_mem _ hq)) last

end Phases

end Network

end Adb.Auth
