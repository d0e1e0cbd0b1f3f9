import Adb.Auth.Handshake
import Adb.Host.SocketGraph

namespace Adb.Auth

open Adb.Host (Bytes Packet Stop MAX_PAYLOAD A_CNXN A_SYNC ascii exists_of_any)
open Adb.Lib

namespace Network

section Runs

variable {Rsa Key : Type} {rsaSign : Rsa → Bytes → Option Bytes}
  {rsaVerify : Key → Bytes → Bytes → Bool}
  {smooth filed : Prop} {rsas : List Rsa} {stored : List (List Key)} {used : Nat → Nat}
  {st after : Network Rsa Key}
  {t : Nat}

-- The packets of the connection t that are handed over.
def Input.delivers (t : Nat) : Input Key → Bool
  | .toHost u _ | .toDevice u _ _ => u = t
  | .framework _ _ => false

-- Every device has a conversation of its own with the host.
structure Sound (rsaSign : Rsa → Bytes → Option Bytes) (rsaVerify : Key → Bytes → Bytes → Bool)
    (smooth filed : Prop) (rsas : List Rsa) (stored : List (List Key)) (used : Nat → Nat)
    (st : Network Rsa Key) : Prop where
  inTurn : InTurn st.host
  keyring : st.host.store.rsas = rsas
  known : ∀ t, t < stored.length → (st.host.transports t).isSome = true
  phase : ∀ t keys, stored[t]? = some keys → ∃ tried, Refused rsaSign rsaVerify rsas keys tried ∧
    Phase rsaSign rsaVerify smooth filed rsas keys tried (used t) (answersTo t st.host.log)
      (st.devices t) (st.toHost t) (st.toDevice t)

theorem sound_init {store : KeyStore Rsa} (h : store.Stored) (stored : List (List Key)) :
    Sound rsaSign rsaVerify smooth filed store.rsas stored (fun _ => 0)
      (Network.init store stored) where
  inTurn := by
    constructor
    · exact h
    · intro t x hx
      simp only [Network.init] at hx
      split at hx
      · cases hx
        exact cursorAt_zero.symm
      · cases hx
    · intro t x hx
      simp only [Network.init] at hx ⊢
      split at hx
      · assumption
      · cases hx
    · exact fun _ _ => rfl
  keyring := rfl
  known := by
    intro t ht
    simp [Network.init, ht]
  phase := by
    intro t keys hkeys
    obtain ⟨ht, hget⟩ := List.getElem?_eq_some_iff.mp hkeys
    have hdevice : (Network.init store stored).devices t = attachedDevice keys := by
      simp [Network.init, List.getD, hkeys]
    have hqueue : (Network.init store stored).toDevice t = [cnxnPacket (ascii "host::")] := by
      simp [Network.init, ht]
    refine ⟨[], by simp [Refused], ?_⟩
    rw [hdevice, hqueue]
    exact .announced (attachedDevice keys) newTransport
      ⟨rfl, fun _ => rfl, rfl, by simp [attachedDevice, daemonInit, Daemon.put]⟩
      (by simp [attachedDevice, Daemon.put]) rfl rfl rfl

-- A step at one connection leaves the others where they are.
theorem Sound.update (h : Sound rsaSign rsaVerify smooth filed rsas stored used st) (t n : Nat)
    (hhost : InTurn after.host) (hstore : after.host.store = st.host.store)
    (hknown : ∀ u, (st.host.transports u).isSome = true → (after.host.transports u).isSome = true)
    (hothers : ∀ u, u ≠ t → answersTo u after.host.log = answersTo u st.host.log ∧
      after.devices u = st.devices u ∧
      after.toHost u = st.toHost u ∧ after.toDevice u = st.toDevice u)
    (hphase : ∀ keys tried, stored[t]? = some keys → Refused rsaSign rsaVerify rsas keys tried →
      Phase rsaSign rsaVerify smooth filed rsas keys tried (used t) (answersTo t st.host.log)
        (st.devices t) (st.toHost t)
        (st.toDevice t) → ∃ tried, Refused rsaSign rsaVerify rsas keys tried ∧
          Phase rsaSign rsaVerify smooth filed rsas keys tried
          (used t + n) (answersTo t after.host.log) (after.devices t) (after.toHost t)
            (after.toDevice t)) :
    Sound rsaSign rsaVerify smooth filed rsas stored
      (fun u => used u + if u = t then n else 0) after where
  inTurn := hhost
  keyring := by rw [hstore, h.keyring]
  known u hu := hknown u (h.known u hu)
  phase := by
    intro u keys hkeys
    obtain ⟨tried, hrefused, hp⟩ := h.phase u keys hkeys
    by_cases hu : u = t
    · subst hu
      rw [if_pos rfl]
      exact hphase keys tried hkeys hrefused hp
    · obtain ⟨hanswers, hdevice, hto, hfrom⟩ := hothers u hu
      rw [if_neg hu, Nat.add_zero, hanswers, hdevice, hto, hfrom]
      exact ⟨tried, hrefused, hp⟩

theorem sound_congr {more : Nat → Nat}
    (h : Sound rsaSign rsaVerify smooth filed rsas stored used st)
    (heq : ∀ u, used u = more u) : Sound rsaSign rsaVerify smooth filed rsas stored more st := by
  rw [← funext heq]
  exact h

theorem put_known {host : KeyHost Rsa} {u : Nat} (hu : (host.transports u).isSome = true) (t : Nat)
    (x : KeyTransport) :
    ((host.put t x).transports u).isSome = true := by
  by_cases ht : u = t
  · simp [KeyHost.put, ht]
  · simpa [KeyHost.put, Function.update_of_ne ht] using hu

theorem sendAuthResponse_known {host : KeyHost Rsa} {u : Nat}
    (hu : (host.transports u).isSome = true) (t : Nat)
    (token : Bytes) : Ensures (KeyHost.sendAuthResponse rsaSign host t token)
      (fun after => (after.transports u).isSome = true) fun _ => True := by
  unfold KeyHost.sendAuthResponse KeyHost.deref
  cases host.transports t with
  | none => trivial
  | some x =>
      simp only [bind, Except.bind]
      cases x.key.bind host.store.nodeToItem with
      | none => trivial
      | some rsa => exact hu

theorem handleToken_known {host : KeyHost Rsa} {u : Nat}
    (hu : (host.transports u).isSome = true) (t : Nat)
    (token : Bytes) (file : Option Bytes) : Ensures (KeyHost.handleToken rsaSign host t token file)
      (fun after => (after.transports u).isSome = true) fun _ => True := by
  unfold KeyHost.handleToken KeyHost.deref
  cases host.transports t with
  | none => trivial
  | some x =>
      simp only [bind, Except.bind]
      cases host.store.adbAuthNextkey x.key with
      | error e => trivial
      | ok key =>
          dsimp only
          split
          · exact sendAuthResponse_known (put_known hu t _) t token
          · exact put_known hu t _

theorem host_known {host after : KeyHost Rsa} {u : Nat} {p : Packet} {file : Option Bytes}
    (hstep : KeyHost.step rsaSign host (.packet t p file) = .ok after)
    (hu : (host.transports u).isSome = true) :
    (after.transports u).isSome = true := by
  have hhandled : Ensures (KeyHost.handlePacket rsaSign host t p file)
      (fun after => (after.transports u).isSome = true) fun _ => True := by
    unfold KeyHost.handlePacket KeyHost.handleAuth KeyHost.deref
    cases host.transports t with
    | none => trivial
    | some x =>
        simp only [bind, Except.bind]
        split
        · split
          · exact handleToken_known hu t p.payload file
          split
          · exact put_known hu t _
          · exact hu
        · exact hu
  simp only [KeyHost.step] at hstep
  split at hstep
  · exact hhandled.of_ok hstep
  · cases hstep

theorem step_sound {input : Input Key}
    (h : Sound rsaSign rsaVerify smooth filed rsas stored used st)
    (hdrawn : smooth → input.Drawn) (hfiled : filed → input.Filed) (hsigns : smooth → Signs rsaSign)
    (hstep : Network.step rsaSign rsaVerify st input = .ok after) :
    Sound rsaSign rsaVerify smooth filed rsas stored
      (fun t => used t + if input.delivers t then 1 else 0) after := by
  cases input with
  | toHost t file =>
      simp only [Network.step] at hstep
      cases hqueue : st.toHost t with
      | nil =>
          rw [hqueue] at hstep
          cases hstep
      | cons p rest =>
          rw [hqueue] at hstep
          obtain ⟨host, hrun, heq⟩ := bind_ok hstep
          cases heq
          have hanswers := (step_answers rsaSign h.inTurn (.packet t p file)).of_ok hrun
          have hnone : ∀ u, u ≠ t → tokenTo u (.packet t p file) = none := by
            intro u hu
            simp [tokenTo, Ne.symm hu]
          refine sound_congr
            (h.update t 1 hanswers.inTurn hanswers.store (fun u hu => host_known hrun hu) ?_ ?_) ?_
          · intro u hu
            simp only [Function.update_of_ne hu, and_true]
            rw [hanswers.answers u, hnone u hu, Option.map_none, Option.toList_none,
              List.append_nil]
          · intro keys tried hkeys hrefused hp
            rw [hqueue] at hp
            obtain ⟨new, hnew, hafter⟩ := hp.heard t hfiled hsigns
            refine ⟨tried, hrefused, ?_⟩
            have hlog : answersTo t host.log = answersTo t st.host.log ++ new := by
              rw [hanswers.answers t, h.keyring, hnew]
            simp only [Function.update_self, replies, hlog, List.drop_left]
            exact hafter
          · intro u
            simp [Input.delivers, eq_comm]
  | toDevice t urandom written =>
      simp only [Network.step] at hstep
      cases hqueue : st.toDevice t with
      | nil =>
          rw [hqueue] at hstep
          cases hstep
      | cons p rest =>
          rw [hqueue] at hstep
          obtain ⟨device, hrun, heq⟩ := bind_ok hstep
          cases heq
          refine sound_congr (h.update t 1 h.inTurn rfl (fun _ hu => hu) ?_ ?_) ?_
          · intro u hu
            simp only [Function.update_of_ne hu, and_self]
          · intro keys tried hkeys hrefused hp
            rw [hqueue] at hp
            obtain ⟨d, hd, tried', hrefused', hafter⟩ := hp.received hrefused hdrawn written
            rw [hrun, Except.ok.injEq] at hd
            subst hd
            refine ⟨tried', hrefused', ?_⟩
            simp only [Function.update_self]
            exact hafter
          · intro u
            simp [Input.delivers, eq_comm]
  | framework t input =>
      simp only [Network.step] at hstep
      split at hstep
      · rename_i hin
        obtain ⟨device, hrun, heq⟩ := bind_ok hstep
        cases heq
        refine sound_congr (h.update t 0 h.inTurn rfl (fun _ hu => hu) ?_ ?_) ?_
        · intro u hu
          simp only [Function.update_of_ne hu, and_self]
        · intro keys tried hkeys hrefused hp
          refine ⟨tried, hrefused, ?_⟩
          simp only [Function.update_self]
          exact hp.framework hin hrun
        · intro u
          simp [Input.delivers]
      · cases hstep

-- What the parties are given meanwhile.
structure Given (smooth filed : Prop) (inputs : List (Input Key)) : Prop where
  drawn : smooth → ∀ input ∈ inputs, input.Drawn
  files : filed → ∀ input ∈ inputs, input.Filed

theorem given_nothing (inputs : List (Input Key)) : Given False False inputs :=
  ⟨False.elim, False.elim⟩

theorem run_sound {store : KeyStore Rsa} (hstored : store.Stored) {inputs : List (Input Key)}
    (hgiven : Given smooth filed inputs) (hsigns : smooth → Signs rsaSign)
    (hr : run (Network.step rsaSign rsaVerify) (Network.init store stored) inputs = .ok st) :
    Sound rsaSign rsaVerify smooth filed store.rsas stored
      (fun t => inputs.countP (Input.delivers t)) st := by
  have hkeep : ∀ (s : Network Rsa Key) (done : List (Input Key)) (input : Input Key)
      (next : Network Rsa Key), (Given smooth filed done →
        Sound rsaSign rsaVerify smooth filed store.rsas stored
          (fun t => done.countP (Input.delivers t)) s) →
      Network.step rsaSign rsaVerify s input = .ok next → Given smooth filed (done ++ [input]) →
        Sound rsaSign rsaVerify smooth filed store.rsas stored
          (fun t => (done ++ [input]).countP (Input.delivers t)) next := by
    intro s done input next hs hstep hg
    have hbefore := hs ⟨fun hsm i hi => hg.drawn hsm i (List.mem_append_left _ hi),
      fun hf i hi => hg.files hf i (List.mem_append_left _ hi)⟩
    have hnext := step_sound hbefore (fun hsm => hg.drawn hsm input (by simp))
      (fun hf => hg.files hf input (by simp))
      hsigns hstep
    refine sound_congr hnext fun u => ?_
    rw [List.countP_append, List.countP_singleton]
  have hstart : Given smooth filed ([] : List (Input Key)) →
      Sound rsaSign rsaVerify smooth filed store.rsas
      stored (fun t => ([] : List (Input Key)).countP (Input.delivers t))
        (Network.init store stored) :=
    fun _ => sound_init hstored stored
  exact run_history hkeep hstart hr hgiven

end Runs

section Outcome

variable {Rsa Key : Type} {rsaSign : Rsa → Bytes → Option Bytes}
  {rsaVerify : Key → Bytes → Bytes → Bool}
  {smooth filed : Prop} {rsas : List Rsa} {keys : List Key} {tried : List Bytes} {used : Nat}
  {answers : List (Answer Rsa)} {d : Daemon Key} {toHost toDevice : List Packet}

theorem Phase.conversed
    (h : Phase rsaSign rsaVerify smooth filed rsas keys tried used answers d toHost toDevice)
    (hrefused : Refused rsaSign rsaVerify rsas keys tried) :
    Conversed rsaSign rsaVerify rsas keys d.log := by
  have hasked : ∀ token events, Apart events → tried.length ≤ rsas.length →
      Conversed rsaSign rsaVerify rsas keys
        (rounds rsaSign rsas keys tried ++ .token 0 token :: events) := by
    intro token events hapart hlen
    have hall := conversed_of_rounds (some token) (fun j x _ hx => hrefused j x hx) hapart hlen
    rwa [Option.map_some, Option.toList_some, List.append_assoc, List.singleton_append] at hall
  cases h with
  | announced _ x early found offline log start =>
      rw [log]
      have hnone : ∀ j token, j + 1 <
          ([] : List Bytes).length + (none : Option Bytes).toList.length →
          ([] : List Bytes)[j]? = some token →
          adbAuthVerify rsaVerify keys token (signatureInTurn rsaSign rsas j token) = false := by
            simp
      exact conversed_of_rounds none hnone apart_nil (Nat.zero_le _)
  | asked _ _ x early found log inTurn bounded =>
      rw [log]
      exact hasked x.token [] apart_nil bounded
  | signed _ _ x early found log inTurn bounded =>
      rw [log]
      exact hasked x.token [] apart_nil (Nat.le_of_lt bounded)
  | verified _ _ x token early found online log bounded passes used _ greetings last =>
      have hconnect : Apart [Event.online 0, (.connect 0 : Event Key)] :=
        ⟨rfl, rfl, by simp [Event.packet]⟩
      have hlen : (tried ++ [token]).length ≤ rsas.length := by
        rw [List.length_append, List.length_singleton]
        exact bounded
      have hbad : ∀ j y, j + 1 < (tried ++ [token]).length + (none : Option Bytes).toList.length →
          (tried ++ [token])[j]? = some y →
          adbAuthVerify rsaVerify keys y (signatureInTurn rsaSign rsas j y) = false := by
        intro j y hj hy
        have hshort : j < tried.length := by simpa using hj
        rw [List.getElem?_append_left hshort] at hy
        exact hrefused j y hy
      have hall := conversed_of_rounds none hbad hconnect hlen
      rw [log]
      rwa [Option.map_none, Option.toList_none, List.append_nil] at hall
  | offered _ _ x key early found log all used last =>
      rw [log]
      exact hasked x.token [] apart_nil (Nat.le_of_eq all)
  | shown _ _ x key token events found apart log all used _ greetings last =>
      rw [log]
      exact hasked token events apart (Nat.le_of_eq all)
  | stuck _ _ rough early asked events apart log bounded used =>
      rw [log]
      exact conversed_of_rounds asked (fun j x _ hx => hrefused j x hx) apart bounded

-- What each device has seen is a conversation with the keys in turn, and a signature on
-- its way answers the token that the device holds. Nothing else is on its way then.
theorem handshake_in_turn (rsaSign : Rsa → Bytes → Option Bytes)
    (rsaVerify : Key → Bytes → Bytes → Bool)
    (files : List (Option Rsa)) (stored : List (List Key)) (inputs : List (Input Key))
    (store : KeyStore Rsa)
    (hread : readKeys files = .ok store) (st : Network Rsa Key)
    (hr : run (Network.step rsaSign rsaVerify) (Network.init store stored) inputs = .ok st)
    (t : Nat)
    (keys : List Key) (hkeys : stored[t]? = some keys) :
    Conversed rsaSign rsaVerify (files.filterMap id) keys (st.devices t).log ∧
      ∀ p ∈ st.toDevice t, p.command = A_AUTH → p.arg0 = ADB_AUTH_SIGNATURE →
        st.toDevice t = [p] ∧ st.toHost t = [] ∧ ∃ x, (st.devices t).transports 0 = some x ∧
          p.payload = signatureInTurn rsaSign (files.filterMap id)
            ((st.devices t).log.filterMap checked).length x.token := by
  obtain ⟨store', hread', hstored, hrsas⟩ := KeyStore.readKeys_stored files
  rw [hread, Except.ok.injEq] at hread'
  subst hread'
  have hsound := run_sound hstored (given_nothing inputs) False.elim hr
  obtain ⟨tried, hrefused, hphase⟩ := hsound.phase t keys hkeys
  rw [← hrsas]
  refine ⟨hphase.conversed hrefused, fun p hp hauth hsig => ?_⟩
  generalize inputs.countP (Input.delivers t) = used at hphase
  generalize answersTo t st.host.log = answers at hphase
  generalize hd : st.devices t = d at hphase
  generalize hto : st.toHost t = toHost at hphase
  generalize hfrom : st.toDevice t = toDevice at hphase hp
  cases hphase with
  | announced _ x early found offline log start =>
      rw [List.mem_singleton] at hp
      subst hp
      exact absurd hauth (by decide)
  | signed _ _ x early found log inTurn bounded =>
      rw [List.mem_singleton] at hp
      subst hp
      refine ⟨rfl, rfl, x, found, ?_⟩
      have hchecked : (d.log.filterMap checked).length = tried.length := by
        rw [log, List.filterMap_append, rounds_checked]
        simp [checked]
      rw [hchecked]
      rfl
  | offered _ _ x key early found log all used last =>
      rw [List.mem_singleton] at hp
      have hother : ADB_AUTH_RSAPUBLICKEY ≠ ADB_AUTH_SIGNATURE := by decide
      subst hp
      exact absurd hsig hother
  | _ => exact absurd hp (List.not_mem_nil)

-- Keys that are numbers, whose signatures consist of them.
def sampleSign (rsa : UInt8) (_ : Bytes) : Option Bytes := some (List.replicate RSANUMBYTES rsa)

def sampleVerify (key : UInt8) (sig _ : Bytes) : Bool := sig.head? = some key

def urandomBytes : Option Bytes := some (List.replicate TOKEN_SIZE 9)

-- A round of token and answer.
def sampleRound : List (Input UInt8) := [.toDevice 0 urandomBytes true, .toHost 0 (some [75])]

theorem handshake_in_turn_of_one_device : ∃ store st,
    run (Network.step sampleSign sampleVerify) (Network.init store [[7]])
      (List.replicate 1 sampleRound).flatten = .ok st ∧
    (st.toDevice 0).any (fun p => p.arg0 = ADB_AUTH_SIGNATURE) = true ∧
    Conversed sampleSign sampleVerify [5] [7] (st.devices 0).log := by
  have hany : (readKeys [some (5 : UInt8)] >>= fun store =>
      run (Network.step sampleSign sampleVerify) (Network.init store [[7]])
        (List.replicate 1 sampleRound).flatten).toOption.any
      (fun st => (st.toDevice 0).any fun p => p.arg0 = ADB_AUTH_SIGNATURE) = true := by
        decide +kernel
  obtain ⟨st, hst, hsent⟩ := exists_of_any hany
  obtain ⟨store, hread, hr⟩ := bind_ok hst
  exact ⟨store, st, hr, hsent,
    (handshake_in_turn sampleSign sampleVerify [some 5] [[7]] _ store hread st hr 0 [7] rfl).1⟩

end Outcome

end Network

end Adb.Auth
