import Adb.Host.SocketGraph

namespace Adb.Host

open Adb.Lib

variable {st mid after : Server} {a b c t : Nat} {s s' : ASocket} {id : UInt32} {p : Packet}

section Spared

-- The event is something that has happened to the socket or to its fd.
def Event.Concerns (e : Event) (c : Nat) : Prop :=
  match e with
  | .sent _ _ _ => False
  | .attached a _ | .opened a | .okayed a | .read a _ _ | .wrote a _ | .status a _ _ | .reply a _
  | .forwarded a | .closedFd a | .readFreed a => a = c

-- The log grows by events that concern the sockets of P only.
def LogAbout (st after : Server) (P : Nat → Prop) : Prop :=
  ∃ events, after.log = st.log ++ events ∧ ∀ e ∈ events, ∀ c, e.Concerns c → P c

-- The socket is as it was and nothing has happened to it.
structure Spares (st after : Server) (c : Nat) : Prop where
  socket : after.socks c = st.socks c
  log : LogAbout st after (· ≠ c)

variable {P Q : Nat → Prop}

theorem LogAbout.trans (h : LogAbout st mid P) (h' : LogAbout mid after P) : LogAbout st after P := by
  obtain ⟨first, hfirst, hp⟩ := h
  obtain ⟨second, hsecond, hq⟩ := h'
  refine ⟨first ++ second, by rw [hsecond, hfirst, List.append_assoc], ?_⟩
  intro e he
  rcases List.mem_append.mp he with he | he
  · exact hp e he
  · exact hq e he

theorem LogAbout.weaken (h : LogAbout st after P) (hpq : ∀ c, P c → Q c) : LogAbout st after Q := by
  obtain ⟨events, hlog, hp⟩ := h
  exact ⟨events, hlog, fun e he c hc => hpq c (hp e he c hc)⟩

theorem LogAbout.of_eq (h : after.log = st.log) : LogAbout st after P :=
  ⟨[], by simp [h], by simp⟩

theorem LogAbout.event {e : Event} (h : after.log = st.log ++ [e]) (he : ∀ c, e.Concerns c → P c) :
    LogAbout st after P := by
  refine ⟨[e], h, ?_⟩
  intro x hx
  rw [List.mem_singleton.mp hx]
  exact he

theorem okayed_about (st : Server) (a : Nat) : LogAbout st (st.note (.okayed a)) (· = a) :=
  .event (e := .okayed a) rfl fun _ hc => hc.symm

theorem Spares.of_log (hs : after.socks c = st.socks c) (h : LogAbout st after P) (hc : ¬P c) :
    Spares st after c where
  socket := hs
  log := h.weaken fun _ hb heq => hc (heq ▸ hb)

theorem Spares.refl (st : Server) (c : Nat) : Spares st st c := ⟨rfl, .of_eq rfl⟩

end Spared

section Handlers

theorem Closed.about (h : Closed st a s after) :
    LogAbout st after fun c => c = a ∨ s.peer = some c := by
  obtain ⟨events, hlog, hevents⟩ := h.log
  refine ⟨events, hlog, ?_⟩
  intro e he c hc
  rcases hevents e he with hnotice | ⟨b, rfl, hb, -⟩
  · unfold Event.IsNotice at hnotice
    split at hnotice
    · exact hc.elim
    · exact hnotice.elim
  · have hbc : b = c := hc
    rwa [hbc] at hb

-- Nobody but the two ends of the connection notices a close.
theorem close_about (h : Graph st) (hs : st.socks a = some s) :
    Ensures (close st a) (LogAbout st · fun c => c = a ∨ s.peer = some c) Benign := by
  by_cases hops : s.ops = .localSocketNotify
  · unfold close
    rw [closeWithin_notify hs hops]
    unfold localSocketCloseNotify
    apply (ensures_bind_ok (Server.deref_some hs)).mpr
    apply (writeStatus_ensures _ a _).bind
    rintro told ⟨ok, rest, -, htold⟩
    have hput : Graph (st.put a { s with ops := .localSocket }) := failNotify_graph h hs hops
    have hgraph : Graph told := by
      rw [htold]
      exact hput.congr rfl rfl rfl rfl (.of_eq rfl)
    have ht : told.socks a = some { s with ops := .localSocket } := by
      rw [htold]
      simp [Server.put]
    have hfirst : LogAbout st told fun c => c = a ∨ s.peer = some c := by
      apply LogAbout.event (e := .status a (.fail "closed") ok)
      · rw [htold]
        rfl
      · exact fun c hc => Or.inl hc.symm
    exact (closeLocked_spec hgraph ht rfl 1).weaken fun after hc => hfirst.trans hc.about
  · exact (close_spec h hs hops).weaken fun after hc => hc.about

-- A close leaves neither of the two with a peer.
structure Ends (st : Server) (a : Nat) (s : ASocket) (after : Server) : Prop where
  others : ∀ c, c ≠ a → s.peer ≠ some c → after.socks c = st.socks c
  alone : ∀ c x, c = a ∨ s.peer = some c → after.socks c = some x → x.peer = none
  about : LogAbout st after fun c => c = a ∨ s.peer = some c

theorem severed_of_ne {socks : Nat → Option ASocket} {o : Option Nat} (h : o ≠ some c) :
    severed socks o c = socks c := by
  cases o with
  | none => rfl
  | some q =>
      have hcq : c ≠ q := by
        rintro rfl
        exact h rfl
      simp only [severed, Function.update_of_ne hcq]

theorem ends_of_socks {o : Option ASocket}
    (hsocks : after.socks = Function.update (severed st.socks s.peer) a o)
    (ho : ∀ x, o = some x → x.peer = none)
    (habout : LogAbout st after fun c => c = a ∨ s.peer = some c) : Ends st a s after where
  others := by
    intro c hca hcp
    rw [hsocks, Function.update_of_ne hca, severed_of_ne hcp]
  alone := by
    intro c x hc hx
    rw [hsocks] at hx
    by_cases hca : c = a
    · subst hca
      rw [Function.update_self] at hx
      exact ho x hx
    · rw [Function.update_of_ne hca, hc.resolve_left hca] at hx
      simp only [severed, Function.update_self] at hx
      obtain ⟨y, -, hy⟩ := Option.bind_eq_some_iff.mp hx
      exact (alone_fate y x hy).2.1
  about := habout

theorem close_ends (h : Graph st) (hs : st.socks a = some s) :
    Ensures (close st a) (Ends st a s) Benign := by
  apply ((close_ensures (B := False) h hs).and (close_about h hs)).weaken
  rintro after ⟨he, habout⟩
  exact ends_of_socks he.socks (fun x hx => (alone_fate _ x hx).2.1) habout

-- A local socket is made ready, whether it waits for its status or not.
theorem ready_about (hs : st.socks a = some s) (hlocal : s.ops.isLocal = true) :
    Ensures (ready st a) (fun after => ∃ s', after.socks = Function.update st.socks a (some s') ∧
      s'.peer = s.peer ∧ LogAbout st after (· = a)) Benign := by
  cases hops : s.ops with
  | localSocket =>
      rw [ready_local hs hops, localSocketReady_eq hs]
      exact ⟨s.awake, rfl, rfl, .of_eq rfl⟩
  | localSocketNotify =>
      rw [ready_notify hs hops]
      unfold localSocketReadyNotify
      apply (ensures_bind_ok (Server.deref_some hs)).mpr
      apply (writeStatus_ensures _ a .okay).bind
      rintro _ ⟨ok, rest, -, rfl⟩
      rw [localSocketReady_eq (s := { s with ops := .localSocket }) (by simp [Server.put])]
      refine ⟨ASocket.awake { s with ops := .localSocket }, ?_, rfl, ?_⟩
      · simp [Server.put]
      · exact .event (e := .status a .okay ok) rfl fun c hc => hc.symm
  | _ => simp [hops, Ops.isLocal] at hlocal

theorem localSocketEnqueue_about (h : Graph st) (hs : st.socks a = some s) (bytes : Bytes) :
    Ensures (localSocketEnqueue st a bytes) (fun result =>
      LogAbout st result.2 fun c => c = a ∨ (s.peer = some c ∧ writeFails s bytes st.script.writes = true))
      Benign := by
  unfold localSocketEnqueue
  apply (ensures_bind_ok (Server.deref_some hs)).mpr
  by_cases hpkts : s.pkts = []
  · rw [if_neg (by simp [hpkts])]
    obtain ⟨result, hresult⟩ : ∃ result, result = writeLoop false bytes st.script.writes := ⟨_, rfl⟩
    obtain ⟨mid, hmid⟩ : ∃ mid : Server, mid = ({ st with
      script := { st.script with writes := result.writes } }.note (.wrote a result.written)) := ⟨_, rfl⟩
    have hgraph : Graph mid := by
      rw [hmid]
      exact h.congr rfl rfl rfl rfl (.of_eq rfl)
    have hm : mid.socks a = some s := by rw [hmid]; exact hs
    have hwrote : ∀ Q : Nat → Prop, LogAbout st mid fun c => c = a ∨ Q c := by
      intro Q
      apply LogAbout.event (e := .wrote a result.written)
      · rw [hmid]
        rfl
      · exact fun c hc => Or.inl hc.symm
    simp only [← hresult, ← hmid]
    cases hout : result.outcome with
    | blocked => exact benign_blocked
    | failed =>
        have hfails : writeFails s bytes st.script.writes = true := by
          simp [writeFails, hpkts, ← hresult, hout]
        apply (close_about hgraph hm).bind
        intro after habout
        apply (hwrote _).trans
        exact habout.weaken fun c hc => hc.imp_right fun hp => ⟨hp, hfails⟩
    | done => exact hwrote _
    | again =>
        simp only
        rw [queuePacket_eq hm]
        exact (hwrote _).trans (.of_eq rfl)
  · rw [if_pos hpkts, queuePacket_eq hs]
    exact .of_eq rfl

end Handlers

section Packets

-- The packet makes the socket go: a CLSE, or a WRTE that cannot be written.
def Ending (p : Packet) (s : ASocket) (writes : List WriteOutcome) : Prop :=
  p.command = A_CLSE ∨ (p.command = A_WRTE ∧ writeFails s p.payload writes = true)

-- The socket that find_local_socket returns for arg1, or its peer where the
-- packet closes it.
def LookedUp (st : Server) (p : Packet) (writes : List WriteOutcome) (c : Nat) : Prop :=
  ∃ a s, findLocalSocket st p.arg1 = .ok (some a) ∧ Found st p.arg1 a s ∧
    (c = a ∨ (s.peer = some c ∧ Ending p s writes))

-- A socket without a peer is given one: a new remote socket of the transport.
def GivenPeer (st : Server) (t : Nat) (p : Packet) (after : Server) (c : Nat) (s : ASocket) (r : Nat) :
    Prop :=
  p.command = A_OKAY ∧ s.peer = none ∧ findLocalSocket st p.arg1 = .ok (some c) ∧
    ∃ q, after.socks r = some q ∧ q.ops = .remoteSocket ∧ q.transport = some t ∧ q.id = p.arg0

-- All that a packet of a stream does to the local sockets.
structure ByLookup (st : Server) (writes : List WriteOutcome) (t : Nat) (p : Packet) (after : Server) :
    Prop where
  spared : ∀ c s, st.socks c = some s → s.ops.isLocal = true →
    Spares st after c ∨ LookedUp st p writes c
  peers : ∀ c s s' r, st.socks c = some s → s.ops.isLocal = true → after.socks c = some s' →
    s'.peer = some r → s.peer = some r ∨ GivenPeer st t p after c s r

variable {writes : List WriteOutcome}

theorem ByLookup.refl (st : Server) (writes : List WriteOutcome) (t : Nat) (p : Packet) :
    ByLookup st writes t p st where
  spared := fun c _ _ _ => Or.inl (.refl st c)
  peers := by
    intro c s s' r hs _ hs' hr
    rw [hs, Option.some.injEq] at hs'
    exact Or.inl (hs' ▸ hr)

theorem Ends.byLookup (h : Ends st a s after) (hf : Found st p.arg1 a s)
    (hlook : findLocalSocket st p.arg1 = .ok (some a)) (hend : Ending p s writes) :
    ByLookup st writes t p after where
  spared := by
    intro c x hx _
    by_cases hca : c = a
    · exact Or.inr ⟨a, s, hlook, hf, Or.inl hca⟩
    · by_cases hp : s.peer = some c
      · exact Or.inr ⟨a, s, hlook, hf, Or.inr ⟨hp, hend⟩⟩
      · exact Or.inl (.of_log (h.others c hca hp) h.about (not_or.mpr ⟨hca, hp⟩))
  peers := by
    intro c x x' r hx _ hx' hr
    by_cases hc : c = a ∨ s.peer = some c
    · rw [h.alone c x' hc hx'] at hr
      cases hr
    · rw [not_or] at hc
      rw [h.others c hc.1 hc.2, hx, Option.some.injEq] at hx'
      exact Or.inl (hx' ▸ hr)

-- Only the socket itself is written to, queued to or made ready.
theorem byLookup_put (hf : Found st p.arg1 a s) (hlook : findLocalSocket st p.arg1 = .ok (some a))
    (hsocks : after.socks = Function.update st.socks a (some s')) (hpeer : s'.peer = s.peer)
    (habout : LogAbout st after (· = a)) : ByLookup st writes t p after where
  spared := by
    intro c x hx _
    by_cases hca : c = a
    · exact Or.inr ⟨a, s, hlook, hf, Or.inl hca⟩
    · exact Or.inl (.of_log (by rw [hsocks, Function.update_of_ne hca]) habout hca)
  peers := by
    intro c x x' r hx _ hx' hr
    rw [hsocks] at hx'
    by_cases hca : c = a
    · subst hca
      rw [Function.update_self, Option.some.injEq] at hx'
      rw [hf.live, Option.some.injEq] at hx
      rw [← hx', hpeer, hx] at hr
      exact Or.inl hr
    · rw [Function.update_of_ne hca, hx, Option.some.injEq] at hx'
      exact Or.inl (hx' ▸ hr)

theorem ByLookup.note {e : Event} (h : ByLookup st writes t p mid) (he : ∀ c, ¬e.Concerns c) :
    ByLookup st writes t p (mid.note e) where
  spared := by
    intro c s hs hlocal
    apply (h.spared c s hs hlocal).imp_left
    intro hspared
    exact ⟨hspared.socket, hspared.log.trans (.event rfl fun b hb => absurd hb (he b))⟩
  peers := h.peers

-- The remote socket is new: no local socket gives way to it.
theorem byLookup_attached (h : Graph st) (hf : Found st p.arg1 a s)
    (hlook : findLocalSocket st p.arg1 = .ok (some a)) (hcommand : p.command = A_OKAY)
    (hp : s.peer = none)
    (hsocks : after.socks = Function.update (Function.update st.socks st.nextSocket
      (some (newRemote p.arg0 t a))) a (some s'))
    (hpeer : s'.peer = some st.nextSocket) (habout : LogAbout st after (· = a)) :
    ByLookup st writes t p after := by
  have hfresh : st.socks st.nextSocket = none := Graph.fresh_none h.base
  have hother : ∀ c x, st.socks c = some x → c ≠ a → after.socks c = st.socks c := by
    intro c x hx hca
    have hcn : c ≠ st.nextSocket := by
      rintro rfl
      rw [hfresh] at hx
      cases hx
    rw [hsocks, Function.update_of_ne hca, Function.update_of_ne hcn]
  constructor
  · intro c x hx _
    by_cases hca : c = a
    · exact Or.inr ⟨a, s, hlook, hf, Or.inl hca⟩
    · exact Or.inl (.of_log (hother c x hx hca) habout hca)
  · intro c x x' r hx _ hx' hr
    by_cases hca : c = a
    · subst hca
      rw [hsocks, Function.update_self, Option.some.injEq] at hx'
      rw [hf.live, Option.some.injEq] at hx
      rw [← hx', hpeer, Option.some.injEq] at hr
      subst hr
      have hne : st.nextSocket ≠ c := by
        rintro rfl
        have hlive := hf.live
        rw [hfresh] at hlive
        cases hlive
      refine Or.inr ⟨hcommand, hx ▸ hp, hlook, newRemote p.arg0 t c, ?_, rfl, rfl, rfl⟩
      rw [hsocks, Function.update_of_ne hne, Function.update_self]
    · rw [hother c x hx hca, hx, Option.some.injEq] at hx'
      exact Or.inl (hx' ▸ hr)

theorem handleClose_byLookup (h : Graph st) (hcommand : p.command = A_CLSE) :
    Ensures (handleClose st p) (ByLookup st writes t p) Benign := by
  unfold handleClose
  have hfind := findLocalSocket_ensures h p.arg1
  cases hlook : findLocalSocket st p.arg1 with
  | error e => exact hfind.of_error hlook
  | ok found =>
      cases found with
      | none => exact ByLookup.refl st writes t p
      | some a =>
          obtain ⟨s, hf⟩ := hfind.of_ok hlook a rfl
          show Ensures (close st a) _ _
          apply (close_ends h hf.live).weaken
          exact fun after he => he.byLookup hf hlook (Or.inl hcommand)

theorem handleWrite_byLookup (h : Graph st) (hcommand : p.command = A_WRTE) :
    Ensures (handleWrite st t p) (ByLookup st st.script.writes t p) Benign := by
  unfold handleWrite
  have hfind := findLocalSocket_ensures h p.arg1
  cases hlook : findLocalSocket st p.arg1 with
  | error e => exact hfind.of_error hlook
  | ok found =>
      cases found with
      | none => exact ByLookup.refl st st.script.writes t p
      | some a =>
          obtain ⟨s, hf⟩ := hfind.of_ok hlook a rfl
          show Ensures (enqueue st a p.payload >>= _) _ _
          rw [enqueue_local hf.live hf.islocal]
          have henqueue := (localSocketEnqueue_ensures (B := False) h hf.live hf.islocal p.payload).and
            (localSocketEnqueue_about h hf.live p.payload)
          apply henqueue.bind
          rintro ⟨r, mid⟩ ⟨hr, habout⟩
          simp only at habout
          -- what the packet does is done; the answer is for the device
          have hmid : ByLookup st st.script.writes t p mid := by
            cases hfails : writeFails s p.payload st.script.writes with
            | true =>
                have hsocks := (hr.fails hfails).2
                simp only at hsocks
                have hends : Ends st a s mid := ends_of_socks hsocks (by simp)
                  (habout.weaken fun c hc => hc.imp_right And.left)
                exact hends.byLookup hf hlook (Or.inr ⟨hcommand, hfails⟩)
            | false =>
                obtain ⟨s', htended, -, hsocks⟩ := hr.kept hfails
                apply byLookup_put hf hlook hsocks htended.peer
                exact habout.weaken fun c hc => hc.resolve_right fun hp => by simp [hfails] at hp
          simp only
          split
          · apply (deref_ensures mid a).bind
            intro s' _
            unfold sendReady
            apply (sendPacket_ensures _ _ _ _).weaken
            rintro _ ⟨t', -, rfl⟩
            exact hmid.note (by simp [Event.Concerns])
          · exact hmid

theorem handleOkay_byLookup (h : Graph st) (hcommand : p.command = A_OKAY) :
    Ensures (handleOkay st t p) (ByLookup st writes t p) Benign := by
  unfold handleOkay
  have hfind := findLocalSocket_ensures h p.arg1
  cases hlook : findLocalSocket st p.arg1 with
  | error e => exact hfind.of_error hlook
  | ok found =>
      cases found with
      | none => exact ByLookup.refl st writes t p
      | some a =>
          obtain ⟨s, hf⟩ := hfind.of_ok hlook a rfl
          show Ensures (st.deref a >>= _) _ _
          apply (ensures_bind_ok (Server.deref_some hf.live)).mpr
          cases hp : s.peer with
          | none =>
              apply (attachRemote_ensures h.base hf.live hf.islocal p.arg0 t).bind
              intro mid ha
              have hb := ha.becomes
              have hma : (mid.note (.okayed a)).socks a = some { s with peer := some st.nextSocket } := by
                simp [Server.note, hb.socks]
              apply (ready_about hma hf.islocal).weaken
              rintro after ⟨s', hsocks, hpeer, habout⟩
              have hlog : LogAbout st after (· = a) := by
                have hattached : LogAbout st mid (· = a) :=
                  .event (e := .attached a st.nextSocket) hb.log fun c hc => hc.symm
                exact (hattached.trans (okayed_about mid a)).trans habout
              exact byLookup_attached h hf hlook hcommand hp
                (hsocks.trans (by simp [Server.note, hb.socks])) hpeer hlog
          | some r =>
              show Ensures (ready (st.note (.okayed a)) a) _ _
              have hnoted : (st.note (.okayed a)).socks a = some s := hf.live
              apply (ready_about hnoted hf.islocal).weaken
              rintro after ⟨s', hsocks, hpeer, habout⟩
              apply byLookup_put hf hlook hsocks hpeer
              exact (okayed_about st a).trans habout

end Packets

section Lookup

def StreamCommand (p : Packet) : Prop :=
  p.command = A_OKAY ∨ p.command = A_WRTE ∨ p.command = A_CLSE

theorem handlePacket_byLookup (h : Graph st) (hcommand : StreamCommand p) :
    Ensures (handlePacket st t p) (ByLookup st st.script.writes t p) Benign := by
  have hothers : p.command ≠ A_SYNC ∧ p.command ≠ A_CNXN ∧ p.command ≠ A_OPEN := by
    rcases hcommand with hc | hc | hc <;> rw [hc] <;> decide
  obtain ⟨hsync, hconnect, hopen⟩ := hothers
  unfold handlePacket
  apply (derefTransport_ensures st t).bind
  intro transport _
  rw [if_neg hsync, if_neg hconnect, if_neg hopen]
  by_cases honline : transport.online = true
  · rw [if_neg (not_not.mpr honline)]
    by_cases hokay : p.command = A_OKAY
    · rw [if_pos hokay]
      exact handleOkay_byLookup h hokay
    · rw [if_neg hokay]
      by_cases hclose : p.command = A_CLSE
      · rw [if_pos hclose]
        exact handleClose_byLookup h hclose
      · have hwrite : p.command = A_WRTE := (hcommand.resolve_left hokay).resolve_right hclose
        rw [if_neg hclose, if_pos hwrite]
        exact handleWrite_byLookup h hwrite
  · rw [if_pos honline]
    exact ByLookup.refl st st.script.writes t p

theorem walkList_scripted (input : Script × Input) (list : SRef) (fuel : Nat) (node : Option SRef) :
    walkList (scripted st input) list fuel node = walkList st list fuel node := by
  induction fuel generalizing node with
  | zero => rfl
  | succ fuel ih =>
      cases node with
      | none => rfl
      | some node =>
          cases node with
          | socket a =>
              simp only [walkList, ih]
              rfl
          | _ => rfl

theorem findLocalSocket_scripted (input : Script × Input) (id : UInt32) :
    findLocalSocket (scripted st input) id = findLocalSocket st id := by
  unfold findLocalSocket localSockets
  rw [walkList_scripted]
  rfl

theorem Found.of_scripted {input : Script × Input} (h : Found (scripted st input) id a s) :
    Found st id a s :=
  ⟨h.live, h.islocal, h.closing, h.id_eq⟩

-- In every state that a run reaches a packet of a stream comes to the socket
-- that arg1 finds, and to its peer where it makes it go, whatever the two are
-- connected to. Every other local socket is spared.
theorem stream_packet_by_lookup (inputs : List (Script × Input)) (st : Server)
    (hr : run step serverInit inputs = .ok st) (script : Script) (t : Nat) (p : Packet)
    (hcommand : StreamCommand p) (after : Server) (hs : step st (script, .packet t p) = .ok after) :
    ByLookup st script.writes t p after := by
  have hw := (run_whole hr).scripted (script, .packet t p)
  simp only [step, handle] at hs
  split at hs
  · have hby := (handlePacket_byLookup hw.graph hcommand).of_ok hs
    constructor
    · intro c s hc hlocal
      rcases hby.spared c s hc hlocal with hspared | ⟨a, x, hlook, hf, hca⟩
      · exact Or.inl ⟨hspared.socket, hspared.log⟩
      · rw [findLocalSocket_scripted] at hlook
        exact Or.inr ⟨a, x, hlook, hf.of_scripted, hca⟩
    · intro c s s' r hc hlocal hc' hpeer
      rcases hby.peers c s s' r hc hlocal hc' hpeer with hkept | ⟨hokay, hnone, hlook, hq⟩
      · exact Or.inl hkept
      · rw [findLocalSocket_scripted] at hlook
        exact Or.inr ⟨hokay, hnone, hlook, hq⟩
  · cases hs

-- The socket belongs to the stream of the packet.
def OfStream (st : Server) (t : Nat) (p : Packet) (s : ASocket) : Prop :=
  s.id = p.arg1 ∧
    ((∃ r q, s.peer = some r ∧ st.socks r = some q ∧ q.ops = .remoteSocket ∧ q.transport = some t ∧
        q.id = p.arg0) ∨
      (p.command = A_OKAY ∧ s.peer = none ∧ s.transport = some t))

-- A device is online, and a client has connected but asked for nothing yet.
def deviceAndClient : List (Script × Input) :=
  [(silent, usbDevice), (silent, .packet 0 connectPacket), (silent, .accept 0)]

theorem stream_packet_by_lookup_of_a_client :
    ∃ st after, step st (silent, .packet 0 ⟨A_CLSE, 7, 1, [], []⟩) = .ok after ∧
      ByLookup st [] 0 ⟨A_CLSE, 7, 1, [], []⟩ after := by
  obtain ⟨st, hrun, hstep⟩ := exists_of_any (x := run step serverInit deviceAndClient)
    (p := fun st => (step st (silent, .packet 0 ⟨A_CLSE, 7, 1, [], []⟩)).isOk) (by decide)
  obtain ⟨after, hafter⟩ := exists_of_isOk hstep
  exact ⟨st, after, hafter,
    stream_packet_by_lookup deviceAndClient st hrun silent 0 _ (Or.inr (Or.inr rfl)) after hafter⟩

def clientClosed (st : Server) (result : Except Stop Server) : Bool :=
  (st.transports 0).any (·.online) &&
    (st.socks 0).any (fun s => s.ops.isLocal &&
      (s.peer.bind st.socks).any fun q => decide (q.ops = .smartSocket)) &&
    result.toOption.any fun after => (after.socks 0).isNone

-- The device closes a stream with the id of the client's socket, which talks to
-- a smart socket.
theorem clse_closes_a_client :
    ¬ ∀ (inputs : List (Script × Input)) (st : Server), run step serverInit inputs = .ok st →
      ∀ (script : Script) (t : Nat) (p : Packet), StreamCommand p →
        (st.transports t).any (·.online) = true →
        ∀ after, step st (script, .packet t p) = .ok after →
          ∀ c s, st.socks c = some s → s.ops.isLocal = true →
            Spares st after c ∨ OfStream st t p s := by
  intro h
  obtain ⟨st, hrun, hclosed⟩ := exists_of_any (x := run step serverInit deviceAndClient)
    (p := fun st => clientClosed st (step st (silent, .packet 0 ⟨A_CLSE, 7, 1, [], []⟩))) (by decide)
  simp only [clientClosed, Bool.and_eq_true] at hclosed
  obtain ⟨⟨honline, hclient⟩, hresult⟩ := hclosed
  rw [Option.any_eq_true] at hclient hresult
  obtain ⟨s, hs, hclient⟩ := hclient
  obtain ⟨after, hafter, hgone⟩ := hresult
  rw [Bool.and_eq_true, Option.any_eq_true] at hclient
  obtain ⟨hlocal, q, hq, hsmart⟩ := hclient
  rw [decide_eq_true_eq] at hsmart
  rw [Option.isNone_iff_eq_none] at hgone
  rcases h deviceAndClient st hrun silent 0 ⟨A_CLSE, 7, 1, [], []⟩ (Or.inr (Or.inr rfl)) honline after
    (ok_of_toOption hafter) 0 s hs hlocal with hspared | hof
  · have hsame := hspared.socket
    rw [hgone, hs] at hsame
    cases hsame
  · rcases hof.2 with ⟨r, x, hp, hx, hremote, -⟩ | ⟨hokay, -⟩
    · rw [hp, Option.bind_some, hx, Option.some.injEq] at hq
      rw [← hq, hremote] at hsmart
      cases hsmart
    · exact absurd hokay (by decide)

end Lookup

end Adb.Host
