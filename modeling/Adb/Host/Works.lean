import Adb.Host.Edits
import Adb.Host.EnqueueContract

namespace Adb.Host

open Adb.Lib
open Adb.Transport (TransportType)

variable {D : Server → Bytes → Prop} {N : Prop} {st mid after : Server} {a b l t : Nat} {s s' q : ASocket}
  {p : Bytes}

section Loops

-- What is written and what is left make up the queue.
theorem drainQueue_split (pkts : List Bytes) (writes : List WriteOutcome) :
    (drainQueue pkts writes).written ++ (drainQueue pkts writes).pkts.flatten = pkts.flatten := by
  induction pkts generalizing writes with
  | nil => rfl
  | cons p pkts ih =>
      have hsplit := writeLoop_split true p writes
      unfold drainQueue
      simp only
      split
      · rename_i hdone
        rw [writeLoop_done true p writes hdone, List.append_nil] at hsplit
        simp only [List.append_assoc, ih, List.flatten_cons, hsplit]
      · simp only [List.flatten_cons, ← List.append_assoc, hsplit]

theorem drainQueue_done (pkts : List Bytes) (writes : List WriteOutcome)
    (h : (drainQueue pkts writes).outcome = .done) : (drainQueue pkts writes).pkts = [] := by
  induction pkts generalizing writes with
  | nil => rfl
  | cons p pkts ih =>
      unfold drainQueue at h ⊢
      simp only at h ⊢
      split
      · rename_i hdone
        rw [if_pos hdone] at h
        exact ih _ h
      · rename_i hdone
        rw [if_neg hdone] at h
        exact absurd h hdone

end Loops

-- A packet comes to a local fd: it is written, or queued as far as it is not, or
-- the write is of no avail and the socket goes.
inductive Delivers (D : Server → Bytes → Prop) (st : Server) (a : Nat) (p : Bytes) : Server → Prop
  | written (s : ASocket) (script : Script) (found : st.socks a = some s) (empty : s.pkts = []) :
      Delivers D st a p ({ st with script }.note (.wrote a p))
  | waits (s : ASocket) (found : st.socks a = some s) (busy : s.pkts ≠ []) :
      Delivers D st a p
        (st.put a { s with pkts := s.pkts ++ [p], fde := fdeventAdd s.fde FDE_WRITE })
  | queued (s : ASocket) (script : Script) (sent rest : Bytes) (found : st.socks a = some s)
      (empty : s.pkts = []) (split : sent ++ rest = p) :
      Delivers D st a p (({ st with script }.note (.wrote a sent)).put a
        { s with pkts := s.pkts ++ [rest], fde := fdeventAdd s.fde FDE_WRITE })
  | broken (script : Script) (sent : Bytes) (after : Server)
      (edits : Edits D ({ st with script }.note (.wrote a sent)) after) (gone : after.socks a = none) :
      Delivers D st a p after

-- A tracker sends the list of the devices to its client for the first time.
inductive Announces (D : Server → Bytes → Prop) (st : Server) (d : Nat) (after : Server) : Prop
  | mk (l : Nat) (s : ASocket) (p : Bytes) (found : st.socks d = some s)
      (tracker : s.ops = .deviceTracker) (peer : s.peer = some l) (listed : listTransportsMsg st = .ok p)
      (delivers : Delivers D (st.put d { s with updateNeeded := false }) l p after)

-- No serial at all.
def Nobody (_ : Server) (_ : Bytes) : Prop := False

-- The steps of the handlers, with what comes to the local fds. A packet that is
-- passed on does not come from a tracker, unless N says so; what a tracker sends
-- is the list of the devices. A new one has sent it when the handler returns.
inductive Work (D : Server → Bytes → Prop) (N : Prop) : Server → Server → Prop
  | edit (st after : Server) (edit : Edit D st after) : Work D N st after
  | drain (st : Server) (a : Nat) (s : ASocket) (script : Script) (sent : Bytes) (pkts : List Bytes)
      (found : st.socks a = some s) (split : sent ++ pkts.flatten = s.pkts.flatten) :
      Work D N st (({ st with script }.put a { s with pkts }).note (.wrote a sent))
  | pass (st : Server) (a : Nat) (s : ASocket) (p : Bytes) (after : Server)
      (found : st.socks a = some s)
      (foreign : (∀ q, s.peer.bind st.socks = some q → ¬q.Settled) ∨ N)
      (delivers : Delivers Nobody st a p after) : Work D N st after
  | announce (st : Server) (d : Nat) (after : Server) (announces : Announces Nobody st d after) :
      Work D N st after
  | engage (st mid after : Server) (edits : Edits Nobody (createDeviceTracker st).2 mid)
      (announces : Announces Nobody mid st.nextSocket after) : Work D N st after
  | publish (st : Server) (d l : Nat) (s : ASocket) (p : Bytes) (after : Server)
      (found : st.socks d = some s) (tracker : s.ops = .deviceTracker) (peer : s.peer = some l)
      (listed : listTransportsMsg st = .ok p) (delivers : Delivers Nobody st l p after) :
      Work D N st after

def Works (D : Server → Bytes → Prop) (N : Prop) : Server → Server → Prop :=
  Relation.ReflTransGen (Work D N)

section Chains

theorem Works.refl (st : Server) : Works D N st st := Relation.ReflTransGen.refl

theorem Works.trans (h : Works D N st mid) (h' : Works D N mid after) : Works D N st after :=
  Relation.ReflTransGen.trans h h'

theorem Work.works (h : Work D N st after) : Works D N st after := Relation.ReflTransGen.single h

theorem Edits.works (h : Edits D st after) : Works D N st after := by
  induction h with
  | refl => exact Works.refl st
  | tail _ he ih => exact ih.trans (Work.edit _ _ he).works

theorem Works.invariant {inv : Server → Prop} (hwork : ∀ {x y}, Work D N x y → inv x → inv y)
    (h : Works D N st after) (hi : inv st) : inv after := by
  induction h with
  | refl => exact hi
  | tail _ he ih => exact hwork he ih

variable {α β : Type} {x : Except Stop α} {f : α → Except Stop β} {v : α → Server}
  {w : β → Server}

theorem works_after (h : Works D N st mid) (hx : Ensures x (fun r => Works D N mid (v r)) Anyway) :
    Ensures x (fun r => Works D N st (v r)) Anyway :=
  hx.weaken fun _ hr => h.trans hr

theorem works_of_edits (hx : Ensures x (fun r => Edits D st (v r)) Anyway) :
    Ensures x (fun r => Works D N st (v r)) Anyway :=
  hx.weaken fun _ hr => hr.works

end Chains

section Listing

-- A transport without its records.
def ATransport.plain (t : ATransport) : ATransport := { t with disconnects := [] }

-- The transports are as they were, except for their records.
structure SameListing (st after : Server) : Prop where
  transportList : after.transportList = st.transportList
  plain : ∀ t, (after.transports t).map ATransport.plain = (st.transports t).map ATransport.plain

theorem SameListing.refl (st : Server) : SameListing st st := ⟨rfl, fun _ => rfl⟩

theorem SameListing.trans (h : SameListing st mid) (h' : SameListing mid after) : SameListing st after :=
  ⟨h'.transportList.trans h.transportList, fun t => (h'.plain t).trans (h.plain t)⟩

-- The list is made from the lines of the transports.
theorem listTransportsMsg_congr (hlist : after.transportList = st.transportList)
    (hlines : ∀ t, (after.transports t).map formatTransport = (st.transports t).map formatTransport) :
    listTransportsMsg after = listTransportsMsg st := by
  have hderef : ∀ t, (after.derefTransport t).map formatTransport =
      (st.derefTransport t).map formatTransport := by
    intro t
    have hline := hlines t
    unfold Server.derefTransport
    cases ha : after.transports t <;> cases hs : st.transports t <;> simp_all [Except.map]
  have hall : ∀ ts : List Nat, (ts.mapM after.derefTransport).map (List.map formatTransport) =
      (ts.mapM st.derefTransport).map (List.map formatTransport) := by
    intro ts
    induction ts with
    | nil => rfl
    | cons t ts ih =>
        have hhead := hderef t
        simp only [List.mapM_cons, bind, Except.bind, pure, Except.pure]
        cases ha : after.derefTransport t <;> cases hs : st.derefTransport t <;>
          simp_all [Except.map]
        cases hra : ts.mapM after.derefTransport <;> cases hrs : ts.mapM st.derefTransport <;> simp_all
  have hsame := hall st.transportList
  unfold listTransportsMsg
  rw [hlist]
  simp only [bind, Except.bind]
  cases hra : st.transportList.mapM after.derefTransport <;>
    cases hrs : st.transportList.mapM st.derefTransport <;> simp_all [Except.map]

theorem SameListing.lines (h : SameListing st after) (t : Nat) :
    (after.transports t).map formatTransport = (st.transports t).map formatTransport := by
  have hplain : ∀ o : Option ATransport, o.map formatTransport = (o.map ATransport.plain).map formatTransport := by
    intro o
    cases o <;> rfl
  rw [hplain, h.plain t, ← hplain]

theorem SameListing.listTransportsMsg (h : SameListing st after) :
    Adb.Host.listTransportsMsg after = Adb.Host.listTransportsMsg st :=
  listTransportsMsg_congr h.transportList h.lines

theorem plain_learns (transports : Nat → Option ATransport) (o : Option Nat) (dis : Disconnect) (t : Nat) :
    (learns transports o dis t).map ATransport.plain = (transports t).map ATransport.plain := by
  cases o with
  | none => rfl
  | some u =>
      by_cases htu : t = u
      · subst htu
        simp only [learns, Function.update_self, Option.map_map]
        rfl
      · simp only [learns, Function.update_of_ne htu]

theorem plain_forgets (transports : Nat → Option ATransport) (o : Option Nat) (dis : Disconnect)
    (t : Nat) : (forgets transports o dis t).map ATransport.plain = (transports t).map ATransport.plain := by
  cases o with
  | none => rfl
  | some u =>
      by_cases htu : t = u
      · subst htu
        simp only [forgets, Function.update_self, Option.map_map]
        rfl
      · simp only [forgets, Function.update_of_ne htu]

theorem disconnectDevice_same (st : Server) (serial : Bytes) :
    ∃ ts, disconnectDevice st serial = { st with transportList := ts } := by
  unfold disconnectDevice
  split
  · exact ⟨_, rfl⟩
  · simp only
    split
    · exact ⟨_, rfl⟩
    · exact ⟨st.transportList, rfl⟩

theorem Edit.plain (h : Edit D st after) (t : Nat) :
    (after.transports t).map ATransport.plain = (st.transports t).map ATransport.plain := by
  cases h with
  | attach s u up remote alone transport => exact plain_learns st.transports (some u) _ t
  | detach a u s found transport => exact plain_forgets st.transports (some u) _ t
  | listen listener fit => exact plain_learns st.transports listener.transport _ t
  | rebind l old new listener connectTo found bound moved fit =>
      have hforgets := plain_forgets st.transports (some old) (.listener l) t
      exact (plain_learns (forgets st.transports (some old) (.listener l)) (some new)
        (.listener l) t).trans hforgets
  | unlisten l listener found => exact plain_forgets st.transports listener.transport _ t
  | delist serial asked =>
      obtain ⟨ts, heq⟩ := disconnectDevice_same st serial
      rw [heq]
  | _ => rfl

theorem Edits.plain (h : Edits D st after) (t : Nat) :
    (after.transports t).map ATransport.plain = (st.transports t).map ATransport.plain := by
  induction h with
  | refl => rfl
  | tail _ he ih => exact (he.plain t).trans ih

theorem Online.of_plain (h : Online st t)
    (hplain : (after.transports t).map ATransport.plain = (st.transports t).map ATransport.plain) :
    Online after t := by
  obtain ⟨transport, ht, hup⟩ := h
  rw [ht, Option.map_some, Option.map_eq_some_iff] at hplain
  obtain ⟨x, hx, heq⟩ := hplain
  exact ⟨x, hx, (congrArg ATransport.online heq).trans hup⟩

theorem Edit.sameListing (h : Edit Nobody st after) : SameListing st after := by
  refine ⟨?_, h.plain⟩
  cases h with
  | delist serial asked => exact asked.elim
  | _ => rfl

theorem Edits.sameListing (h : Edits Nobody st after) : SameListing st after := by
  induction h with
  | refl => exact SameListing.refl st
  | tail _ he ih => exact ih.trans he.sameListing

theorem Delivers.sameListing (h : Delivers Nobody st a p after) : SameListing st after := by
  cases h with
  | broken script sent _ edits gone =>
      have hfirst : SameListing st ({ st with script }.note (.wrote a sent)) := ⟨rfl, fun _ => rfl⟩
      exact hfirst.trans edits.sameListing
  | _ => exact ⟨rfl, fun _ => rfl⟩

end Listing

section Deliveries

theorem localSocketEnqueue_delivers (h : Graph st) (hs : st.socks a = some s) (p : Bytes) :
    Ensures (localSocketEnqueue st a p) (fun r => Delivers Nobody st a p r.2) Anyway := by
  unfold localSocketEnqueue
  apply (ensures_bind_ok (Server.deref_some hs)).mpr
  by_cases hpkts : s.pkts = []
  · rw [if_neg (by simp [hpkts])]
    obtain ⟨result, hresult⟩ : ∃ result, result = writeLoop false p st.script.writes := ⟨_, rfl⟩
    have hsplit : result.written ++ result.rest = p := hresult ▸ writeLoop_split false p _
    obtain ⟨script, hscript⟩ : ∃ script : Script, script = { st.script with writes := result.writes } :=
      ⟨_, rfl⟩
    obtain ⟨mid, hmid⟩ : ∃ mid : Server, mid = { st with script }.note (.wrote a result.written) := ⟨_, rfl⟩
    have hm : mid.socks a = some s := by rw [hmid]; exact hs
    simp only [← hresult, ← hscript, ← hmid]
    cases hout : result.outcome with
    | blocked => trivial
    | failed =>
        have hgraph : Graph mid := by
          rw [hmid]
          exact h.congr rfl rfl rfl rfl (.of_eq rfl)
        have hgone := (close_ensures (B := False) hgraph hm).mono (W := Anyway) fun _ _ => trivial
        apply (hgone.and (close_edits (D := Nobody) mid a)).bind
        rintro after ⟨hended, hedits⟩
        apply Delivers.broken script result.written after
        · rw [← hmid]
          exact hedits
        · rw [hended.socks, Function.update_self]
          apply fate_nil
          unfold ASocket.told
          split <;> exact hpkts
    | done =>
        have hrest : result.rest = [] := by
          rw [hresult] at hout ⊢
          exact writeLoop_done false p _ hout
        rw [hrest, List.append_nil] at hsplit
        show Delivers Nobody st a p mid
        rw [hmid, hsplit]
        exact .written s script hs hpkts
    | again =>
        simp only
        rw [queuePacket_eq hm]
        show Delivers Nobody st a p (mid.put a _)
        rw [hmid]
        exact .queued s script result.written result.rest hs hpkts hsplit
  · rw [if_pos hpkts, queuePacket_eq hs]
    exact .waits s hs hpkts

variable {enqueue : Server → Nat → Bytes → Except Stop (Int × Server)}

-- A tracker sends to its client.
theorem deviceTrackerSend_delivers (henqueue : SendsLocally enqueue) (h : Graph st)
    (hs : st.socks a = some s) (hops : s.ops = .deviceTracker) (buffer : Bytes) :
    Ensures (deviceTrackerSend enqueue st a buffer)
      (fun r => ∃ l, s.peer = some l ∧ Delivers Nobody st l buffer r.2) Anyway := by
  obtain ⟨l, client, hp, hclient, hlocal⟩ := h.peers.inner a s hs (by rw [hops]; rfl)
  unfold deviceTrackerSend
  apply (ensures_bind_ok (Server.deref_some hs)).mpr
  rw [hp]
  show Ensures (enqueue st l buffer) _ _
  rw [henqueue st l client buffer hclient hlocal]
  exact (localSocketEnqueue_delivers h hclient buffer).weaken fun r hr => ⟨l, rfl, hr⟩

theorem deviceTrackerReady_announces (henqueue : SendsLocally enqueue) (h : Graph st)
    (hs : st.socks a = some s) (hops : s.ops = .deviceTracker) (hneeded : s.updateNeeded = true) :
    Ensures (deviceTrackerReady enqueue st a) (Announces Nobody st a) Anyway := by
  have htended := Moves.tend (B := False) h hs (tended_transport_of_inner s false)
    (by simp [roleOf, hops]) (fun hc => (h.peers.parked a s hs hc).2.2)
  unfold deviceTrackerReady
  apply (ensures_bind_ok (Server.deref_some hs)).mpr
  rw [if_pos hneeded]
  simp only [listTransportsMsg_put]
  cases hlist : listTransportsMsg st with
  | error e => trivial
  | ok buffer =>
      apply (ensures_bind_ok rfl).mpr
      apply (deviceTrackerSend_delivers henqueue (htended.graph h) (a := a)
        (s := { s with updateNeeded := false }) (by simp [Server.put]) hops buffer).bind
      rintro r ⟨l, hp, hr⟩
      exact .mk l s buffer hs hops hp hlist hr

theorem deviceTrackerReady_works (henqueue : SendsLocally enqueue) (h : Graph st)
    (hs : st.socks a = some s) (hops : s.ops = .deviceTracker) :
    Ensures (deviceTrackerReady enqueue st a) (Works D N st) Anyway := by
  cases hneeded : s.updateNeeded with
  | false =>
      unfold deviceTrackerReady
      apply (ensures_bind_ok (Server.deref_some hs)).mpr
      rw [if_neg (by simp [hneeded])]
      exact Works.refl st
  | true =>
      apply (deviceTrackerReady_announces henqueue h hs hops hneeded).weaken
      intro after ha
      exact (Work.announce st a after ha).works

theorem readyWith_works (henqueue : SendsLocally enqueue) (h : Graph st) (a : Nat) :
    Ensures (readyWith enqueue st a) (Works D N st) Anyway := by
  have hderef := deref_any st a
  cases hs : st.deref a with
  | error e =>
      unfold readyWith
      rw [hs]
      trivial
  | ok s =>
      have hlive := hderef.of_ok hs
      cases hops : s.ops with
      | localSocket =>
          rw [readyWith_local hlive hops]
          exact works_of_edits (v := id) (localSocketReady_edits st a)
      | localSocketNotify =>
          have hnotify : readyWith enqueue st a = localSocketReadyNotify st a := by
            simp only [readyWith, hs, bind, Except.bind, hops]
          rw [hnotify]
          exact works_of_edits (v := id) (localSocketReadyNotify_edits st a)
      | remoteSocket =>
          rw [readyWith_remote hlive hops]
          exact works_of_edits (v := id) (remoteSocketReady_edits hlive hops)
      | smartSocket =>
          rw [readyWith_smart hlive hops]
          exact Works.refl st
      | deviceTracker =>
          rw [readyWith_tracker hlive hops]
          exact deviceTrackerReady_works henqueue h hlive hops

theorem Started.not_settled {name : Bytes} {s2 : Nat} (h : Started False st name s2 mid) :
    ∀ q, mid.socks s2 = some q → ¬q.Settled := by
  obtain ⟨origin, fresh, x, -, -, -, -, hservice, -, hkind⟩ := h.started
  intro q hq
  rw [hservice.socks, Function.update_self, Option.some.injEq] at hq
  subst hq
  split at hkind
  · exact fun hs => by simp [hs.2] at hkind
  · exact ASocket.not_settled (by simp [hkind])

theorem bindService_works (henqueue : SendsLocally enqueue) (h : Client st a l q s)
    {name : Bytes} {s2 : Nat} (hstart : Started False st name s2 mid) :
    Ensures (bindService enqueue mid a l s2) (fun r => Works D N mid r.2) Anyway := by
  have hnot := hstart.not_settled
  obtain ⟨origin, fresh, x, hmoves, hgraph, hold, hwrites, hservice, hlist, hkind⟩ := hstart.started
  have hl : origin.socks l = some s := by rw [hold l (by simp [h.client]), h.client]
  have ha : origin.socks a = some q := by rw [hold a (by simp [h.smart]), h.smart]
  have hover := (handOver_ensures (B := False) hgraph hl h.back ha h.ops hservice).mono
    (W := Anyway) fun _ _ => trivial
  unfold bindService
  apply (hover.and (handOver_edits (D := D) (a := a) (l := l) hnot)).bind
  rintro handed ⟨hhanded, hedits⟩
  apply (readyWith_works (D := D) (N := N) henqueue hhanded.graph s2).bind
  intro after ha
  exact hedits.works.trans ha

-- The service is a tracker, which sends its first message before the call ends.
theorem bindService_engages (henqueue : SendsLocally enqueue) (h : Client st a l q s) {s2 : Nat}
    (hstart : Started False st (ascii "track-devices") s2 mid) :
    Ensures (bindService enqueue mid a l s2) (fun r => ∃ handed, Edits Nobody mid handed ∧
      Announces Nobody handed s2 r.2) Anyway := by
  have hnot := hstart.not_settled
  obtain ⟨origin, fresh, x, hmoves, hgraph, hold, hwrites, hservice, hlist, hkind⟩ := hstart.started
  rw [if_pos rfl] at hkind
  have hl : origin.socks l = some s := by rw [hold l (by simp [h.client]), h.client]
  have ha : origin.socks a = some q := by rw [hold a (by simp [h.smart]), h.smart]
  have hover := (handOver_ensures (B := False) hgraph hl h.back ha h.ops hservice).mono
    (W := Anyway) fun _ _ => trivial
  unfold bindService
  apply (hover.and (handOver_edits (D := Nobody) (a := a) (l := l) hnot)).bind
  rintro handed ⟨hhanded, hedits⟩
  have hs2 : handed.socks s2 = some { x with peer := some l } := by
    rw [hhanded.socks, Function.update_self]
  rw [readyWith_tracker hs2 hkind.1]
  apply (deviceTrackerReady_announces henqueue hhanded.graph hs2 hkind.1 hkind.2).bind
  intro after ha
  exact ⟨handed, hedits, ha⟩

-- The serial that a packet for a smart socket asks to disconnect.
def askedSerial (q : ASocket) (p : Bytes) : Option Bytes :=
  let data := q.pkts.headD [] ++ p
  if q.ops ≠ .smartSocket ∨ (q.pkts ≠ [] ∧ data.length > MAX_PAYLOAD) then
    none
  else
    match frame data with
    | .complete service =>
        match parseRequest service with
        | .host name _ _ =>
            match hostRequest name with
            | some (.disconnect serial) => some serial
            | _ => none
        | .device _ => none
    | _ => none

-- The smart socket has gathered the packet, its request not yet handled.
def gathered (st : Server) (a : Nat) (q : ASocket) (p : Bytes) : Server :=
  st.put a { q with pkts := [q.pkts.headD [] ++ p] }

-- A smart socket gathers what its client sends.
theorem Client.gathers (h : Client st a l q s) (pkts : List Bytes) : Kin st q { q with pkts } where
  link := by
    refine Or.inr (Or.inr ⟨ASocket.not_settled (by simp [h.ops]), fun x hx => ?_⟩)
    rw [h.peer, Option.bind_some, h.client, Option.some.injEq] at hx
    subst hx
    have hlocal := h.local
    exact ASocket.not_settled fun hops => by simp [hops, Ops.isLocal] at hlocal
  tracker := fun hops => ⟨hops, rfl⟩
  remote := fun hops => ⟨hops, rfl⟩
  bound := Or.inl rfl

-- The client of a smart socket gets a service of the host.
theorem hostService_works (henqueue : SendsLocally enqueue) (h : Client st a l q s) (service : Bytes) :
    Ensures (do
      match ← hostServiceToSocket st service with
      | (none, st) => do
          let st ← st.writeStatus l (.fail "unknown host service")
          smartFail st a
      | (some s2, st) => bindService enqueue st a l s2) (fun r => Works D N st r.2) Anyway := by
  have hservice := (hostServiceToSocket_ensures (B := False) h.graph service).mono
    (W := Anyway) fun _ _ => trivial
  by_cases hname : service = ascii "track-devices"
  · subst hname
    have hcreated : hostServiceToSocket st (ascii "track-devices") =
        .ok (some st.nextSocket, (createDeviceTracker st).2) := by
      unfold hostServiceToSocket
      rw [if_pos rfl]
      rfl
    have hstart := (hservice.of_ok hcreated).2
    apply (ensures_bind_ok hcreated).mpr
    apply (bindService_engages henqueue h hstart).weaken
    rintro r ⟨handed, hedits, hannounces⟩
    exact (Work.engage st handed r.2 hedits hannounces).works
  · apply (hservice.and (hostServiceToSocket_edits (D := D) st service hname)).bind
    rintro ⟨found, ready⟩ ⟨hfound, hready⟩
    cases found with
    | none =>
        apply (writeStatus_edits (D := D) ready l _).bind
        intro told htold
        apply works_after (v := Prod.snd) (Edits.works (hready.trans htold))
        exact works_of_edits (v := Prod.snd) (smartFail_edits told a)
    | some s2 =>
        apply works_after (v := Prod.snd) (Edits.works hready)
        exact bindService_works henqueue h hfound.2

theorem smartHostRequest_works (henqueue : SendsLocally enqueue) (h : Client st a l q s)
    (service : Bytes) (hD : ∀ serial, Asks (hostRequest service) serial → D st serial)
    (ttype : TransportType) (serial : Option Bytes) :
    Ensures (smartHostRequest enqueue st a service ttype serial) (fun r => Works D N st r.2)
      Anyway := by
  unfold smartHostRequest
  apply (ensures_bind_ok (Server.deref_some h.smart)).mpr
  rw [h.peer]
  have hhandled := (handleHostRequest_ensures (B := False) h (hostRequest service) ttype serial).mono
    (W := Anyway) fun _ _ => trivial
  apply (hhandled.and (handleHostRequest_edits h.smart h.ops (hostRequest service) hD ttype serial l)).bind
  rintro ⟨r, mid⟩ ⟨hr, hedits⟩
  obtain ⟨t, hsocks⟩ := hr.socks
  simp only at hsocks hedits ⊢
  have hclient : Client mid a l { q with transport := t } s :=
    ⟨hr.graph, by simp [hsocks], h.ops, h.peer, by simp [hsocks, h.ne.symm, h.client], h.back⟩
  apply works_after (v := Prod.snd) hedits.works
  split
  · exact works_of_edits (v := Prod.snd) (smartFail_edits mid a)
  · split
    · apply (ensures_bind_ok (Server.deref_some hclient.smart)).mpr
      have hkin : Kin mid { q with transport := t } { q with transport := t, pkts := [[]] } :=
        hclient.gathers [[]]
      exact (put_edits hclient.smart hkin).works
    · exact hostService_works henqueue hclient service

theorem smartSocketEnqueue_works (henqueue : SendsLocally enqueue) (h : Client st a l q s) (p : Bytes)
    (hD : ∀ serial, askedSerial q p = some serial → D (gathered st a q p) serial) :
    Ensures (smartSocketEnqueue enqueue st a p) (fun r => Works D N st r.2) Anyway := by
  unfold smartSocketEnqueue
  unfold askedSerial gathered at hD
  apply (ensures_bind_ok (Server.deref_some h.smart)).mpr
  obtain ⟨data, hdata⟩ : ∃ data, data = q.pkts.headD [] ++ p := ⟨_, rfl⟩
  simp only [← hdata] at hD ⊢
  by_cases hlong : q.pkts ≠ [] ∧ data.length > MAX_PAYLOAD
  · rw [if_pos hlong]
    exact works_of_edits (v := Prod.snd) (smartFail_edits st a)
  · rw [if_neg hlong]
    rw [if_neg (not_or.mpr ⟨fun hn => hn h.ops, hlong⟩)] at hD
    have hmoves := Moves.tend (B := False) h.graph h.smart
      (⟨rfl, rfl, rfl, id, fun _ hs => hs⟩ : Tended q { q with pkts := [data] }) (by simp [roleOf, h.ops])
      (fun hc => by simp)
    have hclient : Client (st.put a { q with pkts := [data] }) a l { q with pkts := [data] } s :=
      ⟨hmoves.graph h.graph, by simp [Server.put], h.ops, h.peer,
        by simp [Server.put, h.ne.symm, h.client], h.back⟩
    have hput : Edits D st (st.put a { q with pkts := [data] }) :=
      put_edits h.smart (h.gathers [data])
    apply works_after (v := Prod.snd) hput.works
    cases hframe : frame data with
    | incomplete => exact Works.refl _
    | badSize => exact works_of_edits (v := Prod.snd) (smartFail_edits _ a)
    | complete service =>
        rw [hframe] at hD
        simp only at hD ⊢
        cases hrequest : parseRequest service with
        | host name ttype serial =>
            rw [hrequest] at hD
            simp only at hD ⊢
            apply smartHostRequest_works henqueue hclient
            intro asked hasks
            apply hD asked
            rw [hasks]
        | device name =>
            simp only
            exact works_of_edits (v := Prod.snd) (smartForward_edits hclient name)

end Deliveries

section Callbacks

-- What a local socket passes to its peer does not come from a tracker.
theorem enqueue_works (h : Calls st b a s q) (p : Bytes)
    (hD : ∀ serial, askedSerial q p = some serial → D (gathered st a q p) serial) :
    Ensures (enqueue st a p) (fun r => Works D N st r.2) Anyway := by
  have hlocal : q.ops.isLocal = true → Ensures (enqueue st a p) (fun r => Works D N st r.2) Anyway := by
    intro hq
    rw [enqueue_local h.callee hq]
    apply (localSocketEnqueue_delivers h.graph h.callee p).weaken
    intro r hr
    refine (Work.pass st a q p r.2 h.callee (Or.inl fun x hx => ?_) hr).works
    rw [h.back, Option.bind_some, h.caller, Option.some.injEq] at hx
    subst hx
    have hcaller := h.islocal
    exact ASocket.not_settled fun hops => by simp [hops, Ops.isLocal] at hcaller
  cases hops : q.ops with
  | localSocket => exact hlocal (by rw [hops]; rfl)
  | localSocketNotify => exact hlocal (by rw [hops]; rfl)
  | remoteSocket =>
      rw [enqueue_remote h.callee hops]
      exact works_of_edits (v := Prod.snd) (remoteSocketEnqueue_edits h.callee hops p)
  | smartSocket =>
      rw [enqueue_smart h.callee hops]
      exact smartSocketEnqueue_works (enqueueWithin_local 0) (h.client hops) p hD
  | deviceTracker =>
      rw [enqueue_tracker h.callee hops]
      exact works_of_edits (v := Prod.snd) (deviceTrackerEnqueue_edits st a)

theorem closeAfter_edits (st : Server) (a : Nat) (goOn : Bool) :
    Ensures (do
      let st ← close st a
      return (goOn, st)) (fun r => Edits D st r.2) Anyway :=
  (close_edits st a).bind fun _ hm => hm

theorem eventWrite_works (h : Graph st) (hs : st.socks a = some s) (hlocal : s.ops.isLocal = true) :
    Ensures (eventWrite st a) (fun r => Works D N st r.2) Anyway := by
  unfold eventWrite
  apply (ensures_bind_ok (Server.deref_some hs)).mpr
  obtain ⟨result, hresult⟩ : ∃ result, result = drainQueue s.pkts st.script.writes := ⟨_, rfl⟩
  have hsplit : result.written ++ result.pkts.flatten = s.pkts.flatten :=
    hresult ▸ drainQueue_split s.pkts _
  simp only [← hresult]
  obtain ⟨script, hscript⟩ : ∃ script : Script, script = { st.script with writes := result.writes } :=
    ⟨_, rfl⟩
  rw [← hscript]
  have hdrain := Work.drain (D := D) (N := N) st a s script result.written result.pkts hs hsplit
  obtain ⟨mid, hmid⟩ : ∃ mid, mid = ({ st with script }.put a { s with pkts := result.pkts }).note
      (.wrote a result.written) := ⟨_, rfl⟩
  have hm : mid.socks a = some { s with pkts := result.pkts } := by
    rw [hmid]
    simp [Server.put, Server.note]
  rw [← hmid] at hdrain ⊢
  cases hout : result.outcome with
  | blocked => trivial
  | again => exact hdrain.works
  | failed =>
      exact works_after (v := Prod.snd) hdrain.works
        (works_of_edits (v := Prod.snd) (closeAfter_edits mid a false))
  | done =>
      simp only
      by_cases hclosing : s.closing = true
      · rw [if_pos hclosing]
        exact works_after (v := Prod.snd) hdrain.works
          (works_of_edits (v := Prod.snd) (closeAfter_edits mid a false))
      · rw [if_neg hclosing]
        have hempty : result.pkts = [] := by
          rw [hresult] at hout ⊢
          exact drainQueue_done _ _ hout
        cases hp : s.peer with
        | none => trivial
        | some p =>
            simp only
            obtain ⟨drained, hdrained⟩ : ∃ drained : ASocket, drained = { s with
              pkts := [], peer := some p, fde := fdeventDel s.fde FDE_WRITE } := ⟨_, rfl⟩
            rw [← hdrained]
            have hkin : Kin mid { s with pkts := result.pkts } drained := by
              rw [hdrained]
              exact .of_same hp.symm hempty.symm rfl rfl rfl
            have hput : Edits D mid (mid.put a drained) := put_edits hm hkin
            have hgraph : Graph (mid.put a drained) := by
              have hfirst : Graph ({ st with script }.note (.wrote a result.written)) :=
                h.congr rfl rfl rfl rfl (.of_eq rfl)
              have hsame : mid.put a drained =
                  ({ st with script }.note (.wrote a result.written)).put a drained := by
                rw [hmid]
                simp [Server.put, Server.note]
              rw [hsame]
              apply hfirst.put_local (s := s) hs hlocal
              · rw [hdrained]
              · rw [hdrained]
              · rw [hdrained, hp]
              · intro hc
                exact absurd hc hclosing
            apply works_after (v := Prod.snd) (hdrain.works.trans hput.works)
            exact (readyWith_works (enqueueWithin_local 1) hgraph p).bind fun _ hr => hr

theorem logRead_edits (st : Server) (a : Nat) : Edits D st (logRead st a) := by
  unfold logRead
  split
  · exact Edits.refl st
  · exact (Edit.note st _ (by simp) (by trivial)).edits

theorem eventRead_works (h : Graph st) (hlocal : ∀ s, st.socks a = some s → s.ops.isLocal = true)
    (hD : ∀ mid b p q serial, readCall st a = some (mid, b, p) → mid.socks b = some q →
      askedSerial q p = some serial → D (gathered mid b q p) serial) :
    Ensures (eventRead st a) (Works D N st) Anyway := by
  have hfinish : ∀ (st : Server) (eof : Prop) [Decidable eof], Ensures (do
      let _ ← st.deref a
      if eof then close st a else .ok st) (Edits D st) Anyway := by
    intro st eof _
    apply (deref_any st a).bind
    intro _ _
    split
    · exact close_edits st a
    · exact Edits.refl st
  have hderef := deref_any st a
  cases hd : st.deref a with
  | error e =>
      unfold eventRead
      rw [hd]
      trivial
  | ok s =>
      have hs := hderef.of_ok hd
      obtain ⟨result, hresult⟩ : ∃ result, result = readLoop MAX_PAYLOAD st.script.reads := ⟨_, rfl⟩
      obtain ⟨mid, hmid⟩ : ∃ mid : Server, mid = ({ st with script := { st.script with
        reads := result.reads } }.note (.read a s.peer result.bytes)) := ⟨_, rfl⟩
      have hfirst : Edits D st mid := by
        rw [hmid]
        exact (Edit.script st { st.script with reads := result.reads } st.nextFd).edits.trans
          (Edit.note _ _ (by simp) (by trivial)).edits
      unfold eventRead
      apply (ensures_bind_ok hd).mpr
      simp only [← hresult, ← hmid]
      split
      · trivial
      · rename_i hblocked
        cases hp : s.peer with
        | none => exact works_of_edits (v := id) (edits_after (v := id) hfirst (hfinish mid _))
        | some b =>
            simp only
            split
            · exact works_of_edits (v := id) (edits_after (v := id) hfirst (hfinish mid _))
            · rename_i hbytes
              have hcall : readCall st a = some (mid, b, result.bytes) := by
                unfold readCall
                simp only [hs, ← hresult, if_neg (not_or.mpr ⟨hblocked, hbytes⟩), hp, Option.map_some, hmid]
              obtain ⟨s', q, hcalls⟩ := readCall_calls h hlocal hcall
              apply works_after (v := id) hfirst.works
              have hasked := hD mid b result.bytes q
              apply (enqueue_works (D := D) (N := N) hcalls result.bytes
                fun serial hserial => hasked serial hcall hcalls.callee hserial).bind
              rintro ⟨r, after⟩ hr
              have hlog := hr.trans (logRead_edits (D := D) after a).works
              simp only
              split
              · exact hlog
              · split
                · apply (deref_any _ a).bind
                  intro x hx
                  have hput : Edits D (logRead after a)
                      ((logRead after a).put a { x with fde := fdeventDel x.fde FDE_READ }) :=
                    put_edits hx (.of_same rfl rfl rfl rfl rfl)
                  apply works_after (v := id) (hlog.trans hput.works)
                  exact works_of_edits (v := id) (hfinish _ _)
                · apply works_after (v := id) hlog
                  exact works_of_edits (v := id) (hfinish _ _)

theorem localSocketEventFunc_works (h : Graph st) (hs : st.socks a = some s)
    (hlocal : s.ops.isLocal = true) (hquiet : s.fde.events = 0) (events : BitVec 16)
    (hD : ∀ mid b p q serial, eventCall st a events = some (mid, b, p) → mid.socks b = some q →
      askedSerial q p = some serial → D (gathered mid b q p) serial) :
    Ensures (localSocketEventFunc st a events) (Works D N st) Anyway := by
  have hwrite : Ensures (if firesWrite events then eventWrite st a else pure (true, st)) (fun r =>
      Works D N st r.2 ∧ Graph r.2 ∧ (r.1 = true → ∀ s, r.2.socks a = some s → s.ops.isLocal = true))
      Anyway := by
    split
    · have hwants : False → s.closing = false → s.fde.wantsRead = true := fun hf => hf.elim
      have hdone := (eventWrite_ensures (B := False) h hs hlocal hquiet hwants).mono (W := Anyway) fun _ _ => trivial
      apply (hdone.and (eventWrite_works (D := D) (N := N) h hs hlocal)).weaken
      rintro r ⟨hr, hworks⟩
      exact ⟨hworks, hr.graph, hr.islocal⟩
    · refine ⟨Works.refl st, h, fun _ x hx => ?_⟩
      rw [hs, Option.some.injEq] at hx
      exact hx ▸ hlocal
  unfold localSocketEventFunc
  cases hr : (if firesWrite events then eventWrite st a else pure (true, st)) with
  | error e => trivial
  | ok r =>
      obtain ⟨goOn, mid⟩ := r
      obtain ⟨hworks, hgraph, hmid⟩ := hwrite.of_ok hr
      apply (ensures_bind_ok rfl).mpr
      simp only at hworks hgraph hmid ⊢
      split
      · rename_i hgo
        apply works_after (v := id) hworks
        apply eventRead_works hgraph (hmid hgo.1)
        intro x b p q serial hread
        apply hD x b p q serial
        unfold eventCall
        rw [hr, hgo.1]
        simp only
        rw [if_pos hgo.2]
        exact hread
      · exact hworks

end Callbacks

section Streams

theorem attachRemote_edits (hs : st.socks a = some s) (hops : s.ops ≠ .deviceTracker) (arg0 : UInt32)
    (hup : Online st t) : Ensures (attachRemote st a arg0 t) (Edits D st) Anyway := by
  unfold attachRemote
  apply (createRemoteSocket_edits (D := D) arg0 hup).bind
  rintro ⟨r, mid⟩ ⟨hr, hremote, hothers, hedits⟩
  simp only at hr hremote hothers hedits ⊢
  subst hr
  apply edits_after (v := id) hedits
  apply (deref_any mid a).bind
  intro x hx
  have hnot : ¬x.Settled := by
    by_cases ha : a = st.nextSocket
    · rw [ha, hremote, Option.some.injEq] at hx
      rw [← hx]
      exact ASocket.not_settled (by simp [newSocket])
    · rw [hothers a ha, hs, Option.some.injEq] at hx
      exact ASocket.not_settled (hx ▸ hops)
  obtain ⟨tied, htied⟩ : ∃ tied, tied = mid.put a { x with peer := some st.nextSocket } := ⟨_, rfl⟩
  have hput : Edits D mid tied := by
    rw [htied]
    apply put_edits hx
    refine ⟨Or.inr (Or.inr ⟨hnot, fun q hq => ?_⟩), fun h => ⟨h, rfl⟩, fun h => ⟨h, rfl⟩, Or.inl rfl⟩
    have hq' : mid.socks st.nextSocket = some q := hq
    rw [hremote, Option.some.injEq] at hq'
    rw [← hq']
    exact ASocket.not_settled (by simp [newSocket])
  have hta : tied.socks a = some { x with peer := some st.nextSocket } := by
    rw [htied]
    simp [Server.put]
  rw [← htied]
  apply edits_after (v := id) hput
  apply (deref_any tied st.nextSocket).bind
  intro remote hremote'
  have hremoteNot : ¬remote.Settled := by
    by_cases ha : st.nextSocket = a
    · rw [ha, hta, Option.some.injEq] at hremote'
      rw [← hremote']
      exact hnot
    · rw [htied] at hremote'
      simp only [Server.put, Function.update_of_ne ha] at hremote'
      rw [hremote, Option.some.injEq] at hremote'
      rw [← hremote']
      exact ASocket.not_settled (by simp [newSocket])
  have hback : Edits D tied (tied.put st.nextSocket { remote with peer := some a }) := by
    apply put_edits hremote'
    refine ⟨Or.inr (Or.inr ⟨hremoteNot, fun q hq => ?_⟩), fun h => ⟨h, rfl⟩, fun h => ⟨h, rfl⟩, Or.inl rfl⟩
    rw [Option.bind_some, hta, Option.some.injEq] at hq
    rw [← hq]
    exact hnot
  exact hback.trans (Edit.note _ _ (by simp) (by trivial)).edits

theorem ready_edits (hs : st.socks a = some s) (hlocal : s.ops.isLocal = true) :
    Ensures (ready st a) (Edits D st) Anyway := by
  cases hops : s.ops with
  | localSocket =>
      rw [ready_local hs hops]
      exact localSocketReady_edits st a
  | localSocketNotify =>
      rw [ready_notify hs hops]
      exact localSocketReadyNotify_edits st a
  | _ => simp [hops, Ops.isLocal] at hlocal

theorem not_tracker_of_local (hlocal : s.ops.isLocal = true) : s.ops ≠ .deviceTracker := by
  intro hops
  simp [hops, Ops.isLocal] at hlocal

variable {packet : Packet}

theorem handleOkay_edits (h : Graph st) (hup : Online st t) (packet : Packet) :
    Ensures (handleOkay st t packet) (Edits D st) Anyway := by
  unfold handleOkay
  apply ((findLocalSocket_ensures h packet.arg1).mono (W := Anyway) fun _ _ => trivial).bind
  intro found hfound
  cases found with
  | none => exact Edits.refl st
  | some a =>
      obtain ⟨s, hf⟩ := hfound a rfl
      apply (ensures_bind_ok (Server.deref_some hf.live)).mpr
      cases hp : s.peer with
      | none =>
          have hattached := (attachRemote_ensures h.base hf.live hf.islocal packet.arg0 t).mono
            (W := Anyway) fun _ _ => trivial
          apply (hattached.and (attachRemote_edits (D := D) hf.live (not_tracker_of_local hf.islocal)
            packet.arg0 hup)).bind
          rintro mid ⟨ha, hedits⟩
          have hnote : Edits D st (mid.note (.okayed a)) :=
            hedits.trans (Edit.note _ _ (by simp) (by trivial)).edits
          apply edits_after (v := id) hnote
          apply ready_edits (s := { s with peer := some st.nextSocket }) _ hf.islocal
          simp [Server.note, ha.becomes.socks]
      | some r =>
          have hnote : Edits D st (st.note (.okayed a)) := (Edit.note _ _ (by simp) (by trivial)).edits
          have hnoted : (st.note (.okayed a)).socks a = some s := hf.live
          exact edits_after (v := id) hnote
            (ready_edits hnoted hf.islocal)

theorem handleClose_edits (st : Server) (packet : Packet) :
    Ensures (handleClose st packet) (Edits D st) Anyway := by
  unfold handleClose
  refine Ensures.bind (m := fun _ => True) ?_ fun found _ => ?_
  · cases findLocalSocket st packet.arg1 <;> trivial
  · cases found with
    | none => exact Edits.refl st
    | some a => exact close_edits st a

-- The packet brings bytes for this socket.
def Brings (st : Server) (packet : Packet) (a : Nat) : Prop :=
  packet.command = A_WRTE ∧ findLocalSocket st packet.arg1 = .ok (some a)

-- No tracker that is at work has this socket as its client.
def Untracked (st : Server) (a : Nat) : Prop :=
  ∀ s q, st.socks a = some s → s.peer.bind st.socks = some q → ¬q.Settled

theorem handleWrite_works (h : Graph st) (hup : Online st t) (hcommand : packet.command = A_WRTE)
    (hN : ∀ a, Brings st packet a → Untracked st a ∨ N) :
    Ensures (handleWrite st t packet) (Works D N st) Anyway := by
  unfold handleWrite
  have hfind := (findLocalSocket_ensures h packet.arg1).mono (W := Anyway) fun _ _ => trivial
  cases hlook : findLocalSocket st packet.arg1 with
  | error e => trivial
  | ok found =>
      cases found with
      | none => exact Works.refl st
      | some a =>
          obtain ⟨s, hf⟩ := hfind.of_ok hlook a rfl
          show Ensures (enqueue st a packet.payload >>= _) _ _
          rw [enqueue_local hf.live hf.islocal]
          apply (localSocketEnqueue_delivers h hf.live packet.payload).bind
          rintro ⟨r, mid⟩ hr
          have hpass := Work.pass (D := D) (N := N) st a s packet.payload mid hf.live
            ((hN a ⟨hcommand, hlook⟩).imp_left fun hclear q => hclear s q hf.live) hr
          simp only
          split
          · apply (deref_any mid a).bind
            intro s' _
            have hmid : Online mid t := hup.of_plain (hr.sameListing.plain t)
            refine works_after (v := id) hpass.works (works_of_edits (v := id) ?_)
            exact sendPacket_edits _ _ _ fun u hu => Or.inr (Or.inr (.online (Option.some.inj hu ▸ hmid)))
          · exact hpass.works

theorem createLocalServiceSocket_edits (st : Server) (name : Bytes) :
    Ensures (createLocalServiceSocket st name) (fun r => Edits D st r.2) Anyway := by
  have hservice : Ensures (serviceToFd st name) (fun r => Edits D st r.2) Anyway := by
    unfold serviceToFd
    split
    · exact openFd_edits st
    · exact Edits.refl st
  unfold createLocalServiceSocket
  apply hservice.bind
  rintro ⟨fd, mid⟩ hm
  cases fd with
  | none => exact hm
  | some fd =>
      apply (createLocalSocket_edits (D := D) mid (some fd)).bind
      rintro ⟨a, after⟩ ha
      exact hm.trans ha

theorem handleOpen_edits (h : Graph st) (hup : Online st t) (packet : Packet) :
    Ensures (handleOpen st t packet) (Edits D st) Anyway := by
  unfold handleOpen
  simp only
  have hborn := (createLocalServiceSocket_ensures h (packet.payload.dropLast.takeWhile (· ≠ 0))).mono
    (W := Anyway) fun _ _ => trivial
  apply (hborn.and (createLocalServiceSocket_edits (D := D) st _)).bind
  rintro ⟨found, born⟩ ⟨hfound, hedits⟩
  have hborn : Online born t := hup.of_plain (hedits.plain t)
  cases found with
  | none =>
      apply edits_after (v := id) hedits
      exact sendPacket_edits _ _ _ fun u hu => Or.inr (Or.inr (.online (Option.some.inj hu ▸ hborn)))
  | some a =>
      obtain ⟨mid, s, -, rfl, hn⟩ := hfound
      simp only at hn hedits ⊢
      have hs : born.socks mid.nextSocket = some s := by rw [hn.becomes.socks]; simp
      have hlocal : s.ops.isLocal = true := by rw [hn.ops]; rfl
      apply edits_after (v := id) hedits
      have hattached := (attachRemote_ensures hn.graph.base hs hlocal packet.arg0 t).mono
        (W := Anyway) fun _ _ => trivial
      apply (hattached.and (attachRemote_edits (D := D) hs (not_tracker_of_local hlocal)
        packet.arg0 hborn)).bind
      rintro attached ⟨ha, hattach⟩
      have hsa : attached.socks mid.nextSocket = some { s with peer := some born.nextSocket } := by
        rw [ha.becomes.socks, Function.update_self]
      apply (ensures_bind_ok (Server.deref_some hsa)).mpr
      unfold sendReady
      apply ((sendPacket_ensures _ _ _ _).mono (W := Anyway) fun _ _ => trivial).bind
      rintro _ ⟨t', ht', rfl⟩
      have hopened : Edits D born (attached.note (.opened mid.nextSocket)) :=
        hattach.trans (Edit.note _ _ (by simp) (by trivial)).edits
      have hstays : Online (attached.note (.opened mid.nextSocket)) t' := by
        rw [← Option.some.inj ht']
        exact hborn.of_plain (hopened.plain t)
      have haddressed : Addressed (attached.note (.opened mid.nextSocket))
          (.sent t' ⟨A_OKAY, s.id, packet.arg0, []⟩ none) := Or.inr (Or.inr (.online hstays))
      have hnotes : Edits D born ((attached.note (.opened mid.nextSocket)).note
          (.sent t' ⟨A_OKAY, s.id, packet.arg0, []⟩ none)) :=
        hopened.trans (Edit.note _ _ (by simp) haddressed).edits
      apply edits_after (v := id) hnotes
      exact ready_edits (s := { s with peer := some born.nextSocket }) hsa hlocal

theorem connectToSmartsocket_edits (hs : st.socks a = some s) (hlocal : s.ops.isLocal = true)
    (hfresh : a ≠ st.nextSocket) :
    Ensures (connectToSmartsocket st a) (Edits D st) Anyway := by
  obtain ⟨ss, hss⟩ : ∃ ss, ss = st.nextSocket := ⟨_, rfl⟩
  have halloc : Edits D st (allocSocket st (newSocket .smartSocket)).2 :=
    alloc_edits (by simp [newSocket]) (by simp [newSocket]) rfl rfl
  unfold connectToSmartsocket
  obtain ⟨mid, hmid⟩ : ∃ mid, mid = (allocSocket st (newSocket .smartSocket)).2 := ⟨_, rfl⟩
  have hpair : allocSocket st (newSocket .smartSocket) = (ss, mid) := by rw [hss, hmid]; rfl
  simp only [hpair]
  rw [← hmid] at halloc
  have hma : mid.socks a = some s := by
    rw [hmid]
    simp [allocSocket, Server.put, hfresh, hs]
  have hmss : mid.socks ss = some (newSocket .smartSocket) := by
    rw [hmid, hss]
    simp [allocSocket, Server.put]
  have hne : ss ≠ a := by rw [hss]; exact hfresh.symm
  apply edits_after (v := id) halloc
  apply (ensures_bind_ok (Server.deref_some hma)).mpr
  have hput : Edits D mid (mid.put a { s with peer := some ss }) := by
    apply put_edits hma
    refine Kin.of_local hlocal (Or.inr (Or.inr fun q hq => ?_)) (Or.inl rfl)
    rw [Option.bind_some, hmss, Option.some.injEq] at hq
    rw [← hq]
    exact ASocket.not_settled (by simp [newSocket])
  apply edits_after (v := id) hput
  have hsmart : (mid.put a { s with peer := some ss }).socks ss = some (newSocket .smartSocket) := by
    simp [Server.put, hne, hmss]
  apply (ensures_bind_ok (Server.deref_some hsmart)).mpr
  have hback : Edits D (mid.put a { s with peer := some ss }) ((mid.put a { s with peer := some ss }).put
      ss { newSocket .smartSocket with peer := some a }) := by
    apply put_edits hsmart
    refine ⟨Or.inr (Or.inr ⟨ASocket.not_settled (by simp [newSocket]), fun q hq => ?_⟩), ?_, ?_, Or.inl rfl⟩
    · simp only [Option.bind_some, Server.put, Function.update_self, Option.some.injEq] at hq
      rw [← hq]
      exact ASocket.not_settled (not_tracker_of_local (s := { s with peer := some ss }) hlocal)
    · exact fun hops => by simp [newSocket] at hops
    · exact fun hops => by simp [newSocket] at hops
  apply edits_after (v := id) hback
  apply ready_edits (s := { s with peer := some ss }) _ hlocal
  simp [Server.put, hne.symm]

theorem connectToRemote_live (hs : st.socks a = some s) (hreached : ∀ t, s.transport = some t → Reached st t)
    (destination : Bytes) :
    Ensures (connectToRemote st a destination)
      (fun after => (∀ t, s.transport = some t → st.transports t ≠ none) ∧ Edits D st after) Anyway := by
  apply Ensures.and ?_ (connectToRemote_edits hs hreached destination)
  unfold connectToRemote
  apply (ensures_bind_ok (Server.deref_some hs)).mpr
  split
  · trivial
  · cases s.transport with
    | none => trivial
    | some t =>
        apply (derefTransport_any st t).bind
        intro transport ht u hu
        rw [← Option.some.inj hu, ht]
        simp

theorem createLocalSocket_listeners (h : Graph st) (fd : Nat) :
    Ensures (createLocalSocket st (some fd)) (fun r => r.2.listeners = st.listeners) Anyway := by
  obtain ⟨xs, ys, hl⟩ := h.lists
  obtain ⟨links, heq, -⟩ := createLocalSocket_eq hl h.base fd
  rw [heq]
  rfl

theorem acceptClient_edits (h : Graph st) (l : Nat) :
    Ensures (acceptClient st l) (Edits D st) Anyway := by
  unfold acceptClient
  apply (derefListener_any st l).bind
  intro listener hlistener
  obtain ⟨opened, hopened⟩ : ∃ opened : Server, opened = { st with nextFd := st.nextFd + 1 } := ⟨_, rfl⟩
  have hfirst : Edits D st opened := by
    rw [hopened]
    exact (Edit.script st st.script (st.nextFd + 1)).edits
  have hgraph : Graph opened := by
    rw [hopened]
    exact h.congr rfl rfl rfl rfl (.of_eq rfl)
  simp only [← hopened]
  have hborn := (createLocalSocket_ensures hgraph (some st.nextFd)).mono (W := Anyway)
    fun _ _ => trivial
  have hkept := createLocalSocket_listeners hgraph st.nextFd
  apply ((hborn.and (createLocalSocket_edits (D := D) opened (some st.nextFd))).and hkept).bind
  rintro ⟨a, mid⟩ ⟨⟨⟨rfl, s, hn⟩, hedits⟩, hlisteners⟩
  simp only at hn hedits hlisteners ⊢
  have hs : mid.socks opened.nextSocket = some s := by rw [hn.becomes.socks]; simp
  have hlocal : s.ops.isLocal = true := by rw [hn.ops]; rfl
  apply edits_after (v := id) (hfirst.trans hedits)
  split
  · apply connectToSmartsocket_edits hs hlocal
    have hnext := hn.becomes.nextSocket
    omega
  · apply (ensures_bind_ok (Server.deref_some hs)).mpr
    obtain ⟨bound, hbound⟩ : ∃ bound : Server,
      bound = mid.put opened.nextSocket { s with transport := listener.transport } := ⟨_, rfl⟩
    rw [← hbound]
    have hb : bound.socks opened.nextSocket = some { s with transport := listener.transport } := by
      rw [hbound]
      simp [Server.put]
    have hfound : mid.listeners l = some listener := by
      rw [hlisteners, hopened]
      exact hlistener
    have hreached : ∀ t, listener.transport = some t → Reached bound t := by
      intro t ht
      rw [hbound]
      exact .listener l listener hfound ht
    -- what is sent goes to a transport that is there
    apply (connectToRemote_live (D := D) hb hreached listener.connectTo).weaken
    rintro after ⟨hlive, hsent⟩
    have hput : Edits D mid bound := by
      rw [hbound]
      apply put_edits hs
      refine .of_local hlocal (Or.inl ⟨rfl, rfl⟩) (Or.inr fun t ht => ?_)
      rw [hbound] at hlive
      exact ⟨hlive t ht, .listener l listener hfound ht⟩
    exact hput.trans hsent

end Streams

section Trackers

theorem updateFrom_works (h : Graph st) {buffer : Bytes} (hlisted : listTransportsMsg st = .ok buffer)
    (fuel : Nat) (tracker : Option Nat) :
    Ensures (updateFrom buffer fuel tracker st) (Works D N st) Anyway := by
  induction fuel generalizing st tracker with
  | zero =>
      cases tracker with
      | none => exact Works.refl st
      | some d => trivial
  | succ fuel ih =>
      cases tracker with
      | none => exact Works.refl st
      | some d =>
          unfold updateFrom
          cases hdrop : st.deviceTrackerList.dropWhile (· ≠ d) with
          | nil => trivial
          | cons head rest =>
              obtain ⟨-, hd⟩ := dropWhile_here hdrop
              obtain ⟨s, hs, hops⟩ := h.tracker_mem hd
              have hgraph := (deviceTrackerSend_ensures (B := False) (enqueueWithin_local 1) h hs hops
                buffer).mono (W := Anyway) fun _ _ => trivial
              apply (hgraph.and (deviceTrackerSend_delivers (enqueueWithin_local 1) h hs hops buffer)).bind
              rintro ⟨r, mid⟩ ⟨⟨p, peer, -, -, hr⟩, l, hl, hdelivers⟩
              have hsame := hdelivers.sameListing.listTransportsMsg
              have hpublish := Work.publish (D := D) (N := N) st d l s buffer mid hs hops hl hlisted
                hdelivers
              apply works_after (v := id) hpublish.works
              exact ih hr.graph (hsame.trans hlisted) rest.head?

theorem updateTransports_works (h : Graph st) :
    Ensures (updateTransports st) (Works D N st) Anyway := by
  unfold updateTransports
  cases hlisted : listTransportsMsg st with
  | error e => trivial
  | ok buffer => exact updateFrom_works h hlisted _ _

end Trackers

section Steps

-- The server and the serial when the callback comes to disconnect a device.
def disconnects (st : Server) : Input → Option (Server × Bytes)
  | .callback a => (callbackCall st a).bind fun (mid, b, p) =>
      (mid.socks b).bind fun q => (askedSerial q p).map fun serial => (gathered mid b q p, serial)
  | _ => none

-- The socket that the packet of this input brings bytes for.
def Input.Brings (st : Server) (input : Input) (a : Nat) : Prop :=
  match input with
  | .packet _ p => Adb.Host.Brings st p a
  | _ => False

-- The inputs that change no transport: all but the packets of the handshake and
-- the registration messages.
def Input.Ordinary : Input → Prop
  | .packet _ p => (p.command = A_SYNC → p.arg0 ≠ 0) ∧ p.command ≠ A_CNXN
  | .register _ _ _ _ _ | .remove _ => False
  | _ => True

theorem handlePacket_works (h : Graph st) (t : Nat) (packet : Packet)
    (hsync : packet.command = A_SYNC → packet.arg0 ≠ 0) (hconnect : packet.command ≠ A_CNXN)
    (hN : ∀ a, Brings st packet a → Untracked st a ∨ N) :
    Ensures (handlePacket st t packet) (Works D N st) Anyway := by
  unfold handlePacket
  apply (derefTransport_any st t).bind
  intro transport htransport
  by_cases hsynccommand : packet.command = A_SYNC
  · rw [if_pos hsynccommand]
    unfold handleSync
    simp only
    rw [if_pos (hsync hsynccommand)]
    apply works_of_edits (v := id)
    apply edits_bind (sendPacket_edits _ _ _ fun _ _ => Or.inl rfl)
    intro mid _
    exact sendPacket_edits _ _ _ fun _ _ => Or.inr (Or.inl rfl)
  rw [if_neg hsynccommand, if_neg hconnect]
  by_cases honline : transport.online = true
  · have hup : Online st t := ⟨transport, htransport, honline⟩
    rw [if_neg (not_not.mpr honline)]
    by_cases hopen : packet.command = A_OPEN
    · rw [if_pos hopen]
      exact works_of_edits (v := id) (handleOpen_edits h hup packet)
    rw [if_neg hopen]
    by_cases hokay : packet.command = A_OKAY
    · rw [if_pos hokay]
      exact works_of_edits (v := id) (handleOkay_edits h hup packet)
    rw [if_neg hokay]
    by_cases hclse : packet.command = A_CLSE
    · rw [if_pos hclse]
      exact works_of_edits (v := id) (handleClose_edits st packet)
    rw [if_neg hclse]
    by_cases hwrte : packet.command = A_WRTE
    · rw [if_pos hwrte]
      exact handleWrite_works h hup hwrte hN
    · rw [if_neg hwrte]
      exact Works.refl st
  · rw [if_pos honline]
    exact Works.refl st

theorem fdeventDequeue_quiet {fde fde' : Fdevent} {events : BitVec 16}
    (h : fdeventDequeue fde = some (events, fde')) : fde'.events = 0 := by
  unfold fdeventDequeue at h
  split at h
  · cases h
    rfl
  · cases h

theorem putFde_edits (hs : st.socks a = some s) (fde : Fdevent) : Edits D st (st.put a { s with fde }) :=
  put_edits hs (.of_same rfl rfl rfl rfl rfl)

-- What an ordinary input makes the server do.
theorem handle_works (h : Graph st) (input : Input) (hordinary : input.Ordinary)
    (hD : ∀ x serial, disconnects st input = some (x, serial) → D x serial)
    (hN : ∀ a, input.Brings st a → Untracked st a ∨ N) : Ensures (handle st input) (Works D N st) Anyway := by
  cases input with
  | packet t packet =>
      simp only [handle]
      split
      · exact handlePacket_works h t packet hordinary.1 hordinary.2 hN
      · trivial
  | accept l =>
      simp only [handle]
      split
      · exact works_of_edits (v := id) (acceptClient_edits h l)
      · trivial
  | signal a =>
      simp only [handle]
      cases howner : fdeventOwner st a with
      | none => trivial
      | some s =>
          obtain ⟨hs, -⟩ := fdeventOwner_eq_some howner
          simp only
          cases eventHookSignal s.fde with
          | none => trivial
          | some fde => exact (putFde_edits hs fde).works
  | callback a =>
      simp only [handle]
      cases howner : fdeventOwner st a with
      | none => trivial
      | some s =>
          obtain ⟨hs, hlocal⟩ := fdeventOwner_eq_some howner
          simp only
          cases hdequeue : fdeventDequeue s.fde with
          | none => trivial
          | some taken =>
              obtain ⟨events, fde⟩ := taken
              have hquiet := fdeventDequeue_quiet hdequeue
              have hgraph : Graph (st.put a { s with fde }) :=
                h.put_local hs hlocal rfl rfl rfl fun hc => (h.peers.parked a s hs hc).2.2
              apply works_after (v := id) (putFde_edits hs fde).works
              apply localSocketEventFunc_works hgraph (s := { s with fde }) (by simp [Server.put]) hlocal
                hquiet events
              intro mid b p q serial hcall hq hasked
              apply hD
              simp only [disconnects, callbackCall, howner, Option.bind_some, hdequeue, hcall, hq, hasked,
                Option.map_some]
  | register type adbPort serial devpath writeable => exact hordinary.elim
  | remove t => exact hordinary.elim
  | closeAll t =>
      simp only [handle]
      split
      · exact works_of_edits (v := id) (closeAllSockets_edits st t)
      · trivial

end Steps

end Adb.Host
