import Adb.Host.Reassembly
import Adb.Host.SocketGraph

namespace Adb.Host

open Adb.Lib
open Adb.Transport (TransportType)

-- A request that leaves the smart socket there for another one.
def isTransport (service : Bytes) : Bool :=
  match parseRequest service with
  | .host service _ _ => (afterPrefix "transport" service).isSome
  | .device _ => false

-- A service, and what the packet has behind its request.
structure Dispatched where
  service : Bytes
  behind : Bytes
deriving DecidableEq

def behindRequest (data : Bytes) : Bytes :=
  data.drop ((unhex (data.take 4)).getD 0 + 4)

-- The services a smart socket dispatches, packet by packet. After a transport
-- request the length of the packet is set to 0.
def services (pkts : List Bytes) : List Bytes → List Dispatched
  | [] => []
  | p :: packets =>
      match receive pkts p with
      | .overflow | .rejects => []
      | .waits => services [pkts.headD [] ++ p] packets
      | .serves service =>
          ⟨service, behindRequest (pkts.headD [] ++ p)⟩ ::
            if isTransport service then services [[]] packets else []

section Streams

variable {r rest data : Bytes} {pkts packets group more requests : List Bytes}

theorem WellFramed.frame_extended (h : WellFramed r) (hp : r <+: data) :
    Host.frame data = .complete (requestBody r) := by
  obtain ⟨n, hn, hlow, hhigh, hlen⟩ := h.digits
  obtain ⟨rest, rfl⟩ := hp
  have htake : (r ++ rest).take 4 = r.take 4 := List.take_append_of_le_length (by omega)
  have hbody : ((r ++ rest).drop 4).take n = r.drop 4 := by
    rw [List.drop_append_of_le_length (by omega), List.take_append_of_le_length (by simp; omega)]
    exact List.take_of_length_le (by simp; omega)
  unfold Host.frame
  rw [if_neg (by rw [List.length_append]; omega), htake, hn]
  simp only [hbody, requestBody]
  rw [if_neg (by omega), if_neg (by rw [List.length_append]; omega)]

theorem WellFramed.behind (h : WellFramed r) (hp : r <+: data) :
    behindRequest data = data.drop r.length := by
  obtain ⟨n, hn, -, -, hlen⟩ := h.digits
  obtain ⟨rest, rfl⟩ := hp
  have htake : (r ++ rest).take 4 = r.take 4 := List.take_append_of_le_length (by omega)
  rw [behindRequest, htake, hn, hlen]
  rfl

theorem WellFramed.pos (h : WellFramed r) : 0 < r.length := by
  obtain ⟨n, -, -, -, hlen⟩ := h.digits
  omega

-- As long as a request is not complete, its bytes are put together.
theorem WellFramed.receive_waits {p : Bytes} (h : WellFramed r) (hp : pkts.headD [] ++ p <+: r)
    (hlt : (pkts.headD [] ++ p).length < r.length) : receive pkts p = .waits := by
  have hshort := h.short
  unfold receive
  rw [if_neg, h.frame_begins hp hlt]
  · rfl
  · simp only [MAX_PAYLOAD]
    omega

theorem WellFramed.receive_serves {p : Bytes} (h : WellFramed r) (hp : r <+: pkts.headD [] ++ p)
    (hfits : ¬(pkts ≠ [] ∧ (pkts.headD [] ++ p).length > MAX_PAYLOAD)) :
    receive pkts p = .serves (requestBody r) := by
  unfold receive
  rw [if_neg hfits, h.frame_extended hp]
  rfl

-- Packets that end with the request: it is dispatched, and nothing is behind it.
theorem services_group (h : WellFramed r) (hne : ∀ p ∈ group, p ≠ [])
    (hall : pkts.headD [] ++ group.flatten = r) (hlt : (pkts.headD []).length < r.length) :
    services pkts (group ++ more) =
      ⟨requestBody r, []⟩ :: if isTransport (requestBody r) then services [[]] more else [] := by
  induction group generalizing pkts with
  | nil =>
      rw [← hall] at hlt
      simp at hlt
  | cons p group ih =>
      have hsplit : (pkts.headD [] ++ p) ++ group.flatten = r := by rw [← hall]; simp
      have hlen := congrArg List.length hsplit
      rw [List.length_append] at hlen
      rw [List.cons_append, services]
      by_cases hmore : (pkts.headD [] ++ p).length < r.length
      · rw [h.receive_waits ⟨group.flatten, hsplit⟩ hmore]
        exact @ih [pkts.headD [] ++ p] (fun q hq => hne q (List.mem_cons_of_mem _ hq)) hsplit hmore
      · -- the packet completes the request, so it is the last one
        have hnil : group.flatten = [] := List.eq_nil_of_length_eq_zero (by omega)
        have hdata : pkts.headD [] ++ p = r := by rw [← hsplit, hnil, List.append_nil]
        have hgroup : group = [] := by
          cases group with
          | nil => rfl
          | cons q group =>
              rw [List.flatten_cons] at hnil
              exact absurd (List.append_eq_nil_iff.mp hnil).1 (hne q (by simp))
        have hshort := h.short
        have hfits : ¬(pkts ≠ [] ∧ (pkts.headD [] ++ p).length > MAX_PAYLOAD) := by
          rw [hdata]
          simp only [MAX_PAYLOAD]
          omega
        have hbehind : behindRequest (pkts.headD [] ++ p) = [] := by
          rw [h.behind (hdata ▸ List.prefix_refl r), hdata, List.drop_length]
        rw [h.receive_serves (hdata ▸ List.prefix_refl r) hfits, hbehind, hgroup, List.nil_append]

-- The packet with the last byte of the first request either does not fit, or has
-- that request dispatched.
theorem services_first (h : WellFramed r) (hall : pkts.headD [] ++ packets.flatten = r ++ rest)
    (hlt : (pkts.headD []).length < r.length) :
    ∃ held p more, packets = held ++ p :: more ∧ r <+: pkts.headD [] ++ held.flatten ++ p ∧
      (services pkts packets = [] ∨
        services pkts packets = ⟨requestBody r, (pkts.headD [] ++ held.flatten ++ p).drop r.length⟩ ::
          if isTransport (requestBody r) then services [[]] more else []) := by
  induction packets generalizing pkts with
  | nil =>
      have hlen := congrArg List.length hall
      simp only [List.flatten_nil, List.append_nil, List.length_append] at hlen
      omega
  | cons p packets ih =>
      have hsplit : (pkts.headD [] ++ p) ++ packets.flatten = r ++ rest := by rw [← hall]; simp
      by_cases hmore : (pkts.headD [] ++ p).length < r.length
      · have hpre : pkts.headD [] ++ p <+: r :=
          List.prefix_of_prefix_length_le ⟨packets.flatten, hsplit⟩ ⟨rest, rfl⟩ (by omega)
        obtain ⟨held, q, more, rfl, hprefix, hservices⟩ := @ih [pkts.headD [] ++ p] hsplit hmore
        refine ⟨p :: held, q, more, rfl, by simpa using hprefix, ?_⟩
        rw [services, h.receive_waits hpre hmore]
        simpa using hservices
      · have hpre : r <+: pkts.headD [] ++ p :=
          List.prefix_of_prefix_length_le ⟨rest, rfl⟩ ⟨packets.flatten, hsplit⟩ (by omega)
        refine ⟨[], p, packets, rfl, by simpa using hpre, ?_⟩
        rw [services]
        by_cases hover : pkts ≠ [] ∧ (pkts.headD [] ++ p).length > MAX_PAYLOAD
        · left
          rw [receive, if_pos hover]
        · right
          rw [h.receive_serves hpre hover, h.behind hpre]
          simp

-- All requests but the last one ask for a transport.
structure TransportsFirst (requests : List Bytes) : Prop where
  framed : ∀ r ∈ requests, WellFramed r
  some : requests ≠ []
  transports : ∀ r ∈ requests.dropLast, isTransport (requestBody r) = true

theorem TransportsFirst.tail (h : TransportsFirst (r :: requests)) (hne : requests ≠ []) :
    isTransport (requestBody r) = true ∧ TransportsFirst requests := by
  obtain ⟨r', more, rfl⟩ := List.exists_cons_of_ne_nil hne
  refine ⟨h.transports r (by simp), fun x hx => h.framed x (List.mem_cons_of_mem _ hx), hne, ?_⟩
  intro x hx
  exact h.transports x (by simp [hx])

-- Each service is dispatched, and no byte is lost behind one.
def Complete (requests : List Bytes) (dispatched : List Dispatched) : Prop :=
  dispatched = requests.map fun r => ⟨requestBody r, []⟩

theorem services_of_groups (h : TransportsFirst requests) (groups : List (List Bytes))
    (hne : ∀ p ∈ groups.flatten, p ≠ []) (hgroups : groups.map List.flatten = requests)
    (hempty : pkts.headD [] = []) : Complete requests (services pkts groups.flatten) := by
  induction groups generalizing pkts requests with
  | nil => exact absurd hgroups.symm h.some
  | cons group groups ih =>
      subst hgroups
      have hr := h.framed group.flatten (by simp)
      rw [List.flatten_cons, services_group hr (fun p hp => hne p (by simp [hp]))
        (by rw [hempty, List.nil_append]) (by rw [hempty]; exact hr.pos)]
      by_cases hlast : groups = []
      · subst hlast
        simp [Complete, services]
      · obtain ⟨htransport, htail⟩ := h.tail (by simpa using hlast)
        rw [if_pos htransport]
        have hrest := @ih [[]] _ htail (fun p hp => hne p (by simp [hp])) rfl rfl
        rw [Complete] at hrest ⊢
        rw [hrest]
        rfl

theorem groups_of_services (h : TransportsFirst requests) (hne : ∀ p ∈ packets, p ≠ [])
    (hall : packets.flatten = requests.flatten) (hempty : pkts.headD [] = [])
    (hcomplete : Complete requests (services pkts packets)) :
    ∃ groups : List (List Bytes), packets = groups.flatten ∧ groups.map List.flatten = requests := by
  induction requests generalizing pkts packets with
  | nil => exact absurd rfl h.some
  | cons r requests ih =>
      have hr := h.framed r (by simp)
      have hstart : pkts.headD [] ++ packets.flatten = r ++ requests.flatten := by
        rw [hempty, hall, List.nil_append, List.flatten_cons]
      obtain ⟨held, p, more, rfl, hpre, hservices⟩ :=
        services_first hr hstart (by rw [hempty]; exact hr.pos)
      rw [hempty, List.nil_append] at hpre hservices
      rw [Complete] at hcomplete
      rcases hservices with hnone | hserved
      · rw [hnone] at hcomplete
        cases hcomplete
      · rw [hserved, List.map_cons, List.cons.injEq, Dispatched.mk.injEq] at hcomplete
        obtain ⟨⟨-, hbehind⟩, hrest⟩ := hcomplete
        -- nothing is behind the request, so the packet ends with it
        have hgroup : (held ++ [p]).flatten = r := by
          have hlen := hpre.length_le
          have hle := List.drop_eq_nil_iff.mp hbehind
          have heq := hpre.eq_of_length (by omega)
          rw [heq]
          simp
        have hmore : more.flatten = requests.flatten := by
          have hsplit : held ++ p :: more = (held ++ [p]) ++ more := by simp
          rw [hsplit, List.flatten_append, hgroup, List.flatten_cons] at hall
          exact List.append_cancel_left hall
        by_cases hlast : requests = []
        · subst hlast
          have hnil : more = [] := by
            cases more with
            | nil => rfl
            | cons q more =>
                rw [List.flatten_cons, List.flatten_nil] at hmore
                exact absurd (List.append_eq_nil_iff.mp hmore).1 (hne q (by simp))
          exact ⟨[held ++ [p]], by simp [hnil], by simp [← hgroup]⟩
        · obtain ⟨htransport, htail⟩ := h.tail hlast
          rw [if_pos htransport] at hrest
          obtain ⟨groups, rfl, hgroups⟩ :=
            @ih [[]] more htail (fun q hq => hne q (by simp [hq])) hmore rfl hrest
          exact ⟨(held ++ [p]) :: groups, by simp, by rw [List.map_cons, hgroup, hgroups]⟩

end Streams

section Sockets

variable {st mid after : Server} {a l p : Nat} {q s x : ASocket} {service bytes : Bytes}
  {enqueue : Server → Nat → Bytes → Except Stop (Int × Server)}

-- An index is not used twice.
def Gone (a : Nat) (st : Server) : Prop := a < st.nextSocket ∧ st.socks a = none

theorem Gone.of_socks {fresh : Nat} (h : Gone a st) (hnext : after.nextSocket = st.nextSocket + fresh)
    (hsocks : after.socks a = st.socks a) : Gone a after :=
  ⟨by rw [hnext]; exact Nat.lt_add_right fresh h.1, hsocks.trans h.2⟩

theorem Gone.ne {b : Nat} (h : Gone a st) (hb : st.socks b = some s) : a ≠ b := by
  rintro rfl
  rw [h.2] at hb
  cases hb

theorem Gone.severed {o : Option Nat} (h : Gone a st) : Host.severed st.socks o a = none := by
  cases o with
  | none => exact h.2
  | some p =>
      by_cases hp : a = p
      · subst hp
        simp [Host.severed, h.2]
      · simp [Host.severed, hp, h.2]

theorem Effect.gone {B : Prop} (h : Effect B st after) (hg : Gone a st) : Gone a after := by
  have hfresh := hg.1
  cases h with
  | quiet events plain becomes => exact hg.of_socks becomes.nextSocket (by rw [becomes.socks])
  | status l p s q reply ok found peer smart ops accepted becomes =>
      exact hg.of_socks becomes.nextSocket (by rw [becomes.socks])
  | tend b s s' found tended becomes =>
      exact hg.of_socks becomes.nextSocket (by rw [becomes.socks, Function.update_of_ne (hg.ne found)])
  | wake b p s q found peer other ops becomes =>
      exact hg.of_socks becomes.nextSocket (by rw [becomes.socks, Function.update_of_ne (hg.ne found)])
  | okay b p s found peer becomes =>
      exact hg.of_socks becomes.nextSocket (by rw [becomes.socks, Function.update_of_ne (hg.ne found)])
  | connect b s r credit rest found islocal closing alone remote back credits waiting plain becomes =>
      refine hg.of_socks becomes.nextSocket ?_
      rw [becomes.socks, Function.update_of_ne (hg.ne found), Function.update_of_ne (by omega)]
  | newLocal s ops peer closing fde becomes =>
      exact hg.of_socks becomes.nextSocket (by rw [becomes.socks, Function.update_of_ne (by omega)])
  | newClient s q ops peer closing sound smart back becomes =>
      refine hg.of_socks becomes.nextSocket ?_
      rw [becomes.socks, Function.update_of_ne (by omega), Function.update_of_ne (by omega)]
  | closed b s found waiting becomes =>
      refine ⟨by rw [becomes.nextSocket]; exact hfresh, ?_⟩
      rw [becomes.socks, Function.update_of_ne (hg.ne found), hg.severed]
  | failNotify b s reason ok found ops accepted becomes =>
      exact hg.of_socks becomes.nextSocket (by rw [becomes.socks, Function.update_of_ne (hg.ne found)])
  | forward l b s q s' rest found islocal peer smart ops notify alone asleep sound plain becomes =>
      refine hg.of_socks becomes.nextSocket ?_
      rw [becomes.socks, Function.update_of_ne (hg.ne found), Function.update_of_ne (hg.ne smart)]
  | bind l b s2 fresh s q x rest found islocal peer smart ops service kind back sound plain becomes =>
      have hs2 : a ≠ s2 := by
        rcases service with ⟨-, rfl, -⟩ | ⟨old, hold, -⟩
        · omega
        · exact hg.ne hold
      refine hg.of_socks becomes.nextSocket ?_
      rw [becomes.socks, Function.update_of_ne hs2, Function.update_of_ne (hg.ne found),
        Function.update_of_ne (hg.ne smart)]
  | readOther b s bytes found other becomes => exact hg.of_socks becomes.nextSocket (by rw [becomes.socks])
  | carry b r t s q message found peer remote ops wanted sound command nonempty short becomes =>
      exact hg.of_socks becomes.nextSocket (by rw [becomes.socks, Function.update_of_ne (hg.ne found)])

theorem Effect.lt {B : Prop} (h : Effect B st after) (hlt : a < st.nextSocket) : a < after.nextSocket := by
  have hle : st.nextSocket ≤ after.nextSocket := by
    cases h with
    | closed _ _ _ _ becomes => exact Nat.le_of_eq becomes.nextSocket.symm
    | _ =>
        rename_i becomes
        rw [becomes.nextSocket]
        exact Nat.le_add_right _ _
  omega

theorem Moves.lt {B : Prop} (h : Moves B st after) (hg : Graph st) (hlt : a < st.nextSocket) :
    a < after.nextSocket :=
  Moves.invariant (fun _ _ heffect hlt => heffect.lt hlt) h hg hlt

theorem Moves.gone {B : Prop} (h : Moves B st after) (hg : Graph st) (ha : Gone a st) : Gone a after :=
  Moves.invariant (fun _ _ heffect hgone => heffect.gone hgone) h hg ha

theorem Client.lt (h : Client st a l q s) : a < st.nextSocket := by
  by_contra hge
  have hnone := h.graph.owners.fresh a (by omega)
  rw [h.smart] at hnone
  cases hnone

theorem Client.smartFail_gone (h : Client st a l q s) :
    Ensures (smartFail st a) (fun result => Gone a result.2) Benign := by
  have hn : q.ops ≠ .localSocketNotify := by rw [h.ops]; simp
  unfold smartFail
  refine (close_spec h.graph h.smart hn).bind fun after hc => ?_
  refine ⟨by rw [hc.nextSocket]; exact h.lt, ?_⟩
  rw [hc.socks, Function.update_self, fate, h.ops, if_neg (by simp [Ops.isLocal])]

theorem Client.failed_gone {status : Status} (h : Client st a l q s) :
    Ensures (st.writeStatus l status >>= fun st => smartFail st a) (fun result => Gone a result.2)
      Benign := by
  refine (h.answer (B := True) status).bind fun mid ha => ?_
  have hclient : Client mid a l q s :=
    ⟨ha.graph, ha.socks ▸ h.smart, h.ops, h.peer, ha.socks ▸ h.client, h.back⟩
  exact hclient.smartFail_gone

theorem Client.smartForward_gone (h : Client st a l q s) (service : Bytes) :
    Ensures (smartForward st a service) (fun result => Gone a result.2) Benign := by
  unfold smartForward
  refine (ensures_bind_ok (Server.deref_some h.smart)).mpr ?_
  rw [h.peer]
  refine (isOffline_ensures st q.transport).bind fun offline _ => ?_
  cases offline with
  | true => exact h.failed_gone
  | false =>
      refine (ensures_bind_ok (Server.deref_some h.client)).mpr ?_
      obtain ⟨waiting, hwaiting⟩ : ∃ waiting : ASocket, waiting = { s with
        ops := .localSocketNotify, peer := none, transport := q.transport } := ⟨_, rfl⟩
      rw [← hwaiting]
      refine (connectToRemote_ensures (s := waiting) (by simp [Server.note, Server.put])
        service).bind ?_
      rintro _ ⟨t, m, rfl, -⟩
      rw [closeCleared_eq h.ops]
      exact ⟨h.lt, by simp [Server.free]⟩

theorem Client.bindService_gone {name : Bytes} {s2 : Nat} (henqueue : SendsLocally enqueue)
    (h : Client st a l q s) (hstart : Started True st name s2 mid) :
    Ensures (bindService enqueue mid a l s2) (fun result => Gone a result.2) Benign := by
  obtain ⟨origin, fresh, x, hmoves, hgraph, hold, -, hservice, -, -⟩ := hstart.started
  have hl : origin.socks l = some s := by rw [hold l (by simp [h.client]), h.client]
  have ha : origin.socks a = some q := by rw [hold a (by simp [h.smart]), h.smart]
  unfold bindService
  refine (handOver_ensures (B := True) hgraph hl h.back ha h.ops hservice).bind ?_
  intro ready hover
  have hrl : ready.socks l = some { s with ops := .localSocket, peer := some s2 } := by
    rw [hover.socks, Function.update_of_ne hover.apart, Function.update_self]
  have hrs : ready.socks s2 = some { x with peer := some l } := by
    rw [hover.socks, Function.update_self]
  have has : a ≠ s2 := by
    rintro rfl
    rcases hservice.origin with ⟨hnone, -⟩ | ⟨old, ho, -, hop, -⟩
    · rw [ha] at hnone
      cases hnone
    · rw [ha, Option.some.injEq] at ho
      rw [← ho, h.peer] at hop
      cases hop
  have hgone : Gone a ready := by
    refine ⟨?_, ?_⟩
    · exact hover.moves.lt hgraph (hmoves.lt h.graph h.lt)
    · rw [hover.socks, Function.update_of_ne has, Function.update_of_ne h.ne, Function.update_self]
  refine (readyWith_ensures (B := True) henqueue hover.graph hrl rfl rfl hrs).bind ?_
  intro after hready
  exact hready.moves.gone hover.graph hgone

-- What a request for a host service leaves of the smart socket.
def AfterRequest (a : Nat) (q : ASocket) (transport : Bool) (result : Int × Server) : Prop :=
  if transport then ∃ t, result.2.socks a = some { q with transport := t, pkts := [[]] }
  else Gone a result.2

theorem Client.smartHostRequest_leaves (henqueue : SendsLocally enqueue) (h : Client st a l q s)
    (service : Bytes) (ttype : TransportType) (serial : Option Bytes) :
    Ensures (smartHostRequest enqueue st a service ttype serial)
      (AfterRequest a q (afterPrefix "transport" service).isSome) Benign := by
  unfold smartHostRequest
  refine (ensures_bind_ok (Server.deref_some h.smart)).mpr ?_
  rw [h.peer]
  refine (handleHostRequest_ensures (B := True) h (hostRequest service) ttype serial).bind ?_
  rintro ⟨r, mid⟩ hr
  obtain ⟨t, hsocks⟩ := hr.socks
  have hcode := hr.code
  simp only at hsocks hcode ⊢
  have hclient : Client mid a l { q with transport := t } s :=
    ⟨hr.graph, by simp [hsocks], h.ops, h.peer, by simp [hsocks, h.ne.symm, h.client], h.back⟩
  by_cases htransport : (afterPrefix "transport" service).isSome = true
  · obtain ⟨type, name, hreq⟩ := (hostRequest_transport_iff service).mpr htransport
    rw [hcode, hreq, if_neg (by simp [hostCode]), if_pos htransport]
    refine (ensures_bind_ok (Server.deref_some hclient.smart)).mpr ?_
    rw [htransport]
    exact ⟨t, by simp [Server.put]⟩
  · have hafter : AfterRequest a q (afterPrefix "transport" service).isSome =
        fun result => Gone a result.2 := by
      funext result
      rw [AfterRequest, if_neg htransport]
    rw [hafter, if_neg htransport]
    split
    · exact hclient.smartFail_gone
    · rename_i hnonzero
      have hnone : hostRequest service = none := by
        cases hreq : hostRequest service with
        | none => rfl
        | some request =>
            cases request with
            | transport type name => exact absurd ((hostRequest_transport_iff service).mp ⟨_, _, hreq⟩) htransport
            | _ => exact absurd (by rw [hcode, hreq]; rfl) hnonzero
      obtain rfl : mid = st := hr.same (by rw [hnone]; rfl)
      refine (hostServiceToSocket_ensures (B := True) hr.graph service).bind ?_
      rintro ⟨found, after⟩ hfound
      cases found with
      | none =>
          obtain ⟨rfl, -, -⟩ := hfound
          exact h.failed_gone
      | some s2 => exact h.bindService_gone henqueue hfound.2

def Leaves (a : Nat) (q : ASocket) (bytes : Bytes) (result : Int × Server) : Prop :=
  match receive q.pkts bytes with
  | .waits => result.2.socks a = some { q with pkts := [q.pkts.headD [] ++ bytes] }
  | .serves service => AfterRequest a q (isTransport service) result
  | .overflow | .rejects => Gone a result.2

theorem Client.enqueue_leaves (h : Client st a l q s) (bytes : Bytes) :
    Ensures (Host.enqueue st a bytes) (Leaves a q bytes) Benign := by
  have henqueue : Host.enqueue st a bytes = smartSocketEnqueue (enqueueWithin 1) st a bytes := by
    simp only [Host.enqueue, enqueueWithin, Server.deref_some h.smart, bind, Except.bind, h.ops]
  have hclient : Client (st.put a { q with pkts := [q.pkts.headD [] ++ bytes] }) a l
      { q with pkts := [q.pkts.headD [] ++ bytes] } s := by
    have hmoves := Moves.tend (B := True) h.graph h.smart
      (⟨rfl, rfl, rfl, id, fun _ hs => hs⟩ : Tended q { q with pkts := [q.pkts.headD [] ++ bytes] })
      (by simp [roleOf, h.ops]) (fun hc => by simp)
    exact ⟨hmoves.graph h.graph, by simp [Server.put], h.ops, h.peer,
      by simp [Server.put, h.ne.symm, h.client], h.back⟩
  rw [henqueue, smartSocketEnqueue_receive _ h.smart]
  unfold Leaves
  cases hreceive : receive q.pkts bytes with
  | overflow => exact h.smartFail_gone
  | waits => exact hclient.smart
  | rejects => exact hclient.smartFail_gone
  | serves service =>
      simp only [serve, isTransport]
      cases parseRequest service with
      | host service ttype serial =>
          exact hclient.smartHostRequest_leaves (enqueueWithin_local 0) service ttype serial
      | device service => exact hclient.smartForward_gone service

end Sockets

section Deliveries

variable {st mid after : Server} {a l : Nat} {q s : ASocket} {packets requests : List Bytes}
  {dispatched : List Dispatched}

def dispatchedBy (q : ASocket) (p : Bytes) : List Dispatched :=
  match receive q.pkts p with
  | .serves service => [⟨service, behindRequest (q.pkts.headD [] ++ p)⟩]
  | _ => []

-- Packets come in for the socket a, and it dispatches services. Whatever else the
-- server does in between leaves the socket alone.
inductive Delivery (a : Nat) : Server → List Bytes → List Dispatched → Prop
  | done (st : Server) : Delivery a st [] []
  | gone (st : Server) (packets : List Bytes) (gone : st.socks a = none) : Delivery a st packets []
  | meanwhile (st mid : Server) (packets : List Bytes) (dispatched : List Dispatched)
      (graph : Graph mid) (same : mid.socks a = st.socks a) (rest : Delivery a mid packets dispatched) :
      Delivery a st packets dispatched
  | packet (st after : Server) (q : ASocket) (p : Bytes) (r : Int) (packets : List Bytes)
      (dispatched : List Dispatched) (found : st.socks a = some q)
      (call : enqueue st a p = .ok (r, after)) (rest : Delivery a after packets dispatched) :
      Delivery a st (p :: packets) (dispatchedBy q p ++ dispatched)

theorem Delivery.of_none (h : Delivery a st packets dispatched) (hnone : st.socks a = none) :
    dispatched = [] := by
  induction h with
  | done => rfl
  | gone => rfl
  | meanwhile st mid packets dispatched graph same rest ih => exact ih (same.trans hnone)
  | packet st after q p r packets dispatched found call rest ih =>
      rw [hnone] at found
      cases found

theorem SmartEnqueued.graph {course : SmartCourse} {result : Int × Server}
    (h : SmartEnqueued True st a l s course result) (hg : Graph st) : Graph result.2 := by
  cases h with
  | waits result moves kept => exact moves.graph hg
  | closes result moves ended => exact moves.graph hg
  | serves result moves stays => exact moves.graph hg
  | tracks result buffer moves listed fails stays => exact moves.graph hg
  | forwards middle result q moves graph smart ops client forwarded => exact forwarded.graph

-- A request that comes from a client leaves the graph of the sockets whole.
theorem Client.enqueue_graph {bytes : Bytes} {r : Int} (h : Client st a l q s)
    (hcall : enqueue st a bytes = .ok (r, after)) : Graph after := by
  have hcall' : smartSocketEnqueue (enqueueWithin 1) st a bytes = .ok (r, after) := by
    rw [← hcall]
    simp only [enqueue, enqueueWithin, Server.deref_some h.smart, bind, Except.bind, h.ops]
  exact ((smartSocketEnqueue_ensures (enqueueWithin_local 0) h bytes).of_ok hcall').graph h.graph

theorem Delivery.services (h : Delivery a st packets dispatched) (hg : Graph st)
    (hq : st.socks a = some q) (hops : q.ops = .smartSocket) :
    dispatched = Host.services q.pkts packets := by
  induction h generalizing q with
  | done => rfl
  | gone st packets hnone =>
      rw [hnone] at hq
      cases hq
  | meanwhile st mid packets dispatched graph same rest ih => exact ih graph (same.trans hq) hops
  | packet st after q' p r packets dispatched found call rest ih =>
      rw [hq, Option.some.injEq] at found
      subst found
      obtain ⟨l, -, hl, -, -⟩ := hg.peers.inner a q hq (by rw [hops]; rfl)
      obtain ⟨s, hclient⟩ := Client.of_graph hg hq hops hl
      have hgraph := hclient.enqueue_graph call
      have hleaves : Leaves a q p (r, after) := (hclient.enqueue_leaves p).of_ok call
      unfold Leaves at hleaves
      rw [Host.services, dispatchedBy]
      cases hreceive : receive q.pkts p with
      | waits =>
          rw [hreceive] at hleaves
          exact ih hgraph hleaves hops
      | overflow =>
          rw [hreceive] at hleaves
          exact rest.of_none hleaves.2
      | rejects =>
          rw [hreceive] at hleaves
          exact rest.of_none hleaves.2
      | serves service =>
          rw [hreceive] at hleaves
          simp only [AfterRequest] at hleaves
          simp only [List.singleton_append, List.cons.injEq, true_and]
          split at hleaves
          · rename_i htransport
            obtain ⟨t, hafter⟩ := hleaves
            rw [if_pos htransport]
            exact ih hgraph hafter hops
          · rename_i htransport
            rw [if_neg htransport]
            exact rest.of_none hleaves.2

-- A smart socket that holds nothing yet dispatches all of the services, with no
-- byte lost, exactly when each request ends where a packet ends.
theorem packetisation_independence (h : Delivery a st packets dispatched) (hg : Graph st)
    (hq : st.socks a = some q) (hops : q.ops = .smartSocket) (hfresh : q.pkts = [])
    (hrequests : TransportsFirst requests) (hcut : IsCut packets requests.flatten) :
    Complete requests dispatched ↔
      ∃ groups : List (List Bytes), packets = groups.flatten ∧ groups.map List.flatten = requests := by
  rw [h.services hg hq hops]
  have hempty : q.pkts.headD [] = [] := by rw [hfresh]; rfl
  constructor
  · exact groups_of_services hrequests hcut.nonempty hcut.flatten hempty
  · rintro ⟨groups, rfl, hgroups⟩
    exact services_of_groups hrequests groups hcut.nonempty hgroups hempty

def dispatchedIn (a : Nat) (st : Server) : List Bytes → Option (List Dispatched)
  | [] => some []
  | p :: packets =>
      match st.socks a with
      | none => some []
      | some q => do
          let (_, after) ← (enqueue st a p).toOption
          let dispatched ← dispatchedIn a after packets
          return dispatchedBy q p ++ dispatched

theorem delivery_of_dispatchedIn (h : dispatchedIn a st packets = some dispatched) :
    Delivery a st packets dispatched := by
  induction packets generalizing st dispatched with
  | nil =>
      cases h
      exact .done st
  | cons p packets ih =>
      unfold dispatchedIn at h
      split at h
      · rename_i hnone
        cases h
        exact .gone st _ hnone
      · rename_i q hq
        cases hcall : enqueue st a p with
        | error e => simp [hcall, Except.toOption] at h
        | ok result =>
            obtain ⟨names, hrest, hnames⟩ : ∃ names, dispatchedIn a result.2 packets = some names ∧
                dispatchedBy q p ++ names = dispatched := by
              simpa [hcall, Except.toOption, Option.bind_eq_some_iff] using h
            rw [← hnames]
            exact .packet st result.2 q p result.1 packets names hq hcall (ih hrest)

-- A device is online, and a client is connected to the smart socket 1. The statuses
-- that the client is to get can be written.
def clientConnected : List (Script × Input) :=
  [(silent, usbDevice), (silent, .packet 0 connectPacket), (silent, .accept 0)]

def answering (st : Server) : Server := { st with script := { silent with statuses := [true, true] } }

def shellRequests : List Bytes := [request "host:transport-any", request "shell:ls"]

set_option maxRecDepth 8000 in
theorem packetisation_independence_of_a_shell :
    ∃ st dispatched, run step serverInit clientConnected = .ok st ∧
      Delivery 1 (answering st) shellRequests dispatched ∧ Complete shellRequests dispatched := by
  obtain ⟨st, h, hboth⟩ := exists_of_any (x := run step serverInit clientConnected)
    (p := fun st => (dispatchedIn 1 (answering st) shellRequests).isSome &&
      (st.socks 1).any fun q => q.ops = .smartSocket && q.pkts = []) (by decide)
  rw [Bool.and_eq_true, Option.isSome_iff_exists, Option.any_eq_true] at hboth
  obtain ⟨⟨dispatched, hdispatched⟩, q, hq, hsmart⟩ := hboth
  rw [Bool.and_eq_true, decide_eq_true_eq, decide_eq_true_eq] at hsmart
  have hdelivery := delivery_of_dispatchedIn hdispatched
  have hgraph : Graph (answering st) := (run_whole h).graph.congr rfl rfl rfl rfl (.of_eq rfl)
  refine ⟨st, dispatched, h, hdelivery, ?_⟩
  refine (packetisation_independence hdelivery hgraph hq hsmart.1 hsmart.2 ?_ ?_).mpr ?_
  · refine ⟨?_, by decide, by decide⟩
    intro r hr
    rcases List.mem_pair.mp hr with rfl | rfl
    · exact ⟨18, by decide⟩
    · exact ⟨8, by decide⟩
  · exact ⟨rfl, by decide, by decide⟩
  · exact ⟨[[request "host:transport-any"], [request "shell:ls"]], rfl, rfl⟩

set_option maxRecDepth 8000 in
theorem pipelined_request_is_dropped :
    ∃ st, run step serverInit clientConnected = .ok st ∧
      Delivery 1 (answering st) shellRequests [⟨ascii "host:transport-any", []⟩, ⟨ascii "shell:ls", []⟩] ∧
      Delivery 1 (answering st) [shellRequests.flatten]
        [⟨ascii "host:transport-any", request "shell:ls"⟩] := by
  obtain ⟨st, h, hboth⟩ := exists_of_any (x := run step serverInit clientConnected)
    (p := fun st => dispatchedIn 1 (answering st) shellRequests =
        some [⟨ascii "host:transport-any", []⟩, ⟨ascii "shell:ls", []⟩] ∧
      dispatchedIn 1 (answering st) [shellRequests.flatten] =
        some [⟨ascii "host:transport-any", request "shell:ls"⟩]) (by decide)
  rw [decide_eq_true_eq] at hboth
  exact ⟨st, h, delivery_of_dispatchedIn hboth.1, delivery_of_dispatchedIn hboth.2⟩

end Deliveries

end Adb.Host
