import Adb.Host.Messages
import Adb.Host.OnlineGate

namespace Adb.Host

open Adb.Lib
open Adb.Transport (ConnectionState TransportType)

-- What is sent to a transport, in order.
def Event.messageTo (t : Nat) : Event → Option Message
  | .sent u message _ => if u = t then some message else none
  | _ => none

def messagesTo (t : Nat) (log : List Event) : List Message :=
  log.filterMap (Event.messageTo t)

-- The packets that output_thread makes up itself.
def syncPacket (arg0 arg1 : UInt32) : Packet := ⟨A_SYNC, arg0, arg1, [], []⟩

-- The message of send_connect.
def connectMessage : Message := ⟨A_CNXN, A_VERSION, 4096, ascii "host::" ++ [0]⟩

-- Where output_thread stands: in front of its loop, inside of it, or at its end.
inductive OutputAt where
  | starting
  | pumping
  | exited
deriving DecidableEq

-- Where input_thread stands: in its loop, behind the loop, or at its end.
inductive InputAt where
  | reading (active : Bool)
  | leaving
  | exited
deriving DecidableEq

-- The two threads of a transport, what is inside of its socket pair, and what there
-- has been so far: received came from the device, posted was written on t->fd,
-- handled was read from transport_socket, taken was read from t->fd, and written
-- went to the device. since is how long the log was when the threads were started.
structure Pump where
  since : Nat
  syncToken : UInt32
  output : OutputAt
  input : InputAt
  toServer : List Packet
  toThread : List Message
  received : List Packet
  posted : List Packet
  handled : List Packet
  taken : List Message
  written : List Message

-- The threads as transport_registration_func starts them.
def newPump (since : Nat) : Pump where
  since := since
  syncToken := 1
  output := .starting
  input := .reading false
  toServer := []
  toThread := []
  received := []
  posted := []
  handled := []
  taken := []
  written := []

inductive ThreadMove where
  | starts (written : Bool)
  | reads (packet : Packet) (written : Bool)
  | readFails (written : Bool)
  | takes
  | takeFails

def Pump.post (pump : Pump) (packet : Packet) : Pump :=
  { pump with toServer := pump.toServer ++ [packet], posted := pump.posted ++ [packet] }

-- One turn of the loop of input_thread. What write_to_remote returns is not looked
-- at.
def Pump.take (pump : Pump) (active : Bool) (message : Message) (rest : List Message) : Pump :=
  let pump := { pump with toThread := rest, taken := pump.taken ++ [message] }
  if message.command = A_SYNC then
    if message.arg0 = 0 then { pump with input := .leaving }
    else { pump with input := .reading (active || message.arg1 = pump.syncToken) }
  else if active then { pump with written := pump.written ++ [message] }
  else pump

-- A write on t->fd that fails ends output_thread at once.
def threadStep (pump : Pump) : ThreadMove → Option Pump
  | .starts written =>
      if pump.output = .starting then
        let token := pump.syncToken + 1
        let pump := { pump with syncToken := token }
        if written then some { pump.post (syncPacket 1 token) with output := .pumping }
        else some { pump with output := .exited }
      else none
  | .reads packet written =>
      if pump.output = .pumping ∧ packet.payload.length ≤ MAX_PAYLOAD then
        let pump := { pump with received := pump.received ++ [packet] }
        if written then some (pump.post packet) else some { pump with output := .exited }
      else none
  | .readFails written =>
      if pump.output = .pumping then
        let pump := { pump with output := .exited }
        if written then some (pump.post (syncPacket 0 0)) else some pump
      else none
  | .takes =>
      match pump.input, pump.toThread with
      | .reading active, message :: rest => some (pump.take active message rest)
      | _, _ => none
  | .takeFails =>
      match pump.input with
      | .reading _ => some { pump with input := .leaving }
      | _ => none

-- The server and the threads of its transports.
structure Machine where
  server : Server
  pumps : Nat → Option Pump

def machineInit : Machine := ⟨serverInit, fun _ => none⟩

namespace Machine

def setPump (m : Machine) (t : Nat) (pump : Option Pump) : Machine :=
  { m with pumps := Function.update m.pumps t pump }

-- What send_packet writes comes to the input threads.
def deliver (m : Machine) (after : Server) : Machine where
  server := after
  pumps := fun t => (m.pumps t).map fun pump =>
    { pump with toThread := pump.toThread ++ messagesTo t (after.log.drop m.server.log.length) }

def serve (m : Machine) (input : Script × Input) : Except Stop Machine := do
  let after ← step m.server input
  return m.deliver after

end Machine

-- The main thread goes on, with a packet of a transport's socket or without one, or
-- one of the threads does. closesSockets is the call of close_all_sockets.
inductive PumpMove where
  | main (input : Script × Input)
  | serves (t : Nat) (script : Script)
  | thread (t : Nat) (move : ThreadMove)
  | closesSockets (t : Nat) (script : Script)

-- There are no threads for a device without permissions. A transport that goes may
-- have threads left; what they do to it from then on is not followed.
def pumpStep (m : Machine) : PumpMove → Except Stop Machine
  | .main input =>
      match input.2 with
      | .packet _ _ | .closeAll _ => .error .disabled
      | .register _ _ _ _ writeable => do
          let after ← m.serve input
          return if writeable then
              after.setPump m.server.nextTransport (some (newPump after.server.log.length))
            else after
      | .remove t => do
          let after ← m.serve input
          return after.setPump t none
      | _ => m.serve input
  | .serves t script =>
      match m.pumps t with
      | none => .error .disabled
      | some pump =>
          match pump.toServer with
          | [] => .error .disabled
          | packet :: rest =>
              (m.setPump t (some { pump with toServer := rest, handled := pump.handled ++ [packet] })).serve
                (script, .packet t packet)
  | .thread t move =>
      match (m.pumps t).bind (threadStep · move) with
      | none => .error .disabled
      | some pump => .ok (m.setPump t (some pump))
  | .closesSockets t script =>
      match m.pumps t with
      | none => .error .disabled
      | some pump =>
          if pump.input = .leaving then
            (m.setPump t (some { pump with input := .exited })).serve (script, .closeAll t)
          else .error .disabled

variable {st mid after : Server} {u t : Nat}

section Said

variable {P Q : Nat → Message → Prop}

@[simp] theorem messagesTo_append (t : Nat) (log events : List Event) :
    messagesTo t (log ++ events) = messagesTo t log ++ messagesTo t events :=
  List.filterMap_append

theorem mem_messagesTo {log : List Event} {message : Message} :
    message ∈ messagesTo t log ↔ ∃ carried, .sent t message carried ∈ log := by
  unfold messagesTo
  rw [List.mem_filterMap]
  constructor
  · intro h
    obtain ⟨e, hmem, he⟩ := h
    cases e with
    | sent v other carried =>
        simp only [Event.messageTo] at he
        split at he
        · rename_i hv
          obtain rfl := Option.some.inj he
          exact ⟨carried, hv ▸ hmem⟩
        · cases he
    | _ => cases he
  · intro h
    obtain ⟨carried, hmem⟩ := h
    exact ⟨_, hmem, by simp [Event.messageTo]⟩

-- The same events meet both.
theorem SendsOnly.and (h : SendsOnly P st after) (h' : SendsOnly Q st after) :
    SendsOnly (fun t message => P t message ∧ Q t message) st after := by
  obtain ⟨events, hlog, hsent⟩ := h
  obtain ⟨events', hlog', hsent'⟩ := h'
  have heq : events' = events := List.append_cancel_left (hlog'.symm.trans hlog)
  subst heq
  exact ⟨events', hlog, fun t message carried hmem => ⟨hsent t message carried hmem, hsent' t message carried hmem⟩⟩

theorem SendsOnly.said (h : SendsOnly P st after) (t : Nat) :
    ∃ said, messagesTo t after.log = messagesTo t st.log ++ said ∧ ∀ message ∈ said, P t message := by
  obtain ⟨events, hlog, hsent⟩ := h
  refine ⟨messagesTo t events, by rw [hlog, messagesTo_append], fun message hmem => ?_⟩
  obtain ⟨carried, hevent⟩ := mem_messagesTo.mp hmem
  exact hsent t message carried hevent

theorem SendsOnly.silent (h : SendsOnly P st after) (hP : ∀ message, ¬P t message) :
    messagesTo t after.log = messagesTo t st.log := by
  obtain ⟨said, hlog, hsaid⟩ := h.said t
  have hnone : said = [] := List.eq_nil_iff_forall_not_mem.mpr fun message hmem => hP message (hsaid message hmem)
  rw [hlog, hnone, List.append_nil]

theorem messagesTo_note (st : Server) (t v : Nat) (message : Message) (carried : Option (Nat × Nat)) :
    messagesTo t (st.note (.sent v message carried)).log =
      messagesTo t st.log ++ if v = t then [message] else [] := by
  have hone : messagesTo t [.sent v message carried] = if v = t then [message] else [] := by
    unfold messagesTo
    by_cases hv : v = t
    · simp [Event.messageTo, hv]
    · simp [Event.messageTo, hv]
  rw [Server.note, messagesTo_append, hone]

end Said

section Online

theorem OthersSame.online (h : OthersSame st t after) (hu : u ≠ t) (hup : Online after u) : Online st u :=
  hup.of_plain (h u hu).symm

theorem not_online_of_offline (hs : GateShut st)
    (hdown : ∃ x, st.transports t = some x ∧ x.connectionState = .offline) : ¬Online st t := by
  intro hup
  obtain ⟨x, hx, hstate⟩ := hdown
  obtain ⟨y, hy, hon⟩ := hup
  rw [hx, Option.some.injEq] at hy
  exact (hs.gated.up t x hx (hy ▸ hon)).1 hstate

theorem handleConnect_others (h : Graph st) (hs : GateShut st) (t : Nat) (packet : Packet) :
    Ensures (handleConnect st t packet) (OthersSame st t) Anyway := by
  unfold handleConnect
  apply (derefTransport_any st t).bind
  intro transport ht
  have hdown : Ensures (if transport.connectionState ≠ .offline then takeOffline st t else pure st)
      (fun mid => Graph mid ∧ GateShut mid ∧ OthersSame st t mid) Anyway := by
    split
    · obtain ⟨mid, hrun, hmid⟩ := takeOffline_down h hs.books hs.gated ht
      rw [hrun]
      exact ⟨hmid.walked.graph, (hmid.guards hs).shut, hmid.others⟩
    · exact ⟨h, hs, fun _ _ => rfl⟩
  apply hdown.bind
  intro mid hmid
  obtain ⟨hgraph, hshut, hothers⟩ := hmid
  apply (parseBanner_named hgraph hshut.books hshut.gated t _).bind
  intro banner hbanner
  apply (handleOnline_named hbanner).weaken
  intro after hafter
  exact hothers.trans hafter.1.others

-- What handleSync does when the transport is to go offline.
theorem handleSync_parts (h : Graph st) (hs : GateShut st) (t : Nat) {packet : Packet}
    (harg : packet.arg0 = 0) : Ensures (handleSync st t packet) (fun after => ∃ mid, Down st t mid ∧
      after = mid.note (.sent t ⟨A_SYNC, packet.arg0, packet.arg1, packet.payload⟩ none)) Anyway := by
  unfold handleSync
  simp only
  rw [if_neg (not_not.mpr harg)]
  cases ht : st.transports t with
  | none => simp [setConnectionState, Server.derefTransport, ht, bind, Except.bind, Anyway]
  | some transport =>
      obtain ⟨mid, hrun, hdown⟩ := takeOffline_down h hs.books hs.gated ht
      rw [← bind_assoc]
      apply (ensures_bind_ok hrun).mpr
      apply ((sendPacket_ensures mid (some t) _ none).mono fun _ _ => trivial).weaken
      intro after hsent
      obtain ⟨v, hv, heq⟩ := hsent
      exact ⟨mid, hdown, by rw [heq, Option.some.inj hv]⟩

-- And what it does at the token of the output thread.
theorem handleSync_greets (st : Server) (t : Nat) {packet : Packet} (harg : packet.arg0 ≠ 0) :
    Ensures (handleSync st t packet) (fun after =>
      after = (st.note (.sent t ⟨A_SYNC, packet.arg0, packet.arg1, packet.payload⟩ none)).note
        (.sent t connectMessage none)) Anyway := by
  unfold handleSync
  simp only
  rw [if_pos harg]
  apply ((sendPacket_ensures st (some t) _ none).mono fun _ _ => trivial).bind
  intro mid hmid
  obtain ⟨v, hv, heq⟩ := hmid
  obtain rfl := Option.some.inj hv
  apply ((sendPacket_ensures mid (some t) _ none).mono fun _ _ => trivial).weaken
  intro after hafter
  obtain ⟨w, hw, heq'⟩ := hafter
  obtain rfl := Option.some.inj hw
  rw [heq', heq]
  rfl

theorem removeTransport_raises (h : Graph st) (hs : GateShut st) (t : Nat) :
    Ensures (removeTransport st t) (fun after => Online after u → Online st u) Anyway := by
  unfold removeTransport
  apply (derefTransport_any st t).bind
  intro transport ht
  obtain ⟨listed, hlisted⟩ : ∃ listed : Server,
    listed = { st with transportList := st.transportList.erase t } := ⟨_, rfl⟩
  have hgraph : Graph listed := hlisted ▸ (calm_delisted st (st.transportList.erase t)).graph h
  have hshut : GateShut listed := by
    rw [hlisted]
    exact ⟨hs.books.of_same (.of_eq rfl) rfl rfl rfl rfl, hs.gated.congr ⟨fun _ => rfl, rfl⟩ rfl rfl,
      hs.agrees⟩
  have hfound : listed.transports t = some transport := by
    rw [hlisted]
    exact ht
  have hback : Online listed u → Online st u := by
    rw [hlisted]
    exact id
  simp only [← hlisted]
  obtain ⟨mid, hrun, hmid⟩ := runTransportDisconnects_walked hgraph hshut.books hfound
  have hp := ((runTransportDisconnects_edits (D := Nobody) t).of_ok hrun).passes hshut.books hshut.gated
  have hremoved := (hp.guards hshut).shut.removed hmid
  apply (ensures_bind_ok hrun).mpr
  apply (updateTransports_works (D := AnySerial) (N := True) ((calm_removed mid t).graph hmid.graph)).weaken
  intro after hw hup
  obtain ⟨x, hx, hon⟩ := (hw.passes hremoved.books hremoved.gated).same.symm.online hup
  apply hback
  apply hp.same.symm.online
  by_cases hut : u = t
  · subst hut
    simp only [Function.update_self] at hx
    cases hx
  · simp only [Function.update_of_ne hut] at hx
    exact ⟨x, hx, hon⟩

-- A transport goes online with the packet of the device's handshake, and with
-- nothing else.
theorem handle_raises (h : Graph st) (hs : GateShut st) {input : Input}
    (hother : ∀ packet, input = .packet u packet → packet.command ≠ A_CNXN) :
    Ensures (handle st input) (fun after => Online after u → Online st u) Anyway := by
  by_cases hordinary : input.Ordinary
  · apply (handle_works (D := AnySerial) (N := True) h input hordinary (fun _ _ _ => trivial)
      fun _ _ => Or.inr trivial).weaken
    intro after hw hup
    exact (hw.passes hs.books hs.gated).same.symm.online hup
  cases input with
  | packet t packet =>
      simp only [handle]
      split
      · unfold handlePacket
        apply (derefTransport_any st t).bind
        intro transport _
        by_cases hsync : packet.command = A_SYNC
        · rw [if_pos hsync]
          have harg : packet.arg0 = 0 := by
            by_contra hne
            exact hordinary ⟨fun _ => hne, by rw [hsync]; decide⟩
          apply (handleSync_parts h hs t harg).weaken
          intro after hafter hup
          obtain ⟨mid, hdown, heq⟩ := hafter
          have hmid : Online mid u := by
            rw [heq] at hup
            exact hup
          by_cases hut : u = t
          · subst hut
            exact absurd hmid (not_online_of_offline (hdown.guards hs).shut hdown.offline)
          · exact hdown.others.online hut hmid
        · rw [if_neg hsync]
          have hconnect : packet.command = A_CNXN := by
            by_contra hne
            exact hordinary ⟨fun heq => absurd heq hsync, hne⟩
          rw [if_pos hconnect]
          have hut : u ≠ t := by
            rintro rfl
            exact hother packet rfl hconnect
          apply (handleConnect_others h hs t packet).weaken
          exact fun after hothers hup => hothers.online hut hup
      · trivial
  | register type adbPort serial devpath writeable =>
      simp only [handle, registerTransport]
      have hshut := hs.register type adbPort serial devpath writeable
      apply (updateTransports_works (D := AnySerial) (N := True) (h.register _ rfl)).weaken
      intro after hw hup
      have hmid := (hw.passes hshut.books hshut.gated).same.symm.online hup
      obtain ⟨x, hx, hon⟩ := hmid
      by_cases hut : u = st.nextTransport
      · subst hut
        simp only [Server.putTransport, Function.update_self, Option.some.injEq] at hx
        rw [← hx] at hon
        cases hon
      · simp only [Server.putTransport, Function.update_of_ne hut] at hx
        exact ⟨x, hx, hon⟩
  | remove t =>
      simp only [handle]
      split
      · exact removeTransport_raises h hs t
      · trivial
  | _ => exact absurd trivial hordinary

end Online

end Adb.Host
