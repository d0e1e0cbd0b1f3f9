import Adb.Host.Pump

namespace Adb.Host

open Adb.Lib

variable {st after : Server} {u t : Nat} {said : List Message} {online : Prop} {pump : Pump} {packet : Packet}

section Course

-- The packet of a transport that an input hands to the server.
def Input.packetOf (u : Nat) : Input → Option Packet
  | .packet t packet => if t = u then some packet else none
  | _ => none

-- What A_SYNC is answered with.
def Packet.answer (packet : Packet) : Message := ⟨A_SYNC, packet.arg0, packet.arg1, packet.payload⟩

theorem packetOf_packet (u t : Nat) (packet : Packet) :
    (Input.packet t packet).packetOf u = if t = u then some packet else none := rfl

-- What a step of the server is for a transport that is online or not, before and
-- after, and to which it sends what is said.
inductive Course (before later : Prop) (said : List Message) : Option Packet → Prop
  | streams (o : Option Packet)
      (other : ∀ packet, o = some packet → packet.command ≠ A_SYNC ∧ packet.command ≠ A_CNXN)
      (speaks : ∀ message ∈ said, message.OfStreams) (gate : said ≠ [] → before)
      (keeps : later → before) : Course before later said o
  | connects (packet : Packet) (command : packet.command = A_CNXN) (silent : said = []) :
      Course before later said (some packet)
  | greets (packet : Packet) (command : packet.command = A_SYNC) (arg0 : packet.arg0 ≠ 0)
      (answer : said = [packet.answer, connectMessage]) (keeps : later → before) :
      Course before later said (some packet)
  | parts (packet : Packet) (command : packet.command = A_SYNC) (arg0 : packet.arg0 = 0)
      (answer : said = [packet.answer]) (down : ¬later) : Course before later said (some packet)

def Courses (u : Nat) (st : Server) (o : Option Packet) (after : Server) : Prop :=
  ∃ said, messagesTo u after.log = messagesTo u st.log ++ said ∧
    Course (Online st u) (Online after u) said o

-- A packet of the handshake that is not of the transport in question.
theorem courses_silent (hlog : messagesTo u after.log = messagesTo u st.log)
    (hkeeps : Online after u → Online st u) : Courses u st none after :=
  ⟨[], by rw [hlog, List.append_nil], .streams none (by simp) (by simp) (by simp) hkeeps⟩

theorem handleSync_course (h : Graph st) (hs : GateShut st) (t : Nat) (hsync : packet.command = A_SYNC) :
    Ensures (handleSync st t packet) (Courses u st (Input.packetOf u (.packet t packet))) Anyway := by
  by_cases harg : packet.arg0 = 0
  · apply (handleSync_parts h hs t harg).weaken
    intro after hafter
    obtain ⟨mid, hdown, heq⟩ := hafter
    have hquiet : messagesTo u mid.log = messagesTo u st.log :=
      hdown.walked.unsent.silent fun _ => id
    have hlog : messagesTo u after.log = messagesTo u st.log ++ if t = u then [packet.answer] else [] := by
      rw [heq, messagesTo_note, hquiet]
      rfl
    have honline : Online after u → Online mid u := by
      rw [heq]
      exact id
    rw [packetOf_packet]
    split
    · rename_i htu
      subst htu
      rw [if_pos rfl] at hlog
      refine ⟨[packet.answer], hlog, .parts packet hsync harg rfl fun hup => ?_⟩
      exact not_online_of_offline (hdown.guards hs).shut hdown.offline (honline hup)
    · rename_i htu
      rw [if_neg htu, List.append_nil] at hlog
      exact courses_silent hlog fun hup => hdown.others.online (Ne.symm htu) (honline hup)
  · apply (handleSync_greets st t harg).weaken
    intro after heq
    have hlog : messagesTo u after.log =
        messagesTo u st.log ++ if t = u then [packet.answer, connectMessage] else [] := by
      rw [heq, messagesTo_note, messagesTo_note]
      split
      · rw [List.append_assoc]
        rfl
      · simp
    have honline : Online after u → Online st u := by
      rw [heq]
      exact id
    rw [packetOf_packet]
    split
    · rename_i htu
      rw [if_pos htu] at hlog
      exact ⟨_, hlog, .greets packet hsync harg rfl honline⟩
    · rename_i htu
      rw [if_neg htu, List.append_nil] at hlog
      exact courses_silent hlog honline

theorem packetOf_some {input : Input} (h : input.packetOf u = some packet) : input = .packet u packet := by
  cases input with
  | packet t other =>
      simp only [Input.packetOf] at h
      split at h
      · rename_i htu
        rw [htu, Option.some.inj h]
      · cases h
  | _ => cases h

theorem handle_course (h : Graph st) (hs : GateShut st) (input : Input) :
    Ensures (handle st input) (Courses u st (input.packetOf u)) Anyway := by
  by_cases hsync : ∃ t packet, input = .packet t packet ∧ packet.command = A_SYNC
  · obtain ⟨t, packet, rfl, hcommand⟩ := hsync
    simp only [handle]
    split
    · unfold handlePacket
      apply (derefTransport_any st t).bind
      intro transport _
      rw [if_pos hcommand]
      exact handleSync_course h hs t hcommand
    · trivial
  have hother : ∀ t packet, input = .packet t packet → packet.command ≠ A_SYNC :=
    fun t packet heq hcommand => hsync ⟨t, packet, heq, hcommand⟩
  -- nothing of the handshake is sent, so all that is goes to transports that are online
  have hsends := (handle_speaks st hother).and (handle_guards h hs input)
  by_cases hconnect : ∃ packet, input = .packet u packet ∧ packet.command = A_CNXN
  · obtain ⟨packet, rfl, hcommand⟩ := hconnect
    apply hsends.weaken
    intro after hafter
    have hquiet : messagesTo u after.log = messagesTo u st.log := by
      apply (hafter.1.and hafter.2.sends).silent
      intro message hboth
      obtain ⟨hspeaks, hto⟩ := hboth
      rcases hto with hsync | hhello | hordinary
      · exact hspeaks.not_sync hsync
      · exact hspeaks.not_connect hhello
      · exact hordinary.1.2 hcommand
    refine ⟨[], by rw [hquiet, List.append_nil], ?_⟩
    rw [packetOf_packet, if_pos rfl]
    exact .connects packet hcommand rfl
  · apply (hsends.and (handle_raises (u := u) h hs fun packet heq hcommand =>
      hconnect ⟨packet, heq, hcommand⟩)).weaken
    intro after hafter
    obtain ⟨⟨hspeaks, hguards⟩, hkeeps⟩ := hafter
    obtain ⟨said, hlog, hsaid⟩ := (hspeaks.and hguards.sends).said u
    refine ⟨said, hlog, .streams _ ?_ (fun message hmem => (hsaid message hmem).1) ?_ hkeeps⟩
    · intro packet hpacket
      have heq := packetOf_some hpacket
      exact ⟨hother u packet heq, fun hcommand => hconnect ⟨packet, heq, hcommand⟩⟩
    · intro hsome
      obtain ⟨message, hmem⟩ := List.exists_mem_of_ne_nil said hsome
      obtain ⟨hstreams, hto⟩ := hsaid message hmem
      rcases hto with hc' | hc' | hup
      · exact absurd hc' hstreams.not_sync
      · exact absurd hc' hstreams.not_connect
      · exact hup.2.1

theorem step_course {input : Script × Input} (hw : Whole st) (hs : GateShut st)
    (hstep : step st input = .ok after) (u : Nat) : Courses u st (input.2.packetOf u) after := by
  have hscripted : GateShut (scripted st input) :=
    ⟨hs.books.of_same (.of_eq rfl) rfl rfl rfl rfl, hs.gated.congr ⟨fun _ => rfl, rfl⟩ rfl rfl, hs.agrees⟩
  exact (handle_course (u := u) (hw.scripted input).graph hscripted input.2).of_ok hstep

end Course

section Loops

-- What the loop of input_thread makes of the messages it takes: whether it is active,
-- as long as it goes on, and what it passes to the device.
def inputTurn (token : UInt32) (state : Option Bool × List Message) (message : Message) :
    Option Bool × List Message :=
  match state.1 with
  | none => state
  | some active =>
      if message.command = A_SYNC then
        (if message.arg0 = 0 then none else some (active || message.arg1 = token), state.2)
      else (some active, if active then state.2 ++ [message] else state.2)

def inputLoop (token : UInt32) (taken : List Message) : Option Bool × List Message :=
  taken.foldl (inputTurn token) (some false, [])

@[simp] theorem inputLoop_nil (token : UInt32) : inputLoop token [] = (some false, []) := rfl

theorem inputLoop_append (token : UInt32) (taken : List Message) (message : Message) :
    inputLoop token (taken ++ [message]) = inputTurn token (inputLoop token taken) message := by
  simp [inputLoop]

-- What output_thread has written on t->fd, from what it has received. A packet that
-- could not be written is lost, and so may be the word that it is over.
inductive Posted : OutputAt → UInt32 → List Packet → List Packet → Prop
  | starting : Posted .starting 1 [] []
  | mute : Posted .exited 2 [] []
  | pumping (received : List Packet) : Posted .pumping 2 received (syncPacket 1 2 :: received)
  | cut (body lost : List Packet) : Posted .exited 2 (body ++ lost) (syncPacket 1 2 :: body)
  | closed (received : List Packet) :
      Posted .exited 2 received (syncPacket 1 2 :: received ++ [syncPacket 0 0])

-- What the server has sent to a device that sends no A_SYNC, from what it has handled:
-- the token comes back together with A_CNXN, then come the streams, but not before
-- the A_CNXN of the device, and the last word is the one that it is over.
inductive Talk (online : Prop) : List Packet → List Message → Prop
  | silent (down : ¬online) : Talk online [] []
  | greeted (rest : List Packet) (body : List Message)
      (quiet : ∀ packet ∈ rest, packet.command ≠ A_SYNC) (speaks : ∀ message ∈ body, message.OfStreams)
      (gate : (∀ packet ∈ rest, packet.command ≠ A_CNXN) → body = [] ∧ ¬online) :
      Talk online (syncPacket 1 2 :: rest) ((syncPacket 1 2).answer :: connectMessage :: body)
  | parted (rest : List Packet) (body : List Message)
      (quiet : ∀ packet ∈ rest, packet.command ≠ A_SYNC) (speaks : ∀ message ∈ body, message.OfStreams)
      (gate : (∀ packet ∈ rest, packet.command ≠ A_CNXN) → body = []) (down : ¬online) :
      Talk online (syncPacket 1 2 :: rest ++ [syncPacket 0 0])
        ((syncPacket 1 2).answer :: connectMessage :: body ++ [(syncPacket 0 0).answer])

-- What holds of the threads of a transport that is online or not, to which has been
-- sent what is said.
structure Pump.Sound (online : Prop) (said : List Message) (pump : Pump) : Prop where
  handles : pump.handled ++ pump.toServer = pump.posted
  takes : pump.taken ++ pump.toThread = said
  posts : Posted pump.output pump.syncToken pump.received pump.posted
  early : pump.handled = [] → said = [] ∧ ¬online
  wrote : (inputLoop pump.syncToken pump.taken).2 = pump.written
  looks : ∀ active, pump.input = .reading active →
    (inputLoop pump.syncToken pump.taken).1 = some active
  talk : (∀ packet ∈ pump.received, packet.command ≠ A_SYNC) → Talk online pump.handled said

end Loops

section Threads

theorem newPump_sound (since : Nat) (h : ¬online) : (newPump since).Sound online [] where
  handles := rfl
  takes := rfl
  posts := .starting
  early := fun _ => ⟨rfl, h⟩
  wrote := rfl
  looks := by
    intro active hactive
    rw [newPump] at hactive
    injection hactive with hactive
    rw [← hactive]
    rfl
  talk := fun _ => .silent h

-- Nothing has been handled before output_thread has started, so nothing is said.
theorem Pump.Sound.unsaid (h : pump.Sound online said) (hposted : pump.posted = []) : pump.taken = [] := by
  have hhandled : pump.handled = [] := (List.append_eq_nil_iff.mp (h.handles.trans hposted)).1
  exact (List.append_eq_nil_iff.mp (h.takes.trans (h.early hhandled).1)).1

theorem Pump.Sound.starts (h : pump.Sound online said) (hat : pump.output = .starting) :
    pump.syncToken = 1 ∧ pump.received = [] ∧ pump.posted = [] := by
  have hposts := h.posts
  rw [hat] at hposts
  generalize htoken : pump.syncToken = token at hposts
  generalize hreceived : pump.received = received at hposts
  generalize hposted : pump.posted = posted at hposts
  cases hposts
  exact ⟨rfl, rfl, rfl⟩

theorem Pump.Sound.pumps (h : pump.Sound online said) (hat : pump.output = .pumping) :
    pump.syncToken = 2 ∧ pump.posted = syncPacket 1 2 :: pump.received := by
  have hposts := h.posts
  rw [hat] at hposts
  generalize htoken : pump.syncToken = token at hposts
  generalize hreceived : pump.received = received at hposts
  generalize hposted : pump.posted = posted at hposts
  cases hposts
  exact ⟨rfl, rfl⟩

-- What a turn of input_thread's loop does is what the loop says.
theorem Pump.Sound.take {active : Bool} {message : Message} {rest : List Message}
    (h : pump.Sound online said) (hat : pump.input = .reading active)
    (hqueue : pump.toThread = message :: rest) : (pump.take active message rest).Sound online said := by
  have hloop : inputLoop pump.syncToken pump.taken = (some active, pump.written) :=
    Prod.ext (h.looks active hat) h.wrote
  have hnext := inputLoop_append pump.syncToken pump.taken message
  rw [hloop] at hnext
  have htakes : (pump.taken ++ [message]) ++ rest = said := by
    rw [List.append_assoc, List.singleton_append, ← hqueue]
    exact h.takes
  unfold Pump.take
  simp only [inputTurn] at hnext
  split
  · rename_i hsync
    rw [if_pos hsync] at hnext
    split
    · rename_i harg
      rw [if_pos harg] at hnext
      exact ⟨h.handles, htakes, h.posts, h.early, by rw [hnext], by simp, h.talk⟩
    · rename_i harg
      rw [if_neg harg] at hnext
      refine ⟨h.handles, htakes, h.posts, h.early, by rw [hnext], ?_, h.talk⟩
      intro later hlater
      injection hlater with hlater
      rw [hnext, ← hlater]
  · rename_i hsync
    rw [if_neg hsync] at hnext
    split
    · rename_i hactive
      rw [if_pos hactive] at hnext
      refine ⟨h.handles, htakes, h.posts, h.early, by rw [hnext], ?_, h.talk⟩
      intro later hlater
      rw [hnext]
      exact congrArg some (InputAt.reading.inj (hat.symm.trans hlater))
    · rename_i hactive
      rw [if_neg hactive] at hnext
      refine ⟨h.handles, htakes, h.posts, h.early, by rw [hnext], ?_, h.talk⟩
      intro later hlater
      rw [hnext]
      exact congrArg some (InputAt.reading.inj (hat.symm.trans hlater))

theorem threadStep_sound {move : ThreadMove} {later : Pump} (h : pump.Sound online said)
    (hstep : threadStep pump move = some later) : later.Sound online said := by
  cases move with
  | starts written =>
      simp only [threadStep] at hstep
      split at hstep
      · rename_i hat
        obtain ⟨htoken, hreceived, hposted⟩ := h.starts hat
        have htaken := h.unsaid hposted
        have hqueue : pump.handled = [] ∧ pump.toServer = [] :=
          List.append_eq_nil_iff.mp (h.handles.trans hposted)
        have hwritten : pump.written = [] := by
          rw [← h.wrote, htaken]
          rfl
        have hlooks : ∀ active, pump.input = .reading active → (some false : Option Bool) = some active := by
          intro active hactive
          have hlook := h.looks active hactive
          rw [htaken] at hlook
          exact hlook
        split at hstep
        · obtain rfl := Option.some.inj hstep
          refine ⟨?_, h.takes, ?_, h.early, ?_, ?_, h.talk⟩
          · simp [Pump.post, hqueue.1, hqueue.2, hposted]
          · simp only [Pump.post, htoken, hreceived, hposted]
            exact .pumping []
          · simp only [Pump.post, htaken, hwritten, inputLoop_nil]
          · simpa only [Pump.post, htaken, inputLoop_nil] using hlooks
        · obtain rfl := Option.some.inj hstep
          refine ⟨h.handles, h.takes, ?_, h.early, ?_, ?_, h.talk⟩
          · simp only [htoken, hreceived, hposted]
            exact .mute
          · simp only [htaken, hwritten, inputLoop_nil]
          · simpa only [htaken, inputLoop_nil] using hlooks
      · cases hstep
  | reads packet written =>
      simp only [threadStep] at hstep
      split at hstep
      · rename_i hat
        obtain ⟨htoken, hposted⟩ := h.pumps hat.1
        have htalk : (∀ other ∈ pump.received ++ [packet], other.command ≠ A_SYNC) →
            Talk online pump.handled said :=
          fun hquiet => h.talk fun other hmem => hquiet other (List.mem_append_left _ hmem)
        split at hstep
        · obtain rfl := Option.some.inj hstep
          refine ⟨?_, h.takes, ?_, h.early, h.wrote, h.looks, htalk⟩
          · simp only [Pump.post]
            rw [← List.append_assoc, h.handles]
          · simp only [Pump.post, htoken, hposted, hat.1]
            exact .pumping _
        · obtain rfl := Option.some.inj hstep
          refine ⟨h.handles, h.takes, ?_, h.early, h.wrote, h.looks, htalk⟩
          simp only [htoken, hposted]
          exact .cut pump.received [packet]
      · cases hstep
  | readFails written =>
      simp only [threadStep] at hstep
      split at hstep
      · rename_i hat
        obtain ⟨htoken, hposted⟩ := h.pumps hat
        split at hstep
        · obtain rfl := Option.some.inj hstep
          refine ⟨?_, h.takes, ?_, h.early, h.wrote, h.looks, h.talk⟩
          · simp only [Pump.post]
            rw [← List.append_assoc, h.handles]
          · simp only [Pump.post, htoken, hposted]
            exact .closed pump.received
        · obtain rfl := Option.some.inj hstep
          refine ⟨h.handles, h.takes, ?_, h.early, h.wrote, h.looks, h.talk⟩
          have hcut := Posted.cut pump.received []
          rw [List.append_nil] at hcut
          simpa only [htoken, hposted] using hcut
      · cases hstep
  | takes =>
      simp only [threadStep] at hstep
      split at hstep
      · rename_i active message rest hat hqueue
        obtain rfl := Option.some.inj hstep
        exact h.take hat hqueue
      · cases hstep
  | takeFails =>
      simp only [threadStep] at hstep
      split at hstep
      · obtain rfl := Option.some.inj hstep
        exact ⟨h.handles, h.takes, h.posts, h.early, h.wrote, by simp, h.talk⟩
      · cases hstep

end Threads

section Served

variable {later : Prop} {more : List Message} {rest : List Packet}

-- The server does something else.
theorem Talk.elsewhere {handled : List Packet} (h : Talk online handled said)
    (hc : Course online later more none) : Talk later handled (said ++ more) := by
  cases hc with
  | streams _ other speaks gate keeps =>
      have hdown : ¬online → more = [] ∧ ¬later := fun hdown =>
        ⟨by_contra fun hsome => hdown (gate hsome), fun hlater => hdown (keeps hlater)⟩
      cases h with
      | silent down =>
          obtain ⟨hnone, hlater⟩ := hdown down
          rw [hnone]
          exact .silent hlater
      | greeted rest body quiet speaks' gate' =>
          refine .greeted rest (body ++ more) quiet ?_ ?_
          · intro message hmem
            exact (List.mem_append.mp hmem).elim (speaks' message) (speaks message)
          · intro hnone
            obtain ⟨hbody, down⟩ := gate' hnone
            obtain ⟨hmore, hlater⟩ := hdown down
            exact ⟨by rw [hbody, hmore]; rfl, hlater⟩
      | parted rest body quiet speaks' gate' down =>
          obtain ⟨hnone, hlater⟩ := hdown down
          rw [hnone, List.append_nil]
          exact .parted rest body quiet speaks' gate' hlater

-- The packet that comes next from a device that sends no A_SYNC: the token, a packet
-- of the device, or the word that it is over.
inductive Next (pump : Pump) (packet : Packet) : Prop
  | token (none : pump.handled = []) (packet : packet = syncPacket 1 2)
  | device (front : List Packet) (handled : pump.handled = syncPacket 1 2 :: front)
      (quiet : ∀ other ∈ front, other.command ≠ A_SYNC) (packet : packet.command ≠ A_SYNC)
  | last (front : List Packet) (handled : pump.handled = syncPacket 1 2 :: front)
      (quiet : ∀ other ∈ front, other.command ≠ A_SYNC) (packet : packet = syncPacket 0 0)

theorem next_of_tail {front body : List Packet} (hbody : ∀ other ∈ body, other.command ≠ A_SYNC)
    (hhandled : pump.handled = syncPacket 1 2 :: front)
    (hsplit : front ++ packet :: rest = body ∨ front ++ packet :: rest = body ++ [syncPacket 0 0]) :
    Next pump packet := by
  rcases hsplit with hsplit | hsplit
  · refine .device front hhandled (fun other hmem => hbody other ?_) (hbody packet ?_)
    · rw [← hsplit]
      exact List.mem_append_left _ hmem
    · rw [← hsplit]
      simp
  · rcases List.eq_nil_or_concat rest with hnil | ⟨init, last, hlast⟩
    · rw [hnil] at hsplit
      obtain ⟨hfront, hpacket⟩ := List.append_inj' hsplit rfl
      exact .last front hhandled (fun other hmem => hbody other (hfront ▸ hmem)) (List.singleton_inj.mp hpacket)
    · rw [hlast, List.concat_eq_append, ← List.cons_append, ← List.append_assoc] at hsplit
      have hinit : front ++ packet :: init = body := (List.append_inj' hsplit rfl).1
      refine .device front hhandled (fun other hmem => hbody other ?_) (hbody packet ?_)
      · rw [← hinit]
        exact List.mem_append_left _ hmem
      · rw [← hinit]
        simp

theorem Pump.Sound.next (h : pump.Sound online said) (hqueue : pump.toServer = packet :: rest)
    (hquiet : ∀ other ∈ pump.received, other.command ≠ A_SYNC) : Next pump packet := by
  have hhandles := h.handles
  rw [hqueue] at hhandles
  have htail : ∀ tail, pump.posted = syncPacket 1 2 :: tail →
      (∃ body, (∀ other ∈ body, other.command ≠ A_SYNC) ∧ (tail = body ∨ tail = body ++ [syncPacket 0 0])) →
      Next pump packet := by
    intro tail hposted hbody
    obtain ⟨body, hbody, htail⟩ := hbody
    rw [hposted] at hhandles
    cases hhandled : pump.handled with
    | nil =>
        rw [hhandled] at hhandles
        exact .token hhandled (List.cons_eq_cons.mp hhandles).1
    | cons first front =>
        rw [hhandled] at hhandles
        obtain ⟨hfirst, hsplit⟩ := List.cons_eq_cons.mp hhandles
        rw [hfirst] at hhandled
        exact next_of_tail hbody hhandled (htail.imp hsplit.trans hsplit.trans)
  have hposts := h.posts
  generalize hout : pump.output = output at hposts
  generalize htoken : pump.syncToken = token at hposts
  generalize hreceived : pump.received = received at hposts hquiet
  generalize hposted : pump.posted = posted at hposts htail hhandles
  cases hposts with
  | starting => simp at hhandles
  | mute => simp at hhandles
  | pumping => exact htail _ rfl ⟨received, hquiet, Or.inl rfl⟩
  | cut body lost => exact htail _ rfl ⟨body, fun other hmem => hquiet other (List.mem_append_left _ hmem), Or.inl rfl⟩
  | closed => exact htail _ rfl ⟨received, hquiet, Or.inr rfl⟩

-- A talk that is over has A_SYNC in it.
theorem Talk.open {front : List Packet} (h : Talk online (syncPacket 1 2 :: front) said)
    (hquiet : ∀ other ∈ front, other.command ≠ A_SYNC) : ∃ body,
      said = (syncPacket 1 2).answer :: connectMessage :: body ∧ (∀ message ∈ body, message.OfStreams) ∧
      ((∀ packet ∈ front, packet.command ≠ A_CNXN) → body = [] ∧ ¬online) := by
  generalize hhandled : syncPacket 1 2 :: front = handled at h
  cases h with
  | silent down => cases hhandled
  | greeted rest body quiet speaks gate =>
      obtain ⟨-, hfront⟩ := List.cons_eq_cons.mp hhandled
      exact ⟨body, rfl, speaks, hfront ▸ gate⟩
  | parted rest body quiet speaks gate down =>
      obtain ⟨-, hfront⟩ := List.cons_eq_cons.mp hhandled
      exact absurd rfl (hquiet (syncPacket 0 0) (hfront ▸ by simp))

-- The server handles the packet that comes next.
theorem Pump.Sound.talked (h : pump.Sound online said) (hqueue : pump.toServer = packet :: rest)
    (hquiet : ∀ other ∈ pump.received, other.command ≠ A_SYNC) (hc : Course online later more (some packet)) :
    Talk later (pump.handled ++ [packet]) (said ++ more) := by
  have htalk := h.talk hquiet
  cases h.next hqueue hquiet with
  | token none hpacket =>
      obtain ⟨hsaid, hdown⟩ := h.early none
      subst hpacket
      rw [none, hsaid, List.nil_append, List.nil_append]
      cases hc with
      | streams _ other _ _ _ => exact absurd rfl (other _ rfl).1
      | connects _ command _ => exact absurd command (by decide)
      | greets _ _ _ answer keeps =>
          rw [answer]
          exact .greeted [] [] (by simp) (by simp) fun _ => ⟨rfl, fun hlater => hdown (keeps hlater)⟩
      | parts _ _ arg0 _ _ => exact absurd arg0 (by decide)
  | device front hhandled quiet hpacket =>
      rw [hhandled] at htalk ⊢
      obtain ⟨body, hsaid, hspeaks, hgate⟩ := htalk.open quiet
      have hquiet' : ∀ other ∈ front ++ [packet], other.command ≠ A_SYNC := by
        intro other hmem
        rcases List.mem_append.mp hmem with hmem | hmem
        · exact quiet other hmem
        · exact List.mem_singleton.mp hmem ▸ hpacket
      rw [hsaid]
      cases hc with
      | streams _ other speaks gate keeps =>
          refine .greeted (front ++ [packet]) (body ++ more) hquiet' ?_ ?_
          · intro message hmem
            exact (List.mem_append.mp hmem).elim (hspeaks message) (speaks message)
          · intro hnone
            obtain ⟨hbody, hdown⟩ := hgate fun other hmem => hnone other (List.mem_append_left _ hmem)
            have hmore : more = [] := by_contra fun hsome => hdown (gate hsome)
            exact ⟨by rw [hbody, hmore]; rfl, fun hlater => hdown (keeps hlater)⟩
      | connects _ command silent =>
          rw [silent, List.append_nil]
          exact .greeted (front ++ [packet]) body hquiet' hspeaks fun hnone =>
            absurd command (hnone packet (by simp))
      | greets _ command _ _ _ => exact absurd command hpacket
      | parts _ command _ _ _ => exact absurd command hpacket
  | last front hhandled quiet hpacket =>
      rw [hhandled] at htalk ⊢
      obtain ⟨body, hsaid, hspeaks, hgate⟩ := htalk.open quiet
      subst hpacket
      rw [hsaid]
      cases hc with
      | streams _ other _ _ _ => exact absurd rfl (other _ rfl).1
      | connects _ command _ => exact absurd command (by decide)
      | greets _ _ arg0 _ _ => exact absurd rfl arg0
      | parts _ _ _ answer down =>
          rw [answer]
          exact .parted front body quiet hspeaks (fun hnone => (hgate hnone).1) down

-- What the server sends comes to the input thread.
def Pump.told (pump : Pump) (more : List Message) : Pump := { pump with toThread := pump.toThread ++ more }

theorem Pump.Sound.elsewhere (h : pump.Sound online said) (hc : Course online later more none) :
    (pump.told more).Sound later (said ++ more) where
  handles := h.handles
  takes := by rw [← h.takes]; exact (List.append_assoc ..).symm
  posts := h.posts
  early := by
    intro hnone
    obtain ⟨hsaid, hdown⟩ := h.early hnone
    cases hc with
    | streams _ other speaks gate keeps =>
        have hmore : more = [] := by_contra fun hsome => hdown (gate hsome)
        exact ⟨by rw [hsaid, hmore]; rfl, fun hlater => hdown (keeps hlater)⟩
  wrote := h.wrote
  looks := h.looks
  talk := fun hquiet => (h.talk hquiet).elsewhere hc

theorem Pump.Sound.served (h : pump.Sound online said) (hqueue : pump.toServer = packet :: rest)
    (hc : Course online later more (some packet)) :
    (Pump.told { pump with toServer := rest, handled := pump.handled ++ [packet] } more).Sound later
      (said ++ more) where
  handles := by
    rw [← h.handles, hqueue]
    exact List.append_assoc ..
  takes := by rw [← h.takes]; exact (List.append_assoc ..).symm
  posts := h.posts
  early := fun hnone => by simp [Pump.told] at hnone
  wrote := h.wrote
  looks := h.looks
  talk := fun hquiet => h.talked hqueue hquiet hc

end Served

section Machine

variable {m : Machine} {input : Script × Input}

-- What has been sent to a transport since its threads were started.
def Machine.sentTo (m : Machine) (t : Nat) (pump : Pump) : List Message :=
  messagesTo t (m.server.log.drop pump.since)

structure Machine.Sound (m : Machine) : Prop where
  whole : Whole m.server
  shut : GateShut m.server
  pumps : ∀ t pump, m.pumps t = some pump →
    pump.since ≤ m.server.log.length ∧ pump.Sound (Online m.server t) (m.sentTo t pump)

-- A step of the server, for one transport.
structure Delivered (m : Machine) (t : Nat) (o : Option Packet) (later : Machine) (more : List Message) :
    Prop where
  longer : m.server.log.length ≤ later.server.log.length
  course : Course (Online m.server t) (Online later.server t) more o
  pump : later.pumps t = (m.pumps t).map (·.told more)
  sentTo : ∀ pump, pump.since ≤ m.server.log.length → later.sentTo t pump = m.sentTo t pump ++ more

theorem step_delivers (hw : Whole m.server) (hs : GateShut m.server)
    (hstep : step m.server input = .ok after) (t : Nat) :
    ∃ more, Delivered m t (input.2.packetOf t) (m.deliver after) more := by
  obtain ⟨more, hmore, hcourse⟩ := step_course hw hs hstep t
  obtain ⟨events, hlog, -⟩ := (step_guards hw hs hstep).sends
  rw [hlog, messagesTo_append] at hmore
  have hevents : messagesTo t events = more := List.append_cancel_left hmore
  have hnew : after.log.drop m.server.log.length = events := by rw [hlog, List.drop_left]
  refine ⟨more, ?_, hcourse, ?_, ?_⟩
  · simp only [Machine.deliver, hlog, List.length_append]
    omega
  · simp only [Machine.deliver, hnew, hevents]
    rfl
  · intro pump hsince
    simp only [Machine.sentTo, Machine.deliver, hlog]
    rw [List.drop_append_of_le_length hsince, messagesTo_append, hevents]

theorem serve_ok {later : Machine} (h : m.serve input = .ok later) :
    ∃ after, step m.server input = .ok after ∧ later = m.deliver after := by
  obtain ⟨after, hstep, hlater⟩ := bind_ok h
  exact ⟨after, hstep, (Except.ok.inj hlater).symm⟩

-- Nothing but the server does anything, or else with a packet of one transport.
theorem serve_sound {later : Machine} (hw : Whole m.server) (hs : GateShut m.server)
    (h : m.serve input = .ok later)
    (hpumps : ∀ t pump more, m.pumps t = some pump → Delivered m t (input.2.packetOf t) later more →
      pump.since ≤ later.server.log.length ∧ (pump.told more).Sound (Online later.server t) (later.sentTo t pump)) :
    later.Sound := by
  obtain ⟨after, hstep, rfl⟩ := serve_ok h
  refine ⟨step_whole hw hstep, (step_guards hw hs hstep).shut, ?_⟩
  intro t pump hpump
  obtain ⟨more, hdelivered⟩ := step_delivers hw hs hstep t
  rw [hdelivered.pump, Option.map_eq_some_iff] at hpump
  obtain ⟨old, hold, rfl⟩ := hpump
  exact hpumps t old more hold hdelivered

theorem serve_elsewhere {later : Machine} (hm : m.Sound) (h : m.serve input = .ok later)
    (hinput : ∀ t, input.2.packetOf t = none) : later.Sound := by
  apply serve_sound hm.whole hm.shut h
  intro t pump more hpump hd
  obtain ⟨hsince, hsound⟩ := hm.pumps t pump hpump
  refine ⟨hsince.trans hd.longer, ?_⟩
  rw [hd.sentTo pump hsince]
  exact hsound.elsewhere (hinput t ▸ hd.course)

theorem Machine.Sound.setPump {pump : Option Pump} (hm : m.Sound)
    (h : ∀ new, pump = some new →
      new.since ≤ m.server.log.length ∧ new.Sound (Online m.server t) (m.sentTo t new)) :
    (m.setPump t pump).Sound := by
  refine ⟨hm.whole, hm.shut, ?_⟩
  intro u found hfound
  by_cases hut : u = t
  · subst hut
    simp only [Machine.setPump, Function.update_self] at hfound
    exact h found hfound
  · simp only [Machine.setPump, Function.update_of_ne hut] at hfound
    exact hm.pumps u found hfound

theorem threadStep_since {move : ThreadMove} {later : Pump} (h : threadStep pump move = some later) :
    later.since = pump.since := by
  cases move with
  | starts written =>
      simp only [threadStep] at h
      split at h
      · split at h <;> exact (Option.some.inj h) ▸ rfl
      · cases h
  | reads packet written =>
      simp only [threadStep] at h
      split at h
      · split at h <;> exact (Option.some.inj h) ▸ rfl
      · cases h
  | readFails written =>
      simp only [threadStep] at h
      split at h
      · split at h <;> exact (Option.some.inj h) ▸ rfl
      · cases h
  | takes =>
      simp only [threadStep] at h
      split at h
      · rw [← Option.some.inj h]
        unfold Pump.take
        simp only
        repeat' split
        all_goals rfl
      · cases h
  | takeFails =>
      simp only [threadStep] at h
      split at h
      · exact (Option.some.inj h) ▸ rfl
      · cases h

theorem sound_init : machineInit.Sound := ⟨whole_init, gateShut_init, by simp [machineInit]⟩

-- The threads of a transport that is new.
theorem registered_sound {later : Machine} {type : Adb.Transport.TransportType} {adbPort : Int}
    {serial devpath : Option Bytes} {script : Script} {writeable : Bool} (hm : m.Sound)
    (h : m.serve (script, .register type adbPort serial devpath writeable) = .ok later) :
    (later.setPump m.server.nextTransport (some (newPump later.server.log.length))).Sound := by
  have hlater := serve_elsewhere hm h fun _ => rfl
  obtain ⟨after, hstep, rfl⟩ := serve_ok h
  obtain ⟨more, hdelivered⟩ := step_delivers hm.whole hm.shut hstep m.server.nextTransport
  have hdown : ¬Online m.server m.server.nextTransport := by
    intro hup
    exact hup.live (hm.shut.books.freshTransport _ (Nat.le_refl _))
  have hstays : ¬Online (m.deliver after).server m.server.nextTransport := by
    intro hup
    have hcourse := hdelivered.course
    cases hcourse with
    | streams _ _ _ _ keeps => exact hdown (keeps hup)
  apply hlater.setPump
  intro new hnew
  obtain rfl := Option.some.inj hnew
  refine ⟨Nat.le_refl _, ?_⟩
  have hnone : (m.deliver after).sentTo m.server.nextTransport (newPump (m.deliver after).server.log.length) = [] := by
    simp only [Machine.sentTo, newPump, List.drop_length]
    rfl
  rw [hnone]
  exact newPump_sound _ hstays

theorem served_sound {script : Script} {later : Machine} {rest : List Packet} (hm : m.Sound)
    (hpump : m.pumps t = some pump) (hqueue : pump.toServer = packet :: rest)
    (h : (m.setPump t (some { pump with toServer := rest, handled := pump.handled ++ [packet] })).serve
      (script, .packet t packet) = .ok later) : later.Sound := by
  apply serve_sound (m := m.setPump t _) hm.whole hm.shut h
  intro u found more hfound hd
  by_cases hut : u = t
  · subst hut
    simp only [Machine.setPump, Function.update_self, Option.some.injEq] at hfound
    subst hfound
    obtain ⟨hsince, hsound⟩ := hm.pumps u pump hpump
    have hsaid : later.sentTo u { pump with toServer := rest, handled := pump.handled ++ [packet] } =
        m.sentTo u pump ++ more := hd.sentTo _ hsince
    have hcourse := hd.course
    rw [packetOf_packet, if_pos rfl] at hcourse
    refine ⟨hsince.trans hd.longer, ?_⟩
    rw [hsaid]
    exact hsound.served hqueue hcourse
  · simp only [Machine.setPump, Function.update_of_ne hut] at hfound
    obtain ⟨hsince, hsound⟩ := hm.pumps u found hfound
    have hsaid : later.sentTo u found = m.sentTo u found ++ more := hd.sentTo found hsince
    have hcourse := hd.course
    rw [packetOf_packet, if_neg (Ne.symm hut)] at hcourse
    refine ⟨hsince.trans hd.longer, ?_⟩
    rw [hsaid]
    exact hsound.elsewhere hcourse

theorem pumpStep_sound {move : PumpMove} {later : Machine} (hm : m.Sound)
    (h : pumpStep m move = .ok later) : later.Sound := by
  cases move with
  | main input =>
      obtain ⟨script, input⟩ := input
      cases input with
      | packet t packet => cases h
      | closeAll t => cases h
      | register type adbPort serial devpath writeable =>
          simp only [pumpStep] at h
          obtain ⟨served, hserved, hlater⟩ := bind_ok h
          split at hlater
          · rw [← Except.ok.inj hlater]
            exact registered_sound hm hserved
          · rw [← Except.ok.inj hlater]
            exact serve_elsewhere hm hserved fun _ => rfl
      | remove t =>
          simp only [pumpStep] at h
          obtain ⟨served, hserved, hlater⟩ := bind_ok h
          rw [← Except.ok.inj hlater]
          exact (serve_elsewhere hm hserved fun _ => rfl).setPump (by simp)
      | accept l => exact serve_elsewhere hm h fun _ => rfl
      | signal a => exact serve_elsewhere hm h fun _ => rfl
      | callback a => exact serve_elsewhere hm h fun _ => rfl
  | serves t script =>
      simp only [pumpStep] at h
      split at h
      · cases h
      · rename_i pump hpump
        split at h
        · cases h
        · rename_i packet rest hqueue
          exact served_sound hm hpump hqueue h
  | thread t move =>
      simp only [pumpStep] at h
      split at h
      · cases h
      · rename_i later' hstep
        obtain ⟨pump, hpump, hthread⟩ := Option.bind_eq_some_iff.mp hstep
        rw [← Except.ok.inj h]
        obtain ⟨hsince, hsound⟩ := hm.pumps t pump hpump
        apply hm.setPump
        intro new hnew
        obtain rfl := Option.some.inj hnew
        have hkept := threadStep_since hthread
        refine ⟨hkept ▸ hsince, ?_⟩
        have hsaid : m.sentTo t later' = m.sentTo t pump := by rw [Machine.sentTo, hkept]; rfl
        rw [hsaid]
        exact threadStep_sound hsound hthread
  | closesSockets t script =>
      simp only [pumpStep] at h
      split at h
      · cases h
      · rename_i pump hpump
        split at h
        · obtain ⟨hsince, hsound⟩ := hm.pumps t pump hpump
          refine serve_elsewhere (hm.setPump ?_) h fun _ => rfl
          intro new hnew
          obtain rfl := Option.some.inj hnew
          exact ⟨hsince, hsound.handles, hsound.takes, hsound.posts, hsound.early, hsound.wrote, by simp,
            hsound.talk⟩
        · cases h

theorem run_pumpStep_sound {moves : List PumpMove} (h : run pumpStep machineInit moves = .ok m) : m.Sound :=
  run_invariant (P := Machine.Sound) (fun _ _ _ hm hstep => pumpStep_sound hm hstep) sound_init h

end Machine

end Adb.Host
