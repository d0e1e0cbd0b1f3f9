import Adb.Host.PumpRuns

namespace Adb.Host

open Adb.Lib

variable {said : List Message} {online : Prop} {pump : Pump} {packet : Packet}

section Runs

-- A device that comes online and goes away again.
def deviceComes : List PumpMove :=
  [.main (silent, usbDevice), .thread 0 (.starts true), .serves 0 silent, .thread 0 .takes,
    .thread 0 (.reads connectPacket true), .serves 0 silent, .thread 0 .takes]

def deviceGoes : List PumpMove :=
  deviceComes ++
    [.thread 0 (.readFails true), .serves 0 silent, .thread 0 .takes, .closesSockets 0 silent]

end Runs

section Honest

variable {m : Machine} {body : List Message}

def Message.goesOut (message : Message) : Bool := message.command ≠ A_SYNC

def Packet.comesIn (packet : Packet) : Bool := packet.command ≠ A_SYNC

theorem foldl_active (token : UInt32) (out : List Message)
    (hbody : ∀ message ∈ body, message.command ≠ A_SYNC) :
    body.foldl (inputTurn token) (some true, out) = (some true, out ++ body) := by
  induction body generalizing out with
  | nil => simp
  | cons message body ih =>
      have hturn : inputTurn token (some true, out) message = (some true, out ++ [message]) := by
        simp [inputTurn, hbody message (List.mem_cons_self ..)]
      rw [List.foldl_cons, hturn, ih _ fun other hmem => hbody other (List.mem_cons_of_mem _ hmem)]
      simp

-- The token makes the thread active, and what comes then goes to the device.
theorem inputLoop_greeted (hbody : ∀ message ∈ body, message.command ≠ A_SYNC) :
    inputLoop 2 ((syncPacket 1 2).answer :: body) = (some true, body) := by
  have hfirst : inputTurn 2 (some false, []) (syncPacket 1 2).answer = (some true, []) := by
    simp [inputTurn, Packet.answer, syncPacket]
  rw [inputLoop, List.foldl_cons, hfirst, foldl_active 2 [] hbody, List.nil_append]

theorem inputLoop_parted (hbody : ∀ message ∈ body, message.command ≠ A_SYNC) :
    inputLoop 2 ((syncPacket 1 2).answer :: body ++ [(syncPacket 0 0).answer]) = (none, body) := by
  rw [inputLoop_append, inputLoop_greeted hbody]
  simp [inputTurn, Packet.answer, syncPacket]

theorem filter_goesOut (hbody : ∀ message ∈ body, message.command ≠ A_SYNC) :
    body.filter Message.goesOut = body :=
  List.filter_eq_self.mpr fun message hmem => decide_eq_true (hbody message hmem)

-- What a talk is made of, once it has begun.
structure Begun (said : List Message) (body : List Message) : Prop where
  quiet : ∀ message ∈ body, message.command ≠ A_SYNC
  said : said = (syncPacket 1 2).answer :: body ∨
    said = (syncPacket 1 2).answer :: body ++ [(syncPacket 0 0).answer]

theorem Begun.filter (h : Begun said body) : said.filter Message.goesOut = body := by
  rcases h.said with hsaid | hsaid
  · rw [hsaid, List.filter_cons_of_neg (by decide), filter_goesOut h.quiet]
  · rw [hsaid, List.filter_append, List.filter_cons_of_neg (by decide), filter_goesOut h.quiet,
      List.filter_cons_of_neg (by decide)]
    simp

-- So far as it has been taken, all of it but the tokens has gone to the device.
theorem Begun.written {taken rest : List Message} (h : Begun said body)
    (hsplit : taken ++ rest = said) :
    (inputLoop 2 taken).2 = taken.filter Message.goesOut := by
  cases taken with
  | nil => rfl
  | cons first taken =>
      have hpart : ∀ tail, taken ++ tail = body → first = (syncPacket 1 2).answer →
          (inputLoop 2 (first :: taken)).2 = (first :: taken).filter Message.goesOut := by
        intro tail hbody hfirst
        have hquiet : ∀ message ∈ taken, message.command ≠ A_SYNC :=
          fun message hmem => h.quiet message (hbody ▸ List.mem_append_left _ hmem)
        rw [hfirst, inputLoop_greeted hquiet, List.filter_cons_of_neg (by decide),
          filter_goesOut hquiet]
      rcases h.said with hsaid | hsaid
      · obtain ⟨hfirst, hbody⟩ := List.cons_eq_cons.mp (hsplit.trans hsaid)
        exact hpart rest hbody hfirst
      · obtain ⟨hfirst, hcut⟩ := List.cons_eq_cons.mp (hsplit.trans hsaid)
        have hbody : taken ++ rest = body ++ [(syncPacket 0 0).answer] := hcut
        rcases List.eq_nil_or_concat rest with hnil | ⟨init, last, hlast⟩
        · rw [hnil, List.append_nil] at hbody
          rw [hfirst, hbody, ← List.cons_append, inputLoop_parted h.quiet, ← hsaid, h.filter]
        · rw [hlast, List.concat_eq_append, ← List.append_assoc] at hbody
          exact hpart init (List.append_inj' hbody rfl).1 hfirst

theorem Talk.begun {handled : List Packet} (h : Talk online handled said) : said = [] ∨ ∃ body,
    Begun said (connectMessage :: body) ∧ (∀ message ∈ body, message.OfStreams) ∧
    ((∀ packet ∈ handled, packet.command ≠ A_CNXN) → body = []) := by
  have hquiet : ∀ body : List Message, (∀ message ∈ body, message.OfStreams) →
      ∀ message ∈ connectMessage :: body, message.command ≠ A_SYNC := by
    intro body hbody message hmem
    rcases List.mem_cons.mp hmem with hfirst | hmem
    · rw [hfirst]
      decide
    · exact (hbody message hmem).not_sync
  cases h with
  | silent down => exact Or.inl rfl
  | greeted rest body quiet speaks gate =>
      refine Or.inr ⟨body, ⟨hquiet body speaks, Or.inl rfl⟩, speaks, fun hnone => ?_⟩
      exact (gate fun packet hmem => hnone packet (List.mem_cons_of_mem _ hmem)).1
  | parted rest body quiet speaks gate down =>
      refine Or.inr ⟨body, ⟨hquiet body speaks, Or.inr rfl⟩, speaks, fun hnone => ?_⟩
      exact gate fun packet hmem =>
        hnone packet (List.mem_cons_of_mem _ (List.mem_append_left _ hmem))

theorem Pump.Sound.token (h : pump.Sound online said) (hsome : said ≠ []) : pump.syncToken = 2 := by
  have hhandled : pump.handled ≠ [] := fun hnone => hsome (h.early hnone).1
  have hposted : pump.posted ≠ [] := by
    rw [← h.handles]
    exact List.append_ne_nil_of_left_ne_nil hhandled _
  have hposts := h.posts
  generalize pump.output = output at hposts
  generalize pump.syncToken = token at hposts
  generalize pump.received = received at hposts
  generalize pump.posted = posted at hposts hposted
  cases hposts with
  | starting => exact absurd rfl hposted
  | _ => rfl

-- But for the tokens, what input_thread has taken has gone to the device.
theorem Pump.Sound.hears (h : pump.Sound online said)
    (hquiet : ∀ packet ∈ pump.received, packet.command ≠ A_SYNC) :
    pump.written ++ pump.toThread.filter Message.goesOut = said.filter Message.goesOut := by
  have htakes := h.takes
  rcases (h.talk hquiet).begun with hnone | ⟨body, hbegun, -, -⟩
  · rw [hnone] at htakes ⊢
    obtain ⟨htaken, htoThread⟩ := List.append_eq_nil_iff.mp htakes
    have hwritten := h.wrote
    rw [htaken] at hwritten
    rw [htoThread, ← hwritten]
    rfl
  · have hsome : said ≠ [] := by
      rcases hbegun.said with hsaid | hsaid <;> rw [hsaid] <;> simp
    have hwritten := hbegun.written htakes
    rw [← h.token hsome, h.wrote] at hwritten
    rw [hwritten, ← List.filter_append, htakes]

-- But for the tokens, what output_thread has posted is what it has received, up to a
-- write that failed.
theorem Posted.comesIn {output : OutputAt} {token : UInt32} {received posted : List Packet}
    (h : Posted output token received posted)
    (hquiet : ∀ packet ∈ received, packet.command ≠ A_SYNC) :
    posted.filter Packet.comesIn <+: received ∧
    (output = .pumping → posted.filter Packet.comesIn = received) := by
  have hfilter : ∀ body : List Packet, (∀ packet ∈ body, packet.command ≠ A_SYNC) →
      (syncPacket 1 2 :: body).filter Packet.comesIn = body := by
    intro body hbody
    rw [List.filter_cons_of_neg (by decide)]
    exact List.filter_eq_self.mpr fun packet hmem => decide_eq_true (hbody packet hmem)
  cases h with
  | starting => exact ⟨List.prefix_rfl, fun _ => rfl⟩
  | mute => exact ⟨List.prefix_rfl, fun _ => rfl⟩
  | pumping =>
      rw [hfilter received hquiet]
      exact ⟨List.prefix_rfl, fun _ => rfl⟩
  | cut body lost =>
      rw [hfilter body fun packet hmem => hquiet packet (List.mem_append_left _ hmem)]
      exact ⟨List.prefix_append body lost, fun hat => by cases hat⟩
  | closed =>
      rw [List.filter_append, hfilter received hquiet, List.filter_cons_of_neg (by decide),
        List.filter_nil, List.append_nil]
      exact ⟨List.prefix_rfl, fun hat => by cases hat⟩

-- A device that sends no A_SYNC of its own gets all that the server sends to it, in
-- order, save for what is still in the socket pair. First comes the A_CNXN, then
-- come the streams, and nothing of them before its own A_CNXN has been handled. And
-- what it sends is handled in order, and none is lost before a write on t->fd fails.
theorem honest_device_misses_nothing (moves : List PumpMove) (m : Machine)
    (hr : run pumpStep machineInit moves = .ok m) (t : Nat) (pump : Pump)
    (hpump : m.pumps t = some pump)
    (hquiet : ∀ packet ∈ pump.received, packet.command ≠ A_SYNC) :
    pump.written ++ pump.toThread.filter Message.goesOut =
      (m.sentTo t pump).filter Message.goesOut ∧
    ((m.sentTo t pump).filter Message.goesOut = [] ∨ ∃ body,
      (m.sentTo t pump).filter Message.goesOut = connectMessage :: body ∧
      (∀ message ∈ body, message.OfStreams) ∧
      ((∀ packet ∈ pump.handled, packet.command ≠ A_CNXN) → body = [])) ∧
    (pump.handled ++ pump.toServer).filter Packet.comesIn <+: pump.received ∧
    (pump.output = .pumping → (pump.handled ++ pump.toServer).filter Packet.comesIn =
      pump.received) := by
  obtain ⟨-, hsound⟩ := (run_pumpStep_sound hr).pumps t pump hpump
  refine ⟨?_, ?_, hsound.handles ▸ hsound.posts.comesIn hquiet⟩
  · exact hsound.hears hquiet
  · rcases (hsound.talk hquiet).begun with hnone | ⟨body, hbegun, hspeaks, hgate⟩
    · rw [hnone]
      exact Or.inl rfl
    · exact Or.inr ⟨body, hbegun.filter, hspeaks, hgate⟩

set_option maxRecDepth 8000 in
theorem honest_device_misses_nothing_of_one_device : ∃ m pump,
    run pumpStep machineInit deviceComes = .ok m ∧ m.pumps 0 = some pump ∧
    pump.written ++ pump.toThread.filter Message.goesOut =
      (m.sentTo 0 pump).filter Message.goesOut := by
  obtain ⟨m, hrun, hany⟩ := exists_of_any (x := run pumpStep machineInit deviceComes)
    (p := fun m => (m.pumps 0).any fun pump => pump.received.all fun packet =>
      packet.command ≠ A_SYNC)
    (by decide)
  rw [Option.any_eq_true] at hany
  obtain ⟨pump, hpump, hquiet⟩ := hany
  have hall := honest_device_misses_nothing deviceComes m hrun 0 pump hpump
    fun packet hmem => of_decide_eq_true (List.all_eq_true.mp hquiet packet hmem)
  exact ⟨m, pump, hrun, hpump, hall.1⟩

theorem Talk.ended {handled : List Packet} (h : Talk online handled said) (hmem : packet ∈ handled)
    (hsync : packet.command = A_SYNC) (harg : packet.arg0 = 0) : ∃ body : List Message,
      (∀ message ∈ body, message.command ≠ A_SYNC) ∧
      said = (syncPacket 1 2).answer :: body ++ [(syncPacket 0 0).answer] ∧ ¬online := by
  cases h with
  | silent down => cases hmem
  | greeted rest body quiet speaks gate =>
      rcases List.mem_cons.mp hmem with hfirst | hmem
      · rw [hfirst] at harg
        exact absurd harg (by decide)
      · exact absurd hsync (quiet _ hmem)
  | parted rest body quiet speaks gate down =>
      refine ⟨connectMessage :: body, fun message hmem => ?_, rfl, down⟩
      rcases List.mem_cons.mp hmem with hfirst | hmem
      · rw [hfirst]
        decide
      · exact (speaks message hmem).not_sync

-- The word that it is over is the last one of output_thread.
theorem Pump.Sound.posted_over (h : pump.Sound online said)
    (hquiet : ∀ packet ∈ pump.received, packet.command ≠ A_SYNC) (hmem : packet ∈ pump.handled)
    (hsync : packet.command = A_SYNC) (harg : packet.arg0 = 0) :
    pump.output = .exited ∧ pump.toServer = [] := by
  have hhandles := h.handles
  have hposted : packet ∈ pump.posted := hhandles ▸ List.mem_append_left _ hmem
  have hnot : ∀ body : List Packet, (∀ other ∈ body, other.command ≠ A_SYNC) →
      packet ∉ syncPacket 1 2 :: body := by
    intro body hbody hin
    rcases List.mem_cons.mp hin with hfirst | hin
    · rw [hfirst] at harg
      exact absurd harg (by decide)
    · exact hbody _ hin hsync
  have hposts := h.posts
  generalize pump.output = output at hposts ⊢
  generalize pump.syncToken = token at hposts
  generalize pump.received = received at hposts hquiet
  generalize pump.posted = posted at hposts hposted hhandles
  cases hposts with
  | starting => cases hposted
  | mute => cases hposted
  | pumping => exact absurd hposted (hnot received hquiet)
  | cut body lost =>
      exact absurd hposted
        (hnot body fun other hother => hquiet other (List.mem_append_left _ hother))
  | closed =>
      refine ⟨rfl, ?_⟩
      rcases List.eq_nil_or_concat pump.toServer with hnil | ⟨init, last, hlast⟩
      · exact hnil
      · rw [hlast, List.concat_eq_append, ← List.append_assoc] at hhandles
        have hfront := (List.append_inj' hhandles rfl).1
        exact absurd (hfront ▸ List.mem_append_left _ hmem) (hnot received hquiet)

-- Once the word that it is over has been handled there is nothing left to handle, no
-- socket leads to the device any more, the last that is sent to it is the same word,
-- and whoever has taken it all has left the loop.
theorem farewell_is_the_last_word (moves : List PumpMove) (m : Machine)
    (hr : run pumpStep machineInit moves = .ok m) (t : Nat) (pump : Pump)
    (hpump : m.pumps t = some pump)
    (hquiet : ∀ packet ∈ pump.received, packet.command ≠ A_SYNC)
    (hover : ∃ packet ∈ pump.handled, packet.command = A_SYNC ∧ packet.arg0 = 0) :
    pump.output = .exited ∧ pump.toServer = [] ∧ ¬Online m.server t ∧
    (∀ a s, m.server.socks a = some s → s.ops = .remoteSocket → s.transport ≠ some t) ∧
    (m.sentTo t pump).getLast? = some (syncPacket 0 0).answer ∧
    (pump.toThread = [] → ∀ active, pump.input ≠ .reading active) := by
  have hm := run_pumpStep_sound hr
  obtain ⟨-, hsound⟩ := hm.pumps t pump hpump
  obtain ⟨packet, hmem, hsync, harg⟩ := hover
  have hends := hsound.posted_over hquiet hmem hsync harg
  obtain ⟨body, hbody, hsaid, hdown⟩ := (hsound.talk hquiet).ended hmem hsync harg
  refine ⟨hends.1, hends.2, hdown, ?_, ?_, ?_⟩
  · intro a s hs hops htransport
    exact hdown (hm.shut.gated.remotes a s t hs hops htransport (by simp))
  · rw [hsaid]
    exact List.getLast?_concat
  · intro hempty active hactive
    have htakes := hsound.takes
    rw [hempty, List.append_nil, hsaid] at htakes
    have hlook := hsound.looks active hactive
    rw [hsound.token (by rw [hsaid]; simp), htakes, inputLoop_parted hbody] at hlook
    cases hlook

set_option maxRecDepth 8000 in
theorem farewell_is_the_last_word_of_one_device : ∃ m pump,
    run pumpStep machineInit deviceGoes = .ok m ∧ m.pumps 0 = some pump ∧ pump.input = .exited ∧
    pump.output = .exited ∧ ¬Online m.server 0 := by
  obtain ⟨m, hrun, hany⟩ := exists_of_any (x := run pumpStep machineInit deviceGoes)
    (p := fun m : Machine => (m.pumps 0).any fun pump : Pump =>
      (pump.received.all fun packet => packet.command ≠ A_SYNC) &&
        (pump.handled.any fun packet => packet.command = A_SYNC ∧ packet.arg0 = 0) &&
        pump.input = .exited) (by decide)
  rw [Option.any_eq_true] at hany
  obtain ⟨pump, hpump, hall⟩ := hany
  simp only [Bool.and_eq_true, List.any_eq_true, decide_eq_true_eq] at hall
  obtain ⟨⟨hquiet, hover⟩, hinput⟩ := hall
  have hlast := farewell_is_the_last_word deviceGoes m hrun 0 pump hpump
    (fun packet hmem => of_decide_eq_true (List.all_eq_true.mp hquiet packet hmem)) hover
  exact ⟨m, pump, hrun, hpump, hinput, hlast.1, hlast.2.2.1⟩

end Honest

end Adb.Host
