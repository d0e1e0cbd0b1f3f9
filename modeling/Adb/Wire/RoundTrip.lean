import Adb.Wire.UsbReceive

namespace Adb.Wire

open Adb.Lib
open Adb.Host (Bytes MAX_PAYLOAD ReadOutcome WriteOutcome writeLoop)

section Reading

variable {σ : Type}

-- remote_read, by how the message and the data are read.
def remoteRead (readMsg : σ → Option (Bytes × σ)) (readData : Nat → σ → Option (Bytes × σ))
    (p : APacket) (s : σ) : Option (APacket × σ) := do
  let (bytes, s) ← readMsg s
  let p := p.setMsg bytes
  if checkHeader p ≠ 0 then
    none
  else
    let (bytes, s) ← readData p.msg.dataLength.toNat s
    let p ← p.setData bytes
    if checkData p ≠ 0 then none else some (p, s)

def tcpRemoteRead : APacket → List ReadOutcome → Option (APacket × List ReadOutcome) :=
  remoteRead (readx AMessage.SIZE) readx

-- Packets that are read one after the other, each into one of the buffers.
def receiveAll {m : Type → Type} [Monad m] (read : APacket → σ → m (APacket × σ)) :
    List APacket → σ → m (List APacket × σ)
  | [], s => pure ([], s)
  | p :: ps, s => do
      let (q, s) ← read p s
      let (qs, s) ← receiveAll read ps s
      return (q :: qs, s)

-- What the stream holds, when a packet is read from it.
structure Received (stream : Bytes) (q : APacket) (rest : Bytes) : Prop where
  msg : q.msg = AMessage.ofBytes (stream.take AMessage.SIZE)
  payload : q.payload = (stream.drop AMessage.SIZE).take q.msg.dataLength.toNat
  rest : rest = stream.drop (AMessage.SIZE + q.msg.dataLength.toNat)

variable {readMsg : σ → Option (Bytes × σ)} {readData : Nat → σ → Option (Bytes × σ)}
  {streamOf : σ → Bytes}

-- When the header passes and the payload is there, it comes down to the checksum.
theorem remoteRead_checks (hm : ReadsAt readMsg streamOf AMessage.SIZE)
    (hd : ∀ n, ReadsAt (readData n) streamOf n) (p : APacket) {s : σ} {m : AMessage}
    (hmsg : m = AMessage.ofBytes ((streamOf s).take AMessage.SIZE))
    (hlong : AMessage.SIZE + m.dataLength.toNat ≤ (streamOf s).length)
    (hmagic : m.magic = m.command ^^^ 0xffffffff) (hshort : m.dataLength.toNat ≤ MAX_PAYLOAD) :
    ∃ q rest, remoteRead readMsg readData p s = (if checkData q ≠ 0 then none else some (q, rest)) ∧
      q.msg = m ∧ Received (streamOf s) q (streamOf rest) := by
  obtain ⟨s', hread, hs'⟩ := hm.full s (by omega)
  have hset : (p.setMsg ((streamOf s).take AMessage.SIZE)).msg = m := hmsg.symm
  have hheader : checkHeader (p.setMsg ((streamOf s).take AMessage.SIZE)) = 0 := by
    apply checkHeader_eq_zero.mpr
    rw [hset]
    exact ⟨hmagic, hshort⟩
  have henough : m.dataLength.toNat ≤ (streamOf s').length := by
    rw [hs', List.length_drop]
    omega
  obtain ⟨s'', hdata, hs''⟩ := (hd m.dataLength.toNat).full s' henough
  have hlen : ((streamOf s').take m.dataLength.toNat).length = m.dataLength.toNat := by
    rw [List.length_take, Nat.min_eq_left henough]
  obtain ⟨q, hq, hqmsg, hqdata⟩ :=
    APacket.setData_some (p := p.setMsg ((streamOf s).take AMessage.SIZE)) (hlen.trans_le hshort)
  have hqm : q.msg = m := hqmsg.trans hset
  have hpayload : q.payload = (streamOf s').take m.dataLength.toNat := by
    rw [APacket.payload, hqm, ← hqdata, hlen]
  refine ⟨q, s'', ?_, hqm, ?_, ?_, ?_⟩
  · simp [remoteRead, hread, hheader, hset, hdata, hq]
  · rw [hqm, hmsg]
  · rw [hpayload, hqm, hs']
  · rw [hs'', hs', hqm, List.drop_drop]

theorem remoteRead_accepts (hm : ReadsAt readMsg streamOf AMessage.SIZE)
    (hd : ∀ n, ReadsAt (readData n) streamOf n) (p : APacket) {s : σ}
    (h : Acceptable (streamOf s)) :
    ∃ q rest, remoteRead readMsg readData p s = some (q, rest) ∧
      Received (streamOf s) q (streamOf rest) := by
  obtain ⟨q, rest, hread, hqm, hr⟩ := remoteRead_checks hm hd p rfl h.payload h.magic h.short
  have hcheck : checkData q = 0 := by
    apply checkData_eq_zero.mpr
    rw [hr.payload, hqm]
    exact h.check
  exact ⟨q, rest, by rw [hread, if_neg (not_not.mpr hcheck)], hr⟩

theorem remoteRead_rejects (hm : ReadsAt readMsg streamOf AMessage.SIZE)
    (hd : ∀ n, ReadsAt (readData n) streamOf n) (p : APacket) {s : σ}
    (h : ¬Acceptable (streamOf s)) : remoteRead readMsg readData p s = none := by
  by_cases hlong : (streamOf s).length < AMessage.SIZE
  · simp [remoteRead, hm.short s hlong]
  rw [Nat.not_lt] at hlong
  obtain ⟨s', hread, hs'⟩ := hm.full s hlong
  obtain ⟨m, hmsg⟩ : ∃ m, m = AMessage.ofBytes ((streamOf s).take AMessage.SIZE) := ⟨_, rfl⟩
  have hset : (p.setMsg ((streamOf s).take AMessage.SIZE)).msg = m := hmsg.symm
  by_cases hheader : checkHeader (p.setMsg ((streamOf s).take AMessage.SIZE)) = 0
  · obtain ⟨hmagic, hshort⟩ := checkHeader_eq_zero.mp hheader
    rw [hset] at hmagic hshort
    by_cases henough : (streamOf s').length < m.dataLength.toNat
    · simp [remoteRead, hread, hheader, hset, (hd _).short s' henough]
    rw [hs', List.length_drop, Nat.not_lt] at henough
    obtain ⟨q, rest, hchecks, hqm, hr⟩ := remoteRead_checks hm hd p hmsg (by omega) hmagic hshort
    have hcheck : checkData q ≠ 0 := by
      intro hzero
      have hsum := checkData_eq_zero.mp hzero
      rw [hr.payload, hqm] at hsum
      subst hmsg
      exact h ⟨hlong, hmagic, hshort, by omega, hsum⟩
    rw [hchecks, if_pos hcheck]
  · simp [remoteRead, hread, hheader]

theorem remoteRead_isSome_iff (hm : ReadsAt readMsg streamOf AMessage.SIZE)
    (hd : ∀ n, ReadsAt (readData n) streamOf n) (p : APacket) (s : σ) :
    (remoteRead readMsg readData p s).isSome ↔ Acceptable (streamOf s) := by
  constructor
  · intro hsome
    by_contra h
    rw [remoteRead_rejects hm hd p h] at hsome
    cases hsome
  · intro h
    obtain ⟨q, rest, hread, -⟩ := remoteRead_accepts hm hd p h
    rw [hread]
    rfl

-- A packet is received as it was handed to send_packet.
structure Recovers (p q : APacket) : Prop where
  command : q.msg.command = p.msg.command
  arg0 : q.msg.arg0 = p.msg.arg0
  arg1 : q.msg.arg1 = p.msg.arg1
  dataLength : q.msg.dataLength = p.msg.dataLength
  payload : q.payload = p.payload

theorem remoteRead_wire (hm : ReadsAt readMsg streamOf AMessage.SIZE)
    (hd : ∀ n, ReadsAt (readData n) streamOf n) (into : APacket) {p : APacket} {s : σ}
    {more : Bytes}
    (hp : p.msg.dataLength.toNat ≤ MAX_PAYLOAD) (hs : streamOf s = (sendPacket p).wire ++ more) :
    ∃ q rest, remoteRead readMsg readData into s = some (q, rest) ∧ Recovers p q ∧
      streamOf rest = more := by
  obtain ⟨q, rest, hread, hr⟩ := remoteRead_accepts hm hd into (hs ▸ acceptable_wire hp more)
  have hmsg : q.msg = (sendPacket p).msg := by rw [hr.msg, hs, take_wire, AMessage.ofBytes_toBytes]
  have hlen : (sendPacket p).wire.length = AMessage.SIZE + q.msg.dataLength.toNat := by
    rw [hmsg]
    exact length_wire (p := sendPacket p) hp
  refine ⟨q, rest, hread,
    ⟨by rw [hmsg]; rfl, by rw [hmsg]; rfl, by rw [hmsg]; rfl, by rw [hmsg]; rfl, ?_⟩, ?_⟩
  · rw [hr.payload, hs, drop_wire, hmsg, sendPacket_payload]
    exact List.take_left' (APacket.length_payload hp)
  · rw [hr.rest, hs, List.drop_left' hlen]

-- The stream of several packets.
def stream (packets : List APacket) : Bytes := (packets.map fun p => (sendPacket p).wire).flatten

theorem receiveAll_stream (hm : ReadsAt readMsg streamOf AMessage.SIZE)
    (hd : ∀ n, ReadsAt (readData n) streamOf n) {packets into : List APacket} {s : σ} {more : Bytes}
    (hp : ∀ p ∈ packets, p.msg.dataLength.toNat ≤ MAX_PAYLOAD)
    (hinto : into.length = packets.length)
    (hs : streamOf s = stream packets ++ more) :
    ∃ qs rest, receiveAll (remoteRead readMsg readData) into s = some (qs, rest) ∧
      List.Forall₂ Recovers packets qs ∧ streamOf rest = more := by
  induction packets generalizing into s with
  | nil =>
      rw [List.length_nil, List.length_eq_zero_iff] at hinto
      subst hinto
      exact ⟨[], s, rfl, List.Forall₂.nil, hs⟩
  | cons p packets ih =>
      obtain ⟨buffer, into, rfl⟩ := List.exists_cons_of_length_eq_add_one hinto
      have hfirst : streamOf s = (sendPacket p).wire ++ (stream packets ++ more) := by
        rw [hs, stream, List.map_cons, List.flatten_cons, List.append_assoc]
        rfl
      obtain ⟨q, s', hread, hq, hs'⟩ := remoteRead_wire hm hd buffer (hp p (by simp)) hfirst
      obtain ⟨qs, rest, hrest, hqs, hmore⟩ :=
        ih (fun x hx => hp x (List.mem_cons_of_mem _ hx)) (Nat.succ.inj hinto) hs'
      exact ⟨q :: qs, rest, by simp [receiveAll, hread, hrest], List.Forall₂.cons hq hqs, hmore⟩

end Reading

section Transports

variable {σ τ : Type}

def tcpRemoteWrite (p : APacket) (writes : List WriteOutcome) :
    Option (Bytes × List WriteOutcome) :=
  writex p.wire writes

def usbRemoteWrite (handle : Option UsbHandle) (p : APacket) (writes : List UsbWrite) :
    Option (List Bytes × List UsbWrite) := do
  let (message, writes) ← usbWrite handle p.msg.toBytes writes
  if p.msg.dataLength = 0 then
    return (message, writes)
  else
    let (payload, writes) ← usbWrite handle p.payload writes
    return (message ++ payload, writes)

-- Packets that are sent one after the other.
def sendAll (write : APacket → σ → Option (List τ × σ)) : List APacket → σ → Option (List τ × σ)
  | [], s => some ([], s)
  | p :: ps, s => do
      let (out, s) ← write (sendPacket p) s
      let (more, s) ← sendAll write ps s
      return (out ++ more, s)

theorem sendAll_stream {write : APacket → σ → Option (List τ × σ)} (bytesOf : List τ → Bytes)
    (hnil : bytesOf [] = [])
    (happend : ∀ out more, bytesOf (out ++ more) = bytesOf out ++ bytesOf more)
    (hwrite : ∀ p s out rest, write p s = some (out, rest) → bytesOf out = p.wire)
    {packets : List APacket} {s rest : σ} {out : List τ}
    (h : sendAll write packets s = some (out, rest)) : bytesOf out = stream packets := by
  induction packets generalizing s out with
  | nil =>
      cases h
      exact hnil
  | cons p packets ih =>
      simp only [sendAll, Option.bind_eq_bind, Option.bind_eq_some_iff, Option.pure_def,
        Option.some.injEq, Prod.exists, Prod.mk.injEq] at h
      obtain ⟨first, mid, hfirst, more, s', hmore, rfl, rfl⟩ := h
      rw [happend, hwrite _ _ _ _ hfirst, ih hmore]
      rfl

theorem usbWrite_flatten {handle : Option UsbHandle} {data : Bytes} {writes rest : List UsbWrite}
    {out : List Bytes} (h : usbWrite handle data writes = some (out, rest)) :
    out.flatten = data := by
  unfold usbWrite at h
  repeat' split at h
  all_goals
    first
    | cases h; simp
    | cases h

theorem usbRemoteWrite_flatten (handle : Option UsbHandle) (p : APacket) (writes : List UsbWrite)
    (out : List Bytes) (rest : List UsbWrite)
    (h : usbRemoteWrite handle p writes = some (out, rest)) :
    out.flatten = p.wire := by
  unfold usbRemoteWrite at h
  simp only [Option.bind_eq_bind, Option.bind_eq_some_iff, Prod.exists] at h
  obtain ⟨message, mid, hmessage, h⟩ := h
  split at h
  · rename_i hzero
    cases h
    rw [usbWrite_flatten hmessage, APacket.wire, APacket.payload, hzero]
    simp
  · simp only [Option.bind_eq_some_iff, Option.pure_def, Option.some.injEq, Prod.exists,
      Prod.mk.injEq] at h
    obtain ⟨payload, rest', hpayload, rfl, rfl⟩ := h
    rw [List.flatten_append, usbWrite_flatten hmessage, usbWrite_flatten hpayload]
    rfl

end Transports

section Writing

variable {writes : List WriteOutcome}

def takesBytes : WriteOutcome → Bool
  | .wrote count => 0 < count
  | _ => false

-- A socket that takes some bytes at each write, unless the write is interrupted.
def Steady (writes : List WriteOutcome) : Prop := ∀ w ∈ writes, w = .intr ∨ takesBytes w = true

theorem writeLoop_steady (bytes : Bytes) (hsteady : Steady writes)
    (henough : bytes.length ≤ writes.countP takesBytes) :
    (writeLoop true bytes writes).outcome = .done ∧ Steady (writeLoop true bytes writes).writes ∧
      writes.countP takesBytes ≤
        (writeLoop true bytes writes).writes.countP takesBytes + bytes.length := by
  induction writes generalizing bytes with
  | nil =>
      cases bytes with
      | nil => exact ⟨rfl, hsteady, Nat.le_refl _⟩
      | cons b bytes => simp at henough
  | cons w writes ih =>
      cases bytes with
      | nil => exact ⟨rfl, hsteady, Nat.le_refl _⟩
      | cons b bytes =>
          have htail : Steady writes := fun x hx => hsteady x (List.mem_cons_of_mem _ hx)
          cases w with
          | again => exact absurd (hsteady .again (by simp)) (by simp [takesBytes])
          | failed => exact absurd (hsteady .failed (by simp)) (by simp [takesBytes])
          | intr =>
              rw [List.countP_cons_of_neg (by simp [takesBytes])] at henough ⊢
              exact ih (b :: bytes) htail henough
          | wrote count =>
              have hpos : 0 < count := by
                have := hsteady (.wrote count) (by simp)
                simpa [takesBytes] using this
              rw [List.countP_cons_of_pos (by simpa [takesBytes] using hpos)] at henough ⊢
              have hdrop : ((b :: bytes).drop count).length ≤ bytes.length := by
                rw [List.length_drop, List.length_cons]
                omega
              rw [List.length_cons] at henough
              obtain ⟨hdone, hleft, hcount⟩ := ih ((b :: bytes).drop count) htail (by omega)
              simp only [writeLoop, if_neg (Nat.ne_of_gt hpos)]
              exact ⟨hdone, hleft, by rw [List.length_cons]; omega⟩

theorem tcp_goes_through {packets : List APacket} (hsteady : Steady writes)
    (henough : (stream packets).length ≤ writes.countP takesBytes) :
    (sendAll tcpRemoteWrite packets writes).isSome := by
  induction packets generalizing writes with
  | nil => rfl
  | cons p packets ih =>
      have hlen : (stream (p :: packets)).length =
          (sendPacket p).wire.length + (stream packets).length := by
        rw [stream, List.map_cons, List.flatten_cons, List.length_append]
        rfl
      obtain ⟨hdone, hleft, hcount⟩ := writeLoop_steady (sendPacket p).wire hsteady (by omega)
      have hwrite : tcpRemoteWrite (sendPacket p) writes =
          some (_, (writeLoop true (sendPacket p).wire writes).writes) := if_pos hdone
      obtain ⟨⟨more, rest⟩, hmore⟩ := Option.isSome_iff_exists.mp (ih hleft (by omega))
      simp [sendAll, hwrite, hmore]

-- The transfers of a packet as they are reported when they go through.
def reported (handle : UsbHandle) (len : Nat) : List UsbWrite :=
  .wrote len :: if endsWithZeroLength handle len then [.wrote 0] else []

def packetReported (handle : UsbHandle) (p : APacket) : List UsbWrite :=
  reported handle AMessage.SIZE ++
    if p.msg.dataLength = 0 then [] else reported handle p.payload.length

theorem usbWrite_reported (handle : UsbHandle) (data : Bytes) (rest : List UsbWrite) :
    ∃ out, usbWrite (some handle) data (reported handle data.length ++ rest) =
      some (out, rest) := by
  unfold reported
  by_cases hzero : endsWithZeroLength handle data.length = true
  · exact ⟨[data, []], by simp [usbWrite, hzero]⟩
  · exact ⟨[data], by simp [usbWrite, hzero]⟩

theorem usbRemoteWrite_reported (handle : UsbHandle) (p : APacket) (rest : List UsbWrite) :
    ∃ out, usbRemoteWrite (some handle) p (packetReported handle p ++ rest) = some (out, rest) := by
  unfold packetReported
  rw [List.append_assoc]
  obtain ⟨message, hmessage⟩ := usbWrite_reported handle p.msg.toBytes
    ((if p.msg.dataLength = 0 then [] else reported handle p.payload.length) ++ rest)
  rw [p.msg.length_toBytes] at hmessage
  by_cases hzero : p.msg.dataLength = 0
  · rw [if_pos hzero, List.nil_append] at hmessage ⊢
    exact ⟨message, by simp [usbRemoteWrite, hmessage, hzero]⟩
  · obtain ⟨payload, hpayload⟩ := usbWrite_reported handle p.payload rest
    rw [if_neg hzero] at hmessage ⊢
    exact ⟨message ++ payload, by simp [usbRemoteWrite, hmessage, hzero, hpayload]⟩

theorem usb_goes_through (handle : UsbHandle) (packets : List APacket) :
    (sendAll (usbRemoteWrite (some handle)) packets
      (packets.flatMap fun p => packetReported handle (sendPacket p))).isSome := by
  induction packets with
  | nil => rfl
  | cons p packets ih =>
      obtain ⟨⟨more, rest⟩, hmore⟩ := Option.isSome_iff_exists.mp ih
      obtain ⟨out, hout⟩ := usbRemoteWrite_reported handle (sendPacket p)
        (packets.flatMap fun p => packetReported handle (sendPacket p))
      rw [List.flatMap_cons]
      simp [sendAll, hout, hmore]

end Writing

section Usb

variable {handle : UsbHandle} {p : APacket} {n : Nat} {transfers : List Transfer}

-- The packet that remote_read leaves where it returns 0, and the transfers to come.
def usbRemoteRead (handle : Option UsbHandle) (p : APacket) (transfers : List Transfer) :
    OptionT (Except MemoryFault) (APacket × List Transfer) :=
  OptionT.mk ((usbReceive handle p transfers).map fun r =>
    if r.ret = some 0 then ((p.setMsg r.header).setData r.data).map (·, r.transfers) else none)

-- What usb_read does for n bytes where all that comes fits the log.
def takePieces (n : Nat) (transfers : List Transfer) : Option (Bytes × List Transfer) :=
  if (∀ part ∈ (pieces n transfers).1, part.ok = true) ∧ (handed n transfers).length = n then
    some (handed n transfers, (pieces n transfers).2)
  else
    none

theorem takePieces_complete (h : Complete n transfers) :
    takePieces n transfers = some (handed n transfers, (pieces n transfers).2) :=
  if_pos ⟨h.ok, h.length⟩

theorem takePieces_incomplete (h : ¬ Complete n transfers) : takePieces n transfers = none :=
  if_neg fun hall => h ⟨hall.1, hall.2⟩

theorem takePieces_readsAt (n : Nat) : ReadsAt (takePieces n) transferred n := by
  constructor
  · intro transfers henough
    have hcomplete := complete_iff.mpr henough
    have hsplit := transferred_complete hcomplete
    refine ⟨(pieces n transfers).2, ?_, ?_⟩
    · rw [takePieces_complete hcomplete, hsplit, List.take_left' hcomplete.length]
    · rw [hsplit, List.drop_left' hcomplete.length]
  · intro transfers hshort
    exact takePieces_incomplete fun hcomplete =>
      absurd (complete_iff.mp hcomplete) (Nat.not_le.mpr hshort)

theorem filledWith_start (memory bytes : Bytes) :
    filledWith memory 0 bytes = bytes ++ memory.drop bytes.length := by
  unfold filledWith
  rw [List.take_zero, List.nil_append, Nat.zero_add]

-- The array as it is filled from its start on is the data of the packet that setData makes.
theorem setData_filledWith {bytes : Bytes} (h : bytes.length ≤ MAX_PAYLOAD) :
    ∃ q, p.setData bytes = some q ∧ p.setData (filledWith p.data 0 bytes) = some q ∧ q.msg = p.msg ∧
      q.data = filledWith p.data 0 bytes := by
  have hlen : (filledWith p.data 0 bytes).length = MAX_PAYLOAD := by
    rw [length_filledWith (by rw [p.whole]; omega), p.whole]
  have hnone : p.data.drop (filledWith p.data 0 bytes).length = [] :=
    List.drop_eq_nil_of_le (by rw [hlen, p.whole])
  refine ⟨⟨p.msg, filledWith p.data 0 bytes, hlen⟩, ?_, ?_, rfl, rfl⟩
  · unfold APacket.setData
    rw [dif_pos h]
    simp only [filledWith_start]
  · unfold APacket.setData
    rw [dif_pos (Nat.le_of_eq hlen)]
    simp only [hnone, List.append_nil]

-- What is left to do once the payload has come in.
theorem received_checks {header bytes : Bytes} (h : bytes.length ≤ MAX_PAYLOAD)
    (rest : List Transfer) :
    (if some (checkReceived header (filledWith p.data 0 bytes)) = some 0 then
        ((p.setMsg header).setData (filledWith p.data 0 bytes)).map (·, rest)
      else none) =
      ((p.setMsg header).setData bytes).bind fun q =>
        if checkData q ≠ 0 then none else some (q, rest) := by
  obtain ⟨q, hq, hfilled, hmsg, hdata⟩ := @setData_filledWith (p.setMsg header) bytes h
  have hcheck : checkReceived header (filledWith p.data 0 bytes) = checkData q := by
    unfold checkReceived checkData APacket.payload
    rw [hmsg, hdata]
    rfl
  change (p.setMsg header).setData (filledWith p.data 0 bytes) = some q at hfilled
  rw [hfilled, hq, hcheck, Option.map_some, Option.bind_some]
  by_cases hzero : checkData q = 0
  · rw [if_pos (congrArg some hzero), if_neg (not_not.mpr hzero)]
  · rw [if_neg (mt Option.some.inj hzero), if_pos hzero]

-- Where all the transfers for the data fit the log, memory and log do not come into it.
theorem usbRemoteRead_logged (h : ∀ part ∈ payloadPieces p transfers, part.Logged) :
    (usbRemoteRead (some handle) p transfers).run =
      .ok (remoteRead (takePieces AMessage.SIZE) takePieces p transfers) := by
  unfold usbRemoteRead remoteRead
  rw [OptionT.run_mk]
  by_cases hcomplete : Complete AMessage.SIZE transfers
  case neg =>
    -- the header has not come in
    obtain ⟨r, hreceive, -, hret⟩ := @usbReceive_incomplete handle p transfers hcomplete
    rw [hreceive, takePieces_incomplete hcomplete, Except.map, if_neg hret]
    rfl
  obtain ⟨requests, -, hreceive⟩ := @usbReceive_complete handle p transfers hcomplete
  rw [takePieces_complete hcomplete]
  by_cases hcheck : checkHeader (p.setMsg (handed AMessage.SIZE transfers)) = 0
  case neg =>
    -- it does not pass
    rw [if_pos hcheck] at hreceive
    simp [hreceive, Except.map, hcheck]
  have hshort : (AMessage.ofBytes (handed AMessage.SIZE transfers)).dataLength.toNat ≤
      MAX_PAYLOAD :=
    (checkHeader_eq_zero.mp hcheck).2
  rw [payloadPieces_admitted hcomplete hcheck] at h
  simp only [hcheck, ne_eq, not_true, if_false] at hreceive
  rw [Option.bind_eq_bind, Option.bind_some]
  simp only [hcheck, ne_eq, not_true, if_false]
  generalize handed AMessage.SIZE transfers = header at *
  generalize (pieces AMessage.SIZE transfers).2 = rest at *
  have hlength : (p.setMsg header).msg.dataLength = (AMessage.ofBytes header).dataLength := rfl
  rw [hlength]
  by_cases hzero : (AMessage.ofBytes header).dataLength = 0
  · -- nothing is read then, and the check is made of no bytes
    have hempty : filledWith p.data 0 [] = p.data := filledWith_start p.data []
    rw [if_pos hzero] at hreceive
    rw [hreceive, hzero, UInt32.toNat_zero, takePieces_complete (complete_zero rest),
      handed_zero, pieces_zero]
    have hchecks := @received_checks p header [] (Nat.zero_le _) rest
    rw [hempty] at hchecks
    exact congrArg Except.ok hchecks
  have hlen : (AMessage.ofBytes header).dataLength.toNat ≠ 0 :=
    fun hnat => hzero (UInt32.toNat_inj.mp hnat)
  obtain ⟨data, hread, hreads⟩ :=
    @usbReadInto_reads handle p.data 0 _ rest hlen (by rw [p.whole]; omega) h
  rw [if_neg hzero, hread] at hreceive
  simp only [bind, Except.bind] at hreceive
  by_cases hret : data.ret = some 0
  · have hall := hreads.complete.mp hret
    rw [if_neg (not_not.mpr hret), hreads.filled hret, hreads.rest hret] at hreceive
    rw [hreceive, takePieces_complete hall]
    exact congrArg Except.ok (received_checks (by rw [hall.length]; exact hshort) _)
  · rw [if_pos hret] at hreceive
    rw [hreceive, takePieces_incomplete (mt hreads.complete.mpr hret), Except.map, if_neg hret]
    rfl

theorem usbRemoteRead_overrun (h : ∃ part ∈ payloadPieces p transfers, ¬ part.Logged) :
    (usbRemoteRead (some handle) p transfers).run = .error .overrun := by
  unfold usbRemoteRead
  rw [OptionT.run_mk, usbReceive_overrun h]
  rfl

end Usb

section Sequence

variable {receiver : UsbHandle} {p q into : APacket} {packets buffers : List APacket} {n : Nat}
  {bytes more : Bytes}
  {transfers rest : List Transfer}

theorem takePieces_rest (h : takePieces n transfers = some (bytes, rest)) :
    rest = (pieces n transfers).2 := by
  unfold takePieces at h
  split at h
  · cases h
    rfl
  · cases h

-- Where the next packet begins.
theorem remoteRead_rest
    (h : remoteRead (takePieces AMessage.SIZE) takePieces into transfers = some (q, rest)) :
    rest = (pieces q.msg.dataLength.toNat (pieces AMessage.SIZE transfers).2).2 := by
  unfold remoteRead at h
  simp only [Option.bind_eq_bind, Option.bind_eq_some_iff, Prod.exists] at h
  obtain ⟨header, behind, hheader, h⟩ := h
  split at h
  · cases h
  simp only [Option.bind_eq_some_iff, Prod.exists] at h
  obtain ⟨data, left, hdata, p, hp, h⟩ := h
  split at h
  · cases h
  cases h
  have hmsg : q.msg = (into.setMsg header).msg := by
    unfold APacket.setData at hp
    split at hp
    · cases hp
      rfl
    · cases hp
  rw [takePieces_rest hdata, takePieces_rest hheader, hmsg]

-- The transfers for the payloads of packets that come in one after the other.
def payloadTransfers : List APacket → List Transfer → List Transfer
  | [], _ => []
  | p :: packets, transfers =>
      (pieces p.msg.dataLength.toNat (pieces AMessage.SIZE transfers).2).1 ++
        payloadTransfers packets
          (pieces p.msg.dataLength.toNat (pieces AMessage.SIZE transfers).2).2

-- The header of a packet that has been sent passes, into whichever buffer it comes.
theorem payloadPieces_wire (hp : p.msg.dataLength.toNat ≤ MAX_PAYLOAD)
    (hs : transferred transfers = (sendPacket p).wire ++ more) :
    payloadPieces into transfers =
      (pieces p.msg.dataLength.toNat (pieces AMessage.SIZE transfers).2).1 := by
  have hacceptable := acceptable_wire hp more
  have hcomplete : Complete AMessage.SIZE transfers := complete_iff.mpr (hs ▸ hacceptable.header)
  have hheader : handed AMessage.SIZE transfers = (sendPacket p).msg.toBytes := by
    have htake := take_wire (sendPacket p) more
    rwa [← hs, transferred_complete hcomplete, List.take_left' hcomplete.length] at htake
  have hcheck : checkHeader (into.setMsg (handed AMessage.SIZE transfers)) = 0 := by
    apply checkHeader_eq_zero.mpr
    unfold APacket.setMsg
    rw [hheader, AMessage.ofBytes_toBytes]
    exact ⟨rfl, hp⟩
  rw [payloadPieces_admitted hcomplete hcheck, hheader, AMessage.ofBytes_toBytes]
  rfl

theorem receiveAll_next
    (h : (usbRemoteRead (some receiver) into transfers).run = .ok (some (q, rest))) :
    (receiveAll (usbRemoteRead (some receiver)) (into :: buffers) transfers).run =
      (receiveAll (usbRemoteRead (some receiver)) buffers rest).run.map
        (Option.map fun result => (q :: result.1, result.2)) := by
  rw [receiveAll, OptionT.run_bind, h]
  show (receiveAll (usbRemoteRead (some receiver)) buffers rest >>= fun result =>
    pure (q :: result.1, result.2)).run = _
  rw [OptionT.run_bind]
  cases (receiveAll (usbRemoteRead (some receiver)) buffers rest).run with
  | error fault => rfl
  | ok result => cases result <;> rfl

-- Packets that come in over USB are received as they were sent, and what follows them is
-- left.
def UsbRoundTrip (receiver : UsbHandle) (packets into : List APacket) (transfers : List Transfer)
    (more : Bytes) : Prop :=
  ∃ qs rest, (receiveAll (usbRemoteRead (some receiver)) into transfers).run =
    .ok (some (qs, rest)) ∧
    List.Forall₂ Recovers packets qs ∧ transferred rest = more

theorem usbRoundTrip_cons
    (hread : (usbRemoteRead (some receiver) into transfers).run = .ok (some (q, rest)))
    (hq : Recovers p q) : UsbRoundTrip receiver (p :: packets) (into :: buffers) transfers more ↔
      UsbRoundTrip receiver packets buffers rest more := by
  unfold UsbRoundTrip
  rw [receiveAll_next hread]
  constructor
  · rintro ⟨qs, left, hall, hqs, hmore⟩
    cases hrest : (receiveAll (usbRemoteRead (some receiver)) buffers rest).run with
    | error fault =>
        rw [hrest] at hall
        cases hall
    | ok result =>
        rw [hrest] at hall
        cases result with
        | none => cases hall
        | some result =>
            cases hall
            exact ⟨result.1, result.2, rfl, (List.forall₂_cons.mp hqs).2, hmore⟩
  · rintro ⟨qs, left, hall, hqs, hmore⟩
    exact ⟨q :: qs, left, by rw [hall]; rfl, List.Forall₂.cons hq hqs, hmore⟩

theorem not_usbRoundTrip
    (h : (usbRemoteRead (some receiver) into transfers).run = .error .overrun) :
    ¬ UsbRoundTrip receiver packets (into :: buffers) transfers more := by
  rintro ⟨qs, left, hall, -⟩
  rw [receiveAll, OptionT.run_bind, h] at hall
  cases hall

-- They are exactly where the transfers for the payloads fit the log. A packet is read
-- when all before it have been.
theorem usb_round_trip_iff (hp : ∀ p ∈ packets, p.msg.dataLength.toNat ≤ MAX_PAYLOAD)
    (hbuffers : buffers.length = packets.length)
    (hs : transferred transfers = stream packets ++ more) :
    UsbRoundTrip receiver packets buffers transfers more ↔
      ∀ part ∈ payloadTransfers packets transfers, part.Logged := by
  induction packets generalizing buffers transfers with
  | nil =>
      rw [List.length_nil, List.length_eq_zero_iff] at hbuffers
      subst hbuffers
      exact iff_of_true ⟨[], transfers, rfl, List.Forall₂.nil, hs⟩ fun part hpart =>
        absurd hpart List.not_mem_nil
  | cons p packets ih =>
      obtain ⟨into, buffers, rfl⟩ := List.exists_cons_of_length_eq_add_one hbuffers
      have hfirst : transferred transfers = (sendPacket p).wire ++ (stream packets ++ more) := by
        rw [hs, stream, List.map_cons, List.flatten_cons, List.append_assoc]
        rfl
      have hshort := hp p List.mem_cons_self
      have hpieces := @payloadPieces_wire p into _ _ hshort hfirst
      rw [payloadTransfers, List.forall_mem_append, ← hpieces]
      by_cases hlogged : ∀ part ∈ payloadPieces into transfers, part.Logged
      · obtain ⟨q, rest, hread, hq, hmore⟩ := remoteRead_wire (takePieces_readsAt AMessage.SIZE)
          takePieces_readsAt into hshort hfirst
        have hrest := remoteRead_rest hread
        rw [hq.dataLength] at hrest
        have hrun : (usbRemoteRead (some receiver) into transfers).run = .ok (some (q, rest)) := by
          rw [usbRemoteRead_logged hlogged, hread]
        rw [usbRoundTrip_cons hrun hq, ← hrest, and_iff_right hlogged]
        exact ih (fun x hx => hp x (List.mem_cons_of_mem _ hx)) (Nat.succ.inj hbuffers) hmore
      · refine iff_of_false (not_usbRoundTrip (usbRemoteRead_overrun ?_)) fun hall => hlogged hall.1
        simpa only [not_forall, exists_prop] using hlogged

-- remote_read comes back, and takes exactly what makes a packet.
def UsbAccepts (handle : UsbHandle) (p : APacket) (transfers : List Transfer) : Prop :=
  ∃ result, (usbRemoteRead (some handle) p transfers).run = .ok result ∧
    (result.isSome ↔ Acceptable (transferred transfers))

theorem usb_accepts_iff (handle : UsbHandle) (p : APacket) (transfers : List Transfer) :
    UsbAccepts handle p transfers ↔ ∀ part ∈ payloadPieces p transfers, part.Logged := by
  constructor
  · rintro ⟨result, hread, -⟩ part hpart
    by_contra hlong
    rw [usbRemoteRead_overrun ⟨part, hpart, hlong⟩] at hread
    cases hread
  · intro hlogged
    exact ⟨_, usbRemoteRead_logged hlogged,
      remoteRead_isSome_iff (takePieces_readsAt AMessage.SIZE) takePieces_readsAt p transfers⟩

end Sequence

section Transports

-- Packets that one side has written, with more behind them, are read by the other one,
-- in order and to the last byte: over TCP however the stream comes in, over USB exactly
-- where AdbReadEndpointSync has room in its log for what comes with each transfer.
structure RoundTrip (packets : List APacket) (more : Bytes) : Prop where
  tcpWrites : ∀ writes, Steady writes → (stream packets).length ≤ writes.countP takesBytes →
    (sendAll tcpRemoteWrite packets writes).isSome
  tcp : (∀ p ∈ packets, p.msg.dataLength.toNat ≤ MAX_PAYLOAD) →
    ∀ writes out left, sendAll tcpRemoteWrite packets writes = some (out, left) →
    ∀ (into : List APacket) reads, into.length = packets.length → arrived reads = out ++ more →
    ∃ qs rest, receiveAll tcpRemoteRead into reads = some (qs, rest) ∧
      List.Forall₂ Recovers packets qs ∧ arrived rest = more
  usbWrites : ∀ handle, (sendAll (usbRemoteWrite (some handle)) packets
    (packets.flatMap fun p => packetReported handle (sendPacket p))).isSome
  usb : (∀ p ∈ packets, p.msg.dataLength.toNat ≤ MAX_PAYLOAD) →
    ∀ sender writes out left, sendAll (usbRemoteWrite sender) packets writes = some (out, left) →
    ∀ receiver (into : List APacket) transfers, into.length = packets.length →
    transferred transfers = out.flatten ++ more →
    (UsbRoundTrip receiver packets into transfers more ↔
      ∀ part ∈ payloadTransfers packets transfers, part.Logged)
  tcpAccepts : ∀ p reads, (tcpRemoteRead p reads).isSome ↔ Acceptable (arrived reads)
  usbAccepts : ∀ handle p transfers,
    UsbAccepts handle p transfers ↔ ∀ part ∈ payloadPieces p transfers, part.Logged

theorem wire_round_trip (packets : List APacket) (more : Bytes) : RoundTrip packets more where
  tcpWrites := fun _ hsteady henough => tcp_goes_through hsteady henough
  tcp := by
    intro hp writes out left hsend into reads hinto hreads
    have hstream : out = stream packets := by
      refine sendAll_stream id rfl (fun _ _ => rfl) ?_ hsend
      intro p s written rest hwrite
      exact writex_written hwrite
    rw [hstream] at hreads
    exact receiveAll_stream (readx_readsAt _) readx_readsAt hp hinto hreads
  usbWrites := fun handle => usb_goes_through handle packets
  usb := by
    intro hp sender writes out left hsend receiver into transfers hinto htransfers
    have hstream : out.flatten = stream packets :=
      sendAll_stream List.flatten rfl (fun _ _ => List.flatten_append)
        (usbRemoteWrite_flatten sender) hsend
    rw [hstream] at htransfers
    exact usb_round_trip_iff hp hinto htransfers
  tcpAccepts := remoteRead_isSome_iff (readx_readsAt _) readx_readsAt
  usbAccepts := usb_accepts_iff

-- A packet that goes out in two transfers.
theorem sendAll_two {p : APacket} (hdata : (sendPacket p).msg.dataLength ≠ 0) :
    sendAll (usbRemoteWrite (some ⟨0⟩)) [p]
      [.wrote AMessage.SIZE, .wrote (sendPacket p).payload.length] =
      some ([(sendPacket p).msg.toBytes, (sendPacket p).payload], []) := by
  have hwrite : ∀ (data : Bytes) (rest : List UsbWrite),
      usbWrite (some ⟨0⟩) data (.wrote data.length :: rest) = some ([data], rest) := by
    intro data rest
    simp [usbWrite, endsWithZeroLength]
  have hmessage := hwrite (sendPacket p).msg.toBytes [.wrote (sendPacket p).payload.length]
  rw [AMessage.length_toBytes] at hmessage
  simp only [sendAll, usbRemoteWrite, hmessage, if_neg hdata, hwrite, Option.bind_eq_bind,
    Option.bind_some]
  rfl

-- One of 1024 bytes, whose transfers come in as they have gone out.
theorem packet_of_1024_bytes_overruns : ∃ writes out,
    sendAll (usbRemoteWrite (some ⟨0⟩)) [zeroPacket] writes = some (out, []) ∧
      ¬ UsbRoundTrip ⟨0⟩ [zeroPacket] [zeroPacket] (out.map (Transfer.mk true)) [] := by
  have hshort : (sendPacket zeroPacket).msg.dataLength.toNat ≤ MAX_PAYLOAD := by decide
  have hlong : ¬ (Transfer.mk true (sendPacket zeroPacket).payload).Logged := fun hlogged =>
    absurd hlogged.index (by rw [APacket.length_payload hshort]; decide)
  refine ⟨_, _, sendAll_two (by decide), not_usbRoundTrip (usbRemoteRead_overrun ⟨_, ?_, hlong⟩)⟩
  rw [List.map_cons, List.map_cons, List.map_nil, payloadPieces_two rfl hshort (by decide)]
  exact List.mem_singleton_self _

end Transports

end Adb.Wire
