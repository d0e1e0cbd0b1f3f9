import Adb.Wire.Endpoint

namespace Adb.Wire

open Adb.Lib
open Adb.Host (Bytes MAX_PAYLOAD A_WRTE)

-- What a request for some of len bytes gets of a transfer. What the transfer has
-- beyond that comes with the next read.
def Transfer.piece (len : Nat) (t : Transfer) : Transfer :=
  { t with bytes := t.bytes.take (min len 4096) }

def Transfer.leave (len : Nat) (t : Transfer) (transfers : List Transfer) : List Transfer :=
  if t.bytes.length ≤ min len 4096 then transfers
  else { t with bytes := t.bytes.drop (min len 4096) } :: transfers

-- How a call of usb_read ends: what it returns (none while it waits for the driver),
-- the memory, the transfers to come, and each request that it has made, with what
-- was left to read then.
structure Receipt where
  ret : Option Int
  memory : Bytes
  transfers : List Transfer
  requests : List (Nat × Nat)

def Receipt.request (left xfer : Nat) (receipt : Receipt) : Receipt :=
  { receipt with requests := (left, xfer) :: receipt.requests }

theorem length_piece (len : Nat) (t : Transfer) :
    (t.piece len).bytes.length = min (min len 4096) t.bytes.length :=
  List.length_take

theorem length_leave_lt {t : Transfer} {transfers : List Transfer} {len : Nat} (hlen : len ≠ 0) :
    len - (t.piece len).bytes.length + (t.leave len transfers).length <
      len + (t :: transfers).length := by
  unfold Transfer.leave
  rw [length_piece]
  split <;> simp only [List.length_cons] <;> omega

-- usb_read, where data points to an index of the memory. That it kicks a handle that
-- is no longer valid does nothing to the memory.
def usbReadInto (handle : Option UsbHandle) (memory : Bytes) (i len : Nat)
    (transfers : List Transfer) :
    Except MemoryFault Receipt :=
  if _h : handle.isNone ∨ len = 0 then
    .ok ⟨some (-1), memory, transfers, []⟩
  else
    match transfers with
    | [] => .ok ⟨none, memory, [], [(len, min len 4096)]⟩
    | t :: transfers =>
        let xfer := min len 4096
        match adbReadEndpointSync memory i xfer t with
        | .error fault => .error fault
        | .ok (memory, _, ret) =>
            -- the same as *bytes_read
            let read := (t.piece len).bytes.length
            if ret then
              if len - read = 0 then
                .ok ⟨some 0, memory, t.leave len transfers, [(len, xfer)]⟩
              else
                (usbReadInto handle memory (i + read) (len - read) (t.leave len transfers)).map
                  (Receipt.request len xfer)
            else
              .ok ⟨some (-1), memory, transfers, [(len, xfer)]⟩
termination_by len + transfers.length
decreasing_by exact length_leave_lt (not_or.mp _h).2

-- What is handed over for len bytes, up to the first failure, and what comes then.
def pieces (len : Nat) (transfers : List Transfer) : List Transfer × List Transfer :=
  if _h : len = 0 then
    ([], transfers)
  else
    match transfers with
    | [] => ([], [])
    | t :: transfers =>
        if t.ok then
          (pieces (len - (t.piece len).bytes.length) (t.leave len transfers)).map
            (t.piece len :: ·) id
        else
          ([t.piece len], transfers)
termination_by len + transfers.length
decreasing_by exact length_leave_lt _h

def handed (len : Nat) (transfers : List Transfer) : Bytes :=
  ((pieces len transfers).1.map Transfer.bytes).flatten

-- All of the bytes come, and no transfer fails before.
structure Complete (len : Nat) (transfers : List Transfer) : Prop where
  ok : ∀ part ∈ (pieces len transfers).1, part.ok = true
  length : (handed len transfers).length = len

def Transfer.Logged (t : Transfer) : Prop := Wire.Logged t.ok t.bytes

-- The memory with some bytes in it from an index on.
def filledWith (memory : Bytes) (i : Nat) (bytes : Bytes) : Bytes :=
  memory.take i ++ bytes ++ memory.drop (i + bytes.length)

-- What a call of usb_read does that does not run over.
structure Reads (memory : Bytes) (i len : Nat) (transfers : List Transfer)
    (receipt : Receipt) : Prop where
  requests : ∀ request ∈ receipt.requests, request.2 ≤ request.1
  complete : receipt.ret = some 0 ↔ Complete len transfers
  rest : receipt.ret = some 0 → receipt.transfers = (pieces len transfers).2
  filled : receipt.ret = some 0 → receipt.memory = filledWith memory i (handed len transfers)

section Rounds

variable {handle : UsbHandle} {memory : Bytes} {i len : Nat} {t : Transfer}
  {transfers : List Transfer}

theorem read_piece (hroom : i + len ≤ memory.length) :
    adbReadEndpointSync memory i (min len 4096) t =
      (logRead (t.piece len).ok (t.piece len).bytes).map fun _ =>
        (filledWith memory i (t.piece len).bytes, (t.piece len).bytes.length, t.ok) :=
  adbReadEndpointSync_eq (by omega)

theorem round_overrun (hlen : len ≠ 0) (hroom : i + len ≤ memory.length)
    (h : ¬ (t.piece len).Logged) :
    usbReadInto (some handle) memory i len (t :: transfers) = .error .overrun := by
  rw [usbReadInto.eq_def, dif_neg (by simp [hlen])]
  simp only [read_piece hroom, logRead_overrun h, Except.map]

theorem round_logged (hlen : len ≠ 0) (hroom : i + len ≤ memory.length) (h : (t.piece len).Logged) :
    usbReadInto (some handle) memory i len (t :: transfers) =
      if t.ok then
        if len - (t.piece len).bytes.length = 0 then
          .ok ⟨some 0, filledWith memory i (t.piece len).bytes, t.leave len transfers,
            [(len, min len 4096)]⟩
        else
          (usbReadInto (some handle) (filledWith memory i (t.piece len).bytes)
            (i + (t.piece len).bytes.length)
            (len - (t.piece len).bytes.length) (t.leave len transfers)).map
              (Receipt.request len (min len 4096))
      else
        .ok ⟨some (-1), filledWith memory i (t.piece len).bytes, transfers,
          [(len, min len 4096)]⟩ := by
  rw [usbReadInto.eq_def, dif_neg (by simp [hlen])]
  simp only [read_piece hroom, logRead_ok h, Except.map]

theorem length_filledWith {bytes : Bytes} (h : i + bytes.length ≤ memory.length) :
    (filledWith memory i bytes).length = memory.length := by
  unfold filledWith
  simp only [List.length_append, List.length_take, List.length_drop]
  omega

-- Bytes and more bytes behind them.
theorem filledWith_filledWith {bytes more : Bytes} (h : i + bytes.length ≤ memory.length) :
    filledWith (filledWith memory i bytes) (i + bytes.length) more =
      filledWith memory i (bytes ++ more) := by
  have hbefore : (memory.take i ++ bytes).length = i + bytes.length := by
    rw [List.length_append, List.length_take]
    omega
  unfold filledWith
  rw [List.take_left' hbefore, List.drop_append, List.drop_of_length_le (by omega), hbefore,
    List.nil_append, List.drop_drop, List.length_append,
    List.append_assoc (memory.take i) bytes more]
  congr 2
  omega

theorem pieces_zero (transfers : List Transfer) : pieces 0 transfers = ([], transfers) := by
  rw [pieces.eq_def]
  exact dif_pos rfl

theorem pieces_ok (hlen : len ≠ 0) (h : t.ok = true) : pieces len (t :: transfers) =
    (t.piece len :: (pieces (len - (t.piece len).bytes.length) (t.leave len transfers)).1,
      (pieces (len - (t.piece len).bytes.length) (t.leave len transfers)).2) := by
  rw [pieces.eq_def, dif_neg hlen]
  exact if_pos h

theorem pieces_failed (hlen : len ≠ 0) (h : ¬ t.ok = true) :
    pieces len (t :: transfers) = ([t.piece len], transfers) := by
  rw [pieces.eq_def, dif_neg hlen]
  exact if_neg h

theorem handed_ok (hlen : len ≠ 0) (h : t.ok = true) : handed len (t :: transfers) =
    (t.piece len).bytes ++ handed (len - (t.piece len).bytes.length) (t.leave len transfers) := by
  unfold handed
  rw [pieces_ok hlen h]
  rfl

theorem handed_zero (transfers : List Transfer) : handed 0 transfers = [] := by
  rw [handed, pieces_zero]
  rfl

theorem complete_zero (transfers : List Transfer) : Complete 0 transfers := by
  constructor
  · rw [pieces_zero]
    exact fun part hpart => absurd hpart List.not_mem_nil
  · rw [handed_zero]
    rfl

theorem complete_ok (hlen : len ≠ 0) (h : t.ok = true) : Complete len (t :: transfers) ↔
    Complete (len - (t.piece len).bytes.length) (t.leave len transfers) := by
  have hpiece := length_piece len t
  have hlength := congrArg List.length (@handed_ok len t transfers hlen h)
  rw [List.length_append] at hlength
  have hparts : (∀ part ∈ (pieces len (t :: transfers)).1, part.ok = true) ↔
      ∀ part ∈ (pieces (len - (t.piece len).bytes.length) (t.leave len transfers)).1,
        part.ok = true := by
    rw [pieces_ok hlen h, List.forall_mem_cons]
    exact and_iff_right h
  constructor
  · intro hall
    have hsum := hall.length
    exact ⟨hparts.mp hall.ok, by omega⟩
  · intro hmore
    have hsum := hmore.length
    exact ⟨hparts.mpr hmore.ok, by omega⟩

theorem not_complete_failed (hlen : len ≠ 0) (h : ¬ t.ok = true) :
    ¬ Complete len (t :: transfers) := by
  intro hall
  refine h (hall.ok (t.piece len) ?_)
  rw [pieces_failed hlen h]
  exact List.mem_cons_self

-- A transfer that does not fit the log is one too many.
theorem usbReadInto_overrun (hroom : i + len ≤ memory.length)
    (h : ∃ part ∈ (pieces len transfers).1, ¬ part.Logged) :
    usbReadInto (some handle) memory i len transfers = .error .overrun := by
  fun_induction pieces len transfers generalizing memory i with
  | case1 transfers =>
      obtain ⟨part, hpart, -⟩ := h
      cases hpart
  | case2 len hlen =>
      obtain ⟨part, hpart, -⟩ := h
      cases hpart
  | case3 len hlen t transfers hok ih =>
      have hpiece := length_piece len t
      by_cases hlogged : (t.piece len).Logged
      · obtain ⟨part, hpart, hlong⟩ := h
        obtain rfl | hmore := List.mem_cons.mp hpart
        · exact absurd hlogged hlong
        · have hleft : len - (t.piece len).bytes.length ≠ 0 := by
            intro hzero
            rw [hzero, pieces_zero] at hmore
            cases hmore
          rw [round_logged hlen hroom hlogged, if_pos hok, if_neg hleft,
            ih (by rw [length_filledWith (by omega)]; omega) ⟨part, hmore, hlong⟩]
          rfl
      · exact round_overrun hlen hroom hlogged
  | case4 len hlen t transfers hfailed =>
      obtain ⟨part, hpart, hlong⟩ := h
      obtain rfl := List.mem_singleton.mp hpart
      exact round_overrun hlen hroom hlong

-- Where all of them fit, the loop gets to its end.
theorem usbReadInto_reads (hlen : len ≠ 0) (hroom : i + len ≤ memory.length)
    (h : ∀ part ∈ (pieces len transfers).1, part.Logged) :
    ∃ receipt, usbReadInto (some handle) memory i len transfers = .ok receipt ∧
      Reads memory i len transfers receipt := by
  fun_induction pieces len transfers generalizing memory i with
  | case1 transfers => exact absurd rfl hlen
  | case2 len _ =>
      refine ⟨⟨none, memory, [], [(len, min len 4096)]⟩, ?_,
        ⟨?_, ?_, fun hret => (by cases hret), fun hret => (by cases hret)⟩⟩
      · rw [usbReadInto.eq_def, dif_neg (by simp [hlen])]
      · intro request hrequest
        obtain rfl := List.mem_singleton.mp hrequest
        exact Nat.min_le_left _ _
      · refine iff_of_false (by simp) fun hall => ?_
        have hlength := hall.length
        rw [handed, pieces.eq_def, dif_neg hlen] at hlength
        exact hlen hlength.symm
  | case3 len _ t transfers hok ih =>
      have hpiece := length_piece len t
      have hlogged : (t.piece len).Logged := h _ List.mem_cons_self
      by_cases hzero : len - (t.piece len).bytes.length = 0
      · refine ⟨_, by rw [round_logged hlen hroom hlogged, if_pos hok, if_pos hzero],
          ⟨?_, ?_, ?_, ?_⟩⟩
        · intro request hrequest
          obtain rfl := List.mem_singleton.mp hrequest
          exact Nat.min_le_left _ _
        · rw [complete_ok hlen hok, hzero]
          exact iff_of_true rfl (complete_zero _)
        · intro _
          rw [pieces_ok hlen hok, hzero, pieces_zero]
        · intro _
          rw [handed_ok hlen hok, hzero, handed_zero, List.append_nil]
      · have hfilled : (filledWith memory i (t.piece len).bytes).length = memory.length :=
          length_filledWith (by omega)
        obtain ⟨receipt, hread, hreads⟩ := @ih (filledWith memory i (t.piece len).bytes)
          (i + (t.piece len).bytes.length) hzero (by omega)
          fun part hpart => h part (List.mem_cons_of_mem _ hpart)
        refine ⟨receipt.request len (min len 4096), ?_, ⟨?_, ?_, ?_, ?_⟩⟩
        · rw [round_logged hlen hroom hlogged, if_pos hok, if_neg hzero, hread]
          rfl
        · intro request hrequest
          obtain rfl | hrequest := List.mem_cons.mp hrequest
          · exact Nat.min_le_left _ _
          · exact hreads.requests request hrequest
        · rw [complete_ok hlen hok]
          exact hreads.complete
        · intro hret
          rw [pieces_ok hlen hok]
          exact hreads.rest hret
        · intro hret
          rw [handed_ok hlen hok, ← filledWith_filledWith (by omega)]
          exact hreads.filled hret
  | case4 len _ t transfers hfailed =>
      have hlogged : (t.piece len).Logged := h _ List.mem_cons_self
      refine ⟨_, by rw [round_logged hlen hroom hlogged, if_neg hfailed],
        ⟨?_, iff_of_false (by simp) (not_complete_failed hlen hfailed), fun hret => (by cases hret),
          fun hret => (by cases hret)⟩⟩
      intro request hrequest
      obtain rfl := List.mem_singleton.mp hrequest
      exact Nat.min_le_left _ _

end Rounds

section Stream

variable {len : Nat} {t : Transfer} {transfers : List Transfer}

theorem transferred_ok (h : t.ok = true) :
    transferred (t :: transfers) = (t.piece len).bytes ++ transferred (t.leave len transfers) := by
  unfold Transfer.piece Transfer.leave
  split
  · rename_i hle
    rw [transferred, if_pos h, List.take_of_length_le hle]
  · rw [transferred, transferred, if_pos h, if_pos h, ← List.append_assoc, List.take_append_drop]

theorem transferred_complete (h : Complete len transfers) :
    transferred transfers = handed len transfers ++ transferred (pieces len transfers).2 := by
  fun_induction pieces len transfers with
  | case1 transfers =>
      rw [handed_zero]
      rfl
  | case2 len hlen =>
      rw [handed, pieces.eq_def, dif_neg hlen]
      rfl
  | case3 len hlen t transfers hok ih =>
      rw [transferred_ok hok, handed_ok hlen hok, ih ((complete_ok hlen hok).mp h),
        List.append_assoc]
      rfl
  | case4 len hlen t transfers hfailed => exact absurd h (not_complete_failed hlen hfailed)

-- All of the bytes come where as many come in before a request fails.
theorem complete_iff : Complete len transfers ↔ len ≤ (transferred transfers).length := by
  constructor
  · intro h
    rw [transferred_complete h, List.length_append, h.length]
    exact Nat.le_add_right _ _
  · intro h
    fun_induction pieces len transfers with
    | case1 transfers => exact complete_zero transfers
    | case2 len hlen => exact absurd (Nat.le_zero.mp h) hlen
    | case3 len hlen t transfers hok ih =>
        refine (complete_ok hlen hok).mpr (ih ?_)
        rw [@transferred_ok len t transfers hok, List.length_append] at h
        omega
    | case4 len hlen t transfers hfailed =>
        rw [transferred, if_neg hfailed] at h
        exact absurd (Nat.le_zero.mp h) hlen

end Stream

-- How a call of remote_read ends.
structure Reception where
  ret : Option Int
  header : Bytes
  data : Bytes
  transfers : List Transfer
  requests : List (Nat × Nat)

-- check_data, for what has come into the packet.
def checkReceived (header data : Bytes) : Int :=
  if byteSum (data.take (AMessage.ofBytes header).dataLength.toNat) ≠
    (AMessage.ofBytes header).dataCheck then -1
  else 0

-- remote_read, into the packet p.
def usbReceive (handle : Option UsbHandle) (p : APacket) (transfers : List Transfer) :
    Except MemoryFault Reception := do
  let message ← usbReadInto handle p.msg.toBytes 0 AMessage.SIZE transfers
  let header := message.memory
  if message.ret ≠ some 0 then
    .ok ⟨message.ret, header, p.data, message.transfers, message.requests⟩
  else if checkHeader (p.setMsg header) ≠ 0 then
    .ok ⟨some (-1), header, p.data, message.transfers, message.requests⟩
  else if (AMessage.ofBytes header).dataLength = 0 then
    .ok ⟨some (checkReceived header p.data), header, p.data, message.transfers, message.requests⟩
  else
    let data ← usbReadInto handle p.data 0
        (AMessage.ofBytes header).dataLength.toNat message.transfers
    let requests := message.requests ++ data.requests
    if data.ret ≠ some 0 then
      .ok ⟨data.ret, header, data.memory, data.transfers, requests⟩
    else
      .ok ⟨some (checkReceived header data.memory), header, data.memory, data.transfers, requests⟩

-- The transfers for the data of a packet whose header has come in and passed.
def payloadPieces (p : APacket) (transfers : List Transfer) : List Transfer :=
  if (∀ part ∈ (pieces AMessage.SIZE transfers).1, part.ok = true) ∧
      (handed AMessage.SIZE transfers).length = AMessage.SIZE ∧
      checkHeader (p.setMsg (handed AMessage.SIZE transfers)) = 0 then
    (pieces (AMessage.ofBytes (handed AMessage.SIZE transfers)).dataLength.toNat
      (pieces AMessage.SIZE transfers).2).1
  else
    []

def Reception.payload (r : Reception) : Bytes :=
  r.data.take (AMessage.ofBytes r.header).dataLength.toNat

-- The bytes of the transfers are in the packet, in their order, and the next read
-- goes on behind them.
structure Delivered (transfers : List Transfer) (r : Reception) : Prop where
  header : r.header.length = AMessage.SIZE
  payload : r.payload.length = (AMessage.ofBytes r.header).dataLength.toNat
  stream : transferred transfers = r.header ++ (r.payload ++ transferred r.transfers)

-- No index is out of bounds, nothing is asked for beyond what is left, and a packet
-- that is received is what the driver has handed over.
def ReceiveRight (handle : Option UsbHandle) (p : APacket) (transfers : List Transfer) : Prop :=
  ∃ r, usbReceive handle p transfers = .ok r ∧ (∀ request ∈ r.requests, request.2 ≤ request.1) ∧
    (r.ret = some 0 → Delivered transfers r)

section Receive

variable {handle : UsbHandle} {p : APacket} {transfers : List Transfer} {len : Nat}

theorem pieces_short : ∀ part ∈ (pieces len transfers).1, part.bytes.length ≤ len := by
  fun_induction pieces len transfers with
  | case1 transfers => exact fun part hpart => absurd hpart List.not_mem_nil
  | case2 len hlen => exact fun part hpart => absurd hpart List.not_mem_nil
  | case3 len hlen t transfers hok ih =>
      intro part hpart
      have hpiece := length_piece len t
      obtain rfl | hmore := List.mem_cons.mp hpart
      · omega
      · have hle := ih part hmore
        omega
  | case4 len hlen t transfers hfailed =>
      intro part hpart
      obtain rfl := List.mem_singleton.mp hpart
      have hpiece := length_piece len t
      omega

-- The header is too short to be a problem for the log.
theorem header_logged : ∀ part ∈ (pieces AMessage.SIZE transfers).1, part.Logged := by
  intro part hpart
  have hshort := pieces_short part hpart
  have hline := (List.takeWhile_prefix (l := part.bytes) fun c => decide (c ≠ 0)).length_le
  unfold AMessage.SIZE at hshort
  refine ⟨by unfold LOG_SIZE; omega, ?_⟩
  unfold LOG_SIZE
  split <;> omega

theorem filledWith_whole {memory bytes : Bytes} (h : bytes.length = memory.length) :
    filledWith memory 0 bytes = bytes := by
  unfold filledWith
  rw [List.take_zero, List.nil_append, Nat.zero_add, List.drop_of_length_le (by omega),
    List.append_nil]

theorem take_filledWith {memory bytes : Bytes} :
    (filledWith memory 0 bytes).take bytes.length = bytes := by
  unfold filledWith
  rw [List.take_zero, List.nil_append, List.take_left]

-- A header that does not come in whole.
theorem usbReceive_incomplete (h : ¬ Complete AMessage.SIZE transfers) :
    ∃ r, usbReceive (some handle) p transfers = .ok r ∧
      (∀ request ∈ r.requests, request.2 ≤ request.1) ∧
      r.ret ≠ some 0 := by
  obtain ⟨message, hread, hreads⟩ :=
    @usbReadInto_reads handle p.msg.toBytes 0 AMessage.SIZE transfers
    (by decide) (by rw [AMessage.length_toBytes]; omega) header_logged
  have hret := mt hreads.complete.mp h
  refine ⟨⟨message.ret, message.memory, p.data, message.transfers, message.requests⟩, ?_,
    hreads.requests, hret⟩
  simp only [usbReceive, hread, bind, Except.bind]
  exact if_pos hret

-- One that does, and what remote_read does then.
theorem usbReceive_complete (h : Complete AMessage.SIZE transfers) :
    ∃ requests : List (Nat × Nat), (∀ request ∈ requests, request.2 ≤ request.1) ∧
      usbReceive (some handle) p transfers =
        let header := handed AMessage.SIZE transfers
        let rest := (pieces AMessage.SIZE transfers).2
        if checkHeader (p.setMsg header) ≠ 0 then
          .ok ⟨some (-1), header, p.data, rest, requests⟩
        else if (AMessage.ofBytes header).dataLength = 0 then
          .ok ⟨some (checkReceived header p.data), header, p.data, rest, requests⟩
        else
          usbReadInto (some handle) p.data 0
            (AMessage.ofBytes header).dataLength.toNat rest >>= fun data =>
            if data.ret ≠ some 0 then
              .ok ⟨data.ret, header, data.memory, data.transfers, requests ++ data.requests⟩
            else
              .ok ⟨some (checkReceived header data.memory), header, data.memory, data.transfers,
                requests ++ data.requests⟩ := by
  obtain ⟨message, hread, hreads⟩ :=
    @usbReadInto_reads handle p.msg.toBytes 0 AMessage.SIZE transfers
    (by decide) (by rw [AMessage.length_toBytes]; omega) header_logged
  have hret := hreads.complete.mpr h
  have hheader : message.memory = handed AMessage.SIZE transfers := by
    rw [hreads.filled hret, filledWith_whole (by rw [h.length, AMessage.length_toBytes])]
  refine ⟨message.requests, hreads.requests, ?_⟩
  rw [usbReceive, hread]
  show (if message.ret ≠ some 0 then _ else _) = _
  rw [if_neg (not_not.mpr hret), hheader, hreads.rest hret]

theorem payloadPieces_admitted (h : Complete AMessage.SIZE transfers)
    (hcheck : checkHeader (p.setMsg (handed AMessage.SIZE transfers)) = 0) :
    payloadPieces p transfers =
      (pieces (AMessage.ofBytes (handed AMessage.SIZE transfers)).dataLength.toNat
        (pieces AMessage.SIZE transfers).2).1 :=
  if_pos ⟨h.ok, h.length, hcheck⟩

theorem payloadPieces_refused (h : ¬ (Complete AMessage.SIZE transfers ∧
    checkHeader (p.setMsg (handed AMessage.SIZE transfers)) = 0)) : payloadPieces p
      transfers = [] :=
  if_neg fun hall => h ⟨⟨hall.1, hall.2.1⟩, hall.2.2⟩

theorem usbReceive_right (h : ∀ part ∈ payloadPieces p transfers, part.Logged) :
    ReceiveRight (some handle) p transfers := by
  by_cases hcomplete : Complete AMessage.SIZE transfers
  · obtain ⟨requests, hrequests, hreceive⟩ := @usbReceive_complete handle p transfers hcomplete
    have hstream := transferred_complete hcomplete
    have hheader := hcomplete.length
    by_cases hcheck : checkHeader (p.setMsg (handed AMessage.SIZE transfers)) = 0
    · obtain ⟨-, hshort⟩ := checkHeader_eq_zero.mp hcheck
      rw [payloadPieces_admitted hcomplete hcheck] at h
      simp only [hcheck, ne_eq, not_true, if_false] at hreceive
      change (AMessage.ofBytes (handed AMessage.SIZE transfers)).dataLength.toNat ≤
        MAX_PAYLOAD at hshort
      generalize handed AMessage.SIZE transfers = header at *
      generalize (pieces AMessage.SIZE transfers).2 = rest at *
      by_cases hzero : (AMessage.ofBytes header).dataLength = 0
      · rw [if_pos hzero] at hreceive
        refine ⟨_, hreceive, hrequests, fun _ => ⟨hheader, ?_, ?_⟩⟩
        · simp [Reception.payload, hzero]
        · simpa [Reception.payload, hzero] using hstream
      · have hlen : (AMessage.ofBytes header).dataLength.toNat ≠ 0 :=
          fun hnat => hzero (UInt32.toNat_inj.mp hnat)
        obtain ⟨data, hread, hreads⟩ := @usbReadInto_reads handle p.data 0 _ rest hlen
          (by rw [p.whole]; omega) h
        rw [if_neg hzero, hread] at hreceive
        simp only [bind, Except.bind] at hreceive
        have hall : ∀ request ∈ requests ++ data.requests, request.2 ≤ request.1 := by
          intro request hrequest
          obtain hfirst | hmore := List.mem_append.mp hrequest
          · exact hrequests request hfirst
          · exact hreads.requests request hmore
        by_cases hret : data.ret = some 0
        · have hdata := hreads.complete.mp hret
          have hpayload : data.memory.take (AMessage.ofBytes header).dataLength.toNat =
              handed (AMessage.ofBytes header).dataLength.toNat rest := by
            rw [hreads.filled hret]
            have htake :=
              @take_filledWith p.data (handed (AMessage.ofBytes header).dataLength.toNat rest)
            rwa [hdata.length] at htake
          rw [if_neg (not_not.mpr hret)] at hreceive
          refine ⟨_, hreceive, hall, fun _ => ⟨hheader, ?_, ?_⟩⟩
          · unfold Reception.payload
            rw [hpayload, hdata.length]
          · unfold Reception.payload
            rw [hstream, hpayload, transferred_complete hdata, hreads.rest hret]
        · rw [if_pos hret] at hreceive
          exact ⟨_, hreceive, hall, fun hzero => absurd hzero hret⟩
    · rw [if_pos hcheck] at hreceive
      exact ⟨_, hreceive, hrequests, fun hret => by cases hret⟩
  · obtain ⟨r, hreceive, hrequests, hret⟩ := @usbReceive_incomplete handle p transfers hcomplete
    exact ⟨r, hreceive, hrequests, fun hzero => absurd hzero hret⟩

theorem usbReceive_overrun (h : ∃ part ∈ payloadPieces p transfers, ¬ part.Logged) :
    usbReceive (some handle) p transfers = .error .overrun := by
  obtain ⟨part, hpart, hlong⟩ := h
  by_cases hadmitted : Complete AMessage.SIZE transfers ∧
      checkHeader (p.setMsg (handed AMessage.SIZE transfers)) = 0
  · obtain ⟨hcomplete, hcheck⟩ := hadmitted
    obtain ⟨requests, -, hreceive⟩ := @usbReceive_complete handle p transfers hcomplete
    obtain ⟨-, hshort⟩ := checkHeader_eq_zero.mp hcheck
    change (AMessage.ofBytes (handed AMessage.SIZE transfers)).dataLength.toNat ≤
      MAX_PAYLOAD at hshort
    rw [payloadPieces_admitted hcomplete hcheck] at hpart
    simp only [hcheck, ne_eq, not_true, if_false] at hreceive
    have hdata : (AMessage.ofBytes (handed AMessage.SIZE transfers)).dataLength ≠ 0 := by
      intro hzero
      rw [hzero, UInt32.toNat_zero, pieces_zero] at hpart
      cases hpart
    rw [hreceive, if_neg hdata, usbReadInto_overrun (by rw [p.whole]; omega) ⟨part, hpart, hlong⟩]
    rfl
  · rw [payloadPieces_refused hadmitted] at hpart
    cases hpart

-- A packet is received in bounds exactly where every transfer for its data fits the
-- log of AdbReadEndpointSync.
theorem usb_receive_right_iff (handle : Option UsbHandle) (p : APacket)
    (transfers : List Transfer) :
    ReceiveRight handle p transfers ↔
      handle = none ∨ ∀ part ∈ payloadPieces p transfers, part.Logged := by
  cases handle with
  | none =>
      have hread : usbReadInto none p.msg.toBytes 0 AMessage.SIZE transfers =
          .ok ⟨some (-1), p.msg.toBytes, transfers, []⟩ := by
        rw [usbReadInto.eq_def]
        exact dif_pos (.inl rfl)
      refine iff_of_true ⟨⟨some (-1), p.msg.toBytes, p.data, transfers, []⟩, ?_, ?_, ?_⟩ (.inl rfl)
      · simp only [usbReceive, hread, bind, Except.bind]
        rfl
      · exact fun request hrequest => absurd hrequest List.not_mem_nil
      · exact fun hret => by cases hret
  | some handle =>
      constructor
      · intro ⟨r, hreceive, _⟩
        refine .inr fun part hpart => ?_
        by_contra hlong
        rw [usbReceive_overrun ⟨part, hpart, hlong⟩] at hreceive
        cases hreceive
      · intro h
        exact usbReceive_right (h.resolve_left (Option.some_ne_none handle))

-- A transfer of just as many bytes as there are to come.
theorem pieces_exact {t : Transfer} (hlen : len ≠ 0) (hmost : len ≤ 4096) (hok : t.ok = true)
    (hbytes : t.bytes.length = len) : pieces len (t :: transfers) = ([t], transfers) := by
  have hpiece : t.piece len = t := by
    unfold Transfer.piece
    rw [List.take_of_length_le (by omega)]
  rw [pieces_ok hlen hok, hpiece, hbytes, Nat.sub_self, pieces_zero]
  unfold Transfer.leave
  rw [if_pos (by omega)]

-- A packet whose data comes in one transfer.
theorem payloadPieces_two {q : APacket} (hmagic : q.msg.magic = q.msg.command ^^^ 0xffffffff)
    (hshort : q.msg.dataLength.toNat ≤ MAX_PAYLOAD) (hdata : q.msg.dataLength.toNat ≠ 0) :
    payloadPieces p [⟨true, q.msg.toBytes⟩, ⟨true, q.payload⟩] = [⟨true, q.payload⟩] := by
  have hheader : pieces AMessage.SIZE [⟨true, q.msg.toBytes⟩, ⟨true, q.payload⟩] =
      ([⟨true, q.msg.toBytes⟩], [⟨true, q.payload⟩]) :=
    pieces_exact (by decide) (by decide) rfl q.msg.length_toBytes
  have hpayload : pieces q.msg.dataLength.toNat [⟨true, q.payload⟩] = ([⟨true, q.payload⟩], []) :=
    pieces_exact hdata hshort rfl (APacket.length_payload hshort)
  have hhanded : handed AMessage.SIZE [⟨true, q.msg.toBytes⟩, ⟨true, q.payload⟩] =
      q.msg.toBytes := by
    rw [handed, hheader]
    exact List.append_nil _
  have hcomplete : Complete AMessage.SIZE [⟨true, q.msg.toBytes⟩, ⟨true, q.payload⟩] := by
    refine ⟨fun part hpart => ?_, by rw [hhanded, AMessage.length_toBytes]⟩
    rw [hheader] at hpart
    rw [List.mem_singleton.mp hpart]
  have hcheck : checkHeader (p.setMsg q.msg.toBytes) = 0 := by
    apply checkHeader_eq_zero.mpr
    unfold APacket.setMsg
    rw [AMessage.ofBytes_toBytes]
    exact ⟨hmagic, hshort⟩
  rw [payloadPieces_admitted hcomplete (by rw [hhanded, hcheck]), hhanded, AMessage.ofBytes_toBytes,
    hheader, hpayload]

def zeroPacket : APacket where
  msg := ⟨A_WRTE, 1, 1, 1024, 0, A_WRTE ^^^ 0xffffffff⟩
  data := List.replicate MAX_PAYLOAD 0
  whole := List.length_replicate

theorem full_log_overruns :
    ¬ ReceiveRight (some ⟨0⟩) zeroPacket
      [⟨true, zeroPacket.msg.toBytes⟩, ⟨true, zeroPacket.payload⟩] := by
  intro ⟨r, hreceive, _⟩
  have hshort : zeroPacket.msg.dataLength.toNat ≤ MAX_PAYLOAD := by decide
  have hlong : ¬ (Transfer.mk true zeroPacket.payload).Logged := fun hlogged =>
    absurd hlogged.index (by rw [APacket.length_payload hshort]; decide)
  rw [usbReceive_overrun ⟨⟨true, zeroPacket.payload⟩, ?_, hlong⟩] at hreceive
  · cases hreceive
  · rw [payloadPieces_two rfl hshort (by decide)]
    exact List.mem_singleton_self _

end Receive

end Adb.Wire
