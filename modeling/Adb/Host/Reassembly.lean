import Adb.Host.Packets
import Adb.Lib.CString
import Mathlib.Data.List.Induction

namespace Adb.Host

open Adb.Lib

-- What a packet makes of the bytes a smart socket holds already.
inductive Receipt where
  | overflow
  | waits
  | rejects
  | serves (service : Bytes)
deriving DecidableEq

def Receipt.ofFraming : Framing → Receipt
  | .incomplete => .waits
  | .badSize => .rejects
  | .complete service => .serves service

def receive (pkts : List Bytes) (p : Bytes) : Receipt :=
  let data := pkts.headD [] ++ p
  if pkts ≠ [] ∧ data.length > MAX_PAYLOAD then
    .overflow
  else
    .ofFraming (frame data)

section Enqueue

variable (enqueue : Server → Nat → Bytes → Except Stop (Int × Server))

-- What smart_socket_enqueue does once it has a whole request.
def serve (st : Server) (a : Nat) (service : Bytes) : Except Stop (Int × Server) :=
  match parseRequest service with
  | .host service ttype serial => smartHostRequest enqueue st a service ttype serial
  | .device service => smartForward st a service

theorem smartSocketEnqueue_receive {st : Server} {a : Nat} {s : ASocket} (hs : st.socks a = some s)
    (p : Bytes) :
    smartSocketEnqueue enqueue st a p =
      match receive s.pkts p with
      | .overflow => smartFail st a
      | .waits => .ok (0, st.put a { s with pkts := [s.pkts.headD [] ++ p] })
      | .rejects => smartFail (st.put a { s with pkts := [s.pkts.headD [] ++ p] }) a
      | .serves service => serve enqueue (st.put a { s with pkts := [s.pkts.headD [] ++ p] }) a service := by
  have hd : st.deref a = .ok s := by simp only [Server.deref, hs]
  simp only [smartSocketEnqueue, hd, bind, Except.bind, receive]
  split
  · rfl
  · cases frame (s.pkts.headD [] ++ p) with
    | incomplete => rfl
    | badSize => rfl
    | complete service =>
        unfold serve Receipt.ofFraming
        cases parseRequest service <;> rfl

-- Packets that come in one after the other. The code is that of the last one.
def deliver (st : Server) (a : Nat) (packets : List Bytes) : Except Stop (Int × Server) :=
  packets.foldlM (fun result p => smartSocketEnqueue enqueue result.2 a p) (0, st)

end Enqueue

section Framing

variable {r data service : Bytes} {n : Nat}

-- Four hex digits of n, and n bytes.
structure WellFramed (r : Bytes) : Prop where
  digits : ∃ n, unhex (r.take 4) = some n ∧ 1 ≤ n ∧ n ≤ 1024 ∧ r.length = n + 4

-- Four bytes that are not hex digits or that say 0 or more than 1024.
structure Malformed (r : Bytes) : Prop where
  long : 4 ≤ r.length
  digits : ∀ n, unhex (r.take 4) = some n → n < 1 ∨ n > 1024

def requestBody (r : Bytes) : Bytes := (r.drop 4).takeWhile (· ≠ 0)

theorem WellFramed.short (h : WellFramed r) : r.length ≤ 1028 := by
  obtain ⟨n, -, -, hn, hlen⟩ := h.digits
  omega

theorem WellFramed.frame (h : WellFramed r) : frame r = .complete (requestBody r) := by
  obtain ⟨n, hn, hlow, hhigh, hlen⟩ := h.digits
  have htake : (r.drop 4).take n = r.drop 4 := List.take_of_length_le (by simp; omega)
  unfold Host.frame
  rw [if_neg (by omega)]
  simp only [hn, htake, requestBody]
  rw [if_neg (by omega), if_neg (by omega)]

theorem take_of_begins (hp : data <+: r) (hn : n ≤ data.length) : data.take n = r.take n := by
  obtain ⟨rest, rfl⟩ := hp
  rw [List.take_append_of_le_length hn]

theorem WellFramed.frame_begins (h : WellFramed r) (hp : data <+: r) (hlt : data.length < r.length) :
    Host.frame data = .incomplete := by
  obtain ⟨n, hn, hlow, hhigh, hlen⟩ := h.digits
  unfold Host.frame
  split
  · rfl
  · have htake : data.take 4 = r.take 4 := take_of_begins hp (by omega)
    simp only [htake, hn]
    rw [if_neg (by omega), if_pos (by omega)]

theorem Malformed.frame (h : Malformed r) (hp : data <+: r) (hlong : 4 ≤ data.length) :
    Host.frame data = .badSize := by
  have htake : data.take 4 = r.take 4 := take_of_begins hp hlong
  unfold Host.frame
  rw [if_neg (by omega), htake]
  cases hn : unhex (r.take 4) with
  | none => rfl
  | some n => exact if_pos (h.digits n hn)

end Framing

section Packets

variable {r : Bytes} {packets held rest : List Bytes} {p : Bytes} {pkts : List Bytes}

-- A way of cutting bytes into packets.
structure IsCut (packets : List Bytes) (r : Bytes) : Prop where
  flatten : packets.flatten = r
  nonempty : ∀ p ∈ packets, p ≠ []
  short : ∀ p ∈ packets, p.length ≤ MAX_PAYLOAD

-- The bytes of the first packet are kept in it.
def stored (held : List Bytes) : List Bytes :=
  if held = [] then [] else [held.flatten]

theorem headD_stored (held : List Bytes) : (stored held).headD [] = held.flatten := by
  unfold stored
  split
  · rename_i h
    rw [h]
    rfl
  · rfl

theorem put_put (st : Server) (a : Nat) (s s' : ASocket) : (st.put a s).put a s' = st.put a s' := by
  simp [Server.put]

theorem receive_stored (hshort : held.flatten.length + p.length ≤ MAX_PAYLOAD) :
    receive (stored held) p = .ofFraming (frame (held.flatten ++ p)) := by
  unfold receive
  rw [headD_stored, if_neg]
  rw [List.length_append]
  omega

end Packets

section Reassembly

variable {enqueue : Server → Nat → Bytes → Except Stop (Int × Server)} {st : Server} {a : Nat}
  {s : ASocket} {r : Bytes} {packets held rest : List Bytes} {p : Bytes}

theorem IsCut.held_length (h : IsCut packets r) (hp : packets = held ++ rest) :
    held.flatten.length + rest.flatten.length = r.length := by
  rw [← h.flatten, hp, List.flatten_append, List.length_append]

theorem IsCut.held_begins (h : IsCut packets r) (hp : packets = held ++ rest) : held.flatten <+: r :=
  ⟨rest.flatten, by rw [← List.flatten_append, ← hp, h.flatten]⟩

theorem IsCut.rest_pos (h : IsCut packets r) (hp : packets = held ++ p :: rest) :
    0 < p.length := by
  apply List.length_pos_iff.mpr
  exact h.nonempty p (by simp [hp])

-- Any packets but the last leave a well-framed request incomplete.
theorem WellFramed.waits (hr : WellFramed r) (hcut : IsCut packets r) {first : List Bytes}
    (hp : packets = first ++ p :: rest) (hrest : rest ≠ []) : receive (stored first) p = .waits := by
  obtain ⟨q, rest, rfl⟩ := List.exists_cons_of_ne_nil hrest
  have hall : packets = (first ++ [p]) ++ q :: rest := by rw [hp]; simp
  have hlen := hcut.held_length hall
  have hpre := hcut.held_begins hall
  have hpos := hcut.rest_pos hall
  have hshort := hr.short
  have hflat : (first ++ [p]).flatten = first.flatten ++ p := by simp
  rw [hflat] at hpre
  simp only [hflat, List.flatten_cons, List.length_append] at hlen
  rw [receive_stored (by simp only [MAX_PAYLOAD]; omega),
    hr.frame_begins hpre (by rw [List.length_append]; omega)]
  rfl

end Reassembly

section Arrays

-- An apacket with its array. It is MAX_PAYLOAD bytes, of which len are in use.
structure DataPacket where
  len : Nat
  data : Bytes

structure DataPacket.Whole (p : DataPacket) : Prop where
  size : p.data.length = MAX_PAYLOAD
  fits : p.len ≤ MAX_PAYLOAD

def DataPacket.bytes (p : DataPacket) : Bytes := p.data.take p.len

inductive ArrayReceipt where
  | overflow
  | waits (p : DataPacket)
  | rejects (p : DataPacket)
  | serves (p : DataPacket) (service : Bytes)

def ArrayReceipt.view : ArrayReceipt → Receipt
  | .overflow => .overflow
  | .waits _ => .waits
  | .rejects _ => .rejects
  | .serves _ service => .serves service

-- The packet that smart_socket_enqueue goes on with.
def appendPacket (first : Option DataPacket) (p : DataPacket) :
    Except MemoryFault (Option DataPacket) :=
  match first with
  | none => .ok (some p)
  | some first =>
      if first.len + p.len > MAX_PAYLOAD then
        .ok none
      else do
        let bytes ← readBytes p.data 0 p.len
        let data ← writeBytes first.data first.len bytes
        return some ⟨first.len + p.len, data⟩

variable {p q first : DataPacket}

theorem DataPacket.Whole.length_bytes (h : p.Whole) : p.bytes.length = p.len := by
  rw [bytes, List.length_take, h.size]
  exact Nat.min_eq_left h.fits

theorem DataPacket.Whole.readBytes (h : p.Whole) : Adb.Lib.readBytes p.data 0 p.len = .ok p.bytes := by
  have hfits : 0 + p.len ≤ p.data.length := by
    rw [h.size, Nat.zero_add]
    exact h.fits
  rw [Adb.Lib.readBytes, if_pos hfits, List.drop_zero]
  rfl

-- Behind what is in use there is room for what still fits.
theorem DataPacket.Whole.append (h : first.Whole) (hp : p.Whole)
    (hfits : first.len + p.len ≤ MAX_PAYLOAD) :
    ∃ q, appendPacket (some first) p = .ok (some q) ∧ q.Whole ∧ q.len = first.len + p.len ∧
      q.bytes = first.bytes ++ p.bytes := by
  have hlen := hp.length_bytes
  have hroom : first.len + p.bytes.length ≤ first.data.length := by rw [hlen, h.size]; exact hfits
  have hle : first.len ≤ first.data.length := by rw [h.size]; exact h.fits
  refine ⟨⟨first.len + p.len, first.data.take first.len ++ p.bytes ++
    first.data.drop (first.len + p.len)⟩, ?_, ⟨?_, hfits⟩, rfl, ?_⟩
  · have hwrite : writeBytes first.data first.len p.bytes =
        .ok (first.data.take first.len ++ p.bytes ++ first.data.drop (first.len + p.len)) := by
      rw [writeBytes, if_pos hroom, hlen]
    simp only [appendPacket, if_neg (Nat.not_lt.mpr hfits), hp.readBytes, hwrite, bind, Except.bind]
    rfl
  · simp only [List.length_append, List.length_take, List.length_drop, hlen, h.size, Nat.min_eq_left h.fits]
    omega
  · have hboth : (first.data.take first.len ++ p.bytes).length = first.len + p.len := by
      rw [List.length_append, List.length_take, hlen, Nat.min_eq_left hle]
    rw [DataPacket.bytes, List.take_left' hboth]
    rfl

end Arrays

section Requests

variable {enqueue : Server → Nat → Bytes → Except Stop (Int × Server)} {st : Server} {a : Nat}
  {s : ASocket} {r : Bytes} {packets : List Bytes}

end Requests

end Adb.Host
