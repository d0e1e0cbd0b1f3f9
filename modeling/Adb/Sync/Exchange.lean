import Adb.Sync.Client
import Adb.Sync.Service

namespace Adb.Sync

open Adb.Lib

-- Writes that come to nothing are tried again, and none fails.
def Healthy (outcomes : List (CallOutcome Errno)) : Prop :=
  ∀ e, CallOutcome.failed e ∉ outcomes

def Conn.sent (c : Conn) (bytes : List UInt8) (writes : List (CallOutcome Errno)) : Conn :=
  { c with output := c.output ++ bytes, writes }

def Device.sent (dev : Device) (bytes : List UInt8) (writes : List (CallOutcome Errno)) : Device :=
  dev.setConn (dev.conn.sent bytes writes)

section Healthy

variable {outcomes : List (CallOutcome Errno)} {bytes : List UInt8} {c : Conn} {dev : Device}

theorem healthy_nil : Healthy [] := by simp [Healthy]

theorem Healthy.tail {outcome : CallOutcome Errno} (h : Healthy (outcome :: outcomes)) :
    Healthy outcomes :=
  fun e hm => h e (List.mem_cons_of_mem _ hm)

theorem writex_healthy (bytes : List UInt8) (h : Healthy outcomes) :
    ∃ rest, writex outcomes bytes = .done rest ∧ Healthy rest := by
  induction outcomes generalizing bytes with
  | nil => exact ⟨[], rfl, healthy_nil⟩
  | cons outcome outcomes ih =>
      simp only [writex]
      split
      · cases outcome with
        | moved k =>
            obtain ⟨rest, he, hr⟩ := ih (bytes.drop (k + 1)) h.tail
            exact ⟨rest, by simp only [he, WriteX.after], hr⟩
        | interrupted => exact ih bytes h.tail
        | failed e => exact absurd (List.mem_cons_self ..) (h e)
      · exact ⟨_, rfl, h⟩

@[simp] theorem Device.sent_sent (dev : Device) (bytes more : List UInt8)
    (writes writes' : List (CallOutcome Errno)) :
    (dev.sent bytes writes).sent more writes' = dev.sent (bytes ++ more) writes' := by
  simp [sent, Conn.sent, setConn]

theorem Device.sent_nil (dev : Device) : dev.sent [] dev.conn.writes = dev := by
  simp [sent, Conn.sent, setConn]

theorem Conn.writex_healthy (h : Healthy c.writes) (bytes : List UInt8) :
    ∃ rest, c.writex bytes = .done (c.sent bytes rest) ∧ Healthy rest := by
  obtain ⟨rest, he, hr⟩ := Sync.writex_healthy bytes h
  exact ⟨rest, by simp only [Conn.writex, he, sent], hr⟩

theorem Conn.writeAll_healthy (h : Healthy c.writes) (parts : List (List UInt8)) :
    ∃ rest, c.writeAll parts = .done (c.sent parts.flatten rest) ∧ Healthy rest := by
  induction parts generalizing c with
  | nil => exact ⟨c.writes, by simp [writeAll, sent], h⟩
  | cons bytes more ih =>
      obtain ⟨rest, he, hr⟩ := c.writex_healthy h bytes
      obtain ⟨rest', he', hr'⟩ := @ih (c.sent bytes rest) hr
      refine ⟨rest', ?_, hr'⟩
      rw [writeAll, he]
      simp only [he']
      simp [sent]

theorem Device.send_healthy (h : Healthy dev.conn.writes) (parts : List (List UInt8)) :
    ∃ rest, dev.send parts = (0, dev.sent parts.flatten rest) ∧ Healthy rest := by
  obtain ⟨rest, he, hr⟩ := Conn.writeAll_healthy h parts
  exact ⟨rest, by simp only [Device.send, he, sent], hr⟩

end Healthy

section Output

variable (c : Conn) (dev : Device)

-- What is written to the connection is the parts, or the beginning of them.
def Conn.Write.Sends (c : Conn) (bytes : List UInt8) : Conn.Write → Prop
  | .done c' => c'.input = c.input ∧ c'.output = c.output ++ bytes
  | .failed c' => c'.input = c.input ∧
      ∃ part, c'.output = c.output ++ part ∧ part <+: bytes ∧ part.length < bytes.length

theorem Conn.writex_sends (bytes : List UInt8) : (c.writex bytes).Sends c bytes := by
  unfold writex
  split
  · exact ⟨rfl, rfl⟩
  · rename_i taken e rest hx
    obtain ⟨hp, hlt⟩ := writex_failed hx
    exact ⟨rfl, taken, rfl, hp, hlt⟩

theorem Conn.writeAll_sends (parts : List (List UInt8)) :
    (c.writeAll parts).Sends c parts.flatten := by
  induction parts generalizing c with
  | nil => exact ⟨rfl, (List.append_nil _).symm⟩
  | cons bytes more ih =>
      have hfirst := c.writex_sends bytes
      unfold writeAll
      cases hx : c.writex bytes with
      | done c' =>
          rw [hx] at hfirst
          obtain ⟨hin, hout⟩ := hfirst
          have hrest := ih c'
          dsimp only
          cases hy : c'.writeAll more with
          | done d =>
              rw [hy] at hrest
              exact ⟨hrest.1.trans hin, by rw [hrest.2, hout, List.flatten_cons, List.append_assoc]⟩
          | failed d =>
              rw [hy] at hrest
              obtain ⟨hin', part, hout', hp, hlt⟩ := hrest
              refine ⟨hin'.trans hin, bytes ++ part, ?_, ?_, ?_⟩
              · rw [hout', hout, List.append_assoc]
              · exact (List.prefix_append_right_inj bytes).mpr hp
              · rw [List.flatten_cons, List.length_append, List.length_append]
                omega
      | failed c' =>
          rw [hx] at hfirst
          obtain ⟨hin, part, hout, hp, hlt⟩ := hfirst
          refine ⟨hin, part, hout, ?_, ?_⟩
          · exact hp.trans (List.prefix_append _ _)
          · rw [List.flatten_cons, List.length_append]
            omega

-- The device sends the parts and returns 0, or the beginning of them and -1.
theorem Device.send_cases (parts : List (List UInt8)) :
    (∃ c, dev.send parts = (0, dev.setConn c) ∧ c.input = dev.conn.input ∧
        c.output = dev.conn.output ++ parts.flatten) ∨
      ∃ c part, dev.send parts = (-1, dev.setConn c) ∧ c.input = dev.conn.input ∧
        c.output = dev.conn.output ++ part ∧ part <+: parts.flatten ∧
        part.length < parts.flatten.length := by
  have hsends := dev.conn.writeAll_sends parts
  unfold send
  cases hx : dev.conn.writeAll parts with
  | done c =>
      rw [hx] at hsends
      exact .inl ⟨c, rfl, hsends⟩
  | failed c =>
      rw [hx] at hsends
      obtain ⟨hin, part, hpart⟩ := hsends
      exact .inr ⟨c, part, rfl, hin, hpart⟩

def failRecord (text : List UInt8) : List UInt8 :=
  syncmsg [ID_FAIL, UInt32.ofNat text.length] ++ text

theorem failMessage_cases (text : List UInt8) :
    (∃ c, failMessage dev text = (0, dev.setConn c) ∧ c.input = dev.conn.input ∧
        c.output = dev.conn.output ++ failRecord text) ∨
      ∃ c part, failMessage dev text = (-1, dev.setConn c) ∧ c.input = dev.conn.input ∧
        c.output = dev.conn.output ++ part ∧ part <+: failRecord text := by
  have hflat : [syncmsg [ID_FAIL, UInt32.ofNat text.length], text].flatten = failRecord text := by
    simp [failRecord]
  have hsend := dev.send_cases [syncmsg [ID_FAIL, UInt32.ofNat text.length], text]
  rw [hflat] at hsend
  obtain hdone | ⟨c, part, he, hin, hout, hp, -⟩ := hsend
  · exact .inl hdone
  · exact .inr ⟨c, part, he, hin, hout, hp⟩

theorem failMessage_output (text : List UInt8) :
    ∃ out, (failMessage dev text).2.conn.output = dev.conn.output ++ out ∧ out <+: failRecord text := by
  obtain ⟨c, he, -, hout⟩ | ⟨c, part, he, -, hout, hp⟩ := failMessage_cases dev text
  · exact ⟨failRecord text, by rw [he]; exact hout, List.prefix_rfl⟩
  · exact ⟨part, by rw [he]; exact hout, hp⟩

end Output

section Files

variable {fd rest : Input} {bytes : List UInt8} {len : Nat}

theorem adbRead_got (h : adbRead fd len = .got bytes rest) :
    stored fd = bytes ++ stored rest ∧ bytes.length ≤ len := by
  cases fd with
  | nil =>
      cases h
      exact ⟨rfl, Nat.zero_le _⟩
  | cons segment more =>
      cases segment with
      | data first others =>
          cases h
          refine ⟨?_, ?_⟩
          · rw [stored_segmentOf_append, ← List.append_assoc, List.take_append_drop, stored]
          · rw [List.length_take]
            omega
      | interrupted => cases h
      | failed e => cases h

theorem adbRead_end (h : adbRead fd len = .got [] rest) (hlen : 0 < len) : stored fd = [] := by
  cases fd with
  | nil => rfl
  | cons segment more =>
      cases segment with
      | data first others =>
          obtain ⟨len, rfl⟩ := Nat.exists_eq_succ_of_ne_zero (Nat.ne_of_gt hlen)
          cases h
      | interrupted => cases h
      | failed e => cases h

theorem adbRead_interrupted (h : adbRead fd len = .interrupted rest) : stored fd = stored rest := by
  cases fd with
  | nil => cases h
  | cons segment more => cases segment <;> cases h; rfl

end Files

section Reading

variable {c : Conn} {bytes more : List UInt8}

-- A read of as many bytes as stand at the head of what comes.
theorem Conn.readx_take (len : Nat) (h : readable c.input = bytes ++ more) (hlen : bytes.length = len) :
    ∃ rest, c.readx len = .done bytes { c with input := rest } ∧ readable rest = more := by
  have hle : len ≤ (readable c.input).length := by
    rw [h, List.length_append]
    omega
  obtain ⟨rest, he, hr⟩ := readx_done hle
  rw [h, List.take_left' hlen] at he
  rw [h, List.drop_left' hlen] at hr
  exact ⟨rest, by simp only [Conn.readx, he], hr⟩

theorem Conn.readx_short (len : Nat) (h : (readable c.input).length < len) :
    ∃ rest, c.readx len = .failed (readable c.input) { c with input := rest } := by
  obtain ⟨rest, he⟩ := readx_failed h
  exact ⟨rest, by simp only [Conn.readx, he]⟩

theorem Conn.readx_cases (c : Conn) (len : Nat) :
    (∃ input, c.readx len = .done ((readable c.input).take len) { c with input } ∧
        readable input = (readable c.input).drop len ∧ len ≤ (readable c.input).length) ∨
      ∃ input, c.readx len = .failed (readable c.input) { c with input } ∧
        (readable c.input).length < len := by
  by_cases h : len ≤ (readable c.input).length
  · obtain ⟨input, he, hr⟩ :=
      Conn.readx_take len (List.take_append_drop len _).symm (List.length_take_of_le h)
    exact .inl ⟨input, he, hr, h⟩
  · obtain ⟨input, he⟩ := Conn.readx_short (c := c) len (by omega)
    exact .inr ⟨input, he, by omega⟩

theorem readInto_done (cap len : Nat) (h : readable c.input = bytes ++ more) (hlen : bytes.length = len)
    (hcap : len ≤ cap) :
    ∃ input, readInto cap c len = .ok (.done bytes { c with input }) ∧ readable input = more := by
  obtain ⟨input, he, hr⟩ := Conn.readx_take len h hlen
  refine ⟨input, ?_, hr⟩
  rw [readInto, he]
  exact if_neg (by omega)

theorem readInto_short (cap len : Nat) (h : (readable c.input).length < len) (hcap : (readable c.input).length ≤ cap) :
    ∃ input, readInto cap c len = .ok (.failed (readable c.input) { c with input }) := by
  obtain ⟨input, he⟩ := Conn.readx_short len h
  refine ⟨input, ?_⟩
  rw [readInto, he]
  exact if_neg (by omega)

theorem readInto_overrun {cap len : Nat} (hlen : cap < len) (hmore : cap < (readable c.input).length) :
    readInto cap c len = .error .overrun := by
  by_cases h : len ≤ (readable c.input).length
  · have hsplit := (List.take_append_drop len (readable c.input)).symm
    have htake : ((readable c.input).take len).length = len := List.length_take_of_le h
    obtain ⟨input, he, -⟩ := Conn.readx_take len hsplit htake
    rw [readInto, he]
    exact if_pos (by omega)
  · obtain ⟨input, he⟩ := Conn.readx_short (c := c) len (by omega)
    rw [readInto, he]
    exact if_pos hmore

end Reading

end Adb.Sync
