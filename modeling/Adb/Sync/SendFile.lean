import Adb.Sync.Records

namespace Adb.Sync

open Adb.Lib

-- What is sent begins with an OKAY record.
def Okay (out : List UInt8) : Prop := 8 ≤ out.length ∧ wordAt out 0 = ID_OKAY

section Status

variable {out more : List UInt8}

theorem not_okay_nil : ¬Okay [] := fun h => absurd h.1 (by simp)

theorem prefix_wordAt (h : out <+: more) (hlen : 4 ≤ out.length) : wordAt more 0 = wordAt out 0 := by
  obtain ⟨u, rfl⟩ := h
  rw [wordAt, wordAt, Nat.mul_zero, List.drop_zero, List.drop_zero,
    List.take_append_of_le_length hlen]

theorem not_okay_fail (text more : List UInt8) (h : out <+: failRecord text ++ more) : ¬Okay out := by
  intro hok
  have hhead : wordAt (failRecord text ++ more) 0 = ID_FAIL := by
    rw [failRecord, List.append_assoc]
    exact wordAt_syncmsg _ _ 0 (by simp)
  rw [prefix_wordAt h (Nat.le_trans (by omega) hok.1)] at hhead
  exact absurd (hok.2.symm.trans hhead) (by decide)

end Status

section Device

variable {dev : Device} {path : List UInt8}

@[simp] theorem adbUnlink_conn (dev : Device) (path : List UInt8) :
    (dev.adbUnlink path).conn = dev.conn := by
  unfold Device.adbUnlink Device.nextUnlink
  cases dev.unlinks.headD none <;> rfl

theorem writeFile_cases (dev : Device) (path : List UInt8) (offset : Nat) (bytes : List UInt8) :
    (∃ dev', dev.writeFile path offset bytes = .done dev' ∧ dev'.conn = dev.conn ∧
        dev'.files path = (dev.files path).map fun file =>
          { file with data := Device.putAt file.data offset bytes }) ∨
      ∃ e dev', dev.writeFile path offset bytes = .failed e dev' ∧ dev'.conn = dev.conn := by
  unfold Device.writeFile
  cases writex dev.writes bytes with
  | done rest => exact .inl ⟨_, rfl, rfl, Function.update_self ..⟩
  | failed taken e rest => exact .inr ⟨e, _, rfl, rfl⟩

-- Two writes in a row are one.
theorem putAt_putAt (data first second : List UInt8) (offset : Nat) (h : offset ≤ data.length) :
    Device.putAt (Device.putAt data offset first) (offset + first.length) second =
      Device.putAt data offset (first ++ second) := by
  have htake := List.length_take_of_le h
  have hlen : (data.take offset ++ first).length = offset + first.length := by
    rw [List.length_append, htake]
  simp only [Device.putAt]
  rw [List.take_append_of_le_length (by omega), List.take_of_length_le (by omega), List.drop_append,
    List.drop_of_length_le (by omega), hlen, List.nil_append, List.drop_drop, List.length_append]
  simp only [List.append_assoc]
  congr 4
  omega

theorem length_putAt (data bytes : List UInt8) (offset : Nat) (h : offset ≤ data.length) :
    offset + bytes.length ≤ (Device.putAt data offset bytes).length := by
  simp only [Device.putAt, List.length_append, List.length_take_of_le h]
  omega

theorem putAt_nil (data : List UInt8) (offset : Nat) : Device.putAt data offset [] = data := by
  simp [Device.putAt]

end Device

-- What handle_send_file leaves at path when it has sent OKAY.
def Kept (dev : Device) (path : List UInt8) (fd : Option Nat) (after : Device) : Prop :=
  ∃ offset bytes, fd = some offset ∧ Records (readable dev.conn.input) bytes ∧
    ∀ file, dev.files path = some file → offset ≤ file.data.length →
      ∃ file', after.files path = some file' ∧
        file'.data = Device.putAt file.data offset bytes

section Loop

variable {dev after : Device} {path text : List UInt8} {fd : Option Nat}

def Answers (dev : Device) (path : List UInt8) (fd : Option Nat) (after : Device) : Prop :=
  ∃ out, after.conn.output = dev.conn.output ++ out ∧ (Okay out → Kept dev path fd after)

theorem answers_nothing (h : after.conn.output = dev.conn.output) : Answers dev path fd after :=
  ⟨[], by rw [h, List.append_nil], fun hok => absurd hok not_okay_nil⟩

theorem answers_fail {out : List UInt8} (h : after.conn.output = dev.conn.output ++ out)
    (hfail : out <+: failRecord text) : Answers dev path fd after :=
  ⟨out, h, fun hok => absurd hok
    (not_okay_fail text [] (by rwa [List.append_nil]))⟩

-- A FAIL record that goes through is followed by whatever the loop sends.
theorem answers_after_fail {mid : Device} {fd' : Option Nat}
    (hmid : mid.conn.output = dev.conn.output ++ failRecord text) (h : Answers mid path fd' after) :
    Answers dev path fd after := by
  obtain ⟨out, hout, -⟩ := h
  refine ⟨failRecord text ++ out, by rw [hout, hmid, List.append_assoc], fun hok => ?_⟩
  exact absurd hok (not_okay_fail text out List.prefix_rfl)

theorem sendLoop_okay (fuel : Nat) (dev : Device) (path : List UInt8) (fd : Option Nat) :
    Answers dev path fd (sendLoop fuel dev path fd).2 := by
  induction fuel generalizing dev fd with
  | zero => exact answers_nothing (by rw [sendLoop, sendFails, adbUnlink_conn])
  | succ fuel ih =>
      simp only [sendLoop]
      obtain ⟨input, he, hin, h8⟩ | ⟨input, he, -⟩ := dev.conn.readx_cases 8
      case inr =>
        rw [he]
        dsimp only
        exact answers_nothing (by rw [sendFails, adbUnlink_conn]; rfl)
      rw [he]
      have hsplit : readable dev.conn.input =
          (readable dev.conn.input).take 8 ++ readable input := by
        rw [hin, List.take_append_drop]
      have hmsg := List.length_take_of_le h8
      generalize (readable dev.conn.input).take 8 = msg at hsplit hmsg
      simp only
      have hrefused : ∀ text, Answers dev path fd (sendFails (failMessage (dev.setConn
          { dev.conn with input }) text).2 path).2 := by
        intro text
        obtain ⟨out, hout, hfail⟩ := failMessage_output (dev.setConn { dev.conn with input }) text
        exact answers_fail (by rw [sendFails, adbUnlink_conn]; exact hout) hfail
      by_cases hdata : wordAt msg 0 = ID_DATA
      case neg =>
        rw [if_pos hdata]
        by_cases hdone : wordAt msg 0 = ID_DONE
        case neg =>
          rw [if_neg hdone]
          exact hrefused _
        rw [if_pos hdone]
        cases fd with
        | none => exact answers_nothing rfl
        | some offset =>
            have hkept : ∀ c, Kept dev path (some offset) (((dev.setConn
                { dev.conn with input }).utime path (wordAt msg 1)).setConn c) := by
              intro c
              refine ⟨offset, [], rfl, ?_, fun file hf _ => ?_⟩
              · rw [hsplit]
                exact .done msg _ hmsg hdone
              · refine ⟨{ file with mtime := (wordAt msg 1).toNat }, ?_, (putAt_nil _ _).symm⟩
                simp [Device.setConn, Device.utime, Device.setFile, hf]
            obtain ⟨c, hs, -, hout⟩ | ⟨c, part, hs, -, hout, hp, hlt⟩ := ((dev.setConn
                { dev.conn with input }).utime path (wordAt msg 1)).send_cases [syncmsg [ID_OKAY, 0]]
            · simp only [hs]
              exact ⟨_, hout, fun _ => hkept c⟩
            · simp only [hs]
              exact ⟨part, hout, fun _ => hkept c⟩
      rw [if_neg (not_not.mpr hdata)]
      by_cases hsize : (wordAt msg 1).toNat > SYNC_DATA_MAX
      · rw [if_pos hsize]
        exact hrefused _
      rw [if_neg hsize]
      have hlater := (Conn.readx_cases { dev.conn with input } (wordAt msg 1).toNat)
      obtain ⟨input', he', hin', hlen⟩ | ⟨input', he', -⟩ := hlater
      case inr =>
        simp only [Device.setConn, he']
        exact answers_nothing (by rw [sendFails, adbUnlink_conn])
      have hsplit' : readable input =
          (readable input).take (wordAt msg 1).toNat ++ readable input' := by
        rw [hin', List.take_append_drop]
      have hbuffer := List.length_take_of_le hlen
      simp only [Device.setConn, he']
      simp only at hbuffer
      generalize (readable input).take (wordAt msg 1).toNat = buffer at hsplit' hbuffer
      cases fd with
      | none =>
          obtain ⟨out, hout, hok⟩ := ih { dev with conn := { dev.conn with input := input' } } none
          refine ⟨out, hout, fun h => ?_⟩
          obtain ⟨offset, bytes, hnone, -⟩ := hok h
          cases hnone
      | some offset =>
          obtain ⟨dev', hw, hconn, hfile⟩ | ⟨e, dev', hw, hconn⟩ :=
            writeFile_cases { dev with conn := { dev.conn with input := input' } } path offset buffer
          · simp only [hw]
            obtain ⟨out, hout, hok⟩ := ih dev' (some (offset + buffer.length))
            refine ⟨out, hout.trans (by rw [hconn]), fun h => ?_⟩
            obtain ⟨offset', bytes, hoffset, hrecords, hfiles⟩ := hok h
            cases hoffset
            refine ⟨offset, buffer ++ bytes, rfl, ?_, fun file hf hle => ?_⟩
            · rw [hsplit, hsplit']
              rw [hconn] at hrecords
              exact .data msg buffer _ bytes hmsg hdata hbuffer.symm (by omega) hrecords
            · have hput := hfile.trans (congrArg (Option.map _) hf)
              obtain ⟨file', hf', hd'⟩ := hfiles _ hput (length_putAt _ _ _ hle)
              exact ⟨file', hf', hd'.trans (putAt_putAt _ _ _ _ hle)⟩
          · simp only [hw, failErrno]
            obtain ⟨c, hf, -, hout⟩ | ⟨c, part, hf, -, hout, hp⟩ :=
              failMessage_cases (dev'.adbUnlink path) ((dev'.adbUnlink path).strerror e)
            · rw [adbUnlink_conn, hconn] at hout
              simp only [hf]
              exact answers_after_fail hout (ih _ none)
            · rw [adbUnlink_conn, hconn] at hout
              simp only [hf]
              exact answers_fail hout hp

theorem openNew_cases (dev : Device) (path : List UInt8) (mode : Nat) :
    (∃ dev', dev.openNew path mode = .done dev' ∧ dev'.conn = dev.conn ∧ dev.files path = none ∧
        dev'.files path = some ⟨mode, 0, []⟩) ∨
      ∃ e dev', dev.openNew path mode = .failed e dev' ∧ dev'.conn = dev.conn ∧
        dev'.files = dev.files := by
  unfold Device.openNew Device.nextOpen
  cases dev.opens.headD none with
  | some e => exact .inr ⟨e, _, rfl, rfl, rfl⟩
  | none =>
      dsimp only
      cases hf : dev.files path with
      | none => exact .inl ⟨_, rfl, rfl, rfl, Function.update_self ..⟩
      | some file => exact .inr ⟨.EEXIST, _, rfl, rfl, rfl⟩

theorem openOld_cases (dev : Device) (path : List UInt8) :
    (∃ dev' file, dev.openOld path = .done dev' ∧ dev'.conn = dev.conn ∧ dev.files path = some file ∧
        dev'.files path = some file) ∨
      ∃ e dev', dev.openOld path = .failed e dev' ∧ dev'.conn = dev.conn ∧
        dev'.files = dev.files := by
  unfold Device.openOld Device.nextOpen
  cases dev.opens.headD none with
  | some e => exact .inr ⟨e, _, rfl, rfl, rfl⟩
  | none =>
      dsimp only
      cases hf : dev.files path with
      | none => exact .inr ⟨.ENOENT, _, rfl, rfl, rfl⟩
      | some file => exact .inl ⟨_, file, rfl, rfl, rfl, hf⟩

theorem openMade_cases (dev : Device) (path : List UInt8) (mode : Nat) :
    (∃ dev', openMade dev path mode = .done dev' ∧ dev'.conn = dev.conn ∧ dev.files path = none ∧
        dev'.files path = some ⟨mode, 0, []⟩) ∨
      ∃ e dev', openMade dev path mode = .failed e dev' ∧ dev'.conn = dev.conn ∧
        dev'.files = dev.files := by
  unfold openMade
  obtain ⟨dev', ho, hc, hnone, hf⟩ | ⟨e, dev', ho, hc, hfiles⟩ := openNew_cases dev path mode
  · exact .inl ⟨dev', by rw [ho], hc, hnone, hf⟩
  · rw [ho]
    split
    · rename_i hopened
      cases hopened
      obtain ⟨after, ho', hc', hnone, hf⟩ | ⟨e, after, ho', hc', hfiles'⟩ :=
        openNew_cases dev' path mode
      · exact .inl ⟨after, ho', hc'.trans hc, by rw [← hfiles]; exact hnone, hf⟩
      · exact .inr ⟨e, after, ho', hc'.trans hc, hfiles'.trans hfiles⟩
    · exact .inr ⟨e, dev', rfl, hc, hfiles⟩

def oldData (dev : Device) (path : List UInt8) : List UInt8 :=
  ((dev.files path).map File.data).getD []

-- The file that is opened for a push holds what was there before.
theorem openForSend_cases (dev : Device) (path : List UInt8) (mode : Nat) :
    (∃ dev' file, openForSend dev path mode = .done dev' ∧ dev'.conn = dev.conn ∧
        dev'.files path = some file ∧ file.data = oldData dev path) ∨
      ∃ e dev', openForSend dev path mode = .failed e dev' ∧ dev'.conn = dev.conn := by
  unfold openForSend
  obtain ⟨dev', ho, hc, hnone, hf⟩ | ⟨e, dev', ho, hc, hfiles⟩ := openMade_cases dev path mode
  · exact .inl ⟨dev', _, by rw [ho], hc, hf, by rw [oldData, hnone]; rfl⟩
  · rw [ho]
    split
    · rename_i hopened
      cases hopened
      obtain ⟨after, file, hold, hc', hf, hf'⟩ | ⟨e, after, hold, hc', -⟩ := openOld_cases dev' path
      · refine .inl ⟨after, file, hold, hc'.trans hc, hf', ?_⟩
        rw [hfiles] at hf
        rw [oldData, hf]
        rfl
      · exact .inr ⟨e, after, hold, hc'.trans hc⟩
    · exact .inr ⟨e, dev', rfl, hc⟩

-- The device sends OKAY only when all of the records have come and are in the
-- file, over what was there before.
theorem handleSendFile_okay (dev : Device) (path : List UInt8) (mode : Nat) :
    ∃ out, (handleSendFile dev path mode).2.conn.output = dev.conn.output ++ out ∧
      (Okay out → ∃ bytes file, Records (readable dev.conn.input) bytes ∧
        (handleSendFile dev path mode).2.files path = some file ∧
          file.data = Device.putAt (oldData dev path) 0 bytes) := by
  unfold handleSendFile
  obtain ⟨dev', file, ho, hc, hf, hd⟩ | ⟨e, dev', ho, hc⟩ := openForSend_cases dev path mode
  · rw [ho]
    obtain ⟨out, hout, hok⟩ :=
      sendLoop_okay ((stored dev'.conn.input).length + 1) dev' path (some 0)
    refine ⟨out, by rw [← hc]; exact hout, fun h => ?_⟩
    obtain ⟨offset, bytes, hzero, hrecords, hfiles⟩ := hok h
    cases hzero
    obtain ⟨file', hf', hd'⟩ := hfiles file hf (Nat.zero_le _)
    rw [hc] at hrecords
    exact ⟨bytes, file', hrecords, hf', hd ▸ hd'⟩
  · rw [ho]
    have hnone : ∀ after, Answers dev path none after → ∃ out,
        after.conn.output = dev.conn.output ++ out ∧ (Okay out → ∃ bytes file,
          Records (readable dev.conn.input) bytes ∧ after.files path = some file ∧
            file.data = Device.putAt (oldData dev path) 0 bytes) := by
      intro after h
      obtain ⟨out, hout, hok⟩ := h
      refine ⟨out, hout, fun h => ?_⟩
      obtain ⟨offset, bytes, hno, -⟩ := hok h
      cases hno
    refine hnone _ ?_
    simp only [failErrno]
    obtain ⟨c, hs, -, hout⟩ | ⟨c, part, hs, -, hout, hp⟩ :=
      failMessage_cases dev' (dev'.strerror e)
    · rw [hc] at hout
      rw [hs]
      exact answers_after_fail hout (sendLoop_okay _ _ path none)
    · rw [hc] at hout
      rw [hs]
      exact answers_fail hout hp

end Loop

end Adb.Sync
