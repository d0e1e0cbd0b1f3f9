import Adb.Sync.Records

namespace Adb.Sync

open Adb.Lib

-- A header that sync_recv does not give the answer it should to: a FAIL record
-- with its message, a record it does not know, or a size that is negative as an
-- int with more behind it than the buffer holds.
def Mistaken (msg rest : List UInt8) : Prop :=
  (wordAt msg 0 = ID_FAIL ∧ (wordAt msg 1).toNat < 2147483648 ∧
      min (wordAt msg 1).toNat 256 ≤ rest.length) ∨
    (wordAt msg 0 ≠ ID_FAIL ∧ wordAt msg 0 ≠ ID_DATA ∧ wordAt msg 0 ≠ ID_DONE) ∨
    ((wordAt msg 0 = ID_FAIL ∨ wordAt msg 0 = ID_DATA) ∧ 2147483648 ≤ (wordAt msg 1).toNat ∧
      SYNC_DATA_MAX < rest.length)

-- Such a header comes after DATA records that are all written.
inductive Misleads : List UInt8 → List (CallOutcome Errno) → Prop where
  | here (msg rest : List UInt8) (writes : List (CallOutcome Errno)) : msg.length = 8 →
      Mistaken msg rest → Misleads (msg ++ rest) writes
  | data (msg payload rest : List UInt8) (writes after : List (CallOutcome Errno)) :
      msg.length = 8 → wordAt msg 0 = ID_DATA → (wordAt msg 1).toNat = payload.length →
      payload.length ≤ SYNC_DATA_MAX → writex writes payload = .done after →
      Misleads rest after → Misleads (msg ++ (payload ++ rest)) writes

def recvRequest (rpath : List UInt8) : List (List UInt8) :=
  [syncmsg [ID_RECV, UInt32.ofNat rpath.length], rpath]

-- The request is sent and the answer misleads; the local file is made for an
-- answer that begins with DATA.
def TakenForSuccess (c : Conn) (rpath : List UInt8) (t : LocalTarget) : Prop :=
  rpath.length ≤ 1024 ∧ (∃ c', c.writeAll (recvRequest rpath) = .done c') ∧
    Misleads (readable c.input) t.writes ∧
      (wordAt (readable c.input) 0 = ID_DATA → t.creates = true)

-- What comes to the client is a part, from the start on, of what do_recv writes.
def FromDevice (c : Conn) (dev : Device) (rpath : List UInt8) : Prop :=
  ∃ out, (doRecv dev rpath).2.conn.output = dev.conn.output ++ out ∧ readable c.input <+: out

def PullSound (c : Conn) (rpath : List UInt8) (t : LocalTarget) : Prop :=
  ∃ code c' t', syncRecv c rpath t = .ok (code, c', t') ∧
    (code = 0 → ∃ bytes, Records (readable c.input) bytes ∧ t'.file = some bytes ∧
      ∀ dev, FromDevice c dev rpath → ∃ file, dev.files rpath = some file ∧ file.data = bytes)

section Sizes

theorem asInt_eq (w : UInt32) :
    asInt w = if w.toNat < 2147483648 then (w.toNat : Int) else w.toNat - 4294967296 := by
  have hlt := w.toNat_lt
  have hmod := Int.bmod_def (x := w.toNat) (m := 2 ^ 32)
  unfold asInt
  simp only [hmod]
  split <;> split <;> omega

theorem asSize_asInt (w : UInt32) : asSize (asInt w) = w.toNat := by
  have hlt := w.toNat_lt
  rw [asInt_eq, asSize]
  split <;> omega

end Sizes

section Streams

variable {stream msg rest bytes : List UInt8} {writes : List (CallOutcome Errno)}

theorem Misleads.not_records (h : Misleads stream writes) : ¬Records stream bytes := by
  have hdata : ID_DATA ≠ ID_DONE := by decide
  have hfail : ID_DATA ≠ ID_FAIL ∧ ID_DONE ≠ ID_FAIL := by decide
  induction h generalizing bytes with
  | here msg rest writes hlen hm =>
      intro hr
      generalize hs : msg ++ rest = stream at hr
      cases hr with
      | done msg' rest' hlen' hid =>
          obtain ⟨rfl, rfl⟩ := List.append_inj hs (hlen.trans hlen'.symm)
          simp [Mistaken, hid, hfail, hdata.symm] at hm
      | data msg' payload rest' bytes' hlen' hid hsize hmax _ =>
          obtain ⟨rfl, rfl⟩ := List.append_inj hs (hlen.trans hlen'.symm)
          simp only [Mistaken, hid, hfail, hsize, ne_eq, not_true, false_and, and_false, false_or,
            or_true, true_and] at hm
          simp only [SYNC_DATA_MAX] at hmax
          omega
  | data msg payload rest writes after hlen hid hsize hmax _ _ ih =>
      intro hr
      generalize hs : msg ++ (payload ++ rest) = stream at hr
      cases hr with
      | done msg' rest' hlen' hid' =>
          obtain ⟨rfl, -⟩ := List.append_inj hs (hlen.trans hlen'.symm)
          exact hdata (hid.symm.trans hid')
      | data msg' payload' rest' bytes' hlen' hid' hsize' _ hr' =>
          obtain ⟨rfl, hs'⟩ := List.append_inj hs (hlen.trans hlen'.symm)
          obtain ⟨rfl, rfl⟩ := List.append_inj hs' (hsize.symm.trans hsize')
          exact ih hr'

theorem Misleads.length (h : Misleads stream writes) : 8 ≤ stream.length := by
  cases h with
  | here msg rest writes hlen _ =>
      rw [List.length_append]
      omega
  | data msg payload rest writes after hlen =>
      rw [List.length_append]
      omega

theorem misleads_other (hmsg : msg.length = 8) (hid : wordAt msg 0 ≠ ID_DATA) :
    Misleads (msg ++ rest) writes ↔ Mistaken msg rest := by
  refine ⟨fun h => ?_, fun h => .here msg rest writes hmsg h⟩
  generalize hs : msg ++ rest = stream at h
  cases h with
  | here msg' rest' _ hlen hm =>
      obtain ⟨rfl, rfl⟩ := List.append_inj hs (hmsg.trans hlen.symm)
      exact hm
  | data msg' payload rest' _ after hlen hid' =>
      obtain ⟨rfl, -⟩ := List.append_inj hs (hmsg.trans hlen.symm)
      exact absurd hid' hid

theorem misleads_oversize (hmsg : msg.length = 8) (hid : wordAt msg 0 = ID_DATA)
    (hsize : SYNC_DATA_MAX < (wordAt msg 1).toNat) :
    Misleads (msg ++ rest) writes ↔
      2147483648 ≤ (wordAt msg 1).toNat ∧ SYNC_DATA_MAX < rest.length := by
  refine ⟨fun h => ?_, fun h => .here msg rest writes hmsg (.inr (.inr ⟨.inr hid, h⟩))⟩
  generalize hs : msg ++ rest = stream at h
  cases h with
  | here msg' rest' _ hlen hm =>
      obtain ⟨rfl, rfl⟩ := List.append_inj hs (hmsg.trans hlen.symm)
      obtain ⟨hfail, -⟩ | ⟨-, hdata, -⟩ | ⟨-, hneg⟩ := hm
      · exact absurd (hfail.symm.trans hid) (by decide)
      · exact absurd hid hdata
      · exact hneg
  | data msg' payload rest' _ after hlen _ hpay hmax =>
      obtain ⟨rfl, -⟩ := List.append_inj hs (hmsg.trans hlen.symm)
      omega

theorem misleads_data (hmsg : msg.length = 8) (hid : wordAt msg 0 = ID_DATA)
    (hsize : (wordAt msg 1).toNat ≤ SYNC_DATA_MAX) :
    Misleads (msg ++ rest) writes ↔ (wordAt msg 1).toNat ≤ rest.length ∧
      ∃ after, writex writes (rest.take (wordAt msg 1).toNat) = .done after ∧
        Misleads (rest.drop (wordAt msg 1).toNat) after := by
  constructor
  · intro h
    generalize hs : msg ++ rest = stream at h
    cases h with
    | here msg' rest' _ hlen hm =>
        obtain ⟨rfl, rfl⟩ := List.append_inj hs (hmsg.trans hlen.symm)
        simp only [SYNC_DATA_MAX] at hsize
        obtain ⟨hfail, -⟩ | ⟨-, hdata, -⟩ | ⟨-, hneg, -⟩ := hm
        · exact absurd (hfail.symm.trans hid) (by decide)
        · exact absurd hid hdata
        · omega
    | data msg' payload rest' _ after hlen _ hpay hmax hw hrest =>
        obtain ⟨rfl, rfl⟩ := List.append_inj hs (hmsg.trans hlen.symm)
        rw [hpay, List.take_left, List.drop_left, List.length_append]
        exact ⟨by omega, after, hw, hrest⟩
  · rintro ⟨hle, after, hw, hrest⟩
    have hlen := (List.length_take_of_le hle).symm
    rw [← List.take_append_drop (wordAt msg 1).toNat rest]
    exact .data msg _ _ writes after hmsg hid hlen (by omega) hw hrest

end Streams

-- What remains to be shown of a call of which the stream misleads the code, and
-- of one of which it does not.
def Misled (result : Except MemoryFault (Int × Conn × LocalTarget)) : Prop :=
  (∃ fault, result = .error fault) ∨ ∃ c' t', result = .ok (0, c', t')

def Stored (stream before : List UInt8) (result : Except MemoryFault (Int × Conn × LocalTarget)) :
    Prop :=
  ∃ code c' t', result = .ok (code, c', t') ∧
    (code = 0 → ∃ bytes, Records stream bytes ∧ t'.file = some (before ++ bytes))

section Receiving

variable {c : Conn} {t : LocalTarget} {msg rest before : List UInt8}

theorem stored_failed {stream : List UInt8} : Stored stream before (.ok (-1, c, t)) :=
  ⟨-1, c, t, rfl, by omega⟩

theorem remoteError_spec (hin : readable c.input = rest) (hdata : wordAt msg 0 ≠ ID_DATA)
    (hdone : wordAt msg 0 ≠ ID_DONE) :
    (Mistaken msg rest → Misled (remoteError c t msg)) ∧
      (¬Mistaken msg rest → ∃ c' t', remoteError c t msg = .ok (-1, c', t')) := by
  unfold remoteError
  by_cases hfail : wordAt msg 0 = ID_FAIL
  · simp only [hfail, if_true]
    have hm : Mistaken msg rest ↔
        ((wordAt msg 1).toNat < 2147483648 ∧ min (wordAt msg 1).toNat 256 ≤ rest.length) ∨
          (2147483648 ≤ (wordAt msg 1).toNat ∧ SYNC_DATA_MAX < rest.length) := by
      simp [Mistaken, hfail]
    rw [hm]
    by_cases hneg : (wordAt msg 1).toNat < 2147483648
    · have hlen : asSize (if asInt (wordAt msg 1) > 256 then 256 else asInt (wordAt msg 1)) =
          min (wordAt msg 1).toNat 256 := by
        rw [asInt_eq, if_pos hneg, asSize]
        split <;> omega
      rw [hlen]
      by_cases hle : min (wordAt msg 1).toNat 256 ≤ rest.length
      · have hsplit : readable c.input = rest.take (min (wordAt msg 1).toNat 256) ++
            rest.drop (min (wordAt msg 1).toNat 256) := by
          rw [hin, List.take_append_drop]
        obtain ⟨input, he, -⟩ := readInto_done SYNC_DATA_MAX _ hsplit
          (List.length_take_of_le hle) (by simp only [SYNC_DATA_MAX]; omega)
        rw [he]
        exact ⟨fun _ => .inr ⟨_, _, rfl⟩, fun h => absurd (.inl ⟨hneg, hle⟩) h⟩
      · obtain ⟨input, he⟩ := readInto_short (c := c) SYNC_DATA_MAX
          (min (wordAt msg 1).toNat 256) (by rw [hin]; omega)
          (by rw [hin]; simp only [SYNC_DATA_MAX]; omega)
        rw [he]
        refine ⟨fun h => ?_, fun _ => ⟨_, _, rfl⟩⟩
        omega
    · have hlen : asSize (if asInt (wordAt msg 1) > 256 then 256 else asInt (wordAt msg 1)) =
          (wordAt msg 1).toNat := by
        have hlt := (wordAt msg 1).toNat_lt
        rw [if_neg (by rw [asInt_eq]; split <;> omega), asSize_asInt]
      rw [hlen]
      by_cases hmore : SYNC_DATA_MAX < rest.length
      · rw [readInto_overrun (by simp only [SYNC_DATA_MAX]; omega) (by rw [hin]; exact hmore)]
        exact ⟨fun _ => .inl ⟨_, rfl⟩, fun h => absurd (.inr ⟨by omega, hmore⟩) h⟩
      · simp only [SYNC_DATA_MAX] at hmore
        obtain ⟨input, he⟩ := readInto_short (c := c) SYNC_DATA_MAX
          (wordAt msg 1).toNat (by rw [hin]; omega)
          (by rw [hin]; simp only [SYNC_DATA_MAX]; omega)
        rw [he]
        refine ⟨fun h => ?_, fun _ => ⟨_, _, rfl⟩⟩
        simp only [SYNC_DATA_MAX] at h
        omega
  · simp only [hfail, if_false]
    have hm : Mistaken msg rest := .inr (.inl ⟨hfail, hdata, hdone⟩)
    exact ⟨fun _ => .inr ⟨_, _, rfl⟩, fun h => absurd hm h⟩

theorem Misleads.absurd_done (hid : wordAt msg 0 = ID_DONE) (hmsg : msg.length = 8)
    {writes : List (CallOutcome Errno)} : ¬Misleads (msg ++ rest) writes :=
  fun h => h.not_records (.done msg rest hmsg hid)

-- One turn of the loop: what becomes of the header msg with rest behind it.
theorem recvLoop_spec (fuel : Nat) (hfuel : rest.length < fuel) (hmsg : msg.length = 8)
    (hin : readable c.input = rest) (hfile : t.file = some before) :
    (Misleads (msg ++ rest) t.writes → Misled (recvLoop fuel c t msg)) ∧
      (¬Misleads (msg ++ rest) t.writes → Stored (msg ++ rest) before (recvLoop fuel c t msg)) := by
  induction fuel generalizing c t msg rest before with
  | zero => omega
  | succ fuel ih =>
      simp only [recvLoop]
      by_cases hdone : wordAt msg 0 = ID_DONE
      · rw [if_pos hdone]
        refine ⟨fun h => absurd h (Misleads.absurd_done hdone hmsg), fun _ => ?_⟩
        refine ⟨0, c, t, rfl, fun _ => ⟨[], .done msg rest hmsg hdone, ?_⟩⟩
        rw [hfile, List.append_nil]
      rw [if_neg hdone]
      by_cases hdata : wordAt msg 0 = ID_DATA
      case neg =>
        obtain ⟨hbad, hgood⟩ := @remoteError_spec c t msg rest hin hdata hdone
        rw [if_pos hdata, misleads_other hmsg hdata]
        refine ⟨hbad, fun h => ?_⟩
        obtain ⟨c', t', he⟩ := hgood h
        rw [he]
        exact stored_failed
      rw [if_neg (not_not.mpr hdata)]
      by_cases hsize : (wordAt msg 1).toNat ≤ SYNC_DATA_MAX
      case neg =>
        rw [misleads_oversize hmsg hdata (by omega)]
        simp only [SYNC_DATA_MAX] at hsize
        by_cases hneg : (wordAt msg 1).toNat < 2147483648
        · rw [asInt_eq, if_pos hneg, if_pos (by simp only [SYNC_DATA_MAX]; omega)]
          exact ⟨fun h => by omega, fun _ => stored_failed⟩
        · have hlt := (wordAt msg 1).toNat_lt
          rw [asSize_asInt, if_neg (by rw [asInt_eq, if_neg hneg]; simp only [SYNC_DATA_MAX]; omega)]
          by_cases hmore : SYNC_DATA_MAX < rest.length
          · rw [readInto_overrun (by simp only [SYNC_DATA_MAX]; omega) (by rw [hin]; exact hmore)]
            exact ⟨fun _ => .inl ⟨_, rfl⟩, fun h => absurd ⟨by omega, hmore⟩ h⟩
          · simp only [SYNC_DATA_MAX] at hmore
            obtain ⟨input, he⟩ := readInto_short (c := c) SYNC_DATA_MAX (wordAt msg 1).toNat
              (by rw [hin]; omega) (by rw [hin]; simp only [SYNC_DATA_MAX]; omega)
            rw [he]
            exact ⟨fun h => absurd h.2 hmore, fun _ => stored_failed⟩
      have hmax : ¬asInt (wordAt msg 1) > SYNC_DATA_MAX := by
        simp only [SYNC_DATA_MAX] at hsize ⊢
        rw [asInt_eq, if_pos (by omega)]
        omega
      rw [asSize_asInt, if_neg hmax, misleads_data hmsg hdata hsize]
      by_cases hle : (wordAt msg 1).toNat ≤ rest.length
      case neg =>
        obtain ⟨input, he⟩ := readInto_short (c := c) SYNC_DATA_MAX (wordAt msg 1).toNat
          (by rw [hin]; omega) (by rw [hin]; omega)
        rw [he]
        exact ⟨fun h => absurd h.1 hle, fun _ => stored_failed⟩
      have htake := List.length_take_of_le hle
      obtain ⟨input, he, hr⟩ := readInto_done SYNC_DATA_MAX (wordAt msg 1).toNat
        (hin.trans (List.take_append_drop _ rest).symm) htake hsize
      rw [he]
      simp only [LocalTarget.writex]
      cases hw : writex t.writes (rest.take (wordAt msg 1).toNat) with
      | failed taken e after =>
          refine ⟨fun h => ?_, fun _ => stored_failed⟩
          obtain ⟨-, after', hw', -⟩ := h
          cases hw'
      | done after =>
          have hiff : ((wordAt msg 1).toNat ≤ rest.length ∧ ∃ after',
              WriteX.done after = WriteX.done after' ∧
                Misleads (rest.drop (wordAt msg 1).toNat) after') ↔
              Misleads (rest.drop (wordAt msg 1).toNat) after := by
            simp [hle]
          rw [hiff]
          by_cases h8 : 8 ≤ (rest.drop (wordAt msg 1).toNat).length
          · have hnext := List.length_take_of_le h8
            obtain ⟨input', he', hr'⟩ := Conn.readx_take (c := { c with input := input }) 8
              (hr.trans (List.take_append_drop 8 _).symm) hnext
            have hfile' : (t.append (rest.take (wordAt msg 1).toNat)).file =
                some (before ++ rest.take (wordAt msg 1).toNat) := by
              simp [LocalTarget.append, hfile]
            obtain ⟨hbad, hgood⟩ := @ih { c with input := input' }
              { t.append (rest.take (wordAt msg 1).toNat) with writes := after } _ _ _
              (by simp only [List.length_drop] at h8 ⊢; omega) hnext hr' hfile'
            rw [List.take_append_drop] at hbad hgood
            simp only [he']
            refine ⟨hbad, fun h => ?_⟩
            obtain ⟨code, c', t', hloop, hzero⟩ := hgood h
            refine ⟨code, c', t', hloop, fun hcode => ?_⟩
            obtain ⟨bytes, hrecords, hfinal⟩ := hzero hcode
            refine ⟨rest.take (wordAt msg 1).toNat ++ bytes, ?_, by rw [hfinal, List.append_assoc]⟩
            have hdatum := Records.data msg (rest.take (wordAt msg 1).toNat) _ bytes hmsg hdata
              htake.symm (by omega) hrecords
            rwa [List.take_append_drop] at hdatum
          · obtain ⟨input', he'⟩ := Conn.readx_short (c := { c with input := input }) 8
              (by show (readable input).length < 8; rw [hr]; omega)
            simp only [he']
            exact ⟨fun h => absurd h.length h8, fun _ => stored_failed⟩

theorem recvAnswer_spec {stream : List UInt8} (hin : readable c.input = stream) :
    (Misleads stream t.writes ∧ (wordAt stream 0 = ID_DATA → t.creates = true) →
        Misled (recvAnswer c t)) ∧
      (¬(Misleads stream t.writes ∧ (wordAt stream 0 = ID_DATA → t.creates = true)) →
        Stored stream [] (recvAnswer c t)) := by
  unfold recvAnswer
  by_cases h8 : 8 ≤ stream.length
  case neg =>
    obtain ⟨input, he⟩ := Conn.readx_short (c := c) 8 (by rw [hin]; omega)
    rw [he]
    exact ⟨fun h => absurd h.1.length h8, fun _ => stored_failed⟩
  have hsplit := List.take_append_drop 8 stream
  have hmsg := List.length_take_of_le h8
  obtain ⟨input, he, hr⟩ := Conn.readx_take 8 (hin.trans hsplit.symm) hmsg
  have hhead : wordAt stream 0 = wordAt (stream.take 8) 0 := by
    simp [wordAt, List.take_take]
  rw [he, hhead]
  simp only
  have hunlink : t.unlink.creates = t.creates ∧ t.unlink.writes = t.writes := by
    unfold LocalTarget.unlink
    split <;> exact ⟨rfl, rfl⟩
  by_cases hknown : wordAt (stream.take 8) 0 = ID_DATA ∨ wordAt (stream.take 8) 0 = ID_DONE
  · rw [if_pos hknown]
    by_cases hcreates : t.creates = true
    · have hfuel : (stream.drop 8).length < (stored input).length + 1 := by
        have hle := (prefix_readable input).length_le
        rw [hr] at hle
        omega
      obtain ⟨hbad, hgood⟩ := recvLoop_spec (c := { c with input := input })
        (t := { t.unlink with file := some [] }) _ hfuel hmsg hr rfl
      rw [hsplit] at hbad hgood
      rw [if_pos (hunlink.1.trans hcreates), ← hunlink.2]
      exact ⟨fun h => hbad h.1, fun h => hgood fun hm => h ⟨hm, fun _ => hcreates⟩⟩
    · rw [if_neg (by rw [hunlink.1]; exact hcreates)]
      refine ⟨fun h => ?_, fun _ => stored_failed⟩
      obtain hdata | hdone := hknown
      · exact absurd (h.2 hdata) hcreates
      · rw [← hsplit] at h
        exact absurd h.1 (Misleads.absurd_done hdone hmsg)
  · rw [not_or] at hknown
    obtain ⟨hbad, hgood⟩ := remoteError_spec (c := { c with input := input }) (t := t) hr hknown.1
      hknown.2
    rw [if_neg (not_or.mpr hknown)]
    rw [← hsplit, misleads_other hmsg hknown.1, List.take_left' hmsg]
    refine ⟨fun h => hbad h.1, fun h => ?_⟩
    obtain ⟨c', t', hfails⟩ := hgood fun hm => h ⟨hm, fun hdata => absurd hdata hknown.1⟩
    rw [hfails]
    exact stored_failed

end Receiving

section Sending

variable {dev : Device}

-- What do_recv writes is such a stream for the whole of the file only.
theorem recvSendLoop_output (fuel : Nat) (dev : Device) (fd : Input) :
    ∃ out, (recvSendLoop fuel dev fd).2.conn.output = dev.conn.output ++ out ∧
      ∀ stream bytes, stream <+: out → Records stream bytes → bytes = stored fd := by
  induction fuel generalizing dev fd with
  | zero =>
      refine ⟨[], by rw [recvSendLoop, List.append_nil], fun stream bytes hp h => ?_⟩
      have hlen := h.length
      rw [List.prefix_nil.mp hp] at hlen
      exact absurd hlen (by simp)
  | succ fuel ih =>
      simp only [recvSendLoop]
      split
      · rename_i chunk fd' hread
        obtain ⟨hstored, hmax⟩ := adbRead_got hread
        split
        · rename_i hzero
          obtain rfl := List.length_eq_zero_iff.mp hzero
          have hnil := adbRead_end hread (by simp [SYNC_DATA_MAX])
          have hdone : ∀ stream bytes, stream <+: syncmsg [ID_DONE, 0] → Records stream bytes →
              bytes = stored fd := by
            intro stream bytes hp h
            rw [hnil]
            obtain ⟨-, hbytes⟩ | ⟨hid, -⟩ := 
                h.header (show stream <+: syncmsg [ID_DONE, 0] ++ [] by rwa [List.append_nil])
            · exact hbytes
            · exact absurd hid (by decide)
          obtain ⟨c, he, -, hout⟩ | ⟨c, part, he, -, hout, hp, -⟩ :=
            dev.send_cases [syncmsg [ID_DONE, 0]]
          · rw [List.flatten_singleton] at hout
            exact ⟨_, by rw [he]; exact hout, hdone⟩
          · rw [List.flatten_singleton] at hp
            exact ⟨part, by rw [he]; exact hout, fun stream bytes h => hdone stream bytes (h.trans hp)⟩
        · have hflat : [syncmsg [ID_DATA, UInt32.ofNat chunk.length], chunk].flatten =
              dataRecord chunk := by simp [dataRecord]
          obtain ⟨c, he, -, hout⟩ | ⟨c, part, he, -, hout, hp, hlt⟩ :=
            dev.send_cases [syncmsg [ID_DATA, UInt32.ofNat chunk.length], chunk]
          · rw [hflat] at hout
            obtain ⟨out, hloop, hall⟩ := ih (dev.setConn c) fd'
            refine ⟨dataRecord chunk ++ out, ?_, fun stream bytes hp h => ?_⟩
            · rw [he]
              exact hloop.trans (by rw [← List.append_assoc, ← hout]; rfl)
            · obtain ⟨rest, more, hbytes, hrest, hrecords, -⟩ := h.of_data hmax hp
              rw [hbytes, hall rest more hrest hrecords, hstored]
          · rw [hflat] at hp hlt
            refine ⟨part, by rw [he]; exact hout, fun stream bytes hs h => ?_⟩
            have hle := hs.length_le
            obtain ⟨rest, more, -, -, -, hlen⟩ :=
              h.of_data hmax ((hs.trans hp).trans (List.prefix_append _ []))
            rw [length_dataRecord] at hlt
            omega
      · rename_i fd' hread
        obtain ⟨out, hloop, hall⟩ := ih dev fd'
        rw [adbRead_interrupted hread]
        exact ⟨out, hloop, hall⟩
      · obtain ⟨out, hout, hfail⟩ := failMessage_output dev (dev.strerror _)
        exact ⟨out, hout, fun stream bytes hp h => absurd h (not_records_fail (hp.trans hfail))⟩

theorem openRead_cases (dev : Device) (path : List UInt8) :
    (∃ e dev', dev.openRead path = (.error e, dev') ∧ dev'.conn = dev.conn) ∨
      ∃ file pattern dev', dev.openRead path = (.ok (cut file.data pattern), dev') ∧
        dev'.conn = dev.conn ∧ dev.files path = some file := by
  unfold Device.openRead Device.nextOpen
  cases dev.opens.headD none with
  | some e => exact .inl ⟨e, _, rfl, rfl⟩
  | none =>
      cases hf : dev.files path with
      | none => exact .inl ⟨.ENOENT, { dev with opens := dev.opens.tail }, by simp only [hf], rfl⟩
      | some file =>
          exact .inr ⟨file, dev.reads.headD [], { dev with opens := dev.opens.tail, reads := dev.reads.tail },
            by simp only [hf], rfl, rfl⟩

theorem doRecv_output (dev : Device) (path : List UInt8) :
    ∃ out, (doRecv dev path).2.conn.output = dev.conn.output ++ out ∧
      ∀ stream bytes, stream <+: out → Records stream bytes →
        ∃ file, dev.files path = some file ∧ file.data = bytes := by
  unfold doRecv
  obtain ⟨e, dev', ho, hc⟩ | ⟨file, pattern, dev', ho, hc, hf⟩ := openRead_cases dev path
  · obtain ⟨out, hout, hfail⟩ := failMessage_output dev' (dev'.strerror e)
    refine ⟨out, ?_, fun stream bytes hp h => absurd h (not_records_fail (hp.trans hfail))⟩
    rw [ho, ← hc]
    exact hout
  · obtain ⟨out, hout, hall⟩ :=
      recvSendLoop_output (turns (cut file.data pattern)) dev' (cut file.data pattern)
    refine ⟨out, ?_, fun stream bytes hp h => ⟨file, hf, ?_⟩⟩
    · rw [ho, ← hc]
      exact hout
    · rw [hall stream bytes hp h, stored_cut]

end Sending

section Pulling

variable {c : Conn} {t : LocalTarget} {rpath : List UInt8}

theorem pullSound_of_stored {result : Except MemoryFault (Int × Conn × LocalTarget)}
    (hresult : syncRecv c rpath t = result) (h : Stored (readable c.input) [] result) :
    PullSound c rpath t := by
  obtain ⟨code, c', t', he, hzero⟩ := h
  refine ⟨code, c', t', hresult.trans he, fun hcode => ?_⟩
  obtain ⟨bytes, hrecords, hfile⟩ := hzero hcode
  refine ⟨bytes, hrecords, hfile, fun dev hdev => ?_⟩
  obtain ⟨out, hout, hp⟩ := hdev
  obtain ⟨out', hout', hall⟩ := doRecv_output dev rpath
  rw [hout'] at hout
  rw [← List.append_cancel_left hout] at hp
  exact hall _ bytes hp hrecords

theorem not_pullSound_of_misled {result : Except MemoryFault (Int × Conn × LocalTarget)}
    (hresult : syncRecv c rpath t = result) (h : Misled result)
    (hstream : Misleads (readable c.input) t.writes) : ¬PullSound c rpath t := by
  rintro ⟨code, c', t', he, hzero⟩
  rw [hresult] at he
  obtain ⟨fault, hf⟩ | ⟨d, t'', hf⟩ := h
  · rw [hf] at he
    cases he
  · rw [hf] at he
    cases he
    obtain ⟨bytes, hrecords, -⟩ := hzero rfl
    exact hstream.not_records hrecords

-- sync_recv does what it should exactly when the stream, after the DATA records
-- that are stored, does not go on with a header that misleads it.
theorem pull_sound_iff (c : Conn) (rpath : List UInt8) (t : LocalTarget) :
    PullSound c rpath t ↔ ¬TakenForSuccess c rpath t := by
  unfold TakenForSuccess
  by_cases hlen : rpath.length ≤ 1024
  case neg =>
    have he : syncRecv c rpath t = .ok (-1, c, t) := if_pos (by omega)
    exact iff_of_true (pullSound_of_stored he stored_failed) fun h => hlen h.1
  have hsends := c.writeAll_sends (recvRequest rpath)
  cases hw : c.writeAll (recvRequest rpath) with
  | failed d =>
      have he : syncRecv c rpath t = .ok (-1, d, t) := by
        rw [syncRecv, if_neg (by omega)]
        simp only [recvRequest] at hw
        rw [hw]
      refine iff_of_true (pullSound_of_stored he stored_failed) fun h => ?_
      obtain ⟨-, ⟨d', hd'⟩, -⟩ := h
      cases hd'
  | done d =>
      rw [hw] at hsends
      have hin : d.input = c.input := hsends.1
      have he : syncRecv c rpath t = recvAnswer d t := by
        rw [syncRecv, if_neg (by omega)]
        simp only [recvRequest] at hw
        rw [hw]
      obtain ⟨hbad, hgood⟩ := recvAnswer_spec (c := d) (t := t) rfl
      rw [hin] at hbad hgood
      by_cases hm : Misleads (readable c.input) t.writes ∧
          (wordAt (readable c.input) 0 = ID_DATA → t.creates = true)
      · exact iff_of_false (not_pullSound_of_misled he (hbad hm) hm.1)
          fun h => h ⟨hlen, ⟨d, rfl⟩, hm⟩
      · exact iff_of_true (pullSound_of_stored he (hgood hm)) fun h => hm h.2.2

end Pulling

-- The device cannot open the file and says so.
def refused : Conn where
  input := segmentOf (syncmsg [ID_FAIL, 2] ++ [110, 111])
  writes := []
  output := []
  closed := false

theorem refusal_is_taken_for_success : ¬PullSound refused [47, 97] ⟨none, true, true, []⟩ := by
  rintro ⟨code, c', t', he, hzero⟩
  have hrecv : syncRecv refused [47, 97] ⟨none, true, true, []⟩ = .ok (0,
      { refused with input := [], output := syncmsg [ID_RECV, 2] ++ [47, 97] },
      ⟨none, true, true, []⟩) := rfl
  rw [hrecv] at he
  cases he
  obtain ⟨bytes, -, hfile, -⟩ := hzero rfl
  cases hfile

end Adb.Sync
