import Adb.Client.Query
import Adb.Host.Replies
import Adb.Wire.Rwx

namespace Adb.Client

open Adb.Lib
open Adb.Host
open Adb.Wire (readx arrived readx_readsAt readxMemory readxMemory_full readxMemory_short
  writexMemory writexMemory_ends
  writexMemory_steady Steady takesBytes)

-- char __adb_error[256]
def ERROR_SIZE : Nat := 256

-- sendfailmsg: what it returns, what has gone out, and the outcomes of the writes to
-- come.
def sendfailmsg (fuel : Nat) (writes : List WriteOutcome) (reason : Bytes) :
    ExceptT MemoryFault Option (Int × Bytes × List WriteOutcome) := do
  let len := if reason.length > 0xffff then 0xffff else reason.length
  let buf := (snprintf (fresh 9) 9 (ascii "FAIL" ++ hex4 len)).1
  let header ← load buf 8
  let (r, s) ← ExceptT.mk (writexMemory fuel writes header 8)
  if r ≠ 0 then
    return (-1, s.sent, s.writes)
  else
    let (r, t) ← ExceptT.mk (writexMemory fuel s.writes (reason ++ [0]) len)
    return (r, s.sent ++ t.sent, t.writes)

-- The conversion %02x of a byte.
def hex2 (c : UInt8) : Bytes := [hexDigit (c.toNat / 16), hexDigit (c.toNat % 16)]

def statusFault (four : Bytes) : Bytes :=
  match four with
  | [a, b, c, d] =>
      ascii "protocol fault (status " ++ hex2 a ++ [32] ++ hex2 b ++ [32] ++ hex2 c ++ [32] ++
        hex2 d ++ ascii "?!)"
  | _ => []

-- What adb_status returns, and leaves in __adb_error and on the connection.
structure StatusEnd where
  ret : Int
  error : List Cell
  reads : List ReadOutcome

-- adb_status behind FAIL: the length of the reason and, as far as there is room, the
-- reason itself.
def adbStatusFail (fuel : Nat) (buf : List Cell) (reads : List ReadOutcome) (error : List Cell) :
    ExceptT MemoryFault Option StatusEnd := do
  let (r, s) ← ExceptT.mk (readxMemory fuel reads buf 4)
  if r ≠ 0 then
    let error ← store error 0 (ascii "protocol fault (status len)" ++ [0])
    return ⟨-1, error, s.reads⟩
  else
    let buf ← store s.ptr 4 [0]
    let digits ← readText buf
    let len := strtoul16 digits
    let len := if len > 255 then 255 else len
    let (r, s) ← ExceptT.mk (readxMemory fuel s.reads error len.toNat)
    if r ≠ 0 then
      let error ← store s.ptr 0 (ascii "protocol fault (status read)" ++ [0])
      return ⟨-1, error, s.reads⟩
    else
      let error ← store s.ptr len.toNat [0]
      return ⟨-1, error, s.reads⟩

-- adb_status on memory.
def adbStatusMemory (fuel : Nat) (reads : List ReadOutcome) (error : List Cell) :
    ExceptT MemoryFault Option StatusEnd := do
  let (r, s) ← ExceptT.mk (readxMemory fuel reads (fresh 5) 4)
  if r ≠ 0 then
    let error ← store error 0 (ascii "protocol fault (no status)" ++ [0])
    return ⟨-1, error, s.reads⟩
  else
    let buf ← load s.ptr 4
    if buf = ascii "OKAY" then
      return ⟨0, error, s.reads⟩
    else if buf ≠ ascii "FAIL" then
      let error ← store error 0 (statusFault buf ++ [0])
      return ⟨-1, error, s.reads⟩
    else
      adbStatusFail fuel s.ptr s.reads error

section Send

variable {reason : Bytes}

theorem length_hex4 (n : Nat) : (hex4 n).length = 4 := rfl

-- The header is read back from the nine bytes that it has been printed into.
theorem load_header (n : Nat) :
    load (snprintf (fresh 9) 9 (ascii "FAIL" ++ hex4 n)).1 8 = .ok (ascii "FAIL" ++ hex4 n) := by
  have hlen : (ascii "FAIL" ++ hex4 n).length = 8 := rfl
  have hprint : (snprintf (fresh 9) 9 (ascii "FAIL" ++ hex4 n)).1 =
      (ascii "FAIL" ++ hex4 n).map some ++ ([some 0] ++ (fresh 9).drop 9) := by
    rw [snprintf, if_pos (by rw [hlen]; decide), overwrite, List.length_append, hlen,
      List.map_append, List.append_assoc]
    rfl
  have hload := load_written (ascii "FAIL" ++ hex4 n) ([some 0] ++ (fresh 9).drop 9)
  rwa [hlen, ← hprint] at hload

-- What sendfailmsg sends, if nothing fails; otherwise it is a part of that.
theorem sendfailmsg_ends (writes : List WriteOutcome) (hlen : reason.length ≤ 65535) :
    ∃ ret sent left, Ends (sendfailmsg · writes reason) (.ok (ret, sent, left)) ∧
      (ret = 0 ∧ sent = ascii "FAIL" ++ framed reason ∨
        ret = -1 ∧ sent <+: ascii "FAIL" ++ framed reason ∧
          sent ≠ ascii "FAIL" ++ framed reason) := by
  have hwhole : ascii "FAIL" ++ framed reason = ascii "FAIL" ++ hex4 reason.length ++ reason := by
    rw [framed, List.append_assoc]
  rw [hwhole]
  obtain ⟨header, hheader⟩ : ∃ header, header = ascii "FAIL" ++ hex4 reason.length := ⟨_, rfl⟩
  have height : header.length = 8 := by rw [hheader]; rfl
  have hload := load_header reason.length
  rw [← hheader] at hload ⊢
  obtain ⟨ret, s, ⟨enough, hrun⟩, hret⟩ := writexMemory_ends writes header []
  obtain ⟨ret', t, ⟨enough', hrun'⟩, hret'⟩ := writexMemory_ends s.writes reason [0]
  rw [List.append_nil, height] at hrun
  obtain ⟨rfl, hsent⟩ | ⟨rfl, hpart, hne⟩ := hret
  · refine ⟨ret', s.sent ++ t.sent, t.writes, ⟨enough + enough', fun fuel hle => ?_⟩, ?_⟩
    · simp only [sendfailmsg, if_neg (Nat.not_lt.mpr hlen), ← hheader]
      rw [lift_bind hload, mk_bind (hrun fuel (by omega))]
      simp only [ne_eq, not_true, if_false]
      rw [mk_bind (hrun' fuel (by omega))]
      rfl
    · rw [hsent]
      obtain ⟨rfl, hsent'⟩ | ⟨rfl, hpart', hne'⟩ := hret'
      · exact .inl ⟨rfl, by rw [hsent']⟩
      · exact .inr ⟨rfl, (List.prefix_append_right_inj header).mpr hpart',
          fun heq => hne' (List.append_cancel_left heq)⟩
  · refine ⟨-1, s.sent, s.writes, ⟨enough, fun fuel hle => ?_⟩, .inr ⟨rfl, ?_, ?_⟩⟩
    · simp only [sendfailmsg, if_neg (Nat.not_lt.mpr hlen), ← hheader]
      rw [lift_bind hload, mk_bind (hrun fuel hle)]
      rfl
    · exact hpart.trans (List.prefix_append header reason)
    · intro heq
      rw [heq] at hpart
      have hle := hpart.length_le
      rw [List.length_append] at hle
      have hnil : reason = [] := List.length_eq_zero_iff.mp (by omega)
      exact hne (by rw [heq, hnil, List.append_nil])

theorem sendfailmsg_steady {writes : List WriteOutcome} (hlen : reason.length ≤ 65535)
    (hsteady : Steady writes)
    (henough : 8 + reason.length ≤ writes.countP takesBytes) :
    ∃ left, Ends (sendfailmsg · writes reason) (.ok (0, ascii "FAIL" ++ framed reason, left)) := by
  obtain ⟨header, hheader⟩ : ∃ header, header = ascii "FAIL" ++ hex4 reason.length := ⟨_, rfl⟩
  have height : header.length = 8 := by rw [hheader]; rfl
  have hload := load_header reason.length
  rw [← hheader] at hload
  obtain ⟨s, ⟨enough, hrun⟩, hsent, hsteady', hcount⟩ :=
    writexMemory_steady header [] hsteady (by omega)
  obtain ⟨t, ⟨enough', hrun'⟩, hsent', -⟩ := writexMemory_steady reason [0] hsteady' (by omega)
  rw [List.append_nil, height] at hrun
  have hwhole : ascii "FAIL" ++ framed reason = s.sent ++ t.sent := by
    rw [hsent, hsent', hheader, framed, List.append_assoc]
  refine ⟨t.writes, enough + enough', fun fuel hle => ?_⟩
  simp only [sendfailmsg, if_neg (Nat.not_lt.mpr hlen), ← hheader]
  rw [lift_bind hload, mk_bind (hrun fuel (by omega))]
  simp only [ne_eq, not_true, if_false]
  rw [mk_bind (hrun' fuel (by omega)), hwhole]
  rfl

end Send

section Status

variable {reads : List ReadOutcome} {error : List Cell} {text : Bytes}

-- The length that adb_status takes the reason for, and the text that it leaves, of what
-- arrives behind FAIL.
def reasonLength (a : Bytes) : Nat := min (strtoul16 ((a.take 4).takeWhile (· ≠ 0))).toNat 255

def failError (a : Bytes) : Bytes :=
  if a.length < 4 then ascii "protocol fault (status len)"
  else if (a.drop 4).length < reasonLength a then ascii "protocol fault (status read)"
  else ((a.drop 4).take (reasonLength a)).takeWhile (· ≠ 0)

-- The same of all that arrives. none: the status is OKAY.
def statusError (a : Bytes) : Option Bytes :=
  if a.length < 4 then some (ascii "protocol fault (no status)")
  else if a.take 4 = ascii "OKAY" then none
  else if a.take 4 ≠ ascii "FAIL" then some (statusFault (a.take 4))
  else some (failError (a.drop 4))

-- A text that fits is in __adb_error then.
theorem store_text (herror : error.length = ERROR_SIZE) (htext : IsText text)
    (hfits : text.length < ERROR_SIZE) :
    ∃ stored, store error 0 (text ++ [0]) = .ok stored ∧ stored.length = ERROR_SIZE ∧
      readText stored = .ok text := by
  have hlen : (text ++ [0]).length ≤ error.length := by
    rw [List.length_append, List.length_singleton, herror]
    exact hfits
  have hstore := store_written [] (text ++ [0]) hlen
  rw [List.map_nil, List.nil_append, List.nil_append, List.length_nil] at hstore
  refine ⟨_, hstore, ?_, readText_terminated htext⟩
  rw [List.length_append, List.length_map, List.length_drop]
  omega

theorem length_statusFault (four : Bytes) : (statusFault four).length < ERROR_SIZE := by
  have hfirst : (ascii "protocol fault (status ").length = 23 := by decide
  have hlast : (ascii "?!)").length = 3 := by decide
  have hhex : ∀ c, (hex2 c).length = 2 := fun _ => rfl
  unfold statusFault
  split
  · simp only [List.length_append, hfirst, hlast, hhex, List.length_singleton]
    decide
  · decide

theorem isText_hex2 (c : UInt8) : IsText (hex2 c) := by
  have hhigh : c.toNat / 16 < 16 := by
    have := c.toNat_lt
    omega
  have hlow : c.toNat % 16 < 16 := Nat.mod_lt _ (by decide)
  exact isText_cons.mpr ⟨hexDigit_ne_zero hhigh,
    isText_cons.mpr ⟨hexDigit_ne_zero hlow, isText_nil⟩⟩

theorem isText_statusFault (four : Bytes) : IsText (statusFault four) := by
  unfold statusFault
  split
  · have hspace : IsText [32] := by decide
    have hfirst : IsText (ascii "protocol fault (status ") := by decide
    have hlast : IsText (ascii "?!)") := by decide
    simp only [isText_append, isText_hex2, hspace, hfirst, hlast, and_self]
  · exact isText_nil

-- A return of -1 that leaves a text.
def Reports (run : Nat → ExceptT MemoryFault Option StatusEnd) (text : Bytes) : Prop :=
  ∃ e, Ends run (.ok e) ∧ e.ret = -1 ∧ e.error.length = ERROR_SIZE ∧ readText e.error = .ok text

-- An error message of the program itself.
theorem reports_message {error' : List Cell} {run : Nat → ExceptT MemoryFault Option StatusEnd}
    (left : List ReadOutcome) (herror : error'.length = ERROR_SIZE) (htext : IsText text)
    (hfits : text.length < ERROR_SIZE)
    (hrun : ∀ stored, store error' 0 (text ++ [0]) = .ok stored →
      Ends run (.ok ⟨-1, stored, left⟩)) :
    Reports run text := by
  obtain ⟨stored, hstore, hlen, hread⟩ := store_text herror htext hfits
  exact ⟨_, hrun stored hstore, rfl, hlen, hread⟩

-- The four bytes of a read into buf are compared.
theorem load_four {a : Bytes} {ptr : List Cell} (rest : List Cell) (hlen : 4 ≤ a.length)
    (hptr : ptr = (a.take 4).map some ++ rest) : load ptr 4 = .ok (a.take 4) := by
  have hfour : (a.take 4).length = 4 := by rw [List.length_take, Nat.min_eq_left hlen]
  have hload := load_written (a.take 4) rest
  rwa [hfour, ← hptr] at hload

-- The digits behind FAIL are ended in buf, and read.
theorem digits_read {buf : List Cell} (digits : Bytes) (hdigits : digits.length = 4)
    (hbuf : buf.length = 5) :
    ∃ ended, store (digits.map some ++ buf.drop 4) 4 [0] = .ok ended ∧
      readText ended = .ok (digits.takeWhile (· ≠ 0)) := by
  have hroom : [(0 : UInt8)].length ≤ (buf.drop 4).length := by
    rw [List.length_drop, hbuf]
    decide
  have hrest : (buf.drop 4).drop 1 = [] := by
    rw [List.drop_drop, List.drop_eq_nil_iff, hbuf]
  have hstore := store_written digits [0] hroom
  rw [hdigits, List.length_singleton, hrest, List.append_nil] at hstore
  exact ⟨_, hstore, readText_until digits []⟩

theorem min_toNat (len : UInt32) : (if len > 255 then 255 else len).toNat = min len.toNat 255 := by
  have hmax : (255 : UInt32).toNat = 255 := rfl
  split
  · rename_i hgt
    have hlt : (255 : UInt32).toNat < len.toNat := UInt32.lt_iff_toNat_lt.mp hgt
    omega
  · rename_i hgt
    have hle : ¬ (255 : UInt32).toNat < len.toNat := fun h => hgt (UInt32.lt_iff_toNat_lt.mpr h)
    omega

-- The bytes that are read into __adb_error are ended there.
theorem reason_read (bytes : Bytes) (herror : error.length = ERROR_SIZE)
    (hlen : bytes.length ≤ 255) :
    ∃ stored, store (bytes.map some ++ error.drop bytes.length) bytes.length [0] = .ok stored ∧
      stored.length = ERROR_SIZE ∧ readText stored = .ok (bytes.takeWhile (· ≠ 0)) := by
  have hroom : [(0 : UInt8)].length ≤ (error.drop bytes.length).length := by
    rw [List.length_drop, herror, ERROR_SIZE, List.length_singleton]
    omega
  refine ⟨_, store_written bytes [0] hroom, ?_, readText_ended bytes _⟩
  rw [List.length_append, List.length_map, List.length_append, List.length_drop, List.length_drop,
    herror, ERROR_SIZE, List.length_singleton]
  omega

theorem adbStatusFail_reports {buf : List Cell} (reads : List ReadOutcome) (hbuf : buf.length = 5)
    (herror : error.length = ERROR_SIZE) :
    Reports (adbStatusFail · buf reads error) (failError (arrived reads)) := by
  by_cases hshort : (arrived reads).length < 4
  · obtain ⟨s, hrun, -⟩ := readxMemory_short (show 4 ≤ buf.length by omega) hshort
    rw [failError, if_pos hshort]
    refine reports_message s.reads herror (by decide) (by decide) fun stored hstore => ?_
    exact Ends.mk_bind hrun (Ends.lift_bind hstore (ends_pure _))
  have hfour : 4 ≤ (arrived reads).length := Nat.not_lt.mp hshort
  obtain ⟨s, hrun, hptr, hleft⟩ := readxMemory_full (show 4 ≤ buf.length by omega) hfour
  have hlen : ((arrived reads).take 4).length = 4 := by rw [List.length_take, Nat.min_eq_left hfour]
  obtain ⟨ended, hended, hdigits⟩ := digits_read ((arrived reads).take 4) hlen hbuf
  rw [← hptr] at hended
  obtain ⟨len, hlen⟩ : ∃ len, len = strtoul16 (((arrived reads).take 4).takeWhile (· ≠ 0)) :=
    ⟨_, rfl⟩
  have hn : (if len > 255 then 255 else len).toNat = reasonLength (arrived reads) := by
    rw [min_toNat, hlen, reasonLength]
  have hmax : reasonLength (arrived reads) ≤ 255 := Nat.min_le_right ..
  have hroom : reasonLength (arrived reads) ≤ error.length := by
    rw [herror, ERROR_SIZE]
    omega
  rw [failError, if_neg hshort, ← hleft]
  by_cases hcut : (arrived s.reads).length < reasonLength (arrived reads)
  · obtain ⟨t, hrun', hlength⟩ := readxMemory_short hroom hcut
    rw [if_pos hcut]
    refine reports_message t.reads (hlength.trans herror) (by decide)
      (by decide) fun stored hstore => ?_
    refine Ends.mk_bind hrun (Ends.lift_bind hended (Ends.lift_bind hdigits ?_))
    simp only [← hlen, hn]
    exact Ends.mk_bind hrun' (Ends.lift_bind hstore (ends_pure _))
  · obtain ⟨t, hrun', hreason, -⟩ := readxMemory_full hroom (Nat.not_lt.mp hcut)
    have htake : ((arrived s.reads).take (reasonLength (arrived reads))).length =
        reasonLength (arrived reads) := by
      rw [List.length_take, Nat.min_eq_left (Nat.not_lt.mp hcut)]
    obtain ⟨stored, hstore, hlength, hread⟩ :=
      reason_read ((arrived s.reads).take (reasonLength (arrived reads)))
      herror (by omega)
    rw [htake, ← hreason] at hstore
    rw [if_neg hcut]
    refine ⟨⟨-1, stored, t.reads⟩, ?_, rfl, hlength, hread⟩
    refine Ends.mk_bind hrun (Ends.lift_bind hended (Ends.lift_bind hdigits ?_))
    simp only [← hlen, hn]
    exact Ends.mk_bind hrun' (Ends.lift_bind hstore (ends_pure _))

-- Whatever arrives, adb_status returns: 0 for OKAY, and for all else -1 and a message
-- that is a text in its buffer.
theorem adbStatusMemory_ends (reads : List ReadOutcome) (herror : error.length = ERROR_SIZE) :
    match statusError (arrived reads) with
    | none => ∃ left, Ends (adbStatusMemory · reads error) (.ok ⟨0, error, left⟩)
    | some text => Reports (adbStatusMemory · reads error) text := by
  have hfive : 4 ≤ (fresh 5).length := by decide
  by_cases hshort : (arrived reads).length < 4
  · obtain ⟨s, hrun, -⟩ := readxMemory_short hfive hshort
    rw [statusError, if_pos hshort]
    refine reports_message s.reads herror (by decide) (by decide) fun stored hstore => ?_
    exact Ends.mk_bind hrun (Ends.lift_bind hstore (ends_pure _))
  have hfour : 4 ≤ (arrived reads).length := Nat.not_lt.mp hshort
  obtain ⟨s, hrun, hptr, hleft⟩ := readxMemory_full hfive hfour
  have hload := load_four _ hfour hptr
  rw [statusError, if_neg hshort]
  by_cases hokay : (arrived reads).take 4 = ascii "OKAY"
  · rw [if_pos hokay]
    refine ⟨s.reads, Ends.mk_bind hrun (Ends.lift_bind hload ?_)⟩
    simp only [if_pos hokay]
    exact ends_pure _
  rw [if_neg hokay]
  by_cases hfail : (arrived reads).take 4 = ascii "FAIL"
  · have hbuf : s.ptr.length = 5 := by
      rw [hptr, List.length_append, List.length_map, List.length_take, Nat.min_eq_left hfour]
      rfl
    obtain ⟨e, hends, hreports⟩ := adbStatusFail_reports s.reads hbuf herror
    rw [if_neg (not_not.mpr hfail), ← hleft]
    refine ⟨e, Ends.mk_bind hrun (Ends.lift_bind hload ?_), hreports⟩
    simp only [if_neg hokay, if_neg (not_not.mpr hfail)]
    exact hends
  · rw [if_pos hfail]
    refine reports_message s.reads herror (isText_statusFault _)
      (length_statusFault _) fun stored hstore => ?_
    refine Ends.mk_bind hrun (Ends.lift_bind hload ?_)
    simp only [if_neg hokay, ne_eq, hfail, not_false_eq_true, if_true]
    exact Ends.lift_bind hstore (ends_pure _)

end Status

section RoundTrip

variable {reason : Bytes}

-- The reason is found behind its length, as far as there is room for it.
theorem failError_framed (htext : IsText reason) (hlen : reason.length ≤ 65535) (more : Bytes) :
    failError (framed reason ++ more) = reason.take 255 := by
  have htake : (framed reason ++ more).take 4 = hex4 reason.length := by
    rw [framed, List.append_assoc]
    exact List.take_left' (length_hex4 _)
  have hdrop : (framed reason ++ more).drop 4 = reason ++ more := by
    rw [framed, List.append_assoc]
    exact List.drop_left' (length_hex4 _)
  have hlength : reasonLength (framed reason ++ more) = min reason.length 255 := by
    rw [reasonLength, htake, (isText_hex4 _).takeWhile_ne, strtoul16_hex4 (by omega)]
  have hshort : ¬ (framed reason ++ more).length < 4 := by
    rw [List.length_append, length_framed]
    omega
  have hfull : ¬ (reason ++ more).length < min reason.length 255 := by
    rw [List.length_append]
    omega
  have hreason : (reason ++ more).take (min reason.length 255) = reason.take 255 := by
    rw [List.take_append_of_le_length (Nat.min_le_left ..), Nat.min_comm, ← List.take_eq_take_min]
  rw [failError, if_neg hshort, hdrop, hlength, if_neg hfull, hreason,
    (htext.take 255).takeWhile_ne]

-- What sendfailmsg has sent, adb_status reports: the reason, as far as __adb_error
-- holds it. Each byte that is neither of the two words is reported as a fault.
theorem failure_round_trip (error : List Cell) (herror : error.length = ERROR_SIZE) :
    (∀ (reason : Bytes) (writes : List WriteOutcome), IsText reason → reason.length ≤ 65535 →
      ∃ ret sent left, Ends (sendfailmsg · writes reason) (.ok (ret, sent, left)) ∧
        (Steady writes → 8 + reason.length ≤ writes.countP takesBytes → ret = 0) ∧
        (ret = 0 → ∀ reads more, arrived reads = sent ++ more →
          Reports (adbStatusMemory · reads error) (reason.take 255))) ∧
    ∀ (reads : List ReadOutcome) (four more : Bytes), four.length = 4 → four ≠ ascii "OKAY" →
      four ≠ ascii "FAIL" →
      arrived reads = four ++ more →
        Reports (adbStatusMemory · reads error) (statusFault four) := by
  constructor
  · intro reason writes htext hlen
    obtain ⟨ret, sent, left, hends, hsent⟩ := sendfailmsg_ends writes hlen
    refine ⟨ret, sent, left, hends, fun hsteady henough => ?_, fun hret reads more harrived => ?_⟩
    · obtain ⟨left', hall⟩ := sendfailmsg_steady hlen hsteady henough
      exact (Prod.mk.inj (Except.ok.inj (hends.unique hall))).1
    · obtain ⟨-, rfl⟩ | ⟨hfailed, -⟩ := hsent
      · have hstatus : statusError (arrived reads) = some (reason.take 255) := by
          have htake : (arrived reads).take 4 = ascii "FAIL" := by
            rw [harrived, List.append_assoc]
            rfl
          have hdrop : (arrived reads).drop 4 = framed reason ++ more := by
            rw [harrived, List.append_assoc]
            rfl
          have hfour : ¬ (arrived reads).length < 4 := by
            have hlength := congrArg List.length htake
            rw [List.length_take] at hlength
            have hword : (ascii "FAIL").length = 4 := by decide
            omega
          rw [statusError, if_neg hfour, htake, if_neg (by decide), if_neg (by decide), hdrop,
            failError_framed htext hlen]
        have hreports := adbStatusMemory_ends reads herror
        rwa [hstatus] at hreports
      · rw [hret] at hfailed
        cases hfailed
  · intro reads four more hlen hokay hfail harrived
    have htake : (arrived reads).take 4 = four := by rw [harrived, List.take_left' hlen]
    have hfour : ¬ (arrived reads).length < 4 := by
      rw [harrived, List.length_append]
      omega
    have hstatus : statusError (arrived reads) = some (statusFault four) := by
      rw [statusError, if_neg hfour, htake, if_neg hokay, if_pos hfail]
    have hreports := adbStatusMemory_ends reads herror
    rwa [hstatus] at hreports

theorem failure_round_trip_of_device :
    ∃ sent left, Ends (sendfailmsg · (List.replicate 30 (.wrote 1)) (ascii "device not found"))
      (.ok (0, sent, left)) ∧
      Reports (adbStatusMemory · [.data sent] (zeroed 256)) (ascii "device not found") := by
  obtain ⟨ret, sent, left, hends, hsteady, hback⟩ :=
    (failure_round_trip (zeroed 256) length_zeroed).1
    (ascii "device not found") (List.replicate 30 (.wrote 1)) (by decide) (by decide)
  obtain rfl : ret = 0 := hsteady (fun w hw => .inr (by rw [List.eq_of_mem_replicate hw]; rfl))
    (by rw [List.countP_replicate]; decide)
  have harrived : arrived [.data sent] = sent ++ [] := by
    rw [List.append_nil]
    cases sent <;> simp [arrived]
  exact ⟨sent, left, hends, hback rfl [.data sent] [] harrived⟩

-- Where it returns 0, adbStatus goes on.
theorem adbStatus_isSome (reads : List ReadOutcome) :
    (adbStatus reads).isSome ↔ statusError (arrived reads) = none := by
  rw [statusError]
  by_cases hfour : (arrived reads).length < 4
  · rw [adbStatus, (readx_readsAt 4).short reads hfour, if_pos hfour]
    simp
  · obtain ⟨rest, hread, -⟩ := (readx_readsAt 4).full reads (Nat.not_lt.mp hfour)
    rw [adbStatus, hread, if_neg hfour]
    by_cases hokay : (arrived reads).take 4 = ascii "OKAY"
    · simp [hokay]
    · by_cases hfail : (arrived reads).take 4 = ascii "FAIL" <;> simp [hokay, hfail]

theorem adbStatus_memory (reads : List ReadOutcome) (error : List Cell)
    (herror : error.length = ERROR_SIZE) :
    (adbStatus reads).isSome ↔ ∃ left,
      Ends (adbStatusMemory · reads error) (.ok ⟨0, error, left⟩) := by
  rw [adbStatus_isSome]
  have hends := adbStatusMemory_ends reads herror
  cases hstatus : statusError (arrived reads) with
  | none =>
      rw [hstatus] at hends
      exact iff_of_true rfl hends
  | some text =>
      rw [hstatus] at hends
      refine iff_of_false (by simp) fun ⟨left, hzero⟩ => ?_
      obtain ⟨e, hrun, hret, -⟩ := hends
      have he := Except.ok.inj (hrun.unique hzero)
      rw [he] at hret
      cases hret

end RoundTrip

end Adb.Client
