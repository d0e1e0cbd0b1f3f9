import Adb.Client.Connect
import Adb.Host.ReplyShape
import Adb.Wire.Remote

namespace Adb.Client

open Adb.Lib
open Adb.Host
open Adb.Transport (TransportType)
open Adb.Wire (readx arrived readx_readsAt)

section Numbers

variable {n : Nat}

def leadingHex (s : Bytes) : Nat := (unhex (s.takeWhile fun c => (unhexDigit c).isSome)).getD 0

-- A number that may be written with 0x.
def hexNumber (s : Bytes) : Nat :=
  match s with
  | 48 :: 120 :: rest => leadingHex rest
  | 48 :: 88 :: rest => leadingHex rest
  | s => leadingHex s

-- strtoul with base 16.
def strtoul16 (s : Bytes) : UInt32 :=
  match s.dropWhile isSpace with
  | 45 :: rest => -UInt32.ofNat (hexNumber rest)
  | 43 :: rest => UInt32.ofNat (hexNumber rest)
  | rest => UInt32.ofNat (hexNumber rest)

theorem hexDigit_plain (hn : n < 16) : isSpace (hexDigit n) = false ∧ hexDigit n ≠ 45 ∧
    hexDigit n ≠ 43 ∧ hexDigit n ≠ 120 ∧ hexDigit n ≠ 88 ∧ (unhexDigit (hexDigit n)).isSome = true := by
  have hall : ∀ k : Fin 16, isSpace (hexDigit k) = false ∧ hexDigit k ≠ 45 ∧ hexDigit k ≠ 43 ∧
      hexDigit k ≠ 120 ∧ hexDigit k ≠ 88 ∧ (unhexDigit (hexDigit k)).isSome = true := by decide
  exact hall ⟨n, hn⟩

theorem hexNumber_hex4 (hn : n < 65536) : hexNumber (hex4 n) = n := by
  have hplain : ∀ k, isSpace (hexDigit (k % 16)) = false ∧ hexDigit (k % 16) ≠ 45 ∧
      hexDigit (k % 16) ≠ 43 ∧ hexDigit (k % 16) ≠ 120 ∧ hexDigit (k % 16) ≠ 88 ∧
      (unhexDigit (hexDigit (k % 16))).isSome = true := fun k => hexDigit_plain (Nat.mod_lt k (by decide))
  have hnumber : hexNumber (hex4 n) = leadingHex (hex4 n) := by
    unfold hexNumber
    split
    · rename_i rest heq
      simp only [hex4, List.cons.injEq] at heq
      exact absurd heq.2.1 (hplain _).2.2.2.1
    · rename_i rest heq
      simp only [hex4, List.cons.injEq] at heq
      exact absurd heq.2.1 (hplain _).2.2.2.2.1
    · rfl
  have hall : (hex4 n).takeWhile (fun c => (unhexDigit c).isSome) = hex4 n := by
    apply List.takeWhile_eq_self_iff.mpr
    intro c hc
    simp only [hex4, List.mem_cons, List.not_mem_nil, or_false] at hc
    rcases hc with rfl | rfl | rfl | rfl <;> exact (hplain _).2.2.2.2.2
  rw [hnumber, leadingHex, hall, unhex_hex4 hn]
  rfl

theorem strtoul16_hex4 (hn : n < 65536) : (strtoul16 (hex4 n)).toNat = n := by
  have hplain := hexDigit_plain (Nat.mod_lt (n / 4096) (show 0 < 16 by decide))
  have hspace : (hex4 n).dropWhile isSpace = hex4 n := by
    rw [hex4, List.dropWhile_cons_of_neg (by rw [hplain.1]; simp)]
  have hvalue : strtoul16 (hex4 n) = UInt32.ofNat (hexNumber (hex4 n)) := by
    unfold strtoul16
    rw [hspace]
    split
    · rename_i rest heq
      simp only [hex4, List.cons.injEq] at heq
      exact absurd heq.1 hplain.2.1
    · rename_i rest heq
      simp only [hex4, List.cons.injEq] at heq
      exact absurd heq.1 hplain.2.2.1
    · rfl
  rw [hvalue, hexNumber_hex4 hn, UInt32.toNat_ofNat']
  exact Nat.mod_eq_of_lt (by omega)

end Numbers

section Query

variable {text : Bytes} {reads : List ReadOutcome}

-- adb_status, where it returns 0, and what is left to read. none: -1.
def adbStatus (reads : List ReadOutcome) : Option (List ReadOutcome) := do
  let (buf, reads) ← readx 4 reads
  if buf = ascii "OKAY" then some reads else none

-- adb_query, once the service has been written: the string it returns, or NULL.
def adbQuery (reads : List ReadOutcome) : Option Bytes := do
  let reads ← adbStatus reads
  let (buf, reads) ← readx 4 reads
  let n := strtoul16 buf
  if n > 1024 then
    none
  else
    let (tmp, _) ← readx n.toNat reads
    return tmp

-- The reply is read as long as its text is not too long for the client.
theorem adbQuery_reply (hlen : text.length < 65536)
    (harrived : arrived reads = ascii "OKAY" ++ hex4 text.length ++ text) :
    adbQuery reads = if text.length ≤ 1024 then some text else none := by
  have hokay : (ascii "OKAY").length = 4 := by decide
  have hhex : (hex4 text.length).length = 4 := rfl
  rw [List.append_assoc] at harrived
  obtain ⟨left, hstatus, hleft⟩ := (readx_readsAt 4).full reads (by rw [harrived, List.length_append, hokay]; omega)
  rw [harrived, List.take_left' hokay] at hstatus
  rw [harrived, List.drop_left' hokay] at hleft
  obtain ⟨behind, hdigits, hbehind⟩ :=
    (readx_readsAt 4).full left (by rw [hleft, List.length_append, hhex]; omega)
  rw [hleft, List.take_left' hhex] at hdigits
  rw [hleft, List.drop_left' hhex] at hbehind
  have hn := strtoul16_hex4 hlen
  have hgt : strtoul16 (hex4 text.length) > 1024 ↔ text.length > 1024 := by
    rw [gt_iff_lt, UInt32.lt_iff_toNat_lt, hn]
    rfl
  obtain ⟨rest, htext, -⟩ := (readx_readsAt text.length).full behind (by rw [hbehind])
  rw [hbehind, List.take_length] at htext
  by_cases hfits : text.length ≤ 1024
  · rw [if_pos hfits]
    simp [adbQuery, adbStatus, hstatus, hdigits, hgt, hn, htext, Nat.not_lt.mpr hfits]
  · rw [if_neg hfits]
    simp [adbQuery, adbStatus, hstatus, hdigits, hgt, Nat.not_le.mp hfits]

end Query

section Texts

variable {table : List ATransport} {service text host : Bytes} {request : HostRequest}
  {ttype : TransportType} {serial : Option Bytes} {opened : Bool}

theorem readText_isText (cells : List Cell) :
    Ensures (readText cells) IsText (fun _ => True) := by
  induction cells with
  | nil => trivial
  | cons c cells ih =>
      cases c with
      | none => trivial
      | some c =>
          rw [readText]
          split
          · exact isText_nil
          · rename_i hc
            cases hread : readText cells with
            | error e => trivial
            | ok s =>
                rw [hread] at ih
                exact isText_cons.mpr ⟨hc, ih⟩

theorem ensures_any {α ε : Type} (x : Except ε α) : Ensures x (fun _ => True) (fun _ => True) := by
  cases x <;> trivial

theorem connectTo_isText (host : Bytes) (hostbuf : List Cell) (port : Option Int) :
    Ensures (connectTo table host hostbuf port opened) IsText (fun _ => True) := by
  unfold connectTo
  refine (ensures_any _).bind fun name _ => ?_
  cases port with
  | none => trivial
  | some port =>
      refine (ensures_any _).bind fun found _ => ?_
      split
      · exact (ensures_any _).bind fun serial _ => readText_isText _
      · split
        · exact (ensures_any _).bind fun serial _ => readText_isText _
        · exact readText_isText _

theorem connectText_isText : Ensures (connectText table host opened) IsText (fun _ => True) := by
  unfold connectText connectDevice
  split
  · exact readText_isText _
  · simp only
    split
    · exact connectTo_isText _ _ _
    · split
      · exact readText_isText _
      · split
        · exact readText_isText _
        · exact connectTo_isText _ _ _
        · exact connectTo_isText _ _ _

theorem disconnectText_isText (name : Bytes) :
    Ensures (disconnectText table name) IsText (fun _ => True) := by
  unfold disconnectText
  split
  · exact isText_nil
  · split
    · split
      · exact isText_nil
      · exact readText_isText _
    · refine (ensures_any _).bind fun found _ => ?_
      split
      · exact isText_nil
      · exact (ensures_any _).bind fun serial _ => readText_isText _

theorem field_isText {found : Option ATransport} {field : ATransport → Option Bytes}
    (h : ∀ t ∈ found, ∀ s ∈ field t, IsText s) : IsText ((found.bind field).getD (ascii "unknown")) := by
  have hunknown : IsText (ascii "unknown") := by decide
  cases found with
  | none => exact hunknown
  | some t =>
      rw [Option.bind_some]
      cases hfield : field t with
      | none => exact hunknown
      | some s => exact h t rfl s hfield

theorem replyText_isText (htable : ∀ t ∈ table, t.Texts)
    (h : replyText table request ttype serial opened = some (.ok text)) : IsText text := by
  cases request with
  | devices long =>
      have hlist : listTransports long REPLY_SIZE table [] = .ok text := Option.some.inj h
      have hprints : Prints (listTransports long REPLY_SIZE table []) (listedLength long REPLY_SIZE table 0) :=
        listTransports_prints htable long isText_nil (by simp)
      rw [hlist] at hprints
      exact hprints.1
  | connect host => exact connectText_isText.of_ok (Option.some.inj h)
  | disconnect name => exact (disconnectText_isText name).of_ok (Option.some.inj h)
  | version =>
      cases h
      decide
  | getSerialno =>
      cases h
      exact field_isText fun t ht => (acquire_texts htable t ht).serial
  | getDevpath =>
      cases h
      exact field_isText fun t ht => (acquire_texts htable t ht).devpath
  | getState =>
      cases h
      exact (isText_connectionStateName _).1
  | _ => cases h

end Texts

section Agreement

variable {table : List ATransport} {text : Bytes} {request : HostRequest} {ttype : TransportType}
  {serial : Option Bytes} {opened : Bool}

-- The bytes of the reply make the client return the text, however they come in.
def Agrees (table : List ATransport) (request : HostRequest) (ttype : TransportType)
    (serial : Option Bytes) (opened : Bool) (text : Bytes) : Prop :=
  ∃ bytes, hostReply table request ttype serial opened = some (.ok bytes) ∧
    ∀ reads, arrived reads = bytes → adbQuery reads = some text

theorem hostReply_of_text (htext : IsText text)
    (h : replyText table request ttype serial opened = some (.ok text)) :
    hostReply table request ttype serial opened =
      some (if text.length ≤ 4087 then .ok (ascii "OKAY" ++ hex4 text.length ++ text)
        else .error .overread) := by
  rw [hostReply, h, ← sendReply_eq htext]
  rfl

theorem long_text_disagrees (htable : ∀ t ∈ table, t.Texts)
    (htext : replyText table request ttype serial opened = some (.ok text)) (hlong : 1024 < text.length) :
    ¬Agrees table request ttype serial opened text := by
  rintro ⟨bytes, hbytes, hall⟩
  rw [hostReply_of_text (replyText_isText htable htext) htext, Option.some.injEq] at hbytes
  split at hbytes
  · cases hbytes
    -- the reply in one piece
    have hne : ascii "OKAY" ++ hex4 text.length ++ text ≠ [] := by simp [ascii]
    have hone : arrived [.data (ascii "OKAY" ++ hex4 text.length ++ text)] =
        ascii "OKAY" ++ hex4 text.length ++ text := by
      simp only [arrived, if_neg hne, List.append_nil]
    have hquery := hall _ hone
    rw [adbQuery_reply (by omega) hone, if_neg (by omega)] at hquery
    cases hquery
  · cases hbytes

-- The client returns what the server has computed if and only if it is no longer
-- than 1024 bytes.
theorem query_reply_agreement (table : List ATransport) (request : HostRequest) (ttype : TransportType)
    (serial : Option Bytes) (opened : Bool) (text : Bytes) (htable : ∀ t ∈ table, t.Texts)
    (htext : replyText table request ttype serial opened = some (.ok text)) :
    Agrees table request ttype serial opened text ↔ text.length ≤ 1024 := by
  constructor
  · intro hagrees
    by_contra hlong
    exact long_text_disagrees htable htext (by omega) hagrees
  · intro hfits
    have hreply := hostReply_of_text (replyText_isText htable htext) htext
    rw [if_pos (by omega)] at hreply
    refine ⟨_, hreply, ?_⟩
    intro reads harrived
    rw [adbQuery_reply (by omega) harrived, if_pos hfits]

theorem emulator_texts : ∀ n, ∀ t ∈ List.replicate n emulatorInTable, t.Texts := by
  intro n t ht
  rw [List.eq_of_mem_replicate ht]
  constructor <;> decide

theorem query_reply_agreement_of_one_device :
    Agrees (List.replicate 1 emulatorInTable) (.devices false) .any none false
      (ascii "emulator-5554\tdevice\n") :=
  (query_reply_agreement (List.replicate 1 emulatorInTable) (.devices false) .any none false _
    (emulator_texts 1) (by rfl)).mpr (by decide)

-- Sixty devices make a listing of 1260 bytes.
theorem long_listing_is_refused :
    ∃ text, replyText (List.replicate 60 emulatorInTable) (.devices false) .any none false =
      some (.ok text) ∧ ¬Agrees (List.replicate 60 emulatorInTable) (.devices false) .any none false text := by
  have hline : (formatTransport emulatorInTable).length = 21 := by decide
  have hlength : ((List.replicate 60 emulatorInTable).map formatTransport).flatten.length = 1260 := by
    simp [hline]
  have hlist := @listTransports_fits REPLY_SIZE (List.replicate 60 emulatorInTable) []
    (by rw [List.nil_append, hlength]; decide)
  rw [List.nil_append] at hlist
  have htext : replyText (List.replicate 60 emulatorInTable) (.devices false) .any none false =
      some (.ok ((List.replicate 60 emulatorInTable).map formatTransport).flatten) := congrArg some hlist
  exact ⟨_, htext, long_text_disagrees (emulator_texts 60) htext (by rw [hlength]; decide)⟩

end Agreement

end Adb.Client
