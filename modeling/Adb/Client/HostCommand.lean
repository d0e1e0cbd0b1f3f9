import Adb.Host.SmartSocket
import Adb.Lib.CString

namespace Adb.Client

open Adb.Lib
open Adb.Host
open Adb.Transport (TransportType)

-- The text that format_host_command prints.
def hostCommandText (command : Bytes) (ttype : TransportType) (serial : Option Bytes) : Bytes :=
  match serial with
  | some serial => ascii "host-serial:" ++ serial ++ [58] ++ command
  | none =>
      let pre := match ttype with
        | .usb => ascii "host-usb"
        | .loopback => ascii "host-local"
        | _ => ascii "host"
      pre ++ [58] ++ command

def formatHostCommand (buffer : List Cell) (command : Bytes) (ttype : TransportType)
    (serial : Option Bytes) : List Cell :=
  (snprintf buffer buffer.length (hostCommandText command ttype serial)).1

-- Every caller has a buffer of this size.
def COMMAND_SIZE : Nat := 4096

section Split

variable {s t pre rest host : Bytes}

-- A text is cut at its first colon in one way only.
theorem colon_unique {host' rest' : Bytes} (h : 58 ∉ host) (h' : 58 ∉ host')
    (heq : host ++ 58 :: rest = host' ++ 58 :: rest') : host = host' ∧ rest = rest' := by
  have hsplit : splitColon (host ++ 58 :: rest) = some (host, rest) := splitColon_colon h rest
  rw [heq, splitColon_colon h' rest', Option.some.injEq, Prod.mk.injEq] at hsplit
  exact ⟨hsplit.1.symm, hsplit.2.symm⟩

end Split

section Serials

variable {serial command x host digits service rest : Bytes} {p : String}

def serialPrefixes : List String := ["usb:", "product:", "model:", "device:"]

-- What a device can be named by: a serial number, host:port, or a qualifier.
inductive SerialShape : Bytes → Prop
  | plain {serial : Bytes} : serial ≠ [] → 58 ∉ serial →
      serial ∉ [ascii "usb", ascii "product", ascii "model", ascii "device"] → SerialShape serial
  | hostPort {host digits : Bytes} : 58 ∉ host → digits ≠ [] → (∀ c ∈ digits, isDigit c = true) →
      SerialShape (host ++ 58 :: digits)
  | qualified {p : String} {x : Bytes} : p ∈ serialPrefixes → 58 ∉ x → SerialShape (ascii p ++ x)

theorem serialPrefix_stem (h : p ∈ serialPrefixes) : ∃ stem,
    stem ∈ [ascii "usb", ascii "product", ascii "model", ascii "device"] ∧
      ascii p = stem ++ [58] ∧ 58 ∉ stem ∧ (ascii p).length = p.length := by
  simp only [serialPrefixes, List.mem_cons, List.not_mem_nil, or_false] at h
  rcases h with rfl | rfl | rfl | rfl
  · exact ⟨ascii "usb", by decide⟩
  · exact ⟨ascii "product", by decide⟩
  · exact ⟨ascii "model", by decide⟩
  · exact ⟨ascii "device", by decide⟩

theorem serialPrefix_found
    (h : serialPrefixes.find? (fun p => (afterPrefix p service).isSome) = some p) :
    p ∈ serialPrefixes ∧ ∃ rest, service = ascii p ++ rest := by
  have hsome := List.find?_some h
  obtain ⟨rest, hrest⟩ := Option.isSome_iff_exists.mp hsome
  exact ⟨List.mem_of_find?_eq_some h, rest, matchChars_iff.mp hrest⟩

theorem skipHostSerial_found (h : serialPrefixes.find? (fun p => (afterPrefix p service).isSome) = some p) :
    skipHostSerial service =
      (splitColon (service.drop p.length)).map fun (serial, rest) => (ascii p ++ serial, rest) := by
  unfold serialPrefixes at h
  simp only [skipHostSerial, h]

-- Behind a prefix, the next colon ends the serial.
theorem skipHostSerial_begins {q : String} {tail : Bytes} (hq : q ∈ serialPrefixes)
    (hservice : service = ascii q ++ tail) (hx : 58 ∉ x) (htail : tail = x ++ 58 :: rest) :
    skipHostSerial service = some (ascii q ++ x, rest) := by
  have hmatch : (afterPrefix q service).isSome = true := by
    rw [afterPrefix, matchChars_iff.mpr hservice]
    rfl
  cases hfind : serialPrefixes.find? (fun p => (afterPrefix p service).isSome) with
  | none =>
      have hnone := List.find?_eq_none.mp hfind q hq
      exact absurd hmatch hnone
  | some p =>
      obtain ⟨hp, rest', hsplit⟩ := serialPrefix_found hfind
      obtain ⟨stem, -, hstem, hcolon, hlen⟩ := serialPrefix_stem hp
      obtain ⟨stem', -, hstem', hcolon', -⟩ := serialPrefix_stem hq
      have hboth : stem ++ 58 :: rest' = stem' ++ 58 :: tail := by
        rw [List.append_cons, List.append_cons stem', ← hstem, ← hstem', ← hsplit, hservice]
      obtain ⟨rfl, rfl⟩ := colon_unique hcolon hcolon' hboth
      rw [skipHostSerial_found hfind, hsplit, ← hlen, List.drop_left, htail, splitColon_colon hx _, hstem,
        hstem']
      rfl

-- Without one, it is the first colon, or the one behind a port number.
theorem skipHostSerial_plain
    (h : serialPrefixes.find? (fun p => (afterPrefix p service).isSome) = none)
    (hsplit : splitColon service = some (host, rest)) :
    skipHostSerial service = match rest.drop (rest.takeWhile isDigit).length with
      | 58 :: behind =>
          if rest.takeWhile isDigit = [] then some (host, rest)
          else some (host ++ [58] ++ rest.takeWhile isDigit, behind)
      | _ => some (host, rest) := by
  have hskip := skipHostSerial.eq_def service
  unfold serialPrefixes at h
  rw [h, hsplit] at hskip
  exact hskip

theorem takeWhile_digits (hd : ∀ c ∈ digits, isDigit c = true) (rest : Bytes) :
    (digits ++ 58 :: rest).takeWhile isDigit = digits := by
  rw [List.takeWhile_append_of_pos hd, List.takeWhile_cons_of_neg (by decide), List.append_nil]

theorem skipHostSerial_serial (h : SerialShape serial)
    (hcommand : ∀ c ∈ command.head?, isDigit c = false) :
    skipHostSerial (serial ++ 58 :: command) = some (serial, command) := by
  cases h with
  | @qualified q x hq hx =>
      exact skipHostSerial_begins hq (List.append_assoc _ _ _) hx rfl
  | plain hne hcolon hstems =>
      have hnone : serialPrefixes.find? (fun p => (afterPrefix p (serial ++ 58 :: command)).isSome) =
          none := by
        rw [List.find?_eq_none]
        intro p hp hsome
        obtain ⟨rest, hrest⟩ := Option.isSome_iff_exists.mp hsome
        obtain ⟨stem, hmem, hstem, hcolon', -⟩ := serialPrefix_stem hp
        have hsplit := matchChars_iff.mp hrest
        rw [hstem, List.append_assoc] at hsplit
        obtain ⟨rfl, -⟩ := colon_unique hcolon hcolon' hsplit
        exact hstems hmem
      have hdigits : command.takeWhile isDigit = [] := by
        cases command with
        | nil => rfl
        | cons c rest =>
            have hc := hcommand c rfl
            rw [List.takeWhile_cons_of_neg (by simp [hc])]
      rw [skipHostSerial_plain hnone (splitColon_colon hcolon _), hdigits]
      simp only [List.length_nil, List.drop_zero, if_true]
      split <;> rfl
  | @hostPort host digits hcolon hne hd =>
      have hservice : host ++ 58 :: digits ++ 58 :: command = host ++ 58 :: (digits ++ 58 :: command) := by
        rw [List.append_assoc, List.cons_append]
      have hdcolon : 58 ∉ digits := by
        intro hm
        have hdigit := hd 58 hm
        revert hdigit
        decide
      rw [hservice]
      cases hfind : serialPrefixes.find? fun p =>
          (afterPrefix p (host ++ 58 :: (digits ++ 58 :: command))).isSome with
      | some p =>
          -- usb:5555 and the like: the prefix form gives the same serial
          obtain ⟨hp, rest, hsplit⟩ := serialPrefix_found hfind
          obtain ⟨stem, -, hstem, hcolon', -⟩ := serialPrefix_stem hp
          have hboth := hsplit
          rw [hstem, List.append_assoc] at hboth
          obtain ⟨rfl, rfl⟩ := colon_unique hcolon hcolon' hboth
          rw [skipHostSerial_begins hp hsplit hdcolon rfl, hstem]
          simp
      | none =>
          rw [skipHostSerial_plain hfind (splitColon_colon hcolon _), takeWhile_digits hd, List.drop_left]
          simp [hne]

theorem parseRequest_hostSerial (h : SerialShape serial)
    (hcommand : ∀ c ∈ command.head?, isDigit c = false) :
    parseRequest (hostCommandText command .any (some serial)) = .host command .any (some serial) := by
  have htext : hostCommandText command .any (some serial) =
      ascii "host-serial:" ++ (serial ++ 58 :: command) := by
    simp [hostCommandText]
  have hafter : afterPrefix "host-serial:" (hostCommandText command .any (some serial)) =
      some (serial ++ 58 :: command) := matchChars_iff.mpr htext
  simp only [parseRequest, hafter, skipHostSerial_serial h hcommand]

end Serials

-- What is read from the buffer of the client, as the server takes it apart.
def receivedRequest (buflen : Nat) (command : Bytes) (ttype : TransportType)
    (serial : Option Bytes) : Except MemoryFault Request :=
  (readText (formatHostCommand (fresh buflen) command ttype serial)).map parseRequest

theorem receivedRequest_eq (buflen : Nat) {serial command : Bytes} (ttype : TransportType)
    (hserial : IsText serial) (hcommand : IsText command) :
    receivedRequest buflen command ttype (some serial) =
      if serial.length + command.length + 13 < buflen then
        .ok (parseRequest (hostCommandText command .any (some serial)))
      else .error .overread := by
  have htext : IsText (hostCommandText command ttype (some serial)) := by
    simp only [hostCommandText, isText_append]
    exact ⟨⟨⟨by decide, hserial⟩, by decide⟩, hcommand⟩
  have hlen : (hostCommandText command ttype (some serial)).length =
      serial.length + command.length + 13 := by
    have hpre : (ascii "host-serial:").length = 12 := by decide
    simp only [hostCommandText, List.length_append, List.length_singleton, hpre]
    omega
  unfold receivedRequest formatHostCommand
  rw [readText_snprintf htext rfl, hlen, length_fresh]
  split <;> rfl

-- The serial and the command come through if and only if the request fits into
-- the buffer.
theorem host_serial_round_trip (buflen : Nat) (serial command : Bytes) (ttype : TransportType)
    (hserial : IsText serial) (hcommand : IsText command) (hshape : SerialShape serial)
    (hdigit : ∀ c ∈ command.head?, isDigit c = false) :
    receivedRequest buflen command ttype (some serial) = .ok (.host command .any (some serial)) ↔
      serial.length + command.length + 13 < buflen := by
  rw [receivedRequest_eq buflen ttype hserial hcommand]
  split
  · rename_i hfits
    simp [hfits, parseRequest_hostSerial hshape hdigit]
  · rename_i hfits
    simp [hfits]

theorem shape_tcp : SerialShape (ascii "10.0.0.2:5555") :=
  @SerialShape.hostPort (ascii "10.0.0.2") (ascii "5555") (by decide) (by decide)
    (List.all_eq_true.mp (by decide))

theorem command_digit : ∀ c ∈ (ascii "get-state").head?, isDigit c = false := by
  intro c hc
  cases hc
  decide

theorem host_serial_round_trip_of_tcp :
    receivedRequest COMMAND_SIZE (ascii "get-state") .any (some (ascii "10.0.0.2:5555")) =
      .ok (.host (ascii "get-state") .any (some (ascii "10.0.0.2:5555"))) :=
  (host_serial_round_trip COMMAND_SIZE (ascii "10.0.0.2:5555") (ascii "get-state") .any
    (by decide) (by decide) shape_tcp command_digit).mpr (by decide)

-- A serial that is as long as the buffer leaves no room for the end of the text.
theorem long_serial_is_cut :
    receivedRequest COMMAND_SIZE (ascii "get-state") .any (some (List.replicate COMMAND_SIZE 97)) ≠
      .ok (.host (ascii "get-state") .any (some (List.replicate COMMAND_SIZE 97))) := by
  have htext : ∀ n, IsText (List.replicate n 97) := by simp [IsText]
  rw [receivedRequest_eq COMMAND_SIZE .any (htext COMMAND_SIZE) (by decide), if_neg]
  · intro h
    cases h
  · rw [List.length_replicate]
    omega

end Adb.Client
