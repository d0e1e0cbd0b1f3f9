import Adb.Host.State

namespace Adb.Host

open Adb.Transport (ConnectionState TransportType)

def qualCharIsInvalid (ch : UInt8) : Bool :=
  !((65 ≤ ch ∧ ch ≤ 90) ∨ (97 ≤ ch ∧ ch ≤ 122) ∨ (48 ≤ ch ∧ ch ≤ 57))

def sanitizeChar (sanitize : Bool) (ch : UInt8) : UInt8 :=
  if sanitize && qualCharIsInvalid ch then 95 else ch

-- Walks two strings side by side until the first one ends.
def matchChars : Bytes → Bytes → Option Bytes
  | [], rest => some rest
  | _ :: _, [] => none
  | c :: cs, d :: ds => if c = d then matchChars cs ds else none

theorem matchChars_iff {pre token rest : Bytes} :
    matchChars pre token = some rest ↔ token = pre ++ rest := by
  induction pre generalizing token with
  | nil =>
      rw [matchChars, Option.some.injEq, List.nil_append]
  | cons c pre ih =>
      cases token with
      | nil => simp [matchChars]
      | cons d token =>
          rw [matchChars, List.cons_append, List.cons.injEq]
          by_cases hcd : c = d
          · rw [if_pos hcd, ih]
            exact ⟨fun h => ⟨hcd.symm, h⟩, fun h => h.2⟩
          · rw [if_neg hcd]
            exact iff_of_false (by simp) fun h => absurd h.1.symm hcd

-- A null string and an empty one count as the same when there is nothing to test.
def qualMatch (toTest pre : Bytes) (qual : Option Bytes) (sanitize : Bool) : Bool :=
  if toTest = [] then
    qual.getD [] = []
  else
    match qual with
    | none => false
    | some qual =>
        match matchChars pre toTest with
        | none => false
        | some rest => matchChars (qual.map (sanitizeChar sanitize)) rest = some []

def matchesSerial (t : ATransport) (serial : Bytes) : Bool :=
  t.serial = some serial || t.devpath = some serial ||
    qualMatch serial (ascii "product:") t.product false ||
    qualMatch serial (ascii "model:") t.model true ||
    qualMatch serial (ascii "device:") t.device false

-- Whether a transport is a candidate, and the complaint about a second one.
def candidate (t : ATransport) (ttype : TransportType) (serial : Option Bytes) : Option String :=
  match serial with
  | some serial => if matchesSerial t serial then some "more than one device" else none
  | none =>
      if ttype = .usb ∧ t.type = .usb then some "more than one device"
      else if ttype = .loopback ∧ t.type = .loopback then some "more than one emulator"
      else if ttype = .any then some "more than one device emulator"
      else none

def acquireLoop (st : Server) (ttype : TransportType) (serial : Option Bytes) :
    List Nat → Option Nat → String → Except Stop (Option Nat × String)
  | [], result, error => .ok (result, error)
  | t :: ts, result, error => do
      let transport ← st.derefTransport t
      if transport.connectionState = .noPerm then
        acquireLoop st ttype serial ts result "insufficient permissions for device"
      else
        match candidate transport ttype serial with
        | none => acquireLoop st ttype serial ts result error
        | some ambiguous =>
            match result with
            | some _ => .ok (none, ambiguous)
            | none => acquireLoop st ttype serial ts (some t) error

-- acquire_one_transport with CS_ANY, which never retries, and *error_out.
def acquireOneTransport (st : Server) (ttype : TransportType) (serial : Option Bytes) :
    Except Stop (Option Nat × Option String) := do
  let (result, error) ← acquireLoop st ttype serial st.transportList none "device not found"
  match result with
  | none => return (none, some error)
  | some t => do
      let transport ← st.derefTransport t
      if transport.connectionState = .offline then
        return (none, some "device offline")
      else
        return (some t, none)

def findTransport (st : Server) (serial : Bytes) : Option Nat :=
  st.transportList.find? fun t => (st.transports t).any fun transport =>
    transport.serial = some serial

def stateName : ConnectionState → String
  | .offline => "offline"
  | .bootloader => "bootloader"
  | .device => "device"
  | .host => "host"
  | .recovery => "recovery"
  | .sideload => "sideload"
  | .noPerm => "no permissions"

-- The short form of format_transport.
def formatTransport (t : ATransport) : Bytes :=
  let serial := match t.serial with
    | none | some [] => ascii "????????????"
    | some serial => serial
  serial ++ [9] ++ ascii (stateName t.connectionState) ++ [10]

-- The bytes before the cursor p of list_transports, whose buffer holds size. A
-- line that does not fit makes _snprintf return -1, and the cursor goes back by
-- one. Going back over the start is not followed any further.
def listLoop (size : Nat) : List Bytes → Bytes → Except Stop Bytes
  | [], text => .ok text
  | line :: lines, text =>
      if text.length + line.length ≤ size then
        if text.length + line.length = size then .ok text else listLoop size lines (text ++ line)
      else
        if text = [] then .error .underrun else listLoop size lines text.dropLast

def hexDigit (n : Nat) : UInt8 :=
  UInt8.ofNat (if n < 10 then 48 + n else 87 + n)

-- The conversion %04x of a number below 0x10000.
def hex4 (n : Nat) : Bytes :=
  [hexDigit (n / 4096 % 16), hexDigit (n / 256 % 16), hexDigit (n / 16 % 16), hexDigit (n % 16)]

def listTransportsMsg (st : Server) : Except Stop Bytes := do
  let transports ← st.transportList.mapM st.derefTransport
  let text ← listLoop 1020 (transports.map formatTransport) []
  return hex4 text.length ++ text

end Adb.Host
