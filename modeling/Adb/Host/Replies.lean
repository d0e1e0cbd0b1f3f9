import Adb.Host.SmartSocket
import Adb.Host.Listing
import Adb.Lib.Print

namespace Adb.Host

open Adb.Lib
open Adb.Transport (ConnectionState TransportType)

-- char buf[4096], and the buffers of the branches.
def REPLY_SIZE : Nat := 4096

def ADB_SERVER_VERSION : Nat := 31

def DEFAULT_ADB_LOCAL_TRANSPORT_PORT : Int := 5555

-- The digits above the last four of %04x.
def hexAbove : Nat → Nat → Bytes
  | 0, _ => []
  | fuel + 1, n => if n = 0 then [] else hexAbove fuel (n / 16) ++ [hexDigit (n % 16)]

-- The conversion %04x of an unsigned, which has eight digits at most.
def hex04 (n : Nat) : Bytes := hexAbove 4 (n / 65536) ++ hex4 n

-- snprintf(buf, sizeof(buf), "OKAY%04x%s", strlen(text), text), and the bytes that
-- writex is given: buf up to its NUL.
def sendReply (text : Bytes) : Except MemoryFault Bytes :=
  readText (snprintf (fresh REPLY_SIZE) REPLY_SIZE (ascii "OKAY" ++ hex04 text.length ++ text)).1

def sayTo (text : Bytes) : Except MemoryFault Bytes :=
  readText (snprintf (fresh REPLY_SIZE) REPLY_SIZE text).1

-- find_transport, for a serial that is in a buffer.
def findSerial (serial : List Cell) : List ATransport → Except MemoryFault Bool
  | [] => .ok false
  | t :: ts =>
      match t.serial with
      | none => findSerial serial ts
      | some s => do
          let same ← strcmp serial s
          if same then return true else findSerial serial ts

-- The part of connect_device behind the port. none: port has not been set. The
-- result is what the reply buffer says; opened is whether
-- socket_network_client has a connection.
def connectTo (table : List ATransport) (host : Bytes) (hostbuf : List Cell) (port : Option Int)
    (opened : Bool) : Except MemoryFault Bytes := do
  let name ← readText hostbuf
  match port with
  | none => .error .uninitialised
  | some port => do
      let serial := (snprintf (fresh 100) 100 (name ++ [58] ++ printInt port)).1
      let found ← findSerial serial table
      if found then do
        let serial ← readText serial
        sayTo (ascii "already connected to " ++ serial)
      else if opened then do
        -- register_socket_transport copies the serial
        let serial ← readText serial
        sayTo (ascii "connected to " ++ serial)
      else
        sayTo (ascii "unable to connect to " ++ host ++ [58] ++ printInt port)

def connectDevice (table : List ATransport) (host : Bytes) (opened : Bool) :
    Except MemoryFault Bytes :=
  let hostbuf := strncpy (fresh 100) 99 host
  match splitColon host with
  | none => connectTo table host hostbuf (some DEFAULT_ADB_LOCAL_TRANSPORT_PORT) opened
  | some (name, rest) =>
      if name.length ≥ 100 then
        sayTo (ascii "bad host name " ++ host)
      else
        let hostbuf := hostbuf.set name.length (some 0)
        match scanInt rest with
        | .failure => sayTo (ascii "bad port number " ++ [58] ++ rest)
        -- EOF is not 0
        | .eof => connectTo table host hostbuf none opened
        | .value port => connectTo table host hostbuf (some port) opened

-- The buffer of connect: is not touched for an emulator.
def connectText (table : List ATransport) (host : Bytes) (opened : Bool) : Except MemoryFault Bytes :=
  if (afterPrefix "emu:" host).isSome then readText (fresh REPLY_SIZE)
  else connectDevice table host opened

def disconnectText (table : List ATransport) (serial : Bytes) : Except MemoryFault Bytes :=
  if serial = [] then
    .ok []
  else if 58 ∈ serial then do
    if table.any fun t => t.serial = some serial then return []
    else sayTo (ascii "No such device " ++ serial)
  else do
    let hostbuf := (snprintf (fresh 100) 99 (serial ++ ascii ":5555")).1
    let found ← findSerial hostbuf table
    if found then return []
    else do
      let serial ← readText hostbuf
      sayTo (ascii "No such device " ++ serial)

-- acquire_one_transport with CS_ANY, on the transports of the list.
def acquireFrom (ttype : TransportType) (serial : Option Bytes) :
    List ATransport → Option ATransport → Option ATransport
  | [], result => result
  | t :: ts, result =>
      if t.connectionState = .noPerm then
        acquireFrom ttype serial ts result
      else
        match candidate t ttype serial with
        | none => acquireFrom ttype serial ts result
        | some _ =>
            match result with
            | some _ => none
            | none => acquireFrom ttype serial ts (some t)

def acquire (table : List ATransport) (ttype : TransportType) (serial : Option Bytes) : Option ATransport :=
  match acquireFrom ttype serial table none with
  | some t => if t.connectionState = .offline then none else some t
  | none => none

-- A null transport is unknown too.
def connectionStateName (t : Option ATransport) : String :=
  match t.map ATransport.connectionState with
  | some .bootloader => "bootloader"
  | some .device => "device"
  | some .offline => "offline"
  | _ => "unknown"

-- The text of a reply of handle_host_request that has a length. table is the
-- transport list, in order.
def replyText (table : List ATransport) (request : HostRequest) (ttype : TransportType)
    (serial : Option Bytes) (opened : Bool) : Option (Except MemoryFault Bytes) :=
  match request with
  | .devices long => some (listTransports long REPLY_SIZE table [])
  | .connect host => some (connectText table host opened)
  | .disconnect name => some (disconnectText table name)
  | .version => some (.ok (hex04 ADB_SERVER_VERSION))
  | .getSerialno => some (.ok (((acquire table ttype serial).bind (·.serial)).getD (ascii "unknown")))
  | .getDevpath => some (.ok (((acquire table ttype serial).bind (·.devpath)).getD (ascii "unknown")))
  | .getState => some (.ok (ascii (connectionStateName (acquire table ttype serial))))
  | _ => none

-- The bytes that are written.
def hostReply (table : List ATransport) (request : HostRequest) (ttype : TransportType)
    (serial : Option Bytes) (opened : Bool) : Option (Except MemoryFault Bytes) :=
  (replyText table request ttype serial opened).map fun text => text >>= sendReply

section Bounds

variable {text : Bytes} {n : Nat}

theorem hexDigit_ne_zero (h : n < 16) : hexDigit n ≠ 0 := by
  have hall : ∀ k : Fin 16, hexDigit k ≠ 0 := by decide
  exact hall ⟨n, h⟩

theorem isText_hexAbove (fuel n : Nat) : IsText (hexAbove fuel n) := by
  induction fuel generalizing n with
  | zero => exact isText_nil
  | succ fuel ih =>
      unfold hexAbove
      split
      · exact isText_nil
      · refine isText_append.mpr ⟨ih _, isText_cons.mpr ⟨?_, isText_nil⟩⟩
        exact hexDigit_ne_zero (Nat.mod_lt _ (by decide))

theorem isText_hex4 (n : Nat) : IsText (hex4 n) := by
  have hdigit : ∀ k, hexDigit (k % 16) ≠ 0 := fun k => hexDigit_ne_zero (Nat.mod_lt k (by decide))
  simp only [hex4, isText_cons, isText_nil, and_true]
  exact ⟨hdigit _, hdigit _, hdigit _, hdigit _⟩

theorem isText_hex04 (n : Nat) : IsText (hex04 n) :=
  isText_append.mpr ⟨isText_hexAbove _ _, isText_hex4 n⟩

theorem hex04_of_lt (h : n < 65536) : hex04 n = hex4 n := by
  rw [hex04, Nat.div_eq_of_lt h]
  rfl

theorem sayTo_eq (h : IsText text) :
    sayTo text = if text.length < REPLY_SIZE then .ok text else .error .overread :=
  readText_snprintf h length_fresh

-- The outer buffer has eight bytes less for the text, and one for the NUL.
theorem sendReply_eq (h : IsText text) :
    sendReply text = if text.length ≤ 4087 then .ok (ascii "OKAY" ++ hex4 text.length ++ text)
      else .error .overread := by
  have htext : IsText (ascii "OKAY" ++ hex04 text.length ++ text) :=
    isText_append.mpr ⟨isText_append.mpr ⟨by decide, isText_hex04 _⟩, h⟩
  have hlen : (ascii "OKAY" ++ hex04 text.length ++ text).length =
      8 + (hexAbove 4 (text.length / 65536)).length + text.length := by
    simp only [List.length_append, hex04]
    show 4 + (_ + 4) + _ = _
    omega
  rw [sendReply, readText_snprintf htext length_fresh, hlen, REPLY_SIZE]
  by_cases hfits : text.length ≤ 4087
  · have hshort : text.length < 65536 := by omega
    have habove : hexAbove 4 (text.length / 65536) = [] := by
      rw [Nat.div_eq_of_lt hshort]
      rfl
    rw [if_pos hfits, habove, hex04_of_lt hshort, if_pos (by rw [List.length_nil]; omega)]
  · rw [if_neg hfits, if_neg (by omega)]

-- OKAY, four hex digits of n, and n bytes.
def WellFormed (x : Except MemoryFault Bytes) : Prop :=
  ∃ payload : Bytes, x = .ok (ascii "OKAY" ++ hex4 payload.length ++ payload) ∧ payload.length < 65536

theorem not_wellFormed_error {e : MemoryFault} : ¬WellFormed (.error e) := by
  rintro ⟨payload, h, -⟩
  cases h

theorem wellFormed_send (h : IsText text) : WellFormed (sendReply text) ↔ text.length ≤ 4087 := by
  rw [sendReply_eq h]
  split
  · rename_i hfits
    exact ⟨fun _ => hfits, fun _ => ⟨text, rfl, by omega⟩⟩
  · rename_i hlong
    exact ⟨fun hw => absurd hw not_wellFormed_error, fun hfits => absurd hfits hlong⟩

theorem wellFormed_say (h : IsText text) : WellFormed (sayTo text >>= sendReply) ↔ text.length ≤ 4087 := by
  rw [sayTo_eq h]
  split
  · exact wellFormed_send h
  · rename_i hlong
    simp only [REPLY_SIZE] at hlong
    exact ⟨fun hw => absurd hw not_wellFormed_error, fun hfits => absurd hfits (by omega)⟩

end Bounds

section Search

variable {table : List ATransport} {text : Bytes} {rest : List Cell} {fault : MemoryFault}

def isListed (table : List ATransport) (serial : Bytes) : Bool :=
  table.any fun t => t.serial = some serial

theorem findSerial_terminated (h : ∀ t ∈ table, t.Texts) (ht : IsText text) :
    findSerial ((text ++ [0]).map some ++ rest) table = .ok (isListed table text) := by
  induction table with
  | nil => rfl
  | cons t ts ih =>
      have hrest := ih fun t ht => h t (List.mem_cons_of_mem _ ht)
      unfold findSerial
      cases hs : t.serial with
      | none =>
          simp only [isListed, List.any_cons, hs]
          exact hrest
      | some s =>
          have hcmp : strcmp ((text ++ [0]).map some ++ rest) s = .ok (text = s) :=
            strcmp_terminated ht ((h t (by simp)).serial s hs)
          simp only [hcmp, bind, Except.bind, isListed, List.any_cons, hs, Option.some.injEq]
          by_cases heq : text = s
          · subst heq
            simp
            rfl
          · simp only [heq, Ne.symm heq, decide_false, Bool.false_or]
            exact hrest

-- A serial that begins one of the list is read beyond its end.
def beginsListed (table : List ATransport) (serial : Bytes) : Bool :=
  table.any fun t => t.serial.any fun s => serial.isPrefixOf s

theorem findSerial_open (hrest : ∀ s, strcmp rest s = .error fault) (ht : IsText text) :
    findSerial (text.map some ++ rest) table =
      if beginsListed table text then .error fault else .ok false := by
  induction table with
  | nil => rfl
  | cons t ts ih =>
      unfold findSerial
      cases hs : t.serial with
      | none =>
          simp only [beginsListed, List.any_cons, hs]
          exact ih
      | some s =>
          have hcmp := strcmp_open (s := s) hrest ht
          simp only [hcmp, beginsListed, List.any_cons, hs, Option.any_some]
          by_cases hpre : text <+: s
          · rw [if_pos hpre, List.isPrefixOf_iff_prefix.mpr hpre, Bool.true_or, if_pos rfl]
            rfl
          · have hfalse : text.isPrefixOf s = false := by
              rw [← Bool.not_eq_true, List.isPrefixOf_iff_prefix]
              exact hpre
            rw [if_neg hpre, hfalse, Bool.false_or]
            exact ih

end Search

section Buffers

variable {host name rest : Bytes}

theorem splitColon_some (h : splitColon host = some (name, rest)) : host = name ++ 58 :: rest ∧ 58 ∉ name := by
  unfold splitColon at h
  split at h
  · cases h
  · rename_i c rest' hdrop
    cases h
    have hsplit := List.takeWhile_append_dropWhile (p := fun c : UInt8 => decide (c ≠ 58)) (l := host)
    have hhead : c = 58 := by
      have hne := List.head?_dropWhile_not (fun c : UInt8 => decide (c ≠ 58)) host
      rw [hdrop] at hne
      simpa using hne
    constructor
    · rw [hdrop, hhead] at hsplit
      exact hsplit.symm
    · intro hm
      have hp := List.mem_takeWhile_imp hm
      simp at hp

theorem splitColon_none (h : splitColon host = none) : 58 ∉ host := by
  unfold splitColon at h
  split at h
  · rename_i hdrop
    intro hm
    have hall := List.dropWhile_eq_nil_iff.mp hdrop 58 hm
    simp at hall
  · cases h

-- The buffer has a byte more than strncpy writes.
theorem strncpy_hostbuf (host : Bytes) :
    strncpy (fresh 100) 99 host =
      (host.take 99 ++ List.replicate (99 - host.length) 0).map some ++ [none] := by
  have hlen : (host.take 99 ++ List.replicate (99 - host.length) 0).length = 99 := by
    rw [List.length_append, List.length_take, List.length_replicate]
    omega
  rw [strncpy, overwrite, hlen]
  rfl

theorem readText_hostbuf (hhost : IsText host) :
    readText (strncpy (fresh 100) 99 host) =
      if host.length ≤ 98 then .ok host else .error .uninitialised := by
  rw [strncpy_hostbuf]
  split
  · rename_i hshort
    have hzeros : host.take 99 ++ List.replicate (99 - host.length) 0 =
        (host ++ [0]) ++ List.replicate (98 - host.length) 0 := by
      rw [List.take_of_length_le (by omega), List.append_assoc, List.singleton_append, ← List.replicate_succ]
      congr 2
      omega
    rw [hzeros, List.map_append, List.append_assoc]
    exact readText_terminated hhost
  · have hzeros : 99 - host.length = 0 := by omega
    rw [hzeros, List.replicate_zero, List.append_nil, readText_append (hhost.take 99)]
    rfl

theorem readText_hostbuf_set (hname : IsText name) (hlen : name.length ≤ 99)
    (hhost : host = name ++ 58 :: rest) :
    readText ((strncpy (fresh 100) 99 host).set name.length (some 0)) = .ok name := by
  obtain ⟨bytes, hbytes⟩ : ∃ bytes, bytes = host.take 99 ++ List.replicate (99 - host.length) 0 := ⟨_, rfl⟩
  have hlength : bytes.length = 99 := by
    rw [hbytes, List.length_append, List.length_take, List.length_replicate]
    omega
  have htake : bytes.take name.length = name := by
    have hle : name.length ≤ (host.take 99).length := by
      rw [List.length_take, hhost, List.length_append]
      omega
    rw [hbytes, List.take_append_of_le_length hle, List.take_take, Nat.min_eq_left hlen, hhost]
    exact List.take_left' rfl
  have hcells : (bytes.map some ++ [none]).take name.length = name.map some := by
    rw [List.take_append_of_le_length (by rw [List.length_map]; omega), ← List.map_take, htake]
  rw [strncpy_hostbuf, ← hbytes, List.set_eq_take_append_cons_drop,
    if_pos (by rw [List.length_append, List.length_map]; exact Nat.lt_succ_of_le (by omega)), hcells]
  have hend : readText ((name ++ [0]).map some ++ (bytes.map some ++ [none]).drop (name.length + 1)) = .ok name :=
    readText_terminated hname
  rw [List.map_append, List.append_assoc] at hend
  exact hend

end Buffers

end Adb.Host
