import Adb.Host.Replies
import Adb.Lib.Ensures

namespace Adb.Host

open Adb.Lib
open Adb.Transport (ConnectionState TransportType)

section Conditions

-- connect_device has the name of a host and a port. serial[100] holds up to 99
-- bytes and their end; a longer serial is good for nothing but a complaint.
def ReachWell (table : List ATransport) (host name : Bytes) (port : Int) (opened : Bool) : Prop :=
  let serial := name ++ [58] ++ printInt port
  if serial.length < 100 then
    isListed table serial = true ∨ opened = true ∨ host.length + (printInt port).length ≤ 4065
  else
    opened = false ∧ beginsListed table (serial.take 100) = false ∧
      host.length + (printInt port).length ≤ 4065

def ConnectWell (table : List ATransport) (host : Bytes) (opened : Bool) : Prop :=
  afterPrefix "emu:" host = none ∧
    match splitColon host with
    | none => host.length ≤ 98 ∧ ReachWell table host host DEFAULT_ADB_LOCAL_TRANSPORT_PORT opened
    | some (name, rest) =>
        if name.length ≥ 100 then
          host.length ≤ 4073
        else
          match scanInt rest with
          | .failure => rest.length ≤ 4070
          | .eof => False
          | .value port => ReachWell table host name port opened

def DisconnectWell (table : List ATransport) (serial : Bytes) : Prop :=
  if 58 ∈ serial then isListed table serial = true ∨ serial.length ≤ 4072 else serial.length ≤ 93

-- Where a reply is put together from what has been written, and fits.
def ReplyWell (table : List ATransport) (request : HostRequest) (ttype : TransportType)
    (serial : Option Bytes) (opened : Bool) : Prop :=
  match request with
  | .devices long => ∃ n, listedLength long REPLY_SIZE table 0 = some n ∧ n ≤ 4087
  | .connect host => ConnectWell table host opened
  | .disconnect name => DisconnectWell table name
  | .getSerialno => ∀ t ∈ acquire table ttype serial, ∀ s ∈ t.serial, s.length ≤ 4087
  | .getDevpath => ∀ t ∈ acquire table ttype serial, ∀ s ∈ t.devpath, s.length ≤ 4087
  | _ => True

end Conditions

section Connect

variable {table : List ATransport} {host name rest serial text : Bytes} {opened : Bool} {port : Int}
  {hostbuf : List Cell}

theorem snprintf_short {n : Nat} {buffer : List Cell} (h : text.length < n) :
    ∃ rest, (snprintf buffer n text).1 = (text ++ [0]).map some ++ rest := by
  rw [snprintf, if_pos h]
  exact ⟨_, rfl⟩

theorem connectTo_name (hname : readText hostbuf = .ok name) :
    connectTo table host hostbuf (some port) opened = (do
      let serial := (snprintf (fresh 100) 100 (name ++ [58] ++ printInt port)).1
      let found ← findSerial serial table
      if found then do
        let serial ← readText serial
        sayTo (ascii "already connected to " ++ serial)
      else if opened then do
        let serial ← readText serial
        sayTo (ascii "connected to " ++ serial)
      else
        sayTo (ascii "unable to connect to " ++ host ++ [58] ++ printInt port)) := by
  rw [connectTo, hname]
  rfl

theorem wellFormed_unable (hhost : IsText host) (port : Int) :
    WellFormed (sayTo (ascii "unable to connect to " ++ host ++ [58] ++ printInt port) >>= sendReply) ↔
      host.length + (printInt port).length ≤ 4065 := by
  have htext : IsText (ascii "unable to connect to " ++ host ++ [58] ++ printInt port) :=
    isText_append.mpr ⟨isText_append.mpr ⟨isText_append.mpr ⟨by decide, hhost⟩, by decide⟩, isText_printInt port⟩
  have hlen : (ascii "unable to connect to ").length = 21 := by decide
  rw [wellFormed_say htext]
  simp only [List.length_append, List.length_singleton, hlen]
  omega

-- What is said of a serial that has been put together is short.
theorem wellFormed_about {pre : Bytes} (hpre : IsText pre) (hserial : IsText serial)
    (hlen : pre.length ≤ 100) (hshort : serial.length < 100) :
    WellFormed (sayTo (pre ++ serial) >>= sendReply) := by
  rw [wellFormed_say (isText_append.mpr ⟨hpre, hserial⟩), List.length_append]
  omega

theorem connectTo_well (h : ∀ t ∈ table, t.Texts) (hhost : IsText host) (hname : IsText name)
    (hread : readText hostbuf = .ok name) :
    WellFormed (connectTo table host hostbuf (some port) opened >>= sendReply) ↔
      ReachWell table host name port opened := by
  have hunable := wellFormed_unable hhost port
  simp only [bind, Except.bind] at hunable
  obtain ⟨serial, hserial⟩ : ∃ serial, serial = name ++ [58] ++ printInt port := ⟨_, rfl⟩
  have htext : IsText serial := by
    rw [hserial]
    exact isText_append.mpr ⟨isText_append.mpr ⟨hname, by decide⟩, isText_printInt port⟩
  rw [connectTo_name hread, ReachWell, ← hserial]
  by_cases hshort : serial.length < 100
  · obtain ⟨rest, hcells⟩ : ∃ rest, (snprintf (fresh 100) 100 serial).1 = (serial ++ [0]).map some ++ rest :=
      snprintf_short hshort
    have hfind : findSerial ((serial ++ [0]).map some ++ rest) table = .ok (isListed table serial) :=
      findSerial_terminated h htext
    have hserialRead : readText (snprintf (fresh 100) 100 serial).1 = .ok serial := readText_snprintf_lt htext hshort
    rw [← hcells] at hfind
    simp only [if_pos hshort, hfind, hserialRead, bind, Except.bind]
    cases hlisted : isListed table serial with
    | true =>
        refine ⟨fun _ => Or.inl rfl, fun _ => ?_⟩
        exact wellFormed_about (by decide) htext (by decide) hshort
    | false =>
        cases opened with
        | true =>
            refine ⟨fun _ => Or.inr (Or.inl rfl), fun _ => ?_⟩
            exact wellFormed_about (by decide) htext (by decide) hshort
        | false => simpa using hunable
  · -- no NUL has been written
    have hopen : (snprintf (fresh 100) 100 serial).1 = (serial.take 100).map some ++ [] := by
      rw [snprintf_ge (by omega), overwrite_full (by rw [length_fresh, List.length_take]; omega),
        List.append_nil]
    have hfind : findSerial ((serial.take 100).map some ++ []) table = _ :=
      findSerial_open (fun _ => rfl) (htext.take 100)
    have hserialRead : readText (snprintf (fresh 100) 100 serial).1 = .error .overread :=
      readText_snprintf_ge htext (by omega) length_fresh
    rw [← hopen] at hfind
    simp only [if_neg hshort, hfind, hserialRead, bind, Except.bind]
    cases hbegins : beginsListed table (serial.take 100) with
    | true => simpa using not_wellFormed_error
    | false =>
        cases opened with
        | true => simpa using not_wellFormed_error
        | false => simpa using hunable

theorem connectDevice_well (h : ∀ t ∈ table, t.Texts) (hhost : IsText host) :
    WellFormed (connectDevice table host opened >>= sendReply) ↔
      match splitColon host with
      | none => host.length ≤ 98 ∧ ReachWell table host host DEFAULT_ADB_LOCAL_TRANSPORT_PORT opened
      | some (name, rest) =>
          if name.length ≥ 100 then
            host.length ≤ 4073
          else
            match scanInt rest with
            | .failure => rest.length ≤ 4070
            | .eof => False
            | .value port => ReachWell table host name port opened := by
  unfold connectDevice
  cases hsplit : splitColon host with
  | none =>
      have hread := readText_hostbuf hhost
      simp only
      by_cases hshort : host.length ≤ 98
      · rw [if_pos hshort] at hread
        rw [connectTo_well h hhost hhost hread]
        exact ⟨fun hw => ⟨hshort, hw⟩, fun hw => hw.2⟩
      · rw [if_neg hshort] at hread
        simp only [connectTo, hread, bind, Except.bind]
        exact ⟨fun hw => absurd hw not_wellFormed_error, fun hw => absurd hw.1 hshort⟩
  | some split =>
      obtain ⟨name, rest⟩ := split
      obtain ⟨hsplits, -⟩ := splitColon_some hsplit
      have hparts := hhost
      rw [hsplits, isText_append, isText_cons] at hparts
      obtain ⟨hname, -, hrest⟩ := hparts
      simp only
      by_cases hlong : name.length ≥ 100
      · have hlen : (ascii "bad host name ").length = 14 := by decide
        rw [if_pos hlong, if_pos hlong, wellFormed_say (isText_append.mpr ⟨by decide, hhost⟩),
          List.length_append, hlen]
        omega
      · rw [if_neg hlong, if_neg hlong]
        have hread := readText_hostbuf_set hname (by omega) hsplits
        cases scanInt rest with
        | failure =>
            have hlen : (ascii "bad port number ").length = 16 := by decide
            simp only
            rw [wellFormed_say (isText_append.mpr ⟨isText_append.mpr ⟨by decide, by decide⟩, hrest⟩)]
            simp only [List.length_append, List.length_singleton, hlen]
            omega
        | eof =>
            simp only [connectTo, hread, bind, Except.bind, iff_false]
            exact not_wellFormed_error
        | value port => exact connectTo_well h hhost hname hread

theorem readText_fresh (n : Nat) : ∃ e, readText (fresh n) = .error e := by
  cases n with
  | zero => exact ⟨_, rfl⟩
  | succ n => exact ⟨_, rfl⟩

theorem connectText_well (h : ∀ t ∈ table, t.Texts) (hhost : IsText host) :
    WellFormed (connectText table host opened >>= sendReply) ↔ ConnectWell table host opened := by
  unfold connectText ConnectWell
  cases hemu : afterPrefix "emu:" host with
  | some port =>
      obtain ⟨e, he⟩ := readText_fresh REPLY_SIZE
      simp only [Option.isSome_some, if_true, he, bind, Except.bind, reduceCtorEq, false_and, iff_false]
      exact not_wellFormed_error
  | none =>
      simp only [Option.isSome_none, Bool.false_eq_true, if_false, true_and]
      exact connectDevice_well h hhost

end Connect

section Disconnect

variable {table : List ATransport} {serial : Bytes}

theorem wellFormed_noSuch (hserial : IsText serial) :
    WellFormed (sayTo (ascii "No such device " ++ serial) >>= sendReply) ↔ serial.length ≤ 4072 := by
  have hlen : (ascii "No such device ").length = 15 := by decide
  rw [wellFormed_say (isText_append.mpr ⟨by decide, hserial⟩), List.length_append, hlen]
  omega

theorem wellFormed_empty : WellFormed (sendReply []) := (wellFormed_send isText_nil).mpr (by simp)

theorem disconnectText_well (h : ∀ t ∈ table, t.Texts) (hserial : IsText serial) :
    WellFormed (disconnectText table serial >>= sendReply) ↔ DisconnectWell table serial := by
  have hnoSuch := wellFormed_noSuch hserial
  simp only [bind, Except.bind] at hnoSuch
  unfold disconnectText DisconnectWell
  by_cases hnil : serial = []
  · subst hnil
    simpa [bind, Except.bind] using wellFormed_empty
  rw [if_neg hnil]
  by_cases hcolon : 58 ∈ serial
  · rw [if_pos hcolon, if_pos hcolon]
    cases hlisted : isListed table serial with
    | true =>
        unfold isListed at hlisted
        simpa [hlisted, bind, Except.bind, pure, Except.pure] using wellFormed_empty
    | false =>
        unfold isListed at hlisted
        simp only [hlisted, bind, Except.bind, Bool.false_eq_true, if_false, false_or]
        exact hnoSuch
  · rw [if_neg hcolon, if_neg hcolon]
    obtain ⟨full, hfull⟩ : ∃ full, full = serial ++ ascii ":5555" := ⟨_, rfl⟩
    have htext : IsText full := by
      rw [hfull]
      exact isText_append.mpr ⟨hserial, by decide⟩
    have hlen : full.length = serial.length + 5 := by
      rw [hfull, List.length_append]
      rfl
    rw [← hfull]
    by_cases hshort : serial.length ≤ 93
    · have hfits : full.length < 99 := by omega
      obtain ⟨rest, hcells⟩ : ∃ rest, (snprintf (fresh 100) 99 full).1 = (full ++ [0]).map some ++ rest :=
        snprintf_short hfits
      have hfind : findSerial ((full ++ [0]).map some ++ rest) table = .ok (isListed table full) :=
        findSerial_terminated h htext
      have hread : readText (snprintf (fresh 100) 99 full).1 = .ok full := readText_snprintf_lt htext hfits
      rw [← hcells] at hfind
      simp only [hfind, hread, hshort, bind, Except.bind, pure, Except.pure, iff_true]
      cases isListed table full with
      | true => simpa using wellFormed_empty
      | false => exact wellFormed_about (by decide) htext (by decide) (by omega)
    · -- the byte behind what is printed is read
      have hopen : (snprintf (fresh 100) 99 full).1 = (full.take 99).map some ++ [none] := by
        rw [snprintf_ge (by omega), overwrite, List.length_take, Nat.min_eq_left (by omega)]
        rfl
      have hfind : findSerial ((full.take 99).map some ++ [none]) table = _ :=
        findSerial_open (fun _ => rfl) (htext.take 99)
      have hread : readText ((full.take 99).map some ++ [none]) = .error .uninitialised := by
        rw [readText_append (htext.take 99)]
        rfl
      simp only [hopen, hfind, hread, hshort, bind, Except.bind, iff_false]
      cases beginsListed table (full.take 99) with
      | true => simpa using not_wellFormed_error
      | false => simpa using not_wellFormed_error

end Disconnect

section WholeReplies

variable {table : List ATransport} {service : Bytes} {request : HostRequest} {ttype : TransportType}
  {serial : Option Bytes} {opened : Bool} {reply : Except MemoryFault Bytes}

-- The text that a request goes on with.
def HostRequest.operand : HostRequest → Bytes
  | .connect host => host
  | .disconnect name => name
  | _ => []

theorem afterPrefix_isText {pre : String} {rest : Bytes} (h : afterPrefix pre service = some rest)
    (hs : IsText service) : IsText rest := by
  unfold afterPrefix at h
  generalize ascii pre = text at h
  induction text generalizing service with
  | nil =>
      cases h
      exact hs
  | cons c text ih =>
      cases service with
      | nil => cases h
      | cons d service =>
          rw [matchChars] at h
          split at h
          · exact ih (isText_cons.mp hs).2 h
          · cases h

theorem transportRequest_operand (service : Bytes) : (transportRequest service).operand = [] := by
  unfold transportRequest
  repeat' split
  all_goals rfl

theorem forwardRequest_operand (create : Bool) (spec : Bytes) :
    (forwardRequest create spec).operand = [] := by
  unfold forwardRequest
  simp only
  repeat' split
  all_goals rfl

theorem hostRequest_operand (hs : IsText service) (h : hostRequest service = some request) :
    IsText request.operand := by
  unfold hostRequest at h
  repeat' split at h
  all_goals cases h
  all_goals
    first
    | exact isText_nil
    | exact afterPrefix_isText ‹_› hs
    | rw [transportRequest_operand]; exact isText_nil
    | rw [forwardRequest_operand]; exact isText_nil

theorem acquireFrom_mem {ts : List ATransport} {result : Option ATransport} {t : ATransport}
    (h : acquireFrom ttype serial ts result = some t) : t ∈ ts ∨ result = some t := by
  induction ts generalizing result with
  | nil => exact Or.inr h
  | cons u ts ih =>
      have htail : ∀ r : Option ATransport, acquireFrom ttype serial ts r = some t →
          (r = result ∨ r = some u) → t ∈ u :: ts ∨ result = some t := by
        intro r hr hcases
        rcases ih hr with hmem | heq
        · exact Or.inl (List.mem_cons_of_mem _ hmem)
        · rcases hcases with rfl | rfl
          · exact Or.inr heq
          · cases heq
            exact Or.inl (by simp)
      unfold acquireFrom at h
      split at h
      · exact htail result h (Or.inl rfl)
      · split at h
        · exact htail result h (Or.inl rfl)
        · split at h
          · cases h
          · exact htail (some u) h (Or.inr rfl)

theorem acquire_texts (h : ∀ t ∈ table, t.Texts) : ∀ t ∈ acquire table ttype serial, t.Texts := by
  intro t ht
  unfold acquire at ht
  split at ht
  · rename_i u hu
    split at ht
    · cases ht
    · cases ht
      rcases acquireFrom_mem hu with hmem | hnone
      · exact h _ hmem
      · cases hnone
  · cases ht

-- The replies that are a text of the transport, or the word for none.
theorem wellFormed_field {found : Option ATransport} {field : ATransport → Option Bytes}
    (h : ∀ t ∈ found, ∀ s ∈ field t, IsText s) :
    WellFormed (sendReply ((found.bind field).getD (ascii "unknown"))) ↔
      ∀ t ∈ found, ∀ s ∈ field t, s.length ≤ 4087 := by
  have hunknown : WellFormed (sendReply (ascii "unknown")) := (wellFormed_send (by decide)).mpr (by decide)
  cases found with
  | none => simpa using hunknown
  | some t =>
      simp only [Option.mem_some_iff, forall_eq', Option.bind_some] at h ⊢
      cases hfield : field t with
      | none => simpa using hunknown
      | some s =>
          rw [hfield] at h
          simpa using wellFormed_send (h s rfl)

theorem wellFormed_devices (h : ∀ t ∈ table, t.Texts) (long : Bool) :
    WellFormed (listTransports long REPLY_SIZE table [] >>= sendReply) ↔
      ∃ n, listedLength long REPLY_SIZE table 0 = some n ∧ n ≤ 4087 := by
  have hprints : Prints (listTransports long REPLY_SIZE table []) (listedLength long REPLY_SIZE table 0) :=
    listTransports_prints h long isText_nil (by simp)
  cases hlist : listTransports long REPLY_SIZE table [] with
  | error e =>
      rw [hlist] at hprints
      have hnone : listedLength long REPLY_SIZE table 0 = none := hprints
      rw [hnone]
      simpa [bind, Except.bind] using not_wellFormed_error
  | ok text =>
      rw [hlist] at hprints
      obtain ⟨htext, hsome⟩ := hprints
      rw [hsome]
      simpa [bind, Except.bind] using wellFormed_send htext

theorem isText_connectionStateName (t : Option ATransport) : IsText (ascii (connectionStateName t)) ∧
    (ascii (connectionStateName t)).length ≤ 4087 := by
  unfold connectionStateName
  cases t.map ATransport.connectionState with
  | none => decide
  | some state => cases state <;> decide

-- A reply is OKAY, its length and its text, put together from what has been
-- written, if and only if the request is one for which that goes well.
theorem host_reply_well_formed (table : List ATransport) (service : Bytes) (request : HostRequest)
    (ttype : TransportType) (serial : Option Bytes) (opened : Bool) (reply : Except MemoryFault Bytes)
    (htable : ∀ t ∈ table, t.Texts) (hservice : IsText service)
    (hrequest : hostRequest service = some request)
    (hreply : hostReply table request ttype serial opened = some reply) :
    WellFormed reply ↔ ReplyWell table request ttype serial opened := by
  have hoperand := hostRequest_operand hservice hrequest
  unfold hostReply at hreply
  cases request with
  | devices long =>
      cases hreply
      exact wellFormed_devices htable long
  | connect host =>
      cases hreply
      exact connectText_well htable hoperand
  | disconnect name =>
      cases hreply
      exact disconnectText_well htable hoperand
  | version =>
      cases hreply
      simp only [ReplyWell, iff_true]
      exact (wellFormed_send (by decide)).mpr (by decide)
  | getSerialno =>
      cases hreply
      exact wellFormed_field fun t ht => (acquire_texts htable t ht).serial
  | getDevpath =>
      cases hreply
      exact wellFormed_field fun t ht => (acquire_texts htable t ht).devpath
  | getState =>
      cases hreply
      obtain ⟨htext, hlen⟩ := isText_connectionStateName (acquire table ttype serial)
      simp only [ReplyWell, iff_true]
      exact (wellFormed_send htext).mpr hlen
  | _ => cases hreply

def emulatorInTable : ATransport :=
  { online := true, connectionState := .device, type := .loopback, adbPort := 5555,
    serial := some (ascii "emulator-5554"), product := none, model := none, device := none,
    devpath := none, disconnects := [] }

theorem host_reply_well_formed_of_devices :
    ∃ reply, hostReply [emulatorInTable] (.devices true) .any none false = some reply ∧ WellFormed reply := by
  refine ⟨_, rfl, ?_⟩
  refine (host_reply_well_formed [emulatorInTable] (ascii "devices-l") (.devices true) .any none false _
    ?_ (by decide) (by decide) rfl).mpr ?_
  · intro t ht
    rw [List.mem_singleton.mp ht]
    constructor <;> decide
  · exact ⟨30, by decide⟩

-- The call that would fill the buffer is commented out.
theorem emulator_reply_is_not_written :
    ∃ request reply, hostRequest (ascii "connect:emu:5554,5555") = some request ∧
      hostReply [] request .any none true = some reply ∧ ¬WellFormed reply := by
  refine ⟨.connect (ascii "emu:5554,5555"), .error .uninitialised, by decide, rfl, ?_⟩
  exact not_wellFormed_error

end WholeReplies

section Table

variable {st : Server} {ttype : TransportType} {serial : Option Bytes}

-- The transports of the list are those of the table.
theorem acquireLoop_table {ts : List Nat} {table : List ATransport}
    (h : ts.mapM st.derefTransport = .ok table) (result : Option Nat) (r : Option ATransport)
    (hr : result.map st.transports = r.map some) (error : String) :
    ∃ found error', acquireLoop st ttype serial ts result error = .ok (found, error') ∧
      found.map st.transports = (acquireFrom ttype serial table r).map some := by
  induction ts generalizing table result r error with
  | nil =>
      cases h
      exact ⟨result, error, rfl, hr⟩
  | cons t ts ih =>
      rw [List.mapM_cons] at h
      obtain ⟨transport, hderef, h⟩ := bind_ok h
      obtain ⟨rest, htail, h⟩ := bind_ok h
      cases h
      have ht : st.transports t = some transport := by
        unfold Server.derefTransport at hderef
        split at hderef
        · rename_i found hfound
          cases hderef
          exact hfound
        · cases hderef
      unfold acquireLoop acquireFrom
      simp only [hderef, bind, Except.bind]
      split
      · exact ih htail result r hr _
      · cases candidate transport ttype serial with
        | none => exact ih htail result r hr _
        | some ambiguous =>
            cases result with
            | some old =>
                cases r with
                | some old' => exact ⟨none, ambiguous, rfl, rfl⟩
                | none => cases hr
            | none =>
                cases r with
                | some old' => cases hr
                | none =>
                    apply ih htail (some t) (some transport)
                    rw [Option.map_some, ht, Option.map_some]

-- What handle_host_request acquires is what the replies are about.
theorem acquireOneTransport_table {table : List ATransport}
    (h : st.transportList.mapM st.derefTransport = .ok table) :
    ∃ found error, acquireOneTransport st ttype serial = .ok (found, error) ∧
      found.bind st.transports = acquire table ttype serial := by
  have hall : ∃ found error,
      acquireLoop st ttype serial st.transportList none "device not found" = .ok (found, error) ∧
        found.map st.transports = (acquireFrom ttype serial table none).map some :=
    acquireLoop_table h none none rfl _
  obtain ⟨found, error, hloop, hfound⟩ := hall
  unfold acquireOneTransport acquire
  simp only [hloop, bind, Except.bind]
  cases found with
  | none =>
      have hnone : acquireFrom ttype serial table none = none := by
        cases hf : acquireFrom ttype serial table none with
        | none => rfl
        | some t =>
            rw [hf] at hfound
            cases hfound
      rw [hnone]
      exact ⟨none, some error, rfl, rfl⟩
  | some t =>
      obtain ⟨transport, htransport⟩ : ∃ transport, acquireFrom ttype serial table none = some transport := by
        cases hf : acquireFrom ttype serial table none with
        | none =>
            rw [hf] at hfound
            cases hfound
        | some transport => exact ⟨transport, rfl⟩
      rw [htransport, Option.map_some, Option.map_some, Option.some.injEq] at hfound
      rw [htransport]
      simp only [Server.derefTransport, hfound]
      by_cases hoff : transport.connectionState = .offline
      · exact ⟨none, some "device offline", by rw [if_pos hoff]; rfl, by rw [if_pos hoff]; rfl⟩
      · exact ⟨some t, none, by rw [if_neg hoff]; rfl, by rw [if_neg hoff]; exact hfound⟩

end Table

end Adb.Host
