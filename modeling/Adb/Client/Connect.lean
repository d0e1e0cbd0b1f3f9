import Adb.Client.HostCommand
import Adb.Host.LogBuffers
import Adb.Host.Pipelining

namespace Adb.Client

open Adb.Lib
open Adb.Host
open Adb.Transport (TransportType)
open Adb.Wire (readWide wchar)

-- The text that switch_socket_transport prints into its buffer. none: no switch
-- is necessary.
def switchText (ttype : TransportType) (serial : Option Bytes) : Option Bytes :=
  match serial with
  | some serial => some (ascii "host:transport:" ++ serial)
  | none =>
      match ttype with
      | .usb => some (ascii "host:transport-usb")
      | .loopback => some (ascii "host:transport-local")
      | .any => some (ascii "host:transport-any")
      | .host => none

-- char service[64]
def SERVICE_SIZE : Nat := 64

-- A length as %04x prints it, and so many bytes.
def framed (service : Bytes) : Bytes := hex4 service.length ++ service

-- What switch_socket_transport writes. Nobody looks at what snprintf returns.
def switchSocketTransport (ttype : TransportType) (serial : Option Bytes) :
    Except MemoryFault (Option Bytes) :=
  match switchText ttype serial with
  | none => .ok none
  | some text => do
      let service ← readText (snprintf (fresh SERVICE_SIZE) SERVICE_SIZE text).1
      return some (framed service)

-- What _adb_connect writes, one request after the other: it waits for the status
-- in between. none: the service name is too long, or empty. It is logged before
-- anyone looks at its length.
def adbConnect (page : CodePage) (ttype : TransportType) (serial : Option Bytes) (service : Bytes) :
    Except MemoryFault (Option (List Bytes)) := do
  let wService ← multiByteToWideChar page service wLog
  let _ ← readWide wService
  if service.length < 1 ∨ service.length > 1024 then
    return none
  else
    let switch ← (if (afterPrefix "host" service).isSome then pure none
      else switchSocketTransport ttype serial)
    return some (switch.toList ++ [framed service])

section Hex

variable {n : Nat} {s rest : Bytes}

theorem unhexDigit_hexDigit (hn : n < 16) : unhexDigit (hexDigit n) = some n := by
  have hall : ∀ k : Fin 16, unhexDigit (hexDigit k) = some k.val := by decide
  exact hall ⟨n, hn⟩

theorem unhex_hex4 (hn : n < 65536) : unhex (hex4 n) = some n := by
  have hdigit : ∀ k, unhexDigit (hexDigit (k % 16)) = some (k % 16) := fun k =>
    unhexDigit_hexDigit (Nat.mod_lt k (by decide))
  simp only [unhex, hex4, unhexFrom, hdigit, Option.some.injEq]
  omega

theorem length_framed (s : Bytes) : (framed s).length = s.length + 4 := rfl

theorem wellFramed_framed (hs : 1 ≤ s.length) (hmax : s.length ≤ 1024) : WellFramed (framed s) :=
  ⟨s.length, unhex_hex4 (by omega), hs, hmax, length_framed s⟩

theorem requestBody_framed (hs : IsText s) : requestBody (framed s) = s := by
  rw [requestBody]
  exact hs.takeWhile_ne

end Hex

section Requests

variable {ttype : TransportType} {serial : Option Bytes} {service text : Bytes}

-- What the server takes a service for.
inductive Asked where
  | host (request : Option HostRequest)
  | device (service : Bytes)
deriving DecidableEq

def asked (service : Bytes) : Asked :=
  match parseRequest service with
  | .host service _ _ => .host (hostRequest service)
  | .device service => .device service

theorem afterPrefix_append {pre : String} (rest : Bytes) :
    afterPrefix pre (ascii pre ++ rest) = some rest := matchChars_iff.mpr rfl

theorem asked_serial (serial : Bytes) :
    asked (ascii "host:transport:" ++ serial) = .host (some (.transport .any (some serial))) := by
  rfl

theorem asked_device (h : afterPrefix "host" service = none) : asked service = .device service := by
  have hpre : ∀ pre : String, (∃ tail, ascii pre = ascii "host" ++ tail) →
      afterPrefix pre service = none := by
    rintro pre ⟨tail, htail⟩
    cases hp : afterPrefix pre service with
    | none => rfl
    | some rest =>
        rw [afterPrefix, matchChars_iff, htail, List.append_assoc] at hp
        rw [hp, afterPrefix_append] at h
        cases h
  simp only [asked, parseRequest, hpre "host-serial:" ⟨ascii "-serial:", by decide⟩,
    hpre "host-usb:" ⟨ascii "-usb:", by decide⟩, hpre "host-local:" ⟨ascii "-local:", by decide⟩,
    hpre "host:" ⟨ascii ":", by decide⟩]

-- The transport that is asked for before the service.
def switched (ttype : TransportType) (serial : Option Bytes) : Option HostRequest :=
  match serial with
  | some serial => some (.transport .any (some serial))
  | none =>
      match ttype with
      | .host => none
      | ttype => some (.transport ttype none)

theorem asked_switchText (ttype : TransportType) (serial : Option Bytes) :
    (switchText ttype serial).map asked = (switched ttype serial).map fun request =>
      .host (some request) := by
  cases serial with
  | some serial => rw [switchText, Option.map_some, asked_serial]; rfl
  | none => cases ttype <;> rfl

theorem switchText_isText (hserial : ∀ s ∈ serial, IsText s)
    (h : switchText ttype serial = some text) :
    IsText text := by
  cases serial with
  | some name =>
      cases h
      exact isText_append.mpr ⟨by decide, hserial name rfl⟩
  | none => cases ttype <;> cases h <;> decide

theorem isTransport_switchText (h : switchText ttype serial = some text) :
    isTransport text = true := by
  cases serial with
  | some serial =>
      cases h
      rfl
  | none => cases ttype <;> cases h <;> rfl

theorem switchText_length (h : switchText ttype serial = some text) :
    1 ≤ text.length ∧ (text.length < SERVICE_SIZE ↔ ∀ s ∈ serial, s.length ≤ 48) := by
  cases serial with
  | some serial =>
      cases h
      have hpre : (ascii "host:transport:").length = 15 := by decide
      simp only [List.length_append, hpre, SERVICE_SIZE, Option.mem_some_iff, forall_eq']
      omega
  | none => cases ttype <;> cases h <;> simp <;> decide

-- The buffer holds every text but that of a long serial.
theorem switchSocketTransport_eq (hserial : ∀ s ∈ serial, IsText s) :
    switchSocketTransport ttype serial =
      if ∀ s ∈ serial, s.length ≤ 48 then .ok ((switchText ttype serial).map framed)
      else .error .overread := by
  unfold switchSocketTransport
  cases htext : switchText ttype serial with
  | none =>
      have hnone : serial = none := by
        cases serial with
        | none => rfl
        | some serial => cases htext
      simp [hnone]
  | some text =>
      obtain ⟨-, hlen⟩ := switchText_length htext
      simp only [readText_snprintf (switchText_isText hserial htext) length_fresh, hlen]
      split <;> rfl

end Requests

section Framing

variable {page : CodePage} {ttype : TransportType} {serial : Option Bytes} {service : Bytes}

-- However the requests come in, a smart socket that holds nothing yet is asked for
-- the transport first and then for the service, and nothing is left over.
def Understood (page : CodePage) (ttype : TransportType) (serial : Option Bytes)
    (service : Bytes) : Prop :=
  ∃ writes, adbConnect page ttype serial service = .ok (some writes) ∧
    ∀ cuts, List.Forall₂ IsCut cuts writes →
      ∀ st a q dispatched, Graph st → st.socks a = some q → q.ops = .smartSocket → q.pkts = [] →
        Delivery a st cuts.flatten dispatched →
          dispatched.map (fun d => asked d.service) =
            (switched ttype serial).toList.map (fun request => .host (some request)) ++
              [.device service] ∧
          ∀ d ∈ dispatched, d.behind = []

theorem flatten_cuts {writes : List Bytes} {cuts : List (List Bytes)}
    (h : List.Forall₂ IsCut cuts writes) : cuts.map List.flatten = writes := by
  induction h with
  | nil => rfl
  | cons hcut hcuts ih => rw [List.map_cons, hcut.flatten, ih]

theorem nonempty_cuts {writes : List Bytes} {cuts : List (List Bytes)}
    (h : List.Forall₂ IsCut cuts writes) :
    ∀ p ∈ cuts.flatten, p ≠ [] := by
  induction h with
  | nil => simp
  | cons hcut hcuts ih =>
      intro p hp
      rcases List.mem_append.mp hp with hp | hp
      · exact hcut.nonempty p hp
      · exact ih p hp

theorem requests_understood {texts : List Bytes} {cuts : List (List Bytes)}
    (htexts : ∀ t ∈ texts, IsText t) (hfirst : TransportsFirst (texts.map framed))
    (hcuts : List.Forall₂ IsCut cuts (texts.map framed)) {st : Server} {a : Nat} {q : ASocket}
    {dispatched : List Dispatched} (hg : Graph st) (hq : st.socks a = some q)
    (hops : q.ops = .smartSocket)
    (hfresh : q.pkts = []) (hd : Delivery a st cuts.flatten dispatched) :
    dispatched = texts.map fun t => ⟨t, []⟩ := by
  have hcomplete : Complete (texts.map framed) (services q.pkts cuts.flatten) :=
    services_of_groups hfirst cuts (nonempty_cuts hcuts) (flatten_cuts hcuts) (by rw [hfresh]; rfl)
  rw [← hd.services hg hq hops, Complete] at hcomplete
  rw [hcomplete, List.map_map]
  apply List.map_congr_left
  intro t ht
  rw [Function.comp_apply, requestBody_framed (htexts t ht)]

theorem transportsFirst_framed (hserial : ∀ s ∈ serial, IsText s) (hservice : 1 ≤ service.length)
    (hmax : service.length ≤ 1024)
    (hlen : ∀ s ∈ serial, s.length ≤ 48) :
    TransportsFirst (((switchText ttype serial).toList ++ [service]).map framed) := by
  cases htext : switchText ttype serial with
  | none =>
      refine ⟨?_, by simp, by simp⟩
      simpa using wellFramed_framed hservice hmax
  | some text =>
      obtain ⟨hpos, hfits⟩ := switchText_length htext
      have hshort := hfits.mpr hlen
      simp only [SERVICE_SIZE] at hshort
      refine ⟨?_, by simp, ?_⟩
      · intro r hr
        rcases List.mem_pair.mp hr with rfl | rfl
        · exact wellFramed_framed hpos (by omega)
        · exact wellFramed_framed hservice hmax
      · intro r hr
        rw [List.mem_singleton.mp (show r ∈ [framed text] from hr)]
        rw [requestBody_framed (switchText_isText hserial htext)]
        exact isTransport_switchText htext

-- The conversion of the service has to fit wService, and the switch its buffer.
theorem adbConnect_eq (hserial : ∀ s ∈ serial, IsText s) (hpos : 1 ≤ service.length)
    (hmax : service.length ≤ 1024) (hhost : afterPrefix "host" service = none) :
    adbConnect page ttype serial service =
      if page.width service < MAX_PATH then
        if ∀ s ∈ serial, s.length ≤ 48 then
          .ok (some (((switchText ttype serial).toList ++ [service]).map framed))
        else .error .overread
      else .error .uninitialised := by
  unfold adbConnect
  by_cases hwidth : page.width service < MAX_PATH
  · obtain ⟨wService, hconverts, hcontains⟩ := multiByte_contains hwidth
    rw [if_pos hwidth, hconverts]
    simp only [bind, Except.bind, readWide_contains hcontains (zero_notMem_text page service)]
    rw [if_neg (by omega), hhost, switchSocketTransport_eq hserial]
    by_cases hlen : ∀ s ∈ serial, s.length ≤ 48
    · simp only [if_pos hlen]
      cases switchText ttype serial <;> rfl
    · simp only [if_neg hlen]
      rfl
  · rw [if_neg hwidth, multiByte_fails (Nat.not_lt.mp hwidth)]
    rfl

theorem not_understood_of_width (hwidth : MAX_PATH ≤ page.width service) :
    ¬Understood page ttype serial service := by
  rintro ⟨writes, hwrites, -⟩
  rw [adbConnect, multiByte_fails hwidth] at hwrites
  cases hwrites

-- The server is asked for the transport and the service if and only if the service
-- fits the log and the serial has at most 48 bytes.
theorem client_request_framing (page : CodePage) (ttype : TransportType) (serial : Option Bytes)
    (service : Bytes)
    (hserial : ∀ s ∈ serial, IsText s) (hservice : IsText service) (hpos : 1 ≤ service.length)
    (hmax : service.length ≤ 1024) (hhost : afterPrefix "host" service = none) :
    Understood page ttype serial service ↔
      page.width service < MAX_PATH ∧ ∀ s ∈ serial, s.length ≤ 48 := by
  have hconnect := @adbConnect_eq page ttype serial service hserial hpos hmax hhost
  constructor
  · intro h
    by_cases hwidth : page.width service < MAX_PATH
    · refine ⟨hwidth, ?_⟩
      obtain ⟨writes, hwrites, -⟩ := h
      by_contra hlong
      rw [hconnect, if_pos hwidth, if_neg hlong] at hwrites
      cases hwrites
    · exact absurd h (not_understood_of_width (Nat.not_lt.mp hwidth))
  · rintro ⟨hwidth, hlen⟩
    rw [if_pos hwidth, if_pos hlen] at hconnect
    refine ⟨_, hconnect, ?_⟩
    intro cuts hcuts st a q dispatched hg hq hops hfresh hd
    have htexts : ∀ t ∈ (switchText ttype serial).toList ++ [service], IsText t := by
      intro t ht
      rcases List.mem_append.mp ht with ht | ht
      · exact switchText_isText hserial (Option.mem_toList.mp ht)
      · rw [List.mem_singleton.mp ht]
        exact hservice
    rw [requests_understood htexts
      (transportsFirst_framed hserial hpos hmax hlen) hcuts hg hq hops hfresh hd]
    constructor
    · have hswitch := congrArg Option.toList (asked_switchText ttype serial)
      rw [Option.toList_map, Option.toList_map] at hswitch
      rw [List.map_map, List.map_append, ← hswitch, ← asked_device hhost]
      rfl
    · intro d hd
      obtain ⟨t, -, rfl⟩ := List.mem_map.mp hd
      rfl

theorem client_request_framing_of_tcp :
    Understood ansi .any (some (ascii "10.0.0.2:5555")) (ascii "shell:ls") :=
  (client_request_framing ansi .any (some (ascii "10.0.0.2:5555")) (ascii "shell:ls")
    (by decide) (by decide)
    (by decide) (by decide) (by decide)).mpr (by decide)

-- With one byte more, the text of the switch fills its buffer and strlen reads on behind
-- it; a service of 260 bytes leaves wService without a NUL.
theorem long_names_run_over :
    ¬Understood ansi .any (some (List.replicate 49 97)) (ascii "shell:ls") ∧
    ¬Understood ansi .any none (List.replicate 260 97) := by
  constructor
  · have hserial : ∀ s ∈ some (List.replicate 49 (97 : UInt8)), IsText s := by decide
    rintro ⟨writes, hwrites, -⟩
    rw [adbConnect_eq hserial (by decide) (by decide) (by decide), if_pos (by decide),
      if_neg (by decide)] at hwrites
    cases hwrites
  · have htext : IsText (List.replicate 260 97) :=
      fun h => absurd (List.eq_of_mem_replicate h) (by decide)
    have hwide : ansi.toWide (List.replicate 260 97) = (List.replicate 260 97).map wchar := rfl
    refine not_understood_of_width (Nat.le_of_eq ?_)
    rw [CodePage.width, CodePage.text, htext.takeWhile_ne, hwide, List.length_map,
      List.length_replicate]
    rfl

end Framing

end Adb.Client
