import Adb.Host.ReplyShape
import Adb.Host.Packets
import Adb.Lib.Ensures

namespace Adb.Host

open Adb.Lib

-- register_socket_transport, where local is 0: adb_port stays 0.
def tcpTransport (serial : Bytes) : ATransport := newTransport .loopback 0 (some serial) none true

-- connect_device behind the port, with the transport that it registers.
def connectToRegister (table : List ATransport) (host : Bytes) (hostbuf : List Cell)
    (port : Option Int)
    (opened : Bool) : Except MemoryFault (Option ATransport × Bytes) := do
  let name ← readText hostbuf
  match port with
  | none => .error .uninitialised
  | some port => do
      let serial := (snprintf (fresh 100) 100 (name ++ [58] ++ printInt port)).1
      let found ← findSerial serial table
      if found then do
        let serial ← readText serial
        let text ← sayTo (ascii "already connected to " ++ serial)
        return (none, text)
      else if opened then do
        let serial ← readText serial
        let text ← sayTo (ascii "connected to " ++ serial)
        return (some (tcpTransport serial), text)
      else do
        let text ← sayTo (ascii "unable to connect to " ++ host ++ [58] ++ printInt port)
        return (none, text)

def connectDeviceRegister (table : List ATransport) (host : Bytes) (opened : Bool) :
    Except MemoryFault (Option ATransport × Bytes) :=
  let hostbuf := strncpy (fresh 100) 99 host
  match splitColon host with
  | none => connectToRegister table host hostbuf (some DEFAULT_ADB_LOCAL_TRANSPORT_PORT) opened
  | some (name, rest) =>
      if name.length ≥ 100 then do
        let text ← sayTo (ascii "bad host name " ++ host)
        return (none, text)
      else
        let hostbuf := hostbuf.set name.length (some 0)
        match scanInt rest with
        | .failure => do
            let text ← sayTo (ascii "bad port number " ++ [58] ++ rest)
            return (none, text)
        | .eof => connectToRegister table host hostbuf none opened
        | .value port => connectToRegister table host hostbuf (some port) opened

-- connect: in handle_host_request: what it registers, and the text of its reply.
def connectRequest (table : List ATransport) (host : Bytes) (opened : Bool) :
    Except MemoryFault (Option ATransport × Bytes) :=
  if (afterPrefix "emu:" host).isSome then do
    let text ← readText (fresh REPLY_SIZE)
    return (none, text)
  else
    connectDeviceRegister table host opened

-- find_transport, for a serial that is in a buffer: the place in the list.
def findPlace (serial : List Cell) : List ATransport → Except MemoryFault (Option Nat)
  | [] => .ok none
  | t :: ts =>
      match t.serial with
      | none => (findPlace serial ts).map fun place => place.map (· + 1)
      | some s => do
          let same ← strcmp serial s
          if same then return some 0 else (findPlace serial ts).map fun place => place.map (· + 1)

def isTcp (t : ATransport) : Bool := t.type = .loopback ∧ t.adbPort = 0

-- The places that unregister_all_tcp_transports unlinks.
def tcpPlaces : List ATransport → List Nat
  | [] => []
  | t :: ts => (if isTcp t then [0] else []) ++ (tcpPlaces ts).map (· + 1)

-- disconnect: in handle_host_request: the places of the list whose transports are
-- unregistered, and the text of the reply.
def disconnectRequest (table : List ATransport) (serial : Bytes) :
    Except MemoryFault (List Nat × Bytes) :=
  if serial = [] then
    .ok (tcpPlaces table, [])
  else do
    let serial := if 58 ∈ serial then (serial ++ [0]).map some
      else (snprintf (fresh 100) 99 (serial ++ ascii ":5555")).1
    let found ← findPlace serial table
    match found with
    | some place => return ([place], [])
    | none => do
        let serial ← readText serial
        let text ← sayTo (ascii "No such device " ++ serial)
        return ([], text)

section Texts

variable {table : List ATransport} {host name serial text : Bytes} {rest : List Cell}
  {hostbuf : List Cell}
  {port : Option Int} {opened : Bool} {fault : MemoryFault}

theorem map_bind {α β γ : Type} (x : Except MemoryFault α) (g : α → Except MemoryFault β)
    (f : β → γ) :
    (x >>= g).map f = x >>= fun a => (g a).map f := by
  cases x <;> rfl

theorem map_answer {α β : Type} (a : α) (x : Except MemoryFault β) :
    (x >>= fun text => pure (a, text)).map Prod.snd = x := by
  cases x <;> rfl

-- The text of the reply is the one that the replies are made of.
theorem connectToRegister_text :
    (connectToRegister table host hostbuf port opened).map Prod.snd =
      connectTo table host hostbuf port opened := by
  unfold connectToRegister connectTo
  rw [map_bind]
  congr 1
  funext name
  cases port with
  | none => rfl
  | some port =>
      simp only
      rw [map_bind]
      congr 1
      funext found
      cases found with
      | true =>
          simp only [if_true]
          rw [map_bind]
          congr 1
          funext serial
          exact map_answer _ _
      | false =>
          cases opened with
          | true =>
              simp only [Bool.false_eq_true, if_false, if_true]
              rw [map_bind]
              congr 1
              funext serial
              exact map_answer _ _
          | false => exact map_answer _ _

theorem connectRequest_text : (connectRequest table host opened).map Prod.snd =
    connectText table host opened := by
  unfold connectRequest connectText
  split
  · exact map_answer _ _
  · unfold connectDeviceRegister connectDevice
    cases splitColon host with
    | none => exact connectToRegister_text
    | some split =>
        obtain ⟨name, rest⟩ := split
        simp only
        split
        · exact map_answer _ _
        · cases scanInt rest with
          | failure => exact map_answer _ _
          | eof => exact connectToRegister_text
          | value port => exact connectToRegister_text

theorem findPlace_isSome (serial : List Cell) (table : List ATransport) :
    (findPlace serial table).map Option.isSome = findSerial serial table := by
  induction table with
  | nil => rfl
  | cons t ts ih =>
      have hnext : ((findPlace serial ts).map fun place => place.map (· + 1)).map Option.isSome =
          findSerial serial ts := by
        rw [← ih]
        cases findPlace serial ts with
        | error e => rfl
        | ok place => cases place <;> rfl
      unfold findPlace findSerial
      cases t.serial with
      | none => exact hnext
      | some s =>
          simp only [bind, Except.bind]
          cases strcmp serial s with
          | error e => rfl
          | ok same =>
              cases same with
              | true => rfl
              | false => exact hnext

theorem findPlace_terminated (h : ∀ t ∈ table, t.Texts) (ht : IsText text) :
    findPlace ((text ++ [0]).map some ++ rest) table =
      .ok (table.findIdx? fun t => t.serial = some text) := by
  induction table with
  | nil => rfl
  | cons t ts ih =>
      have hrest := ih fun t ht => h t (List.mem_cons_of_mem _ ht)
      unfold findPlace
      rw [List.findIdx?_cons, hrest]
      cases hs : t.serial with
      | none => rfl
      | some s =>
          have hcmp : strcmp ((text ++ [0]).map some ++ rest) s = .ok (text = s) :=
            strcmp_terminated ht ((h t (by simp)).serial s hs)
          simp only [hcmp, bind, Except.bind]
          by_cases heq : text = s
          · simp [heq, pure, Except.pure]
          · simp [heq, Ne.symm heq, Except.map]

theorem disconnectRequest_text (h : ∀ t ∈ table, t.Texts) (hserial : IsText serial) :
    (disconnectRequest table serial).map Prod.snd = disconnectText table serial := by
  unfold disconnectRequest disconnectText
  split
  · rfl
  split
  · have hread : readText ((serial ++ [0]).map some ++ []) = .ok serial :=
      readText_terminated hserial
    have hfind : findPlace ((serial ++ [0]).map some ++ []) table =
        .ok (table.findIdx? fun t => t.serial = some serial) := findPlace_terminated h hserial
    rw [List.append_nil] at hread hfind
    have hany : (table.any fun t => t.serial = some serial) =
        (table.findIdx? fun t => t.serial = some serial).isSome := List.findIdx?_isSome.symm
    rw [hany]
    simp only [hfind, bind, Except.bind]
    cases table.findIdx? fun t => t.serial = some serial with
    | some place => rfl
    | none =>
        simp only [hread]
        exact map_answer _ _
  · simp only [← findPlace_isSome]
    cases findPlace (snprintf (fresh 100) 99 (serial ++ ascii ":5555")).1 table with
    | error e => rfl
    | ok place =>
        cases place with
        | some place => rfl
        | none =>
            show Except.map Prod.snd (readText _ >>= _) = (readText _ >>= _)
            rw [map_bind]
            congr 1
            funext read
            exact map_answer _ _

-- A serial without an end is not found.
theorem findPlace_open (hrest : ∀ s, strcmp rest s = .error fault) (ht : IsText text) :
    findPlace (text.map some ++ rest) table = .error fault ∨
      findPlace (text.map some ++ rest) table = .ok none := by
  have hsome := findPlace_isSome (text.map some ++ rest) table
  rw [findSerial_open hrest ht] at hsome
  cases hplace : findPlace (text.map some ++ rest) table with
  | error e =>
      rw [hplace] at hsome
      split at hsome
      · cases hsome
        exact .inl rfl
      · cases hsome
  | ok place =>
      rw [hplace] at hsome
      split at hsome
      · cases hsome
      · cases place with
        | none => exact .inr rfl
        | some place => cases hsome

end Texts

section Spelling

-- The serial that belongs to what a client writes: the default port, if there is none.
def fullSerial (host : Bytes) : Bytes := if 58 ∈ host then host else host ++ ascii ":5555"

-- The host and the port that connect_device makes of it.
def connectTarget (host : Bytes) : Option (Bytes × Int) :=
  match splitColon host with
  | none => some (host, DEFAULT_ADB_LOCAL_TRANSPORT_PORT)
  | some (name, rest) =>
      if name.length ≥ 100 then none
      else
        match scanInt rest with
        | .value port => some (name, port)
        | _ => none

-- The serial for which there will be a transport that there was not before.
def newSerial (table : List ATransport) (host : Bytes) (opened : Bool) : Option Bytes :=
  ((connectTarget host).map fun (name, port) => name ++ [58] ++ printInt port).filter fun serial =>
    opened && !isListed table serial

-- A port that is written as %d prints it; without a port, a name that leaves the
-- default port room in disconnect's buffer.
def SpelledPlainly (host : Bytes) : Prop :=
  match splitColon host with
  | none => host.length ≤ 93
  | some (_, rest) => ∀ port, scanInt rest = .value port → printInt port = rest

def ReportsError (text : Bytes) : Prop :=
  ∃ error ∈ ["bad host name ", "bad port number ", "already connected to ",
    "unable to connect to "], ascii error <+: text

variable {table : List ATransport} {host name rest serial text : Bytes}
  {hostbuf : List Cell} {port : Int}
  {opened : Bool} {registered : Option ATransport}

theorem reportsError_say {said : Bytes} {error : String} (hsaid : IsText (ascii error ++ said))
    (herror : error ∈
      ["bad host name ", "bad port number ", "already connected to ", "unable to connect to "])
    (hok : sayTo (ascii error ++ said) = .ok text) : ReportsError text := by
  rw [sayTo_eq hsaid] at hok
  split at hok
  · cases hok
    exact ⟨error, herror, List.prefix_append _ _⟩
  · cases hok

theorem answer_ok {α β : Type} {x : Except MemoryFault β} {a a' : α} {b : β}
    (h : (x >>= fun text => pure (a, text)) = .ok (a', b)) : a = a' ∧ x = .ok b := by
  obtain ⟨text, hx, hpure⟩ := bind_ok h
  cases hpure
  exact ⟨rfl, hx⟩

-- What becomes of a name and a port.
theorem connectToRegister_ok (h : ∀ t ∈ table, t.Texts) (hhost : IsText host) (hname : IsText name)
    (hread : readText hostbuf = .ok name)
    (hok : connectToRegister table host hostbuf (some port) opened = .ok (registered, text)) :
    registered = (if opened && !isListed table (name ++ [58] ++ printInt port) then
        some (tcpTransport (name ++ [58] ++ printInt port)) else none) ∧
      (registered = none → ReportsError text) := by
  obtain ⟨serial, hserial⟩ : ∃ serial, serial = name ++ [58] ++ printInt port := ⟨_, rfl⟩
  have htext : IsText serial := by
    rw [hserial]
    exact isText_append.mpr ⟨isText_append.mpr ⟨hname, by decide⟩, isText_printInt port⟩
  have hserialRead : readText (snprintf (fresh 100) 100 serial).1 =
      if serial.length < 100 then .ok serial else .error .overread :=
        readText_snprintf htext length_fresh
  -- a serial that can be read has been compared as a whole
  have hwhole : ∀ {read}, readText (snprintf (fresh 100) 100 serial).1 = .ok read →
      read = serial ∧ findSerial (snprintf (fresh 100) 100 serial).1 table =
        .ok (isListed table serial) := by
    intro read hok
    rw [hserialRead] at hok
    split at hok
    · rename_i hshort
      cases hok
      obtain ⟨rest, hcells⟩ : ∃ rest, (snprintf (fresh 100) 100 serial).1 =
          (serial ++ [0]).map some ++ rest := snprintf_short hshort
      rw [hcells]
      exact ⟨rfl, findSerial_terminated h htext⟩
    · cases hok
  unfold connectToRegister at hok
  obtain ⟨name', hname', hok⟩ := bind_ok hok
  rw [hread] at hname'
  cases hname'
  simp only [← hserial] at hok ⊢
  obtain ⟨found, hfound, hok⟩ := bind_ok hok
  cases found with
  | true =>
      rw [if_pos rfl] at hok
      obtain ⟨read, hreads, hok⟩ := bind_ok hok
      obtain ⟨hnone, hsay⟩ := answer_ok hok
      obtain ⟨hsame, hlisted⟩ := hwhole hreads
      rw [hfound] at hlisted
      have hin : isListed table serial = true := (Except.ok.inj hlisted).symm
      rw [hsame] at hsay
      refine ⟨by rw [hin, ← hnone]; simp, fun _ => ?_⟩
      exact reportsError_say (isText_append.mpr ⟨by decide, htext⟩) (by decide) hsay
  | false =>
      rw [if_neg (by decide)] at hok
      cases opened with
      | true =>
          rw [if_pos rfl] at hok
          obtain ⟨read, hreads, hok⟩ := bind_ok hok
          obtain ⟨hsome, hsay⟩ := answer_ok hok
          obtain ⟨hsame, hlisted⟩ := hwhole hreads
          rw [hfound] at hlisted
          have hin : isListed table serial = false := (Except.ok.inj hlisted).symm
          rw [hsame] at hsome
          refine ⟨by rw [hin, ← hsome]; rfl, fun hnone => ?_⟩
          rw [hnone] at hsome
          cases hsome
      | false =>
          rw [if_neg (by decide)] at hok
          obtain ⟨hnone, hsay⟩ := answer_ok hok
          rw [List.append_assoc, List.append_assoc] at hsay
          refine ⟨by rw [← hnone]; rfl, fun _ => reportsError_say ?_ (by decide) hsay⟩
          exact isText_append.mpr ⟨by decide, isText_append.mpr
            ⟨hhost, isText_append.mpr ⟨by decide, isText_printInt port⟩⟩⟩

-- What a connect: registers, where it comes to an answer.
theorem connectRequest_ok (h : ∀ t ∈ table, t.Texts) (hhost : IsText host)
    (hok : connectRequest table host opened = .ok (registered, text)) :
    registered = (newSerial table host opened).map tcpTransport ∧
      (registered = none → ReportsError text) := by
  unfold connectRequest at hok
  split at hok
  · obtain ⟨e, he⟩ := readText_fresh REPLY_SIZE
    rw [he] at hok
    cases hok
  have hport : ∀ {name : Bytes} {hostbuf : List Cell} {port : Int}, IsText name →
      readText hostbuf = .ok name → connectTarget host = some (name, port) →
      connectToRegister table host hostbuf (some port) opened = .ok (registered, text) →
      registered = (newSerial table host opened).map tcpTransport ∧
        (registered = none → ReportsError text) := by
    intro name hostbuf port hname hread htarget hok
    obtain ⟨hregistered, herror⟩ := connectToRegister_ok h hhost hname hread hok
    refine ⟨?_, herror⟩
    rw [hregistered, newSerial, htarget, Option.map_some, Option.filter_some]
    split <;> rfl
  unfold connectDeviceRegister at hok
  cases hsplit : splitColon host with
  | none =>
      rw [hsplit] at hok
      obtain ⟨read, hread, -⟩ := bind_ok hok
      have hname := readText_hostbuf hhost
      rw [hread] at hname
      split at hname
      · cases hname
        exact hport hhost hread (by rw [connectTarget, hsplit]) hok
      · cases hname
  | some split =>
      obtain ⟨name, rest⟩ := split
      obtain ⟨hsplits, -⟩ := splitColon_some hsplit
      have hparts := hhost
      rw [hsplits, isText_append, isText_cons] at hparts
      obtain ⟨hname, -, hrest⟩ := hparts
      rw [hsplit] at hok
      simp only at hok
      by_cases hlong : name.length ≥ 100
      · rw [if_pos hlong] at hok
        obtain ⟨hnone, hsay⟩ := answer_ok hok
        have htarget : connectTarget host = none := by
          simp only [connectTarget, hsplit, if_pos hlong]
        refine ⟨by rw [newSerial, htarget, ← hnone]; rfl, fun _ => ?_⟩
        exact reportsError_say (isText_append.mpr ⟨by decide, hhost⟩) (by decide) hsay
      · rw [if_neg hlong] at hok
        have hread := readText_hostbuf_set hname (by omega) hsplits
        cases hscan : scanInt rest with
        | failure =>
            rw [hscan] at hok
            obtain ⟨hnone, hsay⟩ := answer_ok hok
            have htarget : connectTarget host = none := by
              simp only [connectTarget, hsplit, if_neg hlong, hscan]
            rw [List.append_assoc] at hsay
            refine ⟨by rw [newSerial, htarget, ← hnone]; rfl, fun _ => ?_⟩
            exact reportsError_say
              (isText_append.mpr ⟨by decide, isText_append.mpr ⟨by decide, hrest⟩⟩)
              (by decide) hsay
        | eof =>
            rw [hscan] at hok
            obtain ⟨read, -, hok⟩ := bind_ok hok
            cases hok
        | value port =>
            rw [hscan] at hok
            exact hport hname hread (by simp only [connectTarget, hsplit, if_neg hlong, hscan]) hok

-- A serial that is put together anew is the one in the request only if the port
-- has not been changed by that.
theorem newSerial_plain (hnew : newSerial table host opened = some serial) :
    serial = fullSerial host ∧ (58 ∉ host → host.length ≤ 93) ↔ SpelledPlainly host := by
  obtain ⟨htarget, -⟩ := Option.filter_eq_some_iff.mp hnew
  obtain ⟨⟨name, port⟩, htarget, hserial⟩ := Option.map_eq_some_iff.mp htarget
  simp only at hserial
  unfold connectTarget at htarget
  unfold SpelledPlainly fullSerial
  cases hsplit : splitColon host with
  | none =>
      have hcolon := splitColon_none hsplit
      have hport : [58] ++ printInt DEFAULT_ADB_LOCAL_TRANSPORT_PORT = ascii ":5555" := by decide
      rw [hsplit] at htarget
      cases htarget
      rw [List.append_assoc, hport] at hserial
      rw [if_neg hcolon, ← hserial]
      simp only [hcolon, not_false_eq_true, forall_true_left, true_and]
  | some split =>
      obtain ⟨before, rest⟩ := split
      obtain ⟨hsplits, -⟩ := splitColon_some hsplit
      have hcolon : 58 ∈ host := by
        rw [hsplits]
        simp
      rw [hsplit] at htarget
      simp only at htarget ⊢
      split at htarget
      · cases htarget
      cases hscan : scanInt rest with
      | failure =>
          rw [hscan] at htarget
          cases htarget
      | eof =>
          rw [hscan] at htarget
          cases htarget
      | value scanned =>
          rw [hscan] at htarget
          cases htarget
          rw [if_pos hcolon]
          constructor
          · intro ⟨heq, _⟩ port' hport
            cases hport
            rw [← hserial, hsplits, List.append_assoc] at heq
            exact (List.cons.inj (List.append_cancel_left heq)).2
          · intro hplain
            refine ⟨?_, fun hno => absurd hcolon hno⟩
            rw [← hserial, hplain port rfl, hsplits, List.append_assoc]
            rfl

end Spelling

section Disconnect

variable {pre post : List ATransport} {t : ATransport} {host : Bytes}

-- Where disconnect: finds the transport: there is none in front that would be taken
-- for it, or with it.
def Undisturbed (host : Bytes) (pre post : List ATransport) : Prop :=
  if host = [] then ∀ u ∈ pre ++ post, isTcp u = false else ∀ u ∈ pre,
    u.serial ≠ some (fullSerial host)

theorem findIdx?_first {p : ATransport → Bool} (ht : p t = true) :
    (∃ place, (pre ++ t :: post).findIdx? p = some place) ∧
      ((pre ++ t :: post).findIdx? p = some pre.length ↔ ∀ u ∈ pre, p u = false) := by
  induction pre with
  | nil => simp [List.findIdx?_cons, ht]
  | cons u pre ih =>
      obtain ⟨⟨place, hplace⟩, hiff⟩ := ih
      rw [List.cons_append, List.findIdx?_cons]
      cases hu : p u with
      | true => simp [hu]
      | false =>
          rw [if_neg (by decide)]
          refine ⟨⟨place + 1, by rw [hplace]; rfl⟩, ?_⟩
          rw [List.forall_mem_cons, ← hiff]
          simp [hu]

theorem tcpPlaces_append (xs ys : List ATransport) :
    tcpPlaces (xs ++ ys) = tcpPlaces xs ++ (tcpPlaces ys).map (· + xs.length) := by
  induction xs with
  | nil => simp [tcpPlaces]
  | cons t xs ih =>
      simp only [List.cons_append, tcpPlaces, ih, List.map_append, List.map_map, List.length_cons,
        List.append_assoc]
      congr 3

theorem tcpPlaces_eq_nil_iff {ts : List ATransport} :
    tcpPlaces ts = [] ↔ ∀ u ∈ ts, isTcp u = false := by
  induction ts with
  | nil => simp [tcpPlaces]
  | cons t ts ih =>
      rw [List.forall_mem_cons, ← ih, tcpPlaces, List.append_eq_nil_iff, List.map_eq_nil_iff]
      cases isTcp t <;> simp

theorem tcpPlaces_alone (ht : isTcp t = true) :
    tcpPlaces (pre ++ t :: post) = [pre.length] ↔ ∀ u ∈ pre ++ post, isTcp u = false := by
  have hplaces : tcpPlaces (pre ++ t :: post) =
      tcpPlaces pre ++ (pre.length :: ((tcpPlaces post).map (· + 1)).map (· + pre.length)) := by
    rw [tcpPlaces_append, tcpPlaces, if_pos ht]
    simp
  rw [hplaces]
  constructor
  · intro halone
    have hlength := congrArg List.length halone
    simp only [List.length_append, List.length_cons, List.length_map, List.length_nil] at hlength
    have hpre : tcpPlaces pre = [] := List.eq_nil_of_length_eq_zero (by omega)
    have hpost : tcpPlaces post = [] := List.eq_nil_of_length_eq_zero (by omega)
    rw [List.forall_mem_append]
    exact ⟨tcpPlaces_eq_nil_iff.mp hpre, tcpPlaces_eq_nil_iff.mp hpost⟩
  · intro hnone
    rw [List.forall_mem_append] at hnone
    rw [tcpPlaces_eq_nil_iff.mpr hnone.1, tcpPlaces_eq_nil_iff.mpr hnone.2]
    rfl

theorem disconnectRequest_iff (hpre : ∀ u ∈ pre ++ t :: post, u.Texts) (hhost : IsText host)
    (hserial : t.serial = some (fullSerial host)) (ht : isTcp t = true) :
    disconnectRequest (pre ++ t :: post) host = .ok ([pre.length], []) ↔
      (58 ∉ host → host.length ≤ 93) ∧ Undisturbed host pre post := by
  unfold disconnectRequest Undisturbed
  by_cases hnil : host = []
  · subst hnil
    simp [tcpPlaces_alone ht]
  rw [if_neg hnil, if_neg hnil]
  have hsame : decide (t.serial = some (fullSerial host)) = true := by
    rw [hserial]
    exact decide_eq_true rfl
  obtain ⟨⟨place, hplace⟩, hfirst⟩ :
      (∃ place, (pre ++ t :: post).findIdx? (fun u => u.serial = some (fullSerial host)) =
        some place) ∧ _ :=
    findIdx?_first hsame
  simp only [decide_eq_false_iff_not] at hfirst
  -- the serial is found as it is printed
  have hfound : ∀ rest : List Cell, IsText (fullSerial host) →
      findPlace ((fullSerial host ++ [0]).map some ++ rest) (pre ++ t :: post) =
        .ok (some place) := by
    intro rest htext
    rw [findPlace_terminated hpre htext, hplace]
  by_cases hcolon : 58 ∈ host
  · have hfull : fullSerial host = host := if_pos hcolon
    rw [hfull] at hfound hfirst hplace ⊢
    have hfind := hfound [] hhost
    rw [List.append_nil] at hfind
    rw [hplace] at hfirst
    simp only [if_pos hcolon, hfind, bind, Except.bind]
    rw [← hfirst]
    simp [hcolon, pure, Except.pure]
  · have hfull : fullSerial host = host ++ ascii ":5555" := if_neg hcolon
    have htext : IsText (fullSerial host) := by
      rw [hfull]
      exact isText_append.mpr ⟨hhost, by decide⟩
    have hlen : (fullSerial host).length = host.length + 5 := by
      rw [hfull, List.length_append]
      rfl
    rw [if_neg hcolon, ← hfull]
    by_cases hshort : host.length ≤ 93
    · obtain ⟨rest, hcells⟩ : ∃ rest, (snprintf (fresh 100) 99 (fullSerial host)).1 =
          (fullSerial host ++ [0]).map some ++ rest := snprintf_short (by omega)
      rw [hplace] at hfirst
      simp only [hcells, hfound rest htext, bind, Except.bind]
      rw [← hfirst]
      simp [hcolon, hshort, pure, Except.pure]
    · -- nothing ends the serial in hostbuf
      have hopen : (snprintf (fresh 100) 99 (fullSerial host)).1 =
          ((fullSerial host).take 99).map some ++ [none] := by
        rw [snprintf_ge (by omega), overwrite, List.length_take, Nat.min_eq_left (by omega)]
        rfl
      have hread : readText (((fullSerial host).take 99).map some ++ [none]) =
          .error .uninitialised := by
        rw [readText_append (htext.take 99)]
        rfl
      have hmissed :
          findPlace (((fullSerial host).take 99).map some ++ [none]) (pre ++ t :: post) =
            .error .uninitialised ∨
            findPlace (((fullSerial host).take 99).map some ++ [none])
              (pre ++ t :: post) = .ok none :=
        findPlace_open (fun _ => rfl) (htext.take 99)
      have hlong : ¬(58 ∉ host → host.length ≤ 93) := fun hle => hshort (hle hcolon)
      rw [hopen]
      obtain hmissed | hmissed := hmissed
      · simp only [hmissed, bind, Except.bind]
        exact iff_of_false (fun hok => by cases hok) fun hplain => hlong hplain.1
      · simp only [hmissed, hread, bind, Except.bind]
        exact iff_of_false (fun hok => by cases hok) fun hplain => hlong hplain.1

end Disconnect

section Connections

variable {table pre post : List ATransport} {host : Bytes} {opened : Bool}

-- connect: on a table, and disconnect: with the same words on the list that the
-- transport is in by then, if there is a new one: pre and post are the others.
def ConnectAndDisconnect (table : List ATransport) (host : Bytes) (opened : Bool)
    (pre post : List ATransport) : Prop :=
  ∃ registered text, connectRequest table host opened = .ok (registered, text) ∧
    WellFormed (sendReply text) ∧
    match registered with
    | none => ReportsError text
    | some t => t.serial = some (fullSerial host) ∧
        ∀ t' : ATransport, t'.serial = t.serial → t'.type = t.type →
          t'.adbPort = t.adbPort → t'.Texts →
          disconnectRequest (pre ++ t' :: post) host = .ok ([pre.length], [])

theorem isText_fullSerial (hhost : IsText host) : IsText (fullSerial host) := by
  unfold fullSerial
  split
  · exact hhost
  · exact isText_append.mpr ⟨hhost, by decide⟩

theorem tcpTransport_texts {serial : Bytes} (h : IsText serial) : (tcpTransport serial).Texts := by
  constructor <;> simp [tcpTransport, newTransport, h]

theorem texts_insert {t : ATransport} (hothers : ∀ u ∈ pre ++ post, u.Texts) (ht : t.Texts) :
    ∀ u ∈ pre ++ t :: post, u.Texts := by
  rw [List.forall_mem_append] at hothers
  rw [List.forall_mem_append, List.forall_mem_cons]
  exact ⟨hothers.1, ht, hothers.2⟩

theorem connect_disconnect_iff (htable : ∀ t ∈ table, t.Texts)
    (hothers : ∀ u ∈ pre ++ post, u.Texts)
    (hhost : IsText host) :
    ConnectAndDisconnect table host opened pre post ↔
      ConnectWell table host opened ∧
        ((newSerial table host opened).isSome → SpelledPlainly host ∧
          Undisturbed host pre post) := by
  have hwell : WellFormed (connectText table host opened >>= sendReply) ↔
      ConnectWell table host opened :=
    connectText_well htable hhost
  rw [← connectRequest_text] at hwell
  constructor
  · rintro ⟨registered, text, hok, hreply, hcase⟩
    rw [hok] at hwell
    refine ⟨hwell.mp hreply, fun hsome => ?_⟩
    obtain ⟨serial, hnew⟩ := Option.isSome_iff_exists.mp hsome
    obtain ⟨hregistered, -⟩ := connectRequest_ok htable hhost hok
    rw [hnew] at hregistered
    subst hregistered
    obtain ⟨hserial, hdisconnect⟩ := hcase
    have hfull : serial = fullSerial host := Option.some.inj hserial
    have htexts : (tcpTransport serial).Texts :=
      tcpTransport_texts (hfull ▸ isText_fullSerial hhost)
    have hgone := hdisconnect (tcpTransport serial) rfl rfl rfl htexts
    rw [disconnectRequest_iff (texts_insert hothers htexts) hhost hserial rfl] at hgone
    exact ⟨(newSerial_plain hnew).mp ⟨hfull, hgone.1⟩, hgone.2⟩
  · rintro ⟨hconnect, hplain⟩
    have hreply := hwell.mpr hconnect
    cases hok : connectRequest table host opened with
    | error e =>
        rw [hok] at hreply
        exact absurd hreply not_wellFormed_error
    | ok result =>
        obtain ⟨registered, text⟩ := result
        rw [hok] at hreply
        obtain ⟨hregistered, herror⟩ := connectRequest_ok htable hhost hok
        refine ⟨registered, text, hok, hreply, ?_⟩
        cases hnew : newSerial table host opened with
        | none =>
            rw [hnew] at hregistered
            subst hregistered
            exact herror rfl
        | some serial =>
            rw [hnew] at hregistered hplain
            subst hregistered
            obtain ⟨hspelled, hundisturbed⟩ := hplain rfl
            obtain ⟨hfull, hshort⟩ := (newSerial_plain hnew).mpr hspelled
            refine ⟨congrArg some hfull, fun t' hserial htype hport htexts => ?_⟩
            have htcp : isTcp t' = true := by
              rw [isTcp, htype, hport]
              rfl
            rw [disconnectRequest_iff (texts_insert hothers htexts) hhost
              (hserial.trans (congrArg some hfull)) htcp]
            exact ⟨hshort, hundisturbed⟩

theorem connect_disconnect_of_one :
    (∀ t ∈ ([] : List ATransport), t.Texts) ∧ (∀ u ∈ ([] : List ATransport) ++ [], u.Texts) ∧
      IsText (ascii "10.0.0.5:5555") ∧
        ConnectAndDisconnect [] (ascii "10.0.0.5:5555") true [] [] := by
  have hnone : ∀ t ∈ ([] : List ATransport), t.Texts := by simp
  have hsplit : splitColon (ascii "10.0.0.5:5555") = some (ascii "10.0.0.5", ascii "5555") := by
    decide
  have hscan : scanInt (ascii "5555") = .value 5555 := by decide
  refine ⟨hnone, hnone, by decide,
    (connect_disconnect_iff hnone hnone (by decide)).mpr ⟨⟨by decide, ?_⟩, fun _ => ?_⟩⟩
  · rw [hsplit]
    simp only
    rw [if_neg (by decide), hscan]
    simp only [ReachWell]
    rw [if_pos (by decide)]
    exact Or.inr (Or.inl trivial)
  · unfold SpelledPlainly Undisturbed
    rw [hsplit, if_neg (by decide)]
    refine ⟨fun port hport => ?_, by simp⟩
    rw [hscan] at hport
    cases hport
    decide

-- The port is read as a number, printed again, and looked for as it was written.
theorem leading_zero_stays :
    IsText (ascii "10.0.0.5:05555") ∧
      ¬ConnectAndDisconnect [] (ascii "10.0.0.5:05555") true [] [] := by
  refine ⟨by decide, fun hboth => ?_⟩
  obtain ⟨registered, text, hok, -, hcase⟩ := hboth
  have hnew : newSerial [] (ascii "10.0.0.5:05555") true = some (ascii "10.0.0.5:5555") := by decide
  obtain ⟨hregistered, -⟩ := connectRequest_ok (by simp) (by decide) hok
  rw [hnew] at hregistered
  subst hregistered
  exact absurd hcase.1 (by decide)

end Connections

end Adb.Host
