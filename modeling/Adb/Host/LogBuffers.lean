import Adb.Host.Packets
import Adb.Host.Reassembly
import Adb.Wire.Endpoint

namespace Adb.Host

open Adb.Lib
open Adb.Transport (TransportType)
open Adb.Wire (wide wchar wchar_eq_zero stprintf readWide)

def MAX_PATH : Nat := 260

def MAXIMUM_WAIT_OBJECTS : Nat := 64

abbrev WideCell := Option UInt16

-- The code page that CP_ACP stands for is up to the system. A text has no wide NUL in it
-- either.
structure CodePage where
  toWide : Bytes → List UInt16
  noNul : ∀ s, IsText s → 0 ∉ toWide s

def CodePage.text (page : CodePage) (s : Bytes) : List UInt16 := page.toWide (s.takeWhile (· ≠ 0))

-- How many wide characters a string is.
def CodePage.width (page : CodePage) (s : Bytes) : Nat := (page.text s).length

-- MultiByteToWideChar with the size of the buffer. It fails where there is no room, and
-- what it leaves in the buffer then is not said.
def multiByteToWideChar (page : CodePage) (s : Bytes) (buffer : List WideCell) :
    Except MemoryFault (List WideCell) :=
  if page.width s < buffer.length then store buffer 0 (page.text s ++ [0])
  else .ok (List.replicate buffer.length none)

-- wcscat, behind the text that the buffer has.
def wcscat (buffer : List WideCell) (text : List UInt16) : Except MemoryFault (List WideCell) := do
  let before ← readWide buffer
  store buffer before.length (text ++ [0])

-- wchar_t wLog[MAX_PATH]
def wLog : List WideCell := List.replicate MAX_PATH none

-- The conversion %d of 32 bits.
def printWide (d : BitVec 32) : List UInt16 := (printInt d.toInt).map wchar

-- What smart_socket_enqueue logs; p->len is unsigned like the id.
def logEnqueue (id len : UInt32) : Except MemoryFault Unit := do
  let _ ← stprintf wLog (wide "SS(" ++ printWide id.toBitVec ++ wide "): enqueue " ++
    printWide len.toBitVec ++ wide "\n")
  return ()

def logHostRequest (page : CodePage) (service : Bytes) : Except MemoryFault Unit := do
  let wLog ← multiByteToWideChar page service wLog
  let _ ← wcscat wLog (wide "--handle_host_request--")
  return ()

def logListener (page : CodePage) (localName connectTo : Bytes) : Except MemoryFault Unit := do
  let wlocalName ← multiByteToWideChar page localName wLog
  let wConnectTo ← multiByteToWideChar page connectTo wLog
  let localName ← readWide wlocalName
  let connectTo ← readWide wConnectTo
  let _ ← stprintf wLog
      (wide "install_listener('" ++ localName ++ wide "','" ++ connectTo ++ wide "')\n")
  return ()

def acquires (st : Server) (ttype : TransportType) (serial : Option Bytes) : Bool :=
  match acquireOneTransport st ttype serial with
  | .ok (some _, _) => true
  | _ => false

-- handle_host_request: only the forward of a transport that is there comes to
-- install_listener.
def logForward (page : CodePage) (st : Server) (ttype : TransportType) (serial : Option Bytes) :
    Option HostRequest → Except MemoryFault Unit
  | some (.forward true localName remote) =>
      if acquires st ttype serial then logListener page localName remote else .ok ()
  | _ => .ok ()

def hostRequestLogs (page : CodePage) (st : Server) (service : Bytes) (ttype : TransportType)
    (serial : Option Bytes) : Except MemoryFault Unit := do
  logHostRequest page service
  logForward page st ttype serial (hostRequest service)

-- smart_socket_enqueue, for the packet that has data in it by now.
def requestLogs (page : CodePage) (st : Server) (id len : UInt32) (data : Bytes) :
    Except MemoryFault Unit := do
  logEnqueue id len
  match frame data with
  | .complete body =>
      match parseRequest body with
      | .host service ttype serial => hostRequestLogs page st service ttype serial
      | .device _ => return ()
  | _ => return ()

-- The loop over the handles, whose texts go behind each other.
def logHandles (wLog wHtab : List WideCell) (i : Nat) :
    List (BitVec 32) → Except MemoryFault (List WideCell × List WideCell)
  | [] => .ok (wLog, wHtab)
  | h :: htab => do
      let wHtab ← stprintf wHtab
          (wide "htab" ++ printWide (BitVec.ofNat 32 i) ++ wide " " ++ printWide h)
      let text ← readWide wHtab
      let wLog ← wcscat wLog text
      logHandles wLog wHtab (i + 1) htab

-- Once the wait is over, what WaitForMultipleObjects returned goes behind them.
def logReturn (wLog wHtab : List WideCell) (ret : BitVec 32) : Except MemoryFault Unit := do
  let wHtab ← stprintf wHtab (wide " ret " ++ printWide ret)
  let text ← readWide wHtab
  let wLog ← wcscat wLog text
  let _ ← wcscat wLog (wide " --end")
  return ()

-- What fdevent_process logs of a wait.
def logWait (htab : List (BitVec 32)) (ret : BitVec 32) : Except MemoryFault Unit := do
  let wLog ← stprintf wLog
      (wide "wait objects count " ++ printWide (BitVec.ofNat 32 htab.length) ++ wide ".")
  let (wLog, wHtab) ← logHandles wLog (List.replicate MAX_PATH (some 0)) 0 htab
  logReturn wLog wHtab ret

-- The waits of a pass, one after the other. With nothing to wait for there are none, and
-- for more handles than one wait takes nothing is logged.
def passLogs (htab : List (BitVec 32)) : List (BitVec 32) → Except MemoryFault Unit
  | [] => .ok ()
  | ret :: rets =>
      if htab = [] ∨ htab.length > MAXIMUM_WAIT_OBJECTS then .ok ()
      else do
        logWait htab ret
        passLogs htab rets

section Wide

variable {buffer : List WideCell} {n : Nat} {text : List UInt16}

-- A buffer with a text in it.
def Contains (buffer : List WideCell) (n : Nat) (text : List UInt16) : Prop :=
  buffer.length = n ∧ ∃ rest, buffer = (text ++ [0]).map some ++ rest

theorem readWide_contains (h : Contains buffer n text) (htext : 0 ∉ text) :
    readWide buffer = .ok text := by
  obtain ⟨-, rest, rfl⟩ := h
  induction text with
  | nil => rfl
  | cons c text ih =>
      rw [List.mem_cons, not_or] at htext
      have hmore := ih htext.2
      simp only [List.cons_append, List.map_cons, readWide, if_neg (Ne.symm htext.1), hmore]
      rfl

-- What is printed or appended is there then, if there is room for it and a NUL.
theorem stprintf_contains (text : List UInt16) (hbuffer : buffer.length = n)
    (hfits : text.length < n) :
    ∃ printed, stprintf buffer text = .ok printed ∧ Contains printed n text := by
  have hroom : (text ++ [0]).length ≤ buffer.length := by
    rw [List.length_append, List.length_singleton, hbuffer]
    exact hfits
  have hstore := @store_append _ [] buffer (text ++ [0]) 0 rfl hroom
  rw [List.nil_append, List.nil_append] at hstore
  refine ⟨_, hstore, ?_, _, rfl⟩
  rw [List.length_append, List.length_map, List.length_drop]
  omega

theorem stprintf_beyond (text : List UInt16) (hbuffer : buffer.length = n)
    (hlong : n ≤ text.length) :
    stprintf buffer text = .error .overrun :=
  store_overrun (by rw [List.length_append, List.length_singleton]; omega)

theorem wcscat_contains (more : List UInt16) (h : Contains buffer n text) (htext : 0 ∉ text)
    (hfits : text.length + more.length < n) :
    ∃ appended, wcscat buffer more = .ok appended ∧ Contains appended n (text ++ more) := by
  have hread := readWide_contains h htext
  obtain ⟨hlen, rest, rfl⟩ := h
  have hcells : (text ++ [0]).map some ++ rest = text.map some ++ (some 0 :: rest) := by simp
  rw [hcells] at hread hlen ⊢
  rw [List.length_append, List.length_map] at hlen
  have hstore := store_written text (more ++ [0])
    (show (more ++ [0]).length ≤
      (some 0 :: rest).length by rw [List.length_append, List.length_singleton]; omega)
  refine ⟨_, by rw [wcscat, hread]; exact hstore, ?_, _, by rw [List.append_assoc]⟩
  rw [List.length_append, List.length_map, List.length_append, List.length_append,
    List.length_singleton, List.length_drop]
  simp at hlen ⊢
  omega

theorem wcscat_beyond (more : List UInt16) (h : Contains buffer n text) (htext : 0 ∉ text)
    (hlong : n ≤ text.length + more.length) :
    wcscat buffer more = .error .overrun := by
  rw [wcscat, readWide_contains h htext]
  refine store_overrun ?_
  rw [List.length_append, List.length_singleton, h.1]
  omega

-- No conversion has a NUL in it.
theorem zero_notMem_printWide (d : BitVec 32) : 0 ∉ printWide d := by
  intro h
  obtain ⟨c, hc, heq⟩ := List.mem_map.mp h
  exact isText_printInt _ (wchar_eq_zero.mp heq ▸ hc)

theorem length_printWide (d : BitVec 32) : (printWide d).length ≤ 11 := by
  rw [printWide, List.length_map]
  exact length_printInt_le _

theorem zero_notMem_text (page : CodePage) (s : Bytes) : 0 ∉ page.text s := by
  refine page.noNul _ fun h => ?_
  simpa using List.mem_takeWhile_imp h

end Wide

section Requests

variable {page : CodePage} {s service localName connectTo : Bytes} {id len : UInt32}

theorem length_wLog : wLog.length = MAX_PATH := List.length_replicate

-- The names of two sockets and two numbers are short.
theorem logEnqueue_ok (id len : UInt32) : logEnqueue id len = .ok () := by
  have hfirst : (wide "SS(").length = 3 := by decide
  have hmiddle : (wide "): enqueue ").length = 11 := by decide
  have hlast : (wide "\n").length = 1 := by decide
  have hid := length_printWide id.toBitVec
  have hlen := length_printWide len.toBitVec
  obtain ⟨printed, hprint, -⟩ := stprintf_contains
    (wide "SS(" ++ printWide id.toBitVec ++ wide "): enqueue " ++ printWide len.toBitVec ++
      wide "\n") length_wLog (by
      simp only [List.length_append, hfirst, hmiddle, hlast, MAX_PATH]
      omega)
  rw [logEnqueue, hprint]
  rfl

theorem multiByte_contains (h : page.width s < MAX_PATH) :
    ∃ buffer, multiByteToWideChar page s wLog = .ok buffer ∧
      Contains buffer MAX_PATH (page.text s) := by
  rw [multiByteToWideChar, if_pos (by rw [length_wLog]; exact h)]
  exact stprintf_contains _ length_wLog h

theorem multiByte_fails (h : MAX_PATH ≤ page.width s) :
    multiByteToWideChar page s wLog = .ok wLog := by
  rw [multiByteToWideChar, if_neg (by rw [length_wLog]; omega), length_wLog]
  rfl

-- The name of the function is appended to the request, and takes its part of the buffer.
theorem logHostRequest_iff : logHostRequest page service = .ok () ↔ page.width service ≤ 236 := by
  have hname : (wide "--handle_host_request--").length = 23 := by decide
  have hwidth : (page.text service).length = page.width service := rfl
  by_cases hconverts : page.width service < MAX_PATH
  · obtain ⟨buffer, hbuffer, hcontains⟩ := multiByte_contains hconverts
    have htext := zero_notMem_text page service
    rw [logHostRequest, hbuffer]
    by_cases hfits : page.width service ≤ 236
    · obtain ⟨appended, happend, -⟩ :=
        wcscat_contains (wide "--handle_host_request--") hcontains htext
        (by rw [hname, hwidth, MAX_PATH]; omega)
      exact iff_of_true (by simp only [bind, Except.bind, happend]; rfl) hfits
    · have hbeyond := wcscat_beyond (wide "--handle_host_request--") hcontains htext
        (by rw [hname, hwidth, MAX_PATH]; omega)
      exact iff_of_false (by simp [bind, Except.bind, hbeyond]) hfits
  · rw [logHostRequest, multiByte_fails (Nat.not_lt.mp hconverts)]
    refine iff_of_false (fun h => by cases h) fun hle => hconverts ?_
    rw [MAX_PATH]
    omega

-- The two names share the buffer with the words around them.
theorem logListener_iff : logListener page localName connectTo = .ok () ↔
    page.width localName + page.width connectTo ≤ 235 := by
  have hlocal : (page.text localName).length = page.width localName := rfl
  have hremote : (page.text connectTo).length = page.width connectTo := rfl
  have hsum : (wide "install_listener('" ++ page.text localName ++ wide "','" ++
      page.text connectTo ++
      wide "')\n").length = 24 + (page.width localName + page.width connectTo) := by
    have hfirst : (wide "install_listener('").length = 18 := by decide
    have hmiddle : (wide "','").length = 3 := by decide
    have hlast : (wide "')\n").length = 3 := by decide
    simp only [List.length_append, hfirst, hmiddle, hlast, hlocal, hremote]
    omega
  by_cases hfirst : page.width localName < MAX_PATH
  · by_cases hsecond : page.width connectTo < MAX_PATH
    · obtain ⟨buffer, hbuffer, hcontains⟩ := multiByte_contains hfirst
      obtain ⟨buffer', hbuffer', hcontains'⟩ := multiByte_contains hsecond
      have hread := readWide_contains hcontains (zero_notMem_text page localName)
      have hread' := readWide_contains hcontains' (zero_notMem_text page connectTo)
      simp only [logListener, bind, Except.bind, hbuffer, hbuffer', hread, hread']
      by_cases hfits : page.width localName + page.width connectTo ≤ 235
      · obtain ⟨printed, hprint, -⟩ :=
          stprintf_contains _ length_wLog (by rw [hsum, MAX_PATH]; omega)
        exact iff_of_true (by rw [hprint]; rfl) hfits
      · exact iff_of_false
          (by rw [stprintf_beyond _ length_wLog (by rw [hsum, MAX_PATH]; omega)]; simp) hfits
    · obtain ⟨buffer, hbuffer, hcontains⟩ := multiByte_contains hfirst
      have hread := readWide_contains hcontains (zero_notMem_text page localName)
      rw [logListener, hbuffer, multiByte_fails (Nat.not_lt.mp hsecond)]
      refine iff_of_false (fun h => ?_) fun hle => hsecond (by rw [MAX_PATH]; omega)
      simp only [bind, Except.bind, hread] at h
      cases h
  · refine iff_of_false (fun h => ?_) fun hle => hfirst (by rw [MAX_PATH]; omega)
    rw [logListener, multiByte_fails (Nat.not_lt.mp hfirst)] at h
    simp only [bind, Except.bind] at h
    cases hconnect : multiByteToWideChar page connectTo wLog with
    | error fault =>
        rw [hconnect] at h
        cases h
    | ok buffer =>
        rw [hconnect] at h
        cases h

-- A request is short enough for its log, and so are the names of a listener that is
-- installed for it.
def HostFits (page : CodePage) (st : Server) (service : Bytes) (ttype : TransportType)
    (serial : Option Bytes) : Prop :=
  page.width service ≤ 236 ∧
    ∀ localName remote, hostRequest service = some (.forward true localName remote) →
      acquires st ttype serial →
      page.width localName + page.width remote ≤ 235

theorem logForward_iff {st : Server} {ttype : TransportType} {serial : Option Bytes}
    (request : Option HostRequest) :
    logForward page st ttype serial request = .ok () ↔
      ∀ localName remote, request = some (.forward true localName remote) →
        acquires st ttype serial →
        page.width localName + page.width remote ≤ 235 := by
  unfold logForward
  split
  · rename_i localName remote
    split
    · rename_i hacquires
      rw [logListener_iff]
      refine ⟨fun hfits _ _ heq _ => ?_, fun h => h localName remote rfl hacquires⟩
      cases heq
      exact hfits
    · rename_i hacquires
      exact iff_of_true rfl fun _ _ _ h => absurd h hacquires
  · rename_i hother
    exact iff_of_true rfl fun localName remote heq => absurd heq (hother localName remote)

theorem hostRequestLogs_iff (page : CodePage) (st : Server) (service : Bytes)
    (ttype : TransportType)
    (serial : Option Bytes) :
    hostRequestLogs page st service ttype serial = .ok () ↔
      HostFits page st service ttype serial := by
  rw [HostFits, ← logHostRequest_iff, ← logForward_iff, hostRequestLogs]
  cases logHostRequest page service with
  | error fault => exact iff_of_false (fun h => by cases h) fun h => by cases h.1
  | ok _ => exact ⟨fun h => ⟨rfl, h⟩, fun h => h.2⟩

def RequestFits (page : CodePage) (st : Server) (data : Bytes) : Prop :=
  ∀ body service ttype serial, frame data = .complete body →
    parseRequest body = .host service ttype serial →
    HostFits page st service ttype serial

theorem requestLogs_iff (page : CodePage) (st : Server) (id len : UInt32) (data : Bytes) :
    requestLogs page st id len data = .ok () ↔ RequestFits page st data := by
  simp only [requestLogs, logEnqueue_ok, bind, Except.bind, RequestFits]
  cases hframe : frame data with
  | incomplete => exact iff_of_true rfl fun _ _ _ _ h => by cases h
  | badSize => exact iff_of_true rfl fun _ _ _ _ h => by cases h
  | complete body =>
      dsimp only
      cases hparse : parseRequest body with
      | device service =>
          refine iff_of_true rfl fun _ _ _ _ h h' => ?_
          cases h
          rw [hparse] at h'
          cases h'
      | host service ttype serial =>
          dsimp only
          rw [hostRequestLogs_iff]
          refine ⟨fun hfits _ _ _ _ h h' => ?_, fun h => h body service ttype serial rfl hparse⟩
          cases h
          rw [hparse] at h'
          cases h'
          exact hfits

end Requests

section Waits

variable {htab : List (BitVec 32)} {ret : BitVec 32} {buffer wHtab : List WideCell}
  {text : List UInt16}

-- The line of a wait, and how long it is.
def handleText (i : Nat) (h : BitVec 32) : List UInt16 :=
  wide "htab" ++ printWide (BitVec.ofNat 32 i) ++ wide " " ++ printWide h

def handlesText (i : Nat) : List (BitVec 32) → List UInt16
  | [] => []
  | h :: htab => handleText i h ++ handlesText (i + 1) htab

def printed (d : BitVec 32) : Nat := (printInt d.toInt).length

def handlesLength (i : Nat) : List (BitVec 32) → Nat
  | [] => 0
  | h :: htab => 5 + printed (BitVec.ofNat 32 i) + printed h + handlesLength (i + 1) htab

def waitLength (htab : List (BitVec 32)) (ret : BitVec 32) : Nat :=
  31 + printed (BitVec.ofNat 32 htab.length) + handlesLength 0 htab + printed ret

theorem length_printed (d : BitVec 32) : (printWide d).length = printed d := List.length_map _

theorem length_handleText (i : Nat) (h : BitVec 32) :
    (handleText i h).length = 5 + printed (BitVec.ofNat 32 i) + printed h := by
  have hname : (wide "htab").length = 4 := by decide
  have hblank : (wide " ").length = 1 := by decide
  simp only [handleText, List.length_append, hname, hblank, length_printed]
  omega

theorem length_handlesText (i : Nat) (htab : List (BitVec 32)) :
    (handlesText i htab).length = handlesLength i htab := by
  induction htab generalizing i with
  | nil => rfl
  | cons h htab ih => rw [handlesText, handlesLength, List.length_append, length_handleText, ih]

theorem zero_notMem_handleText (i : Nat) (h : BitVec 32) : 0 ∉ handleText i h := by
  have hname : 0 ∉ wide "htab" := by decide
  have hblank : 0 ∉ wide " " := by decide
  simp only [handleText, List.mem_append, not_or]
  exact ⟨⟨⟨hname, zero_notMem_printWide _⟩, hblank⟩, zero_notMem_printWide _⟩

theorem zero_notMem_handlesText (i : Nat) (htab : List (BitVec 32)) : 0 ∉ handlesText i htab := by
  induction htab generalizing i with
  | nil => simp [handlesText]
  | cons h htab ih =>
      rw [handlesText, List.mem_append, not_or]
      exact ⟨zero_notMem_handleText i h, ih (i + 1)⟩

-- One handle is short. All of them are appended if they fit.
theorem printHandle (i : Nat) (h : BitVec 32) (hsize : wHtab.length = MAX_PATH) :
    ∃ printed, stprintf wHtab (handleText i h) = .ok printed ∧
      Contains printed MAX_PATH (handleText i h) := by
  have hindex := length_printWide (BitVec.ofNat 32 i)
  have hhandle := length_printWide h
  rw [length_printed] at hindex hhandle
  exact stprintf_contains _ hsize (by rw [length_handleText, MAX_PATH]; omega)

theorem logHandles_contains (htab : List (BitVec 32)) (i : Nat)
    (hcontains : Contains buffer MAX_PATH text)
    (htext : 0 ∉ text) (hsize : wHtab.length = MAX_PATH)
    (hfits : text.length + handlesLength i htab < MAX_PATH) :
    ∃ buffer' wHtab', logHandles buffer wHtab i htab = .ok (buffer', wHtab') ∧
      Contains buffer' MAX_PATH (text ++ handlesText i htab) ∧ wHtab'.length = MAX_PATH := by
  induction htab generalizing i buffer wHtab text with
  | nil => exact ⟨buffer, wHtab, rfl, by simpa [handlesText] using hcontains, hsize⟩
  | cons h htab ih =>
      rw [handlesLength, ← length_handleText] at hfits
      obtain ⟨printed, hprint, hprinted⟩ := printHandle i h hsize
      have hread := readWide_contains hprinted (zero_notMem_handleText i h)
      obtain ⟨appended, happend, happended⟩ :=
        wcscat_contains (handleText i h) hcontains htext (by omega)
      have hnul : 0 ∉ text ++ handleText i h := by
        rw [List.mem_append, not_or]
        exact ⟨htext, zero_notMem_handleText i h⟩
      obtain ⟨buffer', wHtab', hloop, hdone, hsize'⟩ := ih (i + 1) happended hnul hprinted.1
        (by rw [List.length_append]; omega)
      refine ⟨buffer', wHtab', ?_, by rwa [handlesText, ← List.append_assoc], hsize'⟩
      rw [handleText] at hprint
      simp only [logHandles, hprint, hread, happend, hloop, bind, Except.bind]

theorem logHandles_beyond (htab : List (BitVec 32)) (i : Nat)
    (hcontains : Contains buffer MAX_PATH text)
    (htext : 0 ∉ text) (hsize : wHtab.length = MAX_PATH) (hshort : text.length < MAX_PATH)
    (hlong : MAX_PATH ≤ text.length + handlesLength i htab) :
    logHandles buffer wHtab i htab = .error .overrun := by
  induction htab generalizing i buffer wHtab text with
  | nil =>
      rw [handlesLength] at hlong
      omega
  | cons h htab ih =>
      rw [handlesLength, ← length_handleText] at hlong
      obtain ⟨printed, hprint, hprinted⟩ := printHandle i h hsize
      have hread := readWide_contains hprinted (zero_notMem_handleText i h)
      by_cases hfits : text.length + (handleText i h).length < MAX_PATH
      · obtain ⟨appended, happend, happended⟩ :=
          wcscat_contains (handleText i h) hcontains htext hfits
        have hnul : 0 ∉ text ++ handleText i h := by
          rw [List.mem_append, not_or]
          exact ⟨htext, zero_notMem_handleText i h⟩
        have hloop := ih (i + 1) happended hnul hprinted.1 (by rw [List.length_append]; exact hfits)
          (by rw [List.length_append]; omega)
        rw [handleText] at hprint
        simp only [logHandles, hprint, hread, happend, hloop, bind, Except.bind]
      · have hbeyond := wcscat_beyond (handleText i h) hcontains htext (Nat.not_lt.mp hfits)
        rw [handleText] at hprint
        simp only [logHandles, hprint, hread, hbeyond, bind, Except.bind]

theorem logReturn_iff (hcontains : Contains buffer MAX_PATH text) (htext : 0 ∉ text)
    (hsize : wHtab.length = MAX_PATH) :
    logReturn buffer wHtab ret = .ok () ↔ text.length + printed ret + 11 < MAX_PATH := by
  have hname : (wide " ret ").length = 5 := by decide
  have hend : (wide " --end").length = 6 := by decide
  have hlength : (wide " ret " ++ printWide ret).length = 5 + printed ret := by
    rw [List.length_append, hname, length_printed]
  have hnul : 0 ∉ wide " ret " ++ printWide ret := by
    have hnul : 0 ∉ wide " ret " := by decide
    rw [List.mem_append, not_or]
    exact ⟨hnul, zero_notMem_printWide ret⟩
  have hnumber := length_printWide ret
  rw [length_printed] at hnumber
  obtain ⟨filled, hprint, hfilled⟩ := stprintf_contains _ hsize (by rw [hlength, MAX_PATH]; omega)
  have hread := readWide_contains hfilled hnul
  simp only [logReturn, bind, Except.bind, hprint, hread]
  by_cases hfirst : text.length + (wide " ret " ++ printWide ret).length < MAX_PATH
  · obtain ⟨appended, happend, happended⟩ := wcscat_contains _ hcontains htext hfirst
    have hboth : 0 ∉ text ++ (wide " ret " ++ printWide ret) := by
      rw [List.mem_append, not_or]
      exact ⟨htext, hnul⟩
    have hsum : (text ++ (wide " ret " ++ printWide ret)).length + (wide " --end").length =
        text.length + printed ret + 11 := by
      rw [List.length_append, hlength, hend]
      omega
    rw [happend]
    dsimp only
    by_cases hfits : text.length + printed ret + 11 < MAX_PATH
    · obtain ⟨whole, hwhole, -⟩ :=
        wcscat_contains (wide " --end") happended hboth (by rw [hsum]; exact hfits)
      exact iff_of_true (by rw [hwhole]; rfl) hfits
    · have hbeyond :=
        wcscat_beyond (wide " --end") happended hboth (by rw [hsum]; exact Nat.not_lt.mp hfits)
      exact iff_of_false (by simp [hbeyond]) hfits
  · rw [wcscat_beyond _ hcontains htext (Nat.not_lt.mp hfirst)]
    refine iff_of_false (fun h => by cases h) fun hfits => hfirst ?_
    rw [hlength]
    omega

-- The whole line of a wait, with what it returns, fits or it does not.
theorem logWait_iff (htab : List (BitVec 32)) (ret : BitVec 32) :
    logWait htab ret = .ok () ↔ waitLength htab ret < MAX_PATH := by
  obtain ⟨line, hline⟩ : ∃ line, line =
    wide "wait objects count " ++ printWide (BitVec.ofNat 32 htab.length) ++ wide "." := ⟨_, rfl⟩
  have hlength : line.length = 20 + printed (BitVec.ofNat 32 htab.length) := by
    have hfirst : (wide "wait objects count ").length = 19 := by decide
    have hlast : (wide ".").length = 1 := by decide
    simp only [hline, List.length_append, hfirst, hlast, length_printed]
    omega
  have hnul : 0 ∉ line := by
    have hfirst : 0 ∉ wide "wait objects count " := by decide
    have hlast : 0 ∉ wide "." := by decide
    simp only [hline, List.mem_append, not_or]
    exact ⟨⟨hfirst, zero_notMem_printWide _⟩, hlast⟩
  have hshort : line.length < MAX_PATH := by
    have hnumber := length_printWide (BitVec.ofNat 32 htab.length)
    rw [length_printed] at hnumber
    rw [hlength, MAX_PATH]
    omega
  obtain ⟨buffer, hprint, hcontains⟩ := stprintf_contains line length_wLog hshort
  have hzeros : (List.replicate MAX_PATH (some (0 : UInt16))).length = MAX_PATH :=
    List.length_replicate
  rw [waitLength, logWait, ← hline, hprint]
  simp only [bind, Except.bind]
  by_cases hhandles : line.length + handlesLength 0 htab < MAX_PATH
  · obtain ⟨buffer', wHtab', hloop, hcontains', hsize⟩ :=
      logHandles_contains htab 0 hcontains hnul hzeros hhandles
    have hnul' : 0 ∉ line ++ handlesText 0 htab := by
      rw [List.mem_append, not_or]
      exact ⟨hnul, zero_notMem_handlesText 0 htab⟩
    have hsum : (line ++ handlesText 0 htab).length + printed ret + 11 =
        31 + printed (BitVec.ofNat 32 htab.length) + handlesLength 0 htab + printed ret := by
      rw [List.length_append, length_handlesText, hlength]
      omega
    rw [hloop]
    simp only
    rw [logReturn_iff hcontains' hnul' hsize, hsum]
  · rw [logHandles_beyond htab 0 hcontains hnul hzeros hshort (Nat.not_lt.mp hhandles)]
    refine iff_of_false (fun h => by cases h) fun hfits => hhandles ?_
    omega

-- The line of each wait of a pass fits.
def PassFits (htab rets : List (BitVec 32)) : Prop :=
  htab ≠ [] → htab.length ≤ MAXIMUM_WAIT_OBJECTS → ∀ ret ∈ rets, waitLength htab ret < MAX_PATH

theorem passLogs_iff (htab rets : List (BitVec 32)) :
    passLogs htab rets = .ok () ↔ PassFits htab rets := by
  induction rets with
  | nil => exact iff_of_true rfl fun _ _ _ h => by cases h
  | cons ret rets ih =>
      rw [passLogs]
      by_cases hlogs : htab = [] ∨ htab.length > MAXIMUM_WAIT_OBJECTS
      · rw [if_pos hlogs]
        refine iff_of_true rfl fun hne hcount => ?_
        obtain hnil | hmany := hlogs
        · exact absurd hnil hne
        · omega
      · rw [if_neg hlogs]
        obtain ⟨hne, hcount⟩ := not_or.mp hlogs
        have hfits : PassFits htab (ret :: rets) ↔
            waitLength htab ret < MAX_PATH ∧ PassFits htab rets := by
          simp only [PassFits, hne, Nat.not_lt.mp hcount, List.forall_mem_cons, ne_eq,
            not_false_eq_true, true_imp_iff]
        rw [hfits, ← ih, ← logWait_iff]
        cases logWait htab ret with
        | error fault => exact iff_of_false (fun h => by cases h) fun h => by cases h.1
        | ok _ => exact ⟨fun h => ⟨rfl, h⟩, fun h => h.2⟩

end Waits

section Logs

-- Everything that is formatted for a request and in a pass stays within its buffer if
-- and only if the text is short enough with all that is put around it.
theorem logs_hold_iff (page : CodePage) (st : Server) (id len : UInt32) (data : Bytes)
    (htab rets : List (BitVec 32)) :
    (requestLogs page st id len data = .ok () ↔ RequestFits page st data) ∧
      (passLogs htab rets = .ok () ↔ PassFits htab rets) :=
  ⟨requestLogs_iff page st id len data, passLogs_iff htab rets⟩

-- A code page of single bytes.
def ansi : CodePage where
  toWide := List.map wchar
  noNul := fun s hs h => by
    obtain ⟨c, hc, heq⟩ := List.mem_map.mp h
    exact hs (wchar_eq_zero.mp heq ▸ hc)

-- A request for a host service whose name is 240 bytes long.
def longRequest : Bytes := ascii "00f5host:" ++ List.replicate 240 97

theorem long_request_overruns : ¬ ∀ (page : CodePage) (st : Server) (id len : UInt32) (data : Bytes)
    (htab rets : List (BitVec 32)), htab.length ≤ MAXIMUM_WAIT_OBJECTS →
      requestLogs page st id len data = .ok () ∧ passLogs htab rets = .ok () := by
  intro h
  have hlogs := (h ansi serverInit 1 249 longRequest [] [] (by decide)).1
  have hfits := (requestLogs_iff ansi serverInit 1 249 longRequest).mp hlogs
  have htext : IsText (List.replicate 240 97) :=
    fun h => absurd (List.eq_of_mem_replicate h) (by decide)
  have hbody : IsText (ascii "host:" ++ List.replicate 240 97) :=
    isText_append.mpr ⟨by decide, htext⟩
  have hlength : longRequest.length = 245 + 4 := by
    rw [longRequest, List.length_append, List.length_replicate]
    rfl
  have hframe : frame longRequest = .complete (ascii "host:" ++ List.replicate 240 97) := by
    rw [WellFramed.frame ⟨245, rfl, by decide, by decide, hlength⟩]
    exact congrArg _ hbody.takeWhile_ne
  have hwidth := (hfits _ (List.replicate 240 97) .any none hframe rfl).1
  have hwide : ansi.toWide (List.replicate 240 97) = (List.replicate 240 97).map wchar := rfl
  rw [CodePage.width, CodePage.text, htext.takeWhile_ne, hwide, List.length_map,
    List.length_replicate] at hwidth
  omega

end Logs

end Adb.Host
