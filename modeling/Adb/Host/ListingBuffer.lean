import Adb.Host.Listing
import Adb.Lib.Strtok

namespace Adb.Host

open Adb.Lib
open Adb.Transport (ConnectionState)

-- *buf += len. A cursor in front of the buffer is written through next, and not
-- followed any further.
def stepBy (p : Nat) (len : Int) : Except MemoryFault Nat :=
  if p + len < 0 then .error .underrun else .ok (p + len).toNat

-- snprintf at the cursor p, for what is left of the buffer there.
def snprintfAt (buffer : List Cell) (p : Nat) (line : Bytes) : List Cell × Int :=
  let (printed, len) := snprintf (buffer.drop p) (buffer.length - p) line
  (buffer.take p ++ printed, len)

def printInto (line : Bytes) (p : Nat) (buffer : List Cell) :
    Except MemoryFault (Nat × List Cell) := do
  let (buffer, len) := snprintfAt buffer p line
  let p ← stepBy p len
  return (p, buffer)

def sanitizeCells (i j : Nat) (buffer : List Cell) : List Cell :=
  buffer.mapIdx fun k cell => if i ≤ k ∧ k < j then cell.map (sanitizeChar true) else cell

-- From p + prefix_len to p + len. There is no prefix_len where the prefix did not fit.
def sanitizeQual (prefixLen : Nat) (p : Nat) (len : Int) (buffer : List Cell) :
    Except MemoryFault (List Cell) :=
  if buffer.length - p < prefixLen then .error .uninitialised
  else .ok (sanitizeCells (p + prefixLen) (p + len).toNat buffer)

def addQualInto (pre : String) (qual : Option Bytes) (sanitize : Bool) (p : Nat)
    (buffer : List Cell) :
    Except MemoryFault (Nat × List Cell) :=
  if buffer.length - p = 0 ∨ qual.getD [] = [] then
    .ok (p, buffer)
  else do
    let (buffer, len) := snprintfAt buffer p (ascii pre ++ qual.getD [])
    let buffer ← if sanitize then sanitizeQual (ascii pre).length p len buffer else .ok buffer
    let p ← stepBy p len
    return (p, buffer)

-- The prints of the long form, and where the last one ends.
def formatLongInto (t : ATransport) (p : Nat) (buffer : List Cell) :
    Except MemoryFault (Nat × List Cell) := do
  let (p, buffer) ← printInto
      (padded (serialOrNone t) ++ [32] ++ ascii (stateName t.connectionState)) p buffer
  let (p, buffer) ← addQualInto " " t.devpath false p buffer
  let (p, buffer) ← addQualInto " product:" t.product false p buffer
  let (p, buffer) ← addQualInto " model:" t.model true p buffer
  let (p, buffer) ← addQualInto " device:" t.device false p buffer
  printInto [10] p buffer

def formatTransportInto (long : Bool) (t : ATransport) (p : Nat) (buffer : List Cell) :
    Except MemoryFault (Int × List Cell) :=
  if long then do
    let (next, buffer) ← formatLongInto t p buffer
    return ((next : Int) - p, buffer)
  else
    let (buffer, len) := snprintfAt buffer p (formatTransport t)
    .ok (len, buffer)

def listTransportsLoop (long : Bool) :
    List ATransport → Nat → List Cell → Except MemoryFault (Nat × List Cell)
  | [], p, buffer => .ok (p, buffer)
  | t :: ts, p, buffer => do
      let (len, buffer) ← formatTransportInto long t p buffer
      if p + len ≥ buffer.length then
        return (p, buffer)
      else do
        let p ← stepBy p len
        listTransportsLoop long ts p buffer

-- list_transports into a buffer of memory: what it returns, and the buffer.
def listTransportsInto (long : Bool) (ts : List ATransport) (buffer : List Cell) :
    Except MemoryFault (Nat × List Cell) := do
  let (p, buffer) ← listTransportsLoop long ts 0 buffer
  let buffer ← storeNul buffer p
  return (p, buffer)

section Buffers

variable {size p i : Nat} {line text next : Bytes} {buffer rest : List Cell} {t : ATransport}

-- A buffer with a text before its cursor.
structure Before (size p : Nat) (text : Bytes) (buffer : List Cell) : Prop where
  length : buffer.length = size
  cursor : p = text.length
  written : text.map some <+: buffer

-- A step on the buffer, and the same step on the text before the cursor.
def Writes (size : Nat) (x : Except MemoryFault (Nat × List Cell))
    (y : Except MemoryFault Bytes) : Prop :=
  match y with
  | .ok text => ∃ p buffer, x = .ok (p, buffer) ∧ Before size p text buffer
  | .error e => x = .error e

theorem Writes.bind {x : Except MemoryFault (Nat × List Cell)} {y : Except MemoryFault Bytes}
    {f : Nat × List Cell → Except MemoryFault (Nat × List Cell)}
    {g : Bytes → Except MemoryFault Bytes}
    (hx : Writes size x y)
    (hf : ∀ p text buffer, Before size p text buffer → Writes size (f (p, buffer)) (g text)) :
    Writes size (x >>= f) (y >>= g) := by
  cases y with
  | error e =>
      have herror : x = .error e := hx
      rw [herror]
      rfl
  | ok text =>
      obtain ⟨p, buffer, hok, hbefore⟩ := hx
      rw [hok]
      exact hf p text buffer hbefore

-- Both sides of a print at a cursor: it goes where the text ends, as far as there
-- is room, and leaves what is before it.
theorem snprintfAt_fits (h : Before size p text buffer) (hfits : text.length + line.length ≤ size) :
    (snprintfAt buffer p line).2 = line.length ∧ (snprintfAt buffer p line).1.length = size ∧
      (text ++ line).map some <+: (snprintfAt buffer p line).1 := by
  obtain ⟨hlength, hcursor, rest, hrest⟩ := h
  subst hcursor
  have htake : buffer.take text.length = text.map some := by
    rw [← hrest, List.take_left' (List.length_map _)]
  have hdrop : (buffer.drop text.length).length = size - text.length := by
    rw [List.length_drop, hlength]
  unfold snprintfAt snprintf
  rw [htake, hlength]
  by_cases hroom : line.length < size - text.length
  · rw [if_pos hroom]
    refine ⟨rfl, ?_, ?_⟩
    · simp only [overwrite, List.length_append, List.length_map, List.length_drop,
        List.length_singleton, hlength]
      omega
    · simp only [overwrite, List.map_append]
      exact ⟨_, by simp only [List.append_assoc]; rfl⟩
  · have hfull : line.length = size - text.length := by omega
    rw [if_neg hroom, if_pos hfull]
    refine ⟨by simp only [hfull], ?_, ?_⟩
    · simp only [overwrite, List.length_append, List.length_map, List.length_drop, hlength]
      omega
    · simp only [overwrite, List.map_append]
      exact ⟨_, by simp only [List.append_assoc]; rfl⟩

theorem snprintfAt_cut (h : Before size p text buffer) (hlen : text.length ≤ size)
    (hcut : size < text.length + line.length) :
    (snprintfAt buffer p line).2 = -1 ∧ (snprintfAt buffer p line).1.length = size ∧
      text.map some <+: (snprintfAt buffer p line).1 := by
  obtain ⟨hlength, hcursor, rest, hrest⟩ := h
  subst hcursor
  have htake : buffer.take text.length = text.map some := by
    rw [← hrest, List.take_left' (List.length_map _)]
  unfold snprintfAt snprintf
  rw [htake, hlength, if_neg (by omega), if_neg (by omega)]
  refine ⟨rfl, ?_, List.prefix_append _ _⟩
  simp only [overwrite, List.length_append, List.length_map, List.length_drop,
    List.length_take, hlength]
  omega

theorem before_start (buffer : List Cell) : Before buffer.length 0 [] buffer :=
  ⟨rfl, rfl, List.nil_prefix⟩

theorem Before.length_le (h : Before size p text buffer) : text.length ≤ size := by
  have hle := h.written.length_le
  rw [List.length_map, h.length] at hle
  exact hle

theorem stepBy_length (n : Nat) : stepBy p n = .ok (p + n) := by
  rw [stepBy, if_neg (by omega)]
  congr 1

theorem stepBy_back (hp : p ≠ 0) : stepBy p (-1) = .ok (p - 1) := by
  rw [stepBy, if_neg (by omega)]
  congr 1
  omega

theorem stepBy_zero : stepBy 0 (-1) = .error .underrun := rfl

theorem Before.back (h : Before size p text buffer) : Before size (p - 1) text.dropLast buffer := by
  refine ⟨h.length, by rw [h.cursor, List.length_dropLast], ?_⟩
  rw [List.map_dropLast]
  exact (List.dropLast_prefix _).trans h.written

-- The cursor after a print, where the buffer may have been changed behind it.
theorem stepBy_writes {after : List Cell} {len : Int} (h : Before size p text buffer)
    (hlength : after.length = size)
    (hfits : text.length + line.length ≤ size → len = line.length ∧
      (text ++ line).map some <+: after)
    (hcut : size < text.length + line.length → len = -1 ∧ text.map some <+: after) :
    Writes size (do let p ← stepBy p len; return (p, after)) (printAt size line text) := by
  have hcursor := h.cursor
  unfold printAt
  split
  · rename_i hroom
    obtain ⟨hlen, hwritten⟩ := hfits hroom
    rw [hlen, stepBy_length]
    exact ⟨_, _, rfl, hlength, by rw [List.length_append, hcursor], hwritten⟩
  · rename_i hroom
    obtain ⟨hlen, hwritten⟩ := hcut (by omega)
    rw [hlen]
    by_cases hnil : text = []
    · have hzero : p = 0 := by rw [hcursor, hnil, List.length_nil]
      rw [if_pos hnil, hzero, stepBy_zero]
      rfl
    · have hpos := List.length_pos_iff.mpr hnil
      rw [if_neg hnil, stepBy_back (by omega)]
      have hafter : Before size p text after := ⟨hlength, hcursor, hwritten⟩
      exact ⟨_, _, rfl, hafter.back⟩

theorem length_snprintfAt (h : Before size p text buffer) :
    (snprintfAt buffer p line).1.length = size := by
  by_cases hroom : text.length + line.length ≤ size
  · exact (snprintfAt_fits h hroom).2.1
  · exact (snprintfAt_cut h h.length_le (by omega)).2.1

theorem printInto_writes (h : Before size p text buffer) :
    Writes size (printInto line p buffer) (printAt size line text) := by
  unfold printInto
  refine stepBy_writes h (length_snprintfAt h) (fun hroom => ?_) fun hcut => ?_
  · obtain ⟨hlen, -, hwritten⟩ := snprintfAt_fits h hroom
    exact ⟨hlen, hwritten⟩
  · obtain ⟨hlen, -, hwritten⟩ := snprintfAt_cut h h.length_le hcut
    exact ⟨hlen, hwritten⟩

theorem length_sanitizeCells (i j : Nat) : (sanitizeCells i j buffer).length = buffer.length := by
  rw [sanitizeCells, List.length_mapIdx]

-- The cells between the prefix and the cursor, and no others.
theorem sanitizeCells_append (pre mid rest : List Cell) :
    sanitizeCells pre.length (pre.length + mid.length) (pre ++ (mid ++ rest)) =
      pre ++ (mid.map (Option.map (sanitizeChar true)) ++ rest) := by
  apply List.ext_getElem?
  intro k
  rw [sanitizeCells, List.getElem?_mapIdx]
  by_cases hpre : k < pre.length
  · rw [List.getElem?_append_left hpre, List.getElem?_append_left hpre]
    simp [show ¬pre.length ≤ k by omega]
  have hle : pre.length ≤ k := by omega
  rw [List.getElem?_append_right hle, List.getElem?_append_right hle]
  by_cases hmid : k - pre.length < mid.length
  · rw [List.getElem?_append_left hmid, List.getElem?_append_left (by rw [List.length_map]; omega)]
    simp [show pre.length ≤ k ∧ k < pre.length + mid.length by omega]
  · have hbehind : mid.length ≤ k - pre.length := by omega
    rw [List.getElem?_append_right hbehind,
      List.getElem?_append_right (by rw [List.length_map]; omega), List.length_map]
    simp [show ¬(pre.length ≤ k ∧ k < pre.length + mid.length) by omega]

theorem sanitizeCells_none {i j : Nat} (hle : j ≤ i) : sanitizeCells i j buffer = buffer := by
  apply List.ext_getElem?
  intro k
  rw [sanitizeCells, List.getElem?_mapIdx]
  simp [show ¬(i ≤ k ∧ k < j) by omega]

-- The sanitized qualifier, where it is printed whole.
theorem sanitizeQual_fits {pre qual : Bytes} {after : List Cell} (h : Before size p text buffer)
    (hfits : text.length + (pre ++ qual).length ≤ size)
    (hafter : after = (snprintfAt buffer p (pre ++ qual)).1) :
    (text ++ (pre ++ qual.map (sanitizeChar true))).map some <+:
      sanitizeCells (p + pre.length) (p + (snprintfAt buffer p (pre ++ qual)).2).toNat after := by
  obtain ⟨hlen, -, rest, hrest⟩ := snprintfAt_fits h hfits
  have hstart : p + pre.length = ((text ++ pre).map some : List Cell).length := by
    rw [List.length_map, List.length_append, h.cursor]
  have hend : ((p : Int) + (pre ++ qual).length).toNat =
      ((text ++ pre).map some : List Cell).length + (qual.map some : List Cell).length := by
    rw [List.length_map, List.length_map, List.length_append, List.length_append, h.cursor]
    omega
  have hsplit : after = (text ++ pre).map some ++ (qual.map some ++ rest) := by
    rw [hafter, ← hrest]
    simp
  rw [hlen, hend, hstart, hsplit, sanitizeCells_append]
  refine ⟨rest, ?_⟩
  simp

theorem addQualInto_writes (h : Before size p text buffer) (pre : String) (qual : Option Bytes)
    (sanitize : Bool) :
    Writes size (addQualInto pre qual sanitize p buffer) (addQual size pre qual sanitize text) := by
  have hle := h.length_le
  have hcursor := h.cursor
  have hempty : buffer.length - p = 0 ↔ text.length = size := by
    rw [h.length, hcursor]
    omega
  unfold addQualInto addQual
  by_cases hskip : text.length = size ∨ qual.getD [] = []
  · rw [if_pos hskip, if_pos (by rw [hempty]; exact hskip)]
    exact ⟨p, buffer, rfl, h⟩
  rw [if_neg hskip, if_neg (by rw [hempty]; exact hskip)]
  cases sanitize with
  | false =>
      have hid : sanitizeChar false = id := by
        funext ch
        simp [sanitizeChar]
      have hsame : (qual.getD []).map (sanitizeChar false) = qual.getD [] := by
        rw [hid, List.map_id]
      rw [if_neg (by simp), hsame]
      exact printInto_writes h
  | true =>
      have hlength : (snprintfAt buffer p (ascii pre ++ qual.getD [])).1.length = size :=
        length_snprintfAt h
      by_cases hpre : size < text.length + (ascii pre).length
      · have hunset : (snprintfAt buffer p (ascii pre ++ qual.getD [])).1.length - p <
            (ascii pre).length := by
          rw [hlength, hcursor]
          omega
        rw [if_pos ⟨rfl, hpre⟩]
        simp only [if_true, sanitizeQual, if_pos hunset]
        rfl
      · have hset : ¬(snprintfAt buffer p (ascii pre ++ qual.getD [])).1.length - p <
            (ascii pre).length := by
          rw [hlength, hcursor]
          omega
        have hsame : (ascii pre ++ (qual.getD []).map (sanitizeChar true)).length =
            (ascii pre ++ qual.getD []).length := by
          rw [List.length_append, List.length_append, List.length_map]
        rw [if_neg (fun hunset => hpre hunset.2)]
        simp only [if_true, sanitizeQual, if_neg hset]
        refine stepBy_writes h (by rw [length_sanitizeCells, hlength]) (fun hroom => ?_) fun hcut =>
          ?_
        · rw [hsame] at hroom ⊢
          exact ⟨(snprintfAt_fits h hroom).1, sanitizeQual_fits h hroom rfl⟩
        · rw [hsame] at hcut
          obtain ⟨hlen, -, hwritten⟩ := snprintfAt_cut h hle hcut
          refine ⟨hlen, ?_⟩
          rw [hlen, sanitizeCells_none (by omega)]
          exact hwritten

-- A line and how long it is said to be. A short line that does not fit at the start
-- is only found out by the cursor.
def Formats (size p : Nat) (x : Except MemoryFault (Int × List Cell))
    (y : Except MemoryFault Bytes) : Prop :=
  match y with
  | .ok next => ∃ buffer, x = .ok ((next.length : Int) - p, buffer) ∧
      Before size next.length next buffer
  | .error e => x = .error e ∨ ∃ buffer, x = .ok (-1, buffer) ∧ p = 0 ∧ e = .underrun

theorem snprintfAt_formats (h : Before size p text buffer) :
    Formats size p (.ok ((snprintfAt buffer p line).2, (snprintfAt buffer p line).1))
      (printAt size line text) := by
  have hcursor := h.cursor
  unfold printAt
  split
  · rename_i hroom
    obtain ⟨hlen, hlength, hwritten⟩ := snprintfAt_fits h hroom
    have hsaid : ((text ++ line).length : Int) - p = line.length := by
      rw [List.length_append, hcursor]
      omega
    refine ⟨_, ?_, hlength, rfl, hwritten⟩
    rw [hlen, hsaid]
  · rename_i hroom
    have hcut : size < text.length + line.length := by omega
    obtain ⟨hlen, hlength, hwritten⟩ := snprintfAt_cut h h.length_le hcut
    by_cases hnil : text = []
    · rw [if_pos hnil]
      refine .inr ⟨(snprintfAt buffer p line).1, ?_, by rw [hcursor, hnil, List.length_nil], rfl⟩
      rw [hlen]
    · have hpos := List.length_pos_iff.mpr hnil
      have hsaid : (text.dropLast.length : Int) - p = -1 := by
        rw [List.length_dropLast, hcursor]
        omega
      have hafter : Before size p text (snprintfAt buffer p line).1 := ⟨hlength, hcursor, hwritten⟩
      rw [if_neg hnil]
      refine ⟨_, ?_, hlength, rfl, hafter.back.written⟩
      rw [hlen, hsaid]

-- The prints of a long line one after the other.
theorem formatLongInto_writes (h : Before size p text buffer) (t : ATransport) :
    Writes size (formatLongInto t p buffer) (formatTransportAt true size t text) :=
  (printInto_writes h).bind fun _ _ _ h =>
    (addQualInto_writes h " " t.devpath false).bind fun _ _ _ h =>
      (addQualInto_writes h " product:" t.product false).bind fun _ _ _ h =>
        (addQualInto_writes h " model:" t.model true).bind fun _ _ _ h =>
          (addQualInto_writes h " device:" t.device false).bind fun _ _ _ h => printInto_writes h

theorem formatTransportInto_formats (h : Before size p text buffer) (long : Bool) (t : ATransport) :
    Formats size p (formatTransportInto long t p buffer) (formatTransportAt long size t text) := by
  cases long with
  | false =>
      rw [formatTransportAt_short]
      exact snprintfAt_formats h
  | true =>
      have hwrites := formatLongInto_writes h t
      unfold formatTransportInto
      rw [if_pos rfl]
      cases hnext : formatTransportAt true size t text with
      | error e =>
          rw [hnext] at hwrites
          have herror : formatLongInto t p buffer = .error e := hwrites
          rw [herror]
          exact .inl rfl
      | ok next =>
          rw [hnext] at hwrites
          obtain ⟨q, after, hok, hbefore⟩ := hwrites
          have hcursor := hbefore.cursor
          subst hcursor
          rw [hok]
          exact ⟨after, rfl, hbefore⟩

theorem listTransportsLoop_writes (h : Before size p text buffer) (long : Bool)
    (ts : List ATransport) :
    Writes size (listTransportsLoop long ts p buffer) (listTransports long size ts text) := by
  induction ts generalizing p text buffer with
  | nil => exact ⟨p, buffer, rfl, h⟩
  | cons t ts ih =>
      have hformats := formatTransportInto_formats h long t
      have hcursor := h.cursor
      have hle := h.length_le
      unfold listTransportsLoop listTransports
      cases hnext : formatTransportAt long size t text with
      | error e =>
          rw [hnext] at hformats
          obtain herror | ⟨after, hok, hzero, hunder⟩ := hformats
          · rw [herror]
            rfl
          · rw [hok, hunder, hzero]
            show (if (_ : Int) ≥ _ then _ else _) = _
            rw [if_neg (by omega)]
            rfl
      | ok next =>
          rw [hnext] at hformats
          obtain ⟨after, hok, hbefore⟩ := hformats
          have hsum : (p : Int) + ((next.length : Int) - p) = (next.length : Nat) := by omega
          have hstep : stepBy p ((next.length : Int) - p) = .ok next.length := by
            rw [stepBy, hsum, if_neg (by omega)]
            rfl
          rw [hok]
          simp only [bind, Except.bind, hsum, hstep, hbefore.length, pure, Except.pure]
          by_cases hfull : next.length ≥ size
          · rw [if_pos hfull, if_pos (by omega)]
            refine ⟨p, after, rfl, hbefore.length, ?_, ?_⟩
            · rw [List.length_take]
              omega
            · exact ((List.take_prefix _ _).map some).trans hbefore.written
          · rw [if_neg hfull, if_neg (by omega)]
            exact ih hbefore

-- The cursor stays inside the buffer, so there is room for the NUL.
theorem length_listTransports_lt {long : Bool} {ts : List ATransport} (hlt : text.length < size)
    (hok : listTransports long size ts text = .ok next) : next.length < size := by
  induction ts generalizing text with
  | nil =>
      cases hok
      exact hlt
  | cons t ts ih =>
      unfold listTransports at hok
      cases hline : formatTransportAt long size t text with
      | error e =>
          rw [hline] at hok
          cases hok
      | ok line =>
          rw [hline] at hok
          replace hok : (if line.length ≥ size then .ok (line.take text.length)
            else listTransports long size ts line) = .ok next := hok
          split at hok
          · cases hok
            rw [List.length_take]
            omega
          · exact ih (by omega) hok

-- The listing in a buffer is the listing of the text, with a NUL behind it.
theorem listTransportsInto_ok (hsize : 1 ≤ buffer.length) {long : Bool} {ts : List ATransport}
    (hok : listTransports long buffer.length ts [] = .ok text) :
    ∃ rest, listTransportsInto long ts buffer = .ok (text.length, text.map some ++ some 0 :: rest) ∧
      text.length + 1 + rest.length = buffer.length := by
  have hstart : ([] : Bytes).length < buffer.length := hsize
  have hlt : text.length < buffer.length := length_listTransports_lt hstart hok
  have hwrites : Writes buffer.length (listTransportsLoop long ts 0 buffer)
      (listTransports long buffer.length ts []) :=
        listTransportsLoop_writes (before_start buffer) long ts
  rw [hok] at hwrites
  obtain ⟨p, after, hloop, hlength, hcursor, rest, hrest⟩ := hwrites
  subst hcursor
  rw [← hrest, List.length_append, List.length_map] at hlength
  cases rest with
  | nil =>
      rw [List.length_nil] at hlength
      omega
  | cons cell rest =>
      have hstore := storeNul_append (text.map some) cell rest
      rw [List.length_map] at hstore
      rw [List.length_cons] at hlength
      refine ⟨rest, ?_, by omega⟩
      unfold listTransportsInto
      rw [hloop, ← hrest]
      simp only [bind, Except.bind, hstore, pure, Except.pure]

theorem listTransportsInto_error {long : Bool} {ts : List ATransport} {e : MemoryFault}
    (herror : listTransports long buffer.length ts [] = .error e) :
    listTransportsInto long ts buffer = .error e := by
  have hwrites : Writes buffer.length (listTransportsLoop long ts 0 buffer)
      (listTransports long buffer.length ts []) :=
        listTransportsLoop_writes (before_start buffer) long ts
  rw [herror] at hwrites
  have hloop : listTransportsLoop long ts 0 buffer = .error e := hwrites
  rw [listTransportsInto, hloop]
  rfl

end Buffers

section Lines

variable {size room : Nat} {text line : Bytes} {lines : List Bytes} {t : ATransport}

def qualText (pre : String) (qual : Option Bytes) (sanitize : Bool) : Bytes :=
  if qual.getD [] = [] then [] else ascii pre ++ (qual.getD []).map (sanitizeChar sanitize)

-- The complete line of a transport.
def transportLine (long : Bool) (t : ATransport) : Bytes :=
  if long then
    padded (serialOrNone t) ++ [32] ++ ascii (stateName t.connectionState) ++
      (qualText " " t.devpath false ++ (qualText " product:" t.product false ++
        (qualText " model:" t.model true ++ (qualText " device:" t.device false ++ [10]))))
  else
    formatTransport t

-- The longest prefix of the lines that takes no more than the room.
def fitting : Nat → List Bytes → List Bytes
  | _, [] => []
  | room, line :: lines => if line.length ≤
      room then line :: fitting (room - line.length) lines else []

-- The first line that does not fit, if there is one, fills what is left of the
-- buffer to its last byte, so that all it has no room for is the NUL.
def FillsUp : Nat → List Bytes → Prop
  | _, [] => True
  | room, line :: lines =>
      if line.length ≤ room then FillsUp (room - line.length) lines else line.length = room + 1

instance FillsUp.decidable : ∀ room lines, Decidable (FillsUp room lines)
  | _, [] => inferInstanceAs (Decidable True)
  | room, line :: lines =>
      have := FillsUp.decidable (room - line.length) lines
      inferInstanceAs (Decidable (if line.length ≤ room then FillsUp (room - line.length) lines
        else line.length = room + 1))

-- They are what there is room for, and no prefix for which there is room is longer.
theorem isPrefix_fitting_iff {first : List Bytes} :
    first <+: fitting room lines ↔ first <+: lines ∧ first.flatten.length ≤ room := by
  induction lines generalizing first room with
  | nil =>
      rw [fitting, List.prefix_nil]
      constructor
      · intro hnil
        rw [hnil]
        exact ⟨rfl, Nat.zero_le _⟩
      · exact fun h => h.1
  | cons line lines ih =>
      cases first with
      | nil => simp
      | cons l first =>
          rw [fitting, List.cons_prefix_cons, List.flatten_cons, List.length_append]
          by_cases hroom : line.length ≤ room
          · rw [if_pos hroom, List.cons_prefix_cons, ih]
            constructor
            · rintro ⟨hline, hfirst, hlength⟩
              rw [hline]
              exact ⟨⟨rfl, hfirst⟩, by omega⟩
            · rintro ⟨⟨hline, hfirst⟩, hlength⟩
              rw [hline] at hlength
              exact ⟨hline, hfirst, by omega⟩
          · rw [if_neg hroom, List.prefix_nil]
            constructor
            · intro hnil
              cases hnil
            · rintro ⟨⟨hline, -⟩, hlength⟩
              rw [hline] at hlength
              omega

theorem addQual_whole {pre : String} {qual : Option Bytes} {sanitize : Bool}
    (hroom : (text ++ qualText pre qual sanitize).length ≤ size) :
    addQual size pre qual sanitize text = .ok (text ++ qualText pre qual sanitize) := by
  unfold qualText at hroom ⊢
  unfold addQual
  by_cases hempty : qual.getD [] = []
  · rw [if_pos (.inr hempty), if_pos hempty, List.append_nil]
  · rw [if_neg hempty] at hroom ⊢
    have hpos := List.length_pos_iff.mpr hempty
    simp only [List.length_append, List.length_map] at hroom
    have hroomy : ¬(text.length = size ∨ qual.getD [] = []) := by
      rintro (hfull | hnil)
      · omega
      · exact hempty hnil
    rw [if_neg hroomy, if_neg (by omega), printAt,
      if_pos (by simp only [List.length_append, List.length_map]; omega)]

theorem printAt_fits (hroom : (text ++ line).length ≤ size) :
    printAt size line text = .ok (text ++ line) := by
  rw [List.length_append] at hroom
  rw [printAt, if_pos hroom]

-- A line that fits is printed whole: every one of its parts fits.
theorem formatTransportAt_fits (long : Bool)
    (hroom : (text ++ transportLine long t).length ≤ size) :
    formatTransportAt long size t text = .ok (text ++ transportLine long t) := by
  cases long with
  | false =>
      rw [formatTransportAt_short]
      exact printAt_fits hroom
  | true =>
      unfold transportLine at hroom ⊢
      rw [if_pos rfl] at hroom ⊢
      rw [← List.append_assoc, ← List.append_assoc, ← List.append_assoc, ← List.append_assoc,
        ← List.append_assoc] at hroom ⊢
      have hle : ∀ {xs ys : Bytes}, (xs ++ ys).length ≤ size → xs.length ≤ size := by
        intro xs ys h
        rw [List.length_append] at h
        omega
      have hdevice := hle hroom
      have hmodel := hle hdevice
      have hproduct := hle hmodel
      have hdevpath := hle hproduct
      have hhead := hle hdevpath
      unfold formatTransportAt
      simp only [if_true, printAt_fits hhead, addQual_whole hdevpath, addQual_whole hproduct,
        addQual_whole hmodel, addQual_whole hdevice, printAt_fits hroom, bind, Except.bind]

-- So where only the last of the room is missing, the listing is what it should be.
theorem listTransports_fillsUp (long : Bool) {ts : List ATransport} (hlt : text.length < size)
    (h : FillsUp (size - 1 - text.length) (ts.map (transportLine long))) :
    listTransports long size ts text =
      .ok (text ++ (fitting (size - 1 - text.length) (ts.map (transportLine long))).flatten) := by
  induction ts generalizing text with
  | nil => rw [listTransports, List.map_nil, fitting, List.flatten_nil, List.append_nil]
  | cons t ts ih =>
      rw [List.map_cons, FillsUp] at h
      rw [List.map_cons, fitting]
      have hlength : (text ++ transportLine long t).length =
          text.length + (transportLine long t).length :=
        List.length_append
      by_cases hfits : (transportLine long t).length ≤ size - 1 - text.length
      · rw [if_pos hfits] at h ⊢
        have hroom : size - 1 - (text ++ transportLine long t).length =
            size - 1 - text.length - (transportLine long t).length := by omega
        have hnext : (text ++ transportLine long t).length < size := by omega
        rw [listTransports, formatTransportAt_fits long (by omega)]
        show (if (text ++ transportLine long t).length ≥ size then _ else _) = _
        rw [if_neg (by omega), ih hnext (by rw [hroom]; exact h), hroom, List.flatten_cons,
          List.append_assoc]
      · rw [if_neg hfits] at h ⊢
        rw [listTransports, formatTransportAt_fits long (by omega)]
        show (if (text ++ transportLine long t).length ≥ size then _ else _) = _
        rw [if_pos (by omega), List.take_left, List.flatten_nil, List.append_nil]
        rfl

theorem fitting_append {first : List Bytes} (hroom : first.flatten.length ≤ room) :
    fitting room (first ++ lines) = first ++ fitting (room - first.flatten.length) lines := by
  induction first generalizing room with
  | nil => rfl
  | cons line first ih =>
      rw [List.flatten_cons, List.length_append] at hroom ⊢
      rw [List.cons_append, fitting, if_pos (by omega), ih (by omega), Nat.sub_sub]
      rfl

theorem fillsUp_append {first : List Bytes} (hroom : first.flatten.length ≤ room) :
    FillsUp room (first ++ lines) ↔ FillsUp (room - first.flatten.length) lines := by
  induction first generalizing room with
  | nil => rfl
  | cons line first ih =>
      rw [List.flatten_cons, List.length_append] at hroom ⊢
      rw [List.cons_append, FillsUp, if_pos (by omega), ih (by omega), Nat.sub_sub]

-- A last line that is longer than the buffer has room for takes the cursor back.
theorem listTransports_cut {ts : List ATransport}
    (hfits : (text ++ (ts.map formatTransport).flatten).length < size)
    (hcut : size < (text ++ (ts.map formatTransport).flatten ++ formatTransport t).length) :
    listTransports false size (ts ++ [t]) text =
      if text ++ (ts.map formatTransport).flatten = [] then .error .underrun
      else .ok (text ++ (ts.map formatTransport).flatten).dropLast := by
  induction ts generalizing text with
  | nil =>
      simp only [List.map_nil, List.flatten_nil, List.append_nil, List.nil_append] at hfits hcut ⊢
      rw [List.length_append] at hcut
      rw [listTransports, formatTransportAt_short, printAt, if_neg (by omega)]
      split
      · rfl
      · show (if text.dropLast.length ≥ size then _ else _) = _
        rw [if_neg (by rw [List.length_dropLast]; omega)]
        rfl
  | cons u ts ih =>
      rw [List.map_cons, List.flatten_cons, ← List.append_assoc] at hfits hcut ⊢
      have hline : (text ++ formatTransport u).length < size := by
        rw [List.length_append] at hfits
        omega
      rw [List.cons_append, listTransports, formatTransportAt_short, printAt_fits (by omega)]
      show (if (text ++ formatTransport u).length ≥ size then _ else _) = _
      rw [if_neg (by omega)]
      exact ih hfits hcut

-- The listing as it is meant: inside the buffer, ended, of the length that is
-- returned, and all the lines there is room for.
def ListsWhole (long : Bool) (ts : List ATransport) (buffer : List Cell) : Prop :=
  let text := (fitting (buffer.length - 1) (ts.map (transportLine long))).flatten
  IsText text ∧ ∃ rest, listTransportsInto long ts buffer =
    .ok (text.length, text.map some ++ some 0 :: rest) ∧
    text.length + 1 + rest.length = buffer.length

theorem list_transports_whole {buffer : List Cell} (hsize : 1 ≤ buffer.length)
    {ts : List ATransport}
    (htexts : ∀ t ∈ ts, t.Texts) :
    (∀ long, FillsUp (buffer.length - 1) (ts.map (transportLine long)) →
      ListsWhole long ts buffer) ∧
      ((ts.dropLast.map (transportLine false)).flatten.length < buffer.length →
        ListsWhole false ts buffer →
        FillsUp (buffer.length - 1) (ts.map (transportLine false))) := by
  constructor
  · intro long hfills
    have hstart : ([] : Bytes).length < buffer.length := hsize
    have hlist := listTransports_fillsUp long hstart hfills
    have hprints := listTransports_prints htexts long isText_nil (Nat.le_of_lt hstart)
    rw [hlist] at hprints
    exact ⟨hprints.1, listTransportsInto_ok hsize hlist⟩
  · intro hinit hwhole
    obtain hnil | ⟨init, t, hconcat⟩ := List.eq_nil_or_concat ts
    · rw [hnil]
      trivial
    rw [List.concat_eq_append] at hconcat
    subst hconcat
    have hline : transportLine false = formatTransport := rfl
    rw [List.dropLast_concat, hline] at hinit
    rw [List.map_append, hline]
    by_contra hnot
    have hroom : (init.map formatTransport).flatten.length ≤ buffer.length - 1 := by omega
    rw [fillsUp_append hroom, List.map_singleton, FillsUp] at hnot
    obtain ⟨-, rest, hrun, -⟩ := hwhole
    rw [List.map_append, hline, fitting_append hroom, List.map_singleton, fitting] at hrun
    have hlong : ¬(formatTransport t).length ≤
        buffer.length - 1 - (init.map formatTransport).flatten.length := by
      intro hle
      rw [if_pos hle] at hnot
      exact hnot trivial
    rw [if_neg hlong] at hnot hrun
    rw [List.append_nil] at hrun
    have hfits : ([] ++ (init.map formatTransport).flatten).length < buffer.length := by
      rw [List.nil_append]
      exact hinit
    have hcut : buffer.length <
        ([] ++ (init.map formatTransport).flatten ++ formatTransport t).length := by
      rw [List.nil_append, List.length_append]
      omega
    have hlist := listTransports_cut hfits hcut
    rw [List.nil_append] at hlist
    split at hlist
    · rw [listTransportsInto_error hlist] at hrun
      cases hrun
    · rename_i hne
      have hpos := List.length_pos_iff.mpr hne
      obtain ⟨behind, hback, -⟩ := listTransportsInto_ok hsize hlist
      rw [hback] at hrun
      have hsame := congrArg Prod.fst (Except.ok.inj hrun)
      rw [List.length_dropLast] at hsame
      omega

def twoListed : List ATransport :=
  [(ascii "a", ConnectionState.device), (ascii "b", ConnectionState.recovery)].map
    fun (serial, state) =>
    { online := true, connectionState := state, type := .usb, adbPort := -1, serial := some serial,
      product := none, model := none, device := none, devpath := none, disconnects := [] }

theorem twoListed_texts : ∀ t ∈ twoListed, t.Texts := by
  intro t ht
  obtain ⟨⟨serial, state⟩, hmem, rfl⟩ := List.mem_map.mp ht
  have hserial : IsText serial := by
    simp only [List.mem_cons, Prod.mk.injEq, List.not_mem_nil, or_false] at hmem
    obtain ⟨hserial, -⟩ | ⟨hserial, -⟩ := hmem <;> rw [hserial] <;> decide
  constructor <;> simp [hserial]

-- The second line has no room for its NUL: it is left out.
theorem list_transports_whole_two : 1 ≤ (fresh 20).length ∧ ListsWhole false twoListed (fresh 20) :=
  have hsize : 1 ≤ (fresh 20).length := by decide
  ⟨hsize, (list_transports_whole hsize twoListed_texts).1 false (by decide)⟩

-- With four bytes less, the first line loses its end.
theorem list_transports_cuts :
    (∀ t ∈ twoListed, t.Texts) ∧ 1 ≤ (fresh 16).length ∧
      ¬ListsWhole false twoListed (fresh 16) := by
  refine ⟨twoListed_texts, by decide, fun hwhole => ?_⟩
  obtain ⟨-, rest, hrun, -⟩ := hwhole
  have hback : (listTransportsInto false twoListed (fresh 16)).map Prod.fst = .ok 8 := by decide
  have hwant : (fitting ((fresh 16).length - 1)
      (twoListed.map (transportLine false))).flatten.length = 9 := by
    decide
  rw [hrun] at hback
  have hlen := Except.ok.inj hback
  simp only [hwant] at hlen
  omega

end Lines

end Adb.Host
