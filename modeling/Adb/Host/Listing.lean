import Adb.Host.Transports
import Adb.Lib.CString

namespace Adb.Host

open Adb.Lib
open Adb.Transport (ConnectionState TransportType)

-- list_transports prints behind a cursor. These are the bytes before it: a print
-- that does not fit returns -1, which takes the cursor back by one, and out of the
-- buffer if it is at the start.
def printAt (size : Nat) (line text : Bytes) : Except MemoryFault Bytes :=
  if text.length + line.length ≤ size then .ok (text ++ line)
  else if text = [] then .error .underrun
  else .ok text.dropLast

-- add_qual. prefix_len is set once the prefix is out, and read when the qualifier
-- is sanitized.
def addQual (size : Nat) (pre : String) (qual : Option Bytes) (sanitize : Bool) (text : Bytes) :
    Except MemoryFault Bytes :=
  if text.length = size ∨ qual.getD [] = [] then
    .ok text
  else if sanitize = true ∧ size < text.length + (ascii pre).length then
    .error .uninitialised
  else
    printAt size (ascii pre ++ (qual.getD []).map (sanitizeChar sanitize)) text

def serialOrNone (t : ATransport) : Bytes :=
  if t.serial.getD [] = [] then ascii "????????????" else t.serial.getD []

-- The conversion %-22s.
def padded (s : Bytes) : Bytes := s ++ List.replicate (22 - s.length) 32

def formatTransportAt (long : Bool) (size : Nat) (t : ATransport) (text : Bytes) :
    Except MemoryFault Bytes :=
  if long then do
    let text ← printAt size (padded (serialOrNone t) ++ [32] ++ ascii (stateName t.connectionState)) text
    let text ← addQual size " " t.devpath false text
    let text ← addQual size " product:" t.product false text
    let text ← addQual size " model:" t.model true text
    let text ← addQual size " device:" t.device false text
    printAt size [10] text
  else
    printAt size (serialOrNone t ++ [9] ++ ascii (stateName t.connectionState) ++ [10]) text

-- The last line is discarded where the buffer is too short for it.
def listTransports (long : Bool) (size : Nat) : List ATransport → Bytes → Except MemoryFault Bytes
  | [], text => .ok text
  | t :: ts, text => do
      let next ← formatTransportAt long size t text
      if next.length ≥ size then return next.take text.length
      else listTransports long size ts next

section Lengths

variable {size n : Nat} {line text : Bytes} {t : ATransport}

-- What becomes of the cursor. none: it leaves the buffer, or prefix_len is read
-- without having been set.
def advance (size len n : Nat) : Option Nat :=
  if n + len ≤ size then some (n + len) else if n = 0 then none else some (n - 1)

def qualAdvance (size pre qual : Nat) (sanitize : Bool) (n : Nat) : Option Nat :=
  if n = size ∨ qual = 0 then some n
  else if sanitize = true ∧ size < n + pre then none
  else advance size (pre + qual) n

def lineAdvance (long : Bool) (size : Nat) (t : ATransport) (n : Nat) : Option Nat :=
  let serial := (serialOrNone t).length
  let state := (ascii (stateName t.connectionState)).length
  if long then do
    let n ← advance size (max serial 22 + 1 + state) n
    let n ← qualAdvance size 1 (t.devpath.getD []).length false n
    let n ← qualAdvance size 9 (t.product.getD []).length false n
    let n ← qualAdvance size 7 (t.model.getD []).length true n
    let n ← qualAdvance size 8 (t.device.getD []).length false n
    advance size 1 n
  else
    advance size (serial + 1 + state + 1) n

-- Where the cursor ends up.
def listedLength (long : Bool) (size : Nat) : List ATransport → Nat → Option Nat
  | [], n => some n
  | t :: ts, n => do
      let next ← lineAdvance long size t n
      if next ≥ size then return n else listedLength long size ts next

-- A print, and how far it gets.
def Prints (x : Except MemoryFault Bytes) (n : Option Nat) : Prop :=
  match x with
  | .ok text => IsText text ∧ n = some text.length
  | .error _ => n = none

theorem Prints.bind {x : Except MemoryFault Bytes} {f : Bytes → Except MemoryFault Bytes} {k : Option Nat}
    {g : Nat → Option Nat} (hx : Prints x k) (hf : ∀ text, IsText text → Prints (f text) (g text.length)) :
    Prints (x >>= f) (k >>= g) := by
  cases x with
  | error e =>
      have hk : k = none := hx
      rw [hk]
      rfl
  | ok text =>
      obtain ⟨htext, hk⟩ := hx
      rw [hk]
      exact hf text htext

theorem printAt_prints (hline : IsText line) (htext : IsText text) :
    Prints (printAt size line text) (advance size line.length text.length) := by
  unfold printAt advance
  split
  · exact ⟨isText_append.mpr ⟨htext, hline⟩, by rw [List.length_append]⟩
  · by_cases hnil : text = []
    · rw [if_pos hnil, hnil]
      rfl
    · have hpos : text.length ≠ 0 := fun hz => hnil (List.eq_nil_of_length_eq_zero hz)
      rw [if_neg hnil, if_neg hpos]
      exact ⟨fun hm => htext ((List.dropLast_sublist text).mem hm), by rw [List.length_dropLast]⟩

theorem isText_sanitize {s : Bytes} (hs : IsText s) (sanitize : Bool) :
    IsText (s.map (sanitizeChar sanitize)) := by
  intro hm
  obtain ⟨c, hc, hzero⟩ := List.mem_map.mp hm
  unfold sanitizeChar at hzero
  split at hzero
  · cases hzero
  · exact hs (hzero ▸ hc)

theorem addQual_prints {pre : String} {qual : Option Bytes} (hpre : IsText (ascii pre))
    (hqual : ∀ q ∈ qual, IsText q) (sanitize : Bool) (htext : IsText text) :
    Prints (addQual size pre qual sanitize text)
      (qualAdvance size (ascii pre).length (qual.getD []).length sanitize text.length) := by
  have hzero : (qual.getD []).length = 0 ↔ qual.getD [] = [] := List.length_eq_zero_iff
  have hq : IsText (qual.getD []) := by
    cases qual with
    | none => exact isText_nil
    | some q => exact hqual q rfl
  unfold addQual qualAdvance
  simp only [hzero]
  split
  · exact ⟨htext, rfl⟩
  · split
    · rfl
    · have hline : IsText (ascii pre ++ (qual.getD []).map (sanitizeChar sanitize)) :=
        isText_append.mpr ⟨hpre, isText_sanitize hq sanitize⟩
      have hlen : (ascii pre ++ (qual.getD []).map (sanitizeChar sanitize)).length =
          (ascii pre).length + (qual.getD []).length := by
        rw [List.length_append, List.length_map]
      rw [← hlen]
      exact printAt_prints hline htext

-- The texts of a transport are strings of C.
structure ATransport.Texts (t : ATransport) : Prop where
  serial : ∀ s ∈ t.serial, IsText s
  product : ∀ s ∈ t.product, IsText s
  model : ∀ s ∈ t.model, IsText s
  device : ∀ s ∈ t.device, IsText s
  devpath : ∀ s ∈ t.devpath, IsText s

theorem isText_stateName (state : ConnectionState) : IsText (ascii (stateName state)) := by
  cases state <;> decide

theorem ATransport.Texts.isText_serial (h : t.Texts) : IsText (serialOrNone t) := by
  unfold serialOrNone
  split
  · decide
  · cases hs : t.serial with
    | none => exact isText_nil
    | some s => exact h.serial s hs

theorem formatTransportAt_prints (h : t.Texts) (long : Bool) (htext : IsText text) :
    Prints (formatTransportAt long size t text) (lineAdvance long size t text.length) := by
  have hserial := h.isText_serial
  have hstate := isText_stateName t.connectionState
  unfold formatTransportAt lineAdvance
  cases long with
  | true =>
      simp only [if_true]
      refine Prints.bind ?_ fun text htext => ?_
      · have hline : IsText (padded (serialOrNone t) ++ [32] ++ ascii (stateName t.connectionState)) := by
          refine isText_append.mpr ⟨isText_append.mpr ⟨isText_append.mpr ⟨hserial, ?_⟩, by decide⟩, hstate⟩
          simp [IsText]
        have hlen : (padded (serialOrNone t) ++ [32] ++ ascii (stateName t.connectionState)).length =
            max (serialOrNone t).length 22 + 1 + (ascii (stateName t.connectionState)).length := by
          simp only [padded, List.length_append, List.length_replicate, List.length_singleton]
          omega
        rw [← hlen]
        exact printAt_prints hline htext
      refine Prints.bind (addQual_prints (by decide) h.devpath false htext) fun text htext => ?_
      refine Prints.bind (addQual_prints (by decide) h.product false htext) fun text htext => ?_
      refine Prints.bind (addQual_prints (by decide) h.model true htext) fun text htext => ?_
      refine Prints.bind (addQual_prints (by decide) h.device false htext) fun text htext => ?_
      exact printAt_prints (by decide) htext
  | false =>
      have hline : IsText (serialOrNone t ++ [9] ++ ascii (stateName t.connectionState) ++ [10]) :=
        isText_append.mpr ⟨isText_append.mpr ⟨isText_append.mpr ⟨hserial, by decide⟩, hstate⟩, by decide⟩
      have hprint : Prints (printAt size (serialOrNone t ++ [9] ++ ascii (stateName t.connectionState) ++ [10]) text)
          _ := printAt_prints hline htext
      simp only [List.length_append, List.length_singleton] at hprint
      exact hprint

-- A loop over the transports prints the listing, as far as its cursor says.
theorem listTransports_prints {ts : List ATransport} (h : ∀ t ∈ ts, t.Texts) (long : Bool)
    (htext : IsText text) (hlen : text.length ≤ size) :
    Prints (listTransports long size ts text) (listedLength long size ts text.length) := by
  induction ts generalizing text with
  | nil => exact ⟨htext, rfl⟩
  | cons t ts ih =>
      have hline : Prints (formatTransportAt long size t text) (lineAdvance long size t text.length) :=
        formatTransportAt_prints (h t (by simp)) long htext
      unfold listTransports listedLength
      cases hnext : formatTransportAt long size t text with
      | error e =>
          rw [hnext] at hline
          have hnone : lineAdvance long size t text.length = none := hline
          rw [hnone]
          rfl
      | ok next =>
          rw [hnext] at hline
          obtain ⟨hisText, hsome⟩ := hline
          rw [hsome]
          show Prints (if next.length ≥ size then _ else _) (if next.length ≥ size then _ else _)
          split
          · refine ⟨hisText.take _, ?_⟩
            rw [List.length_take, Nat.min_eq_left (by omega)]
            rfl
          · exact ih (fun t ht => h t (List.mem_cons_of_mem _ ht)) hisText (by omega)

end Lengths

section Trackers

theorem formatTransport_eq (t : ATransport) :
    formatTransport t = serialOrNone t ++ [9] ++ ascii (stateName t.connectionState) ++ [10] := by
  unfold formatTransport serialOrNone
  cases t.serial with
  | none => rfl
  | some s => cases s <;> rfl

theorem formatTransportAt_short (size : Nat) (t : ATransport) (text : Bytes) :
    formatTransportAt false size t text = printAt size (formatTransport t) text := by
  rw [formatTransport_eq]
  rfl

-- A short listing that fits has every line.
theorem listTransports_fits {size : Nat} {ts : List ATransport} {text : Bytes}
    (h : (text ++ (ts.map formatTransport).flatten).length < size) :
    listTransports false size ts text = .ok (text ++ (ts.map formatTransport).flatten) := by
  induction ts generalizing text with
  | nil => rw [listTransports, List.map_nil, List.flatten_nil, List.append_nil]
  | cons t ts ih =>
      rw [List.map_cons, List.flatten_cons, ← List.append_assoc] at h ⊢
      have hline : (text ++ formatTransport t).length < size := by
        rw [List.length_append] at h
        omega
      have hfits : text.length + (formatTransport t).length ≤ size := by
        rw [List.length_append] at hline
        omega
      rw [listTransports, formatTransportAt_short, printAt, if_pos hfits]
      show (if (text ++ formatTransport t).length ≥ size then _ else _) = _
      rw [if_neg (by omega)]
      exact ih h

-- The short listing is the one that trackers are sent.
theorem listTransports_listLoop {size : Nat} (ts : List ATransport) {text : Bytes}
    (hlen : text.length ≤ size) :
    (listTransports false size ts text).toOption =
      (listLoop size (ts.map formatTransport) text).toOption := by
  induction ts generalizing text with
  | nil => rfl
  | cons t ts ih =>
      rw [listTransports, formatTransportAt_short, List.map_cons, listLoop, printAt]
      split
      · rename_i hfits
        show Except.toOption (if (text ++ formatTransport t).length ≥ size then _ else _) = _
        rw [List.length_append]
        split
        · rw [if_pos (by omega), List.take_left' rfl]
          rfl
        · rw [if_neg (by omega)]
          exact ih (by rw [List.length_append]; omega)
      · by_cases hnil : text = []
        · rw [if_pos hnil, if_pos hnil]
          rfl
        · have hpos := List.length_pos_iff.mpr hnil
          rw [if_neg hnil, if_neg hnil]
          show Except.toOption (if text.dropLast.length ≥ size then _ else _) = _
          rw [List.length_dropLast, if_neg (by omega)]
          exact ih (by rw [List.length_dropLast]; omega)

end Trackers

end Adb.Host
