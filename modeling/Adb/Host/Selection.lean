import Adb.Host.Listing
import Adb.Host.Packets
import Mathlib.Data.List.Perm.Basic

namespace Adb.Host

open Adb.Lib
open Adb.Transport (ConnectionState TransportType)

section Qualifiers

variable {pre qual rest token text : Bytes} {sanitize : Bool} {size : Nat}

-- The second loop of qual_match, a character of the qualifier a turn.
def qualLoop (sanitize : Bool) : Bytes → Bytes → Bool
  | [], rest => rest = []
  | _ :: _, [] => false
  | ch :: qual, c :: rest =>
      let ch := if sanitize && qualCharIsInvalid ch then 95 else ch
      if ch ≠ c then false else qualLoop sanitize qual rest

-- The loop of add_qual over what is printed, from *buf + prefix_len on.
def rewriteFrom : Nat → Bytes → Bytes
  | _, [] => []
  | 0, c :: printed => (if qualCharIsInvalid c then 95 else c) :: rewriteFrom 0 printed
  | prefixLen + 1, c :: printed => c :: rewriteFrom prefixLen printed

theorem qualLoop_eq (qual rest : Bytes) :
    qualLoop sanitize qual rest = decide (matchChars (qual.map (sanitizeChar sanitize)) rest = some []) := by
  induction qual generalizing rest with
  | nil => simp [qualLoop, matchChars]
  | cons ch qual ih =>
      cases rest with
      | nil => simp [qualLoop, matchChars]
      | cons c rest =>
          rw [qualLoop, List.map_cons, matchChars]
          show (if sanitizeChar sanitize ch ≠ c then false else _) = _
          by_cases hc : sanitizeChar sanitize ch = c
          · rw [if_neg (not_not_intro hc), if_pos hc, ih]
          · rw [if_pos hc, if_neg hc]
            rfl

-- Behind the prefix the two ways to sanitize come to the same.
theorem rewriteFrom_append (pre qual : Bytes) :
    rewriteFrom pre.length (pre ++ qual) = pre ++ qual.map (sanitizeChar true) := by
  induction pre with
  | nil =>
      induction qual with
      | nil => rfl
      | cons c qual ih =>
          rw [List.nil_append, List.nil_append] at ih ⊢
          rw [List.length_nil] at ih ⊢
          rw [rewriteFrom, ih, List.map_cons]
          rfl
  | cons c pre ih => rw [List.length_cons, List.cons_append, rewriteFrom, ih, List.cons_append]

theorem qualMatch_iff (htoken : token ≠ []) :
    qualMatch token pre (some qual) sanitize = true ↔
      token = pre ++ qual.map (sanitizeChar sanitize) := by
  rw [qualMatch, if_neg htoken]
  cases hm : matchChars pre token with
  | none =>
      have hno : ¬∃ rest, matchChars pre token = some rest := by simp [hm]
      refine iff_of_false (by simp) fun h => hno ⟨_, matchChars_iff.mpr h⟩
  | some rest =>
      obtain rfl := matchChars_iff.mp hm
      rw [decide_eq_true_iff, matchChars_iff, List.append_nil, List.append_cancel_left_eq]

theorem qualMatch_none (htoken : token ≠ []) : qualMatch token pre none sanitize = false := by
  rw [qualMatch, if_neg htoken]

-- What add_qual prints if there is room for it.
theorem addQual_fits {pre : String} (hqual : qual ≠ [])
    (hsize : text.length + (ascii pre).length + qual.length ≤ size) :
    addQual size pre (some qual) sanitize text =
      .ok (text ++ (ascii pre ++ qual.map (sanitizeChar sanitize))) := by
  have hpos : 0 < qual.length := List.length_pos_iff.mpr hqual
  have hcond : ¬(text.length = size ∨ (some qual).getD [] = []) := by
    rintro (h | h)
    · omega
    · exact hqual h
  have hroom : ¬(sanitize = true ∧ size < text.length + (ascii pre).length) := by omega
  rw [addQual, if_neg hcond, if_neg hroom, printAt, if_pos]
  · rfl
  · simp only [List.length_append, List.length_map, Option.getD_some]
    omega

end Qualifiers

section Agreement

-- The qualifiers that a long listing shows and a serial may name.
inductive Qualifier where
  | product
  | model
  | device

def Qualifier.pre : Qualifier → String
  | .product => "product:"
  | .model => "model:"
  | .device => "device:"

def Qualifier.sanitize : Qualifier → Bool
  | .model => true
  | _ => false

def Qualifier.value (t : ATransport) : Qualifier → Option Bytes
  | .product => t.product
  | .model => t.model
  | .device => t.device

theorem ascii_space (k : Qualifier) : ascii (" " ++ k.pre) = 32 :: ascii k.pre := by
  cases k <;> decide

theorem matchesSerial_iff {t : ATransport} {serial : Bytes} (hserial : serial ≠ []) :
    matchesSerial t serial = true ↔ t.serial = some serial ∨ t.devpath = some serial ∨
      ∃ k qual, Qualifier.value t k = some qual ∧
        serial = ascii k.pre ++ qual.map (sanitizeChar k.sanitize) := by
  have hqual : ∀ k : Qualifier,
      qualMatch serial (ascii k.pre) (k.value t) k.sanitize = true ↔
        ∃ qual, k.value t = some qual ∧
          serial = ascii k.pre ++ qual.map (sanitizeChar k.sanitize) := by
    intro k
    cases hv : k.value t with
    | none => simp [qualMatch_none hserial]
    | some qual => simp [qualMatch_iff hserial]
  have hproduct := hqual .product
  have hmodel := hqual .model
  have hdevice := hqual .device
  simp only [Qualifier.pre, Qualifier.sanitize, Qualifier.value] at hproduct hmodel hdevice
  simp only [matchesSerial, Bool.or_eq_true, decide_eq_true_eq, or_assoc, hproduct, hmodel, hdevice]
  refine or_congr_right (or_congr_right ?_)
  constructor
  · rintro (h | h | h)
    · exact ⟨.product, h⟩
    · exact ⟨.model, h⟩
    · exact ⟨.device, h⟩
  · rintro ⟨k, h⟩
    cases k with
    | product => exact .inl h
    | model => exact .inr (.inl h)
    | device => exact .inr (.inr h)

-- What qual_match accepts is what add_qual prints, so that a token of a long
-- listing names the transport that it was printed for.
theorem listing_and_matching_agree (k : Qualifier) (sanitize : Bool) (qual token text : Bytes)
    (size : Nat) (hqual : qual ≠ []) (htoken : token ≠ [])
    (hsize : text.length + 1 + (ascii k.pre).length + qual.length ≤ size) :
    (qualMatch token (ascii k.pre) (some qual) sanitize = true ↔
      addQual size (" " ++ k.pre) (some qual) sanitize text = .ok (text ++ 32 :: token)) ∧
    ∀ t : ATransport, k.value t = some qual →
      addQual size (" " ++ k.pre) (k.value t) k.sanitize text = .ok (text ++ 32 :: token) →
        matchesSerial t token = true := by
  have hprint : ∀ sanitize, addQual size (" " ++ k.pre) (some qual) sanitize text =
      .ok (text ++ 32 :: (ascii k.pre ++ qual.map (sanitizeChar sanitize))) := by
    intro sanitize
    rw [addQual_fits hqual, ascii_space, List.cons_append]
    rw [ascii_space, List.length_cons]
    omega
  have hok : ∀ {a b : Bytes}, (Except.ok a : Except MemoryFault Bytes) = .ok b ↔ a = b := by simp
  refine ⟨?_, ?_⟩
  · rw [qualMatch_iff htoken, hprint, hok, List.append_cancel_left_eq, List.cons.injEq]
    simp [eq_comm]
  · intro t hv hp
    rw [hv, hprint, hok, List.append_cancel_left_eq, List.cons.injEq] at hp
    exact (matchesSerial_iff htoken).mpr (.inr (.inr ⟨k, qual, hv, hp.2.symm⟩))

theorem listing_of_a_model :
    qualMatch (ascii "model:Nexus_7") (ascii "model:") (some (ascii "Nexus 7")) true = true ∧
      matchesSerial { newTransport .usb 0 none none true with model := some (ascii "Nexus 7") }
        (ascii "model:Nexus_7") = true := by
  obtain ⟨hmatch, hserial⟩ := listing_and_matching_agree .model true (ascii "Nexus 7")
    (ascii "model:Nexus_7") [] 64 (by decide) (by decide) (by decide)
  exact ⟨hmatch.mpr rfl, hserial _ rfl rfl⟩

end Agreement

section Selection

-- What names a transport: with a serial its serial, its devpath or one of its
-- qualifiers, and with the empty one a text that is missing; without a serial
-- the type.
def Matches (t : ATransport) (ttype : TransportType) (serial : Option Bytes) : Prop :=
  match serial with
  | some [] => t.serial = some [] ∨ t.devpath = some [] ∨
      ∃ k, (Qualifier.value t k).getD [] = []
  | some serial => t.serial = some serial ∨ t.devpath = some serial ∨
      ∃ k qual, Qualifier.value t k = some qual ∧
        serial = ascii k.pre ++ qual.map (sanitizeChar k.sanitize)
  | none => ttype = .any ∨ (ttype = t.type ∧ (ttype = .usb ∨ ttype = .loopback))

-- The one transport with permissions that a relation picks, if it is not offline.
structure Selects (picks : ATransport → Prop) (st : Server) (t : Nat) : Prop where
  listed : t ∈ st.transportList
  picked : ∃ transport, st.transports t = some transport ∧ picks transport ∧
    transport.connectionState ≠ .noPerm ∧ transport.connectionState ≠ .offline
  alone : ∀ u ∈ st.transportList, ∀ transport, st.transports u = some transport →
    picks transport → transport.connectionState ≠ .noPerm → u = t

-- Each node of transport_list is there once and is a transport.
structure Server.Listed (st : Server) : Prop where
  nodup : st.transportList.Nodup
  live : ∀ t ∈ st.transportList, (st.transports t).isSome

-- What the loop of acquire_one_transport counts.
def eligible (ttype : TransportType) (serial : Option Bytes) (t : ATransport) : Bool :=
  decide (t.connectionState ≠ .noPerm) && (candidate t ttype serial).isSome

def eligibleAt (st : Server) (ttype : TransportType) (serial : Option Bytes) (t : Nat) : Bool :=
  (st.transports t).any (eligible ttype serial)

-- The element of a list that has just one.
def only : List Nat → Option Nat
  | [t] => some t
  | _ => none

variable {st : Server} {ttype : TransportType} {serial : Option Bytes} {ts : List Nat} {t : Nat}

theorem only_eq_some : only ts = some t ↔ ts = [t] := by
  constructor
  · intro h
    unfold only at h
    split at h
    · rw [Option.some.inj h]
    · cases h
  · rintro rfl
    rfl

theorem only_perm {us : List Nat} (h : ts.Perm us) : only ts = only us := by
  apply Option.ext
  intro t
  have hsingle : ts = [t] ↔ us = [t] :=
    ⟨fun ht => List.perm_singleton.mp (ht ▸ h).symm, fun hu => List.perm_singleton.mp (hu ▸ h)⟩
  simpa only [only_eq_some] using hsingle

theorem matchesSerial_nil (t : ATransport) : matchesSerial t [] = true ↔
    t.serial = some [] ∨ t.devpath = some [] ∨ ∃ k, (Qualifier.value t k).getD [] = [] := by
  simp only [matchesSerial, qualMatch, if_true, Bool.or_eq_true, decide_eq_true_eq, or_assoc]
  refine or_congr_right (or_congr_right ?_)
  constructor
  · rintro (h | h | h)
    · exact ⟨.product, h⟩
    · exact ⟨.model, h⟩
    · exact ⟨.device, h⟩
  · rintro ⟨k, h⟩
    cases k with
    | product => exact .inl h
    | model => exact .inr (.inl h)
    | device => exact .inr (.inr h)

theorem candidate_iff (t : ATransport) : (candidate t ttype serial).isSome = true ↔ Matches t ttype serial := by
  cases serial with
  | none =>
      simp only [candidate, Matches]
      cases ttype <;> cases t.type <;> simp
  | some serial =>
      have hsome : (candidate t ttype (some serial)).isSome = true ↔ matchesSerial t serial = true := by
        by_cases hm : matchesSerial t serial = true <;> simp [candidate, hm]
      rw [hsome]
      cases serial with
      | nil => exact matchesSerial_nil t
      | cons c serial => exact matchesSerial_iff (List.cons_ne_nil c serial)

-- A second candidate ends the loop, so it finds the one that there is.
theorem acquireLoop_only (hlive : ∀ t ∈ ts, (st.transports t).isSome) (result : Option Nat)
    (error : String) : ∃ error', acquireLoop st ttype serial ts result error =
      .ok (only (result.toList ++ ts.filter (eligibleAt st ttype serial)), error') := by
  induction ts generalizing result error with
  | nil =>
      refine ⟨error, ?_⟩
      cases result <;> rfl
  | cons t ts ih =>
      obtain ⟨transport, ht⟩ := Option.isSome_iff_exists.mp (hlive t (List.mem_cons_self ..))
      have htail := fun result error => @ih (fun u hu => hlive u (List.mem_cons_of_mem _ hu)) result error
      have hderef : st.derefTransport t = .ok transport := by rw [Server.derefTransport, ht]
      have hat : eligibleAt st ttype serial t = eligible ttype serial transport := by
        rw [eligibleAt, ht, Option.any_some]
      unfold acquireLoop
      simp only [hderef, bind, Except.bind]
      by_cases hperm : transport.connectionState = .noPerm
      · have hno : eligible ttype serial transport = false := by simp [eligible, hperm]
        rw [if_pos hperm, List.filter_cons_of_neg (by rw [hat, hno]; decide)]
        exact htail _ _
      · rw [if_neg hperm]
        cases hc : candidate transport ttype serial with
        | none =>
            have hno : eligible ttype serial transport = false := by simp [eligible, hc]
            rw [List.filter_cons_of_neg (by rw [hat, hno]; decide)]
            exact htail _ _
        | some ambiguous =>
            have hyes : eligible ttype serial transport = true := by simp [eligible, hc, hperm]
            rw [List.filter_cons_of_pos (by rw [hat, hyes])]
            cases result with
            | some old => exact ⟨ambiguous, rfl⟩
            | none => exact htail (some t) _

-- The result, and which of the two results is a null pointer.
theorem acquireOneTransport_only (h : st.Listed) : ∃ error,
    acquireOneTransport st ttype serial =
      .ok ((only (st.transportList.filter (eligibleAt st ttype serial))).filter fun t =>
        (st.transports t).any (·.connectionState ≠ .offline), error) ∧
    (error = none ↔ ∃ t, (only (st.transportList.filter (eligibleAt st ttype serial))).filter
      (fun t => (st.transports t).any (·.connectionState ≠ .offline)) = some t) := by
  obtain ⟨error, hloop⟩ := @acquireLoop_only st ttype serial _ h.live none "device not found"
  rw [Option.toList_none, List.nil_append] at hloop
  unfold acquireOneTransport
  simp only [hloop, bind, Except.bind]
  cases ho : only (st.transportList.filter (eligibleAt st ttype serial)) with
  | none => exact ⟨some error, rfl, by simp⟩
  | some t =>
      have hmem : t ∈ st.transportList := by
        have hin : t ∈ st.transportList.filter (eligibleAt st ttype serial) := by
          rw [only_eq_some.mp ho]
          exact List.mem_singleton_self t
        exact List.mem_of_mem_filter hin
      obtain ⟨transport, ht⟩ := Option.isSome_iff_exists.mp (h.live t hmem)
      simp only [Server.derefTransport, ht]
      by_cases hoff : transport.connectionState = .offline
      · exact ⟨some "device offline", by simp [hoff, ht, Option.filter]; rfl, by simp [hoff, ht, Option.filter]⟩
      · exact ⟨none, by simp [hoff, ht, Option.filter]; rfl, by simp [hoff, ht, Option.filter]⟩

theorem filter_eq_singleton {p : Nat → Bool} (h : ts.Nodup) :
    ts.filter p = [t] ↔ t ∈ ts ∧ p t = true ∧ ∀ u ∈ ts, p u = true → u = t := by
  constructor
  · intro hf
    have hiff : ∀ u, u ∈ ts ∧ p u = true ↔ u = t := by
      intro u
      rw [← List.mem_filter, hf, List.mem_singleton]
    exact ⟨((hiff t).mpr rfl).1, ((hiff t).mpr rfl).2, fun u hu hp => (hiff u).mp ⟨hu, hp⟩⟩
  · rintro ⟨hmem, hp, hall⟩
    apply List.perm_singleton.mp
    apply (List.perm_ext_iff_of_nodup (h.filter p) (List.nodup_singleton t)).mpr
    intro u
    rw [List.mem_filter, List.mem_singleton]
    constructor
    · rintro ⟨hu, hpu⟩
      exact hall u hu hpu
    · rintro rfl
      exact ⟨hmem, hp⟩

theorem selects_iff (h : st.Listed) :
    (only (st.transportList.filter (eligibleAt st ttype serial))).filter
      (fun t => (st.transports t).any (·.connectionState ≠ .offline)) = some t ↔
    Selects (Matches · ttype serial) st t := by
  have heligible : ∀ u transport, st.transports u = some transport →
      (eligibleAt st ttype serial u = true ↔
        Matches transport ttype serial ∧ transport.connectionState ≠ .noPerm) := by
    intro u transport hu
    rw [eligibleAt, hu, Option.any_some, eligible, Bool.and_eq_true, candidate_iff, decide_eq_true_iff,
      and_comm]
  rw [Option.filter_eq_some_iff, only_eq_some, filter_eq_singleton h.nodup]
  constructor
  · rintro ⟨⟨hmem, he, hall⟩, hon⟩
    obtain ⟨transport, ht⟩ := Option.isSome_iff_exists.mp (h.live t hmem)
    obtain ⟨hmatch, hperm⟩ := (heligible t transport ht).mp he
    rw [ht, Option.any_some, decide_eq_true_iff] at hon
    refine ⟨hmem, ⟨transport, ht, hmatch, hperm, hon⟩, ?_⟩
    intro u hu other hother hmatch hperm
    exact hall u hu ((heligible u other hother).mpr ⟨hmatch, hperm⟩)
  · rintro ⟨hmem, ⟨transport, ht, hmatch, hperm, hon⟩, halone⟩
    refine ⟨⟨hmem, (heligible t transport ht).mpr ⟨hmatch, hperm⟩, ?_⟩, ?_⟩
    · intro u hu he
      obtain ⟨other, hother⟩ := Option.isSome_iff_exists.mp (h.live u hu)
      obtain ⟨hmatch, hperm⟩ := (heligible u other hother).mp he
      exact halone u hu other hother hmatch hperm
    · rw [ht, Option.any_some, decide_eq_true_iff]
      exact hon

-- acquire_one_transport returns the one transport that matches, whatever the order
-- of the list, and an error just when it returns none.
theorem acquire_one_transport_selects (st : Server) (h : st.Listed) (ttype : TransportType)
    (serial : Option Bytes) : ∃ found error,
    acquireOneTransport st ttype serial = .ok (found, error) ∧
    (∀ t, found = some t ↔ Selects (Matches · ttype serial) st t) ∧
    (found = none ↔ ∃ message, error = some message) ∧
    ∀ order, order.Perm st.transportList → ∃ error',
      acquireOneTransport { st with transportList := order } ttype serial = .ok (found, error') := by
  obtain ⟨error, hacquire, hnone⟩ := @acquireOneTransport_only st ttype serial h
  refine ⟨_, error, hacquire, fun t => selects_iff h, ?_, ?_⟩
  · rw [← Option.not_isSome_iff_eq_none, Option.isSome_iff_exists, ← hnone]
    cases error <;> simp
  · intro order hperm
    have hlisted : Server.Listed { st with transportList := order } :=
      ⟨hperm.nodup_iff.mpr h.nodup, fun t ht => h.live t (hperm.mem_iff.mp ht)⟩
    obtain ⟨error', hother, -⟩ := @acquireOneTransport_only _ ttype serial hlisted
    refine ⟨error', ?_⟩
    rw [hother]
    have hsame : only (order.filter (eligibleAt st ttype serial)) =
        only (st.transportList.filter (eligibleAt st ttype serial)) := only_perm (hperm.filter _)
    show Except.ok ((only (order.filter (eligibleAt st ttype serial))).filter _, error') = _
    rw [hsame]

-- A device whose banner has named its product only.
def tiger : ATransport :=
  { newTransport .usb 0 (some (ascii "0123")) none true with
    connectionState := .device, product := some (ascii "tiger") }

def oneDevice : Server :=
  { serverInit with transports := Function.update (fun _ => none) 0 (some tiger), transportList := [0] }

theorem product_selects :
    Selects (Matches · .any (some (ascii "product:tiger"))) oneDevice 0 := by
  obtain ⟨found, error, hacquire, hselects, -⟩ := acquire_one_transport_selects oneDevice
    ⟨by decide, by decide⟩ .any (some (ascii "product:tiger"))
  have hfound : acquireOneTransport oneDevice .any (some (ascii "product:tiger")) =
      .ok (some 0, none) := rfl
  rw [hfound, Except.ok.injEq, Prod.mk.injEq] at hacquire
  exact (hselects 0).mp hacquire.1.symm

-- A qualifier that is there counts only if it is not empty, and one that is
-- missing never does.
def MatchesByText (t : ATransport) (ttype : TransportType) (serial : Option Bytes) : Prop :=
  match serial with
  | some serial => t.serial = some serial ∨ t.devpath = some serial ∨
      ∃ k qual, Qualifier.value t k = some qual ∧ qual ≠ [] ∧
        serial = ascii k.pre ++ qual.map (sanitizeChar k.sanitize)
  | none => ttype = .any ∨ (ttype = t.type ∧ (ttype = .usb ∨ ttype = .loopback))

theorem empty_serial_selects :
    acquireOneTransport oneDevice .any (some []) = .ok (some 0, none) ∧
      ¬Selects (MatchesByText · .any (some [])) oneDevice 0 := by
  refine ⟨rfl, fun h => ?_⟩
  obtain ⟨transport, ht, hmatch, -⟩ := h.picked
  obtain rfl : tiger = transport := Option.some.inj ht
  obtain hserial | hdevpath | ⟨k, qual, -, hqual, htext⟩ := hmatch
  · cases hserial
  · cases hdevpath
  · apply hqual
    exact List.map_eq_nil_iff.mp (List.append_eq_nil_iff.mp htext.symm).2

end Selection

end Adb.Host
