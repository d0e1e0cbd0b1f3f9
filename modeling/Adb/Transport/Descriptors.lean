import Adb.Transport.Handles
import Adb.Lib.Ensures

namespace Adb.Transport

open Adb.Lib
open Adb.Sysdeps (WIN32_FH_BASE WIN32_MAX_FHS)

variable {st mid after : Handles} {reg : Registry} {t u n : Nat} {d e : Descriptor} {record : ATransport}

-- The slot of a descriptor is still the transport's own.
def Held (st : Handles) (t : Nat) (d : Descriptor) : Prop :=
  ∃ n, holder st.table n = some (.transport t d)

def timesClosed (st : Handles) (t : Nat) (d : Descriptor) : Nat :=
  st.closes.countP fun c => c.transport = t ∧ c.descriptor = d

section Tally

-- What has been opened is held or has been closed once, by its owner.
structure Tallied (st : Handles) : Prop where
  fields : ∀ n t d, holder st.table n = some (.transport t d) → st.fields t d = n + WIN32_FH_BASE
  own : ∀ c ∈ st.closes, c.hit = some (.transport c.transport c.descriptor)
  opened : ∀ t d, (t, d) ∈ st.opened →
    (Held st t d ∧ timesClosed st t d = 0) ∨ (¬Held st t d ∧ timesClosed st t d = 1)
  unopened : ∀ t d, (t, d) ∉ st.opened → ¬Held st t d ∧ timesClosed st t d = 0

theorem fhFromInt_held (h : holder st.table n = some (.transport t d)) :
    fhFromInt st.table (n + WIN32_FH_BASE) = some n := by
  have hlt := holder_lt h
  have hn : (n : Int) + WIN32_FH_BASE - WIN32_FH_BASE = n := by omega
  simp only [fhFromInt, hn, Int.toNat_natCast, h, Option.isSome_some, and_true]
  rw [if_pos ⟨by omega, hlt⟩]

-- One descriptor is closed, if c holds, and nothing else.
structure Closes (st : Handles) (t : Nat) (d : Descriptor) (c : Prop) (after : Handles) : Prop where
  tallied : Tallied after
  held : ∀ u e, Held after u e ↔ Held st u e ∧ ¬(c ∧ u = t ∧ e = d)
  registry : after.registry = st.registry
  kicks : after.kicks = st.kicks
  opened : after.opened = st.opened

theorem closes_of_table (h : Tallied st) (hn : holder st.table n = some (.transport t d))
    (htable : after.table = freeSlot st.table n)
    (hfields : ∀ u e, ¬(u = t ∧ e = d) → after.fields u e = st.fields u e)
    (hcloses : after.closes = st.closes ++ [⟨t, d, some (.transport t d)⟩])
    (hopened : after.opened = st.opened) (hregistry : after.registry = st.registry)
    (hkicks : after.kicks = st.kicks) : Closes st t d True after := by
  have hself : Held st t d := ⟨n, hn⟩
  -- a descriptor has one slot at most
  have hheld : ∀ u e, Held after u e ↔ Held st u e ∧ ¬(u = t ∧ e = d) := by
    intro u e
    constructor
    · rintro ⟨m, hm⟩
      rw [htable, freeSlot_spec hn] at hm
      by_cases hmn : m = n
      · rw [if_pos hmn] at hm
        cases hm
      · rw [if_neg hmn] at hm
        refine ⟨⟨m, hm⟩, ?_⟩
        rintro ⟨rfl, rfl⟩
        have hfirst := h.fields m u e hm
        have hsecond := h.fields n u e hn
        omega
    · rintro ⟨⟨m, hm⟩, hne⟩
      refine ⟨m, ?_⟩
      rw [htable, freeSlot_spec hn, if_neg, hm]
      rintro rfl
      rw [hn] at hm
      cases hm
      exact hne ⟨rfl, rfl⟩
  have htimes : ∀ u e, timesClosed after u e =
      timesClosed st u e + if t = u ∧ d = e then 1 else 0 := by
    intro u e
    simp [timesClosed, hcloses, List.countP_append, List.countP_cons]
  refine ⟨⟨?_, ?_, ?_, ?_⟩, by simpa using hheld, hregistry, hkicks, hopened⟩
  · intro m u e hm
    have hleft := ((hheld u e).mp ⟨m, hm⟩).2
    rw [hfields u e hleft]
    rw [htable, freeSlot_spec hn] at hm
    split at hm
    · cases hm
    · exact h.fields m u e hm
  · intro c hc
    rw [hcloses] at hc
    rcases List.mem_append.mp hc with hc | hc
    · exact h.own c hc
    · rw [List.mem_singleton.mp hc]
  · intro u e hue
    rw [hopened] at hue
    rw [hheld, htimes]
    by_cases hsame : u = t ∧ e = d
    · obtain ⟨rfl, rfl⟩ := hsame
      refine Or.inr ⟨by simp, ?_⟩
      rcases h.opened u e hue with ⟨-, hzero⟩ | ⟨hnot, -⟩
      · simp [hzero]
      · exact absurd hself hnot
    · have hother : ¬(t = u ∧ d = e) := fun heq => hsame ⟨heq.1.symm, heq.2.symm⟩
      rw [if_neg hother, Nat.add_zero]
      exact (h.opened u e hue).imp (fun hl => ⟨⟨hl.1, hsame⟩, hl.2⟩) fun hr => ⟨fun hl => hr.1 hl.1, hr.2⟩
  · intro u e hue
    rw [hopened] at hue
    obtain ⟨hnot, hzero⟩ := h.unopened u e hue
    rw [hheld, htimes, if_neg]
    · exact ⟨fun hl => hnot hl.1, by omega⟩
    · rintro ⟨rfl, rfl⟩
      exact hnot hself

theorem adbClose_closes (h : Tallied st) (hheld : Held st t d) :
    Closes st t d True (st.adbClose t d (st.fields t d)) := by
  obtain ⟨n, hn⟩ := hheld
  have hslot : fhFromInt st.table (st.fields t d) = some n := by
    rw [h.fields n t d hn]
    exact fhFromInt_held hn
  unfold Handles.adbClose
  rw [hslot]
  exact closes_of_table h hn rfl (fun _ _ _ => rfl) (by simp [hn]) rfl rfl rfl

theorem remoteKick_closes (h : Tallied st) (hheld : Held st t .sfd) :
    Closes st t .sfd True (st.remoteKick t) := by
  obtain ⟨n, hn⟩ := hheld
  have hslot : fhFromInt (st.setField t .sfd (-1)).table (st.fields t .sfd) = some n := by
    rw [h.fields n t .sfd hn]
    exact fhFromInt_held hn
  unfold Handles.remoteKick Handles.adbClose
  rw [hslot]
  refine closes_of_table h hn rfl ?_ (by simp [Handles.setField, hn]) rfl rfl rfl
  intro u e hne
  simp only [Handles.setField]
  by_cases hu : u = t
  · subst hu
    have he : e ≠ .sfd := fun he => hne ⟨rfl, he⟩
    rw [Function.update_self, Function.update_of_ne he]
  · rw [Function.update_of_ne hu]

-- One descriptor is opened and nothing else.
structure Opens (st : Handles) (t : Nat) (d : Descriptor) (after : Handles) : Prop where
  tallied : Tallied after
  held : ∀ u e, Held after u e ↔ Held st u e ∨ (u = t ∧ e = d)
  registry : after.registry = st.registry
  kicks : after.kicks = st.kicks
  opened : after.opened = st.opened ++ [(t, d)]

theorem openHandle_opens (h : Tallied st) (hnew : (t, d) ∉ st.opened)
    (hopen : st.openHandle t d = .ok after) : Opens st t d after := by
  unfold Handles.openHandle at hopen
  split at hopen
  case h_2 => cases hopen
  rename_i n table halloc
  obtain ⟨hfree, hholder⟩ := allocSlot_spec halloc
  obtain ⟨hnot, hzero⟩ := h.unopened t d hnew
  cases hopen
  obtain ⟨next, hnext⟩ : ∃ next : Handles, next = { st.setField t d (n + WIN32_FH_BASE) with
    table, opened := st.opened ++ [(t, d)] } := ⟨_, rfl⟩
  rw [← hnext]
  have htable : next.table = table := by rw [hnext]
  have hopened : next.opened = st.opened ++ [(t, d)] := by rw [hnext]
  have hself : next.fields t d = n + WIN32_FH_BASE := by rw [hnext]; simp [Handles.setField]
  have hother : ∀ u e, ¬(u = t ∧ e = d) → next.fields u e = st.fields u e := by
    intro u e hne
    rw [hnext]
    simp only [Handles.setField]
    by_cases hu : u = t
    · subst hu
      have he : e ≠ d := fun he => hne ⟨rfl, he⟩
      rw [Function.update_self, Function.update_of_ne he]
    · rw [Function.update_of_ne hu]
  have hheld : ∀ u e, Held next u e ↔ Held st u e ∨ (u = t ∧ e = d) := by
    intro u e
    constructor
    · rintro ⟨m, hm⟩
      rw [htable, hholder] at hm
      split at hm
      · cases hm
        exact Or.inr ⟨rfl, rfl⟩
      · exact Or.inl ⟨m, hm⟩
    · rintro (⟨m, hm⟩ | ⟨rfl, rfl⟩)
      · refine ⟨m, ?_⟩
        rw [htable, hholder, if_neg, hm]
        rintro rfl
        rw [hfree] at hm
        cases hm
      · exact ⟨n, by rw [htable, hholder, if_pos rfl]⟩
  have htimes : ∀ u e, timesClosed next u e = timesClosed st u e := by
    intro u e
    rw [hnext]
    rfl
  refine ⟨⟨?_, ?_, ?_, ?_⟩, hheld, by rw [hnext]; rfl, by rw [hnext]; rfl, hopened⟩
  · intro m u e hm
    rw [htable, hholder] at hm
    split at hm
    · rename_i hmn
      cases hm
      rw [hself, hmn]
    · have hne : ¬(u = t ∧ e = d) := by
        rintro ⟨rfl, rfl⟩
        exact hnot ⟨m, hm⟩
      rw [hother u e hne]
      exact h.fields m u e hm
  · rw [hnext]
    exact h.own
  · intro u e hue
    rw [hheld, htimes]
    by_cases hsame : u = t ∧ e = d
    · obtain ⟨rfl, rfl⟩ := hsame
      exact Or.inl ⟨Or.inr ⟨rfl, rfl⟩, hzero⟩
    · rw [hopened] at hue
      have hold : (u, e) ∈ st.opened := by
        rcases List.mem_append.mp hue with hold | hsingle
        · exact hold
        · have heq := List.mem_singleton.mp hsingle
          exact absurd (Prod.mk.inj heq) hsame
      exact (h.opened u e hold).imp (fun hl => ⟨Or.inl hl.1, hl.2⟩)
        fun hr => ⟨fun hl => hl.elim hr.1 hsame, hr.2⟩
  · intro u e hue
    rw [hopened] at hue
    have hold : (u, e) ∉ st.opened := fun hm => hue (List.mem_append_left _ hm)
    have hne : ¬(u = t ∧ e = d) := by
      rintro ⟨rfl, rfl⟩
      exact hue (by simp)
    obtain ⟨hnone, hnever⟩ := h.unopened u e hold
    rw [hheld, htimes]
    exact ⟨fun hl => hl.elim hnone hne, hnever⟩

theorem Tallied.other (h : Tallied st) (hopened : after.opened = st.opened)
    (hcloses : after.closes = st.closes) (hfields : after.fields = st.fields)
    (hholder : ∀ n t d, holder after.table n = some (.transport t d) ↔
      holder st.table n = some (.transport t d)) : Tallied after ∧ ∀ t d, Held after t d ↔ Held st t d := by
  have hheld : ∀ t d, Held after t d ↔ Held st t d :=
    fun t d => exists_congr fun n => hholder n t d
  have htimes : ∀ t d, timesClosed after t d = timesClosed st t d := by
    intro t d
    rw [timesClosed, hcloses]
    rfl
  refine ⟨⟨?_, ?_, ?_, ?_⟩, hheld⟩
  · intro n t d hn
    rw [hfields]
    exact h.fields n t d ((hholder n t d).mp hn)
  · rw [hcloses]
    exact h.own
  · intro t d htd
    rw [hheld, htimes]
    exact h.opened t d (hopened ▸ htd)
  · intro t d htd
    rw [hheld, htimes]
    exact h.unopened t d (hopened ▸ htd)

-- The table is what it was.
theorem Tallied.elsewhere (h : Tallied st) (reg : Registry) (kicks : List (Party × Nat)) :
    Tallied { st with registry := reg, kicks := kicks } :=
  ⟨h.fields, h.own, h.opened, h.unopened⟩

theorem closes_nothing (h : Tallied st) (d : Descriptor) : Closes st t d False st :=
  ⟨h, fun u e => by simp, rfl, rfl, rfl⟩

theorem Closes.congr {c c' : Prop} (h : Closes st t d c after) (hc : c ↔ c') : Closes st t d c' after := by
  rw [← propext hc]
  exact h

-- Only a socket transport has something to close.
theorem kick_closes (h : Tallied st) (type : TransportType) (hheld : type ≠ .usb → Held st t .sfd) :
    Closes st t .sfd (type ≠ .usb) (st.kick t type) := by
  cases type with
  | usb => exact (closes_nothing h .sfd).congr (by decide)
  | loopback | any | host => exact (remoteKick_closes h (hheld (by decide))).congr (by decide)

theorem close_closes (h : Tallied st) (type : TransportType) (hheld : type ≠ .usb → Held st t .fd) :
    Closes st t .fd (type ≠ .usb) (st.close t type) := by
  cases type with
  | usb => exact (closes_nothing h .fd).congr (by decide)
  | loopback | any | host => exact (adbClose_closes h (hheld (by decide))).congr (by decide)

end Tally

end Adb.Transport
