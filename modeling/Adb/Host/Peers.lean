import Adb.Host.Lists

namespace Adb.Host

section Peers

variable {socks : Nat → Option ASocket} {a b : Nat} {s r : ASocket} {oa ob : Option ASocket}

-- A local socket on its own, as it may stand in the place of another one.
def Alone (o : Option ASocket) : Prop :=
  ∀ s, o = some s → s.ops.isLocal = true ∧ s.peer = none ∧ (s.closing = true → s.pkts ≠ [])

theorem alone_none : Alone none := by simp [Alone]

theorem alone_fate (s : ASocket) : Alone (fate s) := by
  intro parked hp
  unfold fate at hp
  split at hp
  · rename_i hlocal
    cases hp
    exact ⟨hlocal.1, rfl, fun _ hk => hlocal.2 (Or.inr hk)⟩
  · cases hp

theorem Peers.nobody (h : Peers socks) (hs : socks a = some s) (hp : s.peer = none) {c : Nat}
    {t : ASocket} (ht : socks c = some t) : t.peer ≠ some a := by
  intro hc
  obtain ⟨-, r, hr, hback⟩ := h.back c t a ht hc
  rw [hs, Option.some.injEq] at hr
  rw [← hr, hp] at hback
  cases hback

theorem Peers.alone (h : Peers socks) (hs : socks a = some s)
    (hp : s.peer = none) (ha : Alone oa) : Peers (Function.update socks a oa) where
  back := by
    intro c t d ht hd
    by_cases hc : c = a
    · subst hc
      simp only [Function.update_self] at ht
      rw [(ha t ht).2.1] at hd
      cases hd
    · simp only [Function.update_of_ne hc] at ht
      have hda : d ≠ a := by rintro rfl; exact h.nobody hs hp ht hd
      simpa only [Function.update_of_ne hda] using h.back c t d ht hd
  inner := by
    intro c t ht hc'
    by_cases hc : c = a
    · subst hc
      simp only [Function.update_self] at ht
      rw [(ha t ht).1] at hc'
      cases hc'
    · simp only [Function.update_of_ne hc] at ht
      obtain ⟨d, r, hd, hr, hl⟩ := h.inner c t ht hc'
      have hda : d ≠ a := by rintro rfl; exact h.nobody hs hp ht hd
      exact ⟨d, r, hd, by simpa only [Function.update_of_ne hda] using hr, hl⟩
  notify := by
    intro c t ht hn
    by_cases hc : c = a
    · subst hc
      simp only [Function.update_self] at ht
      exact (ha t ht).2.1
    · simp only [Function.update_of_ne hc] at ht
      exact h.notify c t ht hn
  parked := by
    intro c t ht hn
    by_cases hc : c = a
    · subst hc
      simp only [Function.update_self] at ht
      exact ⟨(ha t ht).1, (ha t ht).2.1, (ha t ht).2.2 hn⟩
    · simp only [Function.update_of_ne hc] at ht
      exact h.parked c t ht hn

-- Two peers part, and each is gone or on its own.
theorem Peers.unpair (h : Peers socks) (hs : socks a = some s) (hp : s.peer = some b)
    (ha : Alone oa) (hb : Alone ob) :
    Peers (Function.update (Function.update socks b ob) a oa) := by
  obtain ⟨hba, r, hr, hback⟩ := h.back a s b hs hp
  -- the peer of any other socket is neither of the two
  have hother : ∀ c t d, c ≠ a → c ≠ b → socks c = some t → t.peer = some d → d ≠ a ∧ d ≠ b := by
    intro c t d hca hcb ht hd
    obtain ⟨-, q, hq, hqc⟩ := h.back c t d ht hd
    constructor
    · rintro rfl
      rw [hs, Option.some.injEq] at hq
      rw [← hq, hp, Option.some.injEq] at hqc
      exact hcb hqc.symm
    · rintro rfl
      rw [hr, Option.some.injEq] at hq
      rw [← hq, hback, Option.some.injEq] at hqc
      exact hca hqc.symm
  have hcases : ∀ c t, Function.update (Function.update socks b ob) a oa c = some t →
      (t.ops.isLocal = true ∧ t.peer = none ∧ (t.closing = true → t.pkts ≠ [])) ∨
      (c ≠ a ∧ c ≠ b ∧ socks c = some t) := by
    intro c t ht
    by_cases hca : c = a
    · subst hca
      simp only [Function.update_self] at ht
      exact Or.inl (ha t ht)
    · simp only [Function.update_of_ne hca] at ht
      by_cases hcb : c = b
      · subst hcb
        simp only [Function.update_self] at ht
        exact Or.inl (hb t ht)
      · simp only [Function.update_of_ne hcb] at ht
        exact Or.inr ⟨hca, hcb, ht⟩
  constructor
  · intro c t d ht hd
    rcases hcases c t ht with halone | ⟨hca, hcb, ht⟩
    · rw [halone.2.1] at hd
      cases hd
    · obtain ⟨hda, hdb⟩ := hother c t d hca hcb ht hd
      simpa only [Function.update_of_ne hda, Function.update_of_ne hdb] using h.back c t d ht hd
  · intro c t ht hl
    rcases hcases c t ht with halone | ⟨hca, hcb, ht⟩
    · rw [halone.1] at hl
      cases hl
    · obtain ⟨d, q, hd, hq, hql⟩ := h.inner c t ht hl
      obtain ⟨hda, hdb⟩ := hother c t d hca hcb ht hd
      exact ⟨d, q, hd,
        by simpa only [Function.update_of_ne hda, Function.update_of_ne hdb] using hq, hql⟩
  · intro c t ht hn
    rcases hcases c t ht with halone | ⟨-, -, ht⟩
    · exact halone.2.1
    · exact h.notify c t ht hn
  · intro c t ht hn
    rcases hcases c t ht with halone | ⟨-, -, ht⟩
    · exact ⟨halone.1, halone.2.1, halone.2.2 hn⟩
    · exact h.parked c t ht hn

-- A local socket without a peer gets a new one.
theorem Peers.pair (h : Peers socks) (hs : socks a = some s) (hp : s.peer = none)
    (hb : socks b = none) {s' r : ASocket} (hsl : s'.ops.isLocal = true)
    (hsn : s'.ops ≠ .localSocketNotify) (hsc : s'.closing = false) (hsp : s'.peer = some b)
    (hrn : r.ops ≠ .localSocketNotify) (hrc : r.closing = false) (hrp : r.peer = some a) :
    Peers (Function.update (Function.update socks b (some r)) a (some s')) := by
  have hba : b ≠ a := by
    rintro rfl
    rw [hs] at hb
    cases hb
  have hother : ∀ c t d, socks c = some t → t.peer = some d → d ≠ a ∧ d ≠ b := by
    intro c t d ht hd
    refine ⟨?_, ?_⟩
    · rintro rfl
      exact h.nobody hs hp ht hd
    · rintro rfl
      obtain ⟨-, q, hq, -⟩ := h.back c t d ht hd
      rw [hb] at hq
      cases hq
  have hcases : ∀ c t, Function.update (Function.update socks b (some r)) a (some s') c = some t →
      (c = a ∧ t = s') ∨ (c = b ∧ t = r) ∨ (c ≠ a ∧ c ≠ b ∧ socks c = some t) := by
    intro c t ht
    by_cases hca : c = a
    · subst hca
      simp only [Function.update_self, Option.some.injEq] at ht
      exact Or.inl ⟨rfl, ht.symm⟩
    · simp only [Function.update_of_ne hca] at ht
      by_cases hcb : c = b
      · subst hcb
        simp only [Function.update_self, Option.some.injEq] at ht
        exact Or.inr (Or.inl ⟨rfl, ht.symm⟩)
      · simp only [Function.update_of_ne hcb] at ht
        exact Or.inr (Or.inr ⟨hca, hcb, ht⟩)
  constructor
  · intro c t d ht hd
    rcases hcases c t ht with ⟨rfl, rfl⟩ | ⟨rfl, rfl⟩ | ⟨hca, hcb, ht⟩
    · obtain rfl : b = d := Option.some.inj (hsp.symm.trans hd)
      exact ⟨hba, r, by simp [Function.update_of_ne hba], hrp⟩
    · obtain rfl : a = d := Option.some.inj (hrp.symm.trans hd)
      exact ⟨hba.symm, s', by simp, hsp⟩
    · obtain ⟨hda, hdb⟩ := hother c t d ht hd
      simpa only [Function.update_of_ne hda, Function.update_of_ne hdb] using h.back c t d ht hd
  · intro c t ht hl
    rcases hcases c t ht with ⟨rfl, rfl⟩ | ⟨rfl, rfl⟩ | ⟨hca, hcb, ht⟩
    · rw [hsl] at hl
      cases hl
    · exact ⟨a, s', hrp, by simp, hsl⟩
    · obtain ⟨d, q, hd, hq, hql⟩ := h.inner c t ht hl
      obtain ⟨hda, hdb⟩ := hother c t d ht hd
      exact ⟨d, q, hd,
        by simpa only [Function.update_of_ne hda, Function.update_of_ne hdb] using hq, hql⟩
  · intro c t ht hn
    rcases hcases c t ht with ⟨rfl, rfl⟩ | ⟨rfl, rfl⟩ | ⟨-, -, ht⟩
    · exact absurd hn hsn
    · exact absurd hn hrn
    · exact h.notify c t ht hn
  · intro c t ht hn
    rcases hcases c t ht with ⟨rfl, rfl⟩ | ⟨rfl, rfl⟩ | ⟨-, -, ht⟩
    · rw [hsc] at hn
      cases hn
    · rw [hrc] at hn
      cases hn
    · exact h.parked c t ht hn

theorem Peers.insert (h : Peers socks) (hb : socks b = none) (ho : Alone ob) :
    Peers (Function.update socks b ob) := by
  have hother : ∀ c t, socks c = some t → c ≠ b := by
    rintro c t ht rfl
    rw [hb] at ht
    cases ht
  have hcases : ∀ c t, Function.update socks b ob c = some t →
      (t.ops.isLocal = true ∧ t.peer = none ∧ (t.closing = true → t.pkts ≠ [])) ∨
      socks c = some t := by
    intro c t ht
    by_cases hcb : c = b
    · subst hcb
      simp only [Function.update_self] at ht
      exact Or.inl (ho t ht)
    · simp only [Function.update_of_ne hcb] at ht
      exact Or.inr ht
  constructor
  · intro c t d ht hd
    rcases hcases c t ht with halone | ht
    · rw [halone.2.1] at hd
      cases hd
    · obtain ⟨hdc, q, hq, hback⟩ := h.back c t d ht hd
      exact ⟨hdc, q, by simpa only [Function.update_of_ne (hother d q hq)] using hq, hback⟩
  · intro c t ht hl
    rcases hcases c t ht with halone | ht
    · rw [halone.1] at hl
      cases hl
    · obtain ⟨d, q, hd, hq, hql⟩ := h.inner c t ht hl
      exact ⟨d, q, hd, by simpa only [Function.update_of_ne (hother d q hq)] using hq, hql⟩
  · intro c t ht hn
    rcases hcases c t ht with halone | ht
    · exact halone.2.1
    · exact h.notify c t ht hn
  · intro c t ht hn
    rcases hcases c t ht with halone | ht
    · exact ⟨halone.1, halone.2.1, halone.2.2 hn⟩
    · exact h.parked c t ht hn

-- A socket changes, but neither its kind nor its peer does.
theorem Peers.touch (h : Peers socks) (hs : socks a = some s) {s' : ASocket}
    (hlocal : s'.ops.isLocal = s.ops.isLocal) (hp : s'.peer = s.peer)
    (hn : s'.ops = .localSocketNotify → s'.peer = none)
    (hc : s'.closing = true → s'.ops.isLocal = true ∧ s'.peer = none ∧ s'.pkts ≠ []) :
    Peers (Function.update socks a (some s')) := by
  have hkeep : ∀ c t, socks c = some t → ∃ t', Function.update socks a (some s') c = some t' ∧
      t'.peer = t.peer ∧ t'.ops.isLocal = t.ops.isLocal := by
    intro c t ht
    by_cases hca : c = a
    · subst hca
      rw [hs, Option.some.injEq] at ht
      subst ht
      exact ⟨s', by simp, hp, hlocal⟩
    · exact ⟨t, by simpa only [Function.update_of_ne hca] using ht, rfl, rfl⟩
  have hcases : ∀ c t, Function.update socks a (some s') c = some t →
      (c = a ∧ t = s') ∨ socks c = some t := by
    intro c t ht
    by_cases hca : c = a
    · subst hca
      simp only [Function.update_self, Option.some.injEq] at ht
      exact Or.inl ⟨rfl, ht.symm⟩
    · simp only [Function.update_of_ne hca] at ht
      exact Or.inr ht
  constructor
  · intro c t d ht hd
    have hold : ∃ t₀, socks c = some t₀ ∧ t₀.peer = some d := by
      rcases hcases c t ht with ⟨rfl, rfl⟩ | ht
      · exact ⟨s, hs, hp ▸ hd⟩
      · exact ⟨t, ht, hd⟩
    obtain ⟨t₀, ht₀, hd₀⟩ := hold
    obtain ⟨hdc, q, hq, hback⟩ := h.back c t₀ d ht₀ hd₀
    obtain ⟨q', hq', hqp, -⟩ := hkeep d q hq
    exact ⟨hdc, q', hq', hqp.trans hback⟩
  · intro c t ht hl
    have hold : ∃ t₀, socks c = some t₀ ∧ t₀.peer = t.peer ∧ t₀.ops.isLocal = false := by
      rcases hcases c t ht with ⟨rfl, rfl⟩ | ht
      · exact ⟨s, hs, hp.symm, hlocal ▸ hl⟩
      · exact ⟨t, ht, rfl, hl⟩
    obtain ⟨t₀, ht₀, hp₀, hl₀⟩ := hold
    obtain ⟨d, q, hd, hq, hql⟩ := h.inner c t₀ ht₀ hl₀
    obtain ⟨q', hq', -, hlq⟩ := hkeep d q hq
    exact ⟨d, q', hp₀ ▸ hd, hq', hlq.trans hql⟩
  · intro c t ht hn'
    rcases hcases c t ht with ⟨rfl, rfl⟩ | ht
    · exact hn hn'
    · exact h.notify c t ht hn'
  · intro c t ht hc'
    rcases hcases c t ht with ⟨rfl, rfl⟩ | ht
    · exact hc hc'
    · exact h.parked c t ht hc'

-- A local socket leaves the socket it was connected to, which goes, for another
-- one, which is new or a local socket on its own.
theorem Peers.rebind (h : Peers socks) {l s2 : Nat} {x : ASocket} (hs : socks l = some s)
    (hlocal : s.ops.isLocal = true) (hp : s.peer = some a) (hal : a ≠ s2) (hls : l ≠ s2)
    (hold : socks s2 = none ∨ ∃ old, socks s2 = some old ∧ old.peer = none)
    {s' : ASocket} (hsl : s'.ops.isLocal = true) (hsn : s'.ops ≠ .localSocketNotify)
    (hsc : s'.closing = false) (hsp : s'.peer = some s2) (hxn : x.ops ≠ .localSocketNotify)
    (hxc : x.closing = false) (hxp : x.peer = some l) :
    Peers (Function.update (Function.update (Function.update socks a none) l (some s')) s2
      (some x)) := by
  have hclosing : s.closing = false := by
    by_contra hc
    have := (h.parked l s hs (by simpa using hc)).2.1
    rw [hp] at this
    cases this
  have hlone : Alone (some { s with peer := none }) := by
    intro t ht
    cases ht
    exact ⟨hlocal, rfl, fun hc => absurd (hclosing.symm.trans hc) (by simp)⟩
  have hunpaired := h.unpair hs hp hlone alone_none
  have hcleared : Peers (Function.update (Function.update (Function.update socks a none) l
      (some { s with peer := none })) s2 none) := by
    rcases hold with hnone | ⟨old, ho, hop⟩
    · rwa [Function.update_eq_self_iff.mpr]
      simp [Function.update_of_ne hls.symm, Function.update_of_ne hal.symm, hnone]
    · refine hunpaired.alone (s := old) ?_ hop alone_none
      simp [Function.update_of_ne hls.symm, Function.update_of_ne hal.symm, ho]
  have hpair := hcleared.pair (a := l) (b := s2) (s := { s with peer := none })
    (by simp [Function.update_of_ne hls]) rfl (by simp) hsl hsn hsc hsp hxn hxc hxp
  rw [Function.update_idem] at hpair
  rw [Function.update_comm hls.symm, Function.update_idem] at hpair
  exact hpair

end Peers

end Adb.Host
