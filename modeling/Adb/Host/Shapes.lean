import Adb.Host.CloseAlone
import Adb.Host.Smart

namespace Adb.Host

open Adb.Lib
open Adb.Transport (TransportType)

variable {st mid after : Server} {a b l : Nat} {s q : ASocket}

-- Only local sockets queue packets. A smart socket has at most the one that its
-- request comes in.
def ASocket.Shaped (s : ASocket) : Prop :=
  match s.ops with
  | .localSocket | .localSocketNotify => True
  | .smartSocket => s.pkts.length ≤ 1
  | .remoteSocket | .deviceTracker => s.pkts = []

-- The packets that a socket has, one after the other.
def Fits : Option ASocket → List Nat → Prop
  | none, ps => ps = []
  | some s, ps => ps.length = s.pkts.length ∧ s.Shaped

theorem ASocket.Shaped.local (hlocal : s.ops.isLocal = true) : s.Shaped := by
  unfold ASocket.Shaped
  cases hops : s.ops <;> simp_all [Ops.isLocal]

theorem ASocket.Shaped.resize (h : s.Shaped) (hops : q.ops = s.ops)
    (hsize : q.pkts.length = s.pkts.length) : q.Shaped := by
  unfold ASocket.Shaped at h ⊢
  rw [hops, hsize]
  cases hs : s.ops with
  | remoteSocket | deviceTracker =>
      rw [hs] at h
      have hnone : s.pkts = [] := h
      exact List.eq_nil_of_length_eq_zero (by rw [hsize, hnone, List.length_nil])
  | smartSocket =>
      rw [hs] at h
      exact h
  | _ => trivial

theorem fits_new (hpkts : s.pkts = []) : Fits (some s) [] := by
  refine ⟨by rw [hpkts]; rfl, ?_⟩
  unfold ASocket.Shaped
  cases s.ops <;> simp [hpkts]

theorem Fits.resize {ps : List Nat} (h : Fits (some s) ps) (hops : q.ops = s.ops)
    (hsize : q.pkts.length = s.pkts.length) : Fits (some q) ps :=
  ⟨h.1.trans hsize.symm, h.2.resize hops hsize⟩

def backlog (o : Option ASocket) : Option Nat := o.map (·.pkts.length)

-- No socket comes or goes, and each has as many packets as before.
structure Steady (st after : Server) : Prop where
  fits : ∀ a ps, Fits (st.socks a) ps → Fits (after.socks a) ps
  sizes : ∀ a, backlog (after.socks a) = backlog (st.socks a)
  next : after.nextSocket = st.nextSocket

theorem Steady.dead (h : Steady st after) (a : Nat) :
    after.socks a = none ↔ st.socks a = none := by
  have hsizes := h.sizes a
  unfold backlog at hsizes
  rw [← Option.map_eq_none_iff, hsizes, Option.map_eq_none_iff]

theorem Steady.of_eq (hsocks : after.socks = st.socks) (hnext : after.nextSocket = st.nextSocket) :
    Steady st after where
  fits a ps h := by rwa [hsocks]
  sizes a := by rw [hsocks]
  next := hnext

theorem Steady.refl (st : Server) : Steady st st := .of_eq rfl rfl

theorem Steady.trans (h : Steady st mid) (h' : Steady mid after) : Steady st after where
  fits a ps hf := h'.fits a ps (h.fits a ps hf)
  sizes a := (h'.sizes a).trans (h.sizes a)
  next := h'.next.trans h.next

theorem Calm.steady (h : Calm st after) : Steady st after := .of_eq h.socks h.nextSocket

theorem Steady.put (hs : st.socks a = some s)
    (hfits : ∀ ps, Fits (some s) ps → Fits (some q) ps) (hsize : q.pkts.length = s.pkts.length) :
    Steady st (st.put a q) where
  fits b ps h := by
    by_cases hb : b = a
    · subst hb
      rw [hs] at h
      simpa [Server.put] using hfits ps h
    · simpa [Server.put, hb] using h
  sizes b := by
    by_cases hb : b = a
    · subst hb
      simp [Server.put, hs, backlog, hsize]
    · simp [Server.put, hb]
  next := rfl

theorem Steady.put_like (hs : st.socks a = some s) (hops : q.ops = s.ops)
    (hsize : q.pkts.length = s.pkts.length) : Steady st (st.put a q) :=
  .put hs (fun _ h => h.resize hops hsize) hsize

theorem Steady.put_local (hs : st.socks a = some s) (hlocal : q.ops.isLocal = true)
    (hsize : q.pkts.length = s.pkts.length) : Steady st (st.put a q) :=
  .put hs (fun _ h => ⟨h.1.trans hsize.symm, .local hlocal⟩) hsize

theorem writeStatus_steady (st : Server) (a : Nat) (status : Status) :
    Ensures (st.writeStatus a status) (Steady st) Anyway := by
  apply ((writeStatus_ensures st a status).mono fun _ _ => trivial).weaken
  rintro _ ⟨ok, rest, -, rfl⟩
  exact .of_eq rfl rfl

theorem removeTransportDisconnect_steady (st : Server) (t : Nat) (dis : Disconnect) :
    Ensures (st.removeTransportDisconnect t dis) (Steady st) Anyway := by
  unfold Server.removeTransportDisconnect
  apply (derefTransport_any st t).bind
  exact fun _ _ => Steady.of_eq rfl rfl

theorem insertLocalSocket_steady (st : Server) (a : Nat) (list : SRef) :
    Ensures (insertLocalSocket st a list) (Steady st) Anyway := by
  unfold insertLocalSocket
  split
  · split
    · exact Steady.of_eq rfl rfl
    · trivial
  · trivial

theorem removeSocket_steady (st : Server) (a : Nat) :
    Ensures (removeSocket st a) (Steady st) Anyway := by
  unfold removeSocket
  apply (deref_any st a).bind
  intro s hs
  split
  · split
    · split
      · rename_i links _
        have hrelinked : Steady st
            { st with links := (links.setNext (.socket a) none).setPrev (.socket a) none } :=
          .of_eq rfl rfl
        exact hrelinked.trans (.put_like hs rfl rfl)
      · trivial
    · trivial
  · exact Steady.refl st

theorem installLocalSocket_steady (st : Server) (a : Nat) :
    Ensures (installLocalSocket st a) (Steady st) Anyway := by
  unfold installLocalSocket
  apply (deref_any st a).bind
  intro s hs
  have hnamed : Steady st (st.put a { s with id := st.localSocketNextId }) :=
    .put_like hs rfl rfl
  have hput : Steady st { st.put a { s with id := st.localSocketNextId } with
      localSocketNextId := st.localSocketNextId + 1 } :=
    hnamed.trans (.of_eq rfl rfl)
  exact (insertLocalSocket_steady _ a .socketList).weaken fun after hafter => hput.trans hafter

theorem localSocketReady_steady (st : Server) (a : Nat) :
    Ensures (localSocketReady st a) (Steady st) Anyway := by
  unfold localSocketReady
  apply (deref_any st a).bind
  exact fun s hs => Steady.put_like hs rfl rfl

theorem localSocketReadyNotify_steady (st : Server) (a : Nat) :
    Ensures (localSocketReadyNotify st a) (Steady st) Anyway := by
  unfold localSocketReadyNotify
  apply (deref_any st a).bind
  intro s hs
  have hput : Steady st (st.put a { s with ops := .localSocket }) := .put_local hs rfl rfl
  apply (writeStatus_steady _ a .okay).bind
  intro mid hmid
  exact (localSocketReady_steady mid a).weaken fun after hafter => (hput.trans hmid).trans hafter

theorem handleForward_steady (st : Server) (create : Bool) (localName remote : Bytes)
    (ttype : TransportType) (serial : Option Bytes) (l : Nat) :
    Ensures (handleForward st create localName remote ttype serial l) (Steady st) Anyway := by
  unfold handleForward
  apply ((acquireOneTransport_benign st ttype serial).mono fun _ _ => trivial).bind
  rintro ⟨found, error⟩ -
  cases found with
  | none => exact writeStatus_steady st l _
  | some t =>
      have hcall : Ensures (if create then installListener st localName remote (some t)
          else removeListener st localName remote t) (fun r => Calm st r.2) Benign := by
        split
        · exact installListener_calm st localName remote (some t)
        · exact removeListener_calm st localName remote t
      apply (hcall.mono fun _ _ => trivial).bind
      rintro ⟨r, mid⟩ hm
      simp only
      split
      · exact hm.steady.trans (.of_eq rfl rfl)
      · split
        · exact (writeStatus_steady mid l _).weaken fun after hafter => hm.steady.trans hafter
        · exact (writeStatus_steady mid l _).weaken fun after hafter => hm.steady.trans hafter

theorem handleHostRequest_steady (st : Server) (request : Option HostRequest)
    (ttype : TransportType) (serial : Option Bytes) (l a : Nat) :
    Ensures (handleHostRequest st request ttype serial l a) (fun r => Steady st r.2) Anyway := by
  have hstatus : ∀ (mid : Server) (status : Status) (r : Int), Steady st mid → Ensures (do
      let st ← mid.writeStatus l status
      return (r, st)) (fun r => Steady st r.2) Anyway :=
    fun mid status r hm => (writeStatus_steady mid l status).bind fun after ha => hm.trans ha
  have hacquired : ∀ serial (f : Option Nat × Option String → Except Stop (Int × Server)),
      (∀ found, Ensures (f found) (fun r => Steady st r.2) Anyway) →
      Ensures (acquireOneTransport st ttype serial >>= f) (fun r => Steady st r.2) Anyway :=
    fun serial f hf => ((acquireOneTransport_benign st ttype serial).mono fun _ _ => trivial).bind
      fun found _ => hf found
  unfold handleHostRequest
  cases request with
  | none => exact Steady.refl st
  | some request =>
      cases request with
      | kill => trivial
      | transport type name =>
          apply ((acquireOneTransport_benign st type _).mono fun _ _ => trivial).bind
          rintro ⟨found, error⟩ -
          cases found with
          | none => exact hstatus st _ 1 (Steady.refl st)
          | some t =>
              apply (deref_any st a).bind
              intro smart hsmart
              exact hstatus _ .okay 1 (.put_like hsmart rfl rfl)
      | devices long => exact Steady.of_eq rfl rfl
      | connect host => exact Steady.of_eq rfl rfl
      | disconnect name =>
          have hdelisted : Steady st (disconnectDevice st name) := by
            unfold disconnectDevice
            split
            · exact .of_eq rfl rfl
            · simp only
              split
              · exact .of_eq rfl rfl
              · exact Steady.refl st
          exact hdelisted.trans (.of_eq rfl rfl)
      | version => exact Steady.of_eq rfl rfl
      | getSerialno => exact hacquired serial _ fun _ => Steady.of_eq rfl rfl
      | getDevpath => exact hacquired serial _ fun _ => Steady.of_eq rfl rfl
      | emulator => exact Steady.refl st
      | malformedForward => exact hstatus st _ 0 (Steady.refl st)
      | forward create localName remote =>
          exact (handleForward_steady st create localName remote ttype serial l).bind
            fun after ha => ha
      | getState => exact hacquired serial _ fun _ => Steady.of_eq rfl rfl

end Adb.Host
