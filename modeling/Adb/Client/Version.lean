import Adb.Client.Query
import Adb.Sync.Accesses

namespace Adb.Client

open Adb.Lib
open Adb.Host
open Adb.Sync (Access Conn asInt)
open Adb.Wire (readx arrived readx_readsAt)

-- The accesses of adb_connect to char buf[100], once host:version has been
-- written.
def versionAccesses (reads : List ReadOutcome) : List Access :=
  match adbStatus reads with
  | none => []
  | some reads =>
      .read 100 4 ::
        match readx 4 reads with
        | none => []
        | some (buf, _) =>
            let n := asInt (strtoul16 buf)
            .storeNul 100 4 :: (if n > 100 then [] else [.read 100 n])

-- An OKAY status and a length that strtoul makes negative as an int: the length
-- has a minus sign.
def NegativeVersion (stream : Bytes) : Prop :=
  8 ≤ stream.length ∧ stream.take 4 = ascii "OKAY" ∧
    2147483648 ≤ (strtoul16 ((stream.drop 4).take 4)).toNat

section Version

variable {stream : Bytes}

theorem adbStatus_some (reads : List ReadOutcome) {left : List ReadOutcome} (h : adbStatus reads = some left) :
    (arrived reads).take 4 = ascii "OKAY" ∧ arrived left = (arrived reads).drop 4 := by
  rw [adbStatus] at h
  by_cases hlen : 4 ≤ (arrived reads).length
  · obtain ⟨rest, he, hrest⟩ := (readx_readsAt 4).full reads hlen
    rw [he] at h
    simp only [Option.bind_eq_bind, Option.bind_some] at h
    split at h
    · rename_i hokay
      cases h
      exact ⟨hokay, hrest⟩
    · cases h
  · rw [(readx_readsAt 4).short reads (by omega)] at h
    cases h

theorem arrived_data (stream : Bytes) : arrived [.data stream] = stream := by
  cases stream <;> simp [arrived]

-- Where the status and the length have come, the length decides.
theorem versionAccesses_eq {reads left : List ReadOutcome} (hstatus : adbStatus reads = some left)
    (hlen : 8 ≤ (arrived reads).length) :
    versionAccesses reads = .read 100 4 :: .storeNul 100 4 ::
      (if asInt (strtoul16 (((arrived reads).drop 4).take 4)) > 100 then []
        else [.read 100 (asInt (strtoul16 (((arrived reads).drop 4).take 4)))]) := by
  obtain ⟨-, hleft⟩ := adbStatus_some reads hstatus
  have hfour : 4 ≤ (arrived left).length := by
    rw [hleft, List.length_drop]
    omega
  obtain ⟨rest, he, -⟩ := (readx_readsAt 4).full left hfour
  rw [hleft] at he
  rw [versionAccesses, hstatus]
  dsimp only
  rw [he]

theorem version_inBounds_iff (stream : Bytes) :
    (∀ reads, arrived reads = stream → ∀ a ∈ versionAccesses reads, a.InBounds) ↔
      ¬NegativeVersion stream := by
  constructor
  · rintro h ⟨hlen, hokay, hneg⟩
    have harrived := arrived_data stream
    obtain ⟨left, he, -⟩ := (readx_readsAt 4).full [.data stream] (by rw [harrived]; omega)
    have hstatus : adbStatus [.data stream] = some left := by
      rw [adbStatus, he, harrived, hokay]
      rfl
    have hlt := Sync.asInt_negative hneg
    have heq := versionAccesses_eq hstatus (by rw [harrived]; exact hlen)
    rw [harrived, if_neg (by omega)] at heq
    have hread := h [.data stream] harrived (.read 100 (asInt (strtoul16 ((stream.drop 4).take 4)))) (by rw [heq]; simp)
    simp only [Access.InBounds] at hread
    omega
  · intro h reads harrived a ha
    cases hstatus : adbStatus reads with
    | none =>
        rw [versionAccesses, hstatus] at ha
        cases ha
    | some left =>
        obtain ⟨hokay, hleft⟩ := adbStatus_some reads hstatus
        by_cases hlen : 8 ≤ (arrived reads).length
        · rw [versionAccesses_eq hstatus hlen, harrived] at ha
          have hpos : (strtoul16 ((stream.drop 4).take 4)).toNat < 2147483648 := by
            by_contra hneg
            exact h ⟨by rw [← harrived]; exact hlen, by rw [← harrived]; exact hokay, by omega⟩
          have hint := Sync.asInt_nonneg hpos
          obtain rfl | ha := List.mem_cons.mp ha
          · simp [Access.InBounds]
          obtain rfl | ha := List.mem_cons.mp ha
          · simp [Access.InBounds]
          split at ha
          · cases ha
          · obtain rfl := List.mem_singleton.mp ha
            simp only [Access.InBounds]
            omega
        · have hshort : (arrived left).length < 4 := by
            rw [hleft, List.length_drop]
            omega
          rw [versionAccesses, hstatus] at ha
          dsimp only at ha
          rw [(readx_readsAt 4).short left hshort] at ha
          obtain rfl := List.mem_singleton.mp ha
          simp [Access.InBounds]

-- The decoders of the client stay in their buffers for a stream, whatever the
-- connection and the local files are like.
structure DecodersInBounds (stream : Bytes) : Prop where
  syncLs : ∀ c path, readable (Conn.input c) = stream →
    ∀ a ∈ Sync.syncLsAccesses c path, a.InBounds
  syncRecv : ∀ c rpath t, readable (Conn.input c) = stream →
    ∀ a ∈ Sync.syncRecvAccesses c rpath t, a.InBounds
  syncSend : ∀ apk c lfile rpath mtime mode verifyApk, readable (Conn.input c) = stream →
    ∀ a ∈ Sync.syncSendAccesses apk c lfile rpath mtime mode verifyApk, a.InBounds
  adbConnect : ∀ reads, arrived reads = stream → ∀ a ∈ versionAccesses reads, a.InBounds

theorem client_decoders_in_bounds_iff (stream : Bytes) :
    DecodersInBounds stream ↔ ¬(Sync.NegativeDent stream ∨ Sync.NegativeData stream ∨
      Sync.NegativeStatus stream ∨ NegativeVersion stream) := by
  have hls := Sync.syncLs_inBounds_iff stream
  have hrecv := Sync.syncRecv_inBounds_iff stream
  have hsend := Sync.syncSend_inBounds_iff stream
  have hversion := version_inBounds_iff stream
  simp only [not_or]
  constructor
  · intro h
    exact ⟨hls.mp h.syncLs, hrecv.mp h.syncRecv, hsend.mp h.syncSend, hversion.mp h.adbConnect⟩
  · rintro ⟨hdent, hdata, hstatus, hlength⟩
    exact ⟨hls.mpr hdent, hrecv.mpr hdata, hsend.mpr hstatus, hversion.mpr hlength⟩

-- A DENT record whose length is 2^32 - 1.
theorem negative_name_length :
    ¬DecodersInBounds (Sync.syncmsg [Sync.ID_DENT, 0, 0, 0, 0xFFFFFFFF]) := by
  intro h
  have hdent : Sync.NegativeDent (Sync.syncmsg [Sync.ID_DENT, 0, 0, 0, 0xFFFFFFFF] ++ []) :=
    .here _ [] (by decide) (by decide) (by decide)
  rw [List.append_nil] at hdent
  exact (Sync.syncLs_inBounds_iff _).mp h.syncLs hdent

end Version

end Adb.Client
