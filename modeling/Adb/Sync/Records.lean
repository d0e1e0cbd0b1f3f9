import Adb.Sync.Exchange

namespace Adb.Sync

-- A stream that begins with DATA records of up to SYNC_DATA_MAX bytes and a DONE
-- record, and what the DATA records carry.
inductive Records : List UInt8 → List UInt8 → Prop where
  | done (msg rest : List UInt8) : msg.length = 8 → wordAt msg 0 = ID_DONE →
      Records (msg ++ rest) []
  | data (msg payload rest bytes : List UInt8) : msg.length = 8 → wordAt msg 0 = ID_DATA →
      (wordAt msg 1).toNat = payload.length → payload.length ≤ SYNC_DATA_MAX →
      Records rest bytes → Records (msg ++ (payload ++ rest)) (payload ++ bytes)

section Records

variable {stream bytes tail : List UInt8}

-- How a stream of records compares with what its sender has written.
theorem Records.header {id n : UInt32} (h : Records stream bytes)
    (hp : stream <+: syncmsg [id, n] ++ tail) :
    (id = ID_DONE ∧ bytes = []) ∨ (id = ID_DATA ∧ ∃ payload rest more,
      payload.length = n.toNat ∧ bytes = payload ++ more ∧ payload ++ rest <+: tail ∧
        stream.length = 8 + (payload ++ rest).length ∧ Records rest more) := by
  have hid : wordAt (syncmsg [id, n]) 0 = id := wordAt_self _ 0 (by simp)
  have hn : wordAt (syncmsg [id, n]) 1 = n := wordAt_self _ 1 (by simp)
  have h8 : (syncmsg [id, n]).length = 8 := by simp
  obtain ⟨u, hu⟩ := hp
  cases h with
  | done msg rest hlen hdone =>
      rw [List.append_assoc] at hu
      obtain ⟨rfl, -⟩ := List.append_inj hu (hlen.trans h8.symm)
      exact .inl ⟨hid.symm.trans hdone, rfl⟩
  | data msg payload rest more hlen hdata hsize _ hrest =>
      rw [List.append_assoc] at hu
      obtain ⟨rfl, ht⟩ := List.append_inj hu (hlen.trans h8.symm)
      refine .inr ⟨hid.symm.trans hdata, payload, rest, more, ?_, rfl, ⟨u, ht⟩, ?_, hrest⟩
      · rw [← hsize, hn]
      · rw [List.length_append, hlen]

theorem Records.of_data {chunk : List UInt8} (h : Records stream bytes)
    (hmax : chunk.length ≤ SYNC_DATA_MAX) (hp : stream <+: dataRecord chunk ++ tail) :
    ∃ rest more, bytes = chunk ++ more ∧ rest <+: tail ∧ Records rest more ∧
      stream.length = 8 + chunk.length + rest.length := by
  have hn := toNat_chunk hmax
  rw [dataRecord, List.append_assoc] at hp
  obtain ⟨hid, -⟩ | ⟨-, payload, rest, more, hlen, hbytes, ht, hs, hrest⟩ := h.header hp
  · exact absurd hid (by decide)
  · obtain ⟨u, hu⟩ := ht
    rw [List.append_assoc] at hu
    obtain ⟨rfl, htail⟩ := List.append_inj hu (hlen.trans hn)
    refine ⟨rest, more, hbytes, ⟨u, htail⟩, hrest, ?_⟩
    rw [hs, List.length_append, Nat.add_assoc]

theorem not_records_fail {text : List UInt8} (hp : stream <+: failRecord text) :
    ¬Records stream bytes := by
  intro h
  obtain ⟨hid, -⟩ | ⟨hid, -⟩ := h.header hp
  · exact absurd hid (by decide)
  · exact absurd hid (by decide)

theorem Records.length (h : Records stream bytes) : 8 ≤ stream.length := by
  cases h with
  | done msg rest hlen _ =>
      rw [List.length_append]
      omega
  | data msg payload rest bytes hlen =>
      rw [List.length_append]
      omega

end Records

end Adb.Sync
