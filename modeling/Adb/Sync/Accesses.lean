import Adb.Sync.Pull
import Adb.Sync.Push

namespace Adb.Sync

open Adb.Lib

-- What a decoder does to a buffer of cap bytes: a readx of a length, an int in the
-- source, or a NUL stored at an index.
inductive Access where
  | read (cap : Nat) (len : Int)
  | storeNul (cap : Nat) (i : Int)
deriving DecidableEq

def Access.InBounds : Access → Prop
  | .read cap len => 0 ≤ len ∧ len ≤ cap
  | .storeNul cap i => 0 ≤ i ∧ i < cap

instance : DecidablePred Access.InBounds
  | .read cap len => inferInstanceAs (Decidable (0 ≤ len ∧ len ≤ cap))
  | .storeNul cap i => inferInstanceAs (Decidable (0 ≤ i ∧ i < cap))

-- The accesses of sync_ls to buf. Nothing is said of what comes after a read that
-- runs over the buffer.
def lsAccesses : Nat → Conn → List Access
  | 0, _ => []
  | fuel + 1, c =>
      match c.readx 20 with
      | .failed _ _ => []
      | .done msg c =>
          if wordAt msg 0 ≠ ID_DENT then
            []
          else
            let len := asInt (wordAt msg 4)
            if len > 256 then
              []
            else
              .read 257 len ::
                match readInto 257 c (asSize len) with
                | .ok (.done _ c) => .storeNul 257 len :: lsAccesses fuel c
                | _ => []

-- Those of the message of a FAIL record, which sync_send and sync_recv read alike.
def messageAccesses (c : Conn) (msg : List UInt8) : List Access :=
  if wordAt msg 0 = ID_FAIL then
    let len := asInt (wordAt msg 1)
    let len := if len > 256 then 256 else len
    .read SYNC_DATA_MAX len ::
      match readInto SYNC_DATA_MAX c (asSize len) with
      | .ok (.done _ _) => [.storeNul SYNC_DATA_MAX len]
      | _ => []
  else
    []

-- Those of the loop of sync_recv to its buffer.
def recvAccesses : Nat → Conn → LocalTarget → List UInt8 → List Access
  | 0, _, _, _ => []
  | fuel + 1, c, t, msg =>
      if wordAt msg 0 = ID_DONE then
        []
      else if wordAt msg 0 ≠ ID_DATA then
        messageAccesses c msg
      else
        let len := asInt (wordAt msg 1)
        if len > SYNC_DATA_MAX then
          []
        else
          .read SYNC_DATA_MAX len ::
            match readInto SYNC_DATA_MAX c (asSize len) with
            | .ok (.done buffer c) =>
                match t.writex buffer with
                | .failed _ => []
                | .done t =>
                    match c.readx 8 with
                    | .failed _ _ => []
                    | .done msg c => recvAccesses fuel c t msg
            | _ => []

-- Those of sync_recv once the request is sent, and those of sync_send behind the
-- DONE record.
def answerAccesses (c : Conn) (t : LocalTarget) : List Access :=
  match c.readx 8 with
  | .failed _ _ => []
  | .done msg c =>
      if wordAt msg 0 = ID_DATA ∨ wordAt msg 0 = ID_DONE then
        let t := t.unlink
        if t.creates then
          recvAccesses ((stored c.input).length + 1) c { t with file := some [] } msg
        else
          []
      else
        messageAccesses c msg

def statusAccesses (c : Conn) (mtime : UInt32) : List Access :=
  match c.writex (syncmsg [ID_DONE, mtime]) with
  | .failed _ => []
  | .done c =>
      match c.readx 8 with
      | .failed _ _ => []
      | .done msg c => if wordAt msg 0 = ID_OKAY then [] else messageAccesses c msg

-- The accesses of the three functions.
def syncLsAccesses (c : Conn) (path : List UInt8) : List Access :=
  if path.length > 1024 then
    []
  else
    match c.writeAll [syncmsg [ID_LIST, UInt32.ofNat path.length], path] with
    | .failed _ => []
    | .done c => lsAccesses ((stored c.input).length + 1) c

def syncRecvAccesses (c : Conn) (rpath : List UInt8) (t : LocalTarget) : List Access :=
  if rpath.length > 1024 then
    []
  else
    match c.writeAll (recvRequest rpath) with
    | .failed _ => []
    | .done c => answerAccesses c t

def syncSendAccesses (apk : ApkCheck) (c : Conn) (lfile : Option LocalFile) (rpath : List UInt8)
    (mtime mode : UInt32) (verifyApk : Bool) : List Access :=
  if rpath.length > 1024 then
    []
  else
    match if verifyApk then readApk apk lfile else .ok [] with
    | .error _ => []
    | .ok fileBuffer =>
        match c.writeAll (sendRequest rpath mode) with
        | .failed _ => []
        | .done c =>
            if verifyApk then
              statusAccesses (writeDataBuffer fileBuffer.length c fileBuffer).2 mtime
            else if mode &&& S_IFMT = S_IFREG then
              statusAccesses (writeDataFile c lfile).2 mtime
            else
              []

section Reads

variable {c : Conn} {msg rest : List UInt8} {cap len : Nat}

theorem readInto_cases (c : Conn) (hcap : len ≤ cap) :
    (∃ input, readInto cap c len = .ok (.done ((readable c.input).take len) { c with input }) ∧
        readable input = (readable c.input).drop len ∧ len ≤ (readable c.input).length) ∨
      ∃ bytes c', readInto cap c len = .ok (.failed bytes c') := by
  by_cases hle : len ≤ (readable c.input).length
  · obtain ⟨input, he, hin⟩ := readInto_done (c := c) cap len (List.take_append_drop len _).symm
      (List.length_take_of_le hle) hcap
    exact .inl ⟨input, he, hin, hle⟩
  · obtain ⟨input, he⟩ := readInto_short (c := c) cap len (by omega) (by omega)
    exact .inr ⟨_, _, he⟩

theorem asInt_nonneg {w : UInt32} (h : w.toNat < 2147483648) : asInt w = w.toNat := by
  rw [asInt_eq, if_pos h]

theorem asInt_negative {w : UInt32} (h : 2147483648 ≤ w.toNat) : asInt w < 0 := by
  have hlt := w.toNat_lt
  rw [asInt_eq, if_neg (by omega)]
  omega

-- A message is read in bounds unless its length is negative as an int.
theorem messageAccesses_inBounds (c : Conn) (msg : List UInt8) :
    (∀ a ∈ messageAccesses c msg, a.InBounds) ↔
      ¬(wordAt msg 0 = ID_FAIL ∧ 2147483648 ≤ (wordAt msg 1).toNat) := by
  unfold messageAccesses
  by_cases hid : wordAt msg 0 = ID_FAIL
  case neg => simp [hid]
  rw [if_pos hid]
  by_cases hneg : 2147483648 ≤ (wordAt msg 1).toNat
  · have hlt := asInt_negative hneg
    have hlen : ¬asInt (wordAt msg 1) > 256 := by omega
    simp only [if_neg hlen]
    refine ⟨fun h => ?_, fun h => absurd ⟨hid, hneg⟩ h⟩
    have hread := h _ (List.mem_cons_self ..)
    simp only [Access.InBounds] at hread
    omega
  · have hint := asInt_nonneg (Nat.lt_of_not_le hneg)
    refine ⟨fun _ hbad => hneg hbad.2, fun _ a ha => ?_⟩
    simp only [SYNC_DATA_MAX] at ha
    obtain rfl | ha := List.mem_cons.mp ha
    · simp only [Access.InBounds, hint]
      split <;> omega
    · split at ha
      · obtain rfl := List.mem_singleton.mp ha
        simp only [Access.InBounds, hint]
        split <;> omega
      · cases ha

end Reads

-- A DENT record with a length that is negative as an int, behind records that
-- sync_ls reads.
inductive NegativeDent : List UInt8 → Prop where
  | here (msg rest : List UInt8) : msg.length = 20 → wordAt msg 0 = ID_DENT →
      2147483648 ≤ (wordAt msg 4).toNat → NegativeDent (msg ++ rest)
  | entry (msg name rest : List UInt8) : msg.length = 20 → wordAt msg 0 = ID_DENT →
      (wordAt msg 4).toNat = name.length → name.length ≤ 256 →
      NegativeDent rest → NegativeDent (msg ++ (name ++ rest))

section Listing

variable {c : Conn} {stream msg rest : List UInt8}

theorem lsAccesses_inBounds (fuel : Nat) (c : Conn) (h : ¬NegativeDent (readable c.input)) :
    ∀ a ∈ lsAccesses fuel c, a.InBounds := by
  induction fuel generalizing c with
  | zero =>
      intro a ha
      cases ha
  | succ fuel ih =>
      intro a ha
      rw [lsAccesses] at ha
      obtain ⟨input, he, hin, h20⟩ | ⟨input, he, -⟩ := c.readx_cases 20
      case inr =>
        rw [he] at ha
        cases ha
      have hmsg := List.length_take_of_le h20
      have hsplit : readable c.input = (readable c.input).take 20 ++ readable input := by
        rw [hin, List.take_append_drop]
      rw [he] at ha
      generalize (readable c.input).take 20 = msg at ha hmsg hsplit
      dsimp only at ha
      by_cases hid : wordAt msg 0 = ID_DENT
      case neg =>
        rw [if_pos hid] at ha
        cases ha
      rw [if_neg (not_not.mpr hid)] at ha
      by_cases hneg : 2147483648 ≤ (wordAt msg 4).toNat
      · rw [hsplit] at h
        exact absurd (.here msg _ hmsg hid hneg) h
      have hint := asInt_nonneg (Nat.lt_of_not_le hneg)
      rw [hint] at ha
      by_cases hlong : ((wordAt msg 4).toNat : Int) > 256
      · rw [if_pos hlong] at ha
        cases ha
      have hsize : asSize ((wordAt msg 4).toNat : Int) = (wordAt msg 4).toNat := asSize_natCast (by omega)
      rw [if_neg hlong, hsize] at ha
      have hle : (wordAt msg 4).toNat ≤ 256 := by omega
      obtain rfl | ha := List.mem_cons.mp ha
      · simp only [Access.InBounds]
        omega
      have hcap : (wordAt msg 4).toNat ≤ 257 := Nat.le_succ_of_le hle
      obtain ⟨input', he', hin', hname⟩ | ⟨bytes, c', he'⟩ := readInto_cases { c with input } hcap
      case inr =>
        rw [he'] at ha
        cases ha
      rw [he'] at ha
      obtain rfl | ha := List.mem_cons.mp ha
      · simp only [Access.InBounds]
        omega
      apply ih { c with input := input' } (fun hrest => h ?_) a ha
      have hlen := List.length_take_of_le hname
      have hname' : readable input = (readable input).take (wordAt msg 4).toNat ++ readable input' := by
        rw [hin', List.take_append_drop]
      rw [hsplit, hname']
      exact .entry msg _ _ hmsg hid hlen.symm (by rw [hlen]; exact hle) hrest

theorem NegativeDent.out_of_bounds (h : NegativeDent stream) (hin : readable c.input = stream) (fuel : Nat)
    (hfuel : stream.length < fuel) : ∃ a ∈ lsAccesses fuel c, ¬a.InBounds := by
  induction h generalizing c fuel with
  | here msg rest hmsg hid hneg =>
      obtain ⟨fuel, rfl⟩ := Nat.exists_eq_add_one_of_ne_zero (by omega : fuel ≠ 0)
      obtain ⟨input, he, -⟩ := Conn.readx_take 20 hin hmsg
      have hlt := asInt_negative hneg
      rw [lsAccesses, he]
      dsimp only
      rw [if_neg (not_not.mpr hid), if_neg (by omega)]
      refine ⟨_, List.mem_cons_self .., ?_⟩
      simp only [Access.InBounds]
      omega
  | entry msg name rest hmsg hid hlen hmax _ ih =>
      obtain ⟨fuel, rfl⟩ := Nat.exists_eq_add_one_of_ne_zero (by omega : fuel ≠ 0)
      obtain ⟨input, he, hin'⟩ := Conn.readx_take 20 hin hmsg
      have hint : asInt (wordAt msg 4) = name.length := by
        rw [asInt_nonneg (by omega), hlen]
      have hsize : asSize (name.length : Int) = name.length := asSize_natCast (by omega)
      obtain ⟨input', he', hin''⟩ :=
        readInto_done (c := { c with input }) 257 name.length hin' rfl (by omega)
      rw [lsAccesses, he]
      dsimp only
      rw [if_neg (not_not.mpr hid), hint, if_neg (by omega), hsize, he']
      simp only [List.length_append] at hfuel
      obtain ⟨a, ha, hout⟩ := ih (c := { c with input := input' }) hin'' fuel (by omega)
      exact ⟨a, List.mem_cons_of_mem _ (List.mem_cons_of_mem _ ha), hout⟩

-- While the accesses are in bounds, nothing runs over.
theorem lsLoop_ok (fuel : Nat) (c : Conn) (listed : List Listed)
    (h : ∀ a ∈ lsAccesses fuel c, a.InBounds) : ∃ result, lsLoop fuel c listed = .ok result := by
  induction fuel generalizing c listed with
  | zero => exact ⟨_, rfl⟩
  | succ fuel ih =>
      rw [lsAccesses] at h
      rw [lsLoop]
      cases hx : c.readx 20 with
      | failed bytes c' => exact ⟨_, rfl⟩
      | done msg c' =>
          rw [hx] at h
          dsimp only at h ⊢
          by_cases hdone : wordAt msg 0 = ID_DONE
          · exact ⟨_, if_pos hdone⟩
          rw [if_neg hdone]
          by_cases hid : wordAt msg 0 = ID_DENT
          case neg => exact ⟨_, if_pos hid⟩
          rw [if_neg (not_not.mpr hid)] at h ⊢
          by_cases hlong : asInt (wordAt msg 4) > 256
          · exact ⟨_, if_pos hlong⟩
          rw [if_neg hlong] at h ⊢
          have hread := h _ (List.mem_cons_self ..)
          simp only [Access.InBounds] at hread
          have hlt := (wordAt msg 4).toNat_lt
          have hle : asSize (asInt (wordAt msg 4)) ≤ 257 := by
            rw [asSize]
            omega
          obtain ⟨input, he, -⟩ | ⟨bytes, c'', he⟩ := readInto_cases c' hle
          · rw [he] at h ⊢
            exact ih _ _ fun a ha => h a (List.mem_cons_of_mem _ (List.mem_cons_of_mem _ ha))
          · rw [he]
            exact ⟨_, rfl⟩

end Listing

-- A DATA or FAIL record with such a length, behind DATA records that sync_recv
-- reads.
inductive NegativeData : List UInt8 → Prop where
  | here (msg rest : List UInt8) : msg.length = 8 →
      wordAt msg 0 = ID_DATA ∨ wordAt msg 0 = ID_FAIL → 2147483648 ≤ (wordAt msg 1).toNat →
      NegativeData (msg ++ rest)
  | data (msg payload rest : List UInt8) : msg.length = 8 → wordAt msg 0 = ID_DATA →
      (wordAt msg 1).toNat = payload.length → payload.length ≤ SYNC_DATA_MAX →
      NegativeData rest → NegativeData (msg ++ (payload ++ rest))

section Receiving

variable {c : Conn} {t : LocalTarget} {stream msg rest : List UInt8}

theorem recvAccesses_inBounds (fuel : Nat) (c : Conn) (t : LocalTarget) (hmsg : msg.length = 8)
    (h : ¬NegativeData (msg ++ readable c.input)) :
    ∀ a ∈ recvAccesses fuel c t msg, a.InBounds := by
  induction fuel generalizing c t msg with
  | zero =>
      intro a ha
      cases ha
  | succ fuel ih =>
      intro a ha
      rw [recvAccesses] at ha
      by_cases hdone : wordAt msg 0 = ID_DONE
      · rw [if_pos hdone] at ha
        cases ha
      rw [if_neg hdone] at ha
      by_cases hid : wordAt msg 0 = ID_DATA
      case neg =>
        rw [if_pos hid] at ha
        refine (messageAccesses_inBounds c msg).mpr (fun hbad => h ?_) a ha
        exact .here msg _ hmsg (.inr hbad.1) hbad.2
      rw [if_neg (not_not.mpr hid)] at ha
      by_cases hneg : 2147483648 ≤ (wordAt msg 1).toNat
      · exact absurd (.here msg _ hmsg (.inl hid) hneg) h
      have hint := asInt_nonneg (Nat.lt_of_not_le hneg)
      rw [hint] at ha
      by_cases hlong : ((wordAt msg 1).toNat : Int) > SYNC_DATA_MAX
      · rw [if_pos hlong] at ha
        cases ha
      have hsize : asSize ((wordAt msg 1).toNat : Int) = (wordAt msg 1).toNat := asSize_natCast (by omega)
      rw [if_neg hlong, hsize] at ha
      have hle : (wordAt msg 1).toNat ≤ SYNC_DATA_MAX := by omega
      obtain rfl | ha := List.mem_cons.mp ha
      · simp only [Access.InBounds]
        omega
      obtain ⟨input, he, hin, hdata⟩ | ⟨bytes, c', he⟩ := readInto_cases c hle
      case inr =>
        rw [he] at ha
        cases ha
      rw [he] at ha
      simp only [LocalTarget.writex] at ha
      cases hw : writex t.writes ((readable c.input).take (wordAt msg 1).toNat) with
      | failed taken e after =>
          rw [hw] at ha
          cases ha
      | done after =>
          rw [hw] at ha
          dsimp only at ha
          obtain ⟨input', he', hin', h8⟩ | ⟨input', he', -⟩ := Conn.readx_cases { c with input } 8
          case inr =>
            rw [he'] at ha
            cases ha
          rw [he'] at ha
          have hlen := List.length_take_of_le hdata
          refine ih _ _ (List.length_take_of_le h8) (fun hrest => h ?_) a ha
          rw [hin', List.take_append_drop, hin] at hrest
          rw [← List.take_append_drop (wordAt msg 1).toNat (readable c.input)]
          exact .data msg _ _ hmsg hid hlen.symm (by rw [hlen]; exact hle) hrest

theorem NegativeData.length (h : NegativeData stream) : 8 ≤ stream.length := by
  cases h with
  | here msg rest hlen =>
      rw [List.length_append]
      omega
  | data msg payload rest hlen =>
      rw [List.length_append]
      omega

theorem NegativeData.out_of_bounds (h : NegativeData stream) (fuel : Nat)
    (hfuel : (readable c.input).length < fuel) (hmsg : msg.length = 8) (hin : stream = msg ++ readable c.input)
    (hwrites : t.writes = []) : ∃ a ∈ recvAccesses fuel c t msg, ¬a.InBounds := by
  induction h generalizing c t msg fuel with
  | here msg' rest hmsg' hid hneg =>
      obtain ⟨rfl, -⟩ := List.append_inj hin (hmsg'.trans hmsg.symm)
      obtain ⟨fuel, rfl⟩ := Nat.exists_eq_add_one_of_ne_zero (by omega : fuel ≠ 0)
      have hdone : wordAt msg' 0 ≠ ID_DONE := by
        obtain hid | hid := hid <;> rw [hid] <;> decide
      have hlt := asInt_negative hneg
      rw [recvAccesses, if_neg hdone]
      by_cases hdata : wordAt msg' 0 = ID_DATA
      · rw [if_neg (not_not.mpr hdata)]
        dsimp only
        rw [if_neg (by simp only [SYNC_DATA_MAX]; omega)]
        refine ⟨_, List.mem_cons_self .., ?_⟩
        simp only [Access.InBounds]
        omega
      · rw [if_pos hdata]
        by_contra hall
        have hgood := (messageAccesses_inBounds c msg').mp fun a ha => by
          by_contra hout
          exact hall ⟨a, ha, hout⟩
        exact hgood ⟨hid.resolve_left hdata, hneg⟩
  | data msg' payload rest hmsg' hid hlen hmax hrest ih =>
      obtain ⟨rfl, hmore⟩ := List.append_inj hin (hmsg'.trans hmsg.symm)
      obtain ⟨fuel, rfl⟩ := Nat.exists_eq_add_one_of_ne_zero (by omega : fuel ≠ 0)
      have hdone : wordAt msg' 0 ≠ ID_DONE := by rw [hid]; decide
      simp only [SYNC_DATA_MAX] at hmax
      have hint : asInt (wordAt msg' 1) = payload.length := by
        rw [asInt_nonneg (by omega), hlen]
      have hsize : asSize (payload.length : Int) = payload.length := asSize_natCast (by omega)
      obtain ⟨input, he, hin'⟩ := readInto_done (c := c) SYNC_DATA_MAX payload.length hmore.symm rfl hmax
      have h8 := hrest.length
      obtain ⟨input', he', hin''⟩ := Conn.readx_take (c := { c with input }) 8
        (hin'.trans (List.take_append_drop 8 rest).symm) (List.length_take_of_le h8)
      have hw : writex t.writes payload = .done [] := by
        rw [hwrites]
        rfl
      rw [recvAccesses, if_neg hdone, if_neg (not_not.mpr hid)]
      dsimp only
      rw [hint, if_neg (by simp only [SYNC_DATA_MAX]; omega), hsize, he]
      simp only [LocalTarget.writex, hw, he']
      rw [← hmore, List.length_append] at hfuel
      have hleft : (readable input').length < fuel := by
        rw [hin'', List.length_drop]
        omega
      obtain ⟨a, ha, hout⟩ := ih (c := { c with input := input' })
        (t := { t.append payload with writes := [] }) fuel hleft
        (List.length_take_of_le h8) (by rw [hin'', List.take_append_drop]) rfl
      exact ⟨a, List.mem_cons_of_mem _ ha, hout⟩

-- A message whose accesses are in bounds is read.
theorem readMessage_ok (hid : wordAt msg 0 = ID_FAIL) (h : ∀ a ∈ messageAccesses c msg, a.InBounds) :
    ∃ read, readInto SYNC_DATA_MAX c
      (asSize (if asInt (wordAt msg 1) > 256 then 256 else asInt (wordAt msg 1))) = .ok read := by
  rw [messageAccesses, if_pos hid] at h
  have hread := h _ (List.mem_cons_self ..)
  generalize (if asInt (wordAt msg 1) > 256 then (256 : Int) else asInt (wordAt msg 1)) = len at hread
  simp only [Access.InBounds] at hread
  have hle : asSize len ≤ SYNC_DATA_MAX := by
    simp only [SYNC_DATA_MAX] at hread ⊢
    rw [asSize]
    omega
  obtain ⟨input, he, -⟩ | ⟨bytes, c', he⟩ := readInto_cases c hle
  · exact ⟨_, he⟩
  · exact ⟨_, he⟩

theorem remoteError_ok (c : Conn) (t : LocalTarget) (msg : List UInt8)
    (h : ∀ a ∈ messageAccesses c msg, a.InBounds) : ∃ result, remoteError c t msg = .ok result := by
  unfold remoteError
  by_cases hid : wordAt msg 0 = ID_FAIL
  case neg => exact ⟨_, if_neg hid⟩
  obtain ⟨read, he⟩ := readMessage_ok hid h
  rw [if_pos hid]
  dsimp only
  rw [he]
  cases read <;> exact ⟨_, rfl⟩

theorem recvLoop_ok (fuel : Nat) (c : Conn) (t : LocalTarget) (msg : List UInt8)
    (h : ∀ a ∈ recvAccesses fuel c t msg, a.InBounds) : ∃ result, recvLoop fuel c t msg = .ok result := by
  induction fuel generalizing c t msg with
  | zero => exact ⟨_, rfl⟩
  | succ fuel ih =>
      rw [recvAccesses] at h
      rw [recvLoop]
      by_cases hdone : wordAt msg 0 = ID_DONE
      · exact ⟨_, if_pos hdone⟩
      rw [if_neg hdone] at h ⊢
      by_cases hid : wordAt msg 0 = ID_DATA
      case neg =>
        rw [if_pos hid] at h ⊢
        exact remoteError_ok c t msg h
      rw [if_neg (not_not.mpr hid)] at h ⊢
      dsimp only at h ⊢
      by_cases hlong : asInt (wordAt msg 1) > SYNC_DATA_MAX
      · exact ⟨_, if_pos hlong⟩
      rw [if_neg hlong] at h ⊢
      have hread := h _ (List.mem_cons_self ..)
      simp only [Access.InBounds] at hread
      have hle : asSize (asInt (wordAt msg 1)) ≤ SYNC_DATA_MAX := by
        simp only [SYNC_DATA_MAX] at hread ⊢
        rw [asSize]
        omega
      obtain ⟨input, he, -⟩ | ⟨bytes, c', he⟩ := readInto_cases c hle
      case inr =>
        rw [he]
        exact ⟨_, rfl⟩
      rw [he] at h ⊢
      dsimp only at h ⊢
      cases hw : t.writex ((readable c.input).take (asSize (asInt (wordAt msg 1)))) with
      | failed t' => exact ⟨_, rfl⟩
      | done t' =>
          rw [hw] at h
          dsimp only at h ⊢
          cases hx : Conn.readx { c with input } 8 with
          | failed bytes c' => exact ⟨_, rfl⟩
          | done next c' =>
              rw [hx] at h
              exact ih c' t' next fun a ha => h a (List.mem_cons_of_mem _ ha)

end Receiving

-- A FAIL status with such a length.
def NegativeStatus (stream : List UInt8) : Prop :=
  8 ≤ stream.length ∧ wordAt stream 0 = ID_FAIL ∧ 2147483648 ≤ (wordAt stream 1).toNat

section Decoders

variable {c : Conn} {stream : List UInt8}

theorem writeAll_input {c c' : Conn} {parts : List (List UInt8)} (h : c.writeAll parts = .done c') :
    c'.input = c.input := by
  have hsends := c.writeAll_sends parts
  rw [h] at hsends
  exact hsends.1

theorem writeDataBuffer_input (fuel : Nat) (c : Conn) (bytes : List UInt8) :
    (writeDataBuffer fuel c bytes).2.input = c.input := by
  rw [writeDataBuffer_eq]
  exact (sendChunks_output c _).1

theorem writeDataFile_input (c : Conn) (lfile : Option LocalFile) :
    (writeDataFile c lfile).2.input = c.input := by
  cases lfile with
  | none => rfl
  | some file =>
      simp only [writeDataFile]
      rw [writeDataLoop_eq]
      exact (sendChunks_output c _).1

theorem wordAt_head {i : Nat} (hi : i < 2) (stream : List UInt8) :
    wordAt (stream.take 8) i = wordAt stream i := by
  rw [wordAt, wordAt, List.drop_take, List.take_take, Nat.min_eq_left (by omega)]

-- A connection over which a stream comes, and whose writes go well.
def incoming (stream : List UInt8) : Conn := ⟨segmentOf stream, [], [], false⟩

theorem readable_incoming (stream : List UInt8) : readable (incoming stream).input = stream := by
  cases stream <;> simp [incoming, segmentOf, readable]

theorem writeAll_incoming (stream : List UInt8) (parts : List (List UInt8)) :
    ∃ c, (incoming stream).writeAll parts = .done c ∧ readable c.input = stream ∧ Healthy c.writes := by
  obtain ⟨writes, he, hw⟩ := Conn.writeAll_healthy (c := incoming stream) healthy_nil parts
  exact ⟨_, he, readable_incoming stream, hw⟩

theorem NegativeData.head (h : NegativeData stream) :
    wordAt stream 0 = ID_DATA ∨ wordAt stream 0 = ID_FAIL ∧ 2147483648 ≤ (wordAt stream 1).toNat := by
  cases h with
  | here msg rest hmsg hid hneg =>
      rw [← wordAt_head (by decide), ← wordAt_head (by decide) (msg ++ rest), List.take_left' hmsg]
      exact hid.imp_right fun hfail => ⟨hfail, hneg⟩
  | data msg payload rest hmsg hid =>
      rw [← wordAt_head (by decide), List.take_left' hmsg]
      exact .inl hid

theorem syncLs_inBounds_iff (stream : List UInt8) :
    (∀ c path, readable c.input = stream → ∀ a ∈ syncLsAccesses c path, a.InBounds) ↔
      ¬NegativeDent stream := by
  constructor
  · intro h hneg
    obtain ⟨c, hsent, hin, -⟩ := writeAll_incoming stream [syncmsg [ID_LIST, 0], []]
    have hfuel : stream.length < (stored c.input).length + 1 := by
      have hle := (prefix_readable c.input).length_le
      rw [hin] at hle
      omega
    obtain ⟨a, ha, hout⟩ := hneg.out_of_bounds hin _ hfuel
    refine hout (h (incoming stream) [] (readable_incoming stream) a ?_)
    rw [syncLsAccesses, if_neg (by simp)]
    exact (congrArg (a ∈ ·) (by rw [show (UInt32.ofNat ([] : List UInt8).length) = 0 from rfl, hsent])).mpr ha
  · intro h c path hin
    rw [syncLsAccesses]
    split
    · simp
    · split
      · simp
      · rename_i c' hsent
        exact lsAccesses_inBounds _ c' (by rw [writeAll_input hsent, hin]; exact h)

theorem answerAccesses_inBounds (c : Conn) (t : LocalTarget) (h : ¬NegativeData (readable c.input)) :
    ∀ a ∈ answerAccesses c t, a.InBounds := by
  intro a ha
  rw [answerAccesses] at ha
  obtain ⟨input, he, hin, h8⟩ | ⟨input, he, -⟩ := c.readx_cases 8
  case inr =>
    rw [he] at ha
    cases ha
  rw [he] at ha
  have hmsg := List.length_take_of_le h8
  have hsplit : (readable c.input).take 8 ++ readable input = readable c.input := by
    rw [hin, List.take_append_drop]
  rw [← hsplit] at h
  dsimp only at ha
  split at ha
  · split at ha
    · exact recvAccesses_inBounds _ { c with input } _ hmsg h a ha
    · cases ha
  · exact (messageAccesses_inBounds { c with input } _).mpr
      (fun hbad => h (.here _ _ hmsg (.inr hbad.1) hbad.2)) a ha

-- A local file that can be made and written.
theorem NegativeData.answer (h : NegativeData stream) (hin : readable c.input = stream) :
    ∃ a ∈ answerAccesses c ⟨none, true, true, []⟩, ¬a.InBounds := by
  have h8 := h.length
  have hmsg := List.length_take_of_le h8
  obtain ⟨input, he, hrest⟩ := Conn.readx_take 8 (hin.trans (List.take_append_drop 8 stream).symm) hmsg
  rw [answerAccesses, he]
  dsimp only
  have hhead := h.head
  rw [← wordAt_head (by decide), ← wordAt_head (by decide) stream] at hhead
  obtain hdata | ⟨hfail, hneg⟩ := hhead
  · rw [if_pos (.inl hdata), if_pos (by rfl)]
    have hle := (prefix_readable input).length_le
    exact h.out_of_bounds (c := { c with input }) _ (Nat.lt_succ_of_le hle) hmsg
      (by rw [hrest, List.take_append_drop]) rfl
  · have hother : ¬(wordAt (stream.take 8) 0 = ID_DATA ∨ wordAt (stream.take 8) 0 = ID_DONE) := by
      rw [hfail]
      decide
    rw [if_neg hother]
    by_contra hall
    have hgood := (messageAccesses_inBounds { c with input } (stream.take 8)).mp fun a ha => by
      by_contra hout
      exact hall ⟨a, ha, hout⟩
    exact hgood ⟨hfail, hneg⟩

theorem syncRecv_inBounds_iff (stream : List UInt8) :
    (∀ c rpath t, readable c.input = stream → ∀ a ∈ syncRecvAccesses c rpath t, a.InBounds) ↔
      ¬NegativeData stream := by
  constructor
  · intro h hneg
    obtain ⟨c, hsent, hin, -⟩ := writeAll_incoming stream (recvRequest [])
    obtain ⟨a, ha, hout⟩ := hneg.answer hin
    refine hout (h (incoming stream) [] ⟨none, true, true, []⟩ (readable_incoming stream) a ?_)
    rw [syncRecvAccesses, if_neg (by simp), hsent]
    exact ha
  · intro h c rpath t hin
    rw [syncRecvAccesses]
    split
    · simp
    · split
      · simp
      · rename_i c' hsent
        exact answerAccesses_inBounds c' t (by rw [writeAll_input hsent, hin]; exact h)

theorem statusAccesses_inBounds (c : Conn) (mtime : UInt32) (h : ¬NegativeStatus (readable c.input)) :
    ∀ a ∈ statusAccesses c mtime, a.InBounds := by
  intro a ha
  rw [statusAccesses] at ha
  split at ha
  · cases ha
  rename_i c' hsent
  have hinput : c'.input = c.input := by
    have hsends := c.writex_sends (syncmsg [ID_DONE, mtime])
    rw [hsent] at hsends
    exact hsends.1
  obtain ⟨input, he, -, h8⟩ | ⟨input, he, -⟩ := c'.readx_cases 8
  case inr =>
    rw [he] at ha
    cases ha
  rw [he] at ha
  rw [hinput] at ha h8
  dsimp only at ha
  split at ha
  · cases ha
  · refine (messageAccesses_inBounds _ _).mpr (fun hbad => h ⟨h8, ?_⟩) a ha
    rwa [wordAt_head (by decide), wordAt_head (by decide)] at hbad

theorem syncSend_inBounds_iff (stream : List UInt8) :
    (∀ apk c lfile rpath mtime mode verifyApk, readable c.input = stream →
        ∀ a ∈ syncSendAccesses apk c lfile rpath mtime mode verifyApk, a.InBounds) ↔
      ¬NegativeStatus stream := by
  constructor
  · rintro h ⟨h8, hfail, hneg⟩
    -- a regular file that cannot be opened here goes out as no data at all
    obtain ⟨c, hsent, hin, hw⟩ := writeAll_incoming stream (sendRequest [] S_IFREG)
    obtain ⟨writes, hdone, -⟩ := Conn.writex_healthy hw (syncmsg [ID_DONE, 0])
    obtain ⟨input, he, -⟩ := Conn.readx_take (c := c.sent (syncmsg [ID_DONE, 0]) writes) 8
      (hin.trans (List.take_append_drop 8 stream).symm) (List.length_take_of_le h8)
    have hstatus : ∀ a ∈ statusAccesses c 0, a.InBounds := by
      intro a ha
      refine h ⟨true, true, fun _ => true, fun _ => true⟩ (incoming stream) none [] 0 S_IFREG false
        (readable_incoming stream) a ?_
      rw [syncSendAccesses, if_neg (by simp)]
      simp only [Bool.false_eq_true, if_false, hsent]
      rw [if_pos (by decide)]
      exact ha
    rw [← wordAt_head (by decide)] at hfail hneg
    have hother : wordAt (stream.take 8) 0 ≠ ID_OKAY := by
      rw [hfail]
      decide
    rw [statusAccesses, hdone] at hstatus
    dsimp only at hstatus
    rw [he] at hstatus
    dsimp only at hstatus
    rw [if_neg hother] at hstatus
    exact (messageAccesses_inBounds _ _).mp hstatus ⟨hfail, hneg⟩
  · intro h apk c lfile rpath mtime mode verifyApk hin
    rw [syncSendAccesses]
    split
    · simp
    split
    · simp
    split
    · simp
    rename_i c' hsent
    have hinput := writeAll_input hsent
    split
    · exact statusAccesses_inBounds _ mtime (by rw [writeDataBuffer_input, hinput, hin]; exact h)
    split
    · exact statusAccesses_inBounds _ mtime (by rw [writeDataFile_input, hinput, hin]; exact h)
    · simp

-- What runs over a buffer in one of the three functions shows as such an access.
theorem syncLs_ok (c : Conn) (path : List UInt8) (h : ∀ a ∈ syncLsAccesses c path, a.InBounds) :
    ∃ result, syncLs c path = .ok result := by
  rw [syncLsAccesses] at h
  rw [syncLs]
  by_cases hlong : path.length > 1024
  · exact ⟨_, if_pos hlong⟩
  rw [if_neg hlong] at h ⊢
  cases hsent : c.writeAll [syncmsg [ID_LIST, UInt32.ofNat path.length], path] with
  | failed c' => exact ⟨_, rfl⟩
  | done c' =>
      rw [hsent] at h
      exact lsLoop_ok _ c' [] h

theorem syncRecv_ok (c : Conn) (rpath : List UInt8) (t : LocalTarget)
    (h : ∀ a ∈ syncRecvAccesses c rpath t, a.InBounds) : ∃ result, syncRecv c rpath t = .ok result := by
  rw [syncRecvAccesses] at h
  rw [syncRecv]
  by_cases hlong : rpath.length > 1024
  · exact ⟨_, if_pos hlong⟩
  rw [if_neg hlong] at h ⊢
  rw [recvRequest] at h
  cases hsent : c.writeAll [syncmsg [ID_RECV, UInt32.ofNat rpath.length], rpath] with
  | failed c' => exact ⟨_, rfl⟩
  | done c' =>
      rw [hsent] at h
      simp only [answerAccesses] at h
      dsimp only
      rw [recvAnswer]
      cases hread : c'.readx 8 with
      | failed bytes c'' => exact ⟨_, rfl⟩
      | done msg c'' =>
          rw [hread] at h
          dsimp only at h ⊢
          by_cases hknown : wordAt msg 0 = ID_DATA ∨ wordAt msg 0 = ID_DONE
          · rw [if_pos hknown] at h ⊢
            by_cases hcreates : t.unlink.creates = true
            · rw [if_pos hcreates] at h ⊢
              exact recvLoop_ok _ _ _ _ h
            · exact ⟨_, if_neg hcreates⟩
          · rw [if_neg hknown] at h ⊢
            exact remoteError_ok c'' t msg h

theorem finishSend_ok (c : Conn) (mtime : UInt32) (h : ∀ a ∈ statusAccesses c mtime, a.InBounds) :
    ∃ result, finishSend c mtime = .ok result := by
  rw [statusAccesses] at h
  rw [finishSend]
  cases hsent : c.writex (syncmsg [ID_DONE, mtime]) with
  | failed c' => exact ⟨_, rfl⟩
  | done c' =>
      rw [hsent] at h
      dsimp only at h ⊢
      cases hread : c'.readx 8 with
      | failed bytes c'' => exact ⟨_, rfl⟩
      | done msg c'' =>
          rw [hread] at h
          dsimp only at h ⊢
          by_cases hokay : wordAt msg 0 = ID_OKAY
          · exact ⟨_, if_pos hokay⟩
          rw [if_neg hokay] at h ⊢
          by_cases hfail : wordAt msg 0 = ID_FAIL
          case neg => exact ⟨_, if_neg hfail⟩
          obtain ⟨read, he⟩ := readMessage_ok hfail h
          rw [if_pos hfail, he]
          cases read <;> exact ⟨_, rfl⟩

theorem syncSend_ok (apk : ApkCheck) (c : Conn) (lfile : Option LocalFile) (rpath : List UInt8)
    (mtime mode : UInt32) (verifyApk : Bool)
    (h : ∀ a ∈ syncSendAccesses apk c lfile rpath mtime mode verifyApk, a.InBounds) :
    ∃ result, syncSend apk c lfile rpath mtime mode verifyApk = .ok result := by
  rw [syncSendAccesses] at h
  rw [syncSend]
  by_cases hlong : rpath.length > 1024
  · exact ⟨_, if_pos hlong⟩
  rw [if_neg hlong] at h ⊢
  cases hread : (if verifyApk = true then readApk apk lfile else Except.ok []) with
  | error code => exact ⟨_, rfl⟩
  | ok fileBuffer =>
      rw [hread] at h
      dsimp only at h ⊢
      cases hsent : c.writeAll (sendRequest rpath mode) with
      | failed c' => exact ⟨_, rfl⟩
      | done c' =>
          rw [hsent] at h
          dsimp only at h ⊢
          split
          · rename_i hverify
            rw [if_pos hverify] at h
            exact finishSend_ok _ mtime h
          rename_i hverify
          rw [if_neg hverify] at h
          split
          · rename_i hregular
            rw [if_pos hregular] at h
            exact finishSend_ok _ mtime h
          · exact ⟨_, rfl⟩

end Decoders

end Adb.Sync
