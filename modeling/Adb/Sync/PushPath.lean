import Adb.Sync.Push

namespace Adb.Sync

open Adb.Lib

section Numbers

theorem hexDigit_digit {d : Nat} (h : d < 10) : hexDigit (UInt8.ofNat (48 + d)) = some d := by
  have hall : ∀ d : Fin 10, hexDigit (UInt8.ofNat (48 + d.val)) = some d.val := by decide
  exact hall ⟨d, h⟩

theorem isDecimal_digit {d : Nat} (h : d < 10) : isDecimal (UInt8.ofNat (48 + d)) = true := by
  have hall : ∀ d : Fin 10, isDecimal (UInt8.ofNat (48 + d.val)) = true := by decide
  exact hall ⟨d, h⟩

theorem numberValue_digits (fuel n : Nat) (h : n < 10 ^ fuel) : numberValue 10 (digitsWithin fuel n) = n := by
  induction fuel generalizing n with
  | zero =>
      have hzero : n = 0 := by omega
      rw [hzero]
      rfl
  | succ fuel ih =>
      have hhead : numberValue 10 (if n < 10 then [] else digitsWithin fuel (n / 10)) = n / 10 := by
        split
        · rw [Nat.div_eq_of_lt ‹_›]
          rfl
        · refine ih (n / 10) ?_
          rw [Nat.pow_succ] at h
          omega
      have hlast := hexDigit_digit (Nat.mod_lt n (show 0 < 10 by decide))
      unfold numberValue at hhead ⊢
      rw [digitsWithin, List.foldl_append, hhead, List.foldl_cons, List.foldl_nil, hlast, Option.getD_some]
      omega

-- The first digit of a number is not zero.
theorem digitsWithin_head {fuel n : Nat} (hn : 0 < n) (h : n < 10 ^ fuel) :
    ∃ d rest, digitsWithin fuel n = UInt8.ofNat (48 + d) :: rest ∧ 0 < d ∧ d < 10 := by
  induction fuel generalizing n with
  | zero => omega
  | succ fuel ih =>
      by_cases hlt : n < 10
      · refine ⟨n, [], ?_, hn, hlt⟩
        rw [digitsWithin, if_pos hlt, Nat.mod_eq_of_lt hlt]
        rfl
      · rw [Nat.pow_succ] at h
        obtain ⟨d, rest, hdigits, hd⟩ := @ih (n / 10) (by omega) (by omega)
        refine ⟨d, rest ++ [UInt8.ofNat (48 + n % 10)], ?_, hd⟩
        rw [digitsWithin, if_neg hlt, hdigits]
        rfl

theorem takeWhile_digits (fuel n : Nat) :
    (digitsWithin fuel n).takeWhile isDecimal = digitsWithin fuel n := by
  rw [List.takeWhile_eq_self_iff]
  intro c hc
  obtain ⟨d, rfl⟩ := mem_digitsWithin hc
  exact isDecimal_digit d.isLt

-- A number is read as it was written: no digit of it is taken for the mark of
-- another base.
theorem unsignedValue_digits {n : Nat} (h : n < 2 ^ 32) : unsignedValue (digitsWithin 10 n) = n := by
  obtain rfl | hn := Nat.eq_zero_or_pos n
  · rfl
  obtain ⟨d, rest, hdigits, hd, hlt⟩ := digitsWithin_head hn (show n < 10 ^ 10 by omega)
  have hvalue := numberValue_digits 10 n (by omega)
  rw [← takeWhile_digits, hdigits] at hvalue
  have hzero : ∀ d : Fin 10, 0 < d.val → UInt8.ofNat (48 + d.val) ≠ 48 := by decide
  rw [hdigits]
  unfold unsignedValue
  split
  · rename_i heq
    exact absurd (List.cons.inj heq).1 (hzero ⟨d, hlt⟩ hd)
  · rename_i heq
    exact absurd (List.cons.inj heq).1 (hzero ⟨d, hlt⟩ hd)
  · rename_i heq
    exact absurd (List.cons.inj heq).1 (hzero ⟨d, hlt⟩ hd)
  · exact hvalue

theorem strtoul_digits {n : Nat} (h : n < 2 ^ 32) : strtoul (digitsWithin 10 n) = (n, false) := by
  have hvalue := unsignedValue_digits h
  obtain ⟨d, rest, hdigits⟩ : ∃ (d : Fin 10) (rest : List UInt8),
      digitsWithin 10 n = UInt8.ofNat (48 + d.val) :: rest := by
    obtain rfl | hn := Nat.eq_zero_or_pos n
    · exact ⟨0, [], rfl⟩
    · obtain ⟨d, rest, hdigits, -, hlt⟩ := digitsWithin_head hn (show n < 10 ^ 10 by omega)
      exact ⟨⟨d, hlt⟩, rest, hdigits⟩
  have hplain : ∀ d : Fin 10, isSpace (UInt8.ofNat (48 + d.val)) = false ∧
      UInt8.ofNat (48 + d.val) ≠ 45 ∧ UInt8.ofNat (48 + d.val) ≠ 43 := by decide
  obtain ⟨hspace, hminus, hplus⟩ := hplain d
  have hdrop : (digitsWithin 10 n).dropWhile isSpace = digitsWithin 10 n := by
    rw [hdigits, List.dropWhile_cons_of_neg (by rw [hspace]; exact Bool.false_ne_true)]
  unfold strtoul
  rw [hdrop]
  split
  · rename_i heq
    exact absurd (List.cons.inj (hdigits.symm.trans heq)).1 hminus
  · rename_i heq
    exact absurd (List.cons.inj (hdigits.symm.trans heq)).1 hplus
  · simp only [hvalue, ge_iff_le, if_neg (show ¬2 ^ 32 ≤ n by omega), Bool.false_eq_true, if_false]

theorem strtoul_minus {n : Nat} (h : n < 2 ^ 32) :
    strtoul (45 :: digitsWithin 10 n) = ((2 ^ 32 - n) % 2 ^ 32, false) := by
  have hvalue := unsignedValue_digits h
  have hdrop : (45 :: digitsWithin 10 n).dropWhile isSpace = 45 :: digitsWithin 10 n :=
    List.dropWhile_cons_of_neg (by decide)
  unfold strtoul
  rw [hdrop]
  simp only [hvalue, ge_iff_le, if_neg (show ¬2 ^ 32 ≤ n by omega), if_true]

-- The mode, which is printed as an int, comes back as the same word.
theorem strtoul_printInt (mode : UInt32) : strtoul (printInt (asInt mode)) = (mode.toNat, false) := by
  have hlt := mode.toNat_lt
  have hmod := Int.bmod_def (x := mode.toNat) (m := 2 ^ 32)
  unfold printInt asInt
  by_cases hneg : (mode.toNat : Int).bmod (2 ^ 32) < 0
  · rw [if_pos hneg, strtoul_minus (by split at hmod <;> omega)]
    split at hmod
    · omega
    · rw [show (2 ^ 32 - ((mode.toNat : Int).bmod (2 ^ 32)).natAbs) % 2 ^ 32 = mode.toNat by omega]
  · rw [if_neg hneg, strtoul_digits (by split at hmod <;> omega)]
    split at hmod
    · rw [show ((mode.toNat : Int).bmod (2 ^ 32)).natAbs = mode.toNat by omega]
    · omega

theorem suffixMode_of_value {suffix : List UInt8} {n : Nat} (h : strtoul suffix = (n, false)) :
    suffixMode suffix = n &&& 0o777 := by
  unfold suffixMode
  rw [h]
  exact if_neg Bool.false_ne_true

-- What do_send finds in the name that sync_send sends.
theorem sendTarget_request (rpath : List UInt8) (mode : UInt32) :
    sendTarget (rpath ++ modeSuffix mode) = (rpath, mode.toNat &&& 0o777) := by
  have hsplit := splitLast_comma rpath (printInt (asInt mode)) (not_comma_printInt _)
  unfold sendTarget modeSuffix
  rw [hsplit]
  exact congrArg (rpath, ·) (suffixMode_of_value (strtoul_printInt mode))

end Numbers

-- What file_sync_service takes from the connection before it looks at the command:
-- the command and the name, or the text that it fails with.
def readRequest (dev : Device) : Except (List UInt8 × Device) (UInt32 × List UInt8 × Device) :=
  match dev.conn.readx 8 with
  | .failed _ c => .error (reason "command read failure", dev.setConn c)
  | .done msg c =>
      if (wordAt msg 1).toNat > 1024 then
        .error (reason "invalid namelen", dev.setConn c)
      else
        match c.readx (wordAt msg 1).toNat with
        | .failed _ c => .error (reason "filename read failure", dev.setConn c)
        | .done name c => .ok (wordAt msg 0, textOf name, dev.setConn c)

section Request

variable {dev : Device} {c c' : Conn} {later sent : List UInt8}

theorem serveRequest_eq (dev : Device) : serveRequest dev =
    match readRequest dev with
    | .error (text, dev) => (false, (failMessage dev text).2)
    | .ok (id, name, dev) => ((serve dev id name).1 = 0, (serve dev id name).2) := by
  unfold serveRequest readRequest
  cases dev.conn.readx 8 with
  | failed bytes c => rfl
  | done msg c =>
      dsimp only
      split
      · rfl
      · cases c.readx (wordAt msg 1).toNat <;> rfl

-- A request that comes in whole is taken if its name is not too long.
theorem readRequest_of_request (id : UInt32) (name : Text) (hname : name.val.length < 4294967296)
    (hin : readable dev.conn.input = syncmsg [id, UInt32.ofNat name.val.length] ++ (name.val ++ later)) :
    if name.val.length ≤ 1024 then ∃ dev', readRequest dev = .ok (id, name, dev')
    else ∃ dev', readRequest dev = .error (reason "invalid namelen", dev') := by
  obtain ⟨input, he, hr⟩ := Conn.readx_take 8 hin (by simp)
  have hid : wordAt (syncmsg [id, UInt32.ofNat name.val.length]) 0 = id := wordAt_self _ 0 (by simp)
  have hlen : wordAt (syncmsg [id, UInt32.ofNat name.val.length]) 1 = UInt32.ofNat name.val.length :=
    wordAt_self _ 1 (by simp)
  have hnat : (UInt32.ofNat name.val.length).toNat = name.val.length :=
    UInt32.toNat_ofNat_of_lt' (show name.val.length < 2 ^ 32 by omega)
  rw [readRequest, he]
  simp only [hid, hlen, hnat]
  split
  · obtain ⟨input', he', -⟩ :=
      Conn.readx_take (c := { dev.conn with input := input }) name.val.length hr rfl
    rw [if_neg (by omega), he']
    simp only [textOf, name.property.takeWhile_ne]
    exact ⟨_, rfl⟩
  · rw [if_pos (by omega)]
    exact ⟨_, rfl⟩

end Request

section Agreement

variable {apk : ApkCheck} {c c' : Conn} {lfile : Option LocalFile} {rpath : Text}
  {mtime mode : UInt32} {verifyApk : Bool} {dev : Device} {code : Int}

def Conn.Read.conn : Conn.Read → Conn
  | .done _ c | .failed _ c => c

theorem readx_output (c : Conn) (len : Nat) : (c.readx len).conn.output = c.output := by
  unfold Conn.readx
  split <;> rfl

theorem readInto_output {cap len : Nat} {read : Conn.Read} (h : readInto cap c len = .ok read) :
    read.conn.output = c.output := by
  have hread := readx_output c len
  unfold readInto at h
  split at h
  · split at h
    · cases h
    · cases h
      rwa [‹c.readx len = _›] at hread
  · split at h
    · cases h
    · cases h
      rwa [‹c.readx len = _›] at hread

theorem finishSend_output (h : finishSend c mtime = .ok (code, c')) : c.output <+: c'.output := by
  have hsends := c.writex_sends (syncmsg [ID_DONE, mtime])
  unfold finishSend at h
  cases hw : c.writex (syncmsg [ID_DONE, mtime]) with
  | failed d =>
      rw [hw] at h hsends
      cases h
      obtain ⟨-, part, hout, -⟩ := hsends
      exact ⟨part, hout.symm⟩
  | done d =>
      rw [hw] at h hsends
      obtain ⟨-, hout⟩ := hsends
      have hsame : c'.output = d.output := by
        have hread := readx_output d 8
        dsimp only at h
        split at h
        · cases h
          rwa [‹d.readx 8 = _›] at hread
        rename_i msg e hx
        rw [hx] at hread
        split at h
        · cases h
          exact hread
        split at h
        · split at h
          · cases h
          · cases h
            exact (readInto_output ‹_›).trans hread
          · cases h
            exact (readInto_output ‹_›).trans hread
        · cases h
          exact hread
      exact ⟨_, (hsame.trans hout).symm⟩

-- sync_send sends nothing, or its request, or the beginning of it, and then more.
theorem syncSend_output (h : syncSend apk c lfile rpath mtime mode verifyApk = .ok (code, c')) :
    c'.output = c.output ∨
      rpath.val.length ≤ 1024 ∧ (verifyApk = true → ∃ buffer, readApk apk lfile = .ok buffer) ∧
        ∃ sent, c'.output = c.output ++ sent ∧
          (sent <+: (sendRequest rpath mode).flatten ∨ (sendRequest rpath mode).flatten <+: sent) := by
  have hsends := c.writeAll_sends (sendRequest rpath mode)
  unfold syncSend at h
  split at h
  · cases h
    exact .inl rfl
  rename_i hlen
  cases hapk : (if verifyApk then readApk apk lfile else .ok []) with
  | error code =>
      rw [hapk] at h
      cases h
      exact .inl rfl
  | ok buffer =>
      rw [hapk] at h
      refine .inr ⟨by omega, fun hverify => ⟨buffer, by rwa [if_pos hverify] at hapk⟩, ?_⟩
      cases hw : c.writeAll (sendRequest rpath mode) with
      | failed d =>
          rw [hw] at h hsends
          cases h
          obtain ⟨-, part, hout, hp, -⟩ := hsends
          exact ⟨part, hout, .inl hp⟩
      | done d =>
          rw [hw] at h hsends
          obtain ⟨-, hout⟩ := hsends
          have hmore : d.output <+: c'.output := by
            dsimp only at h
            split at h
            · have hchunks := (sendChunks_output d (bufferChunks buffer.length buffer)).2
              rw [writeDataBuffer_eq] at h
              obtain ⟨part, hpart, -⟩ := hchunks
              exact (List.prefix_append _ _).trans (hpart ▸ finishSend_output h)
            split at h
            · refine List.IsPrefix.trans ?_ (finishSend_output h)
              cases lfile with
              | none => exact List.prefix_rfl
              | some file =>
                  simp only [writeDataFile, writeDataLoop_eq]
                  obtain ⟨-, part, hpart, -⟩ := sendChunks_output d
                    (chunksRead (turns (cut file.data file.pattern)) (cut file.data file.pattern))
                  exact hpart ▸ List.prefix_append _ _
            · cases h
              exact List.prefix_rfl
          obtain ⟨more, hmore⟩ := hmore
          refine ⟨(sendRequest rpath mode).flatten ++ more, ?_, .inr (List.prefix_append _ _)⟩
          rw [← hmore, hout, List.append_assoc]

-- file_sync_service takes the request, and do_send finds the path and the
-- permission bits in it.
def PathAgrees (dev : Device) (rpath : Text) (mode : UInt32) : Prop :=
  ∃ name dev', readRequest dev = .ok (ID_SEND, name, dev') ∧
    sendTarget name = (rpath.val, mode.toNat &&& 0o777)

-- What has come of the sending is the request and something behind it.
theorem request_arrives (hsend : syncSend apk c lfile rpath mtime mode verifyApk = .ok (code, c'))
    (hdevice : ToDevice c c' dev)
    (hwhole : (sendRequest rpath mode).flatten.length ≤ (readable dev.conn.input).length) :
    rpath.val.length ≤ 1024 ∧ (sendRequest rpath mode).flatten <+: readable dev.conn.input := by
  obtain ⟨sent, hsent, hto⟩ := hdevice
  obtain hnone | ⟨hlen, -, sent', hsent', hrequest⟩ := syncSend_output hsend
  · have hnil : sent = [] := by
      rwa [hnone, List.self_eq_append_right] at hsent
    rw [hnil, List.prefix_nil] at hto
    rw [hto, List.length_nil] at hwhole
    simp [sendRequest] at hwhole
  · refine ⟨hlen, ?_⟩
    have hsame := List.append_cancel_left (hsent.symm.trans hsent')
    rw [← hsame] at hrequest
    obtain hpart | hall := hrequest
    · exact List.prefix_of_prefix_length_le List.prefix_rfl (hto.trans hpart) hwhole
    · exact List.prefix_of_prefix_length_le hall hto hwhole

-- Once the request has come, whether it is taken depends on the length of the path
-- and the mode behind it.
theorem pathAgrees_iff (hlen : rpath.val.length ≤ 1024)
    (hrequest : (sendRequest rpath mode).flatten <+: readable dev.conn.input) :
    PathAgrees dev rpath mode ↔ rpath.val.length + (modeSuffix mode).length ≤ 1024 := by
  obtain ⟨later, hlater⟩ := hrequest
  have htext : IsText (rpath.val ++ modeSuffix mode) :=
    isText_append.mpr ⟨rpath.property, isText_modeSuffix mode⟩
  have hin : readable dev.conn.input =
      syncmsg [ID_SEND, UInt32.ofNat (rpath.val ++ modeSuffix mode).length] ++
        ((rpath.val ++ modeSuffix mode) ++ later) := by
    rw [← hlater]
    simp [sendRequest]
  have hsuffix := length_modeSuffix mode
  have hread := readRequest_of_request ID_SEND ⟨rpath.val ++ modeSuffix mode, htext⟩
    (by rw [List.length_append]; omega) hin
  rw [List.length_append] at hread
  constructor
  · intro h
    obtain ⟨name, dev', htaken, -⟩ := h
    by_contra hlong
    rw [if_neg hlong] at hread
    obtain ⟨refused, hrefused⟩ := hread
    rw [hrefused] at htaken
    cases htaken
  · intro hshort
    rw [if_pos hshort] at hread
    obtain ⟨dev', htaken⟩ := hread
    exact ⟨_, dev', htaken, sendTarget_request rpath.val mode⟩

-- The request is taken exactly when the path and the mode behind it together fit
-- the limit of file_sync_service. That of sync_send is for the path alone.
theorem push_path_agreement_iff
    (hsend : syncSend apk c lfile rpath mtime mode verifyApk = .ok (code, c'))
    (hdevice : ToDevice c c' dev)
    (hwhole : (sendRequest rpath mode).flatten.length ≤ (readable dev.conn.input).length) :
    PathAgrees dev rpath mode ↔ rpath.val.length + (modeSuffix mode).length ≤ 1024 := by
  obtain ⟨hlen, hrequest⟩ := request_arrives hsend hdevice hwhole
  exact pathAgrees_iff hlen hrequest

end Agreement

-- A path of one byte.
theorem push_path_agreement_of_one : PathAgrees (emptyDevice (pushed97 [1, 2, 3])) ⟨[97], by decide⟩ 33188 := by
  refine (@push_path_agreement_iff anyApk answered { answered with input := [], output := pushed97 [1, 2, 3] }
    (some (threeBytes [.interrupted])) ⟨[97], by decide⟩ 0 33188 false (emptyDevice (pushed97 [1, 2, 3])) 0
    (by decide +kernel) ⟨pushed97 [1, 2, 3], rfl, List.prefix_rfl⟩ ?_).mpr ?_
  · decide +kernel
  · decide +kernel

-- A path that is as long as sync_send takes it, and nobody who answers.
def longPath : Text := ⟨List.replicate 1024 97, by decide +kernel⟩

def longRequest : List UInt8 := (sendRequest longPath 33188).flatten ++ syncmsg [ID_DONE, 0]

theorem long_path_is_refused : ∃ c',
    syncSend anyApk ⟨[], [], [], false⟩ none longPath 0 33188 false = .ok (-1, c') ∧
      longPath.val.length ≤ 1024 ∧ ToDevice ⟨[], [], [], false⟩ c' (emptyDevice longRequest) ∧
      (sendRequest longPath 33188).flatten.length ≤ (readable (emptyDevice longRequest).conn.input).length ∧
      ¬PathAgrees (emptyDevice longRequest) longPath 33188 := by
  refine ⟨⟨[], [], longRequest, false⟩, by decide +kernel, by decide +kernel, ?_, ?_, ?_⟩
  · exact ⟨longRequest, (List.nil_append _).symm, by decide +kernel⟩
  · decide +kernel
  · have hlen : longPath.val.length = 1024 := by decide +kernel
    have hsuffix : (modeSuffix 33188).length = 6 := by decide +kernel
    have hin : readable (emptyDevice longRequest).conn.input = longRequest := by decide +kernel
    have hrequest : (sendRequest longPath 33188).flatten <+: readable (emptyDevice longRequest).conn.input := by
      rw [hin, longRequest]
      exact List.prefix_append _ _
    rw [pathAgrees_iff (Nat.le_of_eq hlen) hrequest]
    omega

end Adb.Sync
