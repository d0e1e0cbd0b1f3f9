import Adb.Host.Packets
import Adb.Host.Replies
import Adb.Lib.Strtok

namespace Adb.Host

open Adb.Lib
open Adb.Transport (ConnectionState)

-- The body of the loop of parse_banner: a key, and what follows the = in it.
def setKey (buffer : List Cell) (key : Nat) (t : ATransport) :
    Except MemoryFault (ATransport × List Cell) := do
  match ← strchr buffer key 61 with
  | none => return (t, buffer)
  | some cp => do
      let buffer ← storeNul buffer cp
      if ← strcmp (buffer.drop key) (ascii "ro.product.name") then do
        let value ← readText (buffer.drop (cp + 1))
        return ({ t with product := qualOverwrite value }, buffer)
      else if ← strcmp (buffer.drop key) (ascii "ro.product.model") then do
        let value ← readText (buffer.drop (cp + 1))
        return ({ t with model := qualOverwrite value }, buffer)
      else if ← strcmp (buffer.drop key) (ascii "ro.product.device") then do
        let value ← readText (buffer.drop (cp + 1))
        return ({ t with device := qualOverwrite value }, buffer)
      else
        return (t, buffer)

-- The loop. A key is behind the one before, so there are fewer than bytes.
def keyLoop : Nat → List Cell → Option Nat → Option Nat → ATransport →
    Except MemoryFault (ATransport × List Cell)
  | _, buffer, none, _, t => .ok (t, buffer)
  | 0, _, some _, _, _ => .error .overread
  | fuel + 1, buffer, some key, save, t => do
      let (t, buffer) ← setKey buffer key t
      let (key, save, buffer) ← strtokR (ascii ";") buffer save
      keyLoop fuel buffer key save t

-- The first key, and the loop from there.
def nextKey (fuel : Nat) (buffer : List Cell) (save : Option Nat) (t : ATransport) :
    Except MemoryFault (ATransport × List Cell) := do
  let (key, save, buffer) ← strtokR (ascii ";") buffer save
  keyLoop fuel buffer key save t

-- The comparisons at the end of parse_banner.
def bannerType (buffer : List Cell) : Except MemoryFault ConnectionState := do
  if ← strcmp buffer (ascii "bootloader") then return .bootloader
  else if ← strcmp buffer (ascii "device") then return .device
  else if ← strcmp buffer (ascii "recovery") then return .recovery
  else if ← strcmp buffer (ascii "sideload") then return .sideload
  else return .host

-- What parse_banner does with the fields of the banner.
def parseFields (buffer : List Cell) (t : ATransport) : Except MemoryFault (ATransport × List Cell) := do
  match ← strchr buffer 0 58 with
  | none => return (t, buffer)
  | some cp => do
      let buffer ← storeNul buffer cp
      -- Nothing is done with second field.
      match ← strchr buffer (cp + 1) 58 with
      | none => return (t, buffer)
      | some cp => nextKey buffer.length buffer (some (cp + 1)) t

-- parse_banner on the buffer of the packet, without update_transports: what it
-- makes of the transport, and of the buffer.
def parseBannerBuffer (buffer : List Cell) (t : ATransport) :
    Except MemoryFault (ATransport × List Cell) := do
  let (t, buffer) ← parseFields buffer t
  let state ← bannerType buffer
  return ({ t with connectionState := state }, buffer)

section Tokens

variable {sep : UInt8} {skipped tok more : Bytes}

theorem tokens_nil (sep : UInt8) : tokens sep [] = [] := by simp [tokens]

theorem tokens_single (hne : tok ≠ []) (htok : sep ∉ tok) : tokens sep tok = [tok] := by
  rw [tokens, List.splitOn_eq_singleton htok]
  simp [hne]

theorem tokens_cons (hne : tok ≠ []) (htok : sep ∉ tok) :
    tokens sep (tok ++ sep :: more) = tok :: tokens sep more := by
  rw [tokens, List.splitOn_append_cons_self_of_not_mem htok]
  simp [tokens, hne]

theorem tokens_skip (hskipped : ∀ c ∈ skipped, c = sep) (s : Bytes) :
    tokens sep (skipped ++ s) = tokens sep s := by
  induction skipped with
  | nil => rfl
  | cons c skipped ih =>
      obtain rfl : c = sep := hskipped c (by simp)
      rw [← ih fun c hc => hskipped c (List.mem_cons_of_mem _ hc)]
      have hsplit := List.splitOn_append_cons_self_of_not_mem (a := c) (List.not_mem_nil (a := c)) (skipped ++ s)
      rw [List.nil_append] at hsplit
      rw [tokens, List.cons_append, hsplit]
      simp [tokens]

-- Separators, a token, and maybe a separator and more.
theorem exists_token (sep : UInt8) (s : Bytes) :
    ∃ skipped tok, (∀ c ∈ skipped, c = sep) ∧ sep ∉ tok ∧
      (s = skipped ++ tok ∨ ∃ more, tok ≠ [] ∧ s = skipped ++ (tok ++ sep :: more)) := by
  obtain ⟨rest, hrest⟩ : ∃ rest, s.dropWhile (· = sep) = rest := ⟨_, rfl⟩
  have hskip := List.takeWhile_append_dropWhile (p := fun c => decide (c = sep)) (l := s)
  have htok := List.takeWhile_append_dropWhile (p := fun c => decide (c ≠ sep)) (l := rest)
  rw [hrest] at hskip
  refine ⟨s.takeWhile (· = sep), rest.takeWhile (· ≠ sep), ?_, ?_, ?_⟩
  · intro c hc
    simpa using List.mem_takeWhile_imp hc
  · intro hc
    simpa using List.mem_takeWhile_imp hc
  cases htail : rest.dropWhile (fun c => decide (c ≠ sep)) with
  | nil =>
      left
      rw [htail, List.append_nil] at htok
      rw [htok, hskip]
  | cons d more =>
      right
      have hd : d = sep := by
        have hhead := List.head?_dropWhile_not (fun c => decide (c ≠ sep)) rest
        rw [htail] at hhead
        simpa using hhead
      subst hd
      rw [htail] at htok
      refine ⟨more, fun hnil => ?_, by rw [htok, hskip]⟩
      -- the separators at the front have all been skipped
      have hhead := List.head?_dropWhile_not (fun c => decide (c = d)) s
      rw [hrest, ← htok, hnil] at hhead
      simp at hhead

end Tokens

section Parsing

variable {tok banner : Bytes} {pre rest : List Cell} {t : ATransport}

-- A text in a buffer, as strcmp and readText find it.
theorem strcmp_text (htok : IsText tok) {s : Bytes} (hs : IsText s) :
    strcmp (tok.map some ++ some 0 :: rest) s = .ok (tok = s) := by
  have hcmp : strcmp ((tok ++ [0]).map some ++ rest) s = _ := strcmp_terminated htok hs
  simpa using hcmp

theorem readText_text (htok : IsText tok) : readText (tok.map some ++ some 0 :: rest) = .ok tok := by
  have hread : readText ((tok ++ [0]).map some ++ rest) = _ := readText_terminated htok
  simpa using hread

theorem isText_of_append_cons {s more : Bytes} (h : IsText (s ++ 61 :: more)) : IsText s ∧ IsText more := by
  obtain ⟨hs, hmore⟩ := isText_append.mp h
  exact ⟨hs, (isText_cons.mp hmore).2⟩

theorem setProperty_missing (h : (61 : UInt8) ∉ tok) : setProperty t tok = t := by
  have hall : tok.dropWhile (fun c => decide (c ≠ 61)) = [] := by
    rw [List.dropWhile_eq_nil_iff]
    intro c hc
    have hne : c ≠ 61 := fun heq => h (heq ▸ hc)
    simpa using hne
  rw [setProperty, hall]

theorem setProperty_found {key value : Bytes} (h : (61 : UInt8) ∉ key) :
    setProperty t (key ++ 61 :: value) =
      if key = ascii "ro.product.name" then { t with product := qualOverwrite value }
      else if key = ascii "ro.product.model" then { t with model := qualOverwrite value }
      else if key = ascii "ro.product.device" then { t with device := qualOverwrite value }
      else t := by
  rw [setProperty, dropWhile_until h, takeWhile_until h]

section Steps

variable (pre rest : List Cell) (t : ATransport)

-- The body of the loop does with a key what setProperty does, and changes nothing
-- but the key.
theorem setKey_spec (htok : IsText tok) :
    ∃ tok' : Bytes, tok'.length = tok.length ∧
      setKey (pre ++ (tok.map some ++ some 0 :: rest)) pre.length t =
        .ok (setProperty t tok, pre ++ (tok'.map some ++ some 0 :: rest)) := by
  by_cases hmem : (61 : UInt8) ∈ tok
  case neg =>
    refine ⟨tok, rfl, ?_⟩
    have hchr := strchr_missing pre rest hmem htok (by decide)
    rw [setKey, hchr, setProperty_missing hmem]
    rfl
  obtain ⟨key, value, rfl, hkey⟩ := List.eq_append_cons_of_mem hmem
  obtain ⟨hkeyText, hvalue⟩ := isText_of_append_cons htok
  refine ⟨key ++ 0 :: value, by simp, ?_⟩
  have hbuffer : ∀ c : UInt8, pre ++ ((key ++ c :: value).map some ++ some 0 :: rest) =
      pre ++ (key.map some ++ some c :: (value.map some ++ some 0 :: rest)) := by
    intro c
    simp
  have hchr := strchr_found pre (value.map some ++ some 0 :: rest) hkey hkeyText
  have hstore : storeNul (pre ++ (key.map some ++ some 61 :: (value.map some ++ some 0 :: rest)))
      (pre.length + key.length) =
        .ok (pre ++ (key.map some ++ some 0 :: (value.map some ++ some 0 :: rest))) := by
    have hat := storeNul_append (pre ++ key.map some) (some 61) (value.map some ++ some 0 :: rest)
    rw [List.length_append, List.length_map] at hat
    simpa only [List.append_assoc] using hat
  have hread : (pre ++ (key.map some ++ some 0 :: (value.map some ++ some 0 :: rest))).drop
      (pre.length + key.length + 1) = value.map some ++ some 0 :: rest := by
    rw [← List.drop_drop, drop_behind]
    rfl
  rw [setKey, hbuffer, hchr]
  simp only [bind, Except.bind, hstore, drop_cells, hread, readText_text hvalue,
    strcmp_text hkeyText (show IsText (ascii "ro.product.name") by decide),
    strcmp_text hkeyText (show IsText (ascii "ro.product.model") by decide),
    strcmp_text hkeyText (show IsText (ascii "ro.product.device") by decide)]
  rw [setProperty_found hkey, hbuffer]
  simp only [decide_eq_true_eq]
  by_cases hname : key = ascii "ro.product.name"
  · rw [if_pos hname, if_pos hname]
    rfl
  rw [if_neg hname, if_neg hname]
  by_cases hmodel : key = ascii "ro.product.model"
  · rw [if_pos hmodel, if_pos hmodel]
    rfl
  rw [if_neg hmodel, if_neg hmodel]
  by_cases hdevice : key = ascii "ro.product.device"
  · rw [if_pos hdevice, if_pos hdevice]
    rfl
  · rw [if_neg hdevice, if_neg hdevice]
    rfl

theorem keyLoop_succ (fuel : Nat) (buffer : List Cell) (key : Nat) (save : Option Nat) (t : ATransport) :
    keyLoop (fuel + 1) buffer (some key) save t =
      setKey buffer key t >>= fun (t, buffer) => nextKey fuel buffer save t := rfl

theorem keyLoop_none (fuel : Nat) (buffer : List Cell) (save : Option Nat) (t : ATransport) :
    keyLoop fuel buffer none save t = .ok (t, buffer) := by
  cases fuel <;> rfl

theorem nextKey_none (fuel : Nat) (buffer : List Cell) (t : ATransport) :
    nextKey fuel buffer none t = .ok (t, buffer) := keyLoop_none fuel buffer none t

theorem mem_semicolon {c : UInt8} : c ∈ ascii ";" ↔ c = 59 := by
  have hdelim : ascii ";" = [59] := by decide
  rw [hdelim, List.mem_singleton]

variable {skipped : Bytes} (more : Bytes)

-- A token with a semicolon behind it becomes the key.
theorem nextKey_token (fuel : Nat) (hskipped : ∀ c ∈ skipped, c = 59) (hne : tok ≠ []) (htok : 59 ∉ tok)
    (htext : IsText tok) :
    nextKey fuel (pre ++ ((skipped ++ (tok ++ 59 :: more)).map some ++ rest)) (some pre.length) t =
      keyLoop fuel ((pre ++ skipped.map some) ++ (tok.map some ++ some 0 :: (more.map some ++ rest)))
        (some (pre ++ skipped.map some).length)
        (some ((pre ++ skipped.map some).length + tok.length + 1)) t := by
  obtain ⟨c, tok, rfl⟩ := List.exists_cons_of_ne_nil hne
  have hdelims : ∀ b ∈ skipped, b ∈ ascii ";" := fun b hb => mem_semicolon.mpr (hskipped b hb)
  have hplain : ∀ b ∈ c :: tok, b ∉ ascii ";" := fun b hb hm => htok (mem_semicolon.mp hm ▸ hb)
  obtain ⟨hzero, htext⟩ := isText_cons.mp htext
  have hsome := strtokR_some pre (more.map some ++ rest) (d := 59) hdelims
    (hplain c (by simp)) hzero (fun b hb => hplain b (List.mem_cons_of_mem _ hb)) htext
    (.inr (mem_semicolon.mpr rfl))
  have hstart : pre ++ ((skipped ++ (c :: tok ++ 59 :: more)).map some ++ rest) =
      pre ++ ((skipped ++ c :: tok).map some ++ some 59 :: (more.map some ++ rest)) := by
    simp
  have hbuffer : pre ++ ((skipped ++ c :: tok).map some ++ some 0 :: (more.map some ++ rest)) =
      (pre ++ skipped.map some) ++ ((c :: tok).map some ++ some 0 :: (more.map some ++ rest)) := by
    simp
  have hlen : (pre ++ skipped.map some).length = pre.length + skipped.length := by simp
  rw [if_neg (by decide), hbuffer] at hsome
  rw [nextKey, hstart, hsome, hlen]
  rfl

-- The loop goes on behind it.
theorem keyLoop_token (fuel : Nat) (htext : IsText tok) :
    ∃ tok' : Bytes, keyLoop (fuel + 1) (pre ++ (tok.map some ++ some 0 :: (more.map some ++ rest)))
        (some pre.length) (some (pre.length + tok.length + 1)) t =
      nextKey fuel ((pre ++ (tok'.map some ++ [some 0])) ++ (more.map some ++ rest))
        (some (pre ++ (tok'.map some ++ [some 0])).length) (setProperty t tok) := by
  obtain ⟨tok', hlen, hset⟩ := setKey_spec pre (more.map some ++ rest) t htext
  have hpre : (pre ++ (tok'.map some ++ [some 0])).length = pre.length + tok.length + 1 := by
    simp [hlen]
    omega
  have hbuffer : pre ++ (tok'.map some ++ some 0 :: (more.map some ++ rest)) =
      (pre ++ (tok'.map some ++ [some 0])) ++ (more.map some ++ rest) := by simp
  refine ⟨tok', ?_⟩
  rw [keyLoop_succ, hset, hpre, hbuffer]
  rfl

-- A token that ends with the text is the last key.
theorem nextKey_last (fuel : Nat) (hskipped : ∀ c ∈ skipped, c = 59) (hne : tok ≠ []) (htok : 59 ∉ tok)
    (htext : IsText tok) :
    ∃ after, nextKey (fuel + 1) (pre ++ ((skipped ++ tok).map some ++ some 0 :: rest)) (some pre.length) t =
      .ok (setProperty t tok, pre ++ after) := by
  obtain ⟨tok', -, hset⟩ := setKey_spec (pre ++ skipped.map some) rest t htext
  obtain ⟨c, tok, rfl⟩ := List.exists_cons_of_ne_nil hne
  have hdelims : ∀ b ∈ skipped, b ∈ ascii ";" := fun b hb => mem_semicolon.mpr (hskipped b hb)
  have hplain : ∀ b ∈ c :: tok, b ∉ ascii ";" := fun b hb hm => htok (mem_semicolon.mp hm ▸ hb)
  obtain ⟨hzero, htext⟩ := isText_cons.mp htext
  have hsome := strtokR_some pre rest (d := 0) hdelims
    (hplain c (by simp)) hzero (fun b hb => hplain b (List.mem_cons_of_mem _ hb)) htext (.inl rfl)
  have hbuffer : pre ++ ((skipped ++ c :: tok).map some ++ some 0 :: rest) =
      (pre ++ skipped.map some) ++ ((c :: tok).map some ++ some 0 :: rest) := by simp
  have hlen : (pre ++ skipped.map some).length = pre.length + skipped.length := by simp
  refine ⟨skipped.map some ++ (tok'.map some ++ some 0 :: rest), ?_⟩
  rw [nextKey, hsome, if_pos rfl]
  simp only [bind, Except.bind]
  rw [keyLoop_succ, hbuffer, ← hlen, hset]
  simp only [bind, Except.bind, nextKey_none]
  rw [List.append_assoc]

-- Nothing ends the text, so it is read beyond the buffer.
theorem nextKey_out (fuel : Nat) (hskipped : ∀ c ∈ skipped, c = 59) (htok : 59 ∉ tok)
    (hs : IsText (skipped ++ tok)) :
    nextKey fuel (pre ++ (skipped ++ tok).map some) (some pre.length) t = .error .overread := by
  have hdelims : ∀ b ∈ skipped, b ∈ ascii ";" := fun b hb => mem_semicolon.mpr (hskipped b hb)
  have hplain : ∀ b ∈ tok, b ∉ ascii ";" := fun b hb hm => htok (mem_semicolon.mp hm ▸ hb)
  rw [nextKey, strtokR_open pre hdelims hplain (isText_append.mp hs).2]
  rfl

-- The loop sets what the tokens say, and leaves what is before them as it is.
theorem nextKey_spec (fuel : Nat) (s : Bytes) (hs : IsText s) (hfuel : s.length ≤ fuel) :
    ∃ after, nextKey fuel (pre ++ (s.map some ++ some 0 :: rest)) (some pre.length) t =
      .ok ((tokens 59 s).foldl setProperty t, pre ++ after) := by
  induction fuel generalizing pre s t with
  | zero =>
      obtain rfl := List.eq_nil_of_length_eq_zero (Nat.le_zero.mp hfuel)
      have hnone : strtokR (ascii ";") (pre ++ (([] : Bytes).map some ++ some 0 :: rest)) (some pre.length) = _ :=
        strtokR_none pre rest (by simp) (by decide)
      refine ⟨([] : Bytes).map some ++ some 0 :: rest, ?_⟩
      rw [nextKey, hnone, tokens_nil]
      rfl
  | succ fuel ih =>
      obtain ⟨skipped, tok, hskipped, htok, rfl | ⟨more, hne, rfl⟩⟩ := exists_token 59 s
      · obtain ⟨-, htext⟩ := isText_append.mp hs
        by_cases hnil : tok = []
        · have hdelims : ∀ c ∈ skipped, c ∈ ascii ";" := fun c hc => mem_semicolon.mpr (hskipped c hc)
          have hnone := strtokR_none pre rest hdelims (by decide)
          refine ⟨skipped.map some ++ some 0 :: rest, ?_⟩
          rw [hnil, tokens_skip hskipped, tokens_nil, List.append_nil, nextKey, hnone]
          rfl
        · rw [tokens_skip hskipped, tokens_single hnil htok]
          exact nextKey_last pre rest t fuel hskipped hnil htok htext
      · obtain ⟨-, htext⟩ := isText_append.mp hs
        obtain ⟨htext, hmore⟩ := isText_append.mp htext
        obtain ⟨-, hmore⟩ := isText_cons.mp hmore
        have hfuel' : more.length ≤ fuel := by
          simp only [List.length_append, List.length_cons] at hfuel
          omega
        obtain ⟨tok', hloop⟩ := keyLoop_token (pre ++ skipped.map some) (some 0 :: rest) t more fuel htext
        obtain ⟨after, hnext⟩ := ih (pre ++ skipped.map some ++ (tok'.map some ++ [some 0]))
          (setProperty t tok) more hmore hfuel'
        refine ⟨skipped.map some ++ (tok'.map some ++ [some 0]) ++ after, ?_⟩
        rw [nextKey_token pre _ t more _ hskipped hne htok htext, hloop, hnext, tokens_skip hskipped,
          tokens_cons hne htok]
        simp

-- Without a NUL behind the tokens the loop runs out of the buffer.
theorem nextKey_open (fuel : Nat) (s : Bytes) (hs : IsText s) :
    nextKey fuel (pre ++ s.map some) (some pre.length) t = .error .overread := by
  induction fuel generalizing pre s t with
  | zero =>
      obtain ⟨skipped, tok, hskipped, htok, rfl | ⟨more, hne, rfl⟩⟩ := exists_token 59 s
      · exact nextKey_out pre t 0 hskipped htok hs
      · obtain ⟨-, htext⟩ := isText_append.mp hs
        have htoken := nextKey_token pre [] t more 0 hskipped hne htok
          (isText_append.mp htext).1
        rw [List.append_nil] at htoken
        rw [htoken]
        rfl
  | succ fuel ih =>
      obtain ⟨skipped, tok, hskipped, htok, rfl | ⟨more, hne, rfl⟩⟩ := exists_token 59 s
      · exact nextKey_out pre t (fuel + 1) hskipped htok hs
      · obtain ⟨-, htext⟩ := isText_append.mp hs
        obtain ⟨htext, hmore⟩ := isText_append.mp htext
        obtain ⟨-, hmore⟩ := isText_cons.mp hmore
        have htoken := nextKey_token pre [] t more (fuel + 1) hskipped hne htok htext
        obtain ⟨tok', hloop⟩ := keyLoop_token (pre ++ skipped.map some) [] t more fuel htext
        rw [List.append_nil] at htoken
        rw [htoken, hloop, List.append_nil]
        exact ih _ _ more hmore

end Steps

theorem bannerType_spec (htype : IsText tok) :
    bannerType (tok.map some ++ some 0 :: rest) = .ok ((bannerState tok).getD .host) := by
  simp only [bannerType, bind, Except.bind,
    strcmp_text htype (show IsText (ascii "bootloader") by decide),
    strcmp_text htype (show IsText (ascii "device") by decide),
    strcmp_text htype (show IsText (ascii "recovery") by decide),
    strcmp_text htype (show IsText (ascii "sideload") by decide), decide_eq_true_eq, bannerState]
  repeat' split
  all_goals rfl

-- The store that ends the type.
theorem storeNul_type (type : Bytes) (rest : List Cell) :
    storeNul (type.map some ++ some 58 :: rest) type.length = .ok (type.map some ++ some 0 :: rest) := by
  have hat := storeNul_append (type.map some) (some 58) rest
  rwa [List.length_map] at hat

theorem strchr_first {type : Bytes} (h : (58 : UInt8) ∉ type) (htype : IsText type) :
    strchr (type.map some ++ some 58 :: rest) 0 58 = .ok (some type.length) := by
  have hchr := strchr_found [] rest h htype
  simpa using hchr

variable (rest t) in
-- The fields of a banner that ends in the buffer.
theorem parseFields_spec (hbanner : IsText banner) :
    ∃ after, parseFields (banner.map some ++ some 0 :: rest) t =
      .ok (setProperties t banner, (banner.takeWhile (· ≠ 58)).map some ++ some 0 :: after) := by
  unfold parseFields setProperties
  cases hfirst : splitColon banner with
  | none =>
      have hcolon := splitColon_none hfirst
      have hchr := strchr_missing [] rest hcolon hbanner (by decide)
      have hall : banner.takeWhile (fun c => decide (c ≠ 58)) = banner := by
        rw [List.takeWhile_eq_self_iff]
        intro c hc
        have hne : c ≠ 58 := fun heq => hcolon (heq ▸ hc)
        simpa using hne
      rw [List.nil_append, List.length_nil] at hchr
      refine ⟨rest, ?_⟩
      rw [hchr, hall]
      rfl
  | some found =>
      obtain ⟨type, fields⟩ := found
      obtain ⟨rfl, htype⟩ := splitColon_some hfirst
      obtain ⟨htypeText, hfields⟩ := isText_append.mp hbanner
      obtain ⟨-, hfields⟩ := isText_cons.mp hfields
      have hstart : (type ++ 58 :: fields).map some ++ some 0 :: rest =
          type.map some ++ some 58 :: (fields.map some ++ some 0 :: rest) := by simp
      have hlen : (type.map some ++ [some 0]).length = type.length + 1 := by simp
      have hbuffer : type.map some ++ some 0 :: (fields.map some ++ some 0 :: rest) =
          (type.map some ++ [some 0]) ++ (fields.map some ++ some 0 :: rest) := by simp
      rw [hstart, strchr_first htype htypeText, takeWhile_until htype]
      simp only [bind, Except.bind, storeNul_type, Option.bind_some]
      cases hsecond : splitColon fields with
      | none =>
          have hchr := strchr_missing (type.map some ++ [some 0]) rest
            (splitColon_none hsecond) hfields (by decide)
          rw [← hbuffer, hlen] at hchr
          refine ⟨fields.map some ++ some 0 :: rest, ?_⟩
          rw [hchr]
          rfl
      | some found =>
          obtain ⟨second, properties⟩ := found
          obtain ⟨rfl, hsecond'⟩ := splitColon_some hsecond
          obtain ⟨hsecondText, hproperties⟩ := isText_append.mp hfields
          obtain ⟨-, hproperties⟩ := isText_cons.mp hproperties
          have hchr := strchr_found (type.map some ++ [some 0])
            (properties.map some ++ some 0 :: rest) hsecond' hsecondText
          have hpre : (type.map some ++ [some 0] ++ (second.map some ++ [some 58])).length =
              type.length + 1 + second.length + 1 := by
            simp
            omega
          have hfinal : type.map some ++ some 0 :: ((second ++ 58 :: properties).map some ++ some 0 :: rest) =
              (type.map some ++ [some 0] ++ (second.map some ++ [some 58])) ++
                (properties.map some ++ some 0 :: rest) := by simp
          have hword : type.map some ++ some 0 :: ((second ++ 58 :: properties).map some ++ some 0 :: rest) =
              (type.map some ++ [some 0]) ++
                (second.map some ++ some 58 :: (properties.map some ++ some 0 :: rest)) := by simp
          obtain ⟨after, hnext⟩ := nextKey_spec
            (type.map some ++ [some 0] ++ (second.map some ++ [some 58])) rest t
            (type.map some ++ some 0 :: ((second ++ 58 :: properties).map some ++ some 0 :: rest)).length
            properties hproperties (by simp; omega)
          rw [← hfinal, hpre] at hnext
          rw [← hword, hlen] at hchr
          refine ⟨second.map some ++ [some 58] ++ after, ?_⟩
          rw [hchr]
          dsimp only
          rw [hnext]
          simp

theorem strchr_fields_open {type fields : Bytes} (h : (58 : UInt8) ∉ fields) (hfields : IsText fields) :
    strchr (type.map some ++ some 0 :: fields.map some) (type.length + 1) 58 = .error .overread := by
  have hchr := strchr_open (type.map some ++ [some 0]) h hfields
  have hlen : (type.map some ++ [some 0]).length = type.length + 1 := by simp
  rw [hlen, List.append_assoc] at hchr
  exact hchr

-- Those of one that does not.
theorem parseFields_open (hbanner : IsText banner) :
    parseFields (banner.map some) t = .error .overread := by
  unfold parseFields
  cases hfirst : splitColon banner with
  | none =>
      have hchr := strchr_open [] (splitColon_none hfirst) hbanner
      rw [List.nil_append, List.length_nil] at hchr
      rw [hchr]
      rfl
  | some found =>
      obtain ⟨type, fields⟩ := found
      obtain ⟨rfl, htype⟩ := splitColon_some hfirst
      obtain ⟨htypeText, hfields⟩ := isText_append.mp hbanner
      obtain ⟨-, hfields⟩ := isText_cons.mp hfields
      have hstart : (type ++ 58 :: fields).map some = type.map some ++ some 58 :: fields.map some := by simp
      rw [hstart, strchr_first htype htypeText]
      simp only [bind, Except.bind, storeNul_type]
      cases hsecond : splitColon fields with
      | none => rw [strchr_fields_open (splitColon_none hsecond) hfields]
      | some found =>
          obtain ⟨second, properties⟩ := found
          obtain ⟨rfl, hsecond'⟩ := splitColon_some hsecond
          obtain ⟨hsecondText, hproperties⟩ := isText_append.mp hfields
          obtain ⟨-, hproperties⟩ := isText_cons.mp hproperties
          have hchr := strchr_found (type.map some ++ [some 0]) (properties.map some) hsecond'
            hsecondText
          have hlen : (type.map some ++ [some 0]).length = type.length + 1 := by simp
          have hpre : (type.map some ++ [some 0] ++ (second.map some ++ [some 58])).length =
              type.length + 1 + second.length + 1 := by
            simp
            omega
          have hword : type.map some ++ some 0 :: (second ++ 58 :: properties).map some =
              (type.map some ++ [some 0]) ++ (second.map some ++ some 58 :: properties.map some) := by simp
          have hfinal : type.map some ++ some 0 :: (second ++ 58 :: properties).map some =
              (type.map some ++ [some 0] ++ (second.map some ++ [some 58])) ++ properties.map some := by simp
          have hopen := nextKey_open (type.map some ++ [some 0] ++ (second.map some ++ [some 58]))
            t (type.map some ++ some 0 :: (second ++ 58 :: properties).map some).length properties
            hproperties
          rw [← hfinal, hpre] at hopen
          rw [← hword, hlen] at hchr
          rw [hchr]
          exact hopen

-- What parse_banner makes of a transport.
def parsed (banner : Bytes) (t : ATransport) : ATransport :=
  { setProperties t banner with
    connectionState := (bannerState (banner.takeWhile (· ≠ 58))).getD .host }

theorem parseBannerBuffer_spec (hbanner : IsText banner) (rest : List Cell) (t : ATransport) :
    ∃ buffer, parseBannerBuffer (banner.map some ++ some 0 :: rest) t = .ok (parsed banner t, buffer) := by
  obtain ⟨after, hfields⟩ := parseFields_spec rest t hbanner
  have htype : IsText (banner.takeWhile (fun c => decide (c ≠ 58))) :=
    fun hm => hbanner ((List.takeWhile_sublist _).mem hm)
  refine ⟨(banner.takeWhile (· ≠ 58)).map some ++ some 0 :: after, ?_⟩
  rw [parseBannerBuffer, hfields]
  simp only [bind, Except.bind]
  rw [bannerType_spec htype]
  rfl

theorem parseBannerBuffer_open (hbanner : IsText banner) (t : ATransport) :
    parseBannerBuffer (banner.map some) t = .error .overread := by
  rw [parseBannerBuffer, parseFields_open hbanner]
  rfl

-- A buffer with a NUL in it is a banner with its end and whatever follows.
theorem exists_banner {buffer : Bytes} (h : (0 : UInt8) ∈ buffer) :
    ∃ rest, buffer = buffer.takeWhile (· ≠ 0) ++ 0 :: rest ∧ IsText (buffer.takeWhile (· ≠ 0)) := by
  obtain ⟨banner, rest, rfl, hbanner⟩ := List.eq_append_cons_of_mem h
  rw [takeWhile_until hbanner]
  exact ⟨rest, rfl, hbanner⟩

-- The parse_banner of the server is this one, on a buffer that holds a NUL.
theorem parseBanner_buffer {st : Server} {buffer : Bytes} (h : (0 : UInt8) ∈ buffer) (t : Nat) :
    parseBanner st t buffer = st.derefTransport t >>= fun transport =>
      match parseBannerBuffer (buffer.map some) transport with
      | .ok (transport, _) =>
          if transport.connectionState = .host then .ok (st.putTransport t transport)
          else updateTransports (st.putTransport t transport)
      | .error _ => .ok st := by
  obtain ⟨rest, hsplit, hbanner⟩ := exists_banner h
  obtain ⟨banner, hname⟩ : ∃ banner, buffer.takeWhile (fun c => decide (c ≠ 0)) = banner := ⟨_, rfl⟩
  rw [hname] at hsplit hbanner
  have hcells : buffer.map some = banner.map some ++ some 0 :: rest.map some := by
    rw [hsplit]
    simp
  unfold parseBanner
  rw [hname]
  congr 1
  funext transport
  obtain ⟨after, hparse⟩ := parseBannerBuffer_spec hbanner (rest.map some) transport
  rw [hcells, hparse]
  dsimp only
  cases hstate : bannerState (banner.takeWhile (fun c => decide (c ≠ 58))) with
  | none =>
      have hhost : (parsed banner transport).connectionState = .host := by
        rw [parsed, hstate]
        rfl
      rw [if_pos hhost, parsed, hstate]
      rfl
  | some state =>
      have hhost : (parsed banner transport).connectionState ≠ .host := by
        rw [parsed, hstate]
        intro heq
        dsimp only [Option.getD_some] at heq
        subst heq
        unfold bannerState at hstate
        repeat' split at hstate
        all_goals cases hstate
      rw [if_neg hhost, parsed, hstate]
      rfl

end Parsing

section Payload

-- What a banner is about.
structure BannerFields where
  connectionState : ConnectionState
  product : Option Bytes
  model : Option Bytes
  device : Option Bytes

def bannerFields (t : ATransport) : BannerFields :=
  ⟨t.connectionState, t.product, t.model, t.device⟩

-- Whatever the packet holds behind the payload, nothing outside of it is touched
-- and the fields come from the payload and the fields before.
def DependsOnPayload (payload : Bytes) : Prop :=
  ∃ f : BannerFields → BannerFields, ∀ slack : Bytes, payload.length + slack.length = MAX_PAYLOAD →
    ∀ t, ∃ t' buffer, parseBannerBuffer ((payload ++ slack).map some) t = .ok (t', buffer) ∧
      bannerFields t' = f (bannerFields t)

variable {payload : Bytes} {t t' : ATransport}

theorem setProperty_fields (h : bannerFields t = bannerFields t') (token : Bytes) :
    bannerFields (setProperty t token) = bannerFields (setProperty t' token) := by
  simp only [bannerFields, BannerFields.mk.injEq] at h ⊢
  obtain ⟨hstate, hproduct, hmodel, hdevice⟩ := h
  unfold setProperty
  split
  · exact ⟨hstate, hproduct, hmodel, hdevice⟩
  · dsimp only
    split
    · exact ⟨hstate, rfl, hmodel, hdevice⟩
    · split
      · exact ⟨hstate, hproduct, rfl, hdevice⟩
      · split
        · exact ⟨hstate, hproduct, hmodel, rfl⟩
        · exact ⟨hstate, hproduct, hmodel, hdevice⟩

theorem parsed_fields (h : bannerFields t = bannerFields t') (banner : Bytes) :
    bannerFields (parsed banner t) = bannerFields (parsed banner t') := by
  have hfold : ∀ (tokens : List Bytes) (t t' : ATransport), bannerFields t = bannerFields t' →
      bannerFields (tokens.foldl setProperty t) = bannerFields (tokens.foldl setProperty t') := by
    intro tokens
    induction tokens with
    | nil => exact fun _ _ h => h
    | cons token tokens ih => exact fun t t' h => ih _ _ (setProperty_fields h token)
  have hfields : bannerFields (setProperties t banner) = bannerFields (setProperties t' banner) :=
    hfold _ t t' h
  simp only [bannerFields, BannerFields.mk.injEq] at hfields
  simp only [bannerFields, parsed, BannerFields.mk.injEq]
  exact ⟨trivial, hfields.2⟩

-- A transport with these fields.
def BannerFields.transport (fields : BannerFields) : ATransport where
  online := false
  connectionState := fields.connectionState
  type := .any
  adbPort := 0
  serial := none
  product := fields.product
  model := fields.model
  device := fields.device
  devpath := none
  disconnects := []

theorem banner_depends_on_payload_iff (h : payload.length ≤ MAX_PAYLOAD) :
    DependsOnPayload payload ↔ (0 : UInt8) ∈ payload := by
  constructor
  · rintro ⟨f, hf⟩
    by_contra hzero
    -- nothing but ones behind the payload
    have htext : IsText (payload ++ List.replicate (MAX_PAYLOAD - payload.length) 1) := by
      refine isText_append.mpr ⟨hzero, fun hm => ?_⟩
      exact absurd (List.eq_of_mem_replicate hm) (by decide)
    obtain ⟨t', buffer, hparse, -⟩ := hf (List.replicate (MAX_PAYLOAD - payload.length) 1)
      (by rw [List.length_replicate]; omega) (BannerFields.transport ⟨.offline, none, none, none⟩)
    rw [parseBannerBuffer_open htext] at hparse
    cases hparse
  · intro hzero
    obtain ⟨rest, hsplit, hbanner⟩ := exists_banner hzero
    refine ⟨fun fields => bannerFields (parsed (payload.takeWhile (· ≠ 0)) fields.transport),
      fun slack _ t => ?_⟩
    obtain ⟨buffer, hparse⟩ := parseBannerBuffer_spec hbanner ((rest ++ slack).map some) t
    have hcells : (payload ++ slack).map some =
        (payload.takeWhile (fun c => decide (c ≠ 0))).map some ++ some 0 :: (rest ++ slack).map some := by
      conv => lhs; rw [hsplit]
      simp
    have hfields : bannerFields t = bannerFields (bannerFields t).transport := rfl
    rw [hcells]
    exact ⟨_, buffer, hparse, parsed_fields hfields _⟩

theorem banner_depends_on_one_payload : DependsOnPayload (ascii "device::" ++ [0]) :=
  (banner_depends_on_payload_iff (by decide)).mpr (by decide)

-- A payload without a NUL is read with whatever is behind it.
theorem unterminated_banner : ¬ DependsOnPayload (ascii "device") := by
  rintro ⟨f, hf⟩
  have htext : IsText (ascii "device" ++ List.replicate 4090 1) := by
    refine isText_append.mpr ⟨by decide, fun hm => ?_⟩
    exact absurd (List.eq_of_mem_replicate hm) (by decide)
  have hdevice : (ascii "device").length = 6 := by decide
  obtain ⟨t', buffer, hparse, -⟩ := hf (List.replicate 4090 1)
    (by rw [hdevice, List.length_replicate, MAX_PAYLOAD])
    (BannerFields.transport ⟨.offline, none, none, none⟩)
  rw [parseBannerBuffer_open htext] at hparse
  cases hparse

end Payload

section ConnectData

-- snprintf behind the text, where there is room for the field and a NUL.
def printBehind (bufsize : Nat) (text field : Bytes) : Except MemoryFault Bytes :=
  if text.length + field.length < bufsize then .ok (text ++ field) else .error .overrun

def cnxnProps : List Bytes :=
  [ascii "ro.product.name", ascii "ro.product.model", ascii "ro.product.device"]

-- fill_connect_data of the device: the data of its packet, the NUL included.
def fillConnectData (bufsize : Nat) (adbDeviceBanner : Bytes) (property : Bytes → Bytes) :
    Except MemoryFault Bytes := do
  let text ← printBehind bufsize [] (adbDeviceBanner ++ ascii "::")
  let text ← cnxnProps.foldlM
    (fun text key => printBehind bufsize text (key ++ 61 :: (property key ++ [59]))) text
  return text ++ [0]

def PROPERTY_VALUE_MAX : Nat := 92

-- What property_get can find, without the separator of the properties.
structure IsPlainValue (value : Bytes) : Prop where
  text : IsText value
  no_separator : 59 ∉ value
  short : value.length < PROPERTY_VALUE_MAX

variable {property : Bytes → Bytes}

-- What a device says of itself, from its properties.
def deviceProperties (property : Bytes → Bytes) : Bytes :=
  ascii "ro.product.name" ++ 61 :: property (ascii "ro.product.name") ++ 59 ::
    (ascii "ro.product.model" ++ 61 :: property (ascii "ro.product.model") ++ 59 ::
      (ascii "ro.product.device" ++ 61 :: property (ascii "ro.product.device") ++ 59 :: []))

-- All of it fits in a packet.
theorem fillConnectData_device (h : ∀ key ∈ cnxnProps, IsPlainValue (property key)) :
    fillConnectData MAX_PAYLOAD (ascii "device") property =
      .ok (ascii "device" ++ 58 :: 58 :: deviceProperties property ++ [0]) ∧
    (deviceProperties property).length ≤ 400 := by
  have hname := (h _ (List.mem_cons_self ..)).short
  have hmodel := (h (ascii "ro.product.model") (by simp [cnxnProps])).short
  have hdevice := (h (ascii "ro.product.device") (by simp [cnxnProps])).short
  unfold PROPERTY_VALUE_MAX at hname hmodel hdevice
  have hnameKey : (ascii "ro.product.name").length = 15 := by decide
  have hmodelKey : (ascii "ro.product.model").length = 16 := by decide
  have hdeviceKey : (ascii "ro.product.device").length = 17 := by decide
  have hbanner : (ascii "device").length = 6 := by decide
  have hcolons : ascii "::" = [58, 58] := by decide
  refine ⟨?_, ?_⟩
  · unfold fillConnectData cnxnProps deviceProperties
    simp only [List.foldlM_cons, List.foldlM_nil, hcolons]
    rw [printBehind, if_pos (by simp [hbanner, MAX_PAYLOAD])]
    simp only [bind, Except.bind]
    rw [printBehind, if_pos (by simp [hbanner, hnameKey, MAX_PAYLOAD]; omega)]
    simp only []
    rw [printBehind, if_pos (by simp [hbanner, hnameKey, hmodelKey, MAX_PAYLOAD]; omega)]
    simp only []
    rw [printBehind, if_pos (by simp [hbanner, hnameKey, hmodelKey, hdeviceKey, MAX_PAYLOAD]; omega)]
    simp [pure, Except.pure]
  · simp [deviceProperties, hnameKey, hmodelKey, hdeviceKey]
    omega

theorem isText_deviceProperties (h : ∀ key ∈ cnxnProps, IsPlainValue (property key)) :
    IsText (ascii "device" ++ 58 :: 58 :: deviceProperties property) := by
  have hname := (h _ (List.mem_cons_self ..)).text
  have hmodel := (h (ascii "ro.product.model") (by simp [cnxnProps])).text
  have hdevice := (h (ascii "ro.product.device") (by simp [cnxnProps])).text
  have htype : IsText (ascii "device") := by decide
  have hnameKey : IsText (ascii "ro.product.name") := by decide
  have hmodelKey : IsText (ascii "ro.product.model") := by decide
  have hdeviceKey : IsText (ascii "ro.product.device") := by decide
  simp only [deviceProperties, isText_append, isText_cons]
  exact ⟨htype, by decide, by decide, ⟨hnameKey, by decide, hname⟩, by decide, ⟨hmodelKey, by decide, hmodel⟩,
    by decide, ⟨hdeviceKey, by decide, hdevice⟩, by decide, by decide⟩

-- The properties the parser finds are those the device printed.
theorem setProperties_device (h : ∀ key ∈ cnxnProps, IsPlainValue (property key)) (t : ATransport) :
    setProperties t (ascii "device" ++ 58 :: 58 :: deviceProperties property) =
      { t with
        product := qualOverwrite (property (ascii "ro.product.name"))
        model := qualOverwrite (property (ascii "ro.product.model"))
        device := qualOverwrite (property (ascii "ro.product.device")) } := by
  have hname := (h _ (List.mem_cons_self ..)).no_separator
  have hmodel := (h (ascii "ro.product.model") (by simp [cnxnProps])).no_separator
  have hdevice := (h (ascii "ro.product.device") (by simp [cnxnProps])).no_separator
  have hsecond : splitColon (58 :: deviceProperties property) = some ([], deviceProperties property) :=
    splitColon_colon List.not_mem_nil _
  have hkey : ∀ key ∈ cnxnProps, 59 ∉ key ∧ 61 ∉ key := by decide
  have hplain : ∀ {key value : Bytes}, 59 ∉ key → 59 ∉ value → 59 ∉ key ++ 61 :: value := by
    intro key value hk hv
    simp [hk, hv]
  obtain ⟨hname59, hname61⟩ := hkey _ (List.mem_cons_self ..)
  obtain ⟨hmodel59, hmodel61⟩ := hkey (ascii "ro.product.model") (by simp [cnxnProps])
  obtain ⟨hdevice59, hdevice61⟩ := hkey (ascii "ro.product.device") (by simp [cnxnProps])
  have hmodelName : ascii "ro.product.model" ≠ ascii "ro.product.name" := by decide
  have hdeviceName : ascii "ro.product.device" ≠ ascii "ro.product.name" := by decide
  have hdeviceModel : ascii "ro.product.device" ≠ ascii "ro.product.model" := by decide
  unfold setProperties
  rw [splitColon_colon (by decide)]
  simp only [Option.bind_some, hsecond, Option.elim_some]
  rw [deviceProperties, tokens_cons (by simp) (hplain hname59 hname),
    tokens_cons (by simp) (hplain hmodel59 hmodel), tokens_cons (by simp) (hplain hdevice59 hdevice), tokens_nil]
  simp only [List.foldl_cons, List.foldl_nil, setProperty_found hname61, setProperty_found hmodel61,
    setProperty_found hdevice61, if_true, if_neg hmodelName, if_neg hdeviceName, if_neg hdeviceModel]

theorem banner_round_trip (h : ∀ key ∈ cnxnProps, IsPlainValue (property key)) :
    ∃ data, fillConnectData MAX_PAYLOAD (ascii "device") property = .ok data ∧
      data.length ≤ MAX_PAYLOAD ∧
      ∀ slack : Bytes, data.length + slack.length = MAX_PAYLOAD → ∀ t, ∃ buffer,
        parseBannerBuffer ((data ++ slack).map some) t = .ok
          ({ t with
            connectionState := .device
            product := qualOverwrite (property (ascii "ro.product.name"))
            model := qualOverwrite (property (ascii "ro.product.model"))
            device := qualOverwrite (property (ascii "ro.product.device")) }, buffer) := by
  obtain ⟨hfill, hlen⟩ := fillConnectData_device h
  have htype : (ascii "device" ++ 58 :: 58 :: deviceProperties property).takeWhile
      (fun c => decide (c ≠ 58)) = ascii "device" := takeWhile_until (by decide) _
  have hstate : bannerState (ascii "device") = some .device := by decide
  have hbanner : (ascii "device").length = 6 := by decide
  refine ⟨_, hfill, ?_, fun slack _ t => ?_⟩
  · simp [hbanner, MAX_PAYLOAD]
    omega
  · obtain ⟨buffer, hparse⟩ := parseBannerBuffer_spec (isText_deviceProperties h) (slack.map some) t
    have hcells : (ascii "device" ++ 58 :: 58 :: deviceProperties property ++ [0] ++ slack).map some =
        (ascii "device" ++ 58 :: 58 :: deviceProperties property).map some ++ some 0 :: slack.map some := by
      simp
    rw [hcells, hparse, parsed, setProperties_device h, htype, hstate]
    exact ⟨buffer, rfl⟩

-- A name with both separators in it, an empty model and a device.
theorem banner_round_trip_of_one :
    ∃ data, fillConnectData MAX_PAYLOAD (ascii "device")
        (fun key => if key = ascii "ro.product.name" then ascii "a=b:c" else
          if key = ascii "ro.product.model" then [] else ascii "hammerhead") = .ok data ∧
      data.length ≤ MAX_PAYLOAD ∧
      ∀ slack : Bytes, data.length + slack.length = MAX_PAYLOAD → ∀ t, ∃ buffer,
        parseBannerBuffer ((data ++ slack).map some) t = .ok
          ({ t with
            connectionState := .device
            product := some (ascii "a=b:c")
            model := none
            device := some (ascii "hammerhead") }, buffer) :=
  banner_round_trip (by
    intro key hkey
    simp only [cnxnProps, List.mem_cons, List.not_mem_nil, or_false] at hkey
    obtain rfl | rfl | rfl := hkey
    · exact ⟨by decide, by decide, by decide⟩
    · exact ⟨by decide, by decide, by decide⟩
    · exact ⟨by decide, by decide, by decide⟩)

end ConnectData

end Adb.Host
