import Adb.Lib.Loop
import Adb.Sync.Exchange

namespace Adb.Device

open Adb.Lib Adb.Sync

def DDMS_RAWIMAGE_VERSION : UInt32 := 1

-- sizeof(buf)
def BUF_SIZE : Nat := 640

structure Fbinfo where
  version : UInt32
  bpp : UInt32
  size : UInt32
  width : UInt32
  height : UInt32
  redOffset : UInt32
  redLength : UInt32
  blueOffset : UInt32
  blueLength : UInt32
  greenOffset : UInt32
  greenLength : UInt32
  alphaOffset : UInt32
  alphaLength : UInt32

-- The struct is packed.
def Fbinfo.header (info : Fbinfo) : List UInt8 :=
  [info.version, info.bpp, info.size, info.width, info.height, info.redOffset, info.redLength,
    info.blueOffset, info.blueLength, info.greenOffset, info.greenLength, info.alphaOffset,
    info.alphaLength].flatMap word32

-- The offset and the length of each colour, for pixels of so many bits and bytes. The
-- product of the ints wraps.
def fbinfoOf (w h bpp bytes : UInt32) (red green blue alpha : UInt32 × UInt32) : Fbinfo :=
  { version := DDMS_RAWIMAGE_VERSION
    bpp
    size := w * h * bytes
    width := w
    height := h
    redOffset := red.1
    redLength := red.2
    blueOffset := blue.1
    blueLength := blue.2
    greenOffset := green.1
    greenLength := green.2
    alphaOffset := alpha.1
    alphaLength := alpha.2 }

-- The formats of hardware.h; none for the default of the switch.
def fbinfo (w h f : UInt32) : Option Fbinfo :=
  match f.toNat with
  | 1 => some (fbinfoOf w h 32 4 (0, 8) (8, 8) (16, 8) (24, 8))
  | 2 => some (fbinfoOf w h 32 4 (0, 8) (8, 8) (16, 8) (24, 0))
  | 3 => some (fbinfoOf w h 24 3 (0, 8) (8, 8) (16, 8) (24, 0))
  | 4 => some (fbinfoOf w h 16 2 (11, 5) (5, 6) (0, 5) (0, 0))
  | 5 => some (fbinfoOf w h 32 4 (16, 8) (8, 8) (0, 8) (24, 8))
  | _ => none

-- How the service ends: it gets to done, or it waits for screencap.
inductive Ending where
  | done
  | waits
deriving DecidableEq

-- A call of readx that does not succeed. The other end of the pipe is open in this
-- process as well, so behind what screencap has written comes no end.
def endOfRead (screencap : Input) : Ending :=
  if screencap.any fun | .failed _ => true | _ => false then .done else .waits

def readPipe (screencap : Input) (fd : Conn) (len : Nat) :
    Except (Conn × Ending) (List UInt8 × Input) :=
  match readx screencap len with
  | .done bytes rest => .ok (bytes, rest)
  | .failed _ _ => .error (fd, endOfRead screencap)

def writeFd (fd : Conn) (bytes : List UInt8) : Except (Conn × Ending) Conn :=
  match fd.writex bytes with
  | .done fd => .ok fd
  | .failed fd => .error (fd, .done)

-- A readx into buf and a writex of it.
def copyPart (screencap : Input) (fd : Conn) (len : Nat) :
    Except (Conn × Ending) (Input × Conn) := do
  let (buf, screencap) ← readPipe screencap fd len
  let fd ← writeFd fd buf
  return (screencap, fd)

structure Copy where
  i : UInt32
  screencap : Input
  fd : Conn

-- One turn of the loop that writes the data.
def copyTurn (size : UInt32) (copy : Copy) : Except (Conn × Ending) (Copy ⊕ Copy) :=
  if copy.i < size then do
    let (screencap, fd) ← copyPart copy.screencap copy.fd BUF_SIZE
    return .inl ⟨copy.i + UInt32.ofNat BUF_SIZE, screencap, fd⟩
  else
    return .inr copy

-- w, h and format, and then the header.
def startFramebuffer (screencap : Input) (fd : Conn) :
    Except (Conn × Ending) (UInt32 × Input × Conn) := do
  let (w, screencap) ← readPipe screencap fd 4
  let (h, screencap) ← readPipe screencap fd 4
  let (f, screencap) ← readPipe screencap fd 4
  match fbinfo (ofWord32 w) (ofWord32 h) (ofWord32 f) with
  | none => .error (fd, .done)
  | some info =>
      let fd ← writeFd fd info.header
      return (info.size, screencap, fd)

-- What does not fill buf any more, behind the loop.
def copyRest (size : UInt32) (copy : Copy) : Conn × Ending :=
  match copyPart copy.screencap copy.fd (size.toNat % BUF_SIZE) with
  | .error leaves => leaves
  | .ok (_, fd) => (fd, .done)

-- framebuffer_service in the parent, once there is a screencap. none: the loop is not
-- at its end yet.
def framebufferService (fuel : Nat) (screencap : Input) (fd : Conn) : Option (Conn × Ending) :=
  match startFramebuffer screencap fd with
  | .error leaves => some leaves
  | .ok (size, screencap, fd) =>
      (loop (copyTurn size) fuel ⟨0, screencap, fd⟩).map fun
        | .error leaves => leaves
        | .ok copy => copyRest size copy

section Parts

variable {screencap : Input} {fd : Conn} {bytes more : List UInt8}

theorem readPipe_ok (fd : Conn) (h : readable screencap = bytes ++ more) :
    ∃ rest, readPipe screencap fd bytes.length = .ok (bytes, rest) ∧ readable rest = more := by
  have hlen : bytes.length ≤ (readable screencap).length := by
    rw [h, List.length_append]
    omega
  obtain ⟨rest, hread, hleft⟩ := readx_done hlen
  rw [h, List.take_left] at hread
  rw [h, List.drop_left] at hleft
  exact ⟨rest, by rw [readPipe, hread], hleft⟩

theorem readPipe_fails {len : Nat} (h : (readable screencap).length < len) :
    readPipe screencap fd len = .error (fd, endOfRead screencap) := by
  obtain ⟨rest, hread⟩ := readx_failed h
  rw [readPipe, hread]

theorem writeFd_ok (hwrites : Healthy fd.writes) (bytes : List UInt8) :
    ∃ fd', writeFd fd bytes = .ok fd' ∧ fd'.output = fd.output ++ bytes ∧ Healthy fd'.writes := by
  obtain ⟨rest, hwrite, hhealthy⟩ := Conn.writex_healthy hwrites bytes
  exact ⟨_, by rw [writeFd, hwrite], rfl, hhealthy⟩

theorem copyPart_ok (hwrites : Healthy fd.writes) (h : readable screencap = bytes ++ more) :
    ∃ rest fd', copyPart screencap fd bytes.length = .ok (rest, fd') ∧ readable rest = more ∧
      fd'.output = fd.output ++ bytes ∧ Healthy fd'.writes := by
  obtain ⟨rest, hread, hleft⟩ := readPipe_ok fd h
  obtain ⟨fd', hwrite, houtput, hhealthy⟩ := writeFd_ok hwrites bytes
  refine ⟨rest, fd', ?_, hleft, houtput, hhealthy⟩
  simp only [copyPart, hread, hwrite, bind, Except.bind, pure, Except.pure]

theorem copyPart_fails {len : Nat} (h : (readable screencap).length < len) :
    copyPart screencap fd len = .error (fd, endOfRead screencap) := by
  simp only [copyPart, readPipe_fails h, bind, Except.bind]

end Parts

-- The header is written, and of the pixels as many whole parts as the loop has taken
-- turns.
structure Copied (header pixels : List UInt8) (turns : Nat) (copy : Copy) : Prop where
  index : copy.i = UInt32.ofNat (BUF_SIZE * turns)
  supplied : BUF_SIZE * turns ≤ pixels.length
  left : readable copy.screencap = pixels.drop (BUF_SIZE * turns)
  written : copy.fd.output = header ++ pixels.take (BUF_SIZE * turns)
  healthy : Healthy copy.fd.writes

section Data

variable {header pixels : List UInt8} {n : Nat} {copy : Copy} {size : UInt32}

theorem Copied.turn (h : Copied header pixels n copy) (hi : copy.i < size)
    (hmore : BUF_SIZE * (n + 1) ≤ pixels.length) :
    ∃ next, copyTurn size copy = .ok (.inl next) ∧ Copied header pixels (n + 1) next := by
  have hstep : BUF_SIZE * (n + 1) = BUF_SIZE * n + BUF_SIZE := Nat.mul_succ _ _
  have hbytes : ((pixels.drop (BUF_SIZE * n)).take BUF_SIZE).length = BUF_SIZE := by
    rw [List.length_take, List.length_drop]
    omega
  have hsplit : readable copy.screencap =
      (pixels.drop (BUF_SIZE * n)).take BUF_SIZE ++ pixels.drop (BUF_SIZE * (n + 1)) := by
    rw [h.left, hstep, ← List.drop_drop, List.take_append_drop]
  obtain ⟨rest, fd, hpart, hleft, houtput, hhealthy⟩ := copyPart_ok h.healthy hsplit
  rw [hbytes] at hpart
  refine ⟨⟨copy.i + UInt32.ofNat BUF_SIZE, rest, fd⟩, ?_, ?_, hmore, hleft, ?_, hhealthy⟩
  · rw [copyTurn, if_pos hi, hpart]
    rfl
  · rw [h.index, hstep, UInt32.ofNat_add]
  · rw [houtput, h.written, List.append_assoc, hstep, ← List.take_add]

theorem Copied.stops (h : Copied header pixels n copy) (hi : copy.i < size)
    (hless : pixels.length < BUF_SIZE * (n + 1)) :
    copyTurn size copy = .error (copy.fd, endOfRead copy.screencap) := by
  have hsupplied := h.supplied
  have hshort : (readable copy.screencap).length < BUF_SIZE := by
    rw [h.left, List.length_drop]
    rw [Nat.mul_succ] at hless
    omega
  rw [copyTurn, if_pos hi, copyPart_fails hshort]
  rfl

-- Whole parts that are left are all copied.
theorem Copied.whole (m : Nat) (h : Copied header pixels n copy)
    (hsize : size.toNat = BUF_SIZE * (n + m))
    (hsupply : size.toNat ≤ pixels.length) :
    ∃ last, loop (copyTurn size) (m + 1) copy = some (.ok last) ∧
      Copied header pixels (n + m) last := by
  have hbound := size.toNat_lt
  have hsplit : BUF_SIZE * (n + m) = BUF_SIZE * n + BUF_SIZE * m := Nat.mul_add _ _ _
  have hindex : copy.i.toNat = BUF_SIZE * n := by
    rw [h.index, UInt32.toNat_ofNat_of_lt' (show BUF_SIZE * n < 2 ^ 32 by omega)]
  induction m generalizing n copy with
  | zero =>
      refine ⟨copy, loop_leaves ?_, h⟩
      rw [copyTurn, if_neg (by rw [UInt32.lt_iff_toNat_lt]; omega)]
      rfl
  | succ m ih =>
      have hone : BUF_SIZE * (m + 1) = BUF_SIZE * m + BUF_SIZE := Nat.mul_succ _ _
      have hnext : BUF_SIZE * (n + 1) = BUF_SIZE * n + BUF_SIZE := Nat.mul_succ _ _
      have hsum : n + (m + 1) = n + 1 + m := by omega
      have hrest : BUF_SIZE * (n + 1 + m) = BUF_SIZE * (n + 1) + BUF_SIZE * m := Nat.mul_add _ _ _
      have hlt : copy.i < size := by
        rw [UInt32.lt_iff_toNat_lt, hindex, hsize, hsplit, hone]
        unfold BUF_SIZE
        omega
      obtain ⟨next, hturn, hcopied⟩ := h.turn hlt (by omega)
      obtain ⟨last, hloop, hlast⟩ := ih hcopied (by rw [hsize, hsum]) hrest
        (by rw [hcopied.index, UInt32.toNat_ofNat_of_lt'
          (show BUF_SIZE * (n + 1) < 2 ^ 32 by omega)])
      exact ⟨last, by rw [loop_succ hturn, hloop], hsum ▸ hlast⟩

-- What is written stays.
theorem Copied.rest (h : Copied header pixels n copy) (size : UInt32) :
    copy.fd.output <+: (copyRest size copy).1.output := by
  unfold copyRest
  obtain hless | hmore := Nat.lt_or_ge (readable copy.screencap).length (size.toNat % BUF_SIZE)
  · rw [copyPart_fails hless]
  · have hlen := List.length_take_of_le hmore
    obtain ⟨rest, fd, hpart, -, houtput, -⟩ :=
      copyPart_ok h.healthy (List.take_append_drop _ _).symm
    rw [hlen] at hpart
    rw [hpart]
    exact ⟨_, houtput.symm⟩

-- However far the loop comes, it has copied whole parts.
theorem Copied.comesTo {last : Copy} (h : Copied header pixels n copy)
    (hcomes : ComesTo (copyTurn size) copy last) :
    ∃ m, Copied header pixels m last := by
  induction hcomes with
  | refl => exact ⟨n, h⟩
  | @tail next last _ hturn ih =>
      obtain ⟨m, hcopied⟩ := ih
      by_cases hi : next.i < size
      · obtain hless | hmore := Nat.lt_or_ge pixels.length (BUF_SIZE * (m + 1))
        · rw [hcopied.stops hi hless] at hturn
          cases hturn
        · obtain ⟨after, hgoes, hafter⟩ := hcopied.turn hi hmore
          rw [hturn] at hgoes
          cases hgoes
          exact ⟨m + 1, hafter⟩
      · rw [copyTurn, if_neg hi] at hturn
        cases hturn

end Data

-- The service comes to its end and has written the header and as many bytes as the
-- header says, the first ones of the pixels.
def FrameWritten (screencap : Input) (fd : Conn) (info : Fbinfo) (pixels : List UInt8) : Prop :=
  ∃ fuel fd', framebufferService fuel screencap fd = some (fd', .done) ∧
    fd'.output = fd.output ++ info.header ++ pixels.take info.size.toNat

section Service

variable {screencap : Input} {fd : Conn} {w h f : UInt32} {pixels : List UInt8} {info : Fbinfo}

theorem startFramebuffer_header
    (hsupply : readable screencap = word32 w ++ (word32 h ++ (word32 f ++ pixels)))
    (hwrites : Healthy fd.writes) :
    match fbinfo w h f with
    | none => startFramebuffer screencap fd = .error (fd, .done)
    | some info => ∃ rest fd', startFramebuffer screencap fd = .ok (info.size, rest, fd') ∧
        Copied (fd.output ++ info.header) pixels 0 ⟨0, rest, fd'⟩ := by
  obtain ⟨first, hw, hfirst⟩ := readPipe_ok fd hsupply
  obtain ⟨second, hh, hsecond⟩ := readPipe_ok fd hfirst
  obtain ⟨third, hf, hthird⟩ := readPipe_ok fd hsecond
  rw [length_word32] at hw hh hf
  simp only [startFramebuffer, hw, hh, hf, bind, Except.bind, pure, Except.pure, ofWord32_word32]
  cases hinfo : fbinfo w h f with
  | none => rfl
  | some info =>
      obtain ⟨fd', hwrite, houtput, hhealthy⟩ := writeFd_ok hwrites info.header
      simp only [hwrite]
      exact ⟨third, fd', rfl, rfl, Nat.zero_le _, hthird, by simpa using houtput, hhealthy⟩

-- A size that is made of whole parts comes out right.
theorem frameWritten_of_dvd
    (hsupply : readable screencap = word32 w ++ (word32 h ++ (word32 f ++ pixels)))
    (hwrites : Healthy fd.writes) (hinfo : fbinfo w h f = some info)
    (hsize : info.size.toNat ≤ pixels.length)
    (hdvd : BUF_SIZE ∣ info.size.toNat) : FrameWritten screencap fd info pixels := by
  have hstart := startFramebuffer_header hsupply hwrites
  rw [hinfo] at hstart
  obtain ⟨rest, fd', hstart, hcopied⟩ := hstart
  obtain ⟨m, hm⟩ := hdvd
  obtain ⟨last, hloop, hlast⟩ := hcopied.whole m (by rw [hm, Nat.zero_add]) hsize
  obtain ⟨rest', fd'', hpart, -, houtput, -⟩ :=
    copyPart_ok hlast.healthy (List.nil_append (readable last.screencap)).symm
  refine ⟨m + 1, fd'', ?_, ?_⟩
  · rw [List.length_nil] at hpart
    rw [framebufferService, hstart]
    simp only [hloop, Option.map_some, copyRest, hm, Nat.mul_mod_right, hpart]
  · rw [houtput, List.append_nil, hlast.written, Nat.zero_add, hm]

-- Where the loop leaves: out of a turn that screencap has no more bytes for, or with
-- the size reached.
theorem Copied.leaves (h : Copied header pixels n copy) {r : Except (Conn × Ending) Copy}
    (hturn : copyTurn size copy = r.map .inr) :
    r = .error (copy.fd, endOfRead copy.screencap) ∨ r = .ok copy ∧ size.toNat ≤ BUF_SIZE * n := by
  by_cases hi : copy.i < size
  · left
    obtain hless | hmore := Nat.lt_or_ge pixels.length (BUF_SIZE * (n + 1))
    · rw [h.stops hi hless] at hturn
      cases r with
      | error leaves => cases hturn; rfl
      | ok last => cases hturn
    · obtain ⟨next, hgoes, -⟩ := h.turn hi hmore
      rw [hgoes] at hturn
      cases r with
      | error leaves => cases hturn
      | ok last => cases hturn
  · right
    have hreached : size.toNat ≤ copy.i.toNat := Nat.not_lt.mp (mt UInt32.lt_iff_toNat_lt.mpr hi)
    rw [h.index, UInt32.toNat_ofNat'] at hreached
    rw [copyTurn, if_neg hi] at hturn
    cases r with
    | error leaves => cases hturn
    | ok last =>
        cases hturn
        exact ⟨rfl, hreached.trans (Nat.mod_le _ _)⟩

-- With another size either the last part waits for more than there is, or too much
-- is copied.
theorem not_frameWritten
    (hsupply : readable screencap = word32 w ++ (word32 h ++ (word32 f ++ pixels)))
    (hwrites : Healthy fd.writes) (hinfo : fbinfo w h f = some info)
    (hsize : info.size.toNat ≤ pixels.length)
    (hdvd : ¬BUF_SIZE ∣ info.size.toNat) : ¬FrameWritten screencap fd info pixels := by
  intro ⟨fuel, fd', hservice, houtput⟩
  have hstart := startFramebuffer_header hsupply hwrites
  rw [hinfo] at hstart
  obtain ⟨rest, start, hstart, hcopied⟩ := hstart
  rw [framebufferService, hstart] at hservice
  obtain ⟨r, hloop, hend⟩ := Option.map_eq_some_iff.mp hservice
  obtain ⟨last, hcomes, hturn⟩ := loop_ends hloop
  obtain ⟨m, hlast⟩ := hcopied.comesTo hcomes
  have hsupplied := hlast.supplied
  have hcopy := congrArg List.length hlast.written
  have hwhole := congrArg List.length houtput
  rw [List.length_append, List.length_take] at hcopy hwhole
  obtain rfl | ⟨rfl, hreached⟩ := hlast.leaves hturn
  · have hfd : last.fd = fd' := congrArg Prod.fst hend
    rw [hfd] at hcopy
    exact hdvd ⟨m, by omega⟩
  · have hfd : copyRest info.size last = (fd', .done) := hend
    have hgrows := (hlast.rest info.size).length_le
    rw [hfd] at hgrows
    dsimp only at hgrows
    exact hdvd ⟨m, by omega⟩

-- What is written is the header and the pixels exactly where the format is known and
-- the size is made of whole parts.
theorem framebuffer_service_right_iff (screencap : Input) (fd : Conn) (w h f : UInt32)
    (pixels : List UInt8)
    (hsupply : readable screencap = word32 w ++ (word32 h ++ (word32 f ++ pixels)))
    (hpixels : ∀ info, fbinfo w h f = some info → info.size.toNat ≤ pixels.length)
    (hwrites : Healthy fd.writes) :
    (∃ info, fbinfo w h f = some info ∧ FrameWritten screencap fd info pixels) ↔
      ∃ info, fbinfo w h f = some info ∧ BUF_SIZE ∣ info.size.toNat := by
  refine exists_congr fun info => and_congr_right fun hinfo => ⟨fun hwritten => ?_, ?_⟩
  · by_contra hdvd
    exact not_frameWritten hsupply hwrites hinfo (hpixels info hinfo) hdvd hwritten
  · exact frameWritten_of_dvd hsupply hwrites hinfo (hpixels info hinfo)

end Service

section Frames

variable {w h f : UInt32} {pixels : List UInt8}

-- What screencap writes, in one piece.
def screencapOf (w h f : UInt32) (pixels : List UInt8) : Input :=
  segmentOf (word32 w ++ (word32 h ++ (word32 f ++ pixels)))

theorem readable_screencapOf :
    readable (screencapOf w h f pixels) = word32 w ++ (word32 h ++ (word32 f ++ pixels)) := by
  simpa [screencapOf, readable] using
    @readable_segmentOf_append UInt8 Errno (word32 w ++ (word32 h ++ (word32 f ++ pixels))) []

theorem framebuffer_service_right_of_ten_lines :
    ∃ info, fbinfo 16 10 1 = some info ∧
      FrameWritten (screencapOf 16 10 1 (List.replicate 640 0)) ⟨[], [], [], false⟩ info
        (List.replicate 640 0) :=
  (framebuffer_service_right_iff (screencapOf 16 10 1 (List.replicate 640 0))
    ⟨[], [], [], false⟩ 16 10 1
    (List.replicate 640 0) readable_screencapOf
    (fun info hinfo => by cases hinfo; rw [List.length_replicate]; decide) healthy_nil).mpr
      ⟨_, rfl, 1, rfl⟩

-- The four bytes of one pixel are never written.
theorem one_pixel_waits :
    ¬∀ (screencap : Input) (fd : Conn) (w h f : UInt32) (pixels : List UInt8) (info : Fbinfo),
    readable screencap = word32 w ++ (word32 h ++ (word32 f ++ pixels)) → fbinfo w h f = some info →
      info.size.toNat ≤ pixels.length → Healthy fd.writes →
        FrameWritten screencap fd info pixels := by
  intro h
  have hsize : (fbinfoOf 1 1 32 4 (0, 8) (8, 8) (16, 8) (24, 8)).size.toNat = 4 := rfl
  refine not_frameWritten readable_screencapOf healthy_nil rfl (by rw [hsize]; decide) ?_
    (h (screencapOf 1 1 1 [0, 0, 0, 0]) ⟨[], [], [], false⟩ 1 1 1
      [0, 0, 0, 0] _ readable_screencapOf rfl
      (by rw [hsize]; decide) healthy_nil)
  rw [hsize]
  decide

end Frames

end Adb.Device
