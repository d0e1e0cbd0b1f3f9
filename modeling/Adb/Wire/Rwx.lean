import Adb.Host.DirectWrite
import Adb.Lib.Loop
import Adb.Lib.Memory
import Adb.Wire.RoundTrip

namespace Adb.Wire

open Adb.Lib
open Adb.Host
  (Bytes ReadOutcome WriteOutcome WriteEnd WriteResult writeLoop writeLoop_nil writeLoop_wrote
  writeLoop_split writeLoop_done)

-- What a call of adb_read or adb_write comes back with: how much was transferred, where
-- 0 is the end of the stream, or -1 and an errno.
inductive Returned (α : Type) where
  | moved (some : α)
  | eintr
  | failed

-- At most len bytes are taken. Behind the last outcome the stream is at its end.
def adbRead (len : Nat) : List ReadOutcome → Returned Bytes × List ReadOutcome
  | [] => (.moved [], [])
  | .data bytes :: reads =>
      (.moved (bytes.take len), if bytes.length ≤
        len then reads else .data (bytes.drop len) :: reads)
  | .intr :: reads => (.eintr, reads)
  | .again :: reads => (.failed, reads)
  | .failed :: reads => (.failed, reads)

def adbWrite (len : Nat) : List WriteOutcome → Returned Nat × List WriteOutcome
  | [] => (.moved 0, [])
  | .wrote count :: writes => (.moved (min count len), writes)
  | .intr :: writes => (.eintr, writes)
  | .again :: writes => (.failed, writes)
  | .failed :: writes => (.failed, writes)

structure Reading where
  reads : List ReadOutcome
  ptr : List Cell
  p : Nat
  len : Nat

-- A turn of the loop of readx. What is read is stored where p is.
def readTurn (s : Reading) : Except MemoryFault (Reading ⊕ (Int × Reading)) :=
  if s.len > 0 then
    match adbRead s.len s.reads with
    | (.moved bytes, reads) => do
        let ptr ← store s.ptr s.p bytes
        if bytes.length > 0 then
          return .inl ⟨reads, ptr, s.p + bytes.length, s.len - bytes.length⟩
        else
          return .inr (-1, { s with reads })
    | (.eintr, reads) => .ok (.inl { s with reads })
    | (.failed, reads) => .ok (.inr (-1, { s with reads }))
  else
    .ok (.inr (0, s))

-- sent is what has gone out so far.
structure Writing where
  writes : List WriteOutcome
  sent : Bytes
  p : Nat
  len : Nat

-- A turn of the loop of writex.
def writeTurn (ptr : Bytes) (s : Writing) : Except MemoryFault (Writing ⊕ (Int × Writing)) :=
  if s.len > 0 then do
    let bytes ← readBytes ptr s.p s.len
    match adbWrite s.len s.writes with
    | (.moved count, writes) =>
        if count > 0 then
          return .inl ⟨writes, s.sent ++ bytes.take count, s.p + count, s.len - count⟩
        else
          return .inr (-1, { s with writes })
    | (.eintr, writes) => return .inl { s with writes }
    | (.failed, writes) => return .inr (-1, { s with writes })
  else
    .ok (.inr (0, s))

-- readx and writex on memory: len bytes are meant, from ptr on. none: the loop is not at
-- its end yet.
def readxMemory (fuel : Nat) (reads : List ReadOutcome) (ptr : List Cell) (len : Nat) :
    Option (Except MemoryFault (Int × Reading)) :=
  loop readTurn fuel ⟨reads, ptr, 0, len⟩

def writexMemory (fuel : Nat) (writes : List WriteOutcome) (ptr : Bytes) (len : Nat) :
    Option (Except MemoryFault (Int × Writing)) :=
  loop (writeTurn ptr) fuel ⟨writes, [], 0, len⟩

-- All the bytes that come in, whatever happens between them.
def carried : List ReadOutcome → Bytes
  | [] => []
  | .data bytes :: reads => bytes ++ carried reads
  | .intr :: reads => carried reads
  | .again :: reads => carried reads
  | .failed :: reads => carried reads

section Read

variable {reads : List ReadOutcome} {len : Nat} {ret : Int} {t : Reading} {bytes done : Bytes}
  {rest : List Cell}

-- How the loop ends: what has arrived stands behind what was there before, and no more
-- of it than len. Where that is all of len, it is what readx gives for lists.
structure ReadEnds (reads : List ReadOutcome) (done : Bytes) (rest : List Cell) (len : Nat)
    (ret : Int) (t : Reading) :
    Prop where
  buffer : t.ptr = (done ++ (arrived reads).take len).map some ++
    rest.drop ((arrived reads).take len).length
  moved : t.p = done.length + ((arrived reads).take len).length
  returns : ret = if len ≤ (arrived reads).length then 0 else -1
  stream : carried reads = (arrived reads).take len ++ carried t.reads
  listed : readx len reads = if ret = 0 then some ((arrived reads).take len, t.reads) else none

-- The bytes that the first outcome adds.
theorem ReadEnds.cons {next : List ReadOutcome} (hlen : bytes.length ≤ len)
    (h : ReadEnds next (done ++ bytes) (rest.drop bytes.length) (len - bytes.length) ret t)
    (harrived : arrived reads = bytes ++ arrived next)
    (hcarried : carried reads = bytes ++ carried next)
    (hlisted : readx len reads = (readx (len - bytes.length) next).map fun (more, reads) =>
      (bytes ++ more, reads)) :
    ReadEnds reads done rest len ret t := by
  have htake : (arrived reads).take len = bytes ++ (arrived next).take (len - bytes.length) := by
    rw [harrived, List.take_append, List.take_of_length_le hlen]
  constructor
  · rw [h.buffer, htake, List.append_assoc, List.length_append, List.drop_drop]
  · rw [h.moved, htake, List.length_append, List.length_append, Nat.add_assoc]
  · rw [h.returns, harrived, List.length_append]
    have hiff : len - bytes.length ≤ (arrived next).length ↔
        len ≤ bytes.length + (arrived next).length := by omega
    simp only [hiff]
  · rw [hcarried, h.stream, htake, List.append_assoc]
  · rw [hlisted, h.listed, htake]
    split <;> rfl

theorem readEnds_done (h : len = 0) (reads : List ReadOutcome) (done : Bytes) (rest : List Cell) :
    ReadEnds reads done rest len 0 ⟨reads, done.map some ++ rest, done.length, 0⟩ := by
  subst h
  constructor <;> simp [readx]

-- Nothing arrives any more.
theorem readEnds_failed {next : List ReadOutcome} (hlen : len > 0) (harrived : arrived reads = [])
    (hcarried : carried reads = carried next) (hlisted : readx len reads = none) :
    ReadEnds reads done rest len (-1) ⟨next, done.map some ++ rest, done.length, len⟩ := by
  constructor <;> simp [harrived, hcarried, hlisted, Nat.not_le.mpr hlen]

theorem readTurn_moved {next : List ReadOutcome} (hlen : len > 0)
    (hread : adbRead len reads = (.moved bytes, next))
    (hpos : bytes.length > 0) (hroom : bytes.length ≤ rest.length) (done : Bytes) :
    readTurn ⟨reads, done.map some ++ rest, done.length, len⟩ =
      .ok (.inl ⟨next, (done ++ bytes).map some ++ rest.drop bytes.length, (done ++ bytes).length,
        len - bytes.length⟩) := by
  simp only [readTurn, if_pos hlen, hread, store_written done bytes hroom, if_pos hpos,
    bind, Except.bind]
  rw [List.length_append]
  rfl

theorem readTurn_ended {next : List ReadOutcome} (done : Bytes) (rest : List Cell) (hlen : len > 0)
    (hread : adbRead len reads = (.moved [], next)) :
    readTurn ⟨reads, done.map some ++ rest, done.length, len⟩ =
      .ok (.inr (-1, ⟨next, done.map some ++ rest, done.length, len⟩)) := by
  have hstore := store_written done [] (Nat.zero_le rest.length)
  rw [List.append_nil, List.length_nil, List.drop_zero] at hstore
  simp only [readTurn, if_pos hlen, hread, hstore, bind, Except.bind]
  rfl

-- The loop of readx comes to its end, an outcome at a time.
theorem loop_readTurn (reads : List ReadOutcome) :
    ∀ (done : Bytes) (rest : List Cell) (len : Nat), len ≤ rest.length →
    ∃ fuel ret t, loop readTurn fuel ⟨reads, done.map some ++ rest, done.length, len⟩ =
      some (.ok (ret, t)) ∧
      ReadEnds reads done rest len ret t := by
  induction reads with
  | nil =>
      intro done rest len _
      cases len with
      | zero => exact ⟨1, 0, _, rfl, readEnds_done rfl [] done rest⟩
      | succ len =>
          have hends : ReadEnds [] done rest (len + 1) (-1)
              ⟨[], done.map some ++ rest, done.length, len + 1⟩ :=
            readEnds_failed (Nat.succ_pos len) rfl rfl rfl
          exact ⟨1, -1, _, loop_leaves (readTurn_ended done rest (Nat.succ_pos len) rfl), hends⟩
  | cons outcome reads ih =>
      intro done rest len hroom
      cases len with
      | zero => exact ⟨1, 0, _, rfl, readEnds_done rfl _ done rest⟩
      | succ len =>
          have hlen := Nat.succ_pos len
          cases outcome with
          | again => exact ⟨1, -1, _, rfl, readEnds_failed hlen rfl rfl rfl⟩
          | failed => exact ⟨1, -1, _, rfl, readEnds_failed hlen rfl rfl rfl⟩
          | intr =>
              obtain ⟨fuel, ret, t, hloop, hends⟩ := ih done rest (len + 1) hroom
              exact ⟨fuel + 1, ret, t, hloop,
                ⟨hends.buffer, hends.moved, hends.returns, hends.stream, hends.listed⟩⟩
          | data bytes =>
              by_cases hnil : bytes = []
              · subst hnil
                have hlisted : readx (len + 1) (.data [] :: reads) = none := by
                  rw [readx, if_pos rfl]
                have hread : adbRead (len + 1) (.data [] :: reads) = (.moved [], reads) := by
                  simp [adbRead]
                exact ⟨1, -1, _, loop_leaves (readTurn_ended done rest hlen hread),
                  readEnds_failed hlen rfl rfl hlisted⟩
              have hpos := List.length_pos_iff.mpr hnil
              by_cases hfits : bytes.length ≤ len + 1
              · -- all of it is taken, and the loop goes on
                have hread : adbRead (len + 1) (.data bytes :: reads) = (.moved bytes, reads) := by
                  rw [adbRead, if_pos hfits, List.take_of_length_le hfits]
                obtain ⟨fuel, ret, t, hloop, hends⟩ := ih (done ++ bytes) (rest.drop bytes.length)
                  (len + 1 - bytes.length) (by rw [List.length_drop]; omega)
                refine ⟨fuel + 1, ret, t, ?_, hends.cons hfits ?_ rfl ?_⟩
                · rw [loop_succ (readTurn_moved hlen hread hpos (by omega) done), hloop]
                · rw [arrived, if_neg hnil]
                · rw [readx, if_neg hnil, if_pos hfits]
              · -- what is over is there for the next read
                have hread : adbRead (len + 1) (.data bytes :: reads) =
                    (.moved (bytes.take (len + 1)), .data (bytes.drop (len + 1)) :: reads) := by
                  rw [adbRead, if_neg hfits]
                have htake : (bytes.take (len + 1)).length = len + 1 := by
                  rw [List.length_take]; omega
                have hsplit := List.take_append_drop (len + 1) bytes
                have hleft : bytes.drop (len + 1) ≠ [] :=
                  fun heq => hfits (List.drop_eq_nil_iff.mp heq)
                have hends :=
                  readEnds_done (Nat.sub_self (len + 1)) (.data (bytes.drop (len + 1)) :: reads)
                  (done ++ bytes.take (len + 1)) (rest.drop (len + 1))
                have hplace : (bytes.take (len + 1)).length ≤ rest.length := by
                  rw [htake]; exact hroom
                have hturn := readTurn_moved hlen hread (by rw [htake]; exact hlen) hplace
                rw [htake, Nat.sub_self] at hturn
                refine ⟨2, 0,
                  _, by rw [loop_succ (hturn done), loop_leaves rfl],
                  ReadEnds.cons (Nat.le_of_eq htake)
                  (by rw [htake]; exact hends) ?_ ?_ ?_⟩
                · rw [arrived, arrived, if_neg hnil, if_neg hleft, ← List.append_assoc, hsplit]
                · rw [carried, carried, ← List.append_assoc, hsplit]
                · have hover : readx 0 (.data (bytes.drop (len + 1)) :: reads) =
                      some ([], .data (bytes.drop (len + 1)) :: reads) := by rw [readx]
                  rw [htake, Nat.sub_self, hover, readx, if_neg hnil, if_neg hfits]
                  simp

end Read

section Write

variable {writes : List WriteOutcome} {ret : Int} {t : Writing} {pre bytes behind sent : Bytes}

-- How the loop ends: as writeLoop does, which has no pointers.
structure WriteEnds (result : WriteResult) (sent : Bytes) (p : Nat) (ret : Int)
    (t : Writing) : Prop where
  sent : t.sent = sent ++ result.written
  moved : t.p = p + result.written.length
  returns : ret = if result.outcome = .done then 0 else -1
  left : t.writes = result.writes

theorem readBytes_middle (pre bytes behind : Bytes) :
    readBytes (pre ++ (bytes ++ behind)) pre.length bytes.length = .ok bytes := by
  rw [readBytes, if_pos (by simp), List.drop_left, List.take_left]

theorem writeTurn_eq (sent : Bytes) (pre behind : Bytes) (hne : bytes ≠ []) :
    writeTurn (pre ++ (bytes ++ behind)) ⟨writes, sent, pre.length, bytes.length⟩ =
      .ok (match adbWrite bytes.length writes with
        | (.moved count, writes) =>
            if count > 0 then .inl ⟨writes, sent ++ bytes.take count, pre.length + count,
              bytes.length - count⟩
            else .inr (-1, ⟨writes, sent, pre.length, bytes.length⟩)
        | (.eintr, writes) => .inl ⟨writes, sent, pre.length, bytes.length⟩
        | (.failed, writes) => .inr (-1, ⟨writes, sent, pre.length, bytes.length⟩)) := by
  have hpos : bytes.length > 0 := List.length_pos_iff.mpr hne
  simp only [writeTurn, if_pos hpos, readBytes_middle, bind, Except.bind]
  split <;> try rfl
  split <;> rfl

theorem loop_writeTurn (writes : List WriteOutcome) : ∀ pre bytes behind sent : Bytes,
    ∃ fuel ret t, loop (writeTurn (pre ++ (bytes ++ behind))) fuel
      ⟨writes, sent, pre.length, bytes.length⟩ =
      some (.ok (ret, t)) ∧ WriteEnds (writeLoop true bytes writes) sent pre.length ret t := by
  induction writes with
  | nil =>
      intro pre bytes behind sent
      by_cases hne : bytes = []
      · subst hne
        exact ⟨1, 0, _, rfl, by constructor <;> simp⟩
      · refine ⟨1, -1, _, loop_leaves (writeTurn_eq sent pre behind hne), ?_⟩
        obtain ⟨c, bytes, rfl⟩ := List.exists_cons_of_ne_nil hne
        constructor <;> simp [writeLoop]
  | cons outcome writes ih =>
      intro pre bytes behind sent
      by_cases hne : bytes = []
      · subst hne
        exact ⟨1, 0, _, rfl, by constructor <;> simp⟩
      · obtain ⟨c, bytes', rfl⟩ := List.exists_cons_of_ne_nil hne
        cases outcome with
        | again =>
            exact ⟨1, -1, _,
              loop_leaves (writeTurn_eq sent pre behind hne), by constructor <;> simp [writeLoop]⟩
        | failed =>
            exact ⟨1, -1, _,
              loop_leaves (writeTurn_eq sent pre behind hne), by constructor <;> simp [writeLoop]⟩
        | intr =>
            obtain ⟨fuel, ret, t, hloop, hends⟩ := ih pre (c :: bytes') behind sent
            refine ⟨fuel + 1, ret, t, ?_, hends⟩
            rw [loop_succ (writeTurn_eq sent pre behind hne), hloop]
        | wrote count =>
            by_cases hz : count = 0
            · subst hz
              exact ⟨1, -1, _,
                loop_leaves (writeTurn_eq sent pre behind hne), by constructor <;> simp [writeLoop]⟩
            · obtain ⟨bytes, hbytes⟩ : ∃ bytes, bytes = c :: bytes' := ⟨_, rfl⟩
              rw [← hbytes] at hne ⊢
              have hmin : (bytes.take count).length = min count bytes.length := List.length_take
              have htake : bytes.take (min count bytes.length) = bytes.take count :=
                List.take_eq_take_min.symm
              have hleft : (bytes.drop count).length = bytes.length - min count bytes.length := by
                rw [List.length_drop]
                omega
              have hmemory : pre ++ bytes.take count ++ (bytes.drop count ++ behind) =
                  pre ++ (bytes ++ behind) := by
                rw [List.append_assoc, ← List.append_assoc (bytes.take count),
                  List.take_append_drop]
              have hpos : 0 < min count bytes.length := by
                have := List.length_pos_iff.mpr hne
                omega
              have hturn : writeTurn (pre ++ (bytes ++ behind))
                  ⟨.wrote count :: writes, sent, pre.length, bytes.length⟩ =
                  .ok (.inl ⟨writes, sent ++ bytes.take count, (pre ++ bytes.take count).length,
                    (bytes.drop count).length⟩) := by
                rw [writeTurn_eq sent pre behind hne, List.length_append, hmin, hleft, ← htake]
                simp only [adbWrite, if_pos hpos]
              obtain ⟨fuel, ret, t, hloop, hends⟩ :=
                ih (pre ++ bytes.take count) (bytes.drop count) behind
                (sent ++ bytes.take count)
              rw [hmemory] at hloop
              refine ⟨fuel + 1, ret, t, by rw [loop_succ hturn, hloop], ?_⟩
              rw [writeLoop_wrote true hne hz]
              constructor
              · rw [hends.sent, List.append_assoc]
              · rw [hends.moved, List.length_append, List.length_append, Nat.add_assoc]
              · exact hends.returns
              · exact hends.left

theorem writeLoop_left (bytes : Bytes) (writes : List WriteOutcome)
    (h : (writeLoop true bytes writes).rest = []) :
    (writeLoop true bytes writes).outcome = .done := by
  induction writes generalizing bytes with
  | nil =>
      cases bytes with
      | nil => rfl
      | cons b bytes => cases h
  | cons outcome writes ih =>
      cases bytes with
      | nil => rfl
      | cons b bytes =>
          cases outcome with
          | again => cases h
          | failed => cases h
          | intr => exact ih _ h
          | wrote count =>
              by_cases hz : count = 0
              · subst hz
                cases h
              · rw [writeLoop_wrote true (List.cons_ne_nil b bytes) hz] at h ⊢
                exact ih _ h

end Write

section Exact

-- 0 for len bytes, in their order and as they come, and -1 for less.
def ReadsExactly (reads : List ReadOutcome) (buffer behind : List Cell) : Prop :=
  ∃ fuel ret t taken, readxMemory fuel reads (buffer ++ behind) buffer.length =
    some (.ok (ret, t)) ∧
    (ret = 0 ∧ t.p = buffer.length ∨ ret = -1 ∧ t.p < buffer.length) ∧ taken.length = t.p ∧
    t.ptr = taken.map some ++ (buffer.drop t.p ++ behind) ∧ carried reads = taken ++ carried t.reads

def WritesExactly (writes : List WriteOutcome) (data behind : Bytes) : Prop :=
  ∃ fuel ret t, writexMemory fuel writes (data ++ behind) data.length = some (.ok (ret, t)) ∧
    (ret = 0 ∧ t.p = data.length ∨ ret = -1 ∧ t.p < data.length) ∧ t.sent = data.take t.p

theorem readsExactly (reads : List ReadOutcome) (buffer behind : List Cell) :
    ReadsExactly reads buffer behind := by
  have hroom : buffer.length ≤ (buffer ++ behind).length := by
    rw [List.length_append]
    exact Nat.le_add_right ..
  obtain ⟨fuel, ret, t, hloop, hends⟩ :=
    loop_readTurn reads [] (buffer ++ behind) buffer.length hroom
  have hmoved : ((arrived reads).take buffer.length).length = t.p := by
    rw [hends.moved, List.length_nil, Nat.zero_add]
  refine ⟨fuel, ret, t, (arrived reads).take buffer.length, hloop, ?_, hmoved, ?_, hends.stream⟩
  · have hlen : t.p = min buffer.length (arrived reads).length := by rw [← hmoved, List.length_take]
    rw [hends.returns]
    split
    · exact .inl ⟨rfl, by omega⟩
    · exact .inr ⟨rfl, by omega⟩
  · have hle : t.p ≤ buffer.length := by rw [← hmoved]; exact List.length_take_le ..
    rw [hends.buffer, List.nil_append, hmoved, List.drop_append_of_le_length hle]

theorem writesExactly (writes : List WriteOutcome) (data behind : Bytes) :
    WritesExactly writes data behind := by
  obtain ⟨fuel, ret, t, hloop, hends⟩ := loop_writeTurn writes [] data behind []
  have hmoved : t.p = (writeLoop true data writes).written.length := by
    rw [hends.moved, List.length_nil, Nat.zero_add]
  have hsplit := writeLoop_split true data writes
  have hlen := congrArg List.length hsplit
  rw [List.length_append] at hlen
  refine ⟨fuel, ret, t, hloop, ?_, ?_⟩
  · rw [hends.returns]
    split
    · rename_i hdone
      rw [writeLoop_done true data writes hdone, List.length_nil] at hlen
      exact .inl ⟨rfl, by omega⟩
    · rename_i hdone
      have hrest := List.length_pos_iff.mpr fun h => hdone (writeLoop_left data writes h)
      exact .inr ⟨rfl, by omega⟩
  · have htake : data.take t.p = (writeLoop true data writes).written := by
      conv_lhs => rw [← hsplit, hmoved, List.take_left]
    rw [hends.sent, List.nil_append, htake]

-- Both loops move as much as they are asked to, or fail.
theorem transfers_exactly :
    (∀ reads buffer behind, ReadsExactly reads buffer behind) ∧
      ∀ writes data behind, WritesExactly writes data behind :=
  ⟨readsExactly, writesExactly⟩

-- So readx and writex of lists say what they return, and leave.
theorem readx_memory (reads : List ReadOutcome) (buffer behind : List Cell) :
    ∃ fuel ret t, readxMemory fuel reads (buffer ++ behind) buffer.length = some (.ok (ret, t)) ∧
      readx buffer.length reads =
        if ret = 0 then some ((arrived reads).take buffer.length, t.reads) else none := by
  obtain ⟨fuel, ret, t, hloop, hends⟩ := loop_readTurn reads [] (buffer ++ behind) buffer.length
    (by rw [List.length_append]; omega)
  exact ⟨fuel, ret, t, hloop, hends.listed⟩

theorem writex_memory (writes : List WriteOutcome) (data behind : Bytes) :
    ∃ fuel ret t, writexMemory fuel writes (data ++ behind) data.length = some (.ok (ret, t)) ∧
      writex data writes = if ret = 0 then some (t.sent, t.writes) else none := by
  obtain ⟨fuel, ret, t, hloop, hends⟩ := loop_writeTurn writes [] data behind []
  refine ⟨fuel, ret, t, hloop, ?_⟩
  rw [writex, hends.sent, hends.left, hends.returns, List.nil_append]
  cases (writeLoop true data writes).outcome <;> rfl

end Exact

section Ends

variable {reads : List ReadOutcome} {ptr : List Cell} {n : Nat}

theorem readxMemory_ends (reads : List ReadOutcome) (hroom : n ≤ ptr.length) :
    ∃ ret t, Ends (readxMemory · reads ptr n) (.ok (ret, t)) ∧ ReadEnds reads [] ptr n ret t := by
  obtain ⟨fuel, ret, t, hloop, hends⟩ := loop_readTurn reads [] ptr n hroom
  exact ⟨ret, t, ends_loop hloop, hends⟩

-- readx into memory that holds n bytes, where as many arrive.
theorem readxMemory_full (hroom : n ≤ ptr.length) (hfull : n ≤ (arrived reads).length) :
    ∃ t, Ends (readxMemory · reads ptr n) (.ok (0, t)) ∧
      t.ptr = ((arrived reads).take n).map some ++ ptr.drop n ∧
        arrived t.reads = (arrived reads).drop n := by
  obtain ⟨ret, t, hrun, hends⟩ := readxMemory_ends reads hroom
  have hret := hends.returns
  rw [if_pos hfull] at hret
  subst hret
  obtain ⟨rest, hread, hrest⟩ := (readx_readsAt n).full reads hfull
  have hlisted := hends.listed
  rw [hread, if_pos rfl] at hlisted
  have hleft : rest = t.reads := (Prod.mk.inj (Option.some.inj hlisted)).2
  have hbuffer := hends.buffer
  rw [List.nil_append, List.length_take, Nat.min_eq_left hfull] at hbuffer
  exact ⟨t, hrun, hbuffer, hleft ▸ hrest⟩

-- And where fewer do.
theorem readxMemory_short (hroom : n ≤ ptr.length) (hshort : (arrived reads).length < n) :
    ∃ t, Ends (readxMemory · reads ptr n) (.ok (-1, t)) ∧ t.ptr.length = ptr.length := by
  obtain ⟨ret, t, hrun, hends⟩ := readxMemory_ends reads hroom
  have hret := hends.returns
  rw [if_neg (Nat.not_le.mpr hshort)] at hret
  subst hret
  refine ⟨t, hrun, ?_⟩
  have htake : ((arrived reads).take n).length ≤ ptr.length :=
    Nat.le_trans (List.length_take_le ..) hroom
  rw [hends.buffer, List.nil_append, List.length_append, List.length_map, List.length_drop]
  omega

-- writex of the first n bytes at ptr: all of them go out, or a part.
theorem writexMemory_ends (writes : List WriteOutcome) (data behind : Bytes) :
    ∃ ret t, Ends (writexMemory · writes (data ++ behind) data.length) (.ok (ret, t)) ∧
      (ret = 0 ∧ t.sent = data ∨ ret = -1 ∧ t.sent <+: data ∧ t.sent ≠ data) := by
  obtain ⟨fuel, ret, t, hloop, hret, hsent⟩ := writesExactly writes data behind
  refine ⟨ret, t, ends_loop hloop, ?_⟩
  obtain ⟨rfl, hp⟩ | ⟨rfl, hp⟩ := hret
  · exact .inl ⟨rfl, by rw [hsent, hp, List.take_length]⟩
  · refine .inr ⟨rfl, hsent ▸ List.take_prefix .., fun heq => ?_⟩
    have hlen := congrArg List.length (hsent.symm.trans heq)
    rw [List.length_take] at hlen
    omega

-- They all do where each write takes some.
theorem writexMemory_steady {writes : List WriteOutcome} (data behind : Bytes)
    (hsteady : Steady writes)
    (henough : data.length ≤ writes.countP takesBytes) :
    ∃ t, Ends (writexMemory · writes (data ++ behind) data.length) (.ok (0, t)) ∧ t.sent = data ∧
      Steady t.writes ∧ writes.countP takesBytes ≤ t.writes.countP takesBytes + data.length := by
  obtain ⟨fuel, ret, t, hloop, hends⟩ := loop_writeTurn writes [] data behind []
  obtain ⟨hdone, hleft, hcount⟩ := writeLoop_steady data hsteady henough
  have hret := hends.returns
  rw [if_pos hdone] at hret
  subst hret
  refine ⟨t, ends_loop hloop, ?_, ?_⟩
  · rw [hends.sent, List.nil_append, writeLoop_written data writes hdone]
  · rw [hends.left]
    exact ⟨hleft, hcount⟩

end Ends

end Adb.Wire
