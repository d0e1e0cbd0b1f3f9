import Adb.Lib.Memory
import Adb.Sync.Listing
import Adb.Sync.PushPath

namespace Adb.Sync

open Adb.Lib

-- The loop of do_list with tmp, from which lstat takes its path.
def listLoopInto (path : List UInt8) : List Cell → Device → List Text → Except MemoryFault (Int × Device)
  | _, dev, [] => .ok (0, dev)
  | tmp, dev, name :: more =>
      if name.val.length > 256 then
        listLoopInto path tmp dev more
      else
        match store tmp (path.length + 1) (name.val ++ [0]) with
        | .error fault => .error fault
        | .ok tmp =>
            match readText tmp with
            | .error fault => .error fault
            | .ok entry =>
                match dev.lstat entry with
                | none => listLoopInto path tmp dev more
                | some st =>
                    match dev.send [listEntry st name, name] with
                    | (0, dev) => listLoopInto path tmp dev more
                    | (_, dev) => .ok (-1, dev)

-- From opendir to closedir.
def listNamesInto (tmp : List Cell) (dev : Device) (path : List UInt8) : Except MemoryFault (Int × Device) :=
  match dev.opendir path with
  | none => .ok (0, dev)
  | some names => listLoopInto path tmp dev names

-- do_list with tmp, in which the path and the separator come first.
def doListInto (dev : Device) (path : List UInt8) : Except MemoryFault (Int × Device) := do
  let tmp ← store (fresh (1024 + 256 + 1)) 0 path
  let tmp ← store tmp path.length [47]
  let listed ← listNamesInto tmp dev path
  match listed with
  | (0, dev) => .ok (dev.send [syncmsg [ID_DONE, 0, 0, 0, 0]])
  | (_, dev) => .ok (-1, dev)

-- tmp with the path and the separator at its start.
def started (path : List UInt8) (rest : List Cell) : List Cell := path.map some ++ some 47 :: rest

section Buffer

variable {dev : Device} {path : Text} {names : List Text} {rest : List Cell}

variable (path) in
-- A name that is short enough for what is left of tmp, and how lstat reads it there.
theorem store_name (name : Text) (hname : name.val.length < rest.length) :
    ∃ after, after.length = rest.length ∧
      store (started path rest) (path.val.length + 1) (name.val ++ [0]) =
        .ok (started path after) ∧
      readText (started path after) = .ok (entryPath path name) := by
  have hstart : (path.val.map some ++ [some 47]).length = path.val.length + 1 := by simp
  have hcells : ∀ rest, started path rest = (path.val.map some ++ [some 47]) ++ rest := by
    intro rest
    simp [started]
  have hlength : (name.val ++ [0]).length ≤ rest.length := by
    rw [List.length_append]
    exact hname
  refine ⟨(name.val ++ [0]).map some ++ rest.drop (name.val ++ [0]).length, ?_, ?_, ?_⟩
  · rw [List.length_append, List.length_map, List.length_drop]
    omega
  · rw [hcells, store_append hstart hlength, hcells]
  · have htext : IsText (entryPath path name) :=
      isText_append.mpr ⟨path.property, isText_cons.mpr ⟨by decide, name.property⟩⟩
    have hentry : started path
        ((name.val ++ [0]).map some ++ rest.drop (name.val ++ [0]).length) =
          (entryPath path name ++ [0]).map some ++ rest.drop (name.val ++ [0]).length := by
      simp [started, entryPath]
    rw [hentry]
    exact readText_terminated htext

theorem store_name_overrun (name : Text) (hname : rest.length ≤ name.val.length) :
    store (started path rest) (path.val.length + 1) (name.val ++ [0]) = .error .overrun := by
  refine store_overrun ?_
  simp only [started, List.length_append, List.length_map, List.length_cons, List.length_nil]
  omega

-- While the names fit, the loop is the one without the buffer.
theorem listLoopInto_fits (hfits : ∀ name ∈ names, name.val.length ≤ 256 → name.val.length < rest.length) :
    listLoopInto path (started path rest) dev names = .ok (listLoop path dev names) := by
  induction names generalizing dev rest with
  | nil => rfl
  | cons name more ih =>
      have hmore : ∀ after : List Cell, after.length = rest.length →
          ∀ other ∈ more, other.val.length ≤ 256 → other.val.length < after.length := by
        intro after hafter other hm hlen
        rw [hafter]
        exact hfits other (List.mem_cons_of_mem _ hm) hlen
      unfold listLoopInto listLoop
      split
      · exact ih (hmore rest rfl)
      obtain ⟨after, hafter, hstore, hread⟩ :=
        store_name path name (hfits name (List.mem_cons_self ..) (by omega))
      rw [hstore]
      dsimp only
      rw [hread]
      dsimp only
      cases dev.lstat (entryPath path name) with
      | none => exact ih (hmore after hafter)
      | some st =>
          obtain ⟨c, hsend, -⟩ | ⟨c, part, hsend, -⟩ := dev.send_cases [listEntry st name, name]
          · simp only [hsend]
            exact ih (hmore after hafter)
          · simp only [hsend]

-- A name that leaves no room for its NUL, on a device whose lstat knows nothing.
theorem listLoopInto_overrun (hlstat : ∀ entry, dev.lstat entry = none) {name : Text} (hm : name ∈ names)
    (hshort : name.val.length ≤ 256) (hlong : rest.length ≤ name.val.length) :
    listLoopInto path (started path rest) dev names = .error .overrun := by
  induction names generalizing rest with
  | nil => cases hm
  | cons first more ih =>
      unfold listLoopInto
      split
      · rename_i hskip
        refine ih ?_ hlong
        obtain rfl | hm := List.mem_cons.mp hm
        · omega
        · exact hm
      by_cases hfirst : first.val.length < rest.length
      · obtain ⟨after, hafter, hstore, hread⟩ := store_name path first hfirst
        rw [hstore]
        dsimp only
        rw [hread]
        dsimp only
        rw [hlstat]
        refine ih ?_ (by omega)
        obtain rfl | hm := List.mem_cons.mp hm
        · omega
        · exact hm
      · rw [store_name_overrun first (by omega)]

-- What is left of tmp behind the path and the separator.
theorem doListInto_started (hpath : path.val.length ≤ 1024) : ∃ rest : List Cell,
    rest.length = 1280 - path.val.length ∧ ∀ dev : Device, doListInto dev path =
      listNamesInto (started path rest) dev path >>= fun listed =>
        match listed with
        | (0, dev) => .ok (dev.send [syncmsg [ID_DONE, 0, 0, 0, 0]])
        | (_, dev) => .ok (-1, dev) := by
  have hfresh : (fresh (1024 + 256 + 1)).length = 1281 := List.length_replicate
  obtain ⟨tmp, htmp⟩ : ∃ tmp, tmp = (fresh (1024 + 256 + 1)).drop path.val.length := ⟨_, rfl⟩
  have hlength : tmp.length = 1281 - path.val.length := by rw [htmp, List.length_drop, hfresh]
  have hfirst : store (fresh (1024 + 256 + 1)) 0 path.val = .ok (path.val.map some ++ tmp) := by
    have hstore := @store_append _ [] (fresh (1024 + 256 + 1)) path.val 0 rfl (by omega)
    rwa [List.nil_append, List.nil_append, ← htmp] at hstore
  have hsecond : store (path.val.map some ++ tmp) path.val.length [47] =
      .ok (started path (tmp.drop 1)) := by
    rw [store_append (List.length_map ..) (by rw [hlength]; simp only [List.length_singleton]; omega)]
    rfl
  refine ⟨tmp.drop 1, by rw [List.length_drop]; omega, fun dev => ?_⟩
  unfold doListInto
  rw [hfirst]
  simp only [bind, Except.bind, hsecond]

end Buffer

-- A path that file_sync_service gets as far as do_list with.
def Admitted (path : Text) : Prop :=
  ∃ dev dev', readRequest dev = .ok (ID_LIST, path.val, dev')

section Requests

variable {path : Text} {names : List Text}

theorem Admitted.length_le (h : Admitted path) : path.val.length ≤ 1024 := by
  obtain ⟨dev, dev', hread⟩ := h
  unfold readRequest at hread
  obtain ⟨input, he, -, -⟩ | ⟨input, he, -⟩ := dev.conn.readx_cases 8
  case inr =>
    rw [he] at hread
    cases hread
  rw [he] at hread
  dsimp only at hread
  split at hread
  · cases hread
  rename_i hlen
  obtain ⟨input', he', -, -⟩ | ⟨input', he', -⟩ := Conn.readx_cases { dev.conn with input } 
    (wordAt ((readable dev.conn.input).take 8) 1).toNat
  case inr =>
    rw [he'] at hread
    cases hread
  rw [he'] at hread
  simp only [Except.ok.injEq, Prod.mk.injEq] at hread
  obtain ⟨-, hname, -⟩ := hread
  rw [← hname, textOf]
  have hprefix : (textOf ((readable input).take (wordAt ((readable dev.conn.input).take 8) 1).toNat)).length ≤ _ :=
    (List.takeWhile_prefix _).length_le
  rw [textOf, List.length_take] at hprefix
  omega

-- No byte that do_list writes to tmp is outside of it, and so it does what it does
-- without the buffer.
def ListsWithin (path : Text) (names : List Text) : Prop :=
  ∀ dev : Device, dev.opendir path = some names → doListInto dev path = .ok (doList dev path)

theorem not_listsWithin {name : Text} (hpath : path.val.length = 1024) (hm : name ∈ names)
    (hname : name.val.length = 256) : ¬ListsWithin path names := by
  obtain ⟨rest, hrest, hstarted⟩ := @doListInto_started path (by omega)
  obtain ⟨dev, hopen, hlstat⟩ : ∃ dev : Device, dev.opendir path = some names ∧
      ∀ entry, dev.lstat entry = none :=
    ⟨{ emptyDevice [] with opendir := fun _ => some names }, rfl, fun _ => rfl⟩
  have hloop := @listLoopInto_overrun dev path names rest hlstat name hm (by omega) (by omega)
  intro hwithin
  have hlists := hwithin dev hopen
  rw [hstarted, listNamesInto, hopen] at hlists
  dsimp only at hlists
  rw [hloop] at hlists
  cases hlists

-- tmp has a byte less than the longest path, the separator, the longest name and
-- its NUL together.
theorem do_list_in_bounds_iff (path : Text) (names : List Text) (hadmitted : Admitted path) :
    ListsWithin path names ↔ (path.val.length = 1024 → ∀ name ∈ names, name.val.length ≠ 256) := by
  have hpath := hadmitted.length_le
  obtain ⟨rest, hrest, hstarted⟩ := doListInto_started hpath
  constructor
  · intro hwithin hlong name hm hname
    exact not_listsWithin hlong hm hname hwithin
  · intro hshort dev hopen
    have hfits : ∀ name ∈ names, name.val.length ≤ 256 → name.val.length < rest.length := by
      intro name hm hname
      by_cases hlong : path.val.length = 1024
      · have hne := hshort hlong name hm
        omega
      · omega
    rw [hstarted, listNamesInto, hopen]
    dsimp only
    rw [listLoopInto_fits hfits]
    unfold doList
    rw [hopen]
    simp only [bind, Except.bind]
    obtain ⟨code, after⟩ := listLoop path.val dev names
    cases code with
    | ofNat code =>
        cases code with
        | zero => rfl
        | succ code => rfl
    | negSucc code => rfl

-- A directory with a name of one byte.
theorem do_list_in_bounds_of_one : ListsWithin ⟨[100], by decide⟩ [⟨[97], by decide⟩] :=
  (do_list_in_bounds_iff _ _ ⟨deviceWithDirectory, _, rfl⟩).mpr (by decide)

-- The longest path and the longest name.
theorem do_list_overruns : ¬∀ (path : Text) (names : List Text), Admitted path → ListsWithin path names := by
  intro h
  obtain ⟨path, hpath⟩ : ∃ path : Text, path.val.length = 1024 := ⟨longPath, List.length_replicate⟩
  obtain ⟨name, hname⟩ : ∃ name : Text, name.val.length = 256 :=
    ⟨⟨List.replicate 256 97, by decide +kernel⟩, List.length_replicate⟩
  have hadmitted : Admitted path := by
    have hin : readable (emptyDevice (listRequest path)).conn.input =
        syncmsg [ID_LIST, UInt32.ofNat path.val.length] ++ (path.val ++ []) := by
      have hall : readable (segmentOf (listRequest path) ++ ([] : Input)) = listRequest path ++ readable ([] : Input) :=
        readable_segmentOf_append
      rw [List.append_nil] at hall
      simpa [emptyDevice, listRequest, readable] using hall
    have hread := readRequest_of_request ID_LIST path (by omega) hin
    rw [if_pos (by omega)] at hread
    exact ⟨_, hread⟩
  exact not_listsWithin hpath (List.mem_singleton_self name) hname (h path [name] hadmitted)

end Requests

end Adb.Sync
