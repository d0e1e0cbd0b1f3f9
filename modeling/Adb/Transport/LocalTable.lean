import Adb.Transport.Registry

namespace Adb.Transport

open Adb.Lib

def ADB_LOCAL_TRANSPORT_MAX : Nat := 16

-- What init_socket_transport sets, and what remote_kick and the table look at.
structure SocketTransport where
  sfd : Int
  syncToken : Int
  connectionState : ConnectionState
  type : TransportType
  adbPort : Int
  kicked : Bool

-- The memory of the transports and local_transports. asLocal records which of the
-- transports that are there were registered as local.
structure LocalTable where
  heap : Nat → Option SocketTransport
  localTransports : List (Option Nat)
  asLocal : Nat → Bool

def localTableInit : LocalTable where
  heap := fun _ => none
  localTransports := List.replicate ADB_LOCAL_TRANSPORT_MAX none
  asLocal := fun _ => false

-- What calloc leaves.
def callocTransport : SocketTransport where
  sfd := 0
  syncToken := 0
  connectionState := .offline
  type := .usb
  adbPort := 0
  kicked := false

-- The first lines of init_socket_transport.
def SocketTransport.init (record : SocketTransport) (s : Int) : SocketTransport :=
  { record with
    sfd := s
    syncToken := 1
    connectionState := .offline
    type := .loopback
    adbPort := 0 }

-- The loop of find_emulator_transport_by_adb_port_locked.
def findByAdbPort (heap : Nat → Option SocketTransport) (adbPort : Int) :
    List (Option Nat) → Except Fault (Option Nat)
  | [] => .ok none
  | none :: rest => findByAdbPort heap adbPort rest
  | some t :: rest =>
      match heap t with
      | none => .error .useAfterFree
      | some record =>
          if record.adbPort = adbPort then .ok (some t) else findByAdbPort heap adbPort rest

-- The loop of remote_kick over the table.
def clearEntry (t : Nat) : List (Option Nat) → List (Option Nat)
  | [] => []
  | entry :: rest => if entry = some t then none :: rest else entry :: clearEntry t rest

namespace LocalTable

def setTransport (st : LocalTable) (t : Nat) (record : SocketTransport) : LocalTable :=
  { st with heap := Function.update st.heap t (some record) }

def freeTransport (st : LocalTable) (t : Nat) : LocalTable :=
  { st with heap := Function.update st.heap t none }

-- get_available_local_transport_index_locked
def availableIndex (st : LocalTable) : Option Nat := st.localTransports.findIdx? (·.isNone)

def initSocketTransport (st : LocalTable) (t : Nat) (s adbPort : Int) (isLocal : Bool) :
    Except Fault (Int × LocalTable) :=
  match st.heap t with
  | none => .error .useAfterFree
  | some record =>
      if isLocal then do
        let st := st.setTransport t { record.init s with adbPort := adbPort }
        match ← findByAdbPort st.heap adbPort st.localTransports with
        | some _ => return (-1, st)
        | none =>
            match st.availableIndex with
            | none => return (-1, st)
            | some index =>
                return (0, { st with localTransports := st.localTransports.set index (some t) })
      else
        return (0, st.setTransport t (record.init s))

-- calloc returns memory that nobody has. On failure it is freed again.
def registerSocketTransport (st : LocalTable) (t : Nat) (s adbPort : Int) (isLocal : Bool) :
    Except Fault LocalTable :=
  if (st.heap t).isSome then
    .error .disabled
  else do
    let st := st.setTransport t callocTransport
    let (fail, st) ← st.initSocketTransport t s adbPort isLocal
    if fail < 0 then
      return st.freeTransport t
    else
      return { st with asLocal := Function.update st.asLocal t isLocal }

def remoteKick (st : LocalTable) (t : Nat) (record : SocketTransport) : LocalTable :=
  { st.setTransport t { record with sfd := -1 } with
    localTransports := clearEntry t st.localTransports }

-- A kick, by any of those that set kicked and call t->kick.
def kick (st : LocalTable) (t : Nat) : Except Fault LocalTable :=
  match st.heap t with
  | none => .error .disabled
  | some record =>
      if record.kicked then .ok st else .ok (st.remoteKick t { record with kicked := true })

-- The main loop frees what transport_unref_locked has kicked.
def remove (st : LocalTable) (t : Nat) : Except Fault LocalTable :=
  match st.heap t with
  | none => .error .disabled
  | some record => if record.kicked then .ok (st.freeTransport t) else .error .disabled

end LocalTable

inductive LocalMove where
  | register (t : Nat) (s adbPort : Int) (isLocal : Bool)
  | kick (t : Nat)
  | remove (t : Nat)

def localStep (st : LocalTable) : LocalMove → Except Fault LocalTable
  | .register t s adbPort isLocal => st.registerSocketTransport t s adbPort isLocal
  | .kick t => st.kick t
  | .remove t => st.remove t

-- The table has its length, an entry for each local transport that is there and
-- has not been kicked, and no port twice.
structure TableSound (st : LocalTable) : Prop where
  length : st.localTransports.length = ADB_LOCAL_TRANSPORT_MAX
  entries : ∀ t, some t ∈ st.localTransports ↔
    ∃ record, st.heap t = some record ∧ st.asLocal t = true ∧ record.kicked = false
  ports : ∀ (i j t u : Nat) (r q : SocketTransport), st.localTransports[i]? = some (some t) →
    st.localTransports[j]? = some (some u) → st.heap t = some r → st.heap u = some q →
      r.adbPort = q.adbPort → i = j

section Table

variable {heap heap' : Nat → Option SocketTransport} {table : List (Option Nat)} {adbPort : Int}

-- No entry has the port.
theorem findByAdbPort_none (h : findByAdbPort heap adbPort table = .ok none) {t : Nat}
    (ht : some t ∈ table) : ∃ record, heap t = some record ∧ record.adbPort ≠ adbPort := by
  induction table with
  | nil => cases ht
  | cons entry rest ih =>
      cases entry with
      | none =>
          obtain heq | ht := List.mem_cons.mp ht
          · cases heq
          · exact ih h ht
      | some u =>
          unfold findByAdbPort at h
          split at h
          case h_1 => cases h
          rename_i record hrecord
          split at h
          · cases h
          · rename_i hport
            obtain heq | ht := List.mem_cons.mp ht
            · cases heq
              exact ⟨record, hrecord, hport⟩
            · exact ih h ht

-- The search does not leave the live transports.
theorem findByAdbPort_total (h : ∀ t, some t ∈ table → (heap t).isSome) :
    ∃ found, findByAdbPort heap adbPort table = .ok found := by
  induction table with
  | nil => exact ⟨none, rfl⟩
  | cons entry rest ih =>
      have hrest := ih fun t ht => h t (List.mem_cons_of_mem _ ht)
      cases entry with
      | none => exact hrest
      | some t =>
          obtain ⟨record, hrecord⟩ := Option.isSome_iff_exists.mp (h t (by simp))
          unfold findByAdbPort
          rw [hrecord]
          dsimp only
          split
          · exact ⟨some t, rfl⟩
          · exact hrest

-- With one entry at most for t, the loop of remote_kick leaves none.
theorem clearEntry_eq {t : Nat}
    (h : ∀ i j : Nat, table[i]? = some (some t) → table[j]? = some (some t) → i = j) :
    clearEntry t table = table.map fun entry => if entry = some t then none else entry := by
  induction table with
  | nil => rfl
  | cons entry rest ih =>
      rw [clearEntry, List.map_cons]
      by_cases hentry : entry = some t
      · rw [if_pos hentry, if_pos hentry]
        have hrest : ∀ e ∈ rest, e ≠ some t := by
          intro e he heq
          obtain ⟨n, hn⟩ := List.mem_iff_getElem?.mp he
          have hfirst := h 0 (n + 1) (by rw [List.getElem?_cons_zero, hentry])
            (by rw [List.getElem?_cons_succ, hn, heq])
          omega
        have hid : rest.map (fun entry => if entry = some t then none else entry) = rest := by
          rw [List.map_congr_left fun e he => if_neg (hrest e he), List.map_id']
        rw [hid]
      · rw [if_neg hentry, if_neg hentry, ih]
        intro i j hi hj
        have hsucc :=
          h (i + 1) (j + 1) (by rwa [List.getElem?_cons_succ]) (by rwa [List.getElem?_cons_succ])
        omega

end Table

section Steps

variable {st after : LocalTable} {t : Nat} {s adbPort fail : Int} {isLocal : Bool}

theorem TableSound.unique (h : TableSound st) (t : Nat) (i j : Nat)
    (hi : st.localTransports[i]? = some (some t))
    (hj : st.localTransports[j]? = some (some t)) : i = j := by
  obtain ⟨record, hrecord, -⟩ := (h.entries t).mp (List.mem_of_getElem? hi)
  exact h.ports i j t t record record hi hj hrecord hrecord rfl

theorem tableSound_init : TableSound localTableInit where
  length := List.length_replicate
  entries := by
    intro t
    simp [localTableInit]
  ports := by
    intro i j t u r q hi
    have hmem := List.mem_of_getElem? hi
    simp [localTableInit] at hmem

-- What a call of init_socket_transport does.
theorem initSocketTransport_cases
    (h : st.initSocketTransport t s adbPort isLocal = .ok (fail, after)) :
    ∃ record, st.heap t = some record ∧
      ((isLocal = false ∧ fail = 0 ∧ after = st.setTransport t (record.init s)) ∨
        (isLocal = true ∧ fail = -1 ∧
          after = st.setTransport t { record.init s with adbPort := adbPort }) ∨
        (isLocal = true ∧ fail = 0 ∧ ∃ index, st.availableIndex = some index ∧
          findByAdbPort (st.setTransport t { record.init s with adbPort := adbPort }).heap adbPort
            st.localTransports = .ok none ∧
          after = { st.setTransport t { record.init s with adbPort := adbPort } with
            localTransports := st.localTransports.set index (some t) })) := by
  unfold LocalTable.initSocketTransport at h
  split at h
  case h_1 => cases h
  rename_i record hrecord
  refine ⟨record, hrecord, ?_⟩
  cases isLocal with
  | false =>
      cases h
      exact .inl ⟨rfl, rfl, rfl⟩
  | true =>
      right
      simp only [if_true, bind, Except.bind] at h
      split at h
      case h_1 => cases h
      rename_i found hfound
      cases found with
      | some u =>
          cases h
          exact .inl ⟨rfl, rfl, rfl⟩
      | none =>
          dsimp only at h
          split at h
          · cases h
            exact .inl ⟨rfl, rfl, rfl⟩
          · rename_i index hindex
            cases h
            exact .inr ⟨rfl, rfl, index, hindex, hfound, rfl⟩

-- A call that fails has not touched the table.
theorem initSocketTransport_failed
    (h : st.initSocketTransport t s adbPort isLocal = .ok (fail, after))
    (hfail : fail < 0) : after.localTransports = st.localTransports := by
  obtain ⟨record, -, ⟨-, -, rfl⟩ | ⟨-, -, rfl⟩ | ⟨-, rfl, -⟩⟩ := initSocketTransport_cases h
  · rfl
  · rfl
  · omega

-- A transport that is not in the table changes.
theorem TableSound.frame (h : TableSound st) (ht : some t ∉ st.localTransports)
    (htable : after.localTransports = st.localTransports)
    (hheap : ∀ u, u ≠ t → after.heap u = st.heap u)
    (hlocal : ∀ u, u ≠ t → after.asLocal u = st.asLocal u)
    (hself : ∀ record, after.heap t = some record → after.asLocal t = true → record.kicked = true) :
    TableSound after := by
  have hother : ∀ (i u : Nat), st.localTransports[i]? = some (some u) → u ≠ t := by
    intro i u hi heq
    exact ht (heq ▸ List.mem_of_getElem? hi)
  refine ⟨by rw [htable]; exact h.length, fun u => ?_, ?_⟩
  · rw [htable]
    by_cases hu : u = t
    · subst hu
      refine ⟨fun hmem => absurd hmem ht, fun hmem => ?_⟩
      obtain ⟨record, hrecord, hl, hk⟩ := hmem
      rw [hself record hrecord hl] at hk
      cases hk
    · rw [hheap u hu, hlocal u hu]
      exact h.entries u
  · intro i j u v r q hi hj hr hq
    rw [htable] at hi hj
    rw [hheap u (hother i u hi)] at hr
    rw [hheap v (hother j v hj)] at hq
    exact h.ports i j u v r q hi hj hr hq

theorem TableSound.absent (h : TableSound st) (ht : st.heap t = none) :
    some t ∉ st.localTransports := by
  intro hmem
  obtain ⟨record, hrecord, -⟩ := (h.entries t).mp hmem
  rw [ht] at hrecord
  cases hrecord

-- A transport with a port of its own takes a free slot.
theorem TableSound.insert (h : TableSound st) {record : SocketTransport} {index : Nat}
    (ht : some t ∉ st.localTransports) (hindex : st.availableIndex = some index)
    (hnone : findByAdbPort (st.setTransport t record).heap record.adbPort
      st.localTransports = .ok none)
    (hkicked : record.kicked = false) (hheap : after.heap = (st.setTransport t record).heap)
    (htable : after.localTransports = st.localTransports.set index (some t))
    (hlocal : after.asLocal = Function.update st.asLocal t true) : TableSound after := by
  obtain ⟨hlt, hfree, -⟩ := List.findIdx?_eq_some_iff_getElem.mp hindex
  have hfree : st.localTransports[index] = none := by simpa using hfree
  have hself : after.heap t = some record := by rw [hheap]; exact Function.update_self ..
  have hother : ∀ u, u ≠ t → after.heap u = st.heap u := by
    intro u hu
    rw [hheap]
    exact Function.update_of_ne hu ..
  have hmem : ∀ u, some u ∈ after.localTransports ↔ u = t ∨ some u ∈ st.localTransports := by
    intro u
    rw [htable]
    constructor
    · intro hu
      obtain hu | hu := List.mem_or_eq_of_mem_set hu
      · exact .inr hu
      · exact .inl (Option.some.inj hu)
    · rintro (rfl | hu)
      · exact List.mem_set hlt _
      · obtain ⟨n, hn, hget⟩ := List.getElem_of_mem hu
        have hne : index ≠ n := by
          intro heq
          subst heq
          rw [hfree] at hget
          cases hget
        exact List.mem_iff_getElem.mpr ⟨n, by simpa using hn, by rw [List.getElem_set_ne hne, hget]⟩
  -- a port in the table is not the new one
  have hport : ∀ (u : Nat) (q : SocketTransport), some u ∈ st.localTransports →
      after.heap u = some q →
      q.adbPort ≠ record.adbPort := by
    intro u q hu hq
    obtain ⟨q', hq', hne⟩ := findByAdbPort_none hnone hu
    rw [← hheap, hq] at hq'
    cases hq'
    exact hne
  have hget : ∀ (i u : Nat), after.localTransports[i]? = some (some u) →
      i = index ∧ u = t ∨ i ≠ index ∧ st.localTransports[i]? = some (some u) := by
    intro i u hi
    rw [htable] at hi
    by_cases heq : i = index
    · subst heq
      rw [List.getElem?_set_self hlt] at hi
      cases hi
      exact .inl ⟨rfl, rfl⟩
    · rw [List.getElem?_set_ne (Ne.symm heq)] at hi
      exact .inr ⟨heq, hi⟩
  refine ⟨by rw [htable, List.length_set, h.length], fun u => ?_, ?_⟩
  · rw [hmem, hlocal]
    by_cases hu : u = t
    · subst hu
      refine ⟨fun _ => ⟨record, hself, Function.update_self .., hkicked⟩, fun _ => .inl rfl⟩
    · rw [hother u hu, Function.update_of_ne hu, ← h.entries u]
      exact or_iff_right hu
  · intro i j u v r q hi hj hr hq hports
    obtain ⟨rfl, rfl⟩ | ⟨hni, hi⟩ := hget i u hi
    · obtain ⟨rfl, rfl⟩ | ⟨hnj, hj⟩ := hget j v hj
      · rfl
      · rw [hself] at hr
        cases hr
        exact absurd hports.symm (hport v q (List.mem_of_getElem? hj) hq)
    · obtain ⟨rfl, rfl⟩ | ⟨hnj, hj⟩ := hget j v hj
      · rw [hself] at hq
        cases hq
        exact absurd hports (hport u r (List.mem_of_getElem? hi) hr)
      · have hu : u ≠ t := fun heq => ht (heq ▸ List.mem_of_getElem? hi)
        have hv : v ≠ t := fun heq => ht (heq ▸ List.mem_of_getElem? hj)
        rw [hother u hu] at hr
        rw [hother v hv] at hq
        exact h.ports i j u v r q hi hj hr hq hports

theorem register_sound (h : TableSound st)
    (hr : st.registerSocketTransport t s adbPort isLocal = .ok after) : TableSound after := by
  unfold LocalTable.registerSocketTransport at hr
  split at hr
  case isTrue => cases hr
  rename_i hfree
  have hnone : st.heap t = none := Option.not_isSome_iff_eq_none.mp hfree
  have ht := h.absent hnone
  simp only [bind, Except.bind] at hr
  split at hr
  case h_1 => cases hr
  rename_i result hinit
  obtain ⟨fail, mid⟩ := result
  have hcalloc : (st.setTransport t callocTransport).heap t = some callocTransport :=
    Function.update_self ..
  have hupdate : ∀ (record : SocketTransport) u, u ≠ t →
      ((st.setTransport t callocTransport).setTransport t record).heap u = st.heap u := by
    intro record u hu
    simp [LocalTable.setTransport, Function.update_of_ne hu]
  dsimp only at hr
  obtain ⟨record, hrecord,
      ⟨rfl, rfl, rfl⟩ | ⟨rfl, rfl, rfl⟩ | ⟨rfl, rfl, index, hindex, hfind, rfl⟩⟩ :=
    initSocketTransport_cases hinit
  · cases hr
    refine h.frame ht rfl (hupdate _) (fun u hu => Function.update_of_ne hu ..) fun q _ hl => ?_
    dsimp only at hl
    rw [Function.update_self] at hl
    cases hl
  · cases hr
    refine h.frame ht rfl (fun u hu => ?_) (fun _ _ => rfl) fun q hq _ => ?_
    · simp [LocalTable.freeTransport, hupdate _ u hu, Function.update_of_ne hu]
    · simp [LocalTable.freeTransport] at hq
  · cases hr
    rw [hcalloc] at hrecord
    cases hrecord
    have hheap : ((st.setTransport t callocTransport).setTransport t
        { callocTransport.init s with adbPort := adbPort }).heap =
        (st.setTransport t { callocTransport.init s with adbPort := adbPort }).heap := by
      simp [LocalTable.setTransport]
    rw [hheap] at hfind
    exact h.insert ht hindex hfind rfl hheap rfl rfl

theorem kick_table (h : TableSound st) (hk : st.kick t = .ok after) :
    after.localTransports = st.localTransports.map fun entry =>
      if entry = some t then none else entry := by
  unfold LocalTable.kick at hk
  split at hk
  case h_1 => cases hk
  rename_i record hrecord
  split at hk
  · rename_i hkicked
    cases hk
    -- it has left the table before
    have hne : ∀ e ∈ st.localTransports, e ≠ some t := by
      intro e he heq
      obtain ⟨record', hrecord', -, hnot⟩ := (h.entries t).mp (heq ▸ he)
      rw [hrecord] at hrecord'
      cases hrecord'
      rw [hkicked] at hnot
      cases hnot
    rw [List.map_congr_left fun e he => if_neg (hne e he), List.map_id']
  · cases hk
    exact clearEntry_eq (h.unique t)

theorem kick_sound (h : TableSound st) (hk : st.kick t = .ok after) : TableSound after := by
  have htable := kick_table h hk
  unfold LocalTable.kick at hk
  split at hk
  case h_1 => cases hk
  rename_i record hrecord
  split at hk
  · cases hk
    exact h
  cases hk
  have hself : (st.remoteKick t { record with kicked := true }).heap t =
      some { record with kicked := true, sfd := -1 } := by
    simp [LocalTable.remoteKick, LocalTable.setTransport]
  have hother : ∀ u, u ≠ t → (st.remoteKick t { record with kicked := true }).heap u =
      st.heap u := by
    intro u hu
    simp [LocalTable.remoteKick, LocalTable.setTransport, Function.update_of_ne hu]
  have hget : ∀ (i u : Nat), (st.remoteKick t { record with kicked := true }).localTransports[i]? =
      some (some u) → u ≠ t ∧ st.localTransports[i]? = some (some u) := by
    intro i u hi
    rw [htable, List.getElem?_map] at hi
    obtain ⟨e, he, hmap⟩ := Option.map_eq_some_iff.mp hi
    split at hmap
    · cases hmap
    · rename_i hne
      subst hmap
      exact ⟨fun heq => hne (by rw [heq]), he⟩
  refine ⟨by rw [htable, List.length_map, h.length], fun u => ?_, ?_⟩
  · by_cases hu : u = t
    · subst hu
      constructor
      · intro hmem
        obtain ⟨n, hn⟩ := List.mem_iff_getElem?.mp hmem
        exact absurd rfl (hget n u hn).1
      · rintro ⟨record', hrecord', -, hnot⟩
        rw [hself] at hrecord'
        cases hrecord'
        cases hnot
    · rw [hother u hu]
      refine Iff.trans ?_ (h.entries u)
      rw [htable, List.mem_map]
      constructor
      · rintro ⟨e, he, hmap⟩
        split at hmap
        · cases hmap
        · exact hmap ▸ he
      · intro hmem
        have hne : some u ≠ some t := fun heq => hu (Option.some.inj heq)
        exact ⟨some u, hmem, if_neg hne⟩
  · intro i j u v r q hi hj hr hq
    obtain ⟨hu, hi⟩ := hget i u hi
    obtain ⟨hv, hj⟩ := hget j v hj
    rw [hother u hu] at hr
    rw [hother v hv] at hq
    exact h.ports i j u v r q hi hj hr hq

theorem remove_sound (h : TableSound st) (hr : st.remove t = .ok after) : TableSound after := by
  unfold LocalTable.remove at hr
  split at hr
  case h_1 => cases hr
  rename_i record hrecord
  split at hr
  case isFalse => cases hr
  rename_i hkicked
  cases hr
  have ht : some t ∉ st.localTransports := by
    intro hmem
    obtain ⟨record', hrecord', -, hnot⟩ := (h.entries t).mp hmem
    rw [hrecord] at hrecord'
    cases hrecord'
    rw [hkicked] at hnot
    cases hnot
  refine h.frame ht rfl (fun u hu => Function.update_of_ne hu ..) (fun _ _ => rfl) fun q hq _ => ?_
  simp [LocalTable.freeTransport] at hq

theorem localStep_sound {move : LocalMove} (h : TableSound st)
    (hs : localStep st move = .ok after) :
    TableSound after := by
  cases move with
  | register t s adbPort isLocal => exact register_sound h hs
  | kick t => exact kick_sound h hs
  | remove t => exact remove_sound h hs

theorem initSocketTransport_total (h : TableSound st) (t : Nat) (s adbPort : Int) (isLocal : Bool) :
    ∃ result, (st.setTransport t callocTransport).initSocketTransport t s adbPort isLocal =
      .ok result := by
  have hcalloc : (st.setTransport t callocTransport).heap t = some callocTransport :=
    Function.update_self ..
  have hlive : ∀ (record : SocketTransport) u, some u ∈ st.localTransports →
      (((st.setTransport t callocTransport).setTransport t record).heap u).isSome := by
    intro record u hu
    by_cases heq : u = t
    · simp [LocalTable.setTransport, heq]
    · obtain ⟨q, hq, -⟩ := (h.entries u).mp hu
      simp [LocalTable.setTransport, Function.update_of_ne heq, hq]
  unfold LocalTable.initSocketTransport
  rw [hcalloc]
  dsimp only
  cases isLocal with
  | false => exact ⟨_, rfl⟩
  | true =>
      obtain ⟨found, hfound⟩ : ∃ found, findByAdbPort _ adbPort st.localTransports = .ok found :=
        findByAdbPort_total (hlive { callocTransport.init s with adbPort := adbPort })
      simp only [if_true, bind, Except.bind]
      have htable : ((st.setTransport t callocTransport).setTransport t
          { callocTransport.init s with adbPort := adbPort }).localTransports =
            st.localTransports := rfl
      rw [htable, hfound]
      cases found with
      | some u => exact ⟨_, rfl⟩
      | none =>
          dsimp only
          split
          · exact ⟨_, rfl⟩
          · exact ⟨_, rfl⟩

-- The table leads to live transports only.
theorem localStep_fault {move : LocalMove} {e : Fault} (h : TableSound st)
    (hs : localStep st move = .error e) : e = .disabled := by
  cases move with
  | register t s adbPort isLocal =>
      simp only [localStep, LocalTable.registerSocketTransport] at hs
      split at hs
      · cases hs
        rfl
      · obtain ⟨⟨fail, mid⟩, hinit⟩ := initSocketTransport_total h t s adbPort isLocal
        simp only [bind, Except.bind, hinit] at hs
        split at hs <;> cases hs
  | kick t =>
      simp only [localStep, LocalTable.kick] at hs
      split at hs
      · cases hs
        rfl
      · split at hs <;> cases hs
  | remove t =>
      simp only [localStep, LocalTable.remove] at hs
      split at hs
      · cases hs
        rfl
      · split at hs
        · cases hs
        · cases hs
          rfl

end Steps

theorem local_transport_table {moves : List LocalMove} {st : LocalTable}
    (hr : run localStep localTableInit moves = .ok st) :
    TableSound st ∧
      (∀ t s adbPort isLocal fail after,
        st.initSocketTransport t s adbPort isLocal = .ok (fail, after) →
        fail < 0 → after.localTransports = st.localTransports) ∧
      (∀ t after, st.kick t = .ok after → after.localTransports =
        st.localTransports.map fun entry => if entry = some t then none else entry) ∧
      ∀ move e, localStep st move = .error e → e = .disabled := by
  have hsound : TableSound st :=
    run_invariant (fun _ _ _ h hs => localStep_sound h hs) tableSound_init hr
  exact ⟨hsound, fun _ _ _ _ _ _ hinit hfail => initSocketTransport_failed hinit hfail,
    fun _ _ hk => kick_table hsound hk, fun _ _ hs => localStep_fault hsound hs⟩

-- Two emulators, of which the second one's port is taken, and a kick.
theorem local_transport_table_of_two :
    ∃ st, run localStep localTableInit
      [.register 1 7 5555 true, .register 2 8 5555 true, .kick 1] = .ok st ∧
      TableSound st ∧ st.localTransports = List.replicate 16 none := by
  obtain ⟨st, hr⟩ : ∃ st, run localStep localTableInit
      [.register 1 7 5555 true, .register 2 8 5555 true, .kick 1] = .ok st := ⟨_, rfl⟩
  have htable : (run localStep localTableInit
      [.register 1 7 5555 true, .register 2 8 5555 true, .kick 1]).toOption.map
        LocalTable.localTransports =
        some (List.replicate 16 none) := by decide
  rw [hr] at htable
  exact ⟨st, hr, (local_transport_table hr).1, Option.some.inj htable⟩

end Adb.Transport
