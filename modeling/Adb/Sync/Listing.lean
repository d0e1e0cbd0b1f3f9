import Adb.Sync.Exchange

namespace Adb.Sync

open Adb.Lib

-- What lstat says of an entry, each number in 32 bits.
def listedAs (name : List UInt8) (st : Stat) : Listed :=
  ⟨UInt32.ofNat st.mode, UInt32.ofNat st.size, UInt32.ofInt st.mtime, name⟩

def entryOf (dev : Device) (path : List UInt8) (name : Text) : Option Listed :=
  if name.val.length ≤ 256 then (dev.lstat (entryPath path name)).map (listedAs name) else none

-- The entries of a directory that are listed; a path that opendir does not
-- open has none.
def entries (dev : Device) (path : List UInt8) : List Listed :=
  ((dev.opendir path).getD []).filterMap (entryOf dev path)

def Listed.record (e : Listed) : List UInt8 :=
  syncmsg [ID_DENT, e.mode, e.size, e.time, UInt32.ofNat e.name.length] ++ e.name

-- The two halves of the exchange.
def listRequest (path : List UInt8) : List UInt8 :=
  syncmsg [ID_LIST, UInt32.ofNat path.length] ++ path

def listAnswer (listed : List Listed) : List UInt8 :=
  listed.flatMap Listed.record ++ syncmsg [ID_DONE, 0, 0, 0, 0]

-- What the client takes for an entry.
structure Listed.Fits (e : Listed) : Prop where
  length : e.name.length ≤ 256
  text : IsText e.name

section Listing

variable {dev : Device} {path : List UInt8} {c : Conn} {later : List UInt8}

theorem entryOf_some {name : Text} {e : Listed} (h : entryOf dev path name = some e) : e.Fits := by
  unfold entryOf at h
  split at h
  · rename_i hlen
    obtain ⟨st, -, rfl⟩ := Option.map_eq_some_iff.mp h
    exact ⟨hlen, name.property⟩
  · cases h

theorem entries_fit : ∀ e ∈ entries dev path, e.Fits := by
  intro e he
  obtain ⟨name, -, hname⟩ := List.mem_filterMap.mp he
  exact entryOf_some hname

theorem listLoop_spec (names : List Text) (hw : Healthy dev.conn.writes) :
    ∃ writes, listLoop path dev names =
        (0, dev.sent ((names.filterMap (entryOf dev path)).flatMap Listed.record) writes) ∧
      Healthy writes := by
  induction names generalizing dev with
  | nil => exact ⟨dev.conn.writes, by rw [listLoop, List.filterMap_nil, List.flatMap_nil, dev.sent_nil], hw⟩
  | cons name more ih =>
      by_cases hlen : name.val.length > 256
      · have hnone : entryOf dev path name = none := if_neg (by omega)
        obtain ⟨writes, he, hr⟩ := ih hw
        refine ⟨writes, ?_, hr⟩
        rw [listLoop, if_pos hlen, he, List.filterMap_cons_none hnone]
      · have hentry : entryOf dev path name =
            (dev.lstat (entryPath path name)).map (listedAs name) := if_pos (by omega)
        rw [listLoop, if_neg hlen]
        cases hst : dev.lstat (entryPath path name) with
        | none =>
            rw [hst] at hentry
            obtain ⟨writes, he, hr⟩ := ih hw
            exact ⟨writes, by rw [List.filterMap_cons_none hentry]; exact he, hr⟩
        | some st =>
            rw [hst] at hentry
            obtain ⟨writes, he, hr⟩ := dev.send_healthy hw [listEntry st name, name]
            obtain ⟨writes', he', hr'⟩ := @ih (dev.sent [listEntry st name, name.val].flatten writes) hr
            have hrecord : [listEntry st name, name.val].flatten = (listedAs name st).record := by
              simp [listEntry, Listed.record, listedAs]
            refine ⟨writes', ?_, hr'⟩
            rw [List.filterMap_cons_some hentry, List.flatMap_cons, ← hrecord, ← dev.sent_sent _ _ writes]
            simp only [he, he']
            rfl

theorem doList_spec (hw : Healthy dev.conn.writes) :
    ∃ writes, doList dev path = (0, dev.sent (listAnswer (entries dev path)) writes) ∧
      Healthy writes := by
  have hend : ∀ bytes writes, Healthy writes → ∃ writes',
      (dev.sent bytes writes).send [syncmsg [ID_DONE, 0, 0, 0, 0]] =
        (0, dev.sent (bytes ++ syncmsg [ID_DONE, 0, 0, 0, 0]) writes') ∧ Healthy writes' := by
    intro bytes writes hr
    obtain ⟨writes', he, hr'⟩ := (dev.sent bytes writes).send_healthy hr [syncmsg [ID_DONE, 0, 0, 0, 0]]
    rw [dev.sent_sent, List.flatten_singleton] at he
    exact ⟨writes', he, hr'⟩
  unfold doList entries listAnswer
  cases dev.opendir path with
  | none =>
      obtain ⟨writes, he, hr⟩ := hend [] dev.conn.writes hw
      rw [dev.sent_nil] at he
      exact ⟨writes, he, hr⟩
  | some names =>
      obtain ⟨writes, he, hr⟩ := @listLoop_spec dev path names hw
      obtain ⟨writes', he', hr'⟩ := hend _ writes hr
      simp only [he, Option.getD_some]
      exact ⟨writes', he', hr'⟩

theorem lsLoop_spec (listed before : List Listed) (fuel : Nat) (hfuel : listed.length < fuel)
    (hfits : ∀ e ∈ listed, e.Fits) (hin : readable c.input = listAnswer listed ++ later) :
    ∃ input, lsLoop fuel c before = .ok (0, before ++ listed, { c with input }) ∧
      readable input = later := by
  induction listed generalizing fuel c before with
  | nil =>
      obtain ⟨fuel, rfl⟩ := Nat.exists_eq_succ_of_ne_zero (Nat.ne_of_gt hfuel)
      obtain ⟨input, he, hr⟩ := Conn.readx_take 20 hin (by simp [listAnswer])
      refine ⟨input, ?_, hr⟩
      have hid : wordAt (listAnswer []) 0 = ID_DONE := wordAt_self _ 0 (by simp)
      simp only [lsLoop, he, hid, if_true, List.append_nil]
  | cons e more ih =>
      obtain ⟨fuel, rfl⟩ := Nat.exists_eq_succ_of_ne_zero (Nat.ne_of_gt (Nat.zero_lt_of_lt hfuel))
      have hfit := hfits e (List.mem_cons_self ..)
      have hlen := hfit.length
      have hsplit : listAnswer (e :: more) ++ later =
          syncmsg [ID_DENT, e.mode, e.size, e.time, UInt32.ofNat e.name.length] ++
            (e.name ++ (listAnswer more ++ later)) := by
        simp [listAnswer, Listed.record]
      rw [hsplit] at hin
      obtain ⟨input, he, hr⟩ := Conn.readx_take 20 hin (by simp)
      obtain ⟨input', he', hr'⟩ := Conn.readx_take (c := { c with input := input })
        e.name.length hr rfl
      have hword := wordAt_self [ID_DENT, e.mode, e.size, e.time, UInt32.ofNat e.name.length]
      have hnamelen : asInt (UInt32.ofNat e.name.length) = e.name.length := asInt_ofNat (by omega)
      have hname : readInto 257 { c with input := input } e.name.length =
          .ok (.done e.name { c with input := input' }) := by
        rw [readInto, he']
        exact if_neg (by omega)
      obtain ⟨after, hloop, hafter⟩ := ih (before ++ [e]) fuel (c := { c with input := input' })
        (by simpa using hfuel) (fun k hk => hfits k (List.mem_cons_of_mem _ hk)) hr'
      refine ⟨after, ?_, hafter⟩
      have hdone : ID_DENT ≠ ID_DONE := by decide
      have hshort : ¬(e.name.length : Int) > 256 := by omega
      rw [lsLoop, he]
      simp only [hword 0 (by simp), hword 1 (by simp), hword 2 (by simp), hword 3 (by simp),
        hword 4 (by simp), List.getElem_cons_zero, List.getElem_cons_succ, hdone, hnamelen,
        if_false, ne_eq, not_true, hshort, asSize_natCast (show e.name.length < 2 ^ 32 by omega),
        hname, textOf, hfit.text.takeWhile_ne]
      rw [List.append_assoc] at hloop
      exact hloop

theorem length_listAnswer (listed : List Listed) :
    20 * listed.length < (listAnswer listed).length := by
  induction listed with
  | nil => simp [listAnswer]
  | cons e more ih =>
      simp only [listAnswer, List.flatMap_cons, List.length_append, length_syncmsg, Listed.record,
        List.length_cons, List.length_nil] at ih ⊢
      omega

theorem syncLs_spec {path : List UInt8} (hpath : path.length ≤ 1024) (hc : Healthy c.writes)
    (listed : List Listed) (hfits : ∀ e ∈ listed, e.Fits)
    (hin : readable c.input = listAnswer listed ++ later) :
    ∃ c', syncLs c path = .ok (0, listed, c') ∧ c'.output = c.output ++ listRequest path ∧
      readable c'.input = later := by
  obtain ⟨writes, hw, -⟩ :=
    Conn.writeAll_healthy hc [syncmsg [ID_LIST, UInt32.ofNat path.length], path]
  have hsent : [syncmsg [ID_LIST, UInt32.ofNat path.length], path].flatten = listRequest path := by
    simp [listRequest]
  rw [hsent] at hw
  have hfuel : listed.length < (stored (c.sent (listRequest path) writes).input).length + 1 := by
    have hlen := length_listAnswer listed
    have hle := (prefix_readable c.input).length_le
    rw [hin, List.length_append] at hle
    show listed.length < (stored c.input).length + 1
    omega
  obtain ⟨input, he, hr⟩ := lsLoop_spec (c := c.sent (listRequest path) writes) listed [] _ hfuel
    hfits hin
  refine ⟨{ c.sent (listRequest path) writes with input }, ?_, rfl, hr⟩
  rw [syncLs, if_neg (by omega), hw]
  exact he

-- A request that stands at the head of what comes is read and served.
theorem serveRequest_of_request (id : UInt32) (name : Text) (hname : name.val.length ≤ 1024)
    (hin : readable dev.conn.input =
      syncmsg [id, UInt32.ofNat name.val.length] ++ (name.val ++ later)) :
    ∃ input, readable input = later ∧
      serveRequest dev = (decide ((serve (dev.setConn { dev.conn with input }) id name).1 = 0),
        (serve (dev.setConn { dev.conn with input }) id name).2) := by
  obtain ⟨input, he, hr⟩ := Conn.readx_take 8 hin (by simp)
  obtain ⟨input', he', hr'⟩ := Conn.readx_take (c := { dev.conn with input := input })
    name.val.length hr rfl
  have hid : wordAt (syncmsg [id, UInt32.ofNat name.val.length]) 0 = id := wordAt_self _ 0 (by simp)
  have hlen : wordAt (syncmsg [id, UInt32.ofNat name.val.length]) 1 =
      UInt32.ofNat name.val.length := wordAt_self _ 1 (by simp)
  have hnat : (UInt32.ofNat name.val.length).toNat = name.val.length :=
    UInt32.toNat_ofNat_of_lt' (show name.val.length < 2 ^ 32 by omega)
  refine ⟨input', hr', ?_⟩
  rw [serveRequest, he]
  simp only [hid, hlen, hnat, if_neg (show ¬name.val.length > 1024 by omega), he', textOf,
    name.property.takeWhile_ne]

variable (dev) in
-- A listing over a connection that does not fail, whatever the reads and writes
-- move at a time and whatever comes later on it: the callback gets the entries,
-- and each side has read what the other side wrote and no more.
theorem sync_ls_round_trip (c : Conn) (path : Text) (later rest : List UInt8)
    (hpath : path.val.length < 1024) (hc : Healthy c.writes) (hd : Healthy dev.conn.writes)
    (hrequest : readable dev.conn.input = listRequest path ++ later)
    (hanswer : readable c.input = listAnswer (entries dev path) ++ rest) :
    ∃ c' dev', syncLs c path = .ok (0, entries dev path, c') ∧
      c'.output = c.output ++ listRequest path ∧ readable c'.input = rest ∧
      serveRequest dev = (true, dev') ∧
      dev'.conn.output = dev.conn.output ++ listAnswer (entries dev path) ∧
      readable dev'.conn.input = later := by
  have hle : path.val.length ≤ 1024 := by omega
  obtain ⟨c', hls, hout, hin⟩ := syncLs_spec hle hc _ entries_fit hanswer
  rw [listRequest, List.append_assoc] at hrequest
  obtain ⟨input, hlater, hserve⟩ := serveRequest_of_request ID_LIST path hle hrequest
  obtain ⟨writes, hlist, -⟩ :=
    @doList_spec (dev.setConn { dev.conn with input }) path hd
  refine ⟨c', (dev.setConn { dev.conn with input }).sent (listAnswer (entries dev path)) writes,
    hls, hout, hin, ?_, rfl, hlater⟩
  have hid : ID_LIST ≠ ID_STAT := by decide
  rw [hserve, serve, if_neg hid, if_pos rfl, hlist]
  rfl

end Listing

-- A directory d with two names, one of which lstat does not know; a QUIT comes
-- after the listing.
def deviceWithDirectory : Device where
  conn :=
    { input := [.data 76 [73, 83], .interrupted, .data 84 [1, 0, 0, 0, 100, 81, 85, 73, 84, 0, 0, 0, 0]]
      writes := [.moved 5, .interrupted]
      output := []
      closed := false }
  files := fun _ => none
  opens := []
  unlinks := []
  writes := []
  reads := []
  opendir := fun path => if path = [100] then some [⟨[97], by decide⟩, ⟨[98], by decide⟩] else none
  lstat := fun path => if path = [100, 47, 98] then some ⟨33188, 5, -1⟩ else none
  strerror := fun _ => []

theorem sync_ls_of_a_directory : ∃ c' dev',
    syncLs ⟨segmentOf (listAnswer [⟨33188, 5, 4294967295, [98]⟩]), [.moved 2], [], false⟩ [100] =
        .ok (0, [⟨33188, 5, 4294967295, [98]⟩], c') ∧
      readable c'.input = [] ∧ serveRequest deviceWithDirectory = (true, dev') ∧
      readable dev'.conn.input = [81, 85, 73, 84, 0, 0, 0, 0] := by
  obtain ⟨c', dev', hls, -, hin, hserve, -, hlater⟩ := sync_ls_round_trip deviceWithDirectory
    ⟨segmentOf (listAnswer [⟨33188, 5, 4294967295, [98]⟩]), [.moved 2], [], false⟩
    ⟨[100], by decide⟩ [81, 85, 73, 84, 0, 0, 0, 0] [] (by decide) (by simp [Healthy])
    (by simp [Healthy, deviceWithDirectory]) (by decide) (by decide)
  exact ⟨c', dev', hls, hin, hserve, hlater⟩

end Adb.Sync
