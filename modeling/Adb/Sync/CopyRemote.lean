import Adb.Sync.CopyLocal

namespace Adb.Sync

open Adb.Lib Adb.Lib.Speaker

-- A device on which nothing goes wrong that do_stat, do_list and do_recv would
-- notice.
structure Device.Sound (dev : Device) : Prop where
  conn : Healthy dev.conn.writes
  opens : ∀ e, some e ∉ dev.opens
  reads : ∀ pattern ∈ dev.reads, Healthy pattern

-- What STAT, LIST and RECV ask for.
inductive Query where
  | stat (path : Text)
  | list (path : Text)
  | recv (path : Text) (file : File)

def Query.request : Query → Request
  | .stat path => .stat path
  | .list path => .list path
  | .recv path _ => .recv path

-- The file that a RECV asks for is there.
def Query.Present (s : Store) : Query → Prop
  | .recv path file => s.files path = some file
  | _ => True

-- Data come as records.
def Query.Form (whole : List UInt8) : Query → Prop
  | .recv _ _ => ∃ chunks, (∀ chunk ∈ chunks, chunk.length ≤ SYNC_DATA_MAX) ∧
      whole = pushRecords chunks 0
  | _ => True

def Query.answer (s : Store) : Query → Answer
  | .stat path => (s.act (.stat path)).2
  | .list path => .listed (s.listing path)
  | .recv _ file => .data file.data

section Serving

variable {dev : Device} {later : List UInt8} {fd : Input}

theorem recvSendLoop_healthy {fuel : Nat} (hfuel : turns fd ≤ fuel) (h : ∀ e, Segment.failed e ∉ fd)
    (hw : Healthy dev.conn.writes) :
    ∃ chunks writes, recvSendLoop fuel dev fd = (0, dev.sent (pushRecords chunks 0) writes) ∧
      Healthy writes ∧ (∀ chunk ∈ chunks, chunk.length ≤ SYNC_DATA_MAX) ∧
        chunks.flatten = stored fd := by
  induction fuel generalizing dev fd with
  | zero => exact absurd hfuel (Nat.not_le_of_gt (turns_pos fd))
  | succ fuel ih =>
      rw [recvSendLoop]
      cases hread : adbRead fd SYNC_DATA_MAX with
      | got bytes rest =>
          obtain ⟨hstored, hmax⟩ := adbRead_got hread
          dsimp only
          split
          · rename_i hzero
            obtain rfl := List.length_eq_zero_iff.mp hzero
            obtain ⟨writes, hsend, hw'⟩ := dev.send_healthy hw [syncmsg [ID_DONE, 0]]
            refine ⟨[], writes, ?_, hw', by simp, ?_⟩
            · rw [hsend, List.flatten_singleton, pushRecords_nil]
            · rw [adbRead_end hread (by simp [SYNC_DATA_MAX])]
              rfl
          · rename_i hsome
            have hne : bytes ≠ [] := fun hnil => hsome (by rw [hnil]; rfl)
            have hturns := adbRead_turns (by simp [SYNC_DATA_MAX]) hread hne
            obtain ⟨writes, hsend, hw'⟩ :=
              dev.send_healthy hw [syncmsg [ID_DATA, UInt32.ofNat bytes.length], bytes]
            have hflat : [syncmsg [ID_DATA, UInt32.ofNat bytes.length], bytes].flatten =
                dataRecord bytes := by
              simp [dataRecord]
            rw [hflat] at hsend
            obtain ⟨chunks, writes', hloop, hw'', hfit, hflatten⟩ :=
              @ih (dev.sent (dataRecord bytes) writes) rest (by omega) (adbRead_sound hread h) hw'
            refine ⟨bytes :: chunks, writes', ?_, hw'', ?_, ?_⟩
            · simp only [hsend, hloop, Device.sent_sent, pushRecords_cons]
            · intro chunk hm
              obtain rfl | hm := List.mem_cons.mp hm
              · exact hmax
              · exact hfit chunk hm
            · rw [List.flatten_cons, hflatten, hstored]
      | interrupted rest =>
          have hnext := interrupted_sound hread hfuel h
          rw [adbRead_interrupted hread]
          exact ih hnext.1 hnext.2 hw
      | failed e rest => exact absurd hread (adbRead_not_failed h)

theorem Device.Sound.headD (h : dev.Sound) : dev.opens.headD none = none := by
  cases hopens : dev.opens with
  | nil => rfl
  | cons first more =>
      cases first with
      | none => rfl
      | some e => exact absurd (by rw [hopens]; exact List.mem_cons_self ..) (h.opens e)

-- What a query comes to: the answer is sent, and the files stay as they were.
def AnsweredWhole (q : Query) (dev : Device) : Prop :=
  ∃ whole writes, ∃ after : Device,
    serve dev q.request.id q.request.name = (0, after.sent whole writes) ∧
    Healthy writes ∧ after.conn = dev.conn ∧ after.store = dev.store ∧
    (∀ e, some e ∉ after.opens) ∧ (∀ pattern ∈ after.reads, Healthy pattern) ∧
    Tells q.request (q.answer dev.store) whole ∧ q.Form whole

theorem stat_whole (path : Text) (hsound : dev.Sound) : AnsweredWhole (.stat path) dev := by
  have hserve : serve dev ID_STAT path =
      dev.send [syncmsg [ID_STAT, (statAnswer (dev.lstat path)).1,
      (statAnswer (dev.lstat path)).2.1, (statAnswer (dev.lstat path)).2.2]] := by
    have hstat : serve dev ID_STAT path = doStat dev path := if_pos rfl
    rw [hstat]
    unfold doStat statAnswer
    cases dev.lstat path <;> rfl
  obtain ⟨writes, hsend, hw⟩ := dev.send_healthy hsound.conn [syncmsg [ID_STAT,
    (statAnswer (dev.lstat path)).1, (statAnswer (dev.lstat path)).2.1,
      (statAnswer (dev.lstat path)).2.2]]
  rw [List.flatten_singleton] at hsend
  exact ⟨_, writes, dev, hserve.trans hsend, hw, rfl, rfl, hsound.opens, hsound.reads,
    tells_stat path _ _ _, trivial⟩

theorem list_whole (path : Text) (hsound : dev.Sound) : AnsweredWhole (.list path) dev := by
  have hserve : serve dev ID_LIST path = doList dev path := by
    rw [serve, if_neg (by decide), if_pos rfl]
  obtain ⟨writes, hlist, hw⟩ := @doList_spec dev path hsound.conn
  exact ⟨_, writes, dev, hserve.trans hlist, hw, rfl, rfl, hsound.opens, hsound.reads,
    tells_list path dev, trivial⟩

theorem recv_whole (path : Text) {file : File} (hfile : dev.files path = some file)
    (hsound : dev.Sound) :
    AnsweredWhole (.recv path file) dev := by
  have hopen : dev.openRead path = (.ok (cut file.data (dev.reads.headD [])),
      { dev with opens := dev.opens.tail, reads := dev.reads.tail }) := by
    unfold Device.openRead Device.nextOpen
    rw [hsound.headD]
    simp only [hfile]
  have hpattern : Healthy (dev.reads.headD []) := by
    cases hreads : dev.reads with
    | nil => exact healthy_nil
    | cons pattern more => exact hsound.reads pattern (by rw [hreads]; exact List.mem_cons_self ..)
  obtain ⟨chunks, writes, hloop, hw, hfit, hflatten⟩ := @recvSendLoop_healthy
    { dev with opens := dev.opens.tail, reads := dev.reads.tail } _ _ (Nat.le_refl _)
    (not_failed_cut file.data hpattern) hsound.conn
  rw [stored_cut] at hflatten
  have hserve : serve dev ID_RECV path = doRecv dev path := by
    rw [serve, if_neg (by decide), if_neg (by decide), if_neg (by decide), if_pos rfl]
  refine ⟨pushRecords chunks 0, writes,
    { dev with opens := dev.opens.tail, reads := dev.reads.tail }, hserve.trans ?_, hw, rfl, rfl,
    fun e hm => hsound.opens e (List.mem_of_mem_tail hm),
    fun pattern hm => hsound.reads pattern (List.mem_of_mem_tail hm), ?_, chunks, hfit, rfl⟩
  · rw [doRecv, hopen]
    exact hloop
  · rw [Query.answer, ← hflatten]
    exact tells_recv path hfit

-- A query that comes whole is answered whole.
theorem query_served (q : Query) (hsound : dev.Sound) (hname : q.request.name.val.length ≤ 1024)
    (hin : readable dev.conn.input = q.request.bytes ++ later) (hpresent : q.Present dev.store) :
    ∃ whole t, serveRequest dev = (true, t) ∧ t.conn.output = dev.conn.output ++ whole ∧
      readable t.conn.input = later ∧ t.store = dev.store ∧ t.Sound ∧
      Tells q.request (q.answer dev.store) whole ∧ q.Form whole := by
  have hpayload : q.request.payload = [] := by cases q <;> rfl
  rw [q.request.bytes_append, hpayload, List.nil_append] at hin
  obtain ⟨input, hlater, hserve⟩ := serveRequest_of_request q.request.id q.request.name hname hin
  have hsound' : (dev.setConn { dev.conn with input }).Sound :=
    ⟨hsound.conn, hsound.opens, hsound.reads⟩
  have hwhole : AnsweredWhole q (dev.setConn { dev.conn with input }) := by
    cases q with
    | stat path => exact stat_whole path hsound'
    | list path => exact list_whole path hsound'
    | recv path file => exact recv_whole path hpresent hsound'
  obtain ⟨whole, writes, after, hsent, hw, hconn, hstore, hopens, hreads, htells, hform⟩ := hwhole
  rw [hsent] at hserve
  refine ⟨whole, after.sent whole writes, hserve, ?_, ?_, hstore, ⟨hw, hopens, hreads⟩,
    htells, hform⟩
  · show after.conn.output ++ whole = _
    rw [hconn]
    rfl
  · show readable after.conn.input = later
    rw [hconn]
    exact hlater

end Serving

-- A client that writes total in all, and the device that reads what it writes.
structure InStep (total : List UInt8) (c : Conn) (dev : Device) (n : Nat) : Prop where
  healthy : Healthy c.writes
  sound : dev.Sound
  reads : c.output ++ readable dev.conn.input = total
  hears : service.Hears n dev (readable c.input)

-- The device has gone on from dev to t, and its files are as they were.
structure GoesOn (total : List UInt8) (dev : Device) (n : Nat) (c' : Conn) (t : Device)
    (k : Nat) : Prop where
  inStep : InStep total c' t k
  turns : service.turns n dev = service.turns k t
  store : t.store = dev.store

section Steps

variable {total : List UInt8} {c c' : Conn} {dev t : Device} {n k : Nat}

theorem InStep.refl (h : InStep total c dev n) : GoesOn total dev n c dev n := ⟨h, rfl, rfl⟩

theorem GoesOn.trans {c'' : Conn} {u : Device} {j : Nat} (h : GoesOn total dev n c' t k)
    (h' : GoesOn total t k c'' u j) : GoesOn total dev n c'' u j :=
  ⟨h'.inStep, h.turns.trans h'.turns, h'.store.trans h.store⟩

-- One query: what the client hears begins like its answer, and if it takes one it is
-- that answer.
theorem InStep.query (h : InStep total c dev n) (q : Query)
    (hout : c'.output = c.output ++ q.request.bytes)
    (hw : Healthy c'.writes) (htotal : c'.output <+: total)
    (hname : q.request.name.val.length ≤ 1024)
    (hpresent : q.Present dev.store) :
    ∃ whole more, readable c.input <+: whole ++ more ∧ q.Form whole ∧
      ∀ answer, Takes q.request (readable c.input) answer (readable c'.input) →
        answer = q.answer dev.store ∧ ∃ t k, GoesOn total dev n c' t k := by
  obtain ⟨later, hlater⟩ := htotal
  have hin : readable dev.conn.input = q.request.bytes ++ later := by
    have htotal := h.reads
    rw [← hlater, hout, List.append_assoc] at htotal
    exact List.append_cancel_left htotal
  obtain ⟨whole, t, hserve, hsaid, hrest, hstore, hsound, htells, hform⟩ :=
    query_served q h.sound hname hin hpresent
  have hturn : service.turn dev = (true, t) := hserve
  by_cases hne : readable c.input = []
  · refine ⟨whole, [], by rw [hne]; exact List.nil_prefix, hform, fun answer htake => ?_⟩
    have hlen := htake.head.1
    rw [hne] at hlen
    simp at hlen
  obtain ⟨k, out, rfl, hout', hcases⟩ := h.hears.cases hne
  rw [hturn] at hout' hcases
  obtain rfl : out = whole := List.append_cancel_left (hout'.symm.trans hsaid)
  have hgoes : ∀ rest, rest = readable c'.input → service.Hears k t rest →
      GoesOn total dev (k + 1) c' t k := by
    intro rest hrest' hhears
    refine ⟨⟨hw, hsound, ?_, hrest' ▸ hhears⟩, turns_succ hturn, hstore⟩
    rw [hrest, ← hlater]
  obtain hp | ⟨-, more, hsplit, hhears⟩ := hcases
  · refine ⟨out, [], by rwa [List.append_nil], hform, fun answer htake => ?_⟩
    obtain ⟨hheard, hanswer⟩ := htells _ [] answer _ htake (by rwa [List.append_nil])
    have hnil : readable c'.input = [] := by
      have hle := hp.length_le
      rw [hheard, List.length_append] at hle
      exact List.length_eq_zero_iff.mp (by omega)
    refine ⟨hanswer, t, k, hgoes [] hnil.symm ?_⟩
    unfold Speaker.Hears
    rw [List.append_nil]
    exact said_turns k t
  · refine ⟨out, more, by rw [hsplit], hform, fun answer htake => ?_⟩
    obtain ⟨hheard, hanswer⟩ := htells _ more answer _ htake (by rw [hsplit])
    exact ⟨hanswer, t, k, hgoes more (List.append_cancel_left (hsplit.symm.trans hheard)) hhears⟩

end Steps

section Listing

variable {c c' : Conn} {listed before : List Listed} {path : List UInt8}

theorem readInto_takes {cap len : Nat} {bytes : List UInt8}
    (h : readInto cap c len = .ok (.done bytes c')) :
    readable c.input = bytes ++ readable c'.input ∧ bytes.length = len ∧ len ≤ cap ∧
      c'.output = c.output ∧ c'.writes = c.writes := by
  unfold readInto at h
  obtain ⟨input, he, hrest, hlen⟩ | ⟨input, he, -⟩ := c.readx_cases len
  · rw [he] at h
    dsimp only at h
    split at h
    · cases h
    · rename_i hcap
      cases h
      have htake := List.length_take_of_le hlen
      refine ⟨?_, htake, by omega, rfl, rfl⟩
      rw [hrest]
      exact (List.take_append_drop len _).symm
  · rw [he] at h
    dsimp only at h
    split at h <;> cases h

theorem lsLoop_takes {fuel : Nat} (h : lsLoop fuel c before = .ok (0, listed, c')) :
    ∃ more, listed = before ++ more ∧ Entries (readable c.input) more (readable c'.input) ∧
      c'.output = c.output ∧ c'.writes = c.writes := by
  induction fuel generalizing c before with
  | zero => simp [lsLoop] at h
  | succ fuel ih =>
      unfold lsLoop at h
      obtain ⟨input, he, hrest, hlen⟩ | ⟨input, he, -⟩ := c.readx_cases 20
      case inr =>
        rw [he] at h
        simp at h
      rw [he] at h
      dsimp only at h
      have hmsg := List.length_take_of_le hlen
      have hsplit := (List.take_append_drop 20 (readable c.input)).symm
      rw [← hrest] at hsplit
      generalize (readable c.input).take 20 = msg at h hmsg hsplit
      split at h
      · rename_i hid
        simp only [Except.ok.injEq, Prod.mk.injEq, true_and] at h
        obtain ⟨rfl, rfl⟩ := h
        exact ⟨[], (List.append_nil _).symm, by rw [hsplit]; exact .done msg _ hmsg hid, rfl, rfl⟩
      split at h
      · simp at h
      rename_i hid
      split at h
      · simp at h
      rename_i hshort
      rw [asSize_asInt] at h
      split at h
      · cases h
      · simp at h
      · rename_i buf d hread
        obtain ⟨hin, hbuf, hcap, hout, hwrites⟩ := readInto_takes hread
        obtain ⟨more, rfl, hentries, hout', hwrites'⟩ := ih h
        have hmax : buf.length ≤ 256 := by
          rw [asInt_eq] at hshort
          split at hshort <;> omega
        refine ⟨_ :: more, by rw [List.append_assoc]; rfl, ?_, hout'.trans hout,
          hwrites'.trans hwrites⟩
        have hin' : readable input = buf ++ readable d.input := hin
        rw [hsplit, hin']
        exact .dent msg buf _ _ more hmsg (not_not.mp hid) hbuf.symm hmax hentries

theorem syncLs_takes (hc : Healthy c.writes) (hpath : IsText path)
    (h : syncLs c path = .ok (0, listed, c')) :
    path.length ≤ 1024 ∧ Healthy c'.writes ∧
      c'.output = c.output ++ (Request.list (asText path)).bytes ∧
      Takes (.list (asText path)) (readable c.input) (.listed listed) (readable c'.input) := by
  unfold syncLs at h
  split at h
  · simp at h
  rename_i hlen
  obtain ⟨writes, he, hw⟩ :=
    Conn.writeAll_healthy hc [syncmsg [ID_LIST, UInt32.ofNat path.length], path]
  rw [he] at h
  dsimp only at h
  obtain ⟨more, rfl, hentries, hout, hwrites⟩ := lsLoop_takes h
  refine ⟨by omega, by rw [hwrites]; exact hw, ?_, .list _ _ _ _ hentries⟩
  rw [hout]
  simp [Conn.sent, Request.bytes, listRequest, asText_val hpath]

-- A call that has only read.
def Conn.OnlyRead (c c' : Conn) : Prop := c'.output = c.output ∧ c'.writes = c.writes

theorem Conn.OnlyRead.trans {c'' : Conn} (h : Conn.OnlyRead c c') (h' : Conn.OnlyRead c' c'') :
    Conn.OnlyRead c c'' := ⟨h'.1.trans h.1, h'.2.trans h.2⟩

theorem readInto_onlyRead {cap len : Nat} {bytes : List UInt8}
    (h : readInto cap c len = .ok (.failed bytes c')) :
    Conn.OnlyRead c c' := by
  unfold readInto at h
  obtain ⟨input, he, -⟩ | ⟨input, he, -⟩ := c.readx_cases len
  · rw [he] at h
    dsimp only at h
    split at h <;> cases h
  · rw [he] at h
    dsimp only at h
    split at h <;> cases h
    exact ⟨rfl, rfl⟩

-- A connection on which more is written only.
theorem lsLoop_output {fuel : Nat} {code : Int}
    (h : lsLoop fuel c before = .ok (code, listed, c')) :
    c'.output = c.output := by
  induction fuel generalizing c before with
  | zero =>
      cases h
      rfl
  | succ fuel ih =>
      unfold lsLoop at h
      obtain ⟨input, he, -⟩ | ⟨input, he, -⟩ := c.readx_cases 20
      case inr =>
        rw [he] at h
        cases h
        rfl
      rw [he] at h
      dsimp only at h
      split at h
      · cases h
        rfl
      split at h
      · cases h
        rfl
      split at h
      · cases h
        rfl
      split at h
      · cases h
      · rename_i d hread
        cases h
        have hout := (readInto_onlyRead hread).1
        exact hout
      · rename_i buf d hread
        exact (ih h).trans (readInto_takes hread).2.2.2.1

theorem syncLs_output {code : Int} (h : syncLs c path = .ok (code, listed, c')) :
    c.output <+: c'.output := by
  unfold syncLs at h
  split at h
  · cases h
    exact List.prefix_rfl
  have hsends := c.writeAll_sends [syncmsg [ID_LIST, UInt32.ofNat path.length], path]
  split at h
  · rename_i d hd
    cases h
    rw [hd] at hsends
    obtain ⟨-, part, hout, -⟩ := hsends
    exact ⟨part, hout.symm⟩
  · rename_i d hd
    rw [hd] at hsends
    rw [lsLoop_output h]
    exact ⟨_, hsends.2.symm⟩

end Listing

section Receiving

variable {c c' : Conn} {t t' : LocalTarget} {msg before more : List UInt8}
  {chunks : List (List UInt8)}

-- From a header on that begins such records.
theorem recvLoop_takes {fuel : Nat} (hmax : ∀ chunk ∈ chunks, chunk.length ≤ SYNC_DATA_MAX)
    (hmsg : msg.length = 8) (hfile : t.file = some before)
    (hp : msg ++ readable c.input <+: pushRecords chunks 0 ++ more)
    (h : recvLoop fuel c t msg = .ok (0, c', t')) :
    ∃ bytes, Received (msg ++ readable c.input) bytes (readable c'.input) ∧
      t'.file = some (before ++ bytes) ∧ c'.output = c.output ∧ c'.writes = c.writes := by
  induction chunks generalizing fuel c t msg before with
  | nil =>
      rw [pushRecords_nil] at hp
      obtain ⟨rfl, -⟩ := head_of_prefix (by simp [hmsg]) hp
      have hid : wordAt (syncmsg [ID_DONE, 0]) 0 = ID_DONE := wordAt_self _ 0 (by simp)
      cases fuel with
      | zero => simp [recvLoop] at h
      | succ fuel =>
          rw [recvLoop, if_pos hid] at h
          simp only [Except.ok.injEq, Prod.mk.injEq, true_and] at h
          obtain ⟨rfl, rfl⟩ := h
          exact ⟨[], .done _ _ hmsg hid, by rw [hfile, List.append_nil], rfl, rfl⟩
  | cons chunk chunks ih =>
      have hchunk := hmax chunk (List.mem_cons_self ..)
      have hnat := toNat_chunk hchunk
      rw [pushRecords_cons, dataRecord] at hp
      simp only [List.append_assoc] at hp
      obtain ⟨rfl, hp'⟩ := head_of_prefix (by simp [hmsg]) hp
      have hid : wordAt (syncmsg [ID_DATA, UInt32.ofNat chunk.length]) 0 = ID_DATA :=
        wordAt_self _ 0 (by simp)
      have hlen : wordAt (syncmsg [ID_DATA, UInt32.ofNat chunk.length]) 1 =
          UInt32.ofNat chunk.length :=
        wordAt_self _ 1 (by simp)
      cases fuel with
      | zero => simp [recvLoop] at h
      | succ fuel =>
          rw [recvLoop, hid, if_neg (by decide), if_neg (by decide)] at h
          simp only [hlen] at h
          rw [asSize_asInt, hnat] at h
          split at h
          · simp at h
          split at h
          · cases h
          · simp at h
          · rename_i buf d hread
            obtain ⟨hin, hbuf, -, hout, hwrites⟩ := readInto_takes hread
            rw [hin] at hp'
            obtain ⟨rfl, hp''⟩ := head_of_prefix hbuf hp'
            split at h
            · simp at h
            · rename_i u hwrite
              have hfile' : u.file = some (before ++ buf) := by
                unfold LocalTarget.writex at hwrite
                split at hwrite
                · cases hwrite
                  simp [LocalTarget.append, hfile]
                · cases hwrite
              obtain ⟨input, he, hrest, hlong⟩ | ⟨input, he, -⟩ := d.readx_cases 8
              case inr =>
                rw [he] at h
                simp at h
              rw [he] at h
              dsimp only at h
              have hsplit : readable d.input = (readable d.input).take 8 ++ readable input := by
                rw [hrest, List.take_append_drop]
              rw [hsplit] at hp''
              obtain ⟨bytes, hreceived, hfinal, hout', hwrites'⟩ := ih
                (fun chunk hm => hmax chunk (List.mem_cons_of_mem _ hm))
                  (List.length_take_of_le hlong) hfile' hp'' h
              rw [← hsplit] at hreceived
              refine ⟨buf ++ bytes, ?_, ?_, hout'.trans hout, hwrites'.trans hwrites⟩
              · rw [hin]
                exact .data _ buf _ bytes _ hmsg hid (by rw [hlen, hnat]) hchunk hreceived
              · rw [hfinal, List.append_assoc]

theorem remoteError_onlyRead {code : Int} (h : remoteError c t msg = .ok (code, c', t')) :
    Conn.OnlyRead c c' := by
  unfold remoteError at h
  dsimp only at h
  split at h
  · split at h
    · cases h
    · rename_i hread
      cases h
      exact readInto_onlyRead hread
    · rename_i hread
      cases h
      exact (readInto_takes hread).2.2.2
  · cases h
    exact ⟨rfl, rfl⟩

theorem recvLoop_onlyRead {fuel : Nat} {code : Int}
    (h : recvLoop fuel c t msg = .ok (code, c', t')) :
    Conn.OnlyRead c c' := by
  induction fuel generalizing c t msg with
  | zero =>
      cases h
      exact ⟨rfl, rfl⟩
  | succ fuel ih =>
      rw [recvLoop] at h
      split at h
      · cases h
        exact ⟨rfl, rfl⟩
      split at h
      · exact remoteError_onlyRead h
      dsimp only at h
      split at h
      · cases h
        exact ⟨rfl, rfl⟩
      split at h
      · cases h
      · rename_i d hread
        cases h
        exact readInto_onlyRead hread
      · rename_i buf d hread
        have hout := (readInto_takes hread).2.2.2
        split at h
        · cases h
          exact hout
        obtain ⟨input, he, -⟩ | ⟨input, he, -⟩ := d.readx_cases 8
        · rw [he] at h
          have hmore := ih h
          exact Conn.OnlyRead.trans hout hmore
        · rw [he] at h
          cases h
          exact hout

theorem recvAnswer_onlyRead {code : Int} (h : recvAnswer c t = .ok (code, c', t')) :
    Conn.OnlyRead c c' := by
  unfold recvAnswer at h
  obtain ⟨input, he, -⟩ | ⟨input, he, -⟩ := c.readx_cases 8
  case inr =>
    rw [he] at h
    cases h
    exact ⟨rfl, rfl⟩
  rw [he] at h
  dsimp only at h
  split at h
  · split at h
    · have hmore := recvLoop_onlyRead h
      exact hmore
    · cases h
      exact ⟨rfl, rfl⟩
  · have hmore := remoteError_onlyRead h
    exact hmore

theorem recvAnswer_takes (hmax : ∀ chunk ∈ chunks, chunk.length ≤ SYNC_DATA_MAX)
    (hp : readable c.input <+: pushRecords chunks 0 ++ more)
    (h : recvAnswer c t = .ok (0, c', t')) :
    ∃ bytes, Received (readable c.input) bytes (readable c'.input) ∧ t'.file = some bytes := by
  unfold recvAnswer at h
  obtain ⟨input, he, hrest, hlen⟩ | ⟨input, he, -⟩ := c.readx_cases 8
  case inr =>
    rw [he] at h
    simp at h
  rw [he] at h
  dsimp only at h
  have hmsg := List.length_take_of_le hlen
  have hsplit := (List.take_append_drop 8 (readable c.input)).symm
  rw [← hrest] at hsplit
  generalize (readable c.input).take 8 = msg at h hmsg hsplit
  rw [hsplit] at hp ⊢
  have hknown : wordAt msg 0 = ID_DATA ∨ wordAt msg 0 = ID_DONE := by
    cases chunks with
    | nil =>
        rw [pushRecords_nil] at hp
        obtain ⟨rfl, -⟩ := head_of_prefix (by simp [hmsg]) hp
        exact .inr (wordAt_self _ 0 (by simp))
    | cons chunk chunks =>
        rw [pushRecords_cons, dataRecord] at hp
        simp only [List.append_assoc] at hp
        obtain ⟨rfl, -⟩ := head_of_prefix (by simp [hmsg]) hp
        exact .inl (wordAt_self _ 0 (by simp))
  rw [if_pos hknown] at h
  split at h
  · have hfile : ({ t.unlink with file := some [] } : LocalTarget).file = some [] := rfl
    obtain ⟨bytes, hreceived, hfinal, -⟩ := recvLoop_takes hmax hmsg hfile hp h
    exact ⟨bytes, hreceived, hfinal⟩
  · simp at h

theorem syncRecv_sends {rpath : List UInt8} (hc : Healthy c.writes) (hpath : IsText rpath)
    (h : syncRecv c rpath t = .ok (0, c', t')) :
    rpath.length ≤ 1024 ∧ Healthy c'.writes ∧
      c'.output = c.output ++ (Request.recv (asText rpath)).bytes ∧
      ∀ chunks more, (∀ chunk ∈ chunks, chunk.length ≤ SYNC_DATA_MAX) →
        readable c.input <+: pushRecords chunks 0 ++ more →
        ∃ bytes, Takes (.recv (asText rpath)) (readable c.input) (.data bytes) (readable c'.input) ∧
          t'.file = some bytes := by
  unfold syncRecv at h
  split at h
  · simp at h
  rename_i hlen
  obtain ⟨writes, he, hw⟩ :=
    Conn.writeAll_healthy hc [syncmsg [ID_RECV, UInt32.ofNat rpath.length], rpath]
  rw [he] at h
  dsimp only at h
  obtain ⟨hout, hwrites⟩ := recvAnswer_onlyRead h
  refine ⟨by omega, by rw [hwrites]; exact hw, ?_, fun chunks more hmax hp => ?_⟩
  · rw [hout]
    simp [Conn.sent, Request.bytes, asText_val hpath]
  · have hp' : readable
        (c.sent [syncmsg [ID_RECV, UInt32.ofNat rpath.length], rpath].flatten writes).input <+:
        pushRecords chunks 0 ++ more := hp
    obtain ⟨bytes, hreceived, hfile⟩ := recvAnswer_takes hmax hp' h
    exact ⟨bytes, .recv _ _ _ _ hreceived, hfile⟩

theorem syncRecv_output {rpath : List UInt8} {code : Int}
    (h : syncRecv c rpath t = .ok (code, c', t')) :
    c.output <+: c'.output := by
  unfold syncRecv at h
  split at h
  · cases h
    exact List.prefix_rfl
  have hsends := c.writeAll_sends [syncmsg [ID_RECV, UInt32.ofNat rpath.length], rpath]
  split at h
  · rename_i d hd
    cases h
    rw [hd] at hsends
    obtain ⟨-, part, hout, -⟩ := hsends
    exact ⟨part, hout.symm⟩
  · rename_i d hd
    rw [hd] at hsends
    rw [(recvAnswer_onlyRead h).1]
    exact ⟨_, hsends.2.symm⟩

end Receiving

-- The files below a directory of the device, each with the path it is copied to.
inductive InTree (s : Store) : List UInt8 → List UInt8 → CopyInfo → Prop where
  | file (rpath lpath : List UInt8) (e : Listed) : e ∈ s.listing rpath → e.isFile = true →
      InTree s rpath lpath
        { mkcopyinfo rpath lpath e.name false with time := e.time, mode := e.mode, size := e.size }
  | dir (rpath lpath : List UInt8) (e : Listed) (ci : CopyInfo) : e ∈ s.listing rpath →
      e.isFollowed = true → InTree s (rpath ++ e.name ++ [47]) (lpath ++ e.name ++ [47]) ci →
      InTree s rpath lpath ci

section Tree

variable {total : List UInt8} {c c' : Conn} {dev : Device} {n : Nat}
  {files files' dirs : List CopyInfo}
  {rpath lpath : List UInt8}

theorem eachDirectory_output
    {build : Conn → List CopyInfo → CopyInfo → Except BuildStop (Int × List CopyInfo × Conn)}
    (hbuild : ∀ c files dir code files' c', build c files dir = .ok (code, files', c') →
      c.output <+: c'.output)
    {code : Int} (h : eachDirectory build dirs c files = .ok (code, files', c')) :
    c.output <+: c'.output := by
  induction dirs generalizing c files with
  | nil =>
      cases h
      exact List.prefix_rfl
  | cons dir dirs ih =>
      unfold eachDirectory at h
      cases hdir : build c files dir with
      | error stop =>
          rw [hdir] at h
          cases h
      | ok result =>
          obtain ⟨code', mid, d⟩ := result
          have hout := hbuild _ _ _ _ _ _ hdir
          rw [hdir] at h
          dsimp only at h
          split at h
          · cases h
            exact hout
          · exact hout.trans (ih h)

theorem remoteBuildList_output {depth : Nat} {code : Int}
    (h : remoteBuildList depth c files rpath lpath = .ok (code, files', c')) :
    c.output <+: c'.output := by
  induction depth generalizing c files rpath lpath code files' c' with
  | zero => cases h
  | succ depth ih =>
      unfold remoteBuildList at h
      cases hls : syncLs c rpath with
      | error fault =>
          rw [hls] at h
          cases h
      | ok result =>
          obtain ⟨code', listed, d⟩ := result
          have hout := syncLs_output hls
          rw [hls] at h
          dsimp only at h
          split at h
          · cases h
            exact hout
          · exact hout.trans (eachDirectory_output (fun _ _ _ _ _ _ hdir => ih hdir) h)

-- What the callback makes of a listing.
theorem buildListCb_tree (listed : List Listed) (files : List CopyInfo) :
    (∀ ci, ci ∈ (listed.foldl (syncLsBuildListCb rpath lpath) ⟨[], files⟩).filelist ↔ ci ∈ files ∨
        ∃ e ∈ listed, e.isFile = true ∧
          { mkcopyinfo rpath lpath e.name false with time := e.time, mode := e.mode, size := e.size } = ci) ∧
      ∀ dir, dir ∈ (listed.foldl (syncLsBuildListCb rpath lpath) ⟨[], files⟩).dirlist ↔
        ∃ e ∈ listed, e.isFollowed = true ∧ mkcopyinfo rpath lpath e.name true = dir := by
  have hfold := @foldl_buildListCb rpath lpath [] listed ⟨[], files⟩
  have hnil : ∀ path : List UInt8, path ++ joined [] = path := by simp [joined]
  rw [hnil, hnil] at hfold
  rw [hfold]
  constructor
  · intro ci
    rw [List.mem_append, or_comm, mem_copies]
    simp [copyOf, hnil]
  · intro dir
    simp [and_assoc]

-- One listing.
theorem syncLs_asks (hstep : InStep total c dev n) (hpath : IsText rpath)
    (h : syncLs c rpath = .ok (0, listed, c')) (htotal : c'.output <+: total) :
    listed = dev.store.listing rpath ∧ ∃ t k, GoesOn total dev n c' t k := by
  obtain ⟨hlen, hw, hout, htake⟩ := syncLs_takes hstep.healthy hpath h
  have hname : (Query.list (asText rpath)).request.name.val.length ≤ 1024 := by
    show (asText rpath).val.length ≤ 1024
    rw [asText_val hpath]
    exact hlen
  obtain ⟨-, -, -, -, hanswer⟩ := hstep.query (.list (asText rpath)) hout hw htotal hname trivial
  obtain ⟨heq, hgoes⟩ := hanswer _ htake
  have hsame : listed = dev.store.listing (asText rpath) := Answer.listed.inj heq
  rw [asText_val hpath] at hsame
  exact ⟨hsame, hgoes⟩

-- The walk over the listings lists the files of the tree, and no others.
theorem remoteBuildList_tree (depth : Nat) (hstep : InStep total c dev n) (hpath : IsText rpath)
    (h : remoteBuildList depth c files rpath lpath = .ok (0, files', c'))
    (htotal : c'.output <+: total) :
    ∃ t k, GoesOn total dev n c' t k ∧ ∀ ci, ci ∈ files' ↔
      ci ∈ files ∨ InTree dev.store rpath lpath ci := by
  induction depth generalizing c dev n files rpath lpath files' c' with
  | zero => cases h
  | succ depth ih =>
      -- the directories of one listing, each from where the one before has left off
      have hdirs : ∀ (dirs : List CopyInfo) (c : Conn) (dev : Device) (n : Nat)
          (files : List CopyInfo), InStep total c dev n → (∀ dir ∈ dirs, IsText dir.src) →
          eachDirectory (fun c files dir => remoteBuildList depth c files dir.src dir.dst)
            dirs c files =
            .ok (0, files', c') →
          ∃ t k, GoesOn total dev n c' t k ∧ ∀ ci, ci ∈ files' ↔
            ci ∈ files ∨ ∃ dir ∈ dirs, InTree dev.store dir.src dir.dst ci := by
        intro dirs
        induction dirs with
        | nil =>
            intro c dev n files hstep _ hloop
            cases hloop
            exact ⟨dev, n, hstep.refl, by simp⟩
        | cons dir dirs ihd =>
            intro c dev n files hstep htexts hloop
            unfold eachDirectory at hloop
            cases hdir : remoteBuildList depth c files dir.src dir.dst with
            | error stop =>
                rw [hdir] at hloop
                cases hloop
            | ok result =>
                obtain ⟨code, mid, d⟩ := result
                rw [hdir] at hloop
                dsimp only at hloop
                split at hloop
                · simp at hloop
                rename_i hcode
                obtain rfl : code = 0 := not_not.mp hcode
                have hout := eachDirectory_output
                  (fun _ _ _ _ _ _ hdir => remoteBuildList_output hdir) hloop
                obtain ⟨t, k, hgoes, hmid⟩ :=
                  ih hstep (htexts dir (List.mem_cons_self ..)) hdir (hout.trans htotal)
                obtain ⟨u, j, hgoes', hlast⟩ := ihd d t k mid hgoes.inStep
                  (fun dir hm => htexts dir (List.mem_cons_of_mem _ hm)) hloop
                refine ⟨u, j, hgoes.trans hgoes', fun ci => ?_⟩
                rw [hlast, hmid, hgoes.store, or_assoc]
                simp
      unfold remoteBuildList at h
      cases hls : syncLs c rpath with
      | error fault =>
          rw [hls] at h
          cases h
      | ok result =>
          obtain ⟨code, listed, d⟩ := result
          rw [hls] at h
          dsimp only at h
          split at h
          · simp at h
          rename_i hcode
          obtain rfl : code = 0 := not_not.mp hcode
          have hlater :=
            eachDirectory_output (fun _ _ _ _ _ _ hdir => remoteBuildList_output hdir) h
          obtain ⟨hlisted, t, k, hgoes⟩ := syncLs_asks hstep hpath hls (hlater.trans htotal)
          obtain ⟨hfilelist, hdirlist⟩ := @buildListCb_tree rpath lpath listed files
          have htexts : ∀ dir ∈ (listed.foldl (syncLsBuildListCb rpath lpath) ⟨[], files⟩).dirlist,
              IsText dir.src := by
            intro dir hm
            obtain ⟨e, he, -, rfl⟩ := (hdirlist dir).mp hm
            rw [hlisted] at he
            have hfits := entries_fit e he
            exact isText_append.mpr ⟨isText_append.mpr ⟨hpath, hfits.text⟩, by decide⟩
          obtain ⟨u, j, hgoes', hall⟩ := hdirs _ d t k _ hgoes.inStep htexts h
          refine ⟨u, j, hgoes.trans hgoes', fun ci => ?_⟩
          rw [hall, hfilelist, hgoes.store, or_assoc]
          refine or_congr Iff.rfl ⟨?_, ?_⟩
          · rintro (⟨e, he, hfile, rfl⟩ | ⟨dir, hm, htree⟩)
            · exact .file rpath lpath e (hlisted ▸ he) hfile
            · obtain ⟨e, he, hfollowed, rfl⟩ := (hdirlist dir).mp hm
              exact .dir rpath lpath e ci (hlisted ▸ he) hfollowed htree
          · intro htree
            cases htree with
            | file rpath lpath e he hfile => exact .inl ⟨e, hlisted ▸ he, hfile, rfl⟩
            | dir rpath lpath e ci he hfollowed htree =>
                exact .inr ⟨_, (hdirlist _).mpr ⟨e, hlisted ▸ he, hfollowed, rfl⟩, htree⟩

theorem InTree.text {ci : CopyInfo} (hpath : IsText rpath) (h : InTree dev.store rpath lpath ci) :
    IsText ci.src ∧ ci.flag = false := by
  have hnames : ∀ path, ∀ e ∈ dev.store.listing path, IsText e.name :=
    fun path e he => (entries_fit e he).text
  generalize dev.store = s at h hnames
  induction h with
  | file rpath lpath e he hfile =>
      refine ⟨?_, rfl⟩
      simp only [mkcopyinfo, Bool.false_eq_true, if_false, List.append_nil]
      exact isText_append.mpr ⟨hpath, hnames rpath e he⟩
  | dir rpath lpath e ci he hfollowed htree ih =>
      exact ih (isText_append.mpr ⟨isText_append.mpr ⟨hpath, hnames rpath e he⟩, by decide⟩)

end Tree

section Places

variable {π : Type} [DecidableEq π]

-- The files at the local places.
def localFiles (targets : Targets π) : π → Option (List UInt8) := fun q => (targets q).file

-- A file that is fetched is what the device has at its path.
def fetchFile (place : List UInt8 → π) (s : Store) (store : π → Option (List UInt8))
    (ci : CopyInfo) :
    π → Option (List UInt8) :=
  Function.update store (place ci.dst) ((s.files ci.src).map File.data)

-- A tree of the device has come to where its paths lead below lpath: each file that has
-- its place to itself, one of those that share a place, and nothing anywhere else.
structure Fetched (place : List UInt8 → π) (s : Store) (rpath lpath : List UInt8)
    (before after : π → Option (List UInt8)) : Prop where
  alone : ∀ ci, InTree s rpath lpath ci →
    (∀ other, InTree s rpath lpath other → place other.dst = place ci.dst → other.src = ci.src) →
      after (place ci.dst) = (s.files ci.src).map File.data
  shared : ∀ ci, InTree s rpath lpath ci → ∃ other, InTree s rpath lpath other ∧
    place other.dst = place ci.dst ∧ after (place ci.dst) = (s.files other.src).map File.data
  others : ∀ q, (∀ ci, InTree s rpath lpath ci → place ci.dst ≠ q) → after q = before q

variable {place : List UInt8 → π} {s : Store} {store : π → Option (List UInt8)}
  {files : List CopyInfo} {q : π}

theorem foldl_fetchFile_others (h : ∀ ci ∈ files, place ci.dst ≠ q) :
    files.foldl (fetchFile place s) store q = store q := by
  induction files generalizing store with
  | nil => rfl
  | cons ci files ih =>
      rw [List.foldl_cons, ih fun ci hm => h ci (List.mem_cons_of_mem _ hm), fetchFile]
      exact Function.update_of_ne (h ci List.mem_cons_self).symm _ _

-- The last of the files that lead to a place is there.
theorem foldl_fetchFile_there (h : ∃ ci ∈ files, place ci.dst = q) :
    ∃ ci ∈ files, place ci.dst = q ∧
    files.foldl (fetchFile place s) store q = (s.files ci.src).map File.data := by
  induction files generalizing store with
  | nil =>
      obtain ⟨ci, hm, -⟩ := h
      cases hm
  | cons first files ih =>
      rw [List.foldl_cons]
      by_cases hlater : ∃ ci ∈ files, place ci.dst = q
      · obtain ⟨ci, hm, hq, hdata⟩ := @ih (fetchFile place s store first) hlater
        exact ⟨ci, List.mem_cons_of_mem _ hm, hq, hdata⟩
      · obtain ⟨ci, hm, hq⟩ := h
        obtain rfl | hm := List.mem_cons.mp hm
        · refine ⟨ci, List.mem_cons_self, hq, ?_⟩
          rw [foldl_fetchFile_others fun other hother hsame => hlater ⟨other, hother, hsame⟩,
            fetchFile, hq]
          exact Function.update_self _ _ _
        · exact absurd ⟨ci, hm, hq⟩ hlater

theorem fetched_of_files {rpath lpath : List UInt8}
    (hfiles : ∀ ci, ci ∈ files ↔ InTree s rpath lpath ci) :
    Fetched place s rpath lpath store (files.foldl (fetchFile place s) store) := by
  have hthere : ∀ ci, InTree s rpath lpath ci → ∃ other, InTree s rpath lpath other ∧
      place other.dst = place ci.dst ∧
      files.foldl (fetchFile place s) store (place ci.dst) = (s.files other.src).map File.data := by
    intro ci hci
    obtain ⟨other, hm, hplace, hdata⟩ :=
      @foldl_fetchFile_there _ _ place s store files (place ci.dst) ⟨ci, (hfiles ci).mpr hci, rfl⟩
    exact ⟨other, (hfiles other).mp hm, hplace, hdata⟩
  refine ⟨fun ci hci halone => ?_, hthere, fun q hq => ?_⟩
  · obtain ⟨other, hother, hplace, hdata⟩ := hthere ci hci
    rw [hdata, halone other hother hplace]
  · exact foldl_fetchFile_others fun ci hm => hq ci ((hfiles ci).mp hm)

end Places

section Fetch

variable {π : Type} [DecidableEq π] {place : List UInt8 → π} {total : List UInt8} {c c' : Conn}
  {dev : Device}
  {n : Nat} {files : List CopyInfo} {targets after : Targets π}

theorem localFiles_update (targets : Targets π) (q : π) (t : LocalTarget) :
    localFiles (Function.update targets q t) = Function.update (localFiles targets) q t.file := by
  funext other
  by_cases h : other = q
  · subst h
    simp [localFiles]
  · simp [localFiles, h]

-- One file.
theorem syncRecv_fetches {path : List UInt8} {t t' : LocalTarget} {file : File}
    (hstep : InStep total c dev n)
    (hpath : IsText path) (hfile : dev.files path = some file)
    (h : syncRecv c path t = .ok (0, c', t')) (htotal : c'.output <+: total) :
    t'.file = some file.data ∧ ∃ u k, GoesOn total dev n c' u k := by
  obtain ⟨hlen, hw, hout, htakes⟩ := syncRecv_sends hstep.healthy hpath h
  have hval := asText_val hpath
  have hname : (Query.recv (asText path) file).request.name.val.length ≤ 1024 := by
    show (asText path).val.length ≤ 1024
    rw [hval]
    exact hlen
  have hpresent : (Query.recv (asText path) file).Present dev.store := by
    show dev.files (asText path) = some file
    rw [hval]
    exact hfile
  obtain ⟨whole, more, hp, ⟨chunks, hmax, rfl⟩, hanswer⟩ :=
    hstep.query (.recv (asText path) file) hout hw htotal hname hpresent
  obtain ⟨bytes, htake, hbytes⟩ := htakes chunks more hmax hp
  obtain ⟨heq, u, k, hgoes⟩ := hanswer _ htake
  rw [hbytes, Answer.data.inj heq]
  exact ⟨rfl, u, k, hgoes⟩

theorem copyFiles_output {code : Int}
    (h : copyFiles place files c targets = .ok (code, c', after)) :
    c.output <+: c'.output := by
  induction files generalizing c targets with
  | nil =>
      cases h
      exact List.prefix_rfl
  | cons ci files ih =>
      unfold copyFiles at h
      split at h
      · exact ih h
      split at h
      · cases h
      · rename_i code' d t hrecv
        have hout := syncRecv_output hrecv
        dsimp only at h
        split at h
        · cases h
          exact hout
        · exact hout.trans (ih h)

-- The files of a list, one after the other.
theorem copyFiles_fetches (hstep : InStep total c dev n) (hflag : ∀ ci ∈ files, ci.flag = false)
    (htext : ∀ ci ∈ files, IsText ci.src)
    (hfiles : ∀ ci ∈ files, ∃ file, dev.files ci.src = some file)
    (h : copyFiles place files c targets = .ok (0, c', after)) (htotal : c'.output <+: total) :
    localFiles after = files.foldl (fetchFile place dev.store) (localFiles targets) ∧
      ∃ u k, GoesOn total dev n c' u k := by
  induction files generalizing c dev n targets with
  | nil =>
      cases h
      exact ⟨rfl, dev, n, hstep.refl⟩
  | cons ci files ih =>
      unfold copyFiles at h
      rw [hflag ci (List.mem_cons_self ..), if_neg Bool.false_ne_true] at h
      split at h
      · cases h
      rename_i code d t hrecv
      dsimp only at h
      split at h
      · simp at h
      rename_i hcode
      obtain rfl : code = 0 := not_not.mp hcode
      obtain ⟨file, hfile⟩ := hfiles ci (List.mem_cons_self ..)
      obtain ⟨hdata, u, k, hgoes⟩ :=
        syncRecv_fetches hstep (htext ci (List.mem_cons_self ..)) hfile hrecv
        ((copyFiles_output h).trans htotal)
      have hsame : u.files = dev.files := congrArg Store.files hgoes.store
      obtain ⟨hafter, v, j, hgoes'⟩ :=
        ih hgoes.inStep (fun ci hm => hflag ci (List.mem_cons_of_mem _ hm))
        (fun ci hm => htext ci (List.mem_cons_of_mem _ hm))
        (fun ci hm => by rw [hsame]; exact hfiles ci (List.mem_cons_of_mem _ hm)) h
      refine ⟨?_, v, j, hgoes.trans hgoes'⟩
      have hfetch : fetchFile place dev.store (localFiles targets) ci =
          Function.update (localFiles targets) (place ci.dst) (some file.data) := by
        simp [fetchFile, Device.store, hfile]
      rw [hafter, hgoes.store, List.foldl_cons, hfetch, localFiles_update, hdata]

theorem copyRemoteDirLocal_output {rpath lpath : List UInt8} {code : Int}
    (h : copyRemoteDirLocal place c rpath lpath targets = .ok (code, c', after)) :
    c.output <+: c'.output := by
  unfold copyRemoteDirLocal at h
  split at h
  · cases h
    exact List.prefix_rfl
  cases hlist : fileList c rpath lpath with
  | error stop =>
      rw [hlist] at h
      cases h
  | ok result =>
      obtain ⟨code', files, d⟩ := result
      have hout := remoteBuildList_output hlist
      rw [hlist] at h
      dsimp only at h
      split at h
      · cases h
        exact hout
      · exact hout.trans (copyFiles_output h)

-- A directory: the listings of its tree, and then the files that they lead to.
theorem copyRemoteDirLocal_fetches {rpath : Text} {lpath : List UInt8}
    (hstep : InStep total c dev n)
    (htree : ∀ ci, InTree dev.store (slashed rpath) (slashed lpath) ci →
      ∃ file, dev.files ci.src = some file)
    (h : copyRemoteDirLocal place c rpath lpath targets = .ok (0, c', after))
    (htotal : c'.output <+: total) :
    Fetched place dev.store (slashed rpath) (slashed lpath) (localFiles targets)
      (localFiles after) ∧
      ∃ t k, GoesOn total dev n c' t k := by
  unfold copyRemoteDirLocal at h
  split at h
  · simp at h
  cases hlist : fileList c rpath lpath with
  | error stop =>
      rw [hlist] at h
      cases h
  | ok result =>
      obtain ⟨code, files, d⟩ := result
      rw [hlist] at h
      dsimp only at h
      split at h
      · simp at h
      rename_i hcode
      obtain rfl : code = 0 := not_not.mp hcode
      have hcopied := (copyFiles_output h).trans htotal
      obtain ⟨t, k, hgoes, hall⟩ :=
        remoteBuildList_tree _ hstep (isText_slashed rpath) hlist hcopied
      have hmembers : ∀ ci, ci ∈ files ↔ InTree dev.store (slashed rpath) (slashed lpath) ci := by
        intro ci
        rw [hall ci]
        simp
      have htexts := fun ci hm => ((hmembers ci).mp hm).text (isText_slashed rpath)
      have hfiles : ∀ ci ∈ files, ∃ file, t.files ci.src = some file := by
        intro ci hm
        have hsame : t.files = dev.files := congrArg Store.files hgoes.store
        rw [hsame]
        exact htree ci ((hmembers ci).mp hm)
      obtain ⟨hfetched, u, j, hgoes'⟩ :=
        copyFiles_fetches hgoes.inStep (fun ci hm => (htexts ci hm).2)
        (fun ci hm => (htexts ci hm).1) hfiles h htotal
      rw [hfetched, hgoes.store]
      exact ⟨fetched_of_files hmembers, u, j, hgoes.trans hgoes'⟩

end Fetch

-- What comes to the device is all that the client writes, and what comes to the
-- client a part, from the start on, of what the device says.
structure Attended (c c' : Conn) (dev : Device) : Prop where
  toDevice : c'.output = c.output ++ readable dev.conn.input
  toClient : ∃ said, (fileSyncService dev).conn.output = dev.conn.output ++ said ∧
    readable c.input <+: said

section Pull

variable {κ π : Type} [DecidableEq π] {place : List UInt8 → π} {fs : LocalFs κ} {cwd : κ}
  {dev : Device}
  {c c' : Conn} {rpath lpath : Text} {targets after : Targets π}

theorem Attended.inStep (h : Attended c c' dev) (hc : Healthy c.writes) (hsound : dev.Sound) :
    InStep c'.output c dev ((stored dev.conn.input).length + 1) :=
  ⟨hc, hsound, h.toDevice.symm, hears_service ⟨⟨_, h.toDevice, List.prefix_rfl⟩, h.toClient⟩⟩

-- What is left of the session leaves the files alone.
theorem GoesOn.files {d : Conn} {t : Device} {n k : Nat}
    (h : GoesOn (syncQuit d).output dev n d t k) : (service.turns n dev).files = dev.files := by
  obtain ⟨part, hquit, hpart⟩ := syncQuit_output d
  have hreads := h.inStep.reads
  rw [hquit] at hreads
  have hin := List.append_cancel_left hreads
  rw [h.turns, turns_quit k (by rw [hin]; exact hpart)]
  exact congrArg Store.files h.store

theorem syncQuit_extends (d : Conn) : d.output <+: (syncQuit d).output := by
  obtain ⟨part, hout, -⟩ := syncQuit_output d
  exact ⟨part, hout.symm⟩

-- adb ls that returns 0 has printed what is in the directory, and nothing has
-- happened to the device's files.
theorem ls_lists {listed : List Listed} (hc : Healthy c.writes) (hsound : dev.Sound)
    (hls : doSyncLs (some c) rpath = .ok (0, listed, some c')) (hconn : Attended c c' dev) :
    listed = entries dev rpath ∧ (fileSyncService dev).files = dev.files := by
  have hstep := hconn.inStep hc hsound
  rw [fileSyncService_files]
  unfold doSyncLs at hls
  dsimp only at hls
  cases hlist : syncLs c rpath with
  | error fault =>
      rw [hlist] at hls
      cases hls
  | ok result =>
      obtain ⟨code, listed', d⟩ := result
      rw [hlist] at hls
      dsimp only at hls
      split at hls
      · simp at hls
      rename_i hcode
      obtain rfl : code = 0 := not_not.mp hcode
      simp only [Except.ok.injEq, Prod.mk.injEq, Option.some.injEq, true_and] at hls
      obtain ⟨rfl, rfl⟩ := hls
      obtain ⟨hlisted, t, k, hgoes⟩ := syncLs_asks hstep rpath.property hlist (syncQuit_extends d)
      exact ⟨hlisted, hgoes.files⟩

-- The answer to the first request of do_sync_pull.
theorem syncReadmode_asks {d : Conn} {total : List UInt8} {n : Nat} {mode : UInt32}
    (hstep : InStep total c dev n) (hshort : rpath.val.length ≤ 1024)
    (h : syncReadmode c rpath = (some mode, d)) (htotal : d.output <+: total) :
    mode = (remoteStat dev rpath).mode ∧ ∃ t k, GoesOn total dev n d t k := by
  obtain ⟨st, rfl, hw, hout, htake⟩ := syncReadmode_takes hstep.healthy h
  obtain ⟨-, -, -, -, hanswer⟩ := hstep.query (.stat rpath) hout hw htotal hshort trivial
  obtain ⟨heq, t, k, hgoes⟩ := hanswer _ htake
  have hst : st = remoteStat dev rpath := RemoteStat.answer_inj heq
  exact ⟨congrArg RemoteStat.mode hst, t, k, hgoes⟩

-- A pull that returns 0 has fetched what the device has, the file into its place or
-- each file of the tree into the place below lpath that its place below rpath leads
-- to, and has touched nothing else at either end. Of files that share a place one is
-- there.
theorem pull_fetches (hc : Healthy c.writes) (hsound : dev.Sound) (hshort : rpath.val.length ≤ 1024)
    (hfile : isType (remoteStat dev rpath).mode S_IFDIR = false →
      ∃ file, dev.files rpath = some file)
    (htree : isType (remoteStat dev rpath).mode S_IFDIR = true → ∀ ci,
      InTree dev.store (slashed rpath) (slashed lpath) ci → ∃ file, dev.files ci.src = some file)
    (hpull : doSyncPull fs place cwd (some c) rpath lpath targets = .ok (0, some c', after))
    (hconn : Attended c c' dev) :
    (fileSyncService dev).files = dev.files ∧
      if isType (remoteStat dev rpath).mode S_IFDIR then
        Fetched place dev.store (slashed rpath) (slashed lpath) (localFiles targets)
          (localFiles after)
      else
        localFiles after = Function.update (localFiles targets)
          (place (pullTarget fs cwd rpath lpath))
          ((dev.files rpath).map File.data) := by
  have hstep := hconn.inStep hc hsound
  rw [fileSyncService_files]
  unfold doSyncPull at hpull
  dsimp only at hpull
  cases hread : syncReadmode c rpath with
  | mk found d =>
  rw [hread] at hpull
  cases found with
  | none => simp at hpull
  | some mode =>
  dsimp only at hpull
  split at hpull
  · simp at hpull
  split at hpull
  · -- a file
    rename_i hreg
    cases hrecv : syncRecv d rpath (targets (place (pullTarget fs cwd rpath lpath))) with
    | error fault =>
        rw [hrecv] at hpull
        cases hpull
    | ok result =>
    obtain ⟨code, e, t⟩ := result
    rw [hrecv] at hpull
    dsimp only at hpull
    split at hpull
    · simp at hpull
    rename_i hcode
    obtain rfl : code = 0 := not_not.mp hcode
    simp only [Except.ok.injEq, Prod.mk.injEq, Option.some.injEq, true_and] at hpull
    obtain ⟨rfl, rfl⟩ := hpull
    have hquit := syncQuit_extends e
    obtain ⟨rfl, u, k, hgoes⟩ :=
      syncReadmode_asks hstep hshort hread ((syncRecv_output hrecv).trans hquit)
    have hplain : isType (remoteStat dev rpath).mode S_IFDIR = false := by
      simp only [isType, decide_eq_true_eq, decide_eq_false_iff_not] at hreg ⊢
      obtain hreg | hreg := hreg <;> rw [hreg] <;> decide
    obtain ⟨file, hpresent⟩ := hfile hplain
    have hsame : u.files = dev.files := congrArg Store.files hgoes.store
    obtain ⟨hdata, v, j, hgoes'⟩ := syncRecv_fetches hgoes.inStep rpath.property
      (by rw [hsame]; exact hpresent) hrecv hquit
    refine ⟨(hgoes.trans hgoes').files, ?_⟩
    rw [hplain, if_neg Bool.false_ne_true, localFiles_update, hdata, hpresent]
    rfl
  split at hpull
  · -- a directory
    rename_i hdir
    cases hcopy : copyRemoteDirLocal place d rpath lpath targets with
    | error stop =>
        rw [hcopy] at hpull
        cases hpull
    | ok result =>
    obtain ⟨code, e, final⟩ := result
    rw [hcopy] at hpull
    dsimp only at hpull
    split at hpull
    · simp at hpull
    rename_i hcode
    obtain rfl : code = 0 := not_not.mp hcode
    simp only [Except.ok.injEq, Prod.mk.injEq, Option.some.injEq, true_and] at hpull
    obtain ⟨rfl, rfl⟩ := hpull
    have hquit := syncQuit_extends e
    obtain ⟨rfl, u, k, hgoes⟩ := syncReadmode_asks hstep hshort hread
      ((copyRemoteDirLocal_output hcopy).trans hquit)
    have hsame : u.files = dev.files := congrArg Store.files hgoes.store
    obtain ⟨hfetched, v, j, hgoes'⟩ := copyRemoteDirLocal_fetches hgoes.inStep
      (by rw [hgoes.store, hsame]; exact htree hdir) hcopy hquit
    rw [hgoes.store] at hfetched
    refine ⟨(hgoes.trans hgoes').files, ?_⟩
    rw [hdir, if_pos rfl]
    exact hfetched
  · simp at hpull

end Pull

section RoundTrip

variable {κ π : Type} [DecidableEq π] {place : List UInt8 → π} {fs : LocalFs κ} {cwd : κ}
  {dev dev' : Device}
  {c c' d d' : Conn} {apk : ApkCheck} {lpath rpath back : Text} {verifyApk : Bool} {st : Stat}
  {targets after : Targets π}

-- A file that is pushed in one session and pulled in another comes back as it was.
theorem push_pull_round_trip (hreads : Readable fs) (hc : Healthy c.writes) (hd : Healthy d.writes)
    (hunlinks : dev.Unlinks) (hsound : dev'.Sound) (hshort : rpath.val.length ≤ 1024)
    (hst : fs.stat cwd lpath = some st) (hfile : isType (statMode st) S_IFDIR = false)
    (hplain : isType (remoteStat dev rpath).mode S_IFDIR = false)
    (hpush : doSyncPush fs apk cwd (some c) lpath rpath verifyApk = .ok (0, some c'))
    (hpushed : Connected c c' dev) (hfiles : dev'.files = (fileSyncService dev).files)
    (hplain' : isType (remoteStat dev' rpath).mode S_IFDIR = false)
    (hpull : doSyncPull fs place cwd (some d) rpath back targets = .ok (0, some d', after))
    (hpulled : Attended d d' dev') :
    localFiles after = Function.update (localFiles targets) (place (pullTarget fs cwd rpath back))
      (some (localData fs cwd lpath)) := by
  have htarget : pushTarget lpath rpath (remoteStat dev rpath).mode = rpath := by
    unfold pushTarget
    rw [hplain]
    exact if_neg fun h => Bool.false_ne_true h.2
  have hput := push_brings_file hreads hc hunlinks (by omega) hst hfile hpush hpushed
  rw [htarget, ← hfiles] at hput
  have hthere : dev'.files rpath =
      some ⟨pushedMode rpath (statMode st), (UInt32.ofInt st.mtime).toNat,
        localData fs cwd lpath⟩ := by
    rw [hput, Function.update_self]
  obtain ⟨-, hfetched⟩ := pull_fetches hd hsound hshort (fun _ => ⟨_, hthere⟩)
    (fun hdir => absurd (hplain'.symm.trans hdir) Bool.false_ne_true) hpull hpulled
  rw [hplain', if_neg Bool.false_ne_true, hthere] at hfetched
  exact hfetched

end RoundTrip

-- Windows takes letters of either case for the same, and both kinds of slashes.
def windowsPlace (path : List UInt8) : Place (List UInt8) :=
  normalise (path.map fun c => if 65 ≤ c ∧ c ≤ 90 then c + 32 else c)

-- The file of hostWithFile, pushed to r and pulled to b.
def deviceAfterPush (input : List UInt8) : Device :=
  { emptyDevice input with
    files := (fileSyncService (emptyDevice pushSent)).files
    lstat := fun path => if path = [114] then some ⟨33188, 2, 7⟩ else none }

def fileSent : List UInt8 :=
  syncmsg [ID_STAT, 1] ++ [114] ++ syncmsg [ID_RECV, 1] ++ [114] ++ syncmsg [ID_QUIT, 0]

def emptyTargets : Targets (Place (List UInt8)) := fun _ => ⟨none, true, true, []⟩

theorem push_and_pull_of_one_file : ∃ after,
    doSyncPull hostWithFile windowsPlace ()
      (some (client (syncmsg [ID_STAT, 33188, 2, 7] ++ pushRecords [[5, 6]] 0))) [114]
        [98] emptyTargets =
        .ok (0, some ⟨[], [], fileSent, false⟩, after) ∧
    localFiles after = Function.update (fun _ => none) (windowsPlace [98]) (some [5, 6]) := by
  obtain ⟨after, hpull⟩ : ∃ after, doSyncPull hostWithFile windowsPlace ()
      (some (client (syncmsg [ID_STAT, 33188, 2, 7] ++ pushRecords [[5, 6]] 0))) [114]
        [98] emptyTargets =
        .ok (0, some ⟨[], [], fileSent, false⟩, after) := ⟨_, rfl⟩
  refine ⟨after, hpull, ?_⟩
  exact @push_pull_round_trip Unit _ _ windowsPlace hostWithFile () (emptyDevice pushSent)
    (deviceAfterPush fileSent) (client (syncmsg [ID_STAT, 0, 0, 0] ++ okayRecord))
      ⟨[], [], pushSent, false⟩
    (client (syncmsg [ID_STAT, 33188, 2, 7] ++ pushRecords [[5, 6]] 0))
      ⟨[], [], fileSent, false⟩ anyApk
    ⟨[108, 47, 97], by decide⟩ ⟨[114], by decide⟩ ⟨[98], by decide⟩ false
      ⟨33188, 2, 7⟩ emptyTargets after
    hostWithFile_readable (by simp [Healthy, client]) (by simp [Healthy, client])
    (by simp [Device.Unlinks, emptyDevice])
    ⟨by simp [Healthy, deviceAfterPush, emptyDevice], by simp [deviceAfterPush, emptyDevice],
      by simp [deviceAfterPush, emptyDevice]⟩
    (by decide) (by decide) (by decide) (by decide) (by decide +kernel)
    ⟨⟨pushSent, rfl, by decide +kernel⟩, _, by decide +kernel, List.prefix_rfl⟩ rfl
      (by decide) hpull
    ⟨by decide +kernel, _, by decide +kernel, List.prefix_rfl⟩

theorem isText_b : IsText [98] := by decide

theorem isText_c : IsText [99] := by decide

theorem isText_d : IsText [100] := by decide

-- A directory r with files a and b and a directory d that has a file c, to be pulled to l.
def deviceWithTree (input : List UInt8) : Device where
  conn := ⟨segmentOf input, [], [], false⟩
  files := fun path =>
    if path = [114, 47, 97] then some ⟨0o644, 7, [5, 6]⟩
    else if path = [114, 47, 98] then some ⟨0o644, 7, [8]⟩
    else if path = [114, 47, 100, 47, 99] then some ⟨0o644, 7, [9]⟩
    else none
  opens := []
  unlinks := []
  writes := []
  reads := []
  opendir := fun path =>
    if path = [114, 47] then some [⟨[97], isText_a⟩, ⟨[100], isText_d⟩, ⟨[98], isText_b⟩]
    else if path = [114, 47, 100, 47] then some [⟨[99], isText_c⟩]
    else none
  lstat := fun path =>
    if path = [114] ∨ path = [114, 47, 47, 100] then some ⟨0o40755, 0, 7⟩
    else if path = [114, 47, 47, 97] then some ⟨33188, 2, 7⟩
    else if path = [114, 47, 47, 98] ∨ path = [114, 47, 100, 47, 47, 99] then some ⟨33188, 1, 7⟩
    else none
  strerror := fun _ => []

def pullSent : List UInt8 :=
  syncmsg [ID_STAT, 1] ++ [114] ++ syncmsg [ID_LIST, 2] ++ [114, 47] ++
    syncmsg [ID_LIST, 4] ++ [114, 47, 100, 47] ++ syncmsg [ID_RECV, 5] ++ [114, 47, 100, 47, 99] ++
    syncmsg [ID_RECV, 3] ++ [114, 47, 98] ++ syncmsg [ID_RECV, 3] ++ [114, 47, 97] ++
      syncmsg [ID_QUIT, 0]

def pullHeard : List UInt8 :=
  syncmsg [ID_STAT, 0o40755, 0, 7] ++
    listAnswer [⟨33188, 2, 7, [97]⟩, ⟨0o40755, 0, 7, [100]⟩, ⟨33188, 1, 7, [98]⟩] ++
    listAnswer [⟨33188, 1, 7, [99]⟩] ++ pushRecords [[9]] 0 ++ pushRecords [[8]] 0 ++
      pushRecords [[5, 6]] 0

theorem entries_deviceWithTree (input : List UInt8) :
    (deviceWithTree input).store.listing [114, 47] =
      [⟨33188, 2, 7, [97]⟩, ⟨0o40755, 0, 7, [100]⟩, ⟨33188, 1, 7, [98]⟩] ∧
    (deviceWithTree input).store.listing [114, 47, 100, 47] = [⟨33188, 1, 7, [99]⟩] := ⟨rfl, rfl⟩

-- The three files of its tree.
theorem inTree_deviceWithTree {input : List UInt8} {ci : CopyInfo} :
    InTree (deviceWithTree input).store [114, 47] [108, 47] ci ↔
      ci ∈ [⟨[114, 47, 97], [108, 47, 97], 7, 33188, 2, false⟩,
        ⟨[114, 47, 98], [108, 47, 98], 7, 33188, 1, false⟩,
        (⟨[114, 47, 100, 47, 99], [108, 47, 100, 47, 99], 7, 33188, 1, false⟩ : CopyInfo)] := by
  obtain ⟨htop, hsub⟩ := entries_deviceWithTree input
  constructor
  · intro h
    cases h with
    | file _ _ e he hfile =>
        rw [htop] at he
        simp only [List.mem_cons, List.not_mem_nil, or_false] at he
        obtain rfl | rfl | rfl := he
        · exact List.mem_cons_self
        · exact absurd hfile (by decide)
        · exact List.mem_cons_of_mem _ List.mem_cons_self
    | dir _ _ e _ he hfollowed hbelow =>
        rw [htop] at he
        simp only [List.mem_cons, List.not_mem_nil, or_false] at he
        obtain rfl | rfl | rfl := he
        · exact absurd hfollowed (by decide)
        · change InTree _ [114, 47, 100, 47] [108, 47, 100, 47] ci at hbelow
          cases hbelow with
          | file _ _ e he hfile =>
              rw [hsub, List.mem_singleton] at he
              subst he
              exact List.mem_cons_of_mem _ (List.mem_cons_of_mem _ List.mem_cons_self)
          | dir _ _ e _ he hfollowed _ =>
              rw [hsub, List.mem_singleton] at he
              subst he
              exact absurd hfollowed (by decide)
        · exact absurd hfollowed (by decide)
  · intro h
    simp only [List.mem_cons, List.not_mem_nil, or_false] at h
    obtain rfl | rfl | rfl := h
    · exact .file [114, 47] [108, 47] ⟨33188, 2, 7, [97]⟩ (by rw [htop]; simp) (by decide)
    · exact .file [114, 47] [108, 47] ⟨33188, 1, 7, [98]⟩ (by rw [htop]; simp) (by decide)
    · refine .dir [114, 47] [108, 47] ⟨0o40755, 0, 7, [100]⟩ _ (by rw [htop]; simp) (by decide) ?_
      exact .file [114, 47, 100, 47] [108, 47, 100, 47] ⟨33188, 1, 7, [99]⟩
        (by rw [hsub]; simp) (by decide)

set_option maxRecDepth 16000 in
theorem pull_of_a_directory : ∃ after,
    doSyncPull hostWithFile windowsPlace () (some (client pullHeard)) [114] [108] emptyTargets =
      .ok (0, some ⟨[], [], pullSent, false⟩, after) ∧
    localFiles after (windowsPlace [108, 47, 97]) = some [5, 6] ∧
    localFiles after (windowsPlace [108, 47, 98]) = some [8] ∧
    localFiles after (windowsPlace [108, 92, 68, 92, 99]) = some [9] := by
  obtain ⟨after, hpull⟩ : ∃ after,
      doSyncPull hostWithFile windowsPlace () (some (client pullHeard)) [114] [108] emptyTargets =
        .ok (0, some ⟨[], [], pullSent, false⟩, after) := ⟨_, rfl⟩
  have hpresent : ∀ ci, InTree (deviceWithTree pullSent).store [114, 47] [108, 47] ci →
      ∃ file, (deviceWithTree pullSent).files ci.src = some file := by
    intro ci hci
    have hsome : ((deviceWithTree pullSent).files ci.src).isSome = true := by
      revert ci
      simp only [inTree_deviceWithTree]
      decide
    exact Option.isSome_iff_exists.mp hsome
  obtain ⟨-, hfetched⟩ :=
    @pull_fetches Unit _ _ windowsPlace hostWithFile () (deviceWithTree pullSent)
    (client pullHeard) ⟨[], [], pullSent, false⟩ ⟨[114], by decide⟩
      ⟨[108], by decide⟩ emptyTargets after
    (by simp [Healthy, client])
      ⟨by simp [Healthy, deviceWithTree], by simp [deviceWithTree], by simp [deviceWithTree]⟩
    (by decide) (fun h => absurd h (by decide)) (fun _ => hpresent) hpull
    ⟨by decide +kernel, _, by decide +kernel, List.prefix_rfl⟩
  rw [if_pos (by decide)] at hfetched
  have hthere := hfetched.alone
  change ∀ ci, InTree (deviceWithTree pullSent).store [114, 47] [108, 47] ci →
    (∀ other, InTree (deviceWithTree pullSent).store [114, 47] [108, 47] other → _) → _ at hthere
  simp only [inTree_deviceWithTree] at hthere
  refine ⟨after, hpull, ?_, ?_, ?_⟩
  · exact hthere ⟨[114, 47, 97], [108, 47, 97], 7, 33188, 2, false⟩ (by decide) (by decide)
  · exact hthere ⟨[114, 47, 98], [108, 47, 98], 7, 33188, 1, false⟩ (by decide) (by decide)
  · exact hthere ⟨[114, 47, 100, 47, 99], [108, 47, 100, 47, 99], 7, 33188, 1, false⟩
      (by decide) (by decide)

end Adb.Sync
