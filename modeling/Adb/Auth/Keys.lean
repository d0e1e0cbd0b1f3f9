import Adb.Auth.Daemon
import Adb.Lib.Cursor
import Adb.Lib.Ensures
import Adb.Lib.Loop
import Adb.Lib.Ring

namespace Adb.Auth

open Adb.Host (Bytes Packet Stop MAX_PAYLOAD)
open Adb.Lib

section Keys

-- The head key_list, and the nodes of the adb_private_keys.
inductive ListNode where
  | keyList
  | key (i : Nat)
deriving DecidableEq

-- The links of the nodes, and the rsa of each adb_private_key, in the order in which
-- these were allocated.
structure KeyStore (Rsa : Type) where
  links : Links ListNode
  rsas : List Rsa

variable {Rsa : Type}

def listAddTail (l : Links ListNode) (head item : ListNode) : Except Stop (Links ListNode) :=
  let l := l.setNext item (some head)
  let l := l.setPrev item (l.prev head)
  match l.prev head with
  | none => .error .brokenList
  | some last => .ok ((l.setNext last (some item)).setPrev head (some item))

-- What PEM_read_RSAPrivateKey makes of the file. none: there is no key in it.
def readKey (store : KeyStore Rsa) : Option Rsa → Except Stop (KeyStore Rsa)
  | none => .ok store
  | some rsa => do
      let links ← listAddTail store.links .keyList (.key store.rsas.length)
      return ⟨links, store.rsas ++ [rsa]⟩

-- list_init, and then a file after the other.
def readKeys (files : List (Option Rsa)) : Except Stop (KeyStore Rsa) :=
  files.foldlM readKey ⟨Links.init ⟨fun _ => none, fun _ => none⟩ .keyList, []⟩

namespace KeyStore

-- node_to_item; the head is part of no key.
def nodeToItem (store : KeyStore Rsa) : ListNode → Option Rsa
  | .keyList => none
  | .key i => store.rsas[i]?

def listEmpty (store : KeyStore Rsa) : Bool := store.links.next .keyList = some .keyList

def listHead (store : KeyStore Rsa) : Option ListNode := store.links.next .keyList

-- A turn of list_for_each in adb_auth_nextkey.
def nextkeyTurn (store : KeyStore Rsa) (current : ListNode) :
    Option ListNode → Except Stop (Option ListNode ⊕ Option ListNode)
  | none => .error .brokenList
  | some item =>
      if item = .keyList then .ok (.inr none)
      else if item = current then
        .ok (.inr (if store.links.next item = some .keyList then none else store.links.next item))
      else .ok (.inl (store.links.next item))

-- There are no more nodes to go through than keys have been read.
def adbAuthNextkey (store : KeyStore Rsa) (current : Option ListNode) :
    Except Stop (Option ListNode) :=
  if store.listEmpty then .ok none
  else
    match current with
    | none => .ok store.listHead
    | some current =>
        (loop (store.nextkeyTurn current) (store.rsas.length + 1) store.listHead).getD
          (.error .endless)

-- The calls of adb_auth_nextkey one after the other, the first with NULL.
def nextkeys (store : KeyStore Rsa) : Nat → Except Stop (Option ListNode)
  | 0 => .ok none
  | i + 1 => nextkeys store i >>= adbAuthNextkey store

-- The nodes are on the list in this order, none twice, and they are the nodes of the
-- keys as they were read. The calls yield them, and then NULL.
structure Iterates (store : KeyStore Rsa) (nodes : List ListNode) : Prop where
  inOrder : store.links.IsRing .keyList nodes
  items : nodes.map store.nodeToItem = store.rsas.map some
  yields : ∀ i, i ≤ nodes.length → store.nextkeys (i + 1) = .ok nodes[i]?

end KeyStore

section Iteration

variable {l m : Links ListNode} {xs before after : List ListNode} {a x current head : ListNode}
  {store : KeyStore Rsa} {files : List (Option Rsa)}

-- The two pointers of the head and of the last node are written in another order than
-- by insertTail.
theorem listAddTail_ring (h : l.IsRing head xs) (hx : x ∉ head :: xs) :
    ∃ m, listAddTail l head x = .ok m ∧ m.IsRing head (xs ++ [x]) := by
  obtain ⟨last, -, hprev, -⟩ := h.prev_mem (y := head) (by simp)
  obtain ⟨m, hm, hring, -⟩ := h.insertTail hx
  have hne : head ≠ x := fun heq => hx (by simp [heq])
  refine ⟨m, ?_, hring⟩
  simp only [Links.insertTail, Links.setNext, Links.setPrev, hprev, Option.bind_eq_bind,
    Function.update_of_ne hne.symm, Function.update_self, Option.bind_some] at hm
  simp only [listAddTail, Links.setNext, Links.setPrev, Function.update_of_ne hne, hprev]
  rw [Except.ok.injEq]
  exact Option.some.inj hm

namespace KeyStore

def nodes (store : KeyStore Rsa) : List ListNode := (List.range store.rsas.length).map .key

-- What list_init leaves and read_key keeps.
def Stored (store : KeyStore Rsa) : Prop := store.links.IsRing .keyList store.nodes

@[simp] theorem length_nodes : store.nodes.length = store.rsas.length := by simp [nodes]

theorem keyList_notMem (store : KeyStore Rsa) : .keyList ∉ store.nodes := by simp [nodes]

theorem items (store : KeyStore Rsa) : store.nodes.map store.nodeToItem = store.rsas.map some := by
  refine List.ext_getElem (by simp) fun i hi _ => ?_
  simp [nodes, nodeToItem]

theorem item_at (store : KeyStore Rsa) (j : Nat) :
    (cursorAt store.nodes j).map store.nodeToItem = (cursorAt store.rsas j).map some := by
  rw [← cursorAt_map, ← cursorAt_map, store.items]

theorem readKey_stored (h : store.Stored) (file : Option Rsa) :
    ∃ after, readKey store file = .ok after ∧ after.Stored ∧
      after.rsas = store.rsas ++ file.toList := by
  cases file with
  | none => exact ⟨store, rfl, h, by simp⟩
  | some rsa =>
      obtain ⟨links, hadd, hring⟩ :=
        listAddTail_ring (x := .key store.rsas.length) h (by simp [nodes])
      refine ⟨⟨links, store.rsas ++ [rsa]⟩, by rw [readKey, hadd]; rfl, ?_, rfl⟩
      have hnodes : (⟨links, store.rsas ++ [rsa]⟩ : KeyStore Rsa).nodes =
          store.nodes ++ [.key store.rsas.length] := by
        simp [nodes, List.range_succ]
      rw [Stored, hnodes]
      exact hring

theorem readKeys_from (h : store.Stored) (files : List (Option Rsa)) :
    ∃ after, files.foldlM readKey store = .ok after ∧ after.Stored ∧
      after.rsas = store.rsas ++ files.filterMap id := by
  induction files generalizing store with
  | nil => exact ⟨store, rfl, h, by simp⟩
  | cons file files ih =>
      obtain ⟨mid, hread, hmid, hrsas⟩ := readKey_stored h file
      obtain ⟨after, hmore, hafter, hall⟩ := ih hmid
      refine ⟨after, by rw [List.foldlM_cons, hread]; exact hmore, hafter, ?_⟩
      rw [hall, hrsas]
      cases file <;> simp

theorem readKeys_stored (files : List (Option Rsa)) :
    ∃ store, readKeys files = .ok store ∧ store.Stored ∧ store.rsas = files.filterMap id :=
  have hinit : (⟨Links.init ⟨fun _ => none, fun _ => none⟩ .keyList, []⟩ : KeyStore Rsa).Stored :=
    Links.isRing_init
  readKeys_from hinit files

-- The loop goes on to the current key and takes the node behind it, unless that is
-- the head.
theorem nextkeyTurn_finds (fuel : Nat)
    (hlinked : store.links.Linked a (before ++ current :: after) .keyList)
    (hnd : (before ++ current :: after).Nodup) (hhead : .keyList ∉ before ++ current :: after)
    (hfuel : before.length < fuel) :
    loop (store.nextkeyTurn current) fuel (store.links.next a) = some (.ok after.head?) := by
  induction before generalizing a fuel with
  | nil =>
      obtain ⟨fuel, rfl⟩ := Nat.exists_eq_add_of_lt hfuel
      rw [List.nil_append, List.mem_cons, not_or] at hhead
      rw [hlinked.1]
      refine loop_leaves ?_
      rw [nextkeyTurn, if_neg (Ne.symm hhead.1), if_pos rfl, hlinked.2.2.next_first]
      cases after with
      | nil => rfl
      | cons y after =>
          have hy : y ≠ .keyList := fun heq => hhead.2 (by simp [heq])
          rw [List.headD_cons, if_neg (by simpa using hy), List.head?_cons]
  | cons x before ih =>
      cases fuel with
      | zero => omega
      | succ fuel =>
          rw [List.cons_append, List.mem_cons, not_or] at hhead
          rw [List.cons_append, List.nodup_cons] at hnd
          have hx : x ≠ current := fun heq => hnd.1 (by simp [heq])
          rw [hlinked.1, loop_succ (by rw [nextkeyTurn, if_neg (Ne.symm hhead.1), if_neg hx])]
          exact ih fuel hlinked.2.2 hnd.2 hhead.2 (by simpa using hfuel)

theorem adbAuthNextkey_follows (h : store.Stored) : Follows store.adbAuthNextkey store.nodes := by
  intro before after hsplit
  have hnext := h.1.next_first
  have hnd := (List.nodup_cons.mp h.2).2
  unfold adbAuthNextkey
  cases hnodes : store.nodes with
  | nil =>
      rw [hnodes] at hnext hsplit
      obtain ⟨rfl, rfl⟩ := List.append_eq_nil_iff.mp hsplit.symm
      rw [if_pos (by simp [listEmpty, hnext])]
      rfl
  | cons first rest =>
      have hfirst : first ≠ .keyList := fun heq => store.keyList_notMem (by simp [hnodes, heq])
      rw [hnodes, List.headD_cons] at hnext
      rw [if_neg (by simp [listEmpty, hnext, hfirst])]
      obtain rfl | ⟨before, current, rfl⟩ := List.eq_nil_or_concat' before
      · rw [List.nil_append] at hsplit
        rw [← hsplit, hnodes]
        exact congrArg Except.ok hnext
      · have hlen : before.length < store.rsas.length + 1 := by
          rw [← length_nodes, hsplit, List.length_append, List.length_append]
          omega
        rw [List.append_assoc, List.singleton_append] at hsplit
        have hfinds := nextkeyTurn_finds (store.rsas.length + 1) (hsplit ▸ h.1) (hsplit ▸ hnd)
          (hsplit ▸ store.keyList_notMem) hlen
        rw [List.getLast?_concat]
        simp only [listHead, hfinds, Option.getD_some]

theorem nextkeys_eq (h : store.Stored) (i : Nat) :
    store.nextkeys i = .ok (cursorAt store.nodes i) := by
  induction i with
  | zero => rw [cursorAt_zero, nextkeys]
  | succ i ih =>
      rw [nextkeys, ih]
      exact (adbAuthNextkey_follows h).step i

theorem Stored.iterates (h : store.Stored) : store.Iterates store.nodes where
  inOrder := h
  items := store.items
  yields i hi := by rw [nextkeys_eq h, cursorAt_first hi]

end KeyStore

end Iteration

end Keys

section Model

variable {Rsa : Type} (rsaSign : Rsa → Bytes → Option Bytes)

-- The part of an atransport that counts on the side with the private keys.
structure KeyTransport where
  key : Option ListNode
  failedAuthAttempts : UInt32

-- How a token is answered, with the data that is sent, if any is.
inductive Answer (Rsa : Type) where
  | signature (rsa : Rsa) (sent : Option Bytes)
  | publickey (sent : Option Bytes)
deriving DecidableEq

def Answer.isSignature : Answer Rsa → Bool
  | .signature _ _ => true
  | .publickey _ => false

-- adb where the branch for A_AUTH is compiled. log: the transports and the answers.
structure KeyHost (Rsa : Type) where
  store : KeyStore Rsa
  transports : Nat → Option KeyTransport
  nextTransport : Nat
  log : List (Nat × Answer Rsa)

namespace KeyHost

def note (st : KeyHost Rsa) (t : Nat) (answer : Answer Rsa) : KeyHost Rsa :=
  { st with log := st.log ++ [(t, answer)] }

def deref (st : KeyHost Rsa) (t : Nat) : Except Stop KeyTransport :=
  match st.transports t with
  | some transport => .ok transport
  | none => .error .useAfterFree

def put (st : KeyHost Rsa) (t : Nat) (transport : KeyTransport) : KeyHost Rsa :=
  { st with transports := Function.update st.transports t (some transport) }

-- What RSA_sign leaves; nothing if it fails.
def adbAuthSign (rsa : Rsa) (token : Bytes) : Bytes := (rsaSign rsa token).getD []

-- A packet without data is put back.
def sent (data : Bytes) : Option Bytes := if data = [] then none else some data

def sendAuthResponse (st : KeyHost Rsa) (t : Nat) (token : Bytes) : Except Stop (KeyHost Rsa) := do
  let transport ← st.deref t
  match transport.key.bind st.store.nodeToItem with
  | none => .error .brokenList
  | some rsa => return st.note t (.signature rsa (sent (adbAuthSign rsaSign rsa token)))

-- What load_file gives for the public key, with a NUL behind it. Nothing if there is no
-- such file or no room for it.
def adbAuthGetUserkey (file : Option Bytes) (len : Nat) : Bytes :=
  match file with
  | none => []
  | some data => if len < data.length + 1 then [] else data ++ [0]

def sendAuthPublickey (st : KeyHost Rsa) (t : Nat) (file : Option Bytes) : KeyHost Rsa :=
  st.note t (.publickey (sent (adbAuthGetUserkey file MAX_PAYLOAD)))

def handleToken (st : KeyHost Rsa) (t : Nat) (token : Bytes) (file : Option Bytes) :
    Except Stop (KeyHost Rsa) := do
  let transport ← st.deref t
  let key ← st.store.adbAuthNextkey transport.key
  let st := st.put t { transport with key }
  if key.isSome then sendAuthResponse rsaSign st t token
  else return sendAuthPublickey st t file

-- adb_auth_verify and adb_auth_generate_token give 0 here, and adb_auth_confirm_key
-- does nothing.
def handleAuth (st : KeyHost Rsa) (t : Nat) (p : Packet) (file : Option Bytes) :
    Except Stop (KeyHost Rsa) :=
  if p.arg0 = ADB_AUTH_TOKEN then handleToken rsaSign st t p.payload file
  else if p.arg0 = ADB_AUTH_SIGNATURE then do
    let transport ← st.deref t
    return st.put t { transport with failedAuthAttempts := transport.failedAuthAttempts + 1 }
  else .ok st

-- The other packets leave the key of the transport as it is.
def handlePacket (st : KeyHost Rsa) (t : Nat) (p : Packet) (file : Option Bytes) :
    Except Stop (KeyHost Rsa) := do
  let _ ← st.deref t
  if p.command = A_AUTH then handleAuth rsaSign st t p file
  else return st

-- A transport, or the end of one; or a packet, with the user's public key as load_file
-- finds it then.
inductive Input where
  | register
  | remove (t : Nat)
  | packet (t : Nat) (p : Packet) (file : Option Bytes)

-- register_socket_transport and register_usb_transport get their memory from calloc.
def step (st : KeyHost Rsa) : Input → Except Stop (KeyHost Rsa)
  | .register =>
      .ok { st.put st.nextTransport ⟨none, 0⟩ with nextTransport := st.nextTransport + 1 }
  | .remove t => .ok { st with transports := Function.update st.transports t none }
  | .packet t p file =>
      if (st.transports t).isSome then handlePacket rsaSign st t p file
      else .error .disabled

def init (store : KeyStore Rsa) : KeyHost Rsa := ⟨store, fun _ => none, 0, []⟩

end KeyHost

section Answers

-- A token that comes in on t, with the user's public key at that time.
def tokenTo (t : Nat) : KeyHost.Input → Option (Bytes × Option Bytes)
  | .packet u p file =>
      if u = t ∧ p.command = A_AUTH ∧ p.arg0 = ADB_AUTH_TOKEN then some (p.payload, file) else none
  | _ => none

def answersTo (t : Nat) (log : List (Nat × Answer Rsa)) : List (Answer Rsa) :=
  log.filterMap fun entry => if entry.1 = t then some entry.2 else none

-- The answer to a token that comes after j others: a signature with the key whose turn
-- it is, and the public key behind the last of them.
def answerInTurn (rsas : List Rsa) (j : Nat) (token : Bytes × Option Bytes) : Answer Rsa :=
  match cursorAt rsas (j + 1) with
  | some rsa => .signature rsa (KeyHost.sent (KeyHost.adbAuthSign rsaSign rsa token.1))
  | none => .publickey (KeyHost.sent (KeyHost.adbAuthGetUserkey token.2 MAX_PAYLOAD))

-- Every token is answered in its turn, and no more signatures than there are keys come
-- one after the other.
structure AnsweredInTurn (rsas : List Rsa) (tokens : List (Bytes × Option Bytes))
    (answers : List (Answer Rsa)) : Prop where
  answers_eq : answers = tokens.mapIdx (answerInTurn rsaSign rsas)
  bounded : ∀ before between after, answers = before ++ between ++ after →
    (∀ answer ∈ between, answer.isSignature = true) → between.length ≤ rsas.length

variable {rsaSign} {st after : KeyHost Rsa} {t u : Nat} {log : List (Nat × Answer Rsa)}

theorem isSignature_answerInTurn {rsas : List Rsa} {j : Nat} {token : Bytes × Option Bytes}
    (h : (answerInTurn rsaSign rsas j token).isSignature = true) :
    cursorAt rsas (j + 1) ≠ none := by
  intro hnone
  rw [answerInTurn, hnone] at h
  cases h

theorem answered_in_turn (rsas : List Rsa) (tokens : List (Bytes × Option Bytes)) :
    AnsweredInTurn rsaSign rsas tokens (tokens.mapIdx (answerInTurn rsaSign rsas)) where
  answers_eq := rfl
  bounded before between after hsplit hsigned := by
    refine stretch_le (j := before.length) fun i hi => ?_
    have hlen := congrArg List.length hsplit
    simp only [List.length_mapIdx, List.length_append] at hlen
    have hin : before.length + i < tokens.length := by omega
    have hget : (tokens.mapIdx (answerInTurn rsaSign rsas))[before.length + i]? =
        some between[i] := by
      rw [hsplit, List.append_assoc, List.getElem?_append_right (by omega), Nat.add_sub_cancel_left,
        List.getElem?_append_left hi, List.getElem?_eq_getElem hi]
    rw [List.getElem?_mapIdx, List.getElem?_eq_getElem hin, Option.map_some,
      Option.some.injEq] at hget
    exact isSignature_answerInTurn (hget ▸ hsigned _ (List.getElem_mem hi))

@[simp] theorem answersTo_append (log : List (Nat × Answer Rsa)) (answer : Answer Rsa) :
    answersTo t (log ++ [(u, answer)]) = answersTo t log ++ if u = t then [answer] else [] := by
  unfold answersTo
  rw [List.filterMap_append]
  by_cases hu : u = t <;> simp [hu]

-- What holds between two steps: a transport's key is the one of its last answer.
structure InTurn (st : KeyHost Rsa) : Prop where
  stored : st.store.Stored
  key : ∀ t x, st.transports t = some x →
    x.key = cursorAt st.store.nodes (answersTo t st.log).length
  known : ∀ t x, st.transports t = some x → t < st.nextTransport
  fresh : ∀ t, st.nextTransport ≤ t → answersTo t st.log = []

-- One step answers a token, and nothing else.
structure Answers (rsaSign : Rsa → Bytes → Option Bytes) (st : KeyHost Rsa) (input : KeyHost.Input)
    (after : KeyHost Rsa) : Prop where
  inTurn : InTurn after
  store : after.store = st.store
  answers : ∀ t, answersTo t after.log = answersTo t st.log ++
    ((tokenTo t input).map (answerInTurn rsaSign st.store.rsas (answersTo t st.log).length)).toList

theorem inTurn_init {store : KeyStore Rsa} (h : store.Stored) : InTurn (KeyHost.init store) := by
  constructor
  · exact h
  · rintro t x ⟨⟩
  · rintro t x ⟨⟩
  · intro t _
    rfl

theorem put_cases {y z : KeyTransport} (h : (st.put t y).transports u = some z) :
    (u = t ∧ z = y) ∨ (u ≠ t ∧ st.transports u = some z) := by
  by_cases hu : u = t
  · subst hu
    simp only [KeyHost.put, Function.update_self, Option.some.injEq] at h
    exact .inl ⟨rfl, h.symm⟩
  · simp only [KeyHost.put, Function.update_of_ne hu] at h
    exact .inr ⟨hu, h⟩

theorem InTurn.known_put {x y z : KeyTransport} (h : InTurn st) (hx : st.transports t = some x)
    (hz : (st.put t y).transports u = some z) : u < st.nextTransport := by
  obtain ⟨rfl, -⟩ | ⟨-, hz⟩ := put_cases hz
  · exact h.known u x hx
  · exact h.known u z hz

-- The transport is written back with its key as it was.
theorem InTurn.put {x y : KeyTransport} (h : InTurn st) (hx : st.transports t = some x)
    (hkey : y.key = x.key) :
    InTurn (st.put t y) where
  stored := h.stored
  key := by
    intro u z hz
    obtain ⟨rfl, rfl⟩ | ⟨-, hz⟩ := put_cases hz
    · exact hkey.trans (h.key u x hx)
    · exact h.key u z hz
  known u z hz := h.known_put hx hz
  fresh := h.fresh

theorem InTurn.quiet {input : KeyHost.Input} (h : InTurn after) (hstore : after.store = st.store)
    (hlog : after.log = st.log) (hnone : ∀ t, tokenTo t input = none) :
    Answers rsaSign st input after where
  inTurn := h
  store := hstore
  answers t := by rw [hlog, hnone, Option.map_none, Option.toList_none, List.append_nil]

theorem InTurn.remove (h : InTurn st) (t : Nat) :
    InTurn { st with transports := Function.update st.transports t none } := by
  have hothers : ∀ u x, Function.update st.transports t none u = some x →
      st.transports u = some x := by
    intro u x hx
    by_cases hu : u = t
    · simp [hu] at hx
    · rwa [Function.update_of_ne hu] at hx
  exact ⟨h.stored, fun u x hx => h.key u x (hothers u x hx),
    fun u x hx => h.known u x (hothers u x hx), h.fresh⟩

theorem InTurn.register (h : InTurn st) :
    InTurn { st.put st.nextTransport ⟨none, 0⟩ with nextTransport := st.nextTransport + 1 } where
  stored := h.stored
  key := by
    intro u x hx
    obtain ⟨rfl, rfl⟩ | ⟨-, hx⟩ := put_cases hx
    · simp only [KeyHost.put, h.fresh _ (Nat.le_refl _), List.length_nil, cursorAt_zero]
    · exact h.key u x hx
  known := by
    intro u x hx
    obtain ⟨rfl, -⟩ | ⟨-, hx⟩ := put_cases hx
    · exact Nat.lt_succ_self _
    · exact Nat.lt_succ_of_lt (h.known u x hx)
  fresh t ht := h.fresh t (Nat.le_of_succ_le ht)

-- The branch for a token moves the key on, and the answer is the one whose turn it is.
theorem handleToken_answers (rsaSign : Rsa → Bytes → Option Bytes) {x : KeyTransport}
    (h : InTurn st)
    (hx : st.transports t = some x) (token : Bytes) (file : Option Bytes) :
    ∃ y, y.key = cursorAt st.store.nodes ((answersTo t st.log).length + 1) ∧
      KeyHost.handleToken rsaSign st t token file =
        .ok ((st.put t y).note t
          (answerInTurn rsaSign st.store.rsas (answersTo t st.log).length (token, file))) := by
  have hnext := (KeyStore.adbAuthNextkey_follows h.stored).step (answersTo t st.log).length
  have hitem := st.store.item_at ((answersTo t st.log).length + 1)
  refine ⟨{ x with key := cursorAt st.store.nodes ((answersTo t st.log).length + 1) }, rfl, ?_⟩
  simp only [KeyHost.handleToken, KeyHost.deref, hx, h.key t x hx, hnext, bind, Except.bind]
  unfold answerInTurn
  cases hkey : cursorAt st.store.nodes ((answersTo t st.log).length + 1) with
  | none =>
      rw [hkey, Option.map_none, eq_comm, Option.map_eq_none_iff] at hitem
      rw [hitem]
      rfl
  | some key =>
      rw [hkey, Option.map_some, eq_comm, Option.map_eq_some_iff] at hitem
      obtain ⟨rsa, hrsa, hkeyrsa⟩ := hitem
      rw [hrsa]
      simp only [Option.isSome_some, if_true, KeyHost.sendAuthResponse, KeyHost.deref, KeyHost.put,
        Function.update_self, bind, Except.bind, Option.bind_some, ← hkeyrsa]
      rfl

-- So the transport's key is again that of its last answer, and no other transport is
-- answered.
theorem InTurn.answered {x y : KeyTransport} (h : InTurn st) (hx : st.transports t = some x)
    (hy : y.key = cursorAt st.store.nodes ((answersTo t st.log).length + 1)) (answer : Answer Rsa) :
    InTurn ((st.put t y).note t answer) where
  stored := h.stored
  key := by
    intro u z hz
    simp only [KeyHost.note, answersTo_append]
    obtain ⟨rfl, rfl⟩ | ⟨hu, hz⟩ := put_cases hz
    · rw [hy, if_pos rfl, List.length_append, List.length_singleton]
      rfl
    · rw [if_neg (Ne.symm hu), List.append_nil]
      exact h.key u z hz
  known u z hz := h.known_put hx hz
  fresh := by
    intro u hu
    have hne : t ≠ u := by
      rintro rfl
      exact Nat.lt_irrefl _ (Nat.lt_of_lt_of_le (h.known t x hx) hu)
    simp only [KeyHost.note, answersTo_append, if_neg hne, List.append_nil]
    exact h.fresh u hu

theorem handlePacket_answers (rsaSign : Rsa → Bytes → Option Bytes) {x : KeyTransport}
    (h : InTurn st)
    (hx : st.transports t = some x) (p : Packet) (file : Option Bytes) :
    ∃ after, KeyHost.handlePacket rsaSign st t p file = .ok after ∧
      Answers rsaSign st (.packet t p file) after := by
  simp only [KeyHost.handlePacket, KeyHost.handleAuth, KeyHost.deref, hx, bind, Except.bind]
  by_cases hcommand : p.command = A_AUTH
  · rw [if_pos hcommand]
    by_cases htoken : p.arg0 = ADB_AUTH_TOKEN
    · obtain ⟨y, hy, hrun⟩ := handleToken_answers rsaSign h hx p.payload file
      refine ⟨_, by rw [if_pos htoken, hrun], h.answered hx hy _, rfl, fun u => ?_⟩
      simp only [KeyHost.note, answersTo_append, tokenTo, hcommand, htoken, and_true]
      by_cases hu : t = u
      · subst hu
        simp [KeyHost.put]
      · simp [hu, KeyHost.put]
    · have hnone : ∀ u, tokenTo u (.packet t p file) = none := by
        intro u
        simp [tokenTo, htoken]
      rw [if_neg htoken]
      by_cases hsig : p.arg0 = ADB_AUTH_SIGNATURE
      · have hput := h.put (y := { x with failedAuthAttempts := x.failedAuthAttempts + 1 }) hx rfl
        exact ⟨_, by rw [if_pos hsig]; rfl, hput.quiet rfl rfl hnone⟩
      · exact ⟨st, by rw [if_neg hsig], h.quiet rfl rfl hnone⟩
  · refine ⟨st, by rw [if_neg hcommand]; rfl, h.quiet rfl rfl fun u => ?_⟩
    simp [tokenTo, hcommand]

-- Nothing stops a step but that the transport is not there.
theorem step_answers (rsaSign : Rsa → Bytes → Option Bytes) (h : InTurn st)
    (input : KeyHost.Input) :
    Ensures (KeyHost.step rsaSign st input) (Answers rsaSign st input) (· = .disabled) := by
  cases input with
  | register => exact h.register.quiet rfl rfl fun _ => rfl
  | remove t => exact (h.remove t).quiet rfl rfl fun _ => rfl
  | packet t p file =>
      simp only [KeyHost.step]
      cases hx : st.transports t with
      | none => rfl
      | some x =>
          obtain ⟨after, hrun, hanswers⟩ := handlePacket_answers rsaSign h hx p file
          rw [Option.isSome_some, if_pos rfl, hrun]
          exact hanswers

theorem run_answers (h : InTurn st) (inputs : List KeyHost.Input) :
    Ensures (run (KeyHost.step rsaSign) st inputs)
      (fun after => ∀ t, answersTo t after.log = answersTo t st.log ++
        (inputs.filterMap (tokenTo t)).mapIdx
          fun i => answerInTurn rsaSign st.store.rsas ((answersTo t st.log).length + i))
      (· = .disabled) := by
  induction inputs generalizing st with
  | nil => exact fun t => (List.append_nil _).symm
  | cons input inputs ih =>
      have hstep := step_answers rsaSign h input
      simp only [run]
      cases hrun : KeyHost.step rsaSign st input with
      | error e =>
          rw [hrun] at hstep
          exact hstep
      | ok mid =>
          rw [hrun] at hstep
          refine (ih hstep.inTurn).weaken fun after hafter t => ?_
          rw [hafter t, hstep.answers t, hstep.store]
          cases htoken : tokenTo t input with
          | none => simp [htoken]
          | some token =>
              simp [htoken, List.mapIdx_cons, Nat.add_assoc, Nat.add_comm 1]

-- The calls of adb_auth_nextkey go through the keys once, and a transport that asks for
-- signatures gets them in that order, with the public key after the last.
theorem keys_in_turn (rsaSign : Rsa → Bytes → Option Bytes) (files : List (Option Rsa)) :
    ∃ store nodes, readKeys files = .ok store ∧ store.rsas = files.filterMap id ∧
      store.Iterates nodes ∧
      ∀ inputs, Ensures (run (KeyHost.step rsaSign) (.init store) inputs)
        (fun st => ∀ t, AnsweredInTurn rsaSign store.rsas (inputs.filterMap (tokenTo t))
          (answersTo t st.log))
        (· = .disabled) := by
  obtain ⟨store, hread, hstored, hrsas⟩ := KeyStore.readKeys_stored files
  refine ⟨store, store.nodes, hread, hrsas, hstored.iterates, fun inputs => ?_⟩
  refine (run_answers (inTurn_init hstored) inputs).weaken fun st hst t => ?_
  have hlog : answersTo t st.log =
      (inputs.filterMap (tokenTo t)).mapIdx (answerInTurn rsaSign store.rsas) := by
    rw [hst t]
    simp [KeyHost.init, answersTo]
  rw [hlog]
  exact answered_in_turn _ _

end Answers

end Model

end Adb.Auth
