/-
DoubleRatchet/Proofs/Footprints.lean

What operations have in common, and what follows if it is nothing.

A store is a set of cells, besides the keys of the device itself.  Every request reads some
cells and writes some; what it reads decides its answer, what it writes does not depend on
the store, and the rest stays as it is.  So two requests commute if neither writes what the
other reads or writes, and so do two programs, request by request:

    x  ── q ── q ── q ──►                 y  ── q' ── q' ──►
                       y  ── q' ── q' ──►                   x  ── q ── q ── q ──►

An operation on a peer writes the session and the identity of that peer, and at most one
one-time pre-key; an operation on a group sender writes the chains of that sender.  What
else they read, nobody writes.  So operations on different peers, or on different senders,
commute, and neither changes anything of the other (`operations_commute`).
-/
import DoubleRatchet.Proofs.Requests

namespace DoubleRatchet

open Std (ExtTreeMap)

/-! ### Cells -/

/-- A place in a store. -/
inductive Cell where
  | identity (peer : Address)
  | preKey (id : UInt32)
  | signedPreKey (id : UInt32)
  | session (peer : Address)
  | senderKey (sender : GroupSender)

/-- What is kept in a place. -/
@[reducible] def Cell.Content : Cell → Type
  | identity _ => PublicKey
  | preKey _ => PreKey
  | signedPreKey _ => SignedPreKey
  | session _ => SessionRecord
  | senderKey _ => GroupRecord

namespace Store

/-- What is in a cell. -/
def at? (s : Store) : (cell : Cell) → Option cell.Content
  | .identity peer => s.identities[peer]?
  | .preKey id => s.preKeys[id]?
  | .signedPreKey id => s.signedPreKeys[id]?
  | .session peer => s.sessions[peer]?
  | .senderKey sender => s.senderKeys[sender]?

/-- The stores of one device. -/
def SameDevice (s s' : Store) : Prop := s.identity = s'.identity ∧ s.registrationId = s'.registrationId

theorem SameDevice.trans {s₁ s₂ s₃ : Store} (h : s₁.SameDevice s₂) (h' : s₂.SameDevice s₃) :
    s₁.SameDevice s₃ := ⟨h.1.trans h'.1, h.2.trans h'.2⟩

theorem SameDevice.symm {s s' : Store} (h : s.SameDevice s') : s'.SameDevice s :=
  ⟨h.1.symm, h.2.symm⟩

/-- Stores of one device with the same cells are the same. -/
theorem eq_of_at? {s s' : Store} (device : s.SameDevice s') (cells : ∀ cell, s.at? cell = s'.at? cell) :
    s = s' := by
  have identities := ExtTreeMap.ext_getElem? fun peer => cells (.identity peer)
  have preKeys := ExtTreeMap.ext_getElem? fun id => cells (.preKey id)
  have signedPreKeys := ExtTreeMap.ext_getElem? fun id => cells (.signedPreKey id)
  have sessions := ExtTreeMap.ext_getElem? fun peer => cells (.session peer)
  have senderKeys := ExtTreeMap.ext_getElem? fun sender => cells (.senderKey sender)
  obtain ⟨identity, registrationId⟩ := device
  cases s; cases s'
  simp_all

end Store

/-! ### Requests -/

namespace StoreRequest

/-- The cells that decide the answer to a request. -/
def Reads : StoreRequest → Cell → Prop
  | saveIdentity peer _, cell | isTrusted peer _ _, cell | getIdentity peer, cell =>
    .identity peer = cell
  | loadPreKey id, cell | containsPreKey id, cell => .preKey id = cell
  | loadSignedPreKey id, cell | containsSignedPreKey id, cell => .signedPreKey id = cell
  | loadSignedPreKeys, cell => ∃ id, .signedPreKey id = cell
  | loadSession peer, cell | containsSession peer, cell => .session peer = cell
  | subDevices _, cell => ∃ peer, .session peer = cell
  | loadSenderKey sender, cell => .senderKey sender = cell
  | _, _ => False

/-- The cells that a request changes. -/
def Writes : StoreRequest → Cell → Prop
  | saveIdentity peer _, cell => .identity peer = cell
  | storePreKey id _, cell | removePreKey id, cell => .preKey id = cell
  | storeSignedPreKey id _, cell | removeSignedPreKey id, cell => .signedPreKey id = cell
  | storeSession peer _, cell | deleteSession peer, cell => .session peer = cell
  | deleteAllSessions name, cell => ∃ peer : Address, peer.name = name ∧ .session peer = cell
  | storeSenderKey sender _, cell => .senderKey sender = cell
  | _, _ => False

variable {q q' : StoreRequest} {s s' : Store} {cell : Cell}

theorem sameDevice_answer (q : StoreRequest) (s : Store) : (s.answer q).2.SameDevice s := by
  cases q <;> exact ⟨rfl, rfl⟩

/-- A cell that is not written stays as it is. -/
theorem at?_answer_of_not_writes (h : ¬q.Writes cell) : (s.answer q).2.at? cell = s.at? cell := by
  cases q with
  | deleteAllSessions name =>
    cases cell with
    | session peer =>
      have other : (peer.name != name) = true := bne_iff_ne.mpr fun same => h ⟨peer, same, rfl⟩
      show (s.sessions.filter _)[peer]? = s.sessions[peer]?
      rw [ExtTreeMap.getElem?_filter', other]
      cases s.sessions[peer]? <;> rfl
    | _ => rfl
  | _ =>
    cases cell <;>
      simp_all [Writes, Store.answer, Store.at?, Store.saveIdentity, Store.storeSession,
        ExtTreeMap.getElem?_insert, ExtTreeMap.getElem?_erase]

/-- What is written in a cell does not depend on the store. -/
theorem at?_answer_of_writes (h : q.Writes cell) :
    (s.answer q).2.at? cell = (s'.answer q).2.at? cell := by
  cases q <;> cases cell <;>
    simp_all [Writes, Store.answer, Store.at?, Store.saveIdentity, Store.storeSession,
      Store.deleteAllSessions]

/-- The answer depends on nothing but the cells that are read. -/
theorem answer_eq_of_reads (device : s.SameDevice s')
    (same : ∀ cell, q.Reads cell → s.at? cell = s'.at? cell) : (s.answer q).1 = (s'.answer q).1 := by
  cases q with
  | identityKeyPair => exact congrArg Except.ok device.1
  | registrationId => exact congrArg Except.ok device.2
  | saveIdentity peer _ | isTrusted peer _ _ | getIdentity peer =>
    have kept : s.identities[peer]? = s'.identities[peer]? := same (.identity peer) rfl
    simp only [Store.answer, Store.isTrusted, kept]
  | loadPreKey id | containsPreKey id =>
    have kept : s.preKeys[id]? = s'.preKeys[id]? := same (.preKey id) rfl
    simp only [Store.answer, Store.loadPreKey, ExtTreeMap.contains_eq_isSome_getElem?, kept]
  | loadSignedPreKey id | containsSignedPreKey id =>
    have kept : s.signedPreKeys[id]? = s'.signedPreKeys[id]? := same (.signedPreKey id) rfl
    simp only [Store.answer, Store.loadSignedPreKey, ExtTreeMap.contains_eq_isSome_getElem?, kept]
  | loadSession peer | containsSession peer =>
    have kept : s.sessions[peer]? = s'.sessions[peer]? := same (.session peer) rfl
    simp only [Store.answer, Store.loadSession, ExtTreeMap.contains_eq_isSome_getElem?, kept]
  | loadSenderKey sender =>
    have kept : s.senderKeys[sender]? = s'.senderKeys[sender]? := same (.senderKey sender) rfl
    simp only [Store.answer, Store.loadSenderKey, kept]
  | loadSignedPreKeys =>
    have kept : s.signedPreKeys = s'.signedPreKeys :=
      ExtTreeMap.ext_getElem? fun id => same (.signedPreKey id) ⟨id, rfl⟩
    simp only [Store.answer, Store.allSignedPreKeys, kept]
  | subDevices name =>
    have kept : s.sessions = s'.sessions :=
      ExtTreeMap.ext_getElem? fun peer => same (.session peer) ⟨peer, rfl⟩
    simp only [Store.answer, Store.subDevices, kept]
  | _ => rfl

/-- Neither request writes what the other reads or writes. -/
structure Apart (q q' : StoreRequest) : Prop where
  left : ∀ cell, q.Writes cell → ¬q'.Reads cell ∧ ¬q'.Writes cell
  right : ∀ cell, q'.Writes cell → ¬q.Reads cell ∧ ¬q.Writes cell

theorem Apart.symm (h : q.Apart q') : q'.Apart q := ⟨h.right, h.left⟩

/-- A request is answered after another one as it is before it. -/
theorem Apart.answer_eq (h : q.Apart q') (s : Store) :
    ((s.answer q').2.answer q).1 = (s.answer q).1 :=
  answer_eq_of_reads (sameDevice_answer q' s) fun cell reads =>
    at?_answer_of_not_writes fun writes => (h.right cell writes).1 reads

/-- Two requests leave the same store in either order. -/
theorem Apart.store_eq (h : q.Apart q') (s : Store) :
    ((s.answer q').2.answer q).2 = ((s.answer q).2.answer q').2 := by
  have device (first second : StoreRequest) : ((s.answer first).2.answer second).2.SameDevice s :=
    (sameDevice_answer second _).trans (sameDevice_answer first s)
  refine Store.eq_of_at? ((device q' q).trans (device q q').symm) fun cell => ?_
  -- the cell has what the one request that writes it has written, or what it has had
  by_cases writes : q.Writes cell
  · rw [at?_answer_of_not_writes (h.left cell writes).2]
    exact at?_answer_of_writes writes
  · rw [at?_answer_of_not_writes writes]
    by_cases writes' : q'.Writes cell
    · exact at?_answer_of_writes writes'
    · rw [at?_answer_of_not_writes writes', at?_answer_of_not_writes writes',
        at?_answer_of_not_writes writes]

end StoreRequest

/-! ### Programs -/

section
variable {α β : Type} {x : Program α} {y : Program β} {q : StoreRequest} {cell : Cell}

/-- Run a program on a site. -/
def Program.alone (app : App) (x : Program α) (s : Site) : α × Site :=
  (x.run (Site.around app)).run s

variable (app app' : App) (s : Store) (e e' : Entropy)

/-- A program leaves the keys of the device itself as they are. -/
theorem Program.sameDevice_alone (x : Program α) (s : Site) :
    (x.alone app s).2.store.SameDevice s.store := by
  induction x generalizing s with
  | done a => exact ⟨rfl, rfl⟩
  | draw x next ih => exact ih _ _
  | ask r next ih =>
    cases r with
    | store q => exact (ih _ _).trans (StoreRequest.sameDevice_answer q s.store)
    | deliver _ | acquire _ _ | release _ => exact ih _ _

/-- What a program does not write stays as it is. -/
theorem Program.at?_alone (hx : x.Asks fun r => ∀ q, r = .store q → ¬q.Writes cell) :
    (x.alone app ⟨s, e⟩).2.store.at? cell = s.at? cell := by
  induction x generalizing s e with
  | done a => rfl
  | draw x next ih => exact ih _ s _ (hx _)
  | ask r next ih =>
    cases r with
    | store q =>
      exact (ih _ _ e (hx.2 _)).trans (StoreRequest.at?_answer_of_not_writes (hx.1 q rfl))
    | deliver _ | acquire _ _ | release _ => exact ih _ s e (hx.2 _)

/-- A request that is apart from all requests of a program may as well come before it. -/
theorem Program.alone_answer (hx : x.Asks fun r => ∀ q', r = .store q' → q.Apart q') :
    let t := x.alone app ⟨s, e⟩
    (t.2.store.answer q).1 = (s.answer q).1 ∧
      x.alone app ⟨(s.answer q).2, e⟩ = (t.1, ⟨(t.2.store.answer q).2, t.2.entropy⟩) := by
  induction x generalizing s e with
  | done a => exact ⟨rfl, rfl⟩
  | draw x next ih => exact ih _ s _ (hx _)
  | ask r next ih =>
    cases r with
    | store q' =>
      have apart := hx.1 q' rfl
      obtain ⟨reply, rest⟩ := ih _ (s.answer q').2 e (hx.2 _)
      refine ⟨reply.trans (apart.answer_eq s), ?_⟩
      show (next ((s.answer q).2.answer q').1).alone app ⟨((s.answer q).2.answer q').2, e⟩ = _
      rw [apart.symm.answer_eq, ← apart.store_eq]
      exact rest
    | deliver _ | acquire _ _ | release _ => exact ih _ s e (hx.2 _)

/-- Programs whose requests are apart have the same results in either order, and leave the same store
and the same random bytes. -/
theorem Program.alone_comm {p p' : Request → Prop} (hx : x.Asks p) (hy : y.Asks p')
    (apart : ∀ q q', p (.store q) → p' (.store q') → q.Apart q') :
    let tx := x.alone app ⟨s, e⟩
    let ty := y.alone app' ⟨s, e'⟩
    ∃ both, x.alone app ⟨ty.2.store, e⟩ = (tx.1, ⟨both, tx.2.entropy⟩) ∧
      y.alone app' ⟨tx.2.store, e'⟩ = (ty.1, ⟨both, ty.2.entropy⟩) := by
  induction x generalizing s e with
  | done a => exact ⟨_, rfl, rfl⟩
  | draw x next ih => exact ih _ s _ (hx _)
  | ask r next ih =>
    cases r with
    | store q =>
      -- the first request passes the other program, and the rest does by induction
      have passes : y.Asks fun r => ∀ q', r = .store q' → q.Apart q' :=
        hy.mono fun r allowed q' same => apart q q' hx.1 (same ▸ allowed)
      obtain ⟨reply, rest⟩ := Program.alone_answer app' s e' passes
      obtain ⟨both, first, second⟩ := ih _ (s.answer q).2 e (hx.2 _)
      rw [rest] at first second
      refine ⟨both, ?_, second⟩
      show (next ((y.alone app' ⟨s, e'⟩).2.store.answer q).1).alone app _ = _
      rw [reply]
      exact first
    | deliver _ | acquire _ _ | release _ => exact ih _ s e (hx.2 _)

end

/-! ### Operations -/

/-- The one-time pre-key that a call names. -/
def Call.preKeyId? : Call → Option UInt32
  | decryptPreKey m => m.preKeyId
  | _ => none

namespace Operation

/-- What an operation may write. -/
def Writes : Operation → Cell → Prop
  | session peer c, cell =>
    .session peer = cell ∨ .identity peer = cell ∨ ∃ id, c.preKeyId? = some id ∧ .preKey id = cell
  | group sender _, cell => .senderKey sender = cell

/-- Operations on different peers, or on different group senders.  Two calls of peers may not name
the same one-time pre-key. -/
def Apart : Operation → Operation → Prop
  | session peer c, session peer' c' =>
    peer ≠ peer' ∧ ∀ id, c.preKeyId? = some id → c'.preKeyId? ≠ some id
  | group sender _, group sender' _ => sender ≠ sender'
  | _, _ => True

variable {op op' : Operation}

theorem Apart.symm (h : op.Apart op') : op'.Apart op := by
  cases op <;> cases op'
  · exact ⟨h.1.symm, fun id named' named => h.2 id named named'⟩
  · trivial
  · trivial
  · exact Ne.symm h

theorem Apart.not_writes {cell : Cell} (h : op.Apart op') (writes : op.Writes cell) :
    ¬op'.Writes cell := by
  intro writes'
  cases op <;> cases op'
  · rcases writes with rfl | rfl | ⟨id, named, rfl⟩ <;>
      rcases writes' with same | same | ⟨id', named', same⟩ <;> cases same
    · exact h.1 rfl
    · exact h.1 rfl
    · exact h.2 id named named'
  · cases writes'
    rcases writes with same | same | ⟨_, _, same⟩ <;> cases same
  · cases writes
    rcases writes' with same | same | ⟨_, _, same⟩ <;> cases same
  · cases writes
    cases writes'
    exact h rfl

/-- An operation writes what is its own, and reads that and signed pre-keys. -/
theorem cells_of_mayAsk {q : StoreRequest} {cell : Cell} (h : op.MayAsk (.store q)) :
    (q.Writes cell → op.Writes cell) ∧
      (q.Reads cell → op.Writes cell ∨ ∃ id, .signedPreKey id = cell) := by
  cases op with
  | session peer c =>
    cases q with
    | identityKeyPair | registrationId => exact ⟨False.elim, False.elim⟩
    | loadSession other | containsSession other =>
      obtain rfl : other = peer := h
      exact ⟨False.elim, fun same => .inl (.inl same)⟩
    | storeSession other _ =>
      obtain rfl : other = peer := h
      exact ⟨.inl, False.elim⟩
    | isTrusted other _ _ =>
      obtain rfl : other = peer := h
      exact ⟨False.elim, fun same => .inl (.inr (.inl same))⟩
    | saveIdentity other _ =>
      obtain rfl : other = peer := h
      exact ⟨fun same => .inr (.inl same), fun same => .inl (.inr (.inl same))⟩
    | loadSignedPreKey id => exact ⟨False.elim, fun same => .inr ⟨id, same⟩⟩
    | loadPreKey id =>
      obtain ⟨m, rfl, named⟩ := h
      exact ⟨False.elim, fun same => .inl (.inr (.inr ⟨id, named, same⟩))⟩
    | removePreKey id =>
      obtain ⟨m, rfl, named⟩ := h
      exact ⟨fun same => .inr (.inr ⟨id, named, same⟩), False.elim⟩
    | _ => exact h.elim
  | group sender c =>
    cases q with
    | loadSenderKey other =>
      obtain rfl : other = sender := h
      exact ⟨False.elim, .inl⟩
    | storeSenderKey other _ =>
      obtain rfl : other = sender := h
      exact ⟨id, False.elim⟩
    | _ => exact h.elim

/-- No operation writes a signed pre-key. -/
theorem not_writes_signedPreKey {id : UInt32} : ¬op.Writes (.signedPreKey id) := by
  cases op with
  | session peer c => rintro (same | same | ⟨_, _, same⟩) <;> cases same
  | group sender c => exact nofun

/-- What one operation may write, the other neither reads nor writes. -/
theorem Apart.spares (h : op.Apart op') {q : StoreRequest} {cell : Cell} (writes : op.Writes cell)
    (asks : op'.MayAsk (.store q)) : ¬q.Reads cell ∧ ¬q.Writes cell := by
  constructor
  · intro reads
    rcases (cells_of_mayAsk asks).2 reads with writes' | ⟨id, rfl⟩
    · exact h.not_writes writes writes'
    · exact not_writes_signedPreKey writes
  · intro writes'
    exact h.not_writes writes ((cells_of_mayAsk asks).1 writes')

/-- Operations that are apart ask for nothing in common that either writes. -/
theorem Apart.requests (h : op.Apart op') {q q' : StoreRequest} (asks : op.MayAsk (.store q))
    (asks' : op'.MayAsk (.store q')) : q.Apart q' where
  left _ writes := h.spares ((cells_of_mayAsk asks).1 writes) asks'
  right _ writes := h.symm.spares ((cells_of_mayAsk asks').1 writes) asks

/-- What the other operation may write stays as it is. -/
theorem Apart.at?_run (h : op.Apart op') {cell : Cell} (writes : op'.Writes cell) (S : Suite)
    (app : App) (s : Store) (e : Entropy) :
    (op.run S app ⟨s, e⟩).2.store.at? cell = s.at? cell := by
  refine Program.at?_alone app s e ((op.asks S).mono fun r asks q same => ?_)
  subst same
  exact (h.symm.spares writes asks).2

end Operation

/-- **Operations on different peers commute.** Two operations on different peers that do not name the
same one-time pre-key, or on different group senders, or one on a peer and one on a group sender, each
with random bytes of its own: whichever comes first, both have the same outcomes and leave the same
random bytes, failures included, and the store is the same in the end.  And neither changes what the
other may write: the session and the identity of its peer, or the chains of its sender. -/
theorem operations_commute (S : Suite) {op op' : Operation} (apart : op.Apart op') (app app' : App)
    (s : Store) (e e' : Entropy) :
    let first := op.run S app ⟨s, e⟩
    let second := op'.run S app' ⟨first.2.store, e'⟩
    let first' := op'.run S app' ⟨s, e'⟩
    let second' := op.run S app ⟨first'.2.store, e⟩
    (second'.1 = first.1 ∧ second'.2.entropy = first.2.entropy) ∧
    (second.1 = first'.1 ∧ second.2.entropy = first'.2.entropy) ∧
    second.2.store = second'.2.store ∧
    (∀ cell, op'.Writes cell → first.2.store.at? cell = s.at? cell) ∧
    (∀ cell, op.Writes cell → first'.2.store.at? cell = s.at? cell) := by
  obtain ⟨both, late, late'⟩ := Program.alone_comm app app' s e e' (op.asks S) (op'.asks S)
    fun q q' asks asks' => apart.requests asks asks'
  have late : op.run S app ⟨(op'.run S app' ⟨s, e'⟩).2.store, e⟩ = _ := late
  have late' : op'.run S app' ⟨(op.run S app ⟨s, e⟩).2.store, e'⟩ = _ := late'
  refine ⟨⟨?_, ?_⟩, ⟨?_, ?_⟩, ?_, ?_, ?_⟩
  · exact congrArg (·.1) late
  · exact congrArg (·.2.entropy) late
  · exact congrArg (·.1) late'
  · exact congrArg (·.2.entropy) late'
  · exact (congrArg (·.2.store) late').trans (congrArg (·.2.store) late).symm
  · exact fun cell writes => apart.at?_run writes S app s e
  · exact fun cell writes => apart.symm.at?_run writes S app' s e'

/-- The first message of a device is read as before after a session with another device of the same
name has been set up, and that session stays. -/
theorem operations_commute_devices :
    let op : Operation := .session ⟨"alice", 1⟩ (.decryptPreKey Toy.first)
    let op' : Operation := .session ⟨"alice", 2⟩ (.start (Toy.bundle none))
    let before : Site := ⟨Toy.bob.store, Toy.bob.entropy⟩
    let first' := op'.run Toy.suite accepting before
    let second' := op.run Toy.suite accepting ⟨first'.2.store, Toy.bob.entropy⟩
    op.Apart op' ∧ second'.1 = (op.run Toy.suite accepting before).1 ∧
      op.plain? Toy.suite accepting before = some [1] ∧
      second'.2.store.sessions.contains ⟨"alice", 2⟩ := by
  have apart : Operation.Apart (.session ⟨"alice", 1⟩ (.decryptPreKey Toy.first))
      (.session ⟨"alice", 2⟩ (.start (Toy.bundle none))) := ⟨by decide, fun _ _ => nofun⟩
  have commute := operations_commute Toy.suite apart accepting accepting Toy.bob.store
    Toy.bob.entropy Toy.bob.entropy
  exact ⟨apart, commute.1.1, by decide +kernel, by decide +kernel⟩

end DoubleRatchet
