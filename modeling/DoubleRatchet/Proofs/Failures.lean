/-
DoubleRatchet/Proofs/Failures.lean

What a failed operation leaves behind.

Whatever an operation has done to its copy of a record, nothing of it is stored when
the operation fails: sessions, pre-keys and group chains are as they were before
(`Operation.run_error`).  What may be left are random bytes that have been drawn, and
an identity that has been pinned before the failure.

So a message that could be read before can be read afterwards, to the same plaintext,
whatever random bytes are left for it, unless the failed operation has pinned another
identity for its sender (`failure_spares`).  A pre-key message pins the identity that
its envelope names before anything is decrypted: one that nobody has made can lock a
peer out that has never been heard of (`locked_out`).
-/
import DoubleRatchet.Proofs.GroupCalls
import DoubleRatchet.Proofs.Toy

namespace DoubleRatchet

/-! ### Whatever the random bytes are -/

section
variable {S : Suite} {m : RatchetMessage} {e e₁ : Entropy}

namespace SessionState

/-- What of a session decides how it reads a message of a receiver chain that is there. -/
def reading (st : SessionState) : List ReceiverChain × Option PublicKey × Option PublicKey :=
  (st.receiverChains, st.remoteIdentity, st.localIdentity)

/-- The plaintext that a session has made of a message, and whom it is from. -/
def heard : Bytes × SessionState → Bytes × Option PublicKey :=
  fun (plain, st) => (plain, st.remoteIdentity)

/-- Turning the ratchet with one key pair or another gives the same receiver chain. -/
theorem reach_alike (st : SessionState) (theirs : PublicKey) (dead : e₁.dead = e.dead) :
    ((st.reach S theirs).run e₁).1.map reading = ((st.reach S theirs).run e).1.map reading := by
  unfold reach
  split
  · rfl
  simp only [Draw.run_bind, Draw.run_liftExcept, S.run_drawKeyPair]
  cases needed .noRootKey st.rootKey with
  | error err => rfl
  | ok root =>
    cases needed .uninitialized st.senderChain with
    | error err => rfl
    | ok chain =>
      dsimp only
      rw [dead]
      cases e.dead <;> rfl

theorem decryptOn_alike {a b : SessionState} (same : a.reading = b.reading) :
    (a.decryptOn S m).map heard = (b.decryptOn S m).map heard := by
  simp only [reading, Prod.mk.injEq] at same
  obtain ⟨chains, remote, own⟩ := same
  have windows : a.window? m.ratchetKey = b.window? m.ratchetKey := by simp only [window?, chains]
  have opens : ∀ keys, a.openWith S m keys = b.openWith S m keys := by
    intro keys
    simp only [openWith, identities, remote, own]
  rw [decryptOn_eq_take, decryptOn_eq_take, windows]
  simp only [opens]
  cases needed .noReceiverChain (b.window? m.ratchetKey) with
  | error err => rfl
  | ok window =>
    show Except.map _ (window.take (ChainKey.rule S) m.counter >>= _)
      = Except.map _ (window.take (ChainKey.rule S) m.counter >>= _)
    rcases window.take (ChainKey.rule S) m.counter with err | ⟨keys, after⟩
    · rfl
    show Except.map _ (b.openWith S m keys >>= _) = Except.map _ (b.openWith S m keys >>= _)
    cases b.openWith S m keys with
    | error err => rfl
    | ok plain => exact congrArg (fun remote => Except.ok (plain, remote)) remote

/-- What a session makes of a message does not depend on what the random bytes are. -/
theorem decrypt_alike (st : SessionState) (dead : e₁.dead = e.dead) :
    ((st.decrypt S m).run e₁).1.map heard = ((st.decrypt S m).run e).1.map heard := by
  have same := st.reach_alike (S := S) m.ratchetKey dead
  rw [run_decrypt, run_decrypt]
  split
  · rfl
  split
  · rfl
  revert same
  rcases (st.reach S m.ratchetKey).run e₁ with ⟨err₁ | st₁, e₂⟩ <;>
    rcases (st.reach S m.ratchetKey).run e with ⟨err | st', e'⟩ <;> intro same
  · exact congrArg Except.error (Except.error.inj same)
  · cases same
  · cases same
  · exact decryptOn_alike (Except.ok.inj same)

end SessionState

open SessionState

/-- Which session reads a message, and what it makes of it, does not depend on what the random bytes
are. -/
theorem offer_alike (reasons : List String) (position : Nat) (sts : List SessionState)
    (dead : e₁.dead = e.dead) :
    ((offer S m reasons position sts).run e₁).1.map (fun (i, opened) => (i, heard opened))
      = ((offer S m reasons position sts).run e).1.map fun (i, opened) => (i, heard opened) := by
  induction sts generalizing reasons position e e₁ with
  | nil => rfl
  | cons st rest ih =>
    have same := st.decrypt_alike (S := S) (m := m) dead
    have after := (st.before_decrypt (S := S) m e).dead_eq
    have after₁ := (st.before_decrypt (S := S) m e₁).dead_eq
    rw [offer, Draw.run_bind, Draw.run_bind, Draw.run_attempt, Draw.run_attempt]
    revert same after after₁
    rcases (st.decrypt S m).run e₁ with ⟨err₁ | opened₁, e₁'⟩ <;>
      rcases (st.decrypt S m).run e with ⟨err | opened, e'⟩ <;> intro same after after₁
    · obtain rfl : err₁ = err := Except.error.inj same
      cases err₁ with
      | invalidMessage fault => exact ih _ _ (after₁.trans (dead.trans after.symm))
      | _ => rfl
    · cases same
    · cases same
    · exact congrArg (fun h => Except.ok (position, h)) (Except.ok.inj same)

theorem SessionRecord.decrypt_alike (r : SessionRecord) (dead : e₁.dead = e.dead) :
    ((r.decrypt S m).run e₁).1.map (fun (plain, r) => heard (plain, r.current))
      = ((r.decrypt S m).run e).1.map fun (plain, r) => heard (plain, r.current) := by
  have same := offer_alike (S := S) (m := m) [] 0 r.sessions dead
  rw [run_decrypt, run_decrypt]
  revert same
  rcases (offer S m [] 0 r.sessions).run e₁ with ⟨err₁ | ⟨i₁, plain₁, st₁⟩, e₁'⟩ <;>
    rcases (offer S m [] 0 r.sessions).run e with ⟨err | ⟨i, plain, st⟩, e'⟩ <;> intro same
  · exact congrArg Except.error (Except.error.inj same)
  · cases same
  · cases same
  · have opened := congrArg Prod.snd (Except.ok.inj same)
    simp only [Except.map, current_advance]
    exact congrArg Except.ok opened

/-! ### Sites with the same records -/

/-- Nothing has changed but the identities that are kept, and what random bytes there are. -/
structure Site.Alike (s s' : Site) : Prop where
  store_eq : s'.store = { s.store with identities := s'.store.identities }
  dead_eq : s'.entropy.dead = s.entropy.dead

variable {peer : Address} {sender : GroupSender} {app : App} {s s' t : Site} {plain : Bytes}

/-- A message that can be read on one site can be read on the other, unless the identity that reading
it pins is not trusted there. -/
theorem decryptMessage_alike {m : RatchetMessage} (same : s.Alike s')
    (h : (decryptMessage S peer m).alone app s = (.ok plain, t)) :
    ((decryptMessage S peer m).alone app s').1 = .ok plain ↔
      ∀ key, t.store.identities[peer]? = some key → s'.store.isTrusted peer key := by
  obtain ⟨known, record, entropy, remote, decrypted, current, -, delivered, rfl⟩ :=
    decryptMessage_ok h
  -- the same session reads the message, and it is with the same identity
  have read := (s.store.loadSession peer).decrypt_alike (S := S) (m := m) same.dead_eq
  rw [decrypted] at read
  obtain ⟨⟨plain', record'⟩, decrypted', heard⟩ := map_eq_ok.mp read
  obtain ⟨rfl, current'⟩ := Prod.mk.inj heard
  have known' : s'.store.sessions.contains peer := by
    rw [same.store_eq]
    exact known
  have loaded : s'.store.loadSession peer = s.store.loadSession peer := by
    rw [same.store_eq]
    rfl
  have pinned : ∀ key, ({ s with entropy }.keep peer remote record).store.identities[peer]?
      = some key ↔ remote = key := by simp [Site.keep]
  rw [alone_decryptMessage, if_pos known', loaded]
  rcases ran : ((s.store.loadSession peer).decrypt S m).run s'.entropy with ⟨outcome, entropy'⟩
  rw [ran] at decrypted'
  obtain rfl : outcome = .ok (plain', record') := decrypted'
  dsimp only
  rw [show record'.current.remoteIdentity = some remote from current'.trans current]
  simp only [pinned, forall_eq']
  by_cases trusted : s'.store.isTrusted peer remote
  · simp [trusted, delivered]
  · simp [trusted]

theorem Store.accept_alike {store : Store} (same : store = { s.store with identities := store.identities })
    (record : SessionRecord) (m : PreKeyMessage)
    (trusted : s.store.isTrusted peer m.identity) (trusted' : store.isTrusted peer m.identity) :
    store.accept S peer record m = s.store.accept S peer record m := by
  unfold accept
  rw [if_pos trusted, if_pos trusted', same]
  rfl

theorem decryptPreKeyMessage_alike {m : PreKeyMessage} (same : s.Alike s')
    (h : (decryptPreKeyMessage S peer m).alone app s = (.ok plain, t)) :
    ((decryptPreKeyMessage S peer m).alone app s').1 = .ok plain ↔
      ∀ key, t.store.identities[peer]? = some key → s'.store.isTrusted peer key := by
  obtain ⟨used, record, record', entropy, accepted, decrypted, delivered, rfl⟩ :=
    decryptPreKeyMessage_ok h
  have read := record.decrypt_alike (S := S) (m := m.message) same.dead_eq
  rw [decrypted] at read
  obtain ⟨⟨plain', record''⟩, decrypted', heard⟩ := map_eq_ok.mp read
  obtain ⟨rfl, -⟩ := Prod.mk.inj heard
  simp only [Store.identities_useUp, Store.identities_storeSession, Store.getElem?_saveIdentity,
    Option.some.injEq, forall_eq']
  rw [alone_decryptPreKeyMessage]
  have loaded : s'.store.loadSession peer = s.store.loadSession peer := by
    rw [same.store_eq]
    rfl
  by_cases trusted : s'.store.isTrusted peer m.identity
  · rw [Store.accept_alike same.store_eq _ m (Store.accept_ok accepted).1 trusted, loaded, accepted]
    dsimp only
    rcases ran : (record.decrypt S m.message).run s'.entropy with ⟨outcome, entropy'⟩
    rw [ran] at decrypted'
    obtain rfl : outcome = .ok (plain', record'') := decrypted'
    simp [trusted, delivered]
  · simp [Store.accept, trusted]

theorem decryptGroup_alike {bs : Bytes} (same : s.Alike s')
    (h : (decryptGroup S sender bs).alone app s = (.ok plain, t)) :
    ((decryptGroup S sender bs).alone app s').1 = .ok plain := by
  obtain ⟨m, record, parsed, decrypted, delivered, rfl⟩ := decryptGroup_ok h
  have loaded : s'.store.loadSenderKey sender = s.store.loadSenderKey sender := by
    rw [same.store_eq]
    rfl
  rw [← loaded] at decrypted
  rw [decryptGroup_of_ok parsed decrypted delivered]

end

/-! ### Operations -/

/-- What an application asks of a device: a call of a peer, or one of a group sender. -/
inductive Operation where
  | session (peer : Address) (c : Call)
  | group (sender : GroupSender) (c : GroupCall)

/-- What an application gets back. -/
inductive Outcome where
  | session (answer : Answer)
  | group (answer : GroupAnswer)

/-- The plaintext that an application gets back. -/
def Outcome.plain? : Outcome → Option Bytes
  | session (.read plain) | group (.read plain) => some plain
  | _ => none

namespace Operation

/-- The operation as an action. -/
def action (S : Suite) : Operation → Action Outcome
  | session peer c => .session <$> c.action S peer
  | group sender c => .group <$> c.action S sender

/-- The operation on a device that is alone. -/
def run (S : Suite) (app : App) (op : Operation) (s : Site) : Except Error Outcome × Site :=
  (op.action S).alone app s

/-- The plaintext that the operation gives on a site. -/
def plain? (S : Suite) (app : App) (op : Operation) (s : Site) : Option Bytes :=
  ((op.run S app s).1.toOption).bind Outcome.plain?

/-- The peer that the operation may pin an identity of. -/
def peer? : Operation → Option Address
  | session peer _ => some peer
  | group .. => none

end Operation

section
variable {S : Suite} {app : App} {op : Operation} {s s' : Site} {e : Error}

/-- An identity that is kept stays as it is. -/
theorem Store.Spared.identities {s s' : Store} {peer other : Address} {key : PublicKey}
    (h : s.Spared s' peer) (kept : s.identities[other]? = some key) :
    s'.identities[other]? = some key := by
  rcases h with rfl | ⟨new, trusted, rfl⟩
  · exact kept
  · by_cases same : peer = other
    · subst same
      obtain rfl := Store.isTrusted_iff.mp trusted key kept
      exact s.getElem?_saveIdentity peer key
    · simpa [saveIdentity, Std.ExtTreeMap.getElem?_insert, same] using kept

/-- A call that fails leaves the source as alive as it was. -/
theorem Call.dead_eq {peer : Address} {c : Call} (h : c.run S peer app s = (.error e, s')) :
    s'.entropy.dead = s.entropy.dead := by
  have drawn := c.before_run S peer app s
  rw [h] at drawn
  exact drawn.dead_eq

theorem GroupCall.run_error {sender : GroupSender} {c : GroupCall}
    (h : c.run S sender app s = (.error e, s')) :
    s'.store = s.store ∧ s'.entropy.dead = s.entropy.dead := by
  cases c with
  | announce =>
    rw [announceChain_error (Action.alone_map_error h)]
    exact ⟨rfl, rfl⟩
  | learn m =>
    have failed := Action.alone_map_error h
    rw [alone_learnChain] at failed
    cases failed
  | encrypt plain => exact encryptGroup_error (Action.alone_map_error h)
  | decrypt bs =>
    rw [decryptGroup_error (Action.alone_map_error h)]
    exact ⟨rfl, rfl⟩

/-- A failed operation has stored no record. -/
theorem Operation.run_error (h : op.run S app s = (.error e, s')) :
    s.Alike s' ∧ ∀ (peer : Address) key, s.store.identities[peer]? = some key →
      s'.store.identities[peer]? = some key := by
  cases op with
  | session peer c =>
    have failed : c.run S peer app s = (.error e, s') := Action.alone_map_error h
    have spared := c.run_error failed
    refine ⟨⟨?_, Call.dead_eq failed⟩, fun other key kept => spared.identities kept⟩
    rcases spared with same | ⟨key, -, same⟩
    · rw [same]
    · rw [same]
      rfl
  | group sender c =>
    have failed : c.run S sender app s = (.error e, s') := Action.alone_map_error h
    obtain ⟨same, alive⟩ := GroupCall.run_error failed
    refine ⟨⟨?_, alive⟩, fun peer key kept => ?_⟩
    · rw [same]
    · rw [same]
      exact kept

namespace Operation

variable {peer : Address} {sender : GroupSender} {plain : Bytes}

theorem plain?_session {c : Call} :
    (session peer c).plain? S app s = some plain ↔ (c.run S peer app s).1 = .ok (.read plain) := by
  unfold plain? run action
  rw [Action.alone_map]
  rcases ran : (c.action S peer).alone app s with ⟨_ | _ | _ | _, _⟩ <;>
    simp [Call.run, ran, Except.map, Except.toOption, Outcome.plain?]

theorem plain?_group {c : GroupCall} :
    (group sender c).plain? S app s = some plain ↔ (c.run S sender app s).1 = .ok (.read plain) := by
  unfold plain? run action
  rw [Action.alone_map]
  rcases ran : (c.action S sender).alone app s with ⟨_ | _ | _ | _ | _, _⟩ <;>
    simp [GroupCall.run, ran, Except.map, Except.toOption, Outcome.plain?]

theorem run_session {c : Call} : ((session peer c).run S app s).2 = (c.run S peer app s).2 := by
  unfold run action
  rw [Action.alone_map]
  rfl

end Operation

/-- A call that read a message reads it on a site with the same records, unless the identity that it
pins is not trusted there. -/
theorem Call.read_alike {peer : Address} {c : Call} {plain : Bytes} (same : s.Alike s')
    (h : (c.run S peer app s).1 = .ok (.read plain)) :
    (c.run S peer app s').1 = .ok (.read plain) ↔
      ∀ key, (c.run S peer app s).2.store.identities[peer]? = some key →
        s'.store.isTrusted peer key := by
  have reads : ∀ x : Except Error Bytes, x.map Answer.read = .ok (.read plain) ↔ x = .ok plain := by
    intro x
    cases x <;> simp [Except.map]
  rcases ran : c.run S peer app s with ⟨outcome, t⟩
  obtain rfl : outcome = .ok (.read plain) := by rw [← h, ran]
  cases succeeded ran with
  | read h =>
    have alike := decryptMessage_alike same h
    unfold run action
    rw [Action.alone_map, reads]
    exact alike
  | readFirst h =>
    have alike := decryptPreKeyMessage_alike same h
    unfold run action
    rw [Action.alone_map, reads]
    exact alike

theorem GroupCall.read_alike {sender : GroupSender} {c : GroupCall} {plain : Bytes}
    (same : s.Alike s') (h : (c.run S sender app s).1 = .ok (.read plain)) :
    (c.run S sender app s').1 = .ok (.read plain) := by
  rcases ran : c.run S sender app s with ⟨outcome, t⟩
  obtain rfl : outcome = .ok (.read plain) := by rw [← h, ran]
  cases c with
  | decrypt bs =>
    obtain ⟨plain', read, ⟨⟩⟩ := Action.alone_map_ok ran
    unfold run action
    rw [Action.alone_map, decryptGroup_alike same read]
    rfl
  | announce => obtain ⟨m, -, ⟨⟩⟩ := Action.alone_map_ok ran
  | learn m => obtain ⟨_, -, ⟨⟩⟩ := Action.alone_map_ok ran
  | encrypt plain => obtain ⟨m, -, ⟨⟩⟩ := Action.alone_map_ok ran

/-- **Failures are atomic.**  A failed operation has changed no session, no pre-key and no group
chain, and no identity that was pinned before.  A message that an operation could read before can be
read after the failure, to the same plaintext, exactly if the identity that reading it pins is
trusted then. -/
theorem failure_spares (h : op.run S app s = (.error e, s')) :
    s'.store.sessions = s.store.sessions ∧ s'.store.preKeys = s.store.preKeys ∧
      s'.store.signedPreKeys = s.store.signedPreKeys ∧ s'.store.senderKeys = s.store.senderKeys ∧
      (∀ (peer : Address) key, s.store.identities[peer]? = some key →
        s'.store.identities[peer]? = some key) ∧
      ∀ (reader : Operation) (app' : App) (plain : Bytes), reader.plain? S app' s = some plain →
        (reader.plain? S app' s' = some plain ↔ ∀ peer ∈ reader.peer?, ∀ key,
          (reader.run S app' s).2.store.identities[peer]? = some key →
            s'.store.isTrusted peer key) := by
  obtain ⟨same, kept⟩ := Operation.run_error h
  refine ⟨?_, ?_, ?_, ?_, kept, ?_⟩
  · rw [same.store_eq]
  · rw [same.store_eq]
  · rw [same.store_eq]
  · rw [same.store_eq]
  · intro reader app' plain read
    cases reader with
    | session peer c =>
      rw [Operation.plain?_session] at read ⊢
      rw [Call.read_alike same read]
      simp [Operation.peer?, Operation.run_session]
    | group sender c =>
      rw [Operation.plain?_group] at read ⊢
      exact iff_of_true (GroupCall.read_alike same read) nofun

end

/-- A pre-key message whose envelope names a one-time pre-key that there is none of fails; the message
itself is read afterwards. -/
theorem failure_spares_first :
    let asked := Toy.rewrap Toy.first (some 8) Toy.first.baseKey Toy.first.identity
    let failed := (Operation.session Toy.alice (.decryptPreKey asked)).run Toy.suite accepting Toy.bob
    failed.1.toOption.isNone ∧
      (Operation.session Toy.alice (.decryptPreKey Toy.first)).plain? Toy.suite accepting failed.2
        = some [1] := by
  intro asked failed
  have none : failed.1.toOption.isNone := by decide +kernel
  have read : (Operation.session Toy.alice (.decryptPreKey Toy.first)).plain? Toy.suite accepting
      Toy.bob = some [1] := by decide +kernel
  have unknown : failed.2.store.identities[Toy.alice]? = Option.none := by decide +kernel
  refine ⟨none, ?_⟩
  rcases ran : failed with ⟨e | outcome, s'⟩
  · obtain ⟨-, -, -, -, -, spared⟩ := failure_spares ran
    refine (spared _ accepting _ read).mpr fun peer hp key _ => ?_
    obtain rfl : Toy.alice = peer := Option.some.inj hp
    rw [ran] at unknown
    simp [Store.isTrusted, unknown]
  · rw [ran] at none
    cases none

/-- A pre-key message whose envelope names another identity fails, but the identity is pinned: the
peer's own message, which could be read before, is refused from then on. -/
theorem locked_out :
    let forged := Toy.rewrap Toy.first none Toy.first.baseKey (Toy.keyPair 8).publicKey
    let failed := (Operation.session Toy.alice (.decryptPreKey forged)).run Toy.suite accepting Toy.bob
    let genuine := Operation.session Toy.alice (.decryptPreKey Toy.first)
    failed.1.toOption.isNone ∧ genuine.plain? Toy.suite accepting Toy.bob = some [1] ∧
      genuine.plain? Toy.suite accepting failed.2 = none := by
  refine ⟨?_, ?_, ?_⟩
  · decide +kernel
  · decide +kernel
  · decide +kernel

end DoubleRatchet
