/-
DoubleRatchet/Proofs/Calls.lean

What the operations of a session do to a device that is alone.

Each operation is one equation: its outcome and the site after it, given the site
before.  The sessions that a bundle and a pre-key message set up are functions of the
store (`Store.greet`, `Store.accept`), so that nothing of an operation is left but what
it looks at, in order, and what it stores.
-/
import DoubleRatchet.Proofs.Alone
import DoubleRatchet.Proofs.Attempts
import DoubleRatchet.Session.Operations

namespace DoubleRatchet

/-! ### What is stored -/

/-- The site with the sessions with a peer, and the identity that is kept for it. -/
def Site.keep (s : Site) (peer : Address) (identity : PublicKey) (record : SessionRecord) : Site :=
  { s with store := (s.store.saveIdentity peer identity).storeSession peer record }

namespace Store

variable (S : Suite)

/-- The store without a one-time pre-key that has been used up. -/
def useUp (s : Store) (used : Option UInt32) : Store :=
  { s with preKeys := used.elim s.preKeys s.preKeys.erase }

/-- The session that a bundle sets up, over an empty one. -/
def greet (s : Store) (bundle : PreKeyBundle) (st : SessionState) (baseKey ratchetKey : KeyPair) :
    SessionState :=
  { st.initiateWith S {
      identity := s.identity, baseKey
      theirIdentity := bundle.identity
      theirSignedPreKey := bundle.signedPreKey
      theirOneTimePreKey := bundle.oneTimePreKey
      theirRatchetKey := bundle.signedPreKey } ratchetKey with
    localRegistrationId := s.registrationId
    remoteRegistrationId := bundle.registrationId
    pending := some ⟨bundle.oneTimePreKeyId, bundle.signedPreKeyId, baseKey.publicKey⟩
  }.nameAfter baseKey.publicKey.transmitted

/-- The keys that a pre-key message asks for. -/
def responderKeys (s : Store) (m : PreKeyMessage) : Except Error ResponderKeys := do
  let signedPreKey ← s.loadSignedPreKey m.signedPreKeyId
  let oneTimePreKey ← m.preKeyId.mapM s.loadPreKey
  return {
    identity := s.identity
    signedPreKey := signedPreKey.keyPair
    oneTimePreKey := oneTimePreKey.map (·.keyPair)
    ratchetKey := signedPreKey.keyPair
    theirIdentity := m.identity
    theirBaseKey := m.baseKey }

/-- The session that a pre-key message sets up, over an empty one. -/
def welcome (s : Store) (m : PreKeyMessage) (st : SessionState) (keys : ResponderKeys) :
    SessionState :=
  { st.respond S keys with
    localRegistrationId := s.registrationId
    remoteRegistrationId := m.registrationId }.nameAfter m.baseKey.transmitted

/-- The record that a pre-key message is decrypted with, and the one-time pre-key that is then used
up. -/
def accept (s : Store) (peer : Address) (record : SessionRecord) (m : PreKeyMessage) :
    Except Error (Option UInt32 × SessionRecord) :=
  if s.isTrusted peer m.identity then
    if record.knows m.version m.baseKey.transmitted then .ok (none, record)
    else do
      let keys ← s.responderKeys m
      return (m.preKeyId.filter (· != lastResortPreKey),
        { record.makeRoom with current := s.welcome S m record.makeRoom.current keys })
  else .error (.untrustedIdentity peer.name m.identity)

end Store

section
variable (S : Suite) (app : Bytes → Except Error Unit) (peer : Address)

/-! ### Steps that several operations take -/

theorem alone_requireTrust (key : PublicKey) (direction : Direction) (s : Site) :
    (requireTrust peer key direction).alone app s
      = if s.store.isTrusted peer key then (.ok (), s)
        else (.error (.untrustedIdentity peer.name key), s) := by
  unfold requireTrust
  rw [Action.alone_bind, Action.alone_store]
  show Action.alone app (if !s.store.isTrusted peer key then _ else _) s = _
  cases s.store.isTrusted peer key <;> rfl

theorem alone_loadPreKey (id : Option UInt32) (s : Site) :
    (id.mapM fun id => Action.store (.loadPreKey id)).alone app s
      = (id.mapM s.store.loadPreKey, s) := by
  cases id with
  | none => rfl
  | some id =>
    show Action.alone app (some <$> Action.store (.loadPreKey id)) s
      = (some <$> s.store.loadPreKey id, s)
    rw [← bind_pure_comp, Action.alone_bind, Action.alone_store]
    dsimp only [Store.answer]
    cases s.store.loadPreKey id <;> rfl

theorem alone_findKeys (record : SessionRecord) (m : PreKeyMessage) (s : Site) :
    (findKeys peer record m).alone app s =
      if s.store.isTrusted peer m.identity then
        if record.knows m.version m.baseKey.transmitted then (.ok none, s)
        else ((s.store.responderKeys m).map some, s)
      else (.error (.untrustedIdentity peer.name m.identity), s) := by
  unfold findKeys Store.responderKeys
  rw [Action.alone_bind, alone_requireTrust]
  by_cases trusted : s.store.isTrusted peer m.identity
  · rw [if_pos trusted, if_pos trusted]
    dsimp only
    -- keys are looked up only for a base key that is not known
    split
    · rfl
    rw [Action.alone_bind, Action.alone_store]
    dsimp only [Store.answer]
    cases s.store.loadSignedPreKey m.signedPreKeyId with
    | error e => rfl
    | ok signedPreKey =>
      dsimp only
      rw [Action.alone_bind, alone_loadPreKey]
      cases m.preKeyId.mapM s.store.loadPreKey <;> rfl
  · rw [if_neg trusted, if_neg trusted]

/-- A program that goes on with the outcome of an operation. -/
theorem alone_run_bind {α β : Type} (a : Action α) (f : Except Error α → Program β) (s : Site) :
    Action.alone app (ExceptT.lift (a.run >>= f)) s
      = Action.alone app (ExceptT.lift (f (a.alone app s).1)) (a.alone app s).2 := by
  unfold Action.alone
  rw [ExceptT.run_lift, ExceptT.run_lift, Program.run_map, Program.run_map, Program.run_bind,
    StateT.run_bind]
  rfl

theorem alone_keepIdentity (m : PreKeyMessage) (used : Option UInt32) (record : SessionRecord)
    (s : Site) :
    Action.alone app (ExceptT.lift (acceptSession.keepIdentity peer m used record)) s
      = (.ok (.ok used, record), { s with store := s.store.saveIdentity peer m.identity }) := by
  unfold acceptSession.keepIdentity
  rw [alone_run_bind, Action.alone_store]
  rfl

/-- What a pre-key message finds, and what has become of the store then. -/
theorem alone_acceptSession (record : SessionRecord) (m : PreKeyMessage) (s : Site) :
    Action.alone app (ExceptT.lift (acceptSession S peer record m)) s =
      match s.store.accept S peer record m with
      | .error e => (.ok (.error e, record), s)
      | .ok (used, record) =>
        (.ok (.ok used, record), { s with store := s.store.saveIdentity peer m.identity }) := by
  unfold acceptSession Store.accept
  rw [alone_run_bind, alone_findKeys]
  by_cases trusted : s.store.isTrusted peer m.identity
  · rw [if_pos trusted, if_pos trusted]
    by_cases known : record.knows m.version m.baseKey.transmitted
    · rw [if_pos known, if_pos known]
      exact alone_keepIdentity app peer m none record s
    · rw [if_neg known, if_neg known]
      cases s.store.responderKeys m with
      | error e => rfl
      | ok keys =>
        show Action.alone app (ExceptT.lift ((Action.store .registrationId).run >>= _)) s = _
        rw [alone_run_bind, Action.alone_store]
        exact alone_keepIdentity app peer m _ _ s
  · rw [if_neg trusted, if_neg trusted]
    rfl

theorem run_initiate (st : SessionState) (k : InitiatorKeys) (e : Entropy) :
    (st.initiate S k).run e
      = if e.dead then (.error .noEntropy, e)
        else (.ok (st.initiateWith S k (S.nextKeyPair e)), e.advance 32) := by
  unfold SessionState.initiate
  rw [Draw.run_bind, S.run_drawKeyPair]
  cases e.dead <;> rfl

/-! ### The operations -/

theorem alone_startSession (bundle : PreKeyBundle) (s : Site) :
    (startSession S peer bundle).alone app s =
      if s.store.isTrusted peer bundle.identity then
        match bundle.checkSignature S with
        | .error e => (.error e, s)
        | .ok () =>
          if s.entropy.dead then (.error .noEntropy, s)
          else
            let record := (s.store.loadSession peer).makeRoom
            let between := s.entropy.advance 32
            let st := s.store.greet S bundle record.current (S.nextKeyPair s.entropy)
              (S.nextKeyPair between)
            (.ok (), { s with entropy := between.advance 32 }.keep peer bundle.identity
              { record with current := st })
      else (.error (.untrustedIdentity peer.name bundle.identity), s) := by
  unfold startSession
  rw [Action.alone_locked, Action.alone_bind, alone_requireTrust]
  by_cases trusted : s.store.isTrusted peer bundle.identity
  · rw [if_pos trusted, if_pos trusted]
    dsimp only
    rw [Action.alone_bind, Action.alone_liftExcept]
    cases bundle.checkSignature S with
    | error e => rfl
    | ok _ =>
      dsimp only
      rw [Action.alone_bind, Action.alone_store]
      dsimp only [Store.answer]
      rw [Action.alone_bind, Action.alone_random, S.run_drawKeyPair]
      cases dead : s.entropy.dead
      · simp only [Bool.false_eq_true, ↓reduceIte]
        rw [Action.alone_bind, Action.alone_store]
        dsimp only [Store.answer]
        -- what is drawn leaves the source alive
        have alive : (s.entropy.advance 32).dead ≠ true := by simp [Entropy.advance, dead]
        rw [Action.alone_bind, Action.alone_random, run_initiate, if_neg alive]
        rfl
      · rfl
  · rw [if_neg trusted, if_neg trusted]

theorem alone_encrypt (plain : Bytes) (s : Site) :
    (encrypt S peer plain).alone app s =
      let record := s.store.loadSession peer
      if record.fresh || record.current.senderChain.isNone then (.error (.noSession peer), s)
      else match record.current.identities with
        | .error e => (.error e, s)
        | .ok (remote, _) =>
          if s.store.isTrusted peer remote then
            match record.current.encrypt S plain with
            | .error e => (.error e, s)
            | .ok (message, st) => (.ok message, s.keep peer remote { record with current := st })
          else (.error (.untrustedIdentity peer.name remote), s) := by
  unfold encrypt
  rw [Action.alone_locked, Action.alone_bind, Action.alone_store]
  dsimp only [Store.answer]
  -- from here on only the record counts, not where it is from
  generalize s.store.loadSession peer = record
  split
  · rfl
  simp only [Action.alone_bind, Action.alone_liftExcept, alone_requireTrust]
  cases record.current.identities with
  | error e => rfl
  | ok identities =>
    obtain ⟨remote, own⟩ := identities
    dsimp only
    by_cases trusted : s.store.isTrusted peer remote
    · rw [if_pos trusted, if_pos trusted]
      dsimp only
      cases record.current.encrypt S plain <;> rfl
    · rw [if_neg trusted, if_neg trusted]

theorem alone_decryptMessage (m : RatchetMessage) (s : Site) :
    (decryptMessage S peer m).alone app s =
      if s.store.sessions.contains peer then
        match ((s.store.loadSession peer).decrypt S m).run s.entropy with
        | (.error e, entropy) => (.error e, { s with entropy })
        | (.ok (plain, record), entropy) =>
          match record.current.remoteIdentity with
          | none => (.error (.invalidMessage .noRemoteIdentity), { s with entropy })
          | some remote =>
            if s.store.isTrusted peer remote then
              match app plain with
              | .error e => (.error e, ⟨s.store.saveIdentity peer remote, entropy⟩)
              | .ok () => (.ok plain, { s with entropy }.keep peer remote record)
            else (.error (.untrustedIdentity peer.name remote), { s with entropy })
      else (.error (.noSession peer), s) := by
  unfold decryptMessage
  rw [Action.alone_locked, Action.alone_bind, Action.alone_store]
  dsimp only [Store.answer]
  by_cases known : s.store.sessions.contains peer
  · rw [if_pos known]
    simp only [known, Bool.not_true, Bool.false_eq_true, ↓reduceIte]
    rw [Action.alone_bind, Action.alone_store]
    dsimp only [Store.answer]
    rw [Action.alone_bind, Action.alone_random]
    rcases ((s.store.loadSession peer).decrypt S m).run s.entropy
      with ⟨err | ⟨plain, record⟩, entropy⟩
    · rfl
    dsimp only
    rw [Action.alone_bind, Action.alone_liftExcept]
    cases record.current.remoteIdentity with
    | none => rfl
    | some remote =>
      dsimp only [needed]
      rw [Action.alone_bind, alone_requireTrust]
      by_cases trusted : s.store.isTrusted peer remote
      · rw [if_pos trusted, if_pos trusted]
        dsimp only
        -- the identity is pinned before the plaintext is handed on
        rw [Action.alone_bind, Action.alone_store]
        dsimp only [Store.answer]
        rw [Action.alone_bind, Action.alone_deliver]
        cases app plain <;> rfl
      · rw [if_neg trusted, if_neg trusted]
  · rw [if_neg known]
    simp only [known, Bool.not_false, ↓reduceIte]
    rfl

theorem alone_decryptPreKeyMessage (m : PreKeyMessage) (s : Site) :
    (decryptPreKeyMessage S peer m).alone app s =
      match s.store.accept S peer (s.store.loadSession peer) m with
      | .error e => (.error e, s)
      | .ok (used, record) =>
        match (record.decrypt S m.message).run s.entropy with
        | (.error e, entropy) => (.error e, ⟨s.store.saveIdentity peer m.identity, entropy⟩)
        | (.ok (plain, record), entropy) =>
          match app plain with
          | .error e => (.error e, ⟨s.store.saveIdentity peer m.identity, entropy⟩)
          | .ok () =>
            let s := { s with entropy }.keep peer m.identity record
            (.ok plain, { s with store := s.store.useUp used }) := by
  unfold decryptPreKeyMessage
  rw [Action.alone_locked, Action.alone_bind, Action.alone_store]
  dsimp only [Store.answer]
  rw [Action.alone_bind, alone_acceptSession]
  -- whether it is accepted does not depend on what the message says
  rcases s.store.accept S peer (s.store.loadSession peer) m with e | ⟨used, record⟩
  · rfl
  dsimp only
  rw [Action.alone_bind, Action.alone_liftExcept]
  dsimp only
  rw [Action.alone_bind, Action.alone_random]
  rcases (record.decrypt S m.message).run s.entropy with ⟨err | ⟨plain, record⟩, entropy⟩
  · rfl
  dsimp only
  rw [Action.alone_bind, Action.alone_deliver]
  cases app plain with
  | error e => rfl
  | ok _ => cases used <;> rfl

end

/-! ### What success takes -/

section
variable {S : Suite} {app : Bytes → Except Error Unit} {peer : Address} {s s' : Site}

theorem startSession_ok {bundle : PreKeyBundle}
    (h : (startSession S peer bundle).alone app s = (.ok (), s')) :
    s.store.isTrusted peer bundle.identity ∧ bundle.checkSignature S = .ok () ∧
      s.entropy.dead = false ∧
      s' = { s with entropy := (s.entropy.advance 32).advance 32 }.keep peer bundle.identity
        { (s.store.loadSession peer).makeRoom with
          current := s.store.greet S bundle (s.store.loadSession peer).makeRoom.current
            (S.nextKeyPair s.entropy) (S.nextKeyPair (s.entropy.advance 32)) } := by
  rw [alone_startSession] at h
  split at h
  · rename_i trusted
    split at h
    · cases h
    · rename_i signed
      split at h
      · cases h
      · rename_i alive
        cases h
        exact ⟨trusted, signed, Bool.eq_false_iff.mpr alive, rfl⟩
  · cases h

theorem encrypt_ok {plain : Bytes} {message : Message}
    (h : (encrypt S peer plain).alone app s = (.ok message, s')) :
    (s.store.loadSession peer).fresh = false ∧
      ∃ remote own st, (s.store.loadSession peer).current.identities = .ok (remote, own) ∧
        s.store.isTrusted peer remote ∧
        (s.store.loadSession peer).current.encrypt S plain = .ok (message, st) ∧
        s' = s.keep peer remote { s.store.loadSession peer with current := st } := by
  rw [alone_encrypt] at h
  dsimp only at h
  split at h
  · cases h
  rename_i ready
  split at h
  · cases h
  rename_i remote own identities
  split at h
  · rename_i trusted
    split at h
    · cases h
    · rename_i made
      cases h
      rw [Bool.or_eq_true, not_or] at ready
      exact ⟨Bool.eq_false_iff.mpr ready.1, remote, own, _, identities, trusted, made, rfl⟩
  · cases h

theorem decryptMessage_ok {m : RatchetMessage} {plain : Bytes}
    (h : (decryptMessage S peer m).alone app s = (.ok plain, s')) :
    s.store.sessions.contains peer ∧ ∃ record entropy remote,
      ((s.store.loadSession peer).decrypt S m).run s.entropy = (.ok (plain, record), entropy) ∧
      record.current.remoteIdentity = some remote ∧ s.store.isTrusted peer remote ∧
      app plain = .ok () ∧ s' = { s with entropy }.keep peer remote record := by
  rw [alone_decryptMessage] at h
  split at h
  · rename_i known
    split at h
    · cases h
    rename_i decrypted
    split at h
    · cases h
    rename_i remote
    split at h
    · rename_i trusted
      split at h
      · cases h
      · rename_i delivered
        cases h
        exact ⟨known, _, _, _, decrypted, remote, trusted, delivered, rfl⟩
    · cases h
  · cases h

/-- A pre-key message is accepted when its identity is trusted, and its session is there or can be
set up. -/
theorem Store.accept_ok {s : Store} {record record' : SessionRecord} {m : PreKeyMessage}
    {used : Option UInt32} (h : s.accept S peer record m = .ok (used, record')) :
    s.isTrusted peer m.identity ∧
      ((record.knows m.version m.baseKey.transmitted = true ∧ used = none ∧ record' = record) ∨
        (record.knows m.version m.baseKey.transmitted = false ∧
          ∃ keys, s.responderKeys m = .ok keys ∧
            used = m.preKeyId.filter (· != lastResortPreKey) ∧
            record' = { record.makeRoom with
              current := s.welcome S m record.makeRoom.current keys })) := by
  unfold accept at h
  split at h
  · rename_i trusted
    refine ⟨trusted, ?_⟩
    split at h
    · rename_i known
      cases h
      exact .inl ⟨known, rfl, rfl⟩
    · rename_i unknown
      obtain ⟨keys, found, h⟩ := bind_eq_ok.mp h
      cases h
      exact .inr ⟨Bool.eq_false_iff.mpr unknown, keys, found, rfl, rfl⟩
  · cases h

theorem decryptPreKeyMessage_ok {m : PreKeyMessage} {plain : Bytes}
    (h : (decryptPreKeyMessage S peer m).alone app s = (.ok plain, s')) :
    ∃ used record record' entropy,
      s.store.accept S peer (s.store.loadSession peer) m = .ok (used, record) ∧
      (record.decrypt S m.message).run s.entropy = (.ok (plain, record'), entropy) ∧
      app plain = .ok () ∧
      s' = ⟨((s.store.saveIdentity peer m.identity).storeSession peer record').useUp used,
        entropy⟩ := by
  rw [alone_decryptPreKeyMessage] at h
  split at h
  · cases h
  rename_i accepted
  dsimp only at h
  split at h
  · cases h
  rename_i decrypted
  split at h
  · cases h
  rename_i delivered
  cases h
  exact ⟨_, _, _, _, accepted, decrypted, delivered, rfl⟩

/-! ### What is left of a failure -/

variable {e : Error}

/-- Nothing of the store has changed, but that a trusted identity may be kept now. -/
def Store.Spared (s s' : Store) (peer : Address) : Prop :=
  s' = s ∨ ∃ key, s.isTrusted peer key ∧ s' = s.saveIdentity peer key

theorem startSession_error {bundle : PreKeyBundle}
    (h : (startSession S peer bundle).alone app s = (.error e, s')) : s' = s := by
  rw [alone_startSession] at h
  split at h
  · split at h
    · cases h; rfl
    · split at h
      · cases h; rfl
      · cases h
  · cases h; rfl

theorem encrypt_error {plain : Bytes} (h : (encrypt S peer plain).alone app s = (.error e, s')) :
    s' = s := by
  rw [alone_encrypt] at h
  dsimp only at h
  split at h
  · cases h; rfl
  split at h
  · cases h; rfl
  split at h
  · split at h
    · cases h; rfl
    · cases h
  · cases h; rfl

theorem decryptMessage_error {m : RatchetMessage}
    (h : (decryptMessage S peer m).alone app s = (.error e, s')) :
    s.store.Spared s'.store peer := by
  rw [alone_decryptMessage] at h
  split at h
  · split at h
    · cases h; exact .inl rfl
    split at h
    · cases h; exact .inl rfl
    split at h
    · rename_i remote _ trusted
      split at h
      · cases h; exact .inr ⟨remote, trusted, rfl⟩
      · cases h
    · cases h; exact .inl rfl
  · cases h; exact .inl rfl

theorem decryptPreKeyMessage_error {m : PreKeyMessage}
    (h : (decryptPreKeyMessage S peer m).alone app s = (.error e, s')) :
    s.store.Spared s'.store peer := by
  rw [alone_decryptPreKeyMessage] at h
  split at h
  · cases h; exact .inl rfl
  rename_i accepted
  dsimp only at h
  split at h
  · cases h; exact .inr ⟨m.identity, (Store.accept_ok accepted).1, rfl⟩
  split at h
  · cases h; exact .inr ⟨m.identity, (Store.accept_ok accepted).1, rfl⟩
  · cases h

/-! ### What is drawn -/

theorem before_startSession (bundle : PreKeyBundle) (s : Site) :
    s.entropy.Before ((startSession S peer bundle).alone app s).2.entropy := by
  rcases ran : (startSession S peer bundle).alone app s with ⟨err | ⟨⟩, s'⟩
  · rw [startSession_error ran]
    exact .refl _
  · obtain ⟨-, -, -, rfl⟩ := startSession_ok ran
    exact (Entropy.Before.one _).trans (.one _)

theorem before_encrypt (plain : Bytes) (s : Site) :
    s.entropy.Before ((encrypt S peer plain).alone app s).2.entropy := by
  rcases ran : (encrypt S peer plain).alone app s with ⟨err | message, s'⟩
  · rw [encrypt_error ran]
    exact .refl _
  · obtain ⟨-, remote, own, st, -, -, -, rfl⟩ := encrypt_ok ran
    exact .refl _

theorem before_decryptMessage (m : RatchetMessage) (s : Site) :
    s.entropy.Before ((decryptMessage S peer m).alone app s).2.entropy := by
  have drawn := (s.store.loadSession peer).before_decrypt (S := S) m s.entropy
  rw [alone_decryptMessage]
  split
  · rcases ran : ((s.store.loadSession peer).decrypt S m).run s.entropy with ⟨err | ⟨plain, r⟩, e⟩
    · rw [ran] at drawn
      exact drawn
    rw [ran] at drawn
    dsimp only
    split
    · exact drawn
    split
    · split
      · exact drawn
      · exact drawn
    · exact drawn
  · exact .refl _

theorem before_decryptPreKeyMessage (m : PreKeyMessage) (s : Site) :
    s.entropy.Before ((decryptPreKeyMessage S peer m).alone app s).2.entropy := by
  rw [alone_decryptPreKeyMessage]
  split
  · exact .refl _
  rename_i used record accepted
  have drawn := record.before_decrypt (S := S) m.message s.entropy
  rcases ran : (record.decrypt S m.message).run s.entropy with ⟨err | ⟨plain, r⟩, e⟩
  · rw [ran] at drawn
    exact drawn
  rw [ran] at drawn
  dsimp only
  split
  · exact drawn
  · exact drawn

end

/-! ### In a world -/

section
variable (S : Suite) (peer : Address)

open Action.Unlocked

theorem unlocked_requireTrust (key : PublicKey) (direction : Direction) :
    (requireTrust peer key direction).Unlocked := by
  refine bind (store _) fun trusted => ?_
  cases trusted
  · exact throw _
  · exact pure _

theorem unlocked_findKeys (record : SessionRecord) (m : PreKeyMessage) :
    (findKeys peer record m).Unlocked := by
  refine bind (unlocked_requireTrust peer _ _) fun _ => ?_
  split
  · exact pure _
  refine bind (store _) fun signedPreKey => bind ?_ fun oneTimePreKey =>
    bind (store _) fun _ => pure _
  cases m.preKeyId with
  | none => exact pure _
  | some id => exact bind (store _) fun _ => pure _

theorem unlocked_keepIdentity (m : PreKeyMessage) (used : Option UInt32) (record : SessionRecord) :
    (acceptSession.keepIdentity peer m used record).Unlocked := by
  refine Program.Unlocked.bind (store _) fun saved => ?_
  cases saved <;> trivial

theorem unlocked_acceptSession (record : SessionRecord) (m : PreKeyMessage) :
    (acceptSession S peer record m).Unlocked := by
  refine Program.Unlocked.bind (unlocked_findKeys peer record m) fun found => ?_
  rcases found with e | _ | keys
  · trivial
  · exact unlocked_keepIdentity peer m none record
  · refine Program.Unlocked.bind (store _) fun answer => ?_
    cases answer with
    | error e => trivial
    | ok id => exact unlocked_keepIdentity peer m _ _

theorem sequential_startSession (bundle : PreKeyBundle) :
    (startSession S peer bundle).Sequential := by
  refine ⟨_, _, _, rfl, ?_⟩
  refine bind (unlocked_requireTrust peer _ _) fun _ => bind (liftExcept _) fun _ =>
    bind (store _) fun _ => bind (random _) fun _ => bind (store _) fun _ => ?_
  exact bind (random _) fun _ => bind (store _) fun _ => bind (store _) fun _ => store _

theorem sequential_encrypt (plain : Bytes) : (encrypt S peer plain).Sequential := by
  refine ⟨_, _, _, rfl, bind (store _) fun record => ?_⟩
  split
  · exact throw_bind _ _
  refine bind (liftExcept _) fun identities => bind (unlocked_requireTrust peer _ _) fun _ =>
    bind (liftExcept _) fun made => ?_
  exact bind (store _) fun _ => bind (store _) fun _ => pure _

theorem sequential_decryptMessage (m : RatchetMessage) : (decryptMessage S peer m).Sequential := by
  refine ⟨_, _, _, rfl, bind (store _) fun known => ?_⟩
  cases known
  · exact throw_bind _ _
  refine bind (store _) fun record => bind (random _) fun opened => bind (liftExcept _) fun remote =>
    bind (unlocked_requireTrust peer _ _) fun _ => bind (store _) fun _ => ?_
  exact bind (deliver _) fun _ => bind (store _) fun _ => pure _

theorem sequential_decryptPreKeyMessage (m : PreKeyMessage) :
    (decryptPreKeyMessage S peer m).Sequential := by
  refine ⟨_, _, _, rfl, bind (store _) fun record => ?_⟩
  refine bind (lift (unlocked_acceptSession S peer record m)) fun accepted =>
    bind (liftExcept _) fun used => bind (random _) fun opened => bind (deliver _) fun _ =>
    bind (store _) fun _ => ?_
  cases used with
  | none => exact pure _
  | some id => exact bind (store _) fun _ => pure _

end

end DoubleRatchet
