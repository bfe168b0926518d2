/-
DoubleRatchet/Proofs/Attempts.lean

What it takes to encrypt and to decrypt.

A session that encrypts has a sender chain, and moves it on.

A session that decrypts a message has a sender chain, is of the version of the
message, and has a receiver chain for its ratchet key, if need be after a turn
(`Reached`); the window of that chain gives the keys, and the keys open the message.
A record that decrypts a message has one session that does, after all the ones before
it have found the message invalid (`Refused`).

Random bytes are drawn for turns only, a key pair at a time, so a source is only ever
moved on by whole keys (`Entropy.Before`).
-/
import DoubleRatchet.Proofs.Outcomes
import DoubleRatchet.Session.Ratchet

namespace DoubleRatchet

/-! ### Identities -/

theorem SessionState.identities_ok {st : SessionState} {remote own : PublicKey}
    (h : st.identities = .ok (remote, own)) :
    st.remoteIdentity = some remote ∧ st.localIdentity = some own := by
  obtain ⟨r, hr, h⟩ := bind_eq_ok.mp h
  obtain ⟨o, ho, h⟩ := bind_eq_ok.mp h
  cases h
  exact ⟨needed_eq_ok.mp hr, needed_eq_ok.mp ho⟩

/-! ### Random bytes -/

namespace Entropy

/-- The second source is the first one after some keys have been drawn. -/
def Before (e e' : Entropy) : Prop := ∃ keys, e' = e.advance (32 * keys)

theorem Before.refl (e : Entropy) : e.Before e := ⟨0, rfl⟩

theorem Before.trans {e₁ e₂ e₃ : Entropy} (h₁ : e₁.Before e₂) (h₂ : e₂.Before e₃) :
    e₁.Before e₃ := by
  obtain ⟨m, rfl⟩ := h₁
  obtain ⟨n, rfl⟩ := h₂
  refine ⟨m + n, ?_⟩
  simp only [advance, Nat.mul_add, Nat.add_assoc]

theorem Before.one (e : Entropy) : e.Before (e.advance 32) := ⟨1, rfl⟩

theorem Before.dead_eq {e e' : Entropy} (h : e.Before e') : e'.dead = e.dead := by
  obtain ⟨n, rfl⟩ := h
  rfl

end Entropy

namespace Draw

variable {α β : Type}

theorem run_bind (x : Draw α) (f : α → Draw β) (e : Entropy) :
    (x >>= f).run e = match x.run e with
      | (.ok a, e) => (f a).run e
      | (.error err, e) => (.error err, e) := by
  have cont : (x >>= f).run e = ExceptT.bindCont f (x.run e).1 (x.run e).2 := rfl
  rw [cont]
  rcases x.run e with ⟨_ | _, _⟩ <;> rfl

@[simp] theorem run_pure (a : α) (e : Entropy) : (pure a : Draw α).run e = (.ok a, e) := rfl

@[simp] theorem run_liftExcept (x : Except Error α) (e : Entropy) :
    (liftM x : Draw α).run e = (x, e) := by
  cases x <;> rfl

@[simp] theorem run_attempt (x : Draw α) (e : Entropy) :
    (attempt x).run e = (.ok (x.run e).1, (x.run e).2) := rfl

/-- What is drawn for a block: the next bytes, if there are any. -/
theorem run_block (n : Nat) (e : Entropy) :
    (block n).run e = if e.dead then (.error .noEntropy, e) else (.ok (e.peek n), e.advance n) := by
  unfold block
  rw [run_bind]
  show (if e.dead then throw .noEntropy else _ : Draw _).run e = _
  cases e.dead <;> rfl

end Draw

/-- The key pair that the next 32 bytes make. -/
def Suite.nextKeyPair (S : Suite) (e : Entropy) : KeyPair := S.keyPair ⟨S.privateKey (e.peek 32)⟩

/-- A key pair is made of the next 32 bytes, if there are any. -/
theorem Suite.run_drawKeyPair (S : Suite) (e : Entropy) :
    S.drawKeyPair.run e
      = if e.dead then (.error .noEntropy, e) else (.ok (S.nextKeyPair e), e.advance 32) := by
  unfold drawKeyPair drawPrivateKey
  rw [Draw.run_bind, Draw.run_bind, Draw.run_block]
  cases e.dead <;> rfl

section
variable {S : Suite}

namespace SessionState

variable {st st' st₁ : SessionState} {theirs : PublicKey} {m : RatchetMessage} {e e' : Entropy}
  {plain : Bytes}

/-! ### Sending -/

theorem advanceSender_ok (h : st.advanceSender S = .ok st') :
    ∃ chain next, st.senderChain = some chain ∧ chain.chainKey.next S = .ok next ∧
      st' = { st with senderChain := some { chain with chainKey := next } } := by
  obtain ⟨chain, hc, h⟩ := bind_eq_ok.mp h
  obtain ⟨next, hn, h⟩ := bind_eq_ok.mp h
  obtain ⟨chain', hc', h⟩ := bind_eq_ok.mp h
  rw [needed_eq_ok] at hc hc'
  rw [hc] at hc'
  cases hc'
  cases h
  exact ⟨chain, next, hc, hn, rfl⟩

variable (S) in
/-- The message that a session sends with a chain. -/
def sealed (st : SessionState) (remote own : PublicKey) (chain : SenderChain) (plain : Bytes) :
    RatchetMessage :=
  let keys := chain.chainKey.messageKeys S
  .make S st.version keys.macKey.bytes chain.ratchetKey.publicKey chain.chainKey.index
    st.previousCounter (S.encrypt keys.cipherKey keys.iv plain) own remote

/-- A session that sends moves its sender chain on, and nothing else. -/
theorem encrypt_ok {message : Message} (h : st.encrypt S plain = .ok (message, st')) :
    ∃ remote own chain next, st.remoteIdentity = some remote ∧ st.localIdentity = some own ∧
      st.senderChain = some chain ∧ chain.chainKey.next S = .ok next ∧
      message = encrypt.wrap st own (st.sealed S remote own chain plain) ∧
      st' = { st with senderChain := some { chain with chainKey := next } } := by
  obtain ⟨⟨remote, own⟩, identities, h⟩ := bind_eq_ok.mp h
  obtain ⟨hr, ho⟩ := identities_ok identities
  obtain ⟨chain, hc, h⟩ := bind_eq_ok.mp h
  obtain ⟨after, advanced, h⟩ := bind_eq_ok.mp h
  obtain ⟨chain', next, hc', hn, rfl⟩ := advanceSender_ok advanced
  rw [needed_eq_ok, hc'] at hc
  cases hc
  cases h
  exact ⟨remote, own, chain, next, hr, ho, hc', hn, rfl, rfl⟩

/-- What a session that has its keys sends, and what it is afterwards. -/
theorem encrypt_of_next {remote own : PublicKey} {chain : SenderChain} {next : ChainKey}
    (hr : st.remoteIdentity = some remote) (ho : st.localIdentity = some own)
    (hc : st.senderChain = some chain) (hn : chain.chainKey.next S = .ok next) (plain : Bytes) :
    st.encrypt S plain = .ok (encrypt.wrap st own (st.sealed S remote own chain plain),
      { st with senderChain := some { chain with chainKey := next } }) := by
  have identities : st.identities = .ok (remote, own) := by
    rw [SessionState.identities, hr, ho]
    rfl
  have advanced : st.advanceSender S
      = .ok { st with senderChain := some { chain with chainKey := next } } := by
    unfold advanceSender setSenderChainKey
    rw [hc]
    show (chain.chainKey.next S >>= _) = _
    rw [hn]
    rfl
  unfold encrypt
  rw [identities, hc, advanced]
  rfl

/-- A session that has its keys can send, unless its chain is at the last number. -/
theorem encrypt_of_ne {remote own : PublicKey} {chain : SenderChain}
    (hr : st.remoteIdentity = some remote) (ho : st.localIdentity = some own)
    (hc : st.senderChain = some chain) (more : chain.chainKey.index ≠ 0xffffffff) (plain : Bytes) :
    ∃ message st', st.encrypt S plain = .ok (message, st') := by
  obtain ⟨next, hn⟩ : ∃ next, chain.chainKey.next S = .ok next := ⟨_, if_neg more⟩
  exact ⟨_, _, encrypt_of_next hr ho hc hn plain⟩

/-! ### In one session -/

variable (S) in
/-- The session has a receiver chain for a ratchet key, after a turn if there was none before. -/
inductive Reached (st : SessionState) (theirs : PublicKey) (e : Entropy) :
    SessionState → Entropy → Prop
  | known {window} (h : st.window? theirs = some window) : Reached st theirs e st e
  | turned {root chain} (hw : st.window? theirs = none) (hr : st.rootKey = some root)
      (hc : st.senderChain = some chain) (he : e.dead = false) :
      Reached st theirs e (st.turnWith S root chain theirs (S.nextKeyPair e)) (e.advance 32)

theorem reach_known {window} (h : st.window? theirs = some window) :
    (st.reach S theirs).run e = (.ok st, e) := by
  simp [reach, h]

theorem reach_turned {root chain} (hw : st.window? theirs = none) (hr : st.rootKey = some root)
    (hc : st.senderChain = some chain) (he : e.dead = false) :
    (st.reach S theirs).run e
      = (.ok (st.turnWith S root chain theirs (S.nextKeyPair e)), e.advance 32) := by
  unfold reach
  rw [hw]
  simp only [hr, hc, needed, Draw.run_bind, Draw.run_liftExcept, S.run_drawKeyPair, he,
    Bool.false_eq_true, ↓reduceIte, Draw.run_pure]

theorem Reached.run (h : Reached S st theirs e st' e') :
    (st.reach S theirs).run e = (.ok st', e') := by
  cases h with
  | known h => exact reach_known h
  | turned hw hr hc he => exact reach_turned hw hr hc he

/-- A session is reached, or it finds the message invalid, or there are no random bytes. -/
theorem reach_cases (st : SessionState) (theirs : PublicKey) (e : Entropy) :
    (∃ st' e', Reached S st theirs e st' e') ∨
      (∃ fault, (st.reach S theirs).run e = (.error (.invalidMessage fault), e)) ∨
      (e.dead = true ∧ (st.reach S theirs).run e = (.error .noEntropy, e)) := by
  rcases hw : st.window? theirs with - | window
  · rcases hr : st.rootKey with - | root
    · refine .inr (.inl ⟨.noRootKey, ?_⟩)
      simp only [reach, hw, hr, needed, invalid, Draw.run_bind, Draw.run_liftExcept]
    rcases hc : st.senderChain with - | chain
    · refine .inr (.inl ⟨.uninitialized, ?_⟩)
      simp only [reach, hw, hr, hc, needed, invalid, Draw.run_bind, Draw.run_liftExcept]
    rcases he : e.dead
    · exact .inl ⟨_, _, .turned hw hr hc he⟩
    · refine .inr (.inr ⟨rfl, ?_⟩)
      simp only [reach, hw, hr, hc, needed, Draw.run_bind, Draw.run_liftExcept, S.run_drawKeyPair,
        he, ↓reduceIte]
  · exact .inl ⟨_, _, .known hw⟩

theorem reach_ok (h : (st.reach S theirs).run e = (.ok st', e')) :
    Reached S st theirs e st' e' := by
  rcases reach_cases st theirs e with ⟨st₁, e₁, reached⟩ | ⟨fault, invalid⟩ | ⟨-, dead⟩
  · rw [reached.run] at h
    cases h
    exact reached
  · rw [invalid] at h
    cases h
  · rw [dead] at h
    cases h

theorem Reached.before (h : Reached S st theirs e st' e') : e.Before e' := by
  cases h with
  | known => exact .refl e
  | turned => exact .one e

/-- An attempt looks at the sender chain, at the version, for a receiver chain, and at the
message. -/
theorem run_decrypt (st : SessionState) (m : RatchetMessage) (e : Entropy) :
    (st.decrypt S m).run e =
      if st.senderChain.isNone then (.error (.invalidMessage .uninitialized), e)
      else if m.version ≠ st.version then
        (.error (.invalidMessage (.otherVersion m.version st.version)), e)
      else match (st.reach S m.ratchetKey).run e with
        | (.ok st, e) => (st.decryptOn S m, e)
        | (.error err, e) => (.error err, e) := by
  by_cases hs : st.senderChain.isNone
  · simp only [decrypt, hs, ↓reduceIte]
    rfl
  simp only [decrypt, hs, Bool.false_eq_true, ↓reduceIte]
  by_cases hv : m.version ≠ st.version
  · rw [if_pos hv, if_pos hv]
    rfl
  rw [if_neg hv, if_neg hv, Draw.run_bind]
  rcases (st.reach S m.ratchetKey).run e with ⟨_ | st, e⟩
  · rfl
  · exact Draw.run_liftExcept _ e

theorem before_decrypt (st : SessionState) (m : RatchetMessage) (e : Entropy) :
    e.Before ((st.decrypt S m).run e).2 := by
  rw [run_decrypt]
  split
  · exact .refl e
  split
  · exact .refl e
  rcases reach_cases st m.ratchetKey e with ⟨st', e', reached⟩ | ⟨fault, invalid⟩ | ⟨-, dead⟩
  · rw [reached.run]
    exact reached.before
  · rw [invalid]
    exact .refl e
  · rw [dead]
    exact .refl e

/-- The keys open a message of their tag whose body they decrypt. -/
theorem openWith_ok {keys : MessageKeys} (h : st.openWith S m keys = .ok plain) :
    ∃ remote own, st.remoteIdentity = some remote ∧ st.localIdentity = some own ∧
      m.checkTag S remote own keys.macKey.bytes = .ok () ∧
      S.decrypt keys.cipherKey keys.iv m.body = .ok plain := by
  obtain ⟨⟨remote, own⟩, identities, h⟩ := bind_eq_ok.mp h
  obtain ⟨hr, ho⟩ := identities_ok identities
  obtain ⟨⟨⟩, tag, h⟩ := bind_eq_ok.mp h
  refine ⟨remote, own, hr, ho, tag, ?_⟩
  cases hd : S.decrypt keys.cipherKey keys.iv m.body with
  | ok plain' =>
    rw [hd] at h
    cases h
    rfl
  | error fault =>
    rw [hd] at h
    cases h

theorem decryptOn_ok (h : st.decryptOn S m = .ok (plain, st')) :
    ∃ window keys after, st.window? m.ratchetKey = some window ∧
      window.take (ChainKey.rule S) m.counter = .ok (keys, after) ∧
      st.openWith S m keys = .ok plain ∧
      st' = { st.setWindow m.ratchetKey after with pending := none } := by
  rw [decryptOn_eq_take] at h
  obtain ⟨window, hw, h⟩ := bind_eq_ok.mp h
  obtain ⟨⟨keys, after⟩, taken, h⟩ := bind_eq_ok.mp h
  obtain ⟨plain', opened, h⟩ := bind_eq_ok.mp h
  cases h
  exact ⟨window, keys, after, needed_eq_ok.mp hw, taken, opened, rfl⟩

/-- What a session that decrypts a message is like. -/
theorem decrypt_ok (h : (st.decrypt S m).run e = (.ok (plain, st'), e')) :
    st.senderChain.isSome ∧ m.version = st.version ∧
      ∃ st₁, Reached S st m.ratchetKey e st₁ e' ∧ st₁.decryptOn S m = .ok (plain, st') := by
  rw [run_decrypt] at h
  split at h
  · cases h
  rename_i hs
  split at h
  · cases h
  rename_i hv
  split at h
  · rename_i st₁ e₁ reached
    obtain ⟨decrypted, rfl⟩ := Prod.mk.inj h
    exact ⟨by simpa [Option.isSome_iff_ne_none] using hs, by simpa using hv, st₁, reach_ok reached,
      decrypted⟩
  · cases h

/-- A session that has decrypted a message has had an answer. -/
theorem pending_decrypt (h : (st.decrypt S m).run e = (.ok (plain, st'), e')) :
    st'.pending = none := by
  obtain ⟨-, -, st₁, -, decrypted⟩ := decrypt_ok h
  obtain ⟨window, keys, after, -, -, -, rfl⟩ := decryptOn_ok decrypted
  rfl

/-- The sender chain stays as it is, or a new one is started with a key that has just been made. -/
theorem senderChain_decrypt (h : (st.decrypt S m).run e = (.ok (plain, st'), e')) :
    st'.senderChain = st.senderChain ∨ (e' = e.advance 32 ∧
      ∃ chain, st'.senderChain = some ⟨S.nextKeyPair e, chain⟩ ∧ chain.index = 0) := by
  obtain ⟨-, -, st₁, reached, decrypted⟩ := decrypt_ok h
  obtain ⟨window, keys, after, -, -, -, rfl⟩ := decryptOn_ok decrypted
  cases reached with
  | known => exact .inl rfl
  | turned => exact .inr ⟨rfl, _, rfl, rfl⟩

end SessionState

/-! ### In a record -/

variable (S) in
/-- One session after another finds a message invalid. -/
inductive Refused (m : RatchetMessage) : List SessionState → Entropy → Entropy → Prop
  | nil (e : Entropy) : Refused m [] e e
  | cons {st sts e e₁ e₂ fault}
      (h : (SessionState.decrypt S st m).run e = (.error (.invalidMessage fault), e₁))
      (rest : Refused m sts e₁ e₂) : Refused m (st :: sts) e e₂

variable {m : RatchetMessage} {e e' : Entropy} {plain : Bytes}

/-- A message that is decrypted is decrypted by one session, after the ones before it have
refused. -/
theorem offer_ok {reasons : List String} {position i : Nat} {sts : List SessionState}
    {st' : SessionState} (h : (offer S m reasons position sts).run e = (.ok (i, plain, st'), e')) :
    ∃ before st after e₁, sts = before ++ st :: after ∧ i = position + before.length ∧
      Refused S m before e e₁ ∧ (st.decrypt S m).run e₁ = (.ok (plain, st'), e') := by
  induction sts generalizing reasons position e with
  | nil => cases h
  | cons st rest ih =>
    rw [offer, Draw.run_bind, Draw.run_attempt] at h
    rcases attempted : (st.decrypt S m).run e with ⟨err | ⟨plain', st₁⟩, e₁⟩
    · rw [attempted] at h
      cases err with
      | invalidMessage fault =>
        obtain ⟨before, st₂, after, e₂, rfl, rfl, refused, decrypted⟩ := ih h
        refine ⟨st :: before, st₂, after, e₂, rfl, ?_, .cons attempted refused, decrypted⟩
        rw [List.length_cons]
        omega
      | _ => cases h
    · rw [attempted] at h
      cases h
      exact ⟨[], st, rest, e, rfl, rfl, .nil e, attempted⟩

/-- The first session that does not refuse a message decides on it. -/
theorem offer_of_refused {before : List SessionState} {st st' : SessionState} {e₁ : Entropy}
    (refused : Refused S m before e e₁)
    (h : (st.decrypt S m).run e₁ = (.ok (plain, st'), e')) (after : List SessionState)
    (reasons : List String) (position : Nat) :
    (offer S m reasons position (before ++ st :: after)).run e
      = (.ok (position + before.length, plain, st'), e') := by
  induction refused generalizing reasons position with
  | nil e =>
    rw [List.nil_append, offer, Draw.run_bind, Draw.run_attempt, h]
    rfl
  | @cons first sts e e₁ e₂ fault failed rest ih =>
    rw [List.cons_append, offer, Draw.run_bind, Draw.run_attempt, failed]
    dsimp only
    rw [ih h, List.length_cons, Nat.add_assoc, Nat.add_comm 1]

theorem Refused.before {sts : List SessionState} (h : Refused S m sts e e') : e.Before e' := by
  induction h with
  | nil e => exact .refl e
  | @cons st sts e e₁ e₂ fault failed rest ih =>
    have first := st.before_decrypt (S := S) m e
    rw [failed] at first
    exact first.trans ih

theorem before_offer (m : RatchetMessage) (reasons : List String) (position : Nat)
    (sts : List SessionState) (e : Entropy) :
    e.Before ((offer S m reasons position sts).run e).2 := by
  induction sts generalizing reasons position e with
  | nil => exact .refl e
  | cons st rest ih =>
    have first := st.before_decrypt (S := S) m e
    rw [offer, Draw.run_bind, Draw.run_attempt]
    rcases attempted : (st.decrypt S m).run e with ⟨err | opened, e₁⟩
    · rw [attempted] at first
      cases err with
      | invalidMessage fault => exact first.trans (ih _ _ e₁)
      | _ => exact first
    · rw [attempted] at first
      exact first

namespace SessionRecord

/-- The sessions of a record, the current one first. -/
def sessions (r : SessionRecord) : List SessionState := r.current :: r.archive

/-- The record once the session at a position, the current one or one of the archive, has changed
and become the current one. -/
def advance (r : SessionRecord) : Nat → SessionState → SessionRecord
  | 0, st => { r with current := st }
  | i + 1, st => { r with archive := r.archive.eraseIdx i }.promote st

@[simp] theorem current_stored (r : SessionRecord) : r.stored.current = r.current := rfl

@[simp] theorem current_advance (r : SessionRecord) (i : Nat) (st : SessionState) :
    (r.advance i st).current = st := by
  cases i <;> rfl

theorem run_decrypt (r : SessionRecord) (m : RatchetMessage) (e : Entropy) :
    (r.decrypt S m).run e = match (offer S m [] 0 r.sessions).run e with
      | (.ok (i, plain, st), e) => (.ok (plain, r.advance i st), e)
      | (.error err, e) => (.error err, e) := by
  unfold decrypt sessions
  rw [Draw.run_bind]
  rcases (offer S m [] 0 (r.current :: r.archive)).run e with ⟨_ | ⟨_ | _, _, _⟩, _⟩ <;> rfl

theorem before_decrypt (r : SessionRecord) (m : RatchetMessage) (e : Entropy) :
    e.Before ((r.decrypt S m).run e).2 := by
  have offered := before_offer (S := S) m [] 0 r.sessions e
  rw [run_decrypt]
  rcases ran : (offer S m [] 0 r.sessions).run e with ⟨err | ⟨i, plain, st⟩, e'⟩
  · rw [ran] at offered
    exact offered
  · rw [ran] at offered
    exact offered

/-- If a session decrypts a message that the ones before it refuse, the record does. -/
theorem run_decrypt_of_refused {r : SessionRecord} {before after : List SessionState}
    {st st' : SessionState} {e₁ : Entropy} (sessions : r.sessions = before ++ st :: after)
    (refused : Refused S m before e e₁) (h : (st.decrypt S m).run e₁ = (.ok (plain, st'), e')) :
    (r.decrypt S m).run e = (.ok (plain, r.advance before.length st'), e') := by
  rw [run_decrypt, sessions, offer_of_refused refused h, Nat.zero_add]

/-- A record that decrypts a message has a session that does, which becomes the current one. -/
theorem decrypt_ok {r r' : SessionRecord} (h : (r.decrypt S m).run e = (.ok (plain, r'), e')) :
    ∃ before st after st' e₁, r.sessions = before ++ st :: after ∧
      Refused S m before e e₁ ∧ (st.decrypt S m).run e₁ = (.ok (plain, st'), e') ∧
      r' = r.advance before.length st' := by
  rw [run_decrypt] at h
  split at h
  · rename_i i plain' st' e₂ offered
    cases h
    obtain ⟨before, st, after, e₁, sessions, rfl, refused, decrypted⟩ := offer_ok offered
    exact ⟨before, st, after, st', e₁, sessions, refused, decrypted, by rw [Nat.zero_add]⟩
  · cases h

end SessionRecord
end

end DoubleRatchet
