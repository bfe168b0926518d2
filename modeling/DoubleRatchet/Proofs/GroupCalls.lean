/-
DoubleRatchet/Proofs/GroupCalls.lean

What the operations on the chains of a group sender do to a device that is alone.

Each operation is one equation, as those of a session are: its outcome and the site
after it.  A `GroupCall` is one of them, and a run is a list of calls.  They write one
record, that of the sender, and a call that fails writes nothing at all.
-/
import DoubleRatchet.Group.Operations
import DoubleRatchet.Proofs.Runs

namespace DoubleRatchet

/-! ### What is stored -/

/-- The site with the chains of a group sender. -/
def Site.keepChains (s : Site) (sender : GroupSender) (record : GroupRecord) : Site :=
  { s with store := { s.store with senderKeys := s.store.senderKeys.insert sender record } }

@[simp] theorem Site.loadSenderKey_keepChains (s : Site) (sender : GroupSender)
    (record : GroupRecord) : (s.keepChains sender record).store.loadSenderKey sender = record := by
  simp [keepChains, Store.loadSenderKey]

/-- The first chain of our own that the next random bytes make. -/
def Suite.ownChains (S : Suite) (e : Entropy) : GroupRecord :=
  .own (UInt32.ofNat (ofLittle (e.peek 4).bytes) &&& maxSigned) 0 ((e.advance 4).peek 32)
    (S.nextKeyPair ((e.advance 4).advance 32))

theorem run_drawGroupRecord (S : Suite) (e : Entropy) :
    (drawGroupRecord S).run e
      = if e.dead then (.error .noEntropy, e)
        else (.ok (S.ownChains e), ((e.advance 4).advance 32).advance 32) := by
  unfold drawGroupRecord drawGroupKeyId Draw.number
  rw [Draw.run_bind, Draw.run_bind, Draw.run_bind, Draw.run_block]
  cases dead : e.dead
  · -- what is drawn leaves the source alive
    have alive : ¬(e.advance 4).dead = true := by simp [Entropy.advance, dead]
    have alive' : ¬((e.advance 4).advance 32).dead = true := by simp [Entropy.advance, dead]
    simp only [Bool.false_eq_true, ↓reduceIte, Draw.run_pure]
    rw [Draw.run_bind, Draw.run_block, if_neg alive]
    dsimp only
    rw [Draw.run_bind, S.run_drawKeyPair, if_neg alive']
    rfl
  · rfl

/-! ### Signing -/

section
variable (S : Suite)

/-- The message with a ciphertext, signed with some random bytes. -/
def GroupMessage.signed (keyId iteration : UInt32) (ciphertext : Bytes) (signingKey : PrivateKey)
    (random : Block 64) : GroupMessage :=
  let content := versionByte currentVersion ::
    (writeNumber 1 keyId ++ writeNumber 2 iteration ++ writeBytes 3 ciphertext)
  { version := currentVersion, keyId, iteration, ciphertext
    bytes := content ++ (S.sign signingKey.raw content random).bytes }

theorem run_drawSignature (k : PrivateKey) (message : Bytes) (e : Entropy) :
    (S.drawSignature k message).run e
      = if e.dead then (.error (.crypto .noSigningEntropy), e)
        else (.ok (S.sign k.raw message (e.peek 64)), e.advance 64) := by
  unfold Suite.drawSignature
  rw [Draw.run_bind]
  show (if e.dead then throw (.crypto .noSigningEntropy) else _ : Draw (Block 64)).run e = _
  cases dead : e.dead
  · show (Draw.block 64 >>= fun random => pure (S.sign k.raw message random)).run e = _
    rw [Draw.run_bind, Draw.run_block, dead]
    rfl
  · rfl

theorem run_makeGroupMessage (keyId iteration : UInt32) (ciphertext : Bytes)
    (signingKey : PrivateKey) (e : Entropy) :
    (GroupMessage.make S keyId iteration ciphertext signingKey).run e
      = if e.dead then (.error (.crypto .noSigningEntropy), e)
        else (.ok (.signed S keyId iteration ciphertext signingKey (e.peek 64)), e.advance 64) := by
  unfold GroupMessage.make
  rw [Draw.run_bind, run_drawSignature]
  cases e.dead <;> rfl

end

section
variable (S : Suite) (app : App) (sender : GroupSender)

/-! ### The operations -/

/-- A chain that we cannot sign for is not encrypted with; the chain moves on once the message is
signed. -/
theorem GroupRecord.run_encrypt (r : GroupRecord) (plain : Bytes) (e : Entropy) :
    (r.encrypt S sender plain).run e =
      match r.chains with
      | [] => (.error (.noSenderKey sender), e)
      | c :: older =>
        match c.signingSecret with
        | none => (.error (.noSigningKey sender), e)
        | some secret =>
          if e.dead then (.error (.crypto .noSigningEntropy), e)
          else
            let key := c.window.chain.messageKey S
            ((c.window.chain.next S).map fun next =>
              (.signed S c.keyId key.iteration (S.encrypt key.cipherKey key.iv plain) secret
                  (e.peek 64),
                ⟨{ c with window := { c.window with chain := next } } :: older⟩), e.advance 64) := by
  unfold encrypt
  rcases r.chains with - | ⟨c, older⟩
  · rfl
  dsimp only
  cases c.signingSecret with
  | none => rfl
  | some secret =>
    dsimp only
    rw [Draw.run_bind, run_makeGroupMessage]
    cases e.dead
    · simp only [Bool.false_eq_true, ↓reduceIte]
      rw [Draw.run_bind, Draw.run_liftExcept]
      cases c.window.chain.next S <;> rfl
    · rfl

theorem alone_announceChain (s : Site) :
    (announceChain S sender).alone app s =
      match (s.store.loadSenderKey sender).chains with
      | chain :: _ => (.ok chain.announcement, s)
      | [] =>
        if s.entropy.dead then (.error .noEntropy, s)
        else
          let own := S.ownChains s.entropy
          ((own.newest.mapError .invalidKeyId).map (·.announcement),
            { s with entropy := ((s.entropy.advance 4).advance 32).advance 32 }.keepChains sender
              own) := by
  unfold announceChain
  rw [Action.alone_locked, Action.alone_bind, Action.alone_store]
  dsimp only [Store.answer]
  rcases s.store.loadSenderKey sender with ⟨_ | ⟨chain, older⟩⟩
  · show Action.alone app (Action.random (drawGroupRecord S) >>= _) s = _
    rw [Action.alone_bind, Action.alone_random, run_drawGroupRecord]
    cases s.entropy.dead <;> rfl
  · rfl

theorem alone_learnChain (m : ChainAnnouncement) (s : Site) :
    (learnChain sender m).alone app s = (.ok (), s.keepChains sender
      ((s.store.loadSenderKey sender).add m.keyId m.iteration m.chainKey m.signingKey)) := by
  unfold learnChain
  rw [Action.alone_locked, Action.alone_bind, Action.alone_store]
  rfl

theorem alone_encryptGroup (plain : Bytes) (s : Site) :
    (encryptGroup S sender plain).alone app s =
      match ((s.store.loadSenderKey sender).encrypt S sender plain).run s.entropy with
      | (.error e, entropy) => (.error e, { s with entropy })
      | (.ok (message, record), entropy) =>
        (.ok message, { s with entropy }.keepChains sender record) := by
  unfold encryptGroup
  rw [Action.alone_locked, Action.alone_bind, Action.alone_store]
  dsimp only [Store.answer]
  rw [Action.alone_bind, Action.alone_random]
  rcases ((s.store.loadSenderKey sender).encrypt S sender plain).run s.entropy
    with ⟨_ | ⟨message, record⟩, entropy⟩ <;> rfl

theorem alone_decryptGroup (bs : Bytes) (s : Site) :
    (decryptGroup S sender bs).alone app s =
      if (s.store.loadSenderKey sender).isEmpty then (.error (.noSenderKey sender), s)
      else match GroupMessage.parse bs >>= (s.store.loadSenderKey sender).decrypt S with
        | .error e => (.error e, s)
        | .ok (plain, record) =>
          match app plain with
          | .error e => (.error e, s)
          | .ok () => (.ok plain, s.keepChains sender record) := by
  unfold decryptGroup
  rw [Action.alone_locked, Action.alone_bind, Action.alone_store]
  dsimp only [Store.answer]
  generalize s.store.loadSenderKey sender = record
  cases record.isEmpty
  · simp only [Bool.false_eq_true, ↓reduceIte]
    rw [Action.alone_bind, Action.alone_liftExcept]
    cases GroupMessage.parse bs with
    | error e => rfl
    | ok message =>
      show Action.alone app (liftM (record.decrypt S message) >>= _) s = _
      rw [Action.alone_bind, Action.alone_liftExcept]
      show _ = match record.decrypt S message with
        | .error e => _
        | .ok (plain, record) => _
      rcases record.decrypt S message with e | ⟨plain, record⟩
      · rfl
      dsimp only
      rw [Action.alone_bind, Action.alone_deliver]
      cases app plain <;> rfl
  · rfl

end

/-! ### Calls -/

/-- What an application does with the chains of a group sender. -/
inductive GroupCall where
  | announce
  | learn (m : ChainAnnouncement)
  | encrypt (plain : Bytes)
  | decrypt (bs : Bytes)

/-- What an application gets back. -/
inductive GroupAnswer where
  | announced (m : ChainAnnouncement)
  | learned
  | sent (m : GroupMessage)
  | read (plain : Bytes)
  deriving DecidableEq

/-- The operation that a call is. -/
def GroupCall.action (S : Suite) (sender : GroupSender) : GroupCall → Action GroupAnswer
  | announce => .announced <$> announceChain S sender
  | learn m => (fun _ => .learned) <$> learnChain sender m
  | encrypt plain => .sent <$> encryptGroup S sender plain
  | decrypt bs => .read <$> decryptGroup S sender bs

/-- A call of a device that is alone. -/
def GroupCall.run (S : Suite) (sender : GroupSender) (app : App) (c : GroupCall) (s : Site) :
    Except Error GroupAnswer × Site :=
  (c.action S sender).alone app s

/-- The site after some calls. -/
def Site.afterGroup (S : Suite) (sender : GroupSender) (s : Site)
    (calls : List (GroupCall × App)) : Site :=
  calls.foldl (fun s (c, app) => (c.run S sender app s).2) s

section
variable {S : Suite} {app : App} {sender : GroupSender} {s s' : Site} {e : Error}

/-! ### What success takes -/

namespace GroupRecord

variable {r r' : GroupRecord} {plain : Bytes}

theorem chain_eq_ok {keyId : UInt32} {c : GroupChain} :
    r.chain keyId = .ok c ↔ r.chains.find? (·.keyId == keyId) = some c := by
  unfold chain
  cases r.chains.find? (·.keyId == keyId) <;> simp

theorem mem_of_chain {keyId : UInt32} {c : GroupChain} (h : r.chain keyId = .ok c) : c ∈ r.chains ∧ c.keyId = keyId := by
  rw [chain_eq_ok] at h
  exact ⟨List.mem_of_find?_eq_some h, by simpa using List.find?_some h⟩

theorem isEmpty_of_chain {keyId : UInt32} {c : GroupChain} (h : r.chain keyId = .ok c) : r.isEmpty = false := by
  have known := List.ne_nil_of_mem (mem_of_chain h).1
  simpa [isEmpty] using known

/-- A record encrypts with the next key of its newest chain, which it can sign for, and moves that
chain on. -/
theorem encrypt_made {message : GroupMessage} {source source' : Entropy}
    (h : (r.encrypt S sender plain).run source = (.ok (message, r'), source')) :
    ∃ c older secret next, r.chains = c :: older ∧ c.signingSecret = some secret ∧
      c.window.chain.next S = .ok next ∧
      r' = ⟨{ c with window := { c.window with chain := next } } :: older⟩ ∧
      let key := c.window.chain.messageKey S
      message = .signed S c.keyId key.iteration (S.encrypt key.cipherKey key.iv plain) secret
        (source.peek 64) := by
  rw [run_encrypt] at h
  split at h
  · cases h
  rename_i c older chains
  split at h
  · cases h
  rename_i secret own
  split at h
  · cases h
  obtain ⟨outcome, -⟩ := Prod.mk.inj h
  obtain ⟨next, moved, same⟩ := map_eq_ok.mp outcome
  obtain ⟨rfl, rfl⟩ := Prod.mk.inj same
  exact ⟨c, older, secret, next, chains, own, moved, rfl, rfl⟩

/-- A record that encrypts moves its newest chain on, and nothing else. -/
theorem encrypt_ok {message : GroupMessage} {source source' : Entropy}
    (h : (r.encrypt S sender plain).run source = (.ok (message, r'), source')) :
    ∃ c older next, r.chains = c :: older ∧ c.window.chain.next S = .ok next ∧
      r' = ⟨{ c with window := { c.window with chain := next } } :: older⟩ := by
  obtain ⟨c, older, -, next, chains, -, moved, same, -⟩ := encrypt_made h
  exact ⟨c, older, next, chains, moved, same⟩

/-- A record that decrypts takes a key of the newest chain with the number that the message
names. -/
theorem decrypt_ok {m : GroupMessage} (h : r.decrypt S m = .ok (plain, r')) :
    ∃ c key window, r.chain m.keyId = .ok c ∧ m.checkSignature S c.signingKey = .ok () ∧
      c.window.take (GroupChainKey.rule S) m.iteration = .ok (key, window) ∧
      S.decrypt key.cipherKey key.iv m.ciphertext = .ok plain ∧
      r' = r.setChain m.keyId { c with window } := by
  unfold decrypt at h
  split at h
  · cases h
  rename_i c named
  obtain ⟨⟨⟩, signed, h⟩ := bind_eq_ok.mp h
  obtain ⟨⟨key, window⟩, taken, h⟩ := bind_eq_ok.mp h
  dsimp only at h
  split at h
  · rename_i opened
    cases h
    exact ⟨c, key, window, named, signed, taken, opened, rfl⟩
  · cases h

section
variable {m : GroupMessage} {c : GroupChain} {key : GroupMessageKey}
  {window : Window GroupChainKey GroupMessageKey}

theorem decrypt_of_take (named : r.chain m.keyId = .ok c)
    (signed : m.checkSignature S c.signingKey = .ok ())
    (taken : c.window.take (GroupChainKey.rule S) m.iteration = .ok (key, window))
    (opened : S.decrypt key.cipherKey key.iv m.ciphertext = .ok plain) :
    r.decrypt S m = .ok (plain, r.setChain m.keyId { c with window }) := by
  simp only [decrypt, named, signed, taken, opened, bind, Except.bind]
  rfl

theorem decrypt_of_error (named : r.chain m.keyId = .ok c)
    (signed : m.checkSignature S c.signingKey = .ok ())
    (failed : c.window.take (GroupChainKey.rule S) m.iteration = .error e) :
    r.decrypt S m = .error e := by
  simp only [decrypt, named, signed, failed, bind, Except.bind]

end

end GroupRecord

theorem encryptGroup_ok {plain : Bytes} {message : GroupMessage}
    (h : (encryptGroup S sender plain).alone app s = (.ok message, s')) :
    ∃ record entropy, ((s.store.loadSenderKey sender).encrypt S sender plain).run s.entropy
        = (.ok (message, record), entropy) ∧
      s' = { s with entropy }.keepChains sender record := by
  rw [alone_encryptGroup] at h
  split at h
  · cases h
  · rename_i record entropy made
    cases h
    exact ⟨record, entropy, made, rfl⟩

theorem decryptGroup_ok {bs plain : Bytes}
    (h : (decryptGroup S sender bs).alone app s = (.ok plain, s')) :
    ∃ m record, GroupMessage.parse bs = .ok m ∧
      (s.store.loadSenderKey sender).decrypt S m = .ok (plain, record) ∧ app plain = .ok () ∧
      s' = s.keepChains sender record := by
  rw [alone_decryptGroup] at h
  split at h
  · cases h
  split at h
  · cases h
  rename_i decrypted
  split at h
  · cases h
  rename_i delivered
  cases h
  obtain ⟨m, parsed, opened⟩ := bind_eq_ok.mp decrypted
  exact ⟨m, _, parsed, opened, delivered, rfl⟩

/-! ### What is left of a failure -/

theorem announceChain_error (h : (announceChain S sender).alone app s = (.error e, s')) :
    s' = s := by
  rw [alone_announceChain] at h
  split at h
  · cases h
  · split at h
    · cases h
      rfl
    · cases h

/-- Encrypting leaves the source as alive as it was. -/
theorem GroupRecord.dead_encrypt (r : GroupRecord) (plain : Bytes) (source : Entropy) :
    ((r.encrypt S sender plain).run source).2.dead = source.dead := by
  rw [run_encrypt]
  split
  · rfl
  split
  · rfl
  split
  · rfl
  · rfl

theorem encryptGroup_error {plain : Bytes}
    (h : (encryptGroup S sender plain).alone app s = (.error e, s')) :
    s'.store = s.store ∧ s'.entropy.dead = s.entropy.dead := by
  have alive : (((s.store.loadSenderKey sender).encrypt S sender plain).run s.entropy).2.dead
      = s.entropy.dead := GroupRecord.dead_encrypt _ plain s.entropy
  rw [alone_encryptGroup] at h
  split at h
  · rename_i failed
    cases h
    rw [failed] at alive
    exact ⟨rfl, alive⟩
  · cases h

theorem decryptGroup_error {bs : Bytes}
    (h : (decryptGroup S sender bs).alone app s = (.error e, s')) : s' = s := by
  rw [alone_decryptGroup] at h
  split at h
  · cases h
    rfl
  split at h
  · cases h
    rfl
  split at h
  · cases h
    rfl
  · cases h

/-- A message that the chains decrypt is read if the application takes it. -/
theorem decryptGroup_of_ok {bs plain : Bytes} {m : GroupMessage} {record : GroupRecord}
    (parsed : GroupMessage.parse bs = .ok m)
    (decrypted : (s.store.loadSenderKey sender).decrypt S m = .ok (plain, record))
    (delivered : app plain = .ok ()) :
    (decryptGroup S sender bs).alone app s = (.ok plain, s.keepChains sender record) := by
  obtain ⟨c, -, -, named, -⟩ := GroupRecord.decrypt_ok decrypted
  have opened : GroupMessage.parse bs >>= (s.store.loadSenderKey sender).decrypt S = _ :=
    bind_eq_ok.mpr ⟨m, parsed, decrypted⟩
  rw [alone_decryptGroup, GroupRecord.isEmpty_of_chain named, opened]
  dsimp only
  rw [delivered]
  rfl

/-- A message that the chains do not decrypt changes nothing. -/
theorem decryptGroup_of_error {bs : Bytes} {m : GroupMessage}
    (known : (s.store.loadSenderKey sender).isEmpty = false) (parsed : GroupMessage.parse bs = .ok m)
    (refused : (s.store.loadSenderKey sender).decrypt S m = .error e) :
    (decryptGroup S sender bs).alone app s = (.error e, s) := by
  have failed : GroupMessage.parse bs >>= (s.store.loadSenderKey sender).decrypt S = .error e := by
    rw [parsed]
    exact refused
  rw [alone_decryptGroup, known, failed]
  rfl

/-! ### What becomes of the chains -/

/-- What a call does to the chains of its sender. -/
inductive GroupCall.Changes (S : Suite) (sender : GroupSender) :
    GroupCall → GroupRecord → GroupRecord → Prop
  | same (c r) : Changes S sender c r r
  | made {r} (source : Entropy) (h : r.isEmpty) : Changes S sender .announce r (S.ownChains source)
  | learned (m r) : Changes S sender (.learn m) r (r.add m.keyId m.iteration m.chainKey m.signingKey)
  | sent {r r' plain message source source'}
    (h : (GroupRecord.encrypt S r sender plain).run source = (.ok (message, r'), source')) :
    Changes S sender (.encrypt plain) r r'
  | read {r r' bs m plain} (parsed : GroupMessage.parse bs = .ok m)
    (h : GroupRecord.decrypt S r m = .ok (plain, r')) : Changes S sender (.decrypt bs) r r'

theorem GroupCall.changes (S : Suite) (sender : GroupSender) (app : App) (c : GroupCall) (s : Site) :
    c.Changes S sender (s.store.loadSenderKey sender)
      ((c.run S sender app s).2.store.loadSenderKey sender) := by
  unfold run action
  cases c with
  | announce =>
    rw [Action.alone_map, alone_announceChain]
    split
    · exact .same ..
    rename_i none
    split
    · exact .same ..
    · rw [Site.loadSenderKey_keepChains]
      exact .made _ (by simp [GroupRecord.isEmpty, none])
  | learn m =>
    rw [Action.alone_map, alone_learnChain, Site.loadSenderKey_keepChains]
    exact .learned ..
  | encrypt plain =>
    rw [Action.alone_map, alone_encryptGroup]
    split
    · exact .same ..
    · rename_i sent
      rw [Site.loadSenderKey_keepChains]
      exact .sent sent
  | decrypt bs =>
    rw [Action.alone_map]
    rcases ran : (decryptGroup S sender bs).alone app s with ⟨e | plain, s'⟩
    · rw [decryptGroup_error ran]
      exact .same ..
    · obtain ⟨m, record, parsed, read, -, rfl⟩ := decryptGroup_ok ran
      rw [Site.loadSenderKey_keepChains]
      exact .read parsed read

end

end DoubleRatchet
