/-
DoubleRatchet/Proofs/Authenticity.lean

Whatever is read is authentic.

A message is its fields and its bytes side by side, and only the bytes are authenticated.
What is read all the same comes from the authenticated bytes alone:

    version byte   body                    tag or signature
    ╰──────────── authenticated ────────╯
                   ╰─ says which keys ─╯
                      and what they open

A session that decrypts a message has found the tag of these bytes to be that of the keys
for the ratchet key and the counter in them (`SessionState.Authenticates`), and a group
record the signature to be that of the chain that they name.  So a session accepts one tag
for the same content at most.
-/
import DoubleRatchet.Proofs.Bodies
import DoubleRatchet.Proofs.GroupOnce
import DoubleRatchet.Proofs.Ladder
import DoubleRatchet.Proofs.Once

namespace DoubleRatchet

/-! ### Sessions -/

section
variable (S : Suite)

/-- The keys that a session has for a number of the receiver chain of a ratchet key, a new one if
there is none yet. -/
def SessionState.keysFor (st : SessionState) (theirs : PublicKey) (counter : UInt32) :
    Option MessageKeys :=
  (st.windowFor S theirs).bind fun window => (window.peek (ChainKey.rule S) counter).toOption

/-- The bytes are a message to the session with this plaintext: they end with the tag of all before
it under the keys for what they say, and these keys decrypt the ciphertext in them. -/
def SessionState.Authenticates (st : SessionState) (bs plain : Bytes) : Prop :=
  ∃ (m : RatchetMessage) (remote own : PublicKey) (keys : MessageKeys),
    m.bytes = bs ∧ m.Faithful ∧
    st.remoteIdentity = some remote ∧ st.localIdentity = some own ∧
    st.keysFor S m.ratchetKey m.counter = some keys ∧
    bs.drop (bs.length - 8) = (S.mac keys.macKey.bytes
      (remote.transmitted ++ own.transmitted ++ bs.take (bs.length - 8))).bytes.take 8 ∧
    S.decrypt keys.cipherKey keys.iv m.body = .ok plain

end

section
variable {S : Suite}

theorem RatchetMessage.checkTag_eq_ok {m : RatchetMessage} {sender receiver : PublicKey}
    {macKey : Bytes} : m.checkTag S sender receiver macKey = .ok () ↔
      m.sentTag = tag S sender receiver macKey m.content := by
  unfold checkTag
  split
  · rename_i same
    exact iff_of_true rfl same.symm
  · rename_i other
    exact iff_of_false nofun fun same => other same.symm

namespace SessionState

variable {st st' : SessionState} {m : RatchetMessage} {bs bs' plain plain' : Bytes}
  {e e' : Entropy}

/-- What a session decrypts is authentic. -/
theorem authenticates_decrypt (parsed : RatchetMessage.parse bs = .ok m)
    (h : (st.decrypt S m).run e = (.ok (plain, st'), e')) : st.Authenticates S bs plain := by
  obtain ⟨rfl, faithful⟩ := RatchetMessage.parse_eq_ok.mp parsed
  obtain ⟨window, keys, remote, own, hw, looked, hr, ho, genuine, opened⟩ := decrypt_keys h
  refine ⟨m, remote, own, keys, rfl, faithful, hr, ho, ?_, RatchetMessage.checkTag_eq_ok.mp genuine,
    opened⟩
  rw [keysFor, hw, Option.bind_some]
  exact toOption_eq_some.mpr looked

/-- What stands in front of the tag says which tag is right. -/
theorem Authenticates.unique (h : st.Authenticates S bs plain) (h' : st.Authenticates S bs' plain')
    (same : bs'.take (bs'.length - 8) = bs.take (bs.length - 8)) : bs' = bs ∧ plain' = plain := by
  obtain ⟨m, remote, own, keys, rfl, ⟨fields, carries, told⟩, hr, ho, hk, tagged, opened⟩ := h
  obtain ⟨m', remote', own', keys', rfl, ⟨fields', carries', told'⟩, hr', ho', hk', tagged', opened'⟩ :=
    h'
  obtain rfl : remote' = remote := Option.some.inj (hr'.symm.trans hr)
  obtain rfl : own' = own := Option.some.inj (ho'.symm.trans ho)
  -- both say the same, since the tag says nothing
  have body : enclosed tagLength m'.bytes = enclosed tagLength m.bytes := congrArg List.tail same
  obtain rfl : fields' = fields := by
    have read := carries'.body
    rw [body, carries.body] at read
    exact (Except.ok.inj read).symm
  have key : m'.ratchetKey = m.ratchetKey := by
    have read := told'.ratchetKey.symm.trans told.ratchetKey
    exact Except.ok.inj (Option.some.inj read)
  have counter : m'.counter = m.counter :=
    Option.some.inj (told'.counter.symm.trans told.counter)
  have ciphertext : m'.body = m.body := Option.some.inj (told'.body.symm.trans told.body)
  -- so the same keys make both tags
  rw [key, counter, hk] at hk'
  cases hk'
  rw [same, ← tagged] at tagged'
  constructor
  · rw [← List.take_append_drop (m'.bytes.length - 8) m'.bytes, same, tagged',
      List.take_append_drop]
  · rw [ciphertext, opened] at opened'
    exact (Except.ok.inj opened').symm

end SessionState

end

/-! ### Groups -/

section
variable (S : Suite)

/-- The bytes are a message to the group with this plaintext: they end with a signature of all
before it under the key of the chain that they name, and the key of that chain for the number in
them decrypts the ciphertext in them. -/
def GroupRecord.Authenticates (r : GroupRecord) (bs plain : Bytes) : Prop :=
  ∃ (m : GroupMessage) (c : GroupChain) (key : GroupMessageKey),
    m.bytes = bs ∧ m.Faithful ∧ r.chain m.keyId = .ok c ∧
    S.verify c.signingKey.raw (bs.take (bs.length - 64)) (bs.drop (bs.length - 64)) = true ∧
    c.window.peek (GroupChainKey.rule S) m.iteration = .ok key ∧
    S.decrypt key.cipherKey key.iv m.ciphertext = .ok plain

end

section
variable {S : Suite}

theorem GroupMessage.checkSignature_eq_ok {m : GroupMessage} {signingKey : PublicKey} :
    m.checkSignature S signingKey = .ok () ↔
      S.verify signingKey.raw m.content m.signature = true := by
  unfold checkSignature
  split
  · rename_i holds
    exact iff_of_true rfl holds
  · rename_i refused
    exact iff_of_false nofun refused

/-- What a group record decrypts is authentic. -/
theorem GroupRecord.authenticates_decrypt {r r' : GroupRecord} {m : GroupMessage}
    {bs plain : Bytes} (parsed : GroupMessage.parse bs = .ok m)
    (h : r.decrypt S m = .ok (plain, r')) : r.Authenticates S bs plain := by
  obtain ⟨rfl, faithful⟩ := GroupMessage.parse_eq_ok.mp parsed
  obtain ⟨c, key, window, named, signed, taken, opened, -⟩ := GroupRecord.decrypt_ok h
  refine ⟨m, c, key, rfl, faithful, named, GroupMessage.checkSignature_eq_ok.mp signed, ?_, opened⟩
  rw [Window.peek_eq_take, taken]
  rfl

/-- A message that is made for a group says what its bytes say, and ends with the signature of what
is before it. -/
theorem GroupMessage.make_ok {keyId iteration : UInt32} {ciphertext : Bytes}
    {signingKey : PrivateKey} {m : GroupMessage} {e e' : Entropy}
    (fits : ciphertext.length < UInt64.size)
    (h : (make S keyId iteration ciphertext signingKey).run e = (.ok m, e')) :
    m.Faithful ∧ m.keyId = keyId ∧ m.iteration = iteration ∧ m.ciphertext = ciphertext ∧
      m.signature = (S.sign signingKey.raw m.content (e.peek 64)).bytes := by
  rw [run_makeGroupMessage] at h
  split at h
  · cases h
  cases h
  exact ⟨(parse_eq_ok.mp (parse_signed fits)).2, rfl, rfl, rfl, signature_signed⟩

end

/-! ### All that is read -/

/-- Everything that is read has been authenticated: a message of a session by the session that
decrypts it, a message to a group by the chain that it names.  A session accepts one tag at most for
the same content; and messages that are made say what their bytes say, up to the tag or the
signature of all before it. -/
theorem read_authentic (S : Suite) :
    (∀ (r r' : SessionRecord) (m : RatchetMessage) (bs plain : Bytes) (e e' : Entropy),
      RatchetMessage.parse bs = .ok m → (r.decrypt S m).run e = (.ok (plain, r'), e') →
      ∃ before st after st' e₁, r.sessions = before ++ st :: after ∧ Refused S m before e e₁ ∧
        (st.decrypt S m).run e₁ = (.ok (plain, st'), e') ∧ st.Authenticates S bs plain) ∧
    (∀ (st st₁ st₂ : SessionState) (m₁ m₂ : RatchetMessage) (bs₁ bs₂ plain₁ plain₂ : Bytes)
      (e₁ e₁' e₂ e₂' : Entropy),
      RatchetMessage.parse bs₁ = .ok m₁ → RatchetMessage.parse bs₂ = .ok m₂ →
      bs₁.take (bs₁.length - 8) = bs₂.take (bs₂.length - 8) →
      (st.decrypt S m₁).run e₁ = (.ok (plain₁, st₁), e₁') →
      (st.decrypt S m₂).run e₂ = (.ok (plain₂, st₂), e₂') → bs₁ = bs₂ ∧ plain₁ = plain₂) ∧
    (∀ (sender : GroupSender) (app : App) (s s' : Site) (bs plain : Bytes),
      (decryptGroup S sender bs).alone app s = (.ok plain, s') →
      (s.store.loadSenderKey sender).Authenticates S bs plain) ∧
    (∀ (macKey : Bytes) (ratchetKey : PublicKey) (counter previousCounter : UInt32) (body : Bytes)
      (sender receiver : PublicKey), body.length < UInt64.size →
      let m := RatchetMessage.make S currentVersion macKey ratchetKey counter previousCounter body
        sender receiver
      m.Faithful ∧ m.sentTag = RatchetMessage.tag S sender receiver macKey m.content) ∧
    (∀ (keyId iteration : UInt32) (ciphertext : Bytes) (signingKey : PrivateKey) (m : GroupMessage)
      (e e' : Entropy), ciphertext.length < UInt64.size →
      (GroupMessage.make S keyId iteration ciphertext signingKey).run e = (.ok m, e') →
      m.Faithful ∧ m.signature = (S.sign signingKey.raw m.content (e.peek 64)).bytes) := by
  refine ⟨?_, ?_, ?_, ?_, ?_⟩
  · intro r r' m bs plain e e' parsed decrypted
    obtain ⟨before, st, after, st', e₁, sessions, refused, opened, -⟩ :=
      SessionRecord.decrypt_ok decrypted
    exact ⟨before, st, after, st', e₁, sessions, refused, opened,
      SessionState.authenticates_decrypt parsed opened⟩
  · intro st st₁ st₂ m₁ m₂ bs₁ bs₂ plain₁ plain₂ e₁ e₁' e₂ e₂' parsed₁ parsed₂ same opened₁ opened₂
    have first := SessionState.authenticates_decrypt parsed₁ opened₁
    have second := SessionState.authenticates_decrypt parsed₂ opened₂
    exact second.unique first same
  · intro sender app s s' bs plain read
    obtain ⟨m, record, parsed, decrypted, -, -⟩ := decryptGroup_ok read
    exact GroupRecord.authenticates_decrypt parsed decrypted
  · intro macKey ratchetKey counter previousCounter body sender receiver fits
    exact ⟨RatchetMessage.faithful_make S macKey sender receiver fits,
      RatchetMessage.checkTag_eq_ok.mp (RatchetMessage.checkTag_make ..)⟩
  · intro keyId iteration ciphertext signingKey m e e' fits made
    obtain ⟨faithful, -, -, -, signed⟩ := GroupMessage.make_ok fits made
    exact ⟨faithful, signed⟩

namespace Toy

/-- The second message of the peer with another tag. -/
def forged : Bytes :=
  second.message.bytes.take (second.message.bytes.length - 8) ++ List.replicate 8 0

end Toy

/-- The second message of a peer is authentic, and under no other tag is it read; so is a message to
a group. -/
theorem read_authentic_second :
    let record := Toy.reader.store.loadSession Toy.alice
    let told := Toy.bob.afterGroup Toy.suite Toy.team [(.learn Toy.announcement, accepting)]
    (∃ st ∈ record.sessions, st.Authenticates Toy.suite Toy.second.message.bytes [0]) ∧
    (∀ m e, RatchetMessage.parse Toy.forged = .ok m →
      ∃ err, ((record.current.decrypt Toy.suite m).run e).1 = .error err) ∧
    (told.store.loadSenderKey Toy.team).Authenticates Toy.suite Toy.groupLetter.bytes [1] ∧
    (RatchetMessage.make Toy.suite currentVersion [1] (Toy.keyPair 6).publicKey 1 0 [0]
      (Toy.keyPair 4).publicKey (Toy.keyPair 1).publicKey).Faithful ∧
    ∃ m e, (GroupMessage.make Toy.suite 5 0 [1] (Toy.keyPair 6).privateKey).run Toy.bob.entropy
      = (.ok m, e) ∧ m.Faithful := by
  intro record told
  obtain ⟨session, unique, group, made, signed⟩ := read_authentic Toy.suite
  have parsed : RatchetMessage.parse Toy.second.message.bytes = .ok Toy.second.message :=
    toOption_eq_some.mp (by decide +kernel)
  refine ⟨?_, ?_, ?_, ?_, ?_⟩
  · have plain : ((record.decrypt Toy.suite Toy.second.message).run Toy.bob.entropy).1.toOption.map
        (·.1) = some [0] := by decide +kernel
    rcases ran : (record.decrypt Toy.suite Toy.second.message).run Toy.bob.entropy
      with ⟨outcome, e'⟩
    rw [ran] at plain
    obtain ⟨⟨_, r'⟩, success, rfl⟩ := Option.map_eq_some_iff.mp plain
    obtain rfl := toOption_eq_some.mp success
    obtain ⟨before, st, after, st', e₁, sessions, -, -, authentic⟩ :=
      session record r' _ _ _ _ e' parsed ran
    refine ⟨st, ?_, authentic⟩
    rw [sessions]
    exact List.mem_append_right _ List.mem_cons_self
  · intro m e forged
    have reads : ((record.current.decrypt Toy.suite Toy.second.message).run
        Toy.bob.entropy).1.toOption.isSome := by decide +kernel
    rcases ran : (record.current.decrypt Toy.suite Toy.second.message).run Toy.bob.entropy
      with ⟨err | ⟨plain, st⟩, e'⟩
    · rw [ran] at reads
      cases reads
    rcases again : (record.current.decrypt Toy.suite m).run e with ⟨err | ⟨plain', st'⟩, e''⟩
    · exact ⟨err, rfl⟩
    · have same : Toy.forged.take (Toy.forged.length - 8) = Toy.second.message.bytes.take
          (Toy.second.message.bytes.length - 8) := by decide +kernel
      have equal := (unique _ _ _ _ _ _ _ _ _ _ _ _ _ forged parsed same again ran).1
      exact absurd equal (by decide +kernel)
  · have ok : ((decryptGroup Toy.suite Toy.team Toy.groupLetter.bytes).alone accepting
        told).1.toOption = some [1] := by decide +kernel
    rcases ran : (decryptGroup Toy.suite Toy.team Toy.groupLetter.bytes).alone accepting told
      with ⟨outcome, s'⟩
    rw [ran] at ok
    obtain rfl := toOption_eq_some.mp ok
    exact group _ _ _ _ _ _ ran
  · exact (made [1] (Toy.keyPair 6).publicKey 1 0 [0] (Toy.keyPair 4).publicKey
      (Toy.keyPair 1).publicKey (by decide)).1
  · have ran : (GroupMessage.make Toy.suite 5 0 [1] (Toy.keyPair 6).privateKey).run Toy.bob.entropy
        = _ := run_makeGroupMessage Toy.suite 5 0 [1] (Toy.keyPair 6).privateKey Toy.bob.entropy
    exact ⟨_, _, ran, (signed 5 0 [1] _ _ _ _ (by decide) ran).1⟩

end DoubleRatchet
