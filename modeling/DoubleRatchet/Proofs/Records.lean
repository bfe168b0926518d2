/-
DoubleRatchet/Proofs/Records.lean

Stores that keep several sessions with a peer.

`Store.Has` says which sessions are stored, the current one first, and whose identity is
pinned.  Starting a session puts it in front of the others, and what is sent is sent by
the one in front.

A message that is delivered is offered to the record that is stored, or to the one that
a pre-key message makes of it (`Store.Offers`).  If the record decrypts it, it is read,
and the record is stored as it is then; if not, nothing is kept but a pin that was
trusted anyway.
-/
import DoubleRatchet.Proofs.Exchange

namespace DoubleRatchet

/-- What is delivered to a store is offered to a record: the one that is stored, or the one that a
pre-key message is accepted into. -/
inductive Store.Offers (S : Suite) (s : Store) (peer : Address) (remote : PublicKey)
    (record : SessionRecord) : Message → RatchetMessage → Prop
  | ratchet {m} (stored : s.sessions[peer]? = some record) (trusted : s.isTrusted peer remote) :
    Offers S s peer remote record (.ratchet m) m
  | preKey {m : PreKeyMessage} {used} (same : m.identity = remote)
    (accepted : s.accept S peer (s.loadSession peer) m = .ok (used, record)) :
    Offers S s peer remote record (.preKey m) m.message

/-- The sessions with a peer that are stored, the current one first, and the identity that is pinned
for it. -/
structure Store.Has (s : Store) (peer : Address) (remote : PublicKey) (sts : List SessionState) :
    Prop where
  settled : s.Settled peer
  pinned : s.identities[peer]? = some remote
  sessions : s.sessionsWith peer = sts

section
variable {S : Suite} {peer : Address} {s : Site} {m : RatchetMessage} {plain : Bytes}
  {e' : Entropy} {message : Message} {remote : PublicKey} {record record' : SessionRecord}
  {st st' : SessionState} {sts : List SessionState}

theorem Store.loadSession_of_stored {s : Store} (h : s.sessions[peer]? = some record) :
    s.loadSession peer = record := by
  rw [loadSession, h]
  rfl

theorem Store.contains_of_stored {s : Store} (h : s.sessions[peer]? = some record) :
    s.sessions.contains peer := by
  rw [Std.ExtTreeMap.contains_eq_isSome_getElem?, h]
  rfl

/-! ### What is stored -/

/-- The first session is the current one. -/
theorem Store.current_of_sessionsWith {s : Store} {peer : Address} {st : SessionState}
    {others : List SessionState} (h : s.sessionsWith peer = st :: others) :
    (s.loadSession peer).current = st := by
  rcases s.loadSession_cases peer with ⟨none, -⟩ | stored
  · rw [sessionsWith, none] at h
    cases h
  · rw [sessionsWith_of_contains stored] at h
    exact (List.cons.inj h).1

theorem Store.has_storeSession (s : Store) (peer : Address) (remote : PublicKey)
    {record : SessionRecord} (bounded : record.archive.length ≤ limits.archivedSessions) :
    ((s.saveIdentity peer remote).storeSession peer record).Has peer remote record.sessions where
  settled := Store.settled_storeSession bounded
  pinned := by rw [Store.identities_storeSession, Store.getElem?_saveIdentity]
  sessions := Store.sessionsWith_storeSession ..

namespace Store.Has

theorem isTrusted {s : Store} (h : s.Has peer remote sts) : s.isTrusted peer remote := by
  rw [isTrusted_iff, h.pinned]
  rintro kept ⟨⟩
  rfl

/-- The sessions are those of one record. -/
theorem stored {s : Store} (h : s.Has peer remote (st :: sts)) :
    ∃ record, s.sessions[peer]? = some record ∧ record.sessions = st :: sts ∧ record.Settled := by
  have sessions := h.sessions
  rcases s.loadSession_cases peer with ⟨none, -⟩ | stored
  · rw [sessionsWith, none] at sessions
    cases sessions
  · rw [sessionsWith_of_contains stored] at sessions
    exact ⟨_, stored, sessions, h.settled _ stored⟩

/-- The session in front sends. -/
theorem encrypt_ok (h : s.store.Has peer remote (st :: sts)) (hr : st.remoteIdentity = some remote)
    (sent : st.encrypt S plain = .ok (message, st')) :
    ∃ record, (encrypt S peer plain).alone accepting s = (.ok message, s.keep peer remote record) ∧
      (s.keep peer remote record).store.Has peer remote (st' :: sts) := by
  obtain ⟨record, stored, sessions, settled⟩ := h.stored
  obtain ⟨rfl, rfl⟩ := List.cons.inj sessions
  obtain ⟨remote', own, chain, next, hr', ho, hc, -⟩ := SessionState.encrypt_ok sent
  have identities : record.current.identities = .ok (remote, own) := by
    rw [SessionState.identities, hr, ho]
    rfl
  refine ⟨{ record with current := st' }, ?_, has_storeSession _ _ _ settled.bounded⟩
  rw [alone_encrypt, loadSession_of_stored stored]
  dsimp only
  rw [settled.fresh, hc, identities]
  dsimp only
  rw [if_pos h.isTrusted, sent]
  rfl

/-- What the session in front sends is posted. -/
theorem step_post {pair : Pair} {role : HandshakeRole} {x : Exchange}
    {store : HandshakeRole → Store} {e : Entropy} (shows : x.world.Shows pair store e)
    (h : (store role).Has (pair.peer role) remote (st :: sts))
    (hr : st.remoteIdentity = some remote) (sent : st.encrypt S plain = .ok (message, st')) :
    ∃ record,
      let store' := (Site.keep ⟨store role, e⟩ (pair.peer role) remote record).store
      let y := x.step S pair (.post role plain)
      y.world.Shows pair (HandshakeRole.put store role store') e ∧
        store'.Has (pair.peer role) remote (st' :: sts) ∧
        y.posted = x.posted ++ [⟨role, plain, message⟩] ∧ y.read = x.read := by
  obtain ⟨record, ran, has⟩ := encrypt_ok (s := ⟨store role, e⟩) h hr sent
  obtain ⟨world, shows', same⟩ := Exchange.step_post_ok shows ran
  rw [same]
  exact ⟨record, shows', has, rfl, rfl⟩

/-- Nothing comes of it if the session in front cannot send. -/
theorem encrypt_error {err : Error} (h : s.store.Has peer remote (st :: sts))
    (failed : st.encrypt S plain = .error err) :
    ∃ err', (encrypt S peer plain).alone accepting s = (.error err', s) := by
  obtain ⟨record, stored, sessions, settled⟩ := h.stored
  obtain ⟨rfl, rfl⟩ := List.cons.inj sessions
  rcases ran : (encrypt S peer plain).alone accepting s with ⟨err' | message, s'⟩
  · rw [DoubleRatchet.encrypt_error ran]
    exact ⟨err', rfl⟩
  · obtain ⟨-, remote', own, st', -, -, made, -⟩ := DoubleRatchet.encrypt_ok ran
    rw [loadSession_of_stored stored, failed] at made
    cases made

end Store.Has

/-- A session that is started from a genuine bundle of someone trusted is put in front. -/
theorem startSession_has {bundle : PreKeyBundle} (settled : s.store.Settled peer)
    (trusted : s.store.isTrusted peer bundle.identity) (valid : bundle.checkSignature S = .ok ())
    (alive : s.entropy.dead = false) :
    let s' := { s with entropy := (s.entropy.advance 32).advance 32 }
    ∃ record, (startSession S peer bundle).alone accepting s
        = (.ok (), s'.keep peer bundle.identity record) ∧
      (s'.keep peer bundle.identity record).store.Has peer bundle.identity
        (s.store.greet S bundle .empty (S.nextKeyPair s.entropy)
          (S.nextKeyPair (s.entropy.advance 32)) ::
          (s.store.sessionsWith peer).take limits.archivedSessions) := by
  intro s'
  have current := Store.makeRoom_current settled
  have archive := Store.makeRoom_archive settled
  refine ⟨{ (s.store.loadSession peer).makeRoom with
    current := s.store.greet S bundle .empty (S.nextKeyPair s.entropy)
      (S.nextKeyPair (s.entropy.advance 32)) }, ?_, ?_⟩
  · rw [alone_startSession, if_pos trusted, valid, alive, ← current]
    rfl
  · rw [← archive]
    refine Store.has_storeSession _ _ _ ?_
    show (s.store.loadSession peer).makeRoom.archive.length ≤ limits.archivedSessions
    rw [archive, List.length_take]
    exact Nat.min_le_left ..

/-! ### What is delivered -/

/-- What tells of no handshake that the record does not know is offered to the record that is
stored. -/
theorem Store.offers_of_stored {s : Store} (stored : s.sessions[peer]? = some record)
    (trusted : s.isTrusted peer remote) (hm : message.inner? = some m)
    (known : ∀ m', message = .preKey m' →
      m'.identity = remote ∧ record.knows m'.version m'.baseKey.transmitted) :
    s.Offers S peer remote record message m := by
  cases message with
  | ratchet m' =>
    cases hm
    exact .ratchet stored trusted
  | preKey m' =>
    cases hm
    obtain ⟨same, knows⟩ := known m' rfl
    have accepted : s.accept S peer (s.loadSession peer) m' = .ok (none, record) := by
      unfold Store.accept
      rw [same, if_pos trusted, loadSession_of_stored stored, if_pos knows]
    exact .preKey same accepted
  | _ => cases hm

namespace Store.Offers

/-- What the record decrypts is read, and the record is stored. -/
theorem read_ok (h : s.store.Offers S peer remote record message m)
    (opened : (record.decrypt S m).run s.entropy = (.ok (plain, record'), e'))
    (hr : record'.current.remoteIdentity = some remote) :
    ∃ store', (message.read S peer).alone accepting s = (.ok plain, ⟨store', e'⟩) ∧
      store'.sessions[peer]? = some record'.stored ∧
      store'.identities[peer]? = some remote := by
  cases h with
  | ratchet stored trusted =>
    refine ⟨(s.store.saveIdentity peer remote).storeSession peer record', ?_, ?_, ?_⟩
    · rw [Message.read, alone_decryptMessage, if_pos (Store.contains_of_stored stored),
        Store.loadSession_of_stored stored, opened]
      dsimp only
      rw [hr]
      dsimp only
      rw [if_pos trusted]
      rfl
    · simp [Store.storeSession]
    · rw [identities_storeSession, getElem?_saveIdentity]
  | @preKey m used same accepted =>
    refine ⟨((s.store.saveIdentity peer remote).storeSession peer record').useUp used, ?_, ?_, ?_⟩
    · rw [Message.read, alone_decryptPreKeyMessage, accepted]
      dsimp only
      rw [opened, ← same]
      rfl
    · simp [Store.storeSession, Store.useUp]
    · rw [identities_useUp, identities_storeSession, getElem?_saveIdentity]

/-- The first session that does not refuse what is offered reads it and comes to the front, and the
other ones stay as they are. -/
theorem read_front {before after : List SessionState} {e : Entropy}
    (h : s.store.Offers S peer remote record message m)
    (sessions : record.sessions = before ++ st :: after)
    (bounded : record.archive.length ≤ limits.archivedSessions)
    (refused : Refused S m before s.entropy e)
    (ran : (st.decrypt S m).run e = (.ok (plain, st'), e'))
    (hr : st'.remoteIdentity = some remote) :
    ∃ store', (message.read S peer).alone accepting s = (.ok plain, ⟨store', e'⟩) ∧
      store'.Has peer remote (st' :: (before ++ after)) := by
  obtain ⟨store', read, stored, pinned⟩ := h.read_ok
    (SessionRecord.run_decrypt_of_refused sessions refused ran)
    (by rw [SessionRecord.current_advance, hr])
  have sessions' := SessionRecord.sessions_advance st' sessions bounded
  refine ⟨store', read, ?settled, pinned, ?sessions⟩
  case settled =>
    intro r hr
    rw [stored] at hr
    cases hr
    refine ⟨rfl, ?_⟩
    -- no session has been lost, and none has been added
    have count := congrArg List.length sessions'
    have count' := congrArg List.length sessions
    simp only [SessionRecord.sessions, List.length_cons, List.length_append] at count count'
    show (record.advance before.length st').archive.length ≤ limits.archivedSessions
    omega
  case sessions =>
    rw [Store.sessionsWith_of_contains stored, ← sessions']
    rfl

/-- Of what the record does not decrypt nothing is kept, except that the identity is pinned. -/
theorem read_error {err : Error} (h : s.store.Offers S peer remote record message m)
    (failed : (record.decrypt S m).run s.entropy = (.error err, e')) :
    ∃ store', (message.read S peer).alone accepting s = (.error err, ⟨store', e'⟩) ∧
      (store' = s.store ∨ store' = s.store.saveIdentity peer remote) := by
  cases h with
  | ratchet stored trusted =>
    refine ⟨s.store, ?_, .inl rfl⟩
    rw [Message.read, alone_decryptMessage, if_pos (Store.contains_of_stored stored),
      Store.loadSession_of_stored stored, failed]
  | @preKey m used same accepted =>
    refine ⟨s.store.saveIdentity peer remote, ?_, .inr rfl⟩
    rw [Message.read, alone_decryptPreKeyMessage, accepted]
    dsimp only
    rw [failed, ← same]

end Store.Offers

end

end DoubleRatchet
