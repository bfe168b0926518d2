/-
DoubleRatchet/Proofs/Single.lean

Stores that hold one session with a peer.

What an operation does to such a store is what the session makes of the plaintext or the
message, no more and no less: there is no other session that could step in, and the
identity of the session is the one that is pinned.  A store that holds none yet may face
a handshake: every pre-key message of that handshake sets up the same session.
-/
import DoubleRatchet.Proofs.Records

namespace DoubleRatchet

/-- What all pre-key messages of a session have in common. -/
structure Hello where
  registrationId : UInt32
  preKeyId : Option UInt32
  signedPreKeyId : UInt32
  baseKey : PublicKey
  identity : PublicKey

/-- The handshake of a pre-key message. -/
def PreKeyMessage.hello (m : PreKeyMessage) : Hello :=
  ⟨m.registrationId, m.preKeyId, m.signedPreKeyId, m.baseKey, m.identity⟩

namespace Store

/-- The session is the only one with the peer, and with the identity that is pinned. -/
structure Holds (s : Store) (peer : Address) (st : SessionState) : Prop where
  session : s.sessions[peer]? = some { current := st, fresh := false }
  pinned : s.identities[peer]? = st.remoteIdentity

/-- All pre-key messages of a handshake are for the session. -/
def Faces (S : Suite) (s : Store) (peer : Address) (hello : Hello) (st : SessionState) : Prop :=
  ∀ m : PreKeyMessage, m.version = currentVersion → m.hello = hello →
    ∃ used fresh, s.accept S peer (s.loadSession peer) m = .ok (used, { current := st, fresh })

/-- What is delivered to a store is for a session: the one that it holds, or the one of a handshake
that it faces. -/
inductive Answers (S : Suite) (s : Store) (peer : Address) (remote : PublicKey)
    (st : SessionState) : Message → RatchetMessage → Prop
  | ratchet {m} (h : s.Holds peer st) : Answers S s peer remote st (.ratchet m) m
  | preKey {m : PreKeyMessage} (version : m.version = currentVersion) (same : m.identity = remote)
    (h : s.Faces S peer m.hello st) : Answers S s peer remote st (.preKey m) m.message

end Store

section
variable {S : Suite} {peer : Address} {s : Site} {st st' : SessionState} {m : RatchetMessage}
  {plain : Bytes} {e e' : Entropy} {hello : Hello}

namespace Store

theorem Holds.loadSession_eq {s : Store} (h : s.Holds peer st) :
    s.loadSession peer = { current := st, fresh := false } :=
  loadSession_of_stored h.session

theorem Holds.isTrusted {s : Store} (h : s.Holds peer st) {remote : PublicKey}
    (hr : st.remoteIdentity = some remote) : s.isTrusted peer remote := by
  rw [isTrusted_iff, h.pinned, hr]
  rintro kept ⟨⟩
  rfl

theorem holds_storeSession (s : Store) (peer : Address) {remote : PublicKey} {r : SessionRecord}
    (hr : r.current.remoteIdentity = some remote) (single : r.archive = []) :
    ((s.saveIdentity peer remote).storeSession peer r).Holds peer r.current where
  session := by
    simp [storeSession, SessionRecord.stored, single]
  pinned := by
    rw [identities_storeSession, getElem?_saveIdentity, hr]

theorem Holds.saveIdentity {s : Store} (h : s.Holds peer st) {remote : PublicKey}
    (hr : st.remoteIdentity = some remote) : (s.saveIdentity peer remote).Holds peer st where
  session := h.session
  pinned := by rw [getElem?_saveIdentity, hr]

/-- Pinning an identity that is trusted anyway makes no difference. -/
theorem Faces.saveIdentity {s : Store} (h : s.Faces S peer hello st) :
    (s.saveIdentity peer hello.identity).Faces S peer hello st := by
  intro m version same
  obtain ⟨used, fresh, accepted⟩ := h m version same
  refine ⟨used, fresh, ?_⟩
  have identity : hello.identity = m.identity := by rw [← same]; rfl
  have trusted := (accept_ok accepted).1
  unfold accept at accepted ⊢
  rw [if_pos trusted] at accepted
  rw [identity, isTrusted_saveIdentity, if_pos (beq_self_eq_true _)]
  exact accepted

/-- A store that holds the session of a handshake faces it. -/
theorem Holds.faces {s : Store} (h : s.Holds peer st) (hr : st.remoteIdentity = some hello.identity)
    (named : st.isFor currentVersion hello.baseKey.transmitted) : s.Faces S peer hello st := by
  rintro m version rfl
  dsimp only [PreKeyMessage.hello] at hr named
  refine ⟨none, false, ?_⟩
  have known : (s.loadSession peer).knows m.version m.baseKey.transmitted := by
    rw [h.loadSession_eq, SessionRecord.knows, version]
    simpa using named
  unfold accept
  rw [if_pos (h.isTrusted hr), if_pos known, h.loadSession_eq]

end Store

/-! ### Operations -/

/-- A record of one session decrypts what the session decrypts. -/
theorem SessionRecord.run_decrypt_single {fresh : Bool}
    (h : (st.decrypt S m).run e = (.ok (plain, st'), e')) :
    (decrypt S { current := st, fresh } m).run e
      = (.ok (plain, { current := st', fresh }), e') := by
  have offered : (offer S m [] 0 [st]).run e = (.ok (0, plain, st'), e') := by
    rw [offer, Draw.run_bind, Draw.run_attempt, h]
    rfl
  rw [run_decrypt, sessions, offered]
  rfl

theorem SessionRecord.run_decrypt_single_error (fresh : Bool) {err : Error}
    (h : (st.decrypt S m).run e = (.error err, e')) :
    ∃ err', (decrypt S { current := st, fresh } m).run e = (.error err', e') := by
  have offered : ∃ err', (offer S m [] 0 [st]).run e = (.error err', e') := by
    rw [offer, Draw.run_bind, Draw.run_attempt, h]
    cases err with
    | invalidMessage fault => exact ⟨.invalidMessage (.noSession ([] ++ [fault.text])), rfl⟩
    | _ => exact ⟨_, rfl⟩
  obtain ⟨err', offered⟩ := offered
  refine ⟨err', ?_⟩
  rw [run_decrypt, sessions, offered]

/-- A store that holds a session encrypts what the session encrypts. -/
theorem Store.Holds.encrypt_ok {s s' : Site} {message : Message} (h : s.store.Holds peer st)
    (sent : (encrypt S peer plain).alone accepting s = (.ok message, s')) :
    ∃ st', st.encrypt S plain = .ok (message, st') ∧ s'.store.Holds peer st' ∧
      s'.entropy = s.entropy := by
  obtain ⟨-, remote', own, st', identities, -, made, rfl⟩ := DoubleRatchet.encrypt_ok sent
  rw [h.loadSession_eq] at identities made
  obtain ⟨hr', -⟩ := SessionState.identities_ok identities
  have kept : st'.remoteIdentity = some remote' :=
    (Evolves.sent (S := S) made).remoteIdentity_eq.trans hr'
  refine ⟨st', made, ?_, rfl⟩
  rw [Site.keep, h.loadSession_eq]
  exact holds_storeSession (r := { current := st', fresh := false }) _ _ kept rfl

/-- What is for a session is offered to a record of it alone. -/
theorem Store.Answers.offers {message : Message} {remote : PublicKey}
    (h : s.store.Answers S peer remote st message m) (hr : st.remoteIdentity = some remote) :
    ∃ fresh, s.store.Offers S peer remote { current := st, fresh } message m := by
  cases h with
  | ratchet h => exact ⟨false, .ratchet h.session (h.isTrusted hr)⟩
  | @preKey m version same h =>
    -- the handshake leads to the same session, whether it is there yet or not
    obtain ⟨used, fresh, accepted⟩ := h m version rfl
    exact ⟨fresh, .preKey same accepted⟩

/-- What the session decrypts is read. -/
theorem Store.Answers.read_ok {message : Message} {remote : PublicKey}
    (h : s.store.Answers S peer remote st message m) (hr : st.remoteIdentity = some remote)
    (opened : (st.decrypt S m).run s.entropy = (.ok (plain, st'), e')) :
    ∃ store', (message.read S peer).alone accepting s = (.ok plain, ⟨store', e'⟩) ∧
      store'.Holds peer st' := by
  have hr' : st'.remoteIdentity = some remote :=
    (Evolves.opened opened).remoteIdentity_eq.trans hr
  obtain ⟨fresh, offers⟩ := h.offers hr
  obtain ⟨store', read, stored, pinned⟩ :=
    offers.read_ok (SessionRecord.run_decrypt_single opened) hr'
  exact ⟨store', read, stored, pinned.trans hr'.symm⟩

/-- Of what the session does not decrypt nothing is kept, except that the identity is pinned. -/
theorem Store.Answers.read_error {message : Message} {remote : PublicKey} {err : Error}
    (h : s.store.Answers S peer remote st message m) (hr : st.remoteIdentity = some remote)
    (failed : (st.decrypt S m).run s.entropy = (.error err, e')) :
    ∃ err' store', (message.read S peer).alone accepting s = (.error err', ⟨store', e'⟩) ∧
      (store' = s.store ∨ store' = s.store.saveIdentity peer remote) := by
  obtain ⟨fresh, offers⟩ := h.offers hr
  obtain ⟨err', failed⟩ := SessionRecord.run_decrypt_single_error fresh failed
  exact ⟨err', offers.read_error failed⟩

end

end DoubleRatchet
