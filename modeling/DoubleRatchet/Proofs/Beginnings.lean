/-
DoubleRatchet/Proofs/Beginnings.lean

How the two sides of a session begin.

The initiator has taken keys from a bundle and chosen a base key and a ratchet key; the
responder has the key pairs of the bundle and is told the base key (`Beginning`).  When
both mean the same handshake (`Beginning.Fits`), they have the same secrets, so the
responder stands on the rung that the handshake leads to, and the initiator on the next
one:

    initiator    rung 1   its ratchet key
    responder    rung 0   the signed pre-key of the bundle

Nothing has been sent yet, and so everything that can be said of two sessions that
correspond holds from the start (`Fits.correspondence`).
-/
import DoubleRatchet.Proofs.Agreement
import DoubleRatchet.Proofs.Correspondence
import DoubleRatchet.Proofs.Single

namespace DoubleRatchet

open HandshakeRole

variable (S : Suite) in
/-- The rung that a handshake leads to: the responder stands on it. -/
def ResponderKeys.rung (k : ResponderKeys) : Rung where
  key := k.ratchetKey
  root := (firstKeys S (k.secrets S)).1
  chain := (firstKeys S (k.secrets S)).2

variable (S : Suite) in
/-- The session that every pre-key message of a handshake sets up. -/
def Hello.welcome (hello : Hello) (s : Store) (keys : ResponderKeys) : SessionState :=
  { SessionState.empty.respond S keys with
    localRegistrationId := s.registrationId
    remoteRegistrationId := hello.registrationId }.nameAfter hello.baseKey.transmitted

/-- The store has the keys of a handshake: every pre-key message of it sets up the session. -/
def Store.Welcomes (S : Suite) (s : Store) (hello : Hello) (st : SessionState) : Prop :=
  ∀ m : PreKeyMessage, m.hello = hello →
    ∃ keys, s.responderKeys m = .ok keys ∧ s.welcome S m .empty keys = st

/-- A session that is not known yet is set up in front of the others. -/
theorem Store.Has.offers_welcome {S : Suite} {s : Store} {peer : Address} {remote : PublicKey}
    {sts : List SessionState} {st : SessionState} {m : PreKeyMessage} (h : s.Has peer remote sts)
    (same : m.identity = remote) (welcomes : s.Welcomes S m.hello st)
    (unknown : ∀ st' ∈ sts, ¬st'.isFor m.version m.baseKey.transmitted) :
    ∃ record, s.Offers S peer remote record (.preKey m) m.message ∧
      record.sessions = st :: sts.take limits.archivedSessions ∧
      record.archive.length ≤ limits.archivedSessions := by
  obtain ⟨keys, found, rfl⟩ := welcomes m rfl
  have archive := makeRoom_archive h.settled
  rw [h.sessions] at archive
  have new : ¬(s.loadSession peer).knows m.version m.baseKey.transmitted := by
    rw [knows_loadSession, h.sessions, List.any_eq_true]
    rintro ⟨st', there, named⟩
    exact unknown st' there named
  have accepted : s.accept S peer (s.loadSession peer) m
      = .ok (m.preKeyId.filter (· != lastResortPreKey),
        { (s.loadSession peer).makeRoom with current := s.welcome S m .empty keys }) := by
    unfold accept
    rw [same, if_pos h.isTrusted, if_neg new, found, ← makeRoom_current h.settled]
    rfl
  refine ⟨_, .preKey same accepted, congrArg _ archive, ?_⟩
  show (s.loadSession peer).makeRoom.archive.length ≤ limits.archivedSessions
  rw [archive, List.length_take]
  exact Nat.min_le_left ..

/-- What the initiator takes from a bundle. -/
def Store.asking (s : Store) (bundle : PreKeyBundle) (baseKey : KeyPair) : InitiatorKeys where
  identity := s.identity
  baseKey := baseKey
  theirIdentity := bundle.identity
  theirSignedPreKey := bundle.signedPreKey
  theirOneTimePreKey := bundle.oneTimePreKey
  theirRatchetKey := bundle.signedPreKey

/-- What both sides of a handshake have. -/
structure Beginning where
  initiator : Store
  bundle : PreKeyBundle
  baseKey : KeyPair
  ratchetKey : KeyPair
  responder : Store
  keys : ResponderKeys
  /-- What the responder is told. -/
  hello : Hello

namespace Beginning

variable (S : Suite) (b : Beginning)

def identity : HandshakeRole → PublicKey
  | .initiator => b.initiator.identity.publicKey
  | .responder => b.keys.identity.publicKey

/-- The sessions that the handshake sets up. -/
def session : HandshakeRole → SessionState
  | .initiator => b.initiator.greet S b.bundle .empty b.baseKey b.ratchetKey
  | .responder => b.hello.welcome S b.responder b.keys

/-- The responder stands on the first rung, and the initiator on one of its own above it. -/
def ladder : HandshakeRole → Ladder
  | .initiator => ⟨(b.keys.rung S).next S b.ratchetKey, [b.keys.rung S]⟩
  | .responder => ⟨b.keys.rung S, []⟩

/-- Both sides mean the same handshake. -/
structure Fits : Prop where
  asked : (b.initiator.asking b.bundle b.baseKey).Matches S b.keys
  proper : b.ratchetKey.Proper S
  fresh : b.ratchetKey.publicKey ≠ b.keys.ratchetKey.publicKey
  named : b.hello.baseKey = b.baseKey.publicKey

variable {S b}

/-- Both sessions are named after the base key. -/
theorem Fits.session_isFor (h : b.Fits S) (role : HandshakeRole) :
    (b.session S role).isFor currentVersion b.baseKey.publicKey.transmitted := by
  cases role with
  | initiator =>
    simp [session, SessionState.isFor, Store.greet, SessionState.initiateWith, SessionState.between,
      SessionState.addReceiver, SessionState.nameAfter, SessionState.empty]
  | responder =>
    simp [session, SessionState.isFor, Hello.welcome, SessionState.respond, SessionState.between,
      SessionState.nameAfter, SessionState.empty, h.named]

/-- The initiator's session in terms of the first rung. -/
theorem Fits.initiator_eq (h : b.Fits S) (hS : S.Lawful) :
    let r := b.keys.rung S
    let st := b.session S .initiator
    st.rootKey = some (r.next S b.ratchetKey).root ∧
      st.senderChain = some ⟨b.ratchetKey, (r.next S b.ratchetKey).chain⟩ ∧
      st.receiverChains = [⟨r.key.publicKey, ⟨r.chain, []⟩⟩] := by
  have secrets := h.asked.secrets_eq hS.commutes
  have same : b.bundle.signedPreKey = b.keys.ratchetKey.publicKey := h.asked.theirRatchetKey
  unfold session Store.greet SessionState.initiateWith
  dsimp only
  unfold Store.asking at secrets
  rw [secrets, same]
  exact ⟨rfl, rfl, rfl⟩

/-- Both sides begin in lockstep. -/
theorem Fits.lockstep (h : b.Fits S) (hS : S.Lawful) :
    Lockstep S b.identity (b.ladder S) (b.session S) := by
  obtain ⟨root, sender, receivers⟩ := h.initiator_eq hS
  have linked : Linked S [b.keys.rung S] := .first h.asked.their_proper.2.2 rfl
  refine { leads := ⟨.initiator, rfl⟩, linked := ?linked, distinct := ?distinct, stands := ?stands
           local_eq := ?local_eq, remote_eq := ?remote_eq }
  case linked =>
    intro role
    cases role with
    | initiator => exact .next linked h.proper
    | responder => exact linked
  case distinct =>
    intro role
    cases role with
    | initiator =>
      show [b.ratchetKey.publicKey, b.keys.ratchetKey.publicKey].Nodup
      simpa using h.fresh
    | responder => exact List.pairwise_singleton _ _
  case stands =>
    intro role
    cases role with
    | initiator =>
      refine ⟨(SessionState.Built.greeted ..).sound, root, ⟨0, _, sender, rfl⟩, ?_,
        congrArg (List.map _) receivers⟩
      -- its one receiver chain is that of the signed pre-key
      intro theirs window hw
      have there := SessionState.mem_of_window? hw
      rw [receivers] at there
      cases List.mem_singleton.mp there
      exact ⟨b.keys.rung S, List.mem_cons_self, rfl, Window.from_new⟩
    | responder => exact ⟨⟨rfl, rfl, .nil, nofun⟩, rfl, ⟨0, _, rfl, rfl⟩, nofun, rfl⟩
  case local_eq =>
    intro role
    cases role <;> rfl
  case remote_eq =>
    intro role
    cases role with
    | initiator => exact congrArg some h.asked.theirIdentity
    | responder => exact congrArg some h.asked.ownIdentity

/-- Nothing has been posted yet. -/
theorem Fits.correspondence (h : b.Fits S) (hS : S.Lawful)
    (lost : HandshakeRole → RatchetMessage → Prop) :
    Correspondence S b.identity (b.ladder S) (b.session S) [] [] lost := by
  obtain ⟨root, sender, receivers⟩ := h.initiator_eq hS
  refine ⟨h.lockstep hS, nofun, nofun, ?_, .nil, nofun⟩
  -- the one receiver chain is as new as the chain that the responder sends with
  intro role c window hc hw
  cases role with
  | initiator => cases hw
  | responder =>
    have there := SessionState.mem_of_window? hw
    rw [other, receivers] at there
    have new : window = ⟨_, []⟩ :=
      congrArg ReceiverChain.window (List.mem_singleton.mp there)
    rw [new]
    exact UInt32.zero_le

end Beginning

end DoubleRatchet
