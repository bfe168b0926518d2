/-
DoubleRatchet/Proofs/Agreement.lean

Both sides of a handshake come to the same keys.

What the two sides bring to a handshake matches when the public keys that each has of
the other belong to key pairs of the other (`InitiatorKeys.Matches`).  Then they get the
same secrets, line by line (`Matches.secrets_eq`), and the states that they set up are
paired (`SessionState.Paired`):

    responder      root, chain 0
                     │       └───────── the initiator receives on it
                     │ one turn
    initiator      root', chain' 0      it sends on it

Where neither side has asked first, the order of the base keys gives them different
parts (`SymmetricKeys.Mirrors.roles`), and what they bring matches once the parts are known.
-/
import DoubleRatchet.Proofs.Ladder
import DoubleRatchet.Proofs.Toy

namespace DoubleRatchet

section
variable (S : Suite)

/-! ### Keys that match -/

/-- The keys of an initiator and of a responder that mean the same handshake. -/
structure InitiatorKeys.Matches (a : InitiatorKeys) (b : ResponderKeys) : Prop where
  own_proper : a.identity.Proper S ∧ a.baseKey.Proper S
  their_proper : b.identity.Proper S ∧ b.signedPreKey.Proper S ∧ b.ratchetKey.Proper S
  oneTime_proper : ∀ k ∈ b.oneTimePreKey, k.Proper S
  theirIdentity : a.theirIdentity = b.identity.publicKey
  theirSignedPreKey : a.theirSignedPreKey = b.signedPreKey.publicKey
  theirOneTimePreKey : a.theirOneTimePreKey = b.oneTimePreKey.map (·.publicKey)
  theirRatchetKey : a.theirRatchetKey = b.ratchetKey.publicKey
  ownIdentity : b.theirIdentity = a.identity.publicKey
  ownBaseKey : b.theirBaseKey = a.baseKey.publicKey

/-- The key pairs of one side are well formed, and the other side has the public keys. -/
structure SymmetricKeys.KnownTo (j k : SymmetricKeys) : Prop where
  proper : j.identity.Proper S ∧ j.baseKey.Proper S ∧ j.ratchetKey.Proper S
  identity : k.theirIdentity = j.identity.publicKey
  baseKey : k.theirBaseKey = j.baseKey.publicKey
  ratchetKey : k.theirRatchetKey = j.ratchetKey.publicKey

/-- Each side knows the other. -/
structure SymmetricKeys.Mirrors (j k : SymmetricKeys) : Prop where
  known : j.KnownTo S k
  knows : k.KnownTo S j

/-! ### States that are paired -/

/-- Two sides that can talk: the initiator receives on the chain that the responder sends on, and one
turn of the responder's root gives the root of the initiator and the chain that it sends on. -/
structure SessionState.Paired (initiator responder : SessionState) (ours theirs : KeyPair) :
    Prop where
  version : initiator.version = currentVersion ∧ responder.version = currentVersion
  identities : initiator.localIdentity = responder.remoteIdentity ∧
    initiator.remoteIdentity = responder.localIdentity
  receives : ∃ chain, responder.senderChain = some ⟨theirs, chain⟩ ∧ chain.index = 0 ∧
    initiator.window? theirs.publicKey = some ⟨chain, []⟩
  sends : ∃ root above chain, responder.rootKey = some root ∧ initiator.rootKey = some above ∧
    initiator.senderChain = some ⟨ours, chain⟩ ∧
    root.turn S ours.publicKey theirs.privateKey = (above, chain)

end

variable {S : Suite} {a : InitiatorKeys} {b : ResponderKeys} {j k : SymmetricKeys}

/-! ### With an initiator -/

/-- Both sides come to the same secrets. -/
theorem InitiatorKeys.Matches.secrets_eq (h : a.Matches S b) (hS : S.Commutes) :
    a.secrets S = b.secrets S := by
  obtain ⟨identity, base⟩ := h.own_proper
  obtain ⟨theirs, signed, -⟩ := h.their_proper
  unfold InitiatorKeys.secrets ResponderKeys.secrets
  rw [h.theirIdentity, h.theirSignedPreKey, h.theirOneTimePreKey, h.ownIdentity, h.ownBaseKey,
    hS.agreement_swap identity signed, hS.agreement_swap base theirs,
    hS.agreement_swap base signed, Option.map_map]
  -- the one-time pre-key adds a secret on both sides or on neither
  refine congrArg (_ ++ Option.toList ·) (Option.map_congr fun own there => ?_)
  exact hS.agreement_swap base (h.oneTime_proper own there)

/-- Whatever ratchet key the initiator chooses, the two sides are paired. -/
theorem InitiatorKeys.Matches.paired (h : a.Matches S b) (hS : S.Commutes) {ours : KeyPair}
    (proper : ours.Proper S) :
    (SessionState.empty.initiateWith S a ours).Paired S (SessionState.empty.respond S b) ours
      b.ratchetKey := by
  have secrets := h.secrets_eq hS
  refine { version := ⟨rfl, rfl⟩, identities := ⟨?own, ?remote⟩, receives := ⟨_, rfl, rfl, ?chain⟩
           sends := ⟨_, _, _, rfl, rfl, rfl, ?turn⟩ }
  case own => exact congrArg some h.ownIdentity.symm
  case remote => exact congrArg some h.theirIdentity
  case chain =>
    rw [← h.theirRatchetKey, ← secrets]
    exact SessionState.window?_addReceiver rfl
  case turn =>
    -- the responder turns with the keys the other way round
    unfold RootKey.turn
    rw [← secrets, h.theirRatchetKey, hS.agreement_swap h.their_proper.2.2 proper]
    rfl

/-! ### Without an initiator -/

/-- Of two different keys one comes first. -/
theorem PublicKey.comesBefore_of_ne {p q : PublicKey} (ne : p ≠ q) :
    q.comesBefore p = !p.comesBefore q := by
  unfold comesBefore
  rw [← decide_not]
  refine decide_eq_decide.mpr ?_
  constructor
  · exact List.lt_asymm
  · intro after
    exact Std.lt_of_le_of_ne (Std.not_lt.mp after) fun same => ne (transmitted_injective same.symm)

/-- Exactly one side is the initiator. -/
theorem SymmetricKeys.Mirrors.roles (h : j.Mirrors S k)
    (ne : j.baseKey.publicKey ≠ k.baseKey.publicKey) :
    j.role = .initiator ∧ k.role = .responder ∨ j.role = .responder ∧ k.role = .initiator := by
  unfold SymmetricKeys.role
  rw [h.known.baseKey, h.knows.baseKey, PublicKey.comesBefore_of_ne ne]
  cases j.baseKey.publicKey.comesBefore k.baseKey.publicKey
  · exact .inr ⟨rfl, rfl⟩
  · exact .inl ⟨rfl, rfl⟩

/-- The base key of the responder serves as its signed pre-key, and the ratchet key is one of its
own. -/
theorem SymmetricKeys.Mirrors.matches (h : j.Mirrors S k) :
    j.initiatorKeys.Matches S k.responderKeys where
  own_proper := ⟨h.known.proper.1, h.known.proper.2.1⟩
  their_proper := h.knows.proper
  oneTime_proper := nofun
  theirIdentity := h.knows.identity
  theirSignedPreKey := h.knows.baseKey
  theirOneTimePreKey := rfl
  theirRatchetKey := h.knows.ratchetKey
  ownIdentity := h.known.identity
  ownBaseKey := h.known.baseKey

theorem SymmetricKeys.Mirrors.symm (h : j.Mirrors S k) : k.Mirrors S j := ⟨h.knows, h.known⟩

/-- The two sides are paired, once it is known which part each of them plays. -/
theorem SymmetricKeys.Mirrors.begin_paired (h : j.Mirrors S k) (hS : S.Commutes)
    (first : j.role = .initiator) (second : k.role = .responder) {e : Entropy}
    (alive : e.dead = false) (e' : Entropy) :
    ∃ st st', (SessionState.empty.begin S j).run e = (.ok st, e.advance 32) ∧
      (SessionState.empty.begin S k).run e' = (.ok st', e') ∧
      st.Paired S st' (S.nextKeyPair e) k.ratchetKey := by
  refine ⟨SessionState.empty.initiateWith S j.initiatorKeys (S.nextKeyPair e),
    SessionState.empty.respond S k.responderKeys, ?_, ?_,
    h.matches.paired hS (S.proper_nextKeyPair e)⟩
  · rw [SessionState.begin, first]
    show (SessionState.empty.initiate S j.initiatorKeys).run e = _
    rw [run_initiate, alive]
    rfl
  · rw [SessionState.begin, second]
    rfl

/-! ### Agreement -/

/-- **A handshake leaves both sides paired.**  With matching keys, whatever one-time pre-key and
ratchet key the responder has, and whatever ratchet key the initiator draws, the states that the two
sides set up are paired.  Without an initiator, two sides with different base keys play different
parts, and end up paired as well. -/
theorem handshake_pairs (hS : S.Commutes) :
    (∀ a b, InitiatorKeys.Matches S a b → ∀ e : Entropy, e.dead = false →
      ∃ st, (SessionState.empty.initiate S a).run e = (.ok st, e.advance 32) ∧
        st.Paired S (SessionState.empty.respond S b) (S.nextKeyPair e) b.ratchetKey) ∧
    (∀ j k, SymmetricKeys.Mirrors S j k → j.baseKey.publicKey ≠ k.baseKey.publicKey →
      ∀ e e' : Entropy, e.dead = false → e'.dead = false →
      ∃ st st' f f', (SessionState.empty.begin S j).run e = (.ok st, f) ∧
        (SessionState.empty.begin S k).run e' = (.ok st', f') ∧
        (j.role = .initiator ∧ k.role = .responder ∧
            st.Paired S st' (S.nextKeyPair e) k.ratchetKey ∨
          j.role = .responder ∧ k.role = .initiator ∧
            st'.Paired S st (S.nextKeyPair e') j.ratchetKey)) := by
  refine ⟨?asked, ?neither⟩
  case asked =>
    intro a b h e alive
    refine ⟨SessionState.empty.initiateWith S a (S.nextKeyPair e), ?_,
      h.paired hS (S.proper_nextKeyPair e)⟩
    rw [run_initiate, alive]
    rfl
  case neither =>
    intro j k h ne e e' alive alive'
    rcases h.roles ne with ⟨first, second⟩ | ⟨second, first⟩
    · obtain ⟨st, st', ran, ran', paired⟩ := h.begin_paired hS first second alive e'
      exact ⟨st, st', _, _, ran, ran', .inl ⟨first, second, paired⟩⟩
    · obtain ⟨st', st, ran', ran, paired⟩ := h.symm.begin_paired hS first second alive' e
      exact ⟨st, st', _, _, ran, ran', .inr ⟨second, first, paired⟩⟩

namespace Toy

/-- What the peer brings to a handshake with the device. -/
def asking : InitiatorKeys where
  identity := keyPair 4
  baseKey := keyPair 5
  theirIdentity := (keyPair 1).publicKey
  theirSignedPreKey := (keyPair 2).publicKey
  theirOneTimePreKey := some (keyPair 3).publicKey
  theirRatchetKey := (keyPair 6).publicKey

/-- What the device brings; its ratchet key is not the signed pre-key. -/
def asked : ResponderKeys where
  identity := keyPair 1
  signedPreKey := keyPair 2
  oneTimePreKey := some (keyPair 3)
  ratchetKey := keyPair 6
  theirIdentity := (keyPair 4).publicKey
  theirBaseKey := (keyPair 5).publicKey

/-- One side of two that begin at once. -/
def beginning (identity baseKey ratchetKey theirs theirBase theirRatchet : UInt8) :
    SymmetricKeys where
  identity := keyPair identity
  baseKey := keyPair baseKey
  ratchetKey := keyPair ratchetKey
  theirIdentity := (keyPair theirs).publicKey
  theirBaseKey := (keyPair theirBase).publicKey
  theirRatchetKey := (keyPair theirRatchet).publicKey

theorem asking_matches : asking.Matches suite asked :=
  ⟨⟨rfl, rfl⟩, ⟨rfl, rfl, rfl⟩, fun _ there => by cases there; rfl, rfl, rfl, rfl, rfl, rfl, rfl⟩

theorem beginning_mirrors : (beginning 4 5 6 1 2 3).Mirrors suite (beginning 1 2 3 4 5 6) :=
  ⟨⟨⟨rfl, rfl, rfl⟩, rfl, rfl, rfl⟩, ⟨⟨rfl, rfl, rfl⟩, rfl, rfl, rfl⟩⟩

end Toy

theorem handshake_pairs_toy :
    Toy.suite.Commutes ∧ Toy.asking.Matches Toy.suite Toy.asked ∧
    (Toy.beginning 4 5 6 1 2 3).Mirrors Toy.suite (Toy.beginning 1 2 3 4 5 6) ∧
    (Toy.beginning 4 5 6 1 2 3).baseKey.publicKey ≠ (Toy.beginning 1 2 3 4 5 6).baseKey.publicKey ∧
    Toy.bob.entropy.dead = false ∧
    (∃ st, (SessionState.empty.initiate Toy.suite Toy.asking).run Toy.bob.entropy
        = (.ok st, Toy.bob.entropy.advance 32) ∧
      st.Paired Toy.suite (SessionState.empty.respond Toy.suite Toy.asked)
        (Toy.suite.nextKeyPair Toy.bob.entropy) (Toy.keyPair 6)) ∧
    ∃ st st' f f',
      (SessionState.empty.begin Toy.suite (Toy.beginning 4 5 6 1 2 3)).run Toy.bob.entropy
        = (.ok st, f) ∧
      (SessionState.empty.begin Toy.suite (Toy.beginning 1 2 3 4 5 6)).run Toy.bob.entropy
        = (.ok st', f') ∧
      ((Toy.beginning 4 5 6 1 2 3).role = .initiator ∧ (Toy.beginning 1 2 3 4 5 6).role = .responder ∧
          st.Paired Toy.suite st' (Toy.suite.nextKeyPair Toy.bob.entropy) (Toy.keyPair 3) ∨
        (Toy.beginning 4 5 6 1 2 3).role = .responder ∧
          (Toy.beginning 1 2 3 4 5 6).role = .initiator ∧
          st'.Paired Toy.suite st (Toy.suite.nextKeyPair Toy.bob.entropy) (Toy.keyPair 6)) :=
  have ne : (Toy.keyPair 5).publicKey ≠ (Toy.keyPair 2).publicKey := by decide +kernel
  ⟨Toy.agreement_comm, Toy.asking_matches, Toy.beginning_mirrors, ne, rfl,
    (handshake_pairs Toy.agreement_comm).1 _ _ Toy.asking_matches _ rfl,
    (handshake_pairs Toy.agreement_comm).2 _ _ Toy.beginning_mirrors ne _ _ rfl rfl⟩

end DoubleRatchet
