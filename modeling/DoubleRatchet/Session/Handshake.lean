/-
DoubleRatchet/Session/Handshake.lean

How two sides come to the same first keys.

    initiator                          responder
    identity  × signed pre-key         signed pre-key   × identity
    base key  × identity               identity         × base key
    base key  × signed pre-key         signed pre-key   × base key
    base key  × one-time pre-key       one-time pre-key × base key     (if there is one)

Line by line both sides get the same secret, since agreement is symmetric.  The
secrets, after a block of ones, are the material of the first root key and of the
chain that the responder sends on.  The initiator turns the root once more, with a
new ratchet key, for a chain of its own to send on.
-/
import DoubleRatchet.Entropy
import DoubleRatchet.Message.Version
import DoubleRatchet.Session.State

namespace DoubleRatchet

/-- What the initiator has. -/
structure InitiatorKeys where
  identity : KeyPair
  baseKey : KeyPair
  theirIdentity : PublicKey
  theirSignedPreKey : PublicKey
  theirOneTimePreKey : Option PublicKey
  theirRatchetKey : PublicKey

/-- What the responder has. -/
structure ResponderKeys where
  identity : KeyPair
  signedPreKey : KeyPair
  oneTimePreKey : Option KeyPair
  ratchetKey : KeyPair
  theirIdentity : PublicKey
  theirBaseKey : PublicKey

/-- What either side has when neither has asked first. -/
structure SymmetricKeys where
  identity : KeyPair
  baseKey : KeyPair
  ratchetKey : KeyPair
  theirIdentity : PublicKey
  theirBaseKey : PublicKey
  theirRatchetKey : PublicKey

section
variable (S : Suite)

/-! ### Secrets -/

/-- The first root key and the first chain, from the shared secrets in order. -/
def firstKeys (secrets : List (Block 32)) : RootKey × ChainKey :=
  splitRoot (S.derive none (List.replicate 32 0xff ++ secrets.flatMap (·.bytes))
    (utf8 "WhisperText") 64)

/-- The secrets as the initiator gets them. -/
def InitiatorKeys.secrets (k : InitiatorKeys) : List (Block 32) :=
  [S.agreement k.identity.privateKey k.theirSignedPreKey,
    S.agreement k.baseKey.privateKey k.theirIdentity,
    S.agreement k.baseKey.privateKey k.theirSignedPreKey] ++
  (k.theirOneTimePreKey.map (S.agreement k.baseKey.privateKey)).toList

/-- The secrets as the responder gets them. -/
def ResponderKeys.secrets (k : ResponderKeys) : List (Block 32) :=
  [S.agreement k.signedPreKey.privateKey k.theirIdentity,
    S.agreement k.identity.privateKey k.theirBaseKey,
    S.agreement k.signedPreKey.privateKey k.theirBaseKey] ++
  (k.oneTimePreKey.map fun own => S.agreement own.privateKey k.theirBaseKey).toList

/-! ### Both sides -/

namespace SessionState

/-- The session between two identities, in the version in use. -/
def between (st : SessionState) (own remote : PublicKey) : SessionState :=
  { st with version := currentVersion, localIdentity := some own, remoteIdentity := some remote }

/-- The initiator's side, with a new ratchet key to send with. -/
def initiateWith (st : SessionState) (k : InitiatorKeys) (ratchetKey : KeyPair) : SessionState :=
  let (root, theirChain) := firstKeys S (k.secrets S)
  let (root, ourChain) := root.turn S k.theirRatchetKey ratchetKey.privateKey
  let st := (st.between k.identity.publicKey k.theirIdentity).addReceiver k.theirRatchetKey theirChain
  { st with senderChain := some ⟨ratchetKey, ourChain⟩, rootKey := some root }

/-- The initiator's side. -/
def initiate (st : SessionState) (k : InitiatorKeys) : Draw SessionState := do
  return st.initiateWith S k (← S.drawKeyPair)

/-- The responder's side. -/
def respond (st : SessionState) (k : ResponderKeys) : SessionState :=
  let (root, chain) := firstKeys S (k.secrets S)
  let st := st.between k.identity.publicKey k.theirIdentity
  { st with senderChain := some ⟨k.ratchetKey, chain⟩, rootKey := some root }

end SessionState

/-! ### Without an initiator -/

/-- The part that one side plays. -/
inductive HandshakeRole where
  | initiator
  | responder
  deriving DecidableEq

/-- The side whose base key comes first is the initiator. -/
def SymmetricKeys.role (k : SymmetricKeys) : HandshakeRole :=
  if k.baseKey.publicKey.comesBefore k.theirBaseKey then .initiator else .responder

/-- The keys for the initiator's part. -/
def SymmetricKeys.initiatorKeys (k : SymmetricKeys) : InitiatorKeys where
  identity := k.identity
  baseKey := k.baseKey
  theirIdentity := k.theirIdentity
  theirSignedPreKey := k.theirBaseKey
  theirOneTimePreKey := none
  theirRatchetKey := k.theirRatchetKey

/-- The keys for the responder's part. -/
def SymmetricKeys.responderKeys (k : SymmetricKeys) : ResponderKeys where
  identity := k.identity
  signedPreKey := k.baseKey
  oneTimePreKey := none
  ratchetKey := k.ratchetKey
  theirIdentity := k.theirIdentity
  theirBaseKey := k.theirBaseKey

/-- One side when neither has asked first. -/
def SessionState.begin (st : SessionState) (k : SymmetricKeys) : Draw SessionState :=
  match k.role with
  | .initiator => st.initiate S k.initiatorKeys
  | .responder => return st.respond S k.responderKeys

end

end DoubleRatchet
