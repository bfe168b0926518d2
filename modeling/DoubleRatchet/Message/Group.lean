/-
DoubleRatchet/Message/Group.lean

The messages of a group on the wire.

* A `GroupMessage` is a version byte, a body and the signature of its sender over
  both.
* A `ChainAnnouncement` tells a member the chain key and the signing key of a
  sender; it travels inside a session, so it carries neither tag nor signature.
-/
import DoubleRatchet.Entropy
import DoubleRatchet.Message.Version

namespace DoubleRatchet

/-- The length of the signature at the end of a group message. -/
def signatureLength : Nat := 64

/-! ### Group messages -/

/-- A message to a group. -/
structure GroupMessage where
  version : UInt8
  keyId : UInt32
  iteration : UInt32
  ciphertext : Bytes
  /-- The whole message as sent. -/
  bytes : Bytes
  deriving DecidableEq

namespace GroupMessage

/-- The fields of the body. -/
def schema : Schema where
  name := "SenderKeyMessageProto"
  fields := [⟨1, "id", .number⟩, ⟨2, "iteration", .number⟩, ⟨3, "ciphertext", .bytes⟩]

/-- Make a message and sign it. -/
def make (S : Suite) (keyId iteration : UInt32) (ciphertext : Bytes) (signingKey : PrivateKey) :
    Draw GroupMessage := do
  let content := versionByte currentVersion ::
    (writeNumber 1 keyId ++ writeNumber 2 iteration ++ writeBytes 3 ciphertext)
  let signature ← S.drawSignature signingKey content
  return { version := currentVersion, keyId, iteration, ciphertext
           bytes := content ++ signature.bytes }

/-- Read a message; its signature is not checked. -/
def parse (bs : Bytes) : Except Error GroupMessage := do
  if bs.length ≤ signatureLength then invalid .incomplete
  let (version, rest) ← splitVersion bs
  let fields ← schema.fieldsOf (rest.take (rest.length - signatureLength))
  match lastNumber? 1 fields, lastNumber? 2 fields, lastBytes? 3 fields with
  | some keyId, some iteration, some ciphertext =>
    return { version, keyId, iteration, ciphertext, bytes := bs }
  | _, _, _ => invalid .incomplete

/-- The bytes that are signed. -/
def content (m : GroupMessage) : Bytes := m.bytes.take (m.bytes.length - signatureLength)

/-- The signature that came with the message. -/
def signature (m : GroupMessage) : Bytes := m.bytes.drop (m.bytes.length - signatureLength)

/-- Accept the message if its signature holds. -/
def checkSignature (S : Suite) (m : GroupMessage) (signingKey : PublicKey) : Except Error Unit :=
  if S.verify signingKey.raw m.content m.signature then .ok () else invalid .badGroupSignature

end GroupMessage

/-! ### Chain announcements -/

/-- The chain of a group sender, as the members get to know it. -/
structure ChainAnnouncement where
  keyId : UInt32
  iteration : UInt32
  chainKey : Block 32
  signingKey : PublicKey
  /-- The whole message as sent. -/
  bytes : Bytes
  deriving DecidableEq

namespace ChainAnnouncement

/-- The fields of the body. -/
def schema : Schema where
  name := "SenderKeyDistributionMessageProto"
  fields := [⟨1, "id", .number⟩, ⟨2, "iteration", .number⟩, ⟨3, "chain_key", .bytes⟩,
    ⟨4, "signing_key", .bytes⟩]

/-- Make an announcement. -/
def make (keyId iteration : UInt32) (chainKey : Block 32) (signingKey : PublicKey) :
    ChainAnnouncement :=
  { keyId, iteration, chainKey, signingKey
    bytes := versionByte currentVersion :: (writeNumber 1 keyId ++ writeNumber 2 iteration ++
      writeBytes 3 chainKey.bytes ++ writeBytes 4 signingKey.transmitted) }

/-- Read an announcement. -/
def parse (bs : Bytes) : Except Error ChainAnnouncement := do
  let (_, body) ← splitVersion bs
  let fields ← schema.fieldsOf body
  match lastNumber? 1 fields, lastNumber? 2 fields, lastBytes? 3 fields, lastBytes? 4 fields with
  | some keyId, some iteration, some chainKey, some signingKey =>
    match Block.ofBytes? 32 chainKey with
    | none => invalid (.badChainKeyLength chainKey.length)
    | some chainKey =>
      return { keyId, iteration, chainKey, signingKey := ← PublicKey.read signingKey, bytes := bs }
  | _, _, _, _ => invalid .incomplete

end ChainAnnouncement

end DoubleRatchet
