/-
DoubleRatchet/Message/Session.lean

The messages of a session on the wire.

* A `RatchetMessage` is a version byte, a body and an eight-byte tag over both
  identities, the version byte and the body.
* A `PreKeyMessage` wraps one together with what its receiver needs to set up the
  session; nothing but the wrapped message is authenticated.

Both keep the bytes that they were made of or read from, since it is these bytes
that the tag is about.
-/
import DoubleRatchet.Message.Version

namespace DoubleRatchet

/-- The length of the tag at the end of a ratchet message. -/
def tagLength : Nat := 8

/-! ### Ratchet messages -/

/-- An ordinary message of a session. -/
structure RatchetMessage where
  version : UInt8
  ratchetKey : PublicKey
  counter : UInt32
  previousCounter : UInt32
  /-- The ciphertext. -/
  body : Bytes
  /-- The whole message as sent. -/
  bytes : Bytes
  deriving DecidableEq

namespace RatchetMessage

/-- The fields of the body. -/
def schema : Schema where
  name := "SignalMessageProto"
  fields := [⟨1, "ratchet_key", .bytes⟩, ⟨2, "counter", .number⟩, ⟨3, "previous_counter", .number⟩,
    ⟨4, "ciphertext", .bytes⟩]

/-- The tag over both identities and the content, sender first. -/
def tag (S : Suite) (sender receiver : PublicKey) (macKey content : Bytes) : Bytes :=
  (S.mac macKey (sender.transmitted ++ receiver.transmitted ++ content)).bytes.take tagLength

/-- Make a message. -/
def make (S : Suite) (version : UInt8) (macKey : Bytes) (ratchetKey : PublicKey)
    (counter previousCounter : UInt32) (body : Bytes) (sender receiver : PublicKey) :
    RatchetMessage :=
  let content := versionByte version :: (writeBytes 1 ratchetKey.transmitted ++
    writeNumber 2 counter ++ writeNumber 3 previousCounter ++ writeBytes 4 body)
  { version, ratchetKey, counter, previousCounter, body
    bytes := content ++ tag S sender receiver macKey content }

/-- Read a message; its tag is not checked. -/
def parse (bs : Bytes) : Except Error RatchetMessage := do
  if bs.length ≤ tagLength then invalid .incomplete
  let (version, rest) ← splitVersion bs
  let fields ← schema.fieldsOf (rest.take (rest.length - tagLength))
  match lastBytes? 1 fields, lastNumber? 2 fields, lastBytes? 4 fields with
  | some key, some counter, some body =>
    return {
      version, counter, body
      ratchetKey := ← PublicKey.read key
      previousCounter := (lastNumber? 3 fields).getD 0
      bytes := bs }
  | _, _, _ => invalid .incomplete

/-- The bytes that the tag is about. -/
def content (m : RatchetMessage) : Bytes := m.bytes.take (m.bytes.length - tagLength)

/-- The tag that came with the message. -/
def sentTag (m : RatchetMessage) : Bytes := m.bytes.drop (m.bytes.length - tagLength)

/-- Accept the message if its tag is the one that the keys give. -/
def checkTag (S : Suite) (m : RatchetMessage) (sender receiver : PublicKey) (macKey : Bytes) :
    Except Error Unit :=
  if tag S sender receiver macKey m.content = m.sentTag then .ok () else invalid .badMac

end RatchetMessage

/-! ### Pre-key messages -/

/-- A ratchet message with what its receiver needs to set up the session. -/
structure PreKeyMessage where
  version : UInt8
  registrationId : UInt32
  preKeyId : Option UInt32
  signedPreKeyId : UInt32
  baseKey : PublicKey
  identity : PublicKey
  message : RatchetMessage
  /-- The whole message as sent. -/
  bytes : Bytes
  deriving DecidableEq

namespace PreKeyMessage

/-- The fields of the body. -/
def schema : Schema where
  name := "PreKeySignalMessageProto"
  fields := [⟨1, "pre_key_id", .number⟩, ⟨2, "base_key", .bytes⟩, ⟨3, "identity_key", .bytes⟩,
    ⟨4, "message", .bytes⟩, ⟨5, "registration_id", .number⟩, ⟨6, "signed_pre_key_id", .number⟩]

/-- Make a message. -/
def make (version : UInt8) (registrationId : UInt32) (preKeyId : Option UInt32)
    (signedPreKeyId : UInt32) (baseKey identity : PublicKey) (message : RatchetMessage) :
    PreKeyMessage :=
  { version, registrationId, preKeyId, signedPreKeyId, baseKey, identity, message
    bytes := versionByte version :: (preKeyId.elim [] (writeNumber 1) ++
      writeBytes 2 baseKey.transmitted ++ writeBytes 3 identity.transmitted ++
      writeBytes 4 message.bytes ++ writeNumber 5 registrationId ++
      writeNumber 6 signedPreKeyId) }

/-- Read a message, and the message in it. -/
def parse (bs : Bytes) : Except Error PreKeyMessage := do
  let (version, body) ← splitVersion bs
  let fields ← schema.fieldsOf body
  match lastNumber? 6 fields, lastBytes? 2 fields, lastBytes? 3 fields, lastBytes? 4 fields with
  | some signedPreKeyId, some baseKey, some identity, some message =>
    let baseKey ← PublicKey.read baseKey
    let identity ← PublicKey.read identity
    let message ← RatchetMessage.parse message
    return {
      version, signedPreKeyId, baseKey, identity, message
      registrationId := (lastNumber? 5 fields).getD 0
      preKeyId := lastNumber? 1 fields
      bytes := bs }
  | _, _, _, _ => invalid .incomplete

end PreKeyMessage

end DoubleRatchet
