/-
DoubleRatchet/Message/Version.lean

What all messages have in common: the version byte in front, whose high half is the
version of the message and whose low half the newest one that the sender knows, and
the type tag that travels beside a message.
-/
import DoubleRatchet.Suite

namespace DoubleRatchet

/-- The version in use; no other one is read. -/
def currentVersion : UInt8 := 3

/-- The version byte of an outgoing message. -/
def versionByte (version : UInt8) : UInt8 := (version <<< 4) ||| currentVersion

/-- The version that a version byte announces, if it is the current one. -/
def readVersion (byte : UInt8) : Except Error UInt8 :=
  let version := byte >>> 4
  if version < currentVersion then .error (.legacyMessage version)
  else if currentVersion < version then invalid (.unknownVersion version)
  else .ok version

/-- The version of a message and what follows the version byte. -/
def splitVersion : Bytes → Except Error (UInt8 × Bytes)
  | [] => invalid .empty
  | byte :: rest => do return (← readVersion byte, rest)

/-- The known fields of a body, or the error that it cannot be read. -/
def Schema.fieldsOf (s : Schema) (body : Bytes) : Except Error (List (Nat × FieldValue)) :=
  match s.read body with
  | .ok fields => .ok fields
  | .error fault => invalid (.malformed fault)

/-! ### Types of messages -/

/-- The types of messages. -/
inductive MessageType where
  | whisper
  | preKey
  | senderKey
  | senderKeyDistribution
  deriving DecidableEq

namespace MessageType

/-- The tag of a type. -/
def tag : MessageType → UInt8
  | whisper => 2
  | preKey => 3
  | senderKey => 4
  | senderKeyDistribution => 5

/-- The type with a tag. -/
def ofTag (tag : UInt8) : Except Error MessageType :=
  if tag = 2 then .ok whisper
  else if tag = 3 then .ok preKey
  else if tag = 4 then .ok senderKey
  else if tag = 5 then .ok senderKeyDistribution
  else invalid (.unknownType tag)

/-- The name of a type. -/
def text : MessageType → String
  | whisper => "Whisper"
  | preKey => "PreKey"
  | senderKey => "SenderKey"
  | senderKeyDistribution => "SenderKeyDistribution"

theorem ofTag_tag (t : MessageType) : ofTag t.tag = .ok t := by cases t <;> rfl

end MessageType

end DoubleRatchet
