/-
DoubleRatchet/Message.lean

Any message, as it comes from the wire: a type tag and bytes.
-/
import DoubleRatchet.Message.Group
import DoubleRatchet.Message.Session

namespace DoubleRatchet

/-- A message of any type. -/
inductive Message where
  | ratchet (m : RatchetMessage)
  | preKey (m : PreKeyMessage)
  | group (m : GroupMessage)
  | announcement (m : ChainAnnouncement)
  deriving DecidableEq

namespace Message

/-- The type of a message. -/
def type : Message → MessageType
  | ratchet _ => .whisper
  | preKey _ => .preKey
  | group _ => .senderKey
  | announcement _ => .senderKeyDistribution

/-- The message as sent. -/
def bytes : Message → Bytes
  | ratchet m => m.bytes
  | preKey m => m.bytes
  | group m => m.bytes
  | announcement m => m.bytes

/-- Read a message of a known type. -/
def parse (type : MessageType) (bs : Bytes) : Except Error Message :=
  match type with
  | .whisper => return .ratchet (← RatchetMessage.parse bs)
  | .preKey => return .preKey (← PreKeyMessage.parse bs)
  | .senderKey => return .group (← GroupMessage.parse bs)
  | .senderKeyDistribution => return .announcement (← ChainAnnouncement.parse bs)

/-- Read a message with its type tag; the tag is looked at first. -/
def receive (tag : UInt8) (bs : Bytes) : Except Error Message := do
  parse (← MessageType.ofTag tag) bs

end Message

end DoubleRatchet
