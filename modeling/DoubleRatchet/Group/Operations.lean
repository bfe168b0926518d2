/-
DoubleRatchet/Group/Operations.lean

What a device does with the chain of a group sender, its own or that of another
member.  Each operation holds the lock of the sender from its first request to its
last, and stores the record last.
-/
import DoubleRatchet.Action
import DoubleRatchet.KeyGeneration

namespace DoubleRatchet

section
variable (S : Suite)

/-- Make a chain of our own. -/
def drawGroupRecord : Draw GroupRecord := do
  let keyId ← drawGroupKeyId
  let key ← Draw.block 32
  return .own keyId 0 key (← S.drawKeyPair)

/-- The announcement of our chain as it is now; a chain is made at the first call. -/
def announceChain (sender : GroupSender) : Action ChainAnnouncement :=
  Action.locked (.senderKey sender) .write do
    let record ← Action.store (.loadSenderKey sender)
    if record.isEmpty then
      let record ← Action.random (drawGroupRecord S)
      Action.store (.storeSenderKey sender record)
      announce record
    else announce record
where
  /-- The announcement of the newest chain. -/
  announce (record : GroupRecord) : Action ChainAnnouncement :=
    match record.newest with
    | .ok chain => return chain.announcement
    | .error fault => throw (.invalidKeyId fault)

/-- Learn of the chain of a sender. -/
def learnChain (sender : GroupSender) (m : ChainAnnouncement) : Action Unit :=
  Action.locked (.senderKey sender) .write do
    let record ← Action.store (.loadSenderKey sender)
    Action.store (.storeSenderKey sender
      (record.add m.keyId m.iteration m.chainKey m.signingKey))

/-- Encrypt for the group. -/
def encryptGroup (sender : GroupSender) (plain : Bytes) : Action GroupMessage :=
  Action.locked (.senderKey sender) .write do
    let record ← Action.store (.loadSenderKey sender)
    let (message, record) ← Action.random (record.encrypt S sender plain)
    Action.store (.storeSenderKey sender record)
    return message

/-- Decrypt a message to the group.  The plaintext is delivered before the chain is stored. -/
def decryptGroup (sender : GroupSender) (bs : Bytes) : Action Bytes :=
  Action.locked (.senderKey sender) .write do
    let record ← Action.store (.loadSenderKey sender)
    if record.isEmpty then throw (.noSenderKey sender)
    let message ← GroupMessage.parse bs
    let (plain, record) ← record.decrypt S message
    Action.deliver plain
    Action.store (.storeSenderKey sender record)
    return plain

end

end DoubleRatchet
