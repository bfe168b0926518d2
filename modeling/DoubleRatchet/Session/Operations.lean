/-
DoubleRatchet/Session/Operations.lean

What a device does with a peer.

* `startSession`: set up a session from the bundle of a peer that is away.
* `encrypt`: encrypt with the current session.
* `decryptMessage`, `decryptPreKeyMessage`: decrypt with any session; a pre-key
  message sets up its session first.

Each operation holds the lock of the peer from its first request to its last, and
stores the record last: whatever fails before, the stored sessions stay as they are.
-/
import DoubleRatchet.Action
import DoubleRatchet.Session.Ratchet

namespace DoubleRatchet

section
variable (S : Suite)

/-- Go on only with an identity that the store trusts. -/
def requireTrust (peer : Address) (key : PublicKey) (direction : Direction) : Action Unit := do
  if !(← Action.store (.isTrusted peer key direction)) then
    throw (.untrustedIdentity peer.name key)

/-! ### Setting up -/

/-- Set up a session from a bundle. -/
def startSession (peer : Address) (bundle : PreKeyBundle) : Action Unit :=
  Action.locked (.session peer) .write do
    requireTrust peer bundle.identity .sending
    bundle.checkSignature S
    let record ← Action.store (.loadSession peer)
    let baseKey ← Action.random S.drawKeyPair
    let identity ← Action.store .identityKeyPair
    let record := record.makeRoom
    let st ← Action.random (record.current.initiate S {
      identity, baseKey
      theirIdentity := bundle.identity
      theirSignedPreKey := bundle.signedPreKey
      theirOneTimePreKey := bundle.oneTimePreKey
      theirRatchetKey := bundle.signedPreKey })
    let localRegistrationId ← Action.store .registrationId
    let st := { st with
      localRegistrationId
      remoteRegistrationId := bundle.registrationId
      pending := some ⟨bundle.oneTimePreKeyId, bundle.signedPreKeyId, baseKey.publicKey⟩ }
    let st := st.nameAfter baseKey.publicKey.transmitted
    let _ ← Action.store (.saveIdentity peer bundle.identity)
    Action.store (.storeSession peer { record with current := st })

/-- The keys that a pre-key message asks for; none if its session is in the record already. -/
def findKeys (peer : Address) (record : SessionRecord) (m : PreKeyMessage) :
    Action (Option ResponderKeys) := do
  requireTrust peer m.identity .receiving
  if record.knows m.version m.baseKey.transmitted then return none
  let signedPreKey ← Action.store (.loadSignedPreKey m.signedPreKeyId)
  let oneTimePreKey ← m.preKeyId.mapM fun id => Action.store (.loadPreKey id)
  let identity ← Action.store .identityKeyPair
  return some {
    identity
    signedPreKey := signedPreKey.keyPair
    oneTimePreKey := oneTimePreKey.map (·.keyPair)
    ratchetKey := signedPreKey.keyPair
    theirIdentity := m.identity
    theirBaseKey := m.baseKey }

/-- Set up the session that a pre-key message asks for, unless it is there.  The result is the
one-time pre-key that has been used up; the record comes back even if something fails, as far as it
has come. -/
def acceptSession (peer : Address) (record : SessionRecord) (m : PreKeyMessage) :
    Program (Except Error (Option UInt32) × SessionRecord) := do
  match ← (findKeys peer record m).run with
  | .error e => return (.error e, record)
  | .ok none => keepIdentity none record
  | .ok (some keys) =>
    let record := record.makeRoom
    let st := record.current.respond S keys
    match ← (Action.store .registrationId).run with
    | .error e => return (.error e, { record with current := st })
    | .ok localRegistrationId =>
      let st := { st with localRegistrationId, remoteRegistrationId := m.registrationId }
      keepIdentity (m.preKeyId.filter (· != lastResortPreKey))
        { record with current := st.nameAfter m.baseKey.transmitted }
where
  /-- The identity of the message becomes the one that is kept for the peer. -/
  keepIdentity (used : Option UInt32) (record : SessionRecord) :
      Program (Except Error (Option UInt32) × SessionRecord) := do
    match ← (Action.store (.saveIdentity peer m.identity)).run with
    | .error e => return (.error e, record)
    | .ok _ => return (.ok used, record)

/-! ### Encrypting -/

/-- Encrypt with the current session. -/
def encrypt (peer : Address) (plain : Bytes) : Action Message :=
  Action.locked (.session peer) .write do
    let record ← Action.store (.loadSession peer)
    if record.fresh || record.current.senderChain.isNone then throw (.noSession peer)
    let (remote, _) ← record.current.identities
    requireTrust peer remote .sending
    let (message, st) ← record.current.encrypt S plain
    let _ ← Action.store (.saveIdentity peer remote)
    Action.store (.storeSession peer { record with current := st })
    return message

/-! ### Decrypting -/

/-- Decrypt a message that sets up its session.  The plaintext is delivered before anything is
stored. -/
def decryptPreKeyMessage (peer : Address) (m : PreKeyMessage) : Action Bytes :=
  Action.locked (.session peer) .write do
    let record ← Action.store (.loadSession peer)
    let (used, record) ← ExceptT.lift (acceptSession S peer record m)
    let used ← used
    let (plain, record) ← Action.random (record.decrypt S m.message)
    Action.deliver plain
    Action.store (.storeSession peer record)
    if let some id := used then Action.store (.removePreKey id)
    return plain

/-- Decrypt a message of a session that is set up.  The plaintext is delivered before the session is
stored. -/
def decryptMessage (peer : Address) (m : RatchetMessage) : Action Bytes :=
  Action.locked (.session peer) .write do
    if !(← Action.store (.containsSession peer)) then throw (.noSession peer)
    let record ← Action.store (.loadSession peer)
    let (plain, record) ← Action.random (record.decrypt S m)
    let remote ← needed .noRemoteIdentity record.current.remoteIdentity
    requireTrust peer remote .receiving
    let _ ← Action.store (.saveIdentity peer remote)
    Action.deliver plain
    Action.store (.storeSession peer record)
    return plain

end

/-! ### Asking -/

/-- The registration number of the peer, 0 if there is no session. -/
def remoteRegistrationId (peer : Address) : Action UInt32 :=
  Action.locked (.session peer) .read do
    return (← Action.store (.loadSession peer)).current.remoteRegistrationId

/-- The version of the current session. -/
def sessionVersion (peer : Address) : Action UInt8 :=
  Action.locked (.session peer) .read do
    if !(← Action.store (.containsSession peer)) then throw (.noSession peer)
    return (← Action.store (.loadSession peer)).current.version

end DoubleRatchet
