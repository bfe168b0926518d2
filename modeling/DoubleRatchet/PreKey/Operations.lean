/-
DoubleRatchet/PreKey/Operations.lean

How a device publishes pre-keys.
-/
import DoubleRatchet.Action
import DoubleRatchet.KeyGeneration

namespace DoubleRatchet

section
variable (S : Suite)

/-- Make a one-time pre-key and keep it; its public key is the result. -/
def makePreKey (id : UInt32) : Action PublicKey := do
  let keyPair ← Action.random S.drawKeyPair
  Action.store (.storePreKey id ⟨id, keyPair⟩)
  return keyPair.publicKey

/-- Make a signed pre-key, and a one-time pre-key if a number for one is given, keep both, and give
out the bundle of them.  The store is asked for nothing, it only keeps what is made. -/
def publish (identity : KeyPair) (registrationId device signedPreKeyId : UInt32)
    (preKeyId : Option UInt32) (timestamp : Int64) : Action PreKeyBundle := do
  let signed ← Action.random (S.drawSignedPreKey identity.privateKey signedPreKeyId timestamp)
  Action.store (.storeSignedPreKey signedPreKeyId signed)
  let preKey ← preKeyId.mapM fun id => do return (id, ← makePreKey S id)
  return {
    registrationId, device, preKey, signedPreKeyId
    signedPreKey := signed.keyPair.publicKey
    signature := signed.signature
    identity := identity.publicKey }

end

end DoubleRatchet
