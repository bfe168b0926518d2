/-
DoubleRatchet/KeyGeneration.lean

What a device makes when it is set up, and from time to time after that.

One-time pre-keys are numbered in a circle from 1 to one below the number of the
pre-key of last resort, so that no batch ever runs out of numbers and none of it gets
the number that is never used up.
-/
import DoubleRatchet.Entropy
import DoubleRatchet.Limits
import DoubleRatchet.PreKey

namespace DoubleRatchet

/-- The greatest number of 31 bits. -/
def maxSigned : UInt32 := 0x7fffffff

/-- Make a registration number; the extended range has nearly 31 bits. -/
def drawRegistrationId (extended : Bool) : Draw UInt32 := do
  let bound := if extended then maxSigned - 1 else limits.registrationBound
  return (← Draw.number) % bound + 1

/-- The number of the one-time pre-key that is `i` places after number `start`. -/
def preKeyNumber (start : UInt32) (i : Nat) : UInt32 :=
  UInt32.ofNat ((start.toNat - 1 + i) % limits.preKeyModulus.toNat) + 1

/-- Make the number of a group chain. -/
def drawGroupKeyId : Draw UInt32 := do
  return (← Draw.number) &&& maxSigned

namespace Suite

variable (S : Suite)

/-- Make `count` one-time pre-keys, numbered from `start` on. -/
def drawPreKeys (start count : UInt32) : Draw (List PreKey) :=
  (List.range count.toNat).mapM fun i => do
    return ⟨preKeyNumber start i, ← S.drawKeyPair⟩

/-- Make a pre-key and sign it with an identity. -/
def drawSignedPreKey (identity : PrivateKey) (id : UInt32) (timestamp : Int64) :
    Draw SignedPreKey := do
  let keyPair ← S.drawKeyPair
  let signature ← S.drawSignature identity keyPair.publicKey.transmitted
  return ⟨id, timestamp, keyPair, signature.bytes⟩

end Suite

end DoubleRatchet
