/-
DoubleRatchet/PreKey.lean

The keys that a device publishes so that others can start a session while it is away:
a pre-key that its identity has signed, and pre-keys that are used only once.  A
`PreKeyBundle` is what a peer gets to see of them.
-/
import DoubleRatchet.Suite

namespace DoubleRatchet

/-- A one-time pre-key. -/
structure PreKey where
  id : UInt32
  keyPair : KeyPair
  deriving DecidableEq

/-- A pre-key with the signature of its owner. -/
structure SignedPreKey where
  id : UInt32
  /-- When it was made, in milliseconds. -/
  timestamp : Int64
  keyPair : KeyPair
  signature : Bytes
  deriving DecidableEq

/-- What a peer gets to see of the keys of a device. -/
structure PreKeyBundle where
  registrationId : UInt32
  device : UInt32
  /-- The number and the key of a one-time pre-key. -/
  preKey : Option (UInt32 × PublicKey)
  signedPreKeyId : UInt32
  signedPreKey : PublicKey
  signature : Bytes
  identity : PublicKey
  deriving DecidableEq

/-- The number of the one-time pre-key. -/
def PreKeyBundle.oneTimePreKeyId (b : PreKeyBundle) : Option UInt32 := b.preKey.map (·.1)

/-- The one-time pre-key itself. -/
def PreKeyBundle.oneTimePreKey (b : PreKeyBundle) : Option PublicKey := b.preKey.map (·.2)

/-- Pair a one-time pre-key with its number; one without the other is refused. -/
def pairPreKey : Option UInt32 → Option PublicKey → Except Error (Option (UInt32 × PublicKey))
  | some id, some key => .ok (some (id, key))
  | none, none => .ok none
  | _, _ => .error .unpairedPreKey

/-- Accept a bundle whose signed pre-key is signed by its identity. -/
def PreKeyBundle.checkSignature (S : Suite) (b : PreKeyBundle) : Except Error Unit :=
  if S.verify b.identity.raw b.signedPreKey.transmitted b.signature then .ok ()
  else .error .badBundleSignature

end DoubleRatchet
