/-
DoubleRatchet/Key.lean

Key pairs.  One kind of key serves for identities, pre-keys, ratchet turns and
signatures.  A public key travels as a type byte and its 32 bytes; a private key
never travels, and its written form says nothing about it.
-/
import DoubleRatchet.Bytes

namespace DoubleRatchet

/-- A public key. -/
structure PublicKey where
  raw : Block 32
  deriving DecidableEq

/-- A private key. -/
structure PrivateKey where
  raw : Block 32
  deriving DecidableEq

/-- A public key with its private key. -/
structure KeyPair where
  publicKey : PublicKey
  privateKey : PrivateKey
  deriving DecidableEq

/-- The byte that a transmitted public key starts with. -/
def keyType : UInt8 := 5

/-- The length of a transmitted public key. -/
def transmittedKeyLength : Nat := 33

/-! ### Transmitted form -/

/-- What is wrong with a transmitted public key. -/
inductive KeyFault where
  /-- There is no type byte. -/
  | missing
  | badType (type : UInt8)
  /-- Fewer than 32 bytes follow the type byte. -/
  | tooShort (length : Nat)
  deriving DecidableEq

namespace PublicKey

/-- The type byte and the key. -/
def transmitted (k : PublicKey) : Bytes := keyType :: k.raw.bytes

/-- Read a transmitted key; bytes after it are left alone. -/
def parse : Bytes → Except KeyFault PublicKey
  | [] => .error .missing
  | type :: rest =>
    if type ≠ keyType then .error (.badType type)
    else if h : 32 ≤ rest.length then .ok ⟨.takeFrom 32 rest h⟩
    else .error (.tooShort rest.length)

/-- Read a transmitted key that starts at an offset. -/
def parseAt (bs : Bytes) (offset : Nat) : Except KeyFault PublicKey := parse (bs.drop offset)

@[simp] theorem length_transmitted (k : PublicKey) : k.transmitted.length = 33 := by
  simp [transmitted]

theorem parse_transmitted (k : PublicKey) (rest : Bytes) :
    parse (k.transmitted ++ rest) = .ok k := by
  obtain ⟨b, h⟩ := k
  simp [transmitted, parse, Block.takeFrom, h]

theorem transmitted_injective {a b : PublicKey} (h : a.transmitted = b.transmitted) : a = b := by
  have := parse_transmitted a []
  rw [h, parse_transmitted] at this
  exact (Except.ok.inj this).symm

/-- Transmitted forms in lexicographic order. -/
def comesBefore (a b : PublicKey) : Bool := decide (a.transmitted < b.transmitted)

/-- The first eight bytes, to tell keys apart by eye. -/
def fingerprint (k : PublicKey) : String := hex (k.raw.bytes.take 8)

end PublicKey

/-! ### Written form -/

/-- A public key, written out. -/
def PublicKey.text (k : PublicKey) : String := "ECPublicKey(" ++ hex k.raw.bytes ++ ")"

/-- The same for every private key. -/
def PrivateKey.text (_ : PrivateKey) : String := "ECPrivateKey(<redacted>)"

/-- Both keys, the private one hidden. -/
def KeyPair.text (k : KeyPair) : String :=
  "ECKeyPair \x7b public_key: " ++ k.publicKey.text ++ ", private_key: " ++ k.privateKey.text ++ " \x7d"

end DoubleRatchet
