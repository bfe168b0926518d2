/-
DoubleRatchet/Suite.lean

The primitives that the protocol is built on, as one record.  The protocol asks
nothing of them but what stands here, so what is proved of it holds for every
suite that obeys the laws it assumes; `classicSuite` is the one in use: Curve25519
for agreement and signatures, AES-256 in cipher block chaining, and HMAC over
SHA-256.
-/
import DoubleRatchet.Curve.Montgomery
import DoubleRatchet.Digest.Hmac
import DoubleRatchet.Error

namespace DoubleRatchet

/-- The primitives. -/
structure Suite where
  /-- The private key that 32 random bytes make. -/
  privateKey : Block 32 → Block 32
  publicKey : Block 32 → Block 32
  /-- The secret that a private key shares with a public key. -/
  agree : Block 32 → Block 32 → Block 32
  /-- The signature of a message under a private key, with 64 random bytes. -/
  sign : Block 32 → Bytes → Block 64 → Block 64
  /-- Whether a signature of a message holds under a public key. -/
  verify : Block 32 → (message signature : Bytes) → Bool
  /-- The tag of a message under a key. -/
  mac : Mac
  /-- Encrypt under a key and a starting block. -/
  encrypt : Block 32 → Block 16 → Bytes → Bytes
  /-- Decrypt under a key and a starting block. -/
  decrypt : Block 32 → Block 16 → Bytes → Except CipherFault Bytes

/-- Curve25519, AES-256 and SHA-256.  A signature is made with the clamped private key, whose
multiple of the base point is the public key. -/
def classicSuite : Suite where
  privateKey := clamp
  publicKey := x25519Public
  agree := x25519
  sign k := edwards25519.sign (clamp k)
  verify k message signature := (edwards25519.checkSignature k message signature).isOk
  mac := hmacSha256
  encrypt := encryptCbc
  decrypt := decryptCbc

/-- The number of the suite in use. -/
def classicSuiteNumber : Nat := 1

namespace Suite

variable (S : Suite)

/-- The pair of a private key and its public key. -/
def keyPair (k : PrivateKey) : KeyPair := ⟨⟨S.publicKey k.raw⟩, k⟩

/-- The secret that a private key shares with a public key. -/
def agreement (ours : PrivateKey) (theirs : PublicKey) : Block 32 := S.agree ours.raw theirs.raw

/-- `n` bytes derived under a label. -/
def derive (salt : Option Bytes) (material label : Bytes) (n : Nat) : Block n :=
  hkdf S.mac salt material label n

end Suite

/-! ### Primitives on bytes of any length -/

/-- Encrypt under a key and a starting block that may have the wrong length. -/
def encryptBytes (key iv plain : Bytes) : Except CryptoFault Bytes :=
  match Block.ofBytes? 32 key, Block.ofBytes? 16 iv with
  | some key, some iv => .ok (encryptCbc key iv plain)
  | _, _ => .error .badCipherKey

/-- Decrypt under a key and a starting block that may have the wrong length; the length of the
ciphertext is looked at first. -/
def decryptBytes (key iv cipher : Bytes) : Except CryptoFault Bytes :=
  if wholeBlocks cipher then
    match Block.ofBytes? 32 key, Block.ofBytes? 16 iv with
    | some key, some iv => (decryptCbc key iv cipher).mapError .undecryptable
    | _, _ => .error .badCipherKey
  else .error (.undecryptable (.badLength cipher.length))

/-- The version of key derivation that is in use. -/
def derivationVersion : UInt8 := 3

/-- Derive `n` bytes by the derivation of a version; only the current one is known. -/
def deriveBytes (version : UInt8) (salt : Option Bytes) (material label : Bytes) (n : Nat) :
    Except Error Bytes :=
  if version < derivationVersion then .error (.legacyDerivation version)
  else if derivationVersion < version then invalid (.unknownDerivation version)
  else if hkdfLimit < n then .error (.crypto .derivationTooLong)
  else .ok (classicSuite.derive salt material label n).bytes

end DoubleRatchet
