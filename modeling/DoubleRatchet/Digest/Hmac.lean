/-
DoubleRatchet/Digest/Hmac.lean

Keyed tags and key derivation.

* `hmacSha256`: HMAC over SHA-256; a key longer than a hash block is hashed
  first, a shorter one is filled up with zeros.
* `hkdf`: extract a key from the input material, then expand it block by block.
  It is written over any keyed hash with 32-byte tags, so that what is proved of
  it does not depend on which hash is used.  The result has the length asked for
  by its type.
-/
import DoubleRatchet.Digest.Sha256

namespace DoubleRatchet

/-! ### HMAC -/

/-- A key brought to the length of a hash block. -/
def hmacKey (key : Bytes) : Bytes :=
  let short := if key.length ≤ 64 then key else (sha256 key).bytes
  short ++ List.replicate (64 - short.length) 0

/-- The HMAC-SHA-256 tag of a message. -/
def hmacSha256 (key message : Bytes) : Block 32 :=
  let k := hmacKey key
  sha256 (k.map (· ^^^ 0x5c) ++ (sha256 (k.map (· ^^^ 0x36) ++ message)).bytes)

/-! ### Derivation -/

/-- A keyed hash: key, message, tag. -/
abbrev Mac := Bytes → Bytes → Block 32

/-- The key extracted from input material; without a salt, the salt is 32 zero bytes. -/
def Mac.extract (mac : Mac) (salt : Option Bytes) (material : Bytes) : Block 32 :=
  mac (salt.getD (List.replicate 32 0)) material

/-- `count` blocks of output, each a tag of the one before it, the label and its own number. -/
def Mac.expand (mac : Mac) (key label : Bytes) : (count : Nat) → (previous : Bytes) → UInt8 → Bytes
  | 0, _, _ => []
  | count + 1, previous, number =>
    let block := mac key (previous ++ label ++ [number])
    block.bytes ++ mac.expand key label count block.bytes (number + 1)

@[simp] theorem Mac.length_expand (mac : Mac) (key label : Bytes) (count : Nat) (previous : Bytes)
    (number : UInt8) : (mac.expand key label count previous number).length = 32 * count := by
  induction count generalizing previous number with
  | zero => rfl
  | succ count ih => simp [Mac.expand, ih]; omega

/-- `n` bytes derived from input material under a label. -/
def hkdf (mac : Mac) (salt : Option Bytes) (material label : Bytes) (n : Nat) : Block n :=
  .takeFrom n (mac.expand (mac.extract salt material).bytes label ((n + 31) / 32) [] 1)
    (by simp; omega)

/-- The most bytes that one derivation can give: the block number is a single byte. -/
def hkdfLimit : Nat := 255 * 32

end DoubleRatchet
