/-
DoubleRatchet/Cipher/Cbc.lean

Messages under AES-256 in cipher block chaining.  A plaintext is first filled up
to whole blocks, with one to sixteen bytes that each say how many they are, so a
ciphertext is never empty and `unpad` knows what to take off again.

`encryptCbc` and `decryptCbc` work on a key and a starting block of the right
lengths.  Decryption fails on a ciphertext that is not a positive number of
blocks and on padding that `pad` cannot have written.
-/
import DoubleRatchet.Cipher.Aes

namespace DoubleRatchet

namespace Cbc

/-! ### Padding -/

/-- Fill up to whole blocks. -/
def pad (plain : Bytes) : Bytes :=
  let n := 16 - plain.length % 16
  plain ++ List.replicate n (UInt8.ofNat n)

/-- Take the padding off; none if it is not one that `pad` writes. -/
def unpad (padded : Bytes) : Option Bytes :=
  match padded.getLast? with
  | none => none
  | some last =>
    let n := last.toNat
    if 0 < n ∧ n ≤ 16 ∧ n ≤ padded.length ∧
        (padded.drop (padded.length - n)).all (· == last) then
      some (padded.take (padded.length - n))
    else none

/-! ### Chaining -/

/-- Cut into blocks of sixteen bytes; a shorter rest is left out. -/
def blocks : Bytes → List Bytes
  | a₀ :: a₁ :: a₂ :: a₃ :: a₄ :: a₅ :: a₆ :: a₇ :: a₈ :: a₉ :: a₁₀ :: a₁₁ :: a₁₂ :: a₁₃ :: a₁₄ ::
      a₁₅ :: rest =>
    [a₀, a₁, a₂, a₃, a₄, a₅, a₆, a₇, a₈, a₉, a₁₀, a₁₁, a₁₂, a₁₃, a₁₄, a₁₅] :: blocks rest
  | _ => []

/-- Encrypt each block together with the ciphertext block before it. -/
def chain (encrypt : Bytes → Bytes) : (previous : Bytes) → List Bytes → List Bytes
  | _, [] => []
  | previous, b :: rest =>
    let c := encrypt (xorBytes b previous)
    c :: chain encrypt c rest

/-- Decrypt each block and take off the ciphertext block before it. -/
def unchain (decrypt : Bytes → Bytes) : (previous : Bytes) → List Bytes → List Bytes
  | _, [] => []
  | previous, c :: rest => xorBytes (decrypt c) previous :: unchain decrypt c rest

end Cbc

/-- Why a ciphertext cannot be decrypted. -/
inductive CipherFault where
  /-- The ciphertext is not a positive number of blocks. -/
  | badLength (length : Nat)
  /-- The padding is not one that encryption writes. -/
  | badPadding
  deriving DecidableEq

/-- A plaintext encrypted under a key and a starting block. -/
def encryptCbc (key : Block 32) (iv : Block 16) (plain : Bytes) : Bytes :=
  let keys := Aes.roundKeys key
  (Cbc.chain (Aes.encryptBlock keys) iv.bytes (Cbc.blocks (Cbc.pad plain))).flatten

/-- Whether a ciphertext has a length that encryption gives. -/
def wholeBlocks (cipher : Bytes) : Bool := !cipher.isEmpty && cipher.length % 16 == 0

/-- The plaintext of a ciphertext under a key and a starting block. -/
def decryptCbc (key : Block 32) (iv : Block 16) (cipher : Bytes) : Except CipherFault Bytes :=
  if wholeBlocks cipher then
    let keys := (Aes.roundKeys key).reverse
    let padded := (Cbc.unchain (Aes.decryptBlock keys) iv.bytes (Cbc.blocks cipher)).flatten
    match Cbc.unpad padded with
    | some plain => .ok plain
    | none => .error .badPadding
  else .error (.badLength cipher.length)

end DoubleRatchet
