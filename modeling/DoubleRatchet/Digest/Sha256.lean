/-
DoubleRatchet/Digest/Sha256.lean

SHA-256.  A message is padded to whole blocks of sixteen words; each block is
worked into eight chaining words by sixty-four rounds.  The schedule is a
window of the last sixteen words that slides by one word each round, so a block
is a single structural recursion over the list of round constants.

The digest of every message has 32 bytes by its type.
-/
import DoubleRatchet.Bytes

namespace DoubleRatchet

namespace Sha256

/-- The eight chaining words. -/
structure Chain where
  a : UInt32
  b : UInt32
  c : UInt32
  d : UInt32
  e : UInt32
  f : UInt32
  g : UInt32
  h : UInt32

/-- The chaining words before the first block. -/
def start : Chain :=
  ⟨0x6a09e667, 0xbb67ae85, 0x3c6ef372, 0xa54ff53a, 0x510e527f, 0x9b05688c, 0x1f83d9ab, 0x5be0cd19⟩

/-- One constant for each round. -/
def roundConstants : List UInt32 := [
  0x428a2f98, 0x71374491, 0xb5c0fbcf, 0xe9b5dba5, 0x3956c25b, 0x59f111f1, 0x923f82a4, 0xab1c5ed5,
  0xd807aa98, 0x12835b01, 0x243185be, 0x550c7dc3, 0x72be5d74, 0x80deb1fe, 0x9bdc06a7, 0xc19bf174,
  0xe49b69c1, 0xefbe4786, 0x0fc19dc6, 0x240ca1cc, 0x2de92c6f, 0x4a7484aa, 0x5cb0a9dc, 0x76f988da,
  0x983e5152, 0xa831c66d, 0xb00327c8, 0xbf597fc7, 0xc6e00bf3, 0xd5a79147, 0x06ca6351, 0x14292967,
  0x27b70a85, 0x2e1b2138, 0x4d2c6dfc, 0x53380d13, 0x650a7354, 0x766a0abb, 0x81c2c92e, 0x92722c85,
  0xa2bfe8a1, 0xa81a664b, 0xc24b8b70, 0xc76c51a3, 0xd192e819, 0xd6990624, 0xf40e3585, 0x106aa070,
  0x19a4c116, 0x1e376c08, 0x2748774c, 0x34b0bcb5, 0x391c0cb3, 0x4ed8aa4a, 0x5b9cca4f, 0x682e6ff3,
  0x748f82ee, 0x78a5636f, 0x84c87814, 0x8cc70208, 0x90befffa, 0xa4506ceb, 0xbef9a3f7, 0xc67178f2]

/-! ### Rounds -/

/-- Rotate a word to the right by `n` bits, for `n` from 1 to 31. -/
@[inline] def rotate (x : UInt32) (n : UInt32) : UInt32 := (x >>> n) ||| (x <<< (32 - n))

/-- One round with the sum of its constant and its schedule word. -/
@[inline] def Chain.round (s : Chain) (w : UInt32) : Chain :=
  let t₁ := s.h + (rotate s.e 6 ^^^ rotate s.e 11 ^^^ rotate s.e 25)
    + ((s.e &&& s.f) ^^^ ((~~~s.e) &&& s.g)) + w
  let t₂ := (rotate s.a 2 ^^^ rotate s.a 13 ^^^ rotate s.a 22)
    + ((s.a &&& s.b) ^^^ (s.a &&& s.c) ^^^ (s.b &&& s.c))
  ⟨t₁ + t₂, s.a, s.b, s.c, s.d + t₁, s.e, s.f, s.g⟩

/-- The schedule word that follows a window, from its words 0, 1, 9 and 14. -/
@[inline] def nextWord (w₀ w₁ w₉ w₁₄ : UInt32) : UInt32 :=
  (rotate w₁₄ 17 ^^^ rotate w₁₄ 19 ^^^ (w₁₄ >>> 10)) + w₉
    + (rotate w₁ 7 ^^^ rotate w₁ 18 ^^^ (w₁ >>> 3)) + w₀

/-- One round for each constant, over a sliding window of sixteen schedule words. -/
def rounds : List UInt32 → (w₀ w₁ w₂ w₃ w₄ w₅ w₆ w₇ w₈ w₉ w₁₀ w₁₁ w₁₂ w₁₃ w₁₄ w₁₅ : UInt32) →
    Chain → Chain
  | [], _, _, _, _, _, _, _, _, _, _, _, _, _, _, _, _, s => s
  | k :: ks, w₀, w₁, w₂, w₃, w₄, w₅, w₆, w₇, w₈, w₉, w₁₀, w₁₁, w₁₂, w₁₃, w₁₄, w₁₅, s =>
    rounds ks w₁ w₂ w₃ w₄ w₅ w₆ w₇ w₈ w₉ w₁₀ w₁₁ w₁₂ w₁₃ w₁₄ w₁₅ (nextWord w₀ w₁ w₉ w₁₄)
      (s.round (k + w₀))

/-- Word-wise sum of two chaining values. -/
def Chain.add (s t : Chain) : Chain :=
  ⟨s.a + t.a, s.b + t.b, s.c + t.c, s.d + t.d, s.e + t.e, s.f + t.f, s.g + t.g, s.h + t.h⟩

/-- Work the words of whole blocks into a chaining value. -/
def absorb (s : Chain) : List UInt32 → Chain
  | w₀ :: w₁ :: w₂ :: w₃ :: w₄ :: w₅ :: w₆ :: w₇ :: w₈ :: w₉ :: w₁₀ :: w₁₁ :: w₁₂ :: w₁₃ ::
      w₁₄ :: w₁₅ :: rest =>
    absorb (s.add (rounds roundConstants
      w₀ w₁ w₂ w₃ w₄ w₅ w₆ w₇ w₈ w₉ w₁₀ w₁₁ w₁₂ w₁₃ w₁₄ w₁₅ s)) rest
  | _ => s

/-! ### Messages and digests -/

/-- Words of four bytes, most significant byte first, and then what is made of the bytes left. -/
def toWords (last : Bytes → List UInt32) : Bytes → List UInt32
  | a :: b :: c :: d :: rest =>
    ((a.toUInt32 <<< 24) ||| (b.toUInt32 <<< 16) ||| (c.toUInt32 <<< 8) ||| d.toUInt32) ::
      toWords last rest
  | rest => last rest

/-- What follows a message of `n` bytes up to a whole number of blocks: a one bit, zeros and the
length in bits. -/
def padding (n : Nat) : Bytes :=
  0x80 :: (List.replicate ((119 - n % 64) % 64) 0 ++ toBig 8 (8 * n))

/-- The words of a padded message. -/
def words (message : Bytes) : List UInt32 :=
  toWords (fun rest => toWords (fun _ => []) (rest ++ padding message.length)) message

/-- The four bytes of a word, most significant byte first. -/
def ofWord (w : UInt32) : Bytes :=
  [(w >>> 24).toUInt8, (w >>> 16).toUInt8, (w >>> 8).toUInt8, w.toUInt8]

/-- The digest that a chaining value stands for. -/
def Chain.digest (s : Chain) : Block 32 :=
  ⟨ofWord s.a ++ ofWord s.b ++ ofWord s.c ++ ofWord s.d ++ ofWord s.e ++ ofWord s.f ++ ofWord s.g
    ++ ofWord s.h, rfl⟩

end Sha256

/-- The SHA-256 digest of a message. -/
def sha256 (message : Bytes) : Block 32 :=
  (Sha256.absorb Sha256.start (Sha256.words message)).digest

end DoubleRatchet
