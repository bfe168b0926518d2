/-
DoubleRatchet/Cipher/Aes.lean

AES with a 256-bit key.  A block is sixteen bytes, column after column.  The
substitution table is not written out: it is the inverse in the field of 256
elements followed by an affine map, tabulated once.

Each of the four layers of a round has its inverse beside it, and decryption
applies the inverses in the opposite order.
-/
import DoubleRatchet.Bytes

namespace DoubleRatchet

namespace Aes

/-! ### The field of 256 elements -/

/-- Multiply by the generator `x`, modulo `x⁸ + x⁴ + x³ + x + 1`. -/
def double (a : UInt8) : UInt8 := (a <<< 1) ^^^ (if a &&& 0x80 = 0 then 0 else 0x1b)

/-- Field product, by the bits of the first factor from the lowest of `steps` on. -/
def mulBits : (steps : Nat) → UInt8 → UInt8 → UInt8
  | 0, _, _ => 0
  | steps + 1, a, b => (if a &&& 1 = 0 then 0 else b) ^^^ mulBits steps (a >>> 1) (double b)

/-- Field product. -/
def mul (a b : UInt8) : UInt8 := mulBits 8 a b

/-- The inverse of a field element, `a²⁵⁴`; zero stands for itself. -/
def inverse (a : UInt8) : UInt8 :=
  let a2 := mul a a
  let a4 := mul a2 a2
  let a8 := mul a4 a4
  let a16 := mul a8 a8
  let a32 := mul a16 a16
  let a64 := mul a32 a32
  let a128 := mul a64 a64
  mul a2 (mul a4 (mul a8 (mul a16 (mul a32 (mul a64 a128)))))

/-- Rotate a byte to the left by `n` bits, for `n` from 1 to 7. -/
def rotateByte (b : UInt8) (n : UInt8) : UInt8 := (b <<< n) ||| (b >>> (8 - n))

/-- The substituted byte. -/
def substituted (b : UInt8) : UInt8 :=
  let i := inverse b
  i ^^^ rotateByte i 1 ^^^ rotateByte i 2 ^^^ rotateByte i 3 ^^^ rotateByte i 4 ^^^ 0x63

/-- The byte that is substituted by `b`. -/
def restored (b : UInt8) : UInt8 :=
  inverse (rotateByte b 1 ^^^ rotateByte b 3 ^^^ rotateByte b 6 ^^^ 0x05)

/-- The substitution, tabulated. -/
def substitutionTable : Array UInt8 := Array.ofFn fun i : Fin 256 => substituted (UInt8.ofNat i)

/-- The inverse of the substitution, tabulated. -/
def restorationTable : Array UInt8 := Array.ofFn fun i : Fin 256 => restored (UInt8.ofNat i)

/-- Substitute one byte. -/
def substitute (b : UInt8) : UInt8 := substitutionTable.getD b.toNat 0

/-- Undo the substitution of one byte. -/
def restore (b : UInt8) : UInt8 := restorationTable.getD b.toNat 0

/-! ### The layers of a round -/

/-- Rotate row `r` of the four columns to the left by `r` places. -/
def shiftRows : Bytes → Bytes
  | [a₀, a₁, a₂, a₃, b₀, b₁, b₂, b₃, c₀, c₁, c₂, c₃, d₀, d₁, d₂, d₃] =>
    [a₀, b₁, c₂, d₃, b₀, c₁, d₂, a₃, c₀, d₁, a₂, b₃, d₀, a₁, b₂, c₃]
  | other => other

/-- Rotate row `r` of the four columns to the right by `r` places. -/
def unshiftRows : Bytes → Bytes
  | [a₀, a₁, a₂, a₃, b₀, b₁, b₂, b₃, c₀, c₁, c₂, c₃, d₀, d₁, d₂, d₃] =>
    [a₀, d₁, c₂, b₃, b₀, a₁, d₂, c₃, c₀, b₁, a₂, d₃, d₀, c₁, b₂, a₃]
  | other => other

/-- Multiply each column by the polynomial `3x³ + x² + x + 2`. -/
def mixColumns : Bytes → Bytes
  | a :: b :: c :: d :: rest =>
    let all := a ^^^ b ^^^ c ^^^ d
    (a ^^^ all ^^^ double (a ^^^ b)) :: (b ^^^ all ^^^ double (b ^^^ c)) ::
      (c ^^^ all ^^^ double (c ^^^ d)) :: (d ^^^ all ^^^ double (d ^^^ a)) :: mixColumns rest
  | other => other

/-- Multiply each column by the inverse polynomial: three further mixings. -/
def unmixColumns (s : Bytes) : Bytes := mixColumns (mixColumns (mixColumns s))

/-! ### Key schedule -/

/-- The eight words that follow eight words of the schedule. -/
def nextWords (constant : UInt8) : List Bytes → List Bytes
  | [w₀, w₁, w₂, w₃, w₄, w₅, w₆, w₇] =>
    let turned := match w₇.map substitute with
      | [a, b, c, d] => [b ^^^ constant, c, d, a]
      | other => other
    let v₀ := xorBytes w₀ turned
    let v₁ := xorBytes w₁ v₀
    let v₂ := xorBytes w₂ v₁
    let v₃ := xorBytes w₃ v₂
    let v₄ := xorBytes w₄ (v₃.map substitute)
    let v₅ := xorBytes w₅ v₄
    let v₆ := xorBytes w₆ v₅
    [v₀, v₁, v₂, v₃, v₄, v₅, v₆, xorBytes w₇ v₆]
  | other => other

/-- Words of the schedule in groups of eight, with the constant of the next group. -/
def schedule : (groups : Nat) → (constant : UInt8) → List Bytes → List Bytes
  | 0, _, _ => []
  | groups + 1, constant, words =>
    words ++ schedule groups (double constant) (nextWords constant words)

/-- Four words at a time, as one round key. -/
def roundKeysOf : List Bytes → List Bytes
  | a :: b :: c :: d :: rest => (a ++ b ++ c ++ d) :: roundKeysOf rest
  | _ => []

/-- Cut into words of four bytes. -/
def keyWords : Bytes → List Bytes
  | a :: b :: c :: d :: rest => [a, b, c, d] :: keyWords rest
  | _ => []

/-- The fifteen round keys of a key, first one first. -/
def roundKeys (key : Block 32) : List Bytes :=
  (roundKeysOf (schedule 8 1 (keyWords key.bytes))).take 15

/-! ### Blocks -/

/-- Rounds after the first key has been added; the last one does not mix columns. -/
def encryptRounds : List Bytes → Bytes → Bytes
  | [], s => s
  | [last], s => xorBytes (shiftRows (s.map substitute)) last
  | k :: ks, s => encryptRounds ks (xorBytes (mixColumns (shiftRows (s.map substitute))) k)

/-- Encrypt sixteen bytes under the round keys, first one first. -/
def encryptBlock : List Bytes → Bytes → Bytes
  | [], s => s
  | k :: ks, s => encryptRounds ks (xorBytes s k)

/-- The inverse rounds, for the round keys from the last but one down to the first. -/
def decryptRounds : List Bytes → Bytes → Bytes
  | [], s => s
  | [first], s => xorBytes ((unshiftRows s).map restore) first
  | k :: ks, s => decryptRounds ks (unmixColumns (xorBytes ((unshiftRows s).map restore) k))

/-- Decrypt sixteen bytes under the round keys, last one first. -/
def decryptBlock : List Bytes → Bytes → Bytes
  | [], s => s
  | k :: ks, s => decryptRounds ks (xorBytes s k)

end Aes

end DoubleRatchet
