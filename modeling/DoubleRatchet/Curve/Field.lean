/-
DoubleRatchet/Curve/Field.lean

The field of integers modulo `2²⁵⁵ − 19`.  An element is a reduced residue, so
equality of elements is equality of numbers and every element has one encoding
in 32 bytes.
-/
import DoubleRatchet.Bytes

namespace DoubleRatchet

/-- The characteristic of the field, `2²⁵⁵ − 19`. -/
abbrev fieldPrime : Nat :=
  57896044618658097711785492504343953926634992332820282019728792003956564819949

/-- An integer modulo `2²⁵⁵ − 19`. -/
structure Felt where
  val : Nat
  val_lt : val < fieldPrime
  deriving DecidableEq

namespace Felt

/-! ### Arithmetic -/

/-- The residue of a number. -/
def ofNat (n : Nat) : Felt := ⟨n % fieldPrime, Nat.mod_lt _ (by decide)⟩

instance (n : Nat) : OfNat Felt n := ⟨ofNat n⟩
instance : Add Felt := ⟨fun a b => ofNat (a.val + b.val)⟩
instance : Sub Felt := ⟨fun a b => ofNat (a.val + (fieldPrime - b.val))⟩
instance : Mul Felt := ⟨fun a b => ofNat (a.val * b.val)⟩
instance : Neg Felt := ⟨fun a => ofNat (fieldPrime - a.val)⟩

/-- The power `a ^ n`, for `n` below `2 ^ bits`, by repeated squaring. -/
def powBits : (bits : Nat) → Felt → Nat → Felt
  | 0, _, _ => 1
  | bits + 1, a, n => (if n % 2 = 1 then a else 1) * powBits bits (a * a) (n / 2)

/-- The power with an exponent below `2²⁵⁵`. -/
def power (a : Felt) (n : Nat) : Felt := powBits 255 a n

/-- The multiplicative inverse; zero for zero. -/
def inverse (a : Felt) : Felt := power a (fieldPrime - 2)

/-- A square root of minus one. -/
def rootOfMinusOne : Felt :=
  ofNat 19681161376707505956807079304988542015446066515923890162744021073123829784752

/-- The even one of the two elements `x` and `-x`. -/
def evenOf (x : Felt) : Felt := if x.val % 2 = 0 then x else -x

/-- The even square root of `u / v`, if there is a square root. -/
def rootOfRatio? (u v : Felt) : Option Felt :=
  let r := u * (v * v * v) * power (u * (v * v * v * v * v * v * v)) ((fieldPrime - 5) / 8)
  if v * (r * r) = u then some (evenOf r)
  else if v * (r * r) = -u then some (evenOf (r * rootOfMinusOne))
  else none

/-! ### Encoding -/

/-- The element that 32 bytes stand for; the highest bit is not looked at. -/
def decode (b : Block 32) : Felt := ofNat (ofLittle (b.modify 31 (· &&& 127)).bytes)

/-- The 32 bytes of an element. -/
def encode (x : Felt) : Block 32 := littleBlock 32 x.val

end Felt

end DoubleRatchet
