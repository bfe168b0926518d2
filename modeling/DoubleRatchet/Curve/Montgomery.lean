/-
DoubleRatchet/Curve/Montgomery.lean

Key agreement on Curve25519 in Montgomery form.  Only the `u` coordinate of a
point is known; a multiple of it is computed by a ladder that keeps two
neighbouring multiples in projective form.

A private key is any 32 bytes.  `clamp` turns them into a multiple of eight
between `2²⁵⁴` and `2²⁵⁵`, so that no multiple of a public key leaks anything
about the small subgroup.
-/
import DoubleRatchet.Curve.Field

namespace DoubleRatchet

/-- The bytes of a scalar that is a multiple of eight between `2²⁵⁴` and `2²⁵⁵`. -/
def clamp (b : Block 32) : Block 32 :=
  ((b.modify 0 (· &&& 248)).modify 31 (· &&& 127)).modify 31 (· ||| 64)

namespace Montgomery

/-- A `u` coordinate in projective form. -/
structure Ratio where
  u : Felt
  w : Felt

/-- The ratio as an element; zero for the point at infinity. -/
def Ratio.toFelt (r : Ratio) : Felt := r.u * r.w.inverse

/-- Twice the first point, and the sum of both, given the `u` coordinate of their difference. -/
def doubleAndAdd (base : Felt) (p q : Ratio) : Ratio × Ratio :=
  let sum := p.u + p.w
  let difference := p.u - p.w
  let squareSum := sum * sum
  let squareDifference := difference * difference
  let gap := squareSum - squareDifference
  let cross := difference * (q.u + q.w)
  let crossed := sum * (q.u - q.w)
  let added := crossed + cross
  let taken := crossed - cross
  (⟨squareSum * squareDifference, gap * (squareDifference + 121666 * gap)⟩,
    ⟨added * added, base * (taken * taken)⟩)

/-- The multiples `n` and `n + 1` of the base, for `n` below `2 ^ bits`, highest bit first. -/
def ladder (base : Felt) (n : Nat) : (bits : Nat) → (p q : Ratio) → Ratio
  | 0, p, _ => p
  | bits + 1, p, q =>
    if n.testBit bits then
      let (q, p) := doubleAndAdd base q p
      ladder base n bits p q
    else
      let (p, q) := doubleAndAdd base p q
      ladder base n bits p q

/-- The `u` coordinate of `n` times the point with the given one, for `n` below `2²⁵⁵`. -/
def multiple (n : Nat) (u : Felt) : Felt := (ladder u n 255 ⟨1, 0⟩ ⟨u, 1⟩).toFelt

end Montgomery

/-- The secret that a private key shares with a public key. -/
def x25519 (privateKey publicKey : Block 32) : Block 32 :=
  (Montgomery.multiple (ofLittle (clamp privateKey).bytes) (Felt.decode publicKey)).encode

/-- The public key of a private key: the multiple of the point with `u = 9`. -/
def x25519Public (privateKey : Block 32) : Block 32 :=
  (Montgomery.multiple (ofLittle (clamp privateKey).bytes) 9).encode

end DoubleRatchet
