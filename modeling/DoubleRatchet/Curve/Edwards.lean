/-
DoubleRatchet/Curve/Edwards.lean

Curve25519 in twisted Edwards form, `-x² + y² = 1 + d x² y²`, where points can be
added.  A point is kept as `(X : Y : Z : T)` with `x = X / Z`, `y = Y / Z` and
`T = x y Z`; the sum formula has no exceptional cases, so it doubles as well.

A public key in Montgomery form stands for two points that differ in the sign of
`x`; `ofMontgomery?` gives the one with even `x`.
-/
import DoubleRatchet.Curve.Field

namespace DoubleRatchet

/-- A point in extended coordinates. -/
structure EdwardsPoint where
  x : Felt
  y : Felt
  z : Felt
  t : Felt
  deriving DecidableEq

namespace EdwardsPoint

/-- The coefficient `d = -121665 / 121666` of the curve. -/
def coefficient : Felt :=
  Felt.ofNat 37095705934669439343138083508754565189542113879843219016388785533085940283555

/-- The point with the given affine coordinates. -/
def ofAffine (x y : Felt) : EdwardsPoint := ⟨x, y, 1, x * y⟩

/-- The neutral point. -/
def zero : EdwardsPoint := ofAffine 0 1

/-- The base point, of prime order. -/
def base : EdwardsPoint :=
  ofAffine
    (Felt.ofNat 15112221349535400772501151409588531511454012693041857206046113283949847762202)
    (Felt.ofNat 46316835694926478169428394003475163141307993866256225615783033603165251855960)

/-- The order of the base point, `2²⁵² + 27742317777372353535851937790883648493`. -/
def order : Nat := 7237005577332262213973186563042994240857116359379907606001950938285454250989

/-! ### Arithmetic -/

/-- The sum of two points. -/
def add (p q : EdwardsPoint) : EdwardsPoint :=
  let a := (p.y - p.x) * (q.y - q.x)
  let b := (p.y + p.x) * (q.y + q.x)
  let c := p.t * (coefficient + coefficient) * q.t
  let d := (p.z + p.z) * q.z
  let e := b - a
  let f := d - c
  let g := d + c
  let h := b + a
  ⟨e * f, g * h, f * g, e * h⟩

/-- The opposite point. -/
def neg (p : EdwardsPoint) : EdwardsPoint := ⟨-p.x, p.y, p.z, -p.t⟩

/-- The multiple `n` of a point, for `n` below `2 ^ bits`. -/
def mulBits : (bits : Nat) → Nat → EdwardsPoint → EdwardsPoint
  | 0, _, _ => zero
  | bits + 1, n, p =>
    let rest := mulBits bits (n / 2) (p.add p)
    if n % 2 = 1 then p.add rest else rest

/-- The multiple `n` of a point, for a scalar `n`. -/
def mul (n : Nat) (p : EdwardsPoint) : EdwardsPoint := mulBits 253 n p

/-! ### Encoding -/

/-- The 32 bytes of a point: `y`, with the parity of `x` in the highest bit. -/
def encode (p : EdwardsPoint) : Block 32 :=
  let r := p.z.inverse
  (p.y * r).encode.modify 31 (· ||| (if (p.x * r).val % 2 = 1 then 128 else 0))

/-- The point with even `x` that a Montgomery `u` coordinate stands for. -/
def ofMontgomery? (publicKey : Block 32) : Option EdwardsPoint :=
  let u := Felt.decode publicKey
  if u = -1 then none
  else
    let y := (u - 1) * (u + 1).inverse
    let s := y * y
    (Felt.rootOfRatio? (s - 1) (s * coefficient + 1)).map fun x => ofAffine x y

end EdwardsPoint

end DoubleRatchet
