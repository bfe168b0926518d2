/-
DoubleRatchet/Proofs/CurvePoints.lean

Points in extended coordinates stand for points of the curve.

`Represents` says which one: the affine coordinates are those of the point.  Sums,
opposites and multiples that are computed represent the sums, opposites and multiples of the
group, and the base point has the prime order that it is said to have
(`addOrderOf_basePoint`).  An encoding depends on the point alone (`Represents.encode_eq`)
and tells points apart (`encode_injective`).  A public key that is the `u` coordinate of a
point is decoded to that point or its opposite, whichever has even `x`
(`ofMontgomery?_encode`); whatever is decoded is a point (`represents_of_ofMontgomery?`).
-/
import DoubleRatchet.Curve.Signature
import DoubleRatchet.Proofs.EdwardsGroup
import DoubleRatchet.Proofs.Residues
import Mathlib.GroupTheory.OrderOfElement

namespace DoubleRatchet

open Felt EdwardsPoint

/-! ### The curve -/

/-- The coefficient is not a square, by Euler's criterion. -/
theorem coefficient_power : coefficient.power (fieldPrime / 2) = -1 := by decide +kernel

/-- The Edwards form of Curve25519. -/
def curve25519 : EdwardsCurve (ZMod fieldPrime) where
  d := coefficient.toZMod
  i := rootOfMinusOne.toZMod
  i_sq := by rw [← toZMod_mul, rootOfMinusOne_sq, toZMod_neg, toZMod_one]
  nonsquare a square := by
    have euler := congrArg toZMod coefficient_power
    rw [toZMod_power _ (by decide), toZMod_neg, toZMod_one, ← square, ← sq, ← pow_mul] at euler
    have one : a ^ (2 * (fieldPrime / 2)) = 1 ∨ a = 0 := by
      by_cases zero : a = 0
      · exact .inr zero
      · have fermat := ZMod.pow_card_sub_one_eq_one zero
        rw [show fieldPrime - 1 = 2 * (fieldPrime / 2) by decide] at fermat
        exact .inl fermat
    rcases one with one | zero
    · rw [one] at euler
      exact two_ne (by linear_combination euler)
    · rw [zero, zero_pow (by decide)] at euler
      exact one_ne_zero (neg_eq_zero.mp euler.symm)
  two_ne := two_ne

theorem curve25519_d : curve25519.d = coefficient.toZMod := rfl

/-- A point of the curve. -/
abbrev CurvePoint := curve25519.Point

namespace EdwardsPoint

variable {p q : EdwardsPoint} {P Q : CurvePoint}

/-! ### Extended coordinates -/

/-- The coordinates are those of a point of the curve. -/
structure Represents (p : EdwardsPoint) (P : CurvePoint) : Prop where
  z : p.z.toZMod ≠ 0
  x : p.x.toZMod = P.x * p.z.toZMod
  y : p.y.toZMod = P.y * p.z.toZMod
  t : p.t.toZMod = P.x * P.y * p.z.toZMod

theorem represents_ofAffine {x y : Felt} (hx : x.toZMod = P.x) (hy : y.toZMod = P.y) :
    (ofAffine x y).Represents P := by
  constructor <;> simp [ofAffine, hx, hy]

theorem represents_zero : zero.Represents 0 := represents_ofAffine toZMod_zero toZMod_one

namespace Represents

theorem neg (h : p.Represents P) : p.neg.Represents (-P) where
  z := h.z
  x := by simp [EdwardsPoint.neg, h.x]
  y := by simp [EdwardsPoint.neg, h.y]
  t := by simp [EdwardsPoint.neg, h.t]

theorem add (hp : p.Represents P) (hq : q.Represents Q) : (p.add q).Represents (P + Q) := by
  have hx := P.add_x_mul Q
  have hy := P.add_y_mul Q
  obtain ⟨w, hw⟩ : ∃ w, 2 * p.z.toZMod * q.z.toZMod = w := ⟨_, rfl⟩
  have w_ne : w ≠ 0 := hw ▸ mul_ne_zero (mul_ne_zero two_ne hp.z) hq.z
  have e : ((p.y + p.x) * (q.y + q.x) - (p.y - p.x) * (q.y - q.x)).toZMod
      = w * (P.x * Q.y + P.y * Q.x) := by
    simp only [toZMod_add, toZMod_sub, toZMod_mul, hp.x, hp.y, hq.x, hq.y, ← hw]
    ring
  have h : ((p.y + p.x) * (q.y + q.x) + (p.y - p.x) * (q.y - q.x)).toZMod
      = w * (P.y * Q.y + P.x * Q.x) := by
    simp only [toZMod_add, toZMod_sub, toZMod_mul, hp.x, hp.y, hq.x, hq.y, ← hw]
    ring
  have cross : (p.t * (coefficient + coefficient) * q.t).toZMod = w * P.cross Q := by
    simp only [toZMod_add, toZMod_mul, hp.t, hq.t, ← hw, EdwardsCurve.Point.cross, curve25519_d]
    ring
  have unit : ((p.z + p.z) * q.z).toZMod = w := by
    simp only [toZMod_add, toZMod_mul, ← hw]
    ring
  have f : ((p.z + p.z) * q.z - p.t * (coefficient + coefficient) * q.t).toZMod
      = w * (1 - P.cross Q) := by
    rw [toZMod_sub, unit, cross]
    ring
  have g : ((p.z + p.z) * q.z + p.t * (coefficient + coefficient) * q.t).toZMod
      = w * (1 + P.cross Q) := by
    rw [toZMod_add, unit, cross]
    ring
  unfold EdwardsPoint.add
  constructor <;> dsimp only
  · rw [toZMod_mul, f, g]
    exact mul_ne_zero (mul_ne_zero w_ne (P.one_sub_cross_ne_zero Q))
      (mul_ne_zero w_ne (P.one_add_cross_ne_zero Q))
  · rw [toZMod_mul, toZMod_mul, e, f, g]
    linear_combination -w ^ 2 * (1 - P.cross Q) * hx
  · rw [toZMod_mul, toZMod_mul, h, f, g]
    linear_combination -w ^ 2 * (1 + P.cross Q) * hy
  · rw [toZMod_mul, toZMod_mul, e, f, g, h, ← hx, ← hy]
    ring

theorem mulBits (h : p.Represents P) {bits n : Nat} (small : n < 2 ^ bits) :
    (EdwardsPoint.mulBits bits n p).Represents (n • P) := by
  induction bits generalizing n p P with
  | zero =>
    obtain rfl : n = 0 := by omega
    rw [zero_nsmul]
    exact represents_zero
  | succ bits ih =>
    have rest := ih (h.add h) (show n / 2 < 2 ^ bits by omega)
    rw [← two_nsmul, ← mul_nsmul] at rest
    unfold EdwardsPoint.mulBits
    split
    · next odd =>
      have sum : n • P = P + (2 * (n / 2)) • P := by
        rw [← succ_nsmul']
        congr 1
        omega
      rw [sum]
      exact h.add rest
    · next even => rwa [show 2 * (n / 2) = n by omega] at rest

theorem mul (h : p.Represents P) {n : Nat} (small : n < order) : (mul n p).Represents (n • P) :=
  h.mulBits (small.trans (by decide))

end Represents

/-! ### The base point -/

theorem base_on : base.y * base.y - base.x * base.x
    = 1 + coefficient * (base.x * base.x) * (base.y * base.y) := by decide +kernel

/-- The base point of the curve. -/
def basePoint : CurvePoint where
  x := base.x.toZMod
  y := base.y.toZMod
  on := by
    have on := congrArg toZMod base_on
    simp only [toZMod_sub, toZMod_add, toZMod_mul, toZMod_one] at on
    rw [curve25519_d]
    linear_combination on

theorem represents_base : base.Represents basePoint := represents_ofAffine rfl rfl

theorem mul_order_base : (mul order base).y = (mul order base).z := by decide +kernel

instance : Fact order.Prime := ⟨prime_order⟩

theorem addOrderOf_basePoint : addOrderOf basePoint = order := by
  refine addOrderOf_eq_prime ?_ fun zero => ?_
  · have whole := represents_base.mulBits (show order < 2 ^ 253 by decide)
    have same := congrArg toZMod mul_order_base
    rw [mul, whole.y] at same
    exact EdwardsCurve.Point.eq_zero_of_y (mul_eq_right₀ whole.z |>.mp same)
  · have one := congrArg EdwardsCurve.Point.y zero
    rw [EdwardsCurve.Point.zero_y, ← toZMod_one] at one
    exact absurd (toZMod_injective one) (by decide +kernel)

/-- Multiples of the base point depend on the scalar modulo the order. -/
theorem mod_nsmul_basePoint (n : Nat) : (n % order) • basePoint = n • basePoint := by
  rw [← addOrderOf_basePoint, mod_addOrderOf_nsmul]

end EdwardsPoint

/-! ### The highest bit -/

theorem toLittle_succ (w n : Nat) :
    toLittle (w + 1) n = toLittle w n ++ [UInt8.ofNat (n / 256 ^ w)] := by
  induction w generalizing n with
  | zero => simp [toLittle]
  | succ w ih =>
    rw [toLittle, ih (n / 256), Nat.div_div_eq_div_mul, ← pow_succ']
    rfl

theorem modify_last (bs : Bytes) (b : UInt8) (f : UInt8 → UInt8) :
    (bs ++ [b]).modify bs.length f = bs ++ [f b] := by
  induction bs with
  | nil => rfl
  | cons c bs ih => simpa using ih

theorem Block.modify_modify {n : Nat} (b : Block n) (i : Nat) (f g : UInt8 → UInt8) :
    (b.modify i f).modify i g = b.modify i (g ∘ f) := Block.ext (List.modify_modify_eq f g i b.bytes)

/-- The last byte of a number in 32 bytes. -/
def topByte (n : Nat) : UInt8 := UInt8.ofNat (n / 256 ^ 31)

theorem bytes_modify_last (n : Nat) (f : UInt8 → UInt8) :
    ((littleBlock 32 n).modify 31 f).bytes = toLittle 31 n ++ [f (topByte n)] := by
  have last := modify_last (toLittle 31 n) (topByte n) f
  rw [length_toLittle] at last
  show (toLittle 32 n).modify 31 f = _
  rw [toLittle_succ 31 n]
  exact last

/-- A number of 255 bits leaves the highest bit free. -/
theorem topByte_lt {n : Nat} (h : n < 2 ^ 255) : (topByte n).toNat < 128 := by
  rw [topByte, UInt8.toNat_ofNat']
  omega

theorem low_bits {b : UInt8} (h : b.toNat < 128) : b &&& 127 = b := by
  apply UInt8.toNat_inj.mp
  rw [UInt8.toNat_and, show (127 : UInt8).toNat = 2 ^ 7 - 1 from rfl, Nat.and_two_pow_sub_one_eq_mod]
  exact Nat.mod_eq_of_lt h

theorem low_bits_or (b : UInt8) : (b ||| 128) &&& 127 = b &&& 127 := by
  apply UInt8.toNat_inj.mp
  rw [UInt8.toNat_and, UInt8.toNat_or, Nat.and_or_distrib_right, UInt8.toNat_and]
  exact Nat.or_zero _

theorem high_bit_or (b : UInt8) : 128 ≤ b ||| 128 := by
  show (128 : UInt8).toNat ≤ (b ||| 128).toNat
  rw [UInt8.toNat_or]
  exact Nat.right_le_or

theorem littleBlock_mask {n : Nat} (h : n < 2 ^ 255) :
    (littleBlock 32 n).modify 31 (· &&& 127) = littleBlock 32 n := by
  apply Block.ext
  rw [bytes_modify_last, low_bits (topByte_lt h), topByte, ← toLittle_succ 31 n]
  rfl

/-! ### Encodings -/

theorem Felt.val_lt_two_pow (a : Felt) : a.val < 2 ^ 255 := a.val_lt.trans (by decide)

theorem Felt.decode_encode (a : Felt) : decode a.encode = a := by
  rw [decode, encode, littleBlock_mask a.val_lt_two_pow]
  show ofNat (ofLittle (toLittle 32 a.val)) = a
  rw [ofLittle_toLittle, Nat.mod_eq_of_lt (a.val_lt.trans (by decide)), ← toZMod_inj, toZMod_ofNat]
  rfl

namespace CurvePoint

variable {P : CurvePoint}

/-- The sign of a point: whether `x` is odd. -/
def Odd (P : CurvePoint) : Prop := P.x.val % 2 = 1

instance : Decidable P.Odd := inferInstanceAs (Decidable (_ = _))

/-- The encoding of a point. -/
def encode (P : CurvePoint) : Block 32 :=
  (littleBlock 32 P.y.val).modify 31 (· ||| (if P.Odd then 128 else 0))

theorem y_small (P : CurvePoint) : P.y.val < 2 ^ 255 := P.y.val_lt.trans (by decide)

theorem bytes_encode (P : CurvePoint) :
    P.encode.bytes = toLittle 31 P.y.val ++ [topByte P.y.val ||| (if P.Odd then 128 else 0)] :=
  bytes_modify_last P.y.val _

/-- Without its sign, an encoding is the `y` coordinate. -/
theorem mask_encode (P : CurvePoint) : P.encode.modify 31 (· &&& 127) = littleBlock 32 P.y.val := by
  have masked := congrArg Block.bytes (littleBlock_mask P.y_small)
  apply Block.ext
  rw [encode, Block.modify_modify, bytes_modify_last, ← masked, bytes_modify_last]
  dsimp only [Function.comp_apply]
  split
  · rw [low_bits_or]
  · rw [UInt8.or_zero]

theorem encode_of_even (even : ¬P.Odd) : P.encode = littleBlock 32 P.y.val := by
  rw [← mask_encode, encode, Block.modify_modify]
  apply Block.ext
  rw [bytes_modify_last, bytes_modify_last]
  dsimp only [Function.comp_apply]
  rw [if_neg even, UInt8.or_zero, low_bits (topByte_lt P.y_small)]

/-- The sign is in the highest bit. -/
theorem isNegative_encode (P : CurvePoint) : SigningGroup.isNegative P.encode = decide P.Odd := by
  rw [SigningGroup.isNegative, bytes_encode, List.getLast?_concat]
  show decide (128 ≤ _) = decide P.Odd
  refine decide_eq_decide.mpr ?_
  split
  · next odd => exact iff_of_true (high_bit_or _) odd
  · next even =>
    rw [UInt8.or_zero]
    exact iff_of_false (UInt8.not_le.mpr (topByte_lt P.y_small)) even

/-- Of a point and its opposite, the one with even `x`. -/
def positive (P : CurvePoint) : CurvePoint := if P.Odd then -P else P

/-- The signs of a point and its opposite differ, unless they are the same point. -/
theorem odd_neg (nonzero : P.x ≠ 0) : (-P).Odd ↔ ¬P.Odd := by
  have below := P.x.val_lt
  have prime : fieldPrime % 2 = 1 := by decide
  rw [Odd, Odd, EdwardsCurve.Point.neg_x, ZMod.neg_val, if_neg nonzero]
  omega

theorem positive_even (P : CurvePoint) : ¬P.positive.Odd := by
  unfold positive
  split
  · next odd =>
    have nonzero : P.x ≠ 0 := fun zero => by
      rw [Odd, zero] at odd
      cases odd
    exact fun opposite => (odd_neg nonzero).mp opposite odd
  · next even => exact even

theorem encode_positive (P : CurvePoint) : P.positive.encode = littleBlock 32 P.y.val := by
  rw [encode_of_even P.positive_even, positive]
  split <;> rfl

/-- An encoding tells points apart. -/
theorem encode_injective {P Q : CurvePoint} (h : P.encode = Q.encode) : P = Q := by
  have y : P.y = Q.y := by
    have masked : (ofZMod P.y).encode = (ofZMod Q.y).encode := by
      show littleBlock 32 P.y.val = littleBlock 32 Q.y.val
      rw [← mask_encode, ← mask_encode, h]
    have same := congrArg decode masked
    rw [decode_encode, decode_encode] at same
    rw [← toZMod_ofZMod P.y, same, toZMod_ofZMod]
  have sign : P.Odd ↔ Q.Odd := by
    rw [← decide_eq_decide, ← isNegative_encode, ← isNegative_encode, h]
  rcases EdwardsCurve.Point.eq_or_eq_neg_of_y y with same | opposite
  · exact same
  · have zero : Q.x = 0 := by
      by_contra nonzero
      rw [opposite, odd_neg nonzero] at sign
      exact (not_iff_self sign).elim
    rw [opposite]
    refine EdwardsCurve.Point.ext ?_ rfl
    rw [EdwardsCurve.Point.neg_x, zero, neg_zero]

end CurvePoint

namespace EdwardsPoint

variable {p : EdwardsPoint} {P : CurvePoint}

/-- An encoding depends on the point alone. -/
theorem Represents.encode_eq (h : p.Represents P) : p.encode = P.encode := by
  have x : p.x * p.z.inverse = ofZMod P.x := by
    rw [← toZMod_inj, toZMod_mul, toZMod_inverse, toZMod_ofZMod, h.x, mul_assoc, mul_inv_cancel₀ h.z,
      mul_one]
  have y : p.y * p.z.inverse = ofZMod P.y := by
    rw [← toZMod_inj, toZMod_mul, toZMod_inverse, toZMod_ofZMod, h.y, mul_assoc, mul_inv_cancel₀ h.z,
      mul_one]
  unfold EdwardsPoint.encode
  dsimp only
  rw [x, y]
  rfl

/-- The `x` coordinate of a point is found from the other one, up to its sign. -/
theorem rootOfRatio?_point (P : CurvePoint) :
    let s := ofZMod P.y * ofZMod P.y
    Felt.rootOfRatio? (s - 1) (s * coefficient + 1) = some (evenOf (ofZMod P.x)) := by
  refine rootOfRatio?_of_sq (fun zero => ?_) (toZMod_injective ?_)
  · refine EdwardsCurve.Point.one_add_mul_sq_ne_zero curve25519 P.y ?_
    have divisor := congrArg toZMod zero
    simp only [toZMod_add, toZMod_mul, toZMod_ofZMod, toZMod_one, toZMod_zero] at divisor
    rw [curve25519_d]
    linear_combination divisor
  · have on := P.x_sq_mul
    simp only [toZMod_add, toZMod_sub, toZMod_mul, toZMod_ofZMod, toZMod_one]
    rw [curve25519_d] at on
    linear_combination -on

theorem toZMod_evenOf (P : CurvePoint) : (evenOf (ofZMod P.x)).toZMod = P.positive.x := by
  show toZMod (if P.x.val % 2 = 0 then _ else _) = _
  unfold CurvePoint.positive
  by_cases odd : P.Odd
  · have notEven : ¬P.x.val % 2 = 0 := by rw [CurvePoint.Odd] at odd; omega
    rw [if_neg notEven, if_pos odd, toZMod_neg, toZMod_ofZMod, EdwardsCurve.Point.neg_x]
  · have even : P.x.val % 2 = 0 := by rw [CurvePoint.Odd] at odd; omega
    rw [if_pos even, if_neg odd, toZMod_ofZMod]

/-- A public key that is the `u` coordinate of a point stands for that point or its opposite. -/
theorem ofMontgomery?_encode {u : Felt} (h : u.toZMod * (1 - P.y) = 1 + P.y) :
    ∃ p, ofMontgomery? u.encode = some p ∧ p.Represents P.positive := by
  have u_ne : u.toZMod + 1 ≠ 0 := fun zero =>
    two_ne (by linear_combination (1 - P.y) * zero - h)
  have y : (u - 1) * (u + 1).inverse = ofZMod P.y := by
    rw [← toZMod_inj, toZMod_mul, toZMod_inverse, toZMod_ofZMod, toZMod_sub, toZMod_add, toZMod_one,
      ← div_eq_mul_inv, div_eq_iff u_ne]
    linear_combination h
  unfold ofMontgomery?
  dsimp only
  rw [decode_encode, if_neg, y, rootOfRatio?_point]
  · refine ⟨_, rfl, represents_ofAffine (toZMod_evenOf P) ?_⟩
    rw [toZMod_ofZMod, CurvePoint.positive]
    split <;> rfl
  · intro minus
    rw [minus, toZMod_neg, toZMod_one, neg_add_cancel] at u_ne
    exact u_ne rfl

/-- What a public key stands for is a point of the curve. -/
theorem represents_of_ofMontgomery? {publicKey : Block 32} (found : ofMontgomery? publicKey = some p) :
    ∃ P : CurvePoint, p.Represents P := by
  unfold ofMontgomery? at found
  dsimp only at found
  split at found
  · cases found
  · obtain ⟨x, root, rfl⟩ := Option.map_eq_some_iff.mp found
    generalize (decode publicKey - 1) * (decode publicKey + 1).inverse = y at root ⊢
    have square := congrArg toZMod (sq_of_rootOfRatio? root)
    simp only [toZMod_mul, toZMod_add, toZMod_sub, toZMod_one] at square
    have on : y.toZMod ^ 2 - x.toZMod ^ 2
        = 1 + curve25519.d * x.toZMod ^ 2 * y.toZMod ^ 2 := by
      rw [curve25519_d]
      linear_combination square
    exact ⟨⟨x.toZMod, y.toZMod, on⟩, represents_ofAffine rfl rfl⟩

end EdwardsPoint

end DoubleRatchet
