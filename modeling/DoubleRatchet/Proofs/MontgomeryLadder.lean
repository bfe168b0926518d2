/-
DoubleRatchet/Proofs/MontgomeryLadder.lean

The ladder computes the `u` coordinate of a multiple.

In Edwards form the `u` coordinate of a point is `(1 + y) / (1 - y)`, so that a ratio of two
elements stands for a point up to its sign (`Stands`).  From ratios for two points, and the
`u` coordinate of their difference, one step gets ratios for twice the first one and for
their sum.  The ladder goes over the bits of the scalar with ratios for two neighbours:

    k B,  (k + 1) B   ──→   2k B,  (2k + 1) B     or     (2k + 1) B,  (2k + 2) B

The difference is the base point throughout, up to its sign, which the ratios do not see.
-/
import DoubleRatchet.Curve.Montgomery
import DoubleRatchet.Proofs.CurvePoints

namespace DoubleRatchet.Montgomery

open Felt

variable {p q : Ratio} {P Q B : CurvePoint}

/-! ### Ratios -/

/-- The ratio is that of `1 + y` and `1 - y`. -/
structure Ratio.Stands (r : Ratio) (P : CurvePoint) : Prop where
  proper : r.u.toZMod ≠ 0 ∨ r.w.toZMod ≠ 0
  same : r.u.toZMod * (1 - P.y) = r.w.toZMod * (1 + P.y)

namespace Ratio.Stands

theorem exists_scale (h : p.Stands P) :
    ∃ l ≠ 0, p.u.toZMod = l * (1 + P.y) ∧ p.w.toZMod = l * (1 - P.y) := by
  have same := h.same
  refine ⟨(p.u.toZMod + p.w.toZMod) / 2, div_ne_zero (fun zero => ?_) two_ne, ?_, ?_⟩
  · -- otherwise both parts are zero
    have w_zero : p.w.toZMod = 0 := (mul_eq_zero.mp
      (show 2 * p.w.toZMod = 0 by linear_combination (1 - P.y) * zero - same)).resolve_left two_ne
    rw [w_zero, add_zero] at zero
    exact h.proper.elim (· zero) (· w_zero)
  · rw [div_mul_eq_mul_div, eq_div_iff two_ne]
    linear_combination same
  · rw [div_mul_eq_mul_div, eq_div_iff two_ne]
    linear_combination -same

/-- The ratio as an element, unless the point is the neutral one. -/
theorem toFelt (h : p.Stands P) (nonzero : P ≠ 0) : p.toFelt.toZMod * (1 - P.y) = 1 + P.y := by
  have same := h.same
  have w_ne : p.w.toZMod ≠ 0 := by
    intro w_zero
    rw [w_zero, zero_mul] at same
    refine nonzero (EdwardsCurve.Point.eq_zero_of_y ?_)
    have one := (mul_eq_zero.mp same).resolve_left (h.proper.resolve_right (· w_zero))
    exact (sub_eq_zero.mp one).symm
  rw [Ratio.toFelt, toZMod_mul, toZMod_inverse, ← div_eq_mul_inv, div_mul_eq_mul_div,
    div_eq_iff w_ne, same, mul_comm]

end Ratio.Stands

/-! ### One step -/

theorem toZMod_121666 : (121666 : Felt).toZMod = 121666 := toZMod_literal 121666

theorem coefficient_succ : (121666 : Felt) * (EdwardsPoint.coefficient + 1) = 1 := by decide +kernel

theorem double_y (P : CurvePoint) :
    P.y ^ 2 * (1 - (P + P).y)
      = (1 - P.y ^ 2) * (P.y ^ 2 + 121666 * (1 - P.y ^ 2)) * (1 + (P + P).y) := by
  have unit := congrArg toZMod coefficient_succ
  rw [toZMod_mul, toZMod_add, toZMod_121666, toZMod_one, ← curve25519_d] at unit
  have half := P.one_add_y_mul_double
  have on := P.x_sq_mul
  linear_combination (-(P.y ^ 2 + 121666 * (1 - P.y ^ 2))) * half
    - (1 - (P + P).y) * (P.y ^ 2 * unit + 121666 * on) + (1 - (P + P).y) * (1 + P.x ^ 2) * P.y ^ 2 * unit

theorem stands_double (h : p.Stands P) (b : Felt) (q : Ratio) :
    (doubleAndAdd b p q).1.Stands (P + P) := by
  obtain ⟨l, l_ne, hu, hw⟩ := h.exists_scale
  have u : (doubleAndAdd b p q).1.u.toZMod = 16 * l ^ 4 * P.y ^ 2 := by
    simp only [doubleAndAdd, toZMod_mul, toZMod_add, toZMod_sub, hu, hw]
    ring
  have w : (doubleAndAdd b p q).1.w.toZMod
      = 16 * l ^ 4 * ((1 - P.y ^ 2) * (P.y ^ 2 + 121666 * (1 - P.y ^ 2))) := by
    simp only [doubleAndAdd, toZMod_mul, toZMod_add, toZMod_sub, toZMod_121666, hu, hw]
    ring
  have scale : 16 * l ^ 4 ≠ 0 := by
    have : (16 : ZMod fieldPrime) = 2 ^ 4 := by norm_num
    rw [this, ← mul_pow]
    exact pow_ne_zero 4 (mul_ne_zero two_ne l_ne)
  refine ⟨?_, ?_⟩
  · rw [u, w]
    by_cases zero : P.y = 0
    · refine .inr (mul_ne_zero scale ?_)
      have : (121666 : ZMod fieldPrime) ≠ 0 := by
        rw [← toZMod_121666, Ne, toZMod_eq_zero]
        decide
      simpa [zero] using this
    · exact .inl (mul_ne_zero scale (pow_ne_zero 2 zero))
  · rw [u, w, mul_assoc, double_y]
    ring

/-- Two points with `y = 0` differ by one with `y = 1` or `y = -1`. -/
theorem sub_y_sq (hP : P.y = 0) (hQ : Q.y = 0) : (P - Q).y ^ 2 = 1 := by
  have difference := P.add_y_mul (-Q)
  have onP := P.x_sq_mul
  have onQ := Q.x_sq_mul
  have cross : P.cross (-Q) = 0 := by simp [EdwardsCurve.Point.cross, hP]
  rw [← sub_eq_add_neg, cross, hP, EdwardsCurve.Point.neg_x] at difference
  rw [hP] at onP
  rw [hQ] at onQ
  have product : (P - Q).y = -(P.x * Q.x) := by linear_combination difference
  rw [product]
  linear_combination Q.x ^ 2 * onP - onQ

theorem stands_add {b : Felt} (hp : p.Stands P) (hq : q.Stands Q) (b_ne : b.toZMod ≠ 0)
    (hb : b.toZMod * (1 - (P - Q).y) = 1 + (P - Q).y) : (doubleAndAdd b p q).2.Stands (P + Q) := by
  obtain ⟨l, l_ne, hu, hw⟩ := hp.exists_scale
  obtain ⟨m, m_ne, hu', hw'⟩ := hq.exists_scale
  have u : (doubleAndAdd b p q).2.u.toZMod = (4 * l * m) ^ 2 * (P.y + Q.y) ^ 2 := by
    simp only [doubleAndAdd, toZMod_mul, toZMod_add, toZMod_sub, hu, hw, hu', hw']
    ring
  have w : (doubleAndAdd b p q).2.w.toZMod = (4 * l * m) ^ 2 * (b.toZMod * (P.y - Q.y) ^ 2) := by
    simp only [doubleAndAdd, toZMod_mul, toZMod_add, toZMod_sub, hu, hw, hu', hw']
    ring
  have scale : (4 * l * m) ^ 2 ≠ 0 := by
    have : (4 : ZMod fieldPrime) = 2 * 2 := by norm_num
    rw [this]
    exact pow_ne_zero 2 (mul_ne_zero (mul_ne_zero (mul_ne_zero two_ne two_ne) l_ne) m_ne)
  have minus_ne : 1 - (P - Q).y ≠ 0 := fun zero =>
    two_ne (by linear_combination (1 + b.toZMod) * zero - hb)
  refine ⟨?_, ?_⟩
  · rw [u, w]
    by_contra both
    obtain ⟨sum, difference⟩ := not_or.mp both
    rw [not_not, mul_eq_zero, or_iff_right scale, pow_eq_zero_iff (by decide)] at sum
    rw [not_not, mul_eq_zero, or_iff_right scale, mul_eq_zero, or_iff_right b_ne,
      pow_eq_zero_iff (by decide)] at difference
    have hP : P.y = 0 := (mul_eq_zero.mp
      (show 2 * P.y = 0 by linear_combination sum + difference)).resolve_left two_ne
    have hQ : Q.y = 0 := by linear_combination sum - hP
    have product : b.toZMod * (1 - (P - Q).y) * (1 - (P - Q).y) = 0 := by
      linear_combination (1 - (P - Q).y) * hb - sub_y_sq hP hQ
    exact mul_ne_zero (mul_ne_zero b_ne minus_ne) minus_ne product
  · rw [u, w]
    refine mul_right_cancel₀ minus_ne ?_
    linear_combination (-(4 * l * m) ^ 2) * P.one_add_y_mul Q
      - (4 * l * m) ^ 2 * (P.y - Q.y) ^ 2 * (1 + (P + Q).y) * hb

/-! ### The ladder -/

theorem div_two_pow (n bits : Nat) :
    n / 2 ^ bits = 2 * (n / 2 ^ (bits + 1)) + (n.testBit bits).toNat := by
  rw [Nat.testBit_eq_decide_div_mod_eq, pow_succ, ← Nat.div_div_eq_div_mul]
  by_cases odd : n / 2 ^ bits % 2 = 1
  · rw [decide_eq_true odd, Bool.toNat_true]
    omega
  · rw [decide_eq_false odd, Bool.toNat_false]
    omega

section
variable {b : Felt} (b_ne : b.toZMod ≠ 0) (hb : b.toZMod * (1 - B.y) = 1 + B.y)
include b_ne hb

/-- From neighbours to neighbours, whichever of the two is doubled. -/
theorem ladder_stands (n bits : Nat) (hp : p.Stands ((n / 2 ^ bits) • B))
    (hq : q.Stands ((n / 2 ^ bits + 1) • B)) : (ladder b n bits p q).Stands (n • B) := by
  induction bits generalizing p q with
  | zero => simpa [ladder] using hp
  | succ bits ih =>
    have digit := div_two_pow n bits
    generalize n / 2 ^ (bits + 1) = k at hp hq digit
    have neighbours : (k + 1) • B - k • B = B := by rw [succ_nsmul, add_sub_cancel_left]
    unfold ladder
    split
    · next set =>
      rw [set, Bool.toNat_true] at digit
      refine ih ?_ ?_
      · have sum := stands_add hq hp b_ne (neighbours.symm ▸ hb)
        rw [← add_nsmul] at sum
        rwa [digit, show 2 * k + 1 = k + 1 + k by omega]
      · have double := stands_double hq b p
        rw [← add_nsmul] at double
        rwa [digit, show 2 * k + 1 + 1 = k + 1 + (k + 1) by omega]
    · next clear =>
      rw [eq_false_of_ne_true clear, Bool.toNat_false] at digit
      -- the difference is the opposite of the base point, which has the same `y`
      have opposite : k • B - (k + 1) • B = -B := by rw [← neg_sub, neighbours]
      refine ih ?_ ?_
      · have double := stands_double hp b q
        rw [← add_nsmul] at double
        rwa [digit, show 2 * k + 0 = k + k by omega]
      · have sum := stands_add hp hq b_ne (opposite.symm ▸ hb)
        rw [← add_nsmul] at sum
        rwa [digit, show 2 * k + 0 + 1 = k + (k + 1) by omega]

/-- The ladder gives the `u` coordinate of a multiple that is not the neutral point. -/
theorem multiple_nsmul {n : Nat} (small : n < 2 ^ 255) (nonzero : n • B ≠ 0) :
    (multiple n b).toZMod * (1 - (n • B).y) = 1 + (n • B).y := by
  have none : n / 2 ^ 255 = 0 := Nat.div_eq_of_lt small
  refine (ladder_stands b_ne hb n 255 ⟨.inl ?_, ?_⟩ ⟨.inr ?_, ?_⟩).toFelt nonzero
  · simp
  · rw [none, zero_nsmul]
    simp
  · simp
  · rw [none, zero_add, one_nsmul]
    simpa using hb

end

end DoubleRatchet.Montgomery
