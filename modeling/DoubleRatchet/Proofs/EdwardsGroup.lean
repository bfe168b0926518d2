/-
DoubleRatchet/Proofs/EdwardsGroup.lean

The points of a complete Edwards curve are a group.

Over a field in which minus one is a square and `d` is not, the sum formula of the curve

    -x² + y² = 1 + d x² y²

has no exceptional cases: its denominators `1 ± d x₁ x₂ y₁ y₂` are never zero.  So there is
nothing to tell apart in the proofs of the group laws.  What remains of each is an equation
between polynomials, whose sides differ by multiples of the equations of the curve.

The sum of two points and their difference have `y` coordinates that are known from those of
the points alone (`one_add_y_mul`), which is what makes a ladder of `y` coordinates possible.
-/
import Mathlib.Algebra.Field.Basic
import Mathlib.Tactic.FieldSimp
import Mathlib.Tactic.LinearCombination
import Mathlib.Tactic.Ring

namespace DoubleRatchet

/-- A curve whose sum formula has no exceptional cases. -/
structure EdwardsCurve (F : Type) [Field F] where
  d : F
  /-- A square root of minus one. -/
  i : F
  i_sq : i * i = -1
  nonsquare : ∀ a, a * a ≠ d
  two_ne : (2 : F) ≠ 0

namespace EdwardsCurve

variable {F : Type} [Field F]

/-- A point in affine coordinates. -/
@[ext]
structure Point (E : EdwardsCurve F) where
  x : F
  y : F
  on : y ^ 2 - x ^ 2 = 1 + E.d * x ^ 2 * y ^ 2

variable {E : EdwardsCurve F}

namespace Point

/-! ### The denominators -/

/-- What the denominators of a sum differ from one by. -/
def cross (P Q : E.Point) : F := E.d * P.x * Q.x * P.y * Q.y

theorem cross_comm (P Q : E.Point) : P.cross Q = Q.cross P := by
  unfold cross
  ring

/-- Otherwise `d` would be a square, the one of `(e y₁ - i x₁) / (x₁ y₁ (y₂ - i x₂))` or the one with
`-i` in the place of `i`. -/
theorem cross_sq_ne_one (P Q : E.Point) : P.cross Q ^ 2 ≠ 1 := by
  intro one
  have product : P.cross Q ≠ 0 := by
    intro zero
    rw [zero] at one
    simp at one
  have square (j : F) (hj : j * j = -1) : Q.y = j * Q.x := by
    by_contra different
    have divisor : P.x * P.y * (Q.y - j * Q.x) ≠ 0 := by
      refine mul_ne_zero (fun zero => product ?_) (sub_ne_zero.mpr different)
      unfold cross
      linear_combination E.d * Q.x * Q.y * zero
    have key : (P.cross Q * P.y - j * P.x) ^ 2 = E.d * (P.x * P.y * (Q.y - j * Q.x)) ^ 2 := by
      unfold cross at one ⊢
      linear_combination (P.y ^ 2 - 1) * one + P.on
        - E.d * P.x ^ 2 * P.y ^ 2 * Q.on
        + (P.x ^ 2 - E.d * P.x ^ 2 * P.y ^ 2 * Q.x ^ 2) * hj
    refine E.nonsquare ((P.cross Q * P.y - j * P.x) / (P.x * P.y * (Q.y - j * Q.x))) ?_
    rw [← sq, div_pow, key, mul_div_assoc, div_self (pow_ne_zero 2 divisor), mul_one]
  have plus := square E.i E.i_sq
  have minus := square (-E.i) (by linear_combination E.i_sq)
  have zero : Q.y = 0 := by
    have twice : 2 * Q.y = 0 := by linear_combination plus + minus
    exact (mul_eq_zero.mp twice).resolve_left E.two_ne
  exact product (by unfold cross; rw [zero, mul_zero])

theorem one_add_cross_ne_zero (P Q : E.Point) : 1 + P.cross Q ≠ 0 := fun zero =>
  P.cross_sq_ne_one Q (by linear_combination (P.cross Q - 1) * zero)

theorem one_sub_cross_ne_zero (P Q : E.Point) : 1 - P.cross Q ≠ 0 := fun zero =>
  P.cross_sq_ne_one Q (by linear_combination (-P.cross Q - 1) * zero)

/-! ### Sums -/

/-- The neutral point. -/
instance : Zero E.Point := ⟨⟨0, 1, by ring⟩⟩

instance : Neg E.Point := ⟨fun P => ⟨-P.x, P.y, by linear_combination P.on⟩⟩

instance : Add E.Point where
  add P Q := {
    x := (P.x * Q.y + P.y * Q.x) / (1 + P.cross Q)
    y := (P.y * Q.y + P.x * Q.x) / (1 - P.cross Q)
    on := by
      have plus := P.one_add_cross_ne_zero Q
      have minus := P.one_sub_cross_ne_zero Q
      field_simp
      unfold cross
      linear_combination
        ((Q.y ^ 2 - Q.x ^ 2) * (1 + E.d ^ 2 * P.x ^ 2 * P.y ^ 2 * Q.x ^ 2 * Q.y ^ 2)
          - E.d * Q.x ^ 2 * Q.y ^ 2 * (P.y ^ 2 - P.x ^ 2 + 1 + E.d * P.x ^ 2 * P.y ^ 2)) * P.on
        + ((1 + E.d * P.x ^ 2 * P.y ^ 2) * (1 + E.d ^ 2 * P.x ^ 2 * P.y ^ 2 * Q.x ^ 2 * Q.y ^ 2)
          - E.d * P.x ^ 2 * P.y ^ 2 * (Q.y ^ 2 - Q.x ^ 2 + 1 + E.d * Q.x ^ 2 * Q.y ^ 2)) * Q.on }

@[simp] theorem zero_x : (0 : E.Point).x = 0 := rfl
@[simp] theorem zero_y : (0 : E.Point).y = 1 := rfl
@[simp] theorem neg_x (P : E.Point) : (-P).x = -P.x := rfl
@[simp] theorem neg_y (P : E.Point) : (-P).y = P.y := rfl

@[simp] theorem cross_neg (P Q : E.Point) : P.cross (-Q) = -P.cross Q := by
  simp only [cross, neg_x, neg_y]
  ring

theorem add_x (P Q : E.Point) : (P + Q).x = (P.x * Q.y + P.y * Q.x) / (1 + P.cross Q) := rfl
theorem add_y (P Q : E.Point) : (P + Q).y = (P.y * Q.y + P.x * Q.x) / (1 - P.cross Q) := rfl

/-- The coordinates of a sum, without a division. -/
theorem add_x_mul (P Q : E.Point) : (P + Q).x * (1 + P.cross Q) = P.x * Q.y + P.y * Q.x :=
  div_mul_cancel₀ _ (P.one_add_cross_ne_zero Q)

theorem add_y_mul (P Q : E.Point) : (P + Q).y * (1 - P.cross Q) = P.y * Q.y + P.x * Q.x :=
  div_mul_cancel₀ _ (P.one_sub_cross_ne_zero Q)

/-! ### Associativity -/

/-- The two ways to sum three points give the same `x` coordinate, with the denominators multiplied
out. -/
theorem sum_of_three {d x₁ y₁ x₂ y₂ x₃ y₃ : F}
    (h₁ : y₁ ^ 2 - x₁ ^ 2 = 1 + d * x₁ ^ 2 * y₁ ^ 2)
    (h₂ : y₂ ^ 2 - x₂ ^ 2 = 1 + d * x₂ ^ 2 * y₂ ^ 2)
    (h₃ : y₃ ^ 2 - x₃ ^ 2 = 1 + d * x₃ ^ 2 * y₃ ^ 2) :
    ((x₁ * y₂ + y₁ * x₂) * (1 - d * x₁ * x₂ * y₁ * y₂) * y₃
        + (y₁ * y₂ + x₁ * x₂) * (1 + d * x₁ * x₂ * y₁ * y₂) * x₃)
      * ((1 + d * x₂ * x₃ * y₂ * y₃) * (1 - d * x₂ * x₃ * y₂ * y₃)
        + d * x₁ * y₁ * (x₂ * y₃ + y₂ * x₃) * (y₂ * y₃ + x₂ * x₃))
    = (x₁ * (y₂ * y₃ + x₂ * x₃) * (1 + d * x₂ * x₃ * y₂ * y₃)
        + y₁ * (x₂ * y₃ + y₂ * x₃) * (1 - d * x₂ * x₃ * y₂ * y₃))
      * ((1 + d * x₁ * x₂ * y₁ * y₂) * (1 - d * x₁ * x₂ * y₁ * y₂)
        + d * x₃ * y₃ * (x₁ * y₂ + y₁ * x₂) * (y₁ * y₂ + x₁ * x₂)) := by
  linear_combination d * x₂ * y₂ * (
    (y₁ * (x₂ ^ 3 * x₃ * y₃ ^ 2 * (d * y₂ ^ 2 + 1) + y₂ ^ 3 * x₃ ^ 2 * y₃ * (d * x₂ ^ 2 - 1)
        + x₂ ^ 2 * y₂ * y₃ * (y₃ ^ 2 - 1) - x₂ * y₂ ^ 2 * x₃ * (x₃ ^ 2 + 1))
      - x₁ * (x₂ ^ 3 * x₃ ^ 2 * y₃ * (d * y₂ ^ 2 + 1) + y₂ ^ 3 * x₃ * y₃ ^ 2 * (d * x₂ ^ 2 - 1)
        + x₂ ^ 2 * y₂ * x₃ * (x₃ ^ 2 + 1) - x₂ * y₂ ^ 2 * y₃ * (y₃ ^ 2 - 1))) * h₁
    + (x₂ * (x₁ * x₃ ^ 2 * y₃ * (x₁ ^ 2 + 1) - x₁ ^ 2 * y₁ * x₃ * (x₃ ^ 2 + 1)
        - x₁ * y₁ ^ 2 * y₃ * (y₃ ^ 2 - 1) + y₁ * x₃ * y₃ ^ 2 * (y₁ ^ 2 - 1))
      + y₂ * (x₁ * x₃ * y₃ ^ 2 * (x₁ ^ 2 + 1) - x₁ ^ 2 * y₁ * y₃ * (y₃ ^ 2 - 1)
        - x₁ * y₁ ^ 2 * x₃ * (x₃ ^ 2 + 1) + y₁ * x₃ ^ 2 * y₃ * (y₁ ^ 2 - 1))) * h₂
    + (x₃ * (x₂ ^ 3 * x₁ ^ 2 * y₁ * (d * y₂ ^ 2 + 1) + y₂ ^ 3 * x₁ * y₁ ^ 2 * (d * x₂ ^ 2 - 1)
        + x₂ ^ 2 * y₂ * x₁ * (x₁ ^ 2 + 1) - x₂ * y₂ ^ 2 * y₁ * (y₁ ^ 2 - 1))
      - y₃ * (x₂ ^ 3 * x₁ * y₁ ^ 2 * (d * y₂ ^ 2 + 1) + y₂ ^ 3 * x₁ ^ 2 * y₁ * (d * x₂ ^ 2 - 1)
        + x₂ ^ 2 * y₂ * y₁ * (y₁ ^ 2 - 1) - x₂ * y₂ ^ 2 * x₁ * (x₁ ^ 2 + 1))) * h₃)

theorem add_assoc_x (P Q R : E.Point) : (P + Q + R).x = (P + (Q + R)).x := by
  have p := P.one_add_cross_ne_zero Q
  have m := P.one_sub_cross_ne_zero Q
  have p' := Q.one_add_cross_ne_zero R
  have m' := Q.one_sub_cross_ne_zero R
  have hx := P.add_x_mul Q
  have hy := P.add_y_mul Q
  have hx' := Q.add_x_mul R
  have hy' := Q.add_y_mul R
  have left : ((P + Q).x * R.y + (P + Q).y * R.x) * ((1 + P.cross Q) * (1 - P.cross Q))
      = (P.x * Q.y + P.y * Q.x) * (1 - P.cross Q) * R.y
        + (P.y * Q.y + P.x * Q.x) * (1 + P.cross Q) * R.x := by
    linear_combination (1 - P.cross Q) * R.y * hx + (1 + P.cross Q) * R.x * hy
  have right : (P.x * (Q + R).y + P.y * (Q + R).x) * ((1 + Q.cross R) * (1 - Q.cross R))
      = P.x * (Q.y * R.y + Q.x * R.x) * (1 + Q.cross R)
        + P.y * (Q.x * R.y + Q.y * R.x) * (1 - Q.cross R) := by
    linear_combination P.x * (1 + Q.cross R) * hy' + P.y * (1 - Q.cross R) * hx'
  have leftCross : (1 + (P + Q).cross R) * ((1 + P.cross Q) * (1 - P.cross Q))
      = (1 + P.cross Q) * (1 - P.cross Q)
        + E.d * R.x * R.y * (P.x * Q.y + P.y * Q.x) * (P.y * Q.y + P.x * Q.x) := by
    rw [← hx, ← hy]
    simp only [cross]
    ring
  have rightCross : (1 + P.cross (Q + R)) * ((1 + Q.cross R) * (1 - Q.cross R))
      = (1 + Q.cross R) * (1 - Q.cross R)
        + E.d * P.x * P.y * (Q.x * R.y + Q.y * R.x) * (Q.y * R.y + Q.x * R.x) := by
    rw [← hx', ← hy']
    simp only [cross]
    ring
  rw [add_x (P + Q) R, add_x P (Q + R),
    div_eq_div_iff ((P + Q).one_add_cross_ne_zero R) (P.one_add_cross_ne_zero (Q + R))]
  refine mul_right_cancel₀ (mul_ne_zero (mul_ne_zero p m) (mul_ne_zero p' m')) ?_
  rw [mul_mul_mul_comm, left, rightCross, mul_comm ((1 + P.cross Q) * _), mul_mul_mul_comm, right,
    leftCross]
  exact sum_of_three P.on Q.on R.on

/-- The point a quarter of a turn away: the sum with `(i, 0)`. -/
def turn (P : E.Point) : E.Point where
  x := E.i * P.y
  y := E.i * P.x
  on := by
    linear_combination P.on
      + (P.x ^ 2 - P.y ^ 2 - E.d * P.x ^ 2 * P.y ^ 2 * (E.i ^ 2 - 1)) * E.i_sq

theorem turn_add (P Q : E.Point) : P.turn + Q = (P + Q).turn := by
  have cross_turn : P.turn.cross Q = -P.cross Q := by
    simp only [cross, turn]
    linear_combination E.d * P.x * Q.x * P.y * Q.y * E.i_sq
  ext
  · rw [add_x, cross_turn]
    simp only [turn, add_y]
    rw [← sub_eq_add_neg, ← mul_div_assoc]
    ring
  · rw [add_y, cross_turn]
    simp only [turn, add_x]
    rw [sub_neg_eq_add, ← mul_div_assoc]
    ring

protected theorem add_assoc (P Q R : E.Point) : P + Q + R = P + (Q + R) := by
  ext
  · exact add_assoc_x P Q R
  · -- the `y` coordinate is the `x` coordinate a quarter of a turn on
    have turned := add_assoc_x P.turn Q R
    rw [turn_add, turn_add, turn_add] at turned
    have i_ne_zero : E.i ≠ 0 := fun zero => by
      have := E.i_sq
      rw [zero, mul_zero] at this
      exact neg_ne_zero.mpr one_ne_zero this.symm
    exact mul_left_cancel₀ i_ne_zero turned

/-! ### The group -/

instance : AddCommGroup E.Point where
  add_assoc := Point.add_assoc
  zero_add P := by ext <;> simp [add_x, add_y, cross]
  add_zero P := by ext <;> simp [add_x, add_y, cross]
  neg_add_cancel P := by
    have plus := (-P).one_add_cross_ne_zero P
    have minus := (-P).one_sub_cross_ne_zero P
    ext
    · rw [add_x, div_eq_iff plus]
      simp only [neg_x, neg_y, zero_x]
      ring
    · rw [add_y, div_eq_iff minus]
      simp only [cross, neg_x, neg_y, zero_y]
      linear_combination P.on
  add_comm P Q := by
    ext
    · rw [add_x, add_x, cross_comm]
      ring
    · rw [add_y, add_y, cross_comm]
      ring
  nsmul := nsmulRec
  zsmul := zsmulRec

/-! ### One coordinate -/

/-- The equation of the curve, solved for `x`. -/
theorem x_sq_mul (P : E.Point) : P.x ^ 2 * (1 + E.d * P.y ^ 2) = P.y ^ 2 - 1 := by
  linear_combination -P.on

theorem one_add_mul_sq_ne_zero (E : EdwardsCurve F) (y : F) : 1 + E.d * y ^ 2 ≠ 0 := by
  intro zero
  have y_ne : y ≠ 0 := by
    rintro rfl
    simp at zero
  refine E.nonsquare (E.i / y) ?_
  field_simp
  linear_combination E.i_sq - zero

theorem eq_zero_of_y {P : E.Point} (h : P.y = 1) : P = 0 := by
  have square : P.x ^ 2 * (1 + E.d * P.y ^ 2) = 0 := by
    rw [P.x_sq_mul, h]
    ring
  ext
  · exact pow_eq_zero_iff two_ne_zero |>.mp
      ((mul_eq_zero.mp square).resolve_right (one_add_mul_sq_ne_zero E P.y))
  · exact h

/-- Of two points with the same `y` coordinate one is the other or its opposite. -/
theorem eq_or_eq_neg_of_y {P Q : E.Point} (h : P.y = Q.y) : P = Q ∨ P = -Q := by
  have square : P.x ^ 2 = Q.x ^ 2 := by
    refine mul_right_cancel₀ (one_add_mul_sq_ne_zero E P.y) ?_
    rw [P.x_sq_mul, h, Q.x_sq_mul]
  refine (sq_eq_sq_iff_eq_or_eq_neg.mp square).imp (fun same => ?_) fun opposite => ?_
  · exact Point.ext same h
  · exact Point.ext opposite h

/-- What the sum and the difference of two points have to do with each other. -/
theorem one_add_y_mul (P Q : E.Point) :
    (1 + (P + Q).y) * (1 + (P - Q).y) * (P.y - Q.y) ^ 2
      = (1 - (P + Q).y) * (1 - (P - Q).y) * (P.y + Q.y) ^ 2 := by
  have sum := P.add_y_mul Q
  have difference := P.add_y_mul (-Q)
  rw [← sub_eq_add_neg, cross_neg, sub_neg_eq_add, neg_x, neg_y] at difference
  have plus : (1 + (P + Q).y) * (1 - P.cross Q) = 1 - P.cross Q + (P.y * Q.y + P.x * Q.x) := by
    linear_combination sum
  have minus : (1 - (P + Q).y) * (1 - P.cross Q) = 1 - P.cross Q - (P.y * Q.y + P.x * Q.x) := by
    linear_combination -sum
  have plus' : (1 + (P - Q).y) * (1 + P.cross Q) = 1 + P.cross Q + (P.y * Q.y - P.x * Q.x) := by
    linear_combination difference
  have minus' : (1 - (P - Q).y) * (1 + P.cross Q) = 1 + P.cross Q - (P.y * Q.y - P.x * Q.x) := by
    linear_combination -difference
  refine mul_right_cancel₀
    (mul_ne_zero (P.one_sub_cross_ne_zero Q) (P.one_add_cross_ne_zero Q)) ?_
  rw [mul_right_comm, mul_mul_mul_comm, plus, plus',
    mul_right_comm (_ * _) (_ ^ 2) (_ * _), mul_mul_mul_comm, minus, minus']
  unfold cross
  linear_combination -4 * P.y * Q.y * ((Q.y ^ 2 - 1) * P.on
    + P.x ^ 2 * (1 + E.d * P.y ^ 2) * Q.on)

/-- Twice a point. -/
theorem one_add_y_mul_double (P : E.Point) :
    (1 + (P + P).y) * (1 - P.y ^ 2) = (1 - (P + P).y) * (1 + P.x ^ 2) := by
  have sum := P.add_y_mul P
  refine mul_right_cancel₀ (P.one_sub_cross_ne_zero P) ?_
  have plus : (1 + (P + P).y) * (1 - P.cross P) = 1 - P.cross P + (P.y * P.y + P.x * P.x) := by
    linear_combination sum
  have minus : (1 - (P + P).y) * (1 - P.cross P) = 1 - P.cross P - (P.y * P.y + P.x * P.x) := by
    linear_combination -sum
  rw [mul_right_comm, plus, mul_right_comm, minus]
  unfold cross
  linear_combination -(P.x ^ 2 + P.y ^ 2) * P.on

end Point
end EdwardsCurve
end DoubleRatchet
