/-
DoubleRatchet/Proofs/Residues.lean

The elements that are computed with are the integers modulo a prime.

`toZMod` takes an element to a residue; it is a bijection that respects all operations, so
that what is known of fields holds of the elements.  Powers are powers (`toZMod_power`),
which makes the power with exponent `p - 2` the inverse, and a root is found of every
quotient that has one (`rootOfRatio?_of_sq`) and of no other (`sq_of_rootOfRatio?`).
-/
import DoubleRatchet.Proofs.Primality
import Mathlib.NumberTheory.LegendreSymbol.Basic

namespace DoubleRatchet

instance : Fact fieldPrime.Prime := ⟨prime_fieldPrime⟩

namespace Felt

variable {a b : Felt}

/-- The element as a residue. -/
def toZMod (a : Felt) : ZMod fieldPrime := a.val

theorem val_toZMod (a : Felt) : a.toZMod.val = a.val := ZMod.val_cast_of_lt a.val_lt

theorem toZMod_injective (h : a.toZMod = b.toZMod) : a = b := by
  have same := congrArg ZMod.val h
  rw [val_toZMod, val_toZMod] at same
  cases a
  cases b
  cases same
  rfl

/-- The element of a residue. -/
def ofZMod (a : ZMod fieldPrime) : Felt := ⟨a.val, a.val_lt⟩

@[simp] theorem toZMod_ofZMod (a : ZMod fieldPrime) : (ofZMod a).toZMod = a := ZMod.natCast_zmod_val a

theorem toZMod_inj : a.toZMod = b.toZMod ↔ a = b := ⟨toZMod_injective, congrArg _⟩

/-! ### Arithmetic -/

theorem toZMod_ofNat (n : Nat) : (ofNat n).toZMod = n := ZMod.natCast_mod n fieldPrime

@[simp] theorem toZMod_literal (n : Nat) [n.AtLeastTwo] :
    (OfNat.ofNat n : Felt).toZMod = OfNat.ofNat n := toZMod_ofNat n

@[simp] theorem toZMod_zero : (0 : Felt).toZMod = 0 := (toZMod_ofNat 0).trans Nat.cast_zero

@[simp] theorem toZMod_one : (1 : Felt).toZMod = 1 := (toZMod_ofNat 1).trans Nat.cast_one

@[simp] theorem toZMod_add (a b : Felt) : (a + b).toZMod = a.toZMod + b.toZMod :=
  (toZMod_ofNat _).trans (Nat.cast_add ..)

@[simp] theorem toZMod_mul (a b : Felt) : (a * b).toZMod = a.toZMod * b.toZMod :=
  (toZMod_ofNat _).trans (Nat.cast_mul ..)

@[simp] theorem toZMod_neg (a : Felt) : (-a).toZMod = -a.toZMod := by
  refine (toZMod_ofNat _).trans ?_
  rw [Nat.cast_sub a.val_lt.le, ZMod.natCast_self, zero_sub]
  rfl

@[simp] theorem toZMod_sub (a b : Felt) : (a - b).toZMod = a.toZMod - b.toZMod := by
  refine (toZMod_ofNat _).trans ?_
  rw [Nat.cast_add, Nat.cast_sub b.val_lt.le, ZMod.natCast_self, zero_sub, ← sub_eq_add_neg]
  rfl

theorem toZMod_eq_zero : a.toZMod = 0 ↔ a = 0 := by rw [← toZMod_zero, toZMod_inj]

theorem two_ne : (2 : ZMod fieldPrime) ≠ 0 := by
  rw [← toZMod_literal, Ne, toZMod_eq_zero]
  decide

/-! ### Powers -/

theorem toZMod_powBits (bits : Nat) (a : Felt) {n : Nat} (h : n < 2 ^ bits) :
    (powBits bits a n).toZMod = a.toZMod ^ n := by
  induction bits generalizing a n with
  | zero =>
    obtain rfl : n = 0 := by omega
    simp [powBits]
  | succ bits ih =>
    rw [powBits, toZMod_mul, ih _ (by omega), toZMod_mul, ← bit_mul_pow a.toZMod n, apply_ite toZMod,
      toZMod_one]

theorem toZMod_power (a : Felt) {n : Nat} (h : n < 2 ^ 255) : (a.power n).toZMod = a.toZMod ^ n :=
  toZMod_powBits 255 a h

@[simp] theorem toZMod_inverse (a : Felt) : a.inverse.toZMod = a.toZMod⁻¹ := by
  rw [inverse, toZMod_power a (by decide)]
  by_cases zero : a.toZMod = 0
  · rw [zero, inv_zero, zero_pow (by decide)]
  · refine eq_inv_of_mul_eq_one_left ?_
    rw [← pow_succ]
    exact ZMod.pow_card_sub_one_eq_one zero

/-! ### Roots -/

theorem rootOfMinusOne_sq : rootOfMinusOne * rootOfMinusOne = -1 := by decide +kernel

theorem neg_val (h : a ≠ 0) : (-a).val = fieldPrime - a.val := by
  have positive : a.val ≠ 0 := fun zero => h (by rw [← toZMod_inj, toZMod, zero]; simp)
  exact Nat.mod_eq_of_lt (Nat.sub_lt (by decide) (Nat.pos_of_ne_zero positive))

@[simp] theorem neg_neg (a : Felt) : - -a = a := by
  rw [← toZMod_inj]
  simp

/-- Of an element and its opposite, the same one is the even one. -/
@[simp] theorem evenOf_neg (a : Felt) : evenOf (-a) = evenOf a := by
  by_cases h : a = 0
  · rw [h]
    rfl
  · have odd : fieldPrime % 2 = 1 := by decide
    have below := a.val_lt
    unfold evenOf
    rw [neg_val h, neg_neg]
    by_cases even : a.val % 2 = 0
    · rw [if_neg (by omega), if_pos even]
    · rw [if_pos (by omega), if_neg even]

theorem evenOf_eq_of_sq (h : a * a = b * b) : evenOf a = evenOf b := by
  rw [← toZMod_inj, toZMod_mul, toZMod_mul] at h
  rcases mul_self_eq_mul_self_iff.mp h with same | opposite
  · rw [toZMod_injective same]
  · rw [← toZMod_neg] at opposite
    rw [toZMod_injective opposite, evenOf_neg]

theorem evenOf_sq (a : Felt) : evenOf a * evenOf a = a * a := by
  rw [← toZMod_inj, toZMod_mul, toZMod_mul]
  unfold evenOf
  split
  · rfl
  · rw [toZMod_neg, neg_mul_neg]

/-- What is tried first for a root of a quotient. -/
def candidate (u v : Felt) : Felt :=
  u * (v * v * v) * power (u * (v * v * v * v * v * v * v)) ((fieldPrime - 5) / 8)

/-- It is a root of the quotient or of its opposite. -/
theorem candidate_sq {u v x : Felt} (hv : v ≠ 0) (square : u = v * (x * x)) :
    candidate u v * candidate u v = x * x ∨ candidate u v * candidate u v = -(x * x) := by
  obtain ⟨k, hk, shape, small⟩ :
      ∃ k, (fieldPrime - 5) / 8 = k ∧ fieldPrime = 8 * k + 5 ∧ k < 2 ^ 255 :=
    ⟨_, rfl, by decide, by decide⟩
  have full : fieldPrime - 1 = 8 * k + 4 := by omega
  have half : fieldPrime / 2 = 4 * k + 2 := by omega
  have order := ZMod.pow_card_sub_one_eq_one (mt toZMod_eq_zero.mp hv)
  rw [full] at order
  have root_sq : (candidate u v).toZMod * (candidate u v).toZMod
      = x.toZMod ^ (4 * k + 2) * (x.toZMod * x.toZMod) := by
    simp only [candidate, hk, square, toZMod_mul, toZMod_power _ small]
    calc _ = v.toZMod ^ (8 * k + 4) * v.toZMod ^ (8 * k + 4)
          * (x.toZMod ^ (4 * k + 2) * (x.toZMod * x.toZMod)) := by ring
      _ = _ := by rw [order, one_mul, one_mul]
  by_cases zero : x = 0
  · refine .inl (toZMod_injective ?_)
    rw [toZMod_mul, toZMod_mul, root_sq, zero, toZMod_zero, mul_zero, mul_zero]
  · have sign := ZMod.pow_div_two_eq_neg_one_or_one fieldPrime (mt toZMod_eq_zero.mp zero)
    rw [half] at sign
    refine sign.imp (fun plus => toZMod_injective ?_) fun minus => toZMod_injective ?_
    · rw [toZMod_mul, toZMod_mul, root_sq, plus, one_mul]
    · rw [toZMod_neg, toZMod_mul, toZMod_mul, root_sq, minus, neg_one_mul]

/-- The even root of a quotient is found if there is one. -/
theorem rootOfRatio?_of_sq {u v x : Felt} (hv : v ≠ 0) (square : u = v * (x * x)) :
    rootOfRatio? u v = some (evenOf x) := by
  have roots := candidate_sq hv square
  show (if v * (candidate u v * candidate u v) = u then some (evenOf (candidate u v))
    else if v * (candidate u v * candidate u v) = -u
      then some (evenOf (candidate u v * rootOfMinusOne)) else none) = _
  generalize candidate u v = r at roots ⊢
  by_cases found : v * (r * r) = u
  · have same : r * r = x * x := by
      rw [square, ← toZMod_inj, toZMod_mul, toZMod_mul v] at found
      exact toZMod_injective (mul_left_cancel₀ (mt toZMod_eq_zero.mp hv) found)
    rw [if_pos found, evenOf_eq_of_sq same]
  · have opposite := roots.resolve_left fun same => found (by rw [same, square])
    have negated : v * (r * r) = -u := by
      rw [← toZMod_inj, opposite, square]
      simp
    have turned : r * rootOfMinusOne * (r * rootOfMinusOne) = x * x := by
      have i_sq := congrArg toZMod rootOfMinusOne_sq
      have r_sq := congrArg toZMod opposite
      rw [← toZMod_inj]
      simp only [toZMod_mul, toZMod_neg, toZMod_one] at i_sq r_sq ⊢
      linear_combination rootOfMinusOne.toZMod * rootOfMinusOne.toZMod * r_sq
        - x.toZMod * x.toZMod * i_sq
    rw [if_neg found, if_pos negated, evenOf_eq_of_sq turned]

/-- What is found for a root of a quotient is one. -/
theorem sq_of_rootOfRatio? {u v x : Felt} (found : rootOfRatio? u v = some x) : u = v * (x * x) := by
  unfold rootOfRatio? at found
  dsimp only at found
  split at found
  · next root =>
    obtain rfl := Option.some.inj found
    rw [evenOf_sq, root]
  · split at found
    · next opposite =>
      obtain rfl := Option.some.inj found
      have square := congrArg toZMod opposite
      have i_sq := congrArg toZMod rootOfMinusOne_sq
      rw [evenOf_sq, ← toZMod_inj]
      simp only [toZMod_mul, toZMod_neg, toZMod_one] at square i_sq ⊢
      linear_combination u.toZMod * i_sq - rootOfMinusOne.toZMod * rootOfMinusOne.toZMod * square
    · cases found

end Felt

end DoubleRatchet
