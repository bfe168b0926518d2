/-
DoubleRatchet/Proofs/Primality.lean

The characteristic of the field and the order of the base point are prime.

A number is prime if some residue has exactly the order of all residues but zero.  That is
known once the prime factors of one less are known, and these are shown to be prime in the
same way (`PrattStep`), down to numbers that are small enough to try all divisors.
-/
import DoubleRatchet.Curve.Edwards
import Mathlib.NumberTheory.LucasPrimality
import Mathlib.Tactic.NormNum.Prime

namespace DoubleRatchet

/-! ### Powers -/

/-- The power `a ^ n` modulo `m`, for `n` below `2 ^ bits`, by repeated squaring. -/
def powerMod (m : Nat) : (bits : Nat) → (a n : Nat) → Nat
  | 0, _, _ => 1 % m
  | bits + 1, a, n => (if n % 2 = 1 then a else 1) * powerMod m bits (a * a % m) (n / 2) % m

/-- The lowest bit of an exponent, and the rest of it. -/
theorem bit_mul_pow {M : Type} [Monoid M] (a : M) (n : Nat) :
    (if n % 2 = 1 then a else 1) * (a * a) ^ (n / 2) = a ^ n := by
  rw [← sq, ← pow_mul]
  split
  · next odd =>
    rw [← pow_succ']
    congr 1
    omega
  · next even =>
    rw [one_mul]
    congr 1
    omega

theorem cast_powerMod (m bits a n : Nat) (h : n < 2 ^ bits) :
    (powerMod m bits a n : ZMod m) = (a : ZMod m) ^ n := by
  induction bits generalizing a n with
  | zero =>
    obtain rfl : n = 0 := by omega
    simp [powerMod]
  | succ bits ih =>
    have half : n / 2 < 2 ^ bits := by omega
    rw [powerMod, ZMod.natCast_mod, Nat.cast_mul, ih _ _ half, ZMod.natCast_mod, Nat.cast_mul,
      ← bit_mul_pow (a : ZMod m) n, Nat.cast_ite, Nat.cast_one]

/-! ### Certificates -/

/-- A number, a residue of full order, and the prime factors of the number before it. -/
structure PrattStep where
  number : Nat
  witness : Nat
  factors : List Nat

namespace PrattStep

variable {s : PrattStep} {known : List Nat}

/-- The power of the witness. -/
def power (s : PrattStep) (n : Nat) : Nat := powerMod s.number 256 s.witness n

/-- The witness has full order, and the factors are known to be prime. -/
def Holds (known : List Nat) (s : PrattStep) : Prop :=
  (1 < s.number ∧ s.number < 2 ^ 256 ∧ s.factors.prod = s.number - 1) ∧
  s.power (s.number - 1) = 1 ∧
  ∀ q ∈ s.factors, q ∈ known ∧ s.power ((s.number - 1) / q) ≠ 1

instance : Decidable (s.Holds known) := inferInstanceAs (Decidable (_ ∧ _ ∧ _))

/-- Every step holds, where the numbers of those before it are known as well. -/
def Chain : (known : List Nat) → List PrattStep → Prop
  | _, [] => True
  | known, s :: steps => s.Holds known ∧ Chain (s.number :: known) steps

instance decidableChain : ∀ known steps, Decidable (Chain known steps)
  | _, [] => inferInstanceAs (Decidable True)
  | known, s :: steps =>
    have := decidableChain (s.number :: known) steps
    inferInstanceAs (Decidable (_ ∧ _))

/-- A power of the witness that is one is one as a residue. -/
theorem power_eq_one_iff (big : 1 < s.number) {n : Nat} (small : n < 2 ^ 256) :
    s.power n = 1 ↔ (s.witness : ZMod s.number) ^ n = 1 := by
  have reduced : s.power n < s.number := Nat.mod_lt _ (by omega)
  have same := ZMod.natCast_eq_natCast_iff' (s.power n) 1 s.number
  rw [Nat.mod_eq_of_lt reduced, Nat.mod_eq_of_lt big, Nat.cast_one] at same
  rw [← cast_powerMod s.number 256 s.witness n small]
  exact same.symm

theorem Holds.prime (h : s.Holds known) (primes : ∀ q ∈ known, q.Prime) : s.number.Prime := by
  obtain ⟨⟨big, small, factored⟩, full, exact⟩ := h
  have below (q : Nat) : (s.number - 1) / q < 2 ^ 256 :=
    Nat.lt_of_le_of_lt (Nat.div_le_self _ _) (by omega)
  refine lucas_primality _ _ ((power_eq_one_iff big (by omega)).mp full) fun q prime divides => ?_
  -- a prime divisor of the product is one of the factors
  rw [← factored] at divides
  obtain ⟨factor, mem, divides⟩ := (Prime.dvd_prod_iff prime.prime).mp divides
  obtain ⟨found, notOne⟩ := exact factor mem
  obtain rfl := (Nat.prime_dvd_prime_iff_eq prime (primes factor found)).mp divides
  exact fun one => notOne ((power_eq_one_iff big (below _)).mpr one)

theorem Chain.prime {steps : List PrattStep} (h : Chain known steps) (primes : ∀ q ∈ known, q.Prime)
    (mem : s ∈ steps) : s.number.Prime := by
  induction steps generalizing known with
  | nil => cases mem
  | cons step steps ih =>
    have first := h.1.prime primes
    rcases List.mem_cons.mp mem with rfl | mem
    · exact first
    · exact ih h.2 (List.forall_mem_cons.mpr ⟨first, primes⟩) mem

end PrattStep

/-! ### The two primes -/

/-- Primes to begin with. -/
def smallPrimes : List Nat :=
  [2, 3, 5, 7, 11, 13, 19, 23, 31, 41, 43, 47, 73, 103, 107, 127, 223, 269, 307, 353, 991, 1361, 2437,
    2551, 2851, 3727, 4153, 5879, 30703, 57467, 65147, 75707, 82163, 132049, 132667, 137849, 409477,
    430751, 531581, 569003]

theorem prime_of_mem_smallPrimes : ∀ q ∈ smallPrimes, q.Prime := by
  simp only [smallPrimes, List.forall_mem_cons]
  norm_num

/-- The steps to the characteristic of the field. -/
def fieldPrimeSteps : List PrattStep :=
  [⟨31757755568855353, 10, [2, 2, 2, 3, 31, 107, 223, 4153, 430751]⟩,
    ⟨1923133, 2, [2, 2, 3, 43, 3727]⟩,
    ⟨8574133, 2, [2, 2, 3, 7, 103, 991]⟩,
    ⟨2773320623, 5, [2, 2437, 569003]⟩,
    ⟨72106336199, 7, [2, 13, 2773320623]⟩,
    ⟨1919519569386763, 2, [2, 3, 7, 19, 47, 47, 127, 8574133]⟩,
    ⟨75445702479781427272750846543864801, 7,
      [2, 2, 2, 2, 2, 3, 3, 5, 5, 75707, 72106336199, 1919519569386763]⟩,
    ⟨74058212732561358302231226437062788676166966415465897661863160754340907, 2,
      [2, 3, 353, 57467, 132049, 1923133, 31757755568855353, 75445702479781427272750846543864801]⟩,
    ⟨fieldPrime, 2,
      [2, 2, 3, 65147, 74058212732561358302231226437062788676166966415465897661863160754340907]⟩]

/-- The steps to the order of the base point. -/
def orderSteps : List PrattStep :=
  [⟨3044861653679985063343, 5, [2, 3, 11, 30703, 82163, 132667, 137849]⟩,
    ⟨14741173, 2, [2, 2, 3, 3, 409477]⟩,
    ⟨58964693, 2, [2, 2, 14741173]⟩,
    ⟨198211423230930754013084525763697, 5, [2, 2, 2, 2, 3, 23, 58964693, 3044861653679985063343]⟩,
    ⟨292386187, 2, [2, 3, 3, 3, 3, 307, 5879]⟩,
    ⟨213441916511, 13, [2, 5, 73, 292386187]⟩,
    ⟨1224481, 13, [2, 2, 2, 2, 2, 3, 5, 2551]⟩,
    ⟨1257559732178653, 2, [2, 2, 3, 7, 23, 531581, 1224481]⟩,
    ⟨4434155615661930479, 17, [2, 41, 43, 1257559732178653]⟩,
    ⟨172054593956031949258510691, 2, [2, 5, 1361, 2851, 4434155615661930479]⟩,
    ⟨19757330305831588566944191468367130476339, 2, [2, 269, 213441916511, 172054593956031949258510691]⟩,
    ⟨276602624281642239937218680557139826668747, 2, [2, 7, 19757330305831588566944191468367130476339]⟩,
    ⟨EdwardsPoint.order, 2, [2, 2, 3, 11, 198211423230930754013084525763697,
      276602624281642239937218680557139826668747]⟩]

theorem chain_fieldPrimeSteps : PrattStep.Chain smallPrimes fieldPrimeSteps := by decide +kernel

theorem chain_orderSteps : PrattStep.Chain smallPrimes orderSteps := by decide +kernel

theorem prime_fieldPrime : fieldPrime.Prime :=
  chain_fieldPrimeSteps.prime prime_of_mem_smallPrimes
    (List.getLast_mem (by decide) : fieldPrimeSteps.getLast (by decide) ∈ fieldPrimeSteps)

theorem prime_order : EdwardsPoint.order.Prime :=
  chain_orderSteps.prime prime_of_mem_smallPrimes
    (List.getLast_mem (by decide) : orderSteps.getLast (by decide) ∈ orderSteps)

end DoubleRatchet
