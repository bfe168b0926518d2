/-
DoubleRatchet/Proofs/Malleability.lean

Which scalars a signature is accepted with.

The check of a signature `R ‖ s` compares `R` with the encoding of `s B - h A`, where `h`
depends on `R`, the public key and the message, but not on `s`.  An encoding tells points
apart (`CurvePoint.encode_injective`), so two signatures with the same `R` are both accepted
only if their scalars agree modulo the order `q` of the base point.

No scalar has to be reduced for that, only to stay below `2²⁵³`, which leaves room for `t + q`
beside the reduced scalar `t` if `t` is below `2²⁵³ - q`, as nearly every `t` is.  So where one
signature is accepted a second one mostly is (`accepted_with_two_scalars`), but never a third
one (`accepted_scalars`).
-/
import DoubleRatchet.Proofs.Signatures

namespace DoubleRatchet

/-! ### The scheme -/

namespace SigningGroup.Realizes

variable {G : SigningGroup} {A : Type} [AddCommGroup A] {R : G.Realizes A}

/-- Nothing of what the points stand for is lost: not in an encoding, not in a public key, and not in
the multiples of the base point below the order. -/
structure Faithful (R : G.Realizes A) : Prop where
  encode : ∀ {p q a b}, R.stands p a → R.stands q b → G.encode p = G.encode q → a = b
  ofPublic? : ∀ {publicKey p}, G.ofPublic? publicKey = some p → ∃ a, R.stands p a
  addOrderOf_origin : addOrderOf R.origin = G.order

namespace Faithful

variable (F : R.Faithful)
include F

/-- The point that a signature is checked against tells the scalar modulo the order. -/
theorem encode_expected_iff {point : G.Point} {a : A} (stands : R.stands point a)
    (nonce message : Bytes) {s t : Nat} :
    G.encode (G.expected point nonce message s) = G.encode (G.expected point nonce message t)
      ↔ s ≡ t [MOD G.order] := by
  constructor
  · intro same
    have sums := F.encode (R.stands_expected stands nonce message s)
      (R.stands_expected stands nonce message t) same
    rw [← F.addOrderOf_origin, ← nsmul_eq_nsmul_iff_modEq]
    exact add_right_cancel sums
  · intro congruent
    unfold expected
    rw [show s % G.order = t % G.order from congruent]

/-- Of the signatures with the same first half as an accepted one, those are accepted whose scalar
is the same modulo the order. -/
theorem checkSignature_iff {publicKey : Block 32} {message signature other : Bytes}
    (accepted : G.checkSignature publicKey message signature = .ok ())
    (same : other.take 32 = signature.take 32) :
    G.checkSignature publicKey message other = .ok () ↔
      other.length = 64 ∧ ofLittle (other.drop 32) < scalarBound ∧
        ofLittle (other.drop 32) ≡ ofLittle (signature.drop 32) [MOD G.order] := by
  obtain ⟨-, -, point, found, encoded⟩ := checkSignature_eq_ok.mp accepted
  obtain ⟨a, stands⟩ := F.ofPublic? found
  rw [checkSignature_eq_ok, same]
  refine and_congr_right fun _ => and_congr_right fun _ => ?_
  rw [← F.encode_expected_iff stands (signature.take 32) message]
  constructor
  · rintro ⟨point', found', encoded'⟩
    obtain rfl := Option.some.inj (found.symm.trans found')
    exact Block.ext (encoded'.trans encoded.symm)
  · intro alike
    exact ⟨point, found, alike ▸ encoded⟩

end Faithful
end SigningGroup.Realizes

/-! ### The curve -/

namespace EdwardsPoint

theorem faithful_realizes : realizes.Faithful where
  encode hp hq same :=
    CurvePoint.encode_injective (hp.encode_eq.symm.trans (same.trans hq.encode_eq))
  ofPublic? := represents_of_ofMontgomery?
  addOrderOf_origin := addOrderOf_basePoint

/-- Below `2²⁵³` there are at most two numbers with the same residue modulo the order. -/
theorem modEq_order_iff {s t : Nat} :
    s < 2 ^ 253 ∧ s ≡ t [MOD order] ↔
      s = t % order ∨ s = t % order + order ∧ t % order + order < 2 ^ 253 := by
  unfold Nat.ModEq order
  omega

end EdwardsPoint

/-! ### Signatures with the same first half -/

/-- A signature is known by its first half and its scalar. -/
theorem eq_of_halves {as bs : Bytes} (length : as.length = bs.length)
    (first : as.take 32 = bs.take 32) (scalar : ofLittle (as.drop 32) = ofLittle (bs.drop 32)) :
    as = bs := by
  have second : as.drop 32 = bs.drop 32 := by
    rw [← toLittle_ofLittle (as.drop 32), ← toLittle_ofLittle (bs.drop 32), scalar, List.length_drop,
      List.length_drop, length]
  rw [← List.take_append_drop 32 as, first, second, List.take_append_drop]

/-- If a signature is accepted, with the scalar `t` modulo the order, then the ones with the same first
half that are accepted are those with the scalar `t` and, if that fits 253 bits, with `t + order`.
Among reduced scalars there is no other than `t`. -/
theorem accepted_scalars {publicKey : Block 32} {message signature other : Bytes}
    (accepted : edwards25519.checkSignature publicKey message signature = .ok ())
    (same : other.take 32 = signature.take 32) :
    let t := ofLittle (signature.drop 32) % EdwardsPoint.order
    (edwards25519.checkSignature publicKey message other = .ok () ↔
      other.length = 64 ∧ (ofLittle (other.drop 32) = t ∨
        ofLittle (other.drop 32) = t + EdwardsPoint.order ∧ t + EdwardsPoint.order < 2 ^ 253)) ∧
    (ofLittle (signature.drop 32) < EdwardsPoint.order →
      ofLittle (other.drop 32) < EdwardsPoint.order →
      (edwards25519.checkSignature publicKey message other = .ok () ↔ other = signature)) := by
  intro t
  have congruent := EdwardsPoint.faithful_realizes.checkSignature_iff accepted same
  rw [scalarBound_eq] at congruent
  refine ⟨congruent.trans (and_congr_right fun _ => EdwardsPoint.modEq_order_iff), ?_⟩
  intro reduced otherReduced
  constructor
  · intro alsoAccepted
    obtain ⟨length, -, residue⟩ := congruent.mp alsoAccepted
    obtain ⟨length', -⟩ := SigningGroup.checkSignature_eq_ok.mp accepted
    have scalars : ofLittle (other.drop 32) = ofLittle (signature.drop 32) :=
      residue.eq_of_lt_of_lt otherReduced reduced
    exact eq_of_halves (length.trans length'.symm) same scalars
  · rintro rfl
    exact accepted

/-- A signature to compute with, made with a private key of ones. -/
def onesSignature : Bytes :=
  (classicSuite.sign (.replicate 32 1) [1, 2, 3] (.replicate 64 0)).bytes

/-- The same with another scalar. -/
def onesSignatureWith (s : Nat) : Bytes := onesSignature.take 32 ++ toLittle 32 s

/-- The scalar of a signature raised by the order, and replaced by zero. -/
theorem accepted_scalars_ones :
    let publicKey := classicSuite.publicKey (.replicate 32 1)
    let t := ofLittle (onesSignature.drop 32)
    let raised := onesSignatureWith (t + EdwardsPoint.order)
    let zero := onesSignatureWith 0
    edwards25519.checkSignature publicKey [1, 2, 3] onesSignature = .ok () ∧
    raised.take 32 = onesSignature.take 32 ∧
    (edwards25519.checkSignature publicKey [1, 2, 3] raised = .ok () ↔
      raised.length = 64 ∧ (ofLittle (raised.drop 32) = t % EdwardsPoint.order ∨
        ofLittle (raised.drop 32) = t % EdwardsPoint.order + EdwardsPoint.order ∧
          t % EdwardsPoint.order + EdwardsPoint.order < 2 ^ 253)) ∧
    zero.take 32 = onesSignature.take 32 ∧ t < EdwardsPoint.order ∧
    ofLittle (zero.drop 32) < EdwardsPoint.order ∧
    (edwards25519.checkSignature publicKey [1, 2, 3] zero = .ok () ↔ zero = onesSignature) := by
  intro publicKey t raised zero
  have accepted : edwards25519.checkSignature publicKey [1, 2, 3] onesSignature = .ok () := by
    decide +kernel
  have first (s : Nat) : (onesSignatureWith s).take 32 = onesSignature.take 32 :=
    List.take_left' (by rw [List.length_take, onesSignature, Block.length_bytes]; rfl)
  have reduced : t < EdwardsPoint.order := by decide +kernel
  have zeroReduced : ofLittle (zero.drop 32) < EdwardsPoint.order := by decide +kernel
  exact ⟨accepted, first _, (accepted_scalars accepted (first _)).1, first _, reduced, zeroReduced,
    (accepted_scalars accepted (first _)).2 reduced zeroReduced⟩

/-- Two signatures with the same first half are accepted. -/
theorem accepted_with_two_scalars :
    let publicKey := classicSuite.publicKey (.replicate 32 1)
    let raised := onesSignatureWith (ofLittle (onesSignature.drop 32) + EdwardsPoint.order)
    edwards25519.checkSignature publicKey [1, 2, 3] onesSignature = .ok () ∧
    edwards25519.checkSignature publicKey [1, 2, 3] raised = .ok () ∧
    onesSignature.length = 64 ∧ raised.length = 64 ∧
    raised.take 32 = onesSignature.take 32 ∧ raised ≠ onesSignature := by
  decide +kernel

end DoubleRatchet
