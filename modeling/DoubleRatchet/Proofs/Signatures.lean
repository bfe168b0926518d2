/-
DoubleRatchet/Proofs/Signatures.lean

Own signatures are accepted.

The scheme works over any commutative group that the points of a `SigningGroup` stand for
(`Realizes`): with `R = r B` and `s = r + h a`, and a public key that stands for `a B`,

    s B - h (a B) = r B

modulo the order of the base point, so the check gets the encoding of `R` again.

What is left is that the public key does stand for `a B`.  A private key `k` signs with
`a = k` or `a = -k`, such that `a B` has even `x`; its public key is the `u` coordinate of
`k B`, computed by the ladder, and that is decoded to the point with even `x`.  It is not
the neutral point, since a clamped scalar is no multiple of the order.

So every signature is accepted under the public key of its private key, and with it every
bundle and every group message that carries one (`own_signatures_accepted`).
-/
import DoubleRatchet.Proofs.Bodies
import DoubleRatchet.Proofs.MontgomeryLadder

namespace DoubleRatchet

/-! ### The scheme -/

namespace SigningGroup

section
variable (G : SigningGroup) (privateKey : Block 32) (message : Bytes) (random : Block 64)

/-- The secret scalar that a signature is made with. -/
def nonceScalar : Nat :=
  G.scalarOf (noncePrefix ++ toLittle 32 (G.signingKey privateKey).1 ++ message ++ random.bytes)

/-- The first half of a signature. -/
def nonce : Block 32 := G.encode (G.mul (G.nonceScalar privateKey message random) G.base)

/-- The scalar that ties a signature to its key and its message. -/
def challenge : Nat :=
  G.scalarOf ((G.nonce privateKey message random).bytes ++ (G.signingKey privateKey).2.bytes ++ message)

/-- The second half of a signature. -/
def response : Nat :=
  (G.nonceScalar privateKey message random
    + G.challenge privateKey message random * (G.signingKey privateKey).1) % G.order

/-- The point that a signature with the scalar `s` is checked against. -/
def expected (point : G.Point) (nonce message : Bytes) (s : Nat) : G.Point :=
  G.add (G.mul (s % G.order) G.base)
    (G.mul (G.scalarOf (nonce ++ (G.encode point).bytes ++ message)) (G.neg point))

theorem bytes_sign : (G.sign privateKey message random).bytes
    = (G.nonce privateKey message random).bytes ++ toLittle 32 (G.response privateKey message random) :=
  rfl

end

/-- What it takes for a signature to be accepted. -/
theorem checkSignature_eq_ok {G : SigningGroup} {publicKey : Block 32} {message signature : Bytes} :
    G.checkSignature publicKey message signature = .ok () ↔
      signature.length = 64 ∧ ofLittle (signature.drop 32) < scalarBound ∧
        ∃ point, G.ofPublic? publicKey = some point ∧
          (G.encode (G.expected point (signature.take 32) message (ofLittle (signature.drop 32)))).bytes
            = signature.take 32 := by
  unfold checkSignature expected
  by_cases length : signature.length = 64
  · by_cases excess : scalarBound ≤ ofLittle (signature.drop 32)
    · simp [length, excess]
    · have fits := Nat.not_le.mp excess
      cases found : G.ofPublic? publicKey with
      | none => simp [length, excess]
      | some point => simp [length, excess, fits]
  · simp [length]

/-- The points of a signing group stand for the elements of a commutative group. -/
structure Realizes (G : SigningGroup) (A : Type) [AddCommGroup A] where
  stands : G.Point → A → Prop
  /-- The element that the base point stands for. -/
  origin : A
  base : stands G.base origin
  add : ∀ {p q a b}, stands p a → stands q b → stands (G.add p q) (a + b)
  neg : ∀ {p a}, stands p a → stands (G.neg p) (-a)
  mul : ∀ {p a n}, stands p a → n < G.order → stands (G.mul n p) (n • a)
  /-- An encoding tells of nothing but what a point stands for. -/
  encode : ∀ {p q a}, stands p a → stands q a → G.encode p = G.encode q
  order_pos : 0 < G.order
  order_le : G.order ≤ scalarBound
  order_nsmul : G.order • origin = 0

namespace Realizes

variable {G : SigningGroup} {A : Type} [AddCommGroup A] (R : G.Realizes A)
include R

theorem mod_nsmul (n : Nat) : (n % G.order) • R.origin = n • R.origin := by
  conv_rhs => rw [← Nat.div_add_mod n G.order, add_nsmul, mul_comm, mul_nsmul', R.order_nsmul,
    nsmul_zero, zero_add]

theorem scalarOf_lt (message : Bytes) : G.scalarOf message < G.order := Nat.mod_lt _ R.order_pos

/-- A reduced scalar is written and read back. -/
theorem ofLittle_scalar {s : Nat} (reduced : s < G.order) : ofLittle (toLittle 32 s) = s := by
  rw [ofLittle_toLittle]
  exact Nat.mod_eq_of_lt ((reduced.trans_le R.order_le).trans (by decide))

/-- What the point stands for that a signature is checked against. -/
theorem stands_expected {point : G.Point} {a : A} (stands : R.stands point a) (nonce message : Bytes)
    (s : Nat) :
    R.stands (G.expected point nonce message s)
      (s • R.origin + G.scalarOf (nonce ++ (G.encode point).bytes ++ message) • -a) := by
  have plus := R.mul R.base (Nat.mod_lt s R.order_pos)
  rw [R.mod_nsmul] at plus
  exact R.add plus (R.mul (R.neg stands) (R.scalarOf_lt _))

/-- A signature is accepted under a public key that stands for the point it was made for. -/
theorem checkSignature_sign {privateKey publicKey : Block 32} {point : G.Point}
    (found : G.ofPublic? publicKey = some point)
    (stands : R.stands point ((G.signingKey privateKey).1 • R.origin))
    (encoded : G.encode point = (G.signingKey privateKey).2) (message : Bytes) (random : Block 64) :
    ofLittle ((G.sign privateKey message random).bytes.drop 32) < scalarBound ∧
      G.checkSignature publicKey message (G.sign privateKey message random).bytes = .ok () := by
  have reduced : G.response privateKey message random < G.order := Nat.mod_lt _ R.order_pos
  have small : G.response privateKey message random < scalarBound := reduced.trans_le R.order_le
  have first : (G.sign privateKey message random).bytes.take 32
      = (G.nonce privateKey message random).bytes := by
    rw [bytes_sign, List.take_left' (Block.length_bytes _)]
  have second : ofLittle ((G.sign privateKey message random).bytes.drop 32)
      = G.response privateKey message random := by
    rw [bytes_sign, List.drop_left' (Block.length_bytes _), R.ofLittle_scalar reduced]
  refine ⟨second ▸ small, checkSignature_eq_ok.mpr ⟨by simp, second ▸ small, point, found, ?_⟩⟩
  rw [first, second]
  -- what is checked is the nonce again
  have sum := R.stands_expected stands (G.nonce privateKey message random).bytes message
    (G.response privateKey message random)
  have cancel : G.response privateKey message random • R.origin
      + G.challenge privateKey message random • -((G.signingKey privateKey).1 • R.origin)
      = G.nonceScalar privateKey message random • R.origin := by
    rw [response, R.mod_nsmul, add_nsmul, mul_nsmul', smul_neg, add_neg_cancel_right]
  rw [encoded] at sum
  have again := R.encode (cancel ▸ sum) (R.mul R.base (R.scalarOf_lt _))
  exact congrArg Block.bytes again

end Realizes

end SigningGroup

/-! ### Clamped scalars -/

theorem ofLittle_append (as bs : Bytes) :
    ofLittle (as ++ bs) = ofLittle as + capacity as.length * ofLittle bs := by
  induction as with
  | nil => simp [ofLittle, capacity]
  | cons a as ih =>
    rw [List.cons_append, ofLittle, ofLittle, ih, List.length_cons, capacity, mul_add, mul_assoc,
      add_assoc]

/-- The bytes of a block of 32, from the first one to the last. -/
theorem Block.exists_ends (b : Block 32) :
    ∃ first middle last, middle.length = 30 ∧ b.bytes = first :: (middle ++ [last]) := by
  obtain ⟨bytes, length⟩ := b
  obtain ⟨first, rest, rfl⟩ := List.exists_cons_of_length_eq_add_one length
  have longer : rest ≠ [] := by
    rintro rfl
    cases length
  refine ⟨first, rest.dropLast, rest.getLast longer, ?_, ?_⟩
  · rw [List.length_dropLast]
    rw [List.length_cons] at length
    omega
  · rw [List.dropLast_append_getLast]

/-- A clamped scalar is a multiple of eight between `2²⁵⁴` and `2²⁵⁵`. -/
theorem clamp_range (k : Block 32) :
    let n := ofLittle (clamp k).bytes
    n % 8 = 0 ∧ 2 ^ 254 ≤ n ∧ n < 2 ^ 255 := by
  obtain ⟨first, middle, last, count, bytes⟩ := k.exists_ends
  have clamped : (clamp k).bytes = (first &&& 248) :: (middle ++ [(last &&& 127) ||| 64]) := by
    show ((k.bytes.modify 0 _).modify 31 _).modify 31 _ = _
    rw [bytes, List.modify_zero_cons, List.modify_succ_cons, List.modify_succ_cons, ← count,
      modify_last, modify_last]
  have low : (first &&& 248).toNat % 2 ^ 3 = 0 := by
    rw [UInt8.toNat_and, Nat.and_mod_two_pow]
    exact Nat.and_zero _
  have high : 64 ≤ ((last &&& 127) ||| 64).toNat := by
    rw [UInt8.toNat_or]
    exact Nat.right_le_or
  have top : ((last &&& 127) ||| 64).toNat < 2 ^ 7 := by
    rw [UInt8.toNat_or, UInt8.toNat_and]
    exact Nat.or_lt_two_pow (Nat.and_lt_two_pow _ (by decide)) (by decide)
  have first_lt := (first &&& 248).toNat_lt
  have middle_lt := ofLittle_lt middle
  have room : capacity 30 = 2 ^ 240 := by decide
  rw [count, room] at middle_lt
  rw [clamped, ofLittle, ofLittle_append, count, room, ofLittle, ofLittle]
  dsimp only
  omega

namespace EdwardsPoint

theorem order_nsmul_basePoint : order • basePoint = 0 := by
  have zero := addOrderOf_nsmul_eq_zero basePoint
  rwa [addOrderOf_basePoint] at zero

/-- The Edwards form of Curve25519 is a group of points. -/
def realizes : edwards25519.Realizes CurvePoint where
  stands := Represents
  origin := basePoint
  base := represents_base
  add := Represents.add
  neg := Represents.neg
  mul h small := h.mul small
  encode hp hq := hp.encode_eq.trans hq.encode_eq.symm
  order_pos := by decide
  order_le := by decide
  order_nsmul := order_nsmul_basePoint

/-- A clamped scalar is no multiple of the order, which is odd and not below `2²⁵²`. -/
theorem clamp_nsmul_ne_zero (k : Block 32) : ofLittle (clamp k).bytes • basePoint ≠ 0 := by
  obtain ⟨eighth, large, small⟩ := clamp_range k
  intro zero
  rw [← addOrderOf_dvd_iff_nsmul_eq_zero, addOrderOf_basePoint] at zero
  obtain ⟨c, same⟩ := zero
  rw [same] at eighth large small
  have coprime : Nat.Coprime 8 order := by decide +kernel
  obtain ⟨m, rfl⟩ := coprime.dvd_of_dvd_mul_left (Nat.dvd_of_mod_eq_zero eighth)
  have order_large : 2 ^ 252 ≤ order := by decide
  rcases Nat.eq_zero_or_pos m with rfl | positive
  · simp at large
  · have := Nat.mul_le_mul order_large (Nat.le_mul_of_pos_right 8 positive)
    omega

/-! ### Keys -/

/-- A private key signs for its multiple of the base point, or for the opposite of that. -/
theorem signingKey_positive (privateKey : Block 32) :
    let P := ofLittle privateKey.bytes • basePoint
    (edwards25519.signingKey privateKey).1 • basePoint = P.positive ∧
      (edwards25519.signingKey privateKey).2 = P.positive.encode := by
  intro P
  have reduced : ofLittle privateKey.bytes % order < order := Nat.mod_lt _ (by decide)
  have stands : (mul (ofLittle privateKey.bytes % order) base).Represents P := by
    have multiple := represents_base.mul reduced
    rwa [mod_nsmul_basePoint] at multiple
  have encoded : (edwards25519.encode (edwards25519.mul
      (ofLittle privateKey.bytes % edwards25519.order) edwards25519.base)) = P.encode :=
    stands.encode_eq
  unfold SigningGroup.signingKey
  dsimp only
  rw [encoded, CurvePoint.isNegative_encode, CurvePoint.mask_encode, CurvePoint.encode_positive]
  refine ⟨?_, rfl⟩
  unfold CurvePoint.positive
  by_cases odd : P.Odd
  · rw [decide_eq_true odd, if_pos rfl, if_pos odd]
    show ((order - ofLittle privateKey.bytes % order) % order) • basePoint = -P
    rw [mod_nsmul_basePoint, sub_nsmul _ reduced.le, mod_nsmul_basePoint, order_nsmul_basePoint,
      zero_add]
  · rw [decide_eq_false odd, if_neg Bool.false_ne_true, if_neg odd]
    exact mod_nsmul_basePoint _

theorem base_u : 9 * (1 - base.y) = 1 + base.y := by decide +kernel

/-- The point that a public key stands for. -/
theorem ofMontgomery?_x25519Public (privateKey : Block 32) :
    ∃ p, ofMontgomery? (x25519Public privateKey) = some p ∧
      p.Represents (ofLittle (clamp privateKey).bytes • basePoint).positive := by
  have u_ne : (9 : Felt).toZMod ≠ 0 := by
    rw [Ne, Felt.toZMod_eq_zero]
    decide
  have u := congrArg Felt.toZMod base_u
  rw [Felt.toZMod_mul, Felt.toZMod_sub, Felt.toZMod_add, Felt.toZMod_one] at u
  exact ofMontgomery?_encode (Montgomery.multiple_nsmul u_ne u (clamp_range privateKey).2.2
    (clamp_nsmul_ne_zero privateKey))

/-- A signature is accepted under a public key that stands for the point its private key signs for. -/
theorem checkSignature_sign {privateKey publicKey : Block 32} {point : EdwardsPoint}
    (found : ofMontgomery? publicKey = some point)
    (represents : point.Represents (ofLittle privateKey.bytes • basePoint).positive) (message : Bytes)
    (random : Block 64) :
    let signature := (edwards25519.sign privateKey message random).bytes
    ofLittle (signature.drop 32) < SigningGroup.scalarBound ∧
      edwards25519.checkSignature publicKey message signature = .ok () := by
  obtain ⟨multiple, encoded⟩ := signingKey_positive privateKey
  have stands : realizes.stands point ((edwards25519.signingKey privateKey).1 • realizes.origin) := by
    show point.Represents ((edwards25519.signingKey privateKey).1 • basePoint)
    rwa [multiple]
  have same : edwards25519.encode point = (edwards25519.signingKey privateKey).2 := by
    rw [encoded]
    exact represents.encode_eq
  exact realizes.checkSignature_sign found stands same message random

end EdwardsPoint

/-! ### Own signatures -/

theorem scalarBound_eq : SigningGroup.scalarBound = 2 ^ 253 := by decide

/-- The suite in use accepts a signature under the public key of the key that it was made with. -/
theorem verify_own_signature (privateKey : Block 32) (message : Bytes) (random : Block 64) :
    let signature := (classicSuite.sign privateKey message random).bytes
    ofLittle (signature.drop 32) < 2 ^ 253 ∧
      classicSuite.verify (classicSuite.publicKey privateKey) message signature = true := by
  obtain ⟨point, found, represents⟩ := EdwardsPoint.ofMontgomery?_x25519Public privateKey
  obtain ⟨small, accepted⟩ := EdwardsPoint.checkSignature_sign found represents message random
  rw [scalarBound_eq] at small
  simp only [classicSuite]
  rw [accepted]
  exact ⟨small, rfl⟩

/-- A signed pre-key is signed by its identity; only a dead source gets in the way. -/
theorem Suite.run_drawSignedPreKey (S : Suite) (identity : PrivateKey) (id : UInt32)
    (timestamp : Int64) (e : Entropy) :
    (S.drawSignedPreKey identity id timestamp).run e
      = if e.dead then (.error .noEntropy, e)
        else
          let keyPair := S.keyPair ⟨S.privateKey (e.peek 32)⟩
          let e₁ := e.advance 32
          let signature := S.sign identity.raw keyPair.publicKey.transmitted (e₁.peek 64)
          (.ok ⟨id, timestamp, keyPair, signature.bytes⟩, e₁.advance 64) := by
  unfold drawSignedPreKey
  rw [Draw.run_bind, S.run_drawKeyPair]
  cases dead : e.dead
  · have alive : (e.advance 32).dead = false := dead
    show (S.drawSignature identity _ >>= _).run (e.advance 32) = _
    rw [Draw.run_bind, run_drawSignature, alive]
    rfl
  · rfl

/-- Every private key, its bytes clamped or not, makes signatures whose scalar fits 253 bits and that
hold under its own public key.  So a bundle with a pre-key that an identity has signed passes the
check of its signature, and a message to a group passes it under the key of its signer; neither
fails to be made unless there are no random bytes. -/
theorem own_signatures_accepted :
    (∀ (privateKey : Block 32) (message : Bytes) (random : Block 64),
      let signature := (classicSuite.sign privateKey message random).bytes
      ofLittle (signature.drop 32) < 2 ^ 253 ∧
        classicSuite.verify (classicSuite.publicKey privateKey) message signature = true) ∧
    (∀ (identity : PrivateKey) (id : UInt32) (timestamp : Int64) (e : Entropy),
      match (classicSuite.drawSignedPreKey identity id timestamp).run e with
      | (.ok signed, _) => ∀ bundle : PreKeyBundle,
          ({ bundle with
            identity := (classicSuite.keyPair identity).publicKey
            signedPreKey := signed.keyPair.publicKey
            signature := signed.signature } : PreKeyBundle).checkSignature classicSuite = .ok ()
      | (.error _, _) => e.dead = true) ∧
    ∀ (keyId iteration : UInt32) (ciphertext : Bytes) (signingKey : PrivateKey) (e : Entropy),
      match (GroupMessage.make classicSuite keyId iteration ciphertext signingKey).run e with
      | (.ok message, _) =>
          message.checkSignature classicSuite (classicSuite.keyPair signingKey).publicKey = .ok ()
      | (.error _, _) => e.dead = true := by
  refine ⟨verify_own_signature, fun identity id timestamp e => ?_,
    fun keyId iteration ciphertext signingKey e => ?_⟩
  · rw [Suite.run_drawSignedPreKey]
    by_cases dead : e.dead
    · rwa [if_pos dead]
    · rw [if_neg dead]
      intro bundle
      exact if_pos (verify_own_signature identity.raw _ _).2
  · rw [run_makeGroupMessage]
    by_cases dead : e.dead
    · rwa [if_pos dead]
    · rw [if_neg dead]
      exact GroupMessage.checkSignature_signed fun bs random =>
        (verify_own_signature signingKey.raw bs random).2

end DoubleRatchet
