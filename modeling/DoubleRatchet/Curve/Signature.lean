/-
DoubleRatchet/Curve/Signature.lean

Signatures with agreement keys: the same key pair signs and agrees.  A public key
gives a point only up to sign, so the signer always signs for the point with even
`x`, with the opposite scalar where its own point has odd `x`.

The scheme is written over any `SigningGroup`; `edwards25519` is the one in use.

* `sign` makes `R ‖ s` with `R = r B` and `s = r + h a`.
* `checkSignature` accepts `R ‖ s` when `s B − h A` encodes to `R`.
-/
import DoubleRatchet.Curve.Edwards
import DoubleRatchet.Digest.Sha512

namespace DoubleRatchet

/-- A group with a base point, as signatures need it. -/
structure SigningGroup where
  /-- The points. -/
  Point : Type
  /-- The order of the base point. -/
  order : Nat
  base : Point
  add : Point → Point → Point
  neg : Point → Point
  mul : Nat → Point → Point
  /-- The encoding of a point; the highest bit is its sign. -/
  encode : Point → Block 32
  /-- The point of positive sign that a public key stands for. -/
  ofPublic? : Block 32 → Option Point

/-- The Edwards form of Curve25519. -/
def edwards25519 : SigningGroup where
  Point := EdwardsPoint
  order := EdwardsPoint.order
  base := EdwardsPoint.base
  add := EdwardsPoint.add
  neg := EdwardsPoint.neg
  mul := EdwardsPoint.mul
  encode := EdwardsPoint.encode
  ofPublic? := EdwardsPoint.ofMontgomery?

/-- Why a signature is refused. -/
inductive SignatureFault where
  | badLength (length : Nat)
  /-- The scalar does not fit 253 bits. -/
  | excessBits
  /-- The public key stands for no point. -/
  | offCurve
  | mismatch
  deriving DecidableEq

namespace SigningGroup

variable (G : SigningGroup)

/-- The bound `2²⁵³` that scalars have to keep to when they are sent. -/
def scalarBound : Nat :=
  14474011154664524427946373126085988481658748083205070504932198000989141204992

/-- A hash as a scalar. -/
def scalarOf (message : Bytes) : Nat := ofLittle (sha512 message).bytes % G.order

/-- The prefix that sets nonce hashes apart from all others. -/
def noncePrefix : Bytes := 0xfe :: List.replicate 31 0xff

/-- Whether an encoded point has negative sign. -/
def isNegative (encoded : Block 32) : Bool := encoded.bytes.getLast?.any (128 ≤ ·)

/-- The scalar and the encoded point of positive sign that a private key signs for. -/
def signingKey (privateKey : Block 32) : Nat × Block 32 :=
  let k := ofLittle privateKey.bytes % G.order
  let point := G.encode (G.mul k G.base)
  (if isNegative point then (G.order - k) % G.order else k, point.modify 31 (· &&& 127))

/-- The signature of a message, made with 64 random bytes. -/
def sign (privateKey : Block 32) (message : Bytes) (random : Block 64) : Block 64 :=
  let (a, point) := G.signingKey privateKey
  let r := G.scalarOf (noncePrefix ++ toLittle 32 a ++ message ++ random.bytes)
  let nonce := G.encode (G.mul r G.base)
  let h := G.scalarOf (nonce.bytes ++ point.bytes ++ message)
  nonce.append (littleBlock 32 ((r + h * a) % G.order))

/-- Accept a signature of a message under a public key, or say what is wrong with it. -/
def checkSignature (publicKey : Block 32) (message signature : Bytes) :
    Except SignatureFault Unit :=
  if signature.length ≠ 64 then .error (.badLength signature.length)
  else
    let nonce := signature.take 32
    let s := ofLittle (signature.drop 32)
    if scalarBound ≤ s then .error .excessBits
    else
      match G.ofPublic? publicKey with
      | none => .error .offCurve
      | some point =>
        let h := G.scalarOf (nonce ++ (G.encode point).bytes ++ message)
        let expected := G.add (G.mul (s % G.order) G.base) (G.mul h (G.neg point))
        if (G.encode expected).bytes = nonce then .ok () else .error .mismatch

end SigningGroup

end DoubleRatchet
