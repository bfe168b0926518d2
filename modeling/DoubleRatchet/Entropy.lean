/-
DoubleRatchet/Entropy.lean

Random bytes as a value.  An `Entropy` is an endless stream of bytes and a place in
it; drawing bytes gives the source as it is afterwards, so what a computation draws
is part of what it returns.  A source can be dead, and then every draw fails.

`Draw α` is a computation that may draw and may fail; what it has drawn before it
fails stays drawn.
-/
import DoubleRatchet.Suite

namespace DoubleRatchet

/-- A stream of random bytes, read from `position` on. -/
structure Entropy where
  stream : Nat → UInt8
  position : Nat := 0
  dead : Bool := false

/-- A computation that draws random bytes and may fail. -/
abbrev Draw (α : Type) := ExceptT Error (StateM Entropy) α

namespace Entropy

/-- The stream of a seed: the digests of the seed with the numbers from 0 on, one after another. -/
def ofSeed (seed : String) : Entropy where
  stream n := (sha256 (utf8 (seed ++ "/" ++ toString (n / 32)))).bytes.getD (n % 32) 0

/-- The next `n` bytes. -/
def peek (e : Entropy) (n : Nat) : Block n := .ofFn fun i => e.stream (e.position + i)

/-- The source after `n` bytes have been drawn. -/
def advance (e : Entropy) (n : Nat) : Entropy := { e with position := e.position + n }

end Entropy

namespace Draw

/-- Draw `n` bytes. -/
def block (n : Nat) : Draw (Block n) := do
  let e ← get
  if e.dead then throw .noEntropy
  set (e.advance n)
  return e.peek n

/-- Draw a number. -/
def number : Draw UInt32 := do
  return UInt32.ofNat (ofLittle (← block 4).bytes)

/-- The outcome of a computation as a value. -/
def attempt {α : Type} (x : Draw α) : Draw (Except Error α) := fun e =>
  let (outcome, e) := x e
  (.ok outcome, e)

end Draw

namespace Suite

variable (S : Suite)

/-- Make a private key. -/
def drawPrivateKey : Draw PrivateKey := do
  return ⟨S.privateKey (← Draw.block 32)⟩

/-- Make a key pair. -/
def drawKeyPair : Draw KeyPair := do
  return S.keyPair (← S.drawPrivateKey)

/-- Sign a message; a dead source is reported as a failure to sign. -/
def drawSignature (k : PrivateKey) (message : Bytes) : Draw (Block 64) := do
  if (← get).dead then throw (.crypto .noSigningEntropy)
  return S.sign k.raw message (← Draw.block 64)

end Suite

end DoubleRatchet
