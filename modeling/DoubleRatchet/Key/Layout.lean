/-
DoubleRatchet/Key/Layout.lean

How keys are laid out in a store: as their bytes, without a type byte.
-/
import DoubleRatchet.Format
import DoubleRatchet.Key

namespace DoubleRatchet

open Format

/-- A public key is its 32 bytes. -/
def PublicKey.format : Format PublicKey := (block 32).via .mk (·.raw)

/-- A private key is its 32 bytes. -/
def PrivateKey.format : Format PrivateKey := (block 32).via .mk (·.raw)

/-- The public key comes first. -/
def KeyPair.format : Format KeyPair :=
  (pair PublicKey.format PrivateKey.format).via (fun (p, s) => ⟨p, s⟩)
    fun k => (k.publicKey, k.privateKey)

end DoubleRatchet
