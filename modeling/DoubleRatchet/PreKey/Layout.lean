/-
DoubleRatchet/PreKey/Layout.lean

How pre-keys are laid out in a store.
-/
import DoubleRatchet.Key.Layout
import DoubleRatchet.PreKey

namespace DoubleRatchet

open Format

/-- The number comes before the keys. -/
def PreKey.format : Format PreKey :=
  (pair u32 KeyPair.format).via (fun (id, keyPair) => ⟨id, keyPair⟩) fun k => (k.id, k.keyPair)

/-- The number, the time, the keys and the signature. -/
def SignedPreKey.format : Format SignedPreKey :=
  (pair u32 (pair i64 (pair KeyPair.format bytes))).via
    (fun (id, timestamp, keyPair, signature) => ⟨id, timestamp, keyPair, signature⟩)
    fun k => (k.id, k.timestamp, k.keyPair, k.signature)

end DoubleRatchet
