/-
DoubleRatchet/Group/Layout.lean

How the chains of a group sender are laid out in a store.
-/
import DoubleRatchet.Group.Record
import DoubleRatchet.Key.Layout

namespace DoubleRatchet

open Format

/-- A chain key comes after its number. -/
def GroupChainKey.format : Format GroupChainKey :=
  (pair u32 (block 32)).via (fun (iteration, key) => ⟨iteration, key⟩) fun c => (c.iteration, c.key)

/-- Message keys: the number, the starting block, the key for the cipher, the seed. -/
def GroupMessageKey.format : Format GroupMessageKey :=
  (pair u32 (pair (block 16) (pair (block 32) (block 32)))).via
    (fun (iteration, iv, cipherKey, seed) => ⟨iteration, iv, cipherKey, seed⟩)
    fun k => (k.iteration, k.iv, k.cipherKey, k.seed)

/-- The signing keys stand between the chain key and the keys that were skipped. -/
def GroupChain.format : Format GroupChain :=
  (pair u32 (pair GroupChainKey.format (pair PublicKey.format
    (pair (option PrivateKey.format) (list GroupMessageKey.format))))).via
    (fun (keyId, chain, signingKey, signingSecret, skipped) =>
      { keyId, window := ⟨chain, skipped⟩, signingKey, signingSecret })
    fun c => (c.keyId, c.window.chain, c.signingKey, c.signingSecret, c.window.skipped)

/-- The chains, newest first. -/
def GroupRecord.format : Format GroupRecord := (list GroupChain.format).via .mk (·.chains)

end DoubleRatchet
