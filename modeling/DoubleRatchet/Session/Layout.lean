/-
DoubleRatchet/Session/Layout.lean

How session records, and the keys in them, are laid out in a store.
-/
import DoubleRatchet.Key.Layout
import DoubleRatchet.Session.Record

namespace DoubleRatchet

open Format

/-- A root key is its 32 bytes. -/
def RootKey.format : Format RootKey := (block 32).via .mk (·.key)

/-- A chain key comes before its number. -/
def ChainKey.format : Format ChainKey :=
  (pair (block 32) u32).via (fun (key, index) => ⟨key, index⟩) fun c => (c.key, c.index)

/-- Message keys: for the cipher, for the tag, the starting block, the number. -/
def MessageKeys.format : Format MessageKeys :=
  (pair (block 32) (pair (block 32) (pair (block 16) u32))).via
    (fun (cipherKey, macKey, iv, counter) => ⟨cipherKey, macKey, iv, counter⟩)
    fun k => (k.cipherKey, k.macKey, k.iv, k.counter)

/-- A chain comes before the keys that were skipped. -/
def Window.format {C K : Type} (chain : Format C) (key : Format K) : Format (Window C K) :=
  (pair chain (list key)).via (fun (chain, skipped) => ⟨chain, skipped⟩)
    fun w => (w.chain, w.skipped)

/-- The ratchet key comes before the chain key. -/
def SenderChain.format : Format SenderChain :=
  (pair KeyPair.format ChainKey.format).via (fun (ratchetKey, chainKey) => ⟨ratchetKey, chainKey⟩)
    fun c => (c.ratchetKey, c.chainKey)

/-- The ratchet key comes before the window. -/
def ReceiverChain.format : Format ReceiverChain :=
  (pair PublicKey.format (Window.format ChainKey.format MessageKeys.format)).via
    (fun (ratchetKey, window) => ⟨ratchetKey, window⟩) fun c => (c.ratchetKey, c.window)

/-- The numbers of the pre-keys come before the base key. -/
def PendingPreKey.format : Format PendingPreKey :=
  (pair (option u32) (pair u32 PublicKey.format)).via
    (fun (preKeyId, signedPreKeyId, baseKey) => ⟨preKeyId, signedPreKeyId, baseKey⟩)
    fun p => (p.preKeyId, p.signedPreKeyId, p.baseKey)

/-- A session, part by part. -/
def SessionState.format : Format SessionState :=
  (pair u8 (pair (option PublicKey.format) (pair (option PublicKey.format)
    (pair (option RootKey.format) (pair u32 (pair (option SenderChain.format)
    (pair (list ReceiverChain.format) (pair (option PendingPreKey.format)
    (pair u32 (pair u32 (option bytes))))))))))).via
    (fun (version, localIdentity, remoteIdentity, rootKey, previousCounter, senderChain,
        receiverChains, pending, localRegistrationId, remoteRegistrationId, baseKey) =>
      { version, localIdentity, remoteIdentity, rootKey, previousCounter, senderChain,
        receiverChains, pending, localRegistrationId, remoteRegistrationId, baseKey })
    fun st => (st.version, st.localIdentity, st.remoteIdentity, st.rootKey, st.previousCounter,
      st.senderChain, st.receiverChains, st.pending, st.localRegistrationId,
      st.remoteRegistrationId, st.baseKey)

/-- The current session comes before the earlier ones; a record that is read is not fresh. -/
def SessionRecord.format : Format SessionRecord :=
  (pair SessionState.format (list SessionState.format)).via
    (fun (current, archive) => { current, archive, fresh := false })
    fun r => (r.current, r.archive)

end DoubleRatchet
