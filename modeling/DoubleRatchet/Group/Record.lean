/-
DoubleRatchet/Group/Record.lean

The chains of one group sender, newest first.  The sender itself has one chain, with
the private key that signs its messages; the members have the chains that they were
told of, without that key, and keep a few of them because messages of an earlier
chain may still be on the way.
-/
import DoubleRatchet.Entropy
import DoubleRatchet.Group.Chain
import DoubleRatchet.Message.Group

namespace DoubleRatchet

/-- One chain of a group sender. -/
structure GroupChain where
  keyId : UInt32
  window : Window GroupChainKey GroupMessageKey
  signingKey : PublicKey
  /-- Only the sender itself has it. -/
  signingSecret : Option PrivateKey
  deriving DecidableEq

/-- The chains of a group sender, newest first. -/
structure GroupRecord where
  chains : List GroupChain := []
  deriving DecidableEq

/-- The start of a chain, as it is told to the members. -/
def GroupChain.announcement (c : GroupChain) : ChainAnnouncement :=
  .make c.keyId c.window.chain.iteration c.window.chain.key c.signingKey

namespace GroupRecord

/-- The record of a sender that nothing is known of. -/
def empty : GroupRecord := {}

/-- Whether nothing is known of the sender. -/
def isEmpty (r : GroupRecord) : Bool := r.chains.isEmpty

/-- The newest chain. -/
def newest (r : GroupRecord) : Except KeyIdFault GroupChain :=
  match r.chains with
  | [] => .error .noChain
  | c :: _ => .ok c

/-- The newest chain with a number. -/
def chain (r : GroupRecord) (keyId : UInt32) : Except KeyIdFault GroupChain :=
  match r.chains.find? (·.keyId == keyId) with
  | none => .error (.noChainFor keyId)
  | some c => .ok c

/-- Put another chain in the place of the newest one. -/
def setNewest (r : GroupRecord) (c : GroupChain) : GroupRecord := ⟨c :: r.chains.tail⟩

/-- Put another chain in the place of the newest one with a number. -/
def setChain (r : GroupRecord) (keyId : UInt32) (c : GroupChain) : GroupRecord :=
  ⟨changeFirst (·.keyId == keyId) (fun _ => c) r.chains⟩

/-- Learn of a chain; when there are too many, the oldest ones go. -/
def add (r : GroupRecord) (keyId iteration : UInt32) (key : Block 32) (signingKey : PublicKey) :
    GroupRecord :=
  ⟨(⟨keyId, ⟨⟨iteration, key⟩, []⟩, signingKey, none⟩ :: r.chains).take limits.groupChains⟩

/-- The record of a sender with one chain of its own. -/
def own (keyId iteration : UInt32) (key : Block 32) (signingKey : KeyPair) : GroupRecord :=
  ⟨[⟨keyId, ⟨⟨iteration, key⟩, []⟩, signingKey.publicKey, some signingKey.privateKey⟩]⟩

end GroupRecord

/-! ### Messages -/

section
variable (S : Suite)

/-- Encrypt with the next key of the newest chain. -/
def GroupRecord.encrypt (r : GroupRecord) (sender : GroupSender) (plain : Bytes) :
    Draw (GroupMessage × GroupRecord) :=
  match r.chains with
  | [] => throw (.noSenderKey sender)
  | c :: older => do
    let key := c.window.chain.messageKey S
    match c.signingSecret with
    | none => throw (.noSigningKey sender)
    | some secret =>
      let message ← GroupMessage.make S c.keyId key.iteration
        (S.encrypt key.cipherKey key.iv plain) secret
      let next ← c.window.chain.next S
      return (message, ⟨{ c with window := { c.window with chain := next } } :: older⟩)

/-- Decrypt with the chain that the message names, if its signature holds. -/
def GroupRecord.decrypt (r : GroupRecord) (m : GroupMessage) :
    Except Error (Bytes × GroupRecord) := do
  match r.chain m.keyId with
  | .error fault => invalid (.noGroupChain fault)
  | .ok c =>
    m.checkSignature S c.signingKey
    let (key, window) ← c.window.take (GroupChainKey.rule S) m.iteration
    match S.decrypt key.cipherKey key.iv m.ciphertext with
    | .ok plain => return (plain, r.setChain m.keyId { c with window })
    | .error fault => invalid (.undecryptable fault)

end

end DoubleRatchet
