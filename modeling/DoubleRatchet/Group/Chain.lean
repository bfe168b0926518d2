/-
DoubleRatchet/Group/Chain.lean

The keys of a group sender.  There is one chain and no root, because nobody answers a
sender: every message has the next key of the chain, and members who are told a chain
key can follow it from there on, but not back.
-/
import DoubleRatchet.Suite
import DoubleRatchet.Window

namespace DoubleRatchet

/-- A chain key of a group sender and the number of the message that it is for. -/
structure GroupChainKey where
  iteration : UInt32
  key : Block 32
  deriving DecidableEq

/-- The keys of one message to a group. -/
structure GroupMessageKey where
  iteration : UInt32
  iv : Block 16
  cipherKey : Block 32
  /-- What the other two come from. -/
  seed : Block 32
  deriving DecidableEq

/-- The keys that come from a seed. -/
def GroupMessageKey.ofSeed (S : Suite) (iteration : UInt32) (seed : Block 32) : GroupMessageKey :=
  let d := S.derive none seed.bytes (utf8 "WhisperGroup") 48
  ⟨iteration, d.slice 0 16, d.slice 16 32, seed⟩

namespace GroupChainKey

variable (S : Suite)

/-- The key for the next message; fails after the last number. -/
def next (c : GroupChainKey) : Except Error GroupChainKey :=
  if c.iteration = 0xffffffff then invalid .groupChainOverflow
  else .ok ⟨c.iteration + 1, S.mac c.key.bytes [2]⟩

/-- The keys of the message that the chain key is for. -/
def messageKey (c : GroupChainKey) : GroupMessageKey := .ofSeed S c.iteration (S.mac c.key.bytes [1])

/-- Group chains as chains of a window. -/
def rule : ChainRule GroupChainKey GroupMessageKey where
  index := iteration
  next := next S
  key := messageKey S
  number := GroupMessageKey.iteration

end GroupChainKey

/-! ### Written form -/

/-- The number of a chain key, and nothing about the key. -/
def GroupChainKey.text (c : GroupChainKey) : String :=
  "SenderChainKey \x7b iteration: " ++ toString c.iteration ++ ", .. \x7d"

/-- The number of message keys, and nothing about the keys. -/
def GroupMessageKey.text (k : GroupMessageKey) : String :=
  "SenderMessageKey \x7b iteration: " ++ toString k.iteration ++ ", .. \x7d"

end DoubleRatchet
