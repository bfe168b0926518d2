/-
DoubleRatchet/Chain.lean

The keys of a session.  A root key and a shared secret give the next root key and a
new chain; a chain gives the keys of one message after another.

    root ── shared secret ──► root', chain 0
    chain n ──► chain n + 1
    chain n ──► the keys of message n

Every arrow is a keyed hash, so no key tells anything about the ones before it.
-/
import DoubleRatchet.Suite
import DoubleRatchet.Window

namespace DoubleRatchet

/-- The keys of one message. -/
structure MessageKeys where
  cipherKey : Block 32
  macKey : Block 32
  iv : Block 16
  counter : UInt32
  deriving DecidableEq

/-- A chain key and the number of the message that it is for. -/
structure ChainKey where
  key : Block 32
  index : UInt32
  deriving DecidableEq

/-- The key that all chains of a session come from. -/
structure RootKey where
  key : Block 32
  deriving DecidableEq

/-! ### Chains -/

namespace ChainKey

variable (S : Suite)

/-- The key for the next message; fails after the last number. -/
def next (c : ChainKey) : Except Error ChainKey :=
  if c.index = 0xffffffff then invalid .chainOverflow
  else .ok ⟨S.mac c.key.bytes [2], c.index + 1⟩

/-- The keys of the message that the chain key is for. -/
def messageKeys (c : ChainKey) : MessageKeys :=
  let d := S.derive none (S.mac c.key.bytes [1]).bytes (utf8 "WhisperMessageKeys") 80
  ⟨d.slice 0 32, d.slice 32 32, d.slice 64 16, c.index⟩

/-- Session chains as chains of a window. -/
def rule : ChainRule ChainKey MessageKeys where
  index := index
  next := next S
  key := messageKeys S
  number := MessageKeys.counter

end ChainKey

/-! ### Roots -/

/-- A root key and a first chain key from one derivation. -/
def splitRoot (d : Block 64) : RootKey × ChainKey := (⟨d.slice 0 32⟩, ⟨d.slice 32 32, 0⟩)

/-- The next root key and a new chain, from the secret that our ratchet key shares with theirs. -/
def RootKey.turn (S : Suite) (root : RootKey) (theirs : PublicKey) (ours : PrivateKey) :
    RootKey × ChainKey :=
  splitRoot (S.derive (some root.key.bytes) (S.agreement ours theirs).bytes
    (utf8 "WhisperRatchet") 64)

/-! ### Written form -/

/-- The same for every root key. -/
def RootKey.text (_ : RootKey) : String := "RootKey(<redacted>)"

/-- The number of a chain key, and nothing about the key. -/
def ChainKey.text (c : ChainKey) : String :=
  "ChainKey \x7b index: " ++ toString c.index ++ ", .. \x7d"

/-- The number of message keys, and nothing about the keys. -/
def MessageKeys.text (k : MessageKeys) : String :=
  "MessageKeys \x7b counter: " ++ toString k.counter ++ ", .. \x7d"

end DoubleRatchet
