/-
DoubleRatchet/Session/State.lean

What one side knows of a session with a peer.

* The root key, from which the next chains will come.
* The sender chain, on which our own messages are encrypted, with the ratchet key
  pair that they announce.
* Receiver chains, one for each ratchet key of the peer, oldest first.
* The handshake that the peer has to be told of until it answers.

A state starts empty and is filled by a handshake, so most of it is optional; the
base key of the initiator, once there, stays, and tells sessions apart.
-/
import DoubleRatchet.Chain

namespace DoubleRatchet

/-- The chain that we send on. -/
structure SenderChain where
  ratchetKey : KeyPair
  chainKey : ChainKey
  deriving DecidableEq

/-- A chain that we receive on. -/
structure ReceiverChain where
  ratchetKey : PublicKey
  window : Window ChainKey MessageKeys
  deriving DecidableEq

/-- The handshake that goes with every message until the peer answers. -/
structure PendingPreKey where
  preKeyId : Option UInt32
  signedPreKeyId : UInt32
  baseKey : PublicKey
  deriving DecidableEq

/-- What one side knows of a session. -/
structure SessionState where
  version : UInt8 := 0
  localIdentity : Option PublicKey := none
  remoteIdentity : Option PublicKey := none
  rootKey : Option RootKey := none
  /-- The number of the last message of the sender chain before this one. -/
  previousCounter : UInt32 := 0
  senderChain : Option SenderChain := none
  receiverChains : List ReceiverChain := []
  pending : Option PendingPreKey := none
  localRegistrationId : UInt32 := 0
  remoteRegistrationId : UInt32 := 0
  /-- The transmitted base key of the initiator. -/
  baseKey : Option Bytes := none
  deriving DecidableEq

namespace SessionState

/-- The state before a handshake. -/
def empty : SessionState := {}

/-- The remote and the local identity. -/
def identities (st : SessionState) : Except Error (PublicKey × PublicKey) := do
  let remote ← needed .noRemoteIdentity st.remoteIdentity
  let own ← needed .noLocalIdentity st.localIdentity
  return (remote, own)

/-- Name the session after a base key, unless it has a name already. -/
def nameAfter (st : SessionState) (baseKey : Bytes) : SessionState :=
  { st with baseKey := some (st.baseKey.getD baseKey) }

/-- Whether this is the session of a version and a base key. -/
def isFor (st : SessionState) (version : UInt8) (baseKey : Bytes) : Bool :=
  st.version == version && st.baseKey == some baseKey

/-! ### The sender chain -/

/-- The sender chain, with another chain key. -/
def setSenderChainKey (st : SessionState) (chainKey : ChainKey) : Except Error SessionState := do
  let chain ← needed .uninitialized st.senderChain
  return { st with senderChain := some { chain with chainKey } }

/-! ### Receiver chains -/

/-- The window of the receiver chain for a ratchet key. -/
def window? (st : SessionState) (theirs : PublicKey) : Option (Window ChainKey MessageKeys) :=
  (st.receiverChains.find? (·.ratchetKey == theirs)).map (·.window)

/-- Start a receiver chain; when there are too many, the oldest one goes. -/
def addReceiver (st : SessionState) (theirs : PublicKey) (chainKey : ChainKey) : SessionState :=
  { st with
    receiverChains := keepNewest limits.receiverChains st.receiverChains [⟨theirs, ⟨chainKey, []⟩⟩] }

/-- Put another window in the place of the one for a ratchet key. -/
def setWindow (st : SessionState) (theirs : PublicKey) (window : Window ChainKey MessageKeys) :
    SessionState :=
  { st with
    receiverChains :=
      changeFirst (·.ratchetKey == theirs) (fun chain => { chain with window }) st.receiverChains }

/-- Change the window for a ratchet key, which has to be there. -/
def changeWindow (st : SessionState) (theirs : PublicKey)
    (f : Window ChainKey MessageKeys → Window ChainKey MessageKeys) : Except Error SessionState := do
  let window ← needed .noReceiverChain (st.window? theirs)
  return st.setWindow theirs (f window)

end SessionState

end DoubleRatchet
