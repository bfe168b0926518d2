/-
DoubleRatchet/Error.lean

What can go wrong.  Every constructor is a cause; the wording is in the functions
`text`, one for each family, and nowhere else.

`Error.invalidMessage` is set apart from the rest because it decides the search
through the sessions of a peer: a session that finds a message invalid passes it
on to the next one, and any other error ends the search.
-/
import DoubleRatchet.Address
import DoubleRatchet.Cipher.Cbc
import DoubleRatchet.Curve.Signature
import DoubleRatchet.Format
import DoubleRatchet.Key
import DoubleRatchet.Wire.Fields

namespace DoubleRatchet

/-- The reason in words. -/
def KeyFault.text : KeyFault → String
  | missing => "No key type identifier"
  | badType type => "Bad key type: " ++ toString type
  | tooShort length => "Bad public key length: " ++ toString length

/-- The reason in words. -/
def CipherFault.text : CipherFault → String
  | badLength length =>
    "Ciphertext length " ++ toString length ++ " is not a positive multiple of the block size"
  | badPadding => "Unpad Error"

/-- The reason in words. -/
def SignatureFault.text : SignatureFault → String
  | badLength length => "Invalid signature length: " ++ toString length
  | excessBits => "Signature scalar has excess bits"
  | offCurve => "Public key is not on the curve"
  | mismatch => "Signature does not match public key and message"

/-- What a primitive refuses. -/
inductive CryptoFault where
  /-- There are no random bytes to sign with. -/
  | noSigningEntropy
  | badSignature (fault : SignatureFault)
  | undecryptable (fault : CipherFault)
  /-- More bytes are asked of one derivation than it can give. -/
  | derivationTooLong
  /-- A cipher key or a starting block has the wrong length. -/
  | badCipherKey
  | badRecord (fault : RecordFault)
  deriving DecidableEq

/-- The fault in words. -/
def CryptoFault.text : CryptoFault → String
  | noSigningEntropy => "Signing failed: random source failed"
  | badSignature fault => "Signature verification failed: " ++ fault.text
  | undecryptable fault => "Decryption failed: " ++ fault.text
  | derivationTooLong => "Key derivation failed: invalid number of blocks, too large output"
  | badCipherKey => "Invalid input: Bad AES key or IV: Invalid Length"
  | badRecord fault => "Deserialization error: Deserialization failed: " ++ fault.text

/-- The kind of the fault. -/
def CryptoFault.kind : CryptoFault → String
  | noSigningEntropy => "SigningError"
  | badSignature _ => "SignatureVerificationError"
  | undecryptable _ => "DecryptionError"
  | derivationTooLong => "KeyDerivationError"
  | badCipherKey => "InvalidInputError"
  | badRecord _ => "DeserializationError"

/-- Why a key number leads to no key. -/
inductive KeyIdFault where
  | noPreKey (id : UInt32)
  | noSignedPreKey (id : UInt32)
  /-- A group record holds no chain. -/
  | noChain
  /-- A group record holds no chain with this number. -/
  | noChainFor (id : UInt32)
  deriving DecidableEq

/-- The reason in words. -/
def KeyIdFault.text : KeyIdFault → String
  | noPreKey id => "No such prekey record: " ++ toString id
  | noSignedPreKey id => "No such signed prekey record: " ++ toString id
  | noChain => "No key state in record!"
  | noChainFor id => "No keys for: " ++ toString id

/-- Why a message, or a session for it, cannot be used. -/
inductive MessageFault where
  | empty
  | incomplete
  | unknownVersion (version : UInt8)
  | unknownType (tag : UInt8)
  | malformed (fault : WireFault)
  | badChainKeyLength (length : Nat)
  | badMac
  | badGroupSignature
  | noLocalIdentity
  | noRemoteIdentity
  | noRootKey
  /-- A session that has no chain to send on. -/
  | uninitialized
  | noReceiverChain
  | chainOverflow
  | groupChainOverflow
  | otherVersion (message session : UInt8)
  /-- The message is further ahead of its chain than `limit`. -/
  | tooFarAhead (limit : Nat)
  | undecryptable (fault : CipherFault)
  /-- The group chain that a message names is not known. -/
  | noGroupChain (fault : KeyIdFault)
  /-- No session could decrypt; one reason for each, in the order in which they were tried. -/
  | noSession (reasons : List String)
  | unknownDerivation (version : UInt8)
  deriving DecidableEq

/-- The reason in words. -/
def MessageFault.text : MessageFault → String
  | empty => "Empty message"
  | incomplete => "Incomplete message."
  | unknownVersion version => "Unknown version: " ++ toString version
  | unknownType tag => "Unknown message type: " ++ toString tag
  | malformed fault => fault.text
  | badChainKeyLength length => "Bad chain key length: " ++ toString length
  | badMac => "Bad Mac!"
  | badGroupSignature => "Invalid signature!"
  | noLocalIdentity => "No local identity key"
  | noRemoteIdentity => "No remote identity key"
  | noRootKey => "No root key"
  | uninitialized => "Uninitialized session!"
  | noReceiverChain => "No receiver chain for key"
  | chainOverflow => "Chain index overflow"
  | groupChainOverflow => "Sender chain overflow"
  | otherVersion message session =>
    "Message version " ++ toString message ++ ", but session version " ++ toString session
  | tooFarAhead limit => "Over " ++ toString limit ++ " messages into the future!"
  | undecryptable fault => "Decryption failed: " ++ fault.text
  | noGroupChain fault => "Invalid key id: " ++ fault.text
  | noSession reasons => "No valid sessions: [" ++ "; ".intercalate reasons ++ "]"
  | unknownDerivation version => "Unknown HKDF version: " ++ toString version

/-- Why an operation failed. -/
inductive Error where
  | invalidKey (fault : KeyFault)
  /-- A bundle names a one-time pre-key without giving it, or gives one without a name. -/
  | unpairedPreKey
  /-- The newest chain of a group sender is not one that we can sign for. -/
  | noSigningKey (sender : GroupSender)
  | invalidKeyId (fault : KeyIdFault)
  /-- The signed pre-key of a bundle is not signed by the identity of the bundle. -/
  | badBundleSignature
  /-- The identity is not the one that is trusted for the peer of this name. -/
  | untrustedIdentity (name : String) (key : PublicKey)
  | invalidMessage (fault : MessageFault)
  | legacyMessage (version : UInt8)
  /-- The key for this counter is gone; the chain has moved on to `index`. -/
  | duplicateMessage (index counter : UInt32)
  | noSession (peer : Address)
  | noSenderKey (sender : GroupSender)
  | legacyDerivation (version : UInt8)
  /-- The lock is held for an update by the same thread. -/
  | reentrantUpdate (lock : LockName)
  /-- A store, or the application, reports a failure in its own words. -/
  | storage (reason : String)
  | crypto (fault : CryptoFault)
  /-- There are no random bytes to make a key from. -/
  | noEntropy
  deriving DecidableEq

namespace Error

/-- The error in words. -/
def text : Error → String
  | invalidKey fault => "Invalid key: " ++ fault.text
  | unpairedPreKey => "Invalid key: One-time prekey id and public key must be given together"
  | noSigningKey sender => "Invalid key: No signing key for: " ++ sender.text
  | invalidKeyId fault => "Invalid key id: " ++ fault.text
  | badBundleSignature => "Invalid signature: Invalid signature on device key!"
  | untrustedIdentity name _ => "Untrusted identity key for " ++ name
  | invalidMessage fault => "Invalid message: " ++ fault.text
  | legacyMessage version =>
    "Legacy message version " ++ toString version ++ " is no longer supported"
  | duplicateMessage index counter =>
    "Received message with old counter: " ++ toString index ++ ", " ++ toString counter
  | noSession peer => "No session: No session for: " ++ peer.text
  | noSenderKey sender => "No session: No sender key for: " ++ sender.text
  | legacyDerivation version => "Not implemented: HKDF for legacy version " ++ toString version
  | reentrantUpdate lock => "Already updating " ++ lock.text ++ " on this thread"
  | storage reason => "Storage error: " ++ reason
  | crypto fault => fault.text
  | noEntropy => "The random source failed"

/-- The kind of the error, by which a caller can tell what to do about it. -/
def kind : Error → String
  | invalidKey _ | unpairedPreKey | noSigningKey _ => "InvalidKey"
  | invalidKeyId _ => "InvalidKeyId"
  | badBundleSignature => "InvalidSignature"
  | untrustedIdentity .. => "UntrustedIdentity"
  | invalidMessage _ => "InvalidMessage"
  | legacyMessage _ => "LegacyMessage"
  | duplicateMessage .. => "DuplicateMessage"
  | noSession _ | noSenderKey _ => "NoSession"
  | legacyDerivation _ => "NotImplemented"
  | reentrantUpdate _ => "ReentrantUpdate"
  | storage _ => "Storage"
  | crypto fault => "Crypto." ++ fault.kind
  | noEntropy => "NoEntropy"

/-- Whether the error is the expected answer to a message that was delivered before. -/
def isDuplicate : Error → Bool
  | duplicateMessage .. => true
  | _ => false

end Error

/-- The error that a message, or a session for it, cannot be used. -/
def invalid {α : Type} (fault : MessageFault) : Except Error α := .error (.invalidMessage fault)

/-- The record that some bytes start with. -/
def Format.load {α : Type} (f : Format α) (bs : Bytes) : Except Error α :=
  match f.decode bs with
  | .ok a => .ok a
  | .error fault => .error (.crypto (.badRecord fault))

/-- A value that has to be there. -/
def needed {α : Type} (fault : MessageFault) : Option α → Except Error α
  | some a => .ok a
  | none => invalid fault

/-- A transmitted key, or the error that it is none. -/
def PublicKey.read (bs : Bytes) : Except Error PublicKey :=
  match PublicKey.parse bs with
  | .ok k => .ok k
  | .error fault => .error (.invalidKey fault)

end DoubleRatchet
