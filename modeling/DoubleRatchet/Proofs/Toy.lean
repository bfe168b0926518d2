/-
DoubleRatchet/Proofs/Toy.lean

A suite to compute with, and two devices that use it.

The toy suite keeps nothing secret, but it has the algebra of a real one: agreement is
multiplication in a field, so it commutes, and decryption inverts encryption.  A run
over it takes no time to evaluate, which is what statements about particular runs need.
-/
import DoubleRatchet.Proofs.Runs

namespace DoubleRatchet

/-! ### The suite -/

namespace Toy

/-- The order of the field: 19 less than the 255th power of 2. -/
def prime : Nat := 0x7fffffffffffffffffffffffffffffffffffffffffffffffffffffffffffffed

/-- A tag that takes every byte into account. -/
def mac (key message : Bytes) : Block 32 :=
  littleBlock 32 ((key ++ message).foldl (fun h b => (h * 0x10000000000000000000000000000013b + b.toNat + 1)
    % 0x10000000000000000000000000000000000000000000000000000000000000000) key.length)

/-- Multiplication in a field for agreement, and nothing at all for the cipher. -/
def suite : Suite where
  privateKey k := k
  publicKey k := littleBlock 32 (ofLittle k.bytes * 9 % prime)
  agree a b := littleBlock 32 (ofLittle a.bytes * ofLittle b.bytes % prime)
  sign _ _ random := random
  verify _ _ _ := true
  mac := mac
  encrypt _ _ plain := plain
  decrypt _ _ cipher := .ok cipher

theorem ofLittle_littleBlock {n : Nat} (h : n < prime) : ofLittle (littleBlock 32 n).bytes = n := by
  show ofLittle (toLittle 32 n) = n
  rw [ofLittle_toLittle]
  exact Nat.mod_eq_of_lt (Nat.lt_trans h (by decide))

/-- Agreement commutes. -/
theorem agreement_comm (a b : PrivateKey) :
    suite.agreement a (suite.keyPair b).publicKey = suite.agreement b (suite.keyPair a).publicKey := by
  have positive : 0 < prime := by decide
  show littleBlock 32 (ofLittle a.raw.bytes * ofLittle (littleBlock 32 (ofLittle b.raw.bytes * 9 % prime)).bytes % prime)
    = littleBlock 32 (ofLittle b.raw.bytes * ofLittle (littleBlock 32 (ofLittle a.raw.bytes * 9 % prime)).bytes % prime)
  rw [ofLittle_littleBlock (Nat.mod_lt _ positive), ofLittle_littleBlock (Nat.mod_lt _ positive)]
  rw [Nat.mul_mod_mod, Nat.mul_mod_mod, Nat.mul_left_comm]

/-- Decryption inverts encryption. -/
theorem decrypt_encrypt (key : Block 32) (iv : Block 16) (plain : Bytes) :
    suite.decrypt key iv (suite.encrypt key iv plain) = .ok plain := rfl

/-! ### Two devices -/

/-- The key pair with a private key of one byte repeated. -/
def keyPair (b : UInt8) : KeyPair := suite.keyPair ⟨.replicate 32 b⟩

/-- The peer. -/
def alice : Address := ⟨"alice", 1⟩

/-- A device with a signed pre-key and a one-time pre-key, and no session. -/
def bob : Site where
  store := {
    identity := keyPair 1
    registrationId := 1
    preKeys := (∅ : Std.ExtTreeMap UInt32 PreKey).insert 7 ⟨7, keyPair 3⟩
    signedPreKeys := (∅ : Std.ExtTreeMap UInt32 SignedPreKey).insert 9 ⟨9, 0, keyPair 2, []⟩ }
  entropy := { stream := fun n => UInt8.ofNat n }

/-- What the peer gets to see of the device; the one-time pre-key may be left out. -/
def bundle (preKey : Option (UInt32 × PublicKey)) : PreKeyBundle where
  registrationId := 1
  device := 1
  preKey
  signedPreKeyId := 9
  signedPreKey := (keyPair 2).publicKey
  signature := []
  identity := (keyPair 1).publicKey

/-- The session that the peer sets up from the bundle. -/
def session : SessionState :=
  Store.greet suite { identity := keyPair 4, registrationId := 2 } (bundle none) .empty (keyPair 5)
    (keyPair 6)

/-- The first `n` messages of a session, each with the number of those after it for a plaintext. -/
def letters (st : SessionState) : (n : Nat) → List PreKeyMessage
  | 0 => []
  | n + 1 => match st.encrypt suite [UInt8.ofNat n] with
    | .ok (.preKey m, st) => m :: letters st n
    | _ => []

/-- The first message of the peer. -/
def first : PreKeyMessage := (letters session 2).get ⟨0, by decide +kernel⟩

/-- The second message of the peer, sent before it has had an answer. -/
def second : PreKeyMessage := (letters session 2).get ⟨1, by decide +kernel⟩

/-- A message in another envelope, which anyone can put it in. -/
def rewrap (m : PreKeyMessage) (preKeyId : Option UInt32) (baseKey identity : PublicKey) :
    PreKeyMessage :=
  .make m.version m.registrationId preKeyId m.signedPreKeyId baseKey identity m.message

/-- The same message with a base key that is written in another way: the field has fewer elements
than there are ways to write one down. -/
def rewritten (m : PreKeyMessage) : PreKeyMessage :=
  rewrap m m.preKeyId ⟨littleBlock 32 (ofLittle m.baseKey.raw.bytes + prime)⟩ m.identity

/-- The first message on a new chain of the peer, whatever ratchet key it chooses, for a session of
the device. -/
def answer (st : SessionState) (ratchetKey : KeyPair) (plain : Bytes) : Option RatchetMessage := do
  let root ← st.rootKey
  let chain ← st.senderChain
  let remote ← st.localIdentity
  let own ← st.remoteIdentity
  let new := (root.turn suite chain.ratchetKey.publicKey ratchetKey.privateKey).2
  return st.sealed suite remote own ⟨ratchetKey, new⟩ plain

/-- The calls of a device whose peer goes from one ratchet key to the next with every message. -/
def turns (s : Site) : List KeyPair → List (Call × App)
  | [] => []
  | key :: keys => match answer (s.store.loadSession alice).current key [] with
    | none => []
    | some m =>
      (.decrypt m, accepting) :: turns ((Call.decrypt m).run suite alice accepting s).2 keys

end Toy

end DoubleRatchet
