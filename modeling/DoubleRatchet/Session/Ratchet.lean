/-
DoubleRatchet/Session/Ratchet.lean

Encrypting and decrypting within the sessions of a record.

A message is encrypted with the next keys of the sender chain.  A message that
announces a ratchet key that we do not know turns the ratchet: a receiver chain for
that key, and a new sender chain with a new ratchet key of our own.

Decrypting works on a copy: nothing of a failed attempt is kept but the random bytes
it has drawn.  A message is offered to the current session and then to the earlier
ones, newest first; the first one that decrypts it becomes the current one.  A
session that finds a message invalid passes it on, any other failure is final.
-/
import DoubleRatchet.Message
import DoubleRatchet.Session.Handshake
import DoubleRatchet.Session.Record

namespace DoubleRatchet

section
variable (S : Suite)

namespace SessionState

/-! ### Encrypting -/

/-- The session once the next number of its sender chain is used up. -/
def advanceSender (st : SessionState) : Except Error SessionState := do
  let chain ← needed .uninitialized st.senderChain
  st.setSenderChainKey (← chain.chainKey.next S)

/-- Encrypt with the next keys of the sender chain. -/
def encrypt (st : SessionState) (plain : Bytes) : Except Error (Message × SessionState) := do
  let (remote, own) ← st.identities
  let chain ← needed .uninitialized st.senderChain
  let keys := chain.chainKey.messageKeys S
  let message := RatchetMessage.make S st.version keys.macKey.bytes chain.ratchetKey.publicKey
    chain.chainKey.index st.previousCounter (S.encrypt keys.cipherKey keys.iv plain) own remote
  return (wrap own message, ← st.advanceSender S)
where
  /-- A message goes in a pre-key message until the peer has answered. -/
  wrap (own : PublicKey) (message : RatchetMessage) : Message :=
    match st.pending with
    | none => .ratchet message
    | some pending => .preKey (.make st.version st.localRegistrationId pending.preKeyId
        pending.signedPreKeyId pending.baseKey own message)

/-! ### Decrypting -/

/-- Turn the ratchet for a new ratchet key of theirs, with a new one of ours. -/
def turnWith (st : SessionState) (root : RootKey) (chain : SenderChain) (theirs : PublicKey)
    (ours : KeyPair) : SessionState :=
  let (root, theirChain) := root.turn S theirs chain.ratchetKey.privateKey
  let (root, ourChain) := root.turn S theirs ours.privateKey
  let st := st.addReceiver theirs theirChain
  { st with
    rootKey := some root
    previousCounter := if chain.chainKey.index = 0 then 0 else chain.chainKey.index - 1
    senderChain := some ⟨ours, ourChain⟩ }

/-- Turn the ratchet, if there is no receiver chain for a ratchet key yet. -/
def reach (st : SessionState) (theirs : PublicKey) : Draw SessionState :=
  match st.window? theirs with
  | some _ => return st
  | none => do
    let root ← needed .noRootKey st.rootKey
    let chain ← needed .uninitialized st.senderChain
    return st.turnWith S root chain theirs (← S.drawKeyPair)

/-- The plaintext of a message under the keys that it was made with. -/
def openWith (st : SessionState) (m : RatchetMessage) (keys : MessageKeys) :
    Except Error Bytes := do
  let (remote, own) ← st.identities
  m.checkTag S remote own keys.macKey.bytes
  match S.decrypt keys.cipherKey keys.iv m.body with
  | .ok plain => return plain
  | .error fault => invalid (.undecryptable fault)

/-- Decrypt with the receiver chain that the message names.  The keys are only looked at until the
message has turned out to be genuine. -/
def decryptOn (st : SessionState) (m : RatchetMessage) : Except Error (Bytes × SessionState) := do
  let window ← needed .noReceiverChain (st.window? m.ratchetKey)
  let plain ← st.openWith S m (← window.peek (ChainKey.rule S) m.counter)
  let (_, window) ← window.take (ChainKey.rule S) m.counter
  return (plain, { st.setWindow m.ratchetKey window with pending := none })

/-- Looking first makes no difference to the result. -/
theorem decryptOn_eq_take (st : SessionState) (m : RatchetMessage) :
    st.decryptOn S m = do
      let window ← needed .noReceiverChain (st.window? m.ratchetKey)
      let (keys, window) ← window.take (ChainKey.rule S) m.counter
      let plain ← st.openWith S m keys
      return (plain, { st.setWindow m.ratchetKey window with pending := none }) := by
  unfold decryptOn
  cases needed .noReceiverChain (st.window? m.ratchetKey) with
  | error e => rfl
  | ok window =>
    simp only [bind, Except.bind, Window.peek_eq_take]
    cases window.take (ChainKey.rule S) m.counter with
    | error e => rfl
    | ok taken => rfl

/-- Decrypt in one session; the peer has answered then. -/
def decrypt (st : SessionState) (m : RatchetMessage) : Draw (Bytes × SessionState) := do
  if st.senderChain.isNone then throw (.invalidMessage .uninitialized)
  if m.version ≠ st.version then throw (.invalidMessage (.otherVersion m.version st.version))
  let st ← st.reach S m.ratchetKey
  st.decryptOn S m

end SessionState

/-! ### All sessions of a record -/

/-- Offer a message to sessions one after another.  The answer is the position of the one that
decrypts it, the plaintext and that session afterwards; `reasons` are those of the sessions before. -/
def offer (m : RatchetMessage) (reasons : List String) (position : Nat) :
    List SessionState → Draw (Nat × Bytes × SessionState)
  | [] => throw (.invalidMessage (.noSession reasons))
  | st :: rest => do
    match ← Draw.attempt (st.decrypt S m) with
    | .ok (plain, st) => return (position, plain, st)
    | .error (.invalidMessage fault) => offer m (reasons ++ [fault.text]) (position + 1) rest
    | .error e => throw e

/-- Decrypt in the current session or in an earlier one, which then becomes the current one. -/
def SessionRecord.decrypt (r : SessionRecord) (m : RatchetMessage) :
    Draw (Bytes × SessionRecord) := do
  match ← offer S m [] 0 (r.current :: r.archive) with
  | (0, plain, st) => return (plain, { r with current := st })
  | (i + 1, plain, st) => return (plain, { r with archive := r.archive.eraseIdx i }.promote st)

end

end DoubleRatchet
