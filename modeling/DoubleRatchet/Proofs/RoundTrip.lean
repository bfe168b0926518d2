/-
DoubleRatchet/Proofs/RoundTrip.lean

Every message arrives as it was built.

The four kinds of messages have one frame in common, with fields in the middle:

    version byte   body                      tag, signature or nothing
                   field 1  field 2  …
                            ╰─ may be a message itself

Bytes in a field are preceded by their length, so nothing in them is taken for a field,
and what stands behind the body is cut off by its own length.  A field that is left out
stays different from a field that is zero.

So a message that has been built, of any kind and with any content, is read back from its
type tag and its bytes with all that it says, and with the same bytes; whatever checks its
tag or its signature afterwards cannot tell it from the message that was sent
(`received_as_built`).
-/
import DoubleRatchet.Proofs.Bodies
import DoubleRatchet.Proofs.Toy
import Mathlib.Algebra.GroupWithZero.Nat

namespace DoubleRatchet

/-! ### Lengths -/

/-- A byte string that a machine can hold: lengths are signed numbers of 64 bits there. -/
def Holdable (bs : Bytes) : Prop := bs.length < 0x8000000000000000

instance (bs : Bytes) : Decidable (Holdable bs) :=
  inferInstanceAs (Decidable (bs.length < 0x8000000000000000))

theorem Holdable.fits {bs : Bytes} (h : Holdable bs) : bs.length < UInt64.size :=
  Nat.lt_trans h (by decide)

theorem length_varintBytes_le (count n : Nat) : (varintBytes count n).length ≤ count := by
  induction count generalizing n with
  | zero => exact Nat.le_refl _
  | succ count ih =>
    rw [varintBytes]
    split
    · exact Nat.succ_le_succ (Nat.zero_le _)
    · exact Nat.succ_le_succ (ih _)

/-- The bytes of a value, apart from its length. -/
def FieldValue.content : FieldValue → Bytes
  | .number _ => []
  | .bytes bs => bs

/-- What a body has beyond the bytes in its fields is bounded: a key of ten bytes and a number of ten
bytes for each. -/
theorem length_body_le (fields : List (Nat × FieldValue)) :
    (body fields).length ≤ (fields.map fun field => 20 + field.2.content.length).sum := by
  induction fields with
  | nil => exact Nat.le_refl _
  | cons field fields ih =>
    obtain ⟨tag, v⟩ := field
    have key : (writeKey tag v.kind.wire).length ≤ 10 := length_varintBytes_le 10 _
    have value : v.written.length ≤ 10 + v.content.length := by
      cases v with
      | number n => exact length_varintBytes_le 10 _
      | bytes bs =>
        have prefixed : (writeVarint bs.length).length ≤ 10 := length_varintBytes_le 10 _
        simp only [FieldValue.written, FieldValue.content, List.length_append]
        omega
    simp only [body, List.flatMap_cons, List.length_append, List.map_cons, List.sum_cons] at ih ⊢
    omega

/-! ### Messages of a session -/

section
variable {S : Suite}

namespace RatchetMessage

variable {macKey body : Bytes} {ratchetKey sender receiver : PublicKey}
  {counter previousCounter : UInt32}

variable (S) in
/-- A message of a session as a member may have it: it has made it, or read it. -/
inductive Built : RatchetMessage → Prop
  | made (macKey : Bytes) (ratchetKey : PublicKey) (counter previousCounter : UInt32) {body : Bytes}
    (sender receiver : PublicKey) (fits : Holdable body) :
    Built (.make S currentVersion macKey ratchetKey counter previousCounter body sender receiver)
  | read {bs : Bytes} {m : RatchetMessage} (h : parse bs = .ok m) (fits : Holdable bs) : Built m

/-- A message is little longer than its ciphertext. -/
theorem length_bytes_make_le :
    (make S currentVersion macKey ratchetKey counter previousCounter body sender
      receiver).bytes.length ≤ 122 + body.length := by
  have fields := length_body_le (fields ratchetKey counter previousCounter body)
  rw [bytes_make, List.length_append, List.length_cons, length_tag]
  simp only [RatchetMessage.fields, FieldValue.content, List.map_cons, List.map_nil, List.sum_cons,
    List.sum_nil, PublicKey.length_transmitted, List.length_nil, tagLength] at fields ⊢
  omega

/-- A message of a session is read back from its bytes. -/
theorem Built.parse {m : RatchetMessage} (h : m.Built S) : parse m.bytes = .ok m := by
  cases h with
  | made macKey ratchetKey counter previousCounter sender receiver fits =>
    exact parse_eq_ok.mpr ⟨rfl, faithful_make S macKey sender receiver fits.fits⟩
  | read h fits =>
    obtain ⟨rfl, -⟩ := parse_eq_ok.mp h
    exact h

/-- A message of a session fits into a field. -/
theorem Built.fits {m : RatchetMessage} (h : m.Built S) : m.bytes.length < UInt64.size := by
  cases h with
  | made macKey ratchetKey counter previousCounter sender receiver fits =>
    refine Nat.lt_of_le_of_lt length_bytes_make_le ?_
    unfold Holdable at fits
    have room : 0x8000000000000000 + 122 ≤ UInt64.size := by decide
    omega
  | read h fits =>
    obtain ⟨rfl, -⟩ := parse_eq_ok.mp h
    exact fits.fits

end RatchetMessage

end

/-- A key field is read back. -/
theorem PublicKey.read_transmitted (k : PublicKey) : PublicKey.read k.transmitted = .ok k := by
  have parsed := parse_transmitted k []
  rw [List.append_nil] at parsed
  rw [PublicKey.read, parsed]

namespace Schema

variable {s : Schema} {tag : Nat}

theorem takes_key (k : PublicKey) (positive : 0 < tag) (small : 8 * tag + 5 < UInt32.size)
    (known : ∃ f, s.field? tag = some f ∧ f.kind = .bytes) : s.Takes tag (.bytes k.transmitted) := by
  refine ⟨positive, small, known, ?_⟩
  show k.transmitted.length < UInt64.size
  rw [PublicKey.length_transmitted]
  decide

end Schema

namespace PreKeyMessage

variable {registrationId signedPreKeyId : UInt32} {preKeyId : Option UInt32}
  {baseKey identity : PublicKey} {message : RatchetMessage}

/-- The fields of a message; that of the one-time pre-key is left out if there is none. -/
def fields (registrationId : UInt32) (preKeyId : Option UInt32) (signedPreKeyId : UInt32)
    (baseKey identity : PublicKey) (message : RatchetMessage) : List (Nat × FieldValue) :=
  (preKeyId.map fun id => (1, .number id)).toList ++
    [(2, .bytes baseKey.transmitted), (3, .bytes identity.transmitted), (4, .bytes message.bytes),
      (5, .number registrationId), (6, .number signedPreKeyId)]

theorem takes_fields (fits : message.bytes.length < UInt64.size) :
    ∀ field ∈ fields registrationId preKeyId signedPreKeyId baseKey identity message,
      schema.Takes field.1 field.2 := by
  intro field there
  simp only [fields, List.mem_append, Option.mem_toList, Option.map_eq_some_iff, List.mem_cons,
    List.not_mem_nil, or_false] at there
  rcases there with ⟨id, -, rfl⟩ | rfl | rfl | rfl | rfl | rfl
  · show schema.Takes 1 (.number id)
    exact ⟨by decide, by decide, ⟨_, rfl, rfl⟩, trivial⟩
  · show schema.Takes 2 (.bytes baseKey.transmitted)
    exact Schema.takes_key baseKey (by decide) (by decide) ⟨_, rfl, rfl⟩
  · show schema.Takes 3 (.bytes identity.transmitted)
    exact Schema.takes_key identity (by decide) (by decide) ⟨_, rfl, rfl⟩
  · show schema.Takes 4 (.bytes message.bytes)
    exact ⟨by decide, by decide, ⟨_, rfl, rfl⟩, fits⟩
  · show schema.Takes 5 (.number registrationId)
    exact ⟨by decide, by decide, ⟨_, rfl, rfl⟩, trivial⟩
  · show schema.Takes 6 (.number signedPreKeyId)
    exact ⟨by decide, by decide, ⟨_, rfl, rfl⟩, trivial⟩

theorem bytes_make :
    (make currentVersion registrationId preKeyId signedPreKeyId baseKey identity message).bytes
      = versionByte currentVersion ::
        body (fields registrationId preKeyId signedPreKeyId baseKey identity message) := by
  cases preKeyId <;>
    simp [make, fields, body, FieldValue.written, FieldValue.kind, FieldKind.wire, writeNumber,
      writeBytes]

/-- A pre-key message is read back from its bytes, and the message in it. -/
theorem parse_make (parsed : RatchetMessage.parse message.bytes = .ok message)
    (fits : message.bytes.length < UInt64.size) :
    let m := make currentVersion registrationId preKeyId signedPreKeyId baseKey identity message
    parse m.bytes = .ok m := by
  intro m
  have split : splitVersion m.bytes = .ok (currentVersion, _) :=
    splitVersion_eq_ok.mpr ⟨_, bytes_make, rfl⟩
  have takes : ∀ field ∈ fields registrationId preKeyId signedPreKeyId baseKey identity message, _ :=
    takes_fields fits
  have read := Schema.fieldsOf_body takes
  generalize hf : fields registrationId preKeyId signedPreKeyId baseKey identity message = fs at *
  -- the field of the one-time pre-key, if there is one, stands in nobody's way
  have preKey : lastNumber? 1 fs = preKeyId := by subst hf; cases preKeyId <;> rfl
  have base : lastBytes? 2 fs = some baseKey.transmitted := by subst hf; cases preKeyId <;> rfl
  have own : lastBytes? 3 fs = some identity.transmitted := by subst hf; cases preKeyId <;> rfl
  have inner : lastBytes? 4 fs = some message.bytes := by subst hf; cases preKeyId <;> rfl
  have device : lastNumber? 5 fs = some registrationId := by subst hf; cases preKeyId <;> rfl
  have signed : lastNumber? 6 fs = some signedPreKeyId := by subst hf; cases preKeyId <;> rfl
  simp only [parse, split, read, preKey, base, own, inner, device, signed, parsed,
    PublicKey.read_transmitted, bind, Except.bind]
  rfl

end PreKeyMessage

/-! ### Messages to a group -/

namespace ChainAnnouncement

variable {keyId iteration : UInt32} {chainKey : Block 32} {signingKey : PublicKey}

/-- The fields of an announcement. -/
def fields (keyId iteration : UInt32) (chainKey : Block 32) (signingKey : PublicKey) :
    List (Nat × FieldValue) :=
  [(1, .number keyId), (2, .number iteration), (3, .bytes chainKey.bytes),
    (4, .bytes signingKey.transmitted)]

theorem takes_fields :
    ∀ field ∈ fields keyId iteration chainKey signingKey, schema.Takes field.1 field.2 := by
  intro field there
  simp only [fields, List.mem_cons, List.not_mem_nil, or_false] at there
  rcases there with rfl | rfl | rfl | rfl
  · show schema.Takes 1 (.number keyId)
    exact ⟨by decide, by decide, ⟨_, rfl, rfl⟩, trivial⟩
  · show schema.Takes 2 (.number iteration)
    exact ⟨by decide, by decide, ⟨_, rfl, rfl⟩, trivial⟩
  · show schema.Takes 3 (.bytes chainKey.bytes)
    refine ⟨by decide, by decide, ⟨_, rfl, rfl⟩, ?_⟩
    show chainKey.bytes.length < UInt64.size
    rw [Block.length_bytes]
    decide
  · show schema.Takes 4 (.bytes signingKey.transmitted)
    exact Schema.takes_key signingKey (by decide) (by decide) ⟨_, rfl, rfl⟩

theorem bytes_make : (make keyId iteration chainKey signingKey).bytes
    = versionByte currentVersion :: body (fields keyId iteration chainKey signingKey) := by
  simp [make, fields, body, FieldValue.written, FieldValue.kind, FieldKind.wire, writeNumber,
    writeBytes]

/-- An announcement is read back from its bytes. -/
theorem parse_make :
    let m := make keyId iteration chainKey signingKey
    parse m.bytes = .ok m := by
  intro m
  have split : splitVersion m.bytes = .ok (currentVersion, _) :=
    splitVersion_eq_ok.mpr ⟨_, bytes_make, rfl⟩
  have takes : ∀ field ∈ fields keyId iteration chainKey signingKey, _ := takes_fields
  have read := Schema.fieldsOf_body takes
  have id : lastNumber? 1 (fields keyId iteration chainKey signingKey) = some keyId := rfl
  have number : lastNumber? 2 (fields keyId iteration chainKey signingKey) = some iteration := rfl
  have seed : lastBytes? 3 (fields keyId iteration chainKey signingKey) = some chainKey.bytes := rfl
  have signer : lastBytes? 4 (fields keyId iteration chainKey signingKey)
      = some signingKey.transmitted := rfl
  simp only [parse, split, read, id, number, seed, signer, Block.ofBytes?_bytes,
    PublicKey.read_transmitted, bind, Except.bind]
  rfl

end ChainAnnouncement

/-- A message to a group that is made is read back from its bytes. -/
theorem GroupMessage.parse_made {S : Suite} {keyId iteration : UInt32} {ciphertext : Bytes}
    {signingKey : PrivateKey} {m : GroupMessage} {e e' : Entropy} (fits : Holdable ciphertext)
    (h : (make S keyId iteration ciphertext signingKey).run e = (.ok m, e')) :
    parse m.bytes = .ok m := by
  rw [run_makeGroupMessage] at h
  split at h
  · cases h
  · cases h
    exact parse_signed fits.fits

/-! ### Messages of any kind -/

namespace Message

variable (S : Suite)

/-- A message that has been built in the version in use, with any content. -/
inductive Built : Message → Prop
  | ratchet {m : RatchetMessage} (h : m.Built S) : Built (.ratchet m)
  | preKey (registrationId : UInt32) (preKeyId : Option UInt32) (signedPreKeyId : UInt32)
    (baseKey identity : PublicKey) {m : RatchetMessage} (h : m.Built S) :
    Built (.preKey (.make currentVersion registrationId preKeyId signedPreKeyId baseKey identity m))
  | group (keyId iteration : UInt32) {ciphertext : Bytes} (fits : Holdable ciphertext)
    (signingKey : PrivateKey) {m : GroupMessage} {e e' : Entropy}
    (h : (GroupMessage.make S keyId iteration ciphertext signingKey).run e = (.ok m, e')) :
    Built (.group m)
  | announcement (keyId iteration : UInt32) (chainKey : Block 32) (signingKey : PublicKey) :
    Built (.announcement (.make keyId iteration chainKey signingKey))

/-- What looking at the tag or at the signature of a message comes to, that of the message in it for
a pre-key message; an announcement has neither. -/
def check (sender receiver : PublicKey) (macKey : Bytes) (signingKey : PublicKey) :
    Message → Except Error Unit
  | .ratchet m => m.checkTag S sender receiver macKey
  | .preKey m => m.message.checkTag S sender receiver macKey
  | .group m => m.checkSignature S signingKey
  | .announcement _ => .ok ()

/-- **Every message arrives as it was built.**  From the type tag and the bytes of a message, whatever
it holds, exactly that message is read: all its fields, those of the message in it, and the bytes.
So its tag and its signature are right for the keys that they were right for. -/
theorem received_as_built {S : Suite} {m : Message} (h : m.Built S) :
    ∃ read, Message.receive m.type.tag m.bytes = .ok read ∧ read = m ∧
      ∀ sender receiver macKey signingKey, read.check S sender receiver macKey signingKey
        = m.check S sender receiver macKey signingKey := by
  have parsed : Message.parse m.type m.bytes = .ok m := by
    cases h with
    | ratchet h => exact bind_eq_ok.mpr ⟨_, h.parse, rfl⟩
    | preKey registrationId preKeyId signedPreKeyId baseKey identity h =>
      exact bind_eq_ok.mpr ⟨_, PreKeyMessage.parse_make h.parse h.fits, rfl⟩
    | group keyId iteration fits signingKey h =>
      exact bind_eq_ok.mpr ⟨_, GroupMessage.parse_made fits h, rfl⟩
    | announcement keyId iteration chainKey signingKey =>
      exact bind_eq_ok.mpr ⟨_, ChainAnnouncement.parse_make, rfl⟩
  refine ⟨m, ?_, rfl, fun _ _ _ _ => rfl⟩
  exact bind_eq_ok.mpr ⟨_, MessageType.ofTag_tag _, parsed⟩

end Message

namespace Toy

/-- A pre-key message with nothing in it but extremes: the message in it has an empty ciphertext, and
there is no one-time pre-key. -/
def extreme : PreKeyMessage :=
  .make currentVersion 0xffffffff none 0 (keyPair 5).publicKey (keyPair 4).publicKey
    (.make suite currentVersion [] (keyPair 6).publicKey 0xffffffff 0 [] (keyPair 4).publicKey
      (keyPair 1).publicKey)

end Toy

/-- A pre-key message without a one-time pre-key is not taken for one with the number 0, and the
empty ciphertext in it is not left out. -/
theorem Message.received_as_built_extreme :
    ∃ read, Message.receive 3 Toy.extreme.bytes = .ok (.preKey read) ∧ read.preKeyId = none ∧
      read.registrationId = 0xffffffff ∧ read.message.counter = 0xffffffff ∧
      read.message.body = [] := by
  have built : (Message.preKey Toy.extreme).Built Toy.suite :=
    .preKey _ _ _ _ _ (.made [] (Toy.keyPair 6).publicKey 0xffffffff 0 (Toy.keyPair 4).publicKey
      (Toy.keyPair 1).publicKey (by decide))
  obtain ⟨read, received, rfl, -⟩ := Message.received_as_built built
  exact ⟨Toy.extreme, received, rfl, rfl, rfl, rfl⟩

end DoubleRatchet
