/-
DoubleRatchet/Proofs/Bodies.lean

What is written on the wire is read back.

A body is one field after another, and every field is a key and a value:

    body    field 1  field 2  …
    field   tag and kind, as one number    value
    value   a number, or a length and as many bytes

One lemma for each layer says that reading undoes writing, whatever follows; a schema that
knows the fields of a body reads them all back (`Schema.fieldsOf_body`).

A message ends with something that its body does not cover, a tag or a signature.  It says
what the fields between the version byte and that end say: just then it is what its bytes
are parsed as (`RatchetMessage.parse_eq_ok`, `GroupMessage.parse_eq_ok`), and messages that
are made do.
-/
import DoubleRatchet.Proofs.GroupCalls

namespace DoubleRatchet

/-! ### Layers -/

theorem takeVarint_writeVarint {n : Nat} (h : n < UInt64.size) (rest : Bytes) :
    takeVarint (writeVarint n ++ rest) = .ok (n, rest) := by
  rw [takeVarint, readVarint_writeVarint n rest h]

theorem takeBytes_append (bs rest : Bytes) :
    takeBytes bs.length (bs ++ rest) = .ok (bs, rest) := by
  have split := Block.split?_append ⟨bs, rfl⟩ rest
  rw [takeBytes]
  rw [show Block.split? bs.length (bs ++ rest) = _ from split]

theorem writeVarint_ne_nil (n : Nat) : writeVarint n ≠ [] := by
  unfold writeVarint varintBytes
  split
  · exact List.cons_ne_nil _ _
  · exact List.cons_ne_nil _ _

/-- A key is read back if it fits 32 bits and its tag is not zero. -/
theorem readKey_writeKey {tag : Nat} (positive : 0 < tag) (small : 8 * tag + 5 < UInt32.size)
    (kind : WireKind) (rest : Bytes) :
    readKey (writeKey tag kind ++ rest) = .ok ((tag, kind), rest) := by
  obtain ⟨number, written, low, known⟩ : ∃ k, writeKey tag kind = writeVarint (8 * tag + k) ∧
      k ≤ 5 ∧ WireKind.ofNat? k = some kind := by
    cases kind <;> exact ⟨_, rfl, by decide, rfl⟩
  have fits : 8 * tag + number < UInt64.size := by
    have : UInt32.size ≤ UInt64.size := by decide
    omega
  have notBig : ¬UInt32.size ≤ 8 * tag + number := by omega
  have kindOf : (8 * tag + number) % 8 = number := by omega
  have tagOf : (8 * tag + number) / 8 = tag := by omega
  unfold readKey
  rw [written, takeVarint_writeVarint fits]
  show (if UInt32.size ≤ 8 * tag + number then _ else _ : Except WireProblem _) = _
  rw [if_neg notBig, kindOf, known, tagOf]
  show (if tag = 0 then _ else _ : Except WireProblem _) = _
  rw [if_neg (Nat.ne_of_gt positive)]
  rfl

/-! ### Fields -/

namespace FieldValue

/-- What kind of field the value is for. -/
def kind : FieldValue → FieldKind
  | .number _ => .number
  | .bytes _ => .bytes

/-- The value as it is written, after its key. -/
def written : FieldValue → Bytes
  | .number n => writeVarint n.toNat
  | .bytes bs => writeVarint bs.length ++ bs

/-- The length of the value, if it has one, can be written. -/
def Fits : FieldValue → Prop
  | .number _ => True
  | .bytes bs => bs.length < UInt64.size

end FieldValue

theorem Field.readValue_written {f : Field} {v : FieldValue} (kind : f.kind = v.kind)
    (fits : v.Fits) (rest : Bytes) :
    f.readValue v.kind.wire (v.written ++ rest) = .ok (v, rest) := by
  unfold readValue
  rw [kind]
  rw [if_neg (not_not_intro rfl)]
  cases v with
  | number n =>
    have small : n.toNat < UInt64.size :=
      Nat.lt_trans n.toNat_lt (by decide)
    show (takeVarint (writeVarint n.toNat ++ rest) >>= _) = _
    rw [takeVarint_writeVarint small]
    show Except.ok (FieldValue.number (UInt32.ofNat n.toNat), rest) = _
    rw [UInt32.ofNat_toNat]
  | bytes bs =>
    show (takeVarint (writeVarint bs.length ++ bs ++ rest) >>= _) = _
    rw [List.append_assoc, takeVarint_writeVarint fits]
    show (takeBytes bs.length (bs ++ rest) >>= _) = _
    rw [takeBytes_append]
    rfl

/-! ### Bodies -/

/-- Fields, one after another. -/
def body (fields : List (Nat × FieldValue)) : Bytes :=
  fields.flatMap fun (tag, v) => writeKey tag v.kind.wire ++ v.written

/-- The schema has a field with the tag for values of this kind, and the value can be written. -/
structure Schema.Takes (s : Schema) (tag : Nat) (v : FieldValue) : Prop where
  positive : 0 < tag
  small : 8 * tag + 5 < UInt32.size
  known : ∃ f, s.field? tag = some f ∧ f.kind = v.kind
  fits : v.Fits

namespace Schema

variable {s : Schema}

/-- A field that the schema takes is read, and then what follows it. -/
theorem readFields_cons {tag : Nat} {v : FieldValue} (h : s.Takes tag v) (fuel : Nat)
    (rest : Bytes) : s.readFields (fuel + 1) (writeKey tag v.kind.wire ++ v.written ++ rest)
      = (s.readFields fuel rest).map ((tag, v) :: ·) := by
  obtain ⟨f, known, kind⟩ := h.known
  have key := readKey_writeKey h.positive h.small v.kind.wire (v.written ++ rest)
  rw [List.append_assoc]
  generalize writeKey tag v.kind.wire ++ (v.written ++ rest) = bs at key
  cases bs with
  | nil => cases key
  | cons b bs =>
    have value := Field.readValue_written kind h.fits rest
    simp only [readFields, key, located, bind, Except.bind, known, value]
    cases s.readFields fuel rest <;> rfl

/-- Every field takes a byte at least. -/
theorem length_le_body (fields : List (Nat × FieldValue)) :
    fields.length ≤ (body fields).length := by
  induction fields with
  | nil => exact Nat.zero_le _
  | cons field fields ih =>
    obtain ⟨tag, v⟩ := field
    have key : 0 < (writeKey tag v.kind.wire).length :=
      List.length_pos_of_ne_nil (writeVarint_ne_nil _)
    simp only [body, List.flatMap_cons, List.length_append, List.length_cons] at ih ⊢
    omega

/-- With fuel for every field, a body of fields that the schema takes is read back. -/
theorem readFields_body {fields : List (Nat × FieldValue)}
    (h : ∀ field ∈ fields, s.Takes field.1 field.2) {fuel : Nat} (enough : fields.length ≤ fuel) :
    s.readFields fuel (body fields) = .ok fields := by
  induction fields generalizing fuel with
  | nil => cases fuel <;> rfl
  | cons field fields ih =>
    obtain ⟨tag, v⟩ := field
    rw [List.forall_mem_cons] at h
    cases fuel with
    | zero => cases enough
    | succ fuel =>
      show s.readFields (fuel + 1) (writeKey tag v.kind.wire ++ v.written ++ body fields) = _
      rw [readFields_cons h.1, ih h.2 (Nat.le_of_succ_le_succ enough)]
      rfl

/-- A body of fields that the schema takes is read back. -/
theorem fieldsOf_body {fields : List (Nat × FieldValue)}
    (h : ∀ field ∈ fields, s.Takes field.1 field.2) : s.fieldsOf (body fields) = .ok fields := by
  rw [fieldsOf, read, readFields_body h (length_le_body fields)]

end Schema

/-! ### Between the version byte and what ends a message -/

/-- What stands between the first byte and the last `n`. -/
def enclosed (n : Nat) (bs : Bytes) : Bytes := (bs.take (bs.length - n)).tail

/-- The bytes are a version byte, a body with these fields, and `n` bytes that end the message. -/
structure Carries (s : Schema) (n : Nat) (bs : Bytes) (version : UInt8)
    (fields : List (Nat × FieldValue)) : Prop where
  long : n < bs.length
  version : ∃ byte, bs.head? = some byte ∧ readVersion byte = .ok version
  body : s.fieldsOf (enclosed n bs) = .ok fields

theorem enclosed_cons {n : Nat} (byte : UInt8) {rest : Bytes} (h : n < (byte :: rest).length) :
    enclosed n (byte :: rest) = rest.take (rest.length - n) := by
  rw [List.length_cons] at h
  rw [enclosed, List.length_cons, Nat.sub_add_comm (Nat.le_of_lt_succ h), List.take_succ_cons,
    List.tail_cons]

theorem splitVersion_eq_ok {bs rest : Bytes} {version : UInt8} :
    splitVersion bs = .ok (version, rest) ↔
      ∃ byte, bs = byte :: rest ∧ readVersion byte = .ok version := by
  cases bs with
  | nil => simp [splitVersion, invalid]
  | cons byte rest' =>
    simp only [splitVersion, bind_eq_ok, List.cons.injEq]
    constructor
    · rintro ⟨_, read, same⟩
      cases same
      exact ⟨byte, ⟨rfl, rfl⟩, read⟩
    · rintro ⟨_, ⟨rfl, rfl⟩, read⟩
      exact ⟨version, read, rfl⟩

/-- Messages of both kinds are read alike: the length, the version byte, the fields of the body, and
then what the fields say. -/
theorem read_eq_ok {α : Type} {s : Schema} {n : Nat} {bs : Bytes} {a : α}
    {say : UInt8 → List (Nat × FieldValue) → Except Error α} :
    (do
      if bs.length ≤ n then invalid .incomplete
      let (version, rest) ← splitVersion bs
      let fields ← s.fieldsOf (rest.take (rest.length - n))
      say version fields) = .ok a ↔
      ∃ version fields, Carries s n bs version fields ∧ say version fields = .ok a := by
  by_cases short : bs.length ≤ n
  · rw [if_pos short]
    exact iff_of_false nofun fun ⟨_, _, carries, _⟩ => Nat.not_lt.mpr short carries.long
  rw [if_neg short]
  show (splitVersion bs >>= _) = .ok a ↔ _
  rw [bind_eq_ok]
  constructor
  · rintro ⟨⟨version, rest⟩, split, h⟩
    obtain ⟨byte, rfl, read⟩ := splitVersion_eq_ok.mp split
    obtain ⟨fields, body, said⟩ := bind_eq_ok.mp h
    refine ⟨version, fields, ⟨Nat.not_le.mp short, ⟨byte, rfl, read⟩, ?_⟩, said⟩
    rw [enclosed_cons byte (Nat.not_le.mp short)]
    exact body
  · rintro ⟨version, fields, ⟨long, ⟨byte, first, read⟩, body⟩, said⟩
    obtain ⟨rest, rfl⟩ := List.head?_eq_some_iff.mp first
    rw [enclosed_cons byte long] at body
    exact ⟨⟨version, rest⟩, splitVersion_eq_ok.mpr ⟨byte, rfl, read⟩,
      bind_eq_ok.mpr ⟨fields, body, said⟩⟩

/-- What is made of fields that the schema takes carries them, whatever ends it. -/
theorem carries_body {s : Schema} {fields : List (Nat × FieldValue)}
    (h : ∀ field ∈ fields, s.Takes field.1 field.2) (trailer : Bytes) :
    Carries s trailer.length ((versionByte currentVersion :: body fields) ++ trailer)
      currentVersion fields := by
  have long : trailer.length < (versionByte currentVersion :: (body fields ++ trailer)).length := by
    simp only [List.length_cons, List.length_append]
    omega
  refine ⟨long, ⟨_, rfl, rfl⟩, ?_⟩
  rw [List.cons_append, enclosed_cons _ long, List.length_append, Nat.add_sub_cancel,
    List.take_left]
  exact Schema.fieldsOf_body h

/-! ### Messages of a session -/

namespace RatchetMessage

/-- The message says what the fields say, the last one with a tag for each. -/
structure Says (m : RatchetMessage) (fields : List (Nat × FieldValue)) : Prop where
  ratchetKey : (lastBytes? 1 fields).map PublicKey.read = some (.ok m.ratchetKey)
  counter : lastNumber? 2 fields = some m.counter
  previousCounter : (lastNumber? 3 fields).getD 0 = m.previousCounter
  body : lastBytes? 4 fields = some m.body

/-- The message says what its bytes say, those of the tag left out. -/
def Faithful (m : RatchetMessage) : Prop :=
  ∃ fields, Carries schema tagLength m.bytes m.version fields ∧ m.Says fields

/-- The message that fields make. -/
def ofFields (bs : Bytes) (version : UInt8) (fields : List (Nat × FieldValue)) :
    Except Error RatchetMessage :=
  match lastBytes? 1 fields, lastNumber? 2 fields, lastBytes? 4 fields with
  | some key, some counter, some body => do
    return {
      version, counter, body
      ratchetKey := ← PublicKey.read key
      previousCounter := (lastNumber? 3 fields).getD 0
      bytes := bs }
  | _, _, _ => invalid .incomplete

/-- What is parsed is a message that says what its bytes say, and each such message is parsed. -/
theorem parse_eq_ok {bs : Bytes} {m : RatchetMessage} :
    parse bs = .ok m ↔ m.bytes = bs ∧ m.Faithful := by
  refine (@read_eq_ok RatchetMessage schema tagLength bs m (ofFields bs)).trans ?_
  unfold ofFields
  constructor
  · rintro ⟨version, fields, carries, said⟩
    split at said
    · rename_i key counter body hk hc hb
      obtain ⟨ratchetKey, read, same⟩ := bind_eq_ok.mp said
      cases same
      refine ⟨rfl, fields, carries, ?_, hc, rfl, hb⟩
      rw [hk, Option.map_some, read]
    · cases said
  · rintro ⟨rfl, fields, carries, told⟩
    obtain ⟨key, hk, read⟩ := Option.map_eq_some_iff.mp told.ratchetKey
    refine ⟨m.version, fields, carries, ?_⟩
    simp only [hk, told.counter, told.body, read, bind, Except.bind, told.previousCounter]
    rfl

/-- The fields of a message. -/
def fields (ratchetKey : PublicKey) (counter previousCounter : UInt32) (body : Bytes) :
    List (Nat × FieldValue) :=
  [(1, .bytes ratchetKey.transmitted), (2, .number counter), (3, .number previousCounter),
    (4, .bytes body)]

section
variable {ratchetKey : PublicKey} {counter previousCounter : UInt32} {body : Bytes}

theorem takes_fields (fits : body.length < UInt64.size) :
    ∀ field ∈ fields ratchetKey counter previousCounter body, schema.Takes field.1 field.2 := by
  have key : schema.Takes 1 (.bytes ratchetKey.transmitted) := by
    refine ⟨by decide, by decide, ⟨_, rfl, rfl⟩, ?_⟩
    show ratchetKey.transmitted.length < UInt64.size
    rw [PublicKey.length_transmitted]
    decide
  intro field there
  simp only [fields, List.mem_cons, List.not_mem_nil, or_false] at there
  rcases there with rfl | rfl | rfl | rfl
  · exact key
  · show schema.Takes 2 (.number counter)
    exact ⟨by decide, by decide, ⟨_, rfl, rfl⟩, trivial⟩
  · show schema.Takes 3 (.number previousCounter)
    exact ⟨by decide, by decide, ⟨_, rfl, rfl⟩, trivial⟩
  · show schema.Takes 4 (.bytes body)
    exact ⟨by decide, by decide, ⟨_, rfl, rfl⟩, fits⟩

/-- A message that is made is its content, and the tag of that. -/
theorem bytes_make (S : Suite) (version : UInt8) (macKey : Bytes) (sender receiver : PublicKey) :
    let content :=
      versionByte version :: DoubleRatchet.body (fields ratchetKey counter previousCounter body)
    (make S version macKey ratchetKey counter previousCounter body sender receiver).bytes
      = content ++ tag S sender receiver macKey content := by
  have same : DoubleRatchet.body (fields ratchetKey counter previousCounter body)
      = writeBytes 1 ratchetKey.transmitted ++ writeNumber 2 counter
        ++ writeNumber 3 previousCounter ++ writeBytes 4 body := by
    simp [DoubleRatchet.body, fields, FieldValue.written, FieldValue.kind, FieldKind.wire,
      writeNumber, writeBytes]
  rw [same]
  rfl

theorem length_tag (S : Suite) (sender receiver : PublicKey) (macKey content : Bytes) :
    (tag S sender receiver macKey content).length = tagLength := by
  rw [tag, List.length_take, Block.length_bytes]
  rfl

/-- A message that is made says what its bytes say. -/
theorem faithful_make (S : Suite) (macKey : Bytes) (sender receiver : PublicKey)
    (fits : body.length < UInt64.size) :
    (make S currentVersion macKey ratchetKey counter previousCounter body sender
      receiver).Faithful := by
  refine ⟨fields ratchetKey counter previousCounter body, ?_, ?_, rfl, rfl, rfl⟩
  · rw [bytes_make]
    have takes : ∀ field ∈ fields ratchetKey counter previousCounter body, _ := takes_fields fits
    have carries := carries_body takes (tag S sender receiver macKey
      (versionByte currentVersion ::
        DoubleRatchet.body (fields ratchetKey counter previousCounter body)))
    rw [length_tag] at carries
    exact carries
  · have read := PublicKey.parse_transmitted ratchetKey []
    rw [List.append_nil] at read
    show some (PublicKey.read ratchetKey.transmitted) = some (.ok ratchetKey)
    rw [PublicKey.read, read]

end

end RatchetMessage

/-! ### Messages to a group -/

section
variable {S : Suite} {keyId iteration : UInt32} {ciphertext : Bytes} {signingKey : PrivateKey}
  {random : Block 64}

namespace GroupMessage

/-- The message says what the fields say, the last one with a tag for each. -/
structure Says (m : GroupMessage) (fields : List (Nat × FieldValue)) : Prop where
  keyId : lastNumber? 1 fields = some m.keyId
  iteration : lastNumber? 2 fields = some m.iteration
  ciphertext : lastBytes? 3 fields = some m.ciphertext

/-- The message says what its bytes say, those of the signature left out. -/
def Faithful (m : GroupMessage) : Prop :=
  ∃ fields, Carries schema signatureLength m.bytes m.version fields ∧ m.Says fields

/-- The message that fields make. -/
def ofFields (bs : Bytes) (version : UInt8) (fields : List (Nat × FieldValue)) :
    Except Error GroupMessage :=
  match lastNumber? 1 fields, lastNumber? 2 fields, lastBytes? 3 fields with
  | some keyId, some iteration, some ciphertext =>
    return { version, keyId, iteration, ciphertext, bytes := bs }
  | _, _, _ => invalid .incomplete

/-- What is parsed is a message that says what its bytes say, and each such message is parsed. -/
theorem parse_eq_ok {bs : Bytes} {m : GroupMessage} :
    parse bs = .ok m ↔ m.bytes = bs ∧ m.Faithful := by
  refine (@read_eq_ok GroupMessage schema signatureLength bs m (ofFields bs)).trans ?_
  unfold ofFields
  constructor
  · rintro ⟨version, fields, carries, said⟩
    split at said
    · rename_i keyId iteration ciphertext hk hi hc
      cases said
      exact ⟨rfl, fields, carries, hk, hi, hc⟩
    · cases said
  · rintro ⟨rfl, fields, carries, told⟩
    refine ⟨m.version, fields, carries, ?_⟩
    simp only [told.keyId, told.iteration, told.ciphertext]
    rfl

/-- The fields of a message. -/
def fields (keyId iteration : UInt32) (ciphertext : Bytes) : List (Nat × FieldValue) :=
  [(1, .number keyId), (2, .number iteration), (3, .bytes ciphertext)]

theorem takes_fields (fits : ciphertext.length < UInt64.size) :
    ∀ field ∈ fields keyId iteration ciphertext, schema.Takes field.1 field.2 := by
  intro field there
  simp only [fields, List.mem_cons, List.not_mem_nil, or_false] at there
  rcases there with rfl | rfl | rfl
  · show schema.Takes 1 (.number keyId)
    exact ⟨by decide, by decide, ⟨_, rfl, rfl⟩, trivial⟩
  · show schema.Takes 2 (.number iteration)
    exact ⟨by decide, by decide, ⟨_, rfl, rfl⟩, trivial⟩
  · show schema.Takes 3 (.bytes ciphertext)
    exact ⟨by decide, by decide, ⟨_, rfl, rfl⟩, fits⟩

/-- A signed message is what has been signed, and the signature of that. -/
theorem bytes_signed : (signed S keyId iteration ciphertext signingKey random).bytes
    = (versionByte currentVersion :: body (fields keyId iteration ciphertext)) ++
      (S.sign signingKey.raw
        (versionByte currentVersion :: body (fields keyId iteration ciphertext)) random).bytes := by
  have same : body (fields keyId iteration ciphertext)
      = writeNumber 1 keyId ++ writeNumber 2 iteration ++ writeBytes 3 ciphertext := by
    simp [body, fields, FieldValue.written, FieldValue.kind, FieldKind.wire, writeNumber,
      writeBytes]
  rw [same]
  rfl

/-- What is signed, and any signature, is parsed. -/
theorem parse_body (fits : ciphertext.length < UInt64.size) (signature : Block 64) :
    let bs := (versionByte currentVersion :: body (fields keyId iteration ciphertext)) ++
      signature.bytes
    parse bs = .ok { version := currentVersion, keyId, iteration, ciphertext, bytes := bs } := by
  have takes : ∀ field ∈ fields keyId iteration ciphertext, _ := takes_fields fits
  have carries := carries_body takes signature.bytes
  rw [Block.length_bytes] at carries
  exact parse_eq_ok.mpr ⟨rfl, _, carries, rfl, rfl, rfl⟩

/-- A signed message is parsed as what was made. -/
theorem parse_signed (fits : ciphertext.length < UInt64.size) :
    parse (signed S keyId iteration ciphertext signingKey random).bytes
      = .ok (signed S keyId iteration ciphertext signingKey random) := by
  rw [bytes_signed, parse_body fits, ← bytes_signed]
  rfl

/-- A signed message ends with the signature of what is before it. -/
theorem signature_signed : (signed S keyId iteration ciphertext signingKey random).signature
    = (S.sign signingKey.raw (signed S keyId iteration ciphertext signingKey random).content
      random).bytes := by
  unfold content signature
  rw [bytes_signed, List.length_append, Block.length_bytes]
  rw [show ∀ n, n + 64 - signatureLength = n from fun n => Nat.add_sub_cancel n 64]
  rw [List.take_left, List.drop_left]

/-- The signature of a message that has been signed is that of what it says. -/
theorem checkSignature_signed (proper : ∀ bs random,
      S.verify (S.keyPair signingKey).publicKey.raw bs (S.sign signingKey.raw bs random).bytes
        = true) :
    (signed S keyId iteration ciphertext signingKey random).checkSignature S
      (S.keyPair signingKey).publicKey = .ok () := by
  unfold checkSignature
  rw [signature_signed, if_pos (proper _ _)]

end GroupMessage

end

end DoubleRatchet
