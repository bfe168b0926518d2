/-
DoubleRatchet/Wire/Fields.lean

The body of a message on the wire: a run of fields, each with a key (its tag and
the kind of its value) and a value.  A `Schema` names the fields that a message
knows.  Known fields may come in any order, the last one with a tag counts, and
fields with other tags are skipped, whatever they hold; groups, the one kind that
nests, are skipped with the list of the tags still open.

* `Schema.read`: the known fields of a body in the order in which they came.
* `WireFault.text`: what is wrong, and in which field.
-/
import DoubleRatchet.Wire.Varint

namespace DoubleRatchet

/-! ### Faults -/

/-- How the value of a field is laid out. -/
inductive WireKind where
  | varint
  | fixed64
  | delimited
  | startGroup
  | endGroup
  | fixed32
  deriving DecidableEq

/-- The kind in words. -/
def WireKind.text : WireKind → String
  | varint => "Varint"
  | fixed64 => "SixtyFourBit"
  | delimited => "LengthDelimited"
  | startGroup => "StartGroup"
  | endGroup => "EndGroup"
  | fixed32 => "ThirtyTwoBit"

/-- The kind with a number, from 0 to 5. -/
def WireKind.ofNat? : Nat → Option WireKind
  | 0 => some varint
  | 1 => some fixed64
  | 2 => some delimited
  | 3 => some startGroup
  | 4 => some endGroup
  | 5 => some fixed32
  | _ => none

/-- What is wrong with a body. -/
inductive WireProblem where
  /-- A number ends early or does not fit 64 bits. -/
  | badVarint
  /-- A value goes past the end. -/
  | underflow
  /-- A known field has a value of another kind. -/
  | wrongKind (found expected : WireKind)
  /-- A key does not fit 32 bits. -/
  | badKey (key : Nat)
  /-- A key has a kind that does not exist. -/
  | badKind (kind : Nat)
  /-- A key has tag zero. -/
  | zeroTag
  /-- A group ends that is not the open one. -/
  | strayGroupEnd
  /-- Skipped groups are nested too deep. -/
  | tooDeep
  deriving DecidableEq

/-- The problem in words. -/
def WireProblem.text : WireProblem → String
  | badVarint => "invalid varint"
  | underflow => "buffer underflow"
  | wrongKind found expected =>
    "invalid wire type: " ++ found.text ++ " (expected " ++ expected.text ++ ")"
  | badKey key => "invalid key value: " ++ toString key
  | badKind kind => "invalid wire type value: " ++ toString kind
  | zeroTag => "invalid tag value: 0"
  | strayGroupEnd => "unexpected end group tag"
  | tooDeep => "recursion limit reached"

/-- A problem, and the known field that it is in, if it is in one. -/
structure WireFault where
  place : Option String
  problem : WireProblem
  deriving DecidableEq

/-- The fault in words. -/
def WireFault.text (f : WireFault) : String :=
  "failed to decode Protobuf message: " ++ (f.place.elim "" (· ++ ": ")) ++ f.problem.text

/-! ### Fields -/

/-- What the value of a known field is. -/
inductive FieldKind where
  | number
  | bytes
  deriving DecidableEq

/-- The layout of a known field. -/
def FieldKind.wire : FieldKind → WireKind
  | number => .varint
  | bytes => .delimited

/-- The value of a known field. -/
inductive FieldValue where
  | number (n : UInt32)
  | bytes (bs : Bytes)
  deriving DecidableEq

/-- A field that a message knows. -/
structure Field where
  tag : Nat
  name : String
  kind : FieldKind
  deriving DecidableEq

/-- The fields that a message knows. -/
structure Schema where
  name : String
  fields : List Field

/-- The known field with a tag. -/
def Schema.field? (s : Schema) (tag : Nat) : Option Field := s.fields.find? (·.tag == tag)

/-! ### Writing -/

/-- The key of a field. -/
def writeKey (tag : Nat) (kind : WireKind) : Bytes :=
  writeVarint (8 * tag + match kind with
    | .varint => 0 | .fixed64 => 1 | .delimited => 2 | .startGroup => 3 | .endGroup => 4
    | .fixed32 => 5)

/-- A field that holds a number. -/
def writeNumber (tag : Nat) (n : UInt32) : Bytes :=
  writeKey tag .varint ++ writeVarint n.toNat

/-- A field that holds bytes. -/
def writeBytes (tag : Nat) (bs : Bytes) : Bytes :=
  writeKey tag .delimited ++ writeVarint bs.length ++ bs

/-! ### Reading -/

/-- A number from the wire. -/
def takeVarint (bs : Bytes) : Except WireProblem (Nat × Bytes) :=
  match readVarint bs with
  | some r => .ok r
  | none => .error .badVarint

/-- The next `n` bytes and what follows them. -/
def takeBytes (n : Nat) (bs : Bytes) : Except WireProblem (Bytes × Bytes) :=
  match Block.split? n bs with
  | some (b, rest) => .ok (b.bytes, rest)
  | none => .error .underflow

/-- A key: the tag and the kind of the field that follows. -/
def readKey (bs : Bytes) : Except WireProblem ((Nat × WireKind) × Bytes) := do
  let (key, rest) ← takeVarint bs
  if UInt32.size ≤ key then throw (.badKey key)
  match WireKind.ofNat? (key % 8) with
  | none => throw (.badKind (key % 8))
  | some kind =>
    if key / 8 = 0 then throw .zeroTag
    return ((key / 8, kind), rest)

/-- The value of a known field; a number keeps its low 32 bits. -/
def Field.readValue (f : Field) (kind : WireKind) (bs : Bytes) :
    Except WireProblem (FieldValue × Bytes) := do
  if kind ≠ f.kind.wire then throw (.wrongKind kind f.kind.wire)
  let (n, rest) ← takeVarint bs
  match f.kind with
  | .number => return (.number (UInt32.ofNat n), rest)
  | .bytes =>
    let (value, rest) ← takeBytes n rest
    return (.bytes value, rest)

/-- How many groups may be open inside a skipped field. -/
def groupLimit : Nat := 100

/-- Skip the value of a field that is not a group. -/
def skipPlain (kind : WireKind) (bs : Bytes) : Except WireProblem Bytes := do
  match kind with
  | .varint => return (← takeVarint bs).2
  | .fixed32 => return (← takeBytes 4 bs).2
  | .fixed64 => return (← takeBytes 8 bs).2
  | .delimited =>
    let (n, rest) ← takeVarint bs
    return (← takeBytes n rest).2
  | .startGroup | .endGroup => throw .strayGroupEnd

/-- Skip to the end of the open groups, innermost first.  Each field takes a byte at least, so fuel
for as many fields as there are bytes is enough. -/
def skipGroups : (fuel : Nat) → (openTags : List Nat) → Bytes → Except WireProblem Bytes
  | _, [], bs => .ok bs
  | 0, _ :: _, _ => .error .badVarint
  | fuel + 1, tag :: outer, bs => do
    let ((inner, kind), rest) ← readKey bs
    if kind = .endGroup then
      if inner = tag then skipGroups fuel outer rest else throw .strayGroupEnd
    else if groupLimit ≤ (tag :: outer).length then throw .tooDeep
    else if kind = .startGroup then skipGroups fuel (inner :: tag :: outer) rest
    else
      let rest ← skipPlain kind rest
      skipGroups fuel (tag :: outer) rest

/-- Skip the value of a field with an unknown tag. -/
def skipField (fuel tag : Nat) (kind : WireKind) (bs : Bytes) : Except WireProblem Bytes :=
  if kind = .startGroup then skipGroups fuel [tag] bs else skipPlain kind bs

/-- Say where a problem is. -/
def located {α : Type} (place : Option String) : Except WireProblem α → Except WireFault α
  | .ok a => .ok a
  | .error problem => .error ⟨place, problem⟩

/-- The known fields of a body, in order.  Each field takes a byte at least, so the length of the
body is fuel enough, and what is left of it is enough for the fields inside a skipped group. -/
def Schema.readFields (s : Schema) : (fuel : Nat) → Bytes →
    Except WireFault (List (Nat × FieldValue))
  | _, [] => .ok []
  | 0, _ :: _ => .ok []
  | fuel + 1, bs@(_ :: _) => do
    let ((tag, kind), rest) ← located none (readKey bs)
    match s.field? tag with
    | some f =>
      let (value, rest) ← located (some (s.name ++ "." ++ f.name)) (f.readValue kind rest)
      return (tag, value) :: (← s.readFields fuel rest)
    | none =>
      let rest ← located none (skipField fuel tag kind rest)
      s.readFields fuel rest

/-- The known fields of a body, in order. -/
def Schema.read (s : Schema) (bs : Bytes) : Except WireFault (List (Nat × FieldValue)) :=
  s.readFields bs.length bs

/-- The number in the last field with a tag. -/
def lastNumber? (tag : Nat) : List (Nat × FieldValue) → Option UInt32
  | [] => none
  | (t, .number n) :: rest => (lastNumber? tag rest).or (if t = tag then some n else none)
  | (_, .bytes _) :: rest => lastNumber? tag rest

/-- The bytes in the last field with a tag. -/
def lastBytes? (tag : Nat) : List (Nat × FieldValue) → Option Bytes
  | [] => none
  | (t, .bytes bs) :: rest => (lastBytes? tag rest).or (if t = tag then some bs else none)
  | (_, .number _) :: rest => lastBytes? tag rest

end DoubleRatchet
