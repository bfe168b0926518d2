/-
DoubleRatchet/Format.lean

How values are laid out in stored records.  A `Format` puts a value in front of
the bytes that follow it and reads it from there again, giving back what follows.
Numbers have a fixed width, least significant byte first; an optional value has a
byte in front that says whether it is there; a list has its length in front, in
eight bytes.

Formats of larger values are put together from smaller ones, so what holds of
every format is shown once for each way of putting formats together.
-/
import DoubleRatchet.Bytes

namespace DoubleRatchet

/-- Why bytes are not a record. -/
inductive RecordFault where
  | unexpectedEnd
  /-- The byte in front of an optional value is neither 0 nor 1. -/
  | badTag (tag : UInt8)
  deriving DecidableEq

/-- The fault in words. -/
def RecordFault.text : RecordFault → String
  | unexpectedEnd => "io error: unexpected end of file"
  | badTag tag => "tag for enum is not valid, found " ++ toString tag

/-- A layout of values. -/
structure Format (α : Type) where
  /-- The value, and then the bytes that follow it. -/
  put : α → Bytes → Bytes
  /-- The value at the front, and the bytes that follow it. -/
  read : Bytes → Except RecordFault (α × Bytes)

namespace Format

variable {α β : Type}

/-! ### Numbers and blocks -/

/-- Exactly `n` bytes. -/
def block (n : Nat) : Format (Block n) where
  put b rest := prepend b.bytes rest
  read bs := match Block.split? n bs with
    | some r => .ok r
    | none => .error .unexpectedEnd

/-- The values that a format puts, seen through a pair of inverse maps. -/
def via (f : Format α) (into : α → β) (back : β → α) : Format β where
  put b := f.put (back b)
  read bs := do
    let (a, rest) ← f.read bs
    return (into a, rest)

/-- A number of `w` bytes. -/
def nat (w : Nat) : Format Nat := (block w).via (fun b => ofLittle b.bytes) (littleBlock w)

/-- A number of one byte. -/
def u8 : Format UInt8 := (nat 1).via UInt8.ofNat UInt8.toNat

/-- A number of four bytes. -/
def u32 : Format UInt32 := (nat 4).via UInt32.ofNat UInt32.toNat

/-- A signed number of eight bytes. -/
def i64 : Format Int64 :=
  (nat 8).via (fun n => (UInt64.ofNat n).toInt64) fun i => i.toUInt64.toNat

/-! ### Putting formats together -/

/-- One value after another. -/
def pair (f : Format α) (g : Format β) : Format (α × β) where
  put p rest := f.put p.1 (g.put p.2 rest)
  read bs := do
    let (a, rest) ← f.read bs
    let (b, rest) ← g.read rest
    return ((a, b), rest)

/-- A value that may be missing. -/
def option (f : Format α) : Format (Option α) where
  put
    | none, rest => 0 :: rest
    | some a, rest => 1 :: f.put a rest
  read bs := do
    let (tag, rest) ← u8.read bs
    if tag = 0 then return (none, rest)
    else if tag = 1 then
      let (a, rest) ← f.read rest
      return (some a, rest)
    else throw (.badTag tag)

/-- Read `n` values. -/
def readMany (f : Format α) : (n : Nat) → Bytes → Except RecordFault (List α × Bytes)
  | 0, bs => .ok ([], bs)
  | n + 1, bs => do
    let (a, rest) ← f.read bs
    let (as, rest) ← f.readMany n rest
    return (a :: as, rest)

/-- A list, after its length. -/
def list (f : Format α) : Format (List α) where
  put as rest := (nat 8).put as.length (as.foldr f.put rest)
  read bs := do
    let (n, rest) ← (nat 8).read bs
    f.readMany n rest

/-- Bytes, after their number. -/
def bytes : Format Bytes where
  put bs rest := (nat 8).put bs.length (prepend bs rest)
  read bs := do
    let (n, rest) ← (nat 8).read bs
    let (b, rest) ← (block n).read rest
    return (b.bytes, rest)

/-! ### Whole records -/

/-- The bytes of a value by itself. -/
def write (f : Format α) (a : α) : Bytes := f.put a []

/-- The value at the front of some bytes; what follows it is not looked at. -/
def decode (f : Format α) (bs : Bytes) : Except RecordFault α := (·.1) <$> f.read bs

end Format

end DoubleRatchet
