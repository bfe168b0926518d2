/-
DoubleRatchet/Bytes.lean

Byte strings.  Everything that is hashed, sent or stored is a list of bytes;
keys, tags and nonces are `Block n`, a list together with the fact that it has
`n` bytes, so that no reader of a key ever has to ask for its length.

Numbers are written in two ways: little endian (`toLittle`, `ofLittle`: keys,
scalars and record fields) and big endian (`toBig`: hash padding).  The two
directions of the little-endian form are inverse to each other
(`ofLittle_toLittle`, `toLittle_ofLittle`), which is what every fixed-width
field of a record rests on.
-/

namespace DoubleRatchet

/-- A byte string. -/
abbrev Bytes := List UInt8

/-- One byte string in front of another, in a single pass over the first. -/
def prepend : Bytes → Bytes → Bytes
  | [], rest => rest
  | b :: bs, rest => b :: prepend bs rest

@[simp] theorem prepend_eq_append (bs rest : Bytes) : prepend bs rest = bs ++ rest := by
  induction bs with
  | nil => rfl
  | cons b bs ih => simp [prepend, ih]

/-! ### Blocks -/

/-- Exactly `n` bytes. -/
@[ext] structure Block (n : Nat) where
  bytes : Bytes
  length_eq : bytes.length = n
  deriving DecidableEq

namespace Block

variable {m n : Nat}

/-- The bytes as a block, if there are exactly `n` of them. -/
def ofBytes? (n : Nat) (bs : Bytes) : Option (Block n) :=
  if h : bs.length = n then some ⟨bs, h⟩ else none

/-- The first `n` bytes and what follows them, if there are as many.  The bytes that follow are not
counted, so a long string is read block by block in time proportional to its length. -/
def split? (n : Nat) (bs : Bytes) : Option (Block n × Bytes) :=
  (ofBytes? n (bs.take n)).map fun b => (b, bs.drop n)

/-- `n` copies of one byte. -/
def replicate (n : Nat) (b : UInt8) : Block n := ⟨List.replicate n b, List.length_replicate⟩

/-- The bytes of a function, in order. -/
def ofFn (f : Fin n → UInt8) : Block n := ⟨List.ofFn f, List.length_ofFn⟩

/-- Change every byte. -/
def map (f : UInt8 → UInt8) (b : Block n) : Block n := ⟨b.bytes.map f, by simp [b.length_eq]⟩

/-- The first `n` bytes of a list that has at least as many. -/
def takeFrom (n : Nat) (bs : Bytes) (h : n ≤ bs.length) : Block n :=
  ⟨bs.take n, by simp [h]⟩

/-- `len` bytes from position `start` on. -/
def slice (b : Block n) (start len : Nat) (h : start + len ≤ n := by decide) : Block len :=
  ⟨(b.bytes.drop start).take len, by simp [b.length_eq]; omega⟩

/-- One block after another. -/
def append (a : Block m) (b : Block n) : Block (m + n) :=
  ⟨a.bytes ++ b.bytes, by simp [a.length_eq, b.length_eq]⟩

/-- The block whose byte `i` is `f` of byte `i` of `b`. -/
def modify (b : Block n) (i : Nat) (f : UInt8 → UInt8) : Block n :=
  ⟨b.bytes.modify i f, by simp [b.length_eq]⟩

theorem bytes_inj {a b : Block n} : a.bytes = b.bytes ↔ a = b := by
  cases a; cases b; simp

@[simp] theorem length_bytes (b : Block n) : b.bytes.length = n := b.length_eq

@[simp] theorem ofBytes?_bytes (b : Block n) : ofBytes? n b.bytes = some b := by
  simp [ofBytes?]

theorem bytes_of_ofBytes? {bs : Bytes} {b : Block n} (h : ofBytes? n bs = some b) :
    b.bytes = bs := by
  unfold ofBytes? at h
  split at h
  · cases h; rfl
  · cases h

@[simp] theorem split?_append (b : Block n) (rest : Bytes) :
    split? n (b.bytes ++ rest) = some (b, rest) := by
  simp [split?]

theorem append_of_split? {bs rest : Bytes} {b : Block n} (h : split? n bs = some (b, rest)) :
    b.bytes ++ rest = bs := by
  obtain ⟨c, hc, heq⟩ := Option.map_eq_some_iff.mp h
  cases heq
  rw [bytes_of_ofBytes? hc, List.take_append_drop]

theorem split?_eq_none_iff {bs : Bytes} : split? n bs = none ↔ bs.length < n := by
  rw [split?, Option.map_eq_none_iff, ofBytes?]
  split <;> rename_i h <;> rw [List.length_take] at h
  · exact iff_of_false nofun (by omega)
  · exact iff_of_true rfl (by omega)

end Block

/-! ### Numbers as bytes -/

/-- How many numbers `w` bytes can hold. -/
def capacity : (w : Nat) → Nat
  | 0 => 1
  | w + 1 => 256 * capacity w

/-- The number whose little-endian digits are the bytes. -/
def ofLittle : Bytes → Nat
  | [] => 0
  | b :: bs => b.toNat + 256 * ofLittle bs

/-- The low `8 * w` bits of a number, least significant byte first. -/
def toLittle : (w : Nat) → Nat → Bytes
  | 0, _ => []
  | w + 1, n => UInt8.ofNat n :: toLittle w (n / 256)

/-- The low `8 * w` bits of a number, most significant byte first. -/
def toBig (w n : Nat) : Bytes := (toLittle w n).reverse

@[simp] theorem length_toLittle (w n : Nat) : (toLittle w n).length = w := by
  induction w generalizing n with
  | zero => rfl
  | succ w ih => simp [toLittle, ih]

@[simp] theorem length_toBig (w n : Nat) : (toBig w n).length = w := by simp [toBig]

theorem ofLittle_lt (bs : Bytes) : ofLittle bs < capacity bs.length := by
  induction bs with
  | nil => simp [ofLittle, capacity]
  | cons b bs ih =>
    have hb : b.toNat < 256 := b.toNat_lt
    simp only [ofLittle, List.length_cons, capacity]
    omega

theorem ofLittle_toLittle (w n : Nat) : ofLittle (toLittle w n) = n % capacity w := by
  induction w generalizing n with
  | zero => simp [toLittle, ofLittle, capacity, Nat.mod_one]
  | succ w ih =>
    have hb : (UInt8.ofNat n).toNat = n % 256 := by simp
    rw [toLittle, ofLittle, ih, hb, capacity, Nat.mod_mul]

theorem toLittle_ofLittle (bs : Bytes) : toLittle bs.length (ofLittle bs) = bs := by
  induction bs with
  | nil => rfl
  | cons b bs ih =>
    have hb : b.toNat < 256 := b.toNat_lt
    have hq : (b.toNat + 256 * ofLittle bs) / 256 = ofLittle bs := by omega
    have hr : UInt8.ofNat (b.toNat + 256 * ofLittle bs) = b := by
      apply UInt8.toNat_inj.mp
      simp only [UInt8.toNat_ofNat']
      omega
    simp only [List.length_cons, ofLittle, toLittle, hq, hr, ih]

/-- The little-endian form of a number as a block. -/
def littleBlock (w n : Nat) : Block w := ⟨toLittle w n, length_toLittle w n⟩

/-! ### Text -/

/-- The bytes of a text in UTF-8. -/
def utf8 (s : String) : Bytes := s.toUTF8.toList

/-- One hexadecimal digit. -/
def hexDigit (n : Nat) : Char := Char.ofNat (if n < 10 then 48 + n else 87 + n)

/-- Two lower-case hexadecimal digits for each byte. -/
def hex (bs : Bytes) : String :=
  String.ofList (bs.flatMap fun b => [hexDigit (b.toNat / 16), hexDigit (b.toNat % 16)])

/-- The value of a hexadecimal digit, in either case. -/
def hexValue? (c : Char) : Option Nat :=
  if c.isDigit then some (c.toNat - 48)
  else if 'a' ≤ c ∧ c ≤ 'f' then some (c.toNat - 87)
  else if 'A' ≤ c ∧ c ≤ 'F' then some (c.toNat - 55)
  else none

/-- The bytes of pairs of hexadecimal digits. -/
def unhexDigits? : List Char → Option Bytes
  | [] => some []
  | [_] => none
  | a :: b :: rest => do
    return UInt8.ofNat (16 * (← hexValue? a) + (← hexValue? b)) :: (← unhexDigits? rest)

/-- The bytes that a text writes in hexadecimal. -/
def unhex? (s : String) : Option Bytes := unhexDigits? s.toList

/-- Two byte strings combined byte by byte with exclusive or; the longer one is cut. -/
def xorBytes (a b : Bytes) : Bytes := List.zipWith (· ^^^ ·) a b

end DoubleRatchet
