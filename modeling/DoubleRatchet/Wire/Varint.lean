/-
DoubleRatchet/Wire/Varint.lean

Numbers of variable length on the wire: seven bits to a byte, lowest first, the
high bit set on all bytes but the last.  A number has at most ten bytes and fits
64 bits; longer forms of a small number are read as well.

`readVarint_writeVarint`: what is written is read back, whatever follows it.
-/
import DoubleRatchet.Bytes

namespace DoubleRatchet

/-- The bytes of a number, with at most `count` of them. -/
def varintBytes : (count : Nat) → Nat → Bytes
  | 0, _ => []
  | count + 1, n =>
    if n < 128 then [UInt8.ofNat n] else UInt8.ofNat (n % 128 + 128) :: varintBytes count (n / 128)

/-- The bytes of a number below `2⁶⁴`. -/
def writeVarint (n : Nat) : Bytes := varintBytes 10 n

/-- Read a number of at most `count` bytes; the last allowed byte can only be 0 or 1. -/
def readVarintBytes : (count : Nat) → Bytes → Option (Nat × Bytes)
  | 0, _ => none
  | _ + 1, [] => none
  | count + 1, b :: rest =>
    if b.toNat < 128 then
      if count = 0 ∧ 2 ≤ b.toNat then none else some (b.toNat, rest)
    else
      (readVarintBytes count rest).map fun (n, rest) => (b.toNat - 128 + 128 * n, rest)

/-- Read a number below `2⁶⁴`. -/
def readVarint (bs : Bytes) : Option (Nat × Bytes) := readVarintBytes 10 bs

/-! ### Reading what was written -/

/-- How many numbers are read back from `count + 1` bytes: seven bits for each byte but the last,
which has one. -/
def varintCapacity : (count : Nat) → Nat
  | 0 => 2
  | count + 1 => 128 * varintCapacity count

theorem readVarintBytes_varintBytes (count n : Nat) (rest : Bytes)
    (h : n < varintCapacity count) :
    readVarintBytes (count + 1) (varintBytes (count + 1) n ++ rest) = some (n, rest) := by
  induction count generalizing n with
  | zero =>
    rw [varintCapacity] at h
    have hn : n < 128 := by omega
    have hb : (UInt8.ofNat n).toNat = n := by simp; omega
    simp only [varintBytes, hn, if_true, List.singleton_append, readVarintBytes, hb]
    rw [if_neg]
    omega
  | succ count ih =>
    rw [varintBytes]
    split
    · rename_i hn
      have hb : (UInt8.ofNat n).toNat = n := by simp; omega
      simp [readVarintBytes, hb, hn]
    · rename_i hn
      have hb : (UInt8.ofNat (n % 128 + 128)).toNat = n % 128 + 128 := by simp; omega
      have hq : n / 128 < varintCapacity count := by
        rw [varintCapacity] at h
        omega
      rw [List.cons_append, readVarintBytes, hb, if_neg (by omega), ih _ hq]
      simp only [Option.map_some, Option.some.injEq, Prod.mk.injEq, and_true]
      omega

theorem readVarint_writeVarint (n : Nat) (rest : Bytes) (h : n < UInt64.size) :
    readVarint (writeVarint n ++ rest) = some (n, rest) :=
  readVarintBytes_varintBytes 9 n rest h

end DoubleRatchet
