/-
DoubleRatchet/Proofs/PreKeyNumbers.lean

How one-time pre-keys are numbered.

The numbers from 1 to 0xfffffe form a circle, with 1 after 0xfffffe (`numberAfter`), which
leaves out 0 and the number of the pre-key of last resort.  A batch takes the numbers from
its start on, one for each key, round the circle as often as it has to (`preKeyNumbers`); a
start of 0 counts as 1, and one past the end as the number it comes to after whole rounds.
What comes after a number does not depend on the start (`preKeyNumber_after`), and a batch
is the same as a shorter one and another one from the number after its last.

Numbers are counted without a bound in all this; in words of 32 and 64 bits, the sums that
are taken on the way all fit (`wordNumber?_eq`).
-/
import DoubleRatchet.KeyGeneration
import DoubleRatchet.Proofs.Attempts
import Mathlib.Data.List.Nodup
import Mathlib.Data.List.Range
import Mathlib.Data.Nat.ModEq

namespace DoubleRatchet

theorem toNat_preKeyModulus : limits.preKeyModulus.toNat = 0xfffffe := rfl

/-! ### Places in the circle -/

/-- The number after another one. -/
def numberAfter (id : UInt32) : UInt32 := if id = limits.preKeyModulus then 1 else id + 1

section
variable (start : UInt32) (i j : Nat)

theorem toNat_preKeyNumber :
    (preKeyNumber start i).toNat = (start.toNat - 1 + i) % 0xfffffe + 1 := by
  unfold preKeyNumber
  rw [UInt32.toNat_add, UInt32.toNat_ofNat', UInt32.toNat_one, toNat_preKeyModulus]
  omega

/-- The numbers of two places are the same if these are whole rounds apart. -/
theorem preKeyNumber_eq_iff :
    preKeyNumber start i = preKeyNumber start j ↔ i ≡ j [MOD 0xfffffe] := by
  rw [← UInt32.toNat_inj, toNat_preKeyNumber, toNat_preKeyNumber, Nat.add_right_cancel_iff]
  exact Nat.ModEq.add_iff_left rfl

theorem preKeyNumber_range : 1 ≤ preKeyNumber start i ∧ preKeyNumber start i ≤ 0xfffffe := by
  rw [UInt32.le_iff_toNat_le, UInt32.le_iff_toNat_le, toNat_preKeyNumber]
  simp only [UInt32.toNat_one, UInt32.reduceToNat]
  omega

theorem preKeyNumber_succ : preKeyNumber start (i + 1) = numberAfter (preKeyNumber start i) := by
  have last : preKeyNumber start i = limits.preKeyModulus
      ↔ (start.toNat - 1 + i) % 0xfffffe + 1 = 0xfffffe := by
    rw [← UInt32.toNat_inj, toNat_preKeyNumber, toNat_preKeyModulus]
  unfold numberAfter
  split
  · next full =>
    have := last.mp full
    rw [← UInt32.toNat_inj, toNat_preKeyNumber, UInt32.toNat_one]
    omega
  · next room =>
    have := mt last.mpr room
    rw [← UInt32.toNat_inj, toNat_preKeyNumber, UInt32.toNat_add, toNat_preKeyNumber,
      UInt32.toNat_one]
    omega

/-- A batch that starts after a number of another one goes on as that one does. -/
theorem preKeyNumber_after :
    preKeyNumber (preKeyNumber start i + 1) j = preKeyNumber start (i + 1 + j) := by
  rw [← UInt32.toNat_inj, toNat_preKeyNumber, toNat_preKeyNumber, UInt32.toNat_add,
    toNat_preKeyNumber, UInt32.toNat_one]
  omega

end

/-! ### Batches -/

/-- The numbers of a batch. -/
def preKeyNumbers (start count : UInt32) : List UInt32 :=
  (List.range count.toNat).map (preKeyNumber start)

section
variable (start count : UInt32)

theorem length_preKeyNumbers : (preKeyNumbers start count).length = count.toNat := by
  rw [preKeyNumbers, List.length_map, List.length_range]

theorem isChain_preKeyNumbers :
    (preKeyNumbers start count).IsChain fun id next => next = numberAfter id := by
  rw [preKeyNumbers, List.isChain_map, List.isChain_range]
  exact fun i _ => preKeyNumber_succ start i

/-- No number comes twice within one round. -/
theorem nodup_window (place : Nat) :
    (((preKeyNumbers start count).drop place).take 0xfffffe).Nodup := by
  rw [List.Nodup, List.pairwise_iff_getElem]
  intro i j _ within before same
  -- the places of a window differ by less than a round
  have near : j < 0xfffffe := within.trans_le (List.length_take_le _ _)
  simp only [preKeyNumbers, List.getElem_take, List.getElem_drop, List.getElem_map,
    List.getElem_range] at same
  have rounds := Nat.ModEq.add_left_cancel' place ((preKeyNumber_eq_iff _ _ _).mp same)
  exact before.ne (rounds.eq_of_lt_of_lt (before.trans near) near)

variable {start count}

/-- A batch goes on where a shorter one stops. -/
theorem preKeyNumbers_append {a b : UInt32} (positive : 1 ≤ a)
    (whole : a.toNat + b.toNat = count.toNat) :
    ∃ last, (preKeyNumbers start a).getLast? = some last ∧ last ≤ 0xfffffe ∧
      preKeyNumbers start count = preKeyNumbers start a ++ preKeyNumbers (last + 1) b := by
  have enough : 1 ≤ a.toNat := UInt32.le_iff_toNat_le.mp positive
  refine ⟨preKeyNumber start (a.toNat - 1), ?_, (preKeyNumber_range _ _).2, ?_⟩
  · rw [preKeyNumbers, List.getLast?_map, List.getLast?_range, if_neg (Nat.ne_of_gt enough)]
    rfl
  · unfold preKeyNumbers
    rw [← whole, List.range_add, List.map_append, List.map_map]
    congr 1
    refine List.map_congr_left fun i _ => ?_
    rw [preKeyNumber_after, Nat.sub_add_cancel enough]
    rfl

end

/-! ### Drawing a batch -/

namespace Suite

variable (S : Suite)

/-- The pre-keys with the given numbers that the next bytes make. -/
def nextPreKeys : List UInt32 → Entropy → List PreKey
  | [], _ => []
  | id :: ids, e => ⟨id, S.nextKeyPair e⟩ :: nextPreKeys ids (e.advance 32)

theorem ids_nextPreKeys (ids : List UInt32) (e : Entropy) :
    (S.nextPreKeys ids e).map (·.id) = ids := by
  induction ids generalizing e with
  | nil => rfl
  | cons id ids ih => exact congrArg (id :: ·) (ih (e.advance 32))

theorem run_mapM_preKeys {e : Entropy} (alive : e.dead = false) (number : Nat → UInt32)
    (places : List Nat) :
    (places.mapM fun i => (do return ⟨number i, ← S.drawKeyPair⟩ : Draw PreKey)).run e
      = (.ok (S.nextPreKeys (places.map number) e), e.advance (32 * places.length)) := by
  induction places generalizing e with
  | nil => rfl
  | cons i places ih =>
    have rest := ih (e := e.advance 32) alive
    have bytes : 32 * (i :: places).length = 32 + 32 * places.length := by
      rw [List.length_cons]
      omega
    rw [List.mapM_cons, Draw.run_bind, Draw.run_bind, S.run_drawKeyPair, alive,
      if_neg Bool.false_ne_true]
    simp only [Draw.run_pure]
    rw [Draw.run_bind, rest, bytes, Entropy.advance, Entropy.advance, Nat.add_assoc]
    rfl

/-- A batch is drawn with its numbers, unless there are no random bytes. -/
theorem run_drawPreKeys (start count : UInt32) (e : Entropy) :
    (S.drawPreKeys start count).run e
      = if e.dead ∧ count ≠ 0 then (.error .noEntropy, e)
        else (.ok (S.nextPreKeys (preKeyNumbers start count) e), e.advance (32 * count.toNat)) := by
  unfold drawPreKeys
  cases dead : e.dead with
  | false =>
    rw [if_neg (by simp), S.run_mapM_preKeys dead, List.length_range]
    rfl
  | true =>
    by_cases none : count = 0
    · -- nothing is drawn for an empty batch
      subst none
      rfl
    · have nonzero : count.toNat ≠ 0 := fun zero => none (UInt32.toNat_inj.mp zero)
      obtain ⟨n, more⟩ := Nat.exists_eq_succ_of_ne_zero nonzero
      rw [if_pos ⟨rfl, none⟩, more, List.range_succ_eq_map, List.mapM_cons, Draw.run_bind,
        Draw.run_bind, S.run_drawKeyPair, dead]
      rfl

end Suite

/-! ### In machine words -/

section
variable {v w : Nat}

/-- The sum of two words; none if it does not fit. -/
def wordSum? (a b : BitVec w) : Option (BitVec w) :=
  if a.uaddOverflow b then none else some (a + b)

/-- The low bits of a word; none if any others are set. -/
def narrow? (w : Nat) (a : BitVec v) : Option (BitVec w) :=
  if a.toNat < 2 ^ w then some (a.setWidth w) else none

theorem wordSum?_of_lt {a b : BitVec w} (fits : a.toNat + b.toNat < 2 ^ w) :
    wordSum? a b = some (a + b) := by
  refine if_neg ?_
  rw [BitVec.uaddOverflow, decide_eq_true_eq]
  exact Nat.not_le.mpr fits

theorem wordSum?_ofNat {m n : Nat} (fits : m + n < 2 ^ w) :
    wordSum? (BitVec.ofNat w m) (BitVec.ofNat w n) = some (BitVec.ofNat w (m + n)) := by
  have left : (BitVec.ofNat w m).toNat = m := Nat.mod_eq_of_lt (by omega)
  have right : (BitVec.ofNat w n).toNat = n := Nat.mod_eq_of_lt (by omega)
  rw [BitVec.ofNat_add]
  exact wordSum?_of_lt (by rwa [left, right])

theorem narrow?_ofNat {n : Nat} (fits : n < 2 ^ w) (wider : w ≤ v) :
    narrow? w (BitVec.ofNat v n) = some (BitVec.ofNat w n) := by
  have same : (BitVec.ofNat v n).toNat = n :=
    Nat.mod_eq_of_lt (fits.trans_le (Nat.pow_le_pow_right (by decide) wider))
  rw [narrow?, ← BitVec.ofNat_toNat, same, if_pos fits]

end

/-- One less, but no less than zero. -/
def lessOne (a : BitVec 32) : BitVec 32 := if a = 0#32 then 0#32 else a - 1#32

theorem toNat_lessOne (a : BitVec 32) : (lessOne a).toNat = a.toNat - 1 := by
  unfold lessOne
  split
  · next zero => rw [zero, BitVec.toNat_zero]
  · next positive =>
    have nonzero : a.toNat ≠ 0 := fun zero => positive (BitVec.eq_of_toNat_eq zero)
    have below := a.isLt
    rw [BitVec.toNat_sub, BitVec.toNat_one (by decide)]
    omega

/-- The number that is `i` places after number `start`, worked out in words of 32 and 64 bits; none
as soon as anything does not fit. -/
def wordNumber? (start i : UInt32) : Option UInt32 := do
  let sum ← wordSum? ((lessOne start.toBitVec).setWidth 64) (i.toBitVec.setWidth 64)
  let place ← narrow? 32 (sum % limits.preKeyModulus.toBitVec.setWidth 64)
  return ⟨← wordSum? place 1#32⟩

/-- Everything fits. -/
theorem wordNumber?_eq (start i : UInt32) :
    wordNumber? start i = some (preKeyNumber start i.toNat) := by
  have start_lt := start.toNat_lt
  have i_lt := i.toNat_lt
  obtain ⟨place, place_eq, place_lt⟩ :
      ∃ place, (start.toNat - 1 + i.toNat) % 0xfffffe = place ∧ place < 0xfffffe :=
    ⟨_, rfl, Nat.mod_lt _ (by decide)⟩
  have sum : wordSum? ((lessOne start.toBitVec).setWidth 64) (i.toBitVec.setWidth 64)
      = some (BitVec.ofNat 64 (start.toNat - 1 + i.toNat)) := by
    rw [← BitVec.ofNat_toNat, ← BitVec.ofNat_toNat, toNat_lessOne, UInt32.toNat_toBitVec,
      UInt32.toNat_toBitVec]
    exact wordSum?_ofNat (by omega)
  have remainder : BitVec.ofNat 64 (start.toNat - 1 + i.toNat)
      % limits.preKeyModulus.toBitVec.setWidth 64 = BitVec.ofNat 64 place := by
    have modulus : (limits.preKeyModulus.toBitVec.setWidth 64).toNat = 0xfffffe := rfl
    apply BitVec.eq_of_toNat_eq
    rw [BitVec.toNat_umod, modulus, BitVec.toNat_ofNat, BitVec.toNat_ofNat]
    omega
  have narrow : narrow? 32 (BitVec.ofNat 64 place) = some (BitVec.ofNat 32 place) :=
    narrow?_ofNat (by omega) (by decide)
  have number : wordSum? (BitVec.ofNat 32 place) 1#32 = some (BitVec.ofNat 32 (place + 1)) :=
    wordSum?_ofNat (by omega)
  have same : (⟨BitVec.ofNat 32 (place + 1)⟩ : UInt32) = preKeyNumber start i.toNat := by
    rw [← UInt32.toNat_inj, toNat_preKeyNumber, place_eq]
    exact Nat.mod_eq_of_lt (by omega)
  simp only [wordNumber?, sum, Option.bind_eq_bind, Option.bind_some, remainder, narrow, number]
  exact congrArg some same

/-! ### The numbers of a batch -/

/-- A batch of `count` pre-keys is numbered from 1 to 0xfffffe only, each number is the one after that
before it in the circle, and none comes twice within a round.  A batch can be made in two parts,
the second one starting after the last number of the first.  No number that is worked out on the
way overflows, and only a dead source keeps a batch from being made. -/
theorem pre_keys_numbered (start count : UInt32) :
    (∀ (S : Suite) (e : Entropy), match (S.drawPreKeys start count).run e with
      | (.ok keys, _) => keys.length = count.toNat ∧ keys.map (·.id) = preKeyNumbers start count
      | (.error _, _) => e.dead = true) ∧
    (∀ id ∈ preKeyNumbers start count, 1 ≤ id ∧ id ≤ 0xfffffe ∧ id ≠ lastResortPreKey) ∧
    ((preKeyNumbers start count).IsChain fun id next =>
      next = if id = 0xfffffe then 1 else id + 1) ∧
    (∀ place, (((preKeyNumbers start count).drop place).take 0xfffffe).Nodup) ∧
    (∀ a b : UInt32, 1 ≤ a → a.toNat + b.toNat = count.toNat →
      ∃ last next : UInt32, (preKeyNumbers start a).getLast? = some last ∧
        wordSum? last.toBitVec 1#32 = some next.toBitVec ∧
        preKeyNumbers start count = preKeyNumbers start a ++ preKeyNumbers next b) ∧
    (∀ i, wordNumber? start i = some (preKeyNumber start i.toNat)) ∧
    -- the start, as it is reported
    (wordSum? (lessOne start.toBitVec) 1#32).isSome := by
  refine ⟨fun S e => ?_, fun id member => ?_, isChain_preKeyNumbers start count,
    nodup_window start count, fun a b positive whole => ?_, wordNumber?_eq start, ?_⟩
  · rw [S.run_drawPreKeys]
    by_cases failed : e.dead ∧ count ≠ 0
    · rw [if_pos failed]
      exact failed.1
    · rw [if_neg failed]
      have ids := S.ids_nextPreKeys (preKeyNumbers start count) e
      have length := congrArg List.length ids
      rw [List.length_map, length_preKeyNumbers] at length
      exact ⟨length, ids⟩
  · obtain ⟨i, -, rfl⟩ := List.mem_map.mp member
    obtain ⟨low, high⟩ := preKeyNumber_range start i
    refine ⟨low, high, fun last => ?_⟩
    rw [last] at high
    exact absurd high (by decide)
  · obtain ⟨last, isLast, small, append⟩ := preKeyNumbers_append positive whole
    have below : last.toNat + 1 < 2 ^ 32 :=
      (Nat.add_le_add_right (UInt32.le_iff_toNat_le.mp small) 1).trans_lt (by decide)
    exact ⟨last, last + 1, isLast, wordSum?_of_lt below, append⟩
  · have below : (lessOne start.toBitVec).toNat + 1 < 2 ^ 32 := by
      have := start.toNat_lt
      rw [toNat_lessOne, UInt32.toNat_toBitVec]
      omega
    rw [wordSum?_of_lt below, Option.isSome_some]

/-- A batch that goes past the end of the circle, made in two parts. -/
theorem pre_keys_numbered_round :
    preKeyNumbers 0xfffffd 4 = [0xfffffd, 0xfffffe, 1, 2] ∧
    1 ∈ preKeyNumbers 0xfffffd 4 ∧
    ((1 : UInt32) ≤ 1 ∧ (1 : UInt32) ≤ 0xfffffe ∧ 1 ≠ lastResortPreKey) ∧
    (1 : UInt32) ≤ 2 ∧ (2 : UInt32).toNat + (2 : UInt32).toNat = (4 : UInt32).toNat ∧
    ∃ last next : UInt32, (preKeyNumbers 0xfffffd 2).getLast? = some last ∧
      wordSum? last.toBitVec 1#32 = some next.toBitVec ∧
      preKeyNumbers 0xfffffd 4 = preKeyNumbers 0xfffffd 2 ++ preKeyNumbers next 2 := by
  obtain ⟨-, numbers, -, -, parts, -⟩ := pre_keys_numbered 0xfffffd 4
  have one : 1 ∈ preKeyNumbers 0xfffffd 4 := by decide +kernel
  exact ⟨by decide +kernel, one, numbers 1 one, by decide, rfl, parts 2 2 (by decide) rfl⟩

end DoubleRatchet
