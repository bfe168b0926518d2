/-
DoubleRatchet/Proofs/Derivation.lean

A window gives the keys that its chain would have given.

A window starts at some place of a chain, with no skipped keys, and is asked for one
number after another, in any order; a request that fails changes nothing.  What it does
then can be said without it:

    first ──► ... ──► index ──► ... ──► n        n is ahead: the chain moves past it
      └ spent or cached ┘                        n is behind: it is cached, or a duplicate

`Agrees` puts this together for one more request after any others: when there is a key,
that it is the key of the first chain so many steps on, where the window stands then, and
what is cached.  Nothing but two things makes a number that has been passed go from the
cache: a request for it, and a request that passes so many others that it is among the
oldest of more than may be kept (`spent_after_iff`).

Sessions and groups have windows of different chains; both agree (`windows_agree`).
-/
import Mathlib.Data.List.DropRight
import Mathlib.Data.List.Induction
import DoubleRatchet.Proofs.GroupOnce
import DoubleRatchet.Proofs.Windows

namespace DoubleRatchet

variable {C K : Type} {R : ChainRule C K}

/-! ### Chains that end with their numbers -/

/-- A chain that counts its keys and goes on as long as there are numbers. -/
structure ChainRule.CountsOut (R : ChainRule C K) : Prop extends R.Counts where
  next_ok : ∀ {c}, R.index c ≠ 0xffffffff → ∃ c', R.next c = .ok c'

theorem ChainKey.countsOut (S : Suite) : (ChainKey.rule S).CountsOut where
  toCounts := counts S
  next_ok {_} more := ⟨_, if_neg more⟩

theorem GroupChainKey.countsOut (S : Suite) : (GroupChainKey.rule S).CountsOut where
  toCounts := counts S
  next_ok {_} more := ⟨_, if_neg more⟩

namespace ChainRule

variable {c c' : C} {d : Nat}

theorem Counts.index_lt (hR : R.Counts) (h : R.next c = .ok c') :
    (R.index c).toNat < 0xffffffff := by
  have := hR.index_next h
  have := (R.index c').toNat_lt
  omega

theorem CountsOut.next_of_lt (hR : R.CountsOut) (more : (R.index c).toNat < 0xffffffff) :
    ∃ c', R.next c = .ok c' := by
  refine hR.next_ok fun last => ?_
  rw [last] at more
  exact Nat.lt_irrefl _ more

/-- A chain gets to every number that it has not passed. -/
theorem CountsOut.exists_pass (hR : R.CountsOut) (near : (R.index c).toNat + d ≤ 0xffffffff) :
    ∃ c', R.pass d c = .ok c' := by
  induction d generalizing c with
  | zero => exact ⟨c, rfl⟩
  | succ d ih =>
    obtain ⟨after, next⟩ := hR.next_of_lt (c := c) (by omega)
    obtain ⟨c', passed⟩ := ih (c := after) (by rw [hR.index_next next]; omega)
    exact ⟨c', by rw [pass, next]; exact passed⟩

end ChainRule

/-! ### The oldest give way -/

theorem keepNewest_eq_rtake {α : Type} {limit : Nat} {old : List α} (few : old.length ≤ limit)
    (new : List α) : keepNewest limit old new = (old ++ new).rtake limit := by
  rw [keepNewest, List.rtake, List.length_append]
  congr 1
  omega

/-- What is in an increasing list is either among the last of it or before them. -/
theorem mem_rdrop_iff {l : List Nat} (increasing : l.Pairwise (· < ·)) {limit n : Nat} :
    n ∈ l.rdrop limit ↔ n ∈ l ∧ n ∉ l.rtake limit := by
  have whole : l.rdrop limit ++ l.rtake limit = l := List.take_append_drop ..
  have apart := increasing
  rw [← whole, List.pairwise_append] at apart
  have mem : n ∈ l ↔ n ∈ l.rdrop limit ∨ n ∈ l.rtake limit := by
    rw [← List.mem_append, whole]
  rw [mem]
  constructor
  · intro gone
    exact ⟨.inl gone, fun kept => Nat.lt_irrefl n (apart.2.2 n gone n kept)⟩
  · rintro ⟨gone | kept, missing⟩
    · exact gone
    · exact absurd kept missing

namespace Window

variable {w w' : Window C K} {n m : UInt32} {k : K} {first : C}

variable (R)

/-- The numbers whose keys are cached, oldest first. -/
def numbers (w : Window C K) : List Nat := w.skipped.map fun k => (R.number k).toNat

/-- There is a key for the number. -/
def Serves (w : Window C K) (n : UInt32) : Prop := ∃ k w', w.take R n = .ok (k, w')

/-- The numbers that are there to be cached once a number has been served: those that are cached
already, and those that the chain passes on its way, up to the one that is served. -/
def queue (w : Window C K) (n : UInt32) : List Nat :=
  (w.numbers R).erase n.toNat ++
    List.range' (R.index w.chain).toNat (n.toNat - (R.index w.chain).toNat)

/-- The window after a request; one that fails leaves it as it was. -/
def request (w : Window C K) (n : UInt32) : Window C K :=
  match w.take R n with
  | .ok (_, w') => w'
  | .error _ => w

/-- The window that starts at a chain, after some requests. -/
def after (first : C) (asked : List UInt32) : Window C K := asked.foldl (request R) ⟨first, []⟩

variable {R}

theorem has_iff_mem_numbers : w.has R n ↔ n.toNat ∈ w.numbers R := by
  simp [has, numbers, UInt32.toNat_inj]

theorem spent_iff : w.Spent R n ↔ n.toNat < (R.index w.chain).toNat ∧ n.toNat ∉ w.numbers R := by
  have absent : (∀ k ∈ w.skipped, R.number k ≠ n) ↔ n.toNat ∉ w.numbers R := by
    simp [numbers, UInt32.toNat_inj]
  rw [← absent, ← UInt32.lt_iff_toNat_lt]
  exact ⟨fun h => ⟨h.passed, h.gone⟩, fun ⟨passed, gone⟩ => ⟨passed, gone⟩⟩

theorem request_of_ok (h : w.take R n = .ok (k, w')) : w.request R n = w' := by
  rw [request, h]

theorem request_of_not_serves (h : ¬w.Serves R n) : w.request R n = w := by
  rw [request]
  split
  · next k w' taken => exact absurd ⟨k, w', taken⟩ h
  · rfl

theorem after_concat (first : C) (asked : List UInt32) (n : UInt32) :
    after R first (asked ++ [n]) = (after R first asked).request R n := by
  rw [after, List.foldl_append]
  rfl

/-! ### What is kept by requests -/

/-- A window that is as it is after some requests: its skipped keys are in order and not too many, and
all its keys are those of its first chain. -/
structure Reachable (R : ChainRule C K) (first : C) (w : Window C K) : Prop where
  ordered : w.Ordered R
  few : w.skipped.length ≤ limits.skippedKeys
  comes : w.From R first

theorem Reachable.take (hw : Reachable R first w) (hR : R.Counts) (h : w.take R n = .ok (k, w')) :
    Reachable R first w' where
  ordered := hw.ordered.take hR h
  few := few_take hw.few h
  comes := (hw.comes.take hR h).1

theorem Reachable.request (hw : Reachable R first w) (hR : R.Counts) (n : UInt32) :
    Reachable R first (w.request R n) := by
  by_cases served : w.Serves R n
  · obtain ⟨k, w', taken⟩ := served
    rw [request_of_ok taken]
    exact hw.take hR taken
  · rw [request_of_not_serves served]
    exact hw

theorem reachable_after (hR : R.Counts) (first : C) (asked : List UInt32) :
    Reachable R first (after R first asked) := by
  induction asked using List.reverseRecOn with
  | nil => exact ⟨ordered_new first, Nat.zero_le _, from_new⟩
  | append_singleton asked n ih =>
    rw [after_concat]
    exact ih.request hR n

theorem Ordered.increasing_numbers (hw : w.Ordered R) : (w.numbers R).Pairwise (· < ·) := by
  rw [numbers, List.pairwise_map]
  exact hw.increasing.imp UInt32.lt_iff_toNat_lt.mp

theorem Ordered.numbers_lt (hw : w.Ordered R) {i : Nat} (h : i ∈ w.numbers R) :
    i < (R.index w.chain).toNat := by
  obtain ⟨k, hk, rfl⟩ := List.mem_map.mp h
  exact UInt32.lt_iff_toNat_lt.mp (hw.below k hk)

/-! ### What is cached -/

theorem mem_queue_iff (hw : w.Ordered R) {i : Nat} :
    i ∈ w.queue R n ↔ (i ∈ w.numbers R ∧ i ≠ n.toNat) ∨
      ((R.index w.chain).toNat ≤ i ∧ i < n.toNat) := by
  have nodup : (w.numbers R).Nodup := hw.increasing_numbers.imp Nat.ne_of_lt
  rw [queue, List.mem_append, nodup.mem_erase_iff, List.mem_range'_1, and_comm]
  refine or_congr_right ?_
  omega

theorem Ordered.increasing_queue (hw : w.Ordered R) : (w.queue R n).Pairwise (· < ·) := by
  refine List.pairwise_append.mpr
    ⟨hw.increasing_numbers.sublist List.erase_sublist, List.pairwise_lt_range', ?_⟩
  intro old hold new hnew
  have := hw.numbers_lt (List.mem_of_mem_erase hold)
  rw [List.mem_range'_1] at hnew
  omega

theorem map_eraseP_number (keys : List K) (n : UInt32) :
    (keys.eraseP (R.number · == n)).map (fun k => (R.number k).toNat)
      = (keys.map fun k => (R.number k).toNat).erase n.toNat := by
  induction keys with
  | nil => rfl
  | cons k keys ih =>
    by_cases same : R.number k = n
    · rw [List.eraseP_cons_of_pos (by simpa using same), List.map_cons, same, List.erase_cons_head]
    · have ne : (R.number k).toNat ≠ n.toNat := fun h => same (UInt32.toNat_inj.mp h)
      rw [List.eraseP_cons_of_neg (by simpa using same), List.map_cons, List.map_cons,
        List.erase_cons_tail (by simpa using ne), ih]

/-- The newest are cached of those that are there to be. -/
theorem Reachable.numbers_take (hw : Reachable R first w) (hR : R.Counts)
    (h : w.take R n = .ok (k, w')) : w'.numbers R = (w.queue R n).rtake limits.skippedKeys := by
  rcases take_ok h with ⟨below, -, rfl⟩ | ⟨ahead, -, passed, chain, after, advanced, -, -, rfl⟩
  · -- the chain passes nothing, so that there are not more than before
    rw [UInt32.lt_iff_toNat_lt] at below
    have few : ((w.numbers R).erase n.toNat).length ≤ limits.skippedKeys :=
      Nat.le_trans List.erase_sublist.length_le (by simpa [numbers] using hw.few)
    show (w.skipped.eraseP _).map _ = (((w.numbers R).erase n.toNat) ++ List.range' _ _).rtake _
    rw [map_eraseP_number, Nat.sub_eq_zero_of_le (Nat.le_of_lt below), List.range'_zero,
      List.append_nil, List.rtake, Nat.sub_eq_zero_of_le few]
    rfl
  · rw [UInt32.le_iff_toNat_le] at ahead
    have absent : n.toNat ∉ w.numbers R := fun there => by
      have := hw.ordered.numbers_lt there
      omega
    show (keepNewest _ _ _).map _ = (((w.numbers R).erase n.toNat) ++ List.range' _ _).rtake _
    rw [keepNewest_eq_rtake hw.few, List.rtake, List.rtake, List.map_drop, List.map_append,
      hR.numbers_advance advanced, List.erase_of_not_mem absent, List.length_append,
      List.length_append, List.length_range', length_advance advanced]
    simp only [numbers, List.length_map]

/-- A number is spent by a request in two ways only: it is the one that is served, or it is among the
oldest of more than can be cached. -/
theorem Reachable.spent_request_iff (hw : Reachable R first w) (hR : R.Counts) :
    (w.request R n).Spent R m ↔ w.Spent R m ∨
      (w.Serves R n ∧ (n = m ∨ m.toNat ∈ (w.queue R n).rdrop limits.skippedKeys)) := by
  by_cases served : w.Serves R n
  · obtain ⟨k, w', taken⟩ := id served
    have index := index_take hR taken
    have queued := mem_queue_iff hw.ordered (n := n) (i := m.toNat)
    rw [request_of_ok taken, mem_rdrop_iff hw.ordered.increasing_queue, ← hw.numbers_take hR taken]
    constructor
    · intro spent
      obtain ⟨passed, missing⟩ := spent_iff.mp spent
      by_cases same : n = m
      · exact .inr ⟨served, .inl same⟩
      by_cases there : m.toNat ∈ w.queue R n
      · exact .inr ⟨served, .inr ⟨there, missing⟩⟩
      · have ne : m.toNat ≠ n.toNat := fun h => same (UInt32.toNat_inj.mp h).symm
        rw [queued] at there
        refine .inl (spent_iff.mpr ⟨?_, fun cached => there (.inl ⟨cached, ne⟩)⟩)
        omega
    · rintro (old | ⟨-, rfl | ⟨there, missing⟩⟩)
      · exact old.take hR taken
      · exact hw.ordered.spent_take hR taken
      · refine spent_iff.mpr ⟨?_, missing⟩
        rcases queued.mp there with ⟨cached, -⟩ | ⟨-, before⟩
        · have := hw.ordered.numbers_lt cached
          omega
        · omega
  · rw [request_of_not_serves served]
    simp [served]

/-- **What has become of a number that has been passed.**  A number from the beginning of the chain on
is passed and not cached exactly if some request has spent it. -/
theorem spent_after_iff (hR : R.Counts) {asked : List UInt32} (started : R.index first ≤ m) :
    (after R first asked).Spent R m ↔ ∃ before n later, asked = before ++ n :: later ∧
      let w := after R first before
      w.Serves R n ∧ (n = m ∨ m.toNat ∈ (w.queue R n).rdrop limits.skippedKeys) := by
  induction asked using List.reverseRecOn with
  | nil =>
    refine iff_of_false (fun h => ?_) (by simp)
    exact UInt32.not_lt.mpr started h.passed
  | append_singleton asked n ih =>
    rw [after_concat, (reachable_after hR first asked).spent_request_iff hR, ih]
    constructor
    · rintro (⟨before, n', later, rfl, spent⟩ | spent)
      · exact ⟨before, n', later ++ [n], by simp, spent⟩
      · exact ⟨asked, n, [], rfl, spent⟩
    · rintro ⟨before, n', later, split, spent⟩
      -- it is the last request, or one before it
      rcases List.eq_nil_or_concat later with rfl | ⟨later, last, rfl⟩
      · obtain ⟨rfl, ⟨⟩⟩ := List.append_inj' split rfl
        exact .inr spent
      · rw [List.concat_eq_append, ← List.cons_append, ← List.append_assoc] at split
        obtain ⟨rfl, -⟩ := List.append_inj' split rfl
        exact .inl ⟨before, n', later, rfl, spent⟩

/-! ### When there is a key, and which -/

/-- A number is served if it is cached, or if it is not too far ahead and not the last one. -/
theorem Reachable.serves_iff (hw : Reachable R first w) (hR : R.CountsOut) :
    w.Serves R n ↔
      ((R.index w.chain).toNat ≤ n.toNat ∧
        n.toNat - (R.index w.chain).toNat ≤ limits.forwardJump ∧ n.toNat < 0xffffffff) ∨
      (n.toNat < (R.index w.chain).toNat ∧ n.toNat ∈ w.numbers R) := by
  constructor
  · rintro ⟨k, w', taken⟩
    rcases take_ok taken with ⟨below, found, -⟩ | ⟨ahead, near, passed, chain, after, advanced, next, -⟩
    · refine .inr ⟨UInt32.lt_iff_toNat_lt.mp below, has_iff_mem_numbers.mp ?_⟩
      have number := List.find?_some (p := (R.number · == n)) found
      exact List.any_eq_true.mpr ⟨k, List.mem_of_find?_eq_some found, number⟩
    · have there := hR.index_advance advanced
      have more := hR.index_lt next
      rw [UInt32.le_iff_toNat_le] at ahead
      exact .inl ⟨ahead, near, by omega⟩
  · rintro (⟨ahead, near, more⟩ | ⟨below, cached⟩)
    · obtain ⟨i, hi⟩ := hw.comes.chain
      -- the chain gets to the number, and past it
      obtain ⟨c, hc⟩ := hR.exists_pass (c := w.chain)
        (d := n.toNat - (R.index w.chain).toNat) (by omega)
      have there := index_pass hR.toCounts hc
      obtain ⟨c', next⟩ := hR.next_of_lt (c := c) (by omega)
      have leads : Leads R first c := ⟨_, by rw [pass_add, hi]; exact hc⟩
      refine hw.comes.take_of_near hR.toCounts (UInt32.le_iff_toNat_le.mpr ahead) (by omega) leads ?_
        next
      exact UInt32.toNat_inj.mp (by omega)
    · exact take_of_has (UInt32.lt_iff_toNat_lt.mpr below) (has_iff_mem_numbers.mpr cached)

/-- The key is that of the first chain, so many steps on. -/
theorem Reachable.key_take (hw : Reachable R first w) (hR : R.Counts)
    (h : w.take R n = .ok (k, w')) :
    ∃ c, R.pass (n.toNat - (R.index first).toNat) first = .ok c ∧ R.index c = n ∧ k = R.key c := by
  obtain ⟨-, c, -, ⟨i, passed⟩, number, -, rfl⟩ := hw.comes.take hR h
  have place := index_pass hR passed
  rw [number] at place
  exact ⟨c, by rw [place, Nat.add_sub_cancel_left]; exact passed, number, rfl⟩

variable (R) in
/-- The window that starts at a chain, after some requests and asked for one more number, does as if
the key were derived from the first chain. -/
structure Agrees (first : C) (asked : List UInt32) (n : UInt32) : Prop where
  /-- There is a key for what is cached, and for what is not too far ahead and not the last number. -/
  served :
    let w := after R first asked
    let index := (R.index w.chain).toNat
    w.Serves R n ↔ (index ≤ n.toNat ∧ n.toNat - index ≤ limits.forwardJump ∧ n.toNat < 0xffffffff) ∨
      (n.toNat < index ∧ n.toNat ∈ w.numbers R)
  /-- It is the key of the first chain so many steps on, whether it was cached or not. -/
  derived : ∀ {k w'}, (after R first asked).take R n = .ok (k, w') →
    ∃ c, R.pass (n.toNat - (R.index first).toNat) first = .ok c ∧ R.index c = n ∧ k = R.key c
  /-- The window is then past the number, and has the numbers on the way cached, the newest only if
  there are too many; the number itself is not cached. -/
  moved : ∀ {k w'},
    let w := after R first asked
    let index := (R.index w.chain).toNat
    w.take R n = .ok (k, w') → (R.index w'.chain).toNat = max index (n.toNat + 1) ∧
      n.toNat ∉ w'.numbers R ∧ w'.numbers R = (w.queue R n).rtake limits.skippedKeys
  /-- What is not served is a duplicate if it has been passed, and else makes the message invalid. -/
  refused : ∀ {e},
    let w := after R first asked
    w.take R n = .error e →
      (n < R.index w.chain ∧ e = .duplicateMessage (R.index w.chain) n) ∨
      (R.index w.chain ≤ n ∧ ∃ fault, e = .invalidMessage fault)
  /-- A number that has been passed is missing exactly if it has been served, or was among the oldest
  when more than may be cached were there to be. -/
  missing :
    let w := after R first asked
    (R.index first).toNat ≤ n.toNat → n.toNat < (R.index w.chain).toNat →
      (n.toNat ∉ w.numbers R ↔ ∃ before m later, asked = before ++ m :: later ∧
        let v := after R first before
        v.Serves R m ∧ (m = n ∨ n.toNat ∈ (v.queue R m).rdrop limits.skippedKeys))

theorem agrees (hR : R.CountsOut) (first : C) (asked : List UInt32) (n : UInt32) :
    Agrees R first asked n := by
  have reachable := reachable_after (K := K) hR.toCounts first asked
  refine ⟨reachable.serves_iff hR, reachable.key_take hR.toCounts, fun taken => ?_, fun failed => ?_,
    fun started passed => ?_⟩
  · refine ⟨index_take hR.toCounts taken, ?_, reachable.numbers_take hR.toCounts taken⟩
    exact (spent_iff.mp (reachable.ordered.spent_take hR.toCounts taken)).2
  · rcases UInt32.lt_or_le n (R.index _) with below | ahead
    · refine .inl ⟨below, ?_⟩
      have spent := spent_iff.mpr ⟨UInt32.lt_iff_toNat_lt.mp below, fun cached => ?_⟩
      · rw [spent.take_eq] at failed
        exact (Except.error.inj failed).symm
      · obtain ⟨k, w', taken⟩ := take_of_has below (has_iff_mem_numbers.mpr cached)
        rw [taken] at failed
        cases failed
    · refine .inr ⟨ahead, ?_⟩
      rcases take_error hR.toCounts failed with ⟨below, -⟩ | invalid
      · exact absurd below (UInt32.not_lt.mpr ahead)
      · exact invalid
  · rw [← spent_after_iff hR.toCounts (UInt32.le_iff_toNat_le.mpr started), spent_iff]
    exact (and_iff_right passed).symm

end Window

/-- **Windows agree with their chains.**  Whatever has been asked of the window of a session or of a
group sender, with no skipped keys at first, the next request has the outcome, the key and the effect
that the first chain and the requests before it give. -/
theorem windows_agree (S : Suite) :
    (∀ first asked n, Window.Agrees (ChainKey.rule S) first asked n) ∧
      ∀ first asked n, Window.Agrees (GroupChainKey.rule S) first asked n :=
  ⟨Window.agrees (ChainKey.countsOut S), Window.agrees (GroupChainKey.countsOut S)⟩

end DoubleRatchet
