/-
DoubleRatchet/Proofs/Windows.lean

Windows give every key once.

The skipped keys of a window are below the index of its chain, in increasing order
(`Window.Ordered`), so no two of them have the same number.  A number is spent once it
is below the index and not among the skipped keys (`Window.Spent`); taking it spends
it, taking another one does not bring it back, and taking it again is a duplicate.
-/
import DoubleRatchet.Chain
import DoubleRatchet.Proofs.Outcomes

namespace DoubleRatchet

variable {C K : Type} {R : ChainRule C K}

/-! ### Chains that count -/

namespace ChainRule

/-- A chain that counts its keys: each step is one number further, and a key has the number of the
chain that gives it.  A chain that cannot go on finds the message invalid. -/
structure Counts (R : ChainRule C K) : Prop where
  index_next : ∀ {c c'}, R.next c = .ok c' → (R.index c').toNat = (R.index c).toNat + 1
  next_error : ∀ {c e}, R.next c = .error e → ∃ fault, e = .invalidMessage fault
  number_key : ∀ c, R.number (R.key c) = R.index c

theorem advance_succ {n : Nat} {c c' : C} {keys : List K} :
    R.advance (n + 1) c = .ok (keys, c') ↔ ∃ after rest, R.next c = .ok after ∧
      R.advance n after = .ok (rest, c') ∧ keys = R.key c :: rest := by
  rw [advance, bind_eq_ok]
  refine exists_congr fun after => ?_
  rw [bind_eq_ok]
  constructor
  · rintro ⟨next, ⟨rest, last⟩, advanced, ended⟩
    cases ended
    exact ⟨rest, next, advanced, rfl⟩
  · rintro ⟨rest, next, advanced, rfl⟩
    exact ⟨next, (rest, c'), advanced, rfl⟩

theorem Counts.index_advance (hR : R.Counts) {n : Nat} {c c' : C} {keys : List K}
    (h : R.advance n c = .ok (keys, c')) : (R.index c').toNat = (R.index c).toNat + n := by
  induction n generalizing c keys with
  | zero =>
    cases h
    rfl
  | succ n ih =>
    obtain ⟨after, rest, next, advanced, rfl⟩ := advance_succ.mp h
    rw [ih advanced, hR.index_next next]
    omega

/-- The keys that are passed have the numbers that are passed. -/
theorem Counts.numbers_advance (hR : R.Counts) {n : Nat} {c c' : C} {keys : List K}
    (h : R.advance n c = .ok (keys, c')) :
    keys.map (fun k => (R.number k).toNat) = List.range' (R.index c).toNat n := by
  induction n generalizing c keys with
  | zero =>
    cases h
    rfl
  | succ n ih =>
    obtain ⟨after, rest, next, advanced, rfl⟩ := advance_succ.mp h
    rw [List.map_cons, ih advanced, hR.number_key, hR.index_next next, List.range'_succ]

theorem Counts.advance_error (hR : R.Counts) {n : Nat} {c : C} {e : Error}
    (h : R.advance n c = .error e) : ∃ fault, e = .invalidMessage fault := by
  induction n generalizing c with
  | zero => cases h
  | succ n ih =>
    rw [advance] at h
    rcases bind_eq_error.mp h with failed | ⟨after, -, h⟩
    · exact hR.next_error failed
    · rcases bind_eq_error.mp h with failed | ⟨⟨rest, last⟩, _, h⟩
      · exact ih failed
      · cases h

end ChainRule

theorem toNat_add_one_of_ne {n : UInt32} (h : n ≠ 0xffffffff) : (n + 1).toNat = n.toNat + 1 := by
  have := n.toNat_lt
  have : n.toNat ≠ 0xffffffff := fun full => h (UInt32.toNat_inj.mp full)
  rw [UInt32.toNat_add]
  exact Nat.mod_eq_of_lt (by simp; omega)

/-- The chains of a session count. -/
theorem ChainKey.counts (S : Suite) : (ChainKey.rule S).Counts where
  index_next {c c'} h := by
    simp only [rule, next] at h
    split at h
    · cases h
    · rename_i room
      cases h
      exact toNat_add_one_of_ne room
  next_error {c e} h := by
    simp only [rule, next] at h
    split at h
    · cases h
      exact ⟨_, rfl⟩
    · cases h
  number_key c := rfl

/-! ### Windows -/

namespace Window

variable {w w' : Window C K} {n m : UInt32} {k : K}

/-- The skipped keys are below the index of the chain, in increasing order. -/
structure Ordered (R : ChainRule C K) (w : Window C K) : Prop where
  below : ∀ k ∈ w.skipped, R.number k < R.index w.chain
  increasing : w.skipped.Pairwise fun a b => R.number a < R.number b

/-- The number has been passed, and its key is not kept. -/
structure Spent (R : ChainRule C K) (w : Window C K) (n : UInt32) : Prop where
  passed : n < R.index w.chain
  gone : ∀ k ∈ w.skipped, R.number k ≠ n

theorem ordered_new (c : C) : Ordered R (⟨c, []⟩ : Window C K) := ⟨nofun, .nil⟩

/-- A key is taken from the skipped ones, or by moving the chain past it. -/
theorem take_ok (h : w.take R n = .ok (k, w')) :
    (n < R.index w.chain ∧ w.skipped.find? (R.number · == n) = some k ∧
      w' = { w with skipped := w.skipped.eraseP (R.number · == n) }) ∨
    (R.index w.chain ≤ n ∧ n.toNat - (R.index w.chain).toNat ≤ limits.forwardJump ∧
      ∃ passed chain after,
        R.advance (n.toNat - (R.index w.chain).toNat) w.chain = .ok (passed, chain) ∧
        R.next chain = .ok after ∧ k = R.key chain ∧
        w' = ⟨after, keepNewest limits.skippedKeys w.skipped passed⟩) := by
  unfold take takeSkipped? at h
  split at h
  · -- a number that has been passed has a skipped key
    rename_i below
    cases found : w.skipped.find? (R.number · == n) with
    | none =>
      rw [found] at h
      cases h
    | some key =>
      rw [found] at h
      cases h
      exact .inl ⟨below, rfl, rfl⟩
  · rename_i ahead
    dsimp only at h
    split at h
    · cases h
    · rename_i near
      obtain ⟨⟨passed, chain⟩, advanced, h⟩ := bind_eq_ok.mp h
      obtain ⟨after, next, h⟩ := bind_eq_ok.mp h
      cases h
      exact .inr ⟨UInt32.not_lt.mp ahead, Nat.not_lt.mp near, passed, chain, after, advanced, next,
        rfl, rfl⟩

/-- A key that cannot be had is a duplicate, or makes the message invalid. -/
theorem take_error (hR : R.Counts) {e : Error} (h : w.take R n = .error e) :
    (n < R.index w.chain ∧ (∀ k ∈ w.skipped, R.number k ≠ n) ∧
      e = .duplicateMessage (R.index w.chain) n) ∨ ∃ fault, e = .invalidMessage fault := by
  unfold take takeSkipped? at h
  split at h
  · rename_i below
    cases found : w.skipped.find? (R.number · == n) with
    | none =>
      rw [found] at h
      cases h
      refine .inl ⟨below, fun k hk => ?_, rfl⟩
      simpa using List.find?_eq_none.mp found k hk
    | some key =>
      rw [found] at h
      cases h
  · dsimp only at h
    split at h
    · cases h
      exact .inr ⟨_, rfl⟩
    · rcases bind_eq_error.mp h with failed | ⟨⟨passed, chain⟩, _, h⟩
      · exact .inr (hR.advance_error failed)
      · rcases bind_eq_error.mp h with failed | ⟨after, _, h⟩
        · exact .inr (hR.next_error failed)
        · cases h

/-- A spent number is a duplicate. -/
theorem Spent.take_eq (h : w.Spent R n) :
    w.take R n = .error (.duplicateMessage (R.index w.chain) n) := by
  have none : w.skipped.find? (R.number · == n) = none := by
    refine List.find?_eq_none.mpr fun k hk => ?_
    simpa using h.gone k hk
  simp [take, takeSkipped?, h.passed, none]

theorem mem_keepNewest {α : Type} {limit : Nat} {old new : List α} {a : α}
    (h : a ∈ keepNewest limit old new) : a ∈ old ∨ a ∈ new :=
  List.mem_append.mp (List.mem_of_mem_drop h)

/-- The chain moves on, to the number after the one that is taken if that was not passed before. -/
theorem index_take (hR : R.Counts) (h : w.take R n = .ok (k, w')) :
    (R.index w'.chain).toNat = max (R.index w.chain).toNat (n.toNat + 1) := by
  rcases take_ok h with ⟨below, -, rfl⟩ | ⟨ahead, -, passed, chain, after, advanced, next, -, rfl⟩
  · rw [UInt32.lt_iff_toNat_lt] at below
    dsimp only
    omega
  · rw [UInt32.le_iff_toNat_le] at ahead
    dsimp only
    rw [hR.index_next next, hR.index_advance advanced]
    omega

/-- What is skipped later was skipped before, or is not passed before. -/
theorem mem_skipped_take (hR : R.Counts) (h : w.take R n = .ok (k, w')) {key : K}
    (hk : key ∈ w'.skipped) :
    key ∈ w.skipped ∨ (R.index w.chain ≤ R.number key ∧ R.number key < n) := by
  rcases take_ok h with ⟨-, -, rfl⟩ | ⟨ahead, -, passed, chain, after, advanced, -, -, rfl⟩
  · exact .inl (List.mem_of_mem_eraseP hk)
  · refine (mem_keepNewest hk).imp_right fun new => ?_
    have number := List.mem_map_of_mem (f := fun k => (R.number k).toNat) new
    rw [hR.numbers_advance advanced, List.mem_range'_1] at number
    rw [UInt32.le_iff_toNat_le] at ahead
    rw [UInt32.le_iff_toNat_le, UInt32.lt_iff_toNat_lt]
    omega

theorem number_take (hR : R.Counts) (h : w.take R n = .ok (k, w')) : R.number k = n := by
  rcases take_ok h with ⟨-, found, -⟩ | ⟨ahead, -, passed, chain, after, advanced, -, rfl, -⟩
  · simpa using List.find?_some found
  · rw [UInt32.le_iff_toNat_le] at ahead
    rw [hR.number_key, ← UInt32.toNat_inj, hR.index_advance advanced]
    omega

/-- In increasing order a number occurs once, so that none is left when it is erased. -/
theorem number_ne_of_mem_eraseP {keys : List K}
    (h : keys.Pairwise fun a b => R.number a < R.number b) {n : UInt32} {k : K}
    (hk : k ∈ keys.eraseP (R.number · == n)) : R.number k ≠ n := by
  induction keys with
  | nil => cases hk
  | cons first rest ih =>
    rw [List.pairwise_cons] at h
    by_cases hf : R.number first = n
    · rw [List.eraseP_cons_of_pos (by simpa using hf)] at hk
      have greater := h.1 k hk
      rintro rfl
      rw [hf] at greater
      exact UInt32.lt_irrefl _ greater
    · rw [List.eraseP_cons_of_neg (by simpa using hf)] at hk
      rcases List.mem_cons.mp hk with rfl | hk
      · exact hf
      · exact ih h.2 hk

/-- Keys that are passed later have greater numbers. -/
theorem Ordered.increasing_append (hw : w.Ordered R) (hR : R.Counts) {d : Nat} {c : C}
    {passed : List K} (advanced : R.advance d w.chain = .ok (passed, c)) :
    (w.skipped ++ passed).Pairwise fun a b => R.number a < R.number b := by
  have numbers := hR.numbers_advance advanced
  rw [List.pairwise_append]
  refine ⟨hw.increasing, ?_, ?_⟩
  · have increasing := List.pairwise_lt_range' (s := (R.index w.chain).toNat) (n := d)
    rw [← numbers, List.pairwise_map] at increasing
    exact increasing.imp fun less => UInt32.lt_iff_toNat_lt.mpr less
  · intro old hold new hnew
    have number := List.mem_map_of_mem (f := fun k => (R.number k).toNat) hnew
    rw [numbers, List.mem_range'_1] at number
    have := UInt32.lt_iff_toNat_lt.mp (hw.below old hold)
    rw [UInt32.lt_iff_toNat_lt]
    omega

theorem Ordered.take (hw : w.Ordered R) (hR : R.Counts) (h : w.take R n = .ok (k, w')) :
    w'.Ordered R := by
  have below : ∀ key ∈ w'.skipped, R.number key < R.index w'.chain := by
    intro key hkey
    have index := index_take hR h
    rw [UInt32.lt_iff_toNat_lt]
    rcases mem_skipped_take hR h hkey with old | ⟨-, new⟩
    · have := UInt32.lt_iff_toNat_lt.mp (hw.below key old)
      omega
    · rw [UInt32.lt_iff_toNat_lt] at new
      omega
  refine ⟨below, ?_⟩
  rcases take_ok h with ⟨-, -, rfl⟩ | ⟨-, -, passed, chain, after, advanced, -, -, rfl⟩
  · exact hw.increasing.sublist List.eraseP_sublist
  · exact List.Pairwise.sublist (List.drop_sublist _ _) (hw.increasing_append hR advanced)

/-- Taking a number spends it. -/
theorem Ordered.spent_take (hw : w.Ordered R) (hR : R.Counts) (h : w.take R n = .ok (k, w')) :
    w'.Spent R n := by
  have index := index_take hR h
  refine ⟨by rw [UInt32.lt_iff_toNat_lt]; omega, fun key hkey => ?_⟩
  rcases take_ok h with ⟨-, -, rfl⟩ | ⟨ahead, -, -⟩
  · exact number_ne_of_mem_eraseP hw.increasing hkey
  · rintro rfl
    rcases mem_skipped_take hR h hkey with old | ⟨-, new⟩
    · exact UInt32.lt_irrefl _ (UInt32.lt_of_lt_of_le (hw.below key old) ahead)
    · exact UInt32.lt_irrefl _ new

/-- What is spent stays spent. -/
theorem Spent.take (hw : w.Spent R n) (hR : R.Counts) (h : w.take R m = .ok (k, w')) :
    w'.Spent R n := by
  have index := index_take hR h
  have passed := UInt32.lt_iff_toNat_lt.mp hw.passed
  refine ⟨by rw [UInt32.lt_iff_toNat_lt]; omega, fun key hkey => ?_⟩
  rcases mem_skipped_take hR h hkey with old | ⟨new, -⟩
  · exact hw.gone key old
  · rintro rfl
    rw [UInt32.le_iff_toNat_le] at new
    omega

/-- A chain that moves on leaves the skipped keys below its index. -/
theorem Ordered.next (hw : w.Ordered R) (hR : R.Counts) {c : C} (h : R.next w.chain = .ok c) :
    ({ w with chain := c } : Window C K).Ordered R where
  below k hk := by
    have := hR.index_next h
    have := UInt32.lt_iff_toNat_lt.mp (hw.below k hk)
    rw [UInt32.lt_iff_toNat_lt]
    dsimp only
    omega
  increasing := hw.increasing

theorem Spent.next (hw : w.Spent R n) (hR : R.Counts) {c : C} (h : R.next w.chain = .ok c) :
    ({ w with chain := c } : Window C K).Spent R n where
  passed := by
    have := hR.index_next h
    have := UInt32.lt_iff_toNat_lt.mp hw.passed
    rw [UInt32.lt_iff_toNat_lt]
    dsimp only
    omega
  gone := hw.gone

/-! ### Where the keys come from -/

theorem pass_add (R : ChainRule C K) (m n : Nat) (c : C) :
    R.pass (m + n) c = R.pass m c >>= R.pass n := by
  induction m generalizing c with
  | zero => rw [Nat.zero_add]; rfl
  | succ m ih =>
    rw [Nat.succ_add, ChainRule.pass, ChainRule.pass, bind_assoc]
    exact bind_congr fun after => ih after

theorem pass_one (R : ChainRule C K) (c : C) : R.pass 1 c = R.next c := by
  rw [ChainRule.pass]
  exact bind_pure (R.next c)

theorem pass_succ {n : Nat} {first c c' : C} (passed : R.pass n first = .ok c)
    (next : R.next c = .ok c') : R.pass (n + 1) first = .ok c' := by
  rw [pass_add, passed]
  exact (pass_one R c).trans next

theorem index_pass (hR : R.Counts) {n : Nat} {c c' : C} (h : R.pass n c = .ok c') :
    (R.index c').toNat = (R.index c).toNat + n := by
  rw [R.pass_eq_advance, map_eq_ok] at h
  obtain ⟨⟨keys, last⟩, advanced, rfl⟩ := h
  exact hR.index_advance advanced

theorem mem_advance {n : Nat} {c c' : C} {keys : List K} (h : R.advance n c = .ok (keys, c'))
    {k : K} (hk : k ∈ keys) : ∃ i c', R.pass i c = .ok c' ∧ k = R.key c' := by
  induction n generalizing c keys with
  | zero =>
    cases h
    cases hk
  | succ n ih =>
    obtain ⟨after, rest, next, advanced, rfl⟩ := ChainRule.advance_succ.mp h
    rcases List.mem_cons.mp hk with rfl | hk
    · exact ⟨0, c, rfl, rfl⟩
    · obtain ⟨i, c', passed, rfl⟩ := ih advanced hk
      refine ⟨i + 1, c', ?_, rfl⟩
      rw [ChainRule.pass, next]
      exact passed

/-- The chain of the window, and all its skipped keys, are some steps away from a first chain. -/
structure From (R : ChainRule C K) (first : C) (w : Window C K) : Prop where
  chain : ∃ n, R.pass n first = .ok w.chain
  skipped : ∀ k ∈ w.skipped, ∃ n c, R.pass n first = .ok c ∧ k = R.key c

variable {first c c' : C}

theorem from_new : From R first ⟨first, []⟩ := ⟨⟨0, rfl⟩, nofun⟩

theorem From.next (hw : w.From R first) (h : R.next w.chain = .ok c) :
    ({ w with chain := c } : Window C K).From R first where
  chain := by
    obtain ⟨n, passed⟩ := hw.chain
    exact ⟨n + 1, pass_succ passed h⟩
  skipped := hw.skipped

variable (R) in
/-- A chain is some steps away from a first one. -/
def Leads (first c : C) : Prop := ∃ n, R.pass n first = .ok c

/-- A chain is known by its number. -/
theorem Leads.eq_of_index (hR : R.Counts) (hc : Leads R first c) (hc' : Leads R first c')
    (same : R.index c = R.index c') : c = c' := by
  obtain ⟨i, hi⟩ := hc
  obtain ⟨j, hj⟩ := hc'
  have place := index_pass hR hi
  have place' := index_pass hR hj
  rw [same] at place
  obtain rfl : i = j := by omega
  rw [hi] at hj
  exact Except.ok.inj hj

/-- What leads to a later chain goes on. -/
theorem Leads.next_of_lt (hR : R.Counts) (hc : Leads R first c) (hc' : Leads R first c')
    (before : R.index c < R.index c') : ∃ after, R.next c = .ok after := by
  obtain ⟨i, hi⟩ := hc
  obtain ⟨j, hj⟩ := hc'
  have place := index_pass hR hi
  have place' := index_pass hR hj
  rw [UInt32.lt_iff_toNat_lt] at before
  rw [show j = i + (1 + (j - i - 1)) by omega, pass_add, hi] at hj
  replace hj : R.pass (1 + (j - i - 1)) c = .ok c' := hj
  rw [pass_add, pass_one] at hj
  obtain ⟨after, next, -⟩ := bind_eq_ok.mp hj
  exact ⟨after, next⟩

/-- The key that is taken is that of the chain with its number, and what is left still comes from the
first chain. -/
theorem From.take (hw : w.From R first) (hR : R.Counts) (h : w.take R n = .ok (k, w')) :
    w'.From R first ∧ ∃ c c', Leads R first c ∧ R.index c = n ∧ R.next c = .ok c' ∧
      k = R.key c := by
  have number := number_take hR h
  rcases take_ok h with ⟨below, found, rfl⟩ |
    ⟨ahead, -, passed, chain, after, advanced, next, rfl, rfl⟩
  · refine ⟨⟨hw.chain, fun key hk => hw.skipped key (List.mem_of_mem_eraseP hk)⟩, ?_⟩
    obtain ⟨i, c, hc, rfl⟩ := hw.skipped k (List.mem_of_find?_eq_some found)
    rw [hR.number_key] at number
    -- the chain of the window is further
    obtain ⟨c', next⟩ := Leads.next_of_lt hR ⟨i, hc⟩ hw.chain (by rw [number]; exact below)
    exact ⟨c, c', ⟨i, hc⟩, number, next, rfl⟩
  · obtain ⟨i, hi⟩ := hw.chain
    generalize n.toNat - (R.index w.chain).toNat = d at advanced
    have there : R.pass (i + d) first = .ok chain := by
      rw [pass_add, hi]
      show R.pass d w.chain = _
      rw [R.pass_eq_advance, advanced]
      rfl
    rw [hR.number_key] at number
    refine ⟨⟨⟨_, pass_succ there next⟩, fun key hk => ?_⟩, chain, after, ⟨_, there⟩, number, next,
      rfl⟩
    rcases mem_keepNewest hk with old | new
    · exact hw.skipped key old
    · -- what is passed now comes after what was passed before
      obtain ⟨j, c, hj, rfl⟩ := mem_advance advanced new
      refine ⟨i + j, c, ?_, rfl⟩
      rw [pass_add, hi]
      exact hj

/-! ### When there is a key -/

theorem take_of_has (below : n < R.index w.chain) (h : w.has R n) :
    ∃ k w', w.take R n = .ok (k, w') := by
  obtain ⟨k, hk⟩ := Option.isSome_iff_exists.mp ((List.find?_isSome (p := (R.number · == n))).mpr
    (List.any_eq_true.mp h))
  exact ⟨k, { w with skipped := w.skipped.eraseP (R.number · == n) }, by
    simp [take, takeSkipped?, below, hk]⟩

/-- A number that is not too far ahead can be had if the chain gets there. -/
theorem From.take_of_near (hw : w.From R first) (hR : R.Counts)
    (ahead : R.index w.chain ≤ n)
    (near : n.toNat ≤ (R.index w.chain).toNat + limits.forwardJump)
    (hc : Leads R first c) (number : R.index c = n) (hn : R.next c = .ok c') :
    ∃ k w', w.take R n = .ok (k, w') := by
  obtain ⟨i, hi⟩ := hw.chain
  obtain ⟨j, hj⟩ := hc
  have place := index_pass hR hi
  have place' := index_pass hR hj
  rw [number] at place'
  rw [UInt32.le_iff_toNat_le] at ahead
  rw [show j = i + (n.toNat - (R.index w.chain).toNat) by omega, pass_add, hi] at hj
  replace hj : R.pass (n.toNat - (R.index w.chain).toNat) w.chain = .ok c := hj
  rw [R.pass_eq_advance, map_eq_ok] at hj
  obtain ⟨⟨passed, last⟩, advanced, rfl⟩ := hj
  refine ⟨R.key last, ⟨c', keepNewest limits.skippedKeys w.skipped passed⟩, ?_⟩
  have notBelow : ¬n < R.index w.chain := by
    rw [UInt32.lt_iff_toNat_lt]
    omega
  have notFar : ¬limits.forwardJump < n.toNat - (R.index w.chain).toNat := by omega
  simp [Window.take, notBelow, notFar, advanced, hn, bind, Except.bind, pure, Except.pure]

/-- Windows of one chain give the same key for a number. -/
theorem From.key_eq {v v' : Window C K} {k₁ : K} (hw : w.From R first) (hv : v.From R first)
    (hR : R.Counts) (h : w.take R n = .ok (k, w')) (h₁ : v.take R n = .ok (k₁, v')) : k = k₁ := by
  obtain ⟨-, c, -, hc, number, -, rfl⟩ := hw.take hR h
  obtain ⟨-, d, -, hd, number₁, -, rfl⟩ := hv.take hR h₁
  rw [hc.eq_of_index hR hd (number.trans number₁.symm)]

/-- A window that starts at some place has the key that another window of the chain has given, exactly
if the number is neither before that place nor too far from it. -/
theorem From.take_new_iff (hw : w.From R first) (hR : R.Counts) (taken : w.take R n = .ok (k, w'))
    (hc : Leads R first c) :
    (∃ key after, (⟨c, []⟩ : Window C K).take R n = .ok (key, after)) ↔
      R.index c ≤ n ∧ n.toNat ≤ (R.index c).toNat + limits.forwardJump := by
  constructor
  · rintro ⟨key, after, again⟩
    rcases take_ok again with ⟨-, found, -⟩ | ⟨ahead, near, -⟩
    · cases found
    · exact ⟨ahead, Nat.sub_le_iff_le_add'.mp near⟩
  · rintro ⟨ahead, near⟩
    obtain ⟨-, d, d', hd, number, next, -⟩ := hw.take hR taken
    have started : (⟨c, []⟩ : Window C K).From R first := ⟨hc, nofun⟩
    exact started.take_of_near hR ahead near hd number next

theorem mem_keepNewest_of_new {α : Type} {limit : Nat} {old new : List α} {a : α}
    (few : new.length ≤ limit) (h : a ∈ new) : a ∈ keepNewest limit old new := by
  unfold keepNewest
  rw [List.drop_append_of_le_length (by omega)]
  exact List.mem_append_right _ h

theorem length_advance {n : Nat} {keys : List K} (h : R.advance n c = .ok (keys, c')) :
    keys.length = n := by
  induction n generalizing c keys with
  | zero =>
    cases h
    rfl
  | succ n ih =>
    obtain ⟨after, rest, -, advanced, rfl⟩ := ChainRule.advance_succ.mp h
    rw [List.length_cons, ih advanced]

/-- The keys of the numbers that are passed are kept, all of them at first. -/
theorem has_take_of_passed (hR : R.Counts) (h : w.take R n = .ok (k, w')) (ne : m ≠ n)
    (passed : R.index w.chain ≤ m) (below : m < R.index w'.chain) : w'.has R m := by
  have index := index_take hR h
  rw [UInt32.le_iff_toNat_le] at passed
  rw [UInt32.lt_iff_toNat_lt] at below
  rw [Ne, ← UInt32.toNat_inj] at ne
  rcases take_ok h with ⟨old, -, -⟩ | ⟨ahead, near, keys, chain, after, advanced, -, -, rfl⟩
  · rw [UInt32.lt_iff_toNat_lt] at old
    omega
  · rw [UInt32.le_iff_toNat_le] at ahead
    have number : m.toNat ∈ keys.map fun k => (R.number k).toNat := by
      rw [hR.numbers_advance advanced, List.mem_range'_1]
      omega
    obtain ⟨key, hk, same⟩ := List.mem_map.mp number
    have few : keys.length ≤ limits.skippedKeys := by
      rw [length_advance advanced]
      exact near
    refine List.any_eq_true.mpr ⟨key, mem_keepNewest_of_new few hk, ?_⟩
    simpa using UInt32.toNat_inj.mp same

/-- As many keys with greater numbers are kept as are kept at all. -/
def Crowded (R : ChainRule C K) (w : Window C K) (n : UInt32) : Prop :=
  limits.skippedKeys ≤ (w.skipped.filter (n < R.number ·)).length

instance : Decidable (w.Crowded R n) := Nat.decLe ..

/-- Increasing numbers between two others are fewer than lie between them. -/
theorem lt_of_increasing {l : List K} {n last : UInt32}
    (increasing : l.Pairwise fun a b => R.number a < R.number b) (after : ∀ k ∈ l, n < R.number k)
    (before : ∀ k ∈ l, R.number k < last) (between : n < last) :
    n.toNat + l.length < last.toNat := by
  induction l generalizing n with
  | nil => exact UInt32.lt_iff_toNat_lt.mp between
  | cons k l ih =>
    rw [List.forall_mem_cons] at after before
    rw [List.pairwise_cons] at increasing
    have rest := ih increasing.2 increasing.1 before.2 before.1
    have first := UInt32.lt_iff_toNat_lt.mp after.1
    rw [List.length_cons]
    omega

/-- A number that is crowded has been passed by more than as many as are kept. -/
theorem Ordered.lt_of_crowded (hw : w.Ordered R) (h : w.Crowded R n) :
    n.toNat + limits.skippedKeys < (R.index w.chain).toNat := by
  have sub := List.filter_sublist (l := w.skipped) (p := fun k => decide (n < R.number k))
  have after : ∀ k ∈ w.skipped.filter (n < R.number ·), n < R.number k := by
    intro k hk
    simpa using (List.mem_filter.mp hk).2
  have before : ∀ k ∈ w.skipped.filter (n < R.number ·), R.number k < R.index w.chain :=
    fun k hk => hw.below k (sub.subset hk)
  have some : 0 < (w.skipped.filter (n < R.number ·)).length := Nat.lt_of_lt_of_le (by decide) h
  obtain ⟨k, hk⟩ := List.exists_mem_of_length_pos some
  have between := UInt32.lt_trans (after k hk) (before k hk)
  have count := lt_of_increasing (hw.increasing.sublist sub) after before between
  exact Nat.lt_of_le_of_lt (Nat.add_le_add_left h _) count

/-- What gives way in an increasing list is followed by as many greater ones as are kept. -/
theorem mem_keepNewest_or {old new : List K} {k : K}
    (increasing : (old ++ new).Pairwise fun a b => R.number a < R.number b) (h : k ∈ old) :
    k ∈ keepNewest limits.skippedKeys old new ∨ limits.skippedKeys ≤
      ((keepNewest limits.skippedKeys old new).filter (R.number k < R.number ·)).length := by
  unfold keepNewest
  generalize hd : min new.length (old.length + new.length - limits.skippedKeys) = d
  have mem := List.mem_append_left new h
  rw [← List.take_append_drop d (old ++ new), List.mem_append] at mem
  rcases mem with gone | kept
  · refine .inr ?_
    rw [← List.take_append_drop d (old ++ new), List.pairwise_append] at increasing
    -- all that is kept is greater than what is gone
    have greater : ((old ++ new).drop d).filter (R.number k < R.number ·)
        = (old ++ new).drop d := by
      refine List.filter_eq_self.mpr fun later there => ?_
      exact decide_eq_true (increasing.2.2 k gone later there)
    have some_gone : 0 < d := by
      rcases Nat.eq_zero_or_pos d with zero | pos
      · rw [zero] at gone
        cases gone
      · exact pos
    rw [greater, List.length_drop, List.length_append]
    omega
  · exact .inl kept

/-- A skipped key stays when another one is taken, unless it gives way to as many others as are
kept. -/
theorem Ordered.has_take (hw : w.Ordered R) (hR : R.Counts) (h : w.take R n = .ok (k, w'))
    (ne : m ≠ n) (had : w.has R m) : w'.has R m ∨ w'.Crowded R m := by
  obtain ⟨key, hk, number⟩ := List.any_eq_true.mp had
  have number : R.number key = m := by simpa using number
  subst number
  rcases take_ok h with ⟨-, -, rfl⟩ | ⟨-, -, passed, chain, after, advanced, -, -, rfl⟩
  · refine .inl (List.any_eq_true.mpr ⟨key, ?_, by simp⟩)
    exact (List.mem_eraseP_of_neg (by simpa using ne)).mpr hk
  · rcases mem_keepNewest_or (hw.increasing_append hR advanced) hk with kept | crowded
    · exact .inl (List.any_eq_true.mpr ⟨key, kept, by simp⟩)
    · exact .inr crowded

/-- What has been passed over, just now or before, is kept or crowded out, unless it was gone. -/
theorem Ordered.kept_take {P : Prop} (hw : w.Ordered R) (hR : R.Counts)
    (h : w.take R n = .ok (k, w')) (ne : m ≠ n) (below : m < R.index w'.chain)
    (before : m < R.index w.chain → w.has R m ∨ P) : w'.has R m ∨ w'.Crowded R m ∨ P := by
  by_cases old : m < R.index w.chain
  · rcases before old with had | gone
    · rcases hw.has_take hR h ne had with still | crowded
      · exact .inl still
      · exact .inr (.inl crowded)
    · exact .inr (.inr gone)
  · exact .inl (has_take_of_passed hR h ne (UInt32.not_lt.mp old) below)

/-! ### What a window lacks -/

/-- Of the numbers that a window has passed, it lacks the keys of those that are gone, and keeps all
others. -/
structure Lacks (R : ChainRule C K) (w : Window C K) (Gone : UInt32 → Prop) : Prop where
  ordered : w.Ordered R
  few : w.skipped.length ≤ limits.skippedKeys
  spent : ∀ n, Gone n → w.Spent R n
  kept : ∀ n, n < R.index w.chain → w.has R n ∨ Gone n

variable {Gone : UInt32 → Prop}

/-- A window that starts somewhere lacks all that comes before. -/
theorem lacks_new (c : C) : Lacks R (⟨c, []⟩ : Window C K) (· < R.index c) where
  ordered := ordered_new c
  few := Nat.zero_le _
  spent _ before := ⟨before, nofun⟩
  kept _ before := .inr before

theorem Lacks.congr (h : w.Lacks R Gone) {Gone' : UInt32 → Prop} (same : ∀ n, Gone' n ↔ Gone n) :
    w.Lacks R Gone' := by
  rwa [show Gone' = Gone from funext fun n => propext (same n)]

/-- A number that is crowded has been passed, and there is no room for its key. -/
theorem Ordered.spent_of_crowded (hw : w.Ordered R) (few : w.skipped.length ≤ limits.skippedKeys)
    (h : w.Crowded R n) : w.Spent R n := by
  have all : ∀ k ∈ w.skipped, n < R.number k := by
    have full : (w.skipped.filter (n < R.number ·)).length = w.skipped.length :=
      Nat.le_antisymm (List.length_filter_le ..) (Nat.le_trans few h)
    simpa using List.length_filter_eq_length_iff.mp full
  have some : 0 < w.skipped.length :=
    Nat.lt_of_lt_of_le (by decide) (Nat.le_trans h (List.length_filter_le ..))
  obtain ⟨k, hk⟩ := List.exists_mem_of_length_pos some
  refine ⟨UInt32.lt_trans (all k hk) (hw.below k hk), fun k hk same => ?_⟩
  exact UInt32.lt_irrefl _ (same ▸ all k hk)

theorem few_take (few : w.skipped.length ≤ limits.skippedKeys) (h : w.take R n = .ok (k, w')) :
    w'.skipped.length ≤ limits.skippedKeys := by
  rcases take_ok h with ⟨-, -, rfl⟩ | ⟨-, -, passed, chain, after, -, -, -, rfl⟩
  · exact Nat.le_trans (List.length_eraseP_le ..) few
  · rw [length_keepNewest _ _ passed few]
    exact Nat.min_le_left ..

/-- What is taken is gone, and so is what is crowded out. -/
theorem Lacks.take (hw : w.Lacks R Gone) (hR : R.Counts) (h : w.take R n = .ok (k, w')) :
    w'.Lacks R fun m => m = n ∨ w'.Crowded R m ∨ Gone m := by
  have ordered := hw.ordered.take hR h
  have few := few_take hw.few h
  refine ⟨ordered, few, ?_, fun m below => ?_⟩
  · rintro m (rfl | crowded | gone)
    · exact hw.ordered.spent_take hR h
    · exact ordered.spent_of_crowded few crowded
    · exact (hw.spent m gone).take hR h
  · by_cases same : m = n
    · exact .inr (.inl same)
    · exact (hw.ordered.kept_take hR h same below (hw.kept m)).imp_right .inr

/-- A number that is not gone and not too far ahead can be had if the chain gets there. -/
theorem Lacks.take_of_near (hw : w.Lacks R Gone) (hf : w.From R first) (hR : R.Counts)
    (there : ¬Gone n) (near : n.toNat ≤ (R.index w.chain).toNat + limits.forwardJump)
    (hc : Leads R first c) (number : R.index c = n) (hn : R.next c = .ok c') :
    ∃ k w', w.take R n = .ok (k, w') := by
  by_cases below : n < R.index w.chain
  · exact take_of_has below ((hw.kept n below).resolve_right there)
  · exact hf.take_of_near hR (UInt32.not_lt.mp below) near hc number hn

end Window

end DoubleRatchet
