/-
DoubleRatchet/Proofs/Receivers.lean

The receiver chains of a session.

A session has one receiver chain for a ratchet key at most, since it starts one only if
it has none; so what is found for a ratchet key is the window that was put there last,
or nothing once the chain has given way to newer ones.  A session that is `Sound` stays
sound, and a number that is spent in a chain stays spent as long as the chain is kept.
-/
import DoubleRatchet.Proofs.Runs
import DoubleRatchet.Proofs.Windows

namespace DoubleRatchet

/-! ### One value of a list -/

theorem changeFirst_map {α β : Type} {p : α → Bool} {f : α → α} {g : α → β} (as : List α)
    (h : ∀ a, p a → g (f a) = g a) : (changeFirst p f as).map g = as.map g := by
  induction as with
  | nil => rfl
  | cons a as ih =>
    unfold changeFirst
    split
    · rename_i here
      rw [List.map_cons, List.map_cons, h a here]
    · rw [List.map_cons, List.map_cons, ih]

theorem find?_changeFirst_of_not {α : Type} {p q : α → Bool} {f : α → α} (as : List α)
    (h : ∀ a, p a → ¬q a ∧ ¬q (f a)) : (changeFirst p f as).find? q = as.find? q := by
  induction as with
  | nil => rfl
  | cons a as ih =>
    unfold changeFirst
    split
    · rename_i ha
      rw [List.find?_cons_of_neg (h a ha).2, List.find?_cons_of_neg (h a ha).1]
    · rw [List.find?_cons, List.find?_cons, ih]

theorem mem_changeFirst {α : Type} {p : α → Bool} {f : α → α} {as : List α} {b : α}
    (h : b ∈ changeFirst p f as) : b ∈ as ∨ ∃ a ∈ as, b = f a := by
  induction as with
  | nil => cases h
  | cons a as ih =>
    unfold changeFirst at h
    split at h
    · rcases List.mem_cons.mp h with rfl | h
      · exact .inr ⟨a, List.mem_cons_self, rfl⟩
      · exact .inl (List.mem_cons_of_mem _ h)
    · rcases List.mem_cons.mp h with rfl | h
      · exact .inl List.mem_cons_self
      · rcases ih h with h | ⟨a, ha, rfl⟩
        · exact .inl (List.mem_cons_of_mem _ h)
        · exact .inr ⟨a, List.mem_cons_of_mem _ ha, rfl⟩

namespace SessionState

variable {S : Suite} {st st' : SessionState} {theirs other : PublicKey}
  {window : Window ChainKey MessageKeys}

/-! ### Windows of a session -/

theorem window?_setWindow (st : SessionState) (theirs : PublicKey)
    (window : Window ChainKey MessageKeys) :
    (st.setWindow theirs window).window? theirs = (st.window? theirs).map fun _ => window := by
  have found := find?_changeFirst (·.ratchetKey == theirs)
    (fun chain : ReceiverChain => { chain with window }) st.receiverChains fun _ h => h
  unfold window? setWindow
  rw [found, Option.map_map, Option.map_map]
  rfl

theorem window?_setWindow_self (hw : st.window? theirs = some window)
    (window' : Window ChainKey MessageKeys) :
    (st.setWindow theirs window').window? theirs = some window' := by
  rw [window?_setWindow, hw]
  rfl

theorem window?_setWindow_of_ne (window : Window ChainKey MessageKeys) (h : other ≠ theirs) :
    (st.setWindow theirs window).window? other = st.window? other := by
  unfold window? setWindow
  dsimp only
  rw [find?_changeFirst_of_not]
  intro chain hc
  rw [beq_iff_eq] at hc
  simp [hc, Ne.symm h]

theorem mem_of_window? (h : st.window? theirs = some window) :
    ⟨theirs, window⟩ ∈ st.receiverChains := by
  obtain ⟨chain, found, rfl⟩ := Option.map_eq_some_iff.mp h
  have key := List.find?_some found
  rw [beq_iff_eq] at key
  subst key
  exact List.mem_of_find?_eq_some found

/-- There is at most one receiver chain for a ratchet key. -/
def Distinct (st : SessionState) : Prop := (st.receiverChains.map (·.ratchetKey)).Nodup

theorem find?_of_mem {chains : List ReceiverChain} (hd : (chains.map (·.ratchetKey)).Nodup)
    {chain : ReceiverChain} (h : chain ∈ chains) :
    chains.find? (·.ratchetKey == chain.ratchetKey) = some chain := by
  induction chains with
  | nil => cases h
  | cons first rest ih =>
    rw [List.map_cons, List.nodup_cons] at hd
    rcases List.mem_cons.mp h with rfl | h
    · exact List.find?_cons_of_pos (by simp)
    · have ne : first.ratchetKey ≠ chain.ratchetKey := by
        intro same
        exact hd.1 (same ▸ List.mem_map_of_mem h)
      rw [List.find?_cons_of_neg (by simpa using ne)]
      exact ih hd.2 h

theorem Distinct.window?_eq (hd : st.Distinct) (h : ⟨theirs, window⟩ ∈ st.receiverChains) :
    st.window? theirs = some window := by
  rw [window?, find?_of_mem hd h]
  rfl

theorem window?_eq_none :
    st.window? theirs = none ↔ theirs ∉ st.receiverChains.map (·.ratchetKey) := by
  rw [window?, Option.map_eq_none_iff, List.find?_eq_none, List.mem_map]
  constructor
  · rintro none ⟨chain, hc, rfl⟩
    exact none chain hc (beq_self_eq_true _)
  · intro none chain hc same
    exact none ⟨chain, hc, eq_of_beq same⟩

/-! ### New receiver chains -/

variable {c : ChainKey}

theorem mem_addReceiver {chain : ReceiverChain}
    (h : chain ∈ (st.addReceiver theirs c).receiverChains) :
    chain ∈ st.receiverChains ∨ chain = ⟨theirs, ⟨c, []⟩⟩ :=
  (Window.mem_keepNewest h).imp_right List.mem_singleton.mp

theorem map_keepNewest {α β : Type} (f : α → β) (limit : Nat) (old new : List α) :
    (keepNewest limit old new).map f = keepNewest limit (old.map f) (new.map f) := by
  unfold keepNewest
  rw [List.map_drop, List.map_append, List.length_map, List.length_map]

/-- The newest of a list that grows at its front, kept in the order in which they came. -/
theorem keepNewest_reverse_take {α : Type} {limit : Nat} (pos : 0 < limit) (l : List α) (a : α) :
    keepNewest limit (l.take limit).reverse [a] = ((a :: l).take limit).reverse := by
  obtain ⟨k, rfl⟩ := Nat.exists_eq_add_of_lt pos
  unfold keepNewest
  rw [← List.reverse_cons, List.drop_reverse, List.length_reverse, List.length_cons,
    List.length_singleton, List.length_take]
  congr 1
  rcases Nat.lt_or_ge l.length (k + 1) with few | many
  · have whole : l.take (0 + k + 1) = l := List.take_of_length_le (by omega)
    rw [whole, List.take_of_length_le (by simp; omega), List.take_of_length_le (by simp; omega)]
  · rw [show min (0 + k + 1) l.length + 1 - min 1 (min (0 + k + 1) l.length + 1 - (0 + k + 1))
      = k + 1 by omega, List.take_succ_cons, List.take_take, Nat.min_eq_left (by omega),
      Nat.zero_add, List.take_succ_cons]

theorem keys_addReceiver (st : SessionState) (theirs : PublicKey) (c : ChainKey) :
    (st.addReceiver theirs c).receiverChains.map (·.ratchetKey)
      = keepNewest limits.receiverChains (st.receiverChains.map (·.ratchetKey)) [theirs] :=
  map_keepNewest _ _ _ _

theorem keys_setWindow (st : SessionState) (theirs : PublicKey)
    (window : Window ChainKey MessageKeys) :
    (st.setWindow theirs window).receiverChains.map (·.ratchetKey)
      = st.receiverChains.map (·.ratchetKey) :=
  changeFirst_map _ fun _ _ => rfl

theorem Distinct.addReceiver (hd : st.Distinct) (h : st.window? theirs = none) :
    (st.addReceiver theirs c).Distinct := by
  refine List.Nodup.sublist ((List.drop_sublist _ _).map _) ?_
  rw [List.map_append, List.nodup_append]
  refine ⟨hd, by simp, ?_⟩
  rintro key hk _ hk' rfl
  rw [List.map_singleton, List.mem_singleton] at hk'
  subst hk'
  exact window?_eq_none.mp h hk

/-- The newest chain is kept. -/
theorem last_addReceiver : ⟨theirs, ⟨c, []⟩⟩ ∈ (st.addReceiver theirs c).receiverChains := by
  unfold SessionState.addReceiver keepNewest
  dsimp only
  rw [List.drop_append_of_le_length]
  · exact List.mem_append_right _ List.mem_cons_self
  · simp only [List.length_singleton, limits]
    omega

theorem window?_addReceiver (h : st.window? theirs = none) :
    (st.addReceiver theirs c).window? theirs = some ⟨c, []⟩ := by
  have none : ∀ chain ∈ st.receiverChains, ¬(chain.ratchetKey == theirs) :=
    List.find?_eq_none.mp (Option.map_eq_none_iff.mp h)
  unfold window? SessionState.addReceiver keepNewest
  dsimp only
  rw [List.drop_append_of_le_length (by simp only [List.length_singleton, limits]; omega),
    List.find?_append,
    List.find?_eq_none.mpr fun chain hc => none chain (List.mem_of_mem_drop hc),
    Option.none_or, List.find?_cons_of_pos (by simp)]
  rfl

/-- Another chain is as it was, or has given way. -/
theorem window?_addReceiver_of_ne (hd : st.Distinct) (ne : other ≠ theirs)
    (hw : (st.addReceiver theirs c).window? other = some window) :
    st.window? other = some window := by
  rcases mem_addReceiver (mem_of_window? hw) with old | new
  · exact hd.window?_eq old
  · cases new
    exact absurd rfl ne

/-! ### Sound sessions -/

variable (S) in
/-- The session is of the version in use and can send, has one receiver chain for a ratchet key, and
ordered windows. -/
structure Sound (st : SessionState) : Prop where
  version : st.version = currentVersion
  ready : st.senderChain.isSome
  distinct : st.Distinct
  ordered : ∀ chain ∈ st.receiverChains, chain.window.Ordered (ChainKey.rule S)

theorem Built.sound (h : st.Built S) : st.Sound S := by
  cases h with
  | greeted => exact ⟨rfl, rfl, by simp [Distinct, Store.greet, initiateWith, between, nameAfter,
      addReceiver, keepNewest, empty, limits], by
      intro chain hc
      have hc := List.mem_singleton.mp hc
      subst hc
      exact Window.ordered_new _⟩
  | welcomed =>
    refine ⟨rfl, rfl, .nil, ?_⟩
    intro chain hc
    cases hc

theorem Sound.setWindow (hs : st.Sound S) (hw : window.Ordered (ChainKey.rule S)) :
    (st.setWindow theirs window).Sound S where
  version := hs.version
  ready := hs.ready
  distinct := by
    rw [Distinct, keys_setWindow]
    exact hs.distinct
  ordered := by
    intro chain hc
    rcases mem_changeFirst hc with old | ⟨before, -, rfl⟩
    · exact hs.ordered chain old
    · exact hw

theorem Sound.turnWith (hs : st.Sound S) (none : st.window? theirs = none) (root : RootKey)
    (chain : SenderChain) (ours : KeyPair) : (st.turnWith S root chain theirs ours).Sound S := by
  refine ⟨hs.version, rfl, hs.distinct.addReceiver none, fun chain hc => ?_⟩
  rcases mem_addReceiver hc with old | rfl
  · exact hs.ordered chain old
  · exact Window.ordered_new _

theorem Sound.reached {e e' : Entropy} (hs : st.Sound S) (h : Reached S st theirs e st' e') :
    st'.Sound S := by
  cases h with
  | known => exact hs
  | turned none root chain alive => exact hs.turnWith none _ _ _

theorem Sound.ordered_window (hs : st.Sound S) (h : st.window? theirs = some window) :
    window.Ordered (ChainKey.rule S) :=
  hs.ordered _ (mem_of_window? h)

theorem Sound.evolves (hs : st.Sound S) (h : Evolves S st st') : st'.Sound S := by
  cases h with
  | same => exact hs
  | sent h =>
    obtain ⟨remote, own, chain, next, -, -, -, -, -, rfl⟩ := encrypt_ok h
    exact ⟨hs.version, rfl, hs.distinct, hs.ordered⟩
  | @opened _ m _ _ _ h =>
    obtain ⟨-, -, st₁, reached, decrypted⟩ := decrypt_ok h
    obtain ⟨window, keys, after, hw, taken, -, rfl⟩ := decryptOn_ok decrypted
    have hs₁ := hs.reached reached
    have ordered := (hs₁.ordered_window hw).take (ChainKey.counts S) taken
    have hs₂ : (st₁.setWindow m.ratchetKey after).Sound S := hs₁.setWindow ordered
    exact ⟨hs₂.version, hs₂.ready, hs₂.distinct, hs₂.ordered⟩

/-! ### Spent numbers -/

variable {n : UInt32} {m : RatchetMessage} {e e' : Entropy} {plain : Bytes}

variable (S) in
/-- The session has a receiver chain for a ratchet key, in which a number is spent. -/
def SpentIn (st : SessionState) (theirs : PublicKey) (n : UInt32) : Prop :=
  ∃ window, st.window? theirs = some window ∧ window.Spent (ChainKey.rule S) n

/-- The window that a session decrypts with, once it has been put back. -/
theorem window?_decryptOn {st₁ : SessionState} (h : st₁.decryptOn S m = .ok (plain, st')) :
    ∃ window keys after, st₁.window? m.ratchetKey = some window ∧
      window.take (ChainKey.rule S) m.counter = .ok (keys, after) ∧
      st'.window? m.ratchetKey = some after := by
  obtain ⟨window, keys, after, hw, taken, -, rfl⟩ := decryptOn_ok h
  exact ⟨window, keys, after, hw, taken, window?_setWindow_self hw after⟩

/-- Decrypting a message spends its number. -/
theorem Sound.spent_decrypt (hs : st.Sound S)
    (h : (st.decrypt S m).run e = (.ok (plain, st'), e')) :
    st'.SpentIn S m.ratchetKey m.counter := by
  obtain ⟨-, -, st₁, reached, decrypted⟩ := decrypt_ok h
  obtain ⟨window, keys, after, hw, taken, hw'⟩ := window?_decryptOn decrypted
  have ordered := (hs.reached reached).ordered_window hw
  exact ⟨after, hw', ordered.spent_take (ChainKey.counts S) taken⟩

/-- A chain that is there after a turn for another ratchet key was there before. -/
theorem SpentIn.reached (h : st.SpentIn S theirs n) (hs : st.Sound S) {st₁ : SessionState}
    (reached : Reached S st other e st₁ e') (kept : st₁.window? theirs ≠ none) :
    st₁.SpentIn S theirs n := by
  cases reached with
  | known => exact h
  | turned none root chain alive =>
    obtain ⟨window, hw, spent⟩ := h
    -- a turn is for a ratchet key that has no chain yet
    have ne : theirs ≠ other := by
      rintro rfl
      rw [hw] at none
      cases none
    obtain ⟨window', hw'⟩ := Option.ne_none_iff_exists'.mp kept
    have same := window?_addReceiver_of_ne hs.distinct ne hw'
    rw [hw] at same
    cases same
    exact ⟨window, hw', spent⟩

/-- As long as the chain is kept, what is spent in it stays spent. -/
theorem SpentIn.evolves (h : st.SpentIn S theirs n) (hs : st.Sound S) (evolves : Evolves S st st')
    (kept : st'.window? theirs ≠ none) : st'.SpentIn S theirs n := by
  cases evolves with
  | same => exact h
  | sent made =>
    obtain ⟨remote, own, chain, next, -, -, -, -, -, rfl⟩ := encrypt_ok made
    exact h
  | @opened _ m _ _ _ opened =>
    obtain ⟨-, -, st₁, reached, decrypted⟩ := decrypt_ok opened
    obtain ⟨window, keys, after, hw, taken, -, rfl⟩ := decryptOn_ok decrypted
    by_cases same : theirs = m.ratchetKey
    · subst same
      obtain ⟨window', hw', spent⟩ := h.reached hs reached (by rw [hw]; exact Option.some_ne_none _)
      rw [hw] at hw'
      cases hw'
      exact ⟨after, window?_setWindow_self hw after, spent.take (ChainKey.counts S) taken⟩
    · -- another window is taken from, and that of the number was there before
      have untouched : (st₁.setWindow m.ratchetKey after).window? theirs = st₁.window? theirs :=
        window?_setWindow_of_ne after same
      have kept' : st₁.window? theirs ≠ none := by
        rw [← untouched]
        exact kept
      obtain ⟨window', hw', spent⟩ := h.reached hs reached kept'
      exact ⟨window', untouched.trans hw', spent⟩

/-! ### Messages that a session does not open -/

variable (S) in
/-- The window that a session looks into for a ratchet key: that of its receiver chain, or that of
the chain that it would start. -/
def windowFor (st : SessionState) (theirs : PublicKey) : Option (Window ChainKey MessageKeys) :=
  match st.window? theirs, st.rootKey, st.senderChain with
  | some window, _, _ => some window
  | none, some root, some chain => some ⟨(root.turn S theirs chain.ratchetKey.privateKey).2, []⟩
  | none, _, _ => none

/-- A chain that it would start begins at zero. -/
theorem index_windowFor {theirs : PublicKey} {n : UInt32}
    (known : ∀ window, st.window? theirs = some window → window.chain.index ≤ n)
    {window : Window ChainKey MessageKeys} (hw : st.windowFor S theirs = some window) :
    window.chain.index ≤ n := by
  unfold windowFor at hw
  split at hw
  · rename_i there
    cases hw
    exact known _ there
  · cases hw
    exact UInt32.zero_le
  · cases hw

variable (S) in
/-- The tag of a message is right for the keys that the session has for it. -/
def Verifies (st : SessionState) (m : RatchetMessage) : Prop :=
  ∃ window keys remote own, st.windowFor S m.ratchetKey = some window ∧
    window.peek (ChainKey.rule S) m.counter = .ok keys ∧
    st.remoteIdentity = some remote ∧ st.localIdentity = some own ∧
    m.checkTag S remote own keys.macKey.bytes = .ok ()

theorem verifies_iff : st.Verifies S m ↔ ∃ window ∈ st.windowFor S m.ratchetKey,
    ∃ keys ∈ (window.peek (ChainKey.rule S) m.counter).toOption,
    ∃ remote ∈ st.remoteIdentity, ∃ own ∈ st.localIdentity,
      (m.checkTag S remote own keys.macKey.bytes).isOk := by
  constructor
  · rintro ⟨window, keys, remote, own, hw, looked, hr, ho, tag⟩
    exact ⟨window, hw, keys, toOption_eq_some.mpr looked, remote, hr, own, ho, by rw [tag]; rfl⟩
  · rintro ⟨window, hw, keys, looked, remote, hr, own, ho, tag⟩
    refine ⟨window, keys, remote, own, hw, toOption_eq_some.mp looked, hr, ho, ?_⟩
    cases checked : m.checkTag S remote own keys.macKey.bytes with
    | ok => rfl
    | error e =>
      rw [checked] at tag
      cases tag

instance : Decidable (st.Verifies S m) := decidable_of_iff _ verifies_iff.symm

theorem Reached.window?_eq {st₁ : SessionState} (reached : Reached S st theirs e st₁ e') :
    st₁.window? theirs = st.windowFor S theirs := by
  cases reached with
  | known hw => simp [windowFor, hw]
  | @turned root chain none hr hc alive =>
    rw [windowFor, none, hr, hc]
    exact window?_addReceiver none

/-- What a session decrypts has the tag of the keys that the session has for it, and is decrypted
with these keys. -/
theorem decrypt_keys (h : (st.decrypt S m).run e = (.ok (plain, st'), e')) :
    ∃ window keys remote own, st.windowFor S m.ratchetKey = some window ∧
      window.peek (ChainKey.rule S) m.counter = .ok keys ∧
      st.remoteIdentity = some remote ∧ st.localIdentity = some own ∧
      m.checkTag S remote own keys.macKey.bytes = .ok () ∧
      S.decrypt keys.cipherKey keys.iv m.body = .ok plain := by
  obtain ⟨-, -, st₁, reached, decrypted⟩ := decrypt_ok h
  obtain ⟨window, keys, after, hw, taken, opened, -⟩ := decryptOn_ok decrypted
  obtain ⟨remote, own, hr, ho, tag, body⟩ := openWith_ok opened
  have looked : window.peek (ChainKey.rule S) m.counter = .ok keys := by
    rw [Window.peek_eq_take, taken]
    rfl
  rw [reached.window?_eq] at hw
  refine ⟨window, keys, remote, own, hw, looked, ?_, ?_, tag, body⟩
  · cases reached <;> exact hr
  · cases reached <;> exact ho

/-- A session decrypts only messages whose tag is right for it. -/
theorem verifies_decrypt (h : (st.decrypt S m).run e = (.ok (plain, st'), e')) :
    st.Verifies S m := by
  obtain ⟨window, keys, remote, own, hw, looked, hr, ho, tag, -⟩ := decrypt_keys h
  exact ⟨window, keys, remote, own, hw, looked, hr, ho, tag⟩

end SessionState

end DoubleRatchet
