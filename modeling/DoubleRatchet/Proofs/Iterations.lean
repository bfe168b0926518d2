/-
DoubleRatchet/Proofs/Iterations.lean

How a record of chains goes on from what has been given out.

A sender can send with one chain only: the newest one of its record, if that can sign.
Once there are chains, no call gives the record another one of that kind, and none takes
the chain back.  So there is a next number, which only grows (`GroupCall.Changes.next`),
until a chain that is learned of comes to the front and there is no next number any more:

    none yet  ──announce──►  own chain at 0, 1, 2, …  ──learn──►  a chain that cannot sign
    next: 0                  next: where it is                    next: none

What has been given out leaves room for the next number.  All that is said of a run is
said in a `GroupLedger`, which every call keeps.
-/
import DoubleRatchet.Proofs.GroupOnce

namespace DoubleRatchet

/-! ### The chain that a record sends with -/

namespace GroupRecord

/-- The chain that the sender sends with: the newest one, if it can sign. -/
def signing? (r : GroupRecord) : Option GroupChain :=
  r.chains.head?.filter (·.signingSecret.isSome)

/-- The number of the next message that is sent; a chain that has to be made begins with 0. -/
def next? (r : GroupRecord) : Option UInt32 :=
  if r.isEmpty then some 0 else r.signing?.map (·.window.chain.iteration)

section
variable {S : Suite} {sender : GroupSender} {r r' : GroupRecord} {c : GroupChain} {plain : Bytes}
  {message : GroupMessage} {source source' : Entropy}

theorem signing?_cons {older : List GroupChain} {secret : PrivateKey}
    (own : c.signingSecret = some secret) : (⟨c :: older⟩ : GroupRecord).signing? = some c := by
  simp [signing?, own]

theorem next?_of_empty (none : r.isEmpty = true) : r.next? = some 0 := if_pos none

theorem next?_of_signing (h : r.signing? = some c) : r.next? = some c.window.chain.iteration := by
  obtain ⟨_ | ⟨first, older⟩⟩ := r
  · cases h
  · rw [next?, if_neg (by simp [isEmpty]), h]
    rfl

/-- A message is made with the next number, and the chain is behind it then. -/
theorem encrypt_signing (h : (r.encrypt S sender plain).run source = (.ok (message, r'), source')) :
    ∃ c d, r.signing? = some c ∧ r'.signing? = some d ∧ message.keyId = c.keyId ∧
      d.keyId = c.keyId ∧ message.iteration = c.window.chain.iteration ∧
      d.window.chain.iteration.toNat = c.window.chain.iteration.toNat + 1 := by
  obtain ⟨c, older, secret, next, chains, own, moved, rfl, rfl⟩ := encrypt_made h
  obtain rfl : r = ⟨c :: older⟩ := congrArg GroupRecord.mk chains
  exact ⟨c, _, signing?_cons own, signing?_cons own, rfl, rfl, rfl,
    (GroupChainKey.counts S).index_next moved⟩

end

end GroupRecord

section
variable {S : Suite} {sender : GroupSender} {call : GroupCall} {r r' : GroupRecord} {d : GroupChain}

/-- A call leaves a record as empty as it was, or less so. -/
theorem GroupCall.Changes.isEmpty (h : call.Changes S sender r r') (none : r'.isEmpty = true) :
    r.isEmpty = true := by
  cases h with
  | same => exact none
  | made _ before => exact before
  | learned m =>
    rw [GroupRecord.isEmpty, GroupRecord.add] at none
    cases none
  | sent h =>
    obtain ⟨c, older, next, -, -, rfl⟩ := GroupRecord.encrypt_ok h
    cases none
  | read _ h =>
    obtain ⟨c, key, window, -, -, -, -, rfl⟩ := GroupRecord.decrypt_ok h
    rwa [GroupRecord.isEmpty_setChain] at none

/-- Reading a message moves a chain on, and leaves the newest one the newest. -/
theorem GroupRecord.signing?_decrypt {m : GroupMessage} {plain : Bytes}
    (h : r.decrypt S m = .ok (plain, r')) (hd : r'.signing? = some d) :
    ∃ c, r.signing? = some c ∧ d.keyId = c.keyId ∧
      c.window.chain.iteration ≤ d.window.chain.iteration := by
  obtain ⟨c, key, window, named, -, taken, -, rfl⟩ := decrypt_ok h
  have index := Window.index_take (GroupChainKey.counts S) taken
  have later : c.window.chain.iteration ≤ window.chain.iteration := by
    rw [UInt32.le_iff_toNat_le]
    exact index ▸ Nat.le_max_left _ _
  obtain ⟨_ | ⟨first, older⟩⟩ := r
  · cases named
  by_cases own : first.keyId = m.keyId
  · -- the newest chain is the one that the message names
    obtain rfl : first = c := by simpa [chain, own] using named
    simp only [signing?, setChain, changeFirst, own, beq_self_eq_true, ↓reduceIte, List.head?_cons,
      Option.filter_eq_some_iff] at hd ⊢
    obtain ⟨there, signs⟩ := hd
    obtain rfl := Option.some.inj there
    exact ⟨first, ⟨rfl, signs⟩, own.symm, later⟩
  · simp only [signing?, setChain, changeFirst, beq_eq_false_iff_ne.mpr own, Bool.false_eq_true,
      ↓reduceIte, List.head?_cons] at hd ⊢
    exact ⟨d, hd, rfl, UInt32.le_refl _⟩

/-- The chain that a record sends with has been there before, and not been ahead, or it is the one that
has been made. -/
theorem GroupCall.Changes.signing (h : call.Changes S sender r r') (hd : r'.signing? = some d) :
    (∃ c, r.signing? = some c ∧ d.keyId = c.keyId ∧
      c.window.chain.iteration ≤ d.window.chain.iteration) ∨
    (call = .announce ∧ r.isEmpty = true ∧ r'.chains = [d] ∧ d.window.chain.iteration = 0) := by
  cases h with
  | same => exact .inl ⟨d, hd, rfl, UInt32.le_refl _⟩
  | made source none =>
    obtain rfl := Option.some.inj hd
    exact .inr ⟨rfl, none, rfl, rfl⟩
  | learned m =>
    rw [GroupRecord.signing?, GroupRecord.add] at hd
    cases hd
  | sent h =>
    obtain ⟨c, d', signs, signs', -, same, -, later⟩ := GroupRecord.encrypt_signing h
    obtain rfl := Option.some.inj (signs'.symm.trans hd)
    refine .inl ⟨c, signs, same, ?_⟩
    rw [UInt32.le_iff_toNat_le]
    omega
  | read _ h => exact .inl (GroupRecord.signing?_decrypt h hd)

/-- The next number only grows. -/
theorem GroupCall.Changes.next (h : call.Changes S sender r r') {n' : UInt32}
    (hn : r'.next? = some n') : ∃ n, r.next? = some n ∧ n ≤ n' := by
  by_cases none : r'.isEmpty = true
  · rw [GroupRecord.next?_of_empty none] at hn
    obtain rfl := Option.some.inj hn
    exact ⟨0, GroupRecord.next?_of_empty (h.isEmpty none), UInt32.le_refl _⟩
  · rw [GroupRecord.next?, if_neg none] at hn
    obtain ⟨d, signs, rfl⟩ := Option.map_eq_some_iff.mp hn
    rcases h.signing signs with ⟨c, signs, -, le⟩ | ⟨-, none, -, zero⟩
    · exact ⟨_, GroupRecord.next?_of_signing signs, le⟩
    · exact ⟨0, GroupRecord.next?_of_empty none, zero ▸ UInt32.le_refl _⟩

/-- A record that a chain is made for has that chain and no other. -/
theorem GroupCall.Changes.length_made (h : GroupCall.announce.Changes S sender r r')
    (none : r.isEmpty = true) : r'.chains.length ≤ 1 := by
  cases h with
  | same =>
    rw [List.isEmpty_iff.mp none]
    exact Nat.zero_le _
  | made => exact Nat.le_refl _

end

/-! ### What is given out -/

/-- After the answer a message with the number may be sent: an announcement tells of the chain from its
own number on, and a message has used its number up. -/
def GroupAnswer.Allows (n : UInt32) : GroupAnswer → Prop
  | announced m => m.iteration ≤ n
  | sent m => m.iteration < n
  | learned | read _ => True

/-- An answer may come before another one. -/
def GroupAnswer.Before (a b : GroupAnswer) : Prop := ∀ m, b = .sent m → a.Allows m.iteration

/-- What has been given out leaves room for the next message. -/
def GroupRecord.GoesOn (r : GroupRecord) (given : List GroupAnswer) : Prop :=
  ∀ n, r.next? = some n → ∀ a ∈ given, a.Allows n

/-- What a call gives out that has left a record in the place of another one. -/
inductive GroupCall.Gives (S : Suite) (sender : GroupSender) (r r' : GroupRecord) :
    GroupCall → GroupAnswer → Prop
  | announced {c : GroupChain} (h : c ∈ r'.chains.head?) :
    Gives S sender r r' .announce (.announced c.announcement)
  | learned (m) : Gives S sender r r' (.learn m) .learned
  | sent {plain message source source'}
    (h : (r.encrypt S sender plain).run source = (.ok (message, r'), source')) :
    Gives S sender r r' (.encrypt plain) (.sent message)
  | read (bs plain) : Gives S sender r r' (.decrypt bs) (.read plain)

/-- The chains that a call has made, when it has stored a record. -/
def GroupCall.made (r : GroupRecord) : GroupCall → List GroupChain
  | announce => r.chains
  | _ => []

/-- The record of a sender, the chains that have been made for it, and what has been given out. -/
structure GroupLedger (r : GroupRecord) (made : List GroupChain) (given : List GroupAnswer) : Prop where
  goesOn : r.GoesOn given
  ordered : given.Pairwise GroupAnswer.Before
  once : made.length ≤ 1
  unmade : r.isEmpty = true → made = []
  own : ∀ d, r.signing? = some d → d.keyId ∈ made.map (·.keyId)
  sent : ∀ m, .sent m ∈ given → m.keyId ∈ made.map (·.keyId) ∧ m.iteration ≠ 0xffffffff

section
variable {S : Suite} {sender : GroupSender} {call : GroupCall} {r r' : GroupRecord}
  {made : List GroupChain} {given : List GroupAnswer} {a : GroupAnswer} {n n' : UInt32}

theorem GroupAnswer.Allows.mono (h : a.Allows n) (le : n ≤ n') : a.Allows n' := by
  cases a with
  | announced m => exact UInt32.le_trans h le
  | sent m => exact UInt32.lt_of_lt_of_le h le
  | learned => trivial
  | read plain => trivial

/-- What a call gives out leaves room for the next message, too. -/
theorem GroupCall.Gives.allows (h : call.Gives S sender r r' a) (next : r'.next? = some n) :
    a.Allows n := by
  cases h with
  | @announced c head =>
    obtain ⟨_ | ⟨first, older⟩⟩ := r'
    · cases head
    obtain rfl : first = c := Option.some.inj head
    rw [GroupRecord.next?, if_neg (by simp [GroupRecord.isEmpty])] at next
    obtain ⟨d, signs, rfl⟩ := Option.map_eq_some_iff.mp next
    obtain rfl : first = d := (Option.filter_eq_some_iff.mp signs).1 |> Option.some.inj
    exact UInt32.le_refl _
  | learned => trivial
  | sent h =>
    obtain ⟨c, d, -, signs, -, -, number, later⟩ := GroupRecord.encrypt_signing h
    rw [GroupRecord.next?_of_signing signs] at next
    obtain rfl := Option.some.inj next
    show _ < _
    rw [UInt32.lt_iff_toNat_lt, number]
    omega
  | read => trivial

namespace GroupLedger

theorem empty : GroupLedger .empty [] [] where
  goesOn _ _ := nofun
  ordered := .nil
  once := Nat.zero_le _
  unmade _ := rfl
  own := nofun
  sent := nofun

/-- A record is stored. -/
theorem keep (h : GroupLedger r made given) (changes : call.Changes S sender r r')
    (first : call = .announce → r.isEmpty = true) :
    GroupLedger r' (made ++ call.made r') given where
  goesOn n' next a ha := by
    obtain ⟨n, before, le⟩ := changes.next next
    exact (h.goesOn n before a ha).mono le
  ordered := h.ordered
  once := by
    cases call with
    | announce =>
      rw [h.unmade (first rfl), List.nil_append]
      exact changes.length_made (first rfl)
    | _ => simpa [GroupCall.made] using h.once
  unmade none := by
    rw [h.unmade (changes.isEmpty none), List.nil_append]
    cases call with
    | announce => exact List.isEmpty_iff.mp none
    | _ => rfl
  own d signs := by
    rw [List.map_append, List.mem_append]
    rcases changes.signing signs with ⟨c, signs, same, -⟩ | ⟨rfl, -, only, -⟩
    · exact .inl (same ▸ h.own c signs)
    · exact .inr (by simp [GroupCall.made, only])
  sent m hm := by
    obtain ⟨mem, room⟩ := h.sent m hm
    rw [List.map_append, List.mem_append]
    exact ⟨.inl mem, room⟩

/-- Something is given out: a message has the next number of the record that was there before. -/
theorem give (h : GroupLedger r' made given) (before : r.GoesOn given)
    (gives : call.Gives S sender r r' a) : GroupLedger r' made (given ++ [a]) where
  goesOn n next b hb := by
    rcases List.mem_append.mp hb with old | new
    · exact h.goesOn n next b old
    · obtain rfl := List.mem_singleton.mp new
      exact gives.allows next
  ordered := by
    refine List.pairwise_append.mpr ⟨h.ordered, List.pairwise_singleton _ _, fun b hb a' ha' => ?_⟩
    obtain rfl := List.mem_singleton.mp ha'
    rintro m rfl
    cases gives with
    | sent encrypted =>
      obtain ⟨c, d, signs, -, -, -, number, -⟩ := GroupRecord.encrypt_signing encrypted
      rw [number]
      exact before _ (GroupRecord.next?_of_signing signs) b hb
  once := h.once
  unmade := h.unmade
  own := h.own
  sent m hm := by
    rcases List.mem_append.mp hm with old | new
    · exact h.sent m old
    · obtain rfl := List.mem_singleton.mp new
      cases gives with
      | sent encrypted =>
        obtain ⟨c, d, -, signs, named, same, number, later⟩ :=
          GroupRecord.encrypt_signing encrypted
        refine ⟨named ▸ same ▸ h.own d signs, fun last => ?_⟩
        -- there is a number after it
        have full : m.iteration.toNat = 0xffffffff := by rw [last]; rfl
        have bound := d.window.chain.iteration.toNat_lt
        rw [← number] at later
        omega

end GroupLedger

end

end DoubleRatchet
