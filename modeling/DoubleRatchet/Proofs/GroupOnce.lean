/-
DoubleRatchet/Proofs/GroupOnce.lean

When a message to a group is read twice.

Reading a message spends its number in the newest chain with its key number, and a
spent number is a duplicate from then on, whatever is sent, read or learned of
(`read_once`), with one exception.  A chain that is learned of goes to the front with an
empty window, even if it is there already.  An announcement that comes in again is the
newest chain with its key number then, and all that is not before it can be read again
(`read_again`).
-/
import DoubleRatchet.Proofs.GroupCalls
import DoubleRatchet.Proofs.Receivers
import DoubleRatchet.Proofs.Toy

namespace DoubleRatchet

/-- The chains of a group sender count. -/
theorem GroupChainKey.counts (S : Suite) : (GroupChainKey.rule S).Counts where
  index_next {c c'} h := by
    simp only [rule, next] at h
    split at h
    · cases h
    · rename_i room
      cases h
      exact toNat_add_one_of_ne room
  next_error {c e} h := by
    simp only [rule, next] at h
    split at h
    · cases h
      exact ⟨_, rfl⟩
    · cases h
  number_key c := rfl

section
variable {S : Suite} {sender : GroupSender} {keyId n : UInt32}

/-! ### The newest chain with a number -/

namespace GroupRecord

variable {r r' : GroupRecord} {c c' d : GroupChain}

/-- Learning of a chain hides the chains with the same number, and no other. -/
theorem chain_add {id iteration : UInt32} {key : Block 32} {signingKey : PublicKey}
    (h : (r.add id iteration key signingKey).chain keyId = .ok c) :
    (keyId = id ∧ c = ⟨id, ⟨⟨iteration, key⟩, []⟩, signingKey, none⟩) ∨
      (keyId ≠ id ∧ r.chain keyId = .ok c) := by
  rw [chain_eq_ok] at h ⊢
  -- what is found among those that are kept is what is found among all
  have found : (⟨id, ⟨⟨iteration, key⟩, []⟩, signingKey, none⟩ :: r.chains).find?
      (·.keyId == keyId) = some c := by
    rw [← List.take_append_drop limits.groupChains (_ :: r.chains), List.find?_append]
    exact Option.or_eq_some_iff.mpr (.inl h)
  by_cases same : keyId = id
  · rw [List.find?_cons_of_pos (by simp [same])] at found
    exact .inl ⟨same, (Option.some.inj found).symm⟩
  · rw [List.find?_cons_of_neg (by simpa using Ne.symm same)] at found
    exact .inr ⟨same, found⟩

/-- The newest chain may have changed, and nothing else. -/
theorem chain_cons {older : List GroupChain}
    (h : (⟨c' :: older⟩ : GroupRecord).chain keyId = .ok d) (same : c'.keyId = c.keyId) :
    (keyId = c.keyId ∧ d = c') ∨
      (keyId ≠ c.keyId ∧ (⟨c :: older⟩ : GroupRecord).chain keyId = .ok d) := by
  rw [chain_eq_ok] at h ⊢
  by_cases own : keyId = c.keyId
  · rw [List.find?_cons_of_pos (by simp [same, own])] at h
    exact .inl ⟨own, (Option.some.inj h).symm⟩
  · rw [List.find?_cons_of_neg (by simpa [same] using Ne.symm own)] at h
    rw [List.find?_cons_of_neg (by simpa using Ne.symm own)]
    exact .inr ⟨own, h⟩

/-- The newest chain with one number may have changed, and no other. -/
theorem chain_setChain {id : UInt32} (h : (r.setChain id c).chain keyId = .ok d)
    (same : c.keyId = id) :
    (keyId = id ∧ d = c) ∨ (keyId ≠ id ∧ r.chain keyId = .ok d) := by
  rw [chain_eq_ok] at h ⊢
  by_cases own : keyId = id
  · subst own
    rw [setChain, find?_changeFirst _ _ _ (by simp [same])] at h
    obtain ⟨-, -, rfl⟩ := Option.map_eq_some_iff.mp h
    exact .inl ⟨rfl, rfl⟩
  · rw [setChain, find?_changeFirst_of_not] at h
    · exact .inr ⟨own, h⟩
    · intro a ha
      simp only [beq_iff_eq] at ha ⊢
      exact ⟨fun other => own (other.symm.trans ha), fun other => own (other.symm.trans same)⟩

/-! ### Numbers that are spent -/

variable (S) in
/-- The windows of all chains are in order. -/
def Sound (r : GroupRecord) : Prop := ∀ c ∈ r.chains, c.window.Ordered (GroupChainKey.rule S)

variable (S) in
/-- There are chains, and in the newest one with a key number, if there is any, a message number is
spent. -/
structure SpentIn (r : GroupRecord) (keyId n : UInt32) : Prop where
  known : r.isEmpty = false
  spent : ∀ c, r.chain keyId = .ok c → c.window.Spent (GroupChainKey.rule S) n

theorem sound_empty : Sound S .empty := nofun

theorem Sound.add (hr : r.Sound S) (id iteration : UInt32) (key : Block 32)
    (signingKey : PublicKey) : (r.add id iteration key signingKey).Sound S := by
  intro c hc
  rcases List.mem_cons.mp (List.mem_of_mem_take hc) with rfl | old
  · exact Window.ordered_new _
  · exact hr c old

theorem sound_own (keyId iteration : UInt32) (key : Block 32) (signingKey : KeyPair) :
    (own keyId iteration key signingKey).Sound S := by
  intro c hc
  obtain rfl := List.mem_singleton.mp hc
  exact Window.ordered_new _

variable {plain : Bytes} {m : GroupMessage} {message : GroupMessage} {e e' : Entropy}

theorem Sound.encrypt (hr : r.Sound S)
    (h : (r.encrypt S sender plain).run e = (.ok (message, r'), e')) : r'.Sound S := by
  obtain ⟨c, older, next, chains, moved, rfl⟩ := encrypt_ok h
  rw [Sound, chains, List.forall_mem_cons] at hr
  rw [Sound, List.forall_mem_cons]
  exact ⟨hr.1.next (GroupChainKey.counts S) moved, hr.2⟩

theorem Sound.decrypt (hr : r.Sound S) (h : r.decrypt S m = .ok (plain, r')) : r'.Sound S := by
  obtain ⟨c, key, window, named, -, taken, -, rfl⟩ := decrypt_ok h
  intro d hd
  rcases mem_changeFirst hd with old | ⟨-, -, rfl⟩
  · exact hr d old
  · exact (hr c (mem_of_chain named).1).take (GroupChainKey.counts S) taken

/-- A chain that is learned of leaves a number spent if it starts behind it. -/
theorem SpentIn.add (h : r.SpentIn S keyId n) {id iteration : UInt32} (key : Block 32)
    (signingKey : PublicKey) (later : id = keyId → n < iteration) :
    (r.add id iteration key signingKey).SpentIn S keyId n where
  known := by simp [isEmpty, GroupRecord.add, limits]
  spent c hc := by
    rcases chain_add hc with ⟨rfl, rfl⟩ | ⟨-, old⟩
    · exact ⟨later rfl, fun k hk => absurd hk List.not_mem_nil⟩
    · exact h.spent c old

theorem SpentIn.encrypt (h : r.SpentIn S keyId n)
    (sent : (r.encrypt S sender plain).run e = (.ok (message, r'), e')) :
    r'.SpentIn S keyId n := by
  obtain ⟨c, older, next, chains, moved, rfl⟩ := encrypt_ok sent
  obtain rfl : r = ⟨c :: older⟩ := congrArg GroupRecord.mk chains
  refine ⟨rfl, fun d hd => ?_⟩
  rcases chain_cons (c := c) hd rfl with ⟨rfl, rfl⟩ | ⟨-, old⟩
  · have found : (⟨c :: older⟩ : GroupRecord).chain c.keyId = .ok c := by simp [chain]
    exact (h.spent c found).next (GroupChainKey.counts S) moved
  · exact h.spent d old

theorem isEmpty_setChain (r : GroupRecord) (keyId : UInt32) (c : GroupChain) :
    (r.setChain keyId c).isEmpty = r.isEmpty := by
  obtain ⟨_ | ⟨first, older⟩⟩ := r
  · rfl
  · simp only [setChain, changeFirst, isEmpty]
    split <;> rfl

theorem SpentIn.decrypt (h : r.SpentIn S keyId n) (read : r.decrypt S m = .ok (plain, r')) :
    r'.SpentIn S keyId n := by
  obtain ⟨c, key, window, named, -, taken, -, rfl⟩ := decrypt_ok read
  refine ⟨by rw [isEmpty_setChain]; exact h.known, fun d hd => ?_⟩
  rcases chain_setChain hd (mem_of_chain named).2 with ⟨rfl, rfl⟩ | ⟨-, old⟩
  · exact (h.spent c named).take (GroupChainKey.counts S) taken
  · exact h.spent d old

/-- Reading a message spends its number. -/
theorem Sound.spent_decrypt (hr : r.Sound S) (read : r.decrypt S m = .ok (plain, r')) :
    r'.SpentIn S m.keyId m.iteration := by
  obtain ⟨c, key, window, named, -, taken, -, rfl⟩ := decrypt_ok read
  refine ⟨by rw [isEmpty_setChain]; exact isEmpty_of_chain named, fun d hd => ?_⟩
  rcases chain_setChain hd (mem_of_chain named).2 with ⟨-, rfl⟩ | ⟨other, -⟩
  · exact (hr c (mem_of_chain named).1).spent_take (GroupChainKey.counts S) taken
  · exact absurd rfl other

/-- A message with a number that is spent is not read; if its chain is there, and the signature
holds, it is a duplicate. -/
theorem SpentIn.decrypt_error (h : r.SpentIn S m.keyId m.iteration) :
    ∃ e, r.decrypt S m = .error e ∧
      ∀ c, r.chain m.keyId = .ok c → m.checkSignature S c.signingKey = .ok () →
        ∃ index, e = .duplicateMessage index m.iteration := by
  cases decrypted : r.decrypt S m with
  | ok read =>
    obtain ⟨c, key, window, named, -, taken, -⟩ := decrypt_ok decrypted
    rw [(h.spent c named).take_eq] at taken
    cases taken
  | error e =>
    refine ⟨e, rfl, fun c named signed => ?_⟩
    rw [decrypt_of_error named signed (h.spent c named).take_eq] at decrypted
    cases decrypted
    exact ⟨_, rfl⟩

end GroupRecord

/-! ### Through a run -/

section
variable {app : App} {s : Site} {c : GroupCall} {r r' : GroupRecord}

theorem GroupCall.Changes.sound (h : c.Changes S sender r r') (hr : r.Sound S) : r'.Sound S := by
  cases h with
  | same => exact hr
  | made => exact GroupRecord.sound_own _ _ _ _
  | learned => exact hr.add _ _ _ _
  | sent h => exact hr.encrypt h
  | read _ h => exact hr.decrypt h

/-- The call does not announce a chain of a key number from a message number or an earlier one on. -/
def GroupCall.Past (keyId n : UInt32) (c : GroupCall) : Prop :=
  ∀ m, c = .learn m → m.keyId = keyId → n < m.iteration

theorem GroupCall.Changes.spentIn (h : c.Changes S sender r r') (hr : r.SpentIn S keyId n)
    (past : c.Past keyId n) : r'.SpentIn S keyId n := by
  cases h with
  | same => exact hr
  | made _ none =>
    rw [hr.known] at none
    cases none
  | learned m => exact hr.add _ _ (past m rfl)
  | sent h => exact hr.encrypt h
  | read _ h => exact hr.decrypt h

theorem GroupRecord.Sound.after {calls : List (GroupCall × App)}
    (h : (s.store.loadSenderKey sender).Sound S) :
    ((s.afterGroup S sender calls).store.loadSenderKey sender).Sound S := by
  induction calls generalizing s with
  | nil => exact h
  | cons call calls ih => exact ih ((call.1.changes S sender call.2 s).sound h)

theorem GroupRecord.SpentIn.after {calls : List (GroupCall × App)}
    (h : (s.store.loadSenderKey sender).SpentIn S keyId n)
    (past : ∀ call ∈ calls, call.1.Past keyId n) :
    ((s.afterGroup S sender calls).store.loadSenderKey sender).SpentIn S keyId n := by
  induction calls generalizing s with
  | nil => exact h
  | cons call calls ih =>
    rw [List.forall_mem_cons] at past
    exact ih ((call.1.changes S sender call.2 s).spentIn h past.1) past.2

/-- **A message to a group is read once**, unless its chain is announced again.  After a message has
been read, as long as no announcement of a chain with its key number from its own number or an
earlier one on is learned of, no message with the two numbers is read: the call fails, changes
nothing, and reports a duplicate if the chain is still there and the signature holds. -/
theorem read_once {start : Site} {before later : List (GroupCall × App)} {bs plain : Bytes}
    {m : GroupMessage} (none : start.store.senderKeys[sender]? = none)
    (read : (GroupCall.decrypt bs).run S sender app (start.afterGroup S sender before)
      = (.ok (.read plain), s))
    (parsed : GroupMessage.parse bs = .ok m)
    (past : ∀ call ∈ later, call.1.Past m.keyId m.iteration) :
    ∀ (bs' : Bytes) (m' : GroupMessage) (app' : App), GroupMessage.parse bs' = .ok m' →
      m'.keyId = m.keyId → m'.iteration = m.iteration →
        let s' := s.afterGroup S sender later
        ∃ e, (GroupCall.decrypt bs').run S sender app' s' = (.error e, s') ∧
          ∀ chain, (s'.store.loadSenderKey sender).chain m.keyId = .ok chain →
            m'.checkSignature S chain.signingKey = .ok () →
              ∃ index, e = .duplicateMessage index m.iteration := by
  intro bs' m' app' parsed' sameKey sameNumber s'
  have sound : ((start.afterGroup S sender before).store.loadSenderKey sender).Sound S := by
    refine GroupRecord.Sound.after ?_
    simp only [Store.loadSenderKey, none]
    exact GroupRecord.sound_empty
  -- the first delivery spends the number, and what follows leaves it spent
  have spent : (s'.store.loadSenderKey sender).SpentIn S m.keyId m.iteration := by
    refine GroupRecord.SpentIn.after ?_ past
    obtain ⟨_, opened, -⟩ := Action.alone_map_ok read
    obtain ⟨m₁, record, parsed₁, opened, -, rfl⟩ := decryptGroup_ok opened
    rw [parsed] at parsed₁
    cases parsed₁
    rw [Site.loadSenderKey_keepChains]
    exact sound.spent_decrypt opened
  rw [← sameKey, ← sameNumber] at spent ⊢
  obtain ⟨e, refused, duplicate⟩ := spent.decrypt_error
  refine ⟨e, ?_, duplicate⟩
  unfold GroupCall.run GroupCall.action
  rw [Action.alone_map, decryptGroup_of_error spent.known parsed' refused]
  rfl

end

end

/-! ### A group to compute with -/

namespace Toy

/-- The peer as the sender of a group. -/
def team : GroupSender := ⟨"team", alice⟩

/-- The announcement of the chain of the sender. -/
def announcement : ChainAnnouncement := .make 5 0 (.replicate 32 4) (keyPair 6).publicKey

/-- The first message of the sender. -/
def groupLetter : GroupMessage :=
  .signed suite 5 0 [1] (keyPair 6).privateKey (.replicate 64 0)

end Toy

/-- A message that comes twice is a duplicate the second time. -/
theorem read_once_first :
    let told := Toy.bob.afterGroup Toy.suite Toy.team [(.learn Toy.announcement, accepting)]
    let read := (GroupCall.decrypt Toy.groupLetter.bytes).run Toy.suite Toy.team accepting told
    read.1 = .ok (.read [1]) ∧ ∃ index,
      ((GroupCall.decrypt Toy.groupLetter.bytes).run Toy.suite Toy.team accepting read.2).1
        = .error (.duplicateMessage index 0) := by
  intro told
  have none : Toy.bob.store.senderKeys[Toy.team]? = none := by decide +kernel
  have parsed : GroupMessage.parse Toy.groupLetter.bytes = .ok Toy.groupLetter :=
    toOption_eq_some.mp (by decide +kernel)
  have first : ((GroupCall.decrypt Toy.groupLetter.bytes).run Toy.suite Toy.team accepting
      told).1.toOption = some (.read [1]) := by decide +kernel
  have kept : ((((GroupCall.decrypt Toy.groupLetter.bytes).run Toy.suite Toy.team accepting
      told).2.store.loadSenderKey Toy.team).chain 5).toOption.isSome := by decide +kernel
  generalize ran : (GroupCall.decrypt Toy.groupLetter.bytes).run Toy.suite Toy.team accepting told
    = read at first kept
  obtain ⟨outcome, s'⟩ := read
  obtain rfl := toOption_eq_some.mp first
  have past : ∀ call ∈ ([] : List (GroupCall × App)), call.1.Past 5 0 := nofun
  obtain ⟨e, failed, duplicate⟩ := read_once none ran parsed past _ _ accepting parsed rfl rfl
  cases named : (s'.store.loadSenderKey Toy.team).chain 5 with
  | error fault =>
    rw [named] at kept
    cases kept
  | ok chain =>
    obtain ⟨index, rfl⟩ := duplicate chain named rfl
    exact ⟨rfl, index, congrArg Prod.fst failed⟩

/-- A message is read; its chain is announced once more, and the same message is read again. -/
theorem read_again :
    let calls := [(.learn Toy.announcement, accepting),
      (.decrypt Toy.groupLetter.bytes, accepting), (.learn Toy.announcement, accepting)]
    let told := Toy.bob.afterGroup Toy.suite Toy.team (calls.take 1)
    let toldAgain := Toy.bob.afterGroup Toy.suite Toy.team calls
    let read := GroupCall.decrypt Toy.groupLetter.bytes
    (read.run Toy.suite Toy.team accepting told).1 = .ok (.read [1]) ∧
      (read.run Toy.suite Toy.team accepting toldAgain).1 = .ok (.read [1]) := by
  refine ⟨toOption_eq_some.mp ?_, toOption_eq_some.mp ?_⟩
  · decide +kernel
  · decide +kernel

end DoubleRatchet
