/-
DoubleRatchet/Proofs/Relearning.lean

What it costs to learn of a chain once more.

A member that learns of a chain it has already puts a second copy of it in front, from
the announced place on, and the copies that it had no longer count:

    before     c        a  b  …         c is the chain, with the keys skipped on it
    after      c'   c   a  b  …         c' starts at the announced place, and cannot sign

So the announcement costs something after all (`relearned`).  Messages of the chain from
before the place are lost, although their keys may be kept still, and so are those that
are too far from it.  A record that is full loses its oldest chain.  And a sender that
learns of its own chain cannot encrypt any more, since its newest chain cannot sign.
What is left of its messages reads as before.
-/
import DoubleRatchet.Proofs.Origins
import Mathlib.Data.List.TakeDrop

namespace DoubleRatchet

section
variable {S : Suite} {sender : GroupSender} {app : App} {o : Origin} {m : ChainAnnouncement}
  {g : GroupMessage} {plain : Bytes} {r r' : GroupRecord} {c : GroupChain} {s : Site}

/-! ### What a record reads -/

/-- The record that knows one chain more. -/
def GroupRecord.learn (r : GroupRecord) (m : ChainAnnouncement) : GroupRecord :=
  r.add m.keyId m.iteration m.chainKey m.signingKey

/-- What the record makes of a message. -/
def GroupRecord.reading (S : Suite) (r : GroupRecord) (g : GroupMessage) : Except Error Bytes :=
  (r.decrypt S g).map Prod.fst

namespace GroupRecord

/-- A message is read with the chain that it names, if that has its key and the signature holds. -/
theorem reading_eq_ok : r.reading S g = .ok plain ↔ ∃ c, r.chain g.keyId = .ok c ∧
    g.checkSignature S c.signingKey = .ok () ∧ ∃ key window,
      c.window.take (GroupChainKey.rule S) g.iteration = .ok (key, window) ∧
      S.decrypt key.cipherKey key.iv g.ciphertext = .ok plain := by
  unfold reading
  rw [map_eq_ok]
  constructor
  · rintro ⟨⟨_, r'⟩, read, rfl⟩
    obtain ⟨c, key, window, named, signed, taken, opened, -⟩ := decrypt_ok read
    exact ⟨c, named, signed, key, window, taken, opened⟩
  · rintro ⟨c, named, signed, key, window, taken, opened⟩
    exact ⟨_, decrypt_of_take named signed taken opened, rfl⟩

/-! ### The copy in front -/

theorem chains_learn (r : GroupRecord) (m : ChainAnnouncement) :
    (r.learn m).chains = m.chain :: r.chains.take (limits.groupChains - 1) := rfl

/-- Nothing goes if there is room for one chain more. -/
theorem tail_learn (r : GroupRecord) (m : ChainAnnouncement) :
    (r.learn m).chains.tail = r.chains ↔ r.chains.length < limits.groupChains := by
  rw [chains_learn, List.tail_cons, List.take_eq_self_iff]
  exact Nat.le_sub_one_iff_lt (by decide)

theorem chain_learn_self (r : GroupRecord) (m : ChainAnnouncement) :
    (r.learn m).chain m.keyId = .ok m.chain := by
  rw [chain_eq_ok, chains_learn]
  exact List.find?_cons_of_pos (beq_self_eq_true _)

/-- Another chain is found after learning exactly if it is not among those that go. -/
theorem chain_learn_of_ne {id : UInt32} (ne : id ≠ m.keyId) (h : r.chain id = .ok c) :
    (r.learn m).chain id = .ok c ↔
      ∃ d ∈ r.chains.take (limits.groupChains - 1), d.keyId = id := by
  rw [chain_eq_ok] at h
  rw [chain_eq_ok, chains_learn, List.find?_cons_of_neg (by simpa using ne.symm)]
  constructor
  · intro found
    exact ⟨c, List.mem_of_find?_eq_some found, by simpa using List.find?_some found⟩
  · rintro ⟨d, there, named⟩
    obtain ⟨first, found⟩ := Option.isSome_iff_exists.mp
      (List.find?_isSome (p := (·.keyId == id)).mpr ⟨d, there, by simpa using named⟩)
    rw [← List.take_append_drop (limits.groupChains - 1) r.chains, List.find?_append, found] at h
    rw [found]
    exact h

/-! ### What is left of the messages -/

/-- A message that comes through when a chain is learned once more: one of the chain, neither from
before the announced place nor too far from it, or one of a chain that does not go. -/
def Spares (r : GroupRecord) (m : ChainAnnouncement) (g : GroupMessage) : Prop :=
  if g.keyId = m.keyId then
    m.iteration ≤ g.iteration ∧ g.iteration.toNat ≤ m.iteration.toNat + limits.forwardJump
  else ∃ c ∈ r.chains.take (limits.groupChains - 1), c.keyId = g.keyId

instance : Decidable (r.Spares m g) := by
  unfold Spares
  infer_instance

/-- The copy in front gives the key that the chain has given before, if it gives any. -/
theorem Knows.reading_learn (h : r.Knows S o) (told : o.Announces S m)
    (read : r.reading S g = .ok plain) :
    (r.learn m).reading S g = .ok plain ↔ r.Spares m g := by
  obtain ⟨c, named, signed, key, window, taken, opened⟩ := reading_eq_ok.mp read
  rw [reading_eq_ok]
  unfold Spares
  by_cases same : g.keyId = m.keyId
  · rw [if_pos same]
    have begins := h.begins c (by rw [← told.keyId, ← same]; exact named)
    have found : (r.learn m).chain g.keyId = .ok m.chain := by
      rw [same]
      exact r.chain_learn_self m
    refine Iff.trans ?_ (begins.window.take_new_iff (GroupChainKey.counts S) taken told.place)
    constructor
    · rintro ⟨d, named', -, key', window', taken', -⟩
      obtain rfl : m.chain = d := Except.ok.inj (found.symm.trans named')
      exact ⟨key', window', taken'⟩
    · rintro ⟨key', window', taken'⟩
      obtain rfl := begins.window.key_eq told.begins.window (GroupChainKey.counts S) taken taken'
      refine ⟨m.chain, found, ?_, key, window', taken', opened⟩
      rw [told.begins.signingKey, ← begins.signingKey]
      exact signed
  · rw [if_neg same, ← chain_learn_of_ne same named]
    constructor
    · rintro ⟨d, named', -⟩
      rcases chain_add named' with ⟨own, -⟩ | ⟨-, old⟩
      · exact absurd own same
      · obtain rfl : c = d := Except.ok.inj (named.symm.trans old)
        exact named'
    · intro kept
      exact ⟨c, kept, signed, key, window, taken, opened⟩

/-- The copy in front cannot sign. -/
theorem encrypt_learn (r : GroupRecord) (m : ChainAnnouncement) (plain : Bytes) (e : Entropy) :
    ((r.learn m).encrypt S sender plain).run e = (.error (.noSigningKey sender), e) := by
  rw [run_encrypt, chains_learn]
  rfl

end GroupRecord

/-! ### On a device -/

/-- A device reads what the record of the sender reads and the application takes. -/
theorem GroupCall.read_iff {bs : Bytes} :
    ((GroupCall.decrypt bs).run S sender app s).1 = .ok (.read plain) ↔
      ∃ g, GroupMessage.parse bs = .ok g ∧
        (s.store.loadSenderKey sender).reading S g = .ok plain ∧ app plain = .ok () := by
  unfold run action
  rw [Action.alone_map, map_eq_ok]
  constructor
  · rintro ⟨_, read, ⟨⟩⟩
    obtain ⟨g, record, parsed, decrypted, delivered, -⟩ := decryptGroup_ok (Prod.ext read rfl)
    exact ⟨g, parsed, map_eq_ok.mpr ⟨_, decrypted, rfl⟩, delivered⟩
  · rintro ⟨g, parsed, read, delivered⟩
    obtain ⟨⟨_, record⟩, decrypted, rfl⟩ := map_eq_ok.mp read
    refine ⟨_, ?_, rfl⟩
    rw [decryptGroup_of_ok parsed decrypted delivered]

theorem GroupCall.run_learn (m : ChainAnnouncement) (s : Site) :
    (GroupCall.learn m).run S sender app s
      = (.ok .learned, s.keepChains sender ((s.store.loadSenderKey sender).learn m)) := by
  unfold run action
  rw [Action.alone_map, alone_learnChain]
  rfl

/-- **What it costs to learn of a chain once more.**  A device knows where a chain begins, and goes on
as it likes; then it learns of the chain from some place on.  Of the messages that it could read it
reads those as before that are of the chain and neither from before the place nor too far from it, and
those of the other chains but the oldest that make room for the copy; there is room if the record is
not full.  And it cannot encrypt. -/
theorem relearned {start : Site} {calls : List (GroupCall × App)} {s' : Site} {answer}
    (knows : (start.store.loadSenderKey sender).Knows S o)
    (of : ∀ call ∈ calls, call.1.Of S o) (told : o.Announces S m)
    (ran : (GroupCall.learn m).run S sender app (start.afterGroup S sender calls) = (answer, s')) :
    let s := start.afterGroup S sender calls
    let r := s.store.loadSenderKey sender
    answer = .ok .learned ∧
      (∀ (bs plain : Bytes) (g : GroupMessage) (app' : App), GroupMessage.parse bs = .ok g →
        ((GroupCall.decrypt bs).run S sender app' s).1 = .ok (.read plain) →
          (((GroupCall.decrypt bs).run S sender app' s').1 = .ok (.read plain) ↔ r.Spares m g)) ∧
      ((s'.store.loadSenderKey sender).chains.tail = r.chains ↔
        r.chains.length < limits.groupChains) ∧
      ∀ (plain : Bytes) (app' : App),
        ((GroupCall.encrypt plain).run S sender app' s').1 = .error (.noSigningKey sender) := by
  intro s r
  rw [GroupCall.run_learn] at ran
  cases ran
  refine ⟨rfl, ?reads, ?room, ?mute⟩
  case reads =>
    intro bs plain g app' parsed read
    obtain ⟨g', parsed', read, delivered⟩ := GroupCall.read_iff.mp read
    obtain rfl : g = g' := Except.ok.inj (parsed.symm.trans parsed')
    rw [← (knows.after of).reading_learn told read, GroupCall.read_iff,
      Site.loadSenderKey_keepChains]
    constructor
    · rintro ⟨g', parsed', again, -⟩
      obtain rfl : g = g' := Except.ok.inj (parsed.symm.trans parsed')
      exact again
    · intro again
      exact ⟨g, parsed, again, delivered⟩
  case room =>
    rw [Site.loadSenderKey_keepChains]
    exact r.tail_learn m
  case mute =>
    intro plain app'
    unfold GroupCall.run GroupCall.action
    rw [Action.alone_map, alone_encryptGroup, Site.loadSenderKey_keepChains,
      GroupRecord.encrypt_learn]
    rfl

end

/-! ### On the group to compute with -/

namespace Toy

/-- The beginning of the chain of the sender. -/
def origin : Origin := ⟨5, ⟨0, .replicate 32 4⟩, (keyPair 6).publicKey⟩

/-- The second message of the sender. -/
def groupAnswer : GroupMessage :=
  .signed suite 5 1 [2] (keyPair 6).privateKey (.replicate 64 0)

/-- The announcement of the chain when the sender has sent one message. -/
def laterAnnouncement : ChainAnnouncement :=
  .make 5 1 (mac (Block.replicate 32 4).bytes [2]) (keyPair 6).publicKey

theorem origin_announcement : origin.Announces suite announcement := ⟨rfl, rfl, 0, rfl⟩

/-- A device that has been told of the chain of the sender. -/
def told : Site := bob.afterGroup suite team [(.learn announcement, accepting)]

theorem told_knows : (told.store.loadSenderKey team).Knows suite origin := by
  have learned : told.store.loadSenderKey team = (bob.store.loadSenderKey team).learn announcement := by
    show ((GroupCall.learn announcement).run suite team accepting bob).2.store.loadSenderKey team = _
    rw [GroupCall.run_learn, Site.loadSenderKey_keepChains]
  rw [learned]
  exact GroupRecord.knows_add origin_announcement

end Toy

/-- The first message has been passed over; it can still be read when the chain has been announced once
more from its beginning. -/
theorem relearned_passed_over :
    let s := Toy.told.afterGroup Toy.suite Toy.team [(.decrypt Toy.groupAnswer.bytes, accepting)]
    let s' := ((GroupCall.learn Toy.announcement).run Toy.suite Toy.team accepting s).2
    ((GroupCall.decrypt Toy.groupLetter.bytes).run Toy.suite Toy.team accepting s').1
        = .ok (.read [1]) ∧
      (s'.store.loadSenderKey Toy.team).chains.tail = (s.store.loadSenderKey Toy.team).chains := by
  intro s s'
  have of : ∀ call ∈ [(GroupCall.decrypt Toy.groupAnswer.bytes, accepting)],
      call.1.Of Toy.suite Toy.origin := by
    intro call there m learned
    obtain rfl := List.mem_singleton.mp there
    cases learned
  have parsed : GroupMessage.parse Toy.groupLetter.bytes = .ok Toy.groupLetter :=
    toOption_eq_some.mp (by decide +kernel)
  have read : ((GroupCall.decrypt Toy.groupLetter.bytes).run Toy.suite Toy.team accepting s).1
      = .ok (.read [1]) := toOption_eq_some.mp (by decide +kernel)
  have spared : (s.store.loadSenderKey Toy.team).Spares Toy.announcement Toy.groupLetter := by
    decide +kernel
  have room : (s.store.loadSenderKey Toy.team).chains.length < limits.groupChains := by
    decide +kernel
  obtain ⟨-, reads, tail, -⟩ := relearned Toy.told_knows of Toy.origin_announcement
    (show (GroupCall.learn Toy.announcement).run Toy.suite Toy.team accepting s = (_, s') from rfl)
  exact ⟨(reads _ _ _ accepting parsed read).mpr spared, tail.mpr room⟩

/-- A message that could be read is lost when a later announcement of its chain comes; and a sender
that could encrypt cannot when the announcement of its own chain comes back. -/
theorem relearning_costs :
    let later := ((GroupCall.learn Toy.laterAnnouncement).run Toy.suite Toy.team accepting Toy.told).2
    let read := (GroupCall.decrypt Toy.groupLetter.bytes).run Toy.suite Toy.team accepting
    let owner := (GroupCall.announce.run Toy.suite Toy.team accepting Toy.bob).2
    let own := (owner.store.loadSenderKey Toy.team).chains.map (·.announcement)
    let encrypt := (GroupCall.encrypt [1]).run Toy.suite Toy.team accepting
    (read Toy.told).1.toOption = some (.read [1]) ∧ (read later).1.toOption = none ∧
      own.length = 1 ∧ (encrypt owner).1.toOption.isSome ∧
      ∀ m ∈ own, (encrypt ((GroupCall.learn m).run Toy.suite Toy.team accepting owner).2).1.toOption
        = none := by
  refine ⟨?_, ?_, ?_, ?_, ?_⟩
  · decide +kernel
  · decide +kernel
  · decide +kernel
  · decide +kernel
  · decide +kernel

end DoubleRatchet
