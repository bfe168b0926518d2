/-
DoubleRatchet/Proofs/Listening.lean

A member of a group reads what it is in time for, in any order.

To a member that has learned of a chain, the messages of the chain fall into three parts:

    before the place    ·   ·   ·              gone
    passed              ·   k   k   ·   k      gone, unless the key is kept
    ahead                                 …    there, if they are not too far

A message is gone (`Broadcast.Gone`) if it is from before the announced place, has been
read, or has a key that has given way to as many later ones as are kept.  The chain of the
member lacks the keys of what is gone, and of nothing else (`Broadcast.Listening`).  So
what is gone is a duplicate, and everything else that is near enough is read, and reads
as what was sent (`heard_in_any_order`).
-/
import DoubleRatchet.Proofs.Broadcast
import Mathlib.Data.List.Perm.Subperm

namespace DoubleRatchet

/-! ### What is gone -/

section
variable (S : Suite) (name : GroupSender)

/-- The chain with the key number keeps as many keys for greater numbers as it keeps at all. -/
def Site.Crowded (s : Site) (keyId n : UInt32) : Prop :=
  ∃ c ∈ ((s.store.loadSenderKey name).chain keyId).toOption,
    c.window.Crowded (GroupChainKey.rule S) n

instance (s : Site) (keyId n : UInt32) : Decidable (s.Crowded S name keyId n) :=
  inferInstanceAs (Decidable (∃ c ∈ _, Window.Crowded ..))

namespace Broadcast

variable (b : Broadcast)

/-- The key of a message has given way to later ones, now or before. -/
def Displaced (keyId n : UInt32) : Prop := ∃ s ∈ b.member :: b.past, s.Crowded S name keyId n

instance (keyId n : UInt32) : Decidable (b.Displaced S name keyId n) :=
  inferInstanceAs (Decidable (∃ s ∈ _, Site.Crowded ..))

/-- The member has no key for a message of the announced chain any more. -/
def Gone (d : ChainAnnouncement) (n : UInt32) : Prop :=
  n < d.iteration ∨ (∃ m ∈ b.read, m.keyId = d.keyId ∧ m.iteration = n) ∨
    b.Displaced S name d.keyId n

/-- A message of the announced chain is in time: it is not from before the announced place, and not
too far ahead of the chain of the member, and its key has not given way. -/
structure InTime (d : ChainAnnouncement) (m : GroupMessage) : Prop where
  later : d.iteration ≤ m.iteration
  near : m.iteration.toNat ≤ ((b.member.store.loadSenderKey name).chain d.keyId).toOption.elim 0
    (·.window.chain.iteration.toNat) + limits.forwardJump
  kept : ¬b.Displaced S name d.keyId m.iteration

instance (d : ChainAnnouncement) (m : GroupMessage) : Decidable (b.InTime S name d m) :=
  decidable_of_iff (_ ∧ _ ∧ _) ⟨fun h => ⟨h.1, h.2.1, h.2.2⟩, fun h => ⟨h.later, h.near, h.kept⟩⟩

/-- What a member makes of the chains that it has learned of. -/
structure Listening (origins : List Origin) : Prop where
  chains : (b.member.store.loadSenderKey name).chains.map (·.keyId) = b.learned.map (·.keyId)
  past : ∀ s ∈ b.past, ∀ c ∈ (s.store.loadSenderKey name).chains,
    c.keyId ∈ b.learned.map (·.keyId)
  read : ∀ m ∈ b.read, m.keyId ∈ b.learned.map (·.keyId) ∧ ∃ p ∈ b.sent, p.message = m
  /-- It lacks the keys of what is gone, and of nothing else. -/
  follows : ∀ d ∈ b.learned, ∃ o ∈ origins, o.Announces S d ∧
    ∀ c, (b.member.store.loadSenderKey name).chain d.keyId = .ok c →
      o.Begins S c ∧ c.window.Lacks (GroupChainKey.rule S) (b.Gone S name d)

end Broadcast

end

section
variable {S : Suite} {name : GroupSender} {r : GroupRecord} {c : GroupChain} {keyId n : UInt32}

/-! ### Chains and their numbers -/

namespace GroupRecord

theorem exists_chain (h : keyId ∈ r.chains.map (·.keyId)) : ∃ c, r.chain keyId = .ok c := by
  obtain ⟨c, hc, rfl⟩ := List.mem_map.mp h
  obtain ⟨d, found⟩ := Option.isSome_iff_exists.mp
    ((List.find?_isSome (p := (·.keyId == c.keyId))).mpr ⟨c, hc, beq_self_eq_true _⟩)
  exact ⟨d, chain_eq_ok.mpr found⟩

theorem mem_keyIds_of_chain (h : r.chain keyId = .ok c) : keyId ∈ r.chains.map (·.keyId) := by
  obtain ⟨hc, rfl⟩ := mem_of_chain h
  exact List.mem_map_of_mem hc

theorem keyIds_setChain (r : GroupRecord) (same : c.keyId = keyId) :
    (r.setChain keyId c).chains.map (·.keyId) = r.chains.map (·.keyId) := by
  apply changeFirst_map
  intro d hd
  rw [same]
  exact (eq_of_beq hd).symm

/-- If there is room, learning of a chain leaves the chains with other numbers alone. -/
theorem chain_learn_of_room {m : ChainAnnouncement} (room : r.chains.length < limits.groupChains)
    (ne : keyId ≠ m.keyId) : (r.learn m).chain keyId = r.chain keyId := by
  have few : r.chains.length ≤ limits.groupChains - 1 := Nat.le_sub_one_of_lt room
  unfold chain
  rw [chains_learn, List.take_of_length_le few, List.find?_cons_of_neg (by simpa using ne.symm)]

end GroupRecord

theorem Site.Crowded.mem_keyIds {s : Site} (h : s.Crowded S name keyId n) :
    keyId ∈ (s.store.loadSenderKey name).chains.map (·.keyId) := by
  obtain ⟨c, hc, -⟩ := h
  exact GroupRecord.mem_keyIds_of_chain (toOption_eq_some.mp hc)

theorem Site.crowded_iff {s : Site} (named : (s.store.loadSenderKey name).chain keyId = .ok c) :
    s.Crowded S name keyId n ↔ c.window.Crowded (GroupChainKey.rule S) n := by
  simp [Site.Crowded, named, Except.toOption]

namespace Broadcast

variable {b b' : Broadcast} {origins : List Origin} {d : ChainAnnouncement}

/-! ### What stays gone -/

theorem displaced_cons (past : b'.past = b.member :: b.past) :
    b'.Displaced S name keyId n ↔
      b'.member.Crowded S name keyId n ∨ b.Displaced S name keyId n := by
  unfold Displaced
  rw [past]
  simp only [List.mem_cons, exists_eq_or_imp]

/-- What is gone of a chain stays so while the member has the chain as it was. -/
theorem gone_congr (past : b'.past = b.member :: b.past)
    (read : ∀ m, m.keyId = d.keyId → (m ∈ b'.read ↔ m ∈ b.read))
    (same : (b'.member.store.loadSenderKey name).chain d.keyId
      = (b.member.store.loadSenderKey name).chain d.keyId) :
    b'.Gone S name d n ↔ b.Gone S name d n := by
  have crowded : b'.member.Crowded S name d.keyId n → b.Displaced S name d.keyId n := by
    intro now
    refine ⟨b.member, List.mem_cons_self, ?_⟩
    unfold Site.Crowded at now ⊢
    rwa [same] at now
  have heard : (∃ m ∈ b'.read, m.keyId = d.keyId ∧ m.iteration = n)
      ↔ ∃ m ∈ b.read, m.keyId = d.keyId ∧ m.iteration = n := by
    constructor
    · rintro ⟨m, hm, named, number⟩
      exact ⟨m, (read m named).mp hm, named, number⟩
    · rintro ⟨m, hm, named, number⟩
      exact ⟨m, (read m named).mpr hm, named, number⟩
  unfold Gone
  rw [heard, displaced_cons past, or_iff_right_of_imp crowded]

/-- When a message is read it is gone, and so is what its chain is crowded for then. -/
theorem gone_read {member : Site} {p : Spoken} (keyId : d.keyId = p.message.keyId)
    (named : (member.store.loadSenderKey name).chain d.keyId = .ok c) :
    Gone S name { b with member, read := p.message :: b.read, past := b.member :: b.past } d n ↔
      n = p.message.iteration ∨ c.window.Crowded (GroupChainKey.rule S) n ∨ b.Gone S name d n := by
  unfold Gone
  rw [displaced_cons rfl, Site.crowded_iff named]
  simp only [List.mem_cons, exists_eq_or_imp, keyId, true_and]
  grind

/-! ### The member listens -/

theorem listening_start {sender member : Site}
    (strange : member.store.loadSenderKey name = .empty) :
    ({ sender, member } : Broadcast).Listening S name [] where
  chains := by
    rw [strange]
    rfl
  past := nofun
  read := nofun
  follows := nofun

namespace Listening

/-- The member has never had other chains than those that it has learned of. -/
theorem heard (h : b.Listening S name origins) : ∀ s ∈ b.member :: b.past,
    ∀ c ∈ (s.store.loadSenderKey name).chains, c.keyId ∈ b.learned.map (·.keyId) := by
  intro s hs c hc
  rcases List.mem_cons.mp hs with rfl | before
  · rw [← h.chains]
    exact List.mem_map_of_mem hc
  · exact h.past s before c hc

/-- A chain that the member has not learned of has not given way. -/
theorem not_displaced (h : b.Listening S name origins)
    (new : keyId ∉ b.learned.map (·.keyId)) : ¬b.Displaced S name keyId n := by
  rintro ⟨s, hs, crowded⟩
  obtain ⟨c, hc, rfl⟩ := List.mem_map.mp crowded.mem_keyIds
  exact new (h.heard s hs c hc)

/-- Of a chain that the member learns of now, only what is before the announced place is gone. -/
theorem gone_learned (h : b.Listening S name origins) (new : d.keyId ∉ b.learned.map (·.keyId))
    {member : Site}
    (named : (member.store.loadSenderKey name).chain d.keyId = .ok d.chain) :
    Gone S name { b with member, learned := d :: b.learned, past := b.member :: b.past } d n ↔
      n < d.iteration := by
  unfold Gone
  rw [displaced_cons rfl, Site.crowded_iff named]
  constructor
  · rintro (before | ⟨m, hm, keyId, -⟩ | crowded | displaced)
    · exact before
    · exact absurd (keyId ▸ (h.read m hm).1) new
    · -- there are no skipped keys yet
      exact absurd crowded (by decide : ¬limits.skippedKeys ≤ 0)
    · exact absurd displaced (h.not_displaced new)
  · exact .inl

/-- There is room for every chain that the sender has begun. -/
theorem room (h : b.Listening S name origins) (speaking : b.Speaking S name origins)
    {m : ChainAnnouncement} (told : m ∈ b.told)
    (once : (m.keyId :: b.learned.map (·.keyId)).Nodup)
    (few : b.begun.length ≤ limits.groupChains) :
    (b.member.store.loadSenderKey name).chains.length < limits.groupChains := by
  have begun : ∀ o ∈ origins, ∀ m, o.Announces S m → m.keyId ∈ b.begun := by
    intro o ho m announces
    rw [speaking.begun, announces.keyId]
    exact List.mem_map_of_mem ho
  -- so the chains that the member has then are different ones of the sender's
  have known : m.keyId :: b.learned.map (·.keyId) ⊆ b.begun := by
    intro keyId there
    rcases List.mem_cons.mp there with rfl | there
    · obtain ⟨o, ho, announces⟩ := speaking.told m told
      exact begun o ho m announces
    · obtain ⟨d, hd, rfl⟩ := List.mem_map.mp there
      obtain ⟨o, ho, announces, -⟩ := h.follows d hd
      exact begun o ho d announces
  have least := (List.subperm_of_subset once known).length_le
  have same := congrArg List.length h.chains
  simp only [List.length_cons, List.length_map] at least same
  omega

/-- The member learns of a chain that it has not learned of before. -/
theorem learn (h : b.Listening S name origins) (speaking : b.Speaking S name origins)
    {member : Site} {m : ChainAnnouncement} (told : m ∈ b.told)
    (record : member.store.loadSenderKey name = (b.member.store.loadSenderKey name).learn m)
    (once : (m.keyId :: b.learned.map (·.keyId)).Nodup)
    (few : b.begun.length ≤ limits.groupChains) :
    Listening S name { b with member, learned := m :: b.learned, past := b.member :: b.past }
      origins := by
  have room := h.room speaking told once few
  have new := (List.nodup_cons.mp once).1
  refine ⟨?chains, ?past, ?read, ?follows⟩
  case chains =>
    dsimp only
    rw [record, GroupRecord.chains_learn, List.take_of_length_le (Nat.le_sub_one_of_lt room),
      List.map_cons, h.chains]
    rfl
  case past =>
    intro s hs c hc
    exact List.mem_cons_of_mem _ (h.heard s hs c hc)
  case read =>
    intro g hg
    obtain ⟨there, sent⟩ := h.read g hg
    exact ⟨List.mem_cons_of_mem _ there, sent⟩
  case follows =>
    intro d hd
    rcases List.mem_cons.mp hd with rfl | old
    · -- the new chain is the first one that is found, and starts at the announced place
      have named : (member.store.loadSenderKey name).chain d.keyId = .ok d.chain := by
        rw [record]
        exact GroupRecord.chain_learn_self _ d
      obtain ⟨o, ho, announces⟩ := speaking.told d told
      refine ⟨o, ho, announces, fun c hc => ?_⟩
      obtain rfl : d.chain = c := Except.ok.inj (named.symm.trans hc)
      exact ⟨announces.begins, (Window.lacks_new _).congr fun n => h.gone_learned new named⟩
    · have same : (member.store.loadSenderKey name).chain d.keyId
          = (b.member.store.loadSenderKey name).chain d.keyId := by
        rw [record]
        apply GroupRecord.chain_learn_of_room room
        intro same
        exact new (same ▸ List.mem_map_of_mem old)
      obtain ⟨o, ho, announces, follow⟩ := h.follows d old
      refine ⟨o, ho, announces, fun c hc => ?_⟩
      obtain ⟨begins, lacks⟩ := follow c (same.symm.trans hc)
      exact ⟨begins, lacks.congr fun n => gone_congr rfl (fun _ _ => Iff.rfl) same⟩

/-- The member reads a message with the chain that it was sent with. -/
theorem hear (h : b.Listening S name origins) {member : Site} {p : Spoken} {plain : Bytes}
    (sent : p ∈ b.sent)
    (opened : (b.member.store.loadSenderKey name).decrypt S p.message
      = .ok (plain, member.store.loadSenderKey name)) :
    Listening S name { b with member, read := p.message :: b.read, past := b.member :: b.past }
      origins := by
  obtain ⟨c, key, window, named, -, taken, -, record⟩ := GroupRecord.decrypt_ok opened
  obtain ⟨-, keyId⟩ := GroupRecord.mem_of_chain named
  refine ⟨?chains, h.heard, ?read, ?follows⟩
  case chains =>
    dsimp only
    rw [record, GroupRecord.keyIds_setChain _ (by exact keyId)]
    exact h.chains
  case read =>
    intro g hg
    rcases List.mem_cons.mp hg with rfl | before
    · exact ⟨h.chains ▸ GroupRecord.mem_keyIds_of_chain named, p, sent, rfl⟩
    · exact h.read g before
  case follows =>
    intro d hd
    obtain ⟨o, ho, announces, follow⟩ := h.follows d hd
    refine ⟨o, ho, announces, fun c' hc' => ?_⟩
    have changed := hc'
    dsimp only at changed
    rw [record] at changed
    rcases GroupRecord.chain_setChain changed keyId with ⟨same, rfl⟩ | ⟨other, old⟩
    · -- the chain that has given its key
      obtain ⟨begins, lacks⟩ := follow c (same ▸ named)
      have counts := GroupChainKey.counts S
      refine ⟨⟨begins.keyId, begins.signingKey, (begins.window.take counts taken).1⟩, ?_⟩
      exact (lacks.take counts taken).congr fun n => gone_read same hc'
    · -- a chain with another number stays as it was
      obtain ⟨begins, lacks⟩ := follow c' old
      refine ⟨begins, lacks.congr fun n => gone_congr rfl ?_ (hc'.trans old.symm)⟩
      intro m sameChain
      show m ∈ p.message :: b.read ↔ _
      rw [List.mem_cons, or_iff_right]
      rintro rfl
      exact other sameChain.symm

/-- The member goes on listening, whatever happens. -/
theorem change (h : b.Listening S name origins) (speaking : b.Speaking S name origins)
    (change : b.Changes S name b') (regular : b'.Regular) : b'.Listening S name origins := by
  cases change with
  | same => exact h
  | silent => exact ⟨h.chains, h.past, h.read, h.follows⟩
  | made => exact ⟨h.chains, h.past, h.read, h.follows⟩
  | announced => exact ⟨h.chains, h.past, h.read, h.follows⟩
  | sent =>
    refine ⟨h.chains, h.past, ?_, h.follows⟩
    intro m hm
    obtain ⟨there, p, hp, same⟩ := h.read m hm
    exact ⟨there, p, List.mem_append_left _ hp, same⟩
  | learned told record => exact h.learn speaking told record regular.once regular.few
  | refused =>
    refine ⟨h.chains, h.heard, h.read, ?_⟩
    intro d hd
    obtain ⟨o, ho, announces, follow⟩ := h.follows d hd
    refine ⟨o, ho, announces, fun c hc => ?_⟩
    obtain ⟨begins, lacks⟩ := follow c hc
    exact ⟨begins, lacks.congr fun n => gone_congr rfl (fun _ _ => Iff.rfl) rfl⟩
  | read sent parsed opened =>
    obtain ⟨o, ho, sends⟩ := speaking.sent _ sent
    -- it is parsed as what was sent
    rw [sends.parsed (regular.fits _ sent)] at parsed
    obtain rfl := Except.ok.inj parsed
    exact h.hear sent opened

theorem mono (h : b.Listening S name origins) {origins' : List Origin}
    (more : ∀ o ∈ origins, o ∈ origins') : b.Listening S name origins' := by
  refine ⟨h.chains, h.past, h.read, fun d hd => ?_⟩
  obtain ⟨o, ho, follows⟩ := h.follows d hd
  exact ⟨o, more o ho, follows⟩

end Listening

/-- Through a run, the sender keeps to its chains and the member goes on listening. -/
theorem Speaking.after (hS : S.Reliable) {moves : List Move} (speaking : b.Speaking S name origins)
    (listening : b.Listening S name origins) (regular : (b.after S name moves).Regular) :
    ∃ origins', (b.after S name moves).Speaking S name origins' ∧
      (b.after S name moves).Listening S name origins' := by
  induction moves generalizing b origins with
  | nil => exact ⟨origins, speaking, listening⟩
  | cons move moves ih =>
    have change := b.changes S name move
    have now : (b.step S name move).Regular := Regular.of_after regular
    obtain ⟨origins', speaking', more⟩ := speaking.change hS change now.distinct
    exact ih speaking' ((listening.change speaking change now).mono more) regular

/-! ### What comes of a delivery -/

/-- The member has the chain that a message was sent with, if it has learned of it. -/
theorem Listening.chain_of_learned (h : b.Listening S name origins)
    (speaking : b.Speaking S name origins) (distinct : b.begun.Nodup) (learned : d ∈ b.learned)
    {p : Spoken} (sent : p ∈ b.sent) (same : p.message.keyId = d.keyId) :
    ∃ (o : Origin) (c : GroupChain), o.Sends S p ∧ o.Begins S c ∧
      (b.member.store.loadSenderKey name).chain d.keyId = .ok c ∧
      c.window.Lacks (GroupChainKey.rule S) (b.Gone S name d) := by
  obtain ⟨o, ho, announces, follow⟩ := h.follows d learned
  obtain ⟨o', ho', sends⟩ := speaking.sent p sent
  obtain rfl : o' = o := by
    apply speaking.origin_eq distinct ho' ho
    rw [← sends.keyId, ← announces.keyId, same]
  obtain ⟨c, named⟩ := GroupRecord.exists_chain (r := b.member.store.loadSenderKey name)
    (h.chains ▸ List.mem_map_of_mem learned)
  obtain ⟨begins, lacks⟩ := follow c named
  exact ⟨o', c, sends, begins, named, lacks⟩

/-- What has not been read and is in time is not gone. -/
theorem Listening.not_gone (h : b.Listening S name origins) (speaking : b.Speaking S name origins)
    {p : Spoken} (sent : p ∈ b.sent) (same : p.message.keyId = d.keyId)
    (unread : p.message ∉ b.read) (inTime : b.InTime S name d p.message) :
    ¬b.Gone S name d p.message.iteration := by
  rintro (before | ⟨m, hm, keyId, number⟩ | displaced)
  · exact UInt32.not_lt.mpr inTime.later before
  · -- no other message has the two numbers
    obtain ⟨-, q, hq, rfl⟩ := h.read m hm
    obtain rfl := speaking.spoken_eq hq sent (keyId.trans same.symm) number
    exact unread hm
  · exact inTime.kept displaced

end Broadcast

end

/-- **A member of a group reads every message in time, in any order.**  A sender makes chains,
announces them at any place, and sends; a member learns of announcements and is delivered messages,
in any order.  Let the member have learned of the chain that a message was sent with.  If the message
has not been read yet, and is in time, it is read, and reads as what was sent.  If it has been read,
or is from before the announced place, or has a key that has given way, it is a duplicate, and
changes nothing.  There is no message with the last number of a chain: nothing is sent with it. -/
theorem heard_in_any_order {S : Suite} (hS : S.Reliable) {name : GroupSender} {sender member : Site}
    (silent : sender.store.loadSenderKey name = .empty)
    (strange : member.store.loadSenderKey name = .empty) {moves : List Broadcast.Move}
    {b : Broadcast} (run : Broadcast.after S name { sender, member } moves = b)
    (regular : b.Regular) {d : ChainAnnouncement} (learned : d ∈ b.learned) {p : Spoken}
    (sent : p ∈ b.sent) (same : p.message.keyId = d.keyId) :
    (p.message ∉ b.read → b.InTime S name d p.message →
      ∀ app : App, app p.plain = .ok () → (b.delivery S name app p).1 = .ok p.plain) ∧
    (p.message ∈ b.read ∨ p.message.iteration < d.iteration ∨
        b.Displaced S name d.keyId p.message.iteration →
      ∀ app : App, ∃ index, b.delivery S name app p
        = (.error (.duplicateMessage index p.message.iteration), b.member)) := by
  subst run
  have speaking : Broadcast.Speaking S name { sender, member } [] := Broadcast.speaking_start silent
  obtain ⟨origins, speaking, listening⟩ :=
    speaking.after hS (Broadcast.listening_start strange) regular
  obtain ⟨o, c, sends, begins, named, lacks⟩ :=
    listening.chain_of_learned speaking regular.distinct learned sent same
  generalize Broadcast.after S name { sender, member } moves = b at *
  have parsed := sends.parsed (regular.fits p sent)
  constructor
  · -- the key is there, or the chain gets to it
    intro unread inTime app delivered
    have there := listening.not_gone speaking sent same unread inTime
    have near := inTime.near
    rw [named] at near
    obtain ⟨place, after, leads, number, next, -⟩ := sends.made
    obtain ⟨key, window, taken⟩ :=
      lacks.take_of_near begins.window (GroupChainKey.counts S) there near leads number.symm next
    have decrypted := sends.decrypt hS begins (same ▸ named) taken
    exact congrArg Prod.fst (decryptGroup_of_ok parsed decrypted delivered)
  · -- the number is spent
    intro late app
    have gone : b.Gone S name d p.message.iteration := by
      rcases late with read | before | displaced
      · exact .inr (.inl ⟨_, read, same, rfl⟩)
      · exact .inl before
      · exact .inr (.inr displaced)
    have refused := GroupRecord.decrypt_of_error (same ▸ named) (sends.checked begins)
      (lacks.spent _ gone).take_eq
    exact ⟨_, decryptGroup_of_error (GroupRecord.isEmpty_of_chain named) parsed refused⟩

namespace Toy

/-- Two chains; the member hears of the first one in time, and of the second one a message late. -/
def talk : List Broadcast.Move :=
  [.announce, .send [1], .send [2], .send [3], .learn 0, .deliver 2 accepting, .reset, .announce,
    .send [4], .announce, .send [5], .learn 2]

/-- What has come of it. -/
def heard : Broadcast := Broadcast.after suite team { sender := bob, member := bob } talk

end Toy

/-- A message that another one has overtaken is read, after the sender has begun another chain; the
one that has overtaken it is a duplicate, and so is one from before the announced place. -/
theorem heard_in_any_order_overtaken :
    let delivered (n : Nat) := Toy.heard.sent[n]?.map fun p =>
      Toy.heard.delivery Toy.suite Toy.team accepting p
    (delivered 0).map Prod.fst = some (.ok [1]) ∧
      (∃ index, delivered 2 = some (.error (.duplicateMessage index 2), Toy.heard.member)) ∧
      ∃ index, delivered 3 = some (.error (.duplicateMessage index 0), Toy.heard.member) := by
  intro delivered
  have reliable : Toy.suite.Reliable := ⟨Toy.decrypt_encrypt, fun _ _ _ => rfl⟩
  have empty : Toy.bob.store.loadSenderKey Toy.team = .empty := by decide +kernel
  have regular : Toy.heard.Regular := by decide +kernel
  have overtaken : ∃ p ∈ Toy.heard.sent[0]?, p.plain = [1] ∧ p.message ∉ Toy.heard.read ∧
      ∃ d ∈ Toy.heard.learned, p.message.keyId = d.keyId ∧
        Toy.heard.InTime Toy.suite Toy.team d p.message := by
    decide +kernel
  have read : ∃ p ∈ Toy.heard.sent[2]?, p.message.iteration = 2 ∧ p.message ∈ Toy.heard.read ∧
      ∃ d ∈ Toy.heard.learned, p.message.keyId = d.keyId := by
    decide +kernel
  have before : ∃ p ∈ Toy.heard.sent[3]?, p.message.iteration = 0 ∧
      ∃ d ∈ Toy.heard.learned, p.message.keyId = d.keyId ∧ p.message.iteration < d.iteration := by
    decide +kernel
  refine ⟨?_, ?_, ?_⟩
  · obtain ⟨p, hp, plain, unread, d, hd, same, inTime⟩ := overtaken
    have answer := (heard_in_any_order reliable empty empty (b := Toy.heard) rfl regular hd
      (List.mem_of_getElem? hp) same).1 unread inTime accepting rfl
    rw [plain] at answer
    show (Toy.heard.sent[0]?.map _).map Prod.fst = _
    rw [show Toy.heard.sent[0]? = some p from hp]
    exact congrArg some answer
  · obtain ⟨p, hp, number, read, d, hd, same⟩ := read
    obtain ⟨index, answer⟩ := (heard_in_any_order reliable empty empty (b := Toy.heard) rfl regular
      hd (List.mem_of_getElem? hp) same).2 (.inl read) accepting
    rw [number] at answer
    refine ⟨index, ?_⟩
    show Toy.heard.sent[2]?.map _ = _
    rw [show Toy.heard.sent[2]? = some p from hp]
    exact congrArg some answer
  · obtain ⟨p, hp, number, d, hd, same, before⟩ := before
    obtain ⟨index, answer⟩ := (heard_in_any_order reliable empty empty (b := Toy.heard) rfl regular
      hd (List.mem_of_getElem? hp) same).2 (.inr (.inl before)) accepting
    rw [number] at answer
    refine ⟨index, ?_⟩
    show Toy.heard.sent[3]?.map _ = _
    rw [show Toy.heard.sent[3]? = some p from hp]
    exact congrArg some answer

end DoubleRatchet
