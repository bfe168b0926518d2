/-
DoubleRatchet/Proofs/Broadcast.lean

A sender of a group and one of its members.

A `Broadcast` is the sender and the member, with all that has passed between them.  The
sender makes a chain, announces it whenever it likes, sends, and empties its record to
begin another chain.  The member learns of announcements and is delivered messages, in
any order, some of them late, some more than once, some never.

    sender    announce   send   send   announce   reset   announce   send   …
    member           learn   deliver      deliver      learn     deliver   …

The sender keeps to its chains (`Broadcast.Speaking`).  What it announces tells of one of
the chains that it has begun, what it sends is made with the next key of the chain that
it has then, and no key is used twice.
-/
import DoubleRatchet.Proofs.Bodies
import DoubleRatchet.Proofs.Relearning
import Mathlib.Data.List.Nodup

namespace DoubleRatchet

/-- A suite that opens what it has sealed, and takes its own signatures for genuine. -/
structure Suite.Reliable (S : Suite) : Prop where
  decrypt_encrypt : ∀ key iv plain, S.decrypt key iv (S.encrypt key iv plain) = .ok plain
  verify_sign : ∀ (k : PrivateKey) bs random,
    S.verify (S.keyPair k).publicKey.raw bs (S.sign k.raw bs random).bytes = true

/-! ### What passes -/

/-- A message to a group, with what it was made of. -/
structure Spoken where
  plain : Bytes
  message : GroupMessage
  deriving DecidableEq

/-- A sender and a member, and what has passed between them. -/
structure Broadcast where
  sender : Site
  member : Site
  /-- The numbers of the chains that the sender has made. -/
  begun : List UInt32 := []
  /-- All announcements, in the order in which they were made. -/
  told : List ChainAnnouncement := []
  /-- All messages, in the order in which they were made. -/
  sent : List Spoken := []
  /-- The announcements that the member has learned of, newest first. -/
  learned : List ChainAnnouncement := []
  /-- The messages that the member has read. -/
  read : List GroupMessage := []
  /-- The member as it was before, newest first. -/
  past : List Site := []

/-- What may happen next. -/
inductive Broadcast.Move where
  /-- The sender announces its chain, and makes one if it has none. -/
  | announce
  /-- The sender empties its record. -/
  | reset
  | send (plain : Bytes)
  /-- The member learns of the announcement with a number. -/
  | learn (number : Nat)
  /-- The message with a number is delivered. -/
  | deliver (number : Nat) (app : App)

namespace Broadcast

section
variable (S : Suite) (name : GroupSender)

/-- What comes of delivering a message. -/
def delivery (app : App) (b : Broadcast) (p : Spoken) : Except Error Bytes × Site :=
  (decryptGroup S name p.message.bytes).alone app b.member

/-- The broadcast after a move. -/
def step (b : Broadcast) : Move → Broadcast
  | .announce =>
    let (outcome, sender) := (announceChain S name).alone accepting b.sender
    match outcome with
    | .error _ => { b with sender }
    | .ok m =>
      { b with
        sender
        begun :=
          if (b.sender.store.loadSenderKey name).isEmpty then b.begun ++ [m.keyId] else b.begun
        told := b.told ++ [m] }
  | .reset => { b with sender := b.sender.keepChains name .empty }
  | .send plain =>
    let (outcome, sender) := (encryptGroup S name plain).alone accepting b.sender
    { b with
      sender
      sent := match outcome with
        | .ok message => b.sent ++ [⟨plain, message⟩]
        | .error _ => b.sent }
  | .learn number =>
    match b.told[number]? with
    | none => b
    | some m =>
      { b with
        member := ((learnChain name m).alone accepting b.member).2
        learned := m :: b.learned
        past := b.member :: b.past }
  | .deliver number app =>
    match b.sent[number]? with
    | none => b
    | some p =>
      let (outcome, member) := b.delivery S name app p
      { b with
        member
        read := match outcome with
          | .ok _ => p.message :: b.read
          | .error _ => b.read
        past := b.member :: b.past }

/-- The broadcast after some moves. -/
def after (b : Broadcast) (moves : List Move) : Broadcast := moves.foldl (step S name) b

end

/-- What becomes of a broadcast in one move. -/
inductive Changes (S : Suite) (name : GroupSender) (b : Broadcast) : Broadcast → Prop
  | same : Changes S name b b
  /-- The sender has sent nothing; it has its chains still, or none. -/
  | silent {sender : Site}
    (h : sender.store.loadSenderKey name = b.sender.store.loadSenderKey name ∨
      sender.store.loadSenderKey name = .empty) :
    Changes S name b { b with sender }
  | made {sender : Site} {keyId : UInt32} {key : Block 32} {secret : PrivateKey}
    (h : sender.store.loadSenderKey name = .own keyId 0 key (S.keyPair secret)) :
    Changes S name b
      { b with
        sender
        begun := b.begun ++ [keyId]
        told := b.told ++ [.make keyId 0 key (S.keyPair secret).publicKey] }
  | announced {c : GroupChain} (h : c ∈ (b.sender.store.loadSenderKey name).chains.head?) :
    Changes S name b { b with told := b.told ++ [c.announcement] }
  | sent {sender : Site} {plain : Bytes} {message : GroupMessage} {source source' : Entropy}
    (h : ((b.sender.store.loadSenderKey name).encrypt S name plain).run source
      = (.ok (message, sender.store.loadSenderKey name), source')) :
    Changes S name b { b with sender, sent := b.sent ++ [⟨plain, message⟩] }
  | learned {member : Site} {m : ChainAnnouncement} (told : m ∈ b.told)
    (h : member.store.loadSenderKey name = (b.member.store.loadSenderKey name).learn m) :
    Changes S name b
      { b with member, learned := m :: b.learned, past := b.member :: b.past }
  /-- What is delivered is not read, and changes nothing. -/
  | refused : Changes S name b { b with past := b.member :: b.past }
  | read {member : Site} {p : Spoken} {m : GroupMessage} {plain : Bytes} (sent : p ∈ b.sent)
    (parsed : GroupMessage.parse p.message.bytes = .ok m)
    (h : (b.member.store.loadSenderKey name).decrypt S m
      = .ok (plain, member.store.loadSenderKey name)) :
    Changes S name b { b with member, read := p.message :: b.read, past := b.member :: b.past }

theorem changes (S : Suite) (name : GroupSender) (b : Broadcast) (move : Move) :
    b.Changes S name (b.step S name move) := by
  cases move with
  | announce =>
    simp only [step, alone_announceChain]
    rcases chains : (b.sender.store.loadSenderKey name).chains with - | ⟨c, older⟩
    · have none : (b.sender.store.loadSenderKey name).isEmpty = true := by
        rw [GroupRecord.isEmpty, chains]
        rfl
      cases dead : b.sender.entropy.dead
      · -- there are random bytes to make a chain of
        rw [none]
        exact .made (Site.loadSenderKey_keepChains _ _ _)
      · exact .silent (.inl rfl)
    · have some : (b.sender.store.loadSenderKey name).isEmpty = false := by
        rw [GroupRecord.isEmpty, chains]
        rfl
      rw [some]
      exact .announced (by rw [chains]; rfl)
  | reset => exact .silent (.inr (Site.loadSenderKey_keepChains _ _ _))
  | send plain =>
    simp only [step]
    rcases ran : (encryptGroup S name plain).alone accepting b.sender with ⟨e | message, sender⟩
    · obtain ⟨store, -⟩ := encryptGroup_error ran
      exact .silent (.inl (by rw [store]))
    · obtain ⟨record, entropy, made, rfl⟩ := encryptGroup_ok ran
      apply Changes.sent
      rw [Site.loadSenderKey_keepChains]
      exact made
  | learn number =>
    simp only [step]
    cases told : b.told[number]? with
    | none => exact .same
    | some m =>
      apply Changes.learned (List.mem_of_getElem? told)
      rw [alone_learnChain, Site.loadSenderKey_keepChains]
      rfl
  | deliver number app =>
    simp only [step]
    cases sent : b.sent[number]? with
    | none => exact .same
    | some p =>
      dsimp only
      rcases ran : b.delivery S name app p with ⟨e | plain, member⟩
      · obtain rfl := decryptGroup_error ran
        exact .refused
      · obtain ⟨m, record, parsed, opened, -, rfl⟩ := decryptGroup_ok ran
        apply Changes.read (List.mem_of_getElem? sent) parsed
        rw [Site.loadSenderKey_keepChains]
        exact opened

/-- The sender has made as many chains as a member keeps, at most, and all with different numbers;
the member has learned of each of them once, at most; and the length of every message can be
written, as it can of all that fits a memory. -/
structure Regular (b : Broadcast) : Prop where
  distinct : b.begun.Nodup
  few : b.begun.length ≤ limits.groupChains
  once : (b.learned.map (·.keyId)).Nodup
  fits : ∀ p ∈ b.sent, p.message.ciphertext.length < UInt64.size

instance (b : Broadcast) : Decidable b.Regular :=
  decidable_of_iff (_ ∧ _ ∧ _ ∧ _) ⟨fun h => ⟨h.1, h.2.1, h.2.2.1, h.2.2.2⟩,
    fun h => ⟨h.distinct, h.few, h.once, h.fits⟩⟩

section
variable {S : Suite} {name : GroupSender} {b b' : Broadcast}

/-- What is regular has been so all the time. -/
theorem Regular.before (change : b.Changes S name b') (h : b'.Regular) : b.Regular := by
  obtain ⟨distinct, few, once, fits⟩ := h
  cases change with
  | same => exact ⟨distinct, few, once, fits⟩
  | silent => exact ⟨distinct, few, once, fits⟩
  | made =>
    refine ⟨(List.nodup_append.mp distinct).1, ?_, once, fits⟩
    rw [List.length_append] at few
    exact Nat.le_of_add_right_le few
  | announced => exact ⟨distinct, few, once, fits⟩
  | sent => exact ⟨distinct, few, once, fun p hp => fits p (List.mem_append_left _ hp)⟩
  | learned => exact ⟨distinct, few, (List.nodup_cons.mp once).2, fits⟩
  | refused => exact ⟨distinct, few, once, fits⟩
  | read => exact ⟨distinct, few, once, fits⟩

theorem Regular.of_after {moves : List Move} (h : (b.after S name moves).Regular) : b.Regular := by
  induction moves generalizing b with
  | nil => exact h
  | cons move moves ih => exact (ih h).before (b.changes S name move)

end

end Broadcast

/-! ### What the sender makes -/

section
variable (S : Suite)

namespace Origin

/-- A chain of the sender's own, which it can sign for. -/
structure Speaks (o : Origin) (c : GroupChain) : Prop extends o.Begins S c where
  own : ∀ secret, c.signingSecret = some secret → c.signingKey = (S.keyPair secret).publicKey

/-- A message with a key of the chain, which is not its last one. -/
structure Sends (o : Origin) (p : Spoken) : Prop where
  keyId : p.message.keyId = o.keyId
  signed : p.message.checkSignature S o.signingKey = .ok ()
  parsed : p.message.ciphertext.length < UInt64.size →
    GroupMessage.parse p.message.bytes = .ok p.message
  made : ∃ c c', Window.Leads (GroupChainKey.rule S) o.first c ∧
    p.message.iteration = c.iteration ∧ c.next S = .ok c' ∧
    p.message.ciphertext = S.encrypt (c.messageKey S).cipherKey (c.messageKey S).iv p.plain

end Origin

/-- The chains that a sender has begun, and what it has made with them. -/
structure Broadcast.Speaking (name : GroupSender) (b : Broadcast) (origins : List Origin) :
    Prop where
  begun : b.begun = origins.map (·.keyId)
  /-- The newest chain is ahead of all that has been sent with it. -/
  newest : ∀ c ∈ (b.sender.store.loadSenderKey name).chains.head?, ∃ o ∈ origins, o.Speaks S c ∧
    ∀ p ∈ b.sent, p.message.keyId = o.keyId → p.message.iteration < c.window.chain.iteration
  told : ∀ m ∈ b.told, ∃ o ∈ origins, o.Announces S m
  sent : ∀ p ∈ b.sent, ∃ o ∈ origins, o.Sends S p
  /-- No number is used twice with one chain. -/
  apart : b.sent.Pairwise fun p q => p.message.keyId = q.message.keyId →
    p.message.iteration < q.message.iteration

end

section
variable {S : Suite} {name : GroupSender} {o : Origin} {c : GroupChain} {p : Spoken}

namespace Origin

/-- The first chain that is made of random bytes is one of the sender's own. -/
theorem speaks_own (keyId : UInt32) (key : Block 32) (secret : PrivateKey) :
    let signingKey := (S.keyPair secret).publicKey
    (⟨keyId, ⟨0, key⟩, signingKey⟩ : Origin).Speaks S
      ⟨keyId, ⟨⟨0, key⟩, []⟩, signingKey, some secret⟩ := by
  intro signingKey
  refine ⟨⟨rfl, rfl, Window.from_new⟩, ?_⟩
  rintro _ ⟨⟩
  rfl

theorem Speaks.next (h : o.Speaks S c) {next : GroupChainKey}
    (moved : c.window.chain.next S = .ok next) :
    o.Speaks S { c with window := { c.window with chain := next } } :=
  ⟨⟨h.keyId, h.signingKey, h.window.next moved⟩, h.own⟩

/-- A message that is made with the next key of the chain. -/
theorem Speaks.sends (h : o.Speaks S c) (hS : S.Reliable) {secret : PrivateKey}
    (own : c.signingSecret = some secret) {next : GroupChainKey}
    (moved : c.window.chain.next S = .ok next) (random : Block 64) (plain : Bytes) :
    let key := c.window.chain.messageKey S
    o.Sends S ⟨plain, .signed S c.keyId key.iteration (S.encrypt key.cipherKey key.iv plain) secret
      random⟩ where
  keyId := h.keyId
  signed := by
    rw [← h.signingKey, h.own secret own]
    exact GroupMessage.checkSignature_signed (hS.verify_sign secret)
  parsed := GroupMessage.parse_signed
  made := ⟨c.window.chain, next, h.window.chain, rfl, moved, rfl⟩

/-- Whoever has the chain takes the message for genuine. -/
theorem Sends.checked (h : o.Sends S p) (begins : o.Begins S c) :
    p.message.checkSignature S c.signingKey = .ok () := by
  rw [begins.signingKey]
  exact h.signed

/-- Every window of the chain gives the key that the message was made with. -/
theorem Sends.decrypt (h : o.Sends S p) (hS : S.Reliable) (begins : o.Begins S c) {r : GroupRecord}
    (named : r.chain p.message.keyId = .ok c) {key : GroupMessageKey}
    {window : Window GroupChainKey GroupMessageKey}
    (taken : c.window.take (GroupChainKey.rule S) p.message.iteration = .ok (key, window)) :
    r.decrypt S p.message = .ok (p.plain, r.setChain p.message.keyId { c with window }) := by
  obtain ⟨-, place, -, leads, number, -, rfl⟩ := begins.window.take (GroupChainKey.counts S) taken
  obtain ⟨d, -, leads', number', -, sealed⟩ := h.made
  -- the place of a number on the chain is one and the same
  obtain rfl : place = d :=
    leads.eq_of_index (GroupChainKey.counts S) leads' (number.trans number')
  apply GroupRecord.decrypt_of_take named (h.checked begins) taken
  rw [sealed]
  exact hS.decrypt_encrypt ..

end Origin

/-! ### The sender keeps to its chains -/

namespace Broadcast

variable {b b' : Broadcast} {origins : List Origin}

/-- At first nothing has been said. -/
theorem speaking_start {sender member : Site}
    (silent : sender.store.loadSenderKey name = .empty) :
    ({ sender, member } : Broadcast).Speaking S name [] where
  begun := rfl
  newest := by
    intro c hc
    rw [silent] at hc
    cases hc
  told := nofun
  sent := nofun
  apart := .nil

namespace Speaking

/-- Chains with the same number are one chain, if no number has been given twice. -/
theorem origin_eq (h : b.Speaking S name origins) (distinct : b.begun.Nodup) {o o' : Origin}
    (ho : o ∈ origins) (ho' : o' ∈ origins) (same : o.keyId = o'.keyId) : o = o' := by
  rw [h.begun] at distinct
  exact List.inj_on_of_nodup_map distinct ho ho' same

/-- Messages with the same two numbers are one message. -/
theorem spoken_eq (h : b.Speaking S name origins) {p q : Spoken} (hp : p ∈ b.sent)
    (hq : q ∈ b.sent) (keyId : p.message.keyId = q.message.keyId)
    (iteration : p.message.iteration = q.message.iteration) : p = q := by
  obtain ⟨i, hi, rfl⟩ := List.getElem_of_mem hp
  obtain ⟨j, hj, rfl⟩ := List.getElem_of_mem hq
  -- of two messages of a chain the later one has the greater number
  have apart := List.pairwise_iff_getElem.mp h.apart
  rcases Nat.lt_trichotomy i j with before | rfl | after
  · exact absurd iteration (UInt32.ne_of_lt (apart i j hi hj before keyId))
  · rfl
  · exact absurd iteration.symm (UInt32.ne_of_lt (apart j i hj hi after keyId.symm))

/-- A chain is made with a new number, and nothing has been sent with it. -/
theorem made (h : b.Speaking S name origins) {sender : Site} {keyId : UInt32} {key : Block 32}
    {secret : PrivateKey}
    (record : sender.store.loadSenderKey name = .own keyId 0 key (S.keyPair secret))
    (distinct : (b.begun ++ [keyId]).Nodup) :
    Speaking S name
      { b with
        sender
        begun := b.begun ++ [keyId]
        told := b.told ++ [.make keyId 0 key (S.keyPair secret).publicKey] }
      (origins ++ [⟨keyId, ⟨0, key⟩, (S.keyPair secret).publicKey⟩]) := by
  have speaks := Origin.speaks_own (S := S) keyId key secret
  have new : ∀ o ∈ origins, o.keyId ≠ keyId := by
    intro o ho same
    rw [h.begun] at distinct
    refine (List.nodup_append.mp distinct).2.2 _ (List.mem_map_of_mem ho) _ ?_ same
    exact List.mem_singleton_self _
  refine ⟨?begun, ?newest, ?told, ?sent, h.apart⟩
  case begun =>
    rw [List.map_append, h.begun]
    rfl
  case newest =>
    rw [record]
    rintro _ ⟨⟩
    refine ⟨_, List.mem_append_right _ (List.mem_singleton_self _), speaks, ?_⟩
    -- what has been sent names a chain that was there before
    intro p hp named
    obtain ⟨o, ho, sends⟩ := h.sent p hp
    exact absurd (sends.keyId.symm.trans named) (new o ho)
  case told =>
    intro m hm
    rcases List.mem_append.mp hm with old | now
    · obtain ⟨o, ho, announces⟩ := h.told m old
      exact ⟨o, List.mem_append_left _ ho, announces⟩
    · obtain rfl := List.mem_singleton.mp now
      exact ⟨_, List.mem_append_right _ (List.mem_singleton_self _), speaks.toBegins.announces⟩
  case sent =>
    intro p hp
    obtain ⟨o, ho, sends⟩ := h.sent p hp
    exact ⟨o, List.mem_append_left _ ho, sends⟩

/-- A message is made with the next key of the newest chain. -/
theorem send (h : b.Speaking S name origins) (hS : S.Reliable) {sender : Site} {plain : Bytes}
    {message : GroupMessage} {source source' : Entropy}
    (sent : ((b.sender.store.loadSenderKey name).encrypt S name plain).run source
      = (.ok (message, sender.store.loadSenderKey name), source')) :
    Speaking S name { b with sender, sent := b.sent ++ [⟨plain, message⟩] } origins := by
  obtain ⟨c, older, secret, next, chains, own, moved, record, rfl⟩ := GroupRecord.encrypt_made sent
  obtain ⟨o, ho, speaks, below⟩ := h.newest c (by rw [chains]; rfl)
  have index : next.iteration.toNat = c.window.chain.iteration.toNat + 1 :=
    (GroupChainKey.counts S).index_next moved
  refine ⟨h.begun, ?newest, h.told, ?sent, ?apart⟩
  case newest =>
    dsimp only
    rw [record]
    rintro _ ⟨⟩
    refine ⟨o, ho, speaks.next moved, ?_⟩
    intro p hp named
    rw [UInt32.lt_iff_toNat_lt]
    dsimp only
    rw [index]
    rcases List.mem_append.mp hp with old | now
    · exact Nat.lt_succ_of_lt (UInt32.lt_iff_toNat_lt.mp (below p old named))
    · -- the chain has just moved past the number of this one
      obtain rfl := List.mem_singleton.mp now
      exact Nat.lt_succ_self _
  case sent =>
    intro p hp
    rcases List.mem_append.mp hp with old | now
    · exact h.sent p old
    · obtain rfl := List.mem_singleton.mp now
      exact ⟨o, ho, speaks.sends hS own moved _ plain⟩
  case apart =>
    rw [List.pairwise_append]
    refine ⟨h.apart, List.pairwise_singleton _ _, ?_⟩
    intro p hp q hq named
    obtain rfl := List.mem_singleton.mp hq
    exact below p hp (named.trans speaks.keyId)

/-- The sender keeps to its chains, and begins new ones now and then. -/
theorem change (h : b.Speaking S name origins) (hS : S.Reliable) (change : b.Changes S name b')
    (distinct : b'.begun.Nodup) :
    ∃ origins', b'.Speaking S name origins' ∧ ∀ o ∈ origins, o ∈ origins' := by
  cases change with
  | same => exact ⟨origins, h, fun o ho => ho⟩
  | silent record =>
    refine ⟨origins, ⟨h.begun, ?_, h.told, h.sent, h.apart⟩, fun o ho => ho⟩
    intro c hc
    rcases record with same | empty
    · rw [same] at hc
      exact h.newest c hc
    · rw [empty] at hc
      cases hc
  | made record => exact ⟨_, h.made record distinct, fun o ho => List.mem_append_left _ ho⟩
  | announced newest =>
    refine ⟨origins, ⟨h.begun, h.newest, ?_, h.sent, h.apart⟩, fun o ho => ho⟩
    intro m hm
    rcases List.mem_append.mp hm with old | now
    · exact h.told m old
    · obtain rfl := List.mem_singleton.mp now
      obtain ⟨o, ho, speaks, -⟩ := h.newest _ newest
      exact ⟨o, ho, speaks.toBegins.announces⟩
  | sent made => exact ⟨origins, h.send hS made, fun o ho => ho⟩
  | learned => exact ⟨origins, ⟨h.begun, h.newest, h.told, h.sent, h.apart⟩, fun o ho => ho⟩
  | refused => exact ⟨origins, ⟨h.begun, h.newest, h.told, h.sent, h.apart⟩, fun o ho => ho⟩
  | read => exact ⟨origins, ⟨h.begun, h.newest, h.told, h.sent, h.apart⟩, fun o ho => ho⟩

end Speaking

end Broadcast

end

end DoubleRatchet
