/-
DoubleRatchet/Proofs/Talks.lean

Two sessions that talk to each other.

A `Talk` is the two sessions of a handshake and all that has been sent on them, whatever
else there may be in the records that they are in, and whatever random bytes are drawn
in between.  In every act a side sends a message or hears one that has been sent, late,
early or never.  The sessions of the past are kept, for it takes them to tell which
receiver chains and which skipped keys have given way.

A talk is established when it has begun with a handshake and gone on fairly since: no
key has been made twice, and no message has been heard on a chain that is not its own.
Then the two sessions correspond (`Established.known`), and what is in time is heard as
it was said (`Known.hears`).
-/
import DoubleRatchet.Proofs.Beginnings

namespace DoubleRatchet

open HandshakeRole

/-- Two sessions with each other, and what has been sent on them. -/
structure Talk where
  session : HandshakeRole → SessionState
  /-- All messages, in the order in which they were made. -/
  posted : List Posted := []
  /-- The numbers of the messages that have been heard. -/
  read : List Nat := []
  /-- The sessions before, newest first. -/
  past : List (HandshakeRole → SessionState) := []

/-- What may happen next. -/
inductive Act where
  /-- A side sends a message. -/
  | say (role : HandshakeRole) (plain : Bytes)
  /-- The message with a number is heard, with these random bytes at hand. -/
  | hear (number : Nat) (entropy : Entropy)

/-- The ratchet key that a session sends with. -/
def SessionState.ratchetKey? (st : SessionState) : Option PublicKey :=
  st.senderChain.map (·.ratchetKey.publicKey)

/-- The ratchet key stays as it is, or is one that has just been made. -/
theorem SessionState.ratchetKey?_decrypt {S : Suite} {st st' : SessionState} {m : RatchetMessage}
    {e e' : Entropy} {plain : Bytes} (h : (st.decrypt S m).run e = (.ok (plain, st'), e')) :
    st'.ratchetKey? = st.ratchetKey? ∨
      (e' = e.advance 32 ∧ st'.ratchetKey? = some (S.nextKeyPair e).publicKey) := by
  unfold ratchetKey?
  rcases senderChain_decrypt h with same | ⟨drawn, chain, new, -⟩
  · rw [same]
    exact .inl rfl
  · rw [new]
    exact .inr ⟨drawn, rfl⟩

variable (S : Suite) in
/-- In one of its states a session kept as many keys for greater numbers of the chain as it keeps at
all. -/
def Outgrown (states : List SessionState) (m : RatchetMessage) : Prop :=
  ∃ st ∈ states, ∃ window ∈ st.window? m.ratchetKey, window.Crowded (ChainKey.rule S) m.counter

instance (S : Suite) (states : List SessionState) (m : RatchetMessage) :
    Decidable (Outgrown S states m) :=
  inferInstanceAs (Decidable (∃ st ∈ _, ∃ window ∈ _, Window.Crowded ..))

namespace Talk

section
variable (t : Talk)

/-- The states of one side, newest first. -/
def history (role : HandshakeRole) : List SessionState := (t.session :: t.past).map (· role)

/-- A side has sent with the ratchet key, or could have. -/
def Used (key : PublicKey) : Prop :=
  ∃ sessions ∈ t.session :: t.past, ∃ role, (sessions role).ratchetKey? = some key

instance (key : PublicKey) : Decidable (t.Used key) :=
  decidable_of_iff (∃ sessions ∈ t.session :: t.past,
    (sessions .initiator).ratchetKey? = some key ∨ (sessions .responder).ratchetKey? = some key)
    (exists_congr fun sessions => and_congr_right fun _ =>
      (exists_role (P := fun role => (sessions role).ratchetKey? = some key)).symm)

/-- Since the receiver chain for the ratchet key as many others have been started as are kept. -/
def Evicted (role : HandshakeRole) (theirs : PublicKey) : Prop :=
  theirs ∈ (keysHeard (t.history role)).drop limits.receiverChains

instance (role : HandshakeRole) (theirs : PublicKey) : Decidable (t.Evicted role theirs) :=
  inferInstanceAs (Decidable (_ ∈ _))

variable (S : Suite) in
/-- A message is in time: it is not too far ahead, and neither its receiver chain nor, if it has been
skipped, its key has given way to newer ones. -/
structure InTime (role : HandshakeRole) (m : RatchetMessage) : Prop where
  near : m.counter.toNat ≤ ((t.session role).window? m.ratchetKey).elim 0
    (·.chain.index.toNat) + limits.forwardJump
  chain : ¬t.Evicted role m.ratchetKey
  key : ¬Outgrown S (t.history role) m

instance (S : Suite) (role : HandshakeRole) (m : RatchetMessage) : Decidable (t.InTime S role m) :=
  decidable_of_iff (_ ∧ _ ∧ _) ⟨fun h => ⟨h.1, h.2.1, h.2.2⟩, fun h => ⟨h.near, h.chain, h.key⟩⟩

/-! ### Acts -/

/-- The talk once a side has sent a message. -/
def said (role : HandshakeRole) (plain : Bytes) (message : Message) (st : SessionState) : Talk where
  session := put t.session role st
  posted := t.posted ++ [⟨role, plain, message⟩]
  read := t.read
  past := t.session :: t.past

/-- The talk once a side has heard a message. -/
def heard (role : HandshakeRole) (number : Nat) (st : SessionState) : Talk where
  session := put t.session role st
  posted := t.posted
  read := number :: t.read
  past := t.session :: t.past

/-- The message with a number, and who is to hear it. -/
def due? (number : Nat) : Option (HandshakeRole × RatchetMessage) := do
  let p ← t.posted[number]?
  return (p.sender.other, ← p.message.inner?)

end

section
variable (S : Suite) (t : Talk)

/-- The talk after an act; where nothing comes of it, it stays as it is. -/
def step : Act → Talk
  | .say role plain =>
    match (t.session role).encrypt S plain with
    | .ok (message, st) => t.said role plain message st
    | .error _ => t
  | .hear number entropy =>
    match t.due? number with
    | none => t
    | some (role, m) =>
      match (((t.session role).decrypt S m).run entropy).1 with
      | .ok (_, st) => t.heard role number st
      | .error _ => t

/-- The talk after some acts. -/
def after (acts : List Act) : Talk := acts.foldl (step S) t

/-- There are random bytes at hand, a key that is made of them is a new one, and a message whose
receiver chain has given way is not heard on the chain that would be started in its place. -/
def FairAct : Act → Prop
  | .say .. => True
  | .hear number entropy => ∀ due ∈ t.due? number, entropy.dead = false ∧
    ¬t.Used (S.nextKeyPair entropy).publicKey ∧
    (t.Evicted due.1 due.2.ratchetKey → ¬(t.session due.1).Verifies S due.2)

instance : (act : Act) → Decidable (t.FairAct S act)
  | .say .. => isTrue trivial
  | .hear .. => inferInstanceAs (Decidable (∀ due ∈ _, _ ∧ _ ∧ _))

/-- All acts are fair. -/
def Fair (t : Talk) : List Act → Prop
  | [] => True
  | act :: acts => t.FairAct S act ∧ Fair (t.step S act) acts

instance decidableFair : (t : Talk) → (acts : List Act) → Decidable (t.Fair S acts)
  | _, [] => isTrue trivial
  | t, act :: acts =>
    have := decidableFair (t.step S act) acts
    inferInstanceAs (Decidable (_ ∧ _))

/-- The talk has begun with a handshake and gone on fairly since. -/
def Established : Prop :=
  ∃ b : Beginning, b.Fits S ∧ ∃ acts, Fair S { session := b.session S } acts ∧
    after S { session := b.session S } acts = t

end

/-! ### What is known of a talk -/

section
variable {S : Suite} {identity : HandshakeRole → PublicKey} {ladder : HandshakeRole → Ladder}
  {t : Talk} {role : HandshakeRole} {n : Nat} {p : Posted} {m : RatchetMessage} {plain : Bytes}
  {e e' : Entropy} {st : SessionState}

variable (S identity) in
/-- The two sessions correspond, their ratchet keys are those that have been used, and either side
knows the session by the name that the other one tells of. -/
structure Known (t : Talk) (ladder : HandshakeRole → Ladder) : Prop where
  known : Correspondence S identity ladder t.session t.posted t.read
    fun role => Outgrown S (t.past.map (· role))
  used : ∀ role, ∀ r ∈ (ladder role).rungs, t.Used r.key.publicKey
  chains : ∀ role, keysHeard (t.history role) = (ladder role).heard.map (·.key.publicKey)
  told : ∀ role, ∀ pending ∈ (t.session role).pending,
    (t.session role.other).isFor currentVersion pending.baseKey.transmitted
  addressed : ∀ p ∈ t.posted, ∀ m, p.message = .preKey m → m.version = currentVersion ∧
    m.identity = identity p.sender ∧
    (t.session p.sender.other).isFor currentVersion m.baseKey.transmitted

namespace Known

/-- At the beginning. -/
theorem begin {b : Beginning} (h : b.Fits S) (hS : S.Lawful) :
    Known S b.identity { session := b.session S } (b.ladder S) := by
  have known := h.correspondence hS
    fun role => Outgrown S (([] : List (HandshakeRole → SessionState)).map (· role))
  refine { known, used := ?used, chains := ?chains, told := ?told, addressed := nofun }
  case used =>
    have own : ∀ side, ∃ c, (b.session S side).senderChain = some ⟨(b.ladder S side).top.key, c⟩ :=
      fun side => by
        obtain ⟨n, c, hc, -⟩ := (known.lockstep.stands side).sender
        exact ⟨c, hc⟩
    have top : ∀ side, Used { session := b.session S } (b.ladder S side).top.key.publicKey := by
      intro side
      obtain ⟨c, hc⟩ := own side
      refine ⟨_, List.mem_cons_self, ?_⟩
      exact ⟨side, by rw [SessionState.ratchetKey?, hc]; rfl⟩
    intro role r hr
    cases role with
    | initiator =>
      rcases List.mem_cons.mp hr with rfl | hr
      · exact top .initiator
      · obtain rfl := List.mem_singleton.mp hr
        exact top .responder
    | responder =>
      obtain rfl := List.mem_singleton.mp hr
      exact top .responder
  case chains =>
    intro role
    have now := (known.lockstep.stands role).chains
    have distinct := known.lockstep.nodup_heard role
    show keysHeard [b.session S role] = _
    generalize heard : List.map _ (Ladder.heard _) = keys at now distinct ⊢
    have few : keys.length ≤ limits.receiverChains := by
      rw [← heard, List.length_map]
      cases role <;> exact Nat.le_of_ble_eq_true rfl
    rw [← List.append_nil keys] at now distinct ⊢
    exact keysHeard_cons keys rfl now few distinct
  case told =>
    intro role pending hp
    cases role with
    | initiator =>
      cases hp
      exact h.session_isFor _
    | responder => cases hp

theorem sender_used (t' : Talk) (h : t'.session role = st) {c : SenderChain}
    (hc : st.senderChain = some c) : t'.Used c.ratchetKey.publicKey := by
  refine ⟨_, List.mem_cons_self, role, ?_⟩
  rw [h, SessionState.ratchetKey?, hc]
  rfl

/-- A key has been used before, or has been made when the message was heard. -/
theorem used_heard {key : PublicKey}
    (ran : ((t.session role).decrypt S m).run e = (.ok (plain, st), e'))
    (h : (t.heard role n st).Used key) :
    t.Used key ∨ (e' = e.advance 32 ∧ key = (S.nextKeyPair e).publicKey) := by
  obtain ⟨sessions, there, side, was⟩ := h
  rcases List.mem_cons.mp there with rfl | past
  · rcases eq_or_eq_other role side with rfl | rfl
    · replace was : (put t.session side st side).ratchetKey? = some key := was
      rw [put_self] at was
      rcases SessionState.ratchetKey?_decrypt ran with same | ⟨drawn, new⟩
      · exact .inl ⟨_, List.mem_cons_self, side, same ▸ was⟩
      · rw [new] at was
        exact .inr ⟨drawn, (Option.some.inj was).symm⟩
    · replace was : (put t.session role st role.other).ratchetKey? = some key := was
      rw [put_other] at was
      exact .inl ⟨_, List.mem_cons_self, _, was⟩
  · exact .inl ⟨sessions, past, side, was⟩

/-- What has given way in the past has given way. -/
theorem later (h : Known S identity t ladder) :
    Correspondence S identity ladder t.session t.posted t.read
      fun role => Outgrown S ((t.session :: t.past).map (· role)) := by
  refine h.known.mono fun role m => ?_
  rintro ⟨st, there, was⟩
  exact ⟨st, List.mem_cons_of_mem _ there, was⟩

/-- One of the sessions has evolved, and still all is known. -/
theorem evolves (h : Known S identity t ladder) (role : HandshakeRole) {t' : Talk}
    {ladder' : HandshakeRole → Ladder} (session : t'.session = put t.session role st)
    (past : t'.past = t.session :: t.past)
    (evolves : Evolves S (t.session role) st)
    (known : Correspondence S identity ladder' t'.session t'.posted t'.read
      fun role => Outgrown S (t'.past.map (· role)))
    (rest : ladder' role.other = ladder role.other)
    (newer : ∃ rs, rs.length ≤ limits.receiverChains ∧
      (ladder' role).heard = rs ++ (ladder role).heard)
    (used : ∀ r ∈ (ladder' role).rungs, t'.Used r.key.publicKey)
    (addressed : ∀ p ∈ t'.posted, p ∈ t.posted ∨ ∀ m, p.message = .preKey m →
      m.version = currentVersion ∧ m.identity = identity p.sender ∧
      (t.session p.sender.other).isFor currentVersion m.baseKey.transmitted) :
    Known S identity t' ladder' := by
  have before : ∀ key, t.Used key → t'.Used key := by
    rintro key ⟨sessions, there, was⟩
    refine ⟨sessions, List.mem_cons_of_mem _ ?_, was⟩
    rw [past]
    exact there
  have named : ∀ side version name, (t'.session side).isFor version name
      = (t.session side).isFor version name := by
    intro side version name
    rw [session]
    exact forall_put (P := fun side (st : SessionState) =>
      st.isFor version name = (t.session side).isFor version name) _ _ _
      (evolves.isFor_eq version name) rfl side
  refine { known, used := ?used, chains := ?chains, told := ?told, addressed := ?addressed }
  case used =>
    intro side r hr
    rcases eq_or_eq_other role side with rfl | rfl
    · exact used r hr
    · rw [rest] at hr
      exact before _ (h.used _ r hr)
  case chains =>
    -- only the side that has evolved can have started chains
    intro side
    have more : ∃ rs, rs.length ≤ limits.receiverChains ∧
        (ladder' side).heard = rs ++ (ladder side).heard := by
      rcases eq_or_eq_other role side with rfl | rfl
      · exact newer
      · exact ⟨[], Nat.zero_le _, congrArg Ladder.heard rest⟩
    obtain ⟨rs, few, heard⟩ := more
    have now := (known.lockstep.stands side).chains
    have distinct := known.lockstep.nodup_heard side
    have old := h.chains side
    rw [heard, List.map_append] at now distinct ⊢
    unfold history at old ⊢
    rw [past]
    refine keysHeard_cons _ old now ?_ distinct
    rw [List.length_map]
    exact few
  case told =>
    intro side pending hp
    rw [named]
    refine h.told side pending ?_
    rw [session] at hp
    rcases eq_or_eq_other role side with rfl | rfl
    · rw [put_self] at hp
      rcases evolves.pending_cases with same | none
      · rw [← same]
        exact hp
      · rw [none] at hp
        cases hp
    · rw [put_other] at hp
      exact hp
  case addressed =>
    intro p hp m hm
    rw [named]
    rcases addressed p hp with old | new
    · exact h.addressed p old m hm
    · exact new m hm

/-- A side has sent a message. -/
theorem said (h : Known S identity t ladder) {message : Message}
    (made : (t.session role).encrypt S plain = .ok (message, st)) :
    Known S identity (t.said role plain message st) ladder := by
  refine h.evolves role rfl rfl (.sent made) (h.later.posts made) rfl
    ⟨[], Nat.zero_le _, rfl⟩ ?used ?addressed
  case used =>
    intro r hr
    obtain ⟨sessions, there, was⟩ := h.used role r hr
    exact ⟨sessions, List.mem_cons_of_mem _ there, was⟩
  case addressed =>
    intro p hp
    refine (List.mem_append.mp hp).imp_right fun new m hm => ?_
    obtain rfl := List.mem_singleton.mp new
    obtain ⟨-, m', rfl, -⟩ := h.known.lockstep.encrypt made
    obtain ⟨pending, there, version, own, name⟩ := SessionState.preKey_wrap hm
    rw [version, name]
    exact ⟨(h.known.lockstep.stands role).sound.version, own, h.told role pending there⟩

/-- A receiver chain that is not there has given way to newer ones. -/
theorem evicted (h : Known S identity t ladder) {theirs : PublicKey}
    (heard : theirs ∈ (ladder role).heard.map (·.key.publicKey))
    (none : (t.session role).window? theirs = none) : t.Evicted role theirs := by
  rw [Evicted, h.chains]
  exact h.known.lockstep.given_way heard none

/-- A side has heard a message. -/
theorem heard (h : Known S identity t ladder) (hS : S.Lawful) (alive : e.dead = false)
    (hp : t.posted[n]? = some p) (hm : p.message.inner? = some m)
    (ran : ((t.session p.sender.other).decrypt S m).run e = (.ok (plain, st), e'))
    (fresh : e' = e.advance 32 → ¬t.Used (S.nextKeyPair e).publicKey)
    (separate : t.Evicted p.sender.other m.ratchetKey →
      ¬(t.session p.sender.other).Verifies S m) :
    plain = p.plain ∧ ∃ ladder', Known S identity (t.heard p.sender.other n st) ladder' := by
  have new : e' = e.advance 32 →
      (S.nextKeyPair e).publicKey ∉ (ladder p.sender).rungs.map (·.key.publicKey) := by
    intro drawn old
    obtain ⟨r, hr, same⟩ := List.mem_map.mp old
    exact fresh drawn (same ▸ h.used _ r hr)
  obtain ⟨same, ladder', known, climbed⟩ := h.later.reading hS alive hp hm ran new
    (fun heard none => separate (h.evicted heard none) (SessionState.verifies_decrypt ran))
    (fun window hw m' same crowded =>
      ⟨_, List.mem_cons_self, window, by rw [same]; exact hw, crowded⟩)
  have before : ∀ side, ∀ r ∈ (ladder side).rungs,
      (t.heard p.sender.other n st).Used r.key.publicKey := by
    intro side r hr
    obtain ⟨sessions, there, was⟩ := h.used side r hr
    exact ⟨sessions, List.mem_cons_of_mem _ there, was⟩
  refine ⟨same, ladder', ?_⟩
  rcases climbed with rfl | ⟨-, rfl⟩
  · exact h.evolves p.sender.other rfl rfl (.opened ran) known rfl
      ⟨[], Nat.zero_le _, rfl⟩ (before _) fun _ => .inl
  · refine h.evolves p.sender.other rfl rfl (.opened ran) known ?_
      ⟨[(ladder p.sender).top], ?_, ?_⟩ ?_ fun _ => .inl
    · rw [other_other, put_at_other]
    · exact Nat.le_of_ble_eq_true rfl
    · rw [put_self]
      exact Ladder.heard_climb ..
    · -- a rung is the new one, that of the key heard, or an old one
      obtain ⟨_, c, hc, -⟩ := (known.lockstep.stands p.sender.other).sender
      have own := sender_used (t.heard p.sender.other n st) rfl hc
      rw [put_self] at own ⊢
      intro r hr
      rcases List.mem_cons.mp hr with rfl | hr
      · exact own
      · rcases List.mem_cons.mp hr with rfl | hr
        · exact before p.sender _ List.mem_cons_self
        · exact before _ r hr

/-- A message that is in time is heard as it was said. -/
theorem hears (h : Known S identity t ladder) (hS : S.Lawful) (alive : e.dead = false)
    (hp : t.posted[n]? = some p) (unread : n ∉ t.read) (hm : p.message.inner? = some m)
    (inTime : t.InTime S p.sender.other m) :
    ∃ st e', ((t.session p.sender.other).decrypt S m).run e = (.ok (p.plain, st), e') :=
  h.later.reads hS alive hp unread hm inTime.near
    (fun heard none => inTime.chain (h.evicted heard none))
    (fun window hw crowded => inTime.key ⟨_, List.mem_cons_self, window, hw, crowded⟩) inTime.key

theorem step (h : Known S identity t ladder) (hS : S.Lawful) {act : Act} (fair : t.FairAct S act) :
    ∃ ladder', Known S identity (t.step S act) ladder' := by
  cases act with
  | say role plain =>
    unfold Talk.step
    dsimp only
    rcases made : (t.session role).encrypt S plain with err | ⟨message, st⟩
    · exact ⟨ladder, h⟩
    · exact ⟨ladder, h.said made⟩
  | hear number entropy =>
    unfold Talk.step
    dsimp only
    rcases due : t.due? number with - | ⟨role, m⟩
    · exact ⟨ladder, h⟩
    obtain ⟨alive, fresh, separate⟩ := fair (role, m) due
    obtain ⟨p, hp, due⟩ := Option.bind_eq_some_iff.mp due
    obtain ⟨m', hm, due⟩ := Option.bind_eq_some_iff.mp due
    cases due
    dsimp only
    rcases ran : ((t.session p.sender.other).decrypt S m).run entropy
      with ⟨err | ⟨plain, st⟩, e'⟩
    · exact ⟨ladder, h⟩
    · exact (h.heard hS alive hp hm ran (fun _ => fresh) separate).2

theorem after (h : Known S identity t ladder) (hS : S.Lawful) {acts : List Act}
    (fair : t.Fair S acts) : ∃ ladder', Known S identity (t.after S acts) ladder' := by
  induction acts generalizing t ladder with
  | nil => exact ⟨ladder, h⟩
  | cons act acts ih =>
    obtain ⟨ladder', known⟩ := h.step hS fair.1
    exact ih known fair.2

end Known

/-- All this is known of an established talk. -/
theorem Established.known (h : t.Established S) (hS : S.Lawful) :
    ∃ identity ladder, Known S identity t ladder := by
  obtain ⟨b, fits, acts, fair, rfl⟩ := h
  exact ⟨_, (Known.begin fits hS).after hS fair⟩

end

end Talk

end DoubleRatchet
