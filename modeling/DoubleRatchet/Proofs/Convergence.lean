/-
DoubleRatchet/Proofs/Convergence.lean

Two members who have started sessions with each other agree on one of them.

Whatever has been read of what they posted at first, each member has one of the two
strands in front, and the two need not have the same one.  From then on messages are
exchanged one at a time (`Exchange.rounds`).  The first of them settles it: the reader
moves the session that it is for to the front (`Crossed.first_round`), and from there both
go on in that session (`Together.rounds`), where there is never more than one message on
the way.
-/
import DoubleRatchet.Proofs.Crossing
import DoubleRatchet.Proofs.Once

namespace DoubleRatchet

open HandshakeRole

section
variable (S : Suite) (pair : Pair)

namespace Exchange

/-- A member posts a message, and it is delivered at once. -/
def round (x : Exchange) (letter : HandshakeRole × Bytes) : List Move :=
  [.post letter.1 letter.2, .deliver x.posted.length]

/-- Messages are exchanged one at a time. -/
def rounds (x : Exchange) : List (HandshakeRole × Bytes) → List Move
  | [] => []
  | letter :: letters => x.round letter ++ rounds (x.after S pair (x.round letter)) letters

/-- In no move is a message taken for genuine that was made in another session: if the member to whom
it is delivered has another one in front than its sender has, its tag does not hold there. -/
def Discerning (x : Exchange) : List Move → Prop
  | [] => True
  | move :: moves =>
    (∀ p ∈ x.due? move, ∀ m ∈ p.message.inner?,
      (x.world.session pair p.sender.other).baseKey ≠ (x.world.session pair p.sender).baseKey →
        ¬(x.world.session pair p.sender.other).Verifies S m) ∧
    Discerning (x.step S pair move) moves

instance decidableDiscerning : (x : Exchange) → (moves : List Move) →
    Decidable (x.Discerning S pair moves)
  | _, [] => isTrue trivial
  | x, move :: moves =>
    have := decidableDiscerning (x.step S pair move) moves
    inferInstanceAs (Decidable (_ ∧ _))

theorem hears_append (x : Exchange) (moves more : List Move) :
    x.Hears S pair (moves ++ more)
      ↔ x.Hears S pair moves ∧ (x.after S pair moves).Hears S pair more := by
  induction moves generalizing x with
  | nil => exact (iff_of_eq (true_and _)).symm
  | cons move moves ih =>
    show _ ∧ (x.step S pair move).Hears S pair (moves ++ more) ↔ _
    rw [ih, ← and_assoc]
    rfl

theorem rounds_append (x : Exchange) (letters more : List (HandshakeRole × Bytes)) :
    x.rounds S pair (letters ++ more) = x.rounds S pair letters
      ++ (x.after S pair (x.rounds S pair letters)).rounds S pair more := by
  induction letters generalizing x with
  | nil => rfl
  | cons letter letters ih =>
    show x.round letter ++ (x.after S pair (x.round letter)).rounds S pair (letters ++ more) = _
    rw [ih, ← List.append_assoc, ← after_append]
    rfl

theorem after_rounds (x : Exchange) (letter : HandshakeRole × Bytes)
    (letters : List (HandshakeRole × Bytes)) :
    x.after S pair (x.rounds S pair (letter :: letters))
      = (x.after S pair (x.round letter)).after S pair
        ((x.after S pair (x.round letter)).rounds S pair letters) :=
  after_append ..

end Exchange

end

/-! ### One session -/

variable (S : Suite) (c : Crossing) (starter : HandshakeRole) (start : Entropy) in
/-- The two sides of one strand, once what was on the way is lost.  No chain of theirs has gone
further than a number. -/
structure Agreed (e : Entropy) (key : PublicKey) (n : Nat) (ladder : HandshakeRole → Ladder)
    (session : HandshakeRole → SessionState) : Prop where
  abreast : Abreast S c.identity ladder session
  few : ∀ role d, (session role).senderChain = some d → d.chainKey.index.toNat ≤ n
  named : ∀ role, (session role).isFor currentVersion key.transmitted
  told : ∀ role, ∀ pending ∈ (session role).pending, pending.baseKey = key
  keys : ∀ role, ∀ r ∈ (ladder role).rungs,
    r.key.publicKey ∈ c.signedKey starter :: S.publicKeys start e

variable (S : Suite) (pair : Pair) (c : Crossing) (starter : HandshakeRole) (start : Entropy) in
/-- Both members have the same strand in front. -/
structure Exchange.Together (x : Exchange) (store : HandshakeRole → Store) (e : Entropy)
    (key : PublicKey) (n : Nat) (ladder : HandshakeRole → Ladder)
    (session : HandshakeRole → SessionState) : Prop where
  shows : x.world.Shows pair store e
  alive : e.dead = false
  drawn : start.Before e
  agreed : Agreed S c starter start e key n ladder session
  front : ∀ role, ∃ older,
    (store role).Has (pair.peer role) (c.identity role.other) (session role :: older)

section
variable {S : Suite} {pair : Pair} {c : Crossing} {starter role : HandshakeRole}
  {start e e₁ : Entropy} {key : PublicKey} {n : Nat} {ladder : HandshakeRole → Ladder}
  {session : HandshakeRole → SessionState} {plain : Bytes} {message : Message} {st : SessionState}

namespace Agreed

variable (pair) in
/-- What a side sends the other one reads, and both still agree. -/
theorem told_round (h : Agreed S c starter start e key n ladder session) (hS : S.Lawful)
    (drawn : start.Before e) (before : e.Before e₁) (alive : e₁.dead = false)
    (sent : (session role).encrypt S plain = .ok (message, st)) :
    ∃ m st' e', message.inner? = some m ∧
      ((session role.other).decrypt S m).run e₁ = (.ok (plain, st'), e') ∧
      (c.Fresh S pair start e' → ∃ ladder', Agreed S c starter start e' key (n + 1) ladder'
        (put (put session role st) role.other st')) := by
  obtain ⟨m, st', e', inner, ran, next⟩ := h.abreast.told hS alive sent
  refine ⟨m, st', e', inner, ran, fun fresh => ?_⟩
  have made : ∀ key, key ∈ c.signedKey starter :: S.publicKeys start e →
      key ∈ c.signedKey starter :: S.publicKeys start e₁ :=
    fun key => Suite.mem_publicKeys drawn before
  have drawn₁ := drawn.trans before
  obtain ⟨ladder', abreast, climbs⟩ := next (by
    rintro rfl old
    obtain ⟨r, hr, same⟩ := List.mem_map.mp old
    exact fresh.not_mem drawn₁ starter (same ▸ made _ (h.keys _ r hr)))
  -- what holds of the session that has sent and of the one that has read holds of both
  have both : ∀ {P : SessionState → Prop}, P st → P st' →
      ∀ side, P (put (put session role st) role.other st' side) := by
    intro P writer reader
    refine forall_put (P := fun _ => P) _ _ _ reader ?_
    rw [other_other, put_self]
    exact writer
  obtain ⟨-, -, -, -, d, d', hd, -, same, counts⟩ := h.abreast.known.lockstep.encrypt sent
  refine ⟨ladder', { abreast, few := ?few, named := ?named, told := ?told, keys := ?keys }⟩
  case few =>
    refine both (P := fun st => ∀ d, st.senderChain = some d → d.chainKey.index.toNat ≤ n + 1) ?_ ?_
    · rw [same]
      rintro _ ⟨⟩
      have few := h.few role _ hd
      dsimp only at few ⊢
      omega
    · intro d hd
      rcases SessionState.senderChain_decrypt ran with kept | ⟨-, chain, new, zero⟩
      · exact Nat.le_succ_of_le (h.few _ d (kept ▸ hd))
      · rw [new] at hd
        cases hd
        rw [zero]
        exact Nat.zero_le _
  case named =>
    refine both (P := fun st => st.isFor currentVersion key.transmitted) ?_ ?_
    · rw [(Evolves.sent sent).isFor_eq]
      exact h.named _
    · rw [(Evolves.opened ran).isFor_eq]
      exact h.named _
  case told =>
    refine both (P := fun st => ∀ pending ∈ st.pending, pending.baseKey = key) ?_ ?_
    · rw [same]
      exact h.told role
    · rw [SessionState.pending_decrypt ran]
      exact nofun
  case keys =>
    have drawn' := (session role.other).before_decrypt (S := S) m e₁
    rw [ran] at drawn'
    intro side r hr
    rcases climbs.rung hr with ⟨side', old⟩ | ⟨turned, new⟩
    · exact Suite.mem_publicKeys drawn₁ drawn' (made _ (h.keys side' r old))
    · rw [turned, Suite.publicKeys_advance drawn₁, new]
      exact List.mem_cons_of_mem _ (List.mem_append_right _ List.mem_cons_self)

/-- What tells of no other handshake is offered to the session in front first. -/
theorem offers (h : Agreed S c starter start e key n ladder session) {s : Store}
    {behind : List SessionState}
    (front : s.Has (pair.peer role.other) (c.identity role) (session role.other :: behind))
    (sent : (session role).encrypt S plain = .ok (message, st)) {m : RatchetMessage}
    (hm : message.inner? = some m) :
    ∃ record, s.Offers S (pair.peer role.other) (c.identity role) record message m ∧
      record.sessions = session role.other :: behind ∧
      record.archive.length ≤ limits.archivedSessions := by
  obtain ⟨record, stored, sessions, settled⟩ := front.stored
  obtain ⟨-, m', wrapped, -⟩ := h.abreast.known.lockstep.encrypt sent
  refine ⟨record, Store.offers_of_stored stored front.isTrusted hm fun m'' preKey => ?_, sessions,
    settled.bounded⟩
  rw [wrapped] at preKey
  obtain ⟨pending, there, version, identity, baseKey⟩ := SessionState.preKey_wrap preKey
  refine ⟨identity, ?_⟩
  rw [version, (h.abreast.known.lockstep.stands role).sound.version, baseKey, h.told role _ there]
  refine List.any_eq_true.mpr ⟨session role.other, ?_, h.named role.other⟩
  show _ ∈ record.sessions
  rw [sessions]
  exact List.mem_cons_self

/-- A message that a member posts with the session in front is read when it is delivered, if the
reader finds that session first among those that do not refuse it. -/
theorem round (h : Agreed S c starter start e key n ladder session) (hS : S.Lawful)
    (drawn : start.Before e) {x : Exchange} {store : HandshakeRole → Store}
    (shows : x.world.Shows pair store e) {older : List SessionState}
    (front : (store role).Has (pair.peer role) (c.identity role.other) (session role :: older))
    (sent : (session role).encrypt S plain = .ok (message, st))
    (offered : ∀ m, message.inner? = some m → ∃ record before after e₁,
      (store role.other).Offers S (pair.peer role.other) (c.identity role) record message m ∧
      record.sessions = before ++ session role.other :: after ∧
      record.archive.length ≤ limits.archivedSessions ∧
      Refused S m before e e₁ ∧ e₁.dead = false) :
    x.Hears S pair (x.round (role, plain)) ∧
      (x.after S pair (x.round (role, plain))).letters = x.letters ++ [(role, plain)] ∧
      (c.Fresh S pair start (x.after S pair (x.round (role, plain))).world.entropy →
        ∃ store' e' ladder' session', Exchange.Together S pair c starter start
          (x.after S pair (x.round (role, plain))) store' e' key (n + 1) ladder' session') := by
  have lockstep := h.abreast.known.lockstep
  obtain ⟨m, hm⟩ : ∃ m, message.inner? = some m := by
    obtain ⟨-, m, rfl, -⟩ := lockstep.encrypt sent
    exact ⟨m, SessionState.inner?_wrap ..⟩
  obtain ⟨record, before, after, e₁, offers, sessions, bounded, refused, alive⟩ := offered m hm
  obtain ⟨m', st', e', hm', ran, agreed⟩ := h.told_round pair hS drawn refused.before alive sent
  rw [hm] at hm'
  cases hm'
  -- the message is posted
  obtain ⟨_, shows, front, posted, -⟩ :=
    Store.Has.step_post shows front (lockstep.remote_eq role) sent
  have hp : (x.step S pair (.post role plain)).posted[x.posted.length]?
      = some ⟨role, plain, message⟩ := by
    rw [posted, List.getElem?_concat_length]
  -- and read
  have remote := (Evolves.opened ran).remoteIdentity_eq.trans (lockstep.remote_eq role.other)
  rw [other_other] at remote
  obtain ⟨store', read, has⟩ :=
    Store.Offers.read_front (s := ⟨_, e⟩) offers sessions bounded refused ran remote
  rw [← put_other store role] at read
  obtain ⟨outcome, world, shows', same⟩ := Exchange.step_deliver_ok shows hp read
  have last : x.after S pair (x.round (role, plain))
      = (x.step S pair (.post role plain)).step S pair (.deliver x.posted.length) := rfl
  rw [last]
  refine ⟨⟨nofun, ?_, trivial⟩, ?_, fun fresh => ?_⟩
  · rw [Exchange.due?, hp]
    rintro _ ⟨⟩
    exact outcome
  · rw [Exchange.letters, Exchange.posted_deliver, posted, List.map_append]
    rfl
  · have drawn' := (session role.other).before_decrypt (S := S) m e₁
    rw [ran] at drawn'
    rw [same] at fresh ⊢
    rw [shows'.entropy_eq] at fresh
    obtain ⟨ladder', agreed⟩ := agreed fresh
    refine ⟨_, e', ladder', _, { shows := shows', alive := drawn'.dead_eq.trans alive
                                 drawn := (drawn.trans refused.before).trans drawn', agreed
                                 front := ?_ }⟩
    intro side
    rcases eq_or_eq_other role side with rfl | rfl
    · rw [put_at_other, put_at_other, put_self, put_self]
      exact ⟨older, front⟩
    · rw [put_self, put_self, other_other]
      exact ⟨_, has⟩

/-- A side whose chain is not at its last number sends. -/
theorem sends (h : Agreed S c starter start e key n ladder session) (more : n < 0xffffffff)
    (role : HandshakeRole) (plain : Bytes) :
    ∃ message st, (session role).encrypt S plain = .ok (message, st) := by
  have lockstep := h.abreast.known.lockstep
  obtain ⟨-, d, hd, -⟩ := (lockstep.stands role).sender
  refine SessionState.encrypt_of_ne (lockstep.remote_eq role) (lockstep.local_eq role) hd ?_ plain
  intro last
  have few := h.few role _ hd
  dsimp only at last few
  rw [last] at few
  exact absurd (Nat.lt_of_le_of_lt few more) (Nat.lt_irrefl _)

end Agreed

namespace Exchange.Together

variable {x : Exchange} {store : HandshakeRole → Store}

theorem baseKey_eq (h : Together S pair c starter start x store e key n ladder session)
    (role : HandshakeRole) : (x.world.session pair role).baseKey = some key.transmitted := by
  obtain ⟨older, front⟩ := h.front role
  rw [h.shows.session_eq, Store.current_of_sessionsWith front.sessions]
  exact SessionState.baseKey_of_isFor (h.agreed.named role)

/-- Nothing happens if the session in front cannot send. -/
theorem idle_round (h : Together S pair c starter start x store e key n ladder session)
    {err : Error} (failed : (session role).encrypt S plain = .error err) :
    x.Hears S pair (x.round (role, plain)) ∧
      Together S pair c starter start (x.after S pair (x.round (role, plain))) store e key (n + 1)
        ladder session := by
  obtain ⟨older, front⟩ := h.front role
  obtain ⟨err', ran⟩ := Store.Has.encrypt_error (s := ⟨store role, e⟩) front failed
  obtain ⟨world, shows, same⟩ := Exchange.step_post_error h.shows ran
  have none : x.posted[x.posted.length]? = none := List.getElem?_eq_none (Nat.le_refl _)
  have last : x.after S pair (x.round (role, plain))
      = { x with world, past := x.world :: x.past } := by
    show (x.step S pair (.post role plain)).step S pair (.deliver x.posted.length) = _
    rw [same, step, none]
  refine ⟨⟨?_, ?_, trivial⟩, ?_⟩
  · intro p due
    cases due
  · rw [same, due?, none]
    intro p due
    cases due
  · rw [last]
    exact { h with
      shows
      agreed := { h.agreed with
        few := fun role d hd => Nat.le_succ_of_le (h.agreed.few role d hd) } }

/-- A message goes through the session that both have in front. -/
theorem round (h : Together S pair c starter start x store e key n ladder session) (hS : S.Lawful)
    (letter : HandshakeRole × Bytes) :
    x.Hears S pair (x.round letter) ∧
      (n < 0xffffffff → (x.after S pair (x.round letter)).letters = x.letters ++ [letter]) ∧
      (c.Fresh S pair start (x.after S pair (x.round letter)).world.entropy →
        ∃ store' e' ladder' session', Together S pair c starter start
          (x.after S pair (x.round letter)) store' e' key (n + 1) ladder' session') := by
  obtain ⟨role, plain⟩ := letter
  rcases made : (session role).encrypt S plain with err | ⟨message, st⟩
  · -- then the chain of the sender is at its last number
    obtain ⟨hears, together⟩ := h.idle_round made
    refine ⟨hears, fun more => ?_, fun _ => ⟨store, e, ladder, session, together⟩⟩
    obtain ⟨message, st, sent⟩ := h.agreed.sends more role plain
    rw [made] at sent
    cases sent
  · obtain ⟨older, front⟩ := h.front role
    obtain ⟨behind, front'⟩ := h.front role.other
    rw [other_other] at front'
    obtain ⟨hears, posted, next⟩ := h.agreed.round hS h.drawn h.shows front made fun m hm => by
      obtain ⟨record, offers, sessions, bounded⟩ := h.agreed.offers front' made hm
      exact ⟨record, [], behind, e, offers, sessions, bounded, .nil e, h.alive⟩
    exact ⟨hears, fun _ => posted, next⟩

/-- So do all that follow. -/
theorem rounds (h : Together S pair c starter start x store e key n ladder session) (hS : S.Lawful)
    {letters : List (HandshakeRole × Bytes)}
    (fresh : c.Fresh S pair start (x.after S pair (x.rounds S pair letters)).world.entropy) :
    x.Hears S pair (x.rounds S pair letters) ∧
      (n + letters.length ≤ 0xffffffff →
        (x.after S pair (x.rounds S pair letters)).letters = x.letters ++ letters) ∧
      ∃ store' e' ladder' session', Together S pair c starter start
        (x.after S pair (x.rounds S pair letters)) store' e' key (n + letters.length) ladder'
        session' := by
  induction letters generalizing x store e n ladder session with
  | nil => exact ⟨trivial, fun _ => (List.append_nil _).symm, store, e, ladder, session, h⟩
  | cons letter letters ih =>
    obtain ⟨read, posted, together⟩ := h.round hS letter
    obtain ⟨_, _, _, _, together⟩ := together (Crossing.Fresh.first h.shows h.drawn _ fresh)
    rw [after_rounds] at fresh ⊢
    obtain ⟨reads, posted', together⟩ := ih together fresh
    refine ⟨(hears_append S pair x _ _).mpr ⟨read, reads⟩, fun more => ?_, ?_⟩
    · rw [List.length_cons] at more
      rw [posted' (by omega), posted (by omega), List.append_assoc]
      rfl
    · rw [Nat.add_right_comm] at together
      exact together

end Exchange.Together

end

/-! ### The first message -/

section
variable {S : Suite} {pair : Pair} {c : Crossing} {start e : Entropy} {x : Exchange}
  {store : HandshakeRole → Store} {strand : HandshakeRole → Strand}
  {started heard : HandshakeRole → Bool} {starter : HandshakeRole}

/-- Once what is on the way is lost, the two sides of a strand agree. -/
theorem Strand.Known.agreed {a : Strand} {thread : List Posted} (h : a.Known S c starter thread)
    (short : thread.length ≤ 2000)
    (keys : ∀ side, ∀ r ∈ (a.ladder side).rungs,
      r.key.publicKey ∈ c.signedKey starter :: S.publicKeys start e) :
    Agreed S c starter start e a.hello.baseKey 2000 a.ladder a.session where
  abreast := h.abreast short
  few role d hd := Nat.le_trans (h.few role d hd) short
  named := h.named
  told := by
    intro role pending there
    rcases eq_or_eq_other starter role with rfl | rfl
    · rw [h.pending] at there
      cases there
      rfl
    · rw [h.silent] at there
      cases there
  keys

namespace Exchange.Crossed

/-- The session that a member has in front, after it has heard of the other strand or not, passes on
what the other member has made in its own front session, if that is of the other strand. -/
theorem refused (h : Crossed S pair c start x store strand started heard e)
    (both : ∀ role, started role) {role : HandshakeRole} {m : RatchetMessage}
    (key : m.ratchetKey = ((strand role.other).ladder role).top.key.publicKey)
    (foreign : ¬((strand role).session role.other).Verifies S m) :
    ∃ e', Refused S m [(strand role).session role.other] e e' ∧ e'.dead = false := by
  refine refused_of_foreign h.alive (List.forall_mem_singleton.mpr foreign)
    (List.forall_mem_singleton.mpr fun window hw => ?_)
  refine SessionState.index_windowFor (fun window there => ?_) hw
  -- it has heard of no key of the other strand
  obtain ⟨r, hr, same, -⟩ :=
    ((h.carries role (both _)).known.known.lockstep.stands role.other).windows _ _ there
  have apart := (h.apart role (both _) (both _)).rungs role.other role r
    (Lockstep.mem_rungs_of_heard hr) _ List.mem_cons_self
  exact absurd (same.trans key) apart

/-- What a member sends in the strand of either is offered to the session of that strand, after no
other one or one that refuses it. -/
theorem offered (h : Crossed S pair c start x store strand started heard e)
    (both : ∀ role, started role) (fresh : c.Fresh S pair start e) {role : HandshakeRole}
    (turned : starter = role ∨ starter = role.other) {plain : Bytes} {message : Message}
    {st : SessionState} (sent : ((strand starter).session role).encrypt S plain = .ok (message, st))
    {m : RatchetMessage} (hm : message.inner? = some m)
    (foreign : starter = role.other → heard role.other →
      ¬((strand role).session role.other).Verifies S m) :
    ∃ record before after e₁,
      (store role.other).Offers S (pair.peer role.other) (c.identity role) record message m ∧
      record.sessions = before ++ (strand starter).session role.other :: after ∧
      record.archive.length ≤ limits.archivedSessions ∧
      Refused S m before e e₁ ∧ e₁.dead = false := by
  have known := (h.carries starter (both _)).known
  rcases turned with rfl | rfl
  · obtain ⟨m', rfl, version, hello⟩ :=
      (known.said sent).told _ (List.mem_append_right _ List.mem_cons_self)
    cases hm
    obtain ⟨record, older, offers, sessions, -, bounded⟩ := h.offers both fresh version hello
    exact ⟨record, [], _, e, offers, sessions, bounded, .nil e, h.alive⟩
  · -- its handshake has been answered, and the reader has the session
    have silent := known.silent
    rw [other_other] at silent
    obtain ⟨-, m', wrapped, gives, -⟩ := known.known.lockstep.encrypt sent
    unfold SessionState.encrypt.wrap at wrapped
    rw [silent] at wrapped
    subst wrapped
    cases hm
    obtain ⟨older, -, has⟩ := (h.keeps role.other).stored (both _)
    rw [other_other] at has
    cases heard_eq : heard role.other with
    | false =>
      rw [heard_eq] at has
      obtain ⟨record, stored, sessions, settled⟩ := has.stored
      exact ⟨record, [], _, e, .ratchet stored has.isTrusted, sessions, settled.bounded, .nil e,
        h.alive⟩
    | true =>
      rw [heard_eq] at has
      obtain ⟨record, stored, sessions, settled⟩ := has.stored
      obtain ⟨e₁, refused, alive⟩ := h.refused both gives.ratchetKey (foreign rfl heard_eq)
      exact ⟨record, [(strand role).session role.other], older, e₁, .ratchet stored has.isTrusted,
        sessions, settled.bounded, refused, alive⟩

/-- A reader that has the sender's own strand in front does not take for genuine there what has been
made in the other one. -/
theorem foreign (h : Crossed S pair c start x store strand started heard e)
    (both : ∀ role, started role) {role : HandshakeRole} {older : List SessionState}
    (front : (store role).Has (pair.peer role) (c.identity role.other)
      ((strand role.other).session role :: older)) (there : heard role.other)
    {plain : Bytes} {message : Message} {st : SessionState}
    (sent : ((strand role.other).session role).encrypt S plain = .ok (message, st))
    (discerning : x.Discerning S pair (x.round (role, plain))) {m : RatchetMessage}
    (hm : message.inner? = some m) : ¬((strand role).session role.other).Verifies S m := by
  have own := (h.carries role (both _)).known
  have known := (h.carries role.other (both _)).known
  obtain ⟨_, shows, has, posted, -⟩ :=
    Store.Has.step_post h.shows front (known.known.lockstep.remote_eq role) sent
  obtain ⟨_, -, has'⟩ := (h.keeps role.other).stored (both _)
  rw [there, other_other] at has'
  -- these are the sessions in front when the message is delivered
  have reads := shows.session_eq role.other
  rw [put_other, Store.current_of_sessionsWith has'.sessions] at reads
  have sends := shows.session_eq role
  rw [put_self, Store.current_of_sessionsWith has.sessions] at sends
  have hp : (x.step S pair (.post role plain)).posted[x.posted.length]?
      = some ⟨role, plain, message⟩ := by
    rw [posted, List.getElem?_concat_length]
  have foreign := discerning.2.1 _ hp m hm
  dsimp only at foreign
  rw [reads, sends] at foreign
  refine foreign fun same => ?_
  have named : st.isFor currentVersion (strand role.other).hello.baseKey.transmitted := by
    rw [(Evolves.sent sent).isFor_eq]
    exact known.named role
  rw [SessionState.baseKey_of_isFor named, SessionState.baseKey_of_isFor (own.named _)] at same
  exact (h.apart role (both _) (both _)).baseKey
    (PublicKey.transmitted_injective (Option.some.inj same))

/-- A member has one of the two strands in front. -/
theorem front (h : Crossed S pair c start x store strand started heard e)
    (both : ∀ role, started role) (role : HandshakeRole) :
    ∃ starter older, (starter = role ∨ starter = role.other) ∧
      (store role).Has (pair.peer role) (c.identity role.other)
        ((strand starter).session role :: older) := by
  obtain ⟨older, -, has⟩ := (h.keeps role).stored (both _)
  cases heard_eq : heard role with
  | false =>
    rw [heard_eq] at has
    exact ⟨role, _, .inl rfl, has⟩
  | true =>
    rw [heard_eq] at has
    exact ⟨role.other, _, .inr rfl, has⟩

/-- After the first message both members have the strand in front that the sender had in front. -/
theorem first_round (h : Crossed S pair c start x store strand started heard e)
    (both : ∀ role, started role) (hS : S.Lawful) (short : ∀ role, (x.thread role).length ≤ 2000)
    (fresh : c.Fresh S pair start e) (letter : HandshakeRole × Bytes)
    (discerning : x.Discerning S pair (x.round letter)) :
    x.Hears S pair (x.round letter) ∧
      (x.after S pair (x.round letter)).letters = x.letters ++ [letter] ∧
      ∃ starter key, c.Fresh S pair start (x.after S pair (x.round letter)).world.entropy →
        ∃ store' e' ladder' session', Together S pair c starter start
          (x.after S pair (x.round letter)) store' e' key 2001 ladder' session' := by
  obtain ⟨role, plain⟩ := letter
  obtain ⟨starter, older, turned, front⟩ := h.front both role
  have carries := h.carries starter (both _)
  obtain ⟨message, st, sent⟩ := carries.known.sends (short _) role plain
  obtain ⟨hears, posted, next⟩ := (carries.known.agreed (short _) carries.keys).round hS h.drawn
    h.shows front sent fun m hm => h.offered both fresh turned sent hm (by
      rintro rfl there
      exact h.foreign both front there sent discerning hm)
  exact ⟨hears, posted, starter, _, next⟩

/-- From the first message on both members have one strand in front. -/
theorem rounds (h : Crossed S pair c start x store strand started heard e)
    (both : ∀ role, started role) (hS : S.Lawful) (short : ∀ role, (x.thread role).length ≤ 2000)
    {letter : HandshakeRole × Bytes} {letters : List (HandshakeRole × Bytes)}
    (fresh : c.Fresh S pair start
      (x.after S pair (x.rounds S pair (letter :: letters))).world.entropy)
    (discerning : x.Discerning S pair (x.rounds S pair (letter :: letters))) :
    x.Hears S pair (x.rounds S pair (letter :: letters)) ∧
      (letters.length + 2000 < 0xffffffff →
        (x.after S pair (x.rounds S pair (letter :: letters))).letters
          = x.letters ++ letter :: letters) ∧
      ∃ key, ∀ done, done <+: letters → ∀ role,
        ((x.after S pair (x.rounds S pair (letter :: done))).world.session pair role).baseKey
          = some key := by
  have fresh₀ : c.Fresh S pair start x.world.entropy :=
    Crossing.Fresh.first h.shows h.drawn [] fresh
  rw [h.shows.entropy_eq] at fresh₀
  obtain ⟨read, posted, starter, key, together⟩ :=
    h.first_round both hS short fresh₀ letter ⟨discerning.1, discerning.2.1, trivial⟩
  obtain ⟨_, _, _, _, together⟩ := together (Crossing.Fresh.first h.shows h.drawn _ fresh)
  rw [after_rounds] at fresh ⊢
  obtain ⟨reads, posted', -⟩ := together.rounds hS fresh
  refine ⟨(hears_append S pair x _ _).mpr ⟨read, reads⟩, fun few => ?_, key.transmitted,
    fun done first role => ?_⟩
  · rw [posted' (by omega), posted, List.append_assoc]
    rfl
  · obtain ⟨rest, rfl⟩ := first
    rw [rounds_append] at fresh
    obtain ⟨-, -, _, _, _, _, together⟩ :=
      together.rounds hS (Crossing.Fresh.first together.shows together.drawn _ fresh)
    rw [after_rounds]
    exact together.baseKey_eq role

end Exchange.Crossed

end

/-! ### Convergence -/

/-- **Two sessions started at the same time become one.**  Two members start a session with each
other, each from a genuine bundle of the other one, and each posts up to 2000 messages before anything
arrives.  Some of the messages are delivered, in any order, and each of them is read as what was
posted.  The other ones are lost, and from then on either member may post, but each message is
delivered before the next one is posted.  These are all read too, and from the first of them on both
members have a session of the same handshake in front, and always of the same one.  Every letter is
posted, unless there are so many that a chain could get to its last number.  No two keys that were
made are the same, and the tag of no message has been right in a session that it was not made in. -/
theorem simultaneous_sessions_converge {S : Suite} (hS : S.Lawful) {pair : Pair} {c : Crossing}
    (fits : c.Fits S pair) {w : World} {start : Entropy} (shows : w.Shows pair c.store start)
    (alive : start.dead = false) {overtures : List Overture}
    (orderly : Overture.Orderly (fun _ => false) overtures)
    (short : ∀ role, (Overture.letters overtures).countP (·.1 = role) ≤ 2000)
    {numbers : List Nat} (once : numbers.Nodup) {letters : List (HandshakeRole × Bytes)}
    {x y z : Exchange} (posted : c.after S pair { world := w } overtures = x)
    (delivered : x.after S pair (numbers.map .deliver) = y)
    (exchanged : y.after S pair (y.rounds S pair letters) = z)
    (fresh : c.Fresh S pair start z.world.entropy)
    (discerning : y.Discerning S pair (y.rounds S pair letters)) :
    (x.letters = Overture.letters overtures ∧ ∀ p ∈ x.posted, ∃ m, p.message = .preKey m) ∧
    x.Hears S pair (numbers.map .deliver) ∧
    y.Hears S pair (y.rounds S pair letters) ∧
    (letters.length + 2000 ≤ 0xffffffff → z.letters = Overture.letters overtures ++ letters) ∧
    ∃ key, ∀ done, done <+: letters → done ≠ [] → ∀ role,
      ((y.after S pair (y.rounds S pair done)).world.session pair role).baseKey = some key := by
  subst posted delivered exchanged
  have shows₀ : (Exchange.world { world := w }).Shows pair c.store start := shows
  obtain ⟨_, _, shows₁, drawn⟩ :=
    Exchange.Crossed.shows_overtures (S := S) (c := c) shows₀ overtures
  have last := fresh
  rw [← Exchange.after_append] at last
  have fresh₂ := Crossing.Fresh.first shows₁ drawn _ last
  have fresh₁ : c.Fresh S pair start (c.after S pair { world := w } overtures).world.entropy :=
    Crossing.Fresh.first shows₁ drawn [] fresh₂
  -- first both start and post, and nothing arrives
  obtain ⟨_, _, _, crossed, short₁, read, told⟩ := Exchange.Crossed.after_overtures
    (Exchange.Crossed.nothing shows alive fun role =>
      c.strand S role (S.nextKeyPair start) (S.nextKeyPair start))
    fits hS orderly (by simpa [Exchange.thread] using short) fresh₁
  have hello : ∀ p ∈ (c.after S pair { world := w } overtures).posted,
      ∃ m, p.message = .preKey m := by
    intro p hp
    have there : p ∈ Exchange.thread _ p.sender := List.mem_filter.mpr ⟨hp, decide_eq_true rfl⟩
    obtain ⟨m, hm, -⟩ := (crossed.carries p.sender rfl).known.told p there
    exact ⟨m, hm⟩
  -- then some of it arrives
  obtain ⟨hears, short₂, _, _, _, _, crossed⟩ := crossed.after_deliveries (fun _ => rfl) hS short₁
    once (by rw [read]; exact fun _ _ => List.not_mem_nil) fresh₂
  refine ⟨⟨told, hello⟩, hears, ?_⟩
  cases letters with
  | nil =>
    refine ⟨trivial, fun _ => ?_, [], fun done none some => absurd (List.prefix_nil.mp none) some⟩
    show ((c.after S pair { world := w } overtures).after S pair _).letters = _
    rw [Exchange.letters, Exchange.posted_deliveries, List.append_nil]
    exact told
  | cons letter letters =>
    obtain ⟨reads, posted, key, agree⟩ :=
      crossed.rounds (fun _ => rfl) hS short₂ fresh discerning
    refine ⟨reads, fun few => ?_, key, fun done first some => ?_⟩
    · rw [List.length_cons] at few
      rw [posted (by omega), Exchange.letters, Exchange.posted_deliveries]
      exact congrArg (· ++ _) told
    · cases done with
      | nil => exact absurd rfl some
      | cons letter' done =>
        obtain ⟨rfl, more⟩ := List.cons_prefix_cons.mp first
        exact agree done more

namespace Toy

/-- The peer and the device, each with a bundle of the other one; only the device has a one-time
pre-key. -/
def crossing : Crossing where
  store
    | .initiator => {
        identity := keyPair 4
        registrationId := 2
        signedPreKeys := (∅ : Std.ExtTreeMap UInt32 SignedPreKey).insert 6 ⟨6, 0, keyPair 12, []⟩ }
    | .responder => bob.store
  bundle
    | .initiator => bundle (some (7, (keyPair 3).publicKey))
    | .responder => {
        registrationId := 2
        device := 1
        preKey := none
        signedPreKeyId := 6
        signedPreKey := (keyPair 12).publicKey
        signature := []
        identity := (keyPair 4).publicKey }
  signed
    | .initiator => ⟨9, 0, keyPair 2, []⟩
    | .responder => ⟨6, 0, keyPair 12, []⟩
  oneTime
    | .initiator => some ⟨7, keyPair 3⟩
    | .responder => none

/-- The two before anything has happened. -/
def crossroads : World where
  members := [⟨alice, { number := 0, store := crossing.store .initiator }⟩,
    ⟨⟨"bob", 1⟩, { number := 1, store := crossing.store .responder }⟩]
  entropy := { stream := fun n => UInt8.ofNat (n / 32 + 100) }

/-- Each starts a session and posts twice. -/
def overtures : List Overture :=
  [.start .initiator, .post .initiator [1], .start .responder, .post .responder [2],
    .post .initiator [3], .post .responder [4]]

/-- What has been posted then. -/
def crossed : Exchange := crossing.after suite pair { world := crossroads } overtures

/-- Of either the second message arrives, and the first one is lost. -/
def arrived : Exchange := crossed.after suite pair ([3, 2].map .deliver)

/-- They go on one at a time. -/
def replies : List (HandshakeRole × Bytes) :=
  [(.responder, [5]), (.initiator, [6]), (.initiator, [7])]

def replied : Exchange := arrived.after suite pair (arrived.rounds suite pair replies)

end Toy

/-- Both have heard the other one first, and have different sessions in front; the next message
settles it. -/
theorem simultaneous_sessions_converge_replied :
    (Toy.arrived.world.session Toy.pair .initiator).baseKey
        ≠ (Toy.arrived.world.session Toy.pair .responder).baseKey ∧
      Toy.crossed.Hears Toy.suite Toy.pair ([3, 2].map .deliver) ∧
      Toy.arrived.Hears Toy.suite Toy.pair (Toy.arrived.rounds Toy.suite Toy.pair Toy.replies) ∧
      ∃ key, ∀ done, done <+: Toy.replies → done ≠ [] → ∀ role,
        ((Toy.arrived.after Toy.suite Toy.pair (Toy.arrived.rounds Toy.suite Toy.pair
          done)).world.session Toy.pair role).baseKey = some key := by
  have lawful : Toy.suite.Lawful := ⟨Toy.agreement_comm, Toy.decrypt_encrypt⟩
  have fits : Toy.crossing.Fits Toy.suite Toy.pair := by
    refine ⟨?settled, ?trusted, ?valid, ?backed⟩
    case settled =>
      intro role record stored
      cases role <;> cases stored
    case trusted =>
      intro role
      cases role <;> decide +kernel
    case valid =>
      intro role
      cases role <;> rfl
    case backed =>
      intro role
      cases role with
      | initiator =>
        exact ⟨rfl, rfl, toOption_eq_some.mp (by decide +kernel), rfl, rfl,
          toOption_eq_some.mp (by decide +kernel), rfl, by rintro _ ⟨⟩; rfl⟩
      | responder =>
        exact ⟨rfl, rfl, toOption_eq_some.mp (by decide +kernel), rfl, rfl,
          toOption_eq_some.mp (by decide +kernel), rfl, nofun⟩
  have shows : Toy.crossroads.Shows Toy.pair Toy.crossing.store Toy.crossroads.entropy := by
    refine ⟨⟨rfl, by decide +kernel⟩, fun role => ?_⟩
    cases role <;> rfl
  have orderly : Overture.Orderly (fun _ => false) Toy.overtures := by
    refine ⟨rfl, rfl, rfl, rfl, rfl, rfl, fun role => ?_⟩
    cases role <;> rfl
  have short : ∀ role, (Overture.letters Toy.overtures).countP (·.1 = role) ≤ 2000 := by
    intro role
    cases role <;> decide
  have fresh : Toy.crossing.Fresh Toy.suite Toy.pair Toy.crossroads.entropy
      Toy.replied.world.entropy := by
    refine ⟨by decide +kernel, fun role st there => ?_⟩
    cases role <;> cases there
  have posted : Toy.crossing.after Toy.suite Toy.pair { world := Toy.crossroads } Toy.overtures
      = Toy.crossed := rfl
  have arrived : Toy.crossed.after Toy.suite Toy.pair ([3, 2].map .deliver) = Toy.arrived := rfl
  have replied : Toy.arrived.after Toy.suite Toy.pair
      (Toy.arrived.rounds Toy.suite Toy.pair Toy.replies) = Toy.replied := rfl
  have discerning : Toy.arrived.Discerning Toy.suite Toy.pair
      (Toy.arrived.rounds Toy.suite Toy.pair Toy.replies) := by decide +kernel
  obtain ⟨-, hears, reads, -, agree⟩ := simultaneous_sessions_converge lawful fits shows rfl orderly
    short (by decide) posted arrived replied fresh discerning
  exact ⟨by decide +kernel, hears, reads, agree⟩

end DoubleRatchet
