/-
DoubleRatchet/Proofs/Underway.lean

An exchange once it has begun.

The initiator holds its session from the start.  The responder holds none until a
message reaches it; but which message that is makes no difference, since all of them
tell of the same handshake (`Parties`).  So the sessions of both sides correspond to what
has been posted from the start on, every move keeps it so (`Underway.step`), and what is
in time is read (`Underway.delivery_eq`).
-/
import DoubleRatchet.Proofs.Correspondence
import DoubleRatchet.Proofs.Single

namespace DoubleRatchet

open HandshakeRole

section
variable (S : Suite) (pair : Pair) (identity : HandshakeRole → PublicKey) (hello : Hello)

/-! ### Both stores -/

/-- Both members hold their sessions. -/
def Begun (store : HandshakeRole → Store) (session : HandshakeRole → SessionState) : Prop :=
  ∀ role, (store role).Holds (pair.peer role) (session role)

/-- The initiator holds its session, and the responder holds its own or faces the handshake that will
set it up. -/
structure Parties (store : HandshakeRole → Store) (ladder : HandshakeRole → Ladder)
    (session : HandshakeRole → SessionState) : Prop where
  initiator : (store .initiator).Holds (pair.peer .initiator) (session .initiator)
  responder : (store .responder).Faces S (pair.peer .responder) hello (session .responder)
  begun : Begun pair store session ∨
    ((store .responder).sessions[pair.peer .responder]? = none ∧ (ladder .responder).heard = [])
  /-- The initiator tells of the handshake until it has had an answer. -/
  pending : (session .initiator).pending
      = some ⟨hello.preKeyId, hello.signedPreKeyId, hello.baseKey⟩ ∨
    ((session .initiator).pending = none ∧ Begun pair store session)
  silent : (session .responder).pending = none
  named : (session .responder).isFor currentVersion hello.baseKey.transmitted
  introduced : hello.identity = identity .initiator
  registered : (session .initiator).localRegistrationId = hello.registrationId

/-- The message tells of the handshake, or both sides know of it. -/
inductive Addressed (store : HandshakeRole → Store) (session : HandshakeRole → SessionState) :
    HandshakeRole → Message → Prop
  | greeting {m : PreKeyMessage} (version : m.version = currentVersion) (same : m.hello = hello) :
    Addressed store session .initiator (.preKey m)
  | letter {sender m} (begun : Begun pair store session) : Addressed store session sender (.ratchet m)

end

section
variable {S : Suite} {pair : Pair} {identity : HandshakeRole → PublicKey} {hello : Hello}
  {store : HandshakeRole → Store} {ladder ladder' : HandshakeRole → Ladder}
  {session : HandshakeRole → SessionState} {role : HandshakeRole} {message : Message}
  {m : RatchetMessage} {store' : Store} {st' : SessionState}

theorem Begun.put (h : Begun pair store session) (holds : store'.Holds (pair.peer role) st') :
    Begun pair (put store role store') (put session role st') := by
  intro side
  rcases eq_or_eq_other role side with rfl | rfl
  · rw [put_self, put_self]
    exact holds
  · rw [put_other, put_other]
    exact h _

/-- Pinning the identity of the other side makes no difference to a session that is held. -/
theorem Begun.saveIdentity (h : Begun pair store session)
    (lockstep : Lockstep S identity ladder session) (role : HandshakeRole) :
    Begun pair (HandshakeRole.put store role
      ((store role).saveIdentity (pair.peer role) (identity role.other))) session := by
  have both : Begun pair _ (HandshakeRole.put session role (session role)) :=
    h.put ((h role).saveIdentity (lockstep.remote_eq role))
  rw [put_same] at both
  exact both

theorem Addressed.mono {store' : HandshakeRole → Store} {session' : HandshakeRole → SessionState}
    (h : Addressed pair hello store session role message)
    (begun : Begun pair store session → Begun pair store' session') :
    Addressed pair hello store' session' role message := by
  cases h with
  | greeting version same => exact .greeting version same
  | letter hb => exact .letter (begun hb)

namespace Parties

/-- What is addressed to a side is for its session. -/
theorem answers (h : Parties S pair identity hello store ladder session)
    (addressed : Addressed pair hello store session role message)
    (hm : message.inner? = some m) :
    (store role.other).Answers S (pair.peer role.other) (identity role) (session role.other)
      message m := by
  cases addressed with
  | @greeting m' version same =>
    cases hm
    refine .preKey version ?_ (by rw [same]; exact h.responder)
    rw [← h.introduced, ← same]
    rfl
  | letter begun =>
    cases hm
    exact .ratchet (begun _)

/-- What a side sends is addressed to the other one. -/
theorem addressed (h : Parties S pair identity hello store ladder session)
    (lockstep : Lockstep S identity ladder session)
    (holds : (store role).Holds (pair.peer role) (session role)) (m : RatchetMessage) :
    Addressed pair hello store session role
      (SessionState.encrypt.wrap (session role) (identity role) m) := by
  unfold SessionState.encrypt.wrap
  cases role with
  | initiator =>
    rcases h.pending with pending | ⟨pending, begun⟩
    · rw [pending]
      refine .greeting (lockstep.stands _).sound.version ?_
      unfold PreKeyMessage.hello PreKeyMessage.make
      dsimp only
      rw [h.registered, ← h.introduced]
    · rw [pending]
      exact .letter begun
  | responder =>
    rw [h.silent]
    refine .letter fun side => ?_
    cases side with
    | initiator => exact h.initiator
    | responder => exact holds

/-- A session that a side has stored takes the place of the one before. -/
theorem evolves (h : Parties S pair identity hello store ladder session)
    (lockstep : Lockstep S identity ladder session) (evolves : Evolves S (session role) st')
    (holds : store'.Holds (pair.peer role) st') (rest : ladder' role.other = ladder role.other)
    (answered : role = .initiator →
      st'.pending = (session .initiator).pending ∨ Begun pair store session) :
    Parties S pair identity hello (put store role store') ladder' (put session role st') := by
  cases role with
  | initiator =>
    refine { initiator := holds, responder := h.responder, begun := ?begun, pending := ?pending,
             silent := h.silent, named := h.named, introduced := h.introduced
             registered := evolves.localRegistrationId_eq.trans h.registered }
    case begun =>
      rcases h.begun with begun | ⟨none, heard⟩
      · exact .inl (begun.put holds)
      · exact .inr ⟨none, (congrArg Ladder.heard rest).trans heard⟩
    case pending =>
      have same : st'.pending = (session .initiator).pending ∨
          (st'.pending = none ∧ Begun pair store session) := by
        rcases evolves.pending_cases with same | none
        · exact .inl same
        · exact (answered rfl).imp_right fun begun => ⟨none, begun⟩
      rcases same with same | ⟨none, begun⟩
      · rcases h.pending with pending | ⟨pending, begun⟩
        · exact .inl (same.trans pending)
        · exact .inr ⟨same.trans pending, begun.put holds⟩
      · exact .inr ⟨none, begun.put holds⟩
  | responder =>
    -- whatever it was before, the responder holds its session now
    have begun : Begun pair (put store .responder store') (put session .responder st') := by
      intro side
      cases side with
      | initiator => exact h.initiator
      | responder => exact holds
    have named : st'.isFor currentVersion hello.baseKey.transmitted := by
      rw [evolves.isFor_eq]
      exact h.named
    refine { initiator := h.initiator, responder := ?faces, begun := .inl begun
             pending := h.pending.imp_right fun ⟨pending, _⟩ => ⟨pending, begun⟩
             silent := ?silent, named, introduced := h.introduced, registered := h.registered }
    case faces =>
      refine Store.Holds.faces holds ?_ named
      rw [h.introduced]
      exact evolves.remoteIdentity_eq.trans (lockstep.remote_eq .responder)
    case silent =>
      rcases evolves.pending_cases with same | none
      · exact same.trans h.silent
      · exact none

/-- Pinning the identity of the other side makes no difference. -/
theorem saveIdentity (h : Parties S pair identity hello store ladder session)
    (lockstep : Lockstep S identity ladder session) (role : HandshakeRole) :
    Parties S pair identity hello
      (put store role ((store role).saveIdentity (pair.peer role) (identity role.other)))
      ladder session := by
  have begun := h.begun.imp_left fun begun => begun.saveIdentity lockstep role
  have pending := h.pending.imp_right fun ⟨pending, begun⟩ =>
    And.intro pending (begun.saveIdentity lockstep role)
  cases role with
  | initiator =>
    exact ⟨h.initiator.saveIdentity (lockstep.remote_eq _), h.responder, begun, pending, h.silent,
      h.named, h.introduced, h.registered⟩
  | responder =>
    have faces := h.responder.saveIdentity
    rw [h.introduced] at faces
    exact ⟨h.initiator, faces, begun, pending, h.silent, h.named, h.introduced, h.registered⟩

/-- A member has the session that is known of it, or none yet. -/
theorem session_cases (h : Parties S pair identity hello store ladder session) {w : World}
    {source : Entropy} (shows : w.Shows pair store source) (role : HandshakeRole) :
    w.session pair role = session role ∨
      (w.session pair role = .empty ∧ (ladder role).heard = []) := by
  rw [shows.session_eq]
  rcases h.begun with begun | ⟨none, heard⟩
  · rw [(begun role).loadSession_eq]
    exact .inl rfl
  cases role with
  | initiator =>
    rw [h.initiator.loadSession_eq]
    exact .inl rfl
  | responder =>
    rw [Store.loadSession, none]
    exact .inr ⟨rfl, heard⟩

theorem chains_eq (h : Parties S pair identity hello store ladder session)
    (lockstep : Lockstep S identity ladder session) {w : World} {source : Entropy}
    (shows : w.Shows pair store source) (role : HandshakeRole) :
    (w.session pair role).receiverChains.map (·.ratchetKey)
      = (((ladder role).heard.map (·.key.publicKey)).take limits.receiverChains).reverse := by
  rcases h.session_cases shows role with same | ⟨empty, heard⟩
  · rw [same]
    exact (lockstep.stands role).chains
  · rw [empty, heard]
    rfl

end Parties

end

/-! ### Exchanges that are under way -/

variable (S : Suite) (pair : Pair) (identity : HandshakeRole → PublicKey) (hello : Hello)
  (first : PublicKey) (start : Entropy) in
/-- The sessions of both members correspond to what they have posted.  Their ratchet keys are the
first one, and those that have been made since the start. -/
structure Exchange.Underway (x : Exchange) (store : HandshakeRole → Store)
    (ladder : HandshakeRole → Ladder) (session : HandshakeRole → SessionState) (source : Entropy) :
    Prop where
  shows : x.world.Shows pair store source
  alive : source.dead = false
  parties : Parties S pair identity hello store ladder session
  addressed : ∀ p ∈ x.posted, Addressed pair hello store session p.sender p.message
  known : Correspondence S identity ladder session x.posted x.read (Displaced S pair x.past)
  drawn : start.Before source
  keys : ∀ role, ∀ r ∈ (ladder role).rungs, r.key.publicKey ∈ first :: S.publicKeys start source
  chains : ∀ role,
    chainsStarted pair role (x.world :: x.past) = (ladder role).heard.map (·.key.publicKey)

namespace Exchange.Underway

variable {S : Suite} {pair : Pair} {identity : HandshakeRole → PublicKey} {hello : Hello}
  {first : PublicKey} {start : Entropy} {x : Exchange} {store : HandshakeRole → Store}
  {ladder : HandshakeRole → Ladder} {session : HandshakeRole → SessionState} {source : Entropy}
  {world' : World} {role : HandshakeRole} {store' : Store} {source' : Entropy} {st' : SessionState}
  {n : Nat} {p : Posted} {m : RatchetMessage}

theorem mem_keys (h : Underway S pair identity hello first start x store ladder session source)
    (before : source.Before source') {key : PublicKey}
    (hk : key ∈ first :: S.publicKeys start source) :
    key ∈ first :: S.publicKeys start source' := by
  rcases List.mem_cons.mp hk with rfl | hk
  · exact List.mem_cons_self
  · exact List.mem_cons_of_mem _ ((Suite.publicKeys_prefix h.drawn before).subset hk)

/-- What a member has of the session is what is known of it. -/
theorem window?_eq (h : Underway S pair identity hello first start x store ladder session source)
    (role : HandshakeRole) (theirs : PublicKey) :
    (x.world.session pair role).window? theirs = (session role).window? theirs := by
  rcases h.parties.session_cases h.shows role with same | ⟨empty, heard⟩
  · rw [same]
  · have unheard : theirs ∉ (ladder role).heard.map (·.key.publicKey) := by
      rw [heard]
      exact List.not_mem_nil
    rw [empty]
    exact (h.known.lockstep.window?_unheard unheard).symm

/-- What has been displaced in the past stays displaced. -/
theorem later (h : Underway S pair identity hello first start x store ladder session source) :
    Correspondence S identity ladder session x.posted x.read
      (Displaced S pair (x.world :: x.past)) := by
  refine h.known.mono fun role m => ?_
  rintro ⟨w, hw, was⟩
  exact ⟨w, List.mem_cons_of_mem _ hw, was⟩

/-! ### Moves -/

/-- Nothing comes of a move but that an identity is pinned that is trusted anyway. -/
theorem failed (h : Underway S pair identity hello first start x store ladder session source)
    (shows' : world'.Shows pair (put store role store') source') (before : source.Before source')
    (same : store' = store role ∨
      store' = (store role).saveIdentity (pair.peer role) (identity role.other)) :
    Underway S pair identity hello first start
      { x with world := world', past := x.world :: x.past } (put store role store') ladder session
      source' := by
  have parties : Parties S pair identity hello (put store role store') ladder session := by
    rcases same with rfl | rfl
    · rw [put_same]
      exact h.parties
    · exact h.parties.saveIdentity h.known.lockstep role
  have begun : Begun pair store session → Begun pair (put store role store') session := by
    rcases same with rfl | rfl
    · rw [put_same]
      exact id
    · exact fun begun => begun.saveIdentity h.known.lockstep role
  exact ⟨shows', before.dead_eq.trans h.alive, parties,
    fun p hp => (h.addressed p hp).mono begun, h.later, h.drawn.trans before,
    fun side r hr => h.mem_keys before (h.keys side r hr),
    fun side => chainsStarted_cons [] (h.chains side)
      (parties.chains_eq h.known.lockstep shows' side) (Nat.zero_le _)
      (h.known.lockstep.nodup_heard side)⟩

/-- A member has stored the session that has come of a move. -/
theorem moved (h : Underway S pair identity hello first start x store ladder session source)
    {ladder' : HandshakeRole → Ladder} {posted' : List Posted} {read' : List Nat}
    (shows' : world'.Shows pair (put store role store') source') (before : source.Before source')
    (evolves : Evolves S (session role) st') (holds : store'.Holds (pair.peer role) st')
    (rest : ladder' role.other = ladder role.other)
    (newer : ∃ rs, rs.length ≤ limits.receiverChains ∧
      (ladder' role).heard = rs ++ (ladder role).heard)
    (answered : role = .initiator →
      st'.pending = (session .initiator).pending ∨ Begun pair store session)
    (addressed : ∀ p ∈ posted', Addressed pair hello store session p.sender p.message)
    (known : Correspondence S identity ladder' (put session role st') posted' read'
      (Displaced S pair (x.world :: x.past)))
    (keys : ∀ r ∈ (ladder' role).rungs, r.key.publicKey ∈ first :: S.publicKeys start source') :
    Underway S pair identity hello first start
      { world := world', posted := posted', read := read', past := x.world :: x.past }
      (put store role store') ladder' (put session role st') source' := by
  have parties := h.parties.evolves h.known.lockstep evolves holds rest answered
  refine { shows := shows', alive := before.dead_eq.trans h.alive, parties
           addressed := fun p hp => (addressed p hp).mono fun begun => begun.put holds
           known, drawn := h.drawn.trans before, keys := ?keys, chains := ?chains }
  case keys =>
    intro side r hr
    rcases eq_or_eq_other role side with rfl | rfl
    · exact keys r hr
    · rw [rest] at hr
      exact h.mem_keys before (h.keys _ r hr)
  case chains =>
    -- only the side that has moved can have started chains
    intro side
    have more : ∃ rs, rs.length ≤ limits.receiverChains ∧
        (ladder' side).heard = rs ++ (ladder side).heard := by
      rcases eq_or_eq_other role side with rfl | rfl
      · exact newer
      · exact ⟨[], Nat.zero_le _, congrArg Ladder.heard rest⟩
    obtain ⟨rs, few, heard⟩ := more
    have now := parties.chains_eq known.lockstep shows' side
    have distinct := known.lockstep.nodup_heard side
    rw [heard, List.map_append] at now distinct ⊢
    refine chainsStarted_cons _ (h.chains side) now ?_ distinct
    rw [List.length_map]
    exact few

/-- A member that sends has stored its session. -/
theorem holds_of_sent (h : Underway S pair identity hello first start x store ladder session source)
    {plain : Bytes} {message : Message} {s' : Site}
    (sent : (encrypt S (pair.peer role) plain).alone accepting ⟨store role, source⟩
      = (.ok message, s')) : (store role).Holds (pair.peer role) (session role) := by
  rcases h.parties.begun with begun | ⟨none, -⟩
  · exact begun role
  cases role with
  | initiator => exact h.parties.initiator
  | responder =>
    obtain ⟨fresh, -⟩ := encrypt_ok sent
    rw [Store.loadSession, none] at fresh
    cases fresh

theorem post (h : Underway S pair identity hello first start x store ladder session source)
    (sender : HandshakeRole) (plain : Bytes) :
    ∃ store' ladder' session' source', Underway S pair identity hello first start
      (x.step S pair (.post sender plain)) store' ladder' session' source' := by
  obtain ⟨outcome, shows'⟩ := h.shows.perform (sequential_encrypt S (pair.peer sender) plain) sender
  unfold Exchange.step
  dsimp only
  rcases performed : x.world.perform pair sender (encrypt S (pair.peer sender) plain)
    with ⟨result, world'⟩
  rw [performed] at outcome shows'
  rcases sent : (encrypt S (pair.peer sender) plain).alone accepting ⟨store sender, source⟩
    with ⟨err | message, s'⟩
  · -- nothing is stored where nothing is sent
    rw [sent] at outcome shows'
    obtain rfl := encrypt_error sent
    obtain rfl := outcome
    exact ⟨_, _, _, _, h.failed shows' (.refl _) (.inl rfl)⟩
  · rw [sent] at outcome shows'
    obtain rfl := outcome
    have stored := h.holds_of_sent sent
    obtain ⟨st', made, holds, drawn⟩ := stored.encrypt_ok sent
    have evolves : Evolves S (session sender) st' := .sent made
    rw [drawn] at shows'
    refine ⟨_, ladder, _, _, h.moved shows' (.refl _) evolves holds rfl ⟨[], Nat.zero_le _, rfl⟩
      ?_ ?_
      (h.later.posts made) (h.keys sender)⟩
    · rintro rfl
      obtain ⟨-, -, -, -, -, -, -, -, -, rfl⟩ := SessionState.encrypt_ok made
      exact .inl rfl
    · intro p hp
      rcases List.mem_append.mp hp with old | new
      · exact h.addressed p old
      · obtain rfl := List.mem_singleton.mp new
        obtain ⟨-, m, rfl, -⟩ := h.known.lockstep.encrypt made
        exact h.parties.addressed h.known.lockstep stored m

/-! ### Delivering -/

/-- A receiver chain that is not there has given way to newer ones. -/
theorem evicted (h : Underway S pair identity hello first start x store ladder session source)
    {theirs : PublicKey} (heard : theirs ∈ (ladder role).heard.map (·.key.publicKey))
    (none : (session role).window? theirs = none) : x.Evicted pair role theirs := by
  rw [Exchange.Evicted, h.chains]
  exact h.known.lockstep.given_way heard none

/-- A key that is crowded out now is displaced. -/
theorem displaced (h : Underway S pair identity hello first start x store ladder session source)
    {m' : RatchetMessage} {window : Window ChainKey MessageKeys}
    (hw : (session role).window? m.ratchetKey = some window) (same : m'.ratchetKey = m.ratchetKey)
    (crowded : window.Crowded (ChainKey.rule S) m'.counter) :
    Displaced S pair (x.world :: x.past) role m' := by
  refine ⟨x.world, List.mem_cons_self, window, ?_, crowded⟩
  rw [h.window?_eq, same]
  exact hw

/-- A key that is made next is a new one. -/
theorem fresh (h : Underway S pair identity hello first start x store ladder session source)
    (distinct : (first :: S.publicKeys start (source.advance 32)).Nodup) (role : HandshakeRole) :
    (S.nextKeyPair source).publicKey ∉ (ladder role).rungs.map (·.key.publicKey) := by
  rw [Suite.publicKeys_advance h.drawn, ← List.cons_append, List.nodup_append] at distinct
  intro old
  obtain ⟨r, hr, same⟩ := List.mem_map.mp old
  exact distinct.2.2 _ (h.keys role r hr) _ List.mem_cons_self same

theorem mem_keys_drawn
    (h : Underway S pair identity hello first start x store ladder session source) :
    (S.nextKeyPair source).publicKey ∈ first :: S.publicKeys start (source.advance 32) := by
  rw [Suite.publicKeys_advance h.drawn]
  exact List.mem_cons_of_mem _ (List.mem_append_right _ List.mem_cons_self)

/-- What a member has opened it keeps a session for. -/
theorem opened (h : Underway S pair identity hello first start x store ladder session source)
    (hS : S.Lawful) (hp : x.posted[n]? = some p) (hm : p.message.inner? = some m) {plain : Bytes}
    (ran : ((session p.sender.other).decrypt S m).run source = (.ok (plain, st'), source'))
    (distinct : (first :: S.publicKeys start source').Nodup)
    (separate : x.Evicted pair p.sender.other m.ratchetKey →
      ¬(x.world.session pair p.sender.other).Verifies S m)
    (shows' : world'.Shows pair (put store p.sender.other store') source')
    (holds : store'.Holds (pair.peer p.sender.other) st') :
    ∃ ladder', Underway S pair identity hello first start
      { world := world', posted := x.posted, read := n :: x.read, past := x.world :: x.past }
      (put store p.sender.other store') ladder' (put session p.sender.other st') source' := by
  have evolves : Evolves S (session p.sender.other) st' := .opened ran
  have before : source.Before source' := by
    have drawn := (session p.sender.other).before_decrypt (S := S) m source
    rw [ran] at drawn
    exact drawn
  -- the initiator reads what the responder has sent, and it sends when both have the session
  have answered : p.sender.other = .initiator →
      st'.pending = (session .initiator).pending ∨ Begun pair store session := by
    intro reader
    have addressed := h.addressed p (List.mem_of_getElem? hp)
    generalize p.sender = sender at reader addressed
    generalize p.message = message at addressed
    cases addressed with
    | greeting => cases reader
    | letter begun => exact .inr begun
  have there : m.ratchetKey ∈ (ladder p.sender.other).heard.map (·.key.publicKey) →
      (session p.sender.other).window? m.ratchetKey ≠ none := by
    intro heard none
    -- the chain has given way, and nothing is opened in its place
    have gone := h.evicted heard none
    have valid := SessionState.verifies_decrypt ran
    rcases h.parties.session_cases h.shows p.sender.other with same | ⟨-, unheard⟩
    · rw [← same] at valid
      exact separate gone valid
    · rw [unheard] at heard
      cases heard
  obtain ⟨-, ladder', known, climbed⟩ := h.later.reading hS h.alive hp hm ran
    (by rintro rfl; exact h.fresh distinct p.sender) there
    fun window hw m' same crowded => h.displaced hw same crowded
  rcases climbed with rfl | ⟨rfl, rfl⟩
  · exact ⟨_, h.moved shows' before evolves holds rfl ⟨[], Nat.zero_le _, rfl⟩ answered h.addressed
      known fun r hr => h.mem_keys before (h.keys _ r hr)⟩
  refine ⟨_, h.moved shows' before evolves holds ?_ ⟨[(ladder p.sender).top], ?_, ?_⟩ answered
    h.addressed known ?_⟩
  · rw [other_other, put_at_other]
  · exact Nat.le_of_ble_eq_true rfl
  · rw [put_self]
    exact Ladder.heard_climb ..
  · -- a rung is the new one, that of the key heard, or an old one
    intro r hr
    rw [put_self] at hr
    rcases List.mem_cons.mp hr with rfl | hr
    · exact h.mem_keys_drawn
    · rcases List.mem_cons.mp hr with rfl | hr
      · exact h.mem_keys before (h.keys p.sender _ List.mem_cons_self)
      · exact h.mem_keys before (h.keys _ r hr)

theorem deliver (h : Underway S pair identity hello first start x store ladder session source)
    (hS : S.Lawful) (number : Nat)
    (distinct : (first :: S.publicKeys start
      (x.step S pair (.deliver number)).world.entropy).Nodup)
    (separate : ∀ p m, x.posted[number]? = some p → p.message.inner? = some m →
      x.Evicted pair p.sender.other m.ratchetKey →
      ¬(x.world.session pair p.sender.other).Verifies S m) :
    ∃ store' ladder' session' source', Underway S pair identity hello first start
      (x.step S pair (.deliver number)) store' ladder' session' source' := by
  unfold Exchange.step at distinct ⊢
  dsimp only at distinct ⊢
  rcases hp : x.posted[number]? with - | p
  · exact ⟨_, _, _, _, h⟩
  rw [hp] at distinct
  dsimp only at distinct ⊢
  obtain ⟨m, hm, r, hr, gives⟩ := h.known.made p (List.mem_of_getElem? hp)
  have answers := h.parties.answers (h.addressed p (List.mem_of_getElem? hp)) hm
  have remote := h.known.lockstep.remote_eq p.sender.other
  rw [other_other] at remote
  obtain ⟨outcome, shows'⟩ := h.shows.read (S := S) p.sender.other p.message
  rcases performed : x.delivery S pair p with ⟨result, world'⟩
  rw [performed] at distinct
  rw [← Exchange.delivery, performed] at outcome shows'
  have drawn := shows'.entropy_eq
  rcases ran : ((session p.sender.other).decrypt S m).run source with ⟨err | ⟨plain, st'⟩, source'⟩
  · obtain ⟨err', store', read, same⟩ := answers.read_error (s := ⟨_, source⟩) remote ran
    rw [read] at outcome shows'
    obtain rfl := outcome
    refine ⟨_, _, _, _, h.failed shows' ?_ ?_⟩
    · have before := (session p.sender.other).before_decrypt (S := S) m source
      rw [ran] at before
      exact before
    · rw [other_other]
      exact same
  · obtain ⟨store', read, holds⟩ := answers.read_ok (s := ⟨_, source⟩) remote ran
    rw [read] at outcome shows' drawn
    obtain rfl := outcome
    dsimp only at distinct drawn
    rw [drawn] at distinct
    obtain ⟨ladder', underway⟩ := h.opened hS hp hm ran distinct (separate p m hp hm) shows' holds
    exact ⟨_, ladder', _, _, underway⟩

/-- An exchange stays under way. -/
theorem step (h : Underway S pair identity hello first start x store ladder session source)
    (hS : S.Lawful) {move : Move} {moves : List Move}
    (distinct : (first :: S.publicKeys start (x.step S pair move).world.entropy).Nodup)
    (separate : x.Separate S pair (move :: moves)) :
    ∃ store' ladder' session' source', Underway S pair identity hello first start
      (x.step S pair move) store' ladder' session' source' := by
  cases move with
  | post sender plain => exact h.post sender plain
  | deliver number =>
    exact h.deliver hS number distinct fun p m hp hm => separate.1 p hp m hm

theorem after (h : Underway S pair identity hello first start x store ladder session source)
    (hS : S.Lawful) {moves : List Move}
    (distinct : (first :: S.publicKeys start (x.after S pair moves).world.entropy).Nodup)
    (separate : x.Separate S pair moves) :
    ∃ store' ladder' session' source', Underway S pair identity hello first start
      (x.after S pair moves) store' ladder' session' source' := by
  induction moves generalizing x store ladder session source with
  | nil => exact ⟨_, _, _, _, h⟩
  | cons move moves ih =>
    -- the keys made by the end begin with those made by now
    obtain ⟨store₁, source₁, shows₁, first₁⟩ := shows_step (S := S) h.shows move
    obtain ⟨store₂, source₂, shows₂, rest⟩ := shows_after (S := S) shows₁ moves
    have distinct₁ : (first :: S.publicKeys start (x.step S pair move).world.entropy).Nodup := by
      rw [shows₁.entropy_eq]
      refine List.Nodup.sublist (List.Sublist.cons_cons _ ?_) distinct
      show (S.publicKeys start source₁).Sublist
        (S.publicKeys start ((x.step S pair move).after S pair moves).world.entropy)
      rw [shows₂.entropy_eq]
      exact (Suite.publicKeys_prefix (h.drawn.trans first₁) rest).sublist
    obtain ⟨_, _, _, _, underway⟩ := h.step hS distinct₁ separate
    exact ih underway distinct separate.2

/-- In an exchange that is under way a message that is in time is read. -/
theorem delivery_eq (h : Underway S pair identity hello first start x store ladder session source)
    (hS : S.Lawful) (hp : x.posted[n]? = some p) (unread : n ∉ x.read)
    (inTime : ∀ m, p.message.inner? = some m → x.InTime S pair p.sender.other m) :
    (x.delivery S pair p).1 = .ok p.plain := by
  obtain ⟨m, hm, r, hr, gives⟩ := h.known.made p (List.mem_of_getElem? hp)
  have answers := h.parties.answers (h.addressed p (List.mem_of_getElem? hp)) hm
  have remote := h.known.lockstep.remote_eq p.sender.other
  rw [other_other] at remote
  have inTime := inTime m hm
  have near := inTime.near
  rw [h.window?_eq] at near
  obtain ⟨st', source', ran⟩ := h.later.reads hS h.alive hp unread hm near
    (fun heard none => inTime.chain (h.evicted heard none))
    (fun window hw crowded => inTime.key (h.displaced hw rfl crowded)) inTime.key
  obtain ⟨store', alone, -⟩ := answers.read_ok (s := ⟨_, source⟩) remote ran
  have outcome := (h.shows.read (S := S) p.sender.other p.message).1
  rw [alone] at outcome
  exact outcome

end Exchange.Underway

end DoubleRatchet
