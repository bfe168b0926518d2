/-
DoubleRatchet/Proofs/Delivery.lean

Messages reach their readers.

Two members that have nothing to do with each other yet meet when one of them has a
bundle of the other (`Meeting`).  The initiator starts a session, and from then on both
post and read in any order.  Both sides begin on the same rung, since they have the
same secrets (`InitiatorKeys.Matches.secrets_eq`), so that the exchange is under way from the start.

Then every message that is in time is read when it first gets through, and reads as
what was posted (`delivered_in_time`).
-/
import DoubleRatchet.Proofs.Beginnings
import DoubleRatchet.Proofs.Underway

namespace DoubleRatchet

open HandshakeRole

/-! ### The first message -/

section
variable {S : Suite}

/-- A store that has no session yet faces every handshake that it has the keys of. -/
theorem Store.faces_welcome {s : Store} {peer : Address} {hello : Hello} {st : SessionState}
    (none : s.sessions[peer]? = none) (trusted : s.isTrusted peer hello.identity)
    (welcomes : s.Welcomes S hello st) : s.Faces S peer hello st := by
  rintro m version rfl
  have trusted' : s.isTrusted peer m.identity := trusted
  have empty : s.loadSession peer = .empty := by
    rw [loadSession, none]
    rfl
  have unknown : ¬SessionRecord.empty.knows m.version m.baseKey.transmitted := by
    rw [SessionRecord.knows_empty]
    exact Bool.false_ne_true
  obtain ⟨keys, found, rfl⟩ := welcomes m rfl
  refine ⟨m.preKeyId.filter (· != lastResortPreKey), true, ?_⟩
  unfold accept
  rw [if_pos trusted', empty, if_neg unknown, found]
  rfl

end

/-! ### Meeting -/

variable (S : Suite) in
/-- The store has the private keys of what is in a bundle. -/
structure PreKeyBundle.Backed (bundle : PreKeyBundle) (s : Store) (signed : SignedPreKey)
    (oneTime : Option PreKey) : Prop where
  proper : s.identity.Proper S
  identity_eq : bundle.identity = s.identity.publicKey
  signed_found : s.loadSignedPreKey bundle.signedPreKeyId = .ok signed
  signed_eq : bundle.signedPreKey = signed.keyPair.publicKey
  signed_proper : signed.keyPair.Proper S
  oneTime_found : bundle.oneTimePreKeyId.mapM s.loadPreKey = .ok oneTime
  oneTime_eq : bundle.oneTimePreKey = oneTime.map (·.keyPair.publicKey)
  oneTime_proper : ∀ k ∈ oneTime, k.keyPair.Proper S

variable (S : Suite) (pair : Pair) in
/-- Two members that have no session with each other, and a bundle of the responder, which has the
private keys of what is in it. -/
structure Meeting (store : HandshakeRole → Store) (bundle : PreKeyBundle) (signed : SignedPreKey)
    (oneTime : Option PreKey) : Prop where
  strangers : ∀ role, (store role).sessions[pair.peer role]? = none
  trusted : (store .responder).isTrusted (pair.peer .responder)
    (store .initiator).identity.publicKey
  proper : ∀ role, (store role).identity.Proper S
  identity_eq : bundle.identity = (store .responder).identity.publicKey
  signed_found : (store .responder).loadSignedPreKey bundle.signedPreKeyId = .ok signed
  signed_eq : bundle.signedPreKey = signed.keyPair.publicKey
  signed_proper : signed.keyPair.Proper S
  oneTime_found : bundle.oneTimePreKeyId.mapM (store .responder).loadPreKey = .ok oneTime
  oneTime_eq : bundle.oneTimePreKey = oneTime.map (·.keyPair.publicKey)
  oneTime_proper : ∀ k ∈ oneTime, k.keyPair.Proper S

namespace Meeting

/-- The handshake that the initiator tells of. -/
def hello (store : HandshakeRole → Store) (bundle : PreKeyBundle) (baseKey : KeyPair) : Hello where
  registrationId := (store .initiator).registrationId
  preKeyId := bundle.oneTimePreKeyId
  signedPreKeyId := bundle.signedPreKeyId
  baseKey := baseKey.publicKey
  identity := (store .initiator).identity.publicKey

/-- What the responder has then. -/
def keys (store : HandshakeRole → Store) (signed : SignedPreKey) (oneTime : Option PreKey)
    (baseKey : KeyPair) : ResponderKeys where
  identity := (store .responder).identity
  signedPreKey := signed.keyPair
  oneTimePreKey := oneTime.map (·.keyPair)
  ratchetKey := signed.keyPair
  theirIdentity := (store .initiator).identity.publicKey
  theirBaseKey := baseKey.publicKey

/-- The responder stands on the first rung, and the initiator on one of its own above it. -/
def ladder (S : Suite) (r : Rung) (ratchetKey : KeyPair) : HandshakeRole → Ladder
  | .initiator => ⟨r.next S ratchetKey, [r]⟩
  | .responder => ⟨r, []⟩

/-- The sessions that the handshake sets up. -/
def session (S : Suite) (store : HandshakeRole → Store) (bundle : PreKeyBundle)
    (keys : ResponderKeys) (baseKey ratchetKey : KeyPair) : HandshakeRole → SessionState
  | .initiator => (store .initiator).greet S bundle .empty baseKey ratchetKey
  | .responder => (hello store bundle baseKey).welcome S (store .responder) keys

variable {S : Suite} {pair : Pair} {store : HandshakeRole → Store} {bundle : PreKeyBundle}
  {signed : SignedPreKey} {oneTime : Option PreKey} {baseKey ratchetKey : KeyPair}

/-- What both sides have then. -/
def beginning (store : HandshakeRole → Store) (bundle : PreKeyBundle) (signed : SignedPreKey)
    (oneTime : Option PreKey) (baseKey ratchetKey : KeyPair) : Beginning where
  initiator := store .initiator
  bundle := bundle
  baseKey := baseKey
  ratchetKey := ratchetKey
  responder := store .responder
  keys := keys store signed oneTime baseKey
  hello := hello store bundle baseKey

/-- The responder has the keys of the handshake. -/
theorem welcomes (h : bundle.Backed S (store .responder) signed oneTime) (baseKey : KeyPair) :
    (store .responder).Welcomes S (hello store bundle baseKey)
      ((hello store bundle baseKey).welcome S (store .responder)
        (keys store signed oneTime baseKey)) := by
  intro m same
  refine ⟨keys store signed oneTime baseKey, ?_, by rw [← same]; rfl⟩
  obtain ⟨-, preKeyId, signedPreKeyId, baseKey, identity⟩ := Hello.mk.inj same
  unfold Store.responderKeys
  rw [signedPreKeyId, preKeyId, baseKey, identity, h.signed_found, h.oneTime_found]
  rfl

/-- What the initiator takes from the bundle matches what the responder has. -/
theorem asking (h : bundle.Backed S (store .responder) signed oneTime)
    (own : (store .initiator).identity.Proper S) (hb : baseKey.Proper S) :
    ((store .initiator).asking bundle baseKey).Matches S (keys store signed oneTime baseKey) where
  own_proper := ⟨own, hb⟩
  their_proper := ⟨h.proper, h.signed_proper, h.signed_proper⟩
  oneTime_proper := by
    intro k there
    obtain ⟨record, found, rfl⟩ := Option.map_eq_some_iff.mp there
    exact h.oneTime_proper record found
  theirIdentity := h.identity_eq
  theirSignedPreKey := h.signed_eq
  theirOneTimePreKey := by
    rw [Store.asking, h.oneTime_eq, keys, Option.map_map]
    rfl
  theirRatchetKey := h.signed_eq
  ownIdentity := rfl
  ownBaseKey := rfl

theorem fits (h : bundle.Backed S (store .responder) signed oneTime)
    (own : (store .initiator).identity.Proper S) (hb : baseKey.Proper S) (hr : ratchetKey.Proper S)
    (ne : ratchetKey.publicKey ≠ signed.keyPair.publicKey) :
    (beginning store bundle signed oneTime baseKey ratchetKey).Fits S :=
  ⟨asking h own hb, hr, ne, rfl⟩

theorem backed (h : Meeting S pair store bundle signed oneTime) :
    bundle.Backed S (store .responder) signed oneTime :=
  ⟨h.proper _, h.identity_eq, h.signed_found, h.signed_eq, h.signed_proper, h.oneTime_found,
    h.oneTime_eq, h.oneTime_proper⟩

theorem faces (h : Meeting S pair store bundle signed oneTime) (baseKey : KeyPair) :
    (store .responder).Faces S (pair.peer .responder) (hello store bundle baseKey)
      ((hello store bundle baseKey).welcome S (store .responder)
        (keys store signed oneTime baseKey)) :=
  Store.faces_welcome (h.strangers _) h.trusted (welcomes h.backed baseKey)

/-- Nothing has been posted yet. -/
theorem correspondence (h : Meeting S pair store bundle signed oneTime) (hS : S.Lawful)
    (hb : baseKey.Proper S) (hr : ratchetKey.Proper S)
    (ne : ratchetKey.publicKey ≠ signed.keyPair.publicKey) :
    let k := keys store signed oneTime baseKey
    Correspondence S (fun role => (store role).identity.publicKey)
      (ladder S (k.rung S) ratchetKey) (session S store bundle k baseKey ratchetKey) [] []
      (Displaced S pair []) := by
  intro k
  have identity : (fun role => (store role).identity.publicKey)
      = (beginning store bundle signed oneTime baseKey ratchetKey).identity :=
    funext fun role => by cases role <;> rfl
  have ladder : ladder S (k.rung S) ratchetKey
      = (beginning store bundle signed oneTime baseKey ratchetKey).ladder S :=
    funext fun role => by cases role <;> rfl
  have session : session S store bundle k baseKey ratchetKey
      = (beginning store bundle signed oneTime baseKey ratchetKey).session S :=
    funext fun role => by cases role <;> rfl
  rw [identity, ladder, session]
  exact (fits h.backed (h.proper _) hb hr ne).correspondence hS _

/-- The initiator tells of the handshake, and the responder is ready for it. -/
theorem parties (h : Meeting S pair store bundle signed oneTime) {s : Store}
    (hs : s.Holds (pair.peer .initiator)
      ((store .initiator).greet S bundle .empty baseKey ratchetKey)) :
    let k := keys store signed oneTime baseKey
    Parties S pair (fun role => (store role).identity.publicKey) (hello store bundle baseKey)
      (put store .initiator s) (ladder S (k.rung S) ratchetKey)
      (session S store bundle k baseKey ratchetKey) := by
  intro k
  refine ⟨hs, h.faces baseKey, .inr ⟨h.strangers .responder, rfl⟩, .inl rfl, rfl, ?_, rfl, rfl⟩
  simp [session, Hello.welcome, SessionState.isFor, SessionState.respond, SessionState.between,
    SessionState.nameAfter, SessionState.empty]

variable {source : Entropy} {w w' : World}

/-- What the initiator has done when it has started its session. -/
theorem started_shows (h : Meeting S pair store bundle signed oneTime)
    (shows : w.Shows pair store source)
    (started : w.perform pair .initiator (startSession S (pair.peer .initiator) bundle)
      = (.ok (), w')) :
    source.dead = false ∧ ∃ s, s.Holds (pair.peer .initiator) ((store .initiator).greet S bundle
        .empty (S.nextKeyPair source) (S.nextKeyPair (source.advance 32))) ∧
      w'.Shows pair (put store .initiator s) ((source.advance 32).advance 32) := by
  obtain ⟨outcome, shows'⟩ := shows.perform
    (sequential_startSession S (pair.peer .initiator) bundle) .initiator
  rw [started] at outcome shows'
  rcases ran : (startSession S (pair.peer .initiator) bundle).alone accepting
    ⟨store .initiator, source⟩ with ⟨result, s'⟩
  rw [ran] at outcome shows'
  obtain rfl := outcome
  obtain ⟨-, -, alive, rfl⟩ := startSession_ok ran
  have empty : (store .initiator).loadSession (pair.peer .initiator) = .empty := by
    rw [Store.loadSession, h.strangers .initiator]
    rfl
  rw [empty] at shows'
  refine ⟨alive, _, ?_, shows'⟩
  exact Store.holds_storeSession (store .initiator) (pair.peer .initiator) rfl rfl

/-- The first ratchet key of the initiator. -/
theorem publicKeys_one (S : Suite) (start : Entropy) :
    S.publicKeys start (start.advance 32) = [(S.nextKeyPair start).publicKey] := by
  rw [Suite.publicKeys_advance (.refl _), Suite.publicKeys, Nat.sub_self]
  rfl

/-- Once the initiator has started its session the exchange is under way. -/
theorem underway (h : Meeting S pair store bundle signed oneTime) (hS : S.Lawful)
    (shows : w.Shows pair store source)
    (started : w.perform pair .initiator (startSession S (pair.peer .initiator) bundle)
      = (.ok (), w'))
    (distinct : (bundle.signedPreKey ::
      S.publicKeys (source.advance 32) ((source.advance 32).advance 32)).Nodup) :
    ∃ identity hello store' ladder session source', Exchange.Underway S pair identity hello
      bundle.signedPreKey (source.advance 32) { world := w' } store' ladder session source' := by
  obtain ⟨alive, s, holds, shows'⟩ := h.started_shows shows started
  rw [publicKeys_one, h.signed_eq] at distinct
  have ne : (S.nextKeyPair (source.advance 32)).publicKey ≠ signed.keyPair.publicKey := by
    rintro same
    rw [same] at distinct
    exact (List.nodup_cons.mp distinct).1 List.mem_cons_self
  have proper := S.proper_nextKeyPair source
  have proper' := S.proper_nextKeyPair (source.advance 32)
  have known := h.correspondence hS proper proper' ne
  have parties := h.parties holds
  refine ⟨_, _, _, _, _, (source.advance 32).advance 32,
    { shows := shows', alive, parties, addressed := nofun, known, drawn := .one _, keys := ?keys
      chains := ?chains }⟩
  case keys =>
    rw [publicKeys_one, h.signed_eq]
    intro role r hr
    cases role with
    | initiator =>
      rcases List.mem_cons.mp hr with rfl | hr
      · exact List.mem_cons_of_mem _ List.mem_cons_self
      · obtain rfl := List.mem_singleton.mp hr
        exact List.mem_cons_self
    | responder =>
      obtain rfl := List.mem_singleton.mp hr
      exact List.mem_cons_self
  case chains =>
    -- there is no past, so the chains that are there are those that were started
    intro role
    have now := parties.chains_eq known.lockstep shows' role
    have distinct := known.lockstep.nodup_heard role
    generalize heard : List.map _ (Ladder.heard _) = keys at now distinct ⊢
    have few : keys.length ≤ limits.receiverChains := by
      rw [← heard, List.length_map]
      cases role <;> exact Nat.le_of_ble_eq_true rfl
    rw [← List.append_nil keys] at now distinct ⊢
    exact chainsStarted_cons keys rfl now few distinct

end Meeting

/-! ### Messages in time -/

/-- **Messages in time are read.**  One member has started a session with another one from its
bundle, and both have posted and been delivered messages in any order since.  No two ratchet keys
that were made are the same, and no message has passed for genuine on a chain that is not its own.
Then a message that has not been read yet, and that is in time, is read as what was posted. -/
theorem delivered_in_time {S : Suite} (hS : S.Lawful) {pair : Pair} {store : HandshakeRole → Store}
    {bundle : PreKeyBundle} {signed : SignedPreKey} {oneTime : Option PreKey}
    (meeting : Meeting S pair store bundle signed oneTime) {w w' : World} {source : Entropy}
    (shows : w.Shows pair store source)
    (started : w.perform pair .initiator (startSession S (pair.peer .initiator) bundle)
      = (.ok (), w'))
    {moves : List Move} {x : Exchange} (run : Exchange.after S pair { world := w' } moves = x)
    (distinct : (bundle.signedPreKey ::
      S.publicKeys (source.advance 32) x.world.entropy).Nodup)
    (separate : Exchange.Separate S pair { world := w' } moves)
    {n : Nat} {p : Posted} (posted : x.posted[n]? = some p) (unread : n ∉ x.read)
    (inTime : ∀ m, p.message.inner? = some m → x.InTime S pair p.sender.other m) :
    (x.delivery S pair p).1 = .ok p.plain := by
  subst run
  obtain ⟨-, s, -, shows'⟩ := meeting.started_shows shows started
  obtain ⟨_, source', shows'', before⟩ :=
    Exchange.shows_after (S := S) (x := { world := w' }) shows' moves
  have distinct₁ : (bundle.signedPreKey ::
      S.publicKeys (source.advance 32) ((source.advance 32).advance 32)).Nodup := by
    rw [shows''.entropy_eq] at distinct
    refine List.Nodup.sublist (List.Sublist.cons_cons _ ?_) distinct
    exact (Suite.publicKeys_prefix (.one _) before).sublist
  obtain ⟨_, _, _, _, _, _, begun⟩ := meeting.underway hS shows started distinct₁
  obtain ⟨_, _, _, _, underway⟩ := begun.after hS distinct separate
  exact underway.delivery_eq hS posted unread inTime

namespace Toy

/-- The peer and the device. -/
def pair : Pair where
  member
    | .initiator => 0
    | .responder => 1
  peer
    | .initiator => ⟨"bob", 1⟩
    | .responder => alice
  distinct := by decide

/-- What they have in their stores. -/
def stores : HandshakeRole → Store
  | .initiator => { identity := keyPair 4, registrationId := 2 }
  | .responder => bob.store

/-- The world of the two. -/
def world : World where
  members := [⟨alice, { number := 0, store := stores .initiator }⟩,
    ⟨⟨"bob", 1⟩, { number := 1, store := stores .responder }⟩]
  entropy := bob.entropy

/-- The world in which the peer has started its session. -/
def started : World :=
  (world.perform pair .initiator (startSession suite (pair.peer .initiator)
    (bundle (some (7, (keyPair 3).publicKey))))).2

/-- The second message of the peer comes first, and is answered. -/
def overtaken : List Move :=
  [.post .initiator [1], .post .initiator [2], .deliver 1, .post .responder [3], .deliver 2]

end Toy

/-- A message that another one has overtaken is read all the same. -/
theorem delivered_in_time_overtaken :
    let x := Exchange.after Toy.suite Toy.pair { world := Toy.started } Toy.overtaken
    ∃ p, x.posted[0]? = some p ∧ p.plain = [1] ∧ (x.delivery Toy.suite Toy.pair p).1 = .ok [1] := by
  have lawful : Toy.suite.Lawful := ⟨Toy.agreement_comm, Toy.decrypt_encrypt⟩
  have meeting : Meeting Toy.suite Toy.pair Toy.stores
      (Toy.bundle (some (7, (Toy.keyPair 3).publicKey))) ⟨9, 0, Toy.keyPair 2, []⟩ (some ⟨7, Toy.keyPair 3⟩) := by
    refine ⟨?_, by decide +kernel, ?_, rfl, toOption_eq_some.mp (by decide +kernel), rfl, rfl,
      toOption_eq_some.mp (by decide +kernel), rfl, ?_⟩
    · intro role
      cases role <;> decide +kernel
    · intro role
      cases role <;> rfl
    · rintro _ ⟨⟩
      rfl
  have shows : Toy.world.Shows Toy.pair Toy.stores Toy.bob.entropy := by
    refine ⟨⟨rfl, by decide +kernel⟩, fun role => ?_⟩
    cases role <;> rfl
  have started : Toy.world.perform Toy.pair .initiator (startSession Toy.suite
      (Toy.pair.peer .initiator) (Toy.bundle (some (7, (Toy.keyPair 3).publicKey))))
      = (.ok (), Toy.started) := by
    have ok : (Toy.world.perform Toy.pair .initiator (startSession Toy.suite
        (Toy.pair.peer .initiator) (Toy.bundle (some (7, (Toy.keyPair 3).publicKey))))).1
          = .ok () :=
      toOption_eq_some.mp (by decide +kernel)
    unfold Toy.started
    rw [← ok]
  have posted : ∃ p, (Exchange.after Toy.suite Toy.pair { world := Toy.started }
      Toy.overtaken).posted[0]? = some p ∧ p.plain = [1] := by
    have some : ((Exchange.after Toy.suite Toy.pair { world := Toy.started }
        Toy.overtaken).posted[0]?.map (·.plain)) = some [1] := by decide +kernel
    exact Option.map_eq_some_iff.mp some
  obtain ⟨p, hp, plain⟩ := posted
  refine ⟨p, hp, plain, ?_⟩
  rw [← plain]
  refine delivered_in_time lawful meeting shows started rfl (by decide +kernel)
    (Exchange.Punctual.separate (by decide +kernel)) hp (by decide +kernel) ?_
  have inTime : ∀ p ∈ (Exchange.after Toy.suite Toy.pair { world := Toy.started }
      Toy.overtaken).posted[0]?, ∀ m ∈ p.message.inner?,
      (Exchange.after Toy.suite Toy.pair { world := Toy.started } Toy.overtaken).InTime Toy.suite
        Toy.pair p.sender.other m := by
    decide +kernel
  exact inTime p hp

end DoubleRatchet
