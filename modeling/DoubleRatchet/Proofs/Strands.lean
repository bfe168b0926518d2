/-
DoubleRatchet/Proofs/Strands.lean

Two members who start sessions with each other.

Either has a bundle of the other one (`Crossing`).  When both start a session, there are
two of them, each with an initiator and, once a message has got through, a responder:

    one strand     its own session  ------ pre-key messages ----->  set up when heard
    the other      set up when heard  <----- pre-key messages -----  its own session

A `Strand` is what is known of one of the two.  As long as only its starter posts in it,
everything in it is on the first chain of the starter, which is short.  So whatever has
come before or been lost, every message can be read (`Known.hears`), and once what is on
the way is lost, the two sides are abreast (`Known.abreast`).
-/
import DoubleRatchet.Proofs.Abreast
import DoubleRatchet.Proofs.Delivery

namespace DoubleRatchet

open HandshakeRole

/-- What two members have who start sessions with each other. -/
structure Crossing where
  store : HandshakeRole → Store
  /-- The bundle that a member has of the other one. -/
  bundle : HandshakeRole → PreKeyBundle
  /-- The signed pre-key of that bundle, which the other one has. -/
  signed : HandshakeRole → SignedPreKey
  /-- The one-time pre-key of that bundle, if there is one. -/
  oneTime : HandshakeRole → Option PreKey

namespace Crossing

section
variable (S : Suite) (pair : Pair) (c : Crossing)

def identity (role : HandshakeRole) : PublicKey := (c.store role).identity.publicKey

/-- The ratchet key that a session begins with. -/
def signedKey (starter : HandshakeRole) : PublicKey := (c.signed starter).keyPair.publicKey

/-- Either member trusts the bundle that it has, and the other one has the keys of it.  There may be
sessions from before. -/
structure Fits : Prop where
  settled : ∀ role, (c.store role).Settled (pair.peer role)
  trusted : ∀ role, (c.store role).isTrusted (pair.peer role) (c.bundle role).identity
  valid : ∀ role, (c.bundle role).checkSignature S = .ok ()
  backed : ∀ role, (c.bundle role).Backed S (c.store role.other) (c.signed role) (c.oneTime role)

/-- The keys that are made from one place of a source to another are new ones: none is made twice,
or is that of a bundle, or has been the base key of a session before. -/
structure Fresh (start finish : Entropy) : Prop where
  distinct : (c.signedKey .initiator :: c.signedKey .responder :: S.publicKeys start finish).Nodup
  unknown : ∀ role, ∀ st ∈ (c.store role).sessionsWith (pair.peer role),
    ∀ key ∈ S.publicKeys start finish, ¬st.isFor currentVersion key.transmitted

end

section
variable {S : Suite} {pair : Pair} {c : Crossing} {start finish e : Entropy}

theorem Fresh.until (h : c.Fresh S pair start finish) (drawn : start.Before e)
    (before : e.Before finish) : c.Fresh S pair start e := by
  have first := Suite.publicKeys_prefix (S := S) drawn before
  exact ⟨h.distinct.sublist ((first.sublist.cons_cons _).cons_cons _),
    fun role st there key made => h.unknown role st there key (first.subset made)⟩

/-- The keys that are made in the first of some moves are new ones if all of them are. -/
theorem Fresh.first {x : Exchange} {store : HandshakeRole → Store}
    (shows : x.world.Shows pair store e) (drawn : start.Before e) (moves : List Move)
    {more : List Move}
    (h : c.Fresh S pair start (x.after S pair (moves ++ more)).world.entropy) :
    c.Fresh S pair start (x.after S pair moves).world.entropy := by
  obtain ⟨store₁, e₁, shows₁, first⟩ := Exchange.shows_after (S := S) shows moves
  obtain ⟨store₂, e₂, shows₂, rest⟩ := Exchange.shows_after (S := S) shows₁ more
  rw [Exchange.after_append, shows₂.entropy_eq] at h
  rw [shows₁.entropy_eq]
  exact h.until (drawn.trans first) rest

theorem Fresh.signed_ne (h : c.Fresh S pair start finish) (role : HandshakeRole) :
    c.signedKey role ≠ c.signedKey role.other := by
  have first := (List.nodup_cons.mp h.distinct).1
  rw [List.mem_cons, not_or] at first
  cases role with
  | initiator => exact first.1
  | responder => exact first.1 ∘ Eq.symm

theorem Fresh.signed_not_mem (h : c.Fresh S pair start finish) (role : HandshakeRole) :
    c.signedKey role ∉ S.publicKeys start finish := by
  have first := List.nodup_cons.mp h.distinct
  rw [List.mem_cons, not_or] at first
  cases role with
  | initiator => exact first.1.2
  | responder => exact (List.nodup_cons.mp first.2).1

/-- A key that is made now is none of those before. -/
theorem Fresh.not_mem (h : c.Fresh S pair start (e.advance 32)) (drawn : start.Before e)
    (role : HandshakeRole) :
    (S.nextKeyPair e).publicKey ∉ c.signedKey role :: S.publicKeys start e := by
  have keys := Suite.publicKeys_advance (S := S) drawn
  have distinct := (List.nodup_cons.mp (List.nodup_cons.mp h.distinct).2).2
  rw [keys, List.nodup_append] at distinct
  rw [List.mem_cons, not_or]
  constructor
  · rintro same
    refine h.signed_not_mem role ?_
    rw [← same, keys]
    exact List.mem_append_right _ List.mem_cons_self
  · exact fun made => distinct.2.2 _ made _ List.mem_cons_self rfl

end

end Crossing

/-! ### Strands -/

/-- One of two sessions, with both sides of it. -/
structure Strand where
  /-- The handshake that its messages tell of. -/
  hello : Hello
  ladder : HandshakeRole → Ladder
  session : HandshakeRole → SessionState
  /-- Which of its messages have been read. -/
  read : List Nat

namespace Crossing

variable (S : Suite) (pair : Pair) (c : Crossing) (starter : HandshakeRole) (k k' : KeyPair)

/-- What both members have when one of them starts a session. -/
def beginning : Beginning :=
  Meeting.beginning (fun side => c.store (starter.roleOf side)) (c.bundle starter)
    (c.signed starter) (c.oneTime starter) k k'

/-- The strand of a session that has been started. -/
def strand : Strand where
  hello := (c.beginning starter k k').hello
  ladder side := (c.beginning starter k k').ladder S (starter.roleOf side)
  session side := (c.beginning starter k k').session S (starter.roleOf side)
  read := []

end Crossing

namespace Crossing

variable {S : Suite} {pair : Pair} {c : Crossing} {starter : HandshakeRole} {k k' : KeyPair}

/-- The starter's side of a strand is what it has set up. -/
theorem greet_strand : (c.strand S starter k k').session starter
    = (c.store starter).greet S (c.bundle starter) .empty k k' := by
  cases starter <;> rfl

theorem Fits.backed_roleOf (h : c.Fits S pair) : (c.bundle starter).Backed S
    (c.store (starter.roleOf .responder)) (c.signed starter) (c.oneTime starter) := by
  cases starter <;> exact h.backed _

/-- The other side has the keys of the handshake. -/
theorem welcome_strand (h : c.Fits S pair) :
    (c.store starter.other).Welcomes S (c.strand S starter k k').hello
      ((c.strand S starter k k').session starter.other) := by
  have welcomes : (c.store (starter.roleOf .responder)).Welcomes S (c.beginning starter k k').hello
      ((c.beginning starter k k').session S .responder) :=
    @Meeting.welcomes S (fun side => c.store (starter.roleOf side)) _ _ _ h.backed_roleOf k
  cases starter <;> exact welcomes

/-- A strand begins with the key of the bundle and the ratchet key of its starter. -/
theorem key_strand {side : HandshakeRole} {r : Rung}
    (hr : r ∈ ((c.strand S starter k k').ladder side).rungs) :
    r.key.publicKey = c.signedKey starter ∨ r.key.publicKey = k'.publicKey := by
  replace hr : r ∈ ((c.beginning starter k k').ladder S (starter.roleOf side)).rungs := hr
  generalize starter.roleOf side = role at hr
  cases role with
  | initiator =>
    rcases List.mem_cons.mp hr with rfl | hr
    · exact .inr rfl
    · obtain rfl := List.mem_singleton.mp hr
      exact .inl rfl
  | responder =>
    obtain rfl := List.mem_singleton.mp hr
    exact .inl rfl

end Crossing

namespace Strand

variable (S : Suite) (c : Crossing) (starter : HandshakeRole) (a : Strand)
  (thread : List Posted) in
/-- Only the starter has posted in a strand, and all that it has posted tells of the handshake. -/
structure Known : Prop where
  known : Correspondence S c.identity a.ladder a.session thread a.read fun _ _ => False
  told : ∀ p ∈ thread, ∃ m, p.message = .preKey m ∧ m.version = currentVersion ∧ m.hello = a.hello
  /-- No chain has gone further than messages have been posted. -/
  few : ∀ side d, (a.session side).senderChain = some d → d.chainKey.index.toNat ≤ thread.length
  /-- The starter still stands on its first rung. -/
  lone : (a.ladder starter).own = [(a.ladder starter).top]
  named : ∀ side, (a.session side).isFor currentVersion a.hello.baseKey.transmitted
  pending : (a.session starter).pending
    = some ⟨a.hello.preKeyId, a.hello.signedPreKeyId, a.hello.baseKey⟩
  silent : (a.session starter.other).pending = none
  introduced : a.hello.identity = c.identity starter
  registered : (a.session starter).localRegistrationId = a.hello.registrationId

/-- Two strands have no key in common. -/
structure Apart (a b : Strand) : Prop where
  baseKey : a.hello.baseKey ≠ b.hello.baseKey
  rungs : ∀ side side', ∀ r ∈ (a.ladder side).rungs, ∀ r' ∈ (b.ladder side').rungs,
    r.key.publicKey ≠ r'.key.publicKey

theorem Apart.symm {a b : Strand} (h : a.Apart b) : b.Apart a :=
  ⟨h.baseKey.symm, fun side side' r hr r' hr' => (h.rungs side' side r' hr' r hr).symm⟩

/-- A strand that is apart from the other one may take the place of the first. -/
theorem Apart.put {strand : HandshakeRole → Strand} {starter : HandshakeRole} {a : Strand}
    (h : a.Apart (strand starter.other)) (role : HandshakeRole) :
    (HandshakeRole.put strand starter a role).Apart
      (HandshakeRole.put strand starter a role.other) := by
  rcases eq_or_eq_other starter role with rfl | rfl
  · rw [put_self, put_other]
    exact h
  · rw [put_other, other_other, put_self]
    exact h.symm

/-- The strand once the starter has posted a message. -/
def said (a : Strand) (starter : HandshakeRole) (st : SessionState) : Strand :=
  { a with session := HandshakeRole.put a.session starter st }

/-- The strand once the other side has read a message. -/
def heard (a : Strand) (starter : HandshakeRole) (ladder : HandshakeRole → Ladder) (i : Nat)
    (st : SessionState) : Strand where
  hello := a.hello
  ladder := ladder
  session := HandshakeRole.put a.session starter.other st
  read := i :: a.read

section
variable {S : Suite} {pair : Pair} {c : Crossing} {starter : HandshakeRole} {k k' : KeyPair}

/-- Nothing has been posted when a session is started. -/
theorem known_strand (h : c.Fits S pair) (hS : S.Lawful) (hk : k.Proper S) (hk' : k'.Proper S)
    (ne : k'.publicKey ≠ c.signedKey starter) :
    (c.strand S starter k k').Known S c starter [] := by
  have own : (c.store (starter.roleOf .initiator)).identity.Proper S := by
    have own := (h.backed starter.other).proper
    rw [other_other] at own
    cases starter <;> exact own
  have fits : (c.beginning starter k k').Fits S := Meeting.fits h.backed_roleOf own hk hk' ne
  have identity : c.identity
      = fun side => (c.beginning starter k k').identity (starter.roleOf side) := by
    funext side
    cases starter <;> cases side <;> rfl
  have own : (c.strand S starter k k').session starter
      = (c.beginning starter k k').session S .initiator :=
    congrArg ((c.beginning starter k k').session S) (roleOf_self starter)
  have other : (c.strand S starter k k').session starter.other
      = (c.beginning starter k k').session S .responder :=
    congrArg ((c.beginning starter k k').session S) (roleOf_other starter)
  refine { known := ?known, told := nofun, few := ?few, lone := ?lone, named := ?named
           pending := own ▸ rfl, silent := other ▸ rfl, introduced := ?introduced
           registered := own ▸ rfl }
  case known =>
    rw [identity]
    exact (fits.correspondence hS fun _ _ => False).roleOf starter _
  case few =>
    intro side d hd
    replace hd : ((c.beginning starter k k').session S (starter.roleOf side)).senderChain
        = some d := hd
    generalize starter.roleOf side = role at hd
    cases role <;> cases hd <;> exact Nat.le_refl _
  case lone =>
    have ladder : (c.strand S starter k k').ladder starter
        = (c.beginning starter k k').ladder S .initiator :=
      congrArg ((c.beginning starter k k').ladder S) (roleOf_self starter)
    rw [ladder]
    rfl
  case named => exact fun side => fits.session_isFor _
  case introduced =>
    cases starter <;> rfl

variable {a : Strand} {thread : List Posted} {plain : Bytes} {message : Message}
  {st : SessionState} {e : Entropy} {i : Nat} {p : Posted}

/-- The starter posts another message. -/
theorem Known.said (h : a.Known S c starter thread)
    (sent : (a.session starter).encrypt S plain = .ok (message, st)) :
    (a.said starter st).Known S c starter (thread ++ [⟨starter, plain, message⟩]) := by
  obtain ⟨-, m, wrapped, -, d, d', hd, -, same, next⟩ := h.known.lockstep.encrypt sent
  refine { known := h.known.posts sent, told := ?told, few := ?few, lone := h.lone, named := ?named
           pending := ?pending, silent := ?silent, introduced := h.introduced
           registered := ?registered }
  case told =>
    intro p hp
    rcases List.mem_append.mp hp with old | new
    · exact h.told p old
    · obtain rfl := List.mem_singleton.mp new
      unfold SessionState.encrypt.wrap at wrapped
      rw [h.pending] at wrapped
      refine ⟨_, wrapped, (h.known.lockstep.stands starter).sound.version, ?_⟩
      unfold PreKeyMessage.hello PreKeyMessage.make
      dsimp only
      rw [h.registered, ← h.introduced]
      rfl
  case few =>
    rw [List.length_append]
    refine forall_put (P := fun _ (st : SessionState) => ∀ d, st.senderChain = some d →
      d.chainKey.index.toNat ≤ thread.length + 1) _ _ _ ?_ fun d hd => ?_
    · -- its chain has moved on by one
      intro d'' hd''
      rw [same] at hd''
      cases hd''
      have before := h.few starter _ hd
      dsimp only at before ⊢
      omega
    · exact Nat.le_succ_of_le (h.few _ d hd)
  case named =>
    refine forall_put (P := fun _ (st : SessionState) =>
      st.isFor currentVersion a.hello.baseKey.transmitted) _ _ _ ?_ (h.named _)
    rw [(Evolves.sent sent).isFor_eq]
    exact h.named starter
  case pending =>
    dsimp only [Strand.said]
    rw [put_self, same]
    exact h.pending
  case silent =>
    dsimp only [Strand.said]
    rw [put_other]
    exact h.silent
  case registered =>
    dsimp only [Strand.said]
    rw [put_self, same]
    exact h.registered

/-- There is room for the skipped keys of all numbers of the one chain that the starter has had. -/
theorem Known.room (h : a.Known S c starter thread) (short : thread.length ≤ 2000)
    {window : Window ChainKey MessageKeys} (hw : (a.session starter.other).window?
      (a.ladder starter).top.key.publicKey = some window) (n : UInt32) :
    ¬window.Crowded (ChainKey.rule S) n := by
  intro crowded
  obtain ⟨-, d, hd, -⟩ := (h.known.lockstep.stands starter).sender
  have sent : d.index.toNat ≤ thread.length := h.few _ _ hd
  have ordered := (h.known.lockstep.stands starter.other).sound.ordered_window hw
  have far : n.toNat + limits.skippedKeys < window.chain.index.toNat :=
    ordered.lt_of_crowded crowded
  have behind := UInt32.le_iff_toNat_le.mp (h.known.behind starter _ window hd hw)
  have kept : limits.skippedKeys = 2000 := rfl
  dsimp only at behind
  omega

/-- The other side has read a message. -/
theorem Known.heard (h : a.Known S c starter thread) {m : RatchetMessage} {e' : Entropy}
    {ladder' : HandshakeRole → Ladder}
    (ran : ((a.session starter.other).decrypt S m).run e = (.ok (plain, st), e'))
    (known : Correspondence S c.identity ladder' (put a.session starter.other st) thread
      (i :: a.read) fun _ _ => False)
    (climbs : Climbs S starter e e' a.ladder ladder') :
    (a.heard starter ladder' i st).Known S c starter thread := by
  refine { known, told := h.told, few := ?few, lone := ?lone, named := ?named, pending := ?pending
           silent := ?silent, introduced := h.introduced, registered := ?registered }
  case few =>
    refine forall_put (P := fun _ (st : SessionState) => ∀ d, st.senderChain = some d →
      d.chainKey.index.toNat ≤ thread.length) _ _ _ (fun d hd => ?_) fun d hd => ?_
    · rcases SessionState.senderChain_decrypt ran with same | ⟨-, chain, new, zero⟩
      · exact h.few _ d (same ▸ hd)
      · -- nothing has been sent with the new chain
        rw [new] at hd
        cases hd
        rw [zero]
        exact Nat.zero_le _
    · rw [other_other] at hd
      exact h.few _ d hd
  case lone =>
    dsimp only [Strand.heard]
    rcases climbs with rfl | ⟨-, rfl⟩
    · exact h.lone
    · rw [put_at_other]
      exact h.lone
  case named =>
    refine forall_put (P := fun _ (st : SessionState) =>
      st.isFor currentVersion a.hello.baseKey.transmitted) _ _ _ ?_ (h.named _)
    rw [(Evolves.opened ran).isFor_eq]
    exact h.named _
  case pending =>
    dsimp only [Strand.heard]
    rw [put_at_other]
    exact h.pending
  case silent =>
    dsimp only [Strand.heard]
    rw [put_self]
    exact SessionState.pending_decrypt ran
  case registered =>
    dsimp only [Strand.heard]
    rw [put_at_other]
    exact h.registered

/-- As long as no more than 2000 messages have been posted, the other side reads any of them that it
has not read before. -/
theorem Known.hears (h : a.Known S c starter thread) (hS : S.Lawful) (alive : e.dead = false)
    (short : thread.length ≤ 2000) (hp : thread[i]? = some p) (sender : p.sender = starter)
    (unread : i ∉ a.read) :
    ∃ m st e', p.message = .preKey m ∧ m.version = currentVersion ∧ m.hello = a.hello ∧
      ((a.session starter.other).decrypt S m.message).run e = (.ok (p.plain, st), e') ∧
      ((e' = e.advance 32 →
          (S.nextKeyPair e).publicKey ∉ (a.ladder starter).rungs.map (·.key.publicKey)) →
        ∃ ladder', (a.heard starter ladder' i st).Known S c starter thread ∧
          Climbs S starter e e' a.ladder ladder') := by
  obtain rfl := sender
  have mem := List.mem_of_getElem? hp
  obtain ⟨m, hm, version, hello⟩ := h.told p mem
  have inner : p.message.inner? = some m.message := by
    rw [hm]
    rfl
  obtain ⟨r, hr, gives⟩ := h.known.given mem inner
  rw [h.lone] at hr
  obtain rfl := List.mem_singleton.mp hr
  -- the message is on the one chain that its sender has had, and so is all that has been passed over
  obtain ⟨-, d, hd, -⟩ := (h.known.lockstep.stands p.sender).sender
  have sent : d.index.toNat ≤ thread.length := h.few _ _ hd
  have key : m.message.ratchetKey = (a.ladder p.sender).top.key.publicKey := gives.ratchetKey
  have counter := UInt32.lt_iff_toNat_lt.mp (h.known.counted p mem _ _ inner hd key)
  have near : m.message.counter.toNat ≤
      ((a.session p.sender.other).window? m.message.ratchetKey).elim 0 (·.chain.index.toNat)
        + limits.forwardJump := by
    have jump : limits.forwardJump = 2000 := rfl
    dsimp only at counter
    omega
  have there : m.message.ratchetKey ∈ (a.ladder p.sender.other).heard.map (·.key.publicKey) →
      (a.session p.sender.other).window? m.message.ratchetKey ≠ none := by
    rw [key]
    exact h.known.lockstep.window?_top
  have room : ∀ window, (a.session p.sender.other).window? m.message.ratchetKey = some window →
      ∀ n, ¬window.Crowded (ChainKey.rule S) n := by
    rw [key]
    exact fun window hw => h.room short hw
  obtain ⟨st, e', ran⟩ := h.known.reads hS alive hp unread inner near there
    (fun window hw => room window hw _) id
  refine ⟨m, st, e', hm, version, hello, ran, fun fresh => ?_⟩
  obtain ⟨-, ladder', known, climbs⟩ := h.known.reading hS alive hp inner ran fresh there
    fun window hw m' _ crowded => room window hw _ crowded
  exact ⟨ladder', h.heard ran known climbs, climbs⟩

/-- After so few messages no chain is at its last number. -/
theorem Known.sends (h : a.Known S c starter thread) (short : thread.length ≤ 2000)
    (side : HandshakeRole) (plain : Bytes) :
    ∃ message st, (a.session side).encrypt S plain = .ok (message, st) := by
  have lockstep := h.known.lockstep
  obtain ⟨-, d, hd, -⟩ := (lockstep.stands side).sender
  refine SessionState.encrypt_of_ne (lockstep.remote_eq side) (lockstep.local_eq side) hd ?_ plain
  intro last
  have sent := h.few side _ hd
  dsimp only at last sent
  rw [last] at sent
  exact absurd (Nat.le_trans sent short) (by decide)

/-- Once what is on the way is lost, the two sides are abreast. -/
theorem Known.abreast (h : a.Known S c starter thread) (short : thread.length ≤ 2000) :
    Abreast S c.identity a.ladder a.session where
  known := h.known.forget _
  near := by
    intro role d hd
    have sent := h.few role d hd
    have jump : limits.forwardJump = 2000 := rfl
    omega

end

end Strand

end DoubleRatchet
