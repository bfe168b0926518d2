/-
DoubleRatchet/Proofs/Crossing.lean

Two members start sessions with each other at the same time.

Both start a session and post with it before anything arrives (`Crossing.after`).  Then
what they have posted is delivered, some of it and in any order.  As long as nobody posts
with the session that the other one has started, the two strands do not touch, except
that a member who hears of the other strand puts it in front of its own
(`Exchange.Crossed`):

    one member      [own]   or   [other, own]
    the other       [own]   or   [other, own]

Every message is read when it first comes, whatever else has been read or lost before
(`Crossed.hears`).
-/
import DoubleRatchet.Proofs.Strands

namespace DoubleRatchet

open HandshakeRole

/-! ### Overtures -/

/-- What a member does before anything arrives. -/
inductive Overture where
  /-- It starts a session with the other one. -/
  | start (role : HandshakeRole)
  | post (sender : HandshakeRole) (plain : Bytes)

/-- What both members post. -/
def Overture.letters (overtures : List Overture) : List (HandshakeRole × Bytes) :=
  overtures.filterMap fun
    | start _ => none
    | post sender plain => some (sender, plain)

/-- Both members start one session, and post only then. -/
def Overture.Orderly (started : HandshakeRole → Bool) : List Overture → Prop
  | [] => ∀ role, started role
  | start role :: rest => started role = false ∧ Orderly (put started role true) rest
  | post sender _ :: rest => started sender ∧ Orderly started rest

section
variable (S : Suite) (pair : Pair) (c : Crossing)

namespace Crossing

/-- The exchange after an overture. -/
def step (x : Exchange) : Overture → Exchange
  | .start role =>
    { x with
      world := (x.world.perform pair role (startSession S (pair.peer role) (c.bundle role))).2
      past := x.world :: x.past }
  | .post sender plain => x.step S pair (.post sender plain)

/-- The exchange after some overtures. -/
def after (x : Exchange) (overtures : List Overture) : Exchange := overtures.foldl (step S pair c) x

end Crossing

/-- In all these moves every message that is delivered is read as what was posted. -/
def Exchange.Hears (x : Exchange) : List Move → Prop
  | [] => True
  | move :: moves =>
    (∀ p ∈ x.due? move, (x.delivery S pair p).1 = .ok p.plain) ∧
      Hears (x.step S pair move) moves

end

/-! ### What has been posted, and what is stored -/

/-- What both members have posted, in plain. -/
def Exchange.letters (x : Exchange) : List (HandshakeRole × Bytes) :=
  x.posted.map fun p => (p.sender, p.plain)

/-- What one of the members has posted. -/
def Exchange.thread (x : Exchange) (sender : HandshakeRole) : List Posted :=
  x.posted.filter (·.sender = sender)

/-- A member has posted one more message. -/
theorem Exchange.thread_append {x y : Exchange} {p : Posted} (h : y.posted = x.posted ++ [p])
    (sender : HandshakeRole) :
    y.thread sender = x.thread sender ++ if p.sender = sender then [p] else [] := by
  rw [thread, h, List.filter_append, thread]
  by_cases same : p.sender = sender <;> simp [same]

/-- The sessions that a member has: its own one, and in front of it that of the other member once it
has heard of it. -/
def sessionsOf (own theirs : SessionState) : (heard : Bool) → List SessionState
  | true => [theirs, own]
  | false => [own]

section
variable (S : Suite) (pair : Pair) (c : Crossing)

/-- What a member has stored, that may have started a session of its own and heard of another one.
There may be older sessions. -/
structure Crossing.Keeps (role : HandshakeRole) (s : Store) (own theirs : SessionState)
    (started heard : Bool) : Prop where
  idle : started = false → s = c.store role
  stored : started → ∃ older, older ⊆ (c.store role).sessionsWith (pair.peer role) ∧
    s.Has (pair.peer role) (c.identity role.other) (sessionsOf own theirs heard ++ older)
  /-- If it has not heard of the other session it still has the keys of all handshakes. -/
  spared : heard = false → ∀ hello st, (c.store role).Welcomes S hello st → s.Welcomes S hello st

/-- What has become of a strand that has been started, and may have been heard of. -/
structure Exchange.Carries (start : Entropy) (x : Exchange) (e : Entropy) (starter : HandshakeRole)
    (a : Strand) (heard : Bool) : Prop where
  known : a.Known S c starter (x.thread starter)
  /-- What has been read in the strand has been read in the exchange. -/
  numbered : ∀ i ∈ a.read, ∃ n ∈ x.read, ∃ p, x.posted[n]? = some p ∧
    (x.thread starter)[i]? = some p
  welcome : heard = false →
    (c.store starter.other).Welcomes S a.hello (a.session starter.other)
  base : a.hello.baseKey ∈ S.publicKeys start e
  keys : ∀ side, ∀ r ∈ (a.ladder side).rungs,
    r.key.publicKey ∈ c.signedKey starter :: S.publicKeys start e

/-- Some members have started a session with the other one, and some have heard of the other one's.
Nothing else has been posted. -/
structure Exchange.Crossed (start : Entropy) (x : Exchange) (store : HandshakeRole → Store)
    (strand : HandshakeRole → Strand) (started heard : HandshakeRole → Bool) (e : Entropy) :
    Prop where
  shows : x.world.Shows pair store e
  alive : e.dead = false
  drawn : start.Before e
  idle : ∀ role, started role = false → x.thread role = []
  carries : ∀ role, started role → x.Carries S c start e role (strand role) (heard role.other)
  keeps : ∀ role, c.Keeps S pair role (store role) ((strand role).session role)
    ((strand role.other).session role) (started role) (heard role)
  apart : ∀ role, started role → started role.other → (strand role).Apart (strand role.other)

end

section
variable {S : Suite} {pair : Pair} {c : Crossing} {start e e' : Entropy} {x y : Exchange}
  {role starter : HandshakeRole} {s : Store} {own theirs st : SessionState} {a b : Strand}
  {heard : Bool} {plain : Bytes} {message : Message}

/-! ### One member -/

namespace Crossing.Keeps

/-- A session that has not been heard of makes no difference. -/
theorem unheard {started : Bool} (h : c.Keeps S pair role s own theirs started false)
    (theirs' : SessionState) : c.Keeps S pair role s own theirs' started false :=
  ⟨h.idle, h.stored, h.spared⟩

/-- A member starts a session. -/
theorem starts (h : c.Keeps S pair role s own theirs false false) (fits : c.Fits S pair)
    (alive : e.dead = false) :
    ∃ s', (startSession S (pair.peer role) (c.bundle role)).alone accepting ⟨s, e⟩
        = (.ok (), ⟨s', (e.advance 32).advance 32⟩) ∧
      ∀ theirs', c.Keeps S pair role s'
        ((c.strand S role (S.nextKeyPair e) (S.nextKeyPair (e.advance 32))).session role) theirs'
        true false := by
  obtain rfl := h.idle rfl
  obtain ⟨record, ran, has⟩ := startSession_has (S := S) (s := ⟨c.store role, e⟩)
    (fits.settled role) (fits.trusted role) (fits.valid role) alive
  rw [(fits.backed role).identity_eq] at has
  refine ⟨_, ran, fun theirs' => ⟨nofun, fun _ => ⟨_, List.take_subset limits.archivedSessions _,
    ?_⟩, fun _ _ _ => id⟩⟩
  rw [greet_strand, (fits.backed role).identity_eq]
  exact has

end Crossing.Keeps

/-! ### One strand -/

namespace Exchange.Carries

/-- What others post, and what is read, is nothing to a strand. -/
theorem later (h : x.Carries S c start e starter a heard) (drawn : start.Before e)
    (before : e.Before e') (thread : y.thread starter = x.thread starter) {more : List Posted}
    (posted : y.posted = x.posted ++ more) (read : x.read ⊆ y.read) :
    y.Carries S c start e' starter a heard where
  known := thread ▸ h.known
  numbered i hi := by
    obtain ⟨n, hn, p, hp, hi⟩ := h.numbered i hi
    refine ⟨n, read hn, p, ?_, thread ▸ hi⟩
    rw [posted, List.getElem?_append_left (List.getElem?_eq_some_iff.mp hp).1]
    exact hp
  welcome := h.welcome
  base := (Suite.publicKeys_prefix drawn before).subset h.base
  keys side r hr := Suite.mem_publicKeys drawn before (h.keys side r hr)

/-- A session is started. -/
theorem starts (fits : c.Fits S pair) (hS : S.Lawful) (empty : x.thread starter = [])
    {k k' : KeyPair} (hk : k.Proper S) (hk' : k'.Proper S) (ne : k'.publicKey ≠ c.signedKey starter)
    (base : k.publicKey ∈ S.publicKeys start e) (key : k'.publicKey ∈ S.publicKeys start e) :
    x.Carries S c start e starter (c.strand S starter k k') heard where
  known := empty ▸ Strand.known_strand fits hS hk hk' ne
  numbered := nofun
  welcome _ := Crossing.welcome_strand fits
  base
  keys side r hr := by
    rcases Crossing.key_strand hr with same | same
    · exact same ▸ List.mem_cons_self
    · exact same ▸ List.mem_cons_of_mem _ key

/-- The starter posts in its strand. -/
theorem posts (h : x.Carries S c start e starter a heard)
    (sent : (a.session starter).encrypt S plain = .ok (message, st))
    (posted : y.posted = x.posted ++ [⟨starter, plain, message⟩]) (read : y.read = x.read) :
    y.Carries S c start e starter (a.said starter st) heard where
  known := by
    rw [thread_append posted, if_pos rfl]
    exact h.known.said sent
  numbered i hi := by
    obtain ⟨n, hn, p, hp, hi⟩ := h.numbered i hi
    refine ⟨n, read ▸ hn, p, ?_, ?_⟩
    · rw [posted, List.getElem?_append_left (List.getElem?_eq_some_iff.mp hp).1]
      exact hp
    · rw [thread_append posted, List.getElem?_append_left (List.getElem?_eq_some_iff.mp hi).1]
      exact hi
  welcome new := by
    dsimp only [Strand.said]
    rw [put_other]
    exact h.welcome new
  base := h.base
  keys := h.keys

/-- The other member reads a message of the strand. -/
theorem reads (h : x.Carries S c start e starter a heard) (drawn : start.Before e)
    (before : e.Before e') (posted : y.posted = x.posted) {n i : Nat} {p : Posted}
    (read : y.read = n :: x.read) (hp : x.posted[n]? = some p)
    (hi : (x.thread starter)[i]? = some p) {ladder' : HandshakeRole → Ladder}
    (known : (a.heard starter ladder' i st).Known S c starter (x.thread starter))
    (climbs : Climbs S starter e e' a.ladder ladder') :
    y.Carries S c start e' starter (a.heard starter ladder' i st) true := by
  have thread : y.thread starter = x.thread starter := by rw [thread, posted, thread]
  refine { known := thread ▸ known, numbered := ?numbered, welcome := nofun, base := ?base
           keys := ?keys }
  case numbered =>
    rw [thread, posted, read]
    intro i' hi'
    rcases List.mem_cons.mp hi' with rfl | hi'
    · exact ⟨n, List.mem_cons_self, p, hp, hi⟩
    · obtain ⟨n', hn', there⟩ := h.numbered i' hi'
      exact ⟨n', List.mem_cons_of_mem _ hn', there⟩
  case base => exact (Suite.publicKeys_prefix drawn before).subset h.base
  case keys =>
    intro side r hr
    rcases climbs.rung hr with ⟨side', old⟩ | ⟨turned, new⟩
    · exact Suite.mem_publicKeys drawn before (h.keys side' r old)
    · rw [turned, Suite.publicKeys_advance drawn, new]
      exact List.mem_cons_of_mem _ (List.mem_append_right _ List.mem_cons_self)

/-- A message that has not been read in the exchange has not been read in its strand. -/
theorem unread {p : Posted} (h : x.Carries S c start e p.sender a heard) {n : Nat}
    (hp : x.posted[n]? = some p) (unread : n ∉ x.read) :
    ∃ i, (x.thread p.sender)[i]? = some p ∧ i ∉ a.read := by
  have there : p ∈ x.thread p.sender :=
    List.mem_filter.mpr ⟨List.mem_of_getElem? hp, by simp⟩
  obtain ⟨i, hi⟩ := List.getElem?_of_mem there
  refine ⟨i, hi, fun old => ?_⟩
  obtain ⟨n', hn', p', hp', hi'⟩ := h.numbered i old
  rw [hi] at hi'
  cases hi'
  -- it would stand at two places, and have been made twice with one number
  obtain ⟨m, hm, -⟩ := h.known.known.made p there
  have unique := h.known.known.unique
  rw [thread, List.pairwise_filter, List.pairwise_iff_getElem] at unique
  have ne : n ≠ n' := by
    rintro rfl
    exact unread hn'
  obtain ⟨hn, eq⟩ := List.getElem?_eq_some_iff.mp hp
  obtain ⟨hn', eq'⟩ := List.getElem?_eq_some_iff.mp hp'
  have once : ∀ i j (hi : i < x.posted.length) (hj : j < x.posted.length), x.posted[i] = p →
      x.posted[j] = p → ¬i < j := by
    intro i j hi hj eqi eqj less
    have differ := unique i j hi hj less (by simp [eqi]) (by simp [eqj])
    rw [eqi, eqj] at differ
    exact differ rfl m m hm hm rfl rfl
  rcases Nat.lt_or_gt_of_ne ne with less | greater
  · exact once n n' hn hn' eq eq' less
  · exact once n' n hn' hn eq' eq greater

/-- A strand that is started is apart from one that is there already. -/
theorem apart_strand (h : x.Carries S c start e role.other b heard) (drawn : start.Before e)
    (fresh : c.Fresh S pair start ((e.advance 32).advance 32)) :
    (c.strand S role (S.nextKeyPair e) (S.nextKeyPair (e.advance 32))).Apart b := by
  have between : start.Before (e.advance 32) := drawn.trans (.one e)
  have unmade := (fresh.until between (.one _)).not_mem drawn
  have unmade' := fresh.not_mem between
  refine ⟨fun same => ?_, fun side side' r hr r' hr' same => ?_⟩
  · refine unmade role (List.mem_cons_of_mem _ ?_)
    have old := h.base
    rw [← same] at old
    exact old
  · have old := h.keys side' r' hr'
    rw [← same] at old
    rcases Crossing.key_strand hr with first | second
    · rw [first] at old
      rcases List.mem_cons.mp old with same | made
      · exact fresh.signed_ne role same
      · refine fresh.signed_not_mem role ?_
        exact (Suite.publicKeys_prefix drawn ((Entropy.Before.one e).trans (.one _))).subset made
    · rw [second] at old
      exact unmade' role.other (Suite.mem_publicKeys drawn (.one e) old)

/-- A strand stays apart from another one when a message of it is read. -/
theorem apart_heard (h : x.Carries S c start e role.other b heard) (drawn : start.Before e)
    (fresh : c.Fresh S pair start e') (apart : a.Apart b) {ladder' : HandshakeRole → Ladder}
    {i : Nat} (climbs : Climbs S role e e' a.ladder ladder') : (a.heard role ladder' i st).Apart b := by
  refine ⟨apart.baseKey, fun side side' r hr r' hr' => ?_⟩
  rcases climbs.rung hr with ⟨side₀, old⟩ | ⟨turned, new⟩
  · exact apart.rungs side₀ side' r old r' hr'
  · subst turned
    rw [new]
    intro same
    exact fresh.not_mem drawn role.other (same ▸ h.keys side' r' hr')

end Exchange.Carries

end

/-! ### Both strands -/

namespace Exchange.Crossed

variable {S : Suite} {pair : Pair} {c : Crossing} {start : Entropy} {x : Exchange}
  {store : HandshakeRole → Store} {strand : HandshakeRole → Strand}
  {started heard : HandshakeRole → Bool} {e : Entropy} {role : HandshakeRole}

/-! #### Overtures -/

/-- Nobody has started anything yet. -/
theorem nothing {w : World} (shows : w.Shows pair c.store start) (alive : start.dead = false)
    (strand : HandshakeRole → Strand) :
    Crossed S pair c start { world := w } c.store strand (fun _ => false) (fun _ => false)
      start where
  shows
  alive
  drawn := .refl _
  idle _ _ := rfl
  carries := nofun
  keeps _ := ⟨fun _ => rfl, nofun, fun _ _ _ => id⟩
  apart := nofun

/-- A member starts its session. -/
theorem start_step (h : Crossed S pair c start x store strand started (fun _ => false) e)
    (fits : c.Fits S pair) (hS : S.Lawful) (new : started role = false)
    (fresh : c.Fresh S pair start (c.step S pair x (.start role)).world.entropy) :
    ∃ store' strand' e', Crossed S pair c start (c.step S pair x (.start role)) store' strand'
      (put started role true) (fun _ => false) e' := by
  have keeps := h.keeps role
  rw [new] at keeps
  obtain ⟨s', ran, keeps'⟩ := keeps.starts fits h.alive
  obtain ⟨-, shows⟩ :=
    h.shows.perform (sequential_startSession S (pair.peer role) (c.bundle role)) role
  rw [ran] at shows
  have now : (c.step S pair x (.start role)).world.entropy = (e.advance 32).advance 32 :=
    shows.entropy_eq
  rw [now] at fresh
  have between : start.Before (e.advance 32) := h.drawn.trans (.one e)
  have before : e.Before ((e.advance 32).advance 32) := (Entropy.Before.one e).trans (.one _)
  have keys : S.publicKeys start ((e.advance 32).advance 32) = S.publicKeys start e
      ++ [(S.nextKeyPair e).publicKey] ++ [(S.nextKeyPair (e.advance 32)).publicKey] := by
    rw [Suite.publicKeys_advance between, Suite.publicKeys_advance h.drawn]
  refine ⟨_, put strand role (c.strand S role (S.nextKeyPair e) (S.nextKeyPair (e.advance 32))),
    (e.advance 32).advance 32, { shows, alive := h.alive, drawn := h.drawn.trans before
                                 idle := ?idle, carries := ?carries, keeps := ?keeps
                                 apart := ?apart }⟩
  case idle =>
    intro side
    rcases eq_or_eq_other role side with rfl | rfl
    · rw [put_self]
      exact nofun
    · rw [put_other]
      exact h.idle _
  case carries =>
    intro side begun
    rcases eq_or_eq_other role side with rfl | rfl
    · rw [put_self]
      refine Carries.starts fits hS ?_ (S.proper_nextKeyPair _) (S.proper_nextKeyPair _)
        (fun same => List.mem_cons.not.mp (fresh.not_mem between side) (.inl same)) ?_ ?_
      · exact h.idle side new
      · rw [keys]
        exact List.mem_append_left _ (List.mem_append_right _ List.mem_cons_self)
      · rw [keys]
        exact List.mem_append_right _ List.mem_cons_self
    · rw [put_other] at begun ⊢
      exact (h.carries _ begun).later h.drawn before rfl (List.append_nil _).symm
        (List.Subset.refl _)
  case keeps =>
    intro side
    rcases eq_or_eq_other role side with rfl | rfl
    · rw [put_self, put_self, put_self]
      exact keeps' _
    · rw [put_other, put_other, put_other]
      exact (h.keeps _).unheard _
  case apart =>
    intro side begun begun'
    refine Strand.Apart.put (Carries.apart_strand (h.carries role.other ?_) h.drawn fresh) side
    rcases eq_or_eq_other role side with rfl | rfl
    · rw [put_other] at begun'
      exact begun'
    · rw [put_other] at begun
      exact begun

/-- A member posts in its own strand. -/
theorem post_step (h : Crossed S pair c start x store strand started (fun _ => false) e)
    (begun : started role) (short : (x.thread role).length ≤ 2000) (plain : Bytes) :
    ∃ store' message st, (x.step S pair (.post role plain)).posted
        = x.posted ++ [⟨role, plain, message⟩] ∧
      Crossed S pair c start (x.step S pair (.post role plain)) store'
        (put strand role ((strand role).said role st)) started (fun _ => false) e := by
  have carries := h.carries role begun
  obtain ⟨message, st, sent⟩ := carries.known.sends short role plain
  obtain ⟨older, sub, has⟩ := (h.keeps role).stored begun
  obtain ⟨record, shows, has', posted, read⟩ :=
    Store.Has.step_post h.shows has (carries.known.known.lockstep.remote_eq role) sent
  have others : (x.step S pair (.post role plain)).thread role.other = x.thread role.other := by
    rw [thread_append posted, if_neg (ne_other role), List.append_nil]
  refine ⟨_, message, st, posted, { shows, alive := h.alive, drawn := h.drawn, idle := ?idle
                                    carries := ?carries, keeps := ?keeps, apart := ?apart }⟩
  case idle =>
    intro side
    rcases eq_or_eq_other role side with rfl | rfl
    · rw [begun]
      exact nofun
    · rw [others]
      exact h.idle _
  case carries =>
    intro side begun
    rcases eq_or_eq_other role side with rfl | rfl
    · rw [put_self]
      exact carries.posts sent posted read
    · rw [put_other]
      exact (h.carries _ begun).later h.drawn (.refl e) others posted (read ▸ List.Subset.refl _)
  case keeps =>
    intro side
    rcases eq_or_eq_other role side with rfl | rfl
    · rw [put_self, put_self, Strand.said]
      dsimp only
      rw [put_self]
      exact ⟨fun new => absurd begun (by rw [new]; exact Bool.false_ne_true),
        fun _ => ⟨older, sub, has'⟩, (h.keeps side).spared⟩
    · rw [put_other, put_other]
      exact (h.keeps _).unheard _
  case apart =>
    -- neither handshake nor rungs have changed
    intro side begun begun'
    have apart : ((strand role).said role st).Apart (strand role.other) := by
      rcases eq_or_eq_other role side with rfl | rfl
      · exact ⟨(h.apart _ begun begun').baseKey, (h.apart _ begun begun').rungs⟩
      · rw [other_other] at begun'
        exact ⟨(h.apart _ begun' begun).baseKey, (h.apart _ begun' begun).rungs⟩
    exact apart.put side

/-! #### Deliveries -/

/-- The session of one strand is not named after the base key of the other one. -/
theorem not_isFor (h : Crossed S pair c start x store strand started heard e)
    (both : ∀ role, started role) (side : HandshakeRole) :
    ¬((strand role.other).session side).isFor currentVersion
      (strand role).hello.baseKey.transmitted := by
  intro named
  have own := SessionState.baseKey_of_isFor ((h.carries role.other (both _)).known.named side)
  rw [SessionState.baseKey_of_isFor named] at own
  exact (h.apart role (both _) (both _)).baseKey
    (PublicKey.transmitted_injective (Option.some.inj own))

/-- What tells of the handshake of a strand is offered to its session first, whether that is there
already or not. -/
theorem offers (h : Crossed S pair c start x store strand started heard e)
    (both : ∀ role, started role) (fresh : c.Fresh S pair start e) {m : PreKeyMessage}
    (version : m.version = currentVersion) (hello : m.hello = (strand role).hello) :
    ∃ record older, (store role.other).Offers S (pair.peer role.other) (c.identity role) record
        (.preKey m) m.message ∧
      record.sessions
        = (strand role).session role.other :: (strand role.other).session role.other :: older ∧
      older ⊆ (c.store role.other).sessionsWith (pair.peer role.other) ∧
      record.archive.length ≤ limits.archivedSessions := by
  have carries := h.carries role (both _)
  have keeps := h.keeps role.other
  have same : m.identity = c.identity role := by
    rw [← carries.known.introduced, ← hello]
    rfl
  have name : m.baseKey = (strand role).hello.baseKey := by
    rw [← hello]
    rfl
  obtain ⟨older, sub, has⟩ := keeps.stored (both _)
  rw [other_other] at has
  cases heard_eq : heard role.other with
  | false =>
    rw [heard_eq] at has
    have welcomes := keeps.spared heard_eq _ _ (carries.welcome heard_eq)
    rw [← hello] at welcomes
    obtain ⟨record, offers, sessions, bounded⟩ := has.offers_welcome same welcomes (by
      rw [version, name]
      intro st there
      rcases List.mem_cons.mp there with rfl | old
      · exact h.not_isFor both _
      · exact fresh.unknown _ st (sub old) _ carries.base)
    exact ⟨record, older.take (limits.archivedSessions - 1), offers, sessions,
      fun st there => sub (List.mem_of_mem_take there), bounded⟩
  | true =>
    rw [heard_eq] at has
    obtain ⟨record, stored, sessions, settled⟩ := has.stored
    have knows : record.knows m.version m.baseKey.transmitted := by
      rw [version, name]
      refine List.any_eq_true.mpr ⟨_, ?_, carries.known.named role.other⟩
      show _ ∈ record.sessions
      rw [sessions]
      exact List.mem_cons_self
    refine ⟨record, older, Store.offers_of_stored stored has.isTrusted rfl ?_, sessions, sub,
      settled.bounded⟩
    rintro _ ⟨⟩
    exact ⟨same, knows⟩

/-- Whatever has been read and lost, a message is read when it first comes, and its strand is the
one in front then. -/
theorem hears (h : Crossed S pair c start x store strand started heard e)
    (both : ∀ role, started role) (hS : S.Lawful) (fresh : c.Fresh S pair start e)
    (short : ∀ role, (x.thread role).length ≤ 2000) {n : Nat} {p : Posted}
    (hp : x.posted[n]? = some p) (unread : n ∉ x.read) :
    (x.delivery S pair p).1 = .ok p.plain ∧
      (c.Fresh S pair start (x.step S pair (.deliver n)).world.entropy →
        ∃ store' strand' e', Crossed S pair c start (x.step S pair (.deliver n)) store' strand'
          started (put heard p.sender.other true) e') := by
  have carries := h.carries p.sender (both _)
  obtain ⟨i, hi, new⟩ := carries.unread hp unread
  obtain ⟨m, st, e', hm, version, hello, ran, heard'⟩ :=
    carries.known.hears hS h.alive (short _) hi rfl new
  obtain ⟨record, older, offers, sessions, sub, bounded⟩ := h.offers both fresh version hello
  have remote := (Evolves.opened ran).remoteIdentity_eq.trans
    (carries.known.known.lockstep.remote_eq p.sender.other)
  rw [other_other] at remote
  have first : record.sessions = [] ++ (strand p.sender).session p.sender.other :: _ := sessions
  obtain ⟨store', read, has⟩ :=
    Store.Offers.read_front (s := ⟨_, e⟩) offers first bounded (.nil _) ran remote
  rw [← hm] at read
  obtain ⟨outcome, world, shows, same⟩ := Exchange.step_deliver_ok h.shows hp read
  refine ⟨outcome, fun fresh' => ?_⟩
  have before := ((strand p.sender).session p.sender.other).before_decrypt (S := S) m.message e
  rw [ran] at before
  rw [same] at fresh' ⊢
  rw [shows.entropy_eq] at fresh'
  obtain ⟨ladder', known', climbs⟩ := heard' (by
    -- a key that has been drawn for the answer is a new one
    rintro rfl old
    obtain ⟨r, hr, same⟩ := List.mem_map.mp old
    exact fresh'.not_mem h.drawn p.sender (same ▸ carries.keys _ r hr))
  refine ⟨_, put strand p.sender ((strand p.sender).heard p.sender ladder' i st), e', {
    shows, alive := before.dead_eq.trans h.alive, drawn := h.drawn.trans before
    idle := fun role new => absurd (both role) (by rw [new]; exact Bool.false_ne_true)
    carries := ?carries, keeps := ?keeps, apart := fun role _ _ => Strand.Apart.put ?apart role }⟩
  case carries =>
    intro role begun
    rcases eq_or_eq_other p.sender role with rfl | rfl
    · rw [put_self, put_self]
      refine carries.reads h.drawn before ?_ ?_ hp hi known' climbs <;> rfl
    · rw [put_other, other_other, put_at_other]
      have others := h.carries _ begun
      rw [other_other] at others
      exact others.later h.drawn before rfl (List.append_nil _).symm (List.subset_cons_self _ _)
  case keeps =>
    intro role
    rcases eq_or_eq_other p.sender role with rfl | rfl
    · -- the sender has not changed anything
      rw [put_at_other, put_at_other, put_self, put_other, Strand.heard]
      dsimp only
      rw [put_at_other]
      exact h.keeps _
    · rw [put_self, put_self, put_other, other_other, put_self, Strand.heard]
      dsimp only
      rw [put_self]
      refine ⟨fun new => absurd (both _) (by rw [new]; exact Bool.false_ne_true),
        fun _ => ⟨older, sub, ?_⟩, nofun⟩
      rw [other_other]
      exact has
  case apart =>
    exact (h.carries p.sender.other (both _)).apart_heard h.drawn fresh'
      (h.apart p.sender (both _) (both _)) climbs

/-! #### Runs -/

/-- An overture only draws from the source. -/
theorem shows_overture (shows : x.world.Shows pair store e) (overture : Overture) :
    ∃ store' e', (c.step S pair x overture).world.Shows pair store' e' ∧ e.Before e' := by
  cases overture with
  | start role =>
    obtain ⟨-, shows'⟩ :=
      shows.perform (sequential_startSession S (pair.peer role) (c.bundle role)) role
    exact ⟨_, _, shows', before_startSession ..⟩
  | post sender plain => exact Exchange.shows_step shows (.post sender plain)

theorem shows_overtures (shows : x.world.Shows pair store e) (overtures : List Overture) :
    ∃ store' e', (c.after S pair x overtures).world.Shows pair store' e' ∧ e.Before e' := by
  induction overtures generalizing x store e with
  | nil => exact ⟨store, e, shows, .refl e⟩
  | cons overture overtures ih =>
    obtain ⟨store₁, e₁, shows₁, first⟩ := shows_overture (S := S) (c := c) shows overture
    obtain ⟨store₂, e₂, shows₂, rest⟩ := ih shows₁
    exact ⟨store₂, e₂, shows₂, first.trans rest⟩

/-- Once both have made their overtures, all that has been posted is on the way. -/
theorem after_overtures (h : Crossed S pair c start x store strand started (fun _ => false) e)
    (fits : c.Fits S pair) (hS : S.Lawful) {overtures : List Overture}
    (orderly : Overture.Orderly started overtures)
    (short : ∀ role,
      (x.thread role).length + (Overture.letters overtures).countP (·.1 = role) ≤ 2000)
    (fresh : c.Fresh S pair start (c.after S pair x overtures).world.entropy) :
    ∃ store' strand' e', Crossed S pair c start (c.after S pair x overtures) store' strand'
        (fun _ => true) (fun _ => false) e' ∧
      (∀ role, ((c.after S pair x overtures).thread role).length ≤ 2000) ∧
      (c.after S pair x overtures).read = x.read ∧
      (c.after S pair x overtures).letters = x.letters ++ Overture.letters overtures := by
  induction overtures generalizing x store strand started e with
  | nil =>
    have both : started = fun _ => true := funext orderly
    rw [both] at h
    exact ⟨store, strand, e, h, short, rfl, (List.append_nil _).symm⟩
  | cons overture overtures ih =>
    -- the keys made by the end begin with those made by now
    obtain ⟨store₁, e₁, shows₁, first⟩ := shows_overture (S := S) (c := c) h.shows overture
    obtain ⟨store₂, e₂, shows₂, rest⟩ := shows_overtures (S := S) (c := c) shows₁ overtures
    have fresh₁ : c.Fresh S pair start (c.step S pair x overture).world.entropy := by
      rw [shows₁.entropy_eq]
      refine fresh.until (h.drawn.trans first) ?_
      show e₁.Before (c.after S pair (c.step S pair x overture) overtures).world.entropy
      rw [shows₂.entropy_eq]
      exact rest
    cases overture with
    | start role =>
      obtain ⟨new, orderly⟩ := orderly
      obtain ⟨_, _, _, crossed⟩ := h.start_step fits hS new fresh₁
      exact ih crossed orderly short fresh
    | post role plain =>
      obtain ⟨begun, orderly⟩ := orderly
      have count : ∀ side, (Overture.letters (.post role plain :: overtures)).countP (·.1 = side)
          = (Overture.letters overtures).countP (·.1 = side) + if role = side then 1 else 0 := by
        intro side
        show ((role, plain) :: Overture.letters overtures).countP _ = _
        rw [List.countP_cons]
        simp
      have before := short role
      rw [count, if_pos rfl] at before
      obtain ⟨_, message, st, posted, crossed⟩ := h.post_step begun (by omega) plain
      have thread : ∀ side, ((x.step S pair (.post role plain)).thread side).length
          = (x.thread side).length + if role = side then 1 else 0 := by
        intro side
        rw [Exchange.thread, posted, List.filter_append, List.length_append, Exchange.thread]
        by_cases here : role = side <;> simp [here]
      obtain ⟨store', strand', e', crossed', short', read, letters⟩ := ih crossed orderly (by
        intro side
        rw [thread]
        have before := short side
        rw [count] at before
        omega) fresh
      refine ⟨store', strand', e', crossed', short', read, letters.trans ?_⟩
      show (x.step S pair (.post role plain)).letters ++ _ = _
      rw [Exchange.letters, posted, List.map_append, List.append_assoc]
      rfl

/-- Whatever is delivered once, in any order, is read. -/
theorem after_deliveries (h : Crossed S pair c start x store strand started heard e)
    (both : ∀ role, started role) (hS : S.Lawful) (short : ∀ role, (x.thread role).length ≤ 2000)
    {numbers : List Nat} (once : numbers.Nodup) (unread : ∀ n ∈ numbers, n ∉ x.read)
    (fresh : c.Fresh S pair start (x.after S pair (numbers.map .deliver)).world.entropy) :
    x.Hears S pair (numbers.map .deliver) ∧
      (∀ role, ((x.after S pair (numbers.map .deliver)).thread role).length ≤ 2000) ∧
      ∃ store' strand' heard' e', Crossed S pair c start (x.after S pair (numbers.map .deliver))
        store' strand' started heard' e' := by
  induction numbers generalizing x store strand heard e with
  | nil => exact ⟨trivial, short, store, strand, heard, e, h⟩
  | cons n numbers ih =>
    rw [List.nodup_cons] at once
    rw [List.forall_mem_cons] at unread
    have fresh₁ : c.Fresh S pair start (x.step S pair (.deliver n)).world.entropy :=
      Crossing.Fresh.first h.shows h.drawn [.deliver n] fresh
    have fresh₀ : c.Fresh S pair start x.world.entropy :=
      Crossing.Fresh.first h.shows h.drawn [] fresh
    rw [h.shows.entropy_eq] at fresh₀
    have short₁ : ∀ role, ((x.step S pair (.deliver n)).thread role).length ≤ 2000 := by
      intro role
      rw [Exchange.thread, Exchange.posted_deliver]
      exact short role
    have unread₁ : ∀ n' ∈ numbers, n' ∉ (x.step S pair (.deliver n)).read := by
      intro n' there read
      rcases Exchange.read_deliver read with rfl | read
      · exact once.1 there
      · exact unread.2 n' there read
    have step : (∀ p ∈ x.posted[n]?, (x.delivery S pair p).1 = .ok p.plain) ∧
        ∃ store' strand' heard' e', Crossed S pair c start (x.step S pair (.deliver n)) store'
          strand' started heard' e' := by
      cases hp : x.posted[n]? with
      | none =>
        have same : x.step S pair (.deliver n) = x := by
          rw [Exchange.step, hp]
        rw [same]
        exact ⟨nofun, store, strand, heard, e, h⟩
      | some p =>
        obtain ⟨read, next⟩ := h.hears both hS fresh₀ short hp unread.1
        obtain ⟨store', strand', e', crossed⟩ := next fresh₁
        refine ⟨?_, store', strand', _, e', crossed⟩
        rintro _ ⟨⟩
        exact read
    obtain ⟨read, _, _, _, _, crossed⟩ := step
    obtain ⟨reads, after⟩ := ih crossed short₁ once.2 unread₁ fresh
    exact ⟨⟨read, reads⟩, after⟩

end Exchange.Crossed

end DoubleRatchet
