/-
DoubleRatchet/Proofs/Exchange.lean

Two members of a world that write to each other.

An `Exchange` is a world, with all that its two members have posted to each other so
far.  A `Move` is one of them posting a message, or the other one being delivered one:
messages may come late, in any order, more than once or not at all.  The worlds of the
past are kept, for it takes them to tell whether something has been there before.

`World.Shows` is all that an operation sees of a world: the stores of both members, and
the random bytes to come.
-/
import DoubleRatchet.Proofs.Lockstep

namespace DoubleRatchet

open HandshakeRole

/-- Two members of a world, and under which address each knows the other. -/
structure Pair where
  member : HandshakeRole → Nat
  peer : HandshakeRole → Address
  distinct : member .initiator ≠ member .responder

theorem Pair.member_other_ne (pair : Pair) (role : HandshakeRole) :
    pair.member role.other ≠ pair.member role := by
  cases role
  · exact Ne.symm pair.distinct
  · exact pair.distinct

/-! ### What members see of a world -/

/-- Nothing goes wrong, and both members have these stores and random bytes. -/
structure World.Shows (w : World) (pair : Pair) (store : HandshakeRole → Store) (e : Entropy) :
    Prop where
  quiet : w.Quiet
  site : ∀ role, w.site? (pair.member role) = some ⟨store role, e⟩

/-- An operation of one member, whose application takes every plaintext. -/
def World.perform {α : Type} (w : World) (pair : Pair) (role : HandshakeRole) (a : Action α) :
    Except Error α × World :=
  (a.perform (pair.member role) fun _ => (pure (.ok ()) : StateM World _)).run w

theorem World.Shows.perform {α : Type} {w : World} {pair : Pair} {store : HandshakeRole → Store}
    {e : Entropy} {a : Action α} (h : w.Shows pair store e) (ha : a.Sequential)
    (role : HandshakeRole) :
    let alone := a.alone accepting ⟨store role, e⟩
    (w.perform pair role a).1 = alone.1 ∧
      (w.perform pair role a).2.Shows pair (put store role alone.2.store) alone.2.entropy := by
  obtain ⟨outcome, changed⟩ := perform_alone accepting ha h.quiet (h.site role)
  refine ⟨outcome, changed.quiet h.quiet, fun side => ?_⟩
  rcases eq_or_eq_other role side with rfl | rfl
  · rw [put_self]
    exact changed.site? (h.site side)
  · rw [put_other]
    exact (changed.site?_of_ne (pair.member_other_ne role)).trans (by rw [h.site]; rfl)

/-- The current session of a member with the other one; an empty one if there is none. -/
def World.session (w : World) (pair : Pair) (role : HandshakeRole) : SessionState :=
  (w.site? (pair.member role)).elim .empty fun s => (s.store.loadSession (pair.peer role)).current

theorem World.Shows.session_eq {w : World} {pair : Pair} {store : HandshakeRole → Store}
    {e : Entropy} (h : w.Shows pair store e) (role : HandshakeRole) :
    w.session pair role = ((store role).loadSession (pair.peer role)).current := by
  rw [World.session, h.site]
  rfl

theorem World.Shows.entropy_eq {w : World} {pair : Pair} {store : HandshakeRole → Store}
    {e : Entropy} (h : w.Shows pair store e) : w.entropy = e := by
  obtain ⟨m, -, same⟩ := World.site?_eq_some (h.site .initiator)
  exact (congrArg Site.entropy same).symm

/-! ### Exchanges -/

/-- A message, with what it was made of. -/
structure Posted where
  sender : HandshakeRole
  plain : Bytes
  message : Message

/-- A world, and what two of its members have posted. -/
structure Exchange where
  world : World
  /-- All messages, in the order in which they were made. -/
  posted : List Posted := []
  /-- The numbers of the messages that have been read. -/
  read : List Nat := []
  /-- The worlds before, newest first. -/
  past : List World := []

/-- What may happen next. -/
inductive Move where
  /-- A member posts a message. -/
  | post (sender : HandshakeRole) (plain : Bytes)
  /-- The message with a number is delivered. -/
  | deliver (number : Nat)

section
variable (S : Suite) (pair : Pair)

/-- What a member does with a message that is delivered, by its type. -/
def Message.read (peer : Address) : Message → Action Bytes
  | .ratchet m => decryptMessage S peer m
  | .preKey m => decryptPreKeyMessage S peer m
  | _ => throw (.noSession peer)

/-- The public keys of the key pairs that are made from one place of a source to another. -/
def Suite.publicKeys (start finish : Entropy) : List PublicKey :=
  (List.range ((finish.position - start.position) / 32)).map fun i =>
    (S.nextKeyPair (start.advance (32 * i))).publicKey

/-- The ratchet keys that a member has started receiver chains for, newest first, as are the
worlds. -/
def chainsStarted (role : HandshakeRole) : List World → List PublicKey
  | [] => []
  | w :: past =>
    ((w.session pair role).receiverChains.map (·.ratchetKey)).reverse.filter
      (· ∉ chainsStarted role past) ++ chainsStarted role past

/-- In one of the worlds a member kept as many keys for greater numbers of the chain as it keeps at
all. -/
def Displaced (worlds : List World) (role : HandshakeRole) (m : RatchetMessage) : Prop :=
  ∃ w ∈ worlds, ∃ window ∈ (w.session pair role).window? m.ratchetKey,
    window.Crowded (ChainKey.rule S) m.counter

instance (worlds : List World) (role : HandshakeRole) (m : RatchetMessage) :
    Decidable (Displaced S pair worlds role m) :=
  inferInstanceAs (Decidable (∃ w ∈ _, ∃ window ∈ _, Window.Crowded ..))

namespace Exchange

/-- What comes of delivering a message. -/
def delivery (e : Exchange) (p : Posted) : Except Error Bytes × World :=
  e.world.perform pair p.sender.other (p.message.read S (pair.peer p.sender.other))

/-- The exchange after a move. -/
def step (e : Exchange) : Move → Exchange
  | .post sender plain =>
    let (outcome, world) := e.world.perform pair sender (encrypt S (pair.peer sender) plain)
    { e with
      world
      posted := match outcome with
        | .ok message => e.posted ++ [⟨sender, plain, message⟩]
        | .error _ => e.posted
      past := e.world :: e.past }
  | .deliver number =>
    match e.posted[number]? with
    | none => e
    | some p =>
      let (outcome, world) := e.delivery S pair p
      { e with
        world
        read := match outcome with
          | .ok _ => number :: e.read
          | .error _ => e.read
        past := e.world :: e.past }

/-- The exchange after some moves. -/
def after (e : Exchange) (moves : List Move) : Exchange := moves.foldl (step S pair) e

/-- Since the receiver chain for the ratchet key as many others have been started as are kept. -/
def Evicted (e : Exchange) (role : HandshakeRole) (theirs : PublicKey) : Prop :=
  theirs ∈ (chainsStarted pair role (e.world :: e.past)).drop limits.receiverChains

instance (e : Exchange) (role : HandshakeRole) (theirs : PublicKey) :
    Decidable (e.Evicted pair role theirs) := inferInstanceAs (Decidable (_ ∈ _))

/-- A message is in time: it is not too far ahead, and neither its receiver chain nor, if it has been
skipped, its key has given way to newer ones. -/
structure InTime (e : Exchange) (role : HandshakeRole) (m : RatchetMessage) : Prop where
  near : m.counter.toNat ≤ (((e.world.session pair role).window? m.ratchetKey).elim 0
    (·.chain.index.toNat)) + limits.forwardJump
  chain : ¬e.Evicted pair role m.ratchetKey
  key : ¬Displaced S pair (e.world :: e.past) role m

instance (e : Exchange) (role : HandshakeRole) (m : RatchetMessage) :
    Decidable (e.InTime S pair role m) :=
  decidable_of_iff (_ ∧ _ ∧ _) ⟨fun h => ⟨h.1, h.2.1, h.2.2⟩, fun h => ⟨h.near, h.chain, h.key⟩⟩

/-- The message that is delivered in a move. -/
def due? (e : Exchange) : Move → Option Posted
  | .post .. => none
  | .deliver number => e.posted[number]?

/-- In no move is a message accepted whose receiver chain has given way: its tag does not hold under
the chain that would be started in its place. -/
def Separate (e : Exchange) : List Move → Prop
  | [] => True
  | move :: moves =>
    (∀ p ∈ e.due? move, ∀ m ∈ p.message.inner?, e.Evicted pair p.sender.other m.ratchetKey →
      ¬(e.world.session pair p.sender.other).Verifies S m) ∧
    Separate (e.step S pair move) moves

/-- In no move is a message delivered whose receiver chain has given way. -/
def Punctual (e : Exchange) : List Move → Prop
  | [] => True
  | move :: moves =>
    (∀ p ∈ e.due? move, ∀ m ∈ p.message.inner?, ¬e.Evicted pair p.sender.other m.ratchetKey) ∧
    Punctual (e.step S pair move) moves

instance decidablePunctual : (e : Exchange) → (moves : List Move) →
    Decidable (e.Punctual S pair moves)
  | _, [] => isTrue trivial
  | e, move :: moves =>
    have := decidablePunctual (e.step S pair move) moves
    inferInstanceAs (Decidable (_ ∧ _))

end Exchange

end

section
variable {S : Suite} {pair : Pair} {store : HandshakeRole → Store} {e start finish : Entropy}

/-! ### Random bytes -/

theorem Suite.publicKeys_advance (h : start.Before e) :
    S.publicKeys start (e.advance 32)
      = S.publicKeys start e ++ [(S.nextKeyPair e).publicKey] := by
  obtain ⟨n, rfl⟩ := h
  have before : (start.advance (32 * n)).position - start.position = 32 * n := by
    show start.position + 32 * n - start.position = 32 * n
    omega
  have after : ((start.advance (32 * n)).advance 32).position - start.position = 32 * (n + 1) := by
    show start.position + 32 * n + 32 - start.position = 32 * (n + 1)
    omega
  unfold publicKeys
  rw [before, after, Nat.mul_div_cancel_left _ (by decide), Nat.mul_div_cancel_left _ (by decide),
    List.range_succ, List.map_append]
  rfl

/-- The keys that are made first stay the first ones. -/
theorem Suite.publicKeys_prefix (h : start.Before e) (more : e.Before finish) :
    S.publicKeys start e <+: S.publicKeys start finish := by
  obtain ⟨n, rfl⟩ := more
  induction n with
  | zero => exact List.prefix_refl _
  | succ n ih =>
    have step : e.advance (32 * (n + 1)) = (e.advance (32 * n)).advance 32 := by
      simp only [Entropy.advance, Nat.mul_add, Nat.add_assoc]
    rw [step, publicKeys_advance (h.trans ⟨n, rfl⟩)]
    exact ih.trans (List.prefix_append _ _)

/-- A key that has been made stays so. -/
theorem Suite.mem_publicKeys (h : start.Before e) (more : e.Before finish) {first key : PublicKey}
    (made : key ∈ first :: S.publicKeys start e) : key ∈ first :: S.publicKeys start finish :=
  (List.Sublist.cons_cons first (Suite.publicKeys_prefix h more).sublist).subset made

/-- Delivering a message to a member is an operation of the member alone. -/
theorem World.Shows.read {w : World} (h : w.Shows pair store e) (role : HandshakeRole)
    (message : Message) :
    let a := message.read S (pair.peer role)
    let alone := a.alone accepting ⟨store role, e⟩
    (w.perform pair role a).1 = alone.1 ∧
      (w.perform pair role a).2.Shows pair (put store role alone.2.store) alone.2.entropy := by
  cases message with
  | ratchet m => exact h.perform (sequential_decryptMessage S _ m) role
  | preKey m => exact h.perform (sequential_decryptPreKeyMessage S _ m) role
  | _ =>
    refine ⟨rfl, ?_⟩
    show w.Shows pair (put store role (store role)) e
    rw [put_same]
    exact h

theorem Message.before_read (message : Message) (peer : Address) (s : Site) :
    s.entropy.Before ((message.read S peer).alone accepting s).2.entropy := by
  cases message with
  | ratchet m => exact before_decryptMessage m s
  | preKey m => exact before_decryptPreKeyMessage m s
  | _ => exact .refl _

/-! ### Receiver chains -/

/-- The ratchet keys that a session has started receiver chains for, newest first, as are its
states. -/
def keysHeard : List SessionState → List PublicKey
  | [] => []
  | st :: past =>
    (st.receiverChains.map (·.ratchetKey)).reverse.filter (· ∉ keysHeard past) ++ keysHeard past

/-- A session has started the receiver chains of its state before, and the ones that are new. -/
theorem keysHeard_cons {st : SessionState} {past : List SessionState} (newer : List PublicKey)
    {older : List PublicKey} (before : keysHeard past = older)
    (now : st.receiverChains.map (·.ratchetKey)
      = ((newer ++ older).take limits.receiverChains).reverse)
    (few : newer.length ≤ limits.receiverChains) (distinct : (newer ++ older).Nodup) :
    keysHeard (st :: past) = newer ++ older := by
  obtain ⟨-, -, apart⟩ := List.nodup_append.mp distinct
  rw [keysHeard, now, List.reverse_reverse, before, List.take_append,
    List.take_of_length_le few, List.filter_append]
  have unknown : newer.filter (· ∉ older) = newer := by
    refine List.filter_eq_self.mpr fun key new => decide_eq_true fun old => ?_
    exact apart key new key old rfl
  have known : (older.take (limits.receiverChains - newer.length)).filter (· ∉ older) = [] := by
    refine List.filter_eq_nil_iff.mpr fun key old => ?_
    simpa using List.mem_of_mem_take old
  rw [unknown, known, List.append_nil]

theorem chainsStarted_eq (role : HandshakeRole) (worlds : List World) :
    chainsStarted pair role worlds = keysHeard (worlds.map (·.session pair role)) := by
  induction worlds with
  | nil => rfl
  | cons w past ih => rw [chainsStarted, ih, List.map_cons, keysHeard]

/-- A member has started the receiver chains of the world before, and the ones that are new. -/
theorem chainsStarted_cons {w : World} {past : List World} {role : HandshakeRole}
    (newer : List PublicKey) {older : List PublicKey}
    (before : chainsStarted pair role past = older)
    (now : (w.session pair role).receiverChains.map (·.ratchetKey)
      = ((newer ++ older).take limits.receiverChains).reverse)
    (few : newer.length ≤ limits.receiverChains) (distinct : (newer ++ older).Nodup) :
    chainsStarted pair role (w :: past) = newer ++ older := by
  rw [chainsStarted_eq] at before ⊢
  exact keysHeard_cons newer before now few distinct

namespace Exchange

variable {x : Exchange}

/-- If nothing comes too late for its receiver chain, nothing can be mistaken. -/
theorem Punctual.separate {moves : List Move} (h : x.Punctual S pair moves) :
    x.Separate S pair moves := by
  induction moves generalizing x with
  | nil => trivial
  | cons move moves ih =>
    refine ⟨fun p hp m hm late => ?_, ih h.2⟩
    exact absurd late (h.1 p hp m hm)

/-- What is sent is posted. -/
theorem step_post_ok (h : x.world.Shows pair store e) {role : HandshakeRole} {plain : Bytes}
    {message : Message} {s' : Site}
    (sent : (encrypt S (pair.peer role) plain).alone accepting ⟨store role, e⟩ = (.ok message, s')) :
    ∃ world, world.Shows pair (put store role s'.store) s'.entropy ∧
      x.step S pair (.post role plain) = { x with
        world, posted := x.posted ++ [⟨role, plain, message⟩], past := x.world :: x.past } := by
  obtain ⟨outcome, shows'⟩ := h.perform (sequential_encrypt S (pair.peer role) plain) role
  rw [sent] at outcome shows'
  refine ⟨_, shows', ?_⟩
  unfold step
  dsimp only
  rw [outcome]

/-- Where nothing is sent nothing is posted. -/
theorem step_post_error (h : x.world.Shows pair store e) {role : HandshakeRole} {plain : Bytes}
    {err : Error}
    (failed : (encrypt S (pair.peer role) plain).alone accepting ⟨store role, e⟩
      = (.error err, ⟨store role, e⟩)) :
    ∃ world, world.Shows pair store e ∧
      x.step S pair (.post role plain) = { x with world, past := x.world :: x.past } := by
  obtain ⟨outcome, shows'⟩ := h.perform (sequential_encrypt S (pair.peer role) plain) role
  rw [failed] at outcome shows'
  dsimp only at shows'
  rw [put_same] at shows'
  refine ⟨_, shows', ?_⟩
  unfold step
  dsimp only
  rw [outcome]

/-- What is read is known to have been read. -/
theorem step_deliver_ok (h : x.world.Shows pair store e) {n : Nat} {p : Posted} {plain : Bytes}
    {s' : Site} (hp : x.posted[n]? = some p)
    (read : (p.message.read S (pair.peer p.sender.other)).alone accepting ⟨store p.sender.other, e⟩
      = (.ok plain, s')) :
    (x.delivery S pair p).1 = .ok plain ∧ ∃ world,
      world.Shows pair (put store p.sender.other s'.store) s'.entropy ∧
      x.step S pair (.deliver n)
        = { x with world, read := n :: x.read, past := x.world :: x.past } := by
  obtain ⟨outcome, shows'⟩ := h.read (S := S) p.sender.other p.message
  rw [read] at outcome shows'
  refine ⟨outcome, _, shows', ?_⟩
  unfold step
  dsimp only
  rw [hp]
  dsimp only
  rw [delivery, outcome]

/-- Delivering posts nothing. -/
theorem posted_deliver (x : Exchange) (n : Nat) :
    (x.step S pair (.deliver n)).posted = x.posted := by
  unfold step
  dsimp only
  split <;> rfl

theorem posted_deliveries (x : Exchange) (numbers : List Nat) :
    (x.after S pair (numbers.map .deliver)).posted = x.posted := by
  induction numbers generalizing x with
  | nil => rfl
  | cons n numbers ih => exact (ih _).trans (posted_deliver x n)

/-- Only what is delivered is read. -/
theorem read_deliver {n n' : Nat} (h : n' ∈ (x.step S pair (.deliver n)).read) :
    n' = n ∨ n' ∈ x.read := by
  unfold step at h
  dsimp only at h
  split at h
  · exact .inr h
  · dsimp only at h
    split at h
    · exact List.mem_cons.mp h
    · exact .inr h

/-- A move only draws from the source. -/
theorem shows_step (h : x.world.Shows pair store e) (move : Move) :
    ∃ store' e', (x.step S pair move).world.Shows pair store' e' ∧ e.Before e' := by
  cases move with
  | post sender plain =>
    have shows' := (h.perform (sequential_encrypt S (pair.peer sender) plain) sender).2
    exact ⟨_, _, shows', before_encrypt plain _⟩
  | deliver number =>
    unfold step
    dsimp only
    cases x.posted[number]? with
    | none => exact ⟨store, e, h, .refl e⟩
    | some p =>
      exact ⟨_, _, (h.read p.sender.other p.message).2, p.message.before_read _ _⟩

theorem shows_after (h : x.world.Shows pair store e) (moves : List Move) :
    ∃ store' e', (x.after S pair moves).world.Shows pair store' e' ∧ e.Before e' := by
  induction moves generalizing x store e with
  | nil => exact ⟨store, e, h, .refl e⟩
  | cons move moves ih =>
    obtain ⟨store₁, e₁, h₁, first⟩ := shows_step (S := S) h move
    obtain ⟨store₂, e₂, h₂, rest⟩ := ih h₁
    exact ⟨store₂, e₂, h₂, first.trans rest⟩

theorem after_append (x : Exchange) (moves more : List Move) :
    x.after S pair (moves ++ more) = (x.after S pair moves).after S pair more := by
  unfold after
  exact List.foldl_append

end Exchange

end

end DoubleRatchet
