/-
DoubleRatchet/Proofs/Ladder.lean

The keys of a session as a ladder.

With every turn of the ratchet the roots climb by one rung: a ratchet key, and the root
and the chain that come from it and the rung below.  The rungs belong to the two sides
by turns.  Either side stands on a rung of its own and sends with the chain of that
rung; its receiver chains are those of the rungs of the other side below it.

    rung k + 2   ours        we stand here once we have heard of rung k + 1
    rung k + 1   theirs      they stand here
    rung k       ours        we stood here
    rung k - 1   theirs      one of our receiver chains

Both sides come to the same rungs, since agreement is symmetric (`Rung.turn_eq`).  So a
message that one side makes on its rung is opened by the keys that the other side has
for that rung (`decryptOn_given`).
-/
import DoubleRatchet.Proofs.Receivers

namespace DoubleRatchet

/-! ### Laws of the primitives -/

/-- What two sides rely on to understand each other. -/
structure Suite.Lawful (S : Suite) : Prop where
  agreement_comm : ∀ a b : PrivateKey,
    S.agreement a (S.keyPair b).publicKey = S.agreement b (S.keyPair a).publicKey
  decrypt_encrypt : ∀ key iv plain, S.decrypt key iv (S.encrypt key iv plain) = .ok plain

/-- The public key is that of the private key. -/
def KeyPair.Proper (S : Suite) (k : KeyPair) : Prop := k = S.keyPair k.privateKey

section
variable {S : Suite}

theorem Suite.proper_nextKeyPair (S : Suite) (e : Entropy) : (S.nextKeyPair e).Proper S := rfl

variable (S) in
/-- Two private keys share one secret, whichever side works it out. -/
def Suite.Commutes : Prop :=
  ∀ a b : PrivateKey, S.agreement a (S.keyPair b).publicKey = S.agreement b (S.keyPair a).publicKey

theorem Suite.Commutes.agreement_swap (hS : S.Commutes) {a b : KeyPair} (ha : a.Proper S)
    (hb : b.Proper S) :
    S.agreement a.privateKey b.publicKey = S.agreement b.privateKey a.publicKey := by
  have comm := hS a.privateKey b.privateKey
  rw [← ha, ← hb] at comm
  exact comm

theorem Suite.Lawful.commutes (hS : S.Lawful) : S.Commutes := hS.agreement_comm

/-- From the start of a chain as many keys have been passed as the chain has come. -/
theorem ChainKey.index_of_pass {first c : ChainKey} {n : UInt32} (zero : first.index = 0)
    (h : (ChainKey.rule S).pass n.toNat first = .ok c) : (ChainKey.rule S).index c = n := by
  have place := Window.index_pass (ChainKey.counts S) h
  rw [show (ChainKey.rule S).index first = 0 from zero] at place
  exact UInt32.toNat_inj.mp (place.trans (Nat.zero_add _))

/-! ### Rungs -/

/-- A ratchet key, and the root and the chain that it leads to. -/
structure Rung where
  key : KeyPair
  root : RootKey
  chain : ChainKey

namespace Rung

variable (S) in
/-- The rung above, with a ratchet key of the other side. -/
def next (r : Rung) (key : KeyPair) : Rung where
  key := key
  root := (r.root.turn S r.key.publicKey key.privateKey).1
  chain := (r.root.turn S r.key.publicKey key.privateKey).2

/-- The side that stands on a rung comes to the same rung above it as the side that makes it. -/
theorem turn_eq (hS : S.Lawful) {r : Rung} {key : KeyPair} (hr : r.key.Proper S)
    (hk : key.Proper S) :
    r.root.turn S key.publicKey r.key.privateKey = ((r.next S key).root, (r.next S key).chain) := by
  unfold next RootKey.turn
  rw [hS.commutes.agreement_swap hr hk]

end Rung

/-- The values at the even places. -/
def everyOther {α : Type} : List α → List α
  | a :: _ :: l => a :: everyOther l
  | l => l

theorem everyOther_cons {α : Type} (a : α) (l : List α) :
    everyOther (a :: l) = a :: everyOther l.tail := by
  cases l <;> rfl

theorem everyOther_sublist {α : Type} : (l : List α) → (everyOther l).Sublist l
  | [] => List.Sublist.refl []
  | [a] => List.Sublist.refl [a]
  | a :: b :: l => ((everyOther_sublist l).cons b).cons_cons a

/-- The rung that a side stands on, and the rungs below it, newest first. -/
structure Ladder where
  top : Rung
  below : List Rung

namespace Ladder

/-- All rungs. -/
def rungs (l : Ladder) : List Rung := l.top :: l.below

/-- The rungs of the side that stands there. -/
def own (l : Ladder) : List Rung := everyOther l.rungs

/-- The rungs of the other side. -/
def heard (l : Ladder) : List Rung := everyOther l.below

/-- The ladder with two more rungs, one of the other side and a new one of our own. -/
def climb (S : Suite) (l : Ladder) (theirs : Rung) (ours : KeyPair) : Ladder :=
  ⟨theirs.next S ours, theirs :: l.rungs⟩

theorem own_climb (l : Ladder) (theirs : Rung) (ours : KeyPair) :
    (l.climb S theirs ours).own = theirs.next S ours :: l.own := everyOther_cons ..

theorem heard_climb (l : Ladder) (theirs : Rung) (ours : KeyPair) :
    (l.climb S theirs ours).heard = theirs :: l.heard := everyOther_cons ..

theorem top_mem_own (l : Ladder) : l.top ∈ l.own := by
  rw [own, rungs, everyOther_cons]
  exact List.mem_cons_self

end Ladder

variable (S) in
/-- Every rung comes from the one below. -/
inductive Linked : List Rung → Prop
  | first {r} (proper : r.key.Proper S) (zero : r.chain.index = 0) : Linked [r]
  | next {r below key} (linked : Linked (r :: below)) (proper : key.Proper S) :
    Linked (r.next S key :: r :: below)

theorem Linked.rung {rungs : List Rung} (h : Linked S rungs) :
    ∀ r ∈ rungs, r.key.Proper S ∧ r.chain.index = 0 := by
  induction h with
  | first proper zero =>
    intro r hr
    obtain rfl := List.mem_singleton.mp hr
    exact ⟨proper, zero⟩
  | next linked proper ih =>
    rw [List.forall_mem_cons]
    exact ⟨⟨proper, rfl⟩, ih⟩

/-! ### Messages -/

/-- The ratchet message in a message. -/
def Message.inner? : Message → Option RatchetMessage
  | .ratchet m => some m
  | .preKey m => some m.message
  | _ => none

theorem RatchetMessage.checkTag_make (version : UInt8) (macKey : Bytes) (ratchetKey : PublicKey)
    (counter previousCounter : UInt32) (body : Bytes) (sender receiver : PublicKey) :
    (make S version macKey ratchetKey counter previousCounter body sender receiver).checkTag S
      sender receiver macKey = .ok () := by
  unfold checkTag content sentTag make
  dsimp only
  generalize hc : versionByte version :: (writeBytes 1 ratchetKey.transmitted ++
    writeNumber 2 counter ++ writeNumber 3 previousCounter ++ writeBytes 4 body) = content
  have length : (tag S sender receiver macKey content).length = tagLength := by
    rw [tag, List.length_take, Block.length_bytes]
    rfl
  rw [List.length_append, length, Nat.add_sub_cancel, List.take_left, List.drop_left, if_pos rfl]

variable (S) in
/-- The message is made with the chain of a rung. -/
structure Rung.Gives (r : Rung) (sender receiver : PublicKey) (plain : Bytes) (m : RatchetMessage) :
    Prop where
  version : m.version = currentVersion
  ratchetKey : m.ratchetKey = r.key.publicKey
  made : ∃ c c', (ChainKey.rule S).pass m.counter.toNat r.chain = .ok c ∧ c.next S = .ok c' ∧
    m.body = S.encrypt (c.messageKeys S).cipherKey (c.messageKeys S).iv plain ∧
    m.checkTag S sender receiver (c.messageKeys S).macKey.bytes = .ok ()

/-- A window of the rung has the key of a message that is not too far ahead, unless the key has been
passed over and is not kept. -/
theorem Rung.Gives.take {r : Rung} {m : RatchetMessage} {plain : Bytes} {sender receiver : PublicKey}
    {window : Window ChainKey MessageKeys} (hm : r.Gives S sender receiver plain m)
    (zero : r.chain.index = 0) (origin : window.From (ChainKey.rule S) r.chain)
    (near : m.counter.toNat ≤ window.chain.index.toNat + limits.forwardJump)
    (kept : m.counter < window.chain.index → window.has (ChainKey.rule S) m.counter) :
    ∃ keys after, window.take (ChainKey.rule S) m.counter = .ok (keys, after) := by
  by_cases below : m.counter < window.chain.index
  · exact Window.take_of_has below (kept below)
  · obtain ⟨c, c', passed, next, -, -⟩ := hm.made
    have number := ChainKey.index_of_pass zero passed
    exact origin.take_of_near (ChainKey.counts S) (UInt32.not_lt.mp below) near ⟨_, passed⟩ number next

namespace SessionState

variable {st st' : SessionState} {r : Rung} {m : RatchetMessage} {plain : Bytes}
  {sender receiver : PublicKey} {window : Window ChainKey MessageKeys} {l : Ladder} {e : Entropy}

/-- A message is opened by any window of its rung that has its key. -/
theorem decryptOn_given (hS : S.Lawful) (hm : r.Gives S sender receiver plain m)
    (zero : r.chain.index = 0) (hr : st.remoteIdentity = some sender)
    (ho : st.localIdentity = some receiver) (hw : st.window? m.ratchetKey = some window)
    (origin : window.From (ChainKey.rule S) r.chain) :
    st.decryptOn S m = match window.take (ChainKey.rule S) m.counter with
      | .ok (_, after) => .ok (plain, { st.setWindow m.ratchetKey after with pending := none })
      | .error err => .error err := by
  rw [decryptOn_eq_take, hw]
  show window.take (ChainKey.rule S) m.counter >>= _ = _
  cases taken : window.take (ChainKey.rule S) m.counter with
  | error err => rfl
  | ok result =>
    obtain ⟨keys, after⟩ := result
    obtain ⟨-, c, -, hc, number, -, rfl⟩ := origin.take (ChainKey.counts S) taken
    -- the keys that are taken are those that the message was made with
    obtain ⟨c', _, hc', -, body, tag⟩ := hm.made
    obtain rfl := hc.eq_of_index (ChainKey.counts S) ⟨_, hc'⟩
      (number.trans (ChainKey.index_of_pass zero hc').symm)
    have opened : st.openWith S m ((ChainKey.rule S).key c) = .ok plain := by
      unfold openWith identities
      rw [hr, ho]
      simp only [needed, bind, Except.bind, pure, Except.pure]
      rw [show (ChainKey.rule S).key c = c.messageKeys S from rfl, tag]
      dsimp only
      rw [body, hS.decrypt_encrypt]
    show (st.openWith S m ((ChainKey.rule S).key c) >>= _) = _
    rw [opened]
    rfl

variable (S) in
/-- The session stands on a ladder: it sends with the top rung, and has receiver chains for the newest
rungs that it has heard of. -/
structure Stands (st : SessionState) (l : Ladder) : Prop where
  sound : st.Sound S
  root : st.rootKey = some l.top.root
  sender : ∃ n c, st.senderChain = some ⟨l.top.key, c⟩ ∧
    (ChainKey.rule S).pass n l.top.chain = .ok c
  windows : ∀ theirs window, st.window? theirs = some window →
    ∃ r ∈ l.heard, r.key.publicKey = theirs ∧ window.From (ChainKey.rule S) r.chain
  chains : st.receiverChains.map (·.ratchetKey)
    = ((l.heard.map (·.key.publicKey)).take limits.receiverChains).reverse

/-- There is a receiver chain for a rung unless as many have been heard of since as are kept. -/
theorem Stands.window?_isSome (h : st.Stands S l) (hr : r ∈ l.heard) :
    (st.window? r.key.publicKey).isSome ∨
      r.key.publicKey ∈ (l.heard.map (·.key.publicKey)).drop limits.receiverChains := by
  have mem : r.key.publicKey ∈ l.heard.map (·.key.publicKey) := List.mem_map_of_mem hr
  rw [← List.take_append_drop limits.receiverChains (l.heard.map _), List.mem_append] at mem
  refine mem.imp_left fun new => ?_
  rw [Option.isSome_iff_ne_none, ne_eq, window?_eq_none, h.chains, List.mem_reverse]
  exact not_not_intro new

/-- A session that stands on a ladder makes its messages with the top rung. -/
theorem Stands.encrypt (h : st.Stands S l) (zero : l.top.chain.index = 0)
    (ho : st.localIdentity = some sender) (hr : st.remoteIdentity = some receiver)
    {message : Message} (made : st.encrypt S plain = .ok (message, st')) :
    st'.Stands S l ∧ ∃ m, message = encrypt.wrap st sender m ∧
      l.top.Gives S sender receiver plain m ∧
      ∃ c c', st.senderChain = some ⟨l.top.key, c⟩ ∧ m.counter = c.index ∧
        st' = { st with senderChain := some ⟨l.top.key, c'⟩ } ∧
        c'.index.toNat = c.index.toNat + 1 := by
  obtain ⟨remote, own, chain, c', hr', ho', hc, next, rfl, rfl⟩ := encrypt_ok made
  rw [ho] at ho'
  rw [hr] at hr'
  cases ho'
  cases hr'
  obtain ⟨n, c, hc', passed⟩ := h.sender
  rw [hc] at hc'
  cases hc'
  -- the rungs begin at zero, so a chain has passed as many numbers as its index says
  have index := Window.index_pass (ChainKey.counts S) passed
  have start : (ChainKey.index l.top.chain).toNat = 0 := by rw [zero]; rfl
  have number : n = c.index.toNat := by
    show n = ((ChainKey.rule S).index c).toNat
    rw [index]
    show n = (ChainKey.index l.top.chain).toNat + n
    rw [start, Nat.zero_add]
  have sound : ({ st with senderChain := some ⟨l.top.key, c'⟩ } : SessionState).Sound S :=
    ⟨h.sound.version, rfl, h.sound.distinct, h.sound.ordered⟩
  -- the sender chain has passed one number more
  refine ⟨⟨sound, h.root, ⟨n + 1, c', rfl, Window.pass_succ passed next⟩, h.windows, h.chains⟩, _,
    rfl, ?_, c, c', hc, rfl, rfl, (ChainKey.counts S).index_next next⟩
  refine ⟨h.sound.version, rfl, c, c', ?_, next, rfl, RatchetMessage.checkTag_make ..⟩
  show (ChainKey.rule S).pass c.index.toNat l.top.chain = .ok c
  rw [← number]
  exact passed

/-- What is opened with a window that comes from a rung leaves a session on the same ladder. -/
theorem Stands.opened {after : Window ChainKey MessageKeys} {n : UInt32} {keys : MessageKeys}
    (h : st.Stands S l) (hr : r ∈ l.heard)
    (hw : st.window? r.key.publicKey = some window)
    (origin : window.From (ChainKey.rule S) r.chain)
    (taken : window.take (ChainKey.rule S) n = .ok (keys, after)) :
    ({ st.setWindow r.key.publicKey after with pending := none } : SessionState).Stands S l := by
  have ordered := (h.sound.ordered_window hw).take (ChainKey.counts S) taken
  have sound : (st.setWindow r.key.publicKey after).Sound S := h.sound.setWindow ordered
  refine ⟨⟨sound.version, sound.ready, sound.distinct, sound.ordered⟩, h.root, h.sender, ?_,
    (keys_setWindow st _ _).trans h.chains⟩
  intro theirs window' hw'
  replace hw' : (st.setWindow r.key.publicKey after).window? theirs = some window' := hw'
  by_cases same : theirs = r.key.publicKey
  · subst same
    rw [window?_setWindow_self hw] at hw'
    cases hw'
    exact ⟨r, hr, rfl, (origin.take (ChainKey.counts S) taken).1⟩
  · rw [window?_setWindow_of_ne after same] at hw'
    exact h.windows theirs window' hw'

/-- A session that hears of the next rung climbs it, and one more of its own. -/
theorem Stands.turned (hS : S.Lawful) (h : st.Stands S l) (proper : l.top.key.Proper S)
    {key : KeyPair} (ours : KeyPair) {chain : SenderChain} (hk : key.Proper S)
    (hc : st.senderChain = some chain) (none : st.window? key.publicKey = none) :
    (st.turnWith S l.top.root chain key.publicKey ours).Stands S
        (l.climb S (l.top.next S key) ours) ∧
      (st.turnWith S l.top.root chain key.publicKey ours).window? key.publicKey
        = some ⟨(l.top.next S key).chain, []⟩ := by
  obtain ⟨n, c, hc', -⟩ := h.sender
  rw [hc] at hc'
  cases hc'
  have turned : st.turnWith S l.top.root ⟨l.top.key, c⟩ key.publicKey ours
      = { st.addReceiver key.publicKey (l.top.next S key).chain with
          rootKey := some ((l.top.next S key).next S ours).root
          previousCounter := if c.index = 0 then 0 else c.index - 1
          senderChain := some ⟨ours, ((l.top.next S key).next S ours).chain⟩ } := by
    unfold turnWith
    rw [Rung.turn_eq hS proper hk]
    rfl
  have new : (st.turnWith S l.top.root ⟨l.top.key, c⟩ key.publicKey ours).window? key.publicKey
      = some ⟨(l.top.next S key).chain, []⟩ := by
    rw [turned]
    exact window?_addReceiver none
  refine ⟨{ sound := h.sound.turnWith none _ _ _, root := ?root, sender := ?sender
            windows := ?windows, chains := ?chains }, new⟩
  case root =>
    rw [turned]
    rfl
  case sender =>
    rw [turned]
    exact ⟨0, _, rfl, rfl⟩
  case windows =>
    -- the new window is that of the rung heard of, and the others were there before
    intro theirs window hw
    rw [Ladder.heard_climb]
    by_cases same : theirs = key.publicKey
    · subst same
      rw [new] at hw
      cases hw
      exact ⟨l.top.next S key, List.mem_cons_self, rfl, Window.from_new⟩
    · rw [turned] at hw
      have old := window?_addReceiver_of_ne h.sound.distinct same hw
      obtain ⟨r, hr, rest⟩ := h.windows theirs window old
      exact ⟨r, List.mem_cons_of_mem _ hr, rest⟩
  case chains =>
    rw [turned, Ladder.heard_climb]
    refine (keys_addReceiver st _ _).trans ?_
    rw [h.chains]
    exact keepNewest_reverse_take (by decide) _ _

end SessionState

end

end DoubleRatchet
