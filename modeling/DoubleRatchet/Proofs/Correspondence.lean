/-
DoubleRatchet/Proofs/Correspondence.lean

What two sessions know of all that has been posted between them.

Every message is made with a rung of its sender, and no two of them with the same
number; the sender counts on from the last one, and the reader is never ahead of the
sender.  What the reader has passed over it has kept, at least for a while: `lost` is what
is known of the messages whose keys have given way.  A `Correspondence` says all this,
and stays true when a side sends (`posts`), turns its ratchet (`turned`) or opens a
message (`opened`), and so whenever a side has decrypted a message (`reading`).

A message that has not been read then has its key, unless the key or the chain has given
way since (`reads`).
-/
import DoubleRatchet.Proofs.Exchange

namespace DoubleRatchet

open HandshakeRole

theorem SessionState.inner?_wrap (st : SessionState) (own : PublicKey) (m : RatchetMessage) :
    (encrypt.wrap st own m).inner? = some m := by
  unfold encrypt.wrap
  cases st.pending <;> rfl

/-- What goes in a pre-key message tells of the handshake that is pending. -/
theorem SessionState.preKey_wrap {st : SessionState} {own : PublicKey} {m : RatchetMessage}
    {m' : PreKeyMessage} (h : encrypt.wrap st own m = .preKey m') :
    ∃ pending ∈ st.pending, m'.version = st.version ∧ m'.identity = own ∧
      m'.baseKey = pending.baseKey := by
  unfold encrypt.wrap at h
  split at h
  · cases h
  · rename_i pending there
    cases h
    exact ⟨pending, there, rfl, rfl, rfl⟩

variable (S : Suite) (identity : HandshakeRole → PublicKey) in
/-- Two sessions, and what has been posted, read and lost. -/
structure Correspondence (ladder : HandshakeRole → Ladder) (session : HandshakeRole → SessionState)
    (posted : List Posted) (read : List Nat) (lost : HandshakeRole → RatchetMessage → Prop) :
    Prop where
  lockstep : Lockstep S identity ladder session
  made : ∀ p ∈ posted, ∃ m, p.message.inner? = some m ∧ ∃ r ∈ (ladder p.sender).own,
    r.Gives S (identity p.sender) (identity p.sender.other) p.plain m
  /-- What has been sent with the ratchet key in use has the numbers so far. -/
  counted : ∀ p ∈ posted, ∀ m c, p.message.inner? = some m →
    (session p.sender).senderChain = some c → m.ratchetKey = c.ratchetKey.publicKey →
    m.counter < c.chainKey.index
  /-- Nobody is ahead of the sender. -/
  behind : ∀ role c window, (session role).senderChain = some c →
    (session role.other).window? c.ratchetKey.publicKey = some window →
    window.chain.index ≤ c.chainKey.index
  /-- No number is used twice with one ratchet key. -/
  unique : posted.Pairwise fun p q => p.sender = q.sender → ∀ m m', p.message.inner? = some m →
    q.message.inner? = some m' → m.ratchetKey = m'.ratchetKey → m.counter ≠ m'.counter
  /-- What has been passed over has a skipped key, or the key has given way to newer ones. -/
  kept : ∀ n p m window, posted[n]? = some p → n ∉ read → p.message.inner? = some m →
    (session p.sender.other).window? m.ratchetKey = some window →
    m.counter < window.chain.index →
    window.has (ChainKey.rule S) m.counter ∨ window.Crowded (ChainKey.rule S) m.counter ∨
      lost p.sender.other m

/-- What becomes of the ladders when the other side reads a message: they stay as they are, or the
reader has drawn a key and climbs to a rung with it. -/
def Climbs (S : Suite) (role : HandshakeRole) (e e' : Entropy)
    (ladder ladder' : HandshakeRole → Ladder) : Prop :=
  ladder' = ladder ∨ (e' = e.advance 32 ∧ ladder' = put ladder role.other
    ((ladder role.other).climb S (ladder role).top (S.nextKeyPair e)))

/-- The rungs after reading are the ones before, and perhaps one with the key that was drawn. -/
theorem Climbs.rung {S : Suite} {role side : HandshakeRole} {e e' : Entropy}
    {ladder ladder' : HandshakeRole → Ladder} (h : Climbs S role e e' ladder ladder') {r : Rung}
    (hr : r ∈ (ladder' side).rungs) :
    (∃ side', r ∈ (ladder side').rungs) ∨ (e' = e.advance 32 ∧ r.key = S.nextKeyPair e) := by
  rcases h with rfl | ⟨drawn, rfl⟩
  · exact .inl ⟨side, hr⟩
  rcases eq_or_eq_other role side with rfl | rfl
  · rw [put_at_other] at hr
    exact .inl ⟨side, hr⟩
  · rw [put_self] at hr
    rcases List.mem_cons.mp hr with rfl | hr
    · exact .inr ⟨drawn, rfl⟩
    rcases List.mem_cons.mp hr with rfl | hr
    · exact .inl ⟨role, List.mem_cons_self⟩
    · exact .inl ⟨role.other, hr⟩

section
variable {S : Suite} {identity : HandshakeRole → PublicKey}
  {ladder : HandshakeRole → Ladder} {session : HandshakeRole → SessionState}
  {posted : List Posted} {read : List Nat} {lost : HandshakeRole → RatchetMessage → Prop}
  {role : HandshakeRole} {plain : Bytes} {n : Nat} {p : Posted} {m : RatchetMessage}
  {e e' : Entropy}

namespace Correspondence

/-- What is lost may be known of more messages. -/
theorem mono (h : Correspondence S identity ladder session posted read lost)
    {lost' : HandshakeRole → RatchetMessage → Prop} (imp : ∀ role m, lost role m → lost' role m) :
    Correspondence S identity ladder session posted read lost' := by
  refine ⟨h.lockstep, h.made, h.counted, h.behind, h.unique, ?_⟩
  intro n p m window hp unread hm hw below
  exact (h.kept n p m window hp unread hm hw below).imp_right (Or.imp_right (imp _ _))

/-- What has been posted before need not be known. -/
theorem forget (h : Correspondence S identity ladder session posted read lost)
    (lost' : HandshakeRole → RatchetMessage → Prop) :
    Correspondence S identity ladder session [] [] lost' :=
  ⟨h.lockstep, nofun, nofun, h.behind, .nil, nofun⟩

/-- Either side may be called the first one. -/
theorem roleOf (h : Correspondence S identity ladder session [] [] lost) (starter : HandshakeRole)
    (lost' : HandshakeRole → RatchetMessage → Prop) :
    Correspondence S (fun side => identity (starter.roleOf side))
      (fun side => ladder (starter.roleOf side)) (fun side => session (starter.roleOf side)) [] []
      lost' := by
  refine ⟨h.lockstep.roleOf starter, nofun, nofun, ?_, .nil, nofun⟩
  cases starter with
  | initiator => exact h.behind
  | responder => exact fun side => h.behind side.other

/-- Every message is given by a rung of its sender. -/
theorem given (h : Correspondence S identity ladder session posted read lost) (hp : p ∈ posted)
    (hm : p.message.inner? = some m) :
    ∃ r ∈ (ladder p.sender).own,
      r.Gives S (identity p.sender) (identity p.sender.other) p.plain m := by
  obtain ⟨m', hm', gives⟩ := h.made p hp
  rw [hm] at hm'
  cases hm'
  exact gives

/-- What has been passed over still has its key or is lost, if the chain is new or what has been
crowded out of it is known to be lost. -/
theorem overtaken (h : Correspondence S identity ladder session posted read lost)
    (hp : posted[n]? = some p) (unread : n ∉ read) (hm : p.message.inner? = some m)
    {window : Window ChainKey MessageKeys}
    (hw : (session p.sender.other).window? m.ratchetKey = some window)
    (seen : window.chain.index = 0 ∨
      (window.Crowded (ChainKey.rule S) m.counter → lost p.sender.other m))
    (below : m.counter < window.chain.index) :
    window.has (ChainKey.rule S) m.counter ∨ lost p.sender.other m := by
  rcases seen with zero | seen
  · rw [zero] at below
    exact absurd below UInt32.not_lt_zero
  · rcases h.kept n p m window hp unread hm hw below with had | crowded | gone
    · exact .inl had
    · exact .inr (seen crowded)
    · exact .inr gone

/-- Two messages of one sender have different numbers, if they have the same ratchet key. -/
theorem counter_ne (h : Correspondence S identity ladder session posted read lost)
    {n' : Nat} {p' : Posted} {m' : RatchetMessage} (hp : posted[n]? = some p)
    (hp' : posted[n']? = some p') (ne : n' ≠ n) (same : p'.sender = p.sender)
    (hm : p.message.inner? = some m) (hm' : p'.message.inner? = some m')
    (key : m'.ratchetKey = m.ratchetKey) : m'.counter ≠ m.counter := by
  obtain ⟨hn, rfl⟩ := List.getElem?_eq_some_iff.mp hp
  obtain ⟨hn', rfl⟩ := List.getElem?_eq_some_iff.mp hp'
  have unique := List.pairwise_iff_getElem.mp h.unique
  rcases Nat.lt_or_gt_of_ne ne with before | after
  · exact unique n' n hn' hn before same m' m hm' hm key
  · exact (unique n n' hn hn' after same.symm m m' hm hm' key.symm).symm

/-! ### Sending -/

/-- A side sends a message. -/
theorem posts (h : Correspondence S identity ladder session posted read lost)
    {message : Message} {st' : SessionState}
    (sent : (session role).encrypt S plain = .ok (message, st')) :
    Correspondence S identity ladder (put session role st')
      (posted ++ [⟨role, plain, message⟩]) read lost := by
  obtain ⟨lockstep, m, rfl, gives, c, c', hc, counter, rfl, next⟩ := h.lockstep.encrypt sent
  have inner := (session role).inner?_wrap (identity role) m
  have key : m.ratchetKey = (ladder role).top.key.publicKey := gives.ratchetKey
  -- nothing changes for the receiver chains of either side
  have windows : ∀ side, (put session role { session role with
      senderChain := some ⟨(ladder role).top.key, c'⟩ } side).window? = (session side).window? :=
    forall_put (P := fun side (st : SessionState) => st.window? = (session side).window?) _ _ _
      rfl rfl
  refine { lockstep, made := ?made, counted := ?counted, behind := ?behind, unique := ?unique,
           kept := ?kept }
  case made =>
    intro p hp
    rcases List.mem_append.mp hp with old | new
    · exact h.made p old
    · obtain rfl := List.mem_singleton.mp new
      exact ⟨m, inner, _, Ladder.top_mem_own _, gives⟩
  case counted =>
    intro p hp m' d hm' hd same
    rw [UInt32.lt_iff_toNat_lt]
    rcases List.mem_append.mp hp with old | new
    · rcases eq_or_eq_other role p.sender with hs | hs
      · rw [hs, put_self] at hd
        cases hd
        have below := h.counted p old m' ⟨(ladder role).top.key, c⟩ hm' (by rw [hs]; exact hc) same
        rw [UInt32.lt_iff_toNat_lt] at below
        dsimp only at below ⊢
        omega
      · rw [hs, put_other, ← hs] at hd
        exact UInt32.lt_iff_toNat_lt.mp (h.counted p old m' d hm' hd same)
    · -- the new message has the number that the chain has just left
      obtain rfl := List.mem_singleton.mp new
      rw [inner] at hm'
      cases hm'
      rw [put_self] at hd
      cases hd
      rw [counter]
      dsimp only
      omega
  case behind =>
    intro side d window hd hw
    rw [windows] at hw
    rcases eq_or_eq_other role side with rfl | rfl
    · rw [put_self] at hd
      cases hd
      have behind := h.behind side _ window hc hw
      rw [UInt32.le_iff_toNat_le] at behind ⊢
      dsimp only at behind ⊢
      omega
    · rw [put_other] at hd
      exact h.behind _ d window hd hw
  case unique =>
    rw [List.pairwise_append]
    refine ⟨h.unique, List.pairwise_singleton _ _, ?_⟩
    intro p hp q hq same m₁ m₂ hm₁ hm₂ keys
    obtain rfl := List.mem_singleton.mp hq
    rw [inner] at hm₂
    cases hm₂
    dsimp only at same
    -- all numbers before are smaller
    have below := h.counted p hp m₁ _ hm₁ (by rw [same]; exact hc) (keys.trans key)
    rw [counter]
    exact UInt32.ne_of_lt below
  case kept =>
    intro n p m' window hp unread hm' hw below
    rw [windows] at hw
    rw [List.getElem?_append] at hp
    split at hp
    · exact h.kept n p m' window hp unread hm' hw below
    · obtain rfl := List.mem_singleton.mp (List.mem_of_getElem? hp)
      rw [inner] at hm'
      cases hm'
      -- nobody has passed over the number that is sent now
      rw [key] at hw
      have behind := h.behind role _ window hc hw
      rw [counter] at below
      exact absurd below (UInt32.not_lt.mpr behind)

/-! ### Reading -/

/-- The side that is behind turns its ratchet. -/
theorem turned (h : Correspondence S identity ladder session posted read lost) (hS : S.Lawful)
    (leads : (ladder role).below = (ladder role.other).rungs) {ours : KeyPair}
    (proper : ours.Proper S) (fresh : ours.publicKey ∉ (ladder role).rungs.map (·.key.publicKey))
    {chain : SenderChain} (hc : (session role.other).senderChain = some chain) :
    Correspondence S identity
      (put ladder role.other ((ladder role.other).climb S (ladder role).top ours))
      (put session role.other ((session role.other).turnWith S (ladder role.other).top.root chain
        (ladder role).top.key.publicKey ours)) posted read lost := by
  have lockstep := h.lockstep.turned hS leads proper fresh hc
  have new := (h.lockstep.reader_turned hS leads ours hc).2
  have distinct := (h.lockstep.stands role.other).sound.distinct
  generalize ht : (session role.other).turnWith S (ladder role.other).top.root chain
    (ladder role).top.key.publicKey ours = st at lockstep new ⊢
  -- every window but the new one was there before
  have others : ∀ theirs window, theirs ≠ (ladder role).top.key.publicKey →
      st.window? theirs = some window → (session role.other).window? theirs = some window := by
    intro theirs window ne hw
    rw [← ht] at hw
    exact SessionState.window?_addReceiver_of_ne distinct ne hw
  have sender : ∃ c, st.senderChain = some ⟨ours, c⟩ := by
    rw [← ht]
    exact ⟨_, rfl⟩
  -- the new key belongs to no rung that anybody has
  have own : ∀ r ∈ (ladder role.other).own, r.key.publicKey ≠ ours.publicKey := by
    intro r hr same
    refine fresh (same ▸ List.mem_map_of_mem (List.mem_cons_of_mem _ ?_))
    rw [leads]
    exact (everyOther_sublist _).subset hr
  refine { lockstep, made := ?made, counted := ?counted, behind := ?behind, unique := h.unique,
           kept := ?kept }
  case made =>
    intro p hp
    obtain ⟨m, hm, r, hr, gives⟩ := h.made p hp
    refine ⟨m, hm, r, ?_, gives⟩
    rcases eq_or_eq_other role p.sender with hs | hs
    · rw [hs, put_at_other, ← hs]
      exact hr
    · rw [hs, put_self, Ladder.own_climb, ← hs]
      exact List.mem_cons_of_mem _ hr
  case counted =>
    intro p hp m c hm hd same
    rcases eq_or_eq_other role p.sender with hs | hs
    · rw [hs, put_at_other, ← hs] at hd
      exact h.counted p hp m c hm hd same
    · -- nothing has been sent with the new key
      obtain ⟨d, hd'⟩ := sender
      rw [hs, put_self, hd'] at hd
      cases hd
      obtain ⟨r, hr, gives⟩ := h.given hp hm
      rw [hs] at hr
      exact absurd (gives.ratchetKey.symm.trans same) (own r hr)
  case behind =>
    intro side c window hd hw
    rcases eq_or_eq_other role side with rfl | rfl
    · rw [put_at_other] at hd
      rw [put_self] at hw
      by_cases same : c.ratchetKey.publicKey = (ladder side).top.key.publicKey
      · rw [same, new] at hw
        cases hw
        rw [h.lockstep.zero_of_own (Ladder.top_mem_own _)]
        exact UInt32.zero_le
      · exact h.behind side c window hd (others _ _ same hw)
    · -- the other side has not heard of the new key
      obtain ⟨d, hd'⟩ := sender
      rw [put_self, hd'] at hd
      cases hd
      rw [other_other, put_at_other] at hw
      have unheard : ours.publicKey ∉ (ladder role).heard.map (·.key.publicKey) := fun heard =>
        fresh (List.map_subset _ (fun _ => Lockstep.mem_rungs_of_heard) heard)
      rw [h.lockstep.window?_unheard unheard] at hw
      cases hw
  case kept =>
    intro n p m window hp unread hm hw below
    rcases eq_or_eq_other role p.sender with hs | hs
    · rw [hs, put_self] at hw
      by_cases same : m.ratchetKey = (ladder role).top.key.publicKey
      · -- a new chain has passed over nothing
        rw [same, new] at hw
        cases hw
        rw [h.lockstep.zero_of_own (Ladder.top_mem_own _)] at below
        exact absurd below UInt32.not_lt_zero
      · refine h.kept n p m window hp unread hm ?_ below
        rw [hs]
        exact others _ _ same hw
    · rw [hs, other_other, put_at_other] at hw
      refine h.kept n p m window hp unread hm ?_ below
      rw [hs, other_other]
      exact hw

/-- A message is opened.  Its receiver chain is a new one, or what has been crowded out of it is known
to be lost, so that more keys may give way. -/
theorem opened (h : Correspondence S identity ladder session posted read lost)
    (hp : posted[n]? = some p) (hm : p.message.inner? = some m)
    {window after : Window ChainKey MessageKeys} {keys : MessageKeys}
    (hw : (session p.sender.other).window? m.ratchetKey = some window)
    (taken : window.take (ChainKey.rule S) m.counter = .ok (keys, after))
    (seen : window.chain.index = 0 ∨ ∀ m', m'.ratchetKey = m.ratchetKey →
      window.Crowded (ChainKey.rule S) m'.counter → lost p.sender.other m') :
    Correspondence S identity ladder (put session p.sender.other
      { (session p.sender.other).setWindow m.ratchetKey after with pending := none })
      posted (n :: read) lost := by
  obtain ⟨r, hr, key, -⟩ := (h.lockstep.stands _).windows _ _ hw
  have ordered := (h.lockstep.stands _).sound.ordered_window hw
  have lockstep := h.lockstep.opened hr key.symm hw taken
  generalize ht : ({ (session p.sender.other).setWindow m.ratchetKey after with
    pending := none } : SessionState) = st at lockstep ⊢
  have new : st.window? m.ratchetKey = some after := by
    rw [← ht]
    exact SessionState.window?_setWindow_self hw after
  have others : ∀ theirs, theirs ≠ m.ratchetKey →
      st.window? theirs = (session p.sender.other).window? theirs := by
    intro theirs ne
    rw [← ht]
    exact SessionState.window?_setWindow_of_ne after ne
  -- nothing changes for the sender chain of either side
  have senders : ∀ side, (put session p.sender.other st side).senderChain
      = (session side).senderChain := by
    refine forall_put (P := fun side (st : SessionState) =>
      st.senderChain = (session side).senderChain) _ _ _ ?_ rfl
    rw [← ht]
    rfl
  refine { lockstep, made := h.made, counted := ?counted, behind := ?behind, unique := h.unique,
           kept := ?kept }
  case counted =>
    intro p' hp' m' c hm' hc same
    rw [senders] at hc
    exact h.counted p' hp' m' c hm' hc same
  case behind =>
    intro side c window' hc hw'
    rw [senders] at hc
    rcases eq_or_eq_other p.sender side with rfl | rfl
    · rw [put_self] at hw'
      by_cases same : c.ratchetKey.publicKey = m.ratchetKey
      · -- the window moves to a number that the sender has used
        rw [same, new] at hw'
        cases hw'
        have behind := h.behind _ c window hc (by rw [same]; exact hw)
        have below := h.counted p (List.mem_of_getElem? hp) m c hm hc same.symm
        have index : after.chain.index.toNat = max window.chain.index.toNat (m.counter.toNat + 1) :=
          Window.index_take (ChainKey.counts S) taken
        rw [UInt32.le_iff_toNat_le] at behind ⊢
        rw [UInt32.lt_iff_toNat_lt] at below
        omega
      · rw [others _ same] at hw'
        exact h.behind _ c window' hc hw'
    · rw [other_other, put_at_other] at hw'
      exact h.behind _ c window' hc (by rw [other_other]; exact hw')
  case kept =>
    intro n' p' m' window' hp' unread hm' hw' below
    rw [List.mem_cons, not_or] at unread
    rcases eq_or_eq_other p.sender p'.sender with hs | hs
    · rw [hs, put_self] at hw'
      by_cases same : m'.ratchetKey = m.ratchetKey
      · rw [same, new] at hw'
        cases hw'
        have ne := h.counter_ne hp hp' unread.1 hs hm hm' same
        refine ordered.kept_take (ChainKey.counts S) taken ne below fun old => ?_
        -- it has been passed over before, and may have given way then
        refine h.overtaken hp' unread.2 hm' ?_ (seen.imp_right fun seen crowded => ?_) old
        · rw [hs, same]
          exact hw
        · rw [hs]
          exact seen m' same crowded
      · rw [others _ same, ← hs] at hw'
        exact h.kept n' p' m' window' hp' unread.2 hm' hw' below
    · rw [hs, other_other, put_at_other] at hw'
      exact h.kept n' p' m' window' hp' unread.2 hm' (by rw [hs, other_other]; exact hw') below

/-- The side that is behind turns its ratchet and opens the first message of the rung above it. -/
theorem climbed (h : Correspondence S identity ladder session posted read lost) (hS : S.Lawful)
    (leads : (ladder p.sender).below = (ladder p.sender.other).rungs) {ours : KeyPair}
    (proper : ours.Proper S)
    (fresh : ours.publicKey ∉ (ladder p.sender).rungs.map (·.key.publicKey))
    {chain : SenderChain} (hc : (session p.sender.other).senderChain = some chain)
    (hp : posted[n]? = some p) (hm : p.message.inner? = some m)
    (key : m.ratchetKey = (ladder p.sender).top.key.publicKey)
    {after : Window ChainKey MessageKeys} {keys : MessageKeys}
    (taken : Window.take (ChainKey.rule S) ⟨(ladder p.sender).top.chain, []⟩ m.counter
      = .ok (keys, after)) :
    Correspondence S identity
      (put ladder p.sender.other ((ladder p.sender.other).climb S (ladder p.sender).top ours))
      (put session p.sender.other { ((session p.sender.other).turnWith S
        (ladder p.sender.other).top.root chain m.ratchetKey ours).setWindow m.ratchetKey after with
        pending := none }) posted (n :: read) lost := by
  have turned := h.turned hS leads proper fresh hc
  have new := (h.lockstep.reader_turned hS leads ours hc).2
  have opened := turned.opened hp hm (by
    rw [put_self, key]
    exact new) taken (.inl (h.lockstep.zero_of_own (Ladder.top_mem_own _)))
  rw [put_self, put_put, ← key] at opened
  exact opened

/-- A message that has not been read has its key, unless it is too far ahead, or its key or its chain
has given way. -/
theorem reads (h : Correspondence S identity ladder session posted read lost) (hS : S.Lawful)
    (alive : e.dead = false) (hp : posted[n]? = some p) (unread : n ∉ read)
    (hm : p.message.inner? = some m)
    (near : m.counter.toNat ≤ ((session p.sender.other).window? m.ratchetKey).elim 0
      (·.chain.index.toNat) + limits.forwardJump)
    (there : m.ratchetKey ∈ (ladder p.sender.other).heard.map (·.key.publicKey) →
      (session p.sender.other).window? m.ratchetKey ≠ none)
    (room : ∀ window, (session p.sender.other).window? m.ratchetKey = some window →
      ¬window.Crowded (ChainKey.rule S) m.counter)
    (found : ¬lost p.sender.other m) :
    ∃ st' e', ((session p.sender.other).decrypt S m).run e = (.ok (p.plain, st'), e') := by
  obtain ⟨r, hr, gives⟩ := h.given (List.mem_of_getElem? hp) hm
  have zero := h.lockstep.zero_of_own hr
  rcases h.lockstep.decrypt_cases hS hr gives alive with
    ⟨window, heard, hw, decrypted⟩ | ⟨heard, none⟩ | ⟨rfl, leads, none, chain, hc, decrypted⟩
  · rw [hw] at near
    have origin := hw
    rw [gives.ratchetKey] at origin
    obtain ⟨keys, after, taken⟩ := gives.take zero (h.lockstep.from_rung heard origin) near (by
      -- if it has been passed over, its key has been kept
      intro below
      rcases h.kept n p m window hp unread hm hw below with kept | crowded | gone
      · exact kept
      · exact absurd crowded (room window hw)
      · exact absurd gone found)
    rw [Lockstep.opening_of_taken taken] at decrypted
    exact ⟨_, _, decrypted⟩
  · refine absurd none (there ?_)
    rw [gives.ratchetKey]
    exact List.mem_map_of_mem heard
  · rw [none] at near
    obtain ⟨keys, after, taken⟩ := gives.take zero (Window.from_new (R := ChainKey.rule S))
      (by
        rw [zero]
        exact near)
      (by
        rw [zero]
        intro below
        exact absurd below UInt32.not_lt_zero)
    rw [Lockstep.opening_of_taken taken] at decrypted
    exact ⟨_, _, decrypted⟩

/-- Whoever has decrypted a message has read what was posted, and stands on the same ladder, or on the
rung of a key that was made for it. -/
theorem reading (h : Correspondence S identity ladder session posted read lost) (hS : S.Lawful)
    (alive : e.dead = false) (hp : posted[n]? = some p) (hm : p.message.inner? = some m)
    {st' : SessionState}
    (ran : ((session p.sender.other).decrypt S m).run e = (.ok (plain, st'), e'))
    (fresh : e' = e.advance 32 →
      (S.nextKeyPair e).publicKey ∉ (ladder p.sender).rungs.map (·.key.publicKey))
    (there : m.ratchetKey ∈ (ladder p.sender.other).heard.map (·.key.publicKey) →
      (session p.sender.other).window? m.ratchetKey ≠ none)
    (seen : ∀ window, (session p.sender.other).window? m.ratchetKey = some window →
      ∀ m', m'.ratchetKey = m.ratchetKey → window.Crowded (ChainKey.rule S) m'.counter →
        lost p.sender.other m') :
    plain = p.plain ∧ ∃ ladder', Correspondence S identity ladder'
        (put session p.sender.other st') posted (n :: read) lost ∧
      Climbs S p.sender e e' ladder ladder' := by
  obtain ⟨r, hr, gives⟩ := h.given (List.mem_of_getElem? hp) hm
  rcases h.lockstep.decrypt_cases hS hr gives alive with
    ⟨window, heard, hw, decrypted⟩ | ⟨heard, none⟩ | ⟨rfl, leads, none, chain, hc, decrypted⟩
  · -- the chain is there, and the ladders stay as they are
    rw [ran] at decrypted
    obtain ⟨opening, rfl⟩ := Prod.mk.inj decrypted
    obtain ⟨keys, after, taken, same, rfl⟩ := Lockstep.opening_ok opening.symm
    exact ⟨same, ladder, h.opened hp hm hw taken (.inr (seen window hw)), .inl rfl⟩
  · refine absurd none (there ?_)
    rw [gives.ratchetKey]
    exact List.mem_map_of_mem heard
  · -- the ratchet turns, and the reader climbs to the rung of a key made for it
    rw [ran] at decrypted
    obtain ⟨opening, rfl⟩ := Prod.mk.inj decrypted
    obtain ⟨keys, after, taken, same, rfl⟩ := Lockstep.opening_ok opening.symm
    exact ⟨same, _, h.climbed hS leads (S.proper_nextKeyPair e) (fresh rfl) hc hp hm
      gives.ratchetKey taken, .inr ⟨rfl, rfl⟩⟩

end Correspondence

end

end DoubleRatchet
