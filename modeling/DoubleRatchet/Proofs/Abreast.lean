/-
DoubleRatchet/Proofs/Abreast.lean

Two sessions that exchange messages one at a time.

Whatever has been lost before, nothing is on the way, and neither side has sent more on
its chain than the other one can pass over (`Abreast`).  Then the next message of either
side is read when it comes, and leaves both sides as they were (`Abreast.told`): the
reader has now heard all that the sender has sent, and a chain that it starts for its
answer begins at zero.
-/
import DoubleRatchet.Proofs.Correspondence

namespace DoubleRatchet

open HandshakeRole

variable (S : Suite) (identity : HandshakeRole → PublicKey) in
/-- Nothing is on the way between two sessions, and neither has gone too far for the other one. -/
structure Abreast (ladder : HandshakeRole → Ladder) (session : HandshakeRole → SessionState) :
    Prop where
  known : Correspondence S identity ladder session [] [] fun _ _ => False
  near : ∀ role c, (session role).senderChain = some c →
    c.chainKey.index.toNat ≤ ((session role.other).window? c.ratchetKey.publicKey).elim 0
      (·.chain.index.toNat) + limits.forwardJump

section
variable {S : Suite} {identity : HandshakeRole → PublicKey} {ladder : HandshakeRole → Ladder}
  {session : HandshakeRole → SessionState} {role : HandshakeRole} {plain : Bytes}
  {message : Message} {st : SessionState} {e : Entropy}

/-- What a side sends the other one reads, and both stay abreast. -/
theorem Abreast.told (h : Abreast S identity ladder session) (hS : S.Lawful)
    (alive : e.dead = false) (sent : (session role).encrypt S plain = .ok (message, st)) :
    ∃ m st' e', message.inner? = some m ∧
      ((session role.other).decrypt S m).run e = (.ok (plain, st'), e') ∧
      ((e' = e.advance 32 →
          (S.nextKeyPair e).publicKey ∉ (ladder role).rungs.map (·.key.publicKey)) →
        ∃ ladder', Abreast S identity ladder' (put (put session role st) role.other st') ∧
          Climbs S role e e' ladder ladder') := by
  obtain ⟨-, m, wrapped, gives, c, c', hc, counter, same, next⟩ := h.known.lockstep.encrypt sent
  have key : m.ratchetKey = (ladder role).top.key.publicKey := gives.ratchetKey
  have inner : message.inner? = some m := by
    rw [wrapped]
    exact (session role).inner?_wrap _ m
  have posts := h.known.posts sent
  have hp : ([] ++ [⟨role, plain, message⟩] : List Posted)[0]? = some ⟨role, plain, message⟩ := rfl
  have reader : put session role st role.other = session role.other := put_other ..
  -- the reader has not passed the number yet, and is not too far behind it
  have behind : ∀ window, (session role.other).window? m.ratchetKey = some window →
      window.chain.index ≤ m.counter := by
    intro window hw
    rw [counter]
    exact h.known.behind role _ window hc (key ▸ hw)
  have near := h.near role _ hc
  rw [← counter, ← key] at near
  have there : m.ratchetKey ∈ (ladder role.other).heard.map (·.key.publicKey) →
      (session role.other).window? m.ratchetKey ≠ none := by
    rw [key]
    exact h.known.lockstep.window?_top
  have room : ∀ window, (session role.other).window? m.ratchetKey = some window →
      ¬window.Crowded (ChainKey.rule S) m.counter := by
    intro window hw crowded
    have ordered := (h.known.lockstep.stands role.other).sound.ordered_window hw
    have far : m.counter.toNat + limits.skippedKeys < window.chain.index.toNat :=
      ordered.lt_of_crowded crowded
    have behind := UInt32.le_iff_toNat_le.mp (behind window hw)
    omega
  rw [← reader] at near there room
  obtain ⟨st', e', ran⟩ := posts.reads hS alive hp List.not_mem_nil inner near there room id
  -- all that has been passed over is lost, as far as we care
  have posts' : Correspondence S identity ladder (put session role st)
      ([] ++ [⟨role, plain, message⟩]) [] fun _ _ => True := posts.mono fun _ _ _ => trivial
  refine ⟨m, st', e', inner, reader ▸ ran, fun fresh => ?_⟩
  obtain ⟨-, ladder', known, climbed⟩ := posts'.reading hS alive hp inner ran fresh there
    fun _ _ _ _ _ => trivial
  refine ⟨ladder', ⟨known.forget _, ?near⟩, climbed⟩
  case near =>
    intro side d hd
    rcases eq_or_eq_other role side with rfl | rfl
    · -- the reader has passed the number of the message, which was the last one
      have sound := (h.known.lockstep.stands side.other).sound
      rw [reader] at ran
      obtain ⟨window, hw, spent⟩ := sound.spent_decrypt ran
      rw [put_at_other, put_self, same] at hd
      cases hd
      rw [put_self, ← key, hw]
      have passed : m.counter < window.chain.index := spent.passed
      rw [UInt32.lt_iff_toNat_lt, counter] at passed
      show c'.index.toNat ≤ window.chain.index.toNat + limits.forwardJump
      omega
    · rw [put_self] at hd
      rw [other_other, put_at_other, put_self, same]
      rw [reader] at ran
      rcases SessionState.senderChain_decrypt ran with kept | ⟨-, chain, new, zero⟩
      · have near := h.near role.other d (kept ▸ hd)
        rw [other_other] at near
        exact near
      · -- nothing has been sent with the new chain
        rw [new] at hd
        cases hd
        rw [zero]
        exact Nat.zero_le _

end

end DoubleRatchet
