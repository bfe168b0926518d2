/-
DoubleRatchet/Proofs/Identity.lean

Whom a device talks to.

The identity that a store keeps for a peer is pinned: an operation goes on only if the
identity that it looks at is that one, or the first one.  Encrypting and decrypting a
ratchet message look at the remote identity of the session, so the session that they
use is always with the pinned identity.  Decrypting a pre-key message looks at the
identity that the envelope names, and nothing authenticates that; so the session that
decrypts is with the pinned identity exactly if the envelope names the identity of that
session (`talksToPinned_iff`).  As long as nobody pins another identity, every session
of the record is with the pinned one, and the difference cannot be seen.
-/
import DoubleRatchet.Proofs.Toy

namespace DoubleRatchet

/-! ### Pinned identities -/

/-- The current session with a peer is with the identity that is kept for it. -/
def Store.TalksToPinned (s : Store) (peer : Address) : Prop :=
  ∃ identity, s.identities[peer]? = some identity ∧
    (s.loadSession peer).current.remoteIdentity = some identity

theorem Store.talksToPinned_iff_eq {s : Store} {peer : Address} :
    s.TalksToPinned peer ↔ s.identities[peer]?.isSome ∧
      s.identities[peer]? = (s.loadSession peer).current.remoteIdentity := by
  unfold TalksToPinned
  cases s.identities[peer]? with
  | none => simp
  | some identity => simp [eq_comm]

instance (s : Store) (peer : Address) : Decidable (s.TalksToPinned peer) :=
  decidable_of_iff _ Store.talksToPinned_iff_eq.symm

/-- All sessions with a peer are with the identity that is kept for it. -/
def Store.Faithful (s : Store) (peer : Address) : Prop :=
  ∀ st ∈ s.sessionsWith peer, ∃ identity, s.identities[peer]? = some identity ∧
    st.remoteIdentity = some identity

/-- A run in which nobody pins another identity than the one that is kept. -/
def Site.Steady (S : Suite) (peer : Address) : Site → List (Call × App) → Prop
  | _, [] => True
  | s, (c, app) :: calls =>
    (∀ identity, c = .pin identity → s.store.isTrusted peer identity) ∧
      Steady S peer (c.run S peer app s).2 calls

section
variable {S : Suite} {peer : Address} {app : App} {s s' : Site} {c : Call}

/-- A call keeps the identity of its peer, or a trusted one, or the one that it pins. -/
theorem Call.identity_run {outcome : Except Error Answer} (h : c.run S peer app s = (outcome, s')) :
    s'.store.identities[peer]? = s.store.identities[peer]? ∨
      ∃ identity, (s.store.isTrusted peer identity ∨ c = .pin identity) ∧
        s'.store.identities[peer]? = some identity := by
  cases outcome with
  | error e =>
    rcases run_error h with same | ⟨identity, trusted, kept⟩
    · exact .inl (by rw [same])
    · exact .inr ⟨identity, .inl trusted, by rw [kept, Store.getElem?_saveIdentity]⟩
  | ok answer =>
    refine .inr ?_
    cases succeeded h with
    | @started bundle _ h =>
      obtain ⟨trusted, -, -, rfl⟩ := startSession_ok h
      exact ⟨bundle.identity, .inl trusted, Store.getElem?_saveIdentity ..⟩
    | sent h =>
      obtain ⟨-, remote, own, st, -, trusted, -, rfl⟩ := encrypt_ok h
      exact ⟨remote, .inl trusted, Store.getElem?_saveIdentity ..⟩
    | read h =>
      obtain ⟨-, record, entropy, remote, -, -, trusted, -, rfl⟩ := decryptMessage_ok h
      exact ⟨remote, .inl trusted, Store.getElem?_saveIdentity ..⟩
    | @readFirst m _ _ h =>
      obtain ⟨used, record, record', entropy, accepted, -, -, rfl⟩ := decryptPreKeyMessage_ok h
      exact ⟨m.identity, .inl (Store.accept_ok accepted).1, Store.getElem?_saveIdentity ..⟩
    | @pinned identity => exact ⟨identity, .inr rfl, Store.getElem?_saveIdentity ..⟩

/-- Without another pin, an identity that is kept is kept for good. -/
theorem Call.identity_kept (steady : ∀ identity, c = .pin identity → s.store.isTrusted peer identity)
    {outcome : Except Error Answer} (h : c.run S peer app s = (outcome, s')) {kept : PublicKey}
    (hk : s.store.identities[peer]? = some kept) : s'.store.identities[peer]? = some kept := by
  rcases identity_run h with same | ⟨identity, trusted | pinned, now⟩
  · rw [same, hk]
  · rw [now, Store.isTrusted_iff.mp trusted kept hk]
  · rw [now, Store.isTrusted_iff.mp (steady identity pinned) kept hk]

/-- Without another pin, all sessions stay with the pinned identity. -/
theorem Store.Faithful.run (hf : s.store.Faithful peer) (hs : s.store.Settled peer)
    (steady : ∀ identity, c = .pin identity → s.store.isTrusted peer identity) :
    (c.run S peer app s).2.store.Faithful peer := by
  refine (Call.changes hs).1.forall_mem ?_ ?_ ?_
  · rintro st ⟨built, remote⟩
    -- a session that is new is with the identity that is pinned along with it
    have some : ∃ identity, st.remoteIdentity = some identity := by
      cases built with
      | greeted => exact ⟨_, rfl⟩
      | welcomed => exact ⟨_, rfl⟩
    obtain ⟨identity, some⟩ := some
    exact ⟨identity, by rw [← remote, some], some⟩
  · rintro st st' ⟨identity, kept, remote⟩ evolves
    exact ⟨identity, kept, by rw [evolves.remoteIdentity_eq, remote]⟩
  · intro st hst
    obtain ⟨identity, kept, remote⟩ := hf st hst
    exact ⟨identity, Call.identity_kept steady rfl kept, remote⟩

theorem Store.Faithful.after {calls : List (Call × App)} (hf : s.store.Faithful peer)
    (hs : s.store.Settled peer) (steady : s.Steady S peer calls) :
    (s.after S peer calls).store.Faithful peer := by
  induction calls generalizing s with
  | nil => exact hf
  | cons call calls ih =>
    exact ih (hf.run hs steady.1) (Call.changes hs).2 steady.2

/-- Where there is no session, all are with the pinned identity. -/
theorem Store.faithful_of_none {s : Store} (h : s.sessions[peer]? = none) : s.Faithful peer := by
  intro st hst
  rw [sessionsWith, h] at hst
  cases hst

theorem Store.talksToPinned_storeSession {s : Store} {r : SessionRecord} {identity : PublicKey} :
    ((s.saveIdentity peer identity).storeSession peer r).TalksToPinned peer
      ↔ r.current.remoteIdentity = some identity := by
  unfold TalksToPinned
  rw [identities_storeSession, getElem?_saveIdentity, loadSession_storeSession]
  refine ⟨?_, fun h => ⟨identity, rfl, h⟩⟩
  rintro ⟨_, kept, h⟩
  cases kept
  exact h

/-- What a pre-key message leaves: a current session, and the identity of the envelope. -/
theorem decryptPreKeyMessage_stored {m : PreKeyMessage} {plain : Bytes}
    (h : (decryptPreKeyMessage S peer m).alone app s = (.ok plain, s')) :
    s'.store.identities[peer]? = some m.identity ∧
      (s'.store.loadSession peer).current ∈ s'.store.sessionsWith peer := by
  obtain ⟨used, record, record', entropy, -, -, -, rfl⟩ := decryptPreKeyMessage_ok h
  refine ⟨Store.getElem?_saveIdentity .., ?_⟩
  dsimp only
  rw [Store.sessionsWith_useUp, Store.sessionsWith_storeSession, Store.loadSession_useUp,
    Store.loadSession_storeSession]
  exact List.mem_cons_self

/-- **Whom a device talks to.**  When a call has encrypted or decrypted, the session that it used is
with the pinned identity, unless the call was given a pre-key message that names another identity
than that of the session.  In a run in which nobody pins another identity, it always is. -/
theorem talksToPinned_iff {answer : Answer} (h : c.run S peer app s = (.ok answer, s'))
    (talks : answer ≠ .done) :
    (s'.store.TalksToPinned peer ↔ ∀ m, c = .decryptPreKey m →
      (s'.store.loadSession peer).current.remoteIdentity = some m.identity) ∧
    ∀ (start : Site) (calls : List (Call × App)), s = start.after S peer calls →
      start.store.sessions[peer]? = none → start.Steady S peer calls →
      s'.store.TalksToPinned peer := by
  have agrees : s'.store.TalksToPinned peer ↔ ∀ m, c = .decryptPreKey m →
      (s'.store.loadSession peer).current.remoteIdentity = some m.identity := by
    cases Call.succeeded h with
    | started => exact absurd rfl talks
    | pinned => exact absurd rfl talks
    -- these two pin the identity of the session itself
    | sent h =>
      obtain ⟨-, remote, own, st, identities, -, made, rfl⟩ := encrypt_ok h
      refine iff_of_true ?_ (by intro m other; cases other)
      rw [Site.keep, Store.talksToPinned_storeSession, ← (SessionState.identities_ok identities).1]
      exact (Evolves.sent made).remoteIdentity_eq
    | read h =>
      obtain ⟨-, record, entropy, remote, -, current, -, -, rfl⟩ := decryptMessage_ok h
      refine iff_of_true ?_ (by intro m other; cases other)
      rw [Site.keep, Store.talksToPinned_storeSession]
      exact current
    -- and this one that of the envelope
    | @readFirst m _ _ h =>
      obtain ⟨kept, -⟩ := decryptPreKeyMessage_stored h
      refine ⟨?_, fun h => ⟨m.identity, kept, h m rfl⟩⟩
      rintro ⟨identity, pinned, remote⟩ _ ⟨⟩
      rw [remote, ← pinned, kept]
  refine ⟨agrees, ?_⟩
  rintro start calls rfl none steady
  have faithful := (Store.faithful_of_none none).after (Store.settled_of_none none) steady
  have settled : (start.after S peer calls).store.Settled peer :=
    Store.settled_after (Store.settled_of_none none)
  refine agrees.mpr ?_
  rintro m rfl
  -- all sessions are with the pinned identity, the one that has read the message among them
  have faithful' : s'.store.Faithful peer := by
    have run : (Call.run S peer app (.decryptPreKey m) _).2.store.Faithful peer :=
      faithful.run settled (by intro identity other; cases other)
    rw [h] at run
    exact run
  cases Call.succeeded h with
  | readFirst h =>
    obtain ⟨kept, current⟩ := decryptPreKeyMessage_stored h
    obtain ⟨identity, pinned, remote⟩ := faithful' _ current
    rw [remote, ← pinned, kept]

end

/-- The first message of a peer sets up a session with the identity that is pinned from then on. -/
theorem talksToPinned_after_first :
    let run := (Call.decryptPreKey Toy.first).run Toy.suite Toy.alice accepting Toy.bob
    run.1 = .ok (.read [1]) ∧ run.2.store.TalksToPinned Toy.alice := by
  have read : ((Call.decryptPreKey Toy.first).run Toy.suite Toy.alice accepting
      Toy.bob).1.toOption = some (.read [1]) := by decide +kernel
  have none : Toy.bob.store.sessions[Toy.alice]? = none := by decide +kernel
  generalize ran : (Call.decryptPreKey Toy.first).run Toy.suite Toy.alice accepting Toy.bob = run
    at read
  obtain ⟨outcome, s'⟩ := run
  obtain rfl := toOption_eq_some.mp read
  exact ⟨rfl, (talksToPinned_iff ran nofun).2 Toy.bob [] rfl none trivial⟩

/-- The peer's identity has been pinned anew, and its next message comes in an envelope that names
the new identity: the message is read, by the session with the old one. -/
theorem reads_unpinned :
    let calls := [(Call.decryptPreKey Toy.first, accepting),
      (.pin (Toy.keyPair 8).publicKey, accepting)]
    let renamed := Toy.rewrap Toy.second none Toy.second.baseKey (Toy.keyPair 8).publicKey
    let run := (Call.decryptPreKey renamed).run Toy.suite Toy.alice accepting
      (Toy.bob.after Toy.suite Toy.alice calls)
    run.1 = .ok (.read [0]) ∧ ¬run.2.store.TalksToPinned Toy.alice := by
  refine ⟨toOption_eq_some.mp ?_, ?_⟩
  · decide +kernel
  · decide +kernel

end DoubleRatchet
