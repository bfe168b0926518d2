/-
DoubleRatchet/Proofs/Handshake.lean

What a pre-key message brings about.

A pre-key message whose base key is not known sets up a session, and that session goes
into the record before anything of the message has been checked.  The message inside is
then offered to all sessions.  If the new one decrypts it, the handshake was genuine.
If it does not, an earlier session may: then the call succeeds too, and leaves the new
session in the record and the one-time pre-key used up, without anything that vouches
for the handshake (`handshake_effect`).
-/
import DoubleRatchet.Proofs.Toy

namespace DoubleRatchet

section
variable {S : Suite} {peer : Address} {app : App} {s s' : Site}

/-- The session that a pre-key message sets up is for its base key. -/
theorem Store.welcome_isFor (s : Store) (m : PreKeyMessage) (keys : ResponderKeys)
    (hm : m.version = currentVersion) :
    (s.welcome S m .empty keys).isFor m.version m.baseKey.transmitted = true := by
  simp [SessionState.isFor, welcome, SessionState.respond, SessionState.between,
    SessionState.nameAfter, SessionState.empty, hm]

/-- **What a handshake takes.**  When a pre-key message of an unknown base key has been decrypted,
the one-time pre-key that it names is used up.  The session for its base key is the current one
exactly if that session, new as it is, decrypts the message.  Otherwise the new session has found
the message invalid, and is stored all the same, behind an earlier session that has decrypted it. -/
theorem handshake_effect {m : PreKeyMessage} {plain : Bytes} (hs : s.store.Settled peer)
    (hm : m.version = currentVersion)
    (unknown : (s.store.loadSession peer).knows m.version m.baseKey.transmitted = false)
    (h : (decryptPreKeyMessage S peer m).alone app s = (.ok plain, s')) :
    ∃ keys, s.store.responderKeys m = .ok keys ∧
      let new := s.store.welcome S m .empty keys
      let current := (s'.store.loadSession peer).current
      s'.store.preKeys = (s.store.useUp (m.preKeyId.filter (· != lastResortPreKey))).preKeys ∧
      (current.isFor m.version m.baseKey.transmitted ↔
        ∃ st e, (new.decrypt S m.message).run s.entropy = (.ok (plain, st), e)) ∧
      (current.isFor m.version m.baseKey.transmitted = false →
        (∃ fault e, (new.decrypt S m.message).run s.entropy = (.error (.invalidMessage fault), e)) ∧
        new ∈ s'.store.sessionsWith peer ∧
        ∃ st ∈ s.store.sessionsWith peer, ∃ e e',
          (st.decrypt S m.message).run e = (.ok (plain, current), e')) := by
  obtain ⟨used, record, record', entropy, accepted, decrypted, -, rfl⟩ := decryptPreKeyMessage_ok h
  obtain ⟨-, ⟨known, -, -⟩ | ⟨-, keys, found, rfl, rfl⟩⟩ := Store.accept_ok accepted
  · rw [unknown] at known
    cases known
  rw [Store.makeRoom_current hs] at decrypted
  refine ⟨keys, found, ?_⟩
  dsimp only
  rw [Store.sessionsWith_useUp, Store.sessionsWith_storeSession, Store.loadSession_useUp,
    Store.loadSession_storeSession]
  obtain ⟨before, st, after, st', e₁, sessions, refused, opened, rfl⟩ :=
    SessionRecord.decrypt_ok decrypted
  have same := (Evolves.opened opened).isFor_eq m.version m.baseKey.transmitted
  rw [SessionRecord.current_stored, SessionRecord.current_advance, same]
  refine ⟨rfl, ?_⟩
  -- the session that decrypts is the new one, or one of those behind it
  rcases before with - | ⟨first, before⟩
  · obtain ⟨rfl, -⟩ := List.cons.inj sessions
    cases refused
    have new := s.store.welcome_isFor (S := S) m keys hm
    refine ⟨iff_of_true new ⟨st', entropy, opened⟩, fun old => ?_⟩
    rw [new] at old
    cases old
  · obtain ⟨rfl, archive⟩ := List.cons.inj sessions
    cases refused with
    | @cons _ _ _ e₂ _ fault invalid rest =>
      -- the base key is that of none of the sessions that were there
      have old : st ∈ s.store.sessionsWith peer := by
        refine List.mem_of_mem_take (i := limits.archivedSessions) ?_
        rw [← Store.makeRoom_archive hs, archive]
        exact List.mem_append_right _ List.mem_cons_self
      have other : st.isFor m.version m.baseKey.transmitted = false := by
        rw [Store.knows_loadSession, List.any_eq_false] at unknown
        exact Bool.eq_false_iff.mpr (unknown st old)
      refine ⟨?_, fun _ => ⟨⟨fault, e₂, invalid⟩, ?_, st, old, e₁, entropy, opened⟩⟩
      · rw [other]
        refine iff_of_false Bool.false_ne_true ?_
        rintro ⟨st₂, e₃, valid⟩
        rw [invalid] at valid
        cases valid
      · rw [SessionRecord.sessions_advance st' sessions ?_]
        · exact List.mem_cons_of_mem _ (List.mem_append_left _ List.mem_cons_self)
        · rw [Store.makeRoom_archive hs, List.length_take]
          exact Nat.min_le_left _ _

end

/-- The first message of a peer proves its own handshake. -/
theorem handshake_effect_first :
    let run := (decryptPreKeyMessage Toy.suite Toy.alice Toy.first).alone accepting Toy.bob
    run.1 = .ok [1] ∧ (run.2.store.loadSession Toy.alice).current.isFor Toy.first.version
      Toy.first.baseKey.transmitted := by
  have read : ((decryptPreKeyMessage Toy.suite Toy.alice Toy.first).alone accepting
      Toy.bob).1.toOption = some [1] := by decide +kernel
  have none : Toy.bob.store.sessions[Toy.alice]? = none := by decide +kernel
  generalize ran : (decryptPreKeyMessage Toy.suite Toy.alice Toy.first).alone accepting Toy.bob
    = run at read
  obtain ⟨outcome, s'⟩ := run
  obtain rfl := toOption_eq_some.mp read
  obtain ⟨keys, -, -, -, old⟩ := handshake_effect (Store.settled_of_none none) (by decide +kernel)
    (by decide +kernel) ran
  refine ⟨rfl, eq_true_of_ne_false fun other => ?_⟩
  -- an earlier session could only have been one of none
  obtain ⟨-, -, st, hst, -⟩ := old other
  rw [Store.sessionsWith, none] at hst
  cases hst

/-- A message of a session that is there already, in an envelope that names another base key and a
one-time pre-key: it is read, the pre-key is used up, and the session for the base key is stored,
although nobody has proved that it has the keys of that session. -/
theorem unproven_handshake :
    let s := Toy.bob.after Toy.suite Toy.alice [(.decryptPreKey Toy.first, accepting)]
    let forged := Toy.rewrap Toy.second (some 7) (Toy.keyPair 9).publicKey Toy.second.identity
    let run := (decryptPreKeyMessage Toy.suite Toy.alice forged).alone accepting s
    (s.store.loadSession Toy.alice).knows forged.version forged.baseKey.transmitted = false ∧
      run.1 = .ok [0] ∧
      (run.2.store.loadSession Toy.alice).current.baseKey ≠ some forged.baseKey.transmitted ∧
      (run.2.store.loadSession Toy.alice).knows forged.version forged.baseKey.transmitted ∧
      s.store.preKeys.contains 7 ∧ ¬run.2.store.preKeys.contains 7 := by
  refine ⟨?_, toOption_eq_some.mp ?_, ?_, ?_, ?_, ?_⟩
  all_goals decide +kernel

end DoubleRatchet
