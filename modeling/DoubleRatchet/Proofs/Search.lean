/-
DoubleRatchet/Proofs/Search.lean

Which session of a record reads a message, and what becomes of the others.

A message goes to the current session and then to the archived ones, newest first, up to
the first one that does not find it invalid:

    current   newer ...   st   older ...        st is the first that does not refuse
    ─────────────────────────────────────
    st'   current   newer ...   older ...       if st reads the message
    current   newer ...   st   older ...        if st has read it before

`Searched` says this without a loop: it has one case for each place and outcome, and the
reasons of all sessions if none is left.  A search ends as `Searched` says, and as nothing
else (`decrypt_eq_iff_searched`).
-/
import DoubleRatchet.Proofs.Once

namespace DoubleRatchet

section
variable (S : Suite) (m : RatchetMessage)

/-- One session after another finds a message invalid, each for a reason of its own. -/
inductive RefusedFor : List SessionState → List MessageFault → Entropy → Entropy → Prop
  | nil (e : Entropy) : RefusedFor [] [] e e
  | cons {st sts fault faults e e₁ e₂}
      (h : (SessionState.decrypt S st m).run e = (.error (.invalidMessage fault), e₁))
      (rest : RefusedFor sts faults e₁ e₂) : RefusedFor (st :: sts) (fault :: faults) e e₂

/-- How the search for a session ends, and what is left of the random bytes. -/
inductive Searched (r : SessionRecord) (e : Entropy) :
    Except Error (Bytes × SessionRecord) → Entropy → Prop
  /-- The current session reads the message, and the archive is not touched. -/
  | current {plain st e'} (opened : (r.current.decrypt S m).run e = (.ok (plain, st), e')) :
    Searched r e (.ok (plain, { r with current := st })) e'
  /-- An archived session reads it and becomes the current one; the one that was current goes to the
  front of the archive, as it is, and the others stay as and where they are. -/
  | archived {newer st older faults e₁ plain st' e'} (place : r.archive = newer ++ st :: older)
      (refused : RefusedFor S m (r.current :: newer) faults e e₁)
      (opened : (st.decrypt S m).run e₁ = (.ok (plain, st'), e')) :
    Searched r e (.ok (plain, ⟨st', r.current :: (newer ++ older), false⟩)) e'
  /-- A session has read it before: the search is over, and there is no other record. -/
  | duplicate {before st after faults e₁ index e'} (place : r.sessions = before ++ st :: after)
      (refused : RefusedFor S m before faults e e₁)
      (failed : (st.decrypt S m).run e₁ = (.error (.duplicateMessage index m.counter), e')) :
    Searched r e (.error (.duplicateMessage index m.counter)) e'
  /-- No session is left, and each has given its reason. -/
  | refused {faults e'} (refused : RefusedFor S m r.sessions faults e e') :
    Searched r e (.error (.invalidMessage (.noSession (faults.map (·.text))))) e'
  /-- A session would have to make a new key, and there are no random bytes. -/
  | starved {before st after faults e₁ e'} (dead : e.dead = true)
      (place : r.sessions = before ++ st :: after) (refused : RefusedFor S m before faults e e₁)
      (failed : (st.decrypt S m).run e₁ = (.error .noEntropy, e')) :
    Searched r e (.error .noEntropy) e'

end

section
variable {S : Suite} {m : RatchetMessage} {r : SessionRecord} {st : SessionState}
  {sts before after : List SessionState} {faults : List MessageFault} {e e' e₁ : Entropy}
  {err : Error} {outcome : Except Error (Bytes × SessionRecord)}

namespace RefusedFor

theorem refused (h : RefusedFor S m sts faults e e') : Refused S m sts e e' := by
  induction h with
  | nil e => exact .nil e
  | cons failed _ ih => exact .cons failed ih

/-- The reasons of those that have refused are passed on with the message. -/
theorem run_offer (h : RefusedFor S m before faults e e₁) (after : List SessionState)
    (reasons : List String) (position : Nat) :
    (offer S m reasons position (before ++ after)).run e
      = (offer S m (reasons ++ faults.map (·.text)) (position + before.length) after).run e₁ := by
  induction h generalizing reasons position with
  | nil e => rw [List.map_nil, List.append_nil]; rfl
  | @cons st sts fault faults e e₁ e₂ failed rest ih =>
    rw [List.cons_append, offer, Draw.run_bind, Draw.run_attempt, failed]
    show (offer S m (reasons ++ [fault.text]) (position + 1) (sts ++ after)).run e₁ = _
    rw [ih, List.map_cons, List.append_assoc, List.singleton_append, List.length_cons, Nat.add_assoc,
      Nat.add_comm 1]

/-- Some sessions all refuse a message, or there is a first one that does not. -/
theorem all_or_first (S : Suite) (m : RatchetMessage) (sts : List SessionState) (e : Entropy) :
    (∃ faults e', RefusedFor S m sts faults e e') ∨
      ∃ before st after faults e₁, sts = before ++ st :: after ∧ RefusedFor S m before faults e e₁ ∧
        ∀ fault, ((st.decrypt S m).run e₁).1 ≠ .error (.invalidMessage fault) := by
  induction sts generalizing e with
  | nil => exact .inl ⟨[], e, .nil e⟩
  | cons first sts ih =>
    by_cases invalid : ∃ fault, ((first.decrypt S m).run e).1 = .error (.invalidMessage fault)
    · obtain ⟨fault, failed⟩ := invalid
      have step : (first.decrypt S m).run e
          = (.error (.invalidMessage fault), ((first.decrypt S m).run e).2) := Prod.ext failed rfl
      rcases ih ((first.decrypt S m).run e).2 with ⟨faults, e', all⟩ |
        ⟨before, st, after, faults, e₁, rfl, refused, willing⟩
      · exact .inl ⟨fault :: faults, e', .cons step all⟩
      · exact .inr ⟨first :: before, st, after, fault :: faults, e₁, rfl, .cons step refused, willing⟩
    · exact .inr ⟨[], first, sts, [], e, rfl, .nil e, fun fault failed => invalid ⟨fault, failed⟩⟩

end RefusedFor

/-- A session that does not read a message finds it invalid or has read it before, or it would have to
make a new key and cannot. -/
theorem SessionState.decrypt_fails (h : (st.decrypt S m).run e = (.error err, e')) :
    (∃ fault, err = .invalidMessage fault) ∨ (∃ index, err = .duplicateMessage index m.counter) ∨
      (e.dead = true ∧ err = .noEntropy) := by
  rw [run_decrypt] at h
  split at h
  · cases h
    exact .inl ⟨_, rfl⟩
  split at h
  · cases h
    exact .inl ⟨_, rfl⟩
  rcases reach_cases st m.ratchetKey e with ⟨st₁, e₁, reached⟩ | ⟨fault, invalid⟩ | ⟨dead, starved⟩
  · rw [reached.run] at h
    rcases decryptOn_error (Prod.mk.inj h).1 with invalid | ⟨window, -, -, duplicate⟩
    · exact .inl invalid
    · exact .inr (.inl ⟨_, duplicate⟩)
  · rw [invalid] at h
    cases h
    exact .inl ⟨_, rfl⟩
  · rw [starved] at h
    cases h
    exact .inr (.inr ⟨dead, rfl⟩)

/-! ### What a search comes to -/

/-- An error that does not mean that a message is invalid ends the search. -/
theorem offer_of_final (refused : RefusedFor S m before faults e e₁)
    (failed : (st.decrypt S m).run e₁ = (.error err, e'))
    (final : ∀ fault, err ≠ .invalidMessage fault) :
    (offer S m [] 0 (before ++ st :: after)).run e = (.error err, e') := by
  rw [refused.run_offer, offer, Draw.run_bind, Draw.run_attempt, failed]
  cases err with
  | invalidMessage fault => exact absurd rfl (final fault)
  | _ => rfl

/-- In a full archive too, there is room for the session that was current where the one that has
become current was. -/
theorem SessionRecord.advance_archived {newer older : List SessionState} (st' : SessionState)
    (place : r.archive = newer ++ st :: older)
    (few : r.archive.length ≤ limits.archivedSessions) :
    r.advance (r.current :: newer).length st' = ⟨st', r.current :: (newer ++ older), false⟩ := by
  have erased : r.archive.eraseIdx newer.length = newer ++ older := by
    rw [place, List.eraseIdx_append_of_length_le (Nat.le_refl _), Nat.sub_self]
    rfl
  have room : (r.current :: (newer ++ older)).length ≤ limits.archivedSessions := by
    rw [place, List.length_append, List.length_cons] at few
    rw [List.length_cons, List.length_append]
    omega
  show SessionRecord.promote _ st' = _
  rw [promote, erased, List.take_of_length_le room]

/-- What the search comes to is what is run. -/
theorem Searched.run (h : Searched S m r e outcome e')
    (few : r.archive.length ≤ limits.archivedSessions) : (r.decrypt S m).run e = (outcome, e') := by
  cases h with
  | current opened =>
    have sessions : r.sessions = [] ++ r.current :: r.archive := rfl
    exact SessionRecord.run_decrypt_of_refused sessions (.nil e) opened
  | @archived newer st older faults e₁ plain st' _ place refused opened =>
    have sessions : r.sessions = (r.current :: newer) ++ st :: older := congrArg _ place
    rw [SessionRecord.run_decrypt_of_refused sessions refused.refused opened,
      SessionRecord.advance_archived st' place few]
  | duplicate place refused failed =>
    rw [SessionRecord.run_decrypt, place, offer_of_final refused failed nofun]
  | @refused faults _ refused =>
    have all := refused.run_offer [] [] 0
    rw [List.append_nil] at all
    rw [SessionRecord.run_decrypt, all]
    rfl
  | starved _ place refused failed =>
    rw [SessionRecord.run_decrypt, place, offer_of_final refused failed nofun]

/-- Every search comes to something. -/
theorem exists_searched (r : SessionRecord) (m : RatchetMessage) (e : Entropy) :
    ∃ outcome e', Searched S m r e outcome e' := by
  rcases RefusedFor.all_or_first S m r.sessions e with ⟨faults, e', all⟩ |
    ⟨before, st, after, faults, e₁, place, refused, willing⟩
  · exact ⟨_, e', .refused all⟩
  rcases ran : (st.decrypt S m).run e₁ with ⟨err | ⟨plain, st'⟩, e'⟩
  · rw [ran] at willing
    rcases SessionState.decrypt_fails ran with ⟨fault, rfl⟩ | ⟨index, rfl⟩ | ⟨dead, rfl⟩
    · exact absurd rfl (willing fault)
    · exact ⟨_, e', .duplicate place refused ran⟩
    · rw [refused.refused.before.dead_eq] at dead
      exact ⟨_, e', .starved dead place refused ran⟩
  · -- the one that reads it is the current one, or one of the archive
    rcases before with - | ⟨first, newer⟩
    · obtain ⟨rfl, -⟩ := List.cons.inj place
      cases refused
      exact ⟨_, e', .current ran⟩
    · obtain ⟨rfl, archive⟩ := List.cons.inj place
      exact ⟨_, e', .archived archive refused ran⟩

/-- **A search loses nothing.**  A message is decrypted by the first session of the record, the
current one first and then the archived ones from the front, that does not find it invalid.  If that
session reads it, it becomes the current one as it is then; where it was archived, the one that was
current is the first of the archive, unchanged, and the others are unchanged behind it in their
order, as many as before.  If it has read the message before, or if there is none, nothing is
changed, and the error is that of the session, or names the reasons of all, in order. -/
theorem decrypt_eq_iff_searched (few : r.archive.length ≤ limits.archivedSessions) :
    (r.decrypt S m).run e = (outcome, e') ↔ Searched S m r e outcome e' := by
  constructor
  · intro ran
    obtain ⟨outcome', e₁, searched⟩ := exists_searched (S := S) r m e
    rw [searched.run few] at ran
    cases ran
    exact searched
  · intro searched
    exact searched.run few

end

/-! ### A session in the middle of the archive -/

namespace Toy

/-- The session with the peer, behind one that is not with it and an empty one, and before another. -/
def shelved : SessionRecord :=
  let record := (bob.after suite alice [(.decryptPreKey first, accepting)]).store.loadSession alice
  { current := session, archive := [.empty, record.current, session], fresh := false }

end Toy

/-- Two sessions refuse a message, the third one reads it, and the other three keep their order. -/
theorem decrypt_eq_iff_searched_shelved :
    let run := (Toy.shelved.decrypt Toy.suite Toy.second.message).run Toy.bob.entropy
    Toy.shelved.archive.length ≤ limits.archivedSessions ∧
      Searched Toy.suite Toy.second.message Toy.shelved Toy.bob.entropy run.1 run.2 ∧
      run.1.toOption.map (fun (plain, record) => (plain, record.archive))
        = some ([0], [Toy.session, .empty, Toy.session]) := by
  intro run
  have few : Toy.shelved.archive.length ≤ limits.archivedSessions := by decide +kernel
  refine ⟨few, (decrypt_eq_iff_searched few).mp (Prod.eta run).symm, ?_⟩
  decide +kernel

end DoubleRatchet
