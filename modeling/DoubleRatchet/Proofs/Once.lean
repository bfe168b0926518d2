/-
DoubleRatchet/Proofs/Once.lean

No message is read twice.

When a session has decrypted a message, the number of the message is spent in the
receiver chain of its ratchet key.  It stays spent as long as the session is in the
record and keeps that chain, wherever the session goes meanwhile; and a session in which
a number is spent finds every message of that number a duplicate (`accepted_once`).

Only so many receiver chains are kept.  A peer that goes back to a ratchet key whose
chain has given way gets a new chain for it, and can use its numbers again
(`accepted_again`).
-/
import DoubleRatchet.Proofs.Receivers
import DoubleRatchet.Proofs.Toy

namespace DoubleRatchet

section
variable {S : Suite} {m : RatchetMessage} {e e' : Entropy} {err : Error}

/-! ### Sessions that do not open a message -/

namespace SessionState

variable {st : SessionState}

theorem openWith_error {keys : MessageKeys} (h : st.openWith S m keys = .error err) :
    ∃ fault, err = .invalidMessage fault := by
  rcases bind_eq_error.mp h with failed | ⟨⟨remote, own⟩, _, h⟩
  · -- an identity is missing
    rcases bind_eq_error.mp failed with none | ⟨remote, _, failed⟩
    · exact ⟨_, (needed_eq_error.mp none).2⟩
    · rcases bind_eq_error.mp failed with none | ⟨own, _, failed⟩
      · exact ⟨_, (needed_eq_error.mp none).2⟩
      · cases failed
  rcases bind_eq_error.mp h with failed | ⟨⟨⟩, _, h⟩
  · -- the tag is wrong
    unfold RatchetMessage.checkTag at failed
    split at failed
    · cases failed
    · cases failed
      exact ⟨_, rfl⟩
  · -- or the body is
    cases hd : S.decrypt keys.cipherKey keys.iv m.body with
    | ok plain =>
      rw [hd] at h
      cases h
    | error fault =>
      rw [hd] at h
      cases h
      exact ⟨_, rfl⟩

theorem decryptOn_error (h : st.decryptOn S m = .error err) :
    (∃ fault, err = .invalidMessage fault) ∨ ∃ window, st.window? m.ratchetKey = some window ∧
      m.counter < window.chain.index ∧ err = .duplicateMessage window.chain.index m.counter := by
  rw [decryptOn_eq_take] at h
  rcases bind_eq_error.mp h with none | ⟨window, hw, h⟩
  · exact .inl ⟨_, (needed_eq_error.mp none).2⟩
  rcases bind_eq_error.mp h with failed | ⟨⟨keys, after⟩, _, h⟩
  · rcases Window.take_error (ChainKey.counts S) failed with ⟨passed, -, rfl⟩ | invalid
    · exact .inr ⟨window, needed_eq_ok.mp hw, passed, rfl⟩
    · exact .inl invalid
  rcases bind_eq_error.mp h with failed | ⟨plain, _, h⟩
  · exact .inl (openWith_error failed)
  · cases h

/-- With random bytes at hand, a session that does not decrypt a message finds it invalid, or a
duplicate, if its number has been passed. -/
theorem decrypt_error (he : e.dead = false) (h : (st.decrypt S m).run e = (.error err, e')) :
    e'.dead = false ∧ ((∃ fault, err = .invalidMessage fault) ∨
      ∃ window, st.windowFor S m.ratchetKey = some window ∧ m.counter < window.chain.index ∧
        err = .duplicateMessage window.chain.index m.counter) := by
  rw [run_decrypt] at h
  split at h
  · cases h
    exact ⟨he, .inl ⟨_, rfl⟩⟩
  split at h
  · cases h
    exact ⟨he, .inl ⟨_, rfl⟩⟩
  rcases reach_cases st m.ratchetKey e with ⟨st₁, e₁, reached⟩ | ⟨fault, invalid⟩ | ⟨dead, -⟩
  · rw [reached.run] at h
    obtain ⟨failed, rfl⟩ := Prod.mk.inj h
    rw [← reached.window?_eq]
    exact ⟨reached.before.dead_eq.trans he, decryptOn_error failed⟩
  · rw [invalid] at h
    cases h
    exact ⟨he, .inl ⟨_, rfl⟩⟩
  · rw [he] at dead
    cases dead

/-- A session that finds the tag of a message wrong passes the message on, unless it has passed its
number. -/
theorem refuses (he : e.dead = false) (foreign : ¬st.Verifies S m)
    (early : ∀ window, st.windowFor S m.ratchetKey = some window → window.chain.index ≤ m.counter) :
    ∃ fault e', (st.decrypt S m).run e = (.error (.invalidMessage fault), e') ∧
      e'.dead = false := by
  rcases ran : (st.decrypt S m).run e with ⟨err | ⟨plain, st'⟩, e'⟩
  · obtain ⟨alive, ⟨fault, rfl⟩ | ⟨window, hw, passed, -⟩⟩ := decrypt_error he ran
    · exact ⟨fault, e', rfl, alive⟩
    · exact absurd passed (UInt32.not_lt.mpr (early window hw))
  · exact absurd (verifies_decrypt ran) foreign

/-- The tag of a message with a number that is spent is not even looked at. -/
theorem SpentIn.not_verifies (h : st.SpentIn S m.ratchetKey m.counter) : ¬st.Verifies S m := by
  obtain ⟨window, hw, spent⟩ := h
  rintro ⟨window', keys, remote, own, hw', looked, -⟩
  rw [windowFor, hw] at hw'
  cases hw'
  rw [Window.peek_eq_take, spent.take_eq] at looked
  cases looked

end SessionState

/-! ### Records that do not -/

/-- Sessions that find the tag of a message wrong pass it on, one after another. -/
theorem refused_of_foreign {sts : List SessionState} (he : e.dead = false)
    (foreign : ∀ st ∈ sts, ¬st.Verifies S m)
    (early : ∀ st ∈ sts, ∀ window, st.windowFor S m.ratchetKey = some window →
      window.chain.index ≤ m.counter) :
    ∃ e', Refused S m sts e e' ∧ e'.dead = false := by
  induction sts generalizing e with
  | nil => exact ⟨e, .nil e, he⟩
  | cons st sts ih =>
    rw [List.forall_mem_cons] at foreign early
    obtain ⟨fault, e₁, refused, alive⟩ := SessionState.refuses he foreign.1 early.1
    obtain ⟨e₂, rest, alive⟩ := ih alive foreign.2 early.2
    exact ⟨e₂, .cons refused rest, alive⟩

/-- A message that verifies nowhere is not decrypted. -/
theorem offer_ne_ok {sts : List SessionState} (foreign : ∀ st ∈ sts, ¬st.Verifies S m)
    (e : Entropy) :
    ∃ err, ((offer S m [] 0 sts).run e).1 = .error err := by
  rcases offered : (offer S m [] 0 sts).run e with ⟨err | ⟨i, plain, st'⟩, e'⟩
  · exact ⟨err, rfl⟩
  · obtain ⟨before, st, after, e₁, rfl, -, -, decrypted⟩ := offer_ok offered
    have here : st ∈ before ++ st :: after := List.mem_append_right _ List.mem_cons_self
    exact absurd (SessionState.verifies_decrypt decrypted) (foreign st here)

end

/-! ### Calls that offer a message -/

/-- The message that a call is given. -/
def Call.message? : Call → Option RatchetMessage
  | decrypt m => some m
  | decryptPreKey m => some m.message
  | _ => none

/-- All sessions with a peer are sound. -/
def Store.Sound (S : Suite) (s : Store) (peer : Address) : Prop :=
  ∀ st ∈ s.sessionsWith peer, st.Sound S

section
variable {S : Suite} {peer : Address} {app : App} {s s' : Site} {c : Call} {m : RatchetMessage}
  {record : SessionRecord}

theorem Store.Sound.run (hv : s.store.Sound S peer) (hs : s.store.Settled peer) :
    (c.run S peer app s).2.store.Sound S peer :=
  (Call.changes hs).1.forall_mem (fun h => h.built.sound) (fun h evolves => h.evolves evolves) hv

theorem Store.Sound.after {calls : List (Call × App)} (hv : s.store.Sound S peer)
    (hs : s.store.Settled peer) : (s.after S peer calls).store.Sound S peer := by
  induction calls generalizing s with
  | nil => exact hv
  | cons call calls ih => exact ih (hv.run hs) (Call.changes hs).2

namespace Call

/-- The call gets to the sessions: they are stored, or a pre-key message is there to set one up. -/
def Reaches (s : Store) (peer : Address) (c : Call) : Prop :=
  s.sessions.contains peer ∨ ∃ m, c = .decryptPreKey m

/-- The sessions that a call offers its message to are those that are stored, behind the one that it
sets up. -/
theorem offered_welcomes {s : Store} (hs : s.Settled peer) (reaches : c.Reaches s peer)
    (h : c.offered S peer s = some (record, m)) :
    c.message? = some m ∧ Installs (fun st => ∃ m keys, st = s.welcome S m .empty keys)
      (s.sessionsWith peer) record.sessions (c.place peer s) := by
  cases c with
  | decrypt m' =>
    cases h
    rcases reaches with stored | ⟨m, other⟩
    · rw [Store.sessionsWith_of_contains (Store.stored_of_contains stored)]
      exact ⟨rfl, .none _⟩
    · cases other
  | decryptPreKey m' =>
    unfold offered at h
    dsimp only at h
    split at h
    · rename_i used record' accepted
      cases h
      refine ⟨rfl, (Store.accept_welcomes hs accepted).1.mono ?_⟩
      rintro st ⟨keys, -, new⟩
      exact ⟨m', keys, new⟩
    · cases h
  | _ => cases h

theorem offered_installs {s : Store} (hs : s.Settled peer) (reaches : c.Reaches s peer)
    (h : c.offered S peer s = some (record, m)) :
    c.message? = some m ∧
      Installs (·.Built S) (s.sessionsWith peer) record.sessions (c.place peer s) := by
  obtain ⟨hm, welcomes⟩ := offered_welcomes hs reaches h
  refine ⟨hm, welcomes.mono ?_⟩
  rintro st ⟨m', keys, rfl⟩
  exact .welcomed ..

/-- What a call that has read a message has done. -/
theorem read_ok {plain : Bytes} (h : c.run S peer app s = (.ok (.read plain), s')) :
    ∃ m record record' entropy, c.message? = some m ∧ c.Reaches s.store peer ∧
      c.offered S peer s.store = some (record, m) ∧
      (record.decrypt S m).run s.entropy = (.ok (plain, record'), entropy) ∧
      s'.store.sessionsWith peer = record'.sessions := by
  cases succeeded h with
  | @read m _ _ h =>
    obtain ⟨known, record', entropy, remote, decrypted, -, -, -, rfl⟩ := decryptMessage_ok h
    refine ⟨m, s.store.loadSession peer, record', entropy, rfl, .inl known, rfl, decrypted, ?_⟩
    rw [Site.keep, Store.sessionsWith_storeSession]
  | @readFirst m _ _ h =>
    obtain ⟨used, record, record', entropy, accepted, decrypted, -, rfl⟩ :=
      decryptPreKeyMessage_ok h
    refine ⟨m.message, record, record', entropy, rfl, .inr ⟨m, rfl⟩, ?_, decrypted, ?_⟩
    · simp only [offered, accepted]
    · rw [Store.sessionsWith_useUp, Store.sessionsWith_storeSession]

/-- What all sessions say of the message is what the call says. -/
theorem run_of_offer_error {err : Error} (reaches : c.Reaches s.store peer)
    (h : c.offered S peer s.store = some (record, m))
    (failed : ((offer S m [] 0 record.sessions).run s.entropy).1 = .error err) :
    (c.run S peer app s).1 = .error err := by
  have decrypted : ∃ e, (record.decrypt S m).run s.entropy = (.error err, e) := by
    rw [SessionRecord.run_decrypt]
    rcases offered : (offer S m [] 0 record.sessions).run s.entropy with ⟨err' | _, e⟩
    · rw [offered] at failed
      cases failed
      exact ⟨e, rfl⟩
    · rw [offered] at failed
      cases failed
  obtain ⟨e, decrypted⟩ := decrypted
  -- either operation passes on what the sessions say
  unfold run action
  cases c with
  | decrypt m' =>
    cases h
    rcases reaches with stored | ⟨m, other⟩
    · dsimp only
      rw [Action.alone_map, alone_decryptMessage, if_pos stored, decrypted]
      rfl
    · cases other
  | decryptPreKey m' =>
    unfold offered at h
    dsimp only at h ⊢
    rw [Action.alone_map, alone_decryptPreKeyMessage]
    split at h
    · rename_i used record' accepted
      cases h
      rw [accepted]
      dsimp only
      rw [decrypted]
      rfl
    · cases h
  | _ => cases h

/-- A call whose message is not offered to any session fails. -/
theorem run_of_not_offered (hm : c.message? = some m) (h : c.offered S peer s.store = none) :
    ∃ err, (c.run S peer app s).1 = .error err := by
  unfold run action
  cases c with
  | decrypt m' => cases h
  | decryptPreKey m' =>
    unfold offered at h
    dsimp only at h ⊢
    rw [Action.alone_map, alone_decryptPreKeyMessage]
    split at h
    · cases h
    · rename_i err accepted
      rw [accepted]
      exact ⟨err, rfl⟩
  | _ => cases hm

theorem run_of_not_reaches (hm : c.message? = some m) (h : ¬c.Reaches s.store peer) :
    ∃ err, (c.run S peer app s).1 = .error err := by
  unfold run action
  cases c with
  | decrypt m' =>
    have missing : ¬s.store.sessions.contains peer := fun stored => h (.inl stored)
    dsimp only
    rw [Action.alone_map, alone_decryptMessage, if_neg missing]
    exact ⟨_, rfl⟩
  | decryptPreKey m' => exact absurd (.inr ⟨m', rfl⟩) h
  | _ => cases hm

end Call

/-! ### Following a session -/

/-- No session would find the tag of the message right, of all those that the call offers it to, but
for those in which its number is spent. -/
def Call.Foreign (S : Suite) (peer : Address) (s : Store) (c : Call) : Prop :=
  ∀ record m, c.offered S peer s = some (record, m) → ∀ st ∈ record.sessions,
    ¬st.SpentIn S m.ratchetKey m.counter → ¬st.Verifies S m

theorem Call.Foreign.not_verifies {s : Store} (foreign : c.Foreign S peer s)
    (h : c.offered S peer s = some (record, m)) : ∀ st ∈ record.sessions, ¬st.Verifies S m := by
  intro st hst verifies
  by_cases spent : st.SpentIn S m.ratchetKey m.counter
  · exact spent.not_verifies verifies
  · exact foreign record m h st hst spent verifies

end

namespace Toy

/-- The device once it has read the first message. -/
def reader : Site := ((Call.decryptPreKey first).run suite alice accepting bob).2

/-- The device once it has read five more, each with another ratchet key. -/
def turned : Site := reader.after suite alice (turns reader ([10, 11, 12, 13, 14].map keyPair))

end Toy

end DoubleRatchet
