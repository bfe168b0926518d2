/-
DoubleRatchet/Proofs/SetUps.lean

One record, and pre-key messages one after another.

A record may stay in memory while several pre-key messages are processed on it, and it may
be written down and loaded again at any time between them:

    record ── message ── message ── reload ── message ──→

Whether the current session is moved to the archive depends on the mark of a fresh record.
The mark is not written down, so a record that has been loaded has none, and then every
message moves the current session; and a message does not take the mark away.  So what is
said here of a record is said where the mark tells the truth, that is, where a record
marked fresh has no session (`MarkHolds`): a loaded record is always so, and a fresh one
is until something has been put into it.

There a message whose session is not in the record puts it in front and loses none, but for
the oldest ones; one whose session is there leaves the record as it is; and it makes no
difference to a loaded record when, or how often, it is loaded again
(`set_ups_keep_sessions`).
-/
import DoubleRatchet.Proofs.Calls
import DoubleRatchet.Proofs.Layouts
import DoubleRatchet.Proofs.Requests
import DoubleRatchet.Proofs.Toy

namespace DoubleRatchet

variable {S : Suite} {peer : Address} {m : PreKeyMessage}

/-! ### What a program may give, and what it gives -/

theorem Program.Gives.run {σ α : Type} {q : α → Prop} {x : Program α} (h : x.Gives q)
    (around : Surroundings (StateM σ)) (s : σ) : q ((x.run around).run s).1 := by
  induction x generalizing s with
  | done a => exact h
  | ask r next ih => exact ih _ (h _) _
  | draw x next ih => exact ih _ (h _) _

/-! ### Records -/

namespace SessionRecord

variable {r : SessionRecord} {st : SessionState}

/-- If the record is marked as fresh, it has no session. -/
def MarkHolds (r : SessionRecord) : Prop := r.fresh = true → r.current = .empty

theorem markHolds_of_old (old : r.fresh = false) : r.MarkHolds := fun fresh => by
  rw [old] at fresh
  cases fresh

/-- Making room does not change the mark. -/
@[simp] theorem fresh_makeRoom (r : SessionRecord) : r.makeRoom.fresh = r.fresh := by
  unfold makeRoom
  split
  · rfl
  · next old => exact (eq_false_of_ne_true old).symm

/-- Behind a new session are all those that were there, but for the oldest ones. -/
theorem MarkHolds.kept_makeRoom (h : r.MarkHolds) :
    ((r.sessions.take limits.archivedSessions).filter (· ≠ .empty)).Sublist r.makeRoom.archive := by
  by_cases fresh : r.fresh = true
  · -- there is no current session to keep
    have archive : r.makeRoom.archive = r.archive := by rw [makeRoom, if_pos fresh]
    have none : ([SessionState.empty].filter (· ≠ .empty)) = [] := by simp
    rw [archive, sessions, h fresh, show limits.archivedSessions = 39 + 1 from rfl,
      List.take_succ_cons, ← List.singleton_append, List.filter_append, none, List.nil_append]
    exact List.filter_sublist.trans (List.take_sublist _ _)
  · have archive : r.makeRoom.archive = r.sessions.take limits.archivedSessions := by
      rw [makeRoom, if_neg fresh]
      rfl
    rw [archive]
    exact List.filter_sublist

theorem few_makeRoom (few : r.archive.length ≤ limits.archivedSessions) :
    r.makeRoom.archive.length ≤ limits.archivedSessions := by
  unfold makeRoom
  split
  · exact few
  · exact List.length_take_le _ _

/-! ### Writing down and loading -/

/-- A record is loaded as it was written down, without its mark. -/
theorem Storable.load_write (h : r.Storable) :
    SessionRecord.format.load (SessionRecord.format.write r) = .ok r.stored :=
  SessionRecord.exact_format.load_iff.mpr ⟨⟨⟨h.archive, h.sessions⟩, rfl⟩, List.prefix_rfl⟩

theorem Storable.stored (h : r.Storable) : r.stored.Storable := ⟨h.archive, h.sessions⟩

theorem Storable.replace (h : r.Storable) (hst : st.Storable) :
    Storable { r with current := st } where
  archive := h.archive
  sessions := List.forall_mem_cons.mpr ⟨hst, (List.forall_mem_cons.mp h.sessions).2⟩

theorem storable_empty : SessionState.empty.Storable := ⟨by decide, nofun, nofun⟩

theorem Storable.makeRoom (h : r.Storable) : r.makeRoom.Storable := by
  unfold SessionRecord.makeRoom
  split
  · exact h
  · refine ⟨Nat.lt_of_le_of_lt (List.length_take_le _ _) (by decide), ?_⟩
    exact List.forall_mem_cons.mpr ⟨storable_empty, fun st mem => h.sessions st (List.mem_of_mem_take mem)⟩

end SessionRecord

theorem SessionState.Storable.respond {st : SessionState} (h : st.Storable) (keys : ResponderKeys) :
    (st.respond S keys).Storable := ⟨h.receiverChains, h.skipped, h.baseKey⟩

theorem SessionState.Storable.welcome {st : SessionState} (h : st.Storable) (device : Store)
    (keys : ResponderKeys) : (device.welcome S m st keys).Storable where
  receiverChains := h.receiverChains
  skipped := h.skipped
  baseKey := by
    rintro baseKey ⟨⟩
    show Counted (st.baseKey.getD m.baseKey.transmitted)
    cases named : st.baseKey with
    | none =>
      show m.baseKey.transmitted.length < _
      rw [PublicKey.length_transmitted]
      decide
    | some name => exact h.baseKey name named

/-- A session that is set up over another one keeps a name that this one has. -/
theorem Store.welcome_isFor_iff (device : Store) (st : SessionState) (keys : ResponderKeys)
    (version : m.version = currentVersion) :
    (device.welcome S m st keys).isFor m.version m.baseKey.transmitted ↔
      ∀ name ∈ st.baseKey, name = m.baseKey.transmitted := by
  cases named : st.baseKey <;>
    simp [SessionState.isFor, Store.welcome, SessionState.nameAfter, SessionState.respond,
      SessionState.between, version, named]

/-! ### One message -/

/-- The record that a new session has been put into by a message. -/
def SessionRecord.enrol (S : Suite) (r : SessionRecord) (m : PreKeyMessage) (device : Store)
    (keys : ResponderKeys) : SessionRecord :=
  { r.makeRoom with current := device.welcome S m r.makeRoom.current keys }

/-- All that can become of a record when a message is processed, whatever the store answers. -/
inductive PreKeyMessage.Effect (S : Suite) (m : PreKeyMessage) (r : SessionRecord) :
    Except Error (Option UInt32) → SessionRecord → Prop
  | failed (e) : Effect S m r (.error e) r
  | known (h : r.knows m.version m.baseKey.transmitted) : Effect S m r (.ok none) r
  /-- The store has failed while the session was being set up. -/
  | halfway (unknown : r.knows m.version m.baseKey.transmitted = false) (keys e) :
    Effect S m r (.error e) { r.makeRoom with current := r.makeRoom.current.respond S keys }
  /-- The store has failed to save the identity. -/
  | unsaved (unknown : r.knows m.version m.baseKey.transmitted = false) (device keys e) :
    Effect S m r (.error e) (r.enrol S m device keys)
  | enrolled (unknown : r.knows m.version m.baseKey.transmitted = false) (device keys) :
    Effect S m r (.ok (m.preKeyId.filter (· != lastResortPreKey))) (r.enrol S m device keys)

section
variable {r r' : SessionRecord} {answer : Except Error (Option UInt32)}

/-- Keys are asked for just for a session that is not there. -/
theorem gives_findKeys (peer : Address) (r : SessionRecord) (m : PreKeyMessage) :
    Program.Gives (fun found => ∀ keys, found = .ok keys →
      r.knows m.version m.baseKey.transmitted = keys.isNone) (findKeys peer r m).run := by
  unfold findKeys
  rw [ExceptT.run_bind]
  refine Program.Gives.bind _ fun trusted => ?_
  cases trusted with
  | error e => exact nofun
  | ok _ =>
    dsimp only
    split
    · next known =>
      rintro keys ⟨⟩
      exact known
    next unknown =>
    have unknown := eq_false_of_ne_true unknown
    rw [ExceptT.run_bind]
    refine Program.Gives.bind _ fun signed => ?_
    cases signed with
    | error e => exact nofun
    | ok signedPreKey =>
      dsimp only
      rw [ExceptT.run_bind]
      refine Program.Gives.bind _ fun found => ?_
      cases found with
      | error e => exact nofun
      | ok oneTimePreKey =>
        dsimp only
        rw [ExceptT.run_bind]
        refine Program.Gives.bind _ fun identity => ?_
        cases identity with
        | error e => exact nofun
        | ok own =>
          rintro keys ⟨⟩
          exact unknown

theorem gives_effect (S : Suite) (peer : Address) (r : SessionRecord) (m : PreKeyMessage) :
    (acceptSession S peer r m).Gives fun (answer, r') => m.Effect S r answer r' := by
  refine (gives_findKeys peer r m).bind_of fun found asked => ?_
  rcases found with e | _ | keys
  · exact .failed e
  · refine Program.Gives.bind _ fun saved => ?_
    cases saved with
    | error e => exact .failed e
    | ok _ => exact .known (asked none rfl)
  · have unknown := asked (some keys) rfl
    refine Program.Gives.bind _ fun answer => ?_
    cases answer with
    | error e => exact .halfway unknown keys e
    | ok registrationId =>
      refine Program.Gives.bind _ fun saved => ?_
      -- of the device, only the registration number is in the session
      cases saved with
      | error e => exact .unsaved unknown { identity := keys.identity, registrationId } keys e
      | ok _ => exact .enrolled unknown { identity := keys.identity, registrationId } keys

namespace PreKeyMessage.Effect

theorem fresh_eq (h : m.Effect S r answer r') : r'.fresh = r.fresh := by
  cases h <;> first | rfl | exact r.fresh_makeRoom

theorem storable (h : m.Effect S r answer r') (storable : r.Storable) : r'.Storable := by
  have room := storable.makeRoom
  have current := (List.forall_mem_cons.mp room.sessions).1
  cases h with
  | failed | known => exact storable
  | halfway unknown keys e => exact room.replace (current.respond keys)
  | unsaved unknown device keys e => exact room.replace (current.welcome device keys)
  | enrolled unknown device keys => exact room.replace (current.welcome device keys)

theorem kept (h : m.Effect S r answer r') (mark : r.MarkHolds) :
    ((r.sessions.take limits.archivedSessions).filter (· ≠ .empty)).Sublist r'.sessions := by
  cases h with
  | failed | known => exact List.filter_sublist.trans (List.take_sublist _ _)
  | halfway | unsaved | enrolled => exact mark.kept_makeRoom.cons _

theorem few (h : m.Effect S r answer r') (few : r.archive.length ≤ limits.archivedSessions) :
    r'.archive.length ≤ limits.archivedSessions := by
  cases h with
  | failed | known => exact few
  | halfway | unsaved | enrolled => exact SessionRecord.few_makeRoom few

end PreKeyMessage.Effect

/-- The session that a message has put into a record is found there, unless it has been given the
name of a session that was there before it. -/
theorem SessionRecord.knows_enrol (device : Store) (keys : ResponderKeys)
    (version : m.version = currentVersion)
    (unknown : r.knows m.version m.baseKey.transmitted = false) :
    (r.enrol S m device keys).knows m.version m.baseKey.transmitted ↔
      (r.fresh = true → ∀ name ∈ r.current.baseKey, name = m.baseKey.transmitted) := by
  have others : ∀ st ∈ r.makeRoom.archive, st.isFor m.version m.baseKey.transmitted = false := by
    intro st mem
    have there : st ∈ r.current :: r.archive := by
      unfold makeRoom at mem
      split at mem
      · exact List.mem_cons_of_mem _ mem
      · exact List.mem_of_mem_take mem
    exact eq_false_of_ne_true (List.any_eq_false.mp unknown st there)
  have front : (r.enrol S m device keys).knows m.version m.baseKey.transmitted
      = (device.welcome S m r.makeRoom.current keys).isFor m.version m.baseKey.transmitted := by
    show (_ || r.makeRoom.archive.any _) = _
    rw [List.any_eq_false.mpr fun st mem => by rw [others st mem]; exact Bool.false_ne_true,
      Bool.or_false]
    rfl
  rw [front, Store.welcome_isFor_iff device _ keys version]
  unfold makeRoom
  split
  · next fresh => simp [fresh]
  · next old => simp [old, retire, promote, SessionState.empty]

/-- What a message leaves of a record. -/
structure PreKeyMessage.SetsUp (S : Suite) (m : PreKeyMessage) (r : SessionRecord)
    (answer : Except Error (Option UInt32)) (r' : SessionRecord) : Prop where
  /-- The session of the message is there then, unless its name went to a session that had one and
  was held to be none. -/
  knows : answer.isOk → (r'.knows m.version m.baseKey.transmitted ↔
    r.knows m.version m.baseKey.transmitted ∨
      (r.fresh = true → ∀ name ∈ r.current.baseKey, name = m.baseKey.transmitted))
  /-- Sessions that were there are there in their order, but for the oldest ones. -/
  kept : r.MarkHolds →
    ((r.sessions.take limits.archivedSessions).filter (· ≠ .empty)).Sublist r'.sessions
  few : r.archive.length ≤ limits.archivedSessions → r'.archive.length ≤ limits.archivedSessions
  /-- A pre-key is used up only for a new session. -/
  used : ∀ id, answer = .ok (some id) → m.preKeyId = some id ∧ id ≠ lastResortPreKey ∧
    r.knows m.version m.baseKey.transmitted = false ∧ ∃ device keys, r' = r.enrol S m device keys
  /-- A session that is there is not set up again. -/
  again : r.knows m.version m.baseKey.transmitted → r' = r ∧ ∀ used, answer = .ok used → used = none

theorem PreKeyMessage.Effect.setsUp (h : m.Effect S r answer r') (version : m.version = currentVersion) :
    m.SetsUp S r answer r' where
  knows ok := by
    cases h with
    | failed | halfway | unsaved => cases ok
    | known known => simp [known]
    | enrolled unknown device keys =>
      rw [SessionRecord.knows_enrol device keys version unknown, unknown]
      simp only [Bool.false_eq_true, false_or]
  kept := h.kept
  few := h.few
  used id same := by
    cases h with
    | failed | halfway | unsaved => cases same
    | known known => cases same
    | enrolled unknown device keys =>
      obtain ⟨asked, ordinary⟩ := Option.filter_eq_some_iff.mp (Except.ok.inj same)
      exact ⟨asked, by simpa using ordinary, unknown, device, keys, rfl⟩
  again known := by
    cases h with
    | failed e => exact ⟨rfl, nofun⟩
    | known => exact ⟨rfl, fun used same => (Except.ok.inj same).symm⟩
    | halfway unknown | unsaved unknown | enrolled unknown =>
      rw [unknown] at known
      cases known

end

/-! ### A message whose session is there -/

section
variable {σ : Type} {around : Surroundings (StateM σ)} {r : SessionRecord} {s s₁ s₂ : σ} {new : Bool}

/-- A message whose session is there is accepted, if its identity is trusted and saved. -/
theorem run_acceptSession_known (known : r.knows m.version m.baseKey.transmitted)
    (trusted : (around.answer (.store (.isTrusted peer m.identity .receiving))).run s = (.ok true, s₁))
    (saved : (around.answer (.store (.saveIdentity peer m.identity))).run s₁ = (.ok new, s₂)) :
    ((acceptSession S peer r m).run around).run s = ((.ok none, r), s₂) := by
  have trusts : (Program.run around (requireTrust peer m.identity .receiving).run).run s
      = (.ok (), s₁) := by
    show ((around.answer _ >>= fun reply => Program.run around _)).run s = _
    rw [StateT.run_bind, trusted]
    rfl
  have found : (Program.run around (findKeys peer r m).run).run s = (.ok none, s₁) := by
    unfold findKeys
    rw [ExceptT.run_bind, Program.run_bind, StateT.run_bind, trusts]
    show (Program.run around (ExceptT.run (if r.knows _ _ then _ else _))).run s₁ = _
    rw [if_pos known]
    rfl
  unfold acceptSession
  rw [Program.run_bind, StateT.run_bind, found]
  show ((around.answer _ >>= fun reply => Program.run around _)).run s₁ = _
  rw [StateT.run_bind, saved]
  rfl

end

/-! ### Messages and reloads in turn -/

/-- What is done with a record that is kept in memory. -/
inductive Turn where
  | process (m : PreKeyMessage)
  /-- The record is written down and loaded again. -/
  | reload
  deriving DecidableEq

namespace Turn

section
variable {σ : Type} (S : Suite) (around : Surroundings (StateM σ)) (peer : Address)

/-- One turn on a record, where the store is in a state: the answer, if any, and what has become of
both. -/
def step : Turn → SessionRecord → σ →
    Except Error (List (Except Error (Option UInt32)) × SessionRecord × σ)
  | process m, r, s =>
    let ((answer, r), s) := ((acceptSession S peer r m).run around).run s
    .ok ([answer], r, s)
  | reload, r, s => do
    return ([], ← SessionRecord.format.load (SessionRecord.format.write r), s)

/-- Turns one after another, and all answers. -/
def run : List Turn → SessionRecord → σ →
    Except Error (List (Except Error (Option UInt32)) × SessionRecord × σ)
  | [], r, s => .ok ([], r, s)
  | turn :: turns, r, s => do
    let (answers, r, s) ← turn.step S around peer r s
    let (others, r, s) ← run turns r s
    return (answers ++ others, r, s)

end

section
variable {σ : Type} {around : Surroundings (StateM σ)} {r r' : SessionRecord} {s s' : σ}

theorem run_cons {turn : Turn} {answers : List (Except Error (Option UInt32))}
    (stepped : turn.step S around peer r s = .ok (answers, r', s')) (turns : List Turn) :
    run S around peer (turn :: turns) r s
      = (fun out => (answers ++ out.1, out.2)) <$> run S around peer turns r' s' := by
  rw [run, stepped]
  show (run S around peer turns r' s' >>= fun out => Except.ok (answers ++ out.1, out.2)) = _
  cases run S around peer turns r' s' <;> rfl

/-- A turn on a record that can be written down leaves one, which is fresh only if there has been
no reload. -/
theorem step_ok (S : Suite) (around : Surroundings (StateM σ)) (peer : Address) (storable : r.Storable)
    (turn : Turn) (s : σ) :
    ∃ answers r' s', turn.step S around peer r s = .ok (answers, r', s') ∧ r'.Storable ∧
      (r.fresh = false ∨ turn = .reload → r'.fresh = false) := by
  cases turn with
  | process m =>
    have effect := (gives_effect S peer r m).run around s
    refine ⟨_, _, _, rfl, effect.storable storable, ?_⟩
    rintro (old | impossible)
    · exact effect.fresh_eq.trans old
    · cases impossible
  | reload =>
    refine ⟨[], r.stored, s, ?_, storable.stored, fun _ => rfl⟩
    rw [step, storable.load_write]
    rfl

/-- A record that has been loaded is loaded again as it is. -/
theorem step_reload (storable : r.Storable) (old : r.fresh = false) (s : σ) :
    reload.step S around peer r s = .ok ([], r, s) := by
  have same : r.stored = r := by rw [SessionRecord.stored, ← old]
  rw [step, storable.load_write, same]
  rfl

theorem run_ok (S : Suite) (around : Surroundings (StateM σ)) (peer : Address) (turns : List Turn)
    (storable : r.Storable) (s : σ) :
    ∃ answers r' s', run S around peer turns r s = .ok (answers, r', s') ∧ r'.Storable ∧
      (r.fresh = false ∨ .reload ∈ turns → r'.fresh = false) := by
  induction turns generalizing r s with
  | nil => exact ⟨[], r, s, rfl, storable, by simp⟩
  | cons turn turns ih =>
    obtain ⟨answers, r₁, s₁, stepped, storable₁, old₁⟩ := step_ok S around peer storable turn s
    obtain ⟨others, r₂, s₂, ran, storable₂, old₂⟩ := ih storable₁ s₁
    refine ⟨answers ++ others, r₂, s₂, ?_, storable₂, ?_⟩
    · rw [run_cons stepped, ran]
      rfl
    · rintro (old | reloaded)
      · exact old₂ (.inl (old₁ (.inl old)))
      · rcases List.mem_cons.mp reloaded with rfl | later
        · exact old₂ (.inl (old₁ (.inr rfl)))
        · exact old₂ (.inr later)

/-- To a record that has been loaded, reloads make no difference. -/
theorem run_filter (S : Suite) (around : Surroundings (StateM σ)) (peer : Address) (turns : List Turn)
    (storable : r.Storable) (old : r.fresh = false) (s : σ) :
    run S around peer (turns.filter (· ≠ .reload)) r s = run S around peer turns r s := by
  induction turns generalizing r s with
  | nil => rfl
  | cons turn turns ih =>
    cases turn with
    | reload =>
      rw [List.filter_cons_of_neg (by simp), ih storable old, run_cons (step_reload storable old s)]
      exact (id_map _).symm
    | process m =>
      obtain ⟨answers, r₁, s₁, stepped, storable₁, old₁⟩ := step_ok S around peer storable (.process m) s
      rw [List.filter_cons_of_pos (by simp), run_cons stepped, run_cons stepped,
        ih storable₁ (old₁ (.inl old))]

end

end Turn

/-! ### The main theorem -/

/-- **A session that a message sets up takes no other's place.** Pre-key messages are processed on
one record, one after another, and in between the record may be written down and loaded again; the
store may answer as it likes.  The record can always be written down and loaded.  If it had been
loaded to begin with, it makes no difference when it is loaded again.  And where the mark of the
record holds, as it does once it has been loaded, a message that is accepted has its session in the
record, all other sessions are there still but for the oldest ones, and a pre-key is used up only if
the session is new; a message whose session is there already changes nothing. -/
theorem set_ups_keep_sessions {σ : Type} (S : Suite) (around : Surroundings (StateM σ))
    (peer : Address) {start : SessionRecord} (storable : start.Storable) (turns : List Turn) (s₀ : σ) :
    ∃ answers r s, Turn.run S around peer turns start s₀ = .ok (answers, r, s) ∧
      (start.fresh = false →
        Turn.run S around peer (turns.filter (· ≠ .reload)) start s₀ = .ok (answers, r, s)) ∧
      (start.fresh = false ∨ .reload ∈ turns → r.fresh = false ∧ r.MarkHolds) ∧
      ∀ {m : PreKeyMessage} {answer r' s'}, m.version = currentVersion →
        ((acceptSession S peer r m).run around).run s = ((answer, r'), s') →
          m.SetsUp S r answer r' ∧
          (r.MarkHolds → answer.isOk → r'.knows m.version m.baseKey.transmitted) ∧
          ∀ {s₁ s₂ new}, r.knows m.version m.baseKey.transmitted →
            (around.answer (.store (.isTrusted peer m.identity .receiving))).run s = (.ok true, s₁) →
            (around.answer (.store (.saveIdentity peer m.identity))).run s₁ = (.ok new, s₂) →
            answer = .ok none := by
  obtain ⟨answers, r, s, ran, -, old⟩ := Turn.run_ok S around peer turns storable s₀
  refine ⟨answers, r, s, ran, fun loaded => ?_, fun h => ⟨old h, SessionRecord.markHolds_of_old (old h)⟩,
    fun {m answer r' s'} version processed => ?_⟩
  · rw [Turn.run_filter S around peer turns storable loaded, ran]
  have effect := (gives_effect S peer r m).run around s
  rw [processed] at effect
  have setsUp := effect.setsUp version
  refine ⟨setsUp, fun mark ok => ?_, fun known trusted saved => ?_⟩
  · refine (setsUp.knows ok).mpr (.inr fun fresh => ?_)
    rw [mark fresh]
    exact nofun
  · rw [run_acceptSession_known known trusted saved] at processed
    cases processed
    rfl

namespace Toy

/-- The first message of the peer, for another session. -/
def newcomer : PreKeyMessage := rewrap first (some 7) (keyPair 9).publicKey first.identity

/-- What answers the device gives in some turns, and what record it has then. -/
def turnsOf (start : SessionRecord) (turns : List Turn) :
    Option (List (Option (Option UInt32)) × SessionRecord) :=
  (Turn.run suite (Site.around accepting) alice turns start bob).toOption.map fun (answers, r, _) =>
    (answers.map (·.toOption), r)

end Toy

/-- Two sessions are set up on a record that has been loaded with one. -/
theorem set_ups_keep_sessions_loaded :
    let start := SessionRecord.ofState Toy.session
    let turns := [.process Toy.first, .reload, .process Toy.newcomer]
    start.Storable ∧ ∃ answers r s,
      Turn.run Toy.suite (Site.around accepting) Toy.alice turns start Toy.bob = .ok (answers, r, s) ∧
      Turn.run Toy.suite (Site.around accepting) Toy.alice
        [.process Toy.first, .process Toy.newcomer] start Toy.bob = .ok (answers, r, s) ∧
      r.MarkHolds ∧ answers.map (·.toOption) = [some none, some (some 7)] ∧
      r.knows currentVersion Toy.newcomer.baseKey.transmitted := by
  intro start turns
  have session : Toy.session.Storable := ⟨by decide +kernel, by decide +kernel, by decide +kernel⟩
  have storable : start.Storable := ⟨by decide, List.forall_mem_singleton.mpr session⟩
  obtain ⟨answers, r, s, ran, again, mark, -⟩ := set_ups_keep_sessions Toy.suite (Site.around accepting)
    Toy.alice storable turns Toy.bob
  have found : (Toy.turnsOf start turns).map (fun (answers, r) =>
      (answers, r.knows currentVersion Toy.newcomer.baseKey.transmitted))
      = some ([some none, some (some 7)], true) := by decide +kernel
  rw [Toy.turnsOf, ran] at found
  obtain ⟨same, known⟩ := Prod.mk.inj (Option.some.inj found)
  exact ⟨storable, answers, r, s, ran, again rfl, (mark (.inl rfl)).2, same, known⟩

/-- On a record that is fresh, a second session takes the place of the first one and keeps its name,
unless the record is loaded again in between.  If a fresh record is loaded again before it has a
session, an empty one is kept as if it were one. -/
theorem second_set_up_overwrites :
    let after (turns : List Turn) := (Toy.turnsOf .empty turns).getD ([], .empty)
    let first := after [.process Toy.first]
    let both := after [.process Toy.first, .process Toy.newcomer]
    let between := after [.process Toy.first, .reload, .process Toy.newcomer]
    let missing := Toy.rewrap Toy.first (some 8) Toy.first.baseKey Toy.first.identity
    (first.1 = [some none] ∧ first.2.current ≠ .empty ∧ first.2.archive = []) ∧
      (both.1 = [some none, some (some 7)] ∧
        both.2.knows Toy.newcomer.version Toy.newcomer.baseKey.transmitted = false ∧
        first.2.current ∉ both.2.sessions) ∧
      (between.1 = [some none, some (some 7)] ∧
        between.2.knows Toy.newcomer.version Toy.newcomer.baseKey.transmitted = true ∧
        first.2.current ∈ between.2.sessions) ∧
      (after [.process missing, .process Toy.first]) = ([none, some none], first.2) ∧
      (after [.process missing, .reload, .process Toy.first]).2.archive = [.empty] := by
  refine ⟨⟨?_, ?_, ?_⟩, ⟨?_, ?_, ?_⟩, ⟨?_, ?_, ?_⟩, ?_, ?_⟩
  all_goals decide +kernel

end DoubleRatchet
