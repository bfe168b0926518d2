/-
DoubleRatchet/Proofs/Unanswered.lean

A handshake goes with every message until it is answered.

A session that is set up from a bundle tells of the handshake in every message that it
sends, since its peer may not have seen any of them.  It stops when it has read a message:

    start ── send ── send ── read ── send         what is done
             pre-key  pre-key         bare        what is sent

The session may be moved to the archive meanwhile and come back, other sessions may be set
up, and messages may be refused; none of this makes a difference.  What is sent as a
pre-key message is sent by a session that has been set up from a bundle and has read
nothing since, wherever it has been in the record; it says what the bundle says, and
within it is the message that would be sent without it (`announced_until_answered`).
-/
import DoubleRatchet.Proofs.Correspondence
import DoubleRatchet.Proofs.Footprints
import DoubleRatchet.Proofs.Lineages
import Mathlib.Data.List.Induction

namespace DoubleRatchet

/-! ### Sessions that tell of a handshake -/

/-- The message tells of the handshake of a bundle, in the name of a device. -/
structure PreKeyMessage.TellsOf (m : PreKeyMessage) (bundle : PreKeyBundle) (device : Store) :
    Prop where
  preKeyId : m.preKeyId = bundle.oneTimePreKeyId
  signedPreKeyId : m.signedPreKeyId = bundle.signedPreKeyId
  registrationId : m.registrationId = device.registrationId
  identity : m.identity = device.identity.publicKey

namespace SessionState

/-- What a call makes of a session that does not read its message. -/
inductive Waits (S : Suite) : SessionState → SessionState → Prop
  | same (st) : Waits S st st
  | sent {st st' plain message} (h : st.encrypt S plain = .ok (message, st')) : Waits S st st'

variable {st st' : SessionState} {device device' : Store} {bundle : PreKeyBundle}

/-- The session has been set up from a bundle by a device, and has yet to tell its peer. -/
structure Announces (st : SessionState) (bundle : PreKeyBundle) (device : Store) : Prop where
  pending : ∃ baseKey, st.baseKey = some baseKey.transmitted ∧
    st.pending = some ⟨bundle.oneTimePreKeyId, bundle.signedPreKeyId, baseKey⟩
  registrationId : st.localRegistrationId = device.registrationId
  identity : st.localIdentity = some device.identity.publicKey

theorem announces_greet (S : Suite) (device : Store) (bundle : PreKeyBundle)
    (baseKey ratchetKey : KeyPair) :
    (device.greet S bundle .empty baseKey ratchetKey).Announces bundle device :=
  ⟨⟨baseKey.publicKey, rfl, rfl⟩, rfl, rfl⟩

theorem pending_welcome (S : Suite) (device : Store) (m : PreKeyMessage) (keys : ResponderKeys) :
    (device.welcome S m .empty keys).pending = none := rfl

theorem Announces.sameDevice (h : st.Announces bundle device) (same : device.SameDevice device') :
    st.Announces bundle device' := by
  obtain ⟨pending, registrationId, identity⟩ := h
  exact ⟨pending, same.2 ▸ registrationId, same.1 ▸ identity⟩

section
variable {S : Suite} {plain : Bytes} {message : Message}

theorem Waits.pending_eq (h : Waits S st st') : st'.pending = st.pending := by
  cases h with
  | same => rfl
  | sent made =>
    obtain ⟨remote, own, chain, next, -, -, -, -, -, rfl⟩ := encrypt_ok made
    rfl

/-- Nothing changes of what the session has to tell. -/
theorem Announces.waits (h : st.Announces bundle device) (waits : Waits S st st') :
    st'.Announces bundle device := by
  cases waits with
  | same => exact h
  | sent made =>
    obtain ⟨remote, own, chain, next, -, -, -, -, -, rfl⟩ := encrypt_ok made
    exact ⟨h.pending, h.registrationId, h.identity⟩

/-- The session tells of its handshake. -/
theorem Announces.encrypt (h : st.Announces bundle device)
    (made : st.encrypt S plain = .ok (message, st')) :
    ∃ m, message = .preKey m ∧ m.TellsOf bundle device ∧
      st.baseKey = some m.baseKey.transmitted := by
  obtain ⟨remote, own, chain, next, -, ho, -, -, rfl, -⟩ := encrypt_ok made
  obtain ⟨baseKey, named, pending⟩ := h.pending
  rw [h.identity] at ho
  cases ho
  unfold encrypt.wrap
  rw [pending]
  exact ⟨_, rfl, ⟨rfl, rfl, h.registrationId, rfl⟩, named⟩

/-- A session that has a handshake to tell of sends pre-key messages, any other one does not. -/
theorem preKey_iff_pending (made : st.encrypt S plain = .ok (message, st')) :
    (∃ m, message = .preKey m) ↔ st.pending ≠ none := by
  obtain ⟨remote, own, chain, next, -, -, -, -, rfl, -⟩ := encrypt_ok made
  unfold encrypt.wrap
  cases st.pending <;> simp

/-- Without the handshake the session would send what is in the pre-key message, and be the same
afterwards but for the handshake. -/
theorem encrypt_without_pending {m : PreKeyMessage}
    (made : st.encrypt S plain = .ok (.preKey m, st')) :
    { st with pending := none }.encrypt S plain
      = .ok (.ratchet m.message, { st' with pending := none }) := by
  obtain ⟨remote, own, chain, next, hr, ho, hc, hn, wrapped, rfl⟩ := encrypt_ok made
  have inner := congrArg Message.inner? wrapped
  rw [inner?_wrap] at inner
  rw [Option.some.inj inner]
  apply encrypt_of_next
  · exact hr
  · exact ho
  · exact hc
  · exact hn

end

end SessionState

/-! ### Calls that answer -/

section
variable (S : Suite) (peer : Address) (app : App)

namespace Call

/-- The call has the session at a position read its message, and stores it. -/
def answers (s : Site) (c : Call) (p : Nat) : Bool :=
  (c.run S peer app s).1.isOk &&
    (c.opens S peer s).any fun i => decide (c.place peer s.store p = some i)

/-- Where the session at a position is after the call, if it has not read its message. -/
def moveUnanswered (s : Site) (c : Call) (p : Nat) : Option Nat :=
  if c.answers S peer app s p then none else c.move S peer app s p

end Call

/-- The position, after some calls, of the session that is at a position before them, provided that
it stays in the record and reads nothing. -/
def Site.followUnanswered : Site → Nat → List (Call × App) → Option Nat
  | _, p, [] => some p
  | s, p, (c, app) :: calls =>
    (c.moveUnanswered S peer app s p).bind fun q =>
      followUnanswered (c.run S peer app s).2 q calls

/-- In some calls a session has been set up from a bundle, which has read nothing since and is at a
position now. -/
def Site.Unanswered (start : Site) (calls : List (Call × App)) (bundle : PreKeyBundle) (q : Nat) :
    Prop :=
  ∃ before app later, calls = before ++ (.start bundle, app) :: later ∧
    let t := (Call.start bundle).run S peer app (start.after S peer before)
    t.1 = .ok .done ∧ t.2.followUnanswered S peer 0 later = some q

end

/-! ### What one call does -/

/-- A list of sessions, what it is after a call, and where those go that do not read: they are there
still, and there is no other one that has a handshake to tell of, except for a new one. -/
structure CarriesOn (S : Suite) (new : SessionState → Prop) (l l' : List SessionState)
    (f : Nat → Option Nat) : Prop where
  forward : ∀ {p q st}, l[p]? = some st → f p = some q →
    ∃ st', l'[q]? = some st' ∧ st.Waits S st'
  backward : ∀ {q st'}, l'[q]? = some st' → st'.pending ≠ none → q = 0 ∧ new st' ∨
    ∃ p st, f p = some q ∧ l[p]? = some st ∧ st.Waits S st'

section
variable {S : Suite} {new : SessionState → Prop} {l l' : List SessionState} {st st' : SessionState}

/-- What is there once a new session may have been put in front is new, or has been there. -/
theorem Installs.source {f : Nat → Option Nat} {q : Nat} (h : Installs new l l' f)
    (hq : l'[q]? = some st) : q = 0 ∧ new st ∨ ∃ p, f p = some q ∧ l[p]? = some st := by
  cases h with
  | none => exact .inr ⟨q, rfl, hq⟩
  | one l isNew =>
    cases q with
    | zero =>
      cases hq
      exact .inl ⟨rfl, isNew⟩
    | succ q =>
      rw [List.getElem?_cons_succ, List.getElem?_take] at hq
      split at hq
      · rename_i room
        exact .inr ⟨q, if_pos room, hq⟩
      · cases hq

/-- Behind the one that has come to the front are all others. -/
theorem exists_brought (i q : Nat) : ∃ p, p ≠ i ∧ brought i p = q + 1 := by
  by_cases above : q < i
  · refine ⟨q, Nat.ne_of_lt above, ?_⟩
    rw [brought, if_neg (Nat.ne_of_lt above), if_pos above]
  · refine ⟨q + 1, by omega, ?_⟩
    rw [brought, if_neg (by omega), if_neg (by omega)]

namespace CarriesOn

theorem same (l : List SessionState) : CarriesOn S new l l some where
  forward hp hf := by
    cases hf
    exact ⟨_, hp, .same _⟩
  backward hq _ := .inr ⟨_, _, rfl, hq, .same _⟩

theorem sent {plain : Bytes} {message : Message} (l : List SessionState)
    (made : st.encrypt S plain = .ok (message, st')) :
    CarriesOn S new (st :: l) (st' :: l) some where
  forward {p q st₁} hp hf := by
    cases hf
    cases p with
    | zero =>
      cases hp
      exact ⟨st', rfl, .sent made⟩
    | succ p => exact ⟨st₁, hp, .same _⟩
  backward {q st₁} hq _ := by
    cases q with
    | zero =>
      cases hq
      exact .inr ⟨0, st, rfl, rfl, .sent made⟩
    | succ q => exact .inr ⟨q + 1, st₁, rfl, hq, .same _⟩

/-- A new session is put in front. -/
theorem installs {f : Nat → Option Nat} (h : Installs new l l' f) : CarriesOn S new l l' f where
  forward hp hf := ⟨_, h.follow hp hf, .same _⟩
  backward hq _ := by
    rcases h.source hq with isNew | ⟨p, hf, hp⟩
    · exact .inl isNew
    · exact .inr ⟨p, _, hf, hp, .same _⟩

/-- One session reads and comes to the front. -/
theorem read {before after : List SessionState} (answered : st'.pending = none) :
    CarriesOn S new (before ++ st :: after) (st' :: (before ++ after)) fun p =>
      if p = before.length then none else some (brought before.length p) where
  forward {p q st₁} hp hf := by
    split at hf
    · cases hf
    · rename_i other
      cases hf
      rw [getElem?_brought st st' other]
      exact ⟨st₁, hp, .same _⟩
  backward {q st₁} hq tells := by
    cases q with
    | zero =>
      cases hq
      exact absurd answered tells
    | succ q =>
      obtain ⟨p, other, moved⟩ := exists_brought before.length q
      rw [← moved, getElem?_brought st st' other] at hq
      exact .inr ⟨p, st₁, by rw [if_neg other, moved], hq, .same _⟩

/-- A session that has nothing to tell may be put in front before. -/
theorem after_installs {l₂ : List SessionState} {f g : Nat → Option Nat}
    (installs : Installs (·.pending = none) l l₂ f) (carries : CarriesOn S new l₂ l' g) :
    CarriesOn S new l l' fun p => (f p).bind g where
  forward hp hf := by
    obtain ⟨p', hp', hf⟩ := Option.bind_eq_some_iff.mp hf
    exact carries.forward (installs.follow hp hp') hf
  backward hq tells := by
    rcases carries.backward hq tells with isNew | ⟨p', st, hg, hp', waits⟩
    · exact .inl isNew
    -- it has had something to tell already, so it is not the one put in front
    rw [waits.pending_eq] at tells
    rcases installs.source hp' with ⟨-, nothing⟩ | ⟨p, hf, hp⟩
    · exact absurd nothing tells
    · exact .inr ⟨p, st, by rw [hf]; exact hg, hp, waits⟩

end CarriesOn

end

section
variable {S : Suite} {peer : Address} {app : App} {s s' : Site} {c : Call} {bundle : PreKeyBundle}

namespace Call

theorem moveUnanswered_error {err : Error} (h : c.run S peer app s = (.error err, s')) :
    c.moveUnanswered S peer app s = some := by
  funext p
  rw [moveUnanswered, answers, move_error h, h]
  rfl

/-- A call with no message to read moves every session on. -/
theorem moveUnanswered_of_not_opens {answer : Answer} (h : c.run S peer app s = (.ok answer, s'))
    (none : c.opens S peer s = none) :
    c.moveUnanswered S peer app s = c.place peer s.store := by
  funext p
  rw [moveUnanswered, answers, move_ok h, none]
  simp

theorem moveUnanswered_of_opens {answer : Answer} {i : Nat}
    (h : c.run S peer app s = (.ok answer, s')) (opens : c.opens S peer s = some i) :
    c.moveUnanswered S peer app s = fun p =>
      (c.place peer s.store p).bind fun p => if p = i then none else some (brought i p) := by
  funext p
  have answered : c.answers S peer app s p = decide (c.place peer s.store p = some i) := by
    simp [answers, h, opens, Except.isOk, Except.toBool]
  rw [moveUnanswered, answered, move_ok h, opens]
  dsimp only
  rcases c.place peer s.store p with - | p'
  · simp
  · by_cases reader : p' = i <;> simp [reader]

/-- A session that is set up from a bundle is put in front. -/
theorem start_sessions (hs : s.store.Settled peer)
    (h : (startSession S peer bundle).alone app s = (.ok (), s')) :
    ∃ st, st.Announces bundle s.store ∧ s'.store.sessionsWith peer
      = st :: (s.store.sessionsWith peer).take limits.archivedSessions := by
  obtain ⟨-, -, -, rfl⟩ := startSession_ok h
  rw [Store.makeRoom_current hs, Site.keep, Store.sessionsWith_storeSession,
    SessionRecord.sessions, Store.makeRoom_archive hs]
  exact ⟨_, SessionState.announces_greet .., rfl⟩

variable (S peer app s c) in
/-- A session that a call has set up from a bundle. -/
def Greets (st : SessionState) : Prop :=
  ∃ bundle, c = .start bundle ∧ (c.run S peer app s).1 = .ok .done ∧ st.Announces bundle s.store

/-- What a call does to the sessions with its peer. -/
theorem carries (hs : s.store.Settled peer) :
    CarriesOn S (c.Greets S peer app s) (s.store.sessionsWith peer)
      ((c.run S peer app s).2.store.sessionsWith peer) (c.moveUnanswered S peer app s) := by
  rcases outcome : c.run S peer app s with ⟨err | answer, s'⟩
  · have same := (run_error outcome).sessions_eq
    rw [moveUnanswered_error outcome]
    dsimp only [Store.sessionsWith]
    rw [same]
    exact .same _
  have reads : ∀ {plain}, c.run S peer app s = (.ok (.read plain), s') →
      CarriesOn S (c.Greets S peer app s) (s.store.sessionsWith peer) (s'.store.sessionsWith peer)
        (c.moveUnanswered S peer app s) := by
    intro plain read
    obtain ⟨m, record, before, st, after, st', e, e', -, reaches, hr, opens, split, opened,
      sessions⟩ := read_split hs read
    -- what is set up by a pre-key message has nothing to tell
    have installs : Installs (·.pending = none) (s.store.sessionsWith peer) record.sessions
        (c.place peer s.store) := by
      refine (offered_welcomes hs reaches hr).2.mono ?_
      rintro _ ⟨m, keys, rfl⟩
      exact SessionState.pending_welcome ..
    rw [split] at installs
    rw [moveUnanswered_of_opens read opens, sessions]
    exact .after_installs installs (.read (SessionState.pending_decrypt opened))
  cases succeeded outcome with
  | @started bundle _ started =>
    obtain ⟨st, tells, sessions⟩ := start_sessions hs started
    rw [moveUnanswered_of_not_opens outcome rfl, sessions]
    exact .installs (.one _ ⟨bundle, rfl, congrArg Prod.fst outcome, tells⟩)
  | sent sent =>
    obtain ⟨st, st', others, sessions, made, sessions', -⟩ := encrypt_sessions hs sent
    rw [moveUnanswered_of_not_opens outcome rfl, sessions, sessions']
    exact .sent others made
  | read => exact reads outcome
  | readFirst => exact reads outcome
  | pinned =>
    rw [moveUnanswered_of_not_opens outcome rfl]
    exact .same _

end Call

/-! ### What a run does -/

theorem Site.followUnanswered_append (p : Nat) (calls : List (Call × App)) (call : Call × App) :
    s.followUnanswered S peer p (calls ++ [call])
      = (s.followUnanswered S peer p calls).bind fun q =>
          call.1.moveUnanswered S peer call.2 (s.after S peer calls) q := by
  induction calls generalizing s p with
  | nil =>
    show (call.1.moveUnanswered S peer call.2 s p).bind some = _
    rw [Option.bind_fun_some]
    rfl
  | cons first calls ih =>
    show (first.1.moveUnanswered S peer first.2 s p).bind _ = Option.bind (Option.bind _ _) _
    rw [Option.bind_assoc]
    congr 1
    funext q
    exact ih q

theorem Site.after_append (start : Site) (calls more : List (Call × App)) :
    start.after S peer (calls ++ more) = (start.after S peer calls).after S peer more :=
  List.foldl_append ..

/-- The device is the same all the while. -/
theorem Site.sameDevice_after (start : Site) (calls : List (Call × App)) :
    (start.after S peer calls).store.SameDevice start.store := by
  induction calls generalizing start with
  | nil => exact ⟨rfl, rfl⟩
  | cons call calls ih =>
    have first : (call.1.run S peer call.2 start).2.store.SameDevice start.store :=
      Program.sameDevice_alone call.2 (call.1.action S peer) start
    exact (ih _).trans first

/-- A session that reads nothing tells of its bundle for as long as it is there. -/
theorem Site.announces_follow {device : Store} {p q : Nat} {st : SessionState}
    {calls : List (Call × App)} (hs : s.store.Settled peer)
    (hp : (s.store.sessionsWith peer)[p]? = some st) (tells : st.Announces bundle device)
    (followed : s.followUnanswered S peer p calls = some q) :
    ∃ st', ((s.after S peer calls).store.sessionsWith peer)[q]? = some st' ∧
      st'.Announces bundle device := by
  induction calls generalizing s p st with
  | nil =>
    cases followed
    exact ⟨st, hp, tells⟩
  | cons call calls ih =>
    obtain ⟨p', moved, rest⟩ := Option.bind_eq_some_iff.mp followed
    obtain ⟨st', hp', waits⟩ := (Call.carries hs).forward hp moved
    exact ih (Call.changes hs).2 hp' (tells.waits waits) rest

variable {start : Site} {calls : List (Call × App)} {q : Nat}

/-- A session that is set up from a bundle and has read nothing tells of it. -/
theorem Site.Unanswered.announces {st : SessionState} (h : start.Unanswered S peer calls bundle q)
    (hs : start.store.Settled peer)
    (hq : ((start.after S peer calls).store.sessionsWith peer)[q]? = some st) :
    st.Announces bundle (start.after S peer calls).store := by
  obtain ⟨before, app, later, rfl, done, followed⟩ := h
  have settled : (start.after S peer before).store.Settled peer := Store.settled_after hs
  obtain ⟨_, ran⟩ : ∃ s', (Call.start bundle).run S peer app (start.after S peer before)
      = (.ok .done, s') := ⟨_, Prod.ext done rfl⟩
  have started : ∃ st, ((((Call.start bundle).run S peer app
      (start.after S peer before)).2).store.sessionsWith peer)[0]? = some st ∧
      st.Announces bundle (start.after S peer before).store := by
    cases Call.succeeded ran with
    | started h =>
      obtain ⟨st, tells, sessions⟩ := Call.start_sessions settled h
      rw [ran, sessions]
      exact ⟨st, rfl, tells⟩
  -- it is followed from the front, where it has been put
  obtain ⟨st₀, front, tells⟩ := started
  obtain ⟨st', there, tells⟩ := announces_follow (Call.changes settled).2 front tells followed
  rw [after_append] at hq ⊢
  cases there.symm.trans hq
  refine tells.sameDevice ?_
  rw [← after_append]
  exact (sameDevice_after start before).trans (sameDevice_after start _).symm

/-- A session that has something to tell has been set up from a bundle and has read nothing. -/
theorem Site.unanswered_of_pending {st : SessionState} (none : start.store.sessions[peer]? = none)
    (hq : ((start.after S peer calls).store.sessionsWith peer)[q]? = some st)
    (tells : st.pending ≠ Option.none) : ∃ bundle, start.Unanswered S peer calls bundle q := by
  -- where a session is from, the last call says first
  induction calls using List.reverseRecOn generalizing q st with
  | nil =>
    rw [after, List.foldl_nil, Store.sessionsWith, none] at hq
    cases hq
  | append_singleton calls call ih =>
    obtain ⟨c, app⟩ := call
    have settled : (start.after S peer calls).store.Settled peer :=
      Store.settled_after (Store.settled_of_none none)
    rw [after_append] at hq
    rcases (Call.carries settled).backward hq tells with
      ⟨rfl, bundle, rfl, done, -⟩ | ⟨p, st₀, moved, hp, waits⟩
    · exact ⟨bundle, calls, app, [], rfl, done, rfl⟩
    · rw [waits.pending_eq] at tells
      obtain ⟨bundle, before, app', later, rfl, done, followed⟩ := ih hp tells
      refine ⟨bundle, before, app', later ++ [(c, app)], ?_, done, ?_⟩
      · rw [List.append_assoc, List.cons_append]
      · rw [followUnanswered_append, followed]
        rw [after_append] at moved
        exact moved

theorem Site.pending_iff_unanswered {st : SessionState} (none : start.store.sessions[peer]? = none)
    (hq : ((start.after S peer calls).store.sessionsWith peer)[q]? = some st) :
    st.pending ≠ Option.none ↔ ∃ bundle, start.Unanswered S peer calls bundle q := by
  constructor
  · intro tells
    exact unanswered_of_pending none hq tells
  · rintro ⟨bundle, unanswered⟩
    obtain ⟨baseKey, -, pending⟩ := (unanswered.announces (Store.settled_of_none none) hq).pending
    rw [pending]
    exact Option.some_ne_none _

/-! ### What is sent -/

/-- **A handshake is announced until it is answered.**  In a run that has started without a session,
a message is sent as a pre-key message just if the session in front has been set up from a bundle
and no message that it has read has been stored since.  The pre-key message tells of that bundle,
in the name of the device; its base key is what the session is named after; and the message in it
is the one that the session would send without the handshake, with the same keys and numbers, and
the session goes on from it in the same way. -/
theorem announced_until_answered {plain : Bytes} {message : Message}
    (none : start.store.sessions[peer]? = none)
    (sent : (Call.encrypt plain).run S peer app (start.after S peer calls)
      = (.ok (.sent message), s')) :
    let s := start.after S peer calls
    ((∃ m, message = .preKey m) ↔ ∃ bundle, start.Unanswered S peer calls bundle 0) ∧
    ∀ m, message = .preKey m →
      (∀ bundle, start.Unanswered S peer calls bundle 0 → m.TellsOf bundle s.store) ∧
      ∃ st st' others, s.store.sessionsWith peer = st :: others ∧
        s'.store.sessionsWith peer = st' :: others ∧
        st.baseKey = some m.baseKey.transmitted ∧
        st.encrypt S plain = .ok (.preKey m, st') ∧
        { st with pending := Option.none }.encrypt S plain
          = .ok (.ratchet m.message, { st' with pending := Option.none }) := by
  intro s
  have settled₀ : start.store.Settled peer := Store.settled_of_none none
  have settled : s.store.Settled peer := Store.settled_after settled₀
  cases Call.succeeded sent with
  | sent ran =>
    obtain ⟨st, st', others, sessions, made, sessions', -⟩ := encrypt_sessions settled ran
    have front : (s.store.sessionsWith peer)[0]? = some st := by
      rw [sessions]
      rfl
    have announced : (∃ m, message = .preKey m) ↔ ∃ bundle, start.Unanswered S peer calls bundle 0 :=
      (SessionState.preKey_iff_pending made).trans (Site.pending_iff_unanswered none front)
    refine ⟨announced, ?_⟩
    rintro m rfl
    -- the session in front tells of every bundle that it may have been set up from
    have tells : ∀ bundle, start.Unanswered S peer calls bundle 0 →
        m.TellsOf bundle s.store ∧ st.baseKey = some m.baseKey.transmitted := by
      intro bundle unanswered
      obtain ⟨m', same, tells⟩ := (unanswered.announces settled₀ front).encrypt made
      cases same
      exact tells
    obtain ⟨bundle, unanswered⟩ := announced.mp ⟨m, rfl⟩
    refine ⟨fun bundle unanswered => (tells bundle unanswered).1, st, st', others, sessions,
      sessions', (tells bundle unanswered).2, made, ?_⟩
    exact SessionState.encrypt_without_pending made

end

/-- A device sets up a session from a bundle and sends, sets up another one from a new bundle, and
refuses a message of somebody else: what it sends next tells of the new bundle. -/
theorem announced_until_answered_anew :
    let renewed := Toy.bundle (some (7, (Toy.keyPair 3).publicKey))
    let calls := [(Call.start (Toy.bundle none), accepting), (.encrypt [4], accepting),
      (.start renewed, accepting), (.decryptPreKey Toy.first, accepting)]
    let s := Toy.bob.after Toy.suite Toy.alice calls
    ∃ m s', (Call.encrypt [5]).run Toy.suite Toy.alice accepting s = (.ok (.sent (.preKey m)), s') ∧
      m.TellsOf renewed s.store := by
  intro renewed calls s
  have fresh : Toy.bob.store.sessions[Toy.alice]? = none := by decide +kernel
  have sends : ((Call.encrypt [5]).run Toy.suite Toy.alice accepting s).1.isOk := by decide +kernel
  have started : ((Call.start renewed).run Toy.suite Toy.alice accepting
      (Toy.bob.after Toy.suite Toy.alice (calls.take 2))).1 = .ok .done := by
    refine toOption_eq_some.mp ?_
    decide +kernel
  have unanswered : Toy.bob.Unanswered Toy.suite Toy.alice calls renewed 0 := by
    refine ⟨calls.take 2, accepting, calls.drop 3, rfl, started, ?_⟩
    decide +kernel
  rcases sent : (Call.encrypt [5]).run Toy.suite Toy.alice accepting s with ⟨err | answer, s'⟩
  · rw [sent] at sends
    cases sends
  cases Call.succeeded sent with
  | sent =>
    obtain ⟨announced, tells⟩ := announced_until_answered fresh sent
    obtain ⟨m, rfl⟩ := announced.mpr ⟨renewed, unanswered⟩
    exact ⟨m, s', rfl, (tells m rfl).1 renewed unanswered⟩

end DoubleRatchet
