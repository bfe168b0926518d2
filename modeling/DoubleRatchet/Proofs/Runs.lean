/-
DoubleRatchet/Proofs/Runs.lean

All that an application can do with one peer, and what becomes of the sessions.

A `Call` is one operation; a run is a list of calls, each with what the application
makes of a plaintext.  Whatever a call does to the sessions with its peer is a sequence
of `Changes`: a session has sent, a new one is put in front, or one has decrypted and
comes to the front.  With each change goes the function that says where the session at
a position has moved, so that one session can be followed through a run (`Call.move`).
-/
import DoubleRatchet.Proofs.Calls

namespace DoubleRatchet

/-! ### Calls -/

/-- What an application does with a peer. -/
inductive Call where
  | start (bundle : PreKeyBundle)
  | encrypt (plain : Bytes)
  | decrypt (m : RatchetMessage)
  | decryptPreKey (m : PreKeyMessage)
  /-- Keep another identity for the peer. -/
  | pin (identity : PublicKey)

/-- What an application gets back. -/
inductive Answer where
  | done
  | sent (m : Message)
  | read (plain : Bytes)
  deriving DecidableEq

/-- What the application makes of a plaintext. -/
abbrev App := Bytes → Except Error Unit

/-- The application takes every plaintext. -/
def accepting : App := fun _ => .ok ()

/-- The operation that a call is. -/
def Call.action (S : Suite) (peer : Address) : Call → Action Answer
  | start bundle => (fun _ => .done) <$> startSession S peer bundle
  | encrypt plain => .sent <$> DoubleRatchet.encrypt S peer plain
  | decrypt m => .read <$> decryptMessage S peer m
  | decryptPreKey m => .read <$> decryptPreKeyMessage S peer m
  | pin identity => (fun _ => .done) <$> Action.store (.saveIdentity peer identity)

/-- A call of a device that is alone. -/
def Call.run (S : Suite) (peer : Address) (app : App) (c : Call) (s : Site) :
    Except Error Answer × Site :=
  (c.action S peer).alone app s

/-- The site after some calls. -/
def Site.after (S : Suite) (peer : Address) (s : Site) (calls : List (Call × App)) : Site :=
  calls.foldl (fun s (c, app) => (c.run S peer app s).2) s

theorem Action.alone_map {α β : Type} (app : App) (f : α → β) (a : Action α) (s : Site) :
    (f <$> a).alone app s = ((a.alone app s).1.map f, (a.alone app s).2) := by
  rw [← bind_pure_comp, Action.alone_bind]
  rcases a.alone app s with ⟨_ | _, _⟩ <;> rfl

theorem Action.alone_map_ok {α β : Type} {app : App} {f : α → β} {a : Action α} {s s' : Site}
    {b : β} (h : (f <$> a).alone app s = (.ok b, s')) :
    ∃ x, a.alone app s = (.ok x, s') ∧ f x = b := by
  obtain ⟨outcome, rfl⟩ := Prod.mk.inj ((Action.alone_map ..).symm.trans h)
  obtain ⟨x, done, same⟩ := map_eq_ok.mp outcome
  exact ⟨x, Prod.ext done rfl, same⟩

theorem Action.alone_map_error {α β : Type} {app : App} {f : α → β} {a : Action α} {s s' : Site}
    {e : Error} (h : (f <$> a).alone app s = (.error e, s')) : a.alone app s = (.error e, s') := by
  obtain ⟨outcome, rfl⟩ := Prod.mk.inj ((Action.alone_map ..).symm.trans h)
  exact Prod.ext (map_eq_error.mp outcome) rfl

/-! ### The sessions with a peer -/

/-- The sessions with a peer that are stored, the current one first. -/
def Store.sessionsWith (s : Store) (peer : Address) : List SessionState :=
  match s.sessions[peer]? with
  | none => []
  | some r => r.sessions

/-- A record as it is stored: it is not fresh, and the archive is within its bound. -/
structure SessionRecord.Settled (r : SessionRecord) : Prop where
  fresh : r.fresh = false
  bounded : r.archive.length ≤ limits.archivedSessions

/-- What is stored for a peer is settled. -/
def Store.Settled (s : Store) (peer : Address) : Prop := ∀ r, s.sessions[peer]? = some r → r.Settled

namespace Store

variable {s : Store} {peer : Address}

theorem sessionsWith_of_contains {r : SessionRecord} (h : s.sessions[peer]? = some r) :
    s.sessionsWith peer = r.sessions := by
  simp [sessionsWith, h]

@[simp] theorem sessionsWith_storeSession (s : Store) (peer : Address) (r : SessionRecord) :
    (s.storeSession peer r).sessionsWith peer = r.sessions := by
  simp [sessionsWith, storeSession, SessionRecord.stored, SessionRecord.sessions]

@[simp] theorem sessionsWith_useUp (s : Store) (peer : Address) (used : Option UInt32) :
    (s.useUp used).sessionsWith peer = s.sessionsWith peer := rfl

@[simp] theorem loadSession_useUp (s : Store) (peer : Address) (used : Option UInt32) :
    (s.useUp used).loadSession peer = s.loadSession peer := rfl

@[simp] theorem identities_storeSession (s : Store) (peer : Address) (r : SessionRecord) :
    (s.storeSession peer r).identities = s.identities := rfl

@[simp] theorem identities_useUp (s : Store) (used : Option UInt32) :
    (s.useUp used).identities = s.identities := rfl

@[simp] theorem getElem?_saveIdentity (s : Store) (peer : Address) (key : PublicKey) :
    (s.saveIdentity peer key).identities[peer]? = some key := by
  simp [saveIdentity]

theorem isTrusted_iff {key : PublicKey} :
    s.isTrusted peer key ↔ ∀ kept, s.identities[peer]? = some kept → kept = key := by
  unfold isTrusted
  cases s.identities[peer]? <;> simp

theorem settled_storeSession {r : SessionRecord}
    (h : r.archive.length ≤ limits.archivedSessions) : (s.storeSession peer r).Settled peer := by
  intro r' hr'
  simp only [storeSession, Std.ExtTreeMap.getElem?_insert_self, Option.some.injEq] at hr'
  subst hr'
  exact ⟨rfl, h⟩

end Store

/-! ### Changes -/

/-- Where the session at a position is once a new one has been put in front; the last one of a full
archive goes. -/
def installed (p : Nat) : Option Nat := if p < limits.archivedSessions then some (p + 1) else none

/-- Where the session at a position is once the one at position `i` has come to the front. -/
def brought (i p : Nat) : Nat := if p = i then 0 else if p < i then p + 1 else p

/-- Bringing one to the front keeps the others, in their order. -/
theorem getElem?_brought {α : Type} {before after : List α} {p : Nat} (a b : α)
    (other : p ≠ before.length) :
    (b :: (before ++ after))[brought before.length p]? = (before ++ a :: after)[p]? := by
  unfold brought
  rw [if_neg other]
  rcases Nat.lt_or_gt_of_ne other with lt | gt
  · -- those before it move up
    rw [if_pos lt, List.getElem?_cons_succ, List.getElem?_append_left lt,
      List.getElem?_append_left lt]
  · rw [if_neg (Nat.lt_asymm gt)]
    obtain ⟨q, rfl⟩ := Nat.exists_eq_add_of_lt gt
    rw [List.getElem?_cons_succ, List.getElem?_append_right (by omega),
      List.getElem?_append_right (by omega), Nat.add_sub_cancel_left,
      show before.length + q + 1 - before.length = q + 1 by omega, List.getElem?_cons_succ]

/-- What one call makes of one session: it stays as it is, it sends, or it decrypts. -/
inductive Evolves (S : Suite) : SessionState → SessionState → Prop
  | same (st) : Evolves S st st
  | sent {st st' plain message} (h : st.encrypt S plain = .ok (message, st')) : Evolves S st st'
  | opened {st st' m e plain e'}
    (h : (SessionState.decrypt S st m).run e = (.ok (plain, st'), e')) : Evolves S st st'

/-- A new session is put in front, or none is.  `B` is what is known of a new one. -/
inductive Installs (B : SessionState → Prop) :
    List SessionState → List SessionState → (Nat → Option Nat) → Prop
  | none (l) : Installs B l l some
  | one {st} (l) (h : B st) : Installs B l (st :: l.take limits.archivedSessions) installed

/-- The current session sends, or one session decrypts and comes to the front, or none does. -/
inductive Uses (S : Suite) : List SessionState → List SessionState → (Nat → Nat) → Prop
  | none (l) : Uses S l l id
  | sent {st st' plain message} (l) (h : st.encrypt S plain = .ok (message, st')) :
    Uses S (st :: l) (st' :: l) id
  | opened {before st after st' m e plain e'}
    (h : (SessionState.decrypt S st m).run e = (.ok (plain, st'), e')) :
    Uses S (before ++ st :: after) (st' :: (before ++ after)) (brought before.length)

/-- How a call changes the sessions with its peer, and where each one goes. -/
inductive Changes (S : Suite) (B : SessionState → Prop) :
    List SessionState → List SessionState → (Nat → Option Nat) → Prop
  | mk {l₁ l₂ l₃ f g} (installs : Installs B l₁ l₂ f) (uses : Uses S l₂ l₃ g) :
    Changes S B l₁ l₃ fun p => (f p).map g

section
variable {S : Suite} {B P : SessionState → Prop} {l l' : List SessionState} {p p' : Nat}
  {st : SessionState}

theorem Installs.mono {B' : SessionState → Prop} {f : Nat → Option Nat} (h : Installs B l l' f)
    (imp : ∀ st, B st → B' st) : Installs B' l l' f := by
  cases h with
  | none => exact .none _
  | one _ h => exact .one _ (imp _ h)

theorem Installs.follow {f : Nat → Option Nat} (h : Installs B l l' f) (hp : l[p]? = some st)
    (hf : f p = some p') : l'[p']? = some st := by
  cases h with
  | none =>
    cases hf
    exact hp
  | one =>
    unfold installed at hf
    split at hf
    · rename_i room
      cases hf
      rw [List.getElem?_cons_succ, List.getElem?_take_of_lt room]
      exact hp
    · cases hf

theorem Uses.follow {f : Nat → Nat} (h : Uses S l l' f) (hp : l[p]? = some st) :
    ∃ st', l'[f p]? = some st' ∧ Evolves S st st' := by
  cases h with
  | none => exact ⟨st, hp, .same st⟩
  | sent l h =>
    cases p with
    | zero =>
      cases hp
      exact ⟨_, rfl, .sent h⟩
    | succ p => exact ⟨st, hp, .same st⟩
  | @opened before st₀ after st' m e plain e' h =>
    by_cases reader : p = before.length
    · subst reader
      rw [List.getElem?_append_right (Nat.le_refl _), Nat.sub_self] at hp
      cases hp
      refine ⟨st', ?_, .opened h⟩
      rw [brought, if_pos rfl]
      rfl
    · refine ⟨st, ?_, .same st⟩
      rw [getElem?_brought st₀ st' reader]
      exact hp

/-- A session that is for a base key is named after it. -/
theorem SessionState.baseKey_of_isFor {st : SessionState} {version : UInt8} {baseKey : Bytes}
    (h : st.isFor version baseKey) : st.baseKey = some baseKey := by
  rw [isFor, Bool.and_eq_true] at h
  exact beq_iff_eq.mp h.2

/-- Whom a session is with, and its name, never change; and no handshake is announced anew. -/
theorem Evolves.fixed {st' : SessionState} (h : Evolves S st st') :
    st'.remoteIdentity = st.remoteIdentity ∧
      (∀ version baseKey, st'.isFor version baseKey = st.isFor version baseKey) ∧
      st'.localRegistrationId = st.localRegistrationId ∧
      (st'.pending = st.pending ∨ st'.pending = none) := by
  cases h with
  | same => exact ⟨rfl, fun _ _ => rfl, rfl, .inl rfl⟩
  | sent h =>
    obtain ⟨remote, own, chain, next, -, -, -, -, -, rfl⟩ := SessionState.encrypt_ok h
    exact ⟨rfl, fun _ _ => rfl, rfl, .inl rfl⟩
  | opened h =>
    obtain ⟨-, -, st₁, reached, decrypted⟩ := SessionState.decrypt_ok h
    obtain ⟨window, keys, after, -, -, -, rfl⟩ := SessionState.decryptOn_ok decrypted
    cases reached <;> exact ⟨rfl, fun _ _ => rfl, rfl, .inr rfl⟩

/-- A session is with the same identity for ever. -/
theorem Evolves.remoteIdentity_eq {st' : SessionState} (h : Evolves S st st') :
    st'.remoteIdentity = st.remoteIdentity := h.fixed.1

/-- A session has its name for ever. -/
theorem Evolves.isFor_eq {st' : SessionState} (h : Evolves S st st') (version : UInt8)
    (baseKey : Bytes) : st'.isFor version baseKey = st.isFor version baseKey :=
  h.fixed.2.1 version baseKey

theorem Evolves.localRegistrationId_eq {st' : SessionState} (h : Evolves S st st') :
    st'.localRegistrationId = st.localRegistrationId := h.fixed.2.2.1

theorem Evolves.pending_cases {st' : SessionState} (h : Evolves S st st') :
    st'.pending = st.pending ∨ st'.pending = none := h.fixed.2.2.2

/-- A session that is followed through a call has evolved. -/
theorem Changes.follow {f : Nat → Option Nat} (h : Changes S B l l' f) (hp : l[p]? = some st)
    (hf : f p = some p') : ∃ st', l'[p']? = some st' ∧ Evolves S st st' := by
  obtain ⟨installs, uses⟩ := h
  obtain ⟨q, hq, rfl⟩ := Option.map_eq_some_iff.mp hf
  exact uses.follow (installs.follow hp hq)

theorem Installs.forall_mem {f : Nat → Option Nat} (h : Installs B l l' f)
    (built : ∀ {st}, B st → P st) (hl : ∀ st ∈ l, P st) : ∀ st ∈ l', P st := by
  cases h with
  | none => exact hl
  | one _ h =>
    rw [List.forall_mem_cons]
    exact ⟨built h, fun st hst => hl st (List.mem_of_mem_take hst)⟩

theorem Uses.forall_mem {f : Nat → Nat} (h : Uses S l l' f)
    (evolves : ∀ {st st'}, P st → Evolves S st st' → P st') (hl : ∀ st ∈ l, P st) :
    ∀ st ∈ l', P st := by
  cases h with
  | none => exact hl
  | sent _ h =>
    rw [List.forall_mem_cons] at hl ⊢
    exact ⟨evolves hl.1 (.sent h), hl.2⟩
  | opened h =>
    rw [List.forall_mem_append, List.forall_mem_cons] at hl
    rw [List.forall_mem_cons, List.forall_mem_append]
    exact ⟨evolves hl.2.1 (.opened h), hl.1, hl.2.2⟩

/-- What new sessions have and evolving keeps, all sessions have. -/
theorem Changes.forall_mem {f : Nat → Option Nat} (h : Changes S B l l' f)
    (built : ∀ {st}, B st → P st) (evolves : ∀ {st st'}, P st → Evolves S st st' → P st')
    (hl : ∀ st ∈ l, P st) : ∀ st ∈ l', P st := by
  obtain ⟨installs, uses⟩ := h
  exact uses.forall_mem evolves (installs.forall_mem built hl)

end

/-! ### Where sessions go -/

namespace Call

variable (S : Suite) (peer : Address) (app : App)

/-- Whether the call puts a new session in front of those in the store. -/
def installs (s : Store) : Call → Bool
  | start _ => true
  | decryptPreKey m => !(s.loadSession peer).knows m.version m.baseKey.transmitted
  | _ => false

/-- The message that the call offers to sessions, and their record, as it is then. -/
def offered (s : Store) : Call → Option (SessionRecord × RatchetMessage)
  | decrypt m => some (s.loadSession peer, m)
  | decryptPreKey m =>
    match s.accept S peer (s.loadSession peer) m with
    | .ok (_, record) => some (record, m.message)
    | .error _ => none
  | _ => none

/-- The position of the session that decrypts the message of the call. -/
def opens (s : Site) (c : Call) : Option Nat :=
  (c.offered S peer s.store).bind fun (record, m) =>
    match ((offer S m [] 0 record.sessions).run s.entropy).1 with
    | .ok (i, _) => some i
    | .error _ => none

/-- Where the session at a position is when the call offers its message to the sessions. -/
def place (s : Store) (c : Call) : Nat → Option Nat := if c.installs peer s then installed else some

/-- Where the session at a position is after the call; one that leaves the record is nowhere. -/
def move (s : Site) (c : Call) : Nat → Option Nat :=
  if (c.run S peer app s).1.isOk then fun p =>
    (c.place peer s.store p).map ((c.opens S peer s).elim id brought)
  else some

end Call

/-! ### New sessions -/

/-- A session that a call has set up. -/
inductive SessionState.Built (S : Suite) : SessionState → Prop
  | greeted (s : Store) (bundle : PreKeyBundle) (baseKey ratchetKey : KeyPair) :
    Built S (s.greet S bundle .empty baseKey ratchetKey)
  | welcomed (s : Store) (m : PreKeyMessage) (keys : ResponderKeys) :
    Built S (s.welcome S m .empty keys)

/-- The session has been set up with a remote identity. -/
structure SessionState.Introduced (S : Suite) (remote : Option PublicKey) (st : SessionState) :
    Prop where
  built : st.Built S
  remote_eq : st.remoteIdentity = remote

section
variable {S : Suite} {peer : Address} {app : App} {s s' : Site} {c : Call}

namespace SessionRecord

theorem sessions_advance {r : SessionRecord} {before after : List SessionState}
    {st : SessionState} (st' : SessionState) (h : r.sessions = before ++ st :: after)
    (hr : r.archive.length ≤ limits.archivedSessions) :
    (r.advance before.length st').sessions = st' :: (before ++ after) := by
  cases before with
  | nil =>
    obtain ⟨-, rfl⟩ := List.cons.inj h
    rfl
  | cons first before =>
    obtain ⟨rfl, archive⟩ : r.current = first ∧ r.archive = before ++ st :: after := List.cons.inj h
    have erased : r.archive.eraseIdx before.length = before ++ after := by
      rw [archive, List.eraseIdx_append_of_length_le (Nat.le_refl _), Nat.sub_self]
      rfl
    have few : (before ++ after).length + 1 ≤ limits.archivedSessions := by
      rw [archive, List.length_append, List.length_cons] at hr
      rw [List.length_append]
      omega
    show st' :: (r.current :: r.archive.eraseIdx before.length).take limits.archivedSessions = _
    rw [erased, List.take_of_length_le few]
    rfl

/-- A record that decrypts a message uses one session. -/
theorem decrypt_uses {r r' : SessionRecord} {m : RatchetMessage} {e e' : Entropy} {plain : Bytes}
    (h : (r.decrypt S m).run e = (.ok (plain, r'), e'))
    (hr : r.archive.length ≤ limits.archivedSessions) :
    ∃ i st', ((offer S m [] 0 r.sessions).run e).1 = .ok (i, plain, st') ∧
      Uses S r.sessions r'.sessions (brought i) ∧
      r'.archive.length ≤ limits.archivedSessions := by
  rw [run_decrypt] at h
  split at h
  · rename_i i plain' st' e₂ offered
    cases h
    obtain ⟨before, st, after, e₁, sessions, rfl, -, decrypted⟩ := offer_ok offered
    rw [Nat.zero_add] at *
    have advanced := sessions_advance st' sessions hr
    refine ⟨before.length, st', by rw [offered], ?_, ?_⟩
    · rw [sessions, advanced]
      exact .opened decrypted
    · have count := congrArg List.length advanced
      have count' := congrArg List.length sessions
      simp only [SessionRecord.sessions, List.length_cons, List.length_append] at count count'
      omega
  · cases h

theorem knows_empty (version : UInt8) (baseKey : Bytes) : empty.knows version baseKey = false := by
  simp [knows, empty, SessionState.isFor, SessionState.empty]

theorem makeRoom_current {r : SessionRecord} (h : r = .empty ∨ r.fresh = false) :
    r.makeRoom.current = .empty := by
  rcases h with rfl | h
  · rfl
  · simp [makeRoom, h, retire, promote]

end SessionRecord

namespace Store

theorem Spared.sessions_eq {s s' : Store} (h : s.Spared s' peer) : s'.sessions = s.sessions := by
  rcases h with rfl | ⟨key, -, rfl⟩ <;> rfl

theorem loadSession_cases (s : Store) (peer : Address) :
    (s.sessions[peer]? = none ∧ s.loadSession peer = .empty) ∨
      s.sessions[peer]? = some (s.loadSession peer) := by
  unfold loadSession
  rcases s.sessions[peer]? with - | r
  · exact .inl ⟨rfl, rfl⟩
  · exact .inr rfl

theorem stored_of_contains {s : Store} (h : s.sessions.contains peer) :
    s.sessions[peer]? = some (s.loadSession peer) := by
  rcases s.loadSession_cases peer with ⟨none, -⟩ | stored
  · rw [Std.ExtTreeMap.contains_eq_isSome_getElem?, none] at h
    cases h
  · exact stored

theorem makeRoom_current {s : Store} (h : s.Settled peer) :
    (s.loadSession peer).makeRoom.current = .empty := by
  rcases s.loadSession_cases peer with ⟨-, empty⟩ | stored
  · exact SessionRecord.makeRoom_current (.inl empty)
  · exact SessionRecord.makeRoom_current (.inr (h _ stored).fresh)

theorem theirIdentity_eq {s : Store} {m : PreKeyMessage} {keys : ResponderKeys}
    (h : s.responderKeys m = .ok keys) : keys.theirIdentity = m.identity := by
  obtain ⟨signedPreKey, -, h⟩ := bind_eq_ok.mp h
  obtain ⟨oneTimePreKey, -, h⟩ := bind_eq_ok.mp h
  cases h
  rfl

/-- Making room moves all sessions to the archive. -/
theorem makeRoom_archive {s : Store} (h : s.Settled peer) :
    (s.loadSession peer).makeRoom.archive
      = (s.sessionsWith peer).take limits.archivedSessions := by
  rcases s.loadSession_cases peer with ⟨none, empty⟩ | stored
  · rw [sessionsWith, none, empty]
    rfl
  · rw [sessionsWith_of_contains stored]
    simp [SessionRecord.makeRoom, (h _ stored).fresh, SessionRecord.retire, SessionRecord.promote,
      SessionRecord.sessions]

/-- A session that is put into the room that has been made is put in front. -/
theorem makeRoom_installs {s : Store} (h : s.Settled peer) {B : SessionState → Prop}
    {st : SessionState} (hst : B st) :
    let r : SessionRecord := { (s.loadSession peer).makeRoom with current := st }
    Installs B (s.sessionsWith peer) r.sessions installed ∧
      r.archive.length ≤ limits.archivedSessions := by
  dsimp only [SessionRecord.sessions]
  rw [makeRoom_archive h]
  exact ⟨.one _ hst, by rw [List.length_take]; exact Nat.min_le_left _ _⟩

/-- The record knows a session when it holds one for the base key. -/
theorem knows_loadSession (s : Store) (peer : Address) (version : UInt8) (baseKey : Bytes) :
    (s.loadSession peer).knows version baseKey
      = (s.sessionsWith peer).any (·.isFor version baseKey) := by
  rcases s.loadSession_cases peer with ⟨none, empty⟩ | stored
  · rw [sessionsWith, none, empty, SessionRecord.knows_empty]
    rfl
  · rw [sessionsWith_of_contains stored]
    rfl

end Store

namespace Call

/-- The operation that has succeeded when a call has. -/
inductive Succeeded (S : Suite) (peer : Address) (app : App) (s : Site) :
    Call → Answer → Site → Prop
  | started {bundle s'} (h : (startSession S peer bundle).alone app s = (.ok (), s')) :
    Succeeded S peer app s (.start bundle) .done s'
  | sent {plain message s'}
    (h : (DoubleRatchet.encrypt S peer plain).alone app s = (.ok message, s')) :
    Succeeded S peer app s (.encrypt plain) (.sent message) s'
  | read {m plain s'} (h : (decryptMessage S peer m).alone app s = (.ok plain, s')) :
    Succeeded S peer app s (.decrypt m) (.read plain) s'
  | readFirst {m plain s'} (h : (decryptPreKeyMessage S peer m).alone app s = (.ok plain, s')) :
    Succeeded S peer app s (.decryptPreKey m) (.read plain) s'
  | pinned {identity} : Succeeded S peer app s (.pin identity) .done
    { s with store := s.store.saveIdentity peer identity }

theorem succeeded {answer : Answer} (h : c.run S peer app s = (.ok answer, s')) :
    Succeeded S peer app s c answer s' := by
  unfold run at h
  cases c with
  | start bundle =>
    obtain ⟨⟨⟩, started, rfl⟩ := Action.alone_map_ok h
    exact .started started
  | encrypt plain =>
    obtain ⟨message, sent, rfl⟩ := Action.alone_map_ok h
    exact .sent sent
  | decrypt m =>
    obtain ⟨plain, read, rfl⟩ := Action.alone_map_ok h
    exact .read read
  | decryptPreKey m =>
    obtain ⟨plain, read, rfl⟩ := Action.alone_map_ok h
    exact .readFirst read
  | pin identity =>
    cases h
    exact .pinned

/-- A failed call leaves all sessions as they are. -/
theorem run_error {e : Error} (h : c.run S peer app s = (.error e, s')) :
    s.store.Spared s'.store peer := by
  unfold run at h
  cases c with
  | start bundle =>
    have same := startSession_error (Action.alone_map_error h)
    exact .inl (congrArg Site.store same)
  | encrypt plain =>
    have same := encrypt_error (Action.alone_map_error h)
    exact .inl (congrArg Site.store same)
  | decrypt m => exact decryptMessage_error (Action.alone_map_error h)
  | decryptPreKey m => exact decryptPreKeyMessage_error (Action.alone_map_error h)
  | pin identity => cases h

/-- A call only draws from the source. -/
theorem before_run (S : Suite) (peer : Address) (app : App) (c : Call) (s : Site) :
    s.entropy.Before (c.run S peer app s).2.entropy := by
  unfold run action
  cases c with
  | start bundle =>
    rw [Action.alone_map]
    exact before_startSession bundle s
  | encrypt plain =>
    rw [Action.alone_map]
    exact before_encrypt plain s
  | decrypt m =>
    rw [Action.alone_map]
    exact before_decryptMessage m s
  | decryptPreKey m =>
    rw [Action.alone_map]
    exact before_decryptPreKeyMessage m s
  | pin identity => exact .refl _

theorem move_error {e : Error} (h : c.run S peer app s = (.error e, s')) :
    c.move S peer app s = some := by
  rw [move, h]
  rfl

theorem move_ok {answer : Answer} (h : c.run S peer app s = (.ok answer, s')) :
    c.move S peer app s = fun p =>
      (c.place peer s.store p).map ((c.opens S peer s).elim id brought) := by
  rw [move, h]
  rfl

end Call

/-- A session that is started is put in front. -/
theorem startSession_sessions (hs : s.store.Settled peer) {bundle : PreKeyBundle}
    (h : (startSession S peer bundle).alone app s = (.ok (), s')) :
    ∃ st, st.Introduced S s'.store.identities[peer]? ∧ s'.store.sessionsWith peer
      = st :: (s.store.sessionsWith peer).take limits.archivedSessions ∧
      s'.store.Settled peer := by
  obtain ⟨-, -, -, rfl⟩ := startSession_ok h
  rw [Store.makeRoom_current hs]
  refine ⟨s.store.greet S bundle .empty (S.nextKeyPair s.entropy)
    (S.nextKeyPair (s.entropy.advance 32)), ⟨.greeted .., ?_⟩, ?_, ?_⟩
  · rw [Site.keep, Store.identities_storeSession, Store.getElem?_saveIdentity]
    rfl
  · rw [Site.keep, Store.sessionsWith_storeSession, SessionRecord.sessions, Store.makeRoom_archive hs]
  · refine Store.settled_storeSession ?_
    show ((s.store.loadSession peer).makeRoom.archive).length ≤ limits.archivedSessions
    rw [Store.makeRoom_archive hs, List.length_take]
    exact Nat.min_le_left ..

theorem startSession_changes (hs : s.store.Settled peer) {bundle : PreKeyBundle}
    (h : (startSession S peer bundle).alone app s = (.ok (), s')) :
    Changes S (·.Introduced S s'.store.identities[peer]?) (s.store.sessionsWith peer)
      (s'.store.sessionsWith peer) (fun p => (installed p).map id) ∧ s'.store.Settled peer := by
  obtain ⟨st, introduced, sessions, settled⟩ := startSession_sessions hs h
  rw [sessions]
  exact ⟨.mk (.one _ introduced) (.none _), settled⟩

/-- The current session sends. -/
theorem encrypt_sessions (hs : s.store.Settled peer) {plain : Bytes} {message : Message}
    (h : (encrypt S peer plain).alone app s = (.ok message, s')) :
    ∃ st st' others, s.store.sessionsWith peer = st :: others ∧
      st.encrypt S plain = .ok (message, st') ∧ s'.store.sessionsWith peer = st' :: others ∧
      s'.store.Settled peer := by
  obtain ⟨fresh, remote, own, st', -, -, made, rfl⟩ := encrypt_ok h
  rcases s.store.loadSession_cases peer with ⟨-, empty⟩ | stored
  · rw [empty] at fresh
    cases fresh
  refine ⟨_, st', _, Store.sessionsWith_of_contains stored, made, ?_,
    Store.settled_storeSession (hs _ stored).bounded⟩
  rw [Site.keep, Store.sessionsWith_storeSession]
  rfl

theorem encrypt_changes (hs : s.store.Settled peer) {plain : Bytes} {message : Message}
    (h : (encrypt S peer plain).alone app s = (.ok message, s')) :
    Changes S (·.Introduced S s'.store.identities[peer]?) (s.store.sessionsWith peer)
      (s'.store.sessionsWith peer) (fun p => (some p).map id) ∧ s'.store.Settled peer := by
  obtain ⟨st, st', others, sessions, made, sessions', settled⟩ := encrypt_sessions hs h
  rw [sessions, sessions']
  exact ⟨.mk (.none _) (.sent _ made), settled⟩

theorem decryptMessage_changes (hs : s.store.Settled peer) {m : RatchetMessage} {plain : Bytes}
    (h : (decryptMessage S peer m).alone app s = (.ok plain, s')) :
    ∃ i, (Call.decrypt m).opens S peer s = some i ∧
      Changes S (·.Introduced S s'.store.identities[peer]?) (s.store.sessionsWith peer)
        (s'.store.sessionsWith peer) (fun p => (some p).map (brought i)) ∧
      s'.store.Settled peer := by
  obtain ⟨known, record, entropy, remote, decrypted, -, -, -, rfl⟩ := decryptMessage_ok h
  have stored := Store.stored_of_contains known
  obtain ⟨i, st, offered, uses, bounded⟩ :=
    SessionRecord.decrypt_uses decrypted (hs _ stored).bounded
  refine ⟨i, ?_, .mk (.none _) ?_, Store.settled_storeSession bounded⟩
  · simp [Call.opens, Call.offered, offered]
  · rw [Site.keep, Store.sessionsWith_storeSession, Store.sessionsWith_of_contains stored]
    exact uses

/-- The record that a pre-key message is offered to: the sessions that are there, with the new one in
front if its base key is not known. -/
theorem Store.accept_welcomes {s : Store} (hs : s.Settled peer) {m : PreKeyMessage}
    {used : Option UInt32} {record : SessionRecord}
    (h : s.accept S peer (s.loadSession peer) m = .ok (used, record)) :
    Installs (fun st => ∃ keys, s.responderKeys m = .ok keys ∧ st = s.welcome S m .empty keys)
      (s.sessionsWith peer) record.sessions ((Call.decryptPreKey m).place peer s) ∧
      record.archive.length ≤ limits.archivedSessions := by
  obtain ⟨-, ⟨known, -, rfl⟩ | ⟨unknown, keys, found, -, rfl⟩⟩ := accept_ok h
  · rcases s.loadSession_cases peer with ⟨-, empty⟩ | stored
    · -- an empty record knows no base key
      rw [empty, SessionRecord.knows_empty] at known
      cases known
    simp only [Call.place, Call.installs, known, Bool.not_true, Bool.false_eq_true, ↓reduceIte]
    rw [sessionsWith_of_contains stored]
    exact ⟨.none _, (hs _ stored).bounded⟩
  · simp only [Call.place, Call.installs, unknown, Bool.not_false, ↓reduceIte]
    rw [makeRoom_current hs]
    exact makeRoom_installs hs ⟨keys, found, rfl⟩

theorem Store.accept_installs {s : Store} (hs : s.Settled peer) {m : PreKeyMessage}
    {used : Option UInt32} {record : SessionRecord}
    (h : s.accept S peer (s.loadSession peer) m = .ok (used, record)) :
    Installs (·.Introduced S (some m.identity)) (s.sessionsWith peer) record.sessions
      ((Call.decryptPreKey m).place peer s) ∧ record.archive.length ≤ limits.archivedSessions := by
  obtain ⟨welcomes, bounded⟩ := accept_welcomes hs h
  refine ⟨welcomes.mono ?_, bounded⟩
  rintro st ⟨keys, found, rfl⟩
  exact ⟨.welcomed .., congrArg some (theirIdentity_eq found)⟩

theorem decryptPreKeyMessage_changes (hs : s.store.Settled peer) {m : PreKeyMessage} {plain : Bytes}
    (h : (decryptPreKeyMessage S peer m).alone app s = (.ok plain, s')) :
    ∃ i, (Call.decryptPreKey m).opens S peer s = some i ∧
      Changes S (·.Introduced S s'.store.identities[peer]?) (s.store.sessionsWith peer)
        (s'.store.sessionsWith peer)
        (fun p => ((Call.decryptPreKey m).place peer s.store p).map (brought i)) ∧
      s'.store.Settled peer := by
  obtain ⟨used, record, record', entropy, accepted, decrypted, -, rfl⟩ := decryptPreKeyMessage_ok h
  obtain ⟨installs, bounded⟩ := Store.accept_installs hs accepted
  obtain ⟨i, st, offered, uses, bounded⟩ := SessionRecord.decrypt_uses decrypted bounded
  refine ⟨i, ?_, ?_, Store.settled_storeSession bounded⟩
  · simp [Call.opens, Call.offered, accepted, offered]
  · rw [Store.sessionsWith_useUp, Store.sessionsWith_storeSession, Store.identities_useUp,
      Store.identities_storeSession, Store.getElem?_saveIdentity]
    exact .mk installs uses

/-- What a call does to the sessions with its peer. -/
theorem Call.changes (hs : s.store.Settled peer) :
    let s' := (c.run S peer app s).2
    Changes S (·.Introduced S s'.store.identities[peer]?) (s.store.sessionsWith peer)
      (s'.store.sessionsWith peer) (c.move S peer app s) ∧ s'.store.Settled peer := by
  rcases outcome : c.run S peer app s with ⟨e | answer, s'⟩
  · have same := (run_error outcome).sessions_eq
    rw [move_error outcome]
    dsimp only [Store.sessionsWith, Store.Settled]
    rw [same]
    exact ⟨.mk (.none _) (.none _), hs⟩
  rw [move_ok outcome]
  cases succeeded outcome with
  | started h => exact startSession_changes hs h
  | sent h => exact encrypt_changes hs h
  | read h =>
    obtain ⟨i, opens, changes⟩ := decryptMessage_changes hs h
    rw [opens]
    exact changes
  | readFirst h =>
    obtain ⟨i, opens, changes⟩ := decryptPreKeyMessage_changes hs h
    rw [opens]
    exact changes
  | pinned => exact ⟨.mk (.none _) (.none _), hs⟩

theorem Store.settled_of_none {s : Store} (h : s.sessions[peer]? = none) : s.Settled peer := by
  intro r hr
  rw [h] at hr
  cases hr

theorem Store.settled_after {calls : List (Call × App)} (hs : s.store.Settled peer) :
    (s.after S peer calls).store.Settled peer := by
  induction calls generalizing s with
  | nil => exact hs
  | cons call calls ih => exact ih (Call.changes hs).2

end

end DoubleRatchet
