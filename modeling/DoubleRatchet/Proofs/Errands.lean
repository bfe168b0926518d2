/-
DoubleRatchet/Proofs/Errands.lean

What a job has to do with a peer.

A job on a peer has an `Errand`: it takes the lock of the peer, has an identity checked,
loads the record, makes base keys, and stores what it has made of the record.  It changes
nothing before it is `Cleared`, that is, before the store trusts the identity that it has
been presented with; it keeps no identity but the one that is trusted; and a record that
it stores has come from the loaded one by `Changes`, with at most one new session in
front, which bears a base key that the job has made or been sent (`Call.Writes`).

All operations are followed by one discipline (`follows_errands`).  What it says about
records, and what it says about identities, are used apart from each other.
-/
import DoubleRatchet.Proofs.Sending

namespace DoubleRatchet

/-! ### Records that are loaded, and records that are stored -/

namespace SessionRecord

/-- The record can have been loaded from a store. -/
def Loadable (r : SessionRecord) : Prop := r = .empty ∨ r.Settled

/-- The sessions of a record, of which a fresh one has none. -/
def held (r : SessionRecord) : List SessionState := if r.fresh then [] else r.sessions

section
variable {S : Suite} {r r' : SessionRecord} {m : RatchetMessage} {e e' : Entropy} {plain : Bytes}

theorem Settled.held_eq (h : r.Settled) : r.held = r.sessions := if_neg (by simp [h.fresh])

/-- A session in the room that has been made stands in front of those that were held. -/
theorem Loadable.sessions_makeRoom (h : r.Loadable) (st : SessionState) :
    sessions { r.makeRoom with current := st } = st :: r.held.take limits.archivedSessions := by
  rcases h with rfl | settled
  · rfl
  · rw [settled.held_eq]
    simp [sessions, makeRoom, settled.fresh, retire, promote]

theorem Loadable.few_makeRoom (h : r.Loadable) :
    r.makeRoom.archive.length ≤ limits.archivedSessions := by
  have room := congrArg List.length (h.sessions_makeRoom .empty)
  have few := List.length_take_le limits.archivedSessions r.held
  simp only [sessions, List.length_cons] at room
  omega

theorem Loadable.makeRoom_current (h : r.Loadable) : r.makeRoom.current = .empty :=
  SessionRecord.makeRoom_current (h.imp_right Settled.fresh)

/-- A record that knows a base key is not empty. -/
theorem Loadable.settled_of_knows (h : r.Loadable) {version : UInt8} {baseKey : Bytes}
    (known : r.knows version baseKey) : r.Settled := by
  rcases h with rfl | settled
  · rw [knows_empty] at known
    cases known
  · exact settled

/-- An empty record decrypts nothing. -/
theorem Loadable.settled_of_decrypt (h : r.Loadable)
    (decrypted : (r.decrypt S m).run e = (.ok (plain, r'), e')) : r.Settled := by
  rcases h with rfl | settled
  · obtain ⟨before, st, after, st', e₁, sessions, -, opened, -⟩ := decrypt_ok decrypted
    obtain ⟨ready, -⟩ := SessionState.decrypt_ok opened
    have only : st = .empty := by
      have there : st ∈ SessionRecord.empty.sessions := by
        rw [sessions]
        exact List.mem_append_right _ List.mem_cons_self
      exact List.mem_singleton.mp there
    rw [only] at ready
    cases ready
  · exact settled

end

end SessionRecord

/-! ### What a call presents, makes and stores -/

/-- A request that the store answers by itself whatever is in it, and that changes nothing. -/
def StoreRequest.Harmless (q : StoreRequest) : Prop :=
  ∀ store : Store, ∃ reply, store.answer q = (.ok reply, store)

/-- A request about the keys of the device. -/
def StoreRequest.OwnKeys : StoreRequest → Prop
  | identityKeyPair | registrationId | loadPreKey _ | loadSignedPreKey _ | removePreKey _ => True
  | _ => False

namespace Call

variable (S : Suite) (c : Call)

/-- The identity that the call is presented with, in a bundle or in a pre-key message. -/
def presents : Option PublicKey :=
  match c with
  | start bundle => some bundle.identity
  | decryptPreKey m => some m.identity
  | _ => none

/-- The base key that a call draws: the first key for a session that it starts. -/
def baseKeys (number : Nat) (source after : Entropy) : List PublicKey :=
  match c, number with
  | start _, 0 => S.publicKeys source after
  | _, _ => []

/-- A session that the call adds to a record, with a base key that it has made, or that it has been
sent and that the record does not know. -/
structure Founds (made : List PublicKey) (r : SessionRecord) (st : SessionState) : Prop where
  built : st.Built S
  baseKey : match c with
    | start _ => ∃ key ∈ made, st.baseKey = some key.transmitted
    | decryptPreKey m => st.baseKey = some m.baseKey.transmitted ∧
        r.knows m.version m.baseKey.transmitted = false
    | _ => False

/-- What the call stores in the place of a record. -/
structure Writes (made : List PublicKey) (r r' : SessionRecord) : Prop where
  few : r'.archive.length ≤ limits.archivedSessions
  changes : ∃ f, Changes S (c.Founds S made r) r.held r'.sessions f

end Call

section
variable {S : Suite} {r r' : SessionRecord} {made : List PublicKey} {e e' : Entropy} {plain : Bytes}
  {m : PreKeyMessage}

theorem Suite.mem_publicKeys_of_drawn (S : Suite) {k : KeyPair}
    (drawn : S.drawKeyPair.run e = (.ok k, e')) : k.publicKey ∈ S.publicKeys e e' := by
  rw [S.run_drawKeyPair] at drawn
  split at drawn
  · cases drawn
  cases drawn
  rw [S.publicKeys_advance (.refl e)]
  exact List.mem_append_right _ List.mem_cons_self

/-- A session that is started has been built, and has the base key that has been made for it. -/
theorem Call.writes_start {bundle : PreKeyBundle} {identity baseKey : KeyPair}
    {registrationId : UInt32} {st : SessionState} (loadable : r.Loadable)
    (mem : baseKey.publicKey ∈ made)
    (initiated : (r.makeRoom.current.initiate S {
      identity, baseKey
      theirIdentity := bundle.identity
      theirSignedPreKey := bundle.signedPreKey
      theirOneTimePreKey := bundle.oneTimePreKey
      theirRatchetKey := bundle.signedPreKey }).run e = (.ok st, e')) :
    (Call.start bundle).Writes S made r { r.makeRoom with
      current := { st with
        localRegistrationId := registrationId
        remoteRegistrationId := bundle.registrationId
        pending := some ⟨bundle.oneTimePreKeyId, bundle.signedPreKeyId, baseKey.publicKey⟩
      }.nameAfter baseKey.publicKey.transmitted } := by
  rw [loadable.makeRoom_current, run_initiate] at initiated
  split at initiated
  · cases initiated
  cases initiated
  have founds : (Call.start bundle).Founds S made r
      (Store.greet S { identity, registrationId } bundle .empty baseKey (S.nextKeyPair e)) :=
    ⟨.greeted .., baseKey.publicKey, mem, rfl⟩
  refine ⟨loadable.few_makeRoom, ?_⟩
  rw [loadable.sessions_makeRoom]
  exact ⟨_, .mk (.one _ founds) (.none _)⟩

theorem Call.writes_encrypt {message : Message} {st : SessionState} (loadable : r.Loadable)
    (old : r.fresh = false) (made' : r.current.encrypt S plain = .ok (message, st)) :
    (Call.encrypt plain).Writes S made r { r with current := st } := by
  rcases loadable with rfl | settled
  · cases old
  · refine ⟨settled.bounded, ?_⟩
    rw [settled.held_eq]
    exact ⟨_, .mk (.none _) (.sent _ made')⟩

theorem Call.writes_decrypt {m : RatchetMessage} (loadable : r.Loadable)
    (decrypted : (r.decrypt S m).run e = (.ok (plain, r'), e')) :
    (Call.decrypt m).Writes S made r r' := by
  have settled := loadable.settled_of_decrypt decrypted
  obtain ⟨i, st', -, uses, few⟩ := SessionRecord.decrypt_uses decrypted settled.bounded
  refine ⟨few, ?_⟩
  rw [settled.held_eq]
  exact ⟨_, .mk (.none _) uses⟩

/-- A record to which the session of a pre-key message has been added, if it was not there. -/
structure SessionRecord.Accepts (S : Suite) (r : SessionRecord) (m : PreKeyMessage)
    (r₁ : SessionRecord) : Prop where
  few : r₁.archive.length ≤ limits.archivedSessions
  installs : ∃ f, Installs ((Call.decryptPreKey m).Founds S [] r) r.held r₁.sessions f

theorem SessionRecord.accepts_known (loadable : r.Loadable)
    (known : r.knows m.version m.baseKey.transmitted) : r.Accepts S m r := by
  have settled := loadable.settled_of_knows known
  refine ⟨settled.bounded, ?_⟩
  rw [settled.held_eq]
  exact ⟨_, .none _⟩

theorem SessionRecord.accepts_new {keys : ResponderKeys} {registrationId : UInt32}
    (loadable : r.Loadable) (unknown : r.knows m.version m.baseKey.transmitted = false) :
    r.Accepts S m { r.makeRoom with
      current := { r.makeRoom.current.respond S keys with
        localRegistrationId := registrationId
        remoteRegistrationId := m.registrationId }.nameAfter m.baseKey.transmitted } := by
  rw [loadable.makeRoom_current]
  -- of the device, only the registration number is in the session
  have founds : (Call.decryptPreKey m).Founds S [] r
      (Store.welcome S { identity := keys.identity, registrationId } m .empty keys) :=
    ⟨.welcomed .., rfl, unknown⟩
  refine ⟨loadable.few_makeRoom, ?_⟩
  rw [loadable.sessions_makeRoom]
  exact ⟨_, .one _ founds⟩

theorem SessionRecord.Accepts.writes {r₁ : SessionRecord} (accepts : r.Accepts S m r₁)
    (decrypted : (r₁.decrypt S m.message).run e = (.ok (plain, r'), e')) :
    (Call.decryptPreKey m).Writes S made r r' := by
  obtain ⟨i, st', -, uses, few⟩ := decrypt_uses decrypted accepts.few
  obtain ⟨f, installs⟩ := accepts.installs
  exact ⟨few, _, .mk (installs.mono fun _ h => ⟨h.built, h.baseKey⟩) uses⟩

end

/-! ### Errands -/

/-- How far a job has come with a peer. -/
structure Errand where
  /-- It has the lock of the peer. -/
  inside : Bool := false
  /-- The identity that the store has said to be trusted. -/
  trusts : Option PublicKey := none
  /-- The record that it has loaded. -/
  loaded : Option SessionRecord := none
  /-- The base keys that it has made since. -/
  made : List PublicKey := []
  /-- What the store has failed with. -/
  failed : Option Error := none

/-- The store trusts the identity that the call has been presented with, if any. -/
structure Errand.Cleared (t : Errand) (c : Call) : Prop where
  inside : t.inside = true
  trusts : t.trusts ≠ none
  presented : ∀ other ∈ c.presents, t.trusts = some other

namespace Call

variable (S : Suite) (peer : Address) (c : Call)

/-- How an errand goes on. -/
def errand (t : Errand) : Event → Errand
  | .asked (.acquire ..) (.ok _) => { t with inside := true }
  | .asked (.release _) (.ok _) => { t with inside := false }
  | .asked (.store (.isTrusted _ key _)) (.ok true) => { t with trusts := some key }
  | .asked (.store (.loadSession _)) (.ok r) => { t with loaded := some r, made := [] }
  | .asked (.store _) (.error e) => { t with failed := some e }
  | .drew number source after => { t with made := t.made ++ c.baseKeys S number source after }
  | _ => t

/-- What the call asks for. -/
inductive ErrandAsks (t : Errand) : Request → Prop
  | enter : ErrandAsks t (.acquire (.session peer) .write)
  | leave (inside : t.inside = true) : ErrandAsks t (.release (.session peer))
  | check {key direction} (inside : t.inside = true) (presented : ∀ other ∈ c.presents, key = other) :
    ErrandAsks t (.store (.isTrusted peer key direction))
  | contains : ErrandAsks t (.store (.containsSession peer))
  | load : ErrandAsks t (.store (.loadSession peer))
  | keys {q : StoreRequest} (cleared : t.Cleared c) (h : q.OwnKeys) : ErrandAsks t (.store q)
  | save {key} (cleared : t.Cleared c) (trusted : t.trusts = some key) :
    ErrandAsks t (.store (.saveIdentity peer key))
  | keep {r r'} (cleared : t.Cleared c) (loaded : t.loaded = some r)
    (writes : r.Loadable → c.Writes S t.made r r') : ErrandAsks t (.store (.storeSession peer r'))
  /-- The application keeps another identity, whatever the store trusts. -/
  | pin {key} (h : c = .pin key) : ErrandAsks t (.store (.saveIdentity peer key))

/-- How the call ends: the identity that it has been presented with is trusted, or it fails, for no
other reason than these. -/
def Done {α : Type} (t : Errand) (outcome : Except Error α) : Prop :=
  ∀ other ∈ c.presents, t.trusts = some other ∨ ∃ e, outcome = .error e ∧
    (e = .untrustedIdentity peer.name other ∨ e = .reentrantUpdate (.session peer) ∨
      (t.trusts = none ∧ t.failed = some e))

/-- The call has the lock, and can end as it has to. -/
def Served {α : Type} (outcome : Except Error α) (t : Errand) : Prop :=
  t.inside = true ∧ c.Done peer t outcome

end Call

/-- The jobs on the peer do their errands, and the others leave the peer alone; `free` is what the
application may ask for itself. -/
def errands (free : StoreRequest → Prop) (S : Suite) (peer : Address) : Discipline Errand where
  init := {}
  Rests t := t.inside = true ∨ t.trusts = none
  Asks op t r :=
    match op.for? peer with
    | some c => c.ErrandAsks S peer t r
    | none => r.Spares peer ∧ ∀ key, r ≠ .store (.saveIdentity peer key)
  Expects _ _ r reply :=
    match r, reply with
    | .acquire lock _, .error e => e = .reentrantUpdate lock
    | .release _, .error _ => False
    | _, _ => True
  Leaves op t outcome := ∀ c, op.for? peer = some c → c.Done peer t outcome
  Free := free
  after op t event :=
    match op.for? peer with
    | some c => c.errand S t event
    | none => t

section
variable {free : StoreRequest → Prop} {S : Suite} {peer : Address} {op : Operation} {c : Call}
  {r : Request} {t : Errand}

theorem Errand.Cleared.served {α : Type} {outcome : Except Error α} (h : t.Cleared c) :
    c.Served peer outcome t :=
  ⟨h.inside, fun other presented => .inl (h.presented other presented)⟩

/-- Whatever is loaded, made or fails, a job stays cleared. -/
theorem Errand.cleared (key : PublicKey) (presented : ∀ other ∈ c.presents, key = other)
    (loaded : Option SessionRecord) (made : List PublicKey) (failed : Option Error) :
    Errand.Cleared ⟨true, some key, loaded, made, failed⟩ c :=
  ⟨rfl, nofun, fun other h => congrArg some (presented other h)⟩

theorem Call.errand_failed (q : StoreRequest) (e : Error) :
    c.errand S t (.asked (.store q) (.error e)) = { t with failed := some e } := by
  cases q <;> rfl

theorem Call.errand_keys {q : StoreRequest} (h : q.OwnKeys) (reply : q.Reply) :
    c.errand S t (.asked (.store q) (.ok reply)) = t := by
  cases q <;> first | exact h.elim | rfl

/-- A job that is not cleared asks for nothing but what is harmless, unless the application keeps an
identity. -/
theorem Call.ErrandAsks.harmless {q : StoreRequest} (h : c.ErrandAsks S peer t (.store q))
    (uncleared : ¬t.Cleared c) (unpinned : ∀ key, c = .pin key → q ≠ .saveIdentity peer key) :
    q.Harmless := by
  cases h with
  | check => exact fun _ => ⟨_, rfl⟩
  | contains => exact fun _ => ⟨_, rfl⟩
  | load => exact fun _ => ⟨_, rfl⟩
  | keys cleared => exact absurd cleared uncleared
  | save cleared => exact absurd cleared uncleared
  | keep cleared => exact absurd cleared uncleared
  | pin h => exact absurd rfl (unpinned _ h)

/-- A lock is refused only to the thread that holds it, and always released. -/
theorem Device.Meets.errand_expects {d d' : Device} {thread : Nat} {reply : Except Error r.Reply}
    (met : d.Meets thread r reply d') : (errands free S peer).Expects op t r reply := by
  cases met with
  | refused refused =>
    unfold Locks.acquire at refused
    split at refused
    · cases refused
    · split at refused
      · cases refused
      · split at refused
        · cases refused
          rfl
        · cases refused
  | _ => trivial

/-- An operation that is not on the peer keeps no identity for it. -/
theorem Operation.not_saves (other : op.for? peer = none) (h : op.MayAsk r) (key : PublicKey) :
    r ≠ .store (.saveIdentity peer key) := by
  rintro rfl
  cases op with
  | session other' c =>
    obtain rfl : peer = other' := h
    simp at other
  | group sender c => exact h

/-! ### Operations do their errands -/

namespace Errands

variable {α : Type} {post : Except Error α → Nat → Errand → Prop} {n : Nat}

theorem after_own (event : Event) :
    (errands free S peer).after (.session peer c) t event = c.errand S t event := by
  simp [errands]

theorem asks_own (h : c.ErrandAsks S peer t r) :
    (errands free S peer).Asks (.session peer c) t r := by
  simpa [errands] using h

/-- A request that makes no difference to the errand unless it fails. -/
theorem quiet {q : StoreRequest} {post : Except Error q.Reply → Nat → Errand → Prop}
    (rests : t.inside = true ∨ t.trusts = none) (asks : c.ErrandAsks S peer t (.store q))
    (same : ∀ reply, c.errand S t (.asked (.store q) (.ok reply)) = t)
    (failed : ∀ e, post (.error e) n { t with failed := some e }) (h : ∀ reply, post (.ok reply) n t) :
    (Action.store q).Obeys (errands free S peer) (.session peer c) post n t := by
  refine .store rests (asks_own asks) ?_
  rintro (e | reply) -
  · rw [after_own, Call.errand_failed]
    exact failed e
  · rw [after_own, same]
    exact h reply

theorem requireTrust {key : PublicKey} {direction : Direction}
    {post : Except Error Unit → Nat → Errand → Prop} (inside : t.inside = true)
    (presented : ∀ other ∈ c.presents, key = other)
    (failed : ∀ e, post (.error e) n { t with failed := some e })
    (refused : post (.error (.untrustedIdentity peer.name key)) n t)
    (trusted : post (.ok ()) n { t with trusts := some key }) :
    (requireTrust peer key direction).Obeys (errands free S peer) (.session peer c) post n t := by
  refine .bind (.store (.inl inside) (asks_own (.check inside presented)) ?_)
  rintro (e | _ | _) -
  · rw [after_own, Call.errand_failed]
    exact failed e
  · rw [after_own]
    exact .throw refused
  · rw [after_own]
    exact .pure trusted

theorem load {post : Except Error SessionRecord → Nat → Errand → Prop} (inside : t.inside = true)
    (failed : ∀ e, post (.error e) n { t with failed := some e })
    (h : ∀ r, post (.ok r) n { t with loaded := some r, made := [] }) :
    (Action.store (.loadSession peer)).Obeys (errands free S peer) (.session peer c) post n t := by
  refine .store (.inl inside) (asks_own .load) ?_
  rintro (e | r) -
  · rw [after_own, Call.errand_failed]
    exact failed e
  · rw [after_own]
    exact h r

theorem draw {x : Draw α} (inside : t.inside = true)
    (h : ∀ e, post (x.run e).1 (n + 1)
      { t with made := t.made ++ c.baseKeys S n e (x.run e).2 }) :
    (Action.random x).Obeys (errands free S peer) (.session peer c) post n t := by
  refine .random (.inl inside) fun e => ?_
  rw [after_own]
  exact h e

/-- The lock is taken, and released again whatever comes out. -/
theorem locked {body : Action α}
    (h : body.Obeys (errands free S peer) (.session peer c)
      (fun outcome _ t => c.Served peer outcome t) n { inside := true }) :
    (Action.locked (.session peer) .write body).Obeys (errands free S peer) (.session peer c)
      (fun outcome _ t => c.Done peer t outcome) n {} := by
  refine .locked (.inr rfl) (asks_own .enter) (fun e expected => ?_) fun _ => ?_
  · rw [after_own]
    exact fun other _ => .inr ⟨e, rfl, .inr (.inl expected)⟩
  · rw [after_own]
    refine Program.Obeys.mono h ?_
    rintro outcome n t ⟨inside, done⟩
    refine ⟨.inl inside, asks_own (.leave inside), ?_⟩
    rintro (e | ⟨⟨⟩⟩) expected
    · exact expected.elim
    · rw [after_own]
      exact done

theorem startSession (bundle : PreKeyBundle) :
    (startSession S peer bundle).Obeys (errands free S peer) (.session peer (.start bundle))
      (fun outcome _ t => (Call.start bundle).Done peer t outcome) 0 {} := by
  have presented : ∀ other ∈ (Call.start bundle).presents, bundle.identity = other := by
    rintro _ ⟨⟩
    rfl
  -- from the check on, the call can end in any way
  have cleared := Errand.cleared _ presented
  refine locked (.bind (requireTrust rfl presented (fun e => ?_) ?_ ?_))
  · exact ⟨rfl, by rintro _ ⟨⟩; exact .inr ⟨e, rfl, .inr (.inr ⟨rfl, rfl⟩)⟩⟩
  · exact ⟨rfl, by rintro _ ⟨⟩; exact .inr ⟨_, rfl, .inl rfl⟩⟩
  refine .bind (.liftExcept ?_)
  cases bundle.checkSignature S with
  | error e => exact (cleared ..).served
  | ok _ =>
    refine .bind (load rfl (fun _ => (cleared ..).served) fun record => ?_)
    refine .bind (draw rfl fun e => ?_)
    rcases drawn : S.drawKeyPair.run e with ⟨_ | baseKey, e₁⟩
    · exact (cleared ..).served
    have made := S.mem_publicKeys_of_drawn drawn
    refine .bind (quiet (.inl rfl) (.keys (cleared ..) trivial) (fun _ => rfl)
      (fun _ => (cleared ..).served) fun identity => ?_)
    refine .bind (draw rfl fun e => ?_)
    rcases initiated : (record.makeRoom.current.initiate S _).run e with ⟨_ | st, e₂⟩
    · exact (cleared ..).served
    refine .bind (quiet (.inl rfl) (.keys (cleared ..) trivial) (fun _ => rfl)
      (fun _ => (cleared ..).served) fun registrationId => ?_)
    refine .bind (quiet (.inl rfl) (.save (cleared ..) rfl) (fun _ => rfl)
      (fun _ => (cleared ..).served) fun _ => ?_)
    refine quiet (.inl rfl) (.keep (cleared ..) rfl fun loadable => ?_) (fun _ => rfl)
      (fun _ => (cleared ..).served) fun _ => (cleared ..).served
    exact Call.writes_start loadable (List.mem_append_left _ made) initiated

theorem encrypt (plain : Bytes) :
    (encrypt S peer plain).Obeys (errands free S peer) (.session peer (.encrypt plain))
      (fun outcome _ t => (Call.encrypt plain).Done peer t outcome) n {} := by
  -- it is presented with no identity
  have served : ∀ {outcome : Except Error Message} {t : Errand}, t.inside = true →
      (Call.encrypt plain).Served peer outcome t := fun inside => ⟨inside, nofun⟩
  refine locked (.bind (load rfl (fun _ => served rfl) fun record => ?_))
  dsimp only
  split
  · exact .bind (.throw (served rfl))
  rename_i fresh
  have old : record.fresh = false := by
    simp at fresh
    exact fresh.1
  refine .bind (.liftExcept ?_)
  rcases record.current.identities with e | ⟨remote, own⟩
  · exact served rfl
  refine .bind (requireTrust rfl nofun (fun _ => served rfl) (served rfl) ?_)
  have cleared := Errand.cleared (c := .encrypt plain) remote nofun
  refine .bind (.liftExcept ?_)
  rcases made : record.current.encrypt S plain with e | ⟨message, st⟩
  · exact served rfl
  refine .bind (quiet (.inl rfl) (.save (cleared ..) rfl) (fun _ => rfl) (fun _ => served rfl)
    fun _ => ?_)
  refine .bind (quiet (.inl rfl) (.keep (cleared ..) rfl fun loadable => ?_) (fun _ => rfl)
    (fun _ => served rfl) fun _ => .pure (served rfl))
  exact Call.writes_encrypt loadable old made

theorem decryptMessage (m : RatchetMessage) :
    (decryptMessage S peer m).Obeys (errands free S peer) (.session peer (.decrypt m))
      (fun outcome _ t => (Call.decrypt m).Done peer t outcome) n {} := by
  have served : ∀ {outcome : Except Error Bytes} {t : Errand}, t.inside = true →
      (Call.decrypt m).Served peer outcome t := fun inside => ⟨inside, nofun⟩
  refine locked (.bind (quiet (.inl rfl) .contains (fun _ => rfl) (fun _ => served rfl) ?_))
  rintro (_ | _)
  · exact .bind (.throw (served rfl))
  refine .bind (load rfl (fun _ => served rfl) fun record => ?_)
  refine .bind (draw rfl fun e => ?_)
  rcases decrypted : (record.decrypt S m).run e with ⟨_ | ⟨plain, record'⟩, e'⟩
  · exact served rfl
  refine .bind (.liftExcept ?_)
  cases needed .noRemoteIdentity record'.current.remoteIdentity with
  | error e => exact served rfl
  | ok remote =>
    refine .bind (requireTrust rfl nofun (fun _ => served rfl) (served rfl) ?_)
    have cleared := Errand.cleared (c := .decrypt m) remote nofun
    refine .bind (quiet (.inl rfl) (.save (cleared ..) rfl) (fun _ => rfl) (fun _ => served rfl)
      fun _ => ?_)
    refine .bind (.deliver (.inl rfl) ?_)
    rintro (_ | -)
    · exact served rfl
    refine .bind (quiet (.inl rfl) (.keep (cleared ..) rfl fun loadable => ?_) (fun _ => rfl)
      (fun _ => served rfl) fun _ => .pure (served rfl))
    exact Call.writes_decrypt loadable decrypted

section
variable {m : PreKeyMessage} {record : SessionRecord} {made : List PublicKey}

/-- A job that has loaded a record and is cleared. -/
structure Underway (m : PreKeyMessage) (record : SessionRecord) (t : Errand) : Prop where
  cleared : t.Cleared (.decryptPreKey m)
  loaded : t.loaded = some record
  trusts : t.trusts = some m.identity

/-- What has become of a job that has looked for the keys of a handshake. -/
def Found (peer : Address) (m : PreKeyMessage) (record : SessionRecord)
    (keys : Except Error (Option ResponderKeys)) (t : Errand) : Prop :=
  match keys with
  | .ok keys => Underway m record t ∧ record.knows m.version m.baseKey.transmitted = keys.isNone
  | .error e => (Call.decryptPreKey m).Served (α := Bytes) peer (.error e) t

/-- What has become of a job that has accepted the session of a pre-key message. -/
def Accepted (S : Suite) (peer : Address) (m : PreKeyMessage) (record : SessionRecord)
    (used : Except Error (Option UInt32)) (record' : SessionRecord) (t : Errand) : Prop :=
  match used with
  | .ok _ => Underway m record t ∧ (record.Loadable → record.Accepts S m record')
  | .error e => (Call.decryptPreKey m).Served (α := Bytes) peer (.error e) t

/-- Neither a draw nor a failure makes a difference to that. -/
theorem Underway.frame (h : Underway m record t) (made : List PublicKey) (failed : Option Error) :
    Underway m record { t with made, failed } :=
  ⟨⟨h.cleared.inside, h.cleared.trusts, h.cleared.presented⟩, h.loaded, h.trusts⟩

theorem Underway.keys {q : StoreRequest} {post : Except Error q.Reply → Nat → Errand → Prop}
    (h : Underway m record t) (own : q.OwnKeys)
    (failed : ∀ e t, Underway m record t → post (.error e) n t)
    (found : ∀ reply, post (.ok reply) n t) :
    (Action.store q).Obeys (errands free S peer) (.session peer (.decryptPreKey m)) post n t :=
  quiet (.inl h.cleared.inside) (.keys h.cleared own) (Call.errand_keys own)
    (fun e => failed e _ (h.frame _ _)) found

/-- The check comes before all other requests. -/
theorem findKeys :
    (findKeys peer record m).Obeys (errands free S peer) (.session peer (.decryptPreKey m))
      (fun keys _ t => Found peer m record keys t) n ⟨true, none, some record, made, none⟩ := by
  have presented : ∀ other ∈ (Call.decryptPreKey m).presents, m.identity = other := by
    rintro _ ⟨⟩
    rfl
  refine .bind (requireTrust rfl presented (fun e => ?_) ?_ ?_)
  · exact ⟨rfl, by rintro _ ⟨⟩; exact .inr ⟨e, rfl, .inr (.inr ⟨rfl, rfl⟩)⟩⟩
  · exact ⟨rfl, by rintro _ ⟨⟩; exact .inr ⟨_, rfl, .inl rfl⟩⟩
  have under : Underway m record ⟨true, some m.identity, some record, made, none⟩ :=
    ⟨Errand.cleared _ presented .., rfl, rfl⟩
  dsimp only
  split
  · exact .pure ⟨under, ‹_›⟩
  rename_i unknown
  have unknown : record.knows m.version m.baseKey.transmitted = false := by simpa using unknown
  refine .bind (under.keys trivial (fun _ _ h => h.cleared.served) fun signedPreKey => ?_)
  have found : ∀ oneTimePreKey, Action.Obeys (errands free S peer) (.session peer (.decryptPreKey m))
      (fun keys _ t => Found peer m record keys t) n (do
        let identity ← Action.store .identityKeyPair
        return some {
          identity
          signedPreKey := signedPreKey.keyPair
          oneTimePreKey
          ratchetKey := signedPreKey.keyPair
          theirIdentity := m.identity
          theirBaseKey := m.baseKey }) ⟨true, some m.identity, some record, made, none⟩ := fun _ =>
    .bind (under.keys trivial (fun _ _ h => h.cleared.served) fun _ => .pure ⟨under, unknown⟩)
  cases m.preKeyId with
  | none => exact .bind (.pure (found none))
  | some id =>
    exact .bind (.map (under.keys trivial (fun _ _ h => h.cleared.served) fun preKey =>
      found (some preKey.keyPair)))

theorem keepIdentity {used : Option UInt32} {record' : SessionRecord} (h : Underway m record t)
    (accepts : record.Loadable → record.Accepts S m record') :
    (acceptSession.keepIdentity peer m used record').Obeys (errands free S peer)
      (.session peer (.decryptPreKey m)) (fun (used, record') _ t => Accepted S peer m record used record' t)
      n t := by
  refine Program.Obeys.bind (quiet (.inl h.cleared.inside) (.save h.cleared h.trusts) (fun _ => rfl)
    (fun e => ?_) fun _ => ?_)
  · exact (h.frame _ _).cleared.served
  · exact ⟨h, accepts⟩

theorem acceptSession :
    (acceptSession S peer record m).Obeys (errands free S peer) (.session peer (.decryptPreKey m))
      (fun (used, record') _ t => Accepted S peer m record used record' t)
      n ⟨true, none, some record, made, none⟩ := by
  refine Program.Obeys.bind (Program.Obeys.mono findKeys ?_)
  rintro (e | _ | keys) n t found
  · exact found
  · exact keepIdentity found.1 fun loadable => SessionRecord.accepts_known loadable found.2
  obtain ⟨under, unknown⟩ := found
  refine Program.Obeys.bind (under.keys trivial (fun _ _ h => h.cleared.served) fun id => ?_)
  exact keepIdentity under fun loadable => SessionRecord.accepts_new loadable unknown

theorem decryptPreKeyMessage (m : PreKeyMessage) :
    (decryptPreKeyMessage S peer m).Obeys (errands free S peer) (.session peer (.decryptPreKey m))
      (fun outcome _ t => (Call.decryptPreKey m).Done peer t outcome) n {} := by
  refine locked (.bind (load rfl (fun e => ?_) fun record => ?_))
  · exact ⟨rfl, by rintro _ ⟨⟩; exact .inr ⟨e, rfl, .inr (.inr ⟨rfl, rfl⟩)⟩⟩
  refine .bind (.lift (Program.Obeys.mono acceptSession ?_))
  rintro ⟨_ | used, record'⟩ n t accepted
  · exact .bind (.throw accepted)
  obtain ⟨under, accepts⟩ := accepted
  show Action.Obeys _ _ _ _ (Action.random (record'.decrypt S m.message) >>= _) _
  refine .bind (draw under.cleared.inside fun e => ?_)
  rcases decrypted : (record'.decrypt S m.message).run e with ⟨_ | ⟨plain, record''⟩, e'⟩
  · exact (under.frame _ _).cleared.served
  have under := under.frame (t.made ++ (Call.decryptPreKey m).baseKeys S n e e') t.failed
  refine .bind (.deliver (.inl under.cleared.inside) ?_)
  rintro (_ | -)
  · exact under.cleared.served
  refine .bind (quiet (.inl under.cleared.inside) (.keep under.cleared under.loaded fun loadable => ?_)
    (fun _ => rfl) (fun _ => (under.frame _ _).cleared.served) fun _ => ?_)
  · exact (accepts loadable).writes decrypted
  cases used with
  | none => exact .bind (.pure (.pure under.cleared.served))
  | some id =>
    exact .bind (under.keys trivial (fun _ _ h => h.cleared.served) fun _ =>
      .pure under.cleared.served)

end

end Errands

/-- All operations do their errands with the peer in this way only. -/
theorem follows_errands (free : StoreRequest → Prop) (S : Suite) (peer : Address) (op : Operation) :
    (errands free S peer).Follows S op := by
  cases own : op.for? peer with
  | none =>
    refine op.follows S (.inr rfl) (fun r may => ?_) ?_ ?_ fun outcome c same => ?_
    · simpa only [errands, own] using ⟨op.spares own may, op.not_saves own may⟩
    · simp [errands, own]
    · simp [errands, own]
    · rw [own] at same
      cases same
  | some c =>
    obtain rfl := Operation.for?_eq_some.mp own
    -- what an application gets back makes no difference to how the call ends
    have leaves : ∀ {α : Type} {f : α → Answer} (outcome : Except Error α) {t : Errand},
        c.Done peer t outcome → (errands free S peer).Leaves (.session peer c) t
          ((outcome.map f).map Outcome.session) := by
      intro α f outcome t done c' same other presented
      obtain rfl := Option.some.inj (Operation.for?_session_self.symm.trans same)
      refine (done other presented).imp_right ?_
      rintro ⟨e, rfl, why⟩
      exact ⟨e, rfl, why⟩
    cases c with
    | start bundle =>
      exact Action.Obeys.map (.map (Program.Obeys.mono (Errands.startSession bundle) fun _ _ _ => leaves _))
    | encrypt plain =>
      exact Action.Obeys.map (.map (Program.Obeys.mono (Errands.encrypt plain) fun _ _ _ => leaves _))
    | decrypt m =>
      exact Action.Obeys.map (.map (Program.Obeys.mono (Errands.decryptMessage m) fun _ _ _ => leaves _))
    | decryptPreKey m =>
      exact Action.Obeys.map (.map (Program.Obeys.mono (Errands.decryptPreKeyMessage m)
        fun _ _ _ => leaves _))
    | pin identity =>
      refine Action.Obeys.map (.map (Errands.quiet (.inr rfl) (.pin rfl) (fun _ => rfl) ?_ ?_))
      · exact fun e => leaves (.error e : Except Error Bool) nofun
      · exact fun replaced => leaves (.ok replaced) nofun

end

end DoubleRatchet
