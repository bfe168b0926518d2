/-
DoubleRatchet/Proofs/Sending.lean

How operations change the sessions with a peer.

A job that changes the sessions with a peer visits them (`Visit`): it takes the lock of
the peer, loads the record, draws ratchet keys, stores the record and releases the lock.
What it stores is made of the record that it has loaded: the current session has sent a
message, or the voices have been renewed.  A message is handed out after the record has
been stored, and only then (`follows_sending`).
-/
import DoubleRatchet.Proofs.Exclusion
import DoubleRatchet.Proofs.Requests
import DoubleRatchet.Proofs.Voices

namespace DoubleRatchet

open Function (update)
open List (Subperm)

/-! ### What is handed out, and what is drawn -/

/-- The message that an application gets back. -/
def Outcome.sent? : Outcome → Option Message
  | session (.sent m) => some m
  | _ => none

/-- The call of the operation, if it is one of the peer. -/
def Operation.for? (peer : Address) : Operation → Option Call
  | session other c => if other = peer then some c else none
  | group .. => none

/-- The message for the peer that a job leaves with. -/
def Entry.sent? (peer : Address) (x : Entry) : Option Message :=
  match x.event with
  | .left outcome => (x.job.bind (·.op.for? peer)).bind fun _ => outcome.toOption.bind Outcome.sent?
  | _ => none

/-- The messages for the peer that have been handed out. -/
def sentTo (peer : Address) (history : List Entry) : List Message := history.filterMap (·.sent? peer)

/-- The ratchet keys that a call draws: all but the base key of a session that it starts, which it
draws first. -/
def Call.ratchetKeys (S : Suite) (c : Call) (number : Nat) (source after : Entropy) : List PublicKey :=
  match c, number with
  | start _, 0 => []
  | _, _ => S.publicKeys source after

/-- The ratchet keys that are drawn for the peer. -/
def Entry.ratchetKeys (S : Suite) (peer : Address) (x : Entry) : List PublicKey :=
  match x.event with
  | .drew number source after =>
    (x.job.bind (·.op.for? peer)).elim [] fun c => c.ratchetKeys S number source after
  | _ => []

/-- The ratchet keys that have been drawn for the peer. -/
def ratchetKeys (S : Suite) (peer : Address) (history : List Entry) : List PublicKey :=
  history.flatMap (·.ratchetKeys S peer)

/-! ### Requests -/

/-- The sessions with the peer are left alone. -/
def StoreRequest.Spares (peer : Address) : StoreRequest → Prop
  | storeSession other _ | deleteSession other => other ≠ peer
  | deleteAllSessions name => name ≠ peer.name
  | _ => True

/-- The sessions with the peer are left alone, and their lock. -/
def Request.Spares (peer : Address) : Request → Prop
  | store q => q.Spares peer
  | acquire lock _ | release lock => lock ≠ .session peer
  | deliver _ => True

/-- Neither sessions nor locks are touched. -/
def Request.Quiet : Request → Prop
  | store (.loadSession _) | store (.storeSession ..) | store (.deleteSession _)
  | store (.deleteAllSessions _) | acquire .. | release _ => False
  | _ => True

theorem Request.Quiet.spares {r : Request} (h : r.Quiet) (peer : Address) : r.Spares peer := by
  cases r with
  | store q => cases q <;> first | exact h.elim | trivial
  | acquire lock access => exact h.elim
  | release lock => exact h.elim
  | deliver plain => trivial

theorem Request.Spares.avoids {peer : Address} {r : Request} (h : r.Spares peer) :
    r.Avoids (.session peer) := by
  cases r with
  | store q => trivial
  | acquire lock access => exact h
  | release lock => exact h
  | deliver plain => trivial

/-! ### Visits -/

/-- How far a job has come with the sessions of a peer. -/
inductive Visit where
  | outside
  /-- It has the lock; it may have loaded a record, and has drawn ratchet keys since. -/
  | inside (loaded : Option SessionRecord) (drawn : List PublicKey)
  /-- It has stored a record, and may have a message to hand out. -/
  | stored (message : Option Message)
  /-- It has released the lock. -/
  | closed (message : Option Message)

/-- The job has the lock, and may have a message to hand out. -/
inductive Visit.Holds : Visit → Option Message → Prop
  | inside (loaded : Option SessionRecord) (drawn : List PublicKey) : Holds (inside loaded drawn) none
  | stored (message : Option Message) : Holds (stored message) message

namespace Call

variable (S : Suite) (peer : Address) (c : Call)

/-- The message that the call makes with a record. -/
def made (r : SessionRecord) : Option Message :=
  match c with
  | encrypt plain => (r.current.encrypt S plain).toOption.map Prod.fst
  | _ => none

/-- What the call stores in the place of a record: it sends a message on its current session, or it
makes no message. -/
def Keeps (drawn : List PublicKey) (r r' : SessionRecord) : Prop :=
  match c with
  | encrypt plain => r.fresh = false ∧ ∃ message st, r.current.encrypt S plain = .ok (message, st) ∧
      r' = { r with current := st }
  | _ => r.Renews drawn r'

/-- What the call asks for. -/
inductive VisitAsks : Visit → Request → Prop
  | quiet {t r} (h : r.Quiet) : VisitAsks t r
  | enter : VisitAsks .outside (.acquire (.session peer) .write)
  | load (loaded drawn) : VisitAsks (.inside loaded drawn) (.store (.loadSession peer))
  | keep {r drawn r'} (h : c.Keeps S drawn r r') :
    VisitAsks (.inside (some r) drawn) (.store (.storeSession peer r'))
  | leave {t message} (h : t.Holds message) : VisitAsks t (.release (.session peer))

/-- How a visit goes on. -/
def visit : Visit → Event → Visit
  | .outside, .asked (.acquire ..) (.ok _) => .inside none []
  | .inside _ drawn, .asked (.store (.loadSession _)) (.ok r) => .inside (some r) drawn
  | .inside loaded drawn, .drew number source after =>
    .inside loaded (drawn ++ c.ratchetKeys S number source after)
  | .inside (some r) _, .asked (.store (.storeSession ..)) (.ok _) => .stored (c.made S r)
  | .inside .., .asked (.release _) (.ok _) => .closed none
  | .stored message, .asked (.release _) (.ok _) => .closed message
  | t, _ => t

end Call

/-- The sessions with the peer are changed in visits only, and a message is handed out at the end of
the visit in which it is made. -/
def sending (S : Suite) (peer : Address) : Discipline Visit where
  init := .outside
  Rests t := ∀ message, t ≠ .closed message
  Asks op t r :=
    match op.for? peer with
    | some c => c.VisitAsks S peer t r
    | none => r.Spares peer
  Expects _ _ r reply :=
    match r, reply with
    | .store (.loadSession other), .ok record => other = peer → record.Steady
    | .release _, .error _ => False
    | _, _ => True
  Leaves op t outcome :=
    match op.for? peer with
    | some _ => (t = .outside ∧ outcome.toOption.bind Outcome.sent? = none) ∨
      t = .closed (outcome.toOption.bind Outcome.sent?)
    | none => t = .outside
  Free q := q.Spares peer
  after op t event :=
    match op.for? peer with
    | some c => c.visit S t event
    | none => t

section
variable {S : Suite} {peer : Address} {op : Operation} {c : Call} {r : Request}

@[simp] theorem Operation.for?_session_self : (session peer c).for? peer = some c := if_pos rfl

theorem Operation.for?_eq_some : op.for? peer = some c ↔ op = session peer c := by
  cases op with
  | session other c' =>
    by_cases same : other = peer
    · simp [for?, same]
    · simp [for?, same]
  | group sender c' => simp [for?]

theorem Call.visit_quiet {t : Visit} {reply : Except Error r.Reply} (h : r.Quiet) :
    c.visit S t (.asked r reply) = t := by
  cases r with
  | store q => cases q <;> first | exact h.elim | (rcases t with _ | ⟨_ | _, _⟩ | _ | _ <;> rfl)
  | acquire lock access => exact h.elim
  | release lock => exact h.elim
  | deliver plain => rcases t with _ | ⟨_ | _, _⟩ | _ | _ <;> rfl

/-- An operation that is not on the peer leaves its sessions alone. -/
theorem Operation.spares (other : op.for? peer = none) (h : op.MayAsk r) : r.Spares peer := by
  cases op with
  | session other' c =>
    have ne : other' ≠ peer := by
      rintro rfl
      simp at other
    cases r with
    | store q => cases q <;> first | trivial | (rintro rfl; exact ne h.symm)
    | acquire lock access =>
      obtain ⟨rfl, -⟩ := h
      rintro ⟨⟩
      exact ne rfl
    | release lock =>
      obtain rfl := h
      rintro ⟨⟩
      exact ne rfl
    | deliver plain => trivial
  | group sender c =>
    cases r with
    | store q => cases q <;> trivial
    | acquire lock access =>
      obtain ⟨rfl, -⟩ := h
      exact nofun
    | release lock =>
      obtain rfl := h
      exact nofun
    | deliver plain => trivial

/-! ### Operations visit -/

/-! An operation on the peer, step by step. -/

namespace Sending

variable {α : Type} {post : Except Error α → Nat → Visit → Prop} {n : Nat} {t : Visit}
  {loaded : Option SessionRecord} {drawn : List PublicKey}

theorem after_own (event : Event) :
    (sending S peer).after (.session peer c) t event = c.visit S t event := by
  simp [sending]

theorem asks_own (h : c.VisitAsks S peer t r) : (sending S peer).Asks (.session peer c) t r := by
  simpa [sending] using h

theorem leaves_own {outcome : Except Error Outcome} {message : Option Message}
    (same : outcome.toOption.bind Outcome.sent? = message)
    (h : (t = .outside ∧ message = none) ∨ t = .closed message) :
    (sending S peer).Leaves (.session peer c) t outcome := by
  subst same
  simp only [sending, Operation.for?_session_self]
  exact h

theorem quiet {q : StoreRequest} {post : Except Error q.Reply → Nat → Visit → Prop}
    (rests : (sending S peer).Rests t) (hq : Request.Quiet (.store q)) (h : ∀ reply, post reply n t) :
    (Action.store q).Obeys (sending S peer) (.session peer c) post n t := by
  refine .store rests (asks_own (.quiet hq)) fun reply _ => ?_
  rw [after_own, Call.visit_quiet hq]
  exact h reply

theorem load {post : Except Error SessionRecord → Nat → Visit → Prop}
    (h : ∀ r, r.Steady → post (.ok r) n (.inside (some r) drawn))
    (failed : ∀ e, post (.error e) n (.inside loaded drawn)) :
    (Action.store (.loadSession peer)).Obeys (sending S peer) (.session peer c) post n
      (.inside loaded drawn) := by
  refine .store nofun (asks_own (.load loaded drawn)) ?_
  rintro (e | r) expected
  · rw [after_own]
    cases loaded <;> exact failed e
  · rw [after_own]
    exact h r (expected rfl)

theorem keep {r r' : SessionRecord} {post : Except Error Unit → Nat → Visit → Prop}
    (keeps : c.Keeps S drawn r r') (h : post (.ok ()) n (.stored (c.made S r)))
    (failed : ∀ e, post (.error e) n (.inside (some r) drawn)) :
    (Action.store (.storeSession peer r')).Obeys (sending S peer) (.session peer c) post n
      (.inside (some r) drawn) := by
  refine .store nofun (asks_own (.keep keeps)) ?_
  rintro (e | ⟨⟨⟩⟩) -
  · rw [after_own]
    exact failed e
  · rw [after_own]
    exact h

theorem draw {x : Draw α} (h : ∀ e, post (x.run e).1 (n + 1)
      (.inside loaded (drawn ++ c.ratchetKeys S n e (x.run e).2))) :
    (Action.random x).Obeys (sending S peer) (.session peer c) post n (.inside loaded drawn) := by
  refine .random nofun fun e => ?_
  rw [after_own]
  cases loaded <;> exact h e

/-- A visit, from taking the lock to releasing it. -/
theorem locked {body : Action α} (refused : ∀ e, post (.error e) n .outside)
    (h : body.Obeys (sending S peer) (.session peer c) (fun outcome n t =>
      ∃ message, t.Holds message ∧ post outcome n (.closed message)) n (.inside none [])) :
    (Action.locked (.session peer) .write body).Obeys (sending S peer) (.session peer c) post n
      .outside := by
  refine .locked nofun (asks_own .enter) (fun e _ => ?_) fun _ => ?_
  · rw [after_own]
    exact refused e
  · rw [after_own]
    refine Program.Obeys.mono h ?_
    rintro outcome n t ⟨message, holds, closed⟩
    refine ⟨?_, asks_own (.leave holds), ?_⟩
    · cases holds <;> exact nofun
    · rintro (e | ⟨⟨⟩⟩) expected
      · exact expected.elim
      · rw [after_own]
        cases holds with
        | inside loaded drawn => cases loaded <;> exact closed
        | stored message => exact closed

theorem requireTrust {key : PublicKey} {direction : Direction}
    {post : Except Error Unit → Nat → Visit → Prop} (rests : (sending S peer).Rests t)
    (h : ∀ outcome, post outcome n t) :
    (requireTrust peer key direction).Obeys (sending S peer) (.session peer c) post n t := by
  refine .bind (quiet rests trivial ?_)
  rintro (e | trusted)
  · exact h _
  · cases trusted
    · exact .throw (h _)
    · exact .pure (h _)

/-- A visit that makes no message. -/
theorem silent {body : Action α} (h : body.Obeys (sending S peer) (.session peer c)
      (fun _ _ t => t.Holds none) n (.inside none [])) :
    (Action.locked (.session peer) .write body).Obeys (sending S peer) (.session peer c)
      (fun _ _ t => t = .outside ∨ t = .closed none) n .outside :=
  locked (fun _ => .inl rfl) (Program.Obeys.mono h fun _ _ _ holds => ⟨none, holds, .inr rfl⟩)

theorem startSession (bundle : PreKeyBundle) :
    (startSession S peer bundle).Obeys (sending S peer) (.session peer (.start bundle))
      (fun _ _ t => t = .outside ∨ t = .closed none) 0 .outside := by
  refine silent (.bind (requireTrust nofun ?_))
  rintro (e | -)
  · exact .inside _ _
  refine .bind (.liftExcept ?_)
  cases bundle.checkSignature S with
  | error e => exact .inside _ _
  | ok _ =>
    refine .bind (load (fun record steady => ?_) fun _ => .inside _ _)
    refine .bind (draw fun e => ?_)
    rcases S.drawKeyPair.run e with ⟨_ | baseKey, e₁⟩
    · exact .inside _ _
    refine .bind (quiet nofun trivial ?_)
    rintro (_ | identity)
    · exact .inside _ _
    refine .bind (draw fun e => ?_)
    rcases initiated : (record.makeRoom.current.initiate S _).run e with ⟨_ | st, e₂⟩
    · exact .inside _ _
    refine .bind (quiet nofun trivial ?_)
    rintro (_ | registrationId)
    · exact .inside _ _
    refine .bind (quiet nofun trivial ?_)
    rintro (_ | -)
    · exact .inside _ _
    exact keep (SessionRecord.renews_initiate steady initiated rfl rfl) (.stored none)
      fun _ => .inside _ _

theorem encrypt (plain : Bytes) :
    (encrypt S peer plain).Obeys (sending S peer) (.session peer (.encrypt plain))
      (fun outcome _ t => (t = .outside ∧ outcome.toOption = none) ∨ t = .closed outcome.toOption) n
      .outside := by
  refine locked (fun _ => .inl ⟨rfl, rfl⟩) ?_
  -- an encryption that fails has no message
  have failed : ∀ (e : Error) loaded, ∃ message, (Visit.inside loaded []).Holds message ∧
      ((Visit.closed message = .outside ∧ (Except.error e : Except Error Message).toOption = none) ∨
        Visit.closed message = .closed (Except.error e : Except Error Message).toOption) :=
    fun e loaded => ⟨none, .inside loaded [], .inr rfl⟩
  refine .bind (load (fun record steady => ?_) fun e => failed e _)
  dsimp only
  split
  · exact .bind (.throw (failed _ _))
  rename_i fresh
  refine .bind (.liftExcept ?_)
  rcases record.current.identities with e | ⟨remote, own⟩
  · exact failed e _
  refine .bind (requireTrust nofun ?_)
  rintro (e | -)
  · exact failed e _
  refine .bind (.liftExcept ?_)
  rcases made : record.current.encrypt S plain with e | ⟨message, st⟩
  · exact failed e _
  refine .bind (quiet nofun trivial ?_)
  rintro (e | -)
  · exact failed e _
  have old : record.fresh = false := by
    simp at fresh
    exact fresh.1
  refine .bind (keep ⟨old, message, st, made, rfl⟩ ?_ fun e => failed e _)
  refine .pure ⟨some message, ?_, .inr rfl⟩
  have same : (Call.encrypt plain).made S record = some message := by
    simp [Call.made, made, Except.toOption]
  rw [same]
  exact .stored _

theorem decryptMessage (m : RatchetMessage) :
    (decryptMessage S peer m).Obeys (sending S peer) (.session peer (.decrypt m))
      (fun _ _ t => t = .outside ∨ t = .closed none) n .outside := by
  refine silent (.bind (quiet nofun trivial ?_))
  rintro (_ | _ | -)
  · exact .inside _ _
  · exact .bind (.throw (.inside _ _))
  refine .bind (load (fun record steady => ?_) fun _ => .inside _ _)
  refine .bind (draw fun e => ?_)
  rcases decrypted : (record.decrypt S m).run e with ⟨_ | ⟨plain, record'⟩, e'⟩
  · exact .inside _ _
  refine .bind (.liftExcept ?_)
  cases needed .noRemoteIdentity record'.current.remoteIdentity with
  | error e => exact .inside _ _
  | ok remote =>
    refine .bind (requireTrust nofun ?_)
    rintro (_ | -)
    · exact .inside _ _
    refine .bind (quiet nofun trivial ?_)
    rintro (_ | -)
    · exact .inside _ _
    refine .bind (.deliver nofun ?_)
    rintro (_ | -)
    · exact .inside _ _
    refine .bind (keep (SessionRecord.renews_decrypt steady.few decrypted) ?_ fun _ => .inside _ _)
    exact .pure (.stored none)

/-- Looking for the keys of a handshake makes no difference to the visit. -/
theorem findKeys {record : SessionRecord} {m : PreKeyMessage}
    {post : Except Error (Option ResponderKeys) → Nat → Visit → Prop}
    (h : ∀ outcome, post outcome n (.inside loaded drawn)) :
    (findKeys peer record m).Obeys (sending S peer) (.session peer c) post n
      (.inside loaded drawn) := by
  refine .bind (requireTrust nofun ?_)
  rintro (_ | -)
  · exact h _
  dsimp only
  split
  · exact .pure (h _)
  refine .bind (quiet nofun trivial ?_)
  rintro (_ | signedPreKey)
  · exact h _
  have found : ∀ oneTimePreKey, Action.Obeys (sending S peer) (.session peer c) post n (do
      let identity ← Action.store .identityKeyPair
      return some {
        identity
        signedPreKey := signedPreKey.keyPair
        oneTimePreKey
        ratchetKey := signedPreKey.keyPair
        theirIdentity := m.identity
        theirBaseKey := m.baseKey }) (.inside loaded drawn) := by
    intro oneTimePreKey
    refine .bind (quiet nofun trivial ?_)
    rintro (_ | identity)
    · exact h _
    · exact .pure (h _)
  cases m.preKeyId with
  | none => exact .bind (.pure (found none))
  | some id =>
    refine .bind (.map (quiet nofun trivial ?_))
    rintro (_ | preKey)
    · exact h _
    · exact found (some preKey.keyPair)

/-- A session that is accepted has no voice yet, so the record has the voices that it had. -/
theorem acceptSession {record : SessionRecord} {m : PreKeyMessage}
    {post : Except Error (Option UInt32) × SessionRecord → Nat → Visit → Prop} (steady : record.Steady)
    (h : ∀ used (r : SessionRecord), r.archive.length ≤ limits.archivedSessions →
      r.voices.Subperm record.voices → post (used, r) n (.inside loaded drawn)) :
    (acceptSession S peer record m).Obeys (sending S peer) (.session peer c) post n
      (.inside loaded drawn) := by
  have kept : ∀ used (r : SessionRecord), r.archive.length ≤ limits.archivedSessions →
      r.voices.Subperm record.voices →
        (acceptSession.keepIdentity peer m used r).Obeys (sending S peer) (.session peer c) post n
          (.inside loaded drawn) := by
    intro used r few sub
    refine Program.Obeys.bind (quiet nofun trivial ?_)
    rintro (e | -)
    · exact h _ _ few sub
    · exact h _ _ few sub
  refine Program.Obeys.bind (findKeys ?_)
  rintro (e | _ | keys)
  · exact h _ _ steady.few (Subperm.refl _)
  · exact kept _ _ steady.few (Subperm.refl _)
  refine Program.Obeys.bind (quiet nofun trivial ?_)
  rintro (e | registrationId)
  · exact h _ _ (SessionRecord.length_makeRoom steady) (SessionRecord.voices_accept steady rfl)
  · exact kept _ _ (SessionRecord.length_makeRoom steady) (SessionRecord.voices_accept steady rfl)

theorem decryptPreKeyMessage (m : PreKeyMessage) :
    (decryptPreKeyMessage S peer m).Obeys (sending S peer) (.session peer (.decryptPreKey m))
      (fun _ _ t => t = .outside ∨ t = .closed none) n .outside := by
  refine silent (.bind (load (fun record steady => ?_) fun _ => .inside _ _))
  refine .bind (.lift (acceptSession steady ?_))
  rintro (_ | used) accepted few sub
  · exact .bind (.throw (.inside _ _))
  show Action.Obeys _ _ _ _ (Action.random (accepted.decrypt S m.message) >>= _) _
  refine .bind (draw fun e => ?_)
  rcases decrypted : (accepted.decrypt S m.message).run e with ⟨_ | ⟨plain, record'⟩, e'⟩
  · exact .inside _ _
  refine .bind (.deliver nofun ?_)
  rintro (_ | -)
  · exact .inside _ _
  have renews := (SessionRecord.renews_decrypt few decrypted).trans sub
  refine .bind (keep renews ?_ fun _ => .inside _ _)
  cases used with
  | none => exact .bind (.pure (.pure (.stored none)))
  | some id =>
    refine .bind (quiet nofun trivial ?_)
    rintro (_ | -)
    · exact .stored none
    · exact .pure (.stored none)

end Sending

/-- All operations change the sessions with the peer in this way only. -/
theorem follows_sending (S : Suite) (peer : Address) (op : Operation) :
    (sending S peer).Follows S op := by
  cases own : op.for? peer with
  | none =>
    refine op.follows S nofun (fun r may => ?_) ?_ ?_ ?_
    · simpa [sending, own] using op.spares own may
    · simp [sending, own]
    · simp [sending, own]
    · simp [sending, own]
  | some c =>
    obtain rfl := Operation.for?_eq_some.mp own
    cases c with
    | start bundle =>
      refine Action.Obeys.map (.map (Program.Obeys.mono (Sending.startSession bundle) ?_))
      exact fun outcome n t ht => Sending.leaves_own (by cases outcome <;> rfl)
        (ht.imp_left (⟨·, rfl⟩))
    | encrypt plain =>
      refine Action.Obeys.map (.map (Program.Obeys.mono (Sending.encrypt plain) ?_))
      exact fun outcome n t ht => Sending.leaves_own (by cases outcome <;> rfl) ht
    | decrypt m =>
      refine Action.Obeys.map (.map (Program.Obeys.mono (Sending.decryptMessage m) ?_))
      exact fun outcome n t ht => Sending.leaves_own (by cases outcome <;> rfl)
        (ht.imp_left (⟨·, rfl⟩))
    | decryptPreKey m =>
      refine Action.Obeys.map (.map (Program.Obeys.mono (Sending.decryptPreKeyMessage m) ?_))
      exact fun outcome n t ht => Sending.leaves_own (by cases outcome <;> rfl)
        (ht.imp_left (⟨·, rfl⟩))
    | pin identity =>
      refine Action.Obeys.map (.map (Sending.quiet nofun trivial fun reply => ?_))
      exact Sending.leaves_own (by cases reply <;> rfl) (.inl ⟨rfl, rfl⟩)

end

end DoubleRatchet
