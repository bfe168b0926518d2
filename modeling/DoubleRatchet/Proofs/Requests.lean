/-
DoubleRatchet/Proofs/Requests.lean

What an operation asks for.

An operation on a peer touches the record and the identity of that peer and its lock, and
of the pre-keys only those that its message names; an operation on a group sender touches
the record of that sender and its lock (`Operation.asks`).  Where a discipline allows all
that, and an operation makes no difference to the state of a job, the operation follows
it (`Operation.follows`).
-/
import DoubleRatchet.Proofs.Disciplines

namespace DoubleRatchet

/-! ### Programs -/

/-- All that the program asks for satisfies `p`. -/
def Program.Asks {α : Type} (p : Request → Prop) : Program α → Prop
  | done _ => True
  | ask r next => p r ∧ ∀ reply, (next reply).Asks p
  | draw _ next => ∀ outcome, (next outcome).Asks p

theorem Program.Asks.mono {α : Type} {p p' : Request → Prop} {x : Program α} (hx : x.Asks p)
    (imp : ∀ r, p r → p' r) : x.Asks p' := by
  induction x with
  | done a => trivial
  | ask r next ih => exact ⟨imp r hx.1, fun reply => ih reply (hx.2 reply)⟩
  | draw x next ih => exact fun outcome => ih outcome (hx outcome)

/-- All results of the program satisfy `q`. -/
def Program.Gives {α : Type} (q : α → Prop) : Program α → Prop
  | done a => q a
  | ask _ next => ∀ reply, (next reply).Gives q
  | draw _ next => ∀ outcome, (next outcome).Gives q

theorem Program.gives_true {α : Type} (x : Program α) : x.Gives fun _ => True := by
  induction x with
  | done a => trivial
  | ask r next ih => exact ih
  | draw x next ih => exact ih

/-- A program may rely on what the one before it gives. -/
theorem Program.Gives.bind_of {α β : Type} {p : α → Prop} {q : β → Prop} {x : Program α}
    {f : α → Program β} (hx : x.Gives p) (hf : ∀ a, p a → (f a).Gives q) : (x >>= f).Gives q := by
  show (Program.bind x f).Gives q
  induction x with
  | done a => exact hf a hx
  | ask r next ih => exact fun reply => ih reply (hx reply)
  | draw x next ih => exact fun outcome => ih outcome (hx outcome)

theorem Program.Gives.bind {α β : Type} {q : β → Prop} (x : Program α) {f : α → Program β}
    (hf : ∀ a, (f a).Gives q) : (x >>= f).Gives q :=
  x.gives_true.bind_of fun a _ => hf a

theorem Program.Asks.bind_of_gives {α β : Type} {p : Request → Prop} {q : α → Prop} {x : Program α}
    {f : α → Program β} (hx : x.Asks p) (gives : x.Gives q) (hf : ∀ a, q a → (f a).Asks p) :
    (x >>= f).Asks p := by
  show (Program.bind x f).Asks p
  induction x with
  | done a => exact hf a gives
  | ask r next ih => exact ⟨hx.1, fun reply => ih reply (hx.2 reply) (gives reply)⟩
  | draw x next ih => exact fun outcome => ih outcome (hx outcome) (gives outcome)

theorem Program.Asks.bind {α β : Type} {p : Request → Prop} {x : Program α} {f : α → Program β}
    (hx : x.Asks p) (hf : ∀ a, (f a).Asks p) : (x >>= f).Asks p :=
  hx.bind_of_gives x.gives_true fun a _ => hf a

/-- A program that asks only for what a discipline allows in one state, and that does not change
it, obeys the discipline in that state. -/
theorem Program.Asks.obeys {τ α : Type} {D : Discipline τ} {op : Operation} {t : τ}
    {p : Request → Prop} {x : Program α} {n : Nat} (h : x.Asks p) (rests : D.Rests t)
    (asks : ∀ r, p r → D.Asks op t r)
    (asked : ∀ r reply, p r → D.after op t (.asked r reply) = t)
    (drew : ∀ n e e', D.after op t (.drew n e e') = t) :
    x.Obeys D op (fun _ _ t' => t' = t) n t := by
  induction x generalizing n with
  | done a => rfl
  | ask r next ih =>
    cases r with
    | deliver plain => exact ⟨rests, fun verdict => ih verdict (h.2 verdict)⟩
    | store q =>
      refine ⟨rests, asks _ h.1, fun reply _ => ?_⟩
      rw [asked _ _ h.1]
      exact ih reply (h.2 reply)
    | acquire lock access =>
      refine ⟨rests, asks _ h.1, fun reply _ => ?_⟩
      rw [asked _ _ h.1]
      exact ih reply (h.2 reply)
    | release lock =>
      refine ⟨rests, asks _ h.1, fun reply _ => ?_⟩
      rw [asked _ _ h.1]
      exact ih reply (h.2 reply)
  | draw x next ih =>
    refine ⟨rests, fun e => ?_⟩
    rw [drew]
    exact ih _ (h _)

/-! ### Steps of operations -/

/-- All that the operation asks for satisfies `p`. -/
def Action.Asks {α : Type} (p : Request → Prop) (a : Action α) : Prop := Program.Asks p a.run

namespace Action.Asks

variable {α β : Type} {p : Request → Prop}

theorem pure (x : α) : Action.Asks p (Pure.pure x) := trivial

theorem throw (e : Error) : Action.Asks p (MonadExcept.throw e : Action α) := trivial

theorem throw_bind (e : Error) (f : α → Action β) :
    Action.Asks p ((MonadExcept.throw e : Action α) >>= f) := trivial

theorem store {q : StoreRequest} (h : p (.store q)) : (Action.store q).Asks p := ⟨h, fun _ => trivial⟩

theorem deliver {plain : Bytes} (h : p (.deliver plain)) : (Action.deliver plain).Asks p :=
  ⟨h, fun _ => trivial⟩

theorem random (x : Draw α) : (Action.random x).Asks p := fun _ => trivial

theorem liftExcept (x : Except Error α) : Action.Asks p (liftM x) := by cases x <;> trivial

theorem bind {a : Action α} {f : α → Action β} (ha : a.Asks p) (hf : ∀ x, (f x).Asks p) :
    (a >>= f).Asks p := by
  show (ExceptT.run (a >>= f)).Asks p
  rw [ExceptT.run_bind]
  refine Program.Asks.bind ha fun outcome => ?_
  cases outcome with
  | ok x => exact hf x
  | error e => trivial

theorem map {a : Action α} (f : α → β) (ha : a.Asks p) : (f <$> a).Asks p := by
  rw [← bind_pure_comp]
  exact ha.bind fun _ => trivial

theorem locked {lock : LockName} {access : Access} {body : Action α} (acquire : p (.acquire lock access))
    (release : p (.release lock)) (h : body.Asks p) : (Action.locked lock access body).Asks p := by
  unfold Action.Asks
  rw [Action.run_locked]
  refine ⟨acquire, fun acquired => ?_⟩
  cases acquired with
  | error e => trivial
  | ok _ =>
    refine Program.Asks.bind h fun outcome => ⟨release, fun released => ?_⟩
    cases released <;> trivial

/-- A program goes on with its result. -/
theorem bind_of_gives {x : Program α} {f : α → Action β} {q : α → Prop} (hx : x.Asks p)
    (gives : x.Gives q) (hf : ∀ a, q a → (f a).Asks p) :
    Action.Asks p (ExceptT.lift x >>= f) := by
  show (ExceptT.run (ExceptT.lift x >>= f)).Asks p
  rw [ExceptT.run_bind, ExceptT.run_lift, bind_map_left]
  exact Program.Asks.bind_of_gives hx gives hf

end Action.Asks

/-! ### Sessions -/

/-- What may be asked for to accept the session of a pre-key message. -/
def PreKeyMessage.MayAsk (peer : Address) (m : PreKeyMessage) : Request → Prop
  | .store (.isTrusted other _ _) | .store (.saveIdentity other _) => other = peer
  | .store .identityKeyPair | .store .registrationId | .store (.loadSignedPreKey _) => True
  | .store (.loadPreKey id) => m.preKeyId = some id
  | _ => False

/-- What a call of a peer may ask for. -/
def Call.MayAsk (peer : Address) (c : Call) : Request → Prop
  | .acquire lock access => lock = .session peer ∧ access = .write
  | .release lock => lock = .session peer
  | .deliver _ => True
  | .store q =>
    match q with
    | .loadSession other | .containsSession other | .storeSession other _ | .saveIdentity other _
    | .isTrusted other _ _ => other = peer
    | .identityKeyPair | .registrationId | .loadSignedPreKey _ => True
    | .loadPreKey id | .removePreKey id => ∃ m, c = .decryptPreKey m ∧ m.preKeyId = some id
    | _ => False

/-- What a call of a group sender may ask for. -/
def GroupCall.MayAsk (sender : GroupSender) : Request → Prop
  | .acquire lock access => lock = .senderKey sender ∧ access = .write
  | .release lock => lock = .senderKey sender
  | .deliver _ => True
  | .store q =>
    match q with
    | .loadSenderKey other | .storeSenderKey other _ => other = sender
    | _ => False

/-- What an operation may ask for. -/
def Operation.MayAsk : Operation → Request → Prop
  | session peer c => c.MayAsk peer
  | group sender _ => GroupCall.MayAsk sender

section
variable (S : Suite) (peer : Address)

open Action.Asks

theorem asks_requireTrust {p : Request → Prop} {key : PublicKey} {direction : Direction}
    (h : p (.store (.isTrusted peer key direction))) : (requireTrust peer key direction).Asks p := by
  refine bind (store h) fun trusted => ?_
  cases trusted
  · exact throw _
  · exact pure _

theorem asks_startSession (bundle : PreKeyBundle) :
    (startSession S peer bundle).Asks ((Call.start bundle).MayAsk peer) := by
  refine locked ⟨rfl, rfl⟩ rfl ?_
  refine bind (asks_requireTrust peer rfl) fun _ => bind (liftExcept _) fun _ =>
    bind (store rfl) fun _ => bind (random _) fun _ => bind (store trivial) fun _ => ?_
  exact bind (random _) fun _ => bind (store trivial) fun _ => bind (store rfl) fun _ => store rfl

theorem asks_encrypt (plain : Bytes) :
    (encrypt S peer plain).Asks ((Call.encrypt plain).MayAsk peer) := by
  refine locked ⟨rfl, rfl⟩ rfl (bind (store rfl) fun record => ?_)
  split
  · exact throw_bind _ _
  refine bind (liftExcept _) fun identities => bind (asks_requireTrust peer rfl) fun _ =>
    bind (liftExcept _) fun made => ?_
  exact bind (store rfl) fun _ => bind (store rfl) fun _ => pure _

theorem asks_decryptMessage (m : RatchetMessage) :
    (decryptMessage S peer m).Asks ((Call.decrypt m).MayAsk peer) := by
  refine locked ⟨rfl, rfl⟩ rfl (bind (store rfl) fun known => ?_)
  cases known
  · exact throw_bind _ _
  refine bind (store rfl) fun record => bind (random _) fun opened => bind (liftExcept _) fun remote =>
    bind (asks_requireTrust peer rfl) fun _ => bind (store rfl) fun _ => ?_
  exact bind (deliver trivial) fun _ => bind (store rfl) fun _ => pure _

theorem asks_findKeys (record : SessionRecord) (m : PreKeyMessage) :
    (findKeys peer record m).Asks (m.MayAsk peer) := by
  refine bind (asks_requireTrust peer rfl) fun _ => ?_
  split
  · exact pure _
  refine bind (store trivial) fun signedPreKey => bind ?_ fun oneTimePreKey =>
    bind (store trivial) fun _ => pure _
  cases named : m.preKeyId with
  | none => exact pure _
  | some id => exact bind (store named) fun _ => pure _

theorem asks_keepIdentity (m : PreKeyMessage) (used : Option UInt32) (record : SessionRecord) :
    (acceptSession.keepIdentity peer m used record).Asks (m.MayAsk peer) := by
  refine Program.Asks.bind (store rfl) fun saved => ?_
  cases saved <;> trivial

theorem asks_acceptSession (record : SessionRecord) (m : PreKeyMessage) :
    (acceptSession S peer record m).Asks (m.MayAsk peer) := by
  refine Program.Asks.bind (asks_findKeys peer record m) fun found => ?_
  rcases found with e | _ | keys
  · trivial
  · exact asks_keepIdentity peer m none record
  · refine Program.Asks.bind (store trivial) fun answer => ?_
    cases answer with
    | error e => trivial
    | ok id => exact asks_keepIdentity peer m _ _

theorem PreKeyMessage.MayAsk.call {peer : Address} {m : PreKeyMessage} {r : Request}
    (h : m.MayAsk peer r) : (Call.decryptPreKey m).MayAsk peer r := by
  unfold PreKeyMessage.MayAsk at h
  split at h
  · exact h
  · exact h
  · trivial
  · trivial
  · trivial
  · exact ⟨m, rfl, h⟩
  · exact h.elim

/-- The pre-key that is used up is one that the message names. -/
theorem gives_acceptSession (record : SessionRecord) (m : PreKeyMessage) :
    (acceptSession S peer record m).Gives fun (used, _) =>
      ∀ id, used = .ok (some id) → m.preKeyId = some id := by
  have kept : ∀ (used : Option UInt32) (record : SessionRecord),
      (∀ id, used = some id → m.preKeyId = some id) →
      (acceptSession.keepIdentity peer m used record).Gives fun (used, _) =>
        ∀ id, used = .ok (some id) → m.preKeyId = some id := by
    intro used record named
    refine Program.Gives.bind _ fun saved => ?_
    cases saved with
    | error e => exact nofun
    | ok _ => exact fun id same => named id (Except.ok.inj same)
  refine Program.Gives.bind _ fun found => ?_
  rcases found with e | _ | keys
  · exact nofun
  · exact kept none record nofun
  · refine Program.Gives.bind _ fun answer => ?_
    cases answer with
    | error e => exact nofun
    | ok _ => exact kept _ _ fun id same => (Option.filter_eq_some_iff.mp same).1

theorem asks_decryptPreKeyMessage (m : PreKeyMessage) :
    (decryptPreKeyMessage S peer m).Asks ((Call.decryptPreKey m).MayAsk peer) := by
  refine locked ⟨rfl, rfl⟩ rfl (bind (store rfl) fun record => ?_)
  refine bind_of_gives ((asks_acceptSession S peer record m).mono fun _ => PreKeyMessage.MayAsk.call)
    (gives_acceptSession S peer record m) ?_
  rintro ⟨used, record⟩ named
  cases used with
  | error e => exact throw_bind _ _
  | ok used =>
    show Action.Asks _ (Action.random (record.decrypt S m.message) >>= _)
    refine bind (random _) fun opened => bind (deliver trivial) fun _ => bind (store rfl) fun _ => ?_
    cases used with
    | none => exact pure _
    | some id => exact bind (store ⟨m, rfl, named id rfl⟩) fun _ => pure _

theorem asks_call (c : Call) : (c.action S peer).Asks (c.MayAsk peer) := by
  cases c with
  | start bundle => exact map _ (asks_startSession S peer bundle)
  | encrypt plain => exact map _ (asks_encrypt S peer plain)
  | decrypt m => exact map _ (asks_decryptMessage S peer m)
  | decryptPreKey m => exact map _ (asks_decryptPreKeyMessage S peer m)
  | pin identity => exact map _ (store rfl)

end

/-! ### Groups -/

section
variable (S : Suite) (sender : GroupSender)

open Action.Asks

theorem asks_groupCall (c : GroupCall) : (c.action S sender).Asks (GroupCall.MayAsk sender) := by
  cases c with
  | announce =>
    refine map _ (locked ⟨rfl, rfl⟩ rfl (bind (store rfl) fun record => ?_))
    have announced : ∀ record : GroupRecord,
        (announceChain.announce record).Asks (GroupCall.MayAsk sender) := by
      intro record
      unfold announceChain.announce
      split
      · exact pure _
      · exact throw _
    split
    · exact bind (random _) fun record => bind (store rfl) fun _ => announced record
    · exact announced record
  | learn m => exact map _ (locked ⟨rfl, rfl⟩ rfl (bind (store rfl) fun _ => store rfl))
  | encrypt plain =>
    exact map _ (locked ⟨rfl, rfl⟩ rfl (bind (store rfl) fun _ => bind (random _) fun _ =>
      bind (store rfl) fun _ => pure _))
  | decrypt bs =>
    refine map _ (locked ⟨rfl, rfl⟩ rfl (bind (store rfl) fun record => ?_))
    split
    · exact throw_bind _ _
    · exact bind (liftExcept _) fun m => bind (liftExcept _) fun opened =>
        bind (deliver trivial) fun _ => bind (store rfl) fun _ => pure _

end

/-- An operation asks for nothing but what is its own. -/
theorem Operation.asks (S : Suite) (op : Operation) : (op.action S).Asks op.MayAsk := by
  cases op with
  | session peer c => exact .map _ (asks_call S peer c)
  | group sender c => exact .map _ (asks_groupCall S sender c)

/-- An operation follows a discipline that allows all that it may ask for, if its job stays as it has
entered. -/
theorem Operation.follows {τ : Type} {D : Discipline τ} (S : Suite) (op : Operation)
    (rests : D.Rests D.init) (asks : ∀ r, op.MayAsk r → D.Asks op D.init r)
    (asked : ∀ r reply, op.MayAsk r → D.after op D.init (.asked r reply) = D.init)
    (drew : ∀ n e e', D.after op D.init (.drew n e e') = D.init)
    (leaves : ∀ outcome, D.Leaves op D.init outcome) : D.Follows S op := by
  refine Program.Obeys.mono (Program.Asks.obeys (op.asks S) rests asks asked drew) ?_
  rintro outcome n t rfl
  exact leaves outcome

end DoubleRatchet
