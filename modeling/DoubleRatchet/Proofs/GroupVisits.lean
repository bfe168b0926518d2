/-
DoubleRatchet/Proofs/GroupVisits.lean

How operations change the record of a group sender.

A job on a group sender visits its record (`GroupVisit`): it takes the lock of the
sender, loads the record, stores one in its place, and releases the lock.  What it stores
has come of the record that it has loaded by a call (`GroupCall.Changes`), and what it
gives out has been made with that record (`follows_groupSending`).
-/
import DoubleRatchet.Proofs.Exclusion
import DoubleRatchet.Proofs.Iterations
import DoubleRatchet.Proofs.Requests

namespace DoubleRatchet

/-! ### Requests -/

/-- The call of the operation, if it is one of the group sender. -/
def Operation.groupFor? (sender : GroupSender) : Operation → Option GroupCall
  | group other c => if other = sender then some c else none
  | session .. => none

/-- The record of the group sender is left alone. -/
def StoreRequest.SparesSender (sender : GroupSender) : StoreRequest → Prop
  | storeSenderKey other _ => other ≠ sender
  | _ => True

/-- The record of the group sender is left alone, and its lock. -/
def Request.SparesSender (sender : GroupSender) : Request → Prop
  | store q => q.SparesSender sender
  | acquire lock _ | release lock => lock ≠ .senderKey sender
  | deliver _ => True

theorem Request.SparesSender.avoids {sender : GroupSender} {r : Request} (h : r.SparesSender sender) :
    r.Avoids (.senderKey sender) := by
  cases r with
  | store q => trivial
  | acquire lock access => exact h
  | release lock => exact h
  | deliver plain => trivial

/-! ### Visits -/

/-- How far a job has come with the record of a group sender. -/
structure GroupVisit where
  /-- It has the lock. -/
  inside : Bool := false
  /-- The record that it has loaded, and the one that is in the store by now. -/
  records : Option (GroupRecord × GroupRecord) := none

namespace GroupVisit

/-- The job has begun, and has not left. -/
def Busy (t : GroupVisit) : Prop := t.inside = true ∨ t.records ≠ none

theorem not_busy : ¬Busy {} := by simp [Busy]

/-- How a visit goes on. -/
def after (t : GroupVisit) : Event → GroupVisit
  | .asked (.acquire ..) (.ok _) => { t with inside := true }
  | .asked (.release _) (.ok _) => { t with inside := false }
  | .asked (.store (.loadSenderKey _)) (.ok r) => { t with records := some (r, r) }
  | .asked (.store (.storeSenderKey _ r')) (.ok _) =>
    { t with records := t.records.map fun (r, _) => (r, r') }
  | _ => t

/-- What a call asks for. -/
inductive Asks (S : Suite) (sender : GroupSender) (c : GroupCall) (t : GroupVisit) : Request → Prop
  | enter (first : t.records = none) : Asks S sender c t (.acquire (.senderKey sender) .write)
  | load (inside : t.inside = true) (first : t.records = none) :
    Asks S sender c t (.store (.loadSenderKey sender))
  | keep {r r'} (inside : t.inside = true) (loaded : t.records = some (r, r))
    (changes : c.Changes S sender r r') (first : c = .announce → r.isEmpty = true) :
    Asks S sender c t (.store (.storeSenderKey sender r'))
  | leave (inside : t.inside = true) : Asks S sender c t (.release (.senderKey sender))

/-- What the call gives out has been made with the record that the job has loaded. -/
def Gives (S : Suite) (sender : GroupSender) (c : GroupCall) (t : GroupVisit) (a : GroupAnswer) : Prop :=
  ∃ r r', t.records = some (r, r') ∧ c.Gives S sender r r' a

end GroupVisit

/-- The record of the group sender is changed in visits only, and what is given out is made in them. -/
def groupSending (S : Suite) (sender : GroupSender) : Discipline GroupVisit where
  init := {}
  Rests t := t.Busy → t.inside = true
  Asks op t r :=
    match op.groupFor? sender with
    | some c => t.Asks S sender c r
    | none => r.SparesSender sender
  Expects _ _ r reply :=
    match r, reply with
    | .release _, .error _ => False
    | _, _ => True
  Leaves op t outcome := ∀ c, op.groupFor? sender = some c → ∀ a, outcome = .ok (.group a) →
    t.Gives S sender c a
  Free q := q.SparesSender sender
  after op t event :=
    match op.groupFor? sender with
    | some _ => t.after event
    | none => t

section
variable {S : Suite} {sender : GroupSender} {op : Operation} {c : GroupCall} {r : Request}

@[simp] theorem Operation.groupFor?_group_self : (group sender c).groupFor? sender = some c := if_pos rfl

theorem Operation.groupFor?_eq_some : op.groupFor? sender = some c ↔ op = group sender c := by
  cases op with
  | session peer c' => simp [groupFor?]
  | group other c' =>
    by_cases same : other = sender
    · simp [groupFor?, same]
    · simp [groupFor?, same]

/-- An operation that is not on the group sender leaves its record alone. -/
theorem Operation.spares_sender (other : op.groupFor? sender = none) (h : op.MayAsk r) :
    r.SparesSender sender := by
  cases op with
  | session peer c =>
    cases r with
    | store q => cases q <;> trivial
    | acquire lock access =>
      obtain ⟨rfl, -⟩ := h
      exact nofun
    | release lock =>
      obtain rfl := h
      exact nofun
    | deliver plain => trivial
  | group sender' c =>
    have ne : sender' ≠ sender := by
      rintro rfl
      simp at other
    cases r with
    | store q =>
      cases q with
      | storeSenderKey other record =>
        obtain rfl : other = sender' := h
        exact ne
      | _ => trivial
    | acquire lock access =>
      obtain ⟨rfl, -⟩ := h
      rintro ⟨⟩
      exact ne rfl
    | release lock =>
      obtain rfl := h
      rintro ⟨⟩
      exact ne rfl
    | deliver plain => trivial

/-! ### Operations visit -/

namespace GroupVisits

variable {α : Type} {post : Except Error α → Nat → GroupVisit → Prop} {n : Nat} {t : GroupVisit}
  {record record' : GroupRecord}

theorem after_own (event : Event) :
    (groupSending S sender).after (.group sender c) t event = t.after event := by
  simp [groupSending]

theorem asks_own (h : t.Asks S sender c r) : (groupSending S sender).Asks (.group sender c) t r := by
  simpa [groupSending] using h

/-- Whoever has the lock may rest. -/
theorem rests (records : Option (GroupRecord × GroupRecord)) :
    (groupSending S sender).Rests ⟨true, records⟩ := fun _ => rfl

/-- What is given out, if anything, has been made in the visit. -/
def Served (S : Suite) (sender : GroupSender) (c : GroupCall) (answer : α → GroupAnswer)
    (outcome : Except Error α) (t : GroupVisit) : Prop :=
  t.inside = true ∧ ∀ x, outcome = .ok x → t.Gives S sender c (answer x)

theorem failed (e : Error) (answer : α → GroupAnswer) (records : Option (GroupRecord × GroupRecord)) :
    Served S sender c answer (.error e) ⟨true, records⟩ := ⟨rfl, nofun⟩

theorem served {x : α} {answer : α → GroupAnswer} (gives : c.Gives S sender record record' (answer x)) :
    Served S sender c answer (.ok x) ⟨true, some (record, record')⟩ := by
  refine ⟨rfl, ?_⟩
  rintro _ ⟨⟩
  exact ⟨record, record', rfl, gives⟩

theorem load {post : Except Error GroupRecord → Nat → GroupVisit → Prop}
    (failed : ∀ e, post (.error e) n ⟨true, none⟩)
    (h : ∀ record, post (.ok record) n ⟨true, some (record, record)⟩) :
    (Action.store (.loadSenderKey sender)).Obeys (groupSending S sender) (.group sender c) post n
      ⟨true, none⟩ := by
  refine .store (rests _) (asks_own (.load rfl rfl)) ?_
  rintro (e | record) -
  · rw [after_own]
    exact failed e
  · rw [after_own]
    exact h record

theorem keep {post : Except Error Unit → Nat → GroupVisit → Prop}
    (changes : c.Changes S sender record record') (first : c = .announce → record.isEmpty = true)
    (failed : ∀ e, post (.error e) n ⟨true, some (record, record)⟩)
    (h : post (.ok ()) n ⟨true, some (record, record')⟩) :
    (Action.store (.storeSenderKey sender record')).Obeys (groupSending S sender) (.group sender c) post
      n ⟨true, some (record, record)⟩ := by
  refine .store (rests _) (asks_own (.keep rfl rfl changes first)) ?_
  rintro (e | ⟨⟨⟩⟩) -
  · rw [after_own]
    exact failed e
  · rw [after_own]
    exact h

theorem draw {x : Draw α} (h : ∀ e, post (x.run e).1 (n + 1) ⟨true, some (record, record)⟩) :
    (Action.random x).Obeys (groupSending S sender) (.group sender c) post n
      ⟨true, some (record, record)⟩ := by
  refine .random (rests _) fun e => ?_
  rw [after_own]
  exact h e

/-- A visit, from taking the lock to releasing it. -/
theorem locked {body : Action α} {answer : α → GroupAnswer}
    (h : body.Obeys (groupSending S sender) (.group sender c)
      (fun outcome _ t => Served S sender c answer outcome t) n ⟨true, none⟩) :
    (Action.locked (.senderKey sender) .write body).Obeys (groupSending S sender) (.group sender c)
      (fun outcome _ t => ∀ x, outcome = .ok x → t.Gives S sender c (answer x)) n {} := by
  refine .locked (fun busy => absurd busy GroupVisit.not_busy) (asks_own (.enter rfl)) (fun e _ => ?_)
    fun _ => ?_
  · exact nofun
  · rw [after_own]
    refine Program.Obeys.mono h ?_
    rintro outcome n t ⟨inside, gives⟩
    refine ⟨fun _ => inside, asks_own (.leave inside), ?_⟩
    rintro (e | ⟨⟨⟩⟩) expected
    · exact expected.elim
    · rw [after_own]
      exact gives

theorem announceChain :
    (announceChain S sender).Obeys (groupSending S sender) (.group sender .announce)
      (fun outcome _ t => ∀ x, outcome = .ok x → t.Gives S sender .announce (.announced x)) n {} := by
  refine locked (.bind (load (fun e => failed e _ _) fun record => ?_))
  -- of whatever record is in the store by now the newest chain is announced
  have announced : ∀ (record' : GroupRecord) {n}, Action.Obeys (groupSending S sender)
      (.group sender .announce) (fun outcome _ t => Served S sender .announce .announced outcome t) n
      (DoubleRatchet.announceChain.announce record') ⟨true, some (record, record')⟩ := by
    intro record' n
    obtain ⟨_ | ⟨chain, older⟩⟩ := record'
    · exact .throw (failed _ _ _)
    · exact .pure (served (.announced rfl))
  dsimp only
  split
  · rename_i none
    refine .bind (draw fun e => ?_)
    rw [run_drawGroupRecord]
    split
    · exact failed _ _ _
    · exact .bind (keep (.made e none) (fun _ => none) (fun e => failed e _ _) (announced _))
  · exact announced record

theorem learnChain (m : ChainAnnouncement) :
    (learnChain sender m).Obeys (groupSending S sender) (.group sender (.learn m))
      (fun outcome _ t => ∀ x, outcome = .ok x → t.Gives S sender (.learn m) .learned) n {} := by
  have learned : ∀ record : GroupRecord, Served S sender (.learn m) (fun _ : Unit => .learned) (.ok ())
      ⟨true, some (record, record.add m.keyId m.iteration m.chainKey m.signingKey)⟩ :=
    fun _ => served (.learned m)
  refine locked (.bind (load (fun e => failed e _ _) fun record => ?_))
  exact keep (.learned m record) nofun (fun e => failed e _ _) (learned record)

theorem encryptGroup (plain : Bytes) :
    (encryptGroup S sender plain).Obeys (groupSending S sender) (.group sender (.encrypt plain))
      (fun outcome _ t => ∀ x, outcome = .ok x → t.Gives S sender (.encrypt plain) (.sent x)) n {} := by
  refine locked (.bind (load (fun e => failed e _ _) fun record => .bind (draw fun e => ?_)))
  rcases made : (record.encrypt S sender plain).run e with ⟨_ | ⟨message, record'⟩, e'⟩
  · exact failed _ _ _
  · exact .bind (keep (.sent made) nofun (fun e => failed e _ _) (.pure (served (.sent made))))

theorem decryptGroup (bs : Bytes) :
    (decryptGroup S sender bs).Obeys (groupSending S sender) (.group sender (.decrypt bs))
      (fun outcome _ t => ∀ x, outcome = .ok x → t.Gives S sender (.decrypt bs) (.read x)) n {} := by
  refine locked (.bind (load (fun e => failed e _ _) fun record => ?_))
  dsimp only
  split
  · exact .bind (.throw (failed _ _ _))
  refine .bind (.liftExcept ?_)
  cases parsed : GroupMessage.parse bs with
  | error e => exact failed _ _ _
  | ok message =>
    refine .bind (.liftExcept ?_)
    rcases read : record.decrypt S message with e | ⟨plain, record'⟩
    · exact failed _ _ _
    refine .bind (.deliver (rests _) ?_)
    rintro (_ | -)
    · exact failed _ _ _
    · exact .bind (keep (.read parsed read) nofun (fun e => failed e _ _)
        (.pure (served (.read bs plain))))

end GroupVisits

/-- All operations change the record of the group sender in this way only. -/
theorem follows_groupSending (S : Suite) (sender : GroupSender) (op : Operation) :
    (groupSending S sender).Follows S op := by
  cases own : op.groupFor? sender with
  | none =>
    refine op.follows S (fun busy => absurd busy GroupVisit.not_busy) (fun r may => ?_) ?_ ?_
      fun outcome c same => ?_
    · simpa only [groupSending, own] using op.spares_sender own may
    · simp [groupSending, own]
    · simp [groupSending, own]
    · rw [own] at same
      cases same
  | some c =>
    obtain rfl := Operation.groupFor?_eq_some.mp own
    -- what is given out is what the call gives
    have leaves : ∀ {α : Type} {f : α → GroupAnswer} (outcome : Except Error α) {t : GroupVisit},
        (∀ x, outcome = .ok x → t.Gives S sender c (f x)) →
          (groupSending S sender).Leaves (.group sender c) t ((outcome.map f).map Outcome.group) := by
      intro α f outcome t gives c' same a given
      obtain rfl := Option.some.inj (Operation.groupFor?_group_self.symm.trans same)
      obtain ⟨_, mapped, ⟨⟩⟩ := map_eq_ok.mp given
      obtain ⟨x, ok, rfl⟩ := map_eq_ok.mp mapped
      exact gives x ok
    cases c with
    | announce =>
      exact Action.Obeys.map (.map (Program.Obeys.mono GroupVisits.announceChain fun _ _ _ => leaves _))
    | learn m =>
      exact Action.Obeys.map (.map (Program.Obeys.mono (GroupVisits.learnChain m) fun _ _ _ => leaves _))
    | encrypt plain =>
      exact Action.Obeys.map (.map (Program.Obeys.mono (GroupVisits.encryptGroup plain)
        fun _ _ _ => leaves _))
    | decrypt bs =>
      exact Action.Obeys.map (.map (Program.Obeys.mono (GroupVisits.decryptGroup bs)
        fun _ _ _ => leaves _))

end

end DoubleRatchet
