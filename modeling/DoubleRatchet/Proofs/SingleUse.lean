/-
DoubleRatchet/Proofs/SingleUse.lean

How often a one-time pre-key is used.

A job uses a pre-key when it finds it, stores a session that it has set up with it, and
removes it (`Usage`).  A job never leaves between the last two, so once a job that has
used the pre-key has left, nobody finds it any more (`found_before_used_up`).

But the lock of a peer keeps jobs of other peers away neither from the pre-key nor from
each other.  Jobs that overlap may both find the pre-key before one of them removes it,
and both store a session (`used_twice`).
-/
import DoubleRatchet.Proofs.Requests

namespace DoubleRatchet

/-! ### Usage -/

/-- How far a job has come with a one-time pre-key. -/
inductive Usage where
  | idle
  /-- It has found the pre-key. -/
  | found
  /-- It has stored a session since. -/
  | stored
  /-- It has removed the pre-key since. -/
  | removed
  deriving DecidableEq

/-- What a job makes of the pre-key with a number by what happens to it. -/
def Usage.next (id : UInt32) : Usage → Event → Usage
  | idle, .asked (.store (.loadPreKey n)) (.ok _) => if n = id then found else idle
  | found, .asked (.store (.storeSession ..)) (.ok _) => stored
  | stored, .asked (.store (.removePreKey n)) (.ok _) => if n = id then removed else stored
  | u, _ => u

/-- How far the job with a number has come with the pre-key `id`. -/
def usage (id : UInt32) (number : Nat) (history : List Entry) : Usage :=
  history.foldl (fun u entry => if entry.job.any (·.number == number) then u.next id entry.event else u)
    .idle

/-- A pre-key with the number is put in the store. -/
def Entry.puts (id : UInt32) (entry : Entry) : Bool :=
  match entry.event with
  | .asked (.store (.storePreKey n _)) (.ok _) => n == id
  | _ => false

/-- The pre-key with the number is to be removed, and that fails. -/
def Entry.failsToRemove (id : UInt32) (entry : Entry) : Bool :=
  match entry.event with
  | .asked (.store (.removePreKey n)) (.error _) => n == id
  | _ => false

/-- The job with the number leaves. -/
def Entry.leaves (c : Nat) (entry : Entry) : Bool :=
  match entry.job, entry.event with
  | some job, .left _ => job.number == c
  | _, _ => false

/-! ### What a job does with a pre-key -/

/-- A job does not leave with a session stored and the pre-key that it is from not removed. -/
def singleUse (id : UInt32) : Discipline Usage where
  init := .idle
  Rests _ := True
  Asks _ _ _ := True
  Expects _ _ r reply :=
    match r, reply with
    | .store (.removePreKey n), .error _ => n ≠ id
    | _, _ => True
  Leaves _ u _ := u ≠ .stored
  Free _ := True
  after _ u event := u.next id event

section
variable {S : Suite} {id : UInt32} {op : Operation} {peer : Address} {m : PreKeyMessage}

/-- A job finds the pre-key only by loading it. -/
theorem Usage.loads_of_next {event : Event} (h : idle.next id event ≠ .idle) :
    ∃ record, event = .asked (.store (.loadPreKey id)) (.ok record) := by
  unfold next at h
  split at h
  · rename_i n record _
    by_cases same : n = id
    · exact ⟨record, by rw [same]⟩
    · exact absurd (if_neg same) h
  all_goals simp_all

theorem Usage.next_idle {r : Request} {reply : Except Error r.Reply}
    (other : r ≠ .store (.loadPreKey id)) : idle.next id (.asked r reply) = .idle := by
  by_contra h
  obtain ⟨record, ⟨⟩⟩ := Usage.loads_of_next h
  exact other rfl

/-- A job has removed the pre-key only by asking for that. -/
theorem Usage.removes_of_next {u : Usage} {event : Event} (hu : u ≠ .removed)
    (h : u.next id event = .removed) :
    event = .asked (.store (.removePreKey id)) (.ok ()) := by
  unfold next at h
  split at h
  · split at h <;> cases h
  · cases h
  · rename_i n _
    by_cases same : n = id
    · rw [same]
    · rw [if_neg same] at h
      cases h
  · exact absurd h hu

/-- An operation that does not name the pre-key never comes to it. -/
theorem follows_of_not_named
    (other : ¬∃ peer m, op = .session peer (.decryptPreKey m) ∧ m.preKeyId = some id) :
    (singleUse id).Follows S op := by
  refine op.follows S trivial (fun _ _ => trivial) ?_ (fun _ _ _ => rfl) fun _ => nofun
  intro r reply may
  refine Usage.next_idle ?_
  rintro rfl
  cases op with
  | session peer c =>
    obtain ⟨m, rfl, named⟩ := may
    exact other ⟨peer, m, rfl, named⟩
  | group sender c => exact may

/-! An operation that names the pre-key, step by step. -/

variable {n : Nat} {record : SessionRecord}

theorem findKeys_obeys (named : m.preKeyId = some id) :
    (findKeys peer record m).Obeys (singleUse id) op (fun outcome _ u =>
      match outcome with
      | .ok none => u = .idle
      | .ok (some _) => u = .found
      | .error _ => u ≠ .stored) n .idle := by
  unfold findKeys
  refine .bind (Program.Obeys.mono (Program.Asks.obeys (asks_requireTrust peer rfl) trivial
    (fun _ _ => trivial) (fun r _ hr => Usage.next_idle (by rw [← hr]; exact nofun))
    fun _ _ _ => rfl) ?_)
  rintro (e | ⟨⟨⟩⟩) n u rfl
  · exact nofun
  dsimp only
  split
  · exact .pure rfl
  refine .bind (.store trivial trivial ?_)
  rintro (e | signedPreKey) -
  · exact nofun
  rw [named]
  refine .bind (.map (.store trivial trivial ?_))
  rintro (e | preKey) -
  · exact nofun
  have found : Usage.next id .idle (.asked (.store (.loadPreKey id)) (.ok preKey)) = .found :=
    if_pos rfl
  show Action.Obeys (singleUse id) op _ n _
    (Usage.next id .idle (.asked (.store (.loadPreKey id)) (.ok preKey)))
  rw [found]
  refine .bind (.store trivial trivial ?_)
  rintro (e | identity) -
  · exact nofun
  · exact rfl

/-- What a job that has accepted a session has done with the pre-key: it has found it, if it is to use
it up. -/
def Accepted (id : UInt32) (used : Except Error (Option UInt32)) (u : Usage) : Prop :=
  match used with
  | .ok used => (used = some id ∧ u = .found) ∨ (used = none ∧ u = .idle)
  | .error _ => u ≠ .stored

theorem keepIdentity_obeys {used : Option UInt32} {u : Usage} (h : Accepted id (.ok used) u) :
    (acceptSession.keepIdentity peer m used record).Obeys (singleUse id) op
      (fun (used, _) _ u => Accepted id used u) n u := by
  unfold acceptSession.keepIdentity
  refine Program.Obeys.bind (Action.Obeys.store trivial trivial ?_)
  -- whichever it is, keeping an identity makes no difference to it
  rcases h with ⟨rfl, rfl⟩ | ⟨rfl, rfl⟩ <;> rintro (e | saved) -
  · exact nofun
  · exact .inl ⟨rfl, rfl⟩
  · exact nofun
  · exact .inr ⟨rfl, rfl⟩

theorem acceptSession_obeys (named : m.preKeyId = some id) (last : id ≠ lastResortPreKey) :
    (acceptSession S peer record m).Obeys (singleUse id) op
      (fun (used, _) _ u => Accepted id used u) n .idle := by
  unfold acceptSession
  refine Program.Obeys.bind (Program.Obeys.mono (findKeys_obeys named) ?_)
  rintro (e | _ | keys) n u hu
  · exact hu
  · obtain rfl := hu
    exact keepIdentity_obeys (.inr ⟨rfl, rfl⟩)
  · obtain rfl := hu
    refine Program.Obeys.bind (Action.Obeys.store trivial trivial ?_)
    rintro (e | registrationId) -
    · exact nofun
    · exact keepIdentity_obeys (.inl ⟨by simp [named, last], rfl⟩)

theorem decryptPreKeyMessage_obeys (named : m.preKeyId = some id) (last : id ≠ lastResortPreKey) :
    (decryptPreKeyMessage S peer m).Obeys (singleUse id) op (fun _ _ u => u ≠ .stored) n .idle := by
  unfold decryptPreKeyMessage
  refine .locked trivial trivial (fun _ _ => nofun) fun _ => ?_
  -- releasing the lock makes no difference to the pre-key
  refine Program.Obeys.mono (?_ : Action.Obeys (singleUse id) op (fun _ _ u => u ≠ .stored) n _ .idle)
    fun outcome n u hu => ⟨trivial, trivial, fun reply _ => ?_⟩
  case refine_2 =>
    show u.next id _ ≠ _
    have same : u.next id (.asked (.release (.session peer)) reply) = u := by cases u <;> rfl
    rw [same]
    exact hu
  refine .bind (.store trivial trivial ?_)
  rintro (e | record) -
  · exact nofun
  refine .bind (.lift (Program.Obeys.mono (acceptSession_obeys named last) ?_))
  rintro ⟨_ | used, record⟩ n u accepted
  · exact accepted
  rcases accepted with ⟨rfl, rfl⟩ | ⟨rfl, rfl⟩
  all_goals
    show Action.Obeys (singleUse id) op _ n (Action.random (record.decrypt S m.message) >>= _) _
    refine .bind (.random trivial fun e => ?_)
    rcases ((record.decrypt S m.message).run e).1 with e | ⟨plain, record⟩
    · exact nofun
    refine .bind (.deliver trivial ?_)
    rintro (e | _)
    · exact nofun
    refine .bind (.store trivial trivial ?_)
    rintro (e | _) -
    · exact nofun
  · -- the session is stored, and the pre-key is removed next
    refine .bind (.store trivial trivial ?_)
    rintro (e | _) expected
    · exact absurd rfl expected
    · show (if id = id then Usage.removed else .stored) ≠ .stored
      rw [if_pos rfl]
      exact nofun
  · exact nofun

/-- All operations use the pre-key in this way. -/
theorem follows_singleUse (S : Suite) (last : id ≠ lastResortPreKey) (op : Operation) :
    (singleUse id).Follows S op := by
  by_cases named : ∃ peer m, op = .session peer (.decryptPreKey m) ∧ m.preKeyId = some id
  · obtain ⟨peer, m, rfl, named⟩ := named
    exact Action.Obeys.map (Action.Obeys.map (decryptPreKeyMessage_obeys named last))
  · exact follows_of_not_named named

end

/-! ### Histories -/

section
variable {id : UInt32} {c d : Nat} {h : List Entry} {x : Entry}

theorem Usage.next_removed (event : Event) : removed.next id event = .removed := by
  unfold next
  grind

theorem usage_append :
    usage id c (h ++ [x]) =
      if x.job.any (·.number == c) then (usage id c h).next id x.event else usage id c h := by
  unfold usage
  rw [List.foldl_append]
  rfl

theorem usage_append_job {job : Job} {event : Event} :
    usage id c (h ++ [⟨some job, event⟩]) =
      if job.number = c then (usage id c h).next id event else usage id c h := by
  simp [usage_append]

theorem usage_append_none {event : Event} : usage id c (h ++ [⟨none, event⟩]) = usage id c h := by
  simp [usage_append]

/-- Who has removed the pre-key has removed it. -/
theorem usage_append_of_removed (removed : usage id c h = .removed) : usage id c (h ++ [x]) = .removed := by
  rw [usage_append, removed]
  split
  · exact Usage.next_removed _
  · rfl

theorem countP_puts_append :
    (h ++ [x]).countP (Entry.puts id) = h.countP (Entry.puts id) + (x.puts id).toNat := by
  rw [List.countP_append, List.countP_singleton]
  cases x.puts id <;> rfl

/-- Each entry stands to those before it as `p` says. -/
def Throughout (p : List Entry → Entry → Prop) (h : List Entry) : Prop :=
  ∀ before x after, h = before ++ x :: after → p before x

theorem throughout_nil {p : List Entry → Entry → Prop} : Throughout p [] := by
  intro before x after split
  simp at split

theorem Throughout.append {p : List Entry → Entry → Prop} (hh : Throughout p h) (hx : p h x) :
    Throughout p (h ++ [x]) := by
  intro before y after split
  rcases List.eq_nil_or_concat after with rfl | ⟨after, z, rfl⟩
  · obtain ⟨rfl, same⟩ := List.append_inj' split rfl
    obtain rfl := List.singleton_inj.mp same
    exact hx
  · rw [List.concat_eq_append, ← List.cons_append, ← List.append_assoc] at split
    exact hh before y after (List.append_inj' split rfl).1

/-- In a history that began with the store `start`, the pre-key `id` has been put in the store at
most once, and its removal has not failed. -/
structure OneTime (id : UInt32) (start : Store) (h : List Entry) : Prop where
  once : (start.preKeys.contains id).toNat + h.countP (Entry.puts id) ≤ 1
  removable : ∀ x ∈ h, x.failsToRemove id = false

instance {start : Store} : Decidable (OneTime id start h) :=
  decidable_of_iff
    ((start.preKeys.contains id).toNat + h.countP (Entry.puts id) ≤ 1 ∧
      ∀ x ∈ h, x.failsToRemove id = false)
    ⟨fun ⟨once, removable⟩ => ⟨once, removable⟩, fun h => ⟨h.once, h.removable⟩⟩

/-- Nobody finds the pre-key after it has been removed, and nobody leaves between storing a session
and removing the pre-key. -/
structure Entry.Fits (id : UInt32) (before : List Entry) (x : Entry) : Prop where
  finds : ∀ c, usage id c before = .idle → usage id c (before ++ [x]) ≠ .idle →
    ∀ d, usage id d before ≠ .removed
  leaves : ∀ c, x.leaves c → usage id c before ≠ .stored

end

/-! ### What the threads share -/

/-- A store comes to have a pre-key only if it is put there. -/
theorem Store.preKeys_answer {id : UInt32} {store : Store} {q : StoreRequest}
    (there : (store.answer q).2.preKeys.contains id) :
    store.preKeys.contains id ∨ ∃ record, q = .storePreKey id record := by
  cases q with
  | storePreKey n record =>
    by_cases same : n = id
    · exact .inr ⟨record, same ▸ rfl⟩
    · simp [answer, same] at there
      simp [there]
  | removePreKey n =>
    simp [answer] at there
    simp [there]
  | _ => exact .inl there

section
variable {id : UInt32} {d d' : Device} {thread : Nat} {r : Request} {reply : Except Error r.Reply}

/-- A device comes to have a pre-key only if it is put there. -/
theorem Device.Meets.preKeys (h : d.Meets thread r reply d') (there : d'.store.preKeys.contains id)
    (job : Option Job) :
    d.store.preKeys.contains id ∨ Entry.puts id ⟨job, .asked r reply⟩ := by
  cases h with
  | answered q =>
    rcases Store.preKeys_answer there with there | ⟨record, rfl⟩
    · exact .inl there
    · exact .inr (beq_self_eq_true id)
  | _ => exact .inl there

/-- A pre-key is found only if it is there. -/
theorem Device.Meets.found (h : d.Meets thread r reply d')
    (found : Usage.idle.next id (.asked r reply) ≠ .idle) : d.store.preKeys.contains id := by
  obtain ⟨record, same⟩ := Usage.loads_of_next found
  cases h with
  | answered q =>
    obtain ⟨asked, replied⟩ := Event.asked.inj same
    cases asked
    have loaded : d.store.loadPreKey id = .ok record := eq_of_heq replied
    unfold Store.loadPreKey at loaded
    split at loaded
    · cases loaded
    · rename_i there
      rw [Std.ExtTreeMap.contains_eq_isSome_getElem?, there]
      rfl
  | _ => cases same

/-- A pre-key that has been removed is not there. -/
theorem Device.Meets.removed (h : d.Meets thread r reply d') {u : Usage} (hu : u ≠ .removed)
    (removed : u.next id (.asked r reply) = .removed) : d'.store.preKeys.contains id = false := by
  have same := Usage.removes_of_next hu removed
  cases h with
  | answered q =>
    cases same
    simp [Store.answer]
  | _ => cases same

end

/-- What is kept of a pre-key that the application has put in the store `start` once at most. -/
structure Kept (id : UInt32) (start : Store) (s : Shared) (jobs : Underway Usage) : Prop where
  under : ∀ {c thread u}, jobs c = some (thread, u) → c < s.jobs ∧ u = usage id c s.history
  fresh : ∀ {c}, s.jobs ≤ c → usage id c s.history = .idle
  /-- What is in the store or has been used has been put there. -/
  put : (s.device.store.preKeys.contains id ∨ ∃ c, usage id c s.history ≠ .idle) →
    1 ≤ (start.preKeys.contains id).toNat + s.history.countP (Entry.puts id)
  gone : ∀ {c}, usage id c s.history = .removed → s.device.store.preKeys.contains id = false
  fits : Throughout (Entry.Fits id) s.history

section
variable {id : UInt32} {start : Store} {s s' : Shared} {jobs jobs' : Underway Usage} {x : Entry}

/-- One more entry. -/
theorem Kept.step (h : Kept id start s jobs) (good : OneTime id start s'.history)
    (history : s'.history = s.history ++ [x])
    (kept : s'.device.store.preKeys.contains id →
      s.device.store.preKeys.contains id ∨ x.puts id)
    (found : ∀ c, usage id c s.history = .idle → usage id c s'.history ≠ .idle →
      s.device.store.preKeys.contains id)
    (removed : ∀ c, usage id c s.history ≠ .removed → usage id c s'.history = .removed →
      s'.device.store.preKeys.contains id = false)
    (leaves : ∀ c, x.leaves c → usage id c s.history ≠ .stored)
    (under : ∀ {c thread u}, jobs' c = some (thread, u) → c < s'.jobs ∧ u = usage id c s'.history)
    (fresh : ∀ {c}, s'.jobs ≤ c → usage id c s'.history = .idle) : Kept id start s' jobs' where
  under := under
  fresh := fresh
  put hput := by
    have before := h.put
    rw [history, countP_puts_append]
    rcases hput with there | ⟨c, used⟩
    · rcases kept there with there | puts
      · have := before (.inl there)
        omega
      · rw [puts, Bool.toNat_true]
        omega
    · by_cases idle : usage id c s.history = .idle
      · have := before (.inl (found c idle used))
        omega
      · have := before (.inr ⟨c, idle⟩)
        omega
  gone {c} hc := by
    by_cases already : usage id c s.history = .removed
    · by_contra there
      -- it would have been put there a second time
      rcases kept (by simpa using there) with there | puts
      · rw [h.gone already] at there
        cases there
      · have := h.put (.inr ⟨c, by rw [already]; exact nofun⟩)
        have := good.once
        rw [history, countP_puts_append, puts, Bool.toNat_true] at this
        omega
    · exact removed c already hc
  fits := by
    rw [history]
    refine h.fits.append ⟨fun c idle used d gone => ?_, leaves⟩
    rw [← history] at used
    have there := found c idle used
    rw [h.gone gone] at there
    cases there

/-- An event that makes no difference to anybody's usage, and none to the store. -/
theorem Kept.silent (h : Kept id start s jobs) {event : Event} {job : Job}
    (silent : ∀ u : Usage, u.next id event = u)
    (good : OneTime id start s'.history) (history : s'.history = s.history ++ [⟨some job, event⟩])
    (device : s'.device = s.device) (more : s.jobs ≤ s'.jobs)
    (leaves : ∀ c, Entry.leaves c ⟨some job, event⟩ → usage id c s.history ≠ .stored)
    (under : ∀ {c thread u}, jobs' c = some (thread, u) → c < s'.jobs ∧ u = usage id c s.history) :
    Kept id start s' jobs' := by
  have same : ∀ c, usage id c s'.history = usage id c s.history := by
    intro c
    rw [history, usage_append_job, silent, ite_self]
  refine h.step good history ?_ ?_ ?_ ?_ ?_ ?_
  · rw [device]
    exact .inl
  · exact fun c idle used => absurd ((same c).trans idle) used
  · exact fun c not gone => absurd ((same c).symm.trans gone) not
  · exact leaves
  · intro c thread u hc
    rw [same]
    exact under hc
  · intro c hc
    rw [same]
    exact h.fresh (Nat.le_trans more hc)

/-- A request is answered. -/
theorem Kept.answered (h : Kept id start s jobs) {thread : Nat} {job : Option Job} {r : Request}
    {reply : Except Error r.Reply} {device : Device} (met : s.device.Meets thread r reply device)
    (good : OneTime id start ({ s with device }.log job (.asked r reply)).history)
    (given : ∀ j ∈ job, j.number < s.jobs)
    (under : ∀ {c thread u}, jobs' c = some (thread, u) → c < s.jobs ∧
      u = usage id c ({ s with device }.log job (.asked r reply)).history) :
    Kept id start ({ s with device }.log job (.asked r reply)) jobs' := by
  have next : ∀ c, usage id c ({ s with device }.log job (.asked r reply)).history =
      if job.any (·.number == c) then (usage id c s.history).next id (.asked r reply)
      else usage id c s.history := fun _ => usage_append
  refine h.step good rfl ?_ ?_ ?_ ?_ under ?_
  · exact fun there => met.preKeys there job
  · intro c idle used
    rw [next] at used
    split at used
    · rw [idle] at used
      exact met.found used
    · exact absurd idle used
  · intro c not gone
    rw [next] at gone
    split at gone
    · exact met.removed not gone
    · exact absurd gone not
  · cases job <;> exact nofun
  · intro c (hc : s.jobs ≤ c)
    rw [next]
    split
    · rename_i own
      cases job with
      | none => cases own
      | some j =>
        have := given j rfl
        have : j.number = c := beq_iff_eq.mp own
        omega
    · exact h.fresh hc

/-- A pre-key that the application has put in the store once at most is kept track of in this way. -/
theorem invariant_kept (start : Store) (id : UInt32) :
    (singleUse id).Invariant (OneTime id start) (Kept id start) where
  closed := by
    rintro h _ ⟨later, rfl⟩ good
    refine ⟨Nat.le_trans ?_ good.once, fun x hx => good.removable x (List.mem_append_left _ hx)⟩
    rw [List.countP_append]
    omega
  entered {s jobs} thread op inv unused good := by
    refine inv.silent (fun u => by cases u <;> rfl) good rfl rfl (Nat.le_succ _) nofun ?_
    intro c thread' u hc
    rcases Underway.of_update hc with ⟨rfl, ⟨⟩⟩ | ⟨-, hc⟩
    · exact ⟨Nat.lt_succ_self _, (inv.fresh (Nat.le_refl _)).symm⟩
    · exact ⟨Nat.lt_succ_of_lt (inv.under hc).1, (inv.under hc).2⟩
  asked {s jobs thread job t fault r reply s'} inv own rests asks answered good := by
    obtain ⟨device, met, rfl⟩ := Shared.answer_eq answered
    refine ⟨?_, inv.answered met good ?_ ?_⟩
    · -- a removal that fails would be in the history
      have fine := good.removable ⟨some job, .asked r reply⟩
        (List.mem_append_right _ List.mem_cons_self)
      unfold singleUse
      dsimp only
      split
      · rintro rfl
        simp [Entry.failsToRemove] at fine
      · trivial
    · rintro _ ⟨⟩
      exact (inv.under own).1
    · intro c thread' u hc
      show c < s.jobs ∧ u = usage id c (s.history ++ [⟨some job, .asked r reply⟩])
      rw [usage_append_job]
      rcases Underway.of_update hc with ⟨rfl, ⟨⟩⟩ | ⟨other, hc⟩
      · obtain ⟨lt, rfl⟩ := inv.under own
        rw [if_pos rfl]
        exact ⟨lt, rfl⟩
      · rw [if_neg (Ne.symm other)]
        exact inv.under hc
  requested {s jobs thread fault q reply s'} inv free answered good := by
    obtain ⟨device, met, rfl⟩ := Shared.answer_eq answered
    refine inv.answered met good nofun ?_
    intro c thread' u hc
    show c < s.jobs ∧ u = usage id c (s.history ++ [⟨none, .asked _ reply⟩])
    rw [usage_append_none]
    exact inv.under hc
  drew {β s jobs thread job t fault number x} inv own good := by
    have silent : ∀ u : Usage, u.next id (.drew number (s.source fault) (x.run (s.source fault)).2) = u :=
      fun u => by cases u <;> rfl
    refine inv.silent silent good rfl rfl (Nat.le_refl _) nofun ?_
    intro c thread' u hc
    rcases Underway.of_update hc with ⟨rfl, ⟨⟩⟩ | ⟨-, hc⟩
    · obtain ⟨lt, rfl⟩ := inv.under own
      exact ⟨lt, silent _⟩
    · exact inv.under hc
  left {s jobs thread job t outcome} inv own rests leaves good := by
    refine inv.silent (fun u => by cases u <;> rfl) good rfl rfl (Nat.le_refl _) ?_ ?_
    · intro c same
      rw [← beq_iff_eq.mp same, ← (inv.under own).2]
      exact leaves
    · intro c thread' u hc
      rcases Underway.of_update hc with ⟨-, ⟨⟩⟩ | ⟨-, hc⟩
      exact inv.under hc

theorem kept_start (device : Device) (entropy : Entropy) :
    Kept id device.store { device, entropy } fun _ => none where
  under := nofun
  fresh _ := rfl
  put := by
    rintro (there | ⟨c, used⟩)
    · rw [there]
      exact Nat.le_refl _
    · exact absurd rfl used
  gone := nofun
  fits := throughout_nil

/-- While it lasts that a job has removed the pre-key, nobody else comes to find it. -/
theorem Throughout.idle {c d : Nat} {before after : List Entry}
    (fits : Throughout (Entry.Fits id) (before ++ after)) (removed : usage id c before = .removed)
    (idle : usage id d before = .idle) : usage id d (before ++ after) = .idle := by
  induction after generalizing before with
  | nil => rwa [List.append_nil]
  | cons x after ih =>
    have here := fits before x after rfl
    rw [List.append_cons] at fits ⊢
    refine ih fits (usage_append_of_removed removed) ?_
    by_contra found
    exact here.finds d idle found c removed

/-- **Nobody finds a one-time pre-key that has been used up.**  When a job that has stored a session
with the pre-key leaves, every other job that ever finds the pre-key has found it already.  So two
jobs that both store a session with the pre-key have overlapped: each has found it before the other
has left. -/
theorem found_before_used_up {S : Suite} {device : Device} {entropy : Entropy} {scripts : List Script}
    {turns : List (Nat × Option Error)} {before after : List Entry} {x : Entry} {c d : Nat}
    (last : id ≠ lastResortPreKey)
    (history : ((Machine.start S device entropy scripts).after turns).shared.history
      = before ++ x :: after) (once : OneTime id device.store (before ++ x :: after))
    (left : x.leaves c) (stored : usage id c before = .stored ∨ usage id c before = .removed)
    (found : usage id d (before ++ x :: after) ≠ .idle) : usage id d before ≠ .idle := by
  obtain ⟨jobs, inv⟩ := (invariant_kept device.store id).after (follows_singleUse S last)
    (fun script _ => script.within_of_forall fun _ => trivial) (kept_start device entropy) turns
    (by rw [history]; exact once)
  have fits := inv.fits
  rw [history] at fits
  have removed : usage id c before = .removed :=
    stored.resolve_left ((fits before x after rfl).leaves c left)
  exact fun idle => found (fits.idle removed idle)

end

/-! ### Two peers and one pre-key -/

namespace Toy

/-- Another peer. -/
def carol : Address := ⟨"carol", 1⟩

/-- The first message of a peer that has the device's one-time pre-key. -/
def opening : PreKeyMessage :=
  (letters (Store.greet suite { identity := keyPair 4, registrationId := 2 }
    (bundle (some (7, (keyPair 3).publicKey))) .empty (keyPair 5) (keyPair 6)) 1).get
    ⟨0, by decide +kernel⟩

/-- The first message of the other peer, which has been given the same pre-key. -/
def rival : PreKeyMessage :=
  (letters (Store.greet suite { identity := keyPair 10, registrationId := 3 }
    (bundle (some (7, (keyPair 3).publicKey))) .empty (keyPair 11) (keyPair 12)) 1).get
    ⟨0, by decide +kernel⟩

/-- The device reads the first message, and before it is done with that, the other one. -/
def rivals : Script :=
  .perform (.session alice (.decryptPreKey opening))
    (fun _ => .perform (.session carol (.decryptPreKey rival)) (fun _ => .stop (.ok ()))
      fun _ => .stop (.ok ()))
    fun _ => .stop (.ok ())

/-- What has become of the pre-key and the device after 40 turns. -/
def afterRivals : Shared :=
  ((Machine.start suite { store := bob.store } bob.entropy [rivals]).after
    (.replicate 40 (0, none))).shared

end Toy

/-- The other peer's message is read in the middle of reading the first; the first has found the
pre-key before that. -/
theorem found_before_used_up_rivals :
    let history := Toy.afterRivals.history
    usage 7 1 (history.take 23) = .removed ∧ (history[23]?.any (Entry.leaves 1)) ∧
      usage 7 0 (history.take 23) ≠ .idle := by
  intro history
  have removed : usage 7 1 (history.take 23) = .removed := by decide +kernel
  have left : history[23]?.any (Entry.leaves 1) := by decide +kernel
  have once : OneTime 7 Toy.bob.store history := by decide +kernel
  have found : usage 7 0 history ≠ .idle := by decide +kernel
  refine ⟨removed, left, ?_⟩
  have ran : ((Machine.start Toy.suite { store := Toy.bob.store } Toy.bob.entropy [Toy.rivals]).after
    (.replicate 40 (0, none))).shared.history = history := by
    show _ = Toy.afterRivals.history
    rw [Toy.afterRivals]
  clear_value history
  obtain ⟨long, left⟩ : ∃ long : 23 < history.length, history[23].leaves 1 := by
    cases there : history[23]? with
    | none =>
      rw [there] at left
      cases left
    | some x =>
      obtain ⟨long, rfl⟩ := List.getElem?_eq_some_iff.mp there
      rw [there] at left
      exact ⟨long, left⟩
  have split : history = history.take 23 ++ history[23] :: history.drop 24 := by
    rw [List.getElem_cons_drop, List.take_append_drop]
  rw [split] at once found
  exact found_before_used_up (by decide) (ran.trans split) once left (.inr removed) found

/-- One pre-key sets up two sessions that are both stored: it has been put in the store once, and its
removal has not failed. -/
theorem used_twice :
    let s := Toy.afterRivals
    OneTime 7 Toy.bob.store s.history ∧
      usage 7 0 s.history = .removed ∧ usage 7 1 s.history = .removed ∧
      s.device.store.sessions.contains Toy.alice ∧ s.device.store.sessions.contains Toy.carol := by
  intro s
  decide +kernel

end DoubleRatchet
