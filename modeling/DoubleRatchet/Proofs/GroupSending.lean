/-
DoubleRatchet/Proofs/GroupSending.lean

No two messages to a group have a number in common.

The lock of a group sender lets one job at a time visit the record, so what a job has
made of it is what it has loaded, and there is one `GroupLedger` for all threads
(`Conducted`).  It says what has to be said: the sender has one chain of its own, and the
numbers on it grow from message to message, whatever is learned of or read in between
(`group_numbered_once`).

All that holds as long as the application does not store a record of the sender itself.
-/
import DoubleRatchet.Proofs.GroupVisits

namespace DoubleRatchet

open Function (update)

/-! ### Histories -/

/-- What a job on the group sender leaves with. -/
def Entry.given? (sender : GroupSender) (x : Entry) : Option GroupAnswer :=
  match x.event with
  | .left (.ok (.group a)) => (x.job.bind (·.op.groupFor? sender)).map fun _ => a
  | _ => none

/-- What has been given out for the group sender, in the order in which jobs have left. -/
def givenFor (sender : GroupSender) (history : List Entry) : List GroupAnswer :=
  history.filterMap (·.given? sender)

/-- The chains that are made for the group sender: those of a record that is stored to be announced. -/
def Entry.chainsMade (sender : GroupSender) (x : Entry) : List GroupChain :=
  match x.event with
  | .asked (.store (.storeSenderKey _ r)) (.ok _) =>
    (x.job.bind (·.op.groupFor? sender)).elim [] fun c => c.made r
  | _ => []

/-- The chains that have been made for the group sender. -/
def chainsMade (sender : GroupSender) (history : List Entry) : List GroupChain :=
  history.flatMap (·.chainsMade sender)

/-- The message of an answer. -/
def GroupAnswer.message? : GroupAnswer → Option GroupMessage
  | sent m => some m
  | _ => none

section
variable {sender : GroupSender} {x : Entry} {h : List Entry}

theorem chainsMade_append : chainsMade sender (h ++ [x]) = chainsMade sender h ++ x.chainsMade sender := by
  simp [chainsMade]

theorem givenFor_append : givenFor sender (h ++ [x]) = givenFor sender h ++ (x.given? sender).toList := by
  unfold givenFor
  rw [List.filterMap_append]
  congr 1

/-- Who does nothing for the sender makes no chain of its. -/
theorem Entry.chainsMade_eq_nil (other : x.job.bind (·.op.groupFor? sender) = none) :
    x.chainsMade sender = [] := by
  unfold chainsMade
  split
  · rw [other]
    rfl
  · rfl

theorem Entry.chainsMade_stored {job : Job} {c : GroupCall} (on : job.op.groupFor? sender = some c)
    (r : GroupRecord) :
    chainsMade sender ⟨some job, .asked (.store (.storeSenderKey sender r)) (.ok ())⟩ = c.made r := by
  simp [chainsMade, on]

end

/-! ### Devices -/

section
variable {sender : GroupSender} {d d' : Device} {thread : Nat} {r : Request}
  {reply : Except Error r.Reply}

theorem Store.loadSenderKey_stored (store : Store) (sender : GroupSender) (record : GroupRecord) :
    (store.answer (.storeSenderKey sender record)).2.loadSenderKey sender = record := by
  simp [answer, loadSenderKey]

theorem Store.loadSenderKey_answer {store : Store} {q : StoreRequest} (spares : q.SparesSender sender) :
    (store.answer q).2.loadSenderKey sender = store.loadSenderKey sender := by
  cases q with
  | storeSenderKey other record =>
    have ne : other ≠ sender := spares
    simp [answer, loadSenderKey, Std.ExtTreeMap.getElem?_insert, ne]
  | _ => rfl

theorem Device.Meets.senderKey_eq (h : d.Meets thread r reply d') (spares : r.SparesSender sender) :
    d'.store.loadSenderKey sender = d.store.loadSenderKey sender := by
  cases h with
  | answered q => exact Store.loadSenderKey_answer spares
  | _ => rfl

end

/-! ### All threads -/

/-- One job at most visits the record of the sender, and it has loaded what was there. -/
structure Conducted (sender : GroupSender) (s : Shared) (jobs : Underway GroupVisit) : Prop extends
    Exclusive (.senderKey sender) (·.inside = true) GroupVisit.Busy s jobs where
  ledger : GroupLedger (s.device.store.loadSenderKey sender) (chainsMade sender s.history)
    (givenFor sender s.history)
  loaded : ∀ {n thread t r r'}, jobs n = some (thread, t) → t.records = some (r, r') →
    s.device.store.loadSenderKey sender = r' ∧ r.GoesOn (givenFor sender s.history)

section
variable {S : Suite} {sender : GroupSender} {s s' : Shared} {jobs jobs' : Underway GroupVisit}
  {n thread : Nat} {t t' : GroupVisit} {c : GroupCall} {r : Request} {device : Device}
  {reply : Except Error r.Reply} {x : Entry}

namespace Conducted

/-- A step that leaves the record alone: what has to be said of the jobs. -/
theorem frame (h : Conducted sender s jobs)
    (exclusive : Exclusive (.senderKey sender) (·.inside = true) GroupVisit.Busy s' jobs')
    (same : s'.device.store.loadSenderKey sender = s.device.store.loadSenderKey sender)
    (later : s'.history = s.history ++ [x]) (unmade : x.chainsMade sender = [])
    (silent : x.given? sender = none)
    (loaded : ∀ {n thread t r r'}, jobs' n = some (thread, t) → t.records = some (r, r') →
      jobs n = some (thread, t) ∨
        (s.device.store.loadSenderKey sender = r' ∧ r.GoesOn (givenFor sender s.history))) :
    Conducted sender s' jobs' := by
  have made : chainsMade sender s'.history = chainsMade sender s.history := by
    rw [later, chainsMade_append, unmade, List.append_nil]
  have given : givenFor sender s'.history = givenFor sender s.history := by
    rw [later, givenFor_append, silent, Option.toList_none, List.append_nil]
  refine ⟨exclusive, ?_, fun hx records => ?_⟩
  · rw [same, made, given]
    exact h.ledger
  · rw [same, given]
    rcases loaded hx records with old | new
    · exact h.loaded old records
    · exact new

/-- A step that leaves all jobs as they are. -/
theorem quiet (h : Conducted sender s jobs)
    (lock : s'.device.lockHolder? (.senderKey sender) = s.device.lockHolder? (.senderKey sender))
    (same : s'.device.store.loadSenderKey sender = s.device.store.loadSenderKey sender)
    (later : s'.history = s.history ++ [x]) (unmade : x.chainsMade sender = [])
    (silent : x.given? sender = none) : Conducted sender s' jobs :=
  h.frame (h.toExclusive.sub lock id) same later unmade silent fun hx _ => .inl hx

/-- A step of a job that stays as it is. -/
theorem stay (h : Conducted sender s jobs) (own : jobs n = some (thread, t))
    (lock : s'.device.lockHolder? (.senderKey sender) = s.device.lockHolder? (.senderKey sender))
    (same : s'.device.store.loadSenderKey sender = s.device.store.loadSenderKey sender)
    (later : s'.history = s.history ++ [x]) (unmade : x.chainsMade sender = [])
    (silent : x.given? sender = none) : Conducted sender s' (update jobs n (some (thread, t))) := by
  rw [← own, Function.update_eq_self]
  exact h.quiet lock same later unmade silent

/-- A job goes on, with the records that it had before or others. -/
theorem step (h : Conducted sender s jobs)
    (exclusive : Exclusive (.senderKey sender) (·.inside = true) GroupVisit.Busy s'
      (update jobs n (some (thread, t'))))
    (same : s'.device.store.loadSenderKey sender = s.device.store.loadSenderKey sender)
    (later : s'.history = s.history ++ [x]) (unmade : x.chainsMade sender = [])
    (silent : x.given? sender = none)
    (own : ∀ {r r'}, t'.records = some (r, r') →
      s.device.store.loadSenderKey sender = r' ∧ r.GoesOn (givenFor sender s.history)) :
    Conducted sender s' (update jobs n (some (thread, t'))) := by
  refine h.frame exclusive same later unmade silent fun hx records => ?_
  rcases Underway.of_update hx with ⟨-, ⟨⟩⟩ | ⟨-, hx⟩
  · exact .inr (own records)
  · exact .inl hx

/-- Besides a job that is busy nobody has loaded a record. -/
theorem not_loaded (h : Conducted sender s jobs) (own : jobs n = some (thread, t)) (busy : t.Busy)
    {m : Nat} {y : Nat × GroupVisit} (ne : m ≠ n) (hy : jobs m = some y) : y.2.records = none := by
  by_contra loaded
  exact h.idle own busy ne hy (.inr loaded)

/-- A job stores a record in the place of the one that it has loaded. -/
theorem stored {r r' : GroupRecord} (h : Conducted sender s jobs) (own : jobs n = some (thread, t))
    (inside : t.inside = true) (loaded : t.records = some (r, r)) (changes : c.Changes S sender r r')
    (first : c = .announce → r.isEmpty = true)
    (lock : s'.device.lockHolder? (.senderKey sender) = s.device.lockHolder? (.senderKey sender))
    (there : s'.device.store.loadSenderKey sender = r') (later : s'.history = s.history ++ [x])
    (made : x.chainsMade sender = c.made r') (silent : x.given? sender = none) :
    Conducted sender s' (update jobs n (some (thread, { t with records := some (r, r') }))) := by
  obtain ⟨here, goesOn⟩ := h.loaded own loaded
  have given : givenFor sender s'.history = givenFor sender s.history := by
    rw [later, givenFor_append, silent, Option.toList_none, List.append_nil]
  refine ⟨h.toExclusive.step own lock id fun _ => .inl inside, ?_, fun hx records => ?_⟩
  · rw [there, given, later, chainsMade_append, made]
    exact (here ▸ h.ledger).keep changes first
  · rcases Underway.of_update hx with ⟨-, ⟨⟩⟩ | ⟨ne, hx⟩
    · cases records
      rw [given]
      exact ⟨there, goesOn⟩
    · rw [h.not_loaded own (.inl inside) ne hx] at records
      cases records

/-- A request of a job on the sender is answered. -/
theorem asked {job : Job} (h : Conducted sender s jobs) (own : jobs job.number = some (thread, t))
    (rests : ∀ {m y}, jobs m = some y → y.2.Busy → y.2.inside = true)
    (on : job.op.groupFor? sender = some c) (asks : t.Asks S sender c r)
    (met : s.device.Meets thread r reply device) :
    Conducted sender ({ s with device }.log (some job) (.asked r reply))
      (update jobs job.number (some (thread, t.after (.asked r reply)))) := by
  cases asks with
  | enter first =>
    cases met with
    | granted granted =>
      refine h.step (h.toExclusive.enter rests .inl granted rfl) rfl rfl rfl rfl fun records => ?_
      cases first.symm.trans records
    | refused refused => exact h.stay own rfl rfl rfl rfl rfl
  | load inside first =>
    cases met with
    | failed q e => exact h.stay own rfl rfl rfl rfl rfl
    | answered q =>
      refine h.step (h.toExclusive.step own rfl id fun _ => .inl inside) rfl rfl rfl rfl fun records => ?_
      cases records
      exact ⟨rfl, h.ledger.goesOn⟩
  | @keep r r' inside loaded changes first =>
    cases met with
    | failed q e => exact h.stay own rfl rfl rfl rfl rfl
    | answered q =>
      have visit : t.after (.asked (.store (.storeSenderKey sender r')) (.ok ()))
          = { t with records := some (r, r') } := by simp [GroupVisit.after, loaded]
      show Conducted sender _ (update jobs job.number (some (thread,
        t.after (.asked (.store (.storeSenderKey sender r')) (.ok ())))))
      rw [visit]
      exact h.stored own inside loaded changes first rfl (Store.loadSenderKey_stored _ _ _) rfl
        (Entry.chainsMade_stored on r') rfl
  | leave inside =>
    cases met with
    | released =>
      exact h.step (h.toExclusive.leave own (.inl inside) .inl nofun) rfl rfl rfl rfl
        fun records => h.loaded own records

/-- A job leaves, and may give something out. -/
theorem left {job : Job} {outcome : Except Error Outcome} (h : Conducted sender s jobs)
    (own : jobs job.number = some (thread, t))
    (leaves : (groupSending S sender).Leaves job.op t outcome) :
    Conducted sender (s.log (some job) (.left outcome)) (update jobs job.number none) := by
  have gone : ∀ {m y}, update jobs job.number none m = some y → m ≠ job.number ∧ jobs m = some y := by
    intro m y hy
    rcases Underway.of_update hy with ⟨-, ⟨⟩⟩ | old
    exact old
  have exclusive : Exclusive (.senderKey sender) (·.inside = true) GroupVisit.Busy
      (s.log (some job) (.left outcome)) (update jobs job.number none) :=
    h.toExclusive.sub rfl fun hy => (gone hy).2
  cases out : Entry.given? sender ⟨some job, .left outcome⟩ with
  | none => exact h.frame exclusive rfl rfl rfl out fun hx _ => .inl (gone hx).2
  | some a =>
    obtain ⟨c, on, ok⟩ : ∃ c, job.op.groupFor? sender = some c ∧ outcome = .ok (.group a) := by
      unfold Entry.given? at out
      split at out
      · rename_i a' there
        obtain ⟨c, on, rfl⟩ := Option.map_eq_some_iff.mp out
        cases there
        exact ⟨c, on, rfl⟩
      · cases out
    obtain ⟨r, r', loaded, gives⟩ := leaves c on a ok
    obtain ⟨here, goesOn⟩ := h.loaded own loaded
    have given : givenFor sender (s.log (some job) (.left outcome)).history
        = givenFor sender s.history ++ [a] := by
      rw [Shared.log, givenFor_append, out]
      rfl
    have made : chainsMade sender (s.log (some job) (.left outcome)).history
        = chainsMade sender s.history := by
      rw [Shared.log, chainsMade_append]
      exact List.append_nil _
    refine ⟨exclusive, ?_, fun hx records => ?_⟩
    · rw [given, made]
      have ledger : GroupLedger r' (chainsMade sender s.history) (givenFor sender s.history) :=
        here ▸ h.ledger
      exact here.symm ▸ ledger.give goesOn gives
    · obtain ⟨ne, hx⟩ := gone hx
      have none := h.not_loaded own (.inr (by simp [loaded])) ne hx
      rw [none] at records
      cases records

end Conducted

theorem invariant_conducted (S : Suite) (sender : GroupSender) :
    (groupSending S sender).Invariant (fun _ => True) (Conducted sender) where
  closed _ _ := trivial
  entered {s jobs} thread op inv unused good :=
    inv.step (inv.toExclusive.come rfl nofun GroupVisit.not_busy) rfl rfl rfl rfl nofun
  asked {s jobs thread job t fault r reply s'} inv own rests asks answered good := by
    obtain ⟨device, met, rfl⟩ := Shared.answer_eq answered
    refine ⟨?_, ?_⟩
    · cases met <;> trivial
    cases on : job.op.groupFor? sender with
    | none =>
      simp only [groupSending, on] at asks ⊢
      exact inv.stay own (met.lockHolder?_eq asks.avoids) (met.senderKey_eq asks) rfl
        (Entry.chainsMade_eq_nil on) rfl
    | some c =>
      simp only [groupSending, on] at asks ⊢
      exact inv.asked own rests on asks met
  requested {s jobs thread fault q reply s'} inv free answered good := by
    obtain ⟨device, met, rfl⟩ := Shared.answer_eq answered
    exact inv.quiet (met.lockHolder?_eq trivial) (met.senderKey_eq free) rfl
      (Entry.chainsMade_eq_nil rfl) rfl
  drew {β s jobs thread job t fault number x} inv own good := by
    have same : (groupSending S sender).after job.op t
        (.drew number (s.source fault) (x.run (s.source fault)).2) = t := by
      cases on : job.op.groupFor? sender <;> simp [groupSending, on, GroupVisit.after]
    rw [same]
    exact inv.stay own rfl rfl rfl rfl rfl
  left {s jobs thread job t outcome} inv own rests leaves good := inv.left own leaves

theorem conducted_start {device : Device} (empty : device.store.loadSenderKey sender = .empty)
    (entropy : Entropy) : Conducted sender { device, entropy } fun _ => none where
  toExclusive := .start
  ledger := empty.symm ▸ GroupLedger.empty
  loaded := nofun

/-! ### The last number -/

/-- A chain ends at the last number: nothing is encrypted on it, and the record stays as it is. -/
theorem encryptGroup_at_end {app : App} {site : Site} {chain : GroupChain}
    (signs : (site.store.loadSenderKey sender).signing? = some chain)
    (full : chain.window.chain.iteration = 0xffffffff) (plain : Bytes) :
    ∃ e site', (encryptGroup S sender plain).alone app site = (.error e, site') ∧
      site'.store = site.store := by
  rcases ran : (encryptGroup S sender plain).alone app site with ⟨e | message, site'⟩
  · exact ⟨e, site', rfl, (encryptGroup_error ran).1⟩
  · obtain ⟨record, entropy, made, -⟩ := encryptGroup_ok ran
    obtain ⟨c, d, signs', -, -, -, -, later⟩ := GroupRecord.encrypt_signing made
    obtain rfl := Option.some.inj (signs.symm.trans signs')
    have bound := d.window.chain.iteration.toNat_lt
    rw [full] at later
    exact absurd later (Nat.ne_of_lt bound)

/-- **No two messages to a group are sent with the same numbers.**  On a device that begins without a
record of the sender, whatever threads do there and whatever fails: the numbers of the messages that
encryptions have returned grow from each to the next, and none is less than that of an announcement
which has been returned before it.  One chain at most is made for the sender, and all messages have its
key number.  The last number is never given away: when the chain has come to it, encryption fails and
changes nothing that is stored. -/
theorem group_numbered_once {device : Device} {entropy : Entropy} {scripts : List Script}
    {turns : List (Nat × Option Error)} (empty : device.store.loadSenderKey sender = .empty)
    (spares : ∀ script ∈ scripts, script.Within (·.SparesSender sender)) :
    let s := ((Machine.start S device entropy scripts).after turns).shared
    let given := givenFor sender s.history
    let sent := given.filterMap GroupAnswer.message?
    let made := chainsMade sender s.history
    sent.Pairwise (·.iteration < ·.iteration) ∧ given.Pairwise GroupAnswer.Before ∧
    made.length ≤ 1 ∧
    (∀ m ∈ sent, m.keyId ∈ made.map (·.keyId) ∧ m.iteration ≠ 0xffffffff) ∧
    (sent.map fun m => (m.keyId, m.iteration)).Nodup ∧
    ∀ chain, (s.device.store.loadSenderKey sender).signing? = some chain →
      chain.window.chain.iteration = 0xffffffff → ∀ (app : App) (e : Entropy) (plain : Bytes),
        ∃ err site', (encryptGroup S sender plain).alone app ⟨s.device.store, e⟩ = (.error err, site') ∧
          site'.store = s.device.store := by
  intro s given sent made
  obtain ⟨jobs, conducted⟩ := (invariant_conducted S sender).after (follows_groupSending S sender) spares
    (conducted_start empty entropy) turns trivial
  have ledger : GroupLedger (s.device.store.loadSenderKey sender) made given := conducted.ledger
  have mem : ∀ {m}, m ∈ sent → GroupAnswer.sent m ∈ given := by
    intro m hm
    obtain ⟨a, ha, same⟩ := List.mem_filterMap.mp hm
    cases a with
    | sent m' =>
      obtain rfl := Option.some.inj same
      exact ha
    | _ => cases same
  have growing : sent.Pairwise (·.iteration < ·.iteration) := by
    refine List.pairwise_filterMap.mpr (ledger.ordered.imp fun {a b} before m hm m' hm' => ?_)
    cases a with
    | sent m =>
      cases b with
      | sent m' =>
        obtain rfl := Option.some.inj hm
        obtain rfl := Option.some.inj hm'
        exact before _ rfl
      | _ => cases hm'
    | _ => cases hm
  refine ⟨growing, ledger.ordered, ledger.once, fun m hm => ledger.sent m (mem hm), ?_,
    fun chain signs full app e plain => encryptGroup_at_end signs full plain⟩
  refine List.pairwise_map.mpr (growing.imp fun {m m'} less same => ?_)
  rw [(Prod.mk.inj same).2] at less
  exact UInt32.lt_irrefl _ less

end

/-! ### Threads to compute with -/

namespace Toy

/-- Announce the chain, and go on whatever comes of it. -/
def announcing (next : Script) : Script := .attempt (.group team .announce) next

/-- Encrypt a plaintext of one byte for the group, and go on whatever comes of it. -/
def speaking (b : UInt8) (next : Script) : Script := .attempt (.group team (.encrypt [b])) next

/-- One thread announces the chain twice and encrypts after each time; the other one encrypts three
times, learns of another chain, and tries to encrypt. -/
def speakers : List Script :=
  [announcing (speaking 1 (announcing (speaking 2 (.stop (.ok ()))))),
    speaking 3 (speaking 4 (speaking 5 (.attempt (.group team (.learn announcement))
      (speaking 6 (.stop (.ok ()))))))]

/-- Both threads in turn; the store fails to keep what the first one has encrypted first. -/
def speakerTurns : List (Nat × Option Error) :=
  (List.range 40).flatMap fun i => [(0, if i = 13 then some (.storage "full") else none), (1, none)]

/-- What the threads have come to. -/
def afterSpeakers : Shared :=
  ((Machine.start suite { store := bob.store } bob.entropy speakers).after speakerTurns).shared

end Toy

/-- Six encryptions have been tried: one has failed in the store, and one for want of a chain that can
sign; the others have the numbers from 0 on. -/
theorem group_numbered_once_speakers :
    let given := givenFor Toy.team Toy.afterSpeakers.history
    let sent := given.filterMap GroupAnswer.message?
    sent.map (·.iteration) = [0, 1, 2, 3] ∧ given.length = 7 ∧ given.Pairwise GroupAnswer.Before ∧
      ∀ m ∈ sent, m.keyId ∈ (chainsMade Toy.team Toy.afterSpeakers.history).map (·.keyId) := by
  intro given sent
  have numbers : sent.map (·.iteration) = [0, 1, 2, 3] := by decide +kernel
  have seven : given.length = 7 := by decide +kernel
  have empty : ({ store := Toy.bob.store } : Device).store.loadSenderKey Toy.team = .empty := by
    decide +kernel
  have spares : ∀ script ∈ Toy.speakers, script.Within (·.SparesSender Toy.team) := by
    simp [Toy.speakers, Toy.announcing, Toy.speaking, Script.attempt, Script.Within]
  refine ⟨numbers, seven, ?_⟩
  simp only [sent, given, Toy.afterSpeakers]
  obtain ⟨-, before, -, named, -⟩ := group_numbered_once empty spares
  exact ⟨before, fun m hm => (named m hm).1⟩

end DoubleRatchet
