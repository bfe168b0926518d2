/-
DoubleRatchet/Proofs/Trust.lean

An identity that is kept for a peer is never replaced.

A job has an identity checked first and keeps it later, and the store may change in
between.  But whoever keeps an identity for the peer has its lock, and has had the lock
since the check, so what has been found to be trusted is still trusted then (`Guarded`).
Once the store has an identity for the peer, it has that identity for good: each job that
is presented with another one is turned away, and changes nothing (`pinned_for_good`).

All that holds as long as the application does not keep an identity for the peer itself
(`HandsOff`).
-/
import DoubleRatchet.Proofs.Errands

namespace DoubleRatchet

open Function (update)

/-! ### Histories -/

/-- The application keeps an identity for the peer, whatever the store trusts. -/
def Operation.pins (peer : Address) : Operation → Bool
  | session other (.pin _) => other == peer
  | _ => false

/-- An identity is kept for the peer, by the application itself. -/
def Entry.pins (peer : Address) (x : Entry) : Bool :=
  match x.event with
  | .asked (.store (.saveIdentity other _)) _ => other == peer && x.job.all (·.op.pins peer)
  | _ => false

/-- The application keeps no identity for the peer itself. -/
def HandsOff (peer : Address) (history : List Entry) : Prop := ∀ x ∈ history, x.pins peer = false

instance {peer : Address} {history : List Entry} : Decidable (HandsOff peer history) :=
  inferInstanceAs (Decidable (∀ x ∈ history, x.pins peer = false))

/-- An identity is kept for the peer in the place of another one. -/
def Entry.Replaces (peer : Address) (x : Entry) : Prop :=
  ∃ key, x.event = .asked (.store (.saveIdentity peer key)) (.ok true)

/-- The identity that the job has been presented with for the peer. -/
def Entry.presented? (peer : Address) (x : Entry) : Option PublicKey :=
  (x.job.bind (·.op.for? peer)).bind Call.presents

/-- The store has failed to answer a harmless request of the job with a number. -/
def Faulted (history : List Entry) (number : Nat) (e : Error) : Prop :=
  ∃ y ∈ history, y.job.map (·.number) = some number ∧
    ∃ q, q.Harmless ∧ y.event = .asked (.store q) (.error e)

/-- A job that has been presented with an identity is turned away: it changes nothing, and fails with
the error that says so, if its thread does not have the lock already and the store does not fail. -/
def Entry.TurnedAway (peer : Address) (presented : PublicKey) (history : List Entry) (x : Entry) :
    Prop :=
  match x.event with
  | .asked (.store q) _ => q.Harmless
  | .left outcome => ∃ e, outcome = .error e ∧
      (e = .untrustedIdentity peer.name presented ∨ e = .reentrantUpdate (.session peer) ∨
        ∃ job ∈ x.job, Faulted history job.number e)
  | _ => True

section
variable {peer : Address} {h h' : List Entry} {n : Nat} {e : Error} {x : Entry} {key : PublicKey}

theorem HandsOff.of_prefix (later : h <+: h') (hands : HandsOff peer h') : HandsOff peer h :=
  fun x hx => hands x (later.subset hx)

theorem HandsOff.not_saves {q : StoreRequest} {reply : Except Error q.Reply}
    (hands : HandsOff peer (h ++ [⟨none, .asked (.store q) reply⟩])) (key : PublicKey) :
    Request.store q ≠ .store (.saveIdentity peer key) := by
  rintro ⟨⟩
  have off := hands _ (List.mem_append_right _ List.mem_cons_self)
  simp [Entry.pins] at off

theorem Faulted.mono (later : h <+: h') (faulted : Faulted h n e) : Faulted h' n e := by
  obtain ⟨y, hy, same⟩ := faulted
  exact ⟨y, later.subset hy, same⟩

theorem Entry.TurnedAway.mono (later : h <+: h') (away : x.TurnedAway peer key h) :
    x.TurnedAway peer key h' := by
  unfold TurnedAway at away ⊢
  split
  · simpa only [‹x.event = _›] using away
  · rename_i outcome left
    simp only [left] at away
    obtain ⟨e, rfl, untrusted | reentrant | ⟨job, hj, faulted⟩⟩ := away
    · exact ⟨e, rfl, .inl untrusted⟩
    · exact ⟨e, rfl, .inr (.inl reentrant)⟩
    · exact ⟨e, rfl, .inr (.inr ⟨job, hj, faulted.mono later⟩)⟩
  · trivial

end

/-! ### Devices -/

section
variable {S : Suite} {peer : Address} {d d' : Device} {thread : Nat} {r : Request}
  {reply : Except Error r.Reply}

theorem Store.isTrusted_congr {a b : Store} (same : a.identities[peer]? = b.identities[peer]?)
    (key : PublicKey) : a.isTrusted peer key = b.isTrusted peer key := by
  unfold isTrusted
  rw [same]

/-- The identity of the peer changes only when one is kept. -/
theorem Device.Meets.identities_eq (met : d.Meets thread r reply d')
    (other : ∀ key, r ≠ .store (.saveIdentity peer key)) :
    d'.store.identities[peer]? = d.store.identities[peer]? := by
  cases met with
  | answered q =>
    cases q with
    | saveIdentity peer' key =>
      have ne : peer' ≠ peer := by
        rintro rfl
        exact other key rfl
      simp [Store.answer, Store.saveIdentity, Std.ExtTreeMap.getElem?_insert, ne]
    | _ => rfl
  | _ => rfl

end

/-! ### All threads -/

/-- One job at most has the lock of the peer, and what a job has found to be trusted still is. -/
structure Guarded (peer : Address) (s : Shared) (jobs : Underway Errand) : Prop extends
    Exclusive (.session peer) (·.inside = true) (·.inside = true) s jobs where
  trusted : ∀ {n thread t key}, jobs n = some (thread, t) → t.trusts = some key →
    s.device.store.isTrusted peer key = true
  failed : ∀ {n thread t e}, jobs n = some (thread, t) → t.trusts = none → t.failed = some e →
    Faulted s.history n e
  faithful : ∀ x ∈ s.history, ¬x.Replaces peer

section
variable {S : Suite} {peer : Address} {s s' : Shared} {jobs jobs' : Underway Errand} {n thread : Nat}
  {t t' : Errand} {c : Call} {r : Request} {d d' : Device} {reply : Except Error r.Reply} {x : Entry}
  {e : Error}

namespace Guarded

/-- A step of no job, or the last one of a job. -/
theorem quiet (h : Guarded peer s jobs)
    (lock : s'.device.lockHolder? (.session peer) = s.device.lockHolder? (.session peer))
    (identity : s'.device.store.identities[peer]? = s.device.store.identities[peer]?)
    (later : s'.history = s.history ++ [x]) (faithful : ¬x.Replaces peer)
    (sub : ∀ {n y}, jobs' n = some y → jobs n = some y) : Guarded peer s' jobs' where
  toExclusive := h.toExclusive.sub lock sub
  trusted hx trusts := (Store.isTrusted_congr identity _).trans (h.trusted (sub hx) trusts)
  failed hx none fails := (h.failed (sub hx) none fails).mono (later ▸ List.prefix_append _ _)
  faithful := later ▸ List.forall_mem_append.mpr ⟨h.faithful, List.forall_mem_singleton.mpr faithful⟩

/-- A job makes a step: what has to be said of its new state, and of what the others trust. -/
theorem change (h : Guarded peer s jobs)
    (exclusive : Exclusive (.session peer) (·.inside = true) (·.inside = true) s'
      (update jobs n (some (thread, t'))))
    (later : s'.history = s.history ++ [x]) (faithful : ¬x.Replaces peer)
    (trusted : ∀ {key}, t'.trusts = some key → s'.device.store.isTrusted peer key = true)
    (failed : ∀ {e}, t'.trusts = none → t'.failed = some e → Faulted s'.history n e)
    (trust : ∀ {m y key}, m ≠ n → jobs m = some y → y.2.trusts = some key →
      s'.device.store.isTrusted peer key = true) :
    Guarded peer s' (update jobs n (some (thread, t'))) where
  toExclusive := exclusive
  trusted {m thread' u key} hx trusts := by
    rcases Underway.of_update hx with ⟨-, ⟨⟩⟩ | ⟨ne, hx⟩
    · exact trusted trusts
    · exact trust ne hx trusts
  failed {m thread' u e} hx none fails := by
    rcases Underway.of_update hx with ⟨rfl, ⟨⟩⟩ | ⟨-, hx⟩
    · exact failed none fails
    · exact (h.failed hx none fails).mono (later ▸ List.prefix_append _ _)
  faithful := later ▸ List.forall_mem_append.mpr ⟨h.faithful, List.forall_mem_singleton.mpr faithful⟩

/-- A job makes a step that does not concern the identity. -/
theorem frame (h : Guarded peer s jobs)
    (exclusive : Exclusive (.session peer) (·.inside = true) (·.inside = true) s'
      (update jobs n (some (thread, t'))))
    (later : s'.history = s.history ++ [x]) (faithful : ¬x.Replaces peer)
    (identity : s'.device.store.identities[peer]? = s.device.store.identities[peer]?)
    (trusted : ∀ {key}, t'.trusts = some key → s.device.store.isTrusted peer key = true)
    (failed : ∀ {e}, t'.trusts = none → t'.failed = some e → Faulted s'.history n e) :
    Guarded peer s' (update jobs n (some (thread, t'))) := by
  have same := Store.isTrusted_congr identity
  exact h.change exclusive later faithful (fun trusts => (same _).trans (trusted trusts)) failed
    fun _ hy trusts => (same _).trans (h.trusted hy trusts)

/-- A job makes a step that concerns neither the lock nor the identity. -/
theorem step (h : Guarded peer s jobs) (own : jobs n = some (thread, t))
    (later : s'.history = s.history ++ [x]) (faithful : ¬x.Replaces peer)
    (lock : s'.device.lockHolder? (.session peer) = s.device.lockHolder? (.session peer))
    (identity : s'.device.store.identities[peer]? = s.device.store.identities[peer]?)
    (inside : t'.inside = t.inside)
    (trusted : ∀ {key}, t'.trusts = some key → s.device.store.isTrusted peer key = true)
    (failed : ∀ {e}, t'.trusts = none → t'.failed = some e → Faulted s'.history n e) :
    Guarded peer s' (update jobs n (some (thread, t'))) :=
  h.frame (h.toExclusive.step own lock inside.symm.trans inside.symm.trans) later faithful identity
    trusted failed

/-- What a job has failed with before. -/
theorem faulted (h : Guarded peer s jobs) (own : jobs n = some (thread, t))
    (later : s'.history = s.history ++ [x]) {e : Error} (none : t.trusts = none)
    (fails : t.failed = some e) : Faulted s'.history n e :=
  (h.failed own none fails).mono (later ▸ List.prefix_append _ _)

/-- A job keeps the identity that it has found to be trusted; no other job trusts any. -/
theorem save {key : PublicKey} (h : Guarded peer s jobs) (own : jobs n = some (thread, t))
    (rests : ∀ {m y}, jobs m = some y → y.2.inside = true ∨ y.2.trusts = none)
    (inside : t.inside = true) (trusts : t.trusts = some key)
    (later : s'.history = s.history ++ [x]) (faithful : ¬x.Replaces peer)
    (hd : s'.device = { s.device with store := s.device.store.saveIdentity peer key }) :
    Guarded peer s' (update jobs n (some (thread, t))) := by
  have lock : s'.device.lockHolder? (.session peer) = s.device.lockHolder? (.session peer) := by
    rw [hd]
    rfl
  refine h.change (h.toExclusive.step own lock id id) later faithful (fun {key'} trusts' => ?_)
    (fun none => ?_) fun {m y key'} ne hy trusts' => ?_
  · obtain rfl := Option.some.inj (trusts.symm.trans trusts')
    rw [hd]
    simp [Store.isTrusted_saveIdentity]
  · rw [trusts] at none
    cases none
  · rcases rests hy with there | none
    · exact absurd there (h.idle own inside ne hy)
    · rw [none] at trusts'
      cases trusts'

/-- A request of a job to the store, but to keep an identity, concerns neither the lock nor the
identity. -/
theorem ask {q : StoreRequest} {reply : Except Error q.Reply} (h : Guarded peer s jobs)
    (own : jobs n = some (thread, t)) (asks : c.ErrandAsks S peer t (.store q))
    (other : ∀ key, q ≠ .saveIdentity peer key)
    (met : s.device.Meets thread (.store q) reply d') (hd : s'.device = d')
    (later : s'.history = s.history ++ [x]) (hx : x.event = .asked (.store q) reply)
    (number : x.job.map (·.number) = some n) :
    Guarded peer s' (update jobs n (some (thread, c.errand S t (.asked (.store q) reply)))) := by
  have lock : s'.device.lockHolder? (.session peer) = s.device.lockHolder? (.session peer) := by
    rw [hd]
    exact met.lockHolder?_eq trivial
  have identity : s'.device.store.identities[peer]? = s.device.store.identities[peer]? := by
    rw [hd]
    refine met.identities_eq ?_
    rintro key ⟨⟩
    exact other key rfl
  have faithful : ¬x.Replaces peer := by
    rintro ⟨key, same⟩
    rw [hx] at same
    cases same
    exact other key rfl
  have before {e} : t.trusts = none → t.failed = some e → Faulted s'.history n e :=
    h.faulted own later
  cases met with
  | failed q e =>
    rw [Call.errand_failed]
    refine h.step own later faithful lock identity rfl (fun trusts => h.trusted own trusts)
      fun {e'} none same => ?_
    obtain rfl := Option.some.inj same
    have uncleared : ¬t.Cleared c := fun cleared => cleared.trusts none
    exact ⟨x, later ▸ List.mem_append_right _ List.mem_cons_self, number, q,
      asks.harmless uncleared fun key _ => other key, hx⟩
  | answered q =>
    cases asks with
    | @check key direction inside presented =>
      show Guarded peer s' (update jobs n (some (thread, c.errand S t
        (.asked (.store (.isTrusted peer key direction)) (.ok (s.device.store.isTrusted peer key))))))
      cases trusted : s.device.store.isTrusted peer key with
      | false => exact h.step own later faithful lock identity rfl (fun ht => h.trusted own ht) before
      | true =>
        refine h.step own later faithful lock identity rfl (fun ht => ?_) nofun
        obtain rfl := Option.some.inj ht
        exact trusted
    | contains => exact h.step own later faithful lock identity rfl (fun ht => h.trusted own ht) before
    | load => exact h.step own later faithful lock identity rfl (fun ht => h.trusted own ht) before
    | keep => exact h.step own later faithful lock identity rfl (fun ht => h.trusted own ht) before
    | keys cleared keys =>
      -- a key may be missing, but the job is cleared
      cases (s.device.store.answer q).1 with
      | ok reply =>
        rw [Call.errand_keys keys]
        exact h.step own later faithful lock identity rfl (fun ht => h.trusted own ht) before
      | error e =>
        rw [Call.errand_failed]
        exact h.step own later faithful lock identity rfl (fun ht => h.trusted own ht)
          fun none => absurd none cleared.trusts
    | save => exact absurd rfl (other _)
    | pin => exact absurd rfl (other _)

/-- To keep an identity, whatever the store trusts, is what the application does not do. -/
theorem not_pinning {job : Job} {key key' : PublicKey}
    {reply : Except Error (StoreRequest.saveIdentity peer key').Reply}
    (on : job.op.for? peer = some c) (pinning : c = .pin key) :
    Entry.pins peer ⟨some job, .asked (.store (.saveIdentity peer key')) reply⟩ = true := by
  rw [pinning] at on
  simp [Entry.pins, Operation.for?_eq_some.mp on, Operation.pins]

/-- A request of a job on the peer is answered. -/
theorem asked {job : Job} (h : Guarded peer s jobs) (own : jobs job.number = some (thread, t))
    (rests : ∀ {m y}, jobs m = some y → y.2.inside = true ∨ y.2.trusts = none)
    (on : job.op.for? peer = some c) (asks : c.ErrandAsks S peer t r)
    (met : s.device.Meets thread r reply d')
    (hands : Entry.pins peer ⟨some job, .asked r reply⟩ = false) :
    Guarded peer ({ s with device := d' }.log (some job) (.asked r reply))
      (update jobs job.number (some (thread, c.errand S t (.asked r reply)))) := by
  cases asks with
  | enter =>
    cases met with
    | granted granted =>
      exact h.frame (h.toExclusive.enter (fun _ => id) id granted rfl) rfl nofun rfl
        (fun ht => h.trusted own ht) (h.faulted own rfl)
    | refused refused =>
      exact h.step own rfl nofun rfl rfl rfl (fun ht => h.trusted own ht) (h.faulted own rfl)
  | leave inside =>
    cases met with
    | released =>
      exact h.frame (h.toExclusive.leave own inside id nofun) rfl nofun rfl
        (fun ht => h.trusted own ht) (h.faulted own rfl)
  | @save key cleared trusts =>
    cases met with
    | failed q e =>
      refine h.step own rfl nofun rfl rfl rfl (fun ht => h.trusted own ht) fun none => ?_
      exact absurd none cleared.trusts
    | answered q =>
      refine h.save own rests cleared.inside trusts rfl ?_ rfl
      rintro ⟨_, same⟩
      simp [Store.answer, h.trusted own trusts] at same
  | pin pinning =>
    rw [not_pinning on pinning] at hands
    cases hands
  | check inside presented => exact h.ask own (.check inside presented) nofun met rfl rfl rfl rfl
  | contains => exact h.ask own .contains nofun met rfl rfl rfl rfl
  | load => exact h.ask own .load nofun met rfl rfl rfl rfl
  | keys cleared keys =>
    refine h.ask own (.keys cleared keys) ?_ met rfl rfl rfl rfl
    rintro key rfl
    exact keys
  | keep cleared loaded writes => exact h.ask own (.keep cleared loaded writes) nofun met rfl rfl rfl rfl

/-- A request that concerns neither the lock nor the identity. -/
theorem beside (h : Guarded peer s jobs)
    (lock : d'.lockHolder? (.session peer) = s.device.lockHolder? (.session peer))
    (other : ∀ key, r ≠ .store (.saveIdentity peer key)) (met : s.device.Meets thread r reply d')
    (job : Option Job) : Guarded peer ({ s with device := d' }.log job (.asked r reply)) jobs := by
  refine h.quiet lock (met.identities_eq other) rfl ?_ id
  rintro ⟨key, same⟩
  cases same
  exact other key rfl

end Guarded

/-- A draw makes a difference only to the base keys. -/
theorem Errand.drew (S : Suite) (peer : Address) (t : Errand) (op : Operation) (number : Nat) (source after : Entropy) :
    ∃ made, (errands (fun _ => True) S peer).after op t (.drew number source after)
      = { t with made } := by
  cases on : op.for? peer with
  | none => exact ⟨t.made, by simp [errands, on]⟩
  | some c => exact ⟨t.made ++ c.baseKeys S number source after, by simp [errands, on, Call.errand]⟩

theorem invariant_guarded (S : Suite) (peer : Address) :
    (errands (fun _ => True) S peer).Invariant (HandsOff peer) (Guarded peer) where
  closed := HandsOff.of_prefix
  entered {s jobs} thread op inv unused good := by
    exact inv.frame (inv.toExclusive.come rfl nofun nofun) rfl nofun rfl nofun nofun
  asked {s jobs thread job t fault r reply s'} inv own rests asks answered good := by
    obtain ⟨device, met, rfl⟩ := Shared.answer_eq answered
    refine ⟨met.errand_expects, ?_⟩
    cases on : job.op.for? peer with
    | none =>
      simp only [errands, on] at asks ⊢
      rw [← own, Function.update_eq_self]
      have spares : r.Spares peer := asks.1
      exact inv.beside (met.lockHolder?_eq spares.avoids) asks.2 met _
    | some c =>
      simp only [errands, on] at asks ⊢
      exact inv.asked own rests on asks met (good _ (List.mem_append_right _ List.mem_cons_self))
  requested {s jobs thread fault q reply s'} inv free answered good := by
    obtain ⟨device, met, rfl⟩ := Shared.answer_eq answered
    exact inv.beside (met.lockHolder?_eq trivial) (HandsOff.not_saves good) met _
  drew {β s jobs thread job t fault number x} inv own good := by
    obtain ⟨made, same⟩ := Errand.drew S peer t job.op number (s.source fault)
      (x.run (s.source fault)).2
    rw [same]
    refine inv.step own rfl ?_ rfl rfl rfl (fun ht => inv.trusted own ht) (inv.faulted own rfl)
    rintro ⟨key, same⟩
    cases same
  left {s jobs thread job t outcome} inv own rests leaves good := by
    refine inv.quiet rfl rfl rfl ?_ fun hy => ?_
    · rintro ⟨key, same⟩
      cases same
    · rcases Underway.of_update hy with ⟨-, ⟨⟩⟩ | ⟨-, hy⟩
      exact hy

/-! ### Once an identity is kept -/

/-- The store has the identity, and since some time all jobs that have been presented with another one
have been turned away. -/
structure Pinned (peer : Address) (kept : PublicKey) (since : Nat) (s : Shared)
    (jobs : Underway Errand) : Prop extends Guarded peer s jobs where
  identity : s.device.store.identities[peer]? = some kept
  begun : since ≤ s.history.length
  away : ∀ x ∈ s.history.drop since, ∀ other, x.presented? peer = some other → other ≠ kept →
    x.TurnedAway peer other s.history

namespace Pinned

variable {kept : PublicKey} {since : Nat}

/-- What is trusted is what is kept. -/
theorem trusts_eq (h : Pinned peer kept since s jobs) (own : jobs n = some (thread, t))
    {key : PublicKey} (trusts : t.trusts = some key) : key = kept :=
  (Store.isTrusted_iff.mp (h.trusted own trusts) kept h.identity).symm

/-- A job that has been presented with another identity is not cleared. -/
theorem uncleared (h : Pinned peer kept since s jobs) (own : jobs n = some (thread, t))
    {other : PublicKey} (presented : c.presents = some other) (ne : other ≠ kept) : ¬t.Cleared c :=
  fun cleared => ne (h.trusts_eq own (cleared.presented other presented))

theorem later (h : Pinned peer kept since s jobs) (guarded : Guarded peer s' jobs')
    (grown : s'.history = s.history ++ [x])
    (identity : s'.device.store.identities[peer]? = some kept)
    (away : ∀ other, x.presented? peer = some other → other ≠ kept →
      x.TurnedAway peer other s'.history) : Pinned peer kept since s' jobs' := by
  have prefix' : s.history <+: s'.history := grown ▸ List.prefix_append _ _
  refine ⟨guarded, identity, Nat.le_trans h.begun prefix'.length_le, fun y hy other presented ne => ?_⟩
  rw [grown, List.drop_append_of_le_length h.begun] at hy
  rcases List.mem_append.mp hy with old | new
  · exact (h.away y old other presented ne).mono prefix'
  · obtain rfl := List.mem_singleton.mp new
    exact away other presented ne

end Pinned

/-- A job keeps no identity but the one that is kept already. -/
theorem Pinned.identity_asked {kept : PublicKey} {since : Nat} {job : Job}
    (h : Pinned peer kept since s jobs) (own : jobs job.number = some (thread, t))
    (asks : (errands (fun _ => True) S peer).Asks job.op t r)
    (met : s.device.Meets thread r reply d')
    (hands : Entry.pins peer ⟨some job, .asked r reply⟩ = false) :
    d'.store.identities[peer]? = some kept := by
  by_cases saves : ∃ key, r = .store (.saveIdentity peer key)
  · obtain ⟨key, rfl⟩ := saves
    cases on : job.op.for? peer with
    | none =>
      simp only [errands, on] at asks
      exact absurd rfl (asks.2 key)
    | some c =>
      simp only [errands, on] at asks
      cases asks with
      | save cleared trusts =>
        cases met with
        | failed q e => exact h.identity
        | answered q =>
          rw [← h.trusts_eq own trusts]
          exact Store.getElem?_saveIdentity _ _ _
      | pin pinning =>
        rw [Guarded.not_pinning on pinning] at hands
        cases hands
      | keys cleared keys => exact keys.elim
  · rw [met.identities_eq fun key same => saves ⟨key, same⟩]
    exact h.identity

theorem Entry.presented?_eq_some {job : Job} {event : Event} {other : PublicKey} :
    Entry.presented? peer ⟨some job, event⟩ = some other ↔
      ∃ c, job.op.for? peer = some c ∧ c.presents = some other := Option.bind_eq_some_iff

theorem invariant_pinned (S : Suite) (peer : Address) (kept : PublicKey) (since : Nat) :
    (errands (fun _ => True) S peer).Invariant (HandsOff peer) (Pinned peer kept since) where
  closed := HandsOff.of_prefix
  entered {s jobs} thread op inv unused good :=
    inv.later ((invariant_guarded S peer).entered thread op inv.toGuarded unused good) rfl inv.identity
      fun _ _ _ => trivial
  asked {s jobs thread job t fault r reply s'} inv own rests asks answered good := by
    obtain ⟨expects, guarded⟩ :=
      (invariant_guarded S peer).asked inv.toGuarded own rests asks answered good
    obtain ⟨device, met, rfl⟩ := Shared.answer_eq answered
    have hands := good _ (List.mem_append_right _ List.mem_cons_self)
    refine ⟨expects, inv.later guarded rfl (inv.identity_asked own asks met hands)
      fun other presented ne => ?_⟩
    obtain ⟨c, on, presents⟩ := Entry.presented?_eq_some.mp presented
    cases r with
    | store q =>
      simp only [errands, on] at asks
      refine asks.harmless (inv.uncleared own presents ne) fun key pinning => ?_
      rw [pinning] at presents
      cases presents
    | _ => trivial
  requested {s jobs thread fault q reply s'} inv free answered good := by
    have guarded := (invariant_guarded S peer).requested inv.toGuarded free answered good
    obtain ⟨device, met, rfl⟩ := Shared.answer_eq answered
    refine inv.later guarded rfl ((met.identities_eq (HandsOff.not_saves good)).trans inv.identity) ?_
    intro other presented
    cases presented
  drew {β s jobs thread job t fault number x} inv own good :=
    inv.later ((invariant_guarded S peer).drew inv.toGuarded own good) rfl inv.identity
      fun _ _ _ => trivial
  left {s jobs thread job t outcome} inv own rests leaves good := by
    refine inv.later ((invariant_guarded S peer).left inv.toGuarded own rests leaves good) rfl
      inv.identity fun other presented ne => ?_
    obtain ⟨c, on, presented⟩ := Entry.presented?_eq_some.mp presented
    rcases leaves c on other presented with trusts | ⟨e, rfl, untrusted | reentrant | ⟨none, fails⟩⟩
    · exact absurd (inv.trusts_eq own trusts) ne
    · exact ⟨e, rfl, .inl untrusted⟩
    · exact ⟨e, rfl, .inr (.inl reentrant)⟩
    · exact ⟨e, rfl, .inr (.inr ⟨job, rfl, (inv.failed own none fails).mono (List.prefix_append _ _)⟩)⟩

/-- Nobody has been there yet. -/
theorem guarded_start (peer : Address) (device : Device) (entropy : Entropy) :
    Guarded peer { device, entropy } fun _ => none where
  toExclusive := .start
  trusted := nofun
  failed := nofun
  faithful _ hx := absurd hx List.not_mem_nil

/-! ### A store that does not fail -/

/-- A harmless request does not fail. -/
def Entry.Faultless (x : Entry) : Prop :=
  match x.event with
  | .asked (.store q) (.error _) => ¬q.Harmless
  | _ => True

/-- No harmless request has failed. -/
def Shared.Faultless (s : Shared) : Prop := ∀ x ∈ s.history, x.Faultless

namespace Shared.Faultless

theorem log {job : Option Job} {event : Event} (h : s.Faultless)
    (faultless : Entry.Faultless ⟨job, event⟩) : (s.log job event).Faultless :=
  List.forall_mem_append.mpr ⟨h, List.forall_mem_singleton.mpr faultless⟩

/-- What a thread does up to its next request is no request. -/
theorem settle (h : s.Faultless) (steps : Thread) : (s.settle steps).1.Faultless := by
  induction steps generalizing s with
  | enter op body ih => exact ih s.jobs (log (s := { s with jobs := s.jobs + 1 }) h trivial)
  | leave job outcome next ih => exact ih (h.log trivial)
  | _ => exact h

theorem turn (h : s.Faultless) (thread : Nat) (steps : Thread) :
    (s.turn thread none steps).1.Faultless := by
  cases steps with
  | ask job r next =>
    cases answered : s.answer thread none job r with
    | none =>
      rw [turn_ask_of_none answered]
      exact h
    | some answer =>
      obtain ⟨reply, s'⟩ := answer
      rw [turn_ask_of_some answered]
      refine settle ?_ (next reply)
      obtain ⟨⟨reply', device⟩, met, same⟩ := Option.map_eq_some_iff.mp answered
      cases same
      refine log (s := { s with device }) h ?_
      unfold Entry.Faultless
      split
      · rintro harmless
        rename_i q e asked
        cases asked
        obtain ⟨reply, answers⟩ := harmless s.device.store
        simp [Device.meet, Device.answer, answers] at met
      · trivial
  | draw job n x next =>
    have drawn : (s.draw none job n x).2.Faultless := h.log (s := { s with entropy := _ }) trivial
    exact drawn.settle _
  | finished => exact settle h _
  | enter op body => exact settle h _
  | leave job outcome next => exact settle h _

end Shared.Faultless

/-- Only a fault makes a harmless request fail. -/
theorem Machine.faultless_after {m : Machine} (h : m.shared.Faultless)
    {turns : List (Nat × Option Error)} (sound : ∀ turn ∈ turns, turn.2 = none) :
    (m.after turns).shared.Faultless := by
  induction turns generalizing m with
  | nil => exact h
  | cons turn turns ih =>
    obtain ⟨thread, fault⟩ := turn
    obtain rfl : fault = none := sound _ List.mem_cons_self
    have turned : (m.turn thread none).shared.Faultless := by
      unfold Machine.turn
      split
      · exact h
      · exact h.turn _ _
    exact ih turned fun turn ht => sound turn (List.mem_cons_of_mem _ ht)

theorem Shared.Faultless.not_faulted (h : s.Faultless) : ¬Faulted s.history n e := by
  rintro ⟨y, hy, -, q, harmless, failed⟩
  have faultless := h y hy
  simp only [Entry.Faultless, failed] at faultless
  exact faultless harmless

/-- **A pinned identity is never replaced.**  Whatever threads do on a device and whatever fails, as
long as the application does not keep an identity for the peer itself: no request to keep one says that
it has replaced another.  Once an identity is kept for the peer, it is kept for good, and from then on
each job that is presented with another one, in a bundle or in a pre-key message, changes nothing, and
fails because it is not trusted, if it is not refused as reentrant and the store does not fail.  The
store does not fail unless it is made to. -/
theorem pinned_for_good {device : Device} {entropy : Entropy} {scripts : List Script}
    {turns more : List (Nat × Option Error)}
    (hands : HandsOff peer
      (((Machine.start S device entropy scripts).after turns).after more).shared.history) :
    let m := (Machine.start S device entropy scripts).after turns
    let m' := m.after more
    (∀ x ∈ m'.shared.history, ¬x.Replaces peer) ∧
    (∀ kept, m.shared.device.store.identities[peer]? = some kept →
      m'.shared.device.store.identities[peer]? = some kept ∧
      ∀ x ∈ m'.shared.history.drop m.shared.history.length, ∀ other,
        x.presented? peer = some other → other ≠ kept →
          x.TurnedAway peer other m'.shared.history) ∧
    ((∀ turn ∈ turns ++ more, turn.2 = none) → ∀ n e, ¬Faulted m'.shared.history n e) := by
  intro m m'
  have soFar : HandsOff peer m.shared.history := hands.of_prefix (m.prefix_after more)
  have within : ∀ script ∈ scripts, script.Within fun _ => True :=
    fun script _ => Script.within_of_forall (fun _ => trivial) script
  have tracked : m.Tracked (errands (fun _ => True) S peer) (Guarded peer) :=
    (Machine.tracked_start (follows_errands _ S peer) within
      (guarded_start peer device entropy)).after (invariant_guarded S peer) turns soFar
  refine ⟨?_, fun kept identity => ?_, fun sound n e => ?_⟩
  · obtain ⟨-, jobs, -, guarded, -⟩ := tracked.after (invariant_guarded S peer) more hands
    exact guarded.faithful
  · have begun : m.Tracked (errands (fun _ => True) S peer)
        (Pinned peer kept m.shared.history.length) :=
      tracked.imp fun guarded => ⟨guarded, identity, Nat.le_refl _, by simp⟩
    obtain ⟨-, jobs, -, pinned, -⟩ :=
      begun.after (invariant_pinned S peer kept _) more hands
    exact ⟨pinned.identity, pinned.away⟩
  · have start : (Machine.start S device entropy scripts).shared.Faultless :=
      fun _ hx => absurd hx List.not_mem_nil
    have before : m.shared.Faultless :=
      Machine.faultless_after start fun turn ht => sound turn (List.mem_append_left _ ht)
    exact (Machine.faultless_after before fun turn ht =>
      sound turn (List.mem_append_right _ ht)).not_faulted

end

/-! ### Threads to compute with -/

namespace Toy

/-- Start a session with another identity, and then read a message that comes with it. -/
def impostor : Script :=
  .attempt (.session alice (.start (bundle none)))
    (.attempt (.session alice (.decryptPreKey
      (rewrap second none second.baseKey (keyPair 1).publicKey))) (.stop (.ok ())))

/-- One thread reads the first message, with a callback of the impostor; the other one is the impostor
again. -/
def visitors : List Script :=
  [.perform (.session alice (.decryptPreKey first)) (fun _ => impostor) fun _ => .stop (.ok ()),
    impostor]

/-- The identity that comes with the first message is kept, and nothing else has been stored yet. -/
def afterGreeting : Machine :=
  (Machine.start suite { store := bob.store } bob.entropy visitors).after (.replicate 9 (0, none))

/-- What the threads have come to, each in turn from then on. -/
def afterVisitors : Machine :=
  afterGreeting.after ((List.range 20).flatMap fun _ => [(0, none), (1, none)])

/-- The errors that jobs have left with. -/
def errors (history : List Entry) : List Error :=
  history.filterMap fun x => match x.event with
    | .left (.error e) => some e
    | _ => none

end Toy

/-- The impostor is refused in the callback, and found out in the other thread. -/
theorem pinned_for_good_visitors :
    let history := Toy.afterVisitors.shared.history
    Toy.errors history = [.reentrantUpdate (.session Toy.alice), .reentrantUpdate (.session Toy.alice),
      .untrustedIdentity Toy.alice.name (Toy.keyPair 1).publicKey,
      .untrustedIdentity Toy.alice.name (Toy.keyPair 1).publicKey] ∧
    Toy.afterVisitors.shared.device.store.identities[Toy.alice]? = some (Toy.keyPair 4).publicKey ∧
    (∀ x ∈ history.drop Toy.afterGreeting.shared.history.length, ∀ other,
      x.presented? Toy.alice = some other → other ≠ (Toy.keyPair 4).publicKey →
        x.TurnedAway Toy.alice other history) ∧
    ∀ n e, ¬Faulted history n e := by
  intro history
  have hands : HandsOff Toy.alice history := by decide +kernel
  have kept : Toy.afterGreeting.shared.device.store.identities[Toy.alice]?
      = some (Toy.keyPair 4).publicKey := by decide +kernel
  refine ⟨by decide +kernel, ?_⟩
  simp only [history, Toy.afterVisitors, Toy.afterGreeting] at hands kept ⊢
  obtain ⟨-, pinned, sound⟩ := pinned_for_good hands
  exact ⟨(pinned _ kept).1, (pinned _ kept).2, sound (by decide)⟩

end DoubleRatchet
