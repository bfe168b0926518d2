/-
DoubleRatchet/Proofs/Alone.lean

An operation of one device, followed from its first request to its last.

In a quiet world, one where nothing goes wrong and nobody holds a lock, an operation
works on one store and on the random bytes to come.  `Action.alone` runs it on just
these two, its `Site`, and `perform_alone` says that nothing is lost: an operation of a
member of a quiet world has the outcome that it has alone, and it changes nothing of
the world but the site of the member and the journal.

What an operation does alone is taken apart step by step: `alone_bind` for the steps,
and one law for each thing that a step can be.
-/
import Mathlib.Data.List.Basic
import DoubleRatchet.World

namespace DoubleRatchet

/-! ### Sites -/

/-- What an operation of a device works on: what the device keeps, and the random bytes to come. -/
structure Site where
  store : Store
  entropy : Entropy

/-- A device by itself: every lock is free, and `app` is what the application makes of a
plaintext. -/
def Site.around (app : Bytes → Except Error Unit) : Surroundings (StateM Site) where
  answer
    | .store q => fun s => ((s.store.answer q).1, { s with store := (s.store.answer q).2 })
    | .deliver plain => fun s => (app plain, s)
    | .acquire .. | .release _ => fun s => (.ok (), s)
  draw x := fun s => ((x.run s.entropy).1, { s with entropy := (x.run s.entropy).2 })

section
variable {α β : Type} (app : Bytes → Except Error Unit)

/-- Run an operation on a site. -/
def Action.alone (a : Action α) (s : Site) : Except Error α × Site :=
  (Program.run (Site.around app) a.run).run s

/-- Mapping the result of a program maps the result of its run. -/
theorem Program.run_map (f : α → β) (x : Program α) (s : Site) :
    ((f <$> x).run (Site.around app)).run s
      = (f ((x.run (Site.around app)).run s).1, ((x.run (Site.around app)).run s).2) := by
  rw [← bind_pure_comp, Program.run_bind, StateT.run_bind]
  rfl

namespace Action

/-! ### Step by step -/

theorem alone_bind (a : Action α) (f : α → Action β) (s : Site) :
    (a >>= f).alone app s = match a.alone app s with
      | (.ok x, s) => (f x).alone app s
      | (.error e, s) => (.error e, s) := by
  unfold alone
  rw [ExceptT.run_bind, Program.run_bind, StateT.run_bind]
  rcases (Program.run (Site.around app) a.run).run s with ⟨_ | _, _⟩ <;> rfl

@[simp] theorem alone_store (q : StoreRequest) (s : Site) :
    (store q).alone app s = ((s.store.answer q).1, { s with store := (s.store.answer q).2 }) := rfl

@[simp] theorem alone_random (x : Draw α) (s : Site) :
    (random x).alone app s
      = ((x.run s.entropy).1, { s with entropy := (x.run s.entropy).2 }) := rfl

@[simp] theorem alone_deliver (plain : Bytes) (s : Site) :
    (deliver plain).alone app s = (app plain, s) := rfl

@[simp] theorem alone_liftExcept (x : Except Error α) (s : Site) :
    (liftM x : Action α).alone app s = (x, s) := by
  cases x <;> rfl

theorem alone_lift_run (a : Action α) (s : Site) :
    Action.alone app (ExceptT.lift a.run) s = (.ok (a.alone app s).1, (a.alone app s).2) := by
  unfold alone
  rw [ExceptT.run_lift, Program.run_map]

/-- A lock makes no difference to an operation that nobody is beside. -/
theorem alone_locked (lock : LockName) (access : Access) (a : Action α) (s : Site) :
    (locked lock access a).alone app s = a.alone app s := by
  unfold locked
  rw [alone_bind]
  show Action.alone app (ExceptT.lift a.run >>= fun outcome => _) s = _
  rw [alone_bind, alone_lift_run]
  show Action.alone app (ask (.release lock) >>= fun _ => _) _ = _
  rw [alone_bind]
  exact alone_liftExcept app (a.alone app s).1 (a.alone app s).2

end Action
end

/-! ### Programs that touch no lock -/

/-- The program asks for nothing but the store and the application. -/
def Program.Unlocked {α : Type} : Program α → Prop
  | done _ => True
  | ask (.store _) next | ask (.deliver _) next => ∀ answer, (next answer).Unlocked
  | ask (.acquire ..) _ | ask (.release _) _ => False
  | draw _ next => ∀ answer, (next answer).Unlocked

theorem Program.Unlocked.bind {α β : Type} {x : Program α} {f : α → Program β} (hx : x.Unlocked)
    (hf : ∀ a, (f a).Unlocked) : (x >>= f).Unlocked := by
  show (Program.bind x f).Unlocked
  induction x with
  | done a => exact hf a
  | ask r next ih =>
    cases r with
    | store q => exact fun answer => ih answer (hx answer)
    | deliver plain => exact fun answer => ih answer (hx answer)
    | acquire lock access => exact hx
    | release lock => exact hx
  | draw x next ih => exact fun answer => ih answer (hx answer)

/-- The operation asks for nothing but the store and the application. -/
def Action.Unlocked {α : Type} (a : Action α) : Prop := Program.Unlocked a.run

namespace Action.Unlocked

variable {α β : Type}

theorem pure (x : α) : Action.Unlocked (Pure.pure x) := trivial

theorem throw (e : Error) : Action.Unlocked (MonadExcept.throw e : Action α) := trivial

theorem throw_bind (e : Error) (f : α → Action β) :
    Action.Unlocked ((MonadExcept.throw e : Action α) >>= f) := trivial

theorem store (q : StoreRequest) : (Action.store q).Unlocked := fun _ => trivial

theorem deliver (plain : Bytes) : (Action.deliver plain).Unlocked := fun _ => trivial

theorem random (x : Draw α) : (Action.random x).Unlocked := fun _ => trivial

theorem liftExcept (x : Except Error α) : Action.Unlocked (liftM x) := by cases x <;> trivial

theorem lift {x : Program α} (h : x.Unlocked) : Action.Unlocked (ExceptT.lift x) := by
  show (ExceptT.run (ExceptT.lift x)).Unlocked
  rw [ExceptT.run_lift, ← bind_pure_comp]
  exact h.bind fun _ => trivial

theorem bind {a : Action α} {f : α → Action β} (ha : a.Unlocked) (hf : ∀ x, (f x).Unlocked) :
    (a >>= f).Unlocked := by
  show (ExceptT.run (a >>= f)).Unlocked
  rw [ExceptT.run_bind]
  refine Program.Unlocked.bind ha fun x => ?_
  cases x with
  | ok x => exact hf x
  | error e => trivial

end Action.Unlocked

/-! ### In a world -/

theorem set_eq_modify {α : Type} {as : List α} {i : Nat} {a : α} (f : α → α) (h : as[i]? = some a) :
    as.set i (f a) = as.modify i f := by
  rw [List.modify_eq_set_getElem?, h]
  rfl

namespace World

/-- What a member of a world works on. -/
def site? (w : World) (i : Nat) : Option Site :=
  w.members[i]?.map fun m => ⟨m.device.store, w.entropy⟩

/-- The world with another site for a member. -/
def putSite (w : World) (i : Nat) (s : Site) : World :=
  { w with
    members := w.members.modify i fun m => { m with device := { m.device with store := s.store } }
    entropy := s.entropy }

/-- Nothing goes wrong, and nobody holds a lock. -/
structure Quiet (w : World) : Prop where
  faultless : w.fault = none
  unlocked : ∀ m ∈ w.members, m.device.locks.held = []

variable {w : World} {i j : Nat} {s t : Site}

theorem site?_eq_some (h : w.site? i = some s) :
    ∃ m, w.members[i]? = some m ∧ s = ⟨m.device.store, w.entropy⟩ := by
  obtain ⟨m, hm, rfl⟩ := Option.map_eq_some_iff.mp h
  exact ⟨m, hm, rfl⟩

theorem site?_putSite (h : w.site? i = some s) : (w.putSite i t).site? i = some t := by
  obtain ⟨m, hm, -⟩ := site?_eq_some h
  simp [site?, putSite, hm]

/-- Another member keeps its store, and sees the random bytes that are left. -/
theorem site?_putSite_of_ne (h : j ≠ i) :
    (w.putSite i t).site? j = (w.site? j).map fun s => { s with entropy := t.entropy } := by
  simp [site?, putSite, List.getElem?_modify_ne _ _ (Ne.symm h), Function.comp_def]

theorem putSite_self (h : w.site? i = some s) : w.putSite i s = w := by
  obtain ⟨m, hm, rfl⟩ := site?_eq_some h
  have members : w.members.modify i (fun n =>
      { n with device := { n.device with store := m.device.store } }) = w.members := by
    refine List.ext_getElem? fun k => ?_
    rw [List.getElem?_modify]
    split
    · subst k; simp [hm]
    · simp
  cases w
  simp_all [putSite]

theorem unlocked_putSite (h : ∀ m ∈ w.members, m.device.locks.held = []) :
    ∀ m ∈ (w.putSite i s).members, m.device.locks.held = [] := by
  intro m hm
  obtain ⟨k, hk⟩ := List.mem_iff_getElem?.mp hm
  simp only [putSite, List.getElem?_modify] at hk
  obtain ⟨n, hn, rfl⟩ := Option.map_eq_some_iff.mp hk
  have := h n (List.mem_of_getElem? hn)
  split <;> exact this

/-! ### Requests of a member -/

/-- The second world is the first one with another site for a member.  Nobody looks at the
journal. -/
def Changed (w : World) (i : Nat) (s : Site) (w' : World) : Prop :=
  w' = { w.putSite i s with journal := w'.journal }

namespace Changed

variable {w₁ w₂ w₃ : World}

theorem refl (h : w₁.site? i = some s) : Changed w₁ i s w₁ := by
  unfold Changed
  rw [putSite_self h]

theorem trans (h₁ : Changed w₁ i s w₂) (h₂ : Changed w₂ i t w₃) : Changed w₁ i t w₃ := by
  unfold Changed at *
  rw [h₂, h₁]
  simp [putSite, List.modify_modify_eq, Function.comp_def]

theorem faultless (h : Changed w₁ i s w₂) (hf : w₁.fault = none) : w₂.fault = none := by
  rw [h]
  exact hf

theorem site? (h : Changed w₁ i t w₂) (hs : w₁.site? i = some s) : w₂.site? i = some t := by
  rw [h]
  exact site?_putSite hs

theorem site?_of_ne (h : Changed w₁ i t w₂) (hj : j ≠ i) :
    w₂.site? j = (w₁.site? j).map fun s => { s with entropy := t.entropy } := by
  rw [h]
  exact site?_putSite_of_ne hj

theorem quiet (h : Changed w₁ i t w₂) (hq : w₁.Quiet) : w₂.Quiet where
  faultless := h.faultless hq.faultless
  unlocked := by
    rw [h]
    exact unlocked_putSite hq.unlocked

end Changed

/-- A request to the store of a member is met by the store. -/
theorem answer_store (hf : w.fault = none) (h : w.site? i = some s) (q : StoreRequest) :
    (w.answer i (.store q)).1 = (s.store.answer q).1 ∧
      Changed w i { s with store := (s.store.answer q).2 } (w.answer i (.store q)).2 := by
  obtain ⟨m, hm, rfl⟩ := site?_eq_some h
  have faulty : w.faultyAnswer? i q = none := by simp [faultyAnswer?, hf]
  have members := set_eq_modify (fun n => { n with device := { n.device with
    store := (m.device.store.answer q).2 } }) hm
  simp only [answer, hm, faulty, answerOf, Device.answer, note, Changed, putSite, true_and]
  split <;> rw [← members]

/-- Random bytes are drawn from those of the world. -/
theorem changed_draw {α : Type} (h : w.site? i = some s) (x : Draw α) :
    Changed w i { s with entropy := (x.run s.entropy).2 } (w.draw x).2 := by
  obtain ⟨m, hm, rfl⟩ := site?_eq_some h
  have kept := congrArg World.members (putSite_self h)
  show _ = { w with members := (w.putSite i ⟨m.device.store, w.entropy⟩).members, entropy := _ }
  rw [kept]
  rfl

end World

section
variable {α : Type} {w : World} {i : Nat} {s : Site} (app : Bytes → Except Error Unit)

/-- A program that touches no lock has the run in a world that it has alone. -/
theorem Program.run_around {x : Program α} (hx : x.Unlocked) (hf : w.fault = none)
    (h : w.site? i = some s) :
    let alone := (x.run (Site.around app)).run s
    let run := (x.run (World.around i fun plain => (pure (app plain) : StateM World _))).run w
    run.1 = alone.1 ∧ w.Changed i alone.2 run.2 := by
  induction x generalizing w s with
  | done a => exact ⟨rfl, .refl h⟩
  | draw x next ih =>
    have changed := World.changed_draw h x
    obtain ⟨m, hm, rfl⟩ := World.site?_eq_some h
    obtain ⟨outcome, rest⟩ := ih (x.run w.entropy).1 (hx _) (changed.faultless hf) (changed.site? h)
    exact ⟨outcome, changed.trans rest⟩
  | ask r next ih =>
    cases r with
    | store q =>
      obtain ⟨reply, changed⟩ := World.answer_store hf h q
      obtain ⟨outcome, rest⟩ := ih (w.answer i (.store q)).1 (hx _) (changed.faultless hf)
        (changed.site? h)
      rw [reply] at outcome rest
      let around := World.around i fun plain => (pure (app plain) : StateM World _)
      show (((next (w.answer i (.store q)).1).run around).run (w.answer i (.store q)).2).1 = _ ∧
        w.Changed i _
          (((next (w.answer i (.store q)).1).run around).run (w.answer i (.store q)).2).2
      rw [reply]
      exact ⟨outcome, changed.trans rest⟩
    | deliver plain => exact ih (app plain) (hx _) hf h
    -- it asks for no lock
    | acquire lock access => exact hx.elim
    | release lock => exact hx.elim

/-- A free lock that has been taken and released is free. -/
theorem Locks.release_hold (key : LockKey) : (Locks.hold {} key ⟨0, 1⟩).release key = {} := by
  simp [Locks.release, Locks.hold, Locks.holder?, Locks.free]

/-- A locked operation as a program. -/
theorem Action.run_locked (lock : LockName) (access : Access) (a : Action α) :
    (Action.locked lock access a).run = .ask (.acquire lock access) fun
      | .ok _ => a.run >>= fun outcome => .ask (.release lock) fun
        | .ok _ => .done outcome
        | .error e => .done (.error e)
      | .error e => .done (.error e) := by
  unfold Action.locked
  show Program.ask _ _ = _
  congr 1
  funext acquired
  cases acquired with
  | error e => rfl
  | ok _ =>
    show ExceptT.run (ExceptT.lift a.run >>= fun outcome => _) = _
    rw [ExceptT.run_bind, ExceptT.run_lift, bind_map_left]
    refine bind_congr fun outcome => ?_
    show Program.ask _ _ = _
    congr 1
    funext released
    cases released <;> cases outcome <;> rfl

/-- A locked operation takes its lock, does what it has to do, and releases the lock. -/
theorem Action.run_perform_locked {lock : LockName} {access : Access} {a : Action α}
    {around : Bytes → StateM World (Except Error Unit)} {w₁ w₂ w₃ : World}
    {outcome : Except Error α}
    (acquired : w.answer i (.acquire lock access) = (.ok (), w₁))
    (done : (a.run.run (World.around i around)).run w₁ = (outcome, w₂))
    (released : w₂.answer i (.release lock) = (.ok (), w₃)) :
    ((Action.locked lock access a).perform i around).run w = (outcome, w₃) := by
  have start : ((World.around i around).answer (.acquire lock access)).run w = (.ok (), w₁) :=
    acquired
  have stop : ((World.around i around).answer (.release lock)).run w₂ = (.ok (), w₃) := released
  unfold Action.perform
  rw [Action.run_locked, Program.run, StateT.run_bind, start]
  show StateT.run (Program.run _ (a.run >>= fun outcome => _)) w₁ = _
  rw [Program.run_bind, StateT.run_bind, done]
  show StateT.run (Program.run _ (.ask (.release lock) _)) w₂ = _
  rw [Program.run, StateT.run_bind, stop]
  rfl

/-- The world in which a member that held no lock holds one. -/
def World.locked (w : World) (i : Nat) (m : Member) (lock : LockName) : World :=
  { w with members := w.members.set i { m with device := { m.device with
      locks := Locks.hold {} ⟨m.device.number, lock⟩ ⟨0, 1⟩ } } }

theorem World.acquire_of_free {m : Member} (hm : w.members[i]? = some m)
    (free : m.device.locks = {}) (lock : LockName) (access : Access) :
    w.answer i (.acquire lock access) = (.ok (), w.locked i m lock) := by
  simp [World.answer, World.answerOf, Device.answer, World.locked, hm, free, Locks.acquire,
    Locks.holder?]

theorem World.release_of_locked {m : Member} {w₂ : World} (hm : w.members[i]? = some m)
    (free : m.device.locks = {}) {lock : LockName} (changed : (w.locked i m lock).Changed i s w₂) :
    ∃ w₃, w₂.answer i (.release lock) = (.ok (), w₃) ∧ w.Changed i s w₃ := by
  have hi := (List.getElem?_eq_some_iff.mp hm).1
  -- the member as it is once the lock is free again
  let back : Member := { m with device := { m.device with store := s.store } }
  have hm₂ : w₂.members[i]? = some { back with device := { back.device with
      locks := Locks.hold {} ⟨m.device.number, lock⟩ ⟨0, 1⟩ } } := by
    rw [changed]
    simp [World.putSite, World.locked, hi, back]
  have kept : w₂.members.set i back = (w.putSite i s).members := by
    rw [changed]
    refine List.ext_getElem? fun k => ?_
    simp only [World.putSite, World.locked, List.getElem?_set, List.getElem?_modify]
    by_cases hk : i = k
    · subst k
      simp only [hm, back, ↓reduceIte]
      simp [hi]
    · simp [hk]
  refine ⟨{ w₂ with members := w₂.members.set i back }, ?_, ?_⟩
  · simp [World.answer, World.answerOf, Device.answer, hm₂, Locks.release_hold, back, free]
  · unfold World.Changed
    rw [kept]
    have fields := changed
    unfold World.Changed World.putSite World.locked at fields
    rw [fields]
    rfl

/-- The operation takes one lock, and nothing but the lock is between it and the store. -/
def Action.Sequential (a : Action α) : Prop :=
  ∃ lock access body, a = Action.locked lock access body ∧ body.Unlocked

/-- In a quiet world an operation has the outcome that it has alone, and nothing changes but the
site of the member and the journal. -/
theorem perform_alone {a : Action α} (ha : a.Sequential) (hw : w.Quiet) (h : w.site? i = some s) :
    let run := (a.perform i fun plain => (pure (app plain) : StateM World _)).run w
    run.1 = (a.alone app s).1 ∧ w.Changed i (a.alone app s).2 run.2 := by
  obtain ⟨lock, access, body, rfl, unlocked⟩ := ha
  obtain ⟨m, hm, rfl⟩ := World.site?_eq_some h
  have free : m.device.locks = {} := by
    show m.device.locks = ⟨[]⟩
    rw [← hw.unlocked m (List.mem_of_getElem? hm)]
  -- the body runs while the lock is held, which the site does not show
  have hi := (List.getElem?_eq_some_iff.mp hm).1
  have h₁ : (w.locked i m lock).site? i = some ⟨m.device.store, w.entropy⟩ := by
    simp [World.site?, World.locked, hi]
  have hf : (w.locked i m lock).fault = none := hw.faultless
  obtain ⟨outcome, changed⟩ := Program.run_around app unlocked hf h₁
  obtain ⟨w₃, released, back⟩ := World.release_of_locked hm free changed
  rw [Action.run_perform_locked (World.acquire_of_free hm free lock access) (Prod.ext outcome rfl)
    released, Action.alone_locked]
  exact ⟨rfl, back⟩
end

end DoubleRatchet
