/-
DoubleRatchet/Proofs/Guards.lean

Locks and the guards of them.

A thread that is granted a lock has a guard of it until the guard is dropped.  Any number
of threads ask for any locks, and guards are dropped in any order:

    acquire 1 write   acquire 1 read   acquire 2 write   drop 0   drop 1   acquire 2 write
    ── guard 0 ───────────────────────────────────────────┤
                      ── guard 1 ──────────────────────────────────┤
                                       waits                                ── guard 2 ──

The locks know no guards, only an owner and a number for each lock that is held.  What
they know agrees with the guards (`Registry.Agrees`), and every step keeps it so: the
guards of one lock are of one thread, which is the owner, and the number is how many there
are.  So a thread that waits for a lock waits for guards of another thread, and all of
those are dropped, and the lock is free, before it is granted (`guards_agree`).
-/
import DoubleRatchet.Locks

namespace DoubleRatchet

/-! ### Guards -/

/-- A guard of a lock. -/
structure Guard where
  number : Nat
  key : LockKey
  /-- The thread that was granted the lock. -/
  thread : Nat
  deriving DecidableEq

/-- The locks, and the guards that have not been dropped. -/
structure Registry where
  locks : Locks := {}
  /-- The last one that was made comes first. -/
  guards : List Guard := []
  /-- How many guards there have been. -/
  made : Nat := 0
  deriving DecidableEq

/-- What can happen to the locks. -/
inductive LockStep where
  /-- A thread asks for a lock, for the first time or again. -/
  | acquire (thread : Nat) (key : LockKey) (access : Access)
  /-- The guard with a number is dropped. -/
  | drop (number : Nat)
  deriving DecidableEq

namespace Registry

/-- The guards of one lock. -/
def guardsOf (r : Registry) (key : LockKey) : List Guard := r.guards.filter (·.key = key)

/-- A thread that is granted a lock gets a guard of it; a guard that is dropped releases its lock. -/
def step (r : Registry) : LockStep → Registry
  | .acquire thread key access =>
    match r.locks.acquire thread key access with
    | .granted locks => ⟨locks, ⟨r.made, key, thread⟩ :: r.guards, r.made + 1⟩
    | .refused _ | .wait => r
  | .drop number =>
    match r.guards.find? (·.number = number) with
    | some g => { r with locks := r.locks.release g.key, guards := r.guards.erase g }
    | none => r

/-- The registry after some steps. -/
def run (r : Registry) (steps : List LockStep) : Registry := steps.foldl step r

/-- The registry after some steps from the beginning. -/
def after (steps : List LockStep) : Registry := run {} steps

variable {r : Registry} {g : Guard} {key : LockKey} {thread : Nat} {access : Access} {locks : Locks}

theorem mem_guardsOf : g ∈ r.guardsOf key ↔ g ∈ r.guards ∧ g.key = key := by simp [guardsOf]

/-- The holder that a lock with these guards has. -/
def Due (guards : List Guard) (h : Holder) : Prop :=
  0 < h.depth ∧ h.depth = guards.length ∧ ∀ g ∈ guards, g.thread = h.owner

theorem not_due_nil {h : Holder} : ¬Due [] h := fun ⟨positive, count, _⟩ =>
  Nat.ne_of_gt positive count

theorem due_cons {guards : List Guard} {h : Holder} :
    Due (g :: guards) h ↔
      ⟨g.thread, guards.length + 1⟩ = h ∧ ∀ g' ∈ guards, g'.thread = g.thread := by
  simp only [Due, List.length_cons, List.forall_mem_cons]
  constructor
  · rintro ⟨-, count, own, same⟩
    exact ⟨by rw [own, ← count], fun g' mem => (same g' mem).trans own.symm⟩
  · rintro ⟨rfl, same⟩
    exact ⟨Nat.succ_pos _, rfl, rfl, same⟩

theorem due_of_perm {guards guards' : List Guard} {h : Holder} (perm : guards.Perm guards') :
    Due guards h ↔ Due guards' h := by
  simp only [Due, perm.length_eq, perm.mem_iff]

/-- The locks agree with the guards. -/
structure Agrees (r : Registry) : Prop where
  /-- The guards of one lock are of one thread. -/
  exclusive : ∀ g ∈ r.guards, ∀ g' ∈ r.guards, g.key = g'.key → g.thread = g'.thread
  /-- A lock is held if it has a guard, by the thread of its guards, and as often as it has some. -/
  held : ∀ key h, r.locks.holder? key = some h ↔ Due (r.guardsOf key) h

/-! ### What a thread that asks is told -/

theorem Agrees.start : Agrees {} where
  exclusive := nofun
  held key h := by simp [guardsOf, Due, Locks.holder?]; omega

/-- A lock with guards is held by their thread. -/
theorem Agrees.holder?_eq (hr : r.Agrees) (mem : g ∈ r.guardsOf key) :
    r.locks.holder? key = some ⟨g.thread, (r.guardsOf key).length⟩ := by
  rw [hr.held]
  refine ⟨List.length_pos_of_mem mem, rfl, fun g' mem' => ?_⟩
  rw [mem_guardsOf] at mem mem'
  exact hr.exclusive g' mem'.1 g mem.1 (mem'.2.trans mem.2.symm)

/-- A lock without guards is free. -/
theorem Agrees.free (hr : r.Agrees) (none_left : r.guardsOf key = []) :
    r.locks.holder? key = none := by
  refine Option.eq_none_iff_forall_not_mem.mpr fun h held => ?_
  obtain ⟨positive, count, -⟩ := (hr.held key h).mp held
  rw [none_left] at count
  exact absurd count (Nat.ne_of_gt positive)

/-- A free lock is granted to whoever asks. -/
theorem Agrees.acquire_free (hr : r.Agrees) (none_left : r.guardsOf key = []) :
    r.locks.acquire thread key access = .granted (r.locks.hold key ⟨thread, 1⟩) := by
  simp only [Locks.acquire, hr.free none_left]

/-- A lock with guards of another thread is waited for. -/
theorem Agrees.acquire_other (hr : r.Agrees) (mem : g ∈ r.guardsOf key) (other : g.thread ≠ thread) :
    r.locks.acquire thread key access = .wait := by
  simp only [Locks.acquire, hr.holder?_eq mem, if_pos other]

/-- A thread that has a guard is granted the lock to read. -/
theorem Agrees.acquire_read (hr : r.Agrees) (mem : g ∈ r.guardsOf key) :
    r.locks.acquire g.thread key .read =
      .granted (r.locks.hold key ⟨g.thread, (r.guardsOf key).length + 1⟩) := by
  simp only [Locks.acquire, hr.holder?_eq mem, ne_eq, not_true_eq_false, if_false]

/-- A thread that has a guard is refused the lock to write. -/
theorem Agrees.acquire_write (hr : r.Agrees) (mem : g ∈ r.guardsOf key) :
    r.locks.acquire g.thread key .write = .refused (.reentrantUpdate key.name) := by
  simp only [Locks.acquire, hr.holder?_eq mem, ne_eq, not_true_eq_false, if_false]

/-- A thread that is granted a lock has all guards of it, and holds it once more. -/
theorem Agrees.acquire_granted (hr : r.Agrees)
    (granted : r.locks.acquire thread key access = .granted locks) :
    (∀ g ∈ r.guardsOf key, g.thread = thread) ∧
      locks = r.locks.hold key ⟨thread, (r.guardsOf key).length + 1⟩ := by
  cases all : r.guardsOf key with
  | nil =>
    rw [hr.acquire_free all] at granted
    cases granted
    exact ⟨nofun, rfl⟩
  | cons g _ =>
    have mem : g ∈ r.guardsOf key := all ▸ List.mem_cons_self
    -- a guard of another thread would have to be waited for
    have own : ∀ g ∈ r.guardsOf key, g.thread = thread := fun g mem =>
      Decidable.byContradiction fun other => by
        rw [hr.acquire_other mem other] at granted
        cases granted
    obtain rfl := own g mem
    rw [← all]
    cases access with
    | read =>
      rw [hr.acquire_read mem] at granted
      cases granted
      exact ⟨own, rfl⟩
    | write =>
      rw [hr.acquire_write mem] at granted
      cases granted

/-- A thread waits for the guards of others. -/
theorem Agrees.wait_iff (hr : r.Agrees) :
    r.locks.acquire thread key access = .wait ↔ ∃ g ∈ r.guardsOf key, g.thread ≠ thread := by
  constructor
  · intro waits
    cases all : r.guardsOf key with
    | nil =>
      rw [hr.acquire_free all] at waits
      cases waits
    | cons g _ =>
      have mem : g ∈ r.guardsOf key := all ▸ List.mem_cons_self
      refine ⟨g, List.mem_cons_self, ?_⟩
      rintro rfl
      cases access with
      | read => rw [hr.acquire_read mem] at waits; cases waits
      | write => rw [hr.acquire_write mem] at waits; cases waits
  · rintro ⟨g, mem, other⟩
    exact hr.acquire_other mem other

/-- With no guards nothing is held. -/
theorem Agrees.held_eq_nil (hr : r.Agrees) (none_left : r.guards = []) : r.locks.held = [] := by
  refine List.eq_nil_iff_forall_not_mem.mpr fun ⟨key, h⟩ mem => ?_
  have free : r.locks.held.lookup key = none := hr.free (by rw [guardsOf, none_left]; rfl)
  have absent := List.lookup_eq_none_iff.mp free (key, h) mem
  simp at absent

/-! ### Steps -/

/-- A thread that has all guards of a lock gets one more. -/
theorem Agrees.grant (hr : r.Agrees) (own : ∀ g ∈ r.guardsOf key, g.thread = thread) (n made : Nat) :
    Agrees ⟨r.locks.hold key ⟨thread, (r.guardsOf key).length + 1⟩, ⟨n, key, thread⟩ :: r.guards,
      made⟩ where
  exclusive := by
    have among {g : Guard} (mem : g ∈ r.guards) (same : g.key = key) : g.thread = thread :=
      own g (mem_guardsOf.mpr ⟨mem, same⟩)
    refine List.forall_mem_cons.mpr ⟨List.forall_mem_cons.mpr ⟨fun _ => rfl, ?_⟩, fun g mem => ?_⟩
    · exact fun g mem same => (among mem same.symm).symm
    · exact List.forall_mem_cons.mpr ⟨among mem, hr.exclusive g mem⟩
  held other h := by
    show _ ↔ Due ((⟨n, key, thread⟩ :: r.guards).filter (·.key = other)) h
    rw [Locks.holder?_hold]
    by_cases same : key = other
    · subst same
      rw [if_pos rfl, List.filter_cons_of_pos (by simp), due_cons, Option.some.injEq]
      exact (and_iff_left own).symm
    · rw [if_neg (Ne.symm same), List.filter_cons_of_neg (by simpa using same)]
      exact hr.held other h

/-- A guard is dropped. -/
theorem Agrees.drop (hr : r.Agrees) (mem : g ∈ r.guards) :
    Agrees { r with locks := r.locks.release g.key, guards := r.guards.erase g } where
  exclusive g₁ mem₁ g₂ mem₂ :=
    hr.exclusive g₁ (List.mem_of_mem_erase mem₁) g₂ (List.mem_of_mem_erase mem₂)
  held key h := by
    have perm := (List.perm_cons_erase mem).filter (·.key = key)
    rw [Locks.holder?_release]
    by_cases same : g.key = key
    · subst same
      rw [List.filter_cons_of_pos (by simp)] at perm
      have before := hr.holder?_eq (mem_guardsOf.mpr ⟨mem, rfl⟩)
      have count := perm.length_eq
      have own {g' : Guard} (mem' : g' ∈ r.guards.erase g) (same : g'.key = g.key) :
          g'.thread = g.thread := hr.exclusive g' (List.mem_of_mem_erase mem') g mem same
      show _ ↔ Due ((r.guards.erase g).filter _) h
      rw [if_pos rfl, before, guardsOf, count]
      -- the last guard frees the lock, any other one takes one off
      cases rest : (r.guards.erase g).filter (·.key = g.key) with
      | nil => exact iff_of_false nofun not_due_nil
      | cons g' others =>
        have threads : ∀ g₁ ∈ g' :: others, g₁.thread = g.thread := by
          intro g₁ mem₁
          rw [← rest, List.mem_filter, decide_eq_true_iff] at mem₁
          exact own mem₁.1 mem₁.2
        obtain ⟨first, others_same⟩ := List.forall_mem_cons.mp threads
        rw [due_cons, and_iff_left fun g₁ mem₁ => (others_same g₁ mem₁).trans first.symm, first]
        simp
    · rw [List.filter_cons_of_neg (by simpa using same)] at perm
      rw [if_neg (Ne.symm same), hr.held]
      exact due_of_perm perm

/-- Every step keeps the locks and the guards in agreement. -/
theorem Agrees.step (hr : r.Agrees) (t : LockStep) : (r.step t).Agrees := by
  cases t with
  | acquire thread key access =>
    simp only [Registry.step]
    split
    · next locks granted =>
      obtain ⟨own, rfl⟩ := hr.acquire_granted granted
      exact hr.grant own _ _
    · exact hr
    · exact hr
  | drop number =>
    simp only [Registry.step]
    split
    · next g found => exact hr.drop (List.mem_of_find?_eq_some found)
    · exact hr

theorem Agrees.run (hr : r.Agrees) (steps : List LockStep) : (r.run steps).Agrees := by
  induction steps generalizing r with
  | nil => exact hr
  | cons t steps ih => exact ih (hr.step t)

/-- Whatever has happened, the locks agree with the guards. -/
theorem agrees_after (steps : List LockStep) : (after steps).Agrees := Agrees.start.run steps

/-! ### How long a guard lasts -/

/-- A guard lasts until it is dropped. -/
theorem mem_step_or {t : LockStep} (mem : g ∈ r.guards) :
    g ∈ (r.step t).guards ∨ t = .drop g.number := by
  cases t with
  | acquire thread key access =>
    left
    simp only [step]
    split
    · exact List.mem_cons_of_mem _ mem
    · exact mem
    · exact mem
  | drop number =>
    by_cases this_one : number = g.number
    · exact .inr (this_one ▸ rfl)
    · left
      simp only [step]
      split
      · next g' found =>
        have named : g'.number = number := by simpa using List.find?_some found
        refine (List.mem_erase_of_ne ?_).mpr mem
        rintro rfl
        exact this_one named.symm
      · exact mem

/-- A guard that is gone has been dropped. -/
theorem dropped_of_run {steps : List LockStep} (mem : g ∈ r.guards)
    (gone : g ∉ (r.run steps).guards) : .drop g.number ∈ steps := by
  induction steps generalizing r with
  | nil => exact absurd mem gone
  | cons t steps ih =>
    rcases mem_step_or (t := t) mem with still | rfl
    · exact List.mem_cons_of_mem _ (ih still gone)
    · exact List.mem_cons_self

/-- A lock does not pass from one thread to another in one step. -/
theorem Agrees.same_thread_step (hr : r.Agrees) {t : LockStep} {g' : Guard}
    (mem : g ∈ r.guardsOf key) (mem' : g' ∈ (r.step t).guardsOf key) : g'.thread = g.thread := by
  rw [mem_guardsOf] at mem mem'
  rcases mem_step_or (t := t) mem.1 with still | rfl
  · exact (hr.step t).exclusive g' mem'.1 g still (mem'.2.trans mem.2.symm)
  · -- a drop leaves no guard that was not there before
    have before : g' ∈ r.guards := by
      have mem' := mem'.1
      simp only [Registry.step] at mem'
      split at mem'
      · exact List.mem_of_mem_erase mem'
      · exact mem'
    exact hr.exclusive g' before g mem.1 (mem'.2.trans mem.2.symm)

/-- A lock passes from one thread to another only by way of being free. -/
theorem Agrees.free_between (hr : r.Agrees) {steps : List LockStep} (mem : g ∈ r.guardsOf key)
    (gone : ∀ g' ∈ (r.run steps).guardsOf key, g'.thread ≠ g.thread) :
    ∃ between, between <+: steps ∧ (r.run between).guardsOf key = [] := by
  induction steps generalizing r g with
  | nil => exact absurd rfl (gone g mem)
  | cons t steps ih =>
    -- after the step the lock is free, or it is the same thread's still
    cases all : (r.step t).guardsOf key with
    | nil => exact ⟨[t], List.prefix_append [t] steps, all⟩
    | cons g' others =>
      have mem' : g' ∈ (r.step t).guardsOf key := all ▸ List.mem_cons_self
      have same := hr.same_thread_step mem mem'
      obtain ⟨between, early, free⟩ := ih (hr.step t) mem' (by rwa [same])
      exact ⟨t :: between, List.cons_prefix_cons.mpr ⟨rfl, early⟩, free⟩

/-- The registry after more steps. -/
theorem after_append (steps more : List LockStep) : after (steps ++ more) = (after steps).run more :=
  List.foldl_append

end Registry

open Registry

/-- **Locks and their guards.** After any steps of any threads: the guards of one lock are of one
thread; a lock is held exactly if it has a guard, by the thread of its guards and as often as it has
some; a thread waits exactly for guards of others, and one that has a guard is granted the lock to
read and refused it to write, which changes nothing; and with no guard nothing is held.  A thread
that has had to wait for a lock is granted it only after every guard that was there has been dropped,
and the lock has been free. -/
theorem guards_agree (steps : List LockStep) :
    (∀ g ∈ (after steps).guards, ∀ g' ∈ (after steps).guards, g.key = g'.key → g.thread = g'.thread) ∧
    (∀ key h, (after steps).locks.holder? key = some h ↔
      0 < h.depth ∧ h.depth = ((after steps).guardsOf key).length ∧
        ∀ g ∈ (after steps).guardsOf key, g.thread = h.owner) ∧
    (∀ thread key access, (after steps).locks.acquire thread key access = .wait ↔
      ∃ g ∈ (after steps).guardsOf key, g.thread ≠ thread) ∧
    (∀ g ∈ (after steps).guards,
      (∃ g', (after (steps ++ [.acquire g.thread g.key .read])).guards = g' :: (after steps).guards ∧
        g'.key = g.key ∧ g'.thread = g.thread) ∧
      (after steps).locks.acquire g.thread g.key .write = .refused (.reentrantUpdate g.key.name) ∧
      after (steps ++ [.acquire g.thread g.key .write]) = after steps) ∧
    ((after steps).guards = [] → (after steps).locks.held = []) ∧
    ∀ thread key access access' more locks,
      (after steps).locks.acquire thread key access = .wait →
      (after (steps ++ more)).locks.acquire thread key access' = .granted locks →
      (∀ g ∈ (after steps).guardsOf key, .drop g.number ∈ more) ∧
        ∃ between, between <+: more ∧ (after (steps ++ between)).guardsOf key = [] := by
  have now := agrees_after steps
  refine ⟨now.exclusive, now.held, fun _ _ _ => now.wait_iff, fun g mem => ?_, now.held_eq_nil, ?_⟩
  · have own : g ∈ (after steps).guardsOf g.key := mem_guardsOf.mpr ⟨mem, rfl⟩
    have read := now.acquire_read own
    have write := now.acquire_write own
    refine ⟨⟨⟨(after steps).made, g.key, g.thread⟩, ?_, rfl, rfl⟩, write, ?_⟩
    · simp only [after_append, run, List.foldl_cons, List.foldl_nil, step, read]
    · simp only [after_append, run, List.foldl_cons, List.foldl_nil, step, write]
  · intro thread key access access' more locks waits granted
    obtain ⟨g, mem, other⟩ := now.wait_iff.mp waits
    have own := ((agrees_after (steps ++ more)).acquire_granted granted).1
    simp only [after_append] at own ⊢
    refine ⟨fun g' mem' => ?_, now.free_between mem fun g' mem' => (own g' mem').symm ▸ other.symm⟩
    have mem_all := mem_guardsOf.mp mem
    have mem_all' := mem_guardsOf.mp mem'
    have same := now.exclusive g' mem_all'.1 g mem_all.1 (mem_all'.2.trans mem_all.2.symm)
    refine dropped_of_run mem_all'.1 fun still => other ?_
    rw [← same]
    exact own g' (mem_guardsOf.mpr ⟨still, mem_all'.2⟩)

/-- Two guards of a thread that are dropped in the order in which they were made, while another
thread waits. -/
theorem guards_agree_out_of_order :
    let key : LockKey := ⟨0, .session ⟨"bob", 1⟩⟩
    let steps : List LockStep := [.acquire 1 key .write, .acquire 1 key .read]
    let more : List LockStep := [.drop 0, .acquire 2 key .write, .drop 1]
    (after steps).locks.acquire 2 key .write = .wait ∧
      (after (steps ++ more)).locks.acquire 2 key .write = .granted ⟨[(key, ⟨2, 1⟩)]⟩ ∧
      (∀ g ∈ (after steps).guardsOf key, .drop g.number ∈ more) ∧
      (∃ between, between <+: more ∧ (after (steps ++ between)).guardsOf key = []) ∧
      (after (steps ++ more)).locks.held = [] := by
  intro key steps more
  have waits : (after steps).locks.acquire 2 key .write = .wait := rfl
  have granted : (after (steps ++ more)).locks.acquire 2 key .write =
      .granted ⟨[(key, ⟨2, 1⟩)]⟩ := rfl
  obtain ⟨dropped, free⟩ := (guards_agree steps).2.2.2.2.2 2 key .write .write more _ waits granted
  exact ⟨waits, granted, dropped, free, (guards_agree (steps ++ more)).2.2.2.2.1 rfl⟩

end DoubleRatchet
