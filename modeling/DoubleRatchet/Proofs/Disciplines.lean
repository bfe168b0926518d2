/-
DoubleRatchet/Proofs/Disciplines.lean

What holds in every interleaving, proved for one job at a time.

A `Discipline` follows a job by a state that only its own steps change: it says what the
job may ask for in a state, which answers it can rely on, and how it may leave.  That an
operation `Follows` a discipline is a property of its program alone, whatever runs
beside it.

An `Invariant` of a discipline is a property of what the threads share and of the states
of all jobs under way, which every step that the discipline allows keeps, and which
vouches for the answers that it promises.  Such a property holds after any turns, of any
threads that perform operations that follow the discipline (`Invariant.after`).
-/
import Mathlib.Logic.Function.Basic
import DoubleRatchet.Proofs.Threads

namespace DoubleRatchet

open Function (update)

/-- How a job has to go on, and what it can rely on. -/
structure Discipline (τ : Type) where
  /-- The state of a job that has entered. -/
  init : τ
  /-- Other threads may have their turns. -/
  Rests : τ → Prop
  Asks : Operation → τ → Request → Prop
  Expects : Operation → τ → (r : Request) → Except Error r.Reply → Prop
  Leaves : Operation → τ → Except Error Outcome → Prop
  /-- What the application may ask for itself. -/
  Free : StoreRequest → Prop
  after : Operation → τ → Event → τ

variable {τ : Type} {D : Discipline τ} {op : Operation} {α β : Type}

/-! ### Programs -/

/-- All paths of a program, which has drawn `number` times before, are as the discipline wants them;
`post` is what holds at their ends. -/
def Program.Obeys (D : Discipline τ) (op : Operation) (post : α → Nat → τ → Prop)
    (number : Nat) : Program α → τ → Prop
  | done a, t => post a number t
  | ask (.deliver _) next, t => D.Rests t ∧ ∀ verdict, (next verdict).Obeys D op post number t
  | ask r next, t => D.Rests t ∧ D.Asks op t r ∧ ∀ reply, D.Expects op t r reply →
    (next reply).Obeys D op post number (D.after op t (.asked r reply))
  | draw x next, t => D.Rests t ∧ ∀ e, (next (x.run e).1).Obeys D op post (number + 1)
    (D.after op t (.drew number e (x.run e).2))

/-- The operation follows the discipline from its beginning to its end. -/
def Discipline.Follows (D : Discipline τ) (S : Suite) (op : Operation) : Prop :=
  (op.action S).run.Obeys D op (fun outcome _ t => D.Leaves op t outcome) 0 D.init

theorem Program.Obeys.bind {post : β → Nat → τ → Prop} {x : Program α} {f : α → Program β} {n : Nat}
    {t : τ} (h : x.Obeys D op (fun a n t => (f a).Obeys D op post n t) n t) :
    (x >>= f).Obeys D op post n t := by
  show (Program.bind x f).Obeys D op post n t
  induction x generalizing n t with
  | done a => exact h
  | ask r next ih =>
    cases r with
    | deliver plain => exact ⟨h.1, fun verdict => ih verdict (h.2 verdict)⟩
    | store q => exact ⟨h.1, h.2.1, fun reply he => ih reply (h.2.2 reply he)⟩
    | acquire lock access => exact ⟨h.1, h.2.1, fun reply he => ih reply (h.2.2 reply he)⟩
    | release lock => exact ⟨h.1, h.2.1, fun reply he => ih reply (h.2.2 reply he)⟩
  | draw x next ih => exact ⟨h.1, fun e => ih _ (h.2 e)⟩

theorem Program.Obeys.mono {post post' : α → Nat → τ → Prop} {x : Program α} {n : Nat} {t : τ}
    (h : x.Obeys D op post n t) (imp : ∀ a n t, post a n t → post' a n t) :
    x.Obeys D op post' n t := by
  induction x generalizing n t with
  | done a => exact imp _ _ _ h
  | ask r next ih =>
    cases r with
    | deliver plain => exact ⟨h.1, fun verdict => ih verdict (h.2 verdict)⟩
    | store q => exact ⟨h.1, h.2.1, fun reply he => ih reply (h.2.2 reply he)⟩
    | acquire lock access => exact ⟨h.1, h.2.1, fun reply he => ih reply (h.2.2 reply he)⟩
    | release lock => exact ⟨h.1, h.2.1, fun reply he => ih reply (h.2.2 reply he)⟩
  | draw x next ih => exact ⟨h.1, fun e => ih _ (h.2 e)⟩

/-- All paths of an operation are as the discipline wants them. -/
def Action.Obeys (D : Discipline τ) (op : Operation) (post : Except Error α → Nat → τ → Prop)
    (number : Nat) (a : Action α) (t : τ) : Prop :=
  Program.Obeys D op post number a.run t

namespace Action.Obeys

variable {post : Except Error β → Nat → τ → Prop} {n : Nat} {t : τ}

theorem pure {x : β} (h : post (.ok x) n t) : Action.Obeys D op post n (Pure.pure x) t := h

theorem throw {e : Error} (h : post (.error e) n t) :
    Action.Obeys D op post n (MonadExcept.throw e : Action β) t := h

theorem liftExcept {x : Except Error β} (h : post x n t) :
    Action.Obeys D op post n (liftM x : Action β) t := by
  cases x <;> exact h

/-- First one thing, and if it does not fail, another. -/
theorem bind {a : Action α} {f : α → Action β}
    (h : a.Obeys D op (fun
      | .ok x => fun n t => (f x).Obeys D op post n t
      | .error e => post (.error e)) n t) : (a >>= f).Obeys D op post n t := by
  show Program.Obeys D op post n (ExceptT.run (a >>= f)) t
  rw [ExceptT.run_bind]
  refine Program.Obeys.bind (Program.Obeys.mono h ?_)
  rintro (e | x) n t hx
  · exact hx
  · exact hx

theorem store {q : StoreRequest} {post : Except Error q.Reply → Nat → τ → Prop} (rests : D.Rests t)
    (asks : D.Asks op t (.store q))
    (h : ∀ reply, D.Expects op t (.store q) reply →
      post reply n (D.after op t (.asked (.store q) reply))) :
    (Action.store q).Obeys D op post n t := ⟨rests, asks, h⟩

theorem random {x : Draw β} (rests : D.Rests t)
    (h : ∀ e, post (x.run e).1 (n + 1) (D.after op t (.drew n e (x.run e).2))) :
    (Action.random x).Obeys D op post n t := ⟨rests, h⟩

theorem deliver {plain : Bytes} {post : Except Error Unit → Nat → τ → Prop} (rests : D.Rests t)
    (h : ∀ verdict, post verdict n t) : (Action.deliver plain).Obeys D op post n t := ⟨rests, h⟩

theorem lift {x : Program β} (h : x.Obeys D op (fun a => post (.ok a)) n t) :
    Action.Obeys D op post n (ExceptT.lift x) t := by
  show Program.Obeys D op post n (ExceptT.run (ExceptT.lift x)) t
  rw [ExceptT.run_lift, ← bind_pure_comp]
  exact Program.Obeys.bind h

theorem map {f : α → β} {a : Action α} (h : a.Obeys D op (fun outcome => post (outcome.map f)) n t) :
    (f <$> a).Obeys D op post n t := by
  rw [← bind_pure_comp]
  refine bind (Program.Obeys.mono h ?_)
  rintro (e | x) n t hx
  · exact hx
  · exact hx

/-- A lock is taken, and released again whatever comes out. -/
theorem locked {lock : LockName} {access : Access} {body : Action β} (rests : D.Rests t)
    (asks : D.Asks op t (.acquire lock access))
    (refused : ∀ e, D.Expects op t (.acquire lock access) (.error e) →
      post (.error e) n (D.after op t (.asked (.acquire lock access) (.error e))))
    (h : D.Expects op t (.acquire lock access) (.ok ()) →
      body.Obeys D op (fun outcome n t => D.Rests t ∧ D.Asks op t (.release lock) ∧
        ∀ reply, D.Expects op t (.release lock) reply →
          post (reply.bind fun _ => outcome) n (D.after op t (.asked (.release lock) reply))) n
        (D.after op t (.asked (.acquire lock access) (.ok ())))) :
    (Action.locked lock access body).Obeys D op post n t := by
  unfold Action.Obeys
  rw [Action.run_locked]
  refine ⟨rests, asks, ?_⟩
  rintro (e | ⟨⟨⟩⟩) expected
  · exact refused e expected
  · refine Program.Obeys.bind (Program.Obeys.mono (h expected) ?_)
    rintro outcome n t ⟨rests, asks, released⟩
    refine ⟨rests, asks, ?_⟩
    rintro (e | ⟨⟨⟩⟩) expected
    · exact released _ expected
    · exact released _ expected

end Action.Obeys

/-! ### Threads -/

/-- The jobs of a thread that are under way, innermost first, with their states. -/
abbrev Jobs (τ : Type) := List (Nat × τ)

/-- Other threads may have their turns. -/
def Jobs.Rest (D : Discipline τ) (jobs : Jobs τ) : Prop := ∀ x ∈ jobs, D.Rests x.2

/-- All that a thread may come to do is as the discipline wants it.  Its next step is one of the
innermost job, which rests before all steps but the last one. -/
def Thread.Obeys (D : Discipline τ) : Thread → Jobs τ → Prop
  | finished, jobs => jobs.Rest D
  | enter _ body, jobs => jobs.Rest D ∧ ∀ number, (body number).Obeys D ((number, D.init) :: jobs)
  | ask none r next, jobs =>
    jobs.Rest D ∧ (∃ q, r = .store q ∧ D.Free q) ∧ ∀ reply, (next reply).Obeys D jobs
  | ask (some job) r next, jobs => jobs.Rest D ∧ ∃ t outer, jobs = (job.number, t) :: outer ∧
    D.Asks job.op t r ∧ ∀ reply, D.Expects job.op t r reply →
      (next reply).Obeys D ((job.number, D.after job.op t (.asked r reply)) :: outer)
  | draw job number x next, jobs => jobs.Rest D ∧ ∃ t outer, jobs = (job.number, t) :: outer ∧
    ∀ e, (next (x.run e).1).Obeys D
      ((job.number, D.after job.op t (.drew number e (x.run e).2)) :: outer)
  | leave job outcome next, jobs => ∃ t outer, jobs = (job.number, t) :: outer ∧
    Jobs.Rest D outer ∧ D.Leaves job.op t outcome ∧ next.Obeys D outer

theorem Jobs.rest_nil : Jobs.Rest D [] := List.forall_mem_nil _

theorem Jobs.Rest.cons {jobs : Jobs τ} (h : jobs.Rest D) {number : Nat} {t : τ} (rests : D.Rests t) :
    Jobs.Rest D ((number, t) :: jobs) :=
  List.forall_mem_cons.mpr ⟨rests, h⟩

/-- The steps of a program that obeys the discipline, beside callbacks that do. -/
theorem Program.Obeys.thread {post : α → Nat → τ → Prop} {job : Job} {x : Program α} {n : Nat}
    {t : τ} {outer : Jobs τ} {app : Bytes → (Except Error Unit → Thread) → Thread}
    {k : α → Thread} (h : x.Obeys D job.op post n t) (rest : outer.Rest D)
    (happ : ∀ plain k jobs, jobs.Rest D → (∀ verdict, (k verdict).Obeys D jobs) →
      (app plain k).Obeys D jobs)
    (hk : ∀ a n t, post a n t → (k a).Obeys D ((job.number, t) :: outer)) :
    (x.thread job app n k).Obeys D ((job.number, t) :: outer) := by
  induction x generalizing n t with
  | done a => exact hk a n t h
  | ask r next ih =>
    cases r with
    | deliver plain => exact happ _ _ _ (rest.cons h.1) fun verdict => ih verdict (h.2 verdict)
    | store q => exact ⟨rest.cons h.1, t, outer, rfl, h.2.1, fun reply he => ih reply (h.2.2 reply he)⟩
    | acquire lock access =>
      exact ⟨rest.cons h.1, t, outer, rfl, h.2.1, fun reply he => ih reply (h.2.2 reply he)⟩
    | release lock =>
      exact ⟨rest.cons h.1, t, outer, rfl, h.2.1, fun reply he => ih reply (h.2.2 reply he)⟩
  | draw x next ih => exact ⟨rest.cons h.1, t, outer, rfl, fun e => ih _ (h.2 e)⟩

/-- The application asks for nothing itself but what the discipline lets it have. -/
def Script.Within (free : StoreRequest → Prop) : Script → Prop
  | stop _ => True
  | request q next => free q ∧ ∀ reply, (next reply).Within free
  | perform _ app next => (∀ plain, (app plain).Within free) ∧ ∀ outcome, (next outcome).Within free

theorem Script.within_of_forall {free : StoreRequest → Prop} (h : ∀ q, free q) (script : Script) :
    script.Within free := by
  induction script with
  | stop verdict => trivial
  | request q next ih => exact ⟨h q, ih⟩
  | perform op app next app_ih ih => exact ⟨app_ih, ih⟩

/-- The steps of a script whose operations follow the discipline. -/
theorem Script.obeys {S : Suite} (follows : ∀ op, D.Follows S op) {script : Script}
    (free : script.Within D.Free) {jobs : Jobs τ} (rest : jobs.Rest D)
    {k : Except Error Unit → Thread} (hk : ∀ verdict, (k verdict).Obeys D jobs) :
    (script.thread S k).Obeys D jobs := by
  induction script generalizing jobs k with
  | stop verdict => exact hk verdict
  | request q next ih =>
    exact ⟨rest, ⟨q, rfl, free.1⟩, fun reply => ih reply (free.2 reply) rest hk⟩
  | perform op app next app_ih ih =>
    refine ⟨rest, fun number => ?_⟩
    refine Program.Obeys.thread (follows op) rest ?_ fun outcome _ t leaves => ?_
    · exact fun plain k jobs rest hk => app_ih plain (free.1 plain) rest hk
    · exact ⟨t, jobs, rfl, rest, leaves, ih outcome (free.2 outcome) rest hk⟩

/-! ### Jobs of all threads -/

/-- For the number of a job under way: its thread and its state. -/
abbrev Underway (τ : Type) := Nat → Option (Nat × τ)

/-- The jobs that are under way are those of the threads, and their numbers have been given out. -/
structure Underway.Of (jobs : Underway τ) (running : Nat → Jobs τ) (given : Nat) : Prop where
  mem : ∀ {number thread t}, jobs number = some (thread, t) ↔ (number, t) ∈ running thread
  nodup : ∀ thread, ((running thread).map Prod.fst).Nodup
  given : ∀ {number x}, jobs number = some x → number < given

theorem Underway.of_update {jobs : Underway τ} {number c : Nat} {x : Option (Nat × τ)} {y : Nat × τ}
    (h : update jobs number x c = some y) :
    (c = number ∧ x = some y) ∨ (c ≠ number ∧ jobs c = some y) := by
  by_cases same : c = number
  · rw [same, Function.update_self] at h
    exact .inl ⟨same, h⟩
  · rw [Function.update_of_ne same] at h
    exact .inr ⟨same, h⟩

namespace Underway.Of

variable {jobs : Underway τ} {running : Nat → Jobs τ} {given thread number : Nat} {t t' : τ}
  {outer : Jobs τ}

theorem not_given (h : jobs.Of running given) : jobs given = none := by
  cases hj : jobs given with
  | none => rfl
  | some x => exact absurd (h.given hj) (Nat.lt_irrefl _)

/-- No other job has the number of a job under way. -/
theorem number_ne (h : jobs.Of running given) (hs : running thread = (number, t) :: outer)
    (other : Nat) (x : Nat × τ) (hx : x ∈ if other = thread then outer else running other) :
    x.1 ≠ number := by
  rintro rfl
  have own : jobs x.1 = some (thread, t) := h.mem.mpr (by rw [hs]; exact List.mem_cons_self)
  split at hx
  · have distinct := h.nodup thread
    rw [hs, List.map_cons, List.nodup_cons] at distinct
    exact distinct.1 (List.mem_map.mpr ⟨x, hx, rfl⟩)
  · rename_i ne
    have there : jobs x.1 = some (other, x.2) := h.mem.mpr hx
    rw [own] at there
    exact ne (Prod.mk.inj (Option.some.inj there)).1.symm

theorem nodup_update (h : jobs.Of running given) {inner : Jobs τ}
    (distinct : (inner.map Prod.fst).Nodup) (other : Nat) :
    ((update running thread inner other).map Prod.fst).Nodup := by
  by_cases same : other = thread
  · rw [same, Function.update_self]
    exact distinct
  · rw [Function.update_of_ne same]
    exact h.nodup other

theorem enter (h : jobs.Of running given) (thread : Nat) (t : τ) :
    Underway.Of (update jobs given (some (thread, t)))
      (update running thread ((given, t) :: running thread)) (given + 1) where
  mem {number other t'} := by
    have unused : ∀ x, (given, x) ∉ running other := by
      intro x hx
      rw [← h.mem, h.not_given] at hx
      cases hx
    have mem := @h.mem number other t'
    by_cases hn : number = given <;> by_cases ht : other = thread <;> grind
  nodup := by
    refine h.nodup_update (List.nodup_cons.mpr ⟨fun there => ?_, h.nodup thread⟩)
    obtain ⟨⟨_, x⟩, hx, rfl⟩ := List.mem_map.mp there
    exact Nat.lt_irrefl _ (h.given (h.mem.mpr hx))
  given {number x} hx := by
    have := @h.given number x
    grind

theorem change (h : jobs.Of running given) (hs : running thread = (number, t) :: outer) (t' : τ) :
    Underway.Of (update jobs number (some (thread, t')))
      (update running thread ((number, t') :: outer)) given where
  mem {other thread' x} := by
    have mem := @h.mem other thread' x
    have ne := h.number_ne hs thread'
    by_cases hn : other = number <;> by_cases ht : thread' = thread <;> grind
  nodup := by
    have distinct := h.nodup thread
    rw [hs] at distinct
    exact h.nodup_update distinct
  given {other x} hx := by
    have own : jobs number = some (thread, t) := h.mem.mpr (by rw [hs]; exact List.mem_cons_self)
    have := @h.given other x
    have := h.given own
    grind

theorem leave (h : jobs.Of running given) (hs : running thread = (number, t) :: outer) :
    Underway.Of (update jobs number none) (update running thread outer) given where
  mem {other thread' x} := by
    have mem := @h.mem other thread' x
    have ne := h.number_ne hs thread'
    by_cases hn : other = number <;> by_cases ht : thread' = thread <;> grind
  nodup := by
    have distinct := h.nodup thread
    rw [hs, List.map_cons] at distinct
    exact h.nodup_update (List.nodup_cons.mp distinct).2
  given {other x} hx := by
    have := @h.given other x
    grind

end Underway.Of

/-! ### Histories -/

namespace Shared

variable {s s' : Shared} {thread : Nat} {fault : Option Error} {job : Option Job} {r : Request}

/-- What an answer does to what the threads share. -/
theorem answer_eq {reply : Except Error r.Reply} (h : s.answer thread fault job r = some (reply, s')) :
    ∃ device, s.device.Meets thread r reply device ∧
      s' = { s with device }.log job (.asked r reply) := by
  obtain ⟨⟨reply', device⟩, met, h⟩ := Option.map_eq_some_iff.mp h
  cases h
  exact ⟨device, Device.meets met, rfl⟩

theorem prefix_log (s : Shared) (job : Option Job) (event : Event) :
    s.history <+: (s.log job event).history := List.prefix_append _ _

theorem prefix_settle (s : Shared) (steps : Thread) :
    s.history <+: (s.settle steps).1.history := by
  induction steps generalizing s with
  | enter op body ih => exact (prefix_log { s with jobs := s.jobs + 1 } _ _).trans (ih _ (s.enter op))
  | leave job outcome next ih => exact (s.prefix_log _ _).trans (ih (s.log (some job) _))
  | finished => exact List.prefix_rfl
  | ask job r next => exact List.prefix_rfl
  | draw job n x next => exact List.prefix_rfl

variable {next : Except Error r.Reply → Thread}

theorem turn_ask_of_none (h : s.answer thread fault job r = none) :
    s.turn thread fault (.ask job r next) = (s, .ask job r next) := by
  simp only [turn, h]

theorem turn_ask_of_some {reply : Except Error r.Reply}
    (h : s.answer thread fault job r = some (reply, s')) :
    s.turn thread fault (.ask job r next) = s'.settle (next reply) := by
  simp only [turn, h]

theorem prefix_turn (s : Shared) (thread : Nat) (fault : Option Error) (steps : Thread) :
    s.history <+: (s.turn thread fault steps).1.history := by
  cases steps with
  | ask job r next =>
    cases answered : s.answer thread fault job r with
    | none => simp only [turn_ask_of_none answered, List.prefix_rfl]
    | some answer =>
      obtain ⟨device, -, asked⟩ := answer_eq answered
      rw [turn_ask_of_some answered, asked]
      exact (prefix_log { s with device } _ _).trans (prefix_settle _ _)
  | draw job n x next =>
    exact (prefix_log { s with entropy := _ } _ _).trans (prefix_settle (s.draw fault job n x).2 _)
  | finished => exact prefix_settle _ _
  | enter op body => exact prefix_settle _ _
  | leave job outcome next => exact prefix_settle _ _

end Shared

theorem Machine.prefix_turn (m : Machine) (number : Nat) (fault : Option Error) :
    m.shared.history <+: (m.turn number fault).shared.history := by
  unfold turn
  split
  · exact List.prefix_rfl
  · exact Shared.prefix_turn _ _ _ _

/-! ### Invariants -/

/-- A property of what the threads share and of the states of the jobs under way that every step the
discipline allows keeps, and that vouches for the answers which the discipline promises, in histories
that `Good` holds of. -/
structure Discipline.Invariant (D : Discipline τ) (Good : List Entry → Prop)
    (Inv : Shared → Underway τ → Prop) : Prop where
  closed : ∀ {h h'}, h <+: h' → Good h' → Good h
  entered : ∀ {s jobs} (thread op), Inv s jobs → jobs s.jobs = none → Good (s.enter op).history →
    Inv (s.enter op) (update jobs s.jobs (some (thread, D.init)))
  asked : ∀ {s jobs thread job t fault r reply s'}, Inv s jobs → jobs job.number = some (thread, t) →
    (∀ {n x}, jobs n = some x → D.Rests x.2) → D.Asks job.op t r →
    s.answer thread fault (some job) r = some (reply, s') → Good s'.history →
    D.Expects job.op t r reply ∧
      Inv s' (update jobs job.number (some (thread, D.after job.op t (.asked r reply))))
  requested : ∀ {s jobs thread fault q reply s'}, Inv s jobs → D.Free q →
    s.answer thread fault none (.store q) = some (reply, s') → Good s'.history → Inv s' jobs
  drew : ∀ {β s jobs thread job t fault number} {x : Draw β}, Inv s jobs →
    jobs job.number = some (thread, t) → Good (s.draw fault job number x).2.history →
    Inv (s.draw fault job number x).2 (update jobs job.number
      (some (thread, D.after job.op t (.drew number (s.source fault) (x.run (s.source fault)).2))))
  left : ∀ {s jobs thread job t outcome}, Inv s jobs → jobs job.number = some (thread, t) →
    (∀ {n x}, n ≠ job.number → jobs n = some x → D.Rests x.2) → D.Leaves job.op t outcome →
    Good (s.log (some job) (.left outcome)).history →
    Inv (s.log (some job) (.left outcome)) (update jobs job.number none)

section
variable {Good : List Entry → Prop} {Inv : Shared → Underway τ → Prop} {s : Shared}
  {running : Nat → Jobs τ} {jobs : Underway τ} {thread : Nat}

/-- All jobs of a thread rest before its next request, and those of the others all the time. -/
theorem Underway.Of.rests {given : Nat} (h : jobs.Of running given)
    (all : ∀ number, (running number).Rest D) {n : Nat} {x : Nat × τ} (hx : jobs n = some x) :
    D.Rests x.2 :=
  all x.1 (n, x.2) (h.mem.mp hx)

/-- A thread goes on up to its next request, and all its jobs rest then. -/
theorem Discipline.Invariant.settle (hD : D.Invariant Good Inv) {steps : Thread}
    (of : jobs.Of running s.jobs) (inv : Inv s jobs) (obeys : steps.Obeys D (running thread))
    (others : ∀ number, number ≠ thread → (running number).Rest D)
    (good : Good (s.settle steps).1.history) :
    ∃ running' jobs', Underway.Of jobs' running' (s.settle steps).1.jobs ∧
      Inv (s.settle steps).1 jobs' ∧ (s.settle steps).2.Obeys D (running' thread) ∧
      (running' thread).Rest D ∧ ∀ number, number ≠ thread → running' number = running number := by
  induction steps generalizing s running jobs with
  | finished => exact ⟨running, jobs, of, inv, obeys, obeys, fun _ _ => rfl⟩
  | ask job r next =>
    cases job with
    | none => exact ⟨running, jobs, of, inv, obeys, obeys.1, fun _ _ => rfl⟩
    | some job => exact ⟨running, jobs, of, inv, obeys, obeys.1, fun _ _ => rfl⟩
  | draw job n x next => exact ⟨running, jobs, of, inv, obeys, obeys.1, fun _ _ => rfl⟩
  | enter op body ih =>
    have soFar := hD.closed (Shared.prefix_settle (s.enter op) (body s.jobs)) good
    have inside : ((body s.jobs).Obeys D
        (update running thread ((s.jobs, D.init) :: running thread) thread)) := by
      rw [Function.update_self]
      exact obeys.2 s.jobs
    obtain ⟨running', jobs', of', inv', obeys', rest', same⟩ := ih s.jobs (of.enter thread D.init)
      (hD.entered thread op inv of.not_given soFar) inside
      (fun number ne => by rw [Function.update_of_ne ne]; exact others number ne) good
    exact ⟨running', jobs', of', inv', obeys', rest', fun number ne =>
      (same number ne).trans (Function.update_of_ne ne _ _)⟩
  | leave job outcome next ih =>
    obtain ⟨t, outer, stack, rest, leaves, after⟩ := obeys
    have soFar := hD.closed (Shared.prefix_settle (s.log (some job) (.left outcome)) next) good
    have own : jobs job.number = some (thread, t) :=
      of.mem.mpr (by rw [stack]; exact List.mem_cons_self)
    -- what is left of the stack rests, and so do the other threads
    have remaining : Underway.Of (update jobs job.number none) (update running thread outer)
        (s.log (some job) (.left outcome)).jobs := of.leave stack
    have all : ∀ number, (update running thread outer number).Rest D := by
      intro number
      by_cases ne : number = thread
      · rw [ne, Function.update_self]
        exact rest
      · rw [Function.update_of_ne ne]
        exact others number ne
    have rests : ∀ {n x}, n ≠ job.number → jobs n = some x → D.Rests x.2 := by
      intro n x ne hx
      exact remaining.rests all (by rw [Function.update_of_ne ne]; exact hx)
    obtain ⟨running', jobs', of', inv', obeys', rest', same⟩ := ih remaining
      (hD.left inv own rests leaves soFar) (by rw [Function.update_self]; exact after)
      (fun number _ => all number) good
    exact ⟨running', jobs', of', inv', obeys', rest', fun number ne =>
      (same number ne).trans (Function.update_of_ne ne _ _)⟩

/-- A thread whose innermost job has made a step goes on up to its next request. -/
theorem Discipline.Invariant.goOn (hD : D.Invariant Good Inv) {steps : Thread} {n : Nat} {t t' : τ}
    {outer : Jobs τ} (of : jobs.Of running s.jobs) (stack : running thread = (n, t) :: outer)
    (inv : Inv s (update jobs n (some (thread, t')))) (obeys : steps.Obeys D ((n, t') :: outer))
    (all : ∀ number, (running number).Rest D) (good : Good (s.settle steps).1.history) :
    ∃ running' jobs', Underway.Of jobs' running' (s.settle steps).1.jobs ∧
      Inv (s.settle steps).1 jobs' ∧ (s.settle steps).2.Obeys D (running' thread) ∧
      (running' thread).Rest D ∧ ∀ number, number ≠ thread → running' number = running number := by
  obtain ⟨running', jobs', of', inv', obeys', rest', same⟩ := hD.settle (of.change stack t') inv
    (by rw [Function.update_self]; exact obeys)
    (fun number ne => by rw [Function.update_of_ne ne]; exact all number) good
  exact ⟨running', jobs', of', inv', obeys', rest', fun number ne =>
    (same number ne).trans (Function.update_of_ne ne _ _)⟩

/-- A thread has its turn: one request is answered, or one draw made. -/
theorem Discipline.Invariant.turn (hD : D.Invariant Good Inv) {steps : Thread} (fault : Option Error)
    (of : jobs.Of running s.jobs) (inv : Inv s jobs) (obeys : steps.Obeys D (running thread))
    (all : ∀ number, (running number).Rest D) (good : Good (s.turn thread fault steps).1.history) :
    ∃ running' jobs', Underway.Of jobs' running' (s.turn thread fault steps).1.jobs ∧
      Inv (s.turn thread fault steps).1 jobs' ∧
      (s.turn thread fault steps).2.Obeys D (running' thread) ∧ (running' thread).Rest D ∧
      ∀ number, number ≠ thread → running' number = running number := by
  have under : ∀ {n t outer}, running thread = (n, t) :: outer → jobs n = some (thread, t) :=
    fun stack => of.mem.mpr (by rw [stack]; exact List.mem_cons_self)
  cases steps with
  | finished => exact hD.settle of inv obeys (fun number _ => all number) good
  | enter op body => exact hD.settle of inv obeys (fun number _ => all number) good
  | leave job outcome next => exact hD.settle of inv obeys (fun number _ => all number) good
  | draw job n x next =>
    obtain ⟨-, t, outer, stack, obeys⟩ := obeys
    have soFar := hD.closed (Shared.prefix_settle (s.draw fault job n x).2 _) good
    exact hD.goOn (s := (s.draw fault job n x).2) of stack (hD.drew inv (under stack) soFar)
      (obeys _) all good
  | ask job r next =>
    cases answered : s.answer thread fault job r with
    | none =>
      rw [Shared.turn_ask_of_none answered]
      exact ⟨running, jobs, of, inv, obeys, all thread, fun _ _ => rfl⟩
    | some answer =>
      obtain ⟨reply, s'⟩ := answer
      rw [Shared.turn_ask_of_some answered] at good ⊢
      have soFar := hD.closed (Shared.prefix_settle _ _) good
      have of' : jobs.Of running s'.jobs := by
        obtain ⟨device, -, rfl⟩ := Shared.answer_eq answered
        exact of
      cases job with
      | none =>
        obtain ⟨-, ⟨q, rfl, free⟩, obeys⟩ := obeys
        exact hD.settle of' (hD.requested inv free answered soFar) (obeys reply)
          (fun number _ => all number) good
      | some job =>
        obtain ⟨-, t, outer, stack, asks, obeys⟩ := obeys
        obtain ⟨expected, inv'⟩ := hD.asked inv (under stack) (of.rests all) asks answered soFar
        exact hD.goOn of' stack inv' (obeys reply expected) all good

end

/-- The machine is in the hands of the discipline: its threads obey, and the invariant holds. -/
def Machine.Tracked (D : Discipline τ) (Inv : Shared → Underway τ → Prop) (m : Machine) : Prop :=
  ∃ running jobs, Underway.Of jobs running m.shared.jobs ∧ Inv m.shared jobs ∧
    (∀ number, (running number).Rest D) ∧
    ∀ number (steps : Thread), m.threads[number]? = some steps → steps.Obeys D (running number)

variable {Good : List Entry → Prop} {Inv : Shared → Underway τ → Prop} {m : Machine} {S : Suite}

theorem Machine.Tracked.turn (hD : D.Invariant Good Inv) (h : m.Tracked D Inv) (number : Nat)
    (fault : Option Error) (good : Good (m.turn number fault).shared.history) :
    (m.turn number fault).Tracked D Inv := by
  unfold Machine.turn at good ⊢
  cases there : m.threads[number]? with
  | none =>
    rw [there] at good
    exact h
  | some steps =>
    rw [there] at good
    obtain ⟨running, jobs, of, inv, all, obeys⟩ := h
    obtain ⟨running', jobs', of', inv', obeys', rest', same⟩ :=
      hD.turn fault of inv (obeys number steps there) all good
    refine ⟨running', jobs', of', inv', fun other => ?_, fun other steps' there' => ?_⟩
    · by_cases ne : other = number
      · rw [ne]
        exact rest'
      · rw [same other ne]
        exact all other
    · by_cases ne : other = number
      · subst ne
        have here := (List.getElem?_eq_some_iff.mp there).1
        rw [List.getElem?_set_self here] at there'
        cases there'
        exact obeys'
      · rw [List.getElem?_set_ne (Ne.symm ne)] at there'
        rw [same other ne]
        exact obeys other steps' there'

theorem Machine.prefix_after (m : Machine) (turns : List (Nat × Option Error)) :
    m.shared.history <+: (m.after turns).shared.history := by
  induction turns generalizing m with
  | nil => exact List.prefix_rfl
  | cons turn turns ih => exact (m.prefix_turn turn.1 turn.2).trans (ih _)

theorem Machine.Tracked.after (hD : D.Invariant Good Inv) (h : m.Tracked D Inv)
    (turns : List (Nat × Option Error)) (good : Good (m.after turns).shared.history) :
    (m.after turns).Tracked D Inv := by
  induction turns generalizing m with
  | nil => exact h
  | cons turn turns ih =>
    have soFar := hD.closed (Machine.prefix_after (m.turn turn.1 turn.2) turns) good
    exact ih (h.turn hD turn.1 turn.2 soFar) good

/-- A machine whose threads perform operations that follow the discipline is tracked from the
beginning. -/
theorem Machine.tracked_start (follows : ∀ op, D.Follows S op) {device : Device} {entropy : Entropy}
    {scripts : List Script} (free : ∀ script ∈ scripts, script.Within D.Free)
    (start : Inv { device, entropy } fun _ => none) :
    (Machine.start S device entropy scripts).Tracked D Inv := by
  refine ⟨fun _ => [], fun _ => none, ⟨?_, ?_, ?_⟩, start, ?_, ?_⟩
  · simp
  · simp
  · simp
  · exact fun _ => Jobs.rest_nil
  · intro number steps there
    obtain ⟨script, hs, rfl⟩ := List.mem_map.mp (List.mem_of_getElem? there)
    exact Script.obeys follows (free script hs) Jobs.rest_nil fun _ => Jobs.rest_nil

/-- What the invariant comes to at some time can be tracked from then on. -/
theorem Machine.Tracked.imp {Inv' : Shared → Underway τ → Prop} (h : m.Tracked D Inv)
    (imp : ∀ {jobs}, Inv m.shared jobs → Inv' m.shared jobs) : m.Tracked D Inv' := by
  obtain ⟨running, jobs, of, inv, rest, obeys⟩ := h
  exact ⟨running, jobs, of, imp inv, rest, obeys⟩

/-- An invariant that holds before the first turn holds after any turns. -/
theorem Discipline.Invariant.after (hD : D.Invariant Good Inv) (follows : ∀ op, D.Follows S op)
    {device : Device} {entropy : Entropy} {scripts : List Script}
    (free : ∀ script ∈ scripts, script.Within D.Free)
    (start : Inv { device, entropy } fun _ => none) (turns : List (Nat × Option Error))
    (good : Good ((Machine.start S device entropy scripts).after turns).shared.history) :
    ∃ jobs, Inv ((Machine.start S device entropy scripts).after turns).shared jobs := by
  obtain ⟨-, jobs, -, inv, -, -⟩ := (Machine.tracked_start follows free start).after hD turns good
  exact ⟨jobs, inv⟩

end DoubleRatchet
