/-
DoubleRatchet/Proofs/Threads.lean

Several threads of an application on one device.

A `Script` is what a thread does: operations one after another, and requests of the
application itself to the store.  What is done with a plaintext is a script too, so a
callback can do whatever the application can do, further operations included.

A `Thread` is a script taken apart.  An operation that is being performed is a `Job`
with a number of its own; it enters, asks, draws and leaves, and where it delivers a
plaintext the steps of the callback come in between.  A `Machine` is a device, a source
of random bytes, and threads.  In a turn one thread has one request answered, or draws
once, and goes on to its next request; a thread that has to wait for a lock stays where
it is.  Any request to the store and any draw can be made to fail.

What has happened is written down in the history, oldest entry first.
-/
import DoubleRatchet.Device
import DoubleRatchet.Proofs.Failures

namespace DoubleRatchet

/-! ### Scripts -/

/-- What a thread does. -/
inductive Script where
  /-- A callback ends with what it makes of the plaintext, a thread in any way. -/
  | stop (verdict : Except Error Unit)
  /-- The application asks the store for something. -/
  | request (q : StoreRequest) (next : Except Error q.Reply → Script)
  /-- An operation is performed; a plaintext is handed to `app`. -/
  | perform (op : Operation) (app : Bytes → Script) (next : Except Error Outcome → Script)

/-- An operation is performed with a callback that takes whatever it gets, and the thread goes on
whatever comes of it. -/
def Script.attempt (op : Operation) (next : Script) : Script :=
  .perform op (fun _ => .stop (.ok ())) fun _ => next

/-- An operation that is being performed. -/
structure Job where
  number : Nat
  op : Operation

/-- What is left of a script, step by step. -/
inductive Thread : Type 1 where
  | finished
  | enter (op : Operation) (body : Nat → Thread)
  | ask (job : Option Job) (r : Request) (next : Except Error r.Reply → Thread)
  /-- The draws of a job are numbered. -/
  | draw {β : Type} (job : Job) (number : Nat) (x : Draw β) (next : Except Error β → Thread)
  | leave (job : Job) (outcome : Except Error Outcome) (next : Thread)

/-- The steps of a program; `app` are those of the callback, and `k` what comes after. -/
def Program.thread {α : Type} (job : Job) (app : Bytes → (Except Error Unit → Thread) → Thread)
    (number : Nat) : Program α → (α → Thread) → Thread
  | done a, k => k a
  | ask (.deliver plain) next, k => app plain fun verdict => (next verdict).thread job app number k
  | ask (.store q) next, k =>
    .ask (some job) (.store q) fun reply => (next reply).thread job app number k
  | ask (.acquire lock access) next, k =>
    .ask (some job) (.acquire lock access) fun reply => (next reply).thread job app number k
  | ask (.release lock) next, k =>
    .ask (some job) (.release lock) fun reply => (next reply).thread job app number k
  | draw x next, k => .draw job number x fun outcome => (next outcome).thread job app (number + 1) k

/-- The steps of a script; `k` is what comes after. -/
def Script.thread (S : Suite) : Script → (Except Error Unit → Thread) → Thread
  | stop verdict, k => k verdict
  | request q next, k => .ask none (.store q) fun reply => (next reply).thread S k
  | perform op app next, k => .enter op fun number =>
    (op.action S).run.thread ⟨number, op⟩ (fun plain k => (app plain).thread S k) 0 fun outcome =>
      .leave ⟨number, op⟩ outcome ((next outcome).thread S k)

/-! ### Machines -/

/-- What can happen to a job. -/
inductive Event where
  | entered
  | asked (r : Request) (reply : Except Error r.Reply)
  | drew (number : Nat) (source after : Entropy)
  | left (outcome : Except Error Outcome)

/-- What has happened, and to which job; what the application asks for itself is of no job. -/
structure Entry where
  job : Option Job
  event : Event

/-- What the threads share. -/
structure Shared where
  device : Device
  entropy : Entropy
  /-- How many jobs there have been. -/
  jobs : Nat := 0
  /-- What has happened, oldest entry first. -/
  history : List Entry := []

/-- Threads, and what they share. -/
structure Machine : Type 1 where
  shared : Shared
  threads : List Thread

/-- The answer of a device whose store may fail. -/
def Device.meet (d : Device) (thread : Nat) (fault : Option Error) :
    (r : Request) → Option (Except Error r.Reply × Device)
  | .store q =>
    match fault with
    | some e => some (.error e, d)
    | none => d.answer thread (.store q)
  | r => d.answer thread r

/-- What can come of a request: it is met, or the store fails, or a lock is refused. -/
inductive Device.Meets (d : Device) (thread : Nat) :
    (r : Request) → Except Error r.Reply → Device → Prop where
  | failed (q : StoreRequest) (e : Error) : Meets d thread (.store q) (.error e) d
  | answered (q : StoreRequest) :
    Meets d thread (.store q) (d.store.answer q).1 { d with store := (d.store.answer q).2 }
  | granted {lock : LockName} {access : Access} {locks : Locks}
    (h : d.locks.acquire thread ⟨d.number, lock⟩ access = .granted locks) :
    Meets d thread (.acquire lock access) (.ok ()) { d with locks }
  | refused {lock : LockName} {access : Access} {e : Error}
    (h : d.locks.acquire thread ⟨d.number, lock⟩ access = .refused e) :
    Meets d thread (.acquire lock access) (.error e) d
  | released (lock : LockName) : Meets d thread (.release lock) (.ok ())
    { d with locks := d.locks.release ⟨d.number, lock⟩ }
  | delivered (plain : Bytes) : Meets d thread (.deliver plain) (.ok ()) d

theorem Device.meets {d d' : Device} {thread : Nat} {fault : Option Error} {r : Request}
    {reply : Except Error r.Reply} (h : d.meet thread fault r = some (reply, d')) :
    d.Meets thread r reply d' := by
  cases r with
  | store q =>
    cases fault with
    | some e =>
      cases h
      exact .failed q e
    | none =>
      cases h
      exact .answered q
  | acquire lock access =>
    unfold meet answer at h
    dsimp only at h
    split at h
    · cases h
      exact .granted ‹_›
    · cases h
      exact .refused ‹_›
    · cases h
  | release lock =>
    cases h
    exact .released lock
  | deliver plain =>
    cases h
    exact .delivered plain

namespace Shared

/-- Write down what has happened. -/
def log (s : Shared) (job : Option Job) (event : Event) : Shared :=
  { s with history := s.history ++ [⟨job, event⟩] }

/-- A job with the next number enters. -/
def enter (s : Shared) (op : Operation) : Shared :=
  { s with jobs := s.jobs + 1 }.log (some ⟨s.jobs, op⟩) .entered

/-- A thread has a request answered; there is no answer while it has to wait. -/
def answer (s : Shared) (thread : Nat) (fault : Option Error) (job : Option Job) (r : Request) :
    Option (Except Error r.Reply × Shared) :=
  (s.device.meet thread fault r).map fun (reply, device) =>
    (reply, { s with device }.log job (.asked r reply))

/-- The source that a draw is made from; it is dead if the draw is to fail. -/
def source (s : Shared) (fault : Option Error) : Entropy :=
  { s.entropy with dead := s.entropy.dead || fault.isSome }

/-- A job draws. -/
def draw {β : Type} (s : Shared) (fault : Option Error) (job : Job) (number : Nat) (x : Draw β) :
    Except Error β × Shared :=
  let (outcome, after) := x.run (s.source fault)
  (outcome, { s with entropy := { after with dead := s.entropy.dead } }.log (some job)
    (.drew number (s.source fault) after))

/-- A thread goes on up to its next request. -/
def settle : Shared → Thread → Shared × Thread
  | s, .enter op body => (s.enter op).settle (body s.jobs)
  | s, .leave job outcome next => (s.log (some job) (.left outcome)).settle next
  | s, thread => (s, thread)

/-- A thread has its turn. -/
def turn (s : Shared) (number : Nat) (fault : Option Error) : Thread → Shared × Thread
  | .ask job r next =>
    match s.answer number fault job r with
    | none => (s, .ask job r next)
    | some (reply, s) => s.settle (next reply)
  | .draw job n x next =>
    let (outcome, s) := s.draw fault job n x
    s.settle (next outcome)
  | thread => s.settle thread

end Shared

namespace Machine

/-- The machine before any turn. -/
def start (S : Suite) (device : Device) (entropy : Entropy) (scripts : List Script) : Machine where
  shared := { device, entropy }
  threads := scripts.map fun script => script.thread S fun _ => .finished

/-- The thread with a number has its turn. -/
def turn (m : Machine) (number : Nat) (fault : Option Error) : Machine :=
  match m.threads[number]? with
  | none => m
  | some thread =>
    let (shared, thread) := m.shared.turn number fault thread
    ⟨shared, m.threads.set number thread⟩

/-- The machine after some turns, each with the number of the thread and a fault. -/
def after (m : Machine) (turns : List (Nat × Option Error)) : Machine :=
  turns.foldl (fun m (number, fault) => m.turn number fault) m

end Machine

end DoubleRatchet
