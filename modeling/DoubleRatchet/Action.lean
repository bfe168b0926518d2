/-
DoubleRatchet/Action.lean

Operations as values.  An operation does nothing by itself: it asks its surroundings
for something, and goes on with the answer, whatever that is.  What it asks for are a
store, locks, random bytes, and the application, which is handed a plaintext before
the session that decrypted it is stored and may still refuse it.

So the same operation can be run on a device alone, on a store that fails, or request
by request beside others.
-/
import DoubleRatchet.Locks
import DoubleRatchet.Store

namespace DoubleRatchet

/-- What an operation asks for. -/
inductive Request where
  | store (r : StoreRequest)
  | acquire (lock : LockName) (access : Access)
  | release (lock : LockName)
  /-- Hand a plaintext to the application. -/
  | deliver (plain : Bytes)

/-- What a request is answered with. -/
@[reducible] def Request.Reply : Request → Type
  | store r => r.Reply
  | _ => Unit

/-- A computation that asks and draws. -/
inductive Program (α : Type) : Type 1 where
  | done (result : α)
  | ask (r : Request) (next : Except Error r.Reply → Program α)
  | draw {β : Type} (x : Draw β) (next : Except Error β → Program α)

namespace Program

variable {α β : Type}

/-- Go on with the result. -/
def bind : Program α → (α → Program β) → Program β
  | done a, f => f a
  | ask r next, f => ask r fun answer => (next answer).bind f
  | draw x next, f => draw x fun answer => (next answer).bind f

instance : Monad Program where
  pure := done
  bind := bind

instance : LawfulMonad Program := .mk' _
  (fun x => by
    show bind x done = x
    induction x with
    | done => rfl
    | ask r next ih => simp only [bind, ih]
    | draw x next ih => simp only [bind, ih])
  (fun _ _ => rfl)
  (fun x f g => by
    show bind (bind x f) g = bind x fun a => bind (f a) g
    induction x with
    | done => rfl
    | ask r next ih => simp only [bind, ih]
    | draw x next ih => simp only [bind, ih])

end Program

/-! ### Operations -/

/-- A computation that asks, draws and may fail. -/
abbrev Action (α : Type) := ExceptT Error Program α

namespace Action

variable {α : Type}

/-- Ask for something; a failure is a failure of the operation. -/
def ask (r : Request) : Action r.Reply := Program.ask r .done

/-- Ask the store for something. -/
def store (r : StoreRequest) : Action r.Reply := ask (.store r)

/-- Compute with random bytes. -/
def random (x : Draw α) : Action α := Program.draw x .done

/-- Hand a plaintext to the application. -/
def deliver (plain : Bytes) : Action Unit := ask (.deliver plain)

/-- Hold a lock until the operation is over, whether it fails or not. -/
def locked (lock : LockName) (access : Access) (body : Action α) : Action α := do
  ask (.acquire lock access)
  let outcome ← ExceptT.lift body.run
  ask (.release lock)
  outcome

end Action

/-! ### Running -/

/-- How requests are met in the surroundings `m`. -/
structure Surroundings (m : Type → Type) where
  answer : (r : Request) → m (Except Error r.Reply)
  draw : {β : Type} → Draw β → m (Except Error β)

/-- Run a program in its surroundings. -/
def Program.run {m : Type → Type} [Monad m] {α : Type} (s : Surroundings m) : Program α → m α
  | done a => pure a
  | ask r next => do (next (← s.answer r)).run s
  | draw x next => do (next (← s.draw x)).run s

namespace Program

variable {m : Type → Type} [Monad m] {α β : Type} (s : Surroundings m)

@[simp] theorem run_pure (a : α) : (pure a : Program α).run s = pure a := rfl

theorem run_bind [LawfulMonad m] (x : Program α) (f : α → Program β) :
    (x >>= f).run s = x.run s >>= fun a => (f a).run s := by
  show (bind x f).run s = _
  induction x with
  | done a => simp [bind, run]
  | ask r next ih => simp only [bind, run, ih, bind_assoc]
  | draw x next ih => simp only [bind, run, ih, bind_assoc]

end Program

end DoubleRatchet
