/-
DoubleRatchet/Locks.lean

Who may touch what.  An operation loads a record, changes its copy and stores it, and
holds the lock of the record all the while.  A lock belongs to a thread, which may
take it again to read; to take it again for an update would lose that update when the
outer operation stores its own copy, so that is refused.  Other threads wait.

A lock is held for as long as there are guards of it: `depth` counts them.
-/
import DoubleRatchet.Error

namespace DoubleRatchet

/-- What a lock is taken for. -/
inductive Access where
  | read
  | write
  deriving DecidableEq

/-- A lock of one store; different stores share none. -/
structure LockKey where
  store : Nat
  name : LockName
  deriving DecidableEq

/-- Who holds a lock, and how often. -/
structure Holder where
  owner : Nat
  depth : Nat
  deriving DecidableEq

/-- The locks that are held. -/
structure Locks where
  held : List (LockKey × Holder) := []
  deriving DecidableEq

/-- The answer to a thread that asks for a lock. -/
inductive Verdict where
  | granted (locks : Locks)
  | refused (e : Error)
  /-- Another thread holds the lock. -/
  | wait

namespace Locks

/-- Who holds a lock. -/
def holder? (l : Locks) (key : LockKey) : Option Holder := l.held.lookup key

/-- The locks without one of them. -/
def free (l : Locks) (key : LockKey) : Locks := ⟨l.held.filter (·.1 != key)⟩

/-- The locks with one of them held. -/
def hold (l : Locks) (key : LockKey) (h : Holder) : Locks := ⟨(key, h) :: (l.free key).held⟩

/-- A thread asks for a lock. -/
def acquire (l : Locks) (thread : Nat) (key : LockKey) (access : Access) : Verdict :=
  match l.holder? key with
  | none => .granted (l.hold key ⟨thread, 1⟩)
  | some h =>
    if h.owner ≠ thread then .wait
    else match access with
      | .write => .refused (.reentrantUpdate key.name)
      | .read => .granted (l.hold key { h with depth := h.depth + 1 })

/-- A guard of a lock is dropped; with the last one the lock is free. -/
def release (l : Locks) (key : LockKey) : Locks :=
  match l.holder? key with
  | none => l
  | some h => if h.depth ≤ 1 then l.free key else l.hold key { h with depth := h.depth - 1 }

/-! ### Who holds a lock afterwards -/

theorem holder?_free (l : Locks) (key other : LockKey) :
    (l.free key).holder? other = if other = key then none else l.holder? other := by
  obtain ⟨held⟩ := l
  simp only [holder?, free]
  induction held with
  | nil => simp
  | cons p held ih => grind

theorem holder?_hold (l : Locks) (key other : LockKey) (h : Holder) :
    (l.hold key h).holder? other = if other = key then some h else l.holder? other := by
  have free := holder?_free l key other
  simp only [holder?, hold] at *
  grind

theorem holder?_release (l : Locks) (key other : LockKey) :
    (l.release key).holder? other =
      if other = key then
        (l.holder? key).bind fun h =>
          if h.depth ≤ 1 then none else some { h with depth := h.depth - 1 }
      else l.holder? other := by
  unfold release
  cases hk : l.holder? key with
  | none => grind
  | some h => grind [holder?_free, holder?_hold]

end Locks

end DoubleRatchet
