/-
DoubleRatchet/Proofs/Exclusion.lean

One job at a time has a lock.

A lock that is taken for writing is held by one thread until it is released, and the
thread itself is refused it in the meantime.  So of the jobs that take it for writing one
at most is inside, and one at most is busy with what the lock is for, from when it takes
the lock until it leaves (`Exclusive`).  This is what a discipline needs to know of a
lock; what the lock is for makes no difference.
-/
import DoubleRatchet.Proofs.Disciplines

namespace DoubleRatchet

open Function (update)

/-! ### The locks of a device -/

/-- Who holds a lock of the device. -/
def Device.lockHolder? (d : Device) (lock : LockName) : Option Holder :=
  d.locks.holder? ⟨d.number, lock⟩

/-- The request is not about the lock. -/
def Request.Avoids (lock : LockName) : Request → Prop
  | acquire other _ | release other => other ≠ lock
  | _ => True

/-- A lock that is granted is held for the first time, or once more. -/
theorem Locks.acquire_granted {l l' : Locks} {thread : Nat} {key : LockKey} {access : Access}
    (h : l.acquire thread key access = .granted l') :
    (l.holder? key = none ∧ l' = l.hold key ⟨thread, 1⟩) ∨
      ∃ holder, l.holder? key = some holder ∧ access = .read ∧
        l' = l.hold key { holder with depth := holder.depth + 1 } := by
  unfold acquire at h
  split at h
  · cases h
    exact .inl ⟨‹_›, rfl⟩
  · split at h
    · cases h
    · split at h
      · cases h
      · cases h
        exact .inr ⟨_, ‹_›, rfl, rfl⟩

/-- Other requests leave a lock alone. -/
theorem Device.Meets.lockHolder?_eq {d d' : Device} {thread : Nat} {r : Request}
    {reply : Except Error r.Reply} {lock : LockName} (h : d.Meets thread r reply d')
    (avoids : r.Avoids lock) : d'.lockHolder? lock = d.lockHolder? lock := by
  cases h with
  | @granted name access locks granted =>
    have other : (⟨d.number, lock⟩ : LockKey) ≠ ⟨d.number, name⟩ := by
      rintro ⟨⟩
      exact avoids rfl
    show locks.holder? _ = d.locks.holder? _
    obtain ⟨-, rfl⟩ | ⟨_, -, -, rfl⟩ := Locks.acquire_granted granted
    · rw [Locks.holder?_hold, if_neg other]
    · rw [Locks.holder?_hold, if_neg other]
  | released name =>
    have other : (⟨d.number, lock⟩ : LockKey) ≠ ⟨d.number, name⟩ := by
      rintro ⟨⟩
      exact avoids rfl
    show (d.locks.release _).holder? _ = d.locks.holder? _
    rw [Locks.holder?_release, if_neg other]
  | _ => rfl

/-! ### Who is inside, and who is busy -/

/-- Whoever is inside has the lock, and one job at most is busy. -/
structure Exclusive {τ : Type} (lock : LockName) (inside busy : τ → Prop) (s : Shared)
    (jobs : Underway τ) : Prop where
  held : ∀ {n thread t}, jobs n = some (thread, t) → inside t →
    s.device.lockHolder? lock = some ⟨thread, 1⟩
  alone : ∀ {n n' x x'}, jobs n = some x → jobs n' = some x' → busy x.2 → busy x'.2 → n = n'

namespace Exclusive

variable {τ : Type} {lock : LockName} {inside busy : τ → Prop} {s s' : Shared}
  {jobs jobs' : Underway τ} {n thread : Nat} {t t' : τ}

theorem start : Exclusive lock inside busy s fun _ => none where
  held := nofun
  alone := nofun

/-- Besides a job that is busy nobody is. -/
theorem idle (h : Exclusive lock inside busy s jobs) (own : jobs n = some (thread, t)) (at_work : busy t)
    {m : Nat} {y : Nat × τ} (ne : m ≠ n) (hy : jobs m = some y) : ¬busy y.2 :=
  fun there => ne (h.alone hy own there at_work)

/-- Some jobs may have gone. -/
theorem sub (h : Exclusive lock inside busy s jobs)
    (same : s'.device.lockHolder? lock = s.device.lockHolder? lock)
    (sub : ∀ {n y}, jobs' n = some y → jobs n = some y) : Exclusive lock inside busy s' jobs' where
  held hx there := same.trans (h.held (sub hx) there)
  alone hx hx' := h.alone (sub hx) (sub hx')

/-- A job goes on with what it is busy with, if anything. -/
theorem step (h : Exclusive lock inside busy s jobs) (own : jobs n = some (thread, t))
    (same : s'.device.lockHolder? lock = s.device.lockHolder? lock) (out : inside t' → inside t)
    (rest : busy t' → busy t) :
    Exclusive lock inside busy s' (update jobs n (some (thread, t'))) where
  held hx there := by
    rcases Underway.of_update hx with ⟨-, ⟨⟩⟩ | ⟨-, hx⟩
    · exact same.trans (h.held own (out there))
    · exact same.trans (h.held hx there)
  alone hx hx' there there' := by
    rcases Underway.of_update hx with ⟨rfl, ⟨⟩⟩ | ⟨-, old⟩ <;>
      rcases Underway.of_update hx' with ⟨rfl, ⟨⟩⟩ | ⟨-, old'⟩
    · rfl
    · exact h.alone own old' (rest there) there'
    · exact h.alone old own there (rest there')
    · exact h.alone old old' there there'

/-- A job comes, and has not begun. -/
theorem come (h : Exclusive lock inside busy s jobs)
    (same : s'.device.lockHolder? lock = s.device.lockHolder? lock) (out : ¬inside t')
    (rest : ¬busy t') : Exclusive lock inside busy s' (update jobs n (some (thread, t'))) where
  held hx there := by
    rcases Underway.of_update hx with ⟨-, ⟨⟩⟩ | ⟨-, hx⟩
    · exact absurd there out
    · exact same.trans (h.held hx there)
  alone hx hx' there there' := by
    rcases Underway.of_update hx with ⟨rfl, ⟨⟩⟩ | ⟨-, old⟩
    · exact absurd there rest
    · rcases Underway.of_update hx' with ⟨rfl, ⟨⟩⟩ | ⟨-, old'⟩
      · exact absurd there' rest
      · exact h.alone old old' there there'

/-- The lock is granted only when nobody is inside, and who is busy and rests is inside. -/
theorem idle_of_granted {locks : Locks} (h : Exclusive lock inside busy s jobs)
    (granted : s.device.locks.acquire thread ⟨s.device.number, lock⟩ .write = .granted locks)
    {m : Nat} {y : Nat × τ} (hy : jobs m = some y) (rests : busy y.2 → inside y.2) : ¬busy y.2 := by
  intro there
  have held := h.held hy (rests there)
  obtain ⟨free, -⟩ | ⟨_, -, ⟨⟩, -⟩ := Locks.acquire_granted granted
  rw [Device.lockHolder?, free] at held
  cases held

/-- A job takes the lock. -/
theorem enter {locks : Locks} (h : Exclusive lock inside busy s jobs)
    (rests : ∀ {m y}, jobs m = some y → busy y.2 → inside y.2) (work : ∀ {t}, inside t → busy t)
    (granted : s.device.locks.acquire thread ⟨s.device.number, lock⟩ .write = .granted locks)
    (hd : s'.device = { s.device with locks }) :
    Exclusive lock inside busy s' (update jobs n (some (thread, t'))) where
  held hx there := by
    rcases Underway.of_update hx with ⟨-, ⟨⟩⟩ | ⟨-, hx⟩
    · obtain ⟨-, rfl⟩ | ⟨_, -, ⟨⟩, -⟩ := Locks.acquire_granted granted
      rw [hd, Device.lockHolder?, Locks.holder?_hold, if_pos rfl]
    · exact absurd (work there) (h.idle_of_granted granted hx (rests hx))
  alone hx hx' there there' := by
    rcases Underway.of_update hx with ⟨rfl, ⟨⟩⟩ | ⟨-, old⟩ <;>
      rcases Underway.of_update hx' with ⟨rfl, ⟨⟩⟩ | ⟨-, old'⟩
    · rfl
    · exact absurd there' (h.idle_of_granted granted old' (rests old'))
    · exact absurd there (h.idle_of_granted granted old (rests old))
    · exact h.alone old old' there there'

/-- A job releases the lock. -/
theorem leave (h : Exclusive lock inside busy s jobs) (own : jobs n = some (thread, t))
    (at_work : busy t) (work : ∀ {t}, inside t → busy t) (out : ¬inside t') :
    Exclusive lock inside busy s' (update jobs n (some (thread, t'))) where
  held hx there := by
    rcases Underway.of_update hx with ⟨-, ⟨⟩⟩ | ⟨ne, hx⟩
    · exact absurd there out
    · exact absurd (work there) (h.idle own at_work ne hx)
  alone hx hx' there there' := by
    rcases Underway.of_update hx with ⟨rfl, ⟨⟩⟩ | ⟨ne, old⟩ <;>
      rcases Underway.of_update hx' with ⟨rfl, ⟨⟩⟩ | ⟨ne', old'⟩
    · rfl
    · exact absurd there' (h.idle own at_work ne' old')
    · exact absurd there (h.idle own at_work ne old)
    · exact h.alone old old' there there'

end Exclusive

end DoubleRatchet
