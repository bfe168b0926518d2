/-
DoubleRatchet/Proofs/Outcomes.lean

Outcomes taken apart: what must have gone well if several steps in a row have.
-/
import DoubleRatchet.Error

namespace DoubleRatchet

variable {α β ε : Type}

theorem bind_eq_ok {x : Except ε α} {f : α → Except ε β} {b : β} :
    x >>= f = .ok b ↔ ∃ a, x = .ok a ∧ f a = .ok b := by
  cases x <;> simp [bind, Except.bind]

theorem bind_eq_error {x : Except Error α} {f : α → Except Error β} {e : Error} :
    x >>= f = .error e ↔ x = .error e ∨ ∃ a, x = .ok a ∧ f a = .error e := by
  cases x <;> simp [bind, Except.bind]

theorem needed_eq_ok {fault : MessageFault} {x : Option α} {a : α} :
    needed fault x = .ok a ↔ x = some a := by
  cases x <;> simp [needed, invalid]

theorem needed_eq_error {fault : MessageFault} {x : Option α} {e : Error} :
    needed fault x = .error e ↔ x = none ∧ e = .invalidMessage fault := by
  cases x <;> simp [needed, invalid, eq_comm]

theorem map_eq_ok {f : α → β} {x : Except Error α} {b : β} :
    x.map f = .ok b ↔ ∃ a, x = .ok a ∧ f a = b := by
  cases x <;> simp [Except.map]

theorem map_eq_error {f : α → β} {x : Except Error α} {e : Error} :
    x.map f = .error e ↔ x = .error e := by
  cases x <;> simp [Except.map]

theorem toOption_eq_some {x : Except ε α} {a : α} : x.toOption = some a ↔ x = .ok a := by
  cases x <;> simp [Except.toOption]

end DoubleRatchet
