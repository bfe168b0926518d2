/-
DoubleRatchet/Device.lean

A device: a store and the locks on it.  `Device.answer` says how it meets the requests
of its threads, one at a time, so that operations of several threads can be followed
through any order of their requests.
-/
import DoubleRatchet.Action

namespace DoubleRatchet

/-- A store and the locks on it. -/
structure Device where
  /-- What tells the locks of the device from those of others. -/
  number : Nat := 0
  store : Store
  locks : Locks := {}

/-- The answer of a device to a request of one of its threads, and the device after it; there is
none while the thread has to wait.  The application accepts every plaintext. -/
def Device.answer (d : Device) (thread : Nat) :
    (r : Request) → Option (Except Error r.Reply × Device)
  | .store r =>
    let (reply, store) := d.store.answer r
    some (reply, { d with store })
  | .acquire lock access =>
    match d.locks.acquire thread ⟨d.number, lock⟩ access with
    | .granted locks => some (.ok (), { d with locks })
    | .refused e => some (.error e, d)
    | .wait => none
  | .release lock => some (.ok (), { d with locks := d.locks.release ⟨d.number, lock⟩ })
  | .deliver _ => some (.ok (), d)

end DoubleRatchet
