/-
DoubleRatchet/Address.lean

Who is talked to.  A peer is a name and a device; the sender of a group chain is
a group and a peer.  Both are compared part by part, which orders the maps that
are keyed by them, and both have one written form.

`LockName` says what an operation guards: the session with a peer, or the chain
of a group sender.
-/
import Std.Data.ExtTreeMap

namespace DoubleRatchet

/-- A peer: a name and one of its devices. -/
structure Address where
  name : String
  device : UInt32
  deriving DecidableEq

/-- A member of a group as a sender. -/
structure GroupSender where
  group : String
  sender : Address
  deriving DecidableEq

/-! ### Order -/

instance : Ord Address := ⟨compareLex (compareOn Address.name) (compareOn Address.device)⟩

instance : Std.TransOrd Address :=
  inferInstanceAs (Std.TransCmp (compareLex (compareOn Address.name) (compareOn Address.device)))

instance : Std.LawfulEqOrd Address where
  eq_of_compare {a b} h := by
    obtain ⟨hn, hd⟩ := compareLex_eq_eq.mp h
    have hn : a.name = b.name := Std.compare_eq_iff_eq.mp (hn : compare a.name b.name = .eq)
    have hd : a.device = b.device := Std.compare_eq_iff_eq.mp (hd : compare a.device b.device = .eq)
    cases a; cases b; simp_all

instance : Ord GroupSender :=
  ⟨compareLex (compareOn GroupSender.group) (compareOn GroupSender.sender)⟩

instance : Std.TransOrd GroupSender :=
  inferInstanceAs
    (Std.TransCmp (compareLex (compareOn GroupSender.group) (compareOn GroupSender.sender)))

instance : Std.LawfulEqOrd GroupSender where
  eq_of_compare {a b} h := by
    obtain ⟨hg, hs⟩ := compareLex_eq_eq.mp h
    have hg : a.group = b.group := Std.compare_eq_iff_eq.mp (hg : compare a.group b.group = .eq)
    have hs : a.sender = b.sender := Std.compare_eq_iff_eq.mp (hs : compare a.sender b.sender = .eq)
    cases a; cases b; simp_all

/-! ### Written form -/

/-- The name, a colon and the device. -/
def Address.text (a : Address) : String := a.name ++ ":" ++ toString a.device

/-- The group, the name and the device, with double colons between them. -/
def GroupSender.text (g : GroupSender) : String :=
  g.group ++ "::" ++ g.sender.name ++ "::" ++ toString g.sender.device

/-! ### Locks -/

/-- What an operation guards while it loads, changes and stores it. -/
inductive LockName where
  /-- The session with a peer. -/
  | session (peer : Address)
  /-- The chain of a group sender. -/
  | senderKey (sender : GroupSender)
  deriving DecidableEq

/-- What is guarded, in words. -/
def LockName.text : LockName → String
  | session peer => "session " ++ peer.text
  | senderKey sender => "sender key " ++ sender.text

end DoubleRatchet
