/-
DoubleRatchet/Limits.lean

The bounds that keep a session, a record and a batch of keys finite.  They are
chosen once, before the first use, and stay as they are.
-/

namespace DoubleRatchet

/-- The bounds. -/
structure Limits where
  /-- Receiver chains of a session. -/
  receiverChains : Nat := 5
  /-- Earlier sessions kept with a peer. -/
  archivedSessions : Nat := 40
  /-- Skipped message keys of a chain. -/
  skippedKeys : Nat := 2000
  /-- How far a message may be ahead of its chain. -/
  forwardJump : Nat := 2000
  /-- Chains kept for a group sender. -/
  groupChains : Nat := 5
  /-- The greatest registration number. -/
  registrationBound : UInt32 := 16380
  /-- How many numbers there are for one-time pre-keys. -/
  preKeyModulus : UInt32 := 0xfffffe
  deriving DecidableEq

/-- The bounds in force. -/
def limits : Limits := {}

/-- Choose the bounds; a second choice is refused. -/
def Limits.choose (chosen : Option Limits) (wanted : Limits) : Except String Limits :=
  match chosen with
  | none => .ok wanted
  | some _ => .error "Config already initialized"

/-- The number of a one-time pre-key that is never used up. -/
def lastResortPreKey : UInt32 := 0xffffff

end DoubleRatchet
