/-
DoubleRatchet/Window.lean

Keys that are used once, whatever the order in which they are asked for.  A chain
gives one key after another and cannot go back; a `Window` is a chain together with
the keys that were skipped on the way.  A request below the index of the chain is
served from the skipped keys, any other one by moving the chain past it.

Sessions and groups have chains of different make, so a window is written over any
`ChainRule`.  How far a request may be ahead, and how many skipped keys are kept,
is bounded; the oldest skipped key gives way first.
-/
import DoubleRatchet.Error
import DoubleRatchet.Limits

namespace DoubleRatchet

/-! ### Lists -/

/-- Put new values behind old ones.  Each new value pushes out at most one of the oldest, and only
while there are more than `limit`. -/
def keepNewest {α : Type} (limit : Nat) (old new : List α) : List α :=
  (old ++ new).drop (min new.length (old.length + new.length - limit))

/-- Change the first value that satisfies `p`. -/
def changeFirst {α : Type} (p : α → Bool) (f : α → α) : List α → List α
  | [] => []
  | a :: as => if p a then f a :: as else a :: changeFirst p f as

theorem length_keepNewest {α : Type} (limit : Nat) (old new : List α) (h : old.length ≤ limit) :
    (keepNewest limit old new).length = min limit (old.length + new.length) := by
  simp only [keepNewest, List.length_drop, List.length_append]
  omega

@[simp] theorem length_changeFirst {α : Type} (p : α → Bool) (f : α → α) (as : List α) :
    (changeFirst p f as).length = as.length := by
  induction as with
  | nil => rfl
  | cons a as ih => simp only [changeFirst]; split <;> simp [ih]

theorem find?_changeFirst {α : Type} (p : α → Bool) (f : α → α) (as : List α)
    (h : ∀ a, p a → p (f a)) : (changeFirst p f as).find? p = (as.find? p).map f := by
  induction as with
  | nil => rfl
  | cons a as ih =>
    by_cases ha : p a
    · simp [changeFirst, ha, h a ha]
    · simp [changeFirst, ha, ih]

/-! ### Windows -/

/-- How a chain `C` gives keys `K`. -/
structure ChainRule (C K : Type) where
  /-- The number of the next key. -/
  index : C → UInt32
  /-- The chain after its next key; fails when the numbers run out. -/
  next : C → Except Error C
  /-- The next key. -/
  key : C → K
  /-- The number of a key. -/
  number : K → UInt32

/-- A chain and the keys that were skipped, oldest first. -/
structure Window (C K : Type) where
  chain : C
  skipped : List K := []
  deriving DecidableEq

namespace ChainRule

variable {C K : Type} (R : ChainRule C K)

/-- The next `n` keys and the chain after them. -/
def advance : (n : Nat) → C → Except Error (List K × C)
  | 0, c => .ok ([], c)
  | n + 1, c => do
    let after ← R.next c
    let (keys, last) ← advance n after
    return (R.key c :: keys, last)

/-- The chain after `n` keys, without making the keys. -/
def pass : (n : Nat) → C → Except Error C
  | 0, c => .ok c
  | n + 1, c => do pass n (← R.next c)

theorem pass_eq_advance (n : Nat) (c : C) : R.pass n c = (R.advance n c).map Prod.snd := by
  induction n generalizing c with
  | zero => rfl
  | succ n ih =>
    simp only [pass, advance]
    cases R.next c with
    | error e => rfl
    | ok after =>
      show R.pass n after = _
      rw [ih]
      cases h : R.advance n after <;> simp [h, bind, Except.bind, Except.map, pure, Except.pure]

end ChainRule

namespace Window

variable {C K : Type} (R : ChainRule C K)

/-- Whether a skipped key is kept. -/
def has (w : Window C K) (n : UInt32) : Bool := w.skipped.any (R.number · == n)

/-- Keep a skipped key. -/
def keep (w : Window C K) (key : K) : Window C K :=
  { w with skipped := keepNewest limits.skippedKeys w.skipped [key] }

/-- Take a skipped key out. -/
def takeSkipped? (w : Window C K) (n : UInt32) : Option (K × Window C K) :=
  (w.skipped.find? (R.number · == n)).map fun key =>
    (key, { w with skipped := w.skipped.eraseP (R.number · == n) })

/-- Take the key with a number.  Either it was skipped and is kept, or the chain moves past it and
the keys before it are kept for later. -/
def take (w : Window C K) (n : UInt32) : Except Error (K × Window C K) :=
  if n < R.index w.chain then
    match w.takeSkipped? R n with
    | some taken => .ok taken
    | none => .error (.duplicateMessage (R.index w.chain) n)
  else
    let ahead := n.toNat - (R.index w.chain).toNat
    if limits.forwardJump < ahead then invalid (.tooFarAhead limits.forwardJump)
    else do
      let (passed, chain) ← R.advance ahead w.chain
      let after ← R.next chain
      return (R.key chain, ⟨after, keepNewest limits.skippedKeys w.skipped passed⟩)

/-- The key that `take` gives.  The keys before it are not made, so a look costs only the steps of
the chain: whoever asks for a key far ahead need not be trusted yet. -/
def peek (w : Window C K) (n : UInt32) : Except Error K :=
  if n < R.index w.chain then
    match w.skipped.find? (R.number · == n) with
    | some key => .ok key
    | none => .error (.duplicateMessage (R.index w.chain) n)
  else
    let ahead := n.toNat - (R.index w.chain).toNat
    if limits.forwardJump < ahead then invalid (.tooFarAhead limits.forwardJump)
    else do
      let chain ← R.pass ahead w.chain
      let _ ← R.next chain
      return R.key chain

theorem peek_eq_take (w : Window C K) (n : UInt32) : w.peek R n = (w.take R n).map Prod.fst := by
  unfold peek take takeSkipped?
  split
  · cases w.skipped.find? (R.number · == n) <;> rfl
  · dsimp only
    split
    · rfl
    · rw [R.pass_eq_advance]
      cases R.advance (n.toNat - (R.index w.chain).toNat) w.chain with
      | error e => rfl
      | ok r =>
        simp only [Except.map, bind, Except.bind, pure, Except.pure]
        cases R.next r.2 <;> rfl

end Window

end DoubleRatchet
