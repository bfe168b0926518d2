/-
DoubleRatchet/World.lean

Several devices that write to each other, with one source of random bytes and a journal
of what their stores have written.  The store of a device may be made to fail: at one
request, by name, or by trusting nobody.
-/
import DoubleRatchet.Device
import DoubleRatchet.KeyGeneration
import DoubleRatchet.Store.Journal

namespace DoubleRatchet

/-- How a store goes wrong. -/
inductive Fault where
  /-- The request of this name fails. -/
  | failing (name : String)
  /-- Nobody is trusted in this direction. -/
  | distrusting (direction : Direction)
  deriving DecidableEq

/-- The fault with a name: that of a request, or of a direction. -/
def Fault.named : String → Fault
  | "distrust_sending" => distrusting .sending
  | "distrust_receiving" => distrusting .receiving
  | name => failing name

/-- A device and its address. -/
structure Member where
  address : Address
  device : Device

/-- Several devices. -/
structure World where
  members : List Member
  entropy : Entropy
  /-- The number of the member whose store goes wrong, and how. -/
  fault : Option (Nat × Fault) := none
  /-- What has been written, newest first, with the number of the member. -/
  journal : List (Nat × String) := []

/-- Set up a device; what is not given is made. -/
def drawMember (S : Suite) (number : Nat) (address : Address) (identity : Option KeyPair)
    (registrationId : Option UInt32) : Draw Member := do
  let identity ← match identity with
    | some k => pure k
    | none => S.drawKeyPair
  let registrationId ← match registrationId with
    | some n => pure n
    | none => drawRegistrationId false
  return ⟨address, { number, store := { identity, registrationId } }⟩

/-- Whether a request can be made to fail; the others always reach the store. -/
def StoreRequest.canFail : StoreRequest → Bool
  | containsPreKey _ | loadSignedPreKeys | storeSignedPreKey .. | containsSignedPreKey _
  | removeSignedPreKey _ | subDevices _ | deleteSession _ | deleteAllSessions _ => false
  | _ => true

/-- The answer that a fault gives in the place of the store, to the requests that it is about. -/
def Fault.answer? (q : StoreRequest) : Fault → Option (Except Error q.Reply)
  | failing name =>
    if q.canFail && name == q.name then some (.error (.storage (name ++ " failed"))) else none
  | distrusting direction =>
    match q with
    | .isTrusted _ _ asked => if asked = direction then some (.ok false) else none
    | _ => none

namespace World

/-- The answer that a member gets in the place of that of its store. -/
def faultyAnswer? (w : World) (i : Nat) (q : StoreRequest) : Option (Except Error q.Reply) :=
  (w.fault.filter (·.1 == i)).bind (·.2.answer? q)

/-- The answer of a device to a request of a member, and the world after it.  Every device has a
single thread, so it has an answer to all of them. -/
def answerOf (w : World) (i : Nat) (m : Member) (r : Request) : Except Error r.Reply × World :=
  match m.device.answer 0 r with
  | none => (.error (.storage "waiting for another thread"), w)
  | some (reply, device) => (reply, { w with members := w.members.set i { m with device } })

/-- Write down what a request to the store of a member has changed. -/
def note (w : World) (i : Nat) (q : StoreRequest) (reply : Except Error q.Reply) : World :=
  match q.line reply with
  | none => w
  | some text => { w with journal := (i, text) :: w.journal }

/-- The answer to a request of a member, and the world after it. -/
def answer (w : World) (i : Nat) : (r : Request) → Except Error r.Reply × World
  | .store q =>
    match w.members[i]?, w.faultyAnswer? i q with
    | none, _ => (.error (.storage "no such member"), w)
    | some _, some reply => (reply, w)
    | some m, none =>
      let (reply, w) := w.answerOf i m (.store q)
      (reply, w.note i q reply)
  | r =>
    match w.members[i]? with
    | none => (.error (.storage "no such member"), w)
    | some m => w.answerOf i m r

/-- The journal, member by member, each line after the name of its member. -/
def report (w : World) : List String :=
  w.members.zipIdx.flatMap fun (m, i) =>
    (w.journal.reverse.filter (·.1 == i)).map fun line => m.address.name ++ ": " ++ line.2

/-- Compute with the random bytes of the world. -/
def draw {α : Type} (w : World) (x : Draw α) : Except Error α × World :=
  let (outcome, entropy) := x.run w.entropy
  (outcome, { w with entropy })

end World

/-! ### Running -/

section
variable {m : Type → Type} [Monad m] [MonadStateOf World m]

/-- The world around a member; `app` is what its application does with a plaintext. -/
def World.around (i : Nat) (app : Bytes → m (Except Error Unit)) : Surroundings m where
  answer
    | .deliver plain => app plain
    | r => modifyGet (·.answer i r)
  draw x := modifyGet (·.draw x)

/-- Run an operation of a member from its beginning to its end. -/
def Action.perform {α : Type} (i : Nat) (app : Bytes → m (Except Error Unit)) (a : Action α) :
    m (Except Error α) := Program.run (World.around i app) a.run

end

end DoubleRatchet
