/-
DoubleRatchet/Proofs/Origins.lean

Where the chains of a group sender come from.

A chain has a beginning, its `Origin`: the number that it goes by, its first key, and the
key that its messages are signed with.  Everything that is said of the chain says so from
some place on: an announcement tells the key of a place (`Origin.Announces`), and a
record has a window from a place on (`Origin.Begins`).

    first ──► ··· ──► place of an announcement ──► ··· ──► place of a window ──► ···

Once a record knows a chain it knows it for good, unless it is told of another chain by
the same number (`GroupRecord.Knows.after`).
-/
import DoubleRatchet.Proofs.GroupOnce

namespace DoubleRatchet

/-- The beginning of a chain of a group sender. -/
structure Origin where
  keyId : UInt32
  first : GroupChainKey
  signingKey : PublicKey

section
variable (S : Suite)

namespace Origin

/-- An announcement tells of the chain from some place on. -/
structure Announces (o : Origin) (m : ChainAnnouncement) : Prop where
  keyId : m.keyId = o.keyId
  signingKey : m.signingKey = o.signingKey
  place : Window.Leads (GroupChainKey.rule S) o.first ⟨m.iteration, m.chainKey⟩

/-- What is kept of the chain has come from its first key. -/
structure Begins (o : Origin) (c : GroupChain) : Prop where
  keyId : c.keyId = o.keyId
  signingKey : c.signingKey = o.signingKey
  window : c.window.From (GroupChainKey.rule S) o.first

end Origin

/-- There are chains, and the newest one with the number of the origin, if there is any, begins
there. -/
structure GroupRecord.Knows (r : GroupRecord) (o : Origin) : Prop where
  known : r.isEmpty = false
  begins : ∀ c, r.chain o.keyId = .ok c → o.Begins S c

/-- The call tells of no other chain by the number of the origin. -/
def GroupCall.Of (o : Origin) (call : GroupCall) : Prop :=
  ∀ m, call = .learn m → m.keyId = o.keyId → o.Announces S m

end

variable {S : Suite} {sender : GroupSender} {o : Origin} {m : ChainAnnouncement}
  {g message : GroupMessage} {plain : Bytes} {e e' : Entropy} {r r' : GroupRecord}

/-! ### What is announced -/

/-- The chain that an announcement tells of. -/
def ChainAnnouncement.chain (m : ChainAnnouncement) : GroupChain :=
  ⟨m.keyId, ⟨⟨m.iteration, m.chainKey⟩, []⟩, m.signingKey, none⟩

@[simp] theorem ChainAnnouncement.keyId_chain (m : ChainAnnouncement) : m.chain.keyId = m.keyId := rfl

theorem Origin.Announces.begins (h : o.Announces S m) : o.Begins S m.chain :=
  ⟨h.keyId, h.signingKey, ⟨h.place, nofun⟩⟩

/-- The place that a chain has come to can be announced. -/
theorem Origin.Begins.announces {c : GroupChain} (h : o.Begins S c) : o.Announces S c.announcement :=
  ⟨h.keyId, h.signingKey, h.window.chain⟩

/-! ### What a record knows -/

namespace GroupRecord

/-- A record knows the chains that it has been told of. -/
theorem knows_add (h : o.Announces S m) :
    (r.add m.keyId m.iteration m.chainKey m.signingKey).Knows S o where
  known := by simp [isEmpty, GroupRecord.add, limits]
  begins c hc := by
    rcases chain_add hc with ⟨-, rfl⟩ | ⟨other, -⟩
    · exact h.begins
    · exact absurd h.keyId.symm other

theorem Knows.add (h : r.Knows S o) (of : m.keyId = o.keyId → o.Announces S m) :
    (r.add m.keyId m.iteration m.chainKey m.signingKey).Knows S o where
  known := by simp [isEmpty, GroupRecord.add, limits]
  begins c hc := by
    rcases chain_add hc with ⟨same, rfl⟩ | ⟨-, old⟩
    · exact (of same.symm).begins
    · exact h.begins c old

theorem Knows.encrypt (h : r.Knows S o)
    (sent : (r.encrypt S sender plain).run e = (.ok (message, r'), e')) : r'.Knows S o := by
  obtain ⟨c, older, next, chains, moved, rfl⟩ := encrypt_ok sent
  obtain rfl : r = ⟨c :: older⟩ := congrArg GroupRecord.mk chains
  refine ⟨rfl, fun d hd => ?_⟩
  rcases chain_cons (c := c) hd rfl with ⟨own, rfl⟩ | ⟨-, old⟩
  · have begins := h.begins c (by simp [chain, own])
    exact ⟨begins.keyId, begins.signingKey, begins.window.next moved⟩
  · exact h.begins d old

theorem Knows.decrypt (h : r.Knows S o) (read : r.decrypt S g = .ok (plain, r')) :
    r'.Knows S o := by
  obtain ⟨c, key, window, named, -, taken, -, rfl⟩ := decrypt_ok read
  refine ⟨by rw [isEmpty_setChain]; exact h.known, fun d hd => ?_⟩
  rcases chain_setChain hd (mem_of_chain named).2 with ⟨same, rfl⟩ | ⟨-, old⟩
  · have begins := h.begins c (by rw [same]; exact named)
    exact ⟨begins.keyId, begins.signingKey, (begins.window.take (GroupChainKey.counts S) taken).1⟩
  · exact h.begins d old

end GroupRecord

/-! ### Through a run -/

theorem GroupCall.Changes.knows {call : GroupCall} (h : call.Changes S sender r r')
    (hr : r.Knows S o) (of : call.Of S o) : r'.Knows S o := by
  cases h with
  | same => exact hr
  | made _ none =>
    rw [hr.known] at none
    cases none
  | learned m => exact hr.add (of m rfl)
  | sent h => exact hr.encrypt h
  | read _ h => exact hr.decrypt h

theorem GroupRecord.Knows.after {s : Site} {calls : List (GroupCall × App)}
    (h : (s.store.loadSenderKey sender).Knows S o) (of : ∀ call ∈ calls, call.1.Of S o) :
    ((s.afterGroup S sender calls).store.loadSenderKey sender).Knows S o := by
  induction calls generalizing s with
  | nil => exact h
  | cons call calls ih =>
    rw [List.forall_mem_cons] at of
    exact ih ((call.1.changes S sender call.2 s).knows h of.1) of.2

end DoubleRatchet
