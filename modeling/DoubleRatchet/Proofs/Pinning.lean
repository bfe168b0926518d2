/-
DoubleRatchet/Proofs/Pinning.lean

Whom a failed call has pinned.

An identity is pinned when it is saved for the first time, and from then on no other one
is trusted.  A call that fails should pin nobody.  Starting a session and encrypting keep
to that: they save the identity together with the session.  Decrypting does not:

* a pre-key message pins the identity that its envelope names as soon as there is a
  session for it, before anything is decrypted;
* a message pins the identity of the session that has decrypted it before the
  application gets the plaintext, which it can refuse.

`Call.pinsEarly` is that identity.  It is all that a failed call changes of what is
pinned (`failure_pins`): nobody else is touched, one that was pinned before stays, and
somebody new is pinned exactly if the peer had nobody yet.  Nobody has to have made the
message for that (`forgery_pins`).
-/
import DoubleRatchet.Proofs.Failures

namespace DoubleRatchet

/-! ### What is pinned early -/

/-- The identity that a call pins while it can still fail: that of the envelope of a pre-key message
once there is a session for it, and that of the session that has decrypted a message. -/
def Call.pinsEarly (S : Suite) (peer : Address) (s : Site) : Call → Option PublicKey
  | .decryptPreKey m =>
    (s.store.accept S peer (s.store.loadSession peer) m).toOption.map fun _ => m.identity
  | .decrypt m =>
    if s.store.sessions.contains peer then
      match (((s.store.loadSession peer).decrypt S m).run s.entropy).1 with
      | .ok (_, record) => record.current.remoteIdentity.filter (s.store.isTrusted peer)
      | .error _ => none
    else none
  | .start _ | .encrypt _ | .pin _ => none

section
variable {S : Suite} {app : App} {peer : Address} {c : Call} {s s' : Site} {e : Error}
  {key : PublicKey}

/-- The store with the identity that a call pins early. -/
def Store.pinned (s : Store) (peer : Address) (early : Option PublicKey) : Store :=
  early.elim s (s.saveIdentity peer)

/-- A message of a session pins somebody only if the application has refused what it says. -/
theorem decryptMessage_pins {m : RatchetMessage}
    (h : (decryptMessage S peer m).alone app s = (.error e, s')) :
    s'.store = s.store.pinned peer ((Call.decrypt m).pinsEarly S peer s) ∧
      ∀ key ∈ (Call.decrypt m).pinsEarly S peer s, ∃ plain,
        ((decryptMessage S peer m).alone accepting s).1 = .ok plain ∧ app plain = .error e := by
  rw [alone_decryptMessage] at h ⊢
  dsimp only [Call.pinsEarly]
  by_cases known : s.store.sessions.contains peer
  · rw [if_pos known] at h
    rw [if_pos known, if_pos known]
    rcases ran : ((s.store.loadSession peer).decrypt S m).run s.entropy
      with ⟨err | ⟨plain, record⟩, entropy⟩
    · rw [ran] at h
      cases h
      exact ⟨rfl, nofun⟩
    rw [ran] at h
    dsimp only at h ⊢
    cases theirs : record.current.remoteIdentity with
    | none =>
      rw [theirs] at h
      cases h
      exact ⟨rfl, nofun⟩
    | some remote =>
      rw [theirs] at h
      dsimp only at h ⊢
      rw [Option.filter_some]
      by_cases trusted : s.store.isTrusted peer remote
      · -- only the application can have made the call fail
        rw [if_pos trusted] at h
        rw [if_pos trusted, if_pos trusted]
        cases refused : app plain with
        | error err =>
          rw [refused] at h
          cases h
          exact ⟨rfl, fun key _ => ⟨plain, rfl, refused⟩⟩
        | ok _ =>
          rw [refused] at h
          cases h
      · rw [if_neg trusted] at h
        cases h
        rw [if_neg trusted]
        exact ⟨rfl, nofun⟩
  · rw [if_neg known] at h
    cases h
    rw [if_neg known]
    exact ⟨rfl, nofun⟩

theorem decryptPreKeyMessage_pins {m : PreKeyMessage}
    (h : (decryptPreKeyMessage S peer m).alone app s = (.error e, s')) :
    s'.store = s.store.pinned peer ((Call.decryptPreKey m).pinsEarly S peer s) := by
  rw [alone_decryptPreKeyMessage] at h
  dsimp only [Call.pinsEarly]
  rcases accepted : s.store.accept S peer (s.store.loadSession peer) m with err | ⟨used, record⟩
  · rw [accepted] at h
    cases h
    rfl
  rw [accepted] at h
  dsimp only at h
  rcases ran : (record.decrypt S m.message).run s.entropy with ⟨err | ⟨plain, record⟩, entropy⟩
  · rw [ran] at h
    cases h
    rfl
  rw [ran] at h
  dsimp only at h
  cases refused : app plain with
  | error err =>
    rw [refused] at h
    cases h
    rfl
  | ok _ =>
    rw [refused] at h
    cases h

/-- A failed call has left the store as it was, but for what it pins early. -/
theorem Call.run_error_pins (h : c.run S peer app s = (.error e, s')) :
    s'.store = s.store.pinned peer (c.pinsEarly S peer s) := by
  cases c with
  | start bundle =>
    rw [startSession_error (Action.alone_map_error h)]
    rfl
  | encrypt plain =>
    rw [encrypt_error (Action.alone_map_error h)]
    rfl
  | decrypt m => exact (decryptMessage_pins (Action.alone_map_error h)).1
  | decryptPreKey m => exact decryptPreKeyMessage_pins (Action.alone_map_error h)
  | pin identity => cases h

/-- Nobody is pinned early who is not trusted. -/
theorem Call.pinsEarly_trusted (h : c.pinsEarly S peer s = some key) :
    s.store.isTrusted peer key := by
  cases c with
  | start bundle => cases h
  | encrypt plain => cases h
  | pin identity => cases h
  | decryptPreKey m =>
    unfold pinsEarly at h
    obtain ⟨⟨used, record⟩, accepted, rfl⟩ := Option.map_eq_some_iff.mp h
    exact (Store.accept_ok (toOption_eq_some.mp accepted)).1
  | decrypt m =>
    unfold pinsEarly at h
    dsimp only at h
    split at h
    · split at h
      · exact (Option.filter_eq_some_iff.mp h).2
      · cases h
    · cases h

/-! ### Who is pinned afterwards -/

namespace Store

theorem identities_pinned_of_ne (s : Store) {peer other : Address} (ne : other ≠ peer)
    (early : Option PublicKey) :
    (s.pinned peer early).identities[other]? = s.identities[other]? := by
  cases early with
  | none => rfl
  | some key => simp [pinned, saveIdentity, Std.ExtTreeMap.getElem?_insert, ne.symm]

theorem identities_pinned (s : Store) (peer : Address) (early : Option PublicKey) :
    (s.pinned peer early).identities[peer]? = early.or s.identities[peer]? := by
  cases early with
  | none => rfl
  | some key => exact s.getElem?_saveIdentity peer key

end Store

/-- **What a failed call pins.**  A failed call leaves everybody else alone, and an identity that was
pinned before stays.  It leaves all as it was exactly if what it pins early was pinned before; else
its peer is pinned to that.  Starting a session and encrypting pin nobody early, and a message of a
session does only if the application has refused what it says. -/
theorem failure_pins (h : c.run S peer app s = (.error e, s')) :
    (∀ other : Address, other ≠ peer → s'.store.identities[other]? = s.store.identities[other]?) ∧
      (∀ key, s.store.identities[peer]? = some key → s'.store.identities[peer]? = some key) ∧
      ((∀ address : Address, s'.store.identities[address]? = s.store.identities[address]?) ↔
        ∀ key ∈ c.pinsEarly S peer s, s.store.identities[peer]? = some key) ∧
      ∀ key ∈ c.pinsEarly S peer s, s'.store.identities[peer]? = some key ∧
        ((∃ m, c = .decryptPreKey m ∧ m.identity = key) ∨
          ∃ m plain, c = .decrypt m ∧ app plain = .error e ∧
            ((decryptMessage S peer m).alone accepting s).1 = .ok plain) := by
  have stored := c.run_error_pins h
  have others : ∀ other : Address, other ≠ peer →
      s'.store.identities[other]? = s.store.identities[other]? := by
    intro other ne
    rw [stored]
    exact s.store.identities_pinned_of_ne ne _
  have own : s'.store.identities[peer]? = (c.pinsEarly S peer s).or s.store.identities[peer]? := by
    rw [stored]
    exact s.store.identities_pinned peer _
  refine ⟨others, ?kept, ?unchanged, ?early⟩
  case kept =>
    intro key kept
    rw [own, kept]
    cases early : c.pinsEarly S peer s with
    | none => rfl
    | some new =>
      -- a trusted identity is the one that is kept
      rw [Store.isTrusted_iff.mp (Call.pinsEarly_trusted early) key kept]
      rfl
  case unchanged =>
    constructor
    · intro same key early
      rw [← same peer, own, Option.mem_def.mp early]
      rfl
    · intro known address
      by_cases ne : address = peer
      · subst ne
        rw [own]
        cases early : c.pinsEarly S address s with
        | none => rfl
        | some key => exact (known key early).symm
      · exact others address ne
  case early =>
    intro key early
    refine ⟨?_, ?_⟩
    · rw [own, Option.mem_def.mp early]
      rfl
    · cases c with
      | decryptPreKey m =>
        obtain ⟨_, -, same⟩ := Option.map_eq_some_iff.mp (Option.mem_def.mp early)
        exact .inl ⟨m, rfl, same⟩
      | decrypt m =>
        obtain ⟨plain, read, refused⟩ :=
          (decryptMessage_pins (Action.alone_map_error h)).2 key early
        exact .inr ⟨m, plain, rfl, refused, read⟩
      | start bundle => cases early
      | encrypt plain => cases early
      | pin identity => cases early

end

/-- A device that knows its peer pins nobody when the application refuses the next message. -/
theorem failure_pins_known :
    let known := ((Call.decryptPreKey Toy.first).run Toy.suite Toy.alice accepting Toy.bob).2
    let failed := (Call.decryptPreKey Toy.second).run Toy.suite Toy.alice
      (fun _ => .error .noEntropy) known
    failed.1.toOption.isNone ∧
      known.store.identities[Toy.alice]? = some (Toy.keyPair 4).publicKey ∧
      ∀ address : Address,
        failed.2.store.identities[address]? = known.store.identities[address]? := by
  intro known failed
  have none : failed.1.toOption.isNone := by decide +kernel
  have pinned : known.store.identities[Toy.alice]? = some (Toy.keyPair 4).publicKey := by
    decide +kernel
  have early : (Call.decryptPreKey Toy.second).pinsEarly Toy.suite Toy.alice known
      = some (Toy.keyPair 4).publicKey := by decide +kernel
  refine ⟨none, pinned, ?_⟩
  rcases ran : failed with ⟨e | answer, s'⟩
  · obtain ⟨-, -, unchanged, -⟩ := failure_pins ran
    refine unchanged.mpr fun key h => ?_
    rw [early] at h
    rw [pinned, h]
  · rw [ran] at none
    cases none

/-- A pre-key message whose envelope names an identity that has nothing to do with it fails, and pins
the identity to a peer that has never been heard of. -/
theorem forgery_pins :
    let forged := Toy.rewrap Toy.first none Toy.first.baseKey (Toy.keyPair 8).publicKey
    let failed := (Call.decryptPreKey forged).run Toy.suite Toy.alice accepting Toy.bob
    failed.1.toOption.isNone ∧ Toy.bob.store.identities[Toy.alice]? = none ∧
      failed.2.store.identities[Toy.alice]? = some (Toy.keyPair 8).publicKey := by
  refine ⟨?_, ?_, ?_⟩
  · decide +kernel
  · decide +kernel
  · decide +kernel

end DoubleRatchet
