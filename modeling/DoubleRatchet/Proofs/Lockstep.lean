/-
DoubleRatchet/Proofs/Lockstep.lean

The two sides of a session, step by step.

The ladders of both sides have the same rungs, but for one: the side that has heard of
the other last is one rung ahead (`Lockstep.leads`).  Sending leaves the ladders as they
are.  A message is from a rung that the reader has heard of, or from the one rung by
which the sender is ahead; then the reader climbs that rung and one of its own, and is
ahead in its turn (`Lockstep.turned`).
-/
import Mathlib.Data.List.Nodup
import DoubleRatchet.Proofs.Ladder

namespace DoubleRatchet

/-! ### Two sides -/

namespace HandshakeRole

/-- The other side. -/
def other : HandshakeRole → HandshakeRole
  | initiator => responder
  | responder => initiator

@[simp] theorem other_other (role : HandshakeRole) : role.other.other = role := by
  cases role <;> rfl

@[simp] theorem other_ne (role : HandshakeRole) : role.other ≠ role := by
  cases role <;> nofun

@[simp] theorem ne_other (role : HandshakeRole) : role ≠ role.other := by
  cases role <;> nofun

theorem eq_or_eq_other (role side : HandshakeRole) : side = role ∨ side = role.other := by
  cases role <;> cases side <;> simp [other]

theorem exists_role {P : HandshakeRole → Prop} : (∃ role, P role) ↔ P .initiator ∨ P .responder := by
  constructor
  · rintro ⟨role, h⟩
    cases role
    · exact .inl h
    · exact .inr h
  · rintro (h | h)
    · exact ⟨_, h⟩
    · exact ⟨_, h⟩

/-- What a side is in the session that one of the sides has started. -/
def roleOf : (starter side : HandshakeRole) → HandshakeRole
  | initiator, side => side
  | responder, side => side.other

@[simp] theorem roleOf_self (starter : HandshakeRole) : starter.roleOf starter = initiator := by
  cases starter <;> rfl

@[simp] theorem roleOf_other (starter : HandshakeRole) :
    starter.roleOf starter.other = responder := by
  cases starter <;> rfl

/-- Something of both sides, with another value for one of them. -/
def put {α : Type} (f : HandshakeRole → α) (role : HandshakeRole) (a : α) : HandshakeRole → α :=
  fun side => if side = role then a else f side

variable {α : Type} (f : HandshakeRole → α) (role : HandshakeRole) (a : α)

@[simp] theorem put_self : put f role a role = a := if_pos rfl

@[simp] theorem put_other : put f role a role.other = f role.other := if_neg (other_ne role)

@[simp] theorem put_at_other : put f role.other a role = f role := if_neg (ne_other role)

@[simp] theorem put_same : put f role (f role) = f := by
  funext side
  unfold put
  split
  · rename_i same
    rw [same]
  · rfl

@[simp] theorem put_put (b : α) : put (put f role a) role b = put f role b := by
  funext side
  unfold put
  split <;> rfl

/-- What holds of the new value and of the one of the other side holds of both. -/
theorem forall_put {P : HandshakeRole → α → Prop} (new : P role a)
    (old : P role.other (f role.other)) : ∀ side, P side (put f role a side) := by
  intro side
  rcases eq_or_eq_other role side with rfl | rfl
  · rw [put_self]
    exact new
  · rw [put_other]
    exact old

end HandshakeRole

open HandshakeRole

variable (S : Suite) in
/-- Both sides stand on ladders that agree. -/
structure Lockstep (identity : HandshakeRole → PublicKey) (ladder : HandshakeRole → Ladder)
    (session : HandshakeRole → SessionState) : Prop where
  /-- One side is one rung ahead. -/
  leads : ∃ role, (ladder role).below = (ladder role.other).rungs
  linked : ∀ role, Linked S (ladder role).rungs
  distinct : ∀ role, ((ladder role).rungs.map (·.key.publicKey)).Nodup
  stands : ∀ role, (session role).Stands S (ladder role)
  local_eq : ∀ role, (session role).localIdentity = some (identity role)
  remote_eq : ∀ role, (session role).remoteIdentity = some (identity role.other)

namespace Lockstep

variable {S : Suite} {identity : HandshakeRole → PublicKey} {ladder : HandshakeRole → Ladder}
  {session : HandshakeRole → SessionState} {role : HandshakeRole} {r : Rung} {m : RatchetMessage}
  {plain : Bytes} {e : Entropy}

/-! ### Rungs of both sides -/

theorem mem_own (h : (ladder role).below = (ladder role.other).rungs) :
    r ∈ (ladder role).own ↔ r = (ladder role).top ∨ r ∈ (ladder role.other).heard := by
  rw [Ladder.own, Ladder.rungs, everyOther_cons, h, List.mem_cons]
  rfl

/-- The other side has heard of every rung of ours, but for the one by which we may be ahead. -/
theorem own_cases (h : Lockstep S identity ladder session) (hr : r ∈ (ladder role).own) :
    r ∈ (ladder role.other).heard ∨
      (r = (ladder role).top ∧ (ladder role).below = (ladder role.other).rungs) := by
  obtain ⟨ahead, leads⟩ := h.leads
  rcases eq_or_eq_other role ahead with rfl | rfl
  · rcases (mem_own leads).mp hr with rfl | hr
    · exact .inr ⟨rfl, leads⟩
    · exact .inl hr
  · rw [other_other] at leads
    refine .inl ?_
    rw [Ladder.heard, leads]
    exact hr

theorem mem_rungs_of_heard (hr : r ∈ (ladder role).heard) : r ∈ (ladder role).rungs :=
  List.mem_cons_of_mem _ ((everyOther_sublist _).subset hr)

theorem nodup_heard (h : Lockstep S identity ladder session) (role : HandshakeRole) :
    ((ladder role).heard.map (·.key.publicKey)).Nodup :=
  (h.distinct role).sublist (((everyOther_sublist _).cons _).map _)

theorem zero_of_own (h : Lockstep S identity ladder session) (hr : r ∈ (ladder role).own) :
    r.chain.index = 0 :=
  ((h.linked role).rung r ((everyOther_sublist _).subset hr)).2

/-- A rung is known by its ratchet key. -/
theorem eq_of_key (h : Lockstep S identity ladder session) {r' : Rung}
    (hr : r ∈ (ladder role).rungs) (hr' : r' ∈ (ladder role).rungs)
    (same : r.key.publicKey = r'.key.publicKey) : r = r' :=
  List.inj_on_of_nodup_map (h.distinct role) hr hr' same

/-- A side may have another session, if that stands on its ladder too. -/
theorem stays (h : Lockstep S identity ladder session) {st : SessionState}
    (stands : st.Stands S (ladder role))
    (own : st.localIdentity = (session role).localIdentity)
    (theirs : st.remoteIdentity = (session role).remoteIdentity) :
    Lockstep S identity ladder (put session role st) := by
  refine { leads := h.leads, linked := h.linked, distinct := h.distinct, stands := ?stands
           local_eq := ?local_eq, remote_eq := ?remote_eq }
  case stands =>
    exact forall_put (P := fun side (st : SessionState) => st.Stands S (ladder side)) _ _ _ stands
      (h.stands _)
  case local_eq =>
    exact forall_put (P := fun side (st : SessionState) => st.localIdentity = some (identity side))
      _ _ _ (own.trans (h.local_eq role)) (h.local_eq _)
  case remote_eq =>
    exact forall_put
      (P := fun side (st : SessionState) => st.remoteIdentity = some (identity side.other))
      _ _ _ (theirs.trans (h.remote_eq role)) (h.remote_eq _)

/-- The window for the ratchet key of a rung comes from that rung. -/
theorem from_rung (h : Lockstep S identity ladder session) (hr : r ∈ (ladder role).heard)
    {window : Window ChainKey MessageKeys}
    (hw : (session role).window? r.key.publicKey = some window) :
    window.From (ChainKey.rule S) r.chain := by
  obtain ⟨r', hr', same, origin⟩ := (h.stands role).windows _ _ hw
  obtain rfl := h.eq_of_key (mem_rungs_of_heard hr') (mem_rungs_of_heard hr) same
  exact origin

/-- The top rung of the side that is ahead is the next one of the other side. -/
theorem top_eq_next (h : Lockstep S identity ladder session)
    (leads : (ladder role).below = (ladder role.other).rungs) :
    (ladder role).top = (ladder role.other).top.next S (ladder role).top.key := by
  have linked := h.linked role
  rw [Ladder.rungs, leads, Ladder.rungs] at linked
  generalize (ladder role).top = top at linked ⊢
  cases linked
  rfl

/-- The other side has not heard of the rung by which we are ahead. -/
theorem unheard_ahead (h : Lockstep S identity ladder session)
    (leads : (ladder role).below = (ladder role.other).rungs) :
    (ladder role).top.key.publicKey ∉ (ladder role.other).heard.map (·.key.publicKey) := by
  intro heard
  obtain ⟨r, hr, same⟩ := List.mem_map.mp heard
  have distinct := h.distinct role
  rw [Ladder.rungs, leads, List.map_cons, List.nodup_cons] at distinct
  exact distinct.1 (same ▸ List.mem_map_of_mem (mem_rungs_of_heard hr))

/-- A side has no window for a key that it has not heard of. -/
theorem window?_unheard (h : Lockstep S identity ladder session) {theirs : PublicKey}
    (unheard : theirs ∉ (ladder role).heard.map (·.key.publicKey)) :
    (session role).window? theirs = none := by
  rcases hw : (session role).window? theirs with - | window
  · rfl
  · obtain ⟨r, hr, same, -⟩ := (h.stands role).windows _ _ hw
    exact absurd (same ▸ List.mem_map_of_mem hr) unheard

/-- A key that a side has heard of and has no window for has given way to newer ones. -/
theorem given_way (h : Lockstep S identity ladder session) {theirs : PublicKey}
    (heard : theirs ∈ (ladder role).heard.map (·.key.publicKey))
    (none : (session role).window? theirs = none) :
    theirs ∈ ((ladder role).heard.map (·.key.publicKey)).drop limits.receiverChains := by
  obtain ⟨r, hr, rfl⟩ := List.mem_map.mp heard
  rcases (h.stands role).window?_isSome hr with there | gone
  · rw [none] at there
    cases there
  · exact gone

/-- The other side has no window for the rung by which we are ahead. -/
theorem window?_ahead (h : Lockstep S identity ladder session)
    (leads : (ladder role).below = (ladder role.other).rungs) :
    (session role.other).window? (ladder role).top.key.publicKey = none :=
  h.window?_unheard (h.unheard_ahead leads)

/-- If the other side has heard of our top rung, then as the newest one, and has a window for it. -/
theorem window?_top (h : Lockstep S identity ladder session)
    (heard : (ladder role).top.key.publicKey ∈ (ladder role.other).heard.map (·.key.publicKey)) :
    (session role.other).window? (ladder role).top.key.publicKey ≠ none := by
  obtain ⟨ahead, leads⟩ := h.leads
  rcases eq_or_eq_other role ahead with rfl | rfl
  · exact absurd heard (h.unheard_ahead leads)
  · rw [other_other] at leads
    have newest : (ladder role.other).heard
        = (ladder role).top :: everyOther (ladder role).below.tail := by
      rw [Ladder.heard, leads, Ladder.rungs, everyOther_cons]
    have distinct := h.nodup_heard role.other
    intro none
    have gone := h.given_way heard none
    rw [newest, List.map_cons] at distinct gone
    -- the newest one is never among those that have given way
    obtain ⟨kept, more⟩ : ∃ n, limits.receiverChains = n + 1 := ⟨_, rfl⟩
    rw [more, List.drop_succ_cons] at gone
    exact (List.nodup_cons.mp distinct).1 (List.mem_of_mem_drop gone)

/-- Either side may be called the first one. -/
theorem roleOf (h : Lockstep S identity ladder session) (starter : HandshakeRole) :
    Lockstep S (fun side => identity (starter.roleOf side))
      (fun side => ladder (starter.roleOf side)) (fun side => session (starter.roleOf side)) := by
  cases starter with
  | initiator => exact h
  | responder =>
    obtain ⟨ahead, leads⟩ := h.leads
    refine ⟨⟨ahead.other, ?_⟩, fun side => h.linked side.other, fun side => h.distinct side.other,
      fun side => h.stands side.other, fun side => h.local_eq side.other,
      fun side => h.remote_eq side.other⟩
    show (ladder ahead.other.other).below = (ladder ahead.other.other.other).rungs
    rw [other_other]
    exact leads

/-- Once the other side has turned its ratchet for that rung, it stands above it, with a new
window for it. -/
theorem reader_turned (hS : S.Lawful) (h : Lockstep S identity ladder session)
    (leads : (ladder role).below = (ladder role.other).rungs) (ours : KeyPair) {chain : SenderChain}
    (hc : (session role.other).senderChain = some chain) :
    ((session role.other).turnWith S (ladder role.other).top.root chain
        (ladder role).top.key.publicKey ours).Stands S
        ((ladder role.other).climb S (ladder role).top ours) ∧
      ((session role.other).turnWith S (ladder role.other).top.root chain
        (ladder role).top.key.publicKey ours).window? (ladder role).top.key.publicKey
        = some ⟨(ladder role).top.chain, []⟩ := by
  have proper₁ := ((h.linked role).rung _ List.mem_cons_self).1
  have proper₂ := ((h.linked role.other).rung _ List.mem_cons_self).1
  have turned := (h.stands role.other).turned hS proper₂ ours proper₁ hc (h.window?_ahead leads)
  rw [← h.top_eq_next leads] at turned
  exact turned

/-! ### Sending -/

/-- A side that sends makes its message with its top rung. -/
theorem encrypt (h : Lockstep S identity ladder session) {message : Message} {st' : SessionState}
    (made : (session role).encrypt S plain = .ok (message, st')) :
    Lockstep S identity ladder (put session role st') ∧
      ∃ m, message = SessionState.encrypt.wrap (session role) (identity role) m ∧
        (ladder role).top.Gives S (identity role) (identity role.other) plain m ∧
        ∃ c c', (session role).senderChain = some ⟨(ladder role).top.key, c⟩ ∧
          m.counter = c.index ∧
          st' = { session role with senderChain := some ⟨(ladder role).top.key, c'⟩ } ∧
          c'.index.toNat = c.index.toNat + 1 := by
  obtain ⟨stands, m, wrapped, gives, c, c', hc, counter, rfl, next⟩ :=
    (h.stands role).encrypt (h.zero_of_own (Ladder.top_mem_own _)) (h.local_eq role)
      (h.remote_eq role) made
  exact ⟨h.stays stands rfl rfl, m, wrapped, gives, c, c', hc, counter, rfl, next⟩

/-! ### Reading -/

/-- What a session makes of a message, once it has a window for it. -/
def opening (S : Suite) (plain : Bytes) (m : RatchetMessage) (st : SessionState)
    (window : Window ChainKey MessageKeys) : Except Error (Bytes × SessionState) :=
  match window.take (ChainKey.rule S) m.counter with
  | .ok (_, after) => .ok (plain, { st.setWindow m.ratchetKey after with pending := none })
  | .error err => .error err

theorem opening_of_taken {st : SessionState} {window after : Window ChainKey MessageKeys}
    {keys : MessageKeys} (taken : window.take (ChainKey.rule S) m.counter = .ok (keys, after)) :
    opening S plain m st window
      = .ok (plain, { st.setWindow m.ratchetKey after with pending := none }) := by
  rw [opening, taken]

theorem opening_ok {plain' : Bytes} {st st' : SessionState} {window : Window ChainKey MessageKeys}
    (h : opening S plain m st window = .ok (plain', st')) :
    ∃ keys after, window.take (ChainKey.rule S) m.counter = .ok (keys, after) ∧ plain' = plain ∧
      st' = { st.setWindow m.ratchetKey after with pending := none } := by
  unfold opening at h
  split at h
  · rename_i keys after taken
    cases h
    exact ⟨keys, after, taken, rfl, rfl⟩
  · cases h

/-- The reader has a window for the message, or has had one, or is one rung behind; and then it
climbs that rung. -/
theorem decrypt_cases (hS : S.Lawful) (h : Lockstep S identity ladder session)
    (hr : r ∈ (ladder role).own) (hm : r.Gives S (identity role) (identity role.other) plain m)
    (alive : e.dead = false) :
    (∃ window, r ∈ (ladder role.other).heard ∧
      (session role.other).window? m.ratchetKey = some window ∧
      ((session role.other).decrypt S m).run e
        = (opening S plain m (session role.other) window, e)) ∨
    (r ∈ (ladder role.other).heard ∧ (session role.other).window? m.ratchetKey = none) ∨
    (r = (ladder role).top ∧ (ladder role).below = (ladder role.other).rungs ∧
      (session role.other).window? m.ratchetKey = none ∧
      ∃ chain, (session role.other).senderChain = some chain ∧
        ((session role.other).decrypt S m).run e
          = (opening S plain m ((session role.other).turnWith S (ladder role.other).top.root chain
              m.ratchetKey (S.nextKeyPair e)) ⟨r.chain, []⟩, e.advance 32)) := by
  have stands := h.stands role.other
  have ready : (session role.other).senderChain.isNone = false := by simpa using stands.sound.ready
  have version : m.version = (session role.other).version := by
    rw [hm.version, stands.sound.version]
  have remote := h.remote_eq role.other
  rw [other_other] at remote
  have zero := h.zero_of_own hr
  rcases h.own_cases hr with heard | ⟨rfl, leads⟩
  · rcases hw : (session role.other).window? m.ratchetKey with - | window
    · exact .inr (.inl ⟨heard, rfl⟩)
    · -- the window comes from the rung that the message was made with
      refine .inl ⟨window, heard, rfl, ?_⟩
      have origin : window.From (ChainKey.rule S) r.chain := by
        rw [hm.ratchetKey] at hw
        exact h.from_rung heard hw
      rw [SessionState.run_decrypt, ready, SessionState.reach_known hw]
      simp only [version, Bool.false_eq_true, ↓reduceIte, ne_eq, not_true_eq_false]
      rw [SessionState.decryptOn_given hS hm zero remote (h.local_eq _) hw origin]
      rfl
  · -- the ratchet turns, and the new window stands where the rung begins
    have none := h.window?_ahead leads
    rw [← hm.ratchetKey] at none
    obtain ⟨n, c, hc, -⟩ := stands.sender
    refine .inr (.inr ⟨rfl, leads, none, _, hc, ?_⟩)
    rw [SessionState.run_decrypt, ready, SessionState.reach_turned none stands.root hc alive]
    simp only [version, Bool.false_eq_true, ↓reduceIte, ne_eq, not_true_eq_false]
    have new := (h.reader_turned hS leads (S.nextKeyPair e) hc).2
    rw [← hm.ratchetKey] at new
    generalize ht : (session role.other).turnWith S _ _ _ _ = st₁ at new ⊢
    have remote₁ : st₁.remoteIdentity = some (identity role) := by
      rw [← ht]
      exact remote
    have own₁ : st₁.localIdentity = some (identity role.other) := by
      rw [← ht]
      exact h.local_eq _
    rw [SessionState.decryptOn_given hS hm zero remote₁ own₁ new Window.from_new]
    rfl

/-- Reading with a window that is there leaves both sides on their ladders. -/
theorem opened (h : Lockstep S identity ladder session) (hr : r ∈ (ladder role.other).heard)
    (key : m.ratchetKey = r.key.publicKey) {window after : Window ChainKey MessageKeys}
    {keys : MessageKeys} (hw : (session role.other).window? m.ratchetKey = some window)
    (taken : window.take (ChainKey.rule S) m.counter = .ok (keys, after)) :
    Lockstep S identity ladder (put session role.other
      { (session role.other).setWindow m.ratchetKey after with pending := none }) := by
  rw [key] at hw ⊢
  have stands := (h.stands role.other).opened hr hw (h.from_rung hr hw) taken
  exact h.stays stands rfl rfl

/-- The side that is behind turns its ratchet for the rung above it, with a new key of its own. -/
theorem turned (hS : S.Lawful) (h : Lockstep S identity ladder session)
    (leads : (ladder role).below = (ladder role.other).rungs) {ours : KeyPair}
    (proper : ours.Proper S) (fresh : ours.publicKey ∉ (ladder role).rungs.map (·.key.publicKey))
    {chain : SenderChain} (hc : (session role.other).senderChain = some chain) :
    Lockstep S identity (put ladder role.other ((ladder role.other).climb S (ladder role).top ours))
      (put session role.other ((session role.other).turnWith S (ladder role.other).top.root chain
        (ladder role).top.key.publicKey ours)) := by
  have rungs : ((ladder role.other).climb S (ladder role).top ours).rungs
      = (ladder role).top.next S ours :: (ladder role).rungs := by
    rw [Ladder.climb, Ladder.rungs, ← leads]
    rfl
  have stands := (h.reader_turned hS leads ours hc).1
  refine { leads := ⟨role.other, ?leads⟩, linked := ?linked, distinct := ?distinct
           stands := ?stands, local_eq := ?local_eq, remote_eq := ?remote_eq }
  case leads =>
    rw [put_self, other_other]
    rw [put_at_other, Ladder.climb, ← leads]
    rfl
  case linked =>
    refine forall_put (P := fun _ (l : Ladder) => Linked S l.rungs) _ _ _ ?_ (h.linked _)
    rw [rungs]
    exact .next (h.linked role) proper
  case distinct =>
    refine forall_put (P := fun _ (l : Ladder) => (l.rungs.map (·.key.publicKey)).Nodup) _ _ _ ?_
      (h.distinct _)
    rw [rungs, List.map_cons, List.nodup_cons]
    exact ⟨fresh, h.distinct role⟩
  case stands =>
    intro side
    rcases eq_or_eq_other role side with rfl | rfl
    · rw [put_at_other, put_at_other]
      exact h.stands side
    · rw [put_self, put_self]
      exact stands
  case local_eq =>
    exact forall_put (P := fun side (st : SessionState) => st.localIdentity = some (identity side))
      _ _ _ (h.local_eq role.other) (h.local_eq _)
  case remote_eq =>
    exact forall_put
      (P := fun side (st : SessionState) => st.remoteIdentity = some (identity side.other))
      _ _ _ (h.remote_eq role.other) (h.remote_eq _)

end Lockstep

end DoubleRatchet
