/-
DoubleRatchet/Proofs/Lineages.lean

Where the chains of a session come from.

The same handshake gives the same session again, and the same ratchet keys after it the
same chains.  So what tells a chain from another one is how its session has been set up
and which ratchet keys of the peer it has gone through: its `Lineage`.

    set up ── key 1 ── key 2 ── key 3        the lineage of a session
    set up ── key 1 ── key 2                 the lineage of its chain for key 2

Lineages are not stored.  They go beside the sessions of a run, and whatever holds of a new
session and its lineage, and is kept by sending and by reading, holds of all sessions of
the run and theirs (`Call.forall₂_trace`).  What goes beside the receiver chains of a
session are the newest of its keys (`SessionState.Follows`).
-/
import DoubleRatchet.Proofs.Once
import Mathlib.Data.List.Forall2

namespace DoubleRatchet

/-! ### Lineages -/

deriving instance DecidableEq for ResponderKeys

/-- How a session has been set up. -/
inductive SetUp where
  /-- By the device, with the random bytes from a position of its source on. -/
  | greeted (position : Nat)
  /-- By a pre-key message, with these keys. -/
  | welcomed (keys : ResponderKeys)
  deriving DecidableEq

/-- How a session has been set up, and the ratchet keys that it has started receiver chains for since,
newest first. -/
structure Lineage where
  setUp : SetUp
  started : List PublicKey := []
  deriving DecidableEq

namespace Lineage

variable {ln name : Lineage} {theirs other : PublicKey}

/-- Whether the chain for a ratchet key is kept. -/
def has (ln : Lineage) (theirs : PublicKey) : Bool :=
  decide (theirs ∈ ln.started.take limits.receiverChains)

/-- The lineage once there is a chain for a ratchet key. -/
def reach (ln : Lineage) (theirs : PublicKey) : Lineage :=
  if ln.has theirs then ln else { ln with started := theirs :: ln.started }

/-- The lineage of the chain for a ratchet key: that of the session as it was when it had started the
chain, which may be still to come. -/
def chain (ln : Lineage) (theirs : PublicKey) : Lineage where
  setUp := ln.setUp
  started := (ln.reach theirs).started.dropWhile (· ≠ theirs)

@[simp] theorem setUp_reach (ln : Lineage) (theirs : PublicKey) :
    (ln.reach theirs).setUp = ln.setUp := by
  unfold reach
  split <;> rfl

theorem reach_of_has (h : ln.has theirs) : ln.reach theirs = ln := if_pos h

theorem started_reach_of_not (h : ¬ln.has theirs) :
    (ln.reach theirs).started = theirs :: ln.started := by
  rw [reach, if_neg h]

theorem has_reach (ln : Lineage) (theirs : PublicKey) : (ln.reach theirs).has theirs := by
  by_cases h : ln.has theirs
  · rw [reach_of_has h]
    exact h
  · rw [has, started_reach_of_not h]
    exact decide_eq_true List.mem_cons_self

theorem suffix_reach (ln : Lineage) (theirs : PublicKey) :
    ln.started <:+ (ln.reach theirs).started := by
  by_cases h : ln.has theirs
  · exact ⟨[], (congrArg started (reach_of_has h)).symm⟩
  · rw [started_reach_of_not h]
    exact List.suffix_cons ..

/-- A chain that is yet to be started begins with its own key, behind all that there is. -/
theorem started_chain_of_not (h : ¬ln.has theirs) :
    (ln.chain theirs).started = theirs :: ln.started := by
  show List.dropWhile _ (ln.reach theirs).started = _
  rw [started_reach_of_not h, List.dropWhile_cons_of_neg (by simp)]

theorem chain_reach_self (ln : Lineage) (theirs : PublicKey) :
    (ln.reach theirs).chain theirs = ln.chain theirs := by
  unfold chain
  rw [reach_of_has (has_reach ln theirs), setUp_reach]

/-- A chain that is kept when another one is started is what it was. -/
theorem chain_reach_of_ne (ne : other ≠ theirs) (kept : (ln.reach other).has theirs) :
    ln.has theirs ∧ (ln.reach other).chain theirs = ln.chain theirs := by
  by_cases h : ln.has other
  · rw [reach_of_has h] at kept ⊢
    exact ⟨kept, rfl⟩
  have before : ln.has theirs := by
    rw [has, started_reach_of_not h] at kept
    rw [has]
    refine decide_eq_true ?_
    rcases List.mem_cons.mp (of_decide_eq_true kept) with rfl | later
    · exact absurd rfl ne
    · exact (List.take_subset_take_left _ (by decide)) later
  refine ⟨before, ?_⟩
  unfold chain
  rw [reach_of_has kept, reach_of_has before, started_reach_of_not h, setUp_reach,
    List.dropWhile_cons_of_pos (by simpa using ne)]

/-- What goes on from a chain and has none for its key comes to a longer one. -/
theorem chain_ne_of_not_has (goesOn : name.started <:+ ln.started) (h : ¬ln.has theirs) :
    ln.chain theirs ≠ name := by
  intro same
  have length : (ln.chain theirs).started.length = name.started.length := by rw [same]
  rw [started_chain_of_not h, List.length_cons] at length
  have := goesOn.length_le
  omega

end Lineage

/-! ### Sessions and their lineages -/

namespace SessionState

variable {S : Suite} {st st' : SessionState} {ln : Lineage} {m : RatchetMessage} {plain : Bytes}
  {theirs : PublicKey} {e e' : Entropy}

variable (S) in
/-- The session is sound, and its receiver chains are the newest ones of the lineage. -/
structure Follows (st : SessionState) (ln : Lineage) : Prop where
  sound : st.Sound S
  keys : st.receiverChains.map (·.ratchetKey)
    = (ln.started.take limits.receiverChains).reverse

theorem Follows.has_iff (h : st.Follows S ln) : ln.has theirs ↔ st.window? theirs ≠ none := by
  rw [ne_eq, window?_eq_none, h.keys, not_not, List.mem_reverse, Lineage.has, decide_eq_true_iff]

theorem Follows.reached (h : st.Follows S ln) (reached : Reached S st theirs e st' e') :
    st'.Follows S (ln.reach theirs) := by
  refine ⟨h.sound.reached reached, ?_⟩
  cases reached with
  | known hw =>
    have has : ln.has theirs := h.has_iff.mpr (by rw [hw]; exact Option.some_ne_none _)
    rw [Lineage.reach_of_has has]
    exact h.keys
  | turned none root chain alive =>
    have has : ¬ln.has theirs := fun has => h.has_iff.mp has none
    rw [Lineage.started_reach_of_not has]
    refine (keys_addReceiver _ _ _).trans ?_
    rw [h.keys]
    exact keepNewest_reverse_take (by decide) _ _

theorem Follows.sent {message : Message} (h : st.Follows S ln)
    (made : st.encrypt S plain = .ok (message, st')) : st'.Follows S ln := by
  refine ⟨h.sound.evolves (.sent made), ?_⟩
  obtain ⟨remote, own, chain, next, -, -, -, -, -, rfl⟩ := encrypt_ok made
  exact h.keys

theorem Follows.read (h : st.Follows S ln)
    (opened : (st.decrypt S m).run e = (.ok (plain, st'), e')) :
    st'.Follows S (ln.reach m.ratchetKey) := by
  refine ⟨h.sound.evolves (.opened opened), ?_⟩
  obtain ⟨-, -, st₁, reached, decrypted⟩ := decrypt_ok opened
  obtain ⟨window, keys, after, hw, taken, -, rfl⟩ := decryptOn_ok decrypted
  exact (keys_setWindow ..).trans (h.reached reached).keys

end SessionState

/-! ### Beside the sessions of a run -/

section
variable {α β : Type} {P Q : α → β → Prop} {l : List α} {ls : List β}

theorem exists_zip_of_forall₂ {a : α} (h : List.Forall₂ P l ls) (there : a ∈ l) :
    ∃ b, (a, b) ∈ l.zip ls ∧ P a b := by
  induction h with
  | nil => cases there
  | cons here _ ih =>
    rcases List.mem_cons.mp there with rfl | there
    · exact ⟨_, List.mem_cons_self, here⟩
    · obtain ⟨b, later, holds⟩ := ih there
      exact ⟨b, List.mem_cons_of_mem _ later, holds⟩

theorem forall₂_imp_of_mem (h : List.Forall₂ P l ls) (imp : ∀ a, ∀ b ∈ ls, P a b → Q a b) :
    List.Forall₂ Q l ls := by
  induction h with
  | nil => exact .nil
  | cons here _ ih =>
    exact .cons (imp _ _ List.mem_cons_self here)
      (ih fun a b there => imp a b (List.mem_cons_of_mem _ there))

end

/-- Change the value at a position and bring it to the front. -/
def bring {α : Type} (i : Nat) (f : α → α) (l : List α) : List α :=
  (l[i]?.map f).toList ++ l.eraseIdx i

theorem forall₂_bring {α β : Type} {P : α → β → Prop} {before after : List α} {a a' : α}
    {ls : List β} {f : β → β} (h : List.Forall₂ P (before ++ a :: after) ls)
    (step : ∀ b, P a b → P a' (f b)) :
    List.Forall₂ P (a' :: (before ++ after)) (bring before.length f ls) := by
  have split : ∃ b, ls[before.length]? = some b ∧ P a b ∧
      List.Forall₂ P (before ++ after) (ls.eraseIdx before.length) := by
    induction before generalizing ls with
    | nil =>
      obtain ⟨b, rest, here, later, rfl⟩ := List.forall₂_cons_left_iff.mp h
      exact ⟨b, rfl, here, later⟩
    | cons first before ih =>
      obtain ⟨b, rest, here, later, rfl⟩ := List.forall₂_cons_left_iff.mp h
      obtain ⟨b', found, there, others⟩ := ih later
      exact ⟨b', found, there, .cons here others⟩
  obtain ⟨b, found, here, others⟩ := split
  rw [bring, found]
  exact .cons (step b here) others

/-- How the sessions have been set up does not depend on which one is in front. -/
theorem setUps_bring (i : Nat) (theirs : PublicKey) (ls : List Lineage) :
    ((bring i (·.reach theirs) ls).map (·.setUp)).Perm (ls.map (·.setUp)) := by
  induction ls generalizing i with
  | nil => exact .refl _
  | cons ln ls ih =>
    cases i with
    | zero =>
      show ((ln.reach theirs).setUp :: ls.map (·.setUp)).Perm _
      rw [Lineage.setUp_reach]
      exact .refl _
    | succ i =>
      have moved : (bring (i + 1) (·.reach theirs) (ln :: ls)).Perm
          (ln :: bring i (·.reach theirs) ls) := List.perm_middle
      exact (moved.map _).trans ((ih i).cons _)

namespace Call

section
variable (S : Suite) (peer : Address) (app : App)

/-- A session that a call sets up, and its lineage. -/
inductive SetsUp (s : Site) : Call → SessionState → Lineage → Prop
  | greeted (bundle : PreKeyBundle) :
    SetsUp s (.start bundle)
      (s.store.greet S bundle .empty (S.nextKeyPair s.entropy)
        (S.nextKeyPair (s.entropy.advance 32)))
      ⟨.greeted s.entropy.position, [bundle.signedPreKey]⟩
  | welcomed {m keys}
    (unknown : (s.store.loadSession peer).knows m.version m.baseKey.transmitted = false)
    (found : s.store.responderKeys m = .ok keys) :
    SetsUp s (.decryptPreKey m) (s.store.welcome S m .empty keys) ⟨.welcomed keys, []⟩

/-- The lineage of the session that a call sets up, if it does. -/
def setUp? (s : Site) : Call → Option Lineage
  | start bundle => some ⟨.greeted s.entropy.position, [bundle.signedPreKey]⟩
  | decryptPreKey m =>
    if (s.store.loadSession peer).knows m.version m.baseKey.transmitted then none
    else (s.store.responderKeys m).toOption.map fun keys => ⟨.welcomed keys, []⟩
  | _ => none

/-- The lineages of the sessions that a call works with. -/
def lineages (s : Site) (c : Call) (ls : List Lineage) : List Lineage :=
  (c.setUp? peer s).elim ls fun ln => ln :: ls.take limits.archivedSessions

/-- The lineages of the sessions after a call. -/
def trace (s : Site) (c : Call) (ls : List Lineage) : List Lineage :=
  if (c.run S peer app s).1.isOk then
    match c.opens S peer s, c.message? with
    | some i, some m => bring i (·.reach m.ratchetKey) (c.lineages peer s ls)
    | _, _ => c.lineages peer s ls
  else ls

end

section
variable {S : Suite} {peer : Address} {app : App} {s s' : Site} {c : Call} {m : RatchetMessage}
  {record : SessionRecord} {ls : List Lineage} {P : SessionState → Lineage → Prop}

variable (S P) in
/-- What is true of a session and its lineage stays true when the session sends and when it reads. -/
structure Inherited : Prop where
  sent : ∀ {st st' plain message ln}, P st ln →
    SessionState.encrypt S st plain = .ok (message, st') → P st' ln
  read : ∀ {st st' m e plain e' ln}, P st ln →
    (SessionState.decrypt S st m).run e = (.ok (plain, st'), e') → P st' (ln.reach m.ratchetKey)

theorem bounded_offered (hs : s.store.Settled peer) (reaches : c.Reaches s.store peer)
    (hr : c.offered S peer s.store = some (record, m)) :
    record.archive.length ≤ limits.archivedSessions := by
  cases c with
  | decrypt m' =>
    cases hr
    rcases reaches with stored | ⟨m, other⟩
    · exact (hs _ (Store.stored_of_contains stored)).bounded
    · cases other
  | decryptPreKey m' =>
    unfold offered at hr
    dsimp only at hr
    split at hr
    · rename_i accepted
      cases hr
      exact (Store.accept_installs hs accepted).2
    · cases hr
  | _ => cases hr

/-- The lineage of a new session is that of one that the call sets up. -/
theorem setsUp_of_setUp? {ln : Lineage} (h : c.setUp? peer s = some ln) :
    ∃ st, c.SetsUp S peer s st ln := by
  unfold setUp? at h
  cases c with
  | start bundle =>
    cases h
    exact ⟨_, .greeted bundle⟩
  | decryptPreKey m =>
    dsimp only at h
    split at h
    · cases h
    · rename_i unknown
      obtain ⟨keys, found, rfl⟩ := Option.map_eq_some_iff.mp h
      exact ⟨_, .welcomed (Bool.eq_false_iff.mpr unknown) (toOption_eq_some.mp found)⟩
  | _ => cases h

theorem trace_error (h : ¬(c.run S peer app s).1.isOk) : c.trace S peer app s ls = ls := if_neg h

/-- A call that succeeds has sessions that are set up as those that it has worked with. -/
theorem setUps_trace (h : (c.run S peer app s).1.isOk) :
    ((c.trace S peer app s ls).map (·.setUp)).Perm ((c.lineages peer s ls).map (·.setUp)) := by
  rw [trace, if_pos h]
  split
  · exact setUps_bring ..
  · exact .refl _

/-- The sessions that a message is offered to go with the lineages that the call works with. -/
theorem forall₂_offered (hs : s.store.Settled peer)
    (h : List.Forall₂ P (s.store.sessionsWith peer) ls)
    (new : ∀ st ln, c.SetsUp S peer s st ln → P st ln) (reaches : c.Reaches s.store peer)
    (hr : c.offered S peer s.store = some (record, m)) :
    List.Forall₂ P record.sessions (c.lineages peer s ls) := by
  cases c with
  | decrypt m' =>
    cases hr
    rcases reaches with stored | ⟨m, other⟩
    · rw [Store.sessionsWith_of_contains (Store.stored_of_contains stored)] at h
      exact h
    · cases other
  | decryptPreKey m' =>
    unfold offered at hr
    dsimp only at hr
    split at hr
    · rename_i used record' accepted
      cases hr
      obtain ⟨-, ⟨known, -, rfl⟩ | ⟨unknown, keys, found, -, rfl⟩⟩ := Store.accept_ok accepted
      · rcases s.store.loadSession_cases peer with ⟨-, empty⟩ | stored
        · rw [empty, SessionRecord.knows_empty] at known
          cases known
        rw [Store.sessionsWith_of_contains stored] at h
        rw [lineages, setUp?, if_pos known]
        exact h
      · rw [lineages, setUp?, unknown, found, Store.makeRoom_current hs, SessionRecord.sessions,
          Store.makeRoom_archive hs]
        exact .cons (new _ _ (.welcomed unknown found)) (List.forall₂_take _ h)
    · cases hr
  | _ => cases hr

/-- The session that reads the message of a call comes to the front. -/
theorem read_split {plain : Bytes} (hs : s.store.Settled peer)
    (h : c.run S peer app s = (.ok (.read plain), s')) :
    ∃ m record before st after st' e e', c.message? = some m ∧ c.Reaches s.store peer ∧
      c.offered S peer s.store = some (record, m) ∧
      c.opens S peer s = some before.length ∧ record.sessions = before ++ st :: after ∧
      (st.decrypt S m).run e = (.ok (plain, st'), e') ∧
      s'.store.sessionsWith peer = st' :: (before ++ after) := by
  obtain ⟨m, record, record', entropy, hm, reaches, hr, decrypted, sessions⟩ := read_ok h
  have bounded := bounded_offered hs reaches hr
  rw [SessionRecord.run_decrypt] at decrypted
  split at decrypted
  · rename_i i plain' st' e₂ ran
    cases decrypted
    obtain ⟨before, st, after, e₁, split, rfl, -, opened⟩ := offer_ok ran
    rw [Nat.zero_add] at ran sessions
    refine ⟨m, record, before, st, after, st', e₁, entropy, hm, reaches, hr, ?_, split, opened, ?_⟩
    · simp only [opens, hr, Option.bind_some, ran]
    · rw [sessions, SessionRecord.sessions_advance st' split bounded]
  · cases decrypted

/-- What holds of new sessions and is kept holds after a call. -/
theorem forall₂_trace (keeps : Inherited S P) (hs : s.store.Settled peer)
    (h : List.Forall₂ P (s.store.sessionsWith peer) ls)
    (new : ∀ st ln, c.SetsUp S peer s st ln → P st ln) :
    List.Forall₂ P ((c.run S peer app s).2.store.sessionsWith peer)
      (c.trace S peer app s ls) := by
  rcases outcome : c.run S peer app s with ⟨e | answer, s'⟩
  · have same := (run_error outcome).sessions_eq
    rw [trace, outcome]
    dsimp only [Store.sessionsWith]
    rw [same]
    exact h
  have reads : ∀ {plain}, c.run S peer app s = (.ok (.read plain), s') →
      List.Forall₂ P (s'.store.sessionsWith peer) (c.trace S peer app s ls) := by
    intro plain read
    obtain ⟨m, record, before, st, after, st', e, e', hm, reaches, hr, opens, split, opened,
      sessions⟩ := read_split hs read
    have offered := forall₂_offered hs h new reaches hr
    rw [trace, read, opens, hm, sessions]
    rw [split] at offered
    exact forall₂_bring offered fun ln here => keeps.read here opened
  cases succeeded outcome with
  | @started bundle _ started =>
    obtain ⟨-, -, -, rfl⟩ := startSession_ok started
    rw [trace, outcome, Site.keep, Store.sessionsWith_storeSession, SessionRecord.sessions,
      Store.makeRoom_current hs, Store.makeRoom_archive hs]
    exact .cons (new _ _ (.greeted bundle)) (List.forall₂_take _ h)
  | sent sent =>
    obtain ⟨st, st', others, sessions, made, sessions', -⟩ := encrypt_sessions hs sent
    rw [sessions] at h
    obtain ⟨ln, rest, here, others, rfl⟩ := List.forall₂_cons_left_iff.mp h
    rw [trace, outcome, sessions']
    exact .cons (keeps.sent here made) others
  | read => exact reads outcome
  | readFirst => exact reads outcome
  | pinned =>
    rw [trace, outcome]
    exact h

end

end Call

end DoubleRatchet
