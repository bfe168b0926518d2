/-
DoubleRatchet/Proofs/Replays.lean

Messages that cannot be replayed, come what may.

A session that is deleted, or that gives way to newer ones, takes with it what it knows of
the messages that it has read.  Whoever can set it up again can have them read again.  But
a handshake that has spent a one-time pre-key cannot be repeated, since the pre-key is
gone; nor can one of our own, since it has used random bytes.  So a message that such a
session has read is read once, however often it comes, in whatever envelope
(`unrepeatable_read_once`).

The number of a pre-key on the envelope says nothing about the session: a message that
names a one-time pre-key is read again if the handshake of its session has spent none
(`replayed_after_deletion`).
-/
import DoubleRatchet.Proofs.Lineages

namespace DoubleRatchet

/-! ### What an application does with a device -/

/-- A call for one of the peers, or a request of the application itself to the store. -/
inductive Deed where
  | call (peer : Address) (c : Call) (app : App)
  | ask (r : StoreRequest)

/-- The site after a deed. -/
def Deed.run (S : Suite) (s : Site) : Deed → Site
  | call peer c app => (c.run S peer app s).2
  | ask r => { s with store := (s.store.answer r).2 }

/-- The site after some deeds. -/
def Site.through (S : Suite) (s : Site) (deeds : List Deed) : Site :=
  deeds.foldl (fun s d => d.run S s) s

/-- The number of the one-time pre-key that a deed spends. -/
def Deed.spends (S : Suite) (s : Site) : Deed → Option UInt32
  | call peer (.decryptPreKey m) app =>
    if ((Call.decryptPreKey m).run S peer app s).1.isOk then
      (s.store.accept S peer (s.store.loadSession peer) m).toOption.bind (·.1)
    else none
  | _ => none

/-- The one-time pre-key that a deed stores, and the number that it stores it under. -/
def Deed.supplies : Deed → Option (UInt32 × PreKey)
  | ask (.storePreKey id record) => some (id, record)
  | _ => none

/-- Whether a deed stores sessions that it has from elsewhere. -/
def Deed.restores : Deed → Bool
  | ask (.storeSession ..) => true
  | _ => false

/-- The lineages of the sessions with a peer after a deed. -/
def Deed.trace (S : Suite) (peer : Address) (s : Site) (ls : List Lineage) : Deed → List Lineage
  | call other c app => if other = peer then c.trace S peer app s ls else ls
  | ask r => if (s.store.answer r).2.sessions.contains peer then ls else []

/-- The lineages of the sessions with a peer after some deeds. -/
def Site.traced (S : Suite) (peer : Address) : Site → List Lineage → List Deed → List Lineage
  | _, ls, [] => ls
  | s, ls, d :: deeds => Site.traced S peer (d.run S s) (d.trace S peer s ls) deeds

theorem Site.traced_append (S : Suite) (peer : Address) (s : Site) (ls : List Lineage)
    (deeds more : List Deed) : s.traced S peer ls (deeds ++ more)
      = (s.through S deeds).traced S peer (s.traced S peer ls deeds) more := by
  induction deeds generalizing s ls with
  | nil => rfl
  | cons d deeds ih => exact ih ..

section
variable (numbered : KeyPair → UInt32)

/-- One-time pre-keys are stored under the number of their pair, so no pair under two; and sessions
are left to the calls. -/
def Deed.Fair (d : Deed) : Prop :=
  d.restores = false ∧ ∀ p ∈ d.supplies, numbered p.2.keyPair = p.1

/-- All one-time pre-keys in the store are kept under the number of their pair. -/
def Store.Numbered (s : Store) : Prop :=
  ∀ id record, s.preKeys[id]? = some record → numbered record.keyPair = id

/-- Deeds of an application that is fair, and stores no one-time pre-key under a number that has been
spent. -/
def Site.Careful (S : Suite) : Site → List Deed → Prop
  | _, [] => True
  | s, d :: deeds => d.Fair numbered ∧
    (∀ id ∈ d.spends S s, ∀ later ∈ deeds, ∀ p ∈ later.supplies, p.1 ≠ id) ∧
    Site.Careful S (d.run S s) deeds

instance (d : Deed) : Decidable (d.Fair numbered) := inferInstanceAs (Decidable (_ ∧ _))

instance (S : Suite) : (s : Site) → (deeds : List Deed) → Decidable (s.Careful numbered S deeds)
  | _, [] => inferInstanceAs (Decidable True)
  | s, d :: deeds =>
    have := instDecidableCareful S (d.run S s) deeds
    -- only the number that is spent is looked at, not all that there are
    have : Decidable (∀ id ∈ d.spends S s, ∀ later ∈ deeds, ∀ p ∈ later.supplies, p.1 ≠ id) :=
      Option.decidableForallMem _
    inferInstanceAs (Decidable (_ ∧ _ ∧ _))

/-! ### Handshakes that cannot be repeated -/

/-- A handshake of our own, or one that spends a one-time pre-key. -/
def SetUp.Unrepeatable : SetUp → Prop
  | greeted _ => True
  | welcomed keys => ∃ pair, keys.oneTimePreKey = some pair ∧ numbered pair ≠ lastResortPreKey

/-- What the handshake has used is gone: the random bytes have been drawn, and the one-time pre-key
is not in the store and will not be stored again. -/
def SetUp.Gone (s : Site) (deeds : List Deed) : SetUp → Prop
  | greeted position => position < s.entropy.position
  | welcomed keys => ∀ pair, keys.oneTimePreKey = some pair →
    (∀ (id : UInt32) (record : PreKey), s.store.preKeys[id]? = some record → record.keyPair ≠ pair) ∧
    ∀ later ∈ deeds, ∀ p ∈ later.supplies, p.1 ≠ numbered pair

end

section
variable {S : Suite} {numbered : KeyPair → UInt32} {peer other : Address} {app : App} {s s' : Site}
  {c : Call} {d : Deed} {deeds : List Deed} {ls : List Lineage}

/-! ### What a deed does to the store -/

theorem Store.Spared.preKeys_eq {s s' : Store} (h : s.Spared s' peer) : s'.preKeys = s.preKeys := by
  rcases h with rfl | ⟨key, -, rfl⟩ <;> rfl

/-- A call spends a one-time pre-key at most. -/
theorem Call.preKeys_run (S : Suite) (peer : Address) (app : App) (c : Call) (s : Site) :
    (c.run S peer app s).2.store.preKeys
      = (s.store.useUp ((Deed.call peer c app).spends S s)).preKeys := by
  rcases outcome : c.run S peer app s with ⟨e | answer, s'⟩
  · have none : (Deed.call peer c app).spends S s = none := by
      cases c with
      | decryptPreKey m =>
        rw [Deed.spends, outcome]
        rfl
      | _ => rfl
    rw [none]
    exact (Call.run_error outcome).preKeys_eq
  cases Call.succeeded outcome with
  | started h =>
    obtain ⟨-, -, -, rfl⟩ := startSession_ok h
    rfl
  | sent h =>
    obtain ⟨-, remote, own, st, -, -, -, rfl⟩ := encrypt_ok h
    rfl
  | read h =>
    obtain ⟨-, record, entropy, remote, -, -, -, -, rfl⟩ := decryptMessage_ok h
    rfl
  | readFirst h =>
    obtain ⟨used, record, record', entropy, accepted, -, -, rfl⟩ := decryptPreKeyMessage_ok h
    rw [Deed.spends, outcome, accepted]
    rfl
  | pinned => rfl

/-- A call leaves the sessions with other peers alone. -/
theorem Call.sessions_run_of_ne (ne : peer ≠ other) :
    (c.run S other app s).2.store.sessions[peer]? = s.store.sessions[peer]? := by
  have stored : ∀ (store : Store) record,
      (store.storeSession other record).sessions[peer]? = store.sessions[peer]? := by
    intro store record
    simp [Store.storeSession, Std.ExtTreeMap.getElem?_insert, Ne.symm ne]
  rcases outcome : c.run S other app s with ⟨e | answer, s'⟩
  · rw [(Call.run_error outcome).sessions_eq]
  cases Call.succeeded outcome with
  | started h =>
    obtain ⟨-, -, -, rfl⟩ := startSession_ok h
    exact stored _ _
  | sent h =>
    obtain ⟨-, remote, own, st, -, -, -, rfl⟩ := encrypt_ok h
    exact stored _ _
  | read h =>
    obtain ⟨-, record, entropy, remote, -, -, -, -, rfl⟩ := decryptMessage_ok h
    exact stored _ _
  | readFirst h =>
    obtain ⟨used, record, record', entropy, -, -, -, rfl⟩ := decryptPreKeyMessage_ok h
    exact stored _ _
  | pinned => rfl

theorem Entropy.Before.position_le {e e' : Entropy} (h : e.Before e') : e.position ≤ e'.position := by
  obtain ⟨n, rfl⟩ := h
  exact Nat.le_add_right _ _

theorem Call.position_le (S : Suite) (peer : Address) (app : App) (c : Call) (s : Site) :
    s.entropy.position ≤ (c.run S peer app s).2.entropy.position :=
  (c.before_run S peer app s).position_le

/-- One-time pre-keys come into the store only by being stored. -/
theorem Deed.preKeys_run {id : UInt32} {record : PreKey}
    (h : (d.run S s).store.preKeys[id]? = some record) :
    s.store.preKeys[id]? = some record ∨ d = .ask (.storePreKey id record) := by
  have erased : ∀ used : UInt32, (s.store.preKeys.erase used)[id]? = some record →
      s.store.preKeys[id]? = some record := by
    intro used h
    rw [Std.ExtTreeMap.getElem?_erase] at h
    split at h
    · cases h
    · exact h
  cases d with
  | call peer c app =>
    rw [run, Call.preKeys_run] at h
    cases used : (Deed.call peer c app).spends S s with
    | none =>
      rw [used] at h
      exact .inl h
    | some id' =>
      rw [used] at h
      exact .inl (erased id' h)
  | ask r =>
    cases r with
    | storePreKey id' record' =>
      simp only [run, Store.answer, Std.ExtTreeMap.getElem?_insert] at h
      split at h
      · rename_i same
        cases h
        rw [Std.LawfulEqCmp.compare_eq_iff_eq] at same
        subst same
        exact .inr rfl
      · exact .inl h
    | removePreKey id' => exact .inl (erased id' h)
    | _ => exact .inl h

theorem Deed.position_le (S : Suite) (d : Deed) (s : Site) :
    s.entropy.position ≤ (d.run S s).entropy.position := by
  cases d with
  | call peer c app => exact Call.position_le S peer app c s
  | ask r => exact Nat.le_refl _

/-- The application itself can only forget the sessions with a peer. -/
theorem Deed.sessions_ask {r : StoreRequest} (fair : (Deed.ask r).Fair numbered) :
    (s.store.answer r).2.sessions[peer]? = s.store.sessions[peer]? ∨
      (s.store.answer r).2.sessions[peer]? = none := by
  cases r with
  | storeSession => cases fair.1
  | deleteSession other =>
    simp only [Store.answer, Std.ExtTreeMap.getElem?_erase]
    split
    · exact .inr rfl
    · exact .inl rfl
  | deleteAllSessions name =>
    simp only [Store.answer, Store.deleteAllSessions, Std.ExtTreeMap.getElem?_filter']
    cases s.store.sessions[peer]? with
    | none => exact .inl rfl
    | some record =>
      rw [Option.filter_some]
      split
      · exact .inl rfl
      · exact .inr rfl
  | _ => exact .inl rfl

/-! ### What is gone -/

/-- What is gone stays gone. -/
theorem SetUp.Gone.run {u : SetUp} (h : u.Gone numbered s (d :: deeds)) (fair : d.Fair numbered) :
    u.Gone numbered (d.run S s) deeds := by
  cases u with
  | greeted position => exact Nat.lt_of_lt_of_le h (d.position_le S s)
  | welcomed keys =>
    intro pair used
    obtain ⟨away, never⟩ := h pair used
    refine ⟨?_, fun later there => never later (List.mem_cons_of_mem _ there)⟩
    rintro id record kept rfl
    rcases Deed.preKeys_run kept with before | rfl
    · exact away id record before rfl
    · -- it would be stored under its own number
      exact never _ List.mem_cons_self _ rfl (fair.2 _ rfl).symm

/-- The one-time pre-key of a handshake is one that the store has under the number in the message. -/
theorem Store.preKey_of_responderKeys {s : Store} {m : PreKeyMessage} {keys : ResponderKeys}
    {pair : KeyPair} (h : s.responderKeys m = .ok keys) (used : keys.oneTimePreKey = some pair) :
    ∃ id record, m.preKeyId = some id ∧ s.preKeys[id]? = some record ∧ record.keyPair = pair := by
  obtain ⟨signedPreKey, -, h⟩ := bind_eq_ok.mp h
  obtain ⟨oneTimePreKey, loaded, h⟩ := bind_eq_ok.mp h
  cases h
  obtain ⟨record, rfl, rfl⟩ := Option.map_eq_some_iff.mp used
  cases named : m.preKeyId with
  | none =>
    rw [named] at loaded
    cases loaded
  | some id =>
    rw [named] at loaded
    change (some <$> s.loadPreKey id) = Except.ok (some record) at loaded
    unfold loadPreKey at loaded
    cases found : s.preKeys[id]? with
    | none =>
      rw [found] at loaded
      cases loaded
    | some record' =>
      rw [found] at loaded
      cases loaded
      exact ⟨id, record, rfl, found, rfl⟩

/-- A handshake that cannot be repeated has not been gone through before. -/
theorem Call.SetsUp.not_gone {st : SessionState} {ln : Lineage} (h : c.SetsUp S peer s st ln)
    (unrepeatable : ln.setUp.Unrepeatable numbered) : ¬ln.setUp.Gone numbered s deeds := by
  intro gone
  cases h with
  | greeted bundle => exact Nat.lt_irrefl _ gone
  | welcomed unknown found =>
    obtain ⟨pair, used, -⟩ := unrepeatable
    obtain ⟨id, record, -, kept, rfl⟩ := Store.preKey_of_responderKeys found used
    exact (gone _ used).1 id record kept rfl

/-- Once it has been gone through, what it has used is gone. -/
theorem Call.SetsUp.gone {st : SessionState} {ln : Lineage} (h : c.SetsUp S peer s st ln)
    (unrepeatable : ln.setUp.Unrepeatable numbered) (numbers : s.store.Numbered numbered)
    (careful : s.Careful numbered S (.call peer c app :: deeds))
    (ok : (c.run S peer app s).1.isOk) :
    ln.setUp.Gone numbered ((Deed.call peer c app).run S s) deeds := by
  obtain ⟨-, never, -⟩ := careful
  rcases outcome : c.run S peer app s with ⟨e | answer, s'⟩
  · rw [outcome] at ok
    cases ok
  cases h with
  | greeted bundle =>
    cases Call.succeeded outcome with
    | started started =>
      obtain ⟨-, -, -, rfl⟩ := startSession_ok started
      rw [Deed.run, outcome]
      show s.entropy.position < s.entropy.position + 32 + 32
      omega
  | @welcomed m keys unknown found =>
    obtain ⟨pair, used, ordinary⟩ := unrepeatable
    obtain ⟨id, record, named, kept, rfl⟩ := Store.preKey_of_responderKeys found used
    have number : numbered record.keyPair = id := numbers id record kept
    -- the call spends the pre-key that the message names
    have spends : (Deed.call peer (.decryptPreKey m) app).spends S s = some id := by
      cases Call.succeeded outcome with
      | readFirst read =>
        obtain ⟨spent, record', record'', entropy, accepted, -, -, rfl⟩ :=
          decryptPreKeyMessage_ok read
        rw [Deed.spends, outcome, accepted]
        obtain ⟨-, ⟨known, -, -⟩ | ⟨-, -, -, rfl, -⟩⟩ := Store.accept_ok accepted
        · rw [unknown] at known
          cases known
        · rw [number] at ordinary
          simp [named, ordinary, Except.isOk, Except.toBool, Except.toOption, Option.filter]
    intro pair' used'
    rw [used] at used'
    cases used'
    rw [number]
    refine ⟨?_, never id spends⟩
    rintro id' record' left same
    rw [Deed.run, Call.preKeys_run, spends] at left
    simp only [Store.useUp, Option.elim_some, Std.ExtTreeMap.getElem?_erase] at left
    split at left
    · cases left
    · rename_i other
      have number' := numbers id' record' left
      rw [same, number] at number'
      exact other (by rw [number']; exact Std.ReflCmp.compare_self)

/-! ### The account of a run -/

/-- What holds of new sessions and is kept holds after a deed. -/
theorem Deed.forall₂_trace {P : SessionState → Lineage → Prop} (inherited : Call.Inherited S P)
    (hs : s.store.Settled peer) (h : List.Forall₂ P (s.store.sessionsWith peer) ls)
    (fair : d.Fair numbered)
    (new : ∀ c app, d = .call peer c app → ∀ st ln, c.SetsUp S peer s st ln → P st ln) :
    (d.run S s).store.Settled peer ∧
      List.Forall₂ P ((d.run S s).store.sessionsWith peer) (d.trace S peer s ls) := by
  have unchanged : ∀ {s' : Site}, s'.store.sessions[peer]? = s.store.sessions[peer]? →
      s'.store.Settled peer ∧ List.Forall₂ P (s'.store.sessionsWith peer) ls := by
    intro s' same
    rw [Store.Settled, Store.sessionsWith, same]
    exact ⟨hs, h⟩
  cases d with
  | call other c app =>
    by_cases same : other = peer
    · subst same
      rw [trace, if_pos rfl]
      exact ⟨(Call.changes hs).2, Call.forall₂_trace inherited hs h (new c app rfl)⟩
    · rw [trace, if_neg same]
      exact unchanged (Call.sessions_run_of_ne (Ne.symm same))
  | ask r =>
    rw [trace]
    by_cases stored : (s.store.answer r).2.sessions.contains peer
    · rw [if_pos stored]
      rcases Deed.sessions_ask fair with same | none
      · exact unchanged same
      · rw [Std.ExtTreeMap.contains_eq_isSome_getElem?, none] at stored
        cases stored
    · rw [if_neg stored]
      have none : (s.store.answer r).2.sessions[peer]? = none := by
        rw [Std.ExtTreeMap.contains_eq_isSome_getElem?] at stored
        exact Option.not_isSome_iff_eq_none.mp stored
      refine ⟨Store.settled_of_none none, ?_⟩
      rw [run, Store.sessionsWith, none]
      exact .nil

variable (S numbered peer) in
/-- The sessions with a peer follow their lineages; the handshakes that cannot be repeated have been
gone through, and each of them once. -/
structure Account (deeds : List Deed) (s : Site) (ls : List Lineage) : Prop where
  settled : s.store.Settled peer
  follows : List.Forall₂ (SessionState.Follows S) (s.store.sessionsWith peer) ls
  numbers : s.store.Numbered numbered
  gone : ∀ u ∈ ls.map (·.setUp), u.Unrepeatable numbered → u.Gone numbered s deeds
  apart : (ls.map (·.setUp)).Pairwise fun u v => u = v → ¬u.Unrepeatable numbered

theorem SessionState.inherited_follows : Call.Inherited S (SessionState.Follows S) where
  sent follows made := follows.sent made
  read follows opened := follows.read opened

/-- New sessions follow their lineages. -/
theorem Call.SetsUp.follows {st : SessionState} {ln : Lineage} (h : c.SetsUp S peer s st ln) :
    st.Follows S ln := by
  cases h with
  | greeted => exact ⟨SessionState.Built.sound (.greeted ..), rfl⟩
  | welcomed => exact ⟨SessionState.Built.sound (.welcomed ..), rfl⟩

namespace Account

theorem start {deeds : List Deed} (none : s.store.sessions[peer]? = none)
    (numbers : s.store.Numbered numbered) : Account S numbered peer deeds s [] := by
  refine ⟨Store.settled_of_none none, ?_, numbers, nofun, .nil⟩
  rw [Store.sessionsWith, none]
  exact .nil

/-- How the sessions that a call works with have been set up: each handshake once. -/
theorem lineages (h : Account S numbered peer (.call peer c app :: deeds) s ls)
    (careful : s.Careful numbered S (.call peer c app :: deeds))
    (ok : (c.run S peer app s).1.isOk) :
    (∀ u ∈ (c.lineages peer s ls).map (·.setUp), u.Unrepeatable numbered →
      u.Gone numbered ((Deed.call peer c app).run S s) deeds) ∧
    ((c.lineages peer s ls).map (·.setUp)).Pairwise fun u v => u = v → ¬u.Unrepeatable numbered := by
  have before : ∀ u ∈ ls.map (·.setUp), u.Unrepeatable numbered →
      u.Gone numbered ((Deed.call peer c app).run S s) deeds := fun u there unrepeatable =>
    (h.gone u there unrepeatable).run careful.1
  unfold Call.lineages
  rcases found : c.setUp? peer s with - | ln
  · exact ⟨before, h.apart⟩
  obtain ⟨st, setsUp⟩ := Call.setsUp_of_setUp? (S := S) found
  have kept : ∀ u ∈ (ls.take limits.archivedSessions).map (·.setUp), u ∈ ls.map (·.setUp) :=
    fun u there => List.map_subset _ (List.take_subset _ _) there
  rw [Option.elim_some, List.map_cons, List.forall_mem_cons, List.pairwise_cons]
  refine ⟨⟨fun unrepeatable => setsUp.gone unrepeatable h.numbers careful ok,
    fun u there => before u (kept u there)⟩, ?_, ?_⟩
  · -- the new handshake is none that has been gone through
    rintro _ there rfl unrepeatable
    exact setsUp.not_gone unrepeatable (h.gone _ (kept _ there) unrepeatable)
  · exact h.apart.sublist ((List.take_sublist _ _).map _)

theorem step (h : Account S numbered peer (d :: deeds) s ls)
    (careful : s.Careful numbered S (d :: deeds)) :
    Account S numbered peer deeds (d.run S s) (d.trace S peer s ls) := by
  obtain ⟨settled, follows⟩ := Deed.forall₂_trace SessionState.inherited_follows h.settled h.follows
    careful.1 fun c app _ st ln setsUp => setsUp.follows
  have numbers : (d.run S s).store.Numbered numbered := by
    intro id record kept
    rcases Deed.preKeys_run kept with before | rfl
    · exact h.numbers id record before
    · exact careful.1.2 _ rfl
  have before : ∀ u ∈ ls.map (·.setUp), u.Unrepeatable numbered → u.Gone numbered (d.run S s) deeds :=
    fun u there unrepeatable => (h.gone u there unrepeatable).run careful.1
  suffices rest : (∀ u ∈ (d.trace S peer s ls).map (·.setUp), u.Unrepeatable numbered →
      u.Gone numbered (d.run S s) deeds) ∧
      ((d.trace S peer s ls).map (·.setUp)).Pairwise fun u v => u = v → ¬u.Unrepeatable numbered from
    ⟨settled, follows, numbers, rest.1, rest.2⟩
  cases d with
  | call other c app =>
    rw [Deed.trace]
    by_cases same : other = peer
    · subst same
      rw [if_pos rfl]
      by_cases ok : (c.run S other app s).1.isOk
      · obtain ⟨gone, apart⟩ := h.lineages careful ok
        have perm : ((c.trace S other app s ls).map (·.setUp)).Perm _ := Call.setUps_trace ok
        refine ⟨fun u there => gone u (perm.mem_iff.mp there), ?_⟩
        refine (perm.pairwise_iff ?_).mpr apart
        rintro u v notTwice rfl
        exact notTwice rfl
      · rw [Call.trace_error ok]
        exact ⟨before, h.apart⟩
    · rw [if_neg same]
      exact ⟨before, h.apart⟩
  | ask r =>
    rw [Deed.trace]
    split
    · exact ⟨before, h.apart⟩
    · exact ⟨nofun, .nil⟩

theorem through {more : List Deed} (h : Account S numbered peer (deeds ++ more) s ls)
    (careful : s.Careful numbered S (deeds ++ more)) :
    Account S numbered peer more (s.through S deeds) (s.traced S peer ls deeds) ∧
      (s.through S deeds).Careful numbered S more := by
  induction deeds generalizing s ls with
  | nil => exact ⟨h, careful⟩
  | cons d deeds ih => exact ih (h.step careful) careful.2.2

end Account

/-! ### What has been read -/

section
variable {name : Lineage} {theirs : PublicKey} {n : UInt32} {m : RatchetMessage}

variable (S) in
/-- If the session goes on from the chain with a name, then a number is spent in the chain, as long as
it is the one for its ratchet key. -/
def SpentUnder (name : Lineage) (theirs : PublicKey) (n : UInt32) (st : SessionState)
    (ln : Lineage) : Prop :=
  st.Follows S ln ∧ (ln.setUp = name.setUp →
    name.started <:+ ln.started ∧ (ln.chain theirs = name → st.SpentIn S theirs n))

theorem inherited_spentUnder : Call.Inherited S (SpentUnder S name theirs n) where
  sent := by
    intro st st' plain message ln ⟨follows, spent⟩ made
    refine ⟨follows.sent made, fun same => ?_⟩
    obtain ⟨goesOn, spent⟩ := spent same
    refine ⟨goesOn, fun named => ?_⟩
    have kept : ln.has theirs := by
      by_contra not
      exact Lineage.chain_ne_of_not_has goesOn not named
    exact (spent named).evolves follows.sound (.sent made) ((follows.sent made).has_iff.mp kept)
  read := by
    intro st st' m e plain e' ln ⟨follows, spent⟩ opened
    have follows' := follows.read opened
    refine ⟨follows', fun same => ?_⟩
    rw [Lineage.setUp_reach] at same
    obtain ⟨goesOn, spent⟩ := spent same
    have goesOn' := goesOn.trans (ln.suffix_reach m.ratchetKey)
    refine ⟨goesOn', fun named => ?_⟩
    have kept : (ln.reach m.ratchetKey).has theirs := by
      by_contra not
      exact Lineage.chain_ne_of_not_has goesOn' not named
    -- the chain is the one that was there before
    have before : ln.chain theirs = name := by
      by_cases key : m.ratchetKey = theirs
      · subst key
        rw [← named, Lineage.chain_reach_self]
      · rw [← named, (Lineage.chain_reach_of_ne key kept).2]
    exact (spent before).evolves follows.sound (.opened opened) (follows'.has_iff.mp kept)

variable (S numbered peer) in
/-- A number is spent in all that goes on from a chain, and the handshake that the chain comes from
is gone. -/
structure Spent (name : Lineage) (theirs : PublicKey) (n : UInt32) (deeds : List Deed) (s : Site)
    (ls : List Lineage) : Prop where
  settled : s.store.Settled peer
  gone : name.setUp.Gone numbered s deeds
  spent : List.Forall₂ (SpentUnder S name theirs n) (s.store.sessionsWith peer) ls

/-- A session whose handshake is another one has nothing to do with the chain. -/
theorem Call.SetsUp.spentUnder {st : SessionState} {ln : Lineage} (h : c.SetsUp S peer s st ln)
    (unrepeatable : name.setUp.Unrepeatable numbered) (gone : name.setUp.Gone numbered s deeds) :
    SpentUnder S name theirs n st ln := by
  refine ⟨h.follows, fun same => ?_⟩
  rw [← same] at unrepeatable gone
  exact absurd gone (h.not_gone unrepeatable)

theorem Spent.through {more : List Deed} (unrepeatable : name.setUp.Unrepeatable numbered)
    (h : Spent S numbered peer name theirs n (deeds ++ more) s ls)
    (careful : s.Careful numbered S (deeds ++ more)) :
    Spent S numbered peer name theirs n more (s.through S deeds) (s.traced S peer ls deeds) := by
  induction deeds generalizing s ls with
  | nil => exact h
  | cons d deeds ih =>
    refine ih ?_ careful.2.2
    obtain ⟨settled, spent⟩ := Deed.forall₂_trace inherited_spentUnder h.settled h.spent careful.1
      fun c app _ st ln setsUp => setsUp.spentUnder unrepeatable h.gone
    exact ⟨settled, h.gone.run careful.1, spent⟩

variable (S peer) in
/-- No session that a call offers its message to finds the tag right, but with the chain of a name. -/
def Call.OnlyUnder (s : Site) (ls : List Lineage) (name : Lineage) (c : Call) : Prop :=
  ∀ offer ∈ c.offered S peer s.store, ∀ p ∈ offer.1.sessions.zip (c.lineages peer s ls),
    p.1.Verifies S offer.2 → p.2.chain offer.2.ratchetKey = name

instance : Decidable (c.OnlyUnder S peer s ls name) := inferInstanceAs (Decidable (∀ offer ∈ _, _))

/-- What is spent in all that goes on from a chain is not read once more. -/
theorem Spent.not_read (unrepeatable : name.setUp.Unrepeatable numbered)
    (h : Spent S numbered peer name m.ratchetKey m.counter deeds s ls) (hm : c.message? = some m)
    (only : c.OnlyUnder S peer s ls name) : ∃ err, (c.run S peer app s).1 = .error err := by
  rcases hr : c.offered S peer s.store with - | ⟨record, m'⟩
  · exact Call.run_of_not_offered hm hr
  by_cases reaches : c.Reaches s.store peer
  · obtain ⟨hm', -⟩ := Call.offered_installs h.settled reaches hr
    rw [hm] at hm'
    cases hm'
    have offered := Call.forall₂_offered h.settled h.spent
      (fun st ln setsUp => setsUp.spentUnder unrepeatable h.gone) reaches hr
    have foreign : ∀ st ∈ record.sessions, ¬st.Verifies S m := by
      intro st there verifies
      obtain ⟨ln, together, -, spent⟩ := exists_zip_of_forall₂ offered there
      have named := only (record, m) hr _ together verifies
      have same : (ln.chain m.ratchetKey).setUp = name.setUp := congrArg Lineage.setUp named
      exact ((spent same).2 named).not_verifies verifies
    obtain ⟨err, failed⟩ := offer_ne_ok foreign s.entropy
    exact ⟨err, Call.run_of_offer_error reaches hr failed⟩
  · exact Call.run_of_not_reaches hm reaches

/-- The session that has read a message is in front, and what it has read is spent. -/
theorem Account.read {plain : Bytes} {reader : Lineage}
    (h : Account S numbered peer (.call peer c app :: deeds) s ls)
    (careful : s.Careful numbered S (.call peer c app :: deeds)) (hm : c.message? = some m)
    (read : (c.run S peer app s).1 = .ok (.read plain))
    (first : (c.trace S peer app s ls).head? = some reader)
    (unrepeatable : reader.setUp.Unrepeatable numbered) :
    Spent S numbered peer (reader.chain m.ratchetKey) m.ratchetKey m.counter deeds
      (c.run S peer app s).2 (c.trace S peer app s ls) := by
  have after := h.step careful
  rw [Deed.trace, if_pos rfl] at after
  obtain ⟨settled, follows, -, gone, apart⟩ := after
  obtain ⟨m', record, front, st, back, st', e, e', hm', reaches, hr, -, split, opened, sessions⟩ :=
    Call.read_split h.settled (Prod.ext read rfl)
  rw [hm] at hm'
  cases hm'
  obtain ⟨others, trace⟩ := List.head?_eq_some_iff.mp first
  rw [trace, List.map_cons] at gone apart
  rw [Deed.run, trace, sessions] at follows
  obtain ⟨here, follows⟩ := List.forall₂_cons.mp follows
  refine ⟨settled, gone _ List.mem_cons_self unrepeatable, ?_⟩
  rw [sessions, trace]
  refine .cons ⟨here, fun _ => ?_⟩ ?_
  · -- the session that has read the message has the chain now
    have sound : st.Sound S := by
      have offered := Call.forall₂_offered h.settled h.follows (fun st ln new => new.follows)
        reaches hr
      rw [split] at offered
      obtain ⟨ln, -, follows⟩ := exists_zip_of_forall₂ offered
        (List.mem_append_right _ List.mem_cons_self)
      exact follows.sound
    have spent := sound.spent_decrypt opened
    have has : reader.has m.ratchetKey := by
      obtain ⟨window, hw, -⟩ := spent
      exact here.has_iff.mpr (by rw [hw]; exact Option.some_ne_none _)
    refine ⟨?_, fun _ => spent⟩
    show List.dropWhile _ (reader.reach m.ratchetKey).started <:+ _
    rw [Lineage.reach_of_has has]
    exact List.dropWhile_suffix _
  · -- the other sessions come from other handshakes
    refine forall₂_imp_of_mem follows fun st ln there follows => ⟨follows, fun same => ?_⟩
    exact absurd unrepeatable
      ((List.pairwise_cons.mp apart).1 _ (List.mem_map_of_mem there) same.symm)

/-- A message is read by a session of a device, which is then the first one.  If the handshake of
that session was one of our own, or has spent a one-time pre-key, then the message is never read
again, in whatever envelope it comes, even if the session has given way or has been deleted
meanwhile, and failing to read it leaves all sessions as they are.  The application stores no session
of its own accord, no one-time pre-key under a number that has been spent, and none under two
numbers; and whenever the message comes again, no chain finds its tag right but the one that has read
it, told by its handshake and the ratchet keys since. -/
theorem unrepeatable_read_once {start : Site} {before between : List Deed} {plain : Bytes}
    {reader : Lineage} (none : start.store.sessions[peer]? = none)
    (numbers : start.store.Numbered numbered)
    (careful : start.Careful numbered S (before ++ .call peer c app :: between))
    (hm : c.message? = some m)
    (read : (c.run S peer app (start.through S before)).1 = .ok (.read plain))
    (first : (start.traced S peer [] (before ++ [.call peer c app])).head? = some reader)
    (unrepeatable : reader.setUp.Unrepeatable numbered) (again : Call) (app' : App)
    (hm' : again.message? = some m) :
    let deeds := before ++ .call peer c app :: between
    let s := start.through S deeds
    again.OnlyUnder S peer s (start.traced S peer [] deeds) (reader.chain m.ratchetKey) →
    (∃ err, (again.run S peer app' s).1 = .error err) ∧
      (again.run S peer app' s).2.store.sessions = s.store.sessions := by
  intro deeds s only
  obtain ⟨account, careful₀⟩ := (Account.start none numbers).through careful
  have traced : start.traced S peer [] (before ++ [.call peer c app])
      = c.trace S peer app (start.through S before) (start.traced S peer [] before) := by
    rw [Site.traced_append]
    exact if_pos rfl
  rw [traced] at first
  have spent := account.read careful₀ hm read first unrepeatable
  rw [← List.append_nil between] at spent
  replace unrepeatable : (reader.chain m.ratchetKey).setUp.Unrepeatable numbered := unrepeatable
  have careful₁ := careful₀.2.2
  rw [← List.append_nil between] at careful₁
  have spent := spent.through unrepeatable careful₁
  have site : s = ((c.run S peer app (start.through S before)).2).through S between := by
    show List.foldl _ _ _ = _
    rw [List.foldl_append]
    rfl
  have lineages : start.traced S peer [] deeds
      = ((c.run S peer app (start.through S before)).2).traced S peer
        (c.trace S peer app (start.through S before) (start.traced S peer [] before)) between := by
    show start.traced S peer [] (before ++ ([.call peer c app] ++ between)) = _
    rw [← List.append_assoc, Site.traced_append, traced]
    show Site.traced S peer (List.foldl _ _ _) _ _ = _
    rw [List.foldl_append]
    rfl
  rw [← site, ← lineages] at spent
  obtain ⟨err, failed⟩ := spent.not_read unrepeatable hm' only
  exact ⟨⟨err, failed⟩, (Call.run_error (Prod.ext failed rfl)).sessions_eq⟩

end

end

namespace Toy

/-- The second message in an envelope that names the one-time pre-key. -/
def named : PreKeyMessage := rewrap second (some 7) second.baseKey second.identity

/-- The device reads two messages of a session that has not spent a one-time pre-key, forgets the
session, and reads the first one again. -/
def forgetful : List Deed :=
  [.call alice (.decryptPreKey first) accepting, .call alice (.decryptPreKey named) accepting,
    .ask (.deleteSession alice), .call alice (.decryptPreKey first) accepting]

/-- The first message of a session that spends the one-time pre-key. -/
def fare : PreKeyMessage :=
  let st := Store.greet suite { identity := keyPair 4, registrationId := 2 }
    (bundle (some (7, (keyPair 3).publicKey))) .empty (keyPair 5) (keyPair 6)
  (letters st 2).get ⟨0, by decide +kernel⟩

/-- The device reads that message, stores another one-time pre-key, and forgets the session. -/
def travel : List Deed :=
  [.call alice (.decryptPreKey fare) accepting, .ask (.storePreKey 8 ⟨8, keyPair 8⟩),
    .ask (.deleteSession alice)]

theorem numbered_bob {numbered : KeyPair → UInt32} (h : numbered (keyPair 3) = 7) :
    bob.store.Numbered numbered := by
  intro id record kept
  simp only [bob, Std.ExtTreeMap.getElem?_insert] at kept
  split at kept
  · rename_i same
    cases kept
    rw [Std.LawfulEqCmp.compare_eq_iff_eq] at same
    rw [h, same]
  · simp at kept

end Toy

/-- It comes once more in an envelope that names the other one-time pre-key, and is not read. -/
theorem unrepeatable_read_once_fare :
    let again := Toy.rewrap Toy.fare (some 8) Toy.fare.baseKey Toy.fare.identity
    ((Call.decryptPreKey Toy.fare).run Toy.suite Toy.alice accepting Toy.bob).1 = .ok (.read [1]) ∧
      ∃ err, ((Call.decryptPreKey again).run Toy.suite Toy.alice accepting
        (Toy.bob.through Toy.suite Toy.travel)).1 = .error err := by
  intro again
  have read : ((Call.decryptPreKey Toy.fare).run Toy.suite Toy.alice accepting Toy.bob).1
      = .ok (.read [1]) := toOption_eq_some.mp (by decide +kernel)
  let numbered : KeyPair → UInt32 := fun pair => if pair = Toy.keyPair 3 then 7 else 8
  obtain ⟨reader, first, unrepeatable⟩ : ∃ reader, (Toy.bob.traced Toy.suite Toy.alice []
      (Toy.travel.take 1)).head? = some reader ∧ reader.setUp = .welcomed ⟨Toy.keyPair 1,
        Toy.keyPair 2, some (Toy.keyPair 3), Toy.keyPair 2, Toy.fare.identity, Toy.fare.baseKey⟩ := by
    have some : ((Toy.bob.traced Toy.suite Toy.alice [] (Toy.travel.take 1)).head?.map (·.setUp))
        = some (.welcomed ⟨Toy.keyPair 1, Toy.keyPair 2, some (Toy.keyPair 3), Toy.keyPair 2,
          Toy.fare.identity, Toy.fare.baseKey⟩) := by decide +kernel
    exact Option.map_eq_some_iff.mp some
  have unrepeatable : reader.setUp.Unrepeatable numbered := by
    rw [unrepeatable]
    exact ⟨Toy.keyPair 3, rfl, by decide +kernel⟩
  have only : ∀ reader ∈ (Toy.bob.traced Toy.suite Toy.alice [] (Toy.travel.take 1)).head?,
      (Call.decryptPreKey again).OnlyUnder Toy.suite Toy.alice
        (Toy.bob.through Toy.suite Toy.travel) (Toy.bob.traced Toy.suite Toy.alice [] Toy.travel)
        (reader.chain Toy.fare.message.ratchetKey) := by decide +kernel
  have careful : Toy.bob.Careful numbered Toy.suite
      ([] ++ .call Toy.alice (.decryptPreKey Toy.fare) accepting :: Toy.travel.drop 1) := by
    decide +kernel
  exact ⟨read, (unrepeatable_read_once rfl (Toy.numbered_bob (by decide +kernel)) careful rfl read
    first unrepeatable (.decryptPreKey again) accepting rfl (only reader first)).1⟩

/-- **The number on the envelope does not make a message unrepeatable.**  The application is fair and
careful, the message names a one-time pre-key that is not the last resort, and it is read under one
chain only; but the handshake of its session has spent none, so it is read twice, with the session
deleted in between. -/
theorem replayed_after_deletion :
    let read (deeds : List Deed) := ((Call.decryptPreKey Toy.named).run Toy.suite Toy.alice accepting
      (Toy.bob.through Toy.suite deeds)).1
    Toy.named.preKeyId = some 7 ∧ (7 : UInt32) ≠ lastResortPreKey ∧
      Toy.bob.store.Numbered (fun _ => 7) ∧
      Toy.bob.Careful (fun _ => 7) Toy.suite
        (Toy.forgetful ++ [.call Toy.alice (.decryptPreKey Toy.named) accepting]) ∧
      (∀ reader ∈ (Toy.bob.traced Toy.suite Toy.alice [] (Toy.forgetful.take 2)).head?,
        (Call.decryptPreKey Toy.named).OnlyUnder Toy.suite Toy.alice
          (Toy.bob.through Toy.suite Toy.forgetful)
          (Toy.bob.traced Toy.suite Toy.alice [] Toy.forgetful)
          (reader.chain Toy.named.message.ratchetKey)) ∧
      read (Toy.forgetful.take 1) = .ok (.read [0]) ∧ read Toy.forgetful = .ok (.read [0]) := by
  refine ⟨rfl, by decide, Toy.numbered_bob rfl, ?_, ?_, toOption_eq_some.mp ?_,
    toOption_eq_some.mp ?_⟩
  all_goals decide +kernel

end DoubleRatchet
