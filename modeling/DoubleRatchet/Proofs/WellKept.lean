/-
DoubleRatchet/Proofs/WellKept.lean

What every record that is stored is like.

A session that has been set up is `Whole`: it has all that a session needs, and no list
in it is longer than its bound.  Sending and decrypting keep it whole.  A record is
`WellKept` when all its sessions are whole, the archive is within its bound, and no two
sessions bear the same base key, but for those that may be borne by more than one.

Whatever threads do on a device that begins without a session with a peer, the record
that is stored for the peer is well kept, as long as the base keys that are made there
differ from each other and from those that are received (`well_kept`).  No lock is needed
for that: whenever a job stores, it stores what has come of some record that was well
kept when it was loaded, and a base key that it has made since is in no record but its
own.

A base key that is received is looked for among the sessions of the version that its
envelope names.  All sessions are of the version in use, and so are all messages that
have been read from bytes.  An envelope that has been made for another version finds no
session, and sets up one more every time it comes (`named_twice`); base keys of such
envelopes are the ones that may be borne by more than one session.
-/
import DoubleRatchet.Proofs.Bodies
import DoubleRatchet.Proofs.Errands
import DoubleRatchet.Proofs.Stamps

namespace DoubleRatchet

open Function (update)

/-! ### Sessions and records -/

/-- The session has all that it needs, and its lists are within their bounds. -/
structure SessionState.Whole (S : Suite) (st : SessionState) : Prop extends st.Sound S where
  rootKey : st.rootKey.isSome
  localIdentity : st.localIdentity.isSome
  remoteIdentity : st.remoteIdentity.isSome
  baseKey : st.baseKey.isSome
  few : st.receiverChains.length ≤ limits.receiverChains
  windows : ∀ chain ∈ st.receiverChains, chain.window.skipped.length ≤ limits.skippedKeys

/-- The names of sessions: their base keys. -/
def names (sts : List SessionState) : List (Option Bytes) := sts.map (·.baseKey)

/-- No two of the names are the same, but for those that may come often. -/
def DistinctBut (often : Option Bytes → Prop) (l : List (Option Bytes)) : Prop :=
  l.Pairwise fun name other => name = other → often name

/-- The sessions of the record are whole, and there are not too many of them; and they have names of
their own, but for those that may come often. -/
structure SessionRecord.WellKept (S : Suite) (often : Option Bytes → Prop) (r : SessionRecord) :
    Prop where
  bounded : r.archive.length ≤ limits.archivedSessions
  whole : ∀ st ∈ r.sessions, st.Whole S
  distinct : DistinctBut often (names r.sessions)

/-! ### Names -/

namespace DistinctBut

variable {often often' : Option Bytes → Prop} {l l' : List (Option Bytes)} {name : Option Bytes}

theorem mono (h : DistinctBut often l) (imp : ∀ name, often name → often' name) :
    DistinctBut often' l :=
  List.Pairwise.imp (fun same eq => imp _ (same eq)) h

theorem cons (h : DistinctBut often l) (new : name ∈ l → often name) :
    DistinctBut often (name :: l) := by
  refine List.pairwise_cons.mpr ⟨fun other there same => ?_, h⟩
  rw [← same] at there
  exact new there

theorem of_subperm (h : DistinctBut often l) (sub : l'.Subperm l) : DistinctBut often l' := by
  refine pairwise_of_subperm ?symm sub h
  rintro name _ same rfl
  exact same rfl

/-- If no name may come often, all of them are distinct. -/
theorem nodup (h : DistinctBut often l) (never : ∀ name, ¬often name) : l.Nodup := by
  refine List.nodup_iff_pairwise_ne.mpr (List.Pairwise.imp ?_ h)
  intro name other same eq
  exact never _ (same eq)

end DistinctBut

/-! ### Sessions that stay whole -/

section
variable {S : Suite} {st st' : SessionState} {theirs : PublicKey} {e e' : Entropy}

namespace SessionState

theorem Built.whole (h : st.Built S) : st.Whole S := by
  have sound := h.sound
  cases h with
  | greeted =>
    refine ⟨sound, rfl, rfl, rfl, rfl, by simp [Store.greet, nameAfter, initiateWith, between,
      addReceiver, keepNewest, empty, limits], fun chain hc => ?_⟩
    obtain rfl := List.mem_singleton.mp hc
    exact Nat.zero_le _
  | welcomed =>
    refine ⟨sound, rfl, rfl, rfl, rfl, Nat.zero_le _, ?_⟩
    intro chain hc
    cases hc

theorem Whole.reached (h : st.Whole S) (reached : Reached S st theirs e st' e') : st'.Whole S := by
  have sound := h.toSound.reached reached
  cases reached with
  | known => exact h
  | turned none root chain alive =>
    refine ⟨sound, rfl, h.localIdentity, h.remoteIdentity, h.baseKey, ?_, fun chain hc => ?_⟩
    · show (keepNewest _ _ _).length ≤ _
      rw [length_keepNewest _ _ _ h.few]
      exact Nat.min_le_left ..
    · rcases mem_addReceiver hc with old | rfl
      · exact h.windows chain old
      · exact Nat.zero_le _

/-- A session that is whole stays whole. -/
theorem Whole.evolves (h : st.Whole S) (evolves : Evolves S st st') : st'.Whole S := by
  have sound := h.toSound.evolves evolves
  cases evolves with
  | same => exact h
  | sent sent =>
    obtain ⟨remote, own, chain, next, -, -, -, -, -, rfl⟩ := encrypt_ok sent
    exact ⟨sound, h.rootKey, h.localIdentity, h.remoteIdentity, h.baseKey, h.few, h.windows⟩
  | @opened _ m _ _ _ opened =>
    obtain ⟨-, -, st₁, reached, decrypted⟩ := decrypt_ok opened
    obtain ⟨window, keys, after, hw, taken, -, rfl⟩ := decryptOn_ok decrypted
    have h₁ := h.reached reached
    refine ⟨sound, h₁.rootKey, h₁.localIdentity, h₁.remoteIdentity, h₁.baseKey, ?_,
      fun chain hc => ?_⟩
    · show (changeFirst _ _ _).length ≤ _
      rw [length_changeFirst]
      exact h₁.few
    · rcases mem_changeFirst hc with old | ⟨before, -, rfl⟩
      · exact h₁.windows chain old
      · exact Window.few_take (h₁.windows _ (mem_of_window? hw)) taken

end SessionState

/-! ### Base keys -/

/-- A session keeps its base key. -/
theorem Evolves.baseKey_eq (h : Evolves S st st') : st'.baseKey = st.baseKey := by
  cases h with
  | same => rfl
  | sent h =>
    obtain ⟨_, _, _, _, -, -, -, -, -, rfl⟩ := SessionState.encrypt_ok h
    rfl
  | opened h =>
    obtain ⟨-, -, st₁, reached, decrypted⟩ := SessionState.decrypt_ok h
    obtain ⟨_, _, _, -, -, -, rfl⟩ := SessionState.decryptOn_ok decrypted
    cases reached <;> rfl

variable {B : SessionState → Prop} {l l' : List SessionState}

theorem Uses.perm_names {f : Nat → Nat} (h : Uses S l l' f) : (names l').Perm (names l) := by
  cases h with
  | none => exact .refl _
  | sent l sent =>
    unfold names
    rw [List.map_cons, List.map_cons, (Evolves.sent sent).baseKey_eq]
  | @opened before st after _ _ _ _ _ opened =>
    unfold names
    rw [List.map_cons, (Evolves.opened opened).baseKey_eq]
    show ((st :: (before ++ after)).map (·.baseKey)).Perm ((before ++ st :: after).map (·.baseKey))
    exact List.perm_middle.symm.map _

theorem Installs.names {f : Nat → Option Nat} (h : Installs B l l' f) :
    (names l').Sublist (names l) ∨ ∃ st, B st ∧ (names l').Sublist (st.baseKey :: names l) := by
  cases h with
  | none => exact .inl (.refl _)
  | @one st _ h =>
    exact .inr ⟨st, h, ((List.take_sublist _ _).map _).cons_cons _⟩

/-- The names change in that a new one may come to them. -/
theorem Changes.names {f : Nat → Option Nat} (h : Changes S B l l' f) :
    (names l').Subperm (names l) ∨ ∃ st, B st ∧ (names l').Subperm (st.baseKey :: names l) := by
  obtain ⟨installs, uses⟩ := h
  rcases installs.names with old | ⟨st, new, old⟩
  · exact .inl (uses.perm_names.subperm.trans old.subperm)
  · exact .inr ⟨st, new, uses.perm_names.subperm.trans old.subperm⟩

end

/-! ### Base keys of a run -/

/-- The base keys that are made for the peer. -/
def Entry.baseKeys (S : Suite) (peer : Address) (x : Entry) : List PublicKey :=
  match x.event with
  | .drew number source after =>
    (x.job.bind (·.op.for? peer)).elim [] fun c => c.baseKeys S number source after
  | _ => []

/-- The base keys that have been made for the peer. -/
def baseKeysMade (S : Suite) (peer : Address) (history : List Entry) : List PublicKey :=
  history.flatMap (·.baseKeys S peer)

/-- The pre-key message of the peer that a job is presented with. -/
def Entry.greeting? (peer : Address) (x : Entry) : Option PreKeyMessage :=
  match x.job.bind (·.op.for? peer) with
  | some (.decryptPreKey m) => some m
  | _ => none

/-- The pre-key messages of the peer that jobs have been presented with. -/
def greetings (peer : Address) (history : List Entry) : List PreKeyMessage :=
  history.filterMap (·.greeting? peer)

/-- A message that has been read is of the version in use. -/
theorem PreKeyMessage.version_parse {bs : Bytes} {m : PreKeyMessage} (h : parse bs = .ok m) :
    m.version = currentVersion := by
  obtain ⟨⟨version, body⟩, split, h⟩ := bind_eq_ok.mp h
  obtain ⟨fields, -, h⟩ := bind_eq_ok.mp h
  have same : m.version = version := by
    split at h
    · obtain ⟨baseKey, -, h⟩ := bind_eq_ok.mp h
      obtain ⟨identity, -, h⟩ := bind_eq_ok.mp h
      obtain ⟨message, -, h⟩ := bind_eq_ok.mp h
      cases h
      rfl
    · cases h
  obtain ⟨byte, -, read⟩ := splitVersion_eq_ok.mp split
  unfold readVersion at read
  dsimp only at read
  split at read
  · cases read
  · split at read
    · cases read
    · rename_i low high
      cases read
      exact same.trans (UInt8.le_antisymm (UInt8.not_lt.mp high) (UInt8.not_lt.mp low))

/-- The base keys that have been made differ from each other and from those that have been received. -/
structure FreshBaseKeys (S : Suite) (peer : Address) (history : List Entry) : Prop where
  distinct : (baseKeysMade S peer history).Nodup
  foreign : ∀ m ∈ greetings peer history, m.baseKey ∉ baseKeysMade S peer history

instance {S : Suite} {peer : Address} {history : List Entry} :
    Decidable (FreshBaseKeys S peer history) :=
  decidable_of_iff
    ((baseKeysMade S peer history).Nodup ∧
      ∀ m ∈ greetings peer history, m.baseKey ∉ baseKeysMade S peer history)
    ⟨fun ⟨distinct, foreign⟩ => ⟨distinct, foreign⟩, fun h => ⟨h.distinct, h.foreign⟩⟩

/-- The name is a base key that has been received in an envelope of another version than sessions
have. -/
def IsStray (peer : Address) (history : List Entry) (name : Option Bytes) : Prop :=
  ∃ m ∈ greetings peer history, m.version ≠ currentVersion ∧ name = some m.baseKey.transmitted

/-- The name is a base key that has been made or received. -/
def HasOccurred (S : Suite) (peer : Address) (history : List Entry) (name : Option Bytes) : Prop :=
  ∃ key, name = some key.transmitted ∧
    (key ∈ baseKeysMade S peer history ∨ ∃ m ∈ greetings peer history, m.baseKey = key)

section
variable {S : Suite} {peer : Address} {h h' : List Entry} {x : Entry} {name : Option Bytes}
  {key : PublicKey}

theorem sublist_baseKeysMade (later : h <+: h') :
    (baseKeysMade S peer h).Sublist (baseKeysMade S peer h') := by
  obtain ⟨rest, rfl⟩ := later
  unfold baseKeysMade
  rw [List.flatMap_append]
  exact List.sublist_append_left _ _

theorem subset_greetings (later : h <+: h') : greetings peer h ⊆ greetings peer h' :=
  (later.sublist.filterMap _).subset

theorem FreshBaseKeys.of_prefix (later : h <+: h') (fresh : FreshBaseKeys S peer h') :
    FreshBaseKeys S peer h where
  distinct := (sublist_baseKeysMade later).nodup fresh.distinct
  foreign m hm made :=
    fresh.foreign m (subset_greetings later hm) ((sublist_baseKeysMade later).subset made)

theorem IsStray.mono (later : h <+: h') (stray : IsStray peer h name) : IsStray peer h' name := by
  obtain ⟨m, hm, other, same⟩ := stray
  exact ⟨m, subset_greetings later hm, other, same⟩

/-- There are no strays among the base keys of messages that have been read from bytes. -/
theorem not_isStray (read : ∀ m ∈ greetings peer h, ∃ bs, PreKeyMessage.parse bs = .ok m) :
    ¬IsStray peer h name := by
  rintro ⟨m, hm, other, -⟩
  obtain ⟨bs, parsed⟩ := read m hm
  exact other (PreKeyMessage.version_parse parsed)

theorem HasOccurred.mono (later : h <+: h') (occurred : HasOccurred S peer h name) :
    HasOccurred S peer h' name := by
  obtain ⟨key, rfl, made | ⟨m, hm, same⟩⟩ := occurred
  · exact ⟨key, rfl, .inl ((sublist_baseKeysMade later).subset made)⟩
  · exact ⟨key, rfl, .inr ⟨m, subset_greetings later hm, same⟩⟩

theorem baseKeysMade_append :
    baseKeysMade S peer (h ++ [x]) = baseKeysMade S peer h ++ x.baseKeys S peer := by
  simp [baseKeysMade]

/-- A base key that is made has not occurred before. -/
theorem FreshBaseKeys.not_occurred (fresh : FreshBaseKeys S peer (h ++ [x]))
    (made : key ∈ x.baseKeys S peer) : ¬HasOccurred S peer h (some key.transmitted) := by
  have later : h <+: h ++ [x] := List.prefix_append _ _
  rintro ⟨key', same, before | ⟨m, hm, rfl⟩⟩
  · obtain rfl := PublicKey.transmitted_injective (Option.some.inj same)
    have distinct := fresh.distinct
    rw [baseKeysMade_append] at distinct
    exact (List.nodup_append.mp distinct).2.2 key before key made rfl
  · obtain rfl := PublicKey.transmitted_injective (Option.some.inj same)
    refine fresh.foreign m (subset_greetings later hm) ?_
    rw [baseKeysMade_append]
    exact List.mem_append_right _ made

end

/-! ### Records of a run -/

/-- The record is well kept, and its sessions bear base keys that have occurred. -/
structure SessionRecord.Tidy (S : Suite) (peer : Address) (history : List Entry)
    (r : SessionRecord) : Prop where
  kept : r.WellKept S (IsStray peer history)
  old : r.fresh = false
  occurred : ∀ name ∈ names r.sessions, HasOccurred S peer history name

/-- A job has loaded the record, and has made base keys since, which are not in it. -/
structure SessionRecord.Drafted (S : Suite) (peer : Address) (history : List Entry)
    (keys : List PublicKey) (r : SessionRecord) : Prop where
  record : r = .empty ∨ r.Tidy S peer history
  made : ∀ key ∈ keys, key ∈ baseKeysMade S peer history ∧ some key.transmitted ∉ names r.held

namespace SessionRecord

variable {S : Suite} {peer : Address} {h h' : List Entry} {keys : List PublicKey}
  {r r' : SessionRecord} {c : Call} {st : SessionState}

theorem Tidy.mono (later : h <+: h') (tidy : r.Tidy S peer h) : r.Tidy S peer h' where
  kept := ⟨tidy.kept.bounded, tidy.kept.whole, tidy.kept.distinct.mono fun _ => .mono later⟩
  old := tidy.old
  occurred name hn := (tidy.occurred name hn).mono later

namespace Drafted

theorem mono (later : h <+: h') (drafted : r.Drafted S peer h keys) : r.Drafted S peer h' keys where
  record := drafted.record.imp_right (·.mono later)
  made key hk := ⟨(sublist_baseKeysMade later).subset (drafted.made key hk).1, (drafted.made key hk).2⟩

/-- What is held by the record that has been loaded. -/
theorem held (drafted : r.Drafted S peer h keys) :
    (∀ st ∈ r.held, st.Whole S) ∧ DistinctBut (IsStray peer h) (names r.held) ∧
      ∀ name ∈ names r.held, HasOccurred S peer h name := by
  rcases drafted.record with rfl | tidy
  · exact ⟨nofun, .nil, nofun⟩
  · have settled : r.Settled := ⟨tidy.old, tidy.kept.bounded⟩
    rw [settled.held_eq]
    exact ⟨tidy.kept.whole, tidy.kept.distinct, tidy.occurred⟩

theorem loadable (drafted : r.Drafted S peer h keys) : r.Loadable :=
  drafted.record.imp_right fun tidy => ⟨tidy.old, tidy.kept.bounded⟩

/-- A session that the job adds has a name that the record does not have, or a stray one. -/
theorem founds (drafted : r.Drafted S peer h keys)
    (presented : ∀ m, c = .decryptPreKey m → m ∈ greetings peer h)
    (founds : c.Founds S keys r st) :
    (st.baseKey ∈ names r.held → IsStray peer h st.baseKey) ∧ HasOccurred S peer h st.baseKey := by
  have named := founds.baseKey
  cases c with
  | start bundle =>
    obtain ⟨key, hk, same⟩ := named
    rw [same]
    obtain ⟨made, new⟩ := drafted.made key hk
    exact ⟨fun there => absurd there new, key, rfl, .inl made⟩
  | decryptPreKey m =>
    obtain ⟨same, unknown⟩ := named
    have hm := presented m rfl
    rw [same]
    refine ⟨fun there => ⟨m, hm, fun version => ?_, rfl⟩, m.baseKey, rfl, .inr ⟨m, hm, rfl⟩⟩
    -- all sessions are of the version in use, and one with that name would be known
    obtain ⟨st', hst, same'⟩ := List.mem_map.mp there
    have whole := drafted.held.1 st' hst
    have mem : st' ∈ r.sessions := by
      unfold SessionRecord.held at hst
      split at hst
      · cases hst
      · exact hst
    have known : r.knows m.version m.baseKey.transmitted := by
      refine List.any_eq_true.mpr ⟨st', mem, ?_⟩
      simp [SessionState.isFor, whole.version, version, same']
    rw [unknown] at known
    cases known
  | encrypt plain => exact named.elim
  | decrypt m => exact named.elim
  | pin identity => exact named.elim

/-- The job stores a record that is tidy. -/
theorem keep (drafted : r.Drafted S peer h keys)
    (presented : ∀ m, c = .decryptPreKey m → m ∈ greetings peer h)
    (writes : c.Writes S keys r r') : r'.stored.Tidy S peer h := by
  obtain ⟨few, f, changes⟩ := writes
  obtain ⟨whole, distinct, occurred⟩ := drafted.held
  have all : ∀ st ∈ r'.sessions, st.Whole S :=
    changes.forall_mem (fun h => h.built.whole) (fun h evolves => h.evolves evolves) whole
  rcases changes.names with old | ⟨st, new, old⟩
  · exact ⟨⟨few, all, distinct.of_subperm old⟩, rfl, fun name hn => occurred name (old.subset hn)⟩
  · obtain ⟨stray, occurred'⟩ := drafted.founds presented new
    refine ⟨⟨few, all, (distinct.cons stray).of_subperm old⟩, rfl, fun name hn => ?_⟩
    rcases List.mem_cons.mp (old.subset hn) with rfl | there
    · exact occurred'
    · exact occurred name there

/-- The job makes another base key. -/
theorem drew {x : Entry} (drafted : r.Drafted S peer h keys) (fresh : FreshBaseKeys S peer (h ++ [x])) :
    r.Drafted S peer (h ++ [x]) (keys ++ x.baseKeys S peer) where
  record := (drafted.mono (List.prefix_append _ _)).record
  made key hk := by
    rcases List.mem_append.mp hk with old | new
    · exact (drafted.mono (List.prefix_append _ _)).made key old
    · refine ⟨?_, fun there => fresh.not_occurred new (drafted.held.2.2 _ there)⟩
      rw [baseKeysMade_append]
      exact List.mem_append_right _ new

end Drafted

end SessionRecord

/-! ### All threads -/

/-- The record in the store is tidy, and so are those that jobs have loaded. -/
structure Tended (S : Suite) (peer : Address) (s : Shared) (jobs : Underway Errand) : Prop where
  stored : ∀ {r}, s.device.store.sessions[peer]? = some r → r.Tidy S peer s.history
  drafts : ∀ {n thread t r}, jobs n = some (thread, t) → t.loaded = some r →
    r.Drafted S peer s.history t.made

section
variable {S : Suite} {peer : Address} {s s' : Shared} {jobs : Underway Errand} {n thread : Nat}
  {t t' : Errand} {c : Call} {r : Request} {d d' : Device} {reply : Except Error r.Reply}

/-- A request of an errand loads the record, or stores one, or leaves it alone. -/
theorem Call.ErrandAsks.cases (h : c.ErrandAsks S peer t r) :
    r = .store (.loadSession peer) ∨
      (∃ record record', r = .store (.storeSession peer record') ∧ t.loaded = some record ∧
        (record.Loadable → c.Writes S t.made record record')) ∨
      ((∀ q, r = .store q → q.Spares peer) ∧ ∀ other, r ≠ .store (.loadSession other)) := by
  cases h with
  | load => exact .inl rfl
  | keep cleared loaded writes => exact .inr (.inl ⟨_, _, rfl, loaded, writes⟩)
  | @keys q cleared own =>
    refine .inr (.inr ⟨?_, ?_⟩)
    · rintro _ ⟨⟩
      cases q <;> first | exact own.elim | trivial
    · rintro other ⟨⟩
      exact own
  | _ => exact .inr (.inr ⟨by rintro _ ⟨⟩ <;> trivial, nofun⟩)

/-- Only loading makes a difference to what has been loaded. -/
theorem Call.errand_frame (h : ∀ other, r ≠ .store (.loadSession other)) :
    (c.errand S t (.asked r reply)).loaded = t.loaded ∧
      (c.errand S t (.asked r reply)).made = t.made := by
  unfold errand
  split <;> simp_all

theorem Device.Meets.sessions_eq (met : d.Meets thread r reply d')
    (spares : ∀ q, r = .store q → q.Spares peer) :
    d'.store.sessions[peer]? = d.store.sessions[peer]? := by
  cases met with
  | answered q => exact Store.sessions_answer (spares q rfl)
  | _ => rfl

/-- A job makes a step that leaves the record alone. -/
theorem Tended.step (h : Tended S peer s jobs)
    (same : s'.device.store.sessions[peer]? = s.device.store.sessions[peer]?)
    (later : s.history <+: s'.history)
    (own : ∀ {r}, t'.loaded = some r → r.Drafted S peer s'.history t'.made) :
    Tended S peer s' (update jobs n (some (thread, t'))) where
  stored hr := (h.stored (same ▸ hr)).mono later
  drafts hx loaded := by
    rcases Underway.of_update hx with ⟨-, ⟨⟩⟩ | ⟨-, hx⟩
    · exact own loaded
    · exact (h.drafts hx loaded).mono later

/-- A job loads the record. -/
theorem Tended.load {reply : Except Error SessionRecord} (h : Tended S peer s jobs)
    (own : jobs n = some (thread, t))
    (met : s.device.Meets thread (.store (.loadSession peer)) reply d') (hd : s'.device = d')
    (later : s.history <+: s'.history) :
    Tended S peer s'
      (update jobs n (some (thread, c.errand S t (.asked (.store (.loadSession peer)) reply)))) := by
  cases met with
  | failed q e => exact h.step (by rw [hd]) later fun loaded => (h.drafts own loaded).mono later
  | answered q =>
    refine h.step (by rw [hd]; rfl) later fun loaded => ?_
    obtain rfl := Option.some.inj loaded
    refine ⟨?_, nofun⟩
    rcases s.device.store.loadSession_cases peer with ⟨-, empty⟩ | stored
    · exact .inl empty
    · exact .inr ((h.stored stored).mono later)

/-- A job stores what it has made of the record that it has loaded. -/
theorem Tended.keep {record record' : SessionRecord} {reply : Except Error Unit}
    (h : Tended S peer s jobs) (own : jobs n = some (thread, t))
    (met : s.device.Meets thread (.store (.storeSession peer record')) reply d')
    (hd : s'.device = d') (later : s.history <+: s'.history)
    (loaded : t.loaded = some record)
    (writes : record.Loadable → c.Writes S t.made record record')
    (presented : ∀ m, c = .decryptPreKey m → m ∈ greetings peer s'.history) :
    Tended S peer s' (update jobs n
      (some (thread, c.errand S t (.asked (.store (.storeSession peer record')) reply)))) := by
  have drafted := (h.drafts own loaded).mono later
  cases met with
  | failed q e => exact h.step (by rw [hd]) later fun loaded => (h.drafts own loaded).mono later
  | answered q =>
    refine ⟨fun {r} hr => ?_, fun hx loaded => ?_⟩
    · obtain rfl : record'.stored = r := by
        simpa [hd, Store.answer, Store.storeSession] using hr
      exact drafted.keep presented (writes drafted.loadable)
    · rcases Underway.of_update hx with ⟨-, ⟨⟩⟩ | ⟨-, hx⟩
      · exact (h.drafts own loaded).mono later
      · exact (h.drafts hx loaded).mono later

theorem invariant_tended (S : Suite) (peer : Address) :
    (errands (·.Spares peer) S peer).Invariant (FreshBaseKeys S peer) (Tended S peer) where
  closed := FreshBaseKeys.of_prefix
  entered thread op inv unused good := inv.step rfl (Shared.prefix_log _ _ _) nofun
  asked {s jobs thread job t fault r reply s'} inv own rests asks answered good := by
    obtain ⟨device, met, rfl⟩ := Shared.answer_eq answered
    refine ⟨met.errand_expects, ?_⟩
    have later : s.history <+: ({ s with device }.log (some job) (.asked r reply)).history :=
      Shared.prefix_log { s with device } _ _
    cases on : job.op.for? peer with
    | none =>
      simp only [errands, on] at asks ⊢
      refine inv.step (met.sessions_eq ?_) later fun loaded => (inv.drafts own loaded).mono later
      rintro q rfl
      exact asks.1
    | some c =>
      simp only [errands, on] at asks ⊢
      rcases asks.cases with rfl | ⟨record, record', rfl, loaded, writes⟩ | ⟨spares, other⟩
      · exact inv.load own met rfl later
      · refine inv.keep own met rfl later loaded writes fun m hm => ?_
        exact List.mem_filterMap.mpr ⟨_, List.mem_append_right _ List.mem_cons_self, by
          simp [Entry.greeting?, on, hm]⟩
      · obtain ⟨loaded, made⟩ := Call.errand_frame other
        refine inv.step (met.sessions_eq spares) later fun there => ?_
        rw [loaded] at there
        rw [made]
        exact (inv.drafts own there).mono later
  requested {s jobs thread fault q reply s'} inv free answered good := by
    obtain ⟨device, met, rfl⟩ := Shared.answer_eq answered
    have later : s.history <+: ({ s with device }.log none (.asked (.store q) reply)).history :=
      Shared.prefix_log { s with device } _ _
    have same := met.sessions_eq (by rintro _ ⟨⟩; exact free)
    exact ⟨fun hr => (inv.stored (same ▸ hr)).mono later,
      fun hx loaded => (inv.drafts hx loaded).mono later⟩
  drew {β s jobs thread job t fault number x} inv own good := by
    have later : s.history <+: (s.draw fault job number x).2.history := List.prefix_append _ _
    refine inv.step rfl later fun {r} loaded => ?_
    cases on : job.op.for? peer with
    | none =>
      simp only [errands, on] at loaded ⊢
      exact (inv.drafts own loaded).mono later
    | some c =>
      simp only [errands, on] at loaded ⊢
      have drafted := (inv.drafts own loaded).drew good
      simp only [Entry.baseKeys, Option.bind_some, on, Option.elim_some] at drafted
      exact drafted
  left {s jobs thread job t outcome} inv own rests leaves good := by
    have later := Shared.prefix_log s (some job) (.left outcome)
    refine ⟨fun hr => (inv.stored hr).mono later, fun hx loaded => ?_⟩
    rcases Underway.of_update hx with ⟨-, ⟨⟩⟩ | ⟨-, hx⟩
    exact (inv.drafts hx loaded).mono later

theorem tended_start {device : Device} (none : device.store.sessions[peer]? = none)
    (entropy : Entropy) : Tended S peer { device, entropy } fun _ => Option.none where
  stored hr := by
    rw [none] at hr
    cases hr
  drafts := nofun

/-- **Every record that is stored is well kept.**  On a device that begins without a session with the
peer, whatever threads do there and whatever fails, as long as the base keys that are made differ from
each other and from those that are received: the archive and all lists of all sessions are within their
bounds, all sessions have all that they need, and no two have the same base key, but for those that have
come in an envelope of another version.  No envelope is, if all have been read from bytes, and then the
base keys are distinct. -/
theorem well_kept {device : Device} {entropy : Entropy} {scripts : List Script}
    {turns : List (Nat × Option Error)} (none : device.store.sessions[peer]? = none)
    (spares : ∀ script ∈ scripts, script.Within (·.Spares peer)) {s : Shared}
    (run : ((Machine.start S device entropy scripts).after turns).shared = s)
    (fresh : FreshBaseKeys S peer s.history) {record : SessionRecord}
    (stored : s.device.store.sessions[peer]? = some record) :
    record.WellKept S (IsStray peer s.history) ∧
      ((∀ m ∈ greetings peer s.history, ∃ bs, PreKeyMessage.parse bs = .ok m) →
        (names record.sessions).Nodup) := by
  rw [← run] at fresh stored ⊢
  obtain ⟨jobs, tended⟩ := (invariant_tended S peer).after (follows_errands _ S peer) spares
    (tended_start none entropy) turns fresh
  have kept := (tended.stored stored).kept
  exact ⟨kept, fun read => kept.distinct.nodup fun _ => not_isStray read⟩

end

/-! ### Threads to compute with -/

namespace Toy

/-- A bundle with the identity that the first message of the peer has too. -/
def hers : PreKeyBundle := { bundle none with identity := (keyPair 4).publicKey }

/-- Start a session, and go on whatever comes of it. -/
def starting (next : Script) : Script := .attempt (.session alice (.start hers)) next

/-- One thread starts a session and then reads the first message, with a callback that tries to
encrypt; the other one starts a session too, and encrypts. -/
def keepers : List Script :=
  [starting (.perform (.session alice (.decryptPreKey first)) (fun _ => encryption 1 (.stop (.ok ())))
      fun _ => .stop (.ok ())),
    starting (encryption 2 (.stop (.ok ())))]

/-- What the threads have come to, each in turn. -/
def afterKeepers : Shared :=
  ((Machine.start suite { store := bob.store } bob.entropy keepers).after
    ((List.range 40).flatMap fun _ => [(0, none), (1, none)])).shared

/-- The same message in an envelope that is made for another version. -/
def misdated (m : PreKeyMessage) : PreKeyMessage :=
  .make 4 m.registrationId m.preKeyId m.signedPreKeyId m.baseKey m.identity m.message

/-- Read one message after another. -/
def reading : List PreKeyMessage → Script
  | [] => .stop (.ok ())
  | m :: ms => .attempt (.session alice (.decryptPreKey m)) (reading ms)

/-- What a thread has come to that reads messages one after another. -/
def afterReading (ms : List PreKeyMessage) : Shared :=
  ((Machine.start suite { store := bob.store } bob.entropy [reading ms]).after
    (List.replicate 40 (0, none))).shared

/-- The names of the sessions with the peer, if a record is stored. -/
def namesIn (s : Shared) : Option (List (Option Bytes)) :=
  s.device.store.sessions[alice]?.map (names ·.sessions)

end Toy

/-- Both sessions that are started and the one of the message are in the record. -/
theorem well_kept_keepers : ∃ record,
    Toy.afterKeepers.device.store.sessions[Toy.alice]? = some record ∧ record.sessions.length = 3 ∧
      record.WellKept Toy.suite (IsStray Toy.alice Toy.afterKeepers.history) ∧
      (names record.sessions).Nodup := by
  have none : Toy.bob.store.sessions[Toy.alice]? = none := by decide +kernel
  have spares : ∀ script ∈ Toy.keepers, script.Within (·.Spares Toy.alice) := by
    simp [Toy.keepers, Toy.starting, Toy.encryption, Script.attempt, Script.Within]
  have fresh : FreshBaseKeys Toy.suite Toy.alice Toy.afterKeepers.history := by decide +kernel
  have three : (Toy.afterKeepers.device.store.sessions[Toy.alice]?.map fun record =>
      record.sessions.length) = some 3 := by decide +kernel
  obtain ⟨record, stored, three⟩ := Option.map_eq_some_iff.mp three
  have run : ((Machine.start Toy.suite { store := Toy.bob.store } Toy.bob.entropy Toy.keepers).after
      ((List.range 40).flatMap fun _ => [(0, Option.none), (1, Option.none)])).shared
        = Toy.afterKeepers := rfl
  obtain ⟨kept, distinct⟩ := well_kept none spares run fresh stored
  refine ⟨record, stored, three, kept, distinct fun m hm => ⟨Toy.first.bytes, ?_⟩⟩
  -- the one message of the run is read back from what has been written
  have only : ∀ m ∈ greetings Toy.alice Toy.afterKeepers.history, m = Toy.first := by decide +kernel
  have back : (PreKeyMessage.parse Toy.first.bytes).toOption = some Toy.first := by decide +kernel
  rw [only m hm]
  exact toOption_eq_some.mp back

/-- A message that comes twice, in an envelope that is made for another version, sets up two sessions with
one base key.  And if its base key is written in another way when it comes again, the two sessions have
base keys that are the same to whoever agrees on a secret with them. -/
theorem named_twice :
    let misdated := Toy.afterReading [Toy.misdated Toy.first, Toy.misdated Toy.first]
    let rewritten := Toy.afterReading [Toy.first, Toy.rewritten Toy.first]
    Toy.bob.store.sessions[Toy.alice]? = none ∧
      (FreshBaseKeys Toy.suite Toy.alice misdated.history ∧
        Toy.namesIn misdated = some [some Toy.first.baseKey.transmitted,
          some Toy.first.baseKey.transmitted]) ∧
      (FreshBaseKeys Toy.suite Toy.alice rewritten.history ∧
        Toy.namesIn rewritten = some [some (Toy.rewritten Toy.first).baseKey.transmitted,
          some Toy.first.baseKey.transmitted] ∧
        ∀ own, Toy.suite.agreement own (Toy.rewritten Toy.first).baseKey
          = Toy.suite.agreement own Toy.first.baseKey) := by
  refine ⟨?_, ⟨?_, ?_⟩, ?_, ?_, fun own => ?agree⟩
  case agree =>
    have rewritten : ofLittle (Toy.rewritten Toy.first).baseKey.raw.bytes
        = ofLittle Toy.first.baseKey.raw.bytes + Toy.prime := by decide +kernel
    show littleBlock 32 (ofLittle own.raw.bytes * ofLittle _ % Toy.prime)
      = littleBlock 32 (ofLittle own.raw.bytes * ofLittle _ % Toy.prime)
    rw [rewritten, Nat.mul_add, Nat.add_mul_mod_self_right]
  all_goals decide +kernel

end DoubleRatchet
