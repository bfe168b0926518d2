/-
DoubleRatchet/Proofs/Voices.lean

The chains that messages are sent on, and an account of the messages.

A session sends on one chain at a time, its voice: a ratchet key of ours, and the number
of the next message.  A session has no voice before it has a receiver chain; a side that
has been written to turns the ratchet on the first message, and what it has of a sender
chain before that is never sent on.

When a record encrypts, the voice of its current session moves on by one.  When it
decrypts or starts a session, no more than one voice is new, and that one has a ratchet
key that has just been made.  Stamps are accounted for (`Accounted`) when every voice
is at the number of the stamps of its key, and all keys have been made before; that
stays so whichever it is (`Accounted.sent`, `Accounted.renewed`).
-/
import Mathlib.Data.List.Perm.Subperm
import DoubleRatchet.Proofs.Exchange
import DoubleRatchet.Proofs.Receivers

namespace DoubleRatchet

open List (Subperm)

theorem pairwise_of_subperm {α : Type} {R : α → α → Prop} (symm : ∀ {a b}, R a b → R b a)
    {l l' : List α} (sub : l.Subperm l') (h : l'.Pairwise R) : l.Pairwise R := by
  obtain ⟨l₁, perm, sub⟩ := sub
  exact (perm.pairwise_iff symm).mp (h.sublist sub)

theorem nodup_of_subperm {α : Type} {l l' : List α} (sub : l.Subperm l') (h : l'.Nodup) : l.Nodup :=
  pairwise_of_subperm Ne.symm sub h

theorem subperm_map {α β : Type} (f : α → β) {l l' : List α} (sub : l.Subperm l') :
    (l.map f).Subperm (l'.map f) := by
  obtain ⟨l₁, perm, sub⟩ := sub
  exact ⟨l₁.map f, perm.map f, sub.map f⟩

/-- A ratchet key and a number: no two messages that are sent have both in common. -/
abbrev Stamp := PublicKey × UInt32

/-- The stamp of a message of a session. -/
def Message.stamp? (m : Message) : Option Stamp := m.inner?.map fun m => (m.ratchetKey, m.counter)

/-! ### Voices -/

/-- The ratchet key that a session sends with, and the number of the next message. -/
def SessionState.voice? (st : SessionState) : Option Stamp :=
  if st.receiverChains = [] then none
  else st.senderChain.map fun chain => (chain.ratchetKey.publicKey, chain.chainKey.index)

namespace SessionRecord

/-- The voices of all sessions of a record. -/
def voices (r : SessionRecord) : List Stamp := r.sessions.filterMap (·.voice?)

/-- The current session of the record can send, and the archive is not too long. -/
structure Speaks (r : SessionRecord) : Prop where
  heard : r.current.receiverChains ≠ []
  few : r.archive.length ≤ limits.archivedSessions

/-- The record is as it can be found in a store: it is empty, or its current session can send. -/
def Steady (r : SessionRecord) : Prop := r = .empty ∨ (r.fresh = false ∧ r.Speaks)

/-- The record can take the place of another one for which some ratchet keys have been made: it has
its voices, and new ones with those keys. -/
structure Renews (drawn : List PublicKey) (r r' : SessionRecord) : Prop where
  speaks : r'.Speaks
  voices : ∃ keys : List PublicKey, keys.Subperm drawn ∧
    r'.voices.Subperm (keys.map (·, 0) ++ r.voices)

end SessionRecord

section
variable {S : Suite}

namespace SessionState

variable {st st' : SessionState} {m : RatchetMessage} {e e' : Entropy} {plain : Bytes}

/-- A message has the stamp of the voice that it is sent with, and the voice moves on. -/
theorem voice?_encrypt {message : Message} (heard : st.receiverChains ≠ [])
    (h : st.encrypt S plain = .ok (message, st')) :
    ∃ key n, n ≠ 0xffffffff ∧ st.voice? = some (key, n) ∧ message.stamp? = some (key, n) ∧
      st'.voice? = some (key, n + 1) := by
  obtain ⟨remote, own, chain, next, -, -, hc, hn, rfl, rfl⟩ := encrypt_ok h
  unfold ChainKey.next at hn
  split at hn
  · cases hn
  rename_i room
  cases hn
  refine ⟨chain.ratchetKey.publicKey, chain.chainKey.index, room, ?_, ?_, ?_⟩
  · rw [voice?, if_neg heard, hc]
    rfl
  · unfold encrypt.wrap
    split <;> rfl
  · rw [voice?, if_neg heard]
    rfl

theorem receiverChains_decryptOn (h : st.decryptOn S m = .ok (plain, st')) :
    st'.receiverChains ≠ [] ∧ st.receiverChains ≠ [] ∧ st'.senderChain = st.senderChain := by
  obtain ⟨window, keys, after, hw, -, -, rfl⟩ := decryptOn_ok h
  have some : st.receiverChains ≠ [] := by
    intro none
    rw [window?, none] at hw
    cases hw
  refine ⟨fun none => some ?_, some, rfl⟩
  have same := congrArg List.length (keys_setWindow st m.ratchetKey after)
  rw [none] at same
  simpa using same.symm

/-- A session that decrypts keeps its voice, or gets a new one. -/
theorem voice?_decrypt (h : (st.decrypt S m).run e = (.ok (plain, st'), e')) :
    st'.receiverChains ≠ [] ∧ (st'.voice? = st.voice? ∨
      ∃ key, st'.voice? = some (key, 0) ∧ key = (S.nextKeyPair e).publicKey ∧ e' = e.advance 32) := by
  obtain ⟨-, -, st₁, reached, opened⟩ := decrypt_ok h
  obtain ⟨heard', heard, same⟩ := receiverChains_decryptOn opened
  refine ⟨heard', ?_⟩
  have voice : st'.voice? = st₁.voice? := by
    rw [voice?, voice?, if_neg heard', if_neg heard, same]
  rw [voice]
  cases reached with
  | known => exact .inl rfl
  | turned => exact .inr ⟨_, by rw [voice?, if_neg heard]; rfl, rfl, rfl⟩

end SessionState

namespace SessionRecord

variable {r r' : SessionRecord} {st : SessionState} {m : RatchetMessage} {e e' : Entropy}
  {plain : Bytes} {drawn : List PublicKey}

theorem voices_eq (r : SessionRecord) :
    r.voices = r.current.voice?.toList ++ r.archive.filterMap (·.voice?) := by
  unfold voices sessions
  cases h : r.current.voice? <;> simp [h]

/-- What is put into the room that has been made has the voices before it behind it. -/
theorem voices_makeRoom (r : SessionRecord) (st : SessionState) :
    (voices { r.makeRoom with current := st }).Subperm (st.voice?.toList ++ r.voices) := by
  have archived : r.makeRoom.archive.Sublist r.sessions := by
    unfold makeRoom
    split
    · exact List.sublist_cons_self _ _
    · exact List.take_sublist _ _
  rw [voices_eq]
  exact (Subperm.refl _).append (archived.filterMap _).subperm

theorem Steady.few (steady : r.Steady) : r.archive.length ≤ limits.archivedSessions := by
  rcases steady with rfl | ⟨-, speaks⟩
  · exact Nat.zero_le _
  · exact speaks.few

theorem length_makeRoom (steady : r.Steady) :
    r.makeRoom.archive.length ≤ limits.archivedSessions := by
  unfold makeRoom
  split
  · exact steady.few
  · exact List.length_take_le _ _

theorem Steady.makeRoom_current (steady : r.Steady) : r.makeRoom.current = .empty :=
  SessionRecord.makeRoom_current (steady.imp_right And.left)

/-- A new session that has been started speaks with the ratchet key that has been made for it. -/
theorem renews_initiate {k : InitiatorKeys} {st' : SessionState} (steady : r.Steady)
    (h : (r.makeRoom.current.initiate S k).run e = (.ok st, e'))
    (chains : st'.receiverChains = st.receiverChains) (sender : st'.senderChain = st.senderChain) :
    Renews (S.publicKeys e e') r { r.makeRoom with current := st' } := by
  rw [run_initiate] at h
  split at h
  · cases h
  cases h
  have heard : st'.receiverChains ≠ [] := by
    rw [chains]
    exact List.ne_nil_of_mem SessionState.last_addReceiver
  have voice : st'.voice? = some ((S.nextKeyPair e).publicKey, 0) := by
    rw [SessionState.voice?, if_neg heard, sender]
    rfl
  refine ⟨⟨heard, length_makeRoom steady⟩, [(S.nextKeyPair e).publicKey], ?_, ?_⟩
  · rw [S.publicKeys_advance (.refl e), List.singleton_subperm_iff]
    exact List.mem_append_right _ List.mem_cons_self
  · have room := r.voices_makeRoom st'
    rw [voice] at room
    exact room

/-- A session that is accepted has no voice yet. -/
theorem voices_accept {st : SessionState} (steady : r.Steady)
    (chains : st.receiverChains = r.makeRoom.current.receiverChains) :
    (voices { r.makeRoom with current := st }).Subperm r.voices := by
  have silent : st.voice? = none := by
    rw [SessionState.voice?, if_pos]
    rw [chains, steady.makeRoom_current]
    rfl
  have room := r.voices_makeRoom st
  rw [silent] at room
  exact room

theorem Renews.trans {r₁ : SessionRecord} (h : Renews drawn r₁ r') (sub : r₁.voices.Subperm r.voices) :
    Renews drawn r r' := by
  obtain ⟨keys, new, voices⟩ := h.voices
  exact ⟨h.speaks, keys, new, voices.trans ((Subperm.refl _).append sub)⟩

/-- A record that encrypts speaks with its current session's voice. -/
theorem voices_encrypt {message : Message} {st' : SessionState} (speaks : r.Speaks)
    (h : r.current.encrypt S plain = .ok (message, st')) :
    ∃ key n rest, n ≠ 0xffffffff ∧ r.voices = (key, n) :: rest ∧ message.stamp? = some (key, n) ∧
      SessionRecord.voices { r with current := st' } = (key, n + 1) :: rest ∧
      SessionRecord.Speaks { r with current := st' } := by
  obtain ⟨key, n, room, voice, stamp, voice'⟩ := SessionState.voice?_encrypt speaks.heard h
  refine ⟨key, n, r.archive.filterMap (·.voice?), room, ?_, stamp, ?_, ?_, speaks.few⟩
  · rw [voices_eq, voice]
    rfl
  · rw [voices_eq, voice']
    rfl
  · obtain ⟨_, _, _, _, -, -, -, -, -, rfl⟩ := SessionState.encrypt_ok h
    exact speaks.heard

/-- A record that decrypts has the voices that it had, but for one that may be new. -/
theorem renews_decrypt (few : r.archive.length ≤ limits.archivedSessions)
    (h : (r.decrypt S m).run e = (.ok (plain, r'), e')) : Renews (S.publicKeys e e') r r' := by
  obtain ⟨before, st, after, st', e₁, sessions, refused, decrypted, rfl⟩ := decrypt_ok h
  obtain ⟨heard, voice⟩ := SessionState.voice?_decrypt decrypted
  obtain ⟨-, -, -, -, few'⟩ := decrypt_uses h few
  have advanced := sessions_advance st' sessions few
  have there : (r.advance before.length st').voices
      = st'.voice?.toList ++ (before ++ after).filterMap (·.voice?) := by
    unfold voices
    rw [advanced]
    cases h : st'.voice? <;> simp [h]
  have behind : (st.voice?.toList ++ (before ++ after).filterMap (·.voice?)).Perm r.voices := by
    unfold voices
    rw [sessions]
    refine List.Perm.trans ?_ (List.perm_middle.symm.filterMap _)
    cases h : st.voice? <;> simp [h]
  refine ⟨⟨?_, few'⟩, ?_⟩
  · rw [current_advance]
    exact heard
  rw [there]
  rcases voice with same | ⟨key, new, rfl, rfl⟩
  · exact ⟨[], List.nil_subperm, same ▸ behind.subperm⟩
  · refine ⟨[(S.nextKeyPair e₁).publicKey], ?_, ?_⟩
    · rw [S.publicKeys_advance refused.before, List.singleton_subperm_iff]
      exact List.mem_append_right _ List.mem_cons_self
    · rw [new]
      refine (Subperm.refl _).append (Subperm.trans ?_ behind.subperm)
      exact (List.sublist_append_right _ _).subperm

end SessionRecord

end

/-! ### Accounts -/

/-- The numbers of the stamps with a ratchet key. -/
def numbers (key : PublicKey) (stamps : List Stamp) : List Nat :=
  (stamps.filter (·.1 = key)).map (·.2.toNat)

/-- Stamps are accounted for by voices, when the ratchet keys in `used` have been made. -/
structure Accounted (voices stamps : List Stamp) (used : List PublicKey) : Prop where
  distinct : (voices.map Prod.fst).Nodup
  made : ∀ x ∈ voices ++ stamps, x.1 ∈ used
  next : ∀ x ∈ voices, numbers x.1 stamps = List.range x.2.toNat
  gapless : ∀ key, ∃ n, numbers key stamps = List.range n
  bounded : ∀ x ∈ stamps, x.2 ≠ 0xffffffff

section
variable {voices voices' stamps rest : List Stamp} {used drawn keys : List PublicKey}
  {key other : PublicKey} {n : UInt32}

theorem numbers_append_self :
    numbers key (stamps ++ [(key, n)]) = numbers key stamps ++ [n.toNat] := by
  simp [numbers]

theorem numbers_append_of_ne (ne : other ≠ key) :
    numbers other (stamps ++ [(key, n)]) = numbers other stamps := by
  simp [numbers, Ne.symm ne]

theorem numbers_prefix : numbers key stamps <+: numbers key (stamps ++ rest) := by
  unfold numbers
  rw [List.filter_append, List.map_append]
  exact List.prefix_append _ _

theorem range_of_prefix {l : List Nat} {n : Nat} (h : l <+: List.range n) : ∃ k, l = List.range k := by
  rw [List.prefix_iff_eq_take, List.take_range] at h
  exact ⟨_, h⟩

/-- Distinct numbers with every key make distinct stamps. -/
theorem nodup_of_numbers (h : ∀ key, (numbers key stamps).Nodup) : stamps.Nodup := by
  induction stamps with
  | nil => exact List.nodup_nil
  | cons x stamps ih =>
    refine List.nodup_cons.mpr ⟨fun again => ?_, ih fun key => ?_⟩
    · have twice := h x.1
      simp only [numbers, List.filter_cons, decide_true, ↓reduceIte, List.map_cons,
        List.nodup_cons] at twice
      exact twice.1 (List.mem_map.mpr ⟨x, List.mem_filter.mpr ⟨again, decide_eq_true rfl⟩, rfl⟩)
    · refine (h key).sublist ?_
      exact ((List.sublist_cons_self _ _).filter _).map _

theorem accounted_nil : Accounted [] [] [] where
  distinct := .nil
  made := nofun
  next := nofun
  gapless _ := ⟨0, rfl⟩
  bounded := nofun

namespace Accounted

theorem nodup (h : Accounted voices stamps used) : stamps.Nodup := by
  refine nodup_of_numbers fun key => ?_
  obtain ⟨n, same⟩ := h.gapless key
  rw [same]
  exact List.nodup_range

/-- A message is sent. -/
theorem sent (h : Accounted ((key, n) :: rest) stamps used) (room : n ≠ 0xffffffff) :
    Accounted ((key, n + 1) :: rest) (stamps ++ [(key, n)]) used where
  distinct := h.distinct
  made := by
    have made := h.made
    simp only [List.mem_append, List.mem_cons] at made ⊢
    rintro x ((rfl | hx) | hx | rfl | ⟨⟨⟩⟩)
    · exact made (key, n) (.inl (.inl rfl))
    · exact made x (.inl (.inr hx))
    · exact made x (.inr hx)
    · exact made (key, n) (.inl (.inl rfl))
  next := by
    have own := h.next (key, n) List.mem_cons_self
    rintro x (_ | ⟨_, hx⟩)
    · show numbers key _ = _
      rw [numbers_append_self, own, toNat_add_one_of_ne room, List.range_succ]
    · -- the other voices have other keys
      have ne : x.1 ≠ key := by
        rintro rfl
        exact (List.nodup_cons.mp h.distinct).1 (List.mem_map.mpr ⟨x, hx, rfl⟩)
      rw [numbers_append_of_ne ne]
      exact h.next x (List.mem_cons_of_mem _ hx)
  gapless other := by
    by_cases same : other = key
    · refine ⟨n.toNat + 1, ?_⟩
      rw [same, numbers_append_self, h.next (key, n) List.mem_cons_self, List.range_succ]
    · rw [numbers_append_of_ne same]
      exact h.gapless other
  bounded := by
    intro x hx
    rcases List.mem_append.mp hx with hx | hx
    · exact h.bounded x hx
    · rw [List.mem_singleton.mp hx]
      exact room

/-- Voices with new keys take the place of others. -/
theorem renewed (h : Accounted voices stamps used) (fresh : (used ++ drawn).Nodup)
    (new : keys.Subperm drawn) (sub : voices'.Subperm (keys.map (·, 0) ++ voices)) :
    Accounted voices' stamps (used ++ drawn) := by
  obtain ⟨-, nodup_drawn, apart⟩ := List.nodup_append.mp fresh
  have cases : ∀ x ∈ voices', (x.1 ∈ drawn ∧ x.2 = 0) ∨ x ∈ voices := by
    intro x hx
    rcases List.mem_append.mp (sub.subset hx) with hx | hx
    · obtain ⟨key, hk, rfl⟩ := List.mem_map.mp hx
      exact .inl ⟨new.subset hk, rfl⟩
    · exact .inr hx
  refine ⟨?_, ?_, ?_, h.gapless, h.bounded⟩
  · refine nodup_of_subperm (subperm_map Prod.fst sub) ?_
    rw [List.map_append, List.map_map]
    have same : keys.map (Prod.fst ∘ fun key => (key, (0 : UInt32))) = keys := List.map_id _
    rw [same]
    refine List.nodup_append.mpr ⟨nodup_of_subperm new nodup_drawn, h.distinct, ?_⟩
    rintro key hk _ hv rfl
    obtain ⟨x, hx, rfl⟩ := List.mem_map.mp hv
    exact apart x.1 (h.made x (List.mem_append_left _ hx)) x.1 (new.subset hk) rfl
  · intro x hx
    rcases List.mem_append.mp hx with hx | hx
    · rcases cases x hx with ⟨hk, -⟩ | hx
      · exact List.mem_append_right _ hk
      · exact List.mem_append_left _ (h.made x (List.mem_append_left _ hx))
    · exact List.mem_append_left _ (h.made x (List.mem_append_right _ hx))
  · intro x hx
    rcases cases x hx with ⟨hk, zero⟩ | hx
    · -- no stamp can have a key that has just been made
      rw [zero]
      have none : stamps.filter (·.1 = x.1) = [] := by
        refine List.filter_eq_nil_iff.mpr fun y hy same => ?_
        have used := h.made y (List.mem_append_right _ hy)
        exact apart y.1 used x.1 hk (of_decide_eq_true same)
      rw [numbers, none]
      rfl
    · exact h.next x hx

end Accounted

end

end DoubleRatchet
