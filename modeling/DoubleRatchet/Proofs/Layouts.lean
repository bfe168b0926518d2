/-
DoubleRatchet/Proofs/Layouts.lean

What is laid out is read back, and nothing else is read.

A layout puts a value in front of the bytes that follow it.  It is exact if a value is
read from some bytes just when they are that value with something behind it:

    read bs = (a, rest)   ↔   put a rest = bs     (and a fits)

The one thing that may not fit is a length: it has eight bytes in front of its list.  Each
way of putting layouts together keeps them exact, so the layouts of keys, chains and
sessions are exact, and with them those of whole records.

A record that is loaded after it was written is the record, up to the mark that a session
record has not been stored yet, and bytes that load begin with the bytes of what they
load.  So no two records have bytes in common (`records_kept`).
-/
import DoubleRatchet.Group.Layout
import DoubleRatchet.PreKey.Layout
import DoubleRatchet.Proofs.Outcomes
import DoubleRatchet.Session.Layout

namespace DoubleRatchet

variable {α β : Type}

/-- A list whose length has eight bytes, as that of every list in the memory of a machine has. -/
def Counted (as : List α) : Prop := as.length < UInt64.size

instance (as : List α) : Decidable (Counted as) := inferInstanceAs (Decidable (as.length < _))

namespace Format

/-! ### Exact layouts -/

/-- A layout that reads what it puts, and only that, from the values that fit. -/
structure Exact (f : Format α) (fits : α → Prop) : Prop where
  /-- What follows a value is not touched. -/
  put_append : ∀ a rest tail, f.put a (rest ++ tail) = f.put a rest ++ tail
  /-- What is read is what was put. -/
  read_iff : ∀ {bs a rest}, f.read bs = .ok (a, rest) ↔ fits a ∧ f.put a rest = bs

variable {f : Format α} {g : Format β} {fits fits' : α → Prop} {gits : β → Prop} {kept : α → α}

theorem Exact.congr (h : f.Exact fits) (same : ∀ a, fits a ↔ fits' a) : f.Exact fits' :=
  (funext fun a => propext (same a) : fits = fits') ▸ h

/-- A layout of values that all fit. -/
theorem Exact.total (h : f.Exact fits) (all : ∀ a, fits a) : f.Exact fun _ => True :=
  h.congr fun a => iff_of_true (all a) trivial

/-! ### Numbers and blocks -/

theorem exact_block (n : Nat) : (block n).Exact fun _ => True where
  put_append b rest tail := by simp [block]
  read_iff {bs b rest} := by
    simp only [block, prepend_eq_append, true_and]
    constructor
    · intro h
      split at h
      · next found => cases h; exact Block.append_of_split? found
      · cases h
    · rintro rfl
      rw [Block.split?_append]

/-- Values seen through maps that are inverse to each other where it counts. -/
theorem Exact.via (h : f.Exact fits) {into : α → β} {back : β → α}
    (back_into : ∀ a, fits a → back (into a) = a) :
    (f.via into back).Exact fun b => fits (back b) ∧ into (back b) = b where
  put_append b := h.put_append (back b)
  read_iff {bs b rest} := by
    simp only [Format.via, bind_eq_ok, h.read_iff, Prod.exists]
    constructor
    · rintro ⟨a, _, ⟨fit, rfl⟩, ⟨⟩⟩
      rw [back_into a fit]
      exact ⟨⟨fit, rfl⟩, rfl⟩
    · rintro ⟨⟨fit, same⟩, rfl⟩
      exact ⟨back b, rest, ⟨fit, rfl⟩, by rw [same]; rfl⟩

/-- Values seen through maps that are inverse to each other. -/
theorem Exact.iso (h : f.Exact fits) {into : α → β} {back : β → α}
    (back_into : ∀ a, back (into a) = a) (into_back : ∀ b, into (back b) = b) :
    (f.via into back).Exact fun b => fits (back b) :=
  (h.via fun a _ => back_into a).congr fun b => and_iff_left (into_back b)

theorem exact_nat (w : Nat) : (nat w).Exact (· < capacity w) := by
  refine ((exact_block w).via fun b _ => ?_).congr fun n => ?_
  · have written := toLittle_ofLittle b.bytes
    rw [b.length_bytes] at written
    exact Block.bytes_inj.mp written
  · -- a number fits if nothing of it is lost in so many bytes
    have room : 0 < capacity w := by
      have := ofLittle_lt (toLittle w 0)
      rw [length_toLittle] at this
      omega
    show True ∧ ofLittle (toLittle w n) = n ↔ _
    rw [ofLittle_toLittle, true_and]
    exact ⟨fun same => same ▸ Nat.mod_lt n room, Nat.mod_eq_of_lt⟩

theorem exact_u8 : u8.Exact fun _ => True :=
  ((exact_nat 1).via fun _ small => UInt8.toNat_ofNat_of_lt' small).total
    fun b => ⟨b.toNat_lt, UInt8.ofNat_toNat⟩

theorem exact_u32 : u32.Exact fun _ => True :=
  ((exact_nat 4).via fun _ small => UInt32.toNat_ofNat_of_lt' small).total
    fun n => ⟨n.toNat_lt, UInt32.ofNat_toNat⟩

theorem exact_i64 : i64.Exact fun _ => True := by
  refine ((exact_nat 8).via fun n small => ?_).total fun i => ⟨i.toUInt64.toNat_lt, ?_⟩
  · exact UInt64.toNat_ofNat_of_lt' small
  · exact congrArg UInt64.toInt64 UInt64.ofNat_toNat

/-! ### Putting layouts together -/

theorem Exact.pair (hf : f.Exact fits) (hg : g.Exact gits) :
    (f.pair g).Exact fun p => fits p.1 ∧ gits p.2 where
  put_append p rest tail := by simp only [Format.pair, hg.put_append, hf.put_append]
  read_iff {bs p rest} := by
    simp only [Format.pair, bind_eq_ok, hf.read_iff, hg.read_iff, Prod.exists]
    constructor
    · rintro ⟨a, _, ⟨fit, rfl⟩, b, _, ⟨git, rfl⟩, ⟨⟩⟩
      exact ⟨⟨fit, git⟩, rfl⟩
    · rintro ⟨⟨fit, git⟩, rfl⟩
      exact ⟨p.1, _, ⟨fit, rfl⟩, p.2, rest, ⟨git, rfl⟩, rfl⟩

/-- A tag is one byte. -/
theorem u8_read_iff {bs rest : Bytes} {tag : UInt8} :
    u8.read bs = .ok (tag, rest) ↔ tag :: rest = bs := by
  rw [exact_u8.read_iff, true_and]
  show UInt8.ofNat tag.toNat :: rest = bs ↔ _
  rw [UInt8.ofNat_toNat]

theorem Exact.option (h : f.Exact fits) : (Format.option f).Exact fun o => ∀ a ∈ o, fits a where
  put_append
    | none, rest, tail => rfl
    | some a, rest, tail => congrArg (1 :: ·) (h.put_append a rest tail)
  read_iff {bs o rest} := by
    simp only [Format.option, bind_eq_ok, u8_read_iff, Prod.exists]
    constructor
    · rintro ⟨tag, after, rfl, read⟩
      -- one tag for a missing value, one for a value, and no other
      split at read
      · next absent => cases read; subst absent; exact ⟨nofun, rfl⟩
      · split at read
        · next present =>
          obtain ⟨⟨a, _⟩, found, ⟨⟩⟩ := bind_eq_ok.mp read
          obtain ⟨fit, rfl⟩ := h.read_iff.mp found
          subst present
          exact ⟨fun _ mem => Option.mem_some.mp mem ▸ fit, rfl⟩
        · cases read
    · rintro ⟨fit, rfl⟩
      cases o with
      | none => exact ⟨0, rest, rfl, rfl⟩
      | some a =>
        have found : f.read (f.put a rest) = .ok (a, rest) := h.read_iff.mpr ⟨fit a rfl, rfl⟩
        refine ⟨1, f.put a rest, rfl, ?_⟩
        rw [if_neg (by decide), if_pos rfl]
        exact bind_eq_ok.mpr ⟨_, found, rfl⟩

theorem Exact.foldr_append (h : f.Exact fits) (as : List α) (rest tail : Bytes) :
    as.foldr f.put (rest ++ tail) = as.foldr f.put rest ++ tail := by
  induction as with
  | nil => rfl
  | cons a as ih => simp only [List.foldr_cons, ih, h.put_append]

/-- Values one after another are read back if their number is known. -/
theorem Exact.readMany_iff (h : f.Exact fits) {n : Nat} {bs rest : Bytes} {as : List α} :
    f.readMany n bs = .ok (as, rest) ↔
      as.length = n ∧ (∀ a ∈ as, fits a) ∧ as.foldr f.put rest = bs := by
  induction n generalizing bs as rest with
  | zero =>
    simp only [readMany, Except.ok.injEq, Prod.mk.injEq, List.length_eq_zero_iff]
    constructor
    · rintro ⟨rfl, rfl⟩
      exact ⟨rfl, nofun, rfl⟩
    · rintro ⟨rfl, -, rfl⟩
      exact ⟨rfl, rfl⟩
  | succ n ih =>
    simp only [readMany, bind_eq_ok, h.read_iff, ih, Prod.exists]
    constructor
    · rintro ⟨a, _, ⟨fit, rfl⟩, others, _, ⟨rfl, fits, rfl⟩, ⟨⟩⟩
      exact ⟨rfl, List.forall_mem_cons.mpr ⟨fit, fits⟩, rfl⟩
    · rintro ⟨count, fits, rfl⟩
      match as, count with
      | a :: others, count =>
        obtain ⟨fit, fits⟩ := List.forall_mem_cons.mp fits
        exact ⟨a, _, ⟨fit, rfl⟩, others, rest, ⟨Nat.succ.inj count, fits, rfl⟩, rfl⟩

theorem Exact.list (h : f.Exact fits) :
    (Format.list f).Exact fun as => Counted as ∧ ∀ a ∈ as, fits a where
  put_append as rest tail := by
    simp only [Format.list, h.foldr_append, (exact_nat 8).put_append]
  read_iff {bs as rest} := by
    simp only [Format.list, bind_eq_ok, (exact_nat 8).read_iff, h.readMany_iff, Prod.exists]
    constructor
    · rintro ⟨_, _, ⟨count, rfl⟩, rfl, fits, rfl⟩
      exact ⟨⟨count, fits⟩, rfl⟩
    · rintro ⟨⟨count, fits⟩, rfl⟩
      exact ⟨as.length, _, ⟨count, rfl⟩, rfl, fits, rfl⟩

theorem exact_bytes : bytes.Exact Counted where
  put_append bs rest tail := by
    simp only [bytes, prepend_eq_append, ← List.append_assoc, (exact_nat 8).put_append]
  read_iff {bs content rest} := by
    simp only [bytes, bind_eq_ok, (exact_nat 8).read_iff, (exact_block _).read_iff, Prod.exists,
      true_and]
    constructor
    · rintro ⟨n, _, ⟨count, rfl⟩, b, _, rfl, ⟨⟩⟩
      obtain ⟨content, rfl⟩ := b
      exact ⟨count, rfl⟩
    · rintro ⟨count, rfl⟩
      exact ⟨content.length, _, ⟨count, rfl⟩, ⟨content, rfl⟩, rest, rfl, rfl⟩

/-! ### Whole records -/

/-- A store keeps records: a record that fits comes back as it is kept, from its bytes alone and with
anything behind them, and bytes that load begin with the bytes of what they load. -/
structure Keeps (f : Format α) (fits : α → Prop) (kept : α → α) : Prop where
  /-- Exactly the records that fit come back. -/
  lossless : ∀ a rest, f.load (f.write a ++ rest) = .ok (kept a) ↔ fits a
  /-- Nothing else is read, and what is read is as it is kept. -/
  canonical : ∀ {bs a}, f.load bs = .ok a → fits a ∧ kept a = a ∧ f.write a <+: bs
  /-- Records that are kept differently differ in their bytes, and neither begins the other. -/
  separate : ∀ {a b}, fits a → fits b → f.write a <+: f.write b → kept a = kept b

theorem Exact.put_eq_write_append (h : f.Exact fits) (a : α) (rest : Bytes) :
    f.put a rest = f.write a ++ rest := h.put_append a [] rest

theorem Exact.load_iff (h : f.Exact fits) {bs : Bytes} {a : α} :
    f.load bs = .ok a ↔ fits a ∧ f.write a <+: bs := by
  have loaded : f.load bs = .ok a ↔ ∃ rest, f.read bs = .ok (a, rest) := by
    unfold load decode
    cases f.read bs with
    | error fault => simp [Functor.map, Except.map]
    | ok r => obtain ⟨b, rest⟩ := r; simp [Functor.map, Except.map, eq_comm]
  simp only [loaded, h.read_iff, h.put_eq_write_append, exists_and_left]
  rfl

/-- An exact layout of the records as they are kept keeps the records. -/
theorem Exact.keeps (h : f.Exact fun a => fits a ∧ kept a = a) (fits_kept : ∀ a, fits (kept a) ↔ fits a)
    (kept_kept : ∀ a, kept (kept a) = kept a) (write_kept : ∀ a, f.write (kept a) = f.write a) :
    f.Keeps fits kept := by
  have lossless (a : α) (rest : Bytes) : f.load (f.write a ++ rest) = .ok (kept a) ↔ fits a := by
    rw [h.load_iff, write_kept, fits_kept, kept_kept]
    exact ⟨fun ⟨⟨fit, _⟩, _⟩ => fit, fun fit => ⟨⟨fit, rfl⟩, List.prefix_append _ _⟩⟩
  refine ⟨lossless, fun loaded => ?_, fun {a b} fit fit' starts => ?_⟩
  · obtain ⟨⟨fit, same⟩, starts⟩ := h.load_iff.mp loaded
    exact ⟨fit, same, starts⟩
  · -- the bytes that are begun with load as either record
    obtain ⟨rest, whole⟩ := starts
    have first : f.load (f.write b) = .ok (kept a) := whole ▸ (lossless a rest).mpr fit
    have second : f.load (f.write b ++ []) = .ok (kept b) := (lossless b []).mpr fit'
    rw [List.append_nil, first] at second
    exact Except.ok.inj second

/-- An exact layout keeps records as they are. -/
theorem Exact.keeps_id (h : f.Exact fits) : f.Keeps fits id :=
  (h.congr fun _ => (and_iff_left rfl).symm).keeps (fun _ => Iff.rfl) (fun _ => rfl) fun _ => rfl

end Format

open Format

/-! ### Keys -/

theorem PublicKey.exact_format : PublicKey.format.Exact fun _ => True :=
  (exact_block 32).iso (fun _ => rfl) fun _ => rfl

theorem PrivateKey.exact_format : PrivateKey.format.Exact fun _ => True :=
  (exact_block 32).iso (fun _ => rfl) fun _ => rfl

theorem KeyPair.exact_format : KeyPair.format.Exact fun _ => True :=
  ((PublicKey.exact_format.pair PrivateKey.exact_format).iso (fun _ => rfl) fun _ => rfl).total
    fun _ => ⟨trivial, trivial⟩

/-! ### Sessions -/

theorem RootKey.exact_format : RootKey.format.Exact fun _ => True :=
  (exact_block 32).iso (fun _ => rfl) fun _ => rfl

theorem ChainKey.exact_format : ChainKey.format.Exact fun _ => True :=
  (((exact_block 32).pair exact_u32).iso (fun _ => rfl) fun _ => rfl).total
    fun _ => ⟨trivial, trivial⟩

theorem MessageKeys.exact_format : MessageKeys.format.Exact fun _ => True :=
  (((exact_block 32).pair ((exact_block 32).pair ((exact_block 16).pair exact_u32))).iso
    (fun _ => rfl) fun _ => rfl).total fun _ => ⟨trivial, trivial, trivial, trivial⟩

theorem SenderChain.exact_format : SenderChain.format.Exact fun _ => True :=
  ((KeyPair.exact_format.pair ChainKey.exact_format).iso (fun _ => rfl) fun _ => rfl).total
    fun _ => ⟨trivial, trivial⟩

theorem PendingPreKey.exact_format : PendingPreKey.format.Exact fun _ => True :=
  ((exact_u32.option.pair (exact_u32.pair PublicKey.exact_format)).iso
    (fun _ => rfl) fun _ => rfl).total fun _ => ⟨fun _ _ => trivial, trivial, trivial⟩

theorem Window.exact_format {C K : Type} {chain : Format C} {key : Format K}
    (hc : chain.Exact fun _ => True) (hk : key.Exact fun _ => True) :
    (Window.format chain key).Exact fun w => Counted w.skipped :=
  ((hc.pair hk.list).iso (fun _ => rfl) fun _ => rfl).congr fun _ => by simp

theorem ReceiverChain.exact_format :
    ReceiverChain.format.Exact fun c => Counted c.window.skipped :=
  ((PublicKey.exact_format.pair
    (Window.exact_format ChainKey.exact_format MessageKeys.exact_format)).iso
    (fun _ => rfl) fun _ => rfl).congr fun _ => by simp

/-- A session whose lists have lengths that can be written. -/
structure SessionState.Storable (st : SessionState) : Prop where
  receiverChains : Counted st.receiverChains
  skipped : ∀ c ∈ st.receiverChains, Counted c.window.skipped
  baseKey : ∀ baseKey ∈ st.baseKey, Counted baseKey

theorem SessionState.exact_format : SessionState.format.Exact SessionState.Storable := by
  have parts := exact_u8.pair (PublicKey.exact_format.option.pair (PublicKey.exact_format.option.pair
    (RootKey.exact_format.option.pair (exact_u32.pair (SenderChain.exact_format.option.pair
    (ReceiverChain.exact_format.list.pair (PendingPreKey.exact_format.option.pair
    (exact_u32.pair (exact_u32.pair exact_bytes.option)))))))))
  refine (parts.iso (fun _ => rfl) fun _ => rfl).congr fun st => ?_
  constructor
  · rintro ⟨-, -, -, -, -, -, ⟨receiverChains, skipped⟩, -, -, -, baseKey⟩
    exact ⟨receiverChains, skipped, baseKey⟩
  · rintro ⟨receiverChains, skipped, baseKey⟩
    simp only [implies_true, true_and]
    exact ⟨⟨receiverChains, skipped⟩, baseKey⟩

/-- A session record whose lists have lengths that can be written. -/
structure SessionRecord.Storable (r : SessionRecord) : Prop where
  archive : Counted r.archive
  sessions : ∀ st ∈ r.current :: r.archive, st.Storable

theorem SessionRecord.exact_format :
    SessionRecord.format.Exact fun r => r.Storable ∧ r.stored = r := by
  refine ((SessionState.exact_format.pair SessionState.exact_format.list).via
    fun _ _ => rfl).congr fun r => ?_
  refine and_congr ?_ Iff.rfl
  constructor
  · rintro ⟨current, archive, earlier⟩
    exact ⟨archive, List.forall_mem_cons.mpr ⟨current, earlier⟩⟩
  · rintro ⟨archive, sessions⟩
    obtain ⟨current, earlier⟩ := List.forall_mem_cons.mp sessions
    exact ⟨current, archive, earlier⟩

/-! ### Groups -/

theorem GroupChainKey.exact_format : GroupChainKey.format.Exact fun _ => True :=
  ((exact_u32.pair (exact_block 32)).iso (fun _ => rfl) fun _ => rfl).total
    fun _ => ⟨trivial, trivial⟩

theorem GroupMessageKey.exact_format : GroupMessageKey.format.Exact fun _ => True :=
  ((exact_u32.pair ((exact_block 16).pair ((exact_block 32).pair (exact_block 32)))).iso
    (fun _ => rfl) fun _ => rfl).total fun _ => ⟨trivial, trivial, trivial, trivial⟩

theorem GroupChain.exact_format : GroupChain.format.Exact fun c => Counted c.window.skipped :=
  ((exact_u32.pair (GroupChainKey.exact_format.pair (PublicKey.exact_format.pair
    (PrivateKey.exact_format.option.pair GroupMessageKey.exact_format.list)))).iso
    (fun _ => rfl) fun _ => rfl).congr fun _ => by simp

/-- A record of a group sender whose lists have lengths that can be written. -/
structure GroupRecord.Storable (r : GroupRecord) : Prop where
  chains : Counted r.chains
  skipped : ∀ c ∈ r.chains, Counted c.window.skipped

theorem GroupRecord.exact_format : GroupRecord.format.Exact GroupRecord.Storable :=
  (GroupChain.exact_format.list.iso (fun _ => rfl) fun _ => rfl).congr
    fun _ => ⟨fun ⟨chains, skipped⟩ => ⟨chains, skipped⟩, fun h => ⟨h.chains, h.skipped⟩⟩

/-! ### Pre-keys -/

theorem PreKey.exact_format : PreKey.format.Exact fun _ => True :=
  ((exact_u32.pair KeyPair.exact_format).iso (fun _ => rfl) fun _ => rfl).total
    fun _ => ⟨trivial, trivial⟩

theorem SignedPreKey.exact_format : SignedPreKey.format.Exact fun k => Counted k.signature :=
  ((exact_u32.pair (exact_i64.pair (KeyPair.exact_format.pair exact_bytes))).iso
    (fun _ => rfl) fun _ => rfl).congr fun _ => by simp

/-! ### The main theorem -/

/-- **Records are kept.** A record of any of the four kinds comes back with all that it says, a
session record as one that has been stored, and bytes that load begin with the bytes of the record
that they load.  So records that differ in anything that is kept have different bytes, none of which
begin with the others'. -/
theorem records_kept :
    SessionRecord.format.Keeps SessionRecord.Storable SessionRecord.stored ∧
    GroupRecord.format.Keeps GroupRecord.Storable id ∧
    PreKey.format.Keeps (fun _ => True) id ∧
    SignedPreKey.format.Keeps (fun k => Counted k.signature) id := by
  refine ⟨?_, GroupRecord.exact_format.keeps_id, PreKey.exact_format.keeps_id,
    SignedPreKey.exact_format.keeps_id⟩
  exact SessionRecord.exact_format.keeps (fun _ => ⟨fun ⟨a, b⟩ => ⟨a, b⟩, fun ⟨a, b⟩ => ⟨a, b⟩⟩)
    (fun _ => rfl) fun _ => rfl

/-- A session with a skipped key and numbers at the ends of their ranges is kept as the current one
and as an earlier one, in a record that has not been stored yet, with a byte behind it. -/
theorem session_record_kept :
    let key : PublicKey := ⟨.replicate 32 9⟩
    let skipped : MessageKeys := ⟨.replicate 32 1, .replicate 32 2, .replicate 16 3, 0xfffffffe⟩
    let st : SessionState :=
      { version := 255
        remoteIdentity := some key
        receiverChains := [⟨key, ⟨⟨.replicate 32 4, 0xffffffff⟩, [skipped]⟩⟩]
        pending := some ⟨none, 0, key⟩
        baseKey := some [] }
    let r : SessionRecord := { current := st, archive := [.empty, st] }
    r.Storable ∧ SessionRecord.format.load (SessionRecord.format.write r ++ [7]) = .ok r.stored := by
  intro key skipped st r
  have storable : st.Storable := ⟨by decide, by decide, by decide⟩
  have none_yet : SessionState.empty.Storable := ⟨by decide, by decide, by decide⟩
  have whole : r.Storable :=
    ⟨by decide, by simp only [r, List.forall_mem_cons]; exact ⟨storable, none_yet, storable, nofun⟩⟩
  exact ⟨whole, (records_kept.1.lossless r [7]).mpr whole⟩

end DoubleRatchet
