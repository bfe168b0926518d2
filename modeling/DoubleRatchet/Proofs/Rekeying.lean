/-
DoubleRatchet/Proofs/Rekeying.lean

Messages on the way while new sessions are started.

A device has a session with a peer, and starts new ones over it.  With each of them the
old session moves one place back in the record (`Store.Behind`), so that up to as many
as are archived can be started before it goes:

    new 3 | new 2   new 1   old   ...        old is behind three that have read nothing

Messages of the old session that are still on the way are offered to the new ones first.
They find the tag wrong, and have passed no number yet, so they pass the messages on.
The first one that comes brings the old session to the front again, with its handshake
answered, and the others stay as they are (`read_behind`).
-/
import DoubleRatchet.Proofs.Identity
import DoubleRatchet.Proofs.Once
import DoubleRatchet.Proofs.Records
import DoubleRatchet.Proofs.Talks

namespace DoubleRatchet

open HandshakeRole

/-! ### Starting new sessions -/

/-- The session has read nothing yet. -/
def SessionState.Unheard (st : SessionState) : Prop :=
  ∀ theirs window, st.window? theirs = some window → window.chain.index = 0

/-- The call starts a session. -/
def Call.isStart : Call → Bool
  | start _ => true
  | _ => false

/-- The call starts a session or sends. -/
def Call.Rekeys : Call → Prop
  | start _ | encrypt _ => True
  | _ => False

instance : (c : Call) → Decidable c.Rekeys
  | .start _ | .encrypt _ => isTrue trivial
  | .decrypt _ | .decryptPreKey _ | .pin _ => isFalse not_false

/-- A session stands behind others, which have read nothing yet. -/
structure Store.Behind (s : Store) (peer : Address) (newer : List SessionState)
    (old : SessionState) : Prop where
  settled : s.Settled peer
  sessions : ∃ older, s.sessionsWith peer = newer ++ old :: older
  unheard : ∀ st ∈ newer, st.Unheard

/-- The session comes to the front as it is now, and the other ones stay as they are. -/
structure Store.Promotes (s s' : Store) (peer : Address) (newer : List SessionState)
    (old now : SessionState) : Prop where
  sessions : ∃ older, s.sessionsWith peer = newer ++ old :: older ∧
    s'.sessionsWith peer = now :: (newer ++ older)
  settled : s'.Settled peer

section
variable {S : Suite} {peer : Address} {s s' : Site} {c : Call} {st st' old : SessionState}
  {newer : List SessionState}

namespace SessionState

theorem Built.unheard (h : st.Built S) : st.Unheard := by
  intro theirs window hw
  have there := mem_of_window? hw
  cases h with
  | greeted s bundle baseKey ratchetKey =>
    have one : (s.greet S bundle .empty baseKey ratchetKey).receiverChains
        = [⟨bundle.signedPreKey, ⟨(firstKeys S ((s.asking bundle baseKey).secrets S)).2, []⟩⟩] :=
      rfl
    rw [one] at there
    cases List.mem_singleton.mp there
    rfl
  | welcomed => cases there

theorem Unheard.sent (h : st.Unheard) {plain : Bytes} {message : Message}
    (made : st.encrypt S plain = .ok (message, st')) : st'.Unheard := by
  obtain ⟨-, -, -, -, -, -, -, -, -, rfl⟩ := encrypt_ok made
  exact h

/-- It has passed no number of any chain. -/
theorem Unheard.early (h : st.Unheard) {m : RatchetMessage} {window : Window ChainKey MessageKeys}
    (hw : st.windowFor S m.ratchetKey = some window) : window.chain.index ≤ m.counter := by
  refine index_windowFor (fun window known => ?_) hw
  rw [h _ _ known]
  exact UInt32.zero_le

end SessionState

namespace Store.Behind

/-- A session that is started goes to the front, and one that sends stays there. -/
theorem run (h : s.store.Behind peer newer old) (app : App) (hc : c.Rekeys)
    (room : newer.length + c.isStart.toNat ≤ limits.archivedSessions)
    (front : newer ≠ [] ∨ (c.run S peer app s).1 = .ok .done) :
    ∃ newer', (c.run S peer app s).2.store.Behind peer newer' old ∧ newer' ≠ [] ∧
      newer'.length ≤ newer.length + c.isStart.toNat := by
  obtain ⟨older, sessions⟩ := h.sessions
  rcases outcome : c.run S peer app s with ⟨err | answer, s'⟩
  · -- a call that fails leaves the sessions as they are
    rw [outcome] at front
    have same := (Call.run_error outcome).sessions_eq
    have settled : s'.store.Settled peer := by
      unfold Settled
      rw [same]
      exact h.settled
    refine ⟨newer, ⟨settled, ⟨older, ?_⟩, h.unheard⟩, front.resolve_right nofun, Nat.le_add_right ..⟩
    rw [← sessions, sessionsWith, sessionsWith, same]
  rw [outcome] at front
  cases Call.succeeded outcome with
  | started started =>
    obtain ⟨st, introduced, sessions', settled⟩ := startSession_sessions h.settled started
    refine ⟨st :: newer, ⟨settled, ?_, ?_⟩, List.cons_ne_nil _ _, Nat.le_refl _⟩
    · -- the archive has room for all of them
      have fits : newer.length < limits.archivedSessions := room
      obtain ⟨rest, length⟩ := Nat.exists_eq_add_of_lt fits
      refine ⟨older.take rest, ?_⟩
      rw [sessions', sessions, length, List.take_append, List.take_of_length_le (by omega),
        show newer.length + rest + 1 - newer.length = rest + 1 by omega]
      rfl
    · rw [List.forall_mem_cons]
      exact ⟨introduced.built.unheard, h.unheard⟩
  | sent sent =>
    obtain ⟨st, st', others, sessions', made, sent', settled⟩ := encrypt_sessions h.settled sent
    rcases newer with - | ⟨first, newer⟩
    · rcases front with front | front
      · exact absurd rfl front
      · cases front
    · rw [sessions] at sessions'
      obtain ⟨rfl, rfl⟩ := List.cons.inj sessions'
      have unheard := h.unheard
      rw [List.forall_mem_cons] at unheard
      refine ⟨st' :: newer, ⟨settled, ⟨older, sent'⟩, ?_⟩, List.cons_ne_nil _ _, Nat.le_refl _⟩
      rw [List.forall_mem_cons]
      exact ⟨unheard.1.sent made, unheard.2⟩
  | read => cases hc
  | readFirst => cases hc
  | pinned => cases hc

theorem after {calls : List (Call × App)} (h : s.store.Behind peer newer old)
    (rekeys : ∀ call ∈ calls, call.1.Rekeys)
    (room : newer.length + calls.countP (·.1.isStart) ≤ limits.archivedSessions)
    (front : newer ≠ [] ∨ ∀ call ∈ calls.head?, (call.1.run S peer call.2 s).1 = .ok .done) :
    ∃ newer', (s.after S peer calls).store.Behind peer newer' old ∧
      newer'.length ≤ newer.length + calls.countP (·.1.isStart) := by
  induction calls generalizing s newer with
  | nil => exact ⟨newer, h, Nat.le_refl _⟩
  | cons call calls ih =>
    rw [List.forall_mem_cons] at rekeys
    have count : (call :: calls).countP (·.1.isStart)
        = call.1.isStart.toNat + calls.countP (·.1.isStart) := by
      rw [List.countP_cons, Nat.add_comm]
      cases call.1.isStart <;> rfl
    rw [count] at room ⊢
    obtain ⟨newer₁, h₁, some, few⟩ := h.run call.2 rekeys.1 (by omega)
      (front.imp_right fun done => done call rfl)
    obtain ⟨newer₂, h₂, few₂⟩ := ih h₁ rekeys.2 (by omega) (.inl some)
    exact ⟨newer₂, h₂, by omega⟩

theorem stored (h : s.store.Behind peer newer old) :
    ∃ record older, s.store.sessions[peer]? = some record ∧
      record.sessions = newer ++ old :: older ∧ record.archive.length ≤ limits.archivedSessions := by
  obtain ⟨older, sessions⟩ := h.sessions
  rcases s.store.loadSession_cases peer with ⟨none, -⟩ | stored
  · rw [Store.sessionsWith, none] at sessions
    cases newer <;> cases sessions
  · rw [Store.sessionsWith_of_contains stored] at sessions
    exact ⟨_, older, stored, sessions, (h.settled _ stored).bounded⟩

end Store.Behind

end

/-! ### Hearing what is on the way -/

/-- A device that hears what is said in a talk. -/
structure Inbox where
  site : Site
  talk : Talk

namespace Inbox

section
variable (S : Suite) (peer : Address) (reader : HandshakeRole) (d : Inbox)

/-- What comes of delivering a message. -/
def delivery (p : Posted) : Except Error Bytes × Site :=
  (p.message.read S peer).alone accepting d.site

/-- The inbox once the message with a number has been delivered; whoever has read it is the current
session then. -/
def deliver (n : Nat) : Inbox :=
  match d.talk.posted[n]? with
  | none => d
  | some p =>
    let (outcome, site) := d.delivery S peer p
    { site
      talk := match outcome with
        | .ok _ => d.talk.heard reader n (site.store.loadSession peer).current
        | .error _ => d.talk }

/-- The inbox once the messages with some numbers have been delivered. -/
def after (numbers : List Nat) : Inbox := numbers.foldl (deliver S peer reader) d

/-- The other side has sent the message, it has not been heard yet, and it is in time. -/
structure Due (n : Nat) (p : Posted) : Prop where
  sender : p.sender = reader.other
  unread : n ∉ d.talk.read
  inTime : ∀ m ∈ p.message.inner?, d.talk.InTime S reader m

instance (n : Nat) (p : Posted) : Decidable (d.Due S reader n p) :=
  decidable_of_iff (_ ∧ _ ∧ _) ⟨fun h => ⟨h.1, h.2.1, h.2.2⟩, fun h => ⟨h.sender, h.unread, h.inTime⟩⟩

end

section
variable (S : Suite) (peer : Address) (reader : HandshakeRole)

/-- Every message is due when it is delivered. -/
def Timely (d : Inbox) : List Nat → Prop
  | [] => True
  | n :: numbers =>
    (∃ p ∈ d.talk.posted[n]?, d.Due S reader n p) ∧ Timely (d.deliver S peer reader n) numbers

instance decidableTimely : (d : Inbox) → (numbers : List Nat) →
    Decidable (d.Timely S peer reader numbers)
  | _, [] => isTrue trivial
  | d, n :: numbers =>
    have := decidableTimely (d.deliver S peer reader n) numbers
    inferInstanceAs (Decidable (_ ∧ _))

/-- The keys that have been made from one place of a source to another are new ones. -/
structure Fresh (t : Talk) (start finish : Entropy) : Prop where
  distinct : (S.publicKeys start finish).Nodup
  unused : ∀ key ∈ S.publicKeys start finish, ¬t.Used key

/-- The old session of a talk stands behind others that have nothing to do with what has been said
there.  Since the start no key has been used but those that have been made. -/
structure Ready (identity : HandshakeRole → PublicKey) (t : Talk) (start : Entropy) (d : Inbox)
    (newer : List SessionState) : Prop where
  known : ∃ ladder, Talk.Known S identity d.talk ladder
  posted : d.talk.posted = t.posted
  behind : d.site.store.Behind peer newer (d.talk.session reader)
  foreign : ∀ p ∈ t.posted, p.sender = reader.other → ∀ m ∈ p.message.inner?, ∀ st ∈ newer,
    ¬st.Verifies S m
  pinned : d.site.store.identities[peer]? = some (identity reader.other)
  alive : d.site.entropy.dead = false
  drawn : start.Before d.site.entropy
  used : ∀ key, d.talk.Used key → t.Used key ∨ key ∈ S.publicKeys start d.site.entropy

end

variable {S : Suite} {peer : Address} {reader : HandshakeRole} {identity : HandshakeRole → PublicKey}
  {t : Talk} {start : Entropy} {d : Inbox} {newer : List SessionState} {n : Nat} {p : Posted}
  {m : RatchetMessage}

/-- A message of the talk is offered to the record that is stored. -/
theorem Ready.offers (h : Ready S peer reader identity t start d newer)
    (hp : d.talk.posted[n]? = some p) (sender : p.sender = reader.other)
    (hm : p.message.inner? = some m) {record : SessionRecord} {older : List SessionState}
    (stored : d.site.store.sessions[peer]? = some record)
    (sessions : record.sessions = newer ++ d.talk.session reader :: older) :
    d.site.store.Offers S peer (identity reader.other) record p.message m := by
  obtain ⟨ladder, known⟩ := h.known
  have trusted : d.site.store.isTrusted peer (identity reader.other) := by
    rw [Store.isTrusted_iff, h.pinned]
    rintro kept ⟨⟩
    rfl
  have addressed := known.addressed p (List.mem_of_getElem? hp)
  rw [sender, other_other] at addressed
  refine Store.offers_of_stored stored trusted hm fun m' hmsg => ?_
  -- the record knows the handshake, so no new session is set up
  obtain ⟨version, same, named⟩ := addressed m' hmsg
  have there : d.talk.session reader ∈ record.sessions := by
    rw [sessions]
    exact List.mem_append_right _ List.mem_cons_self
  rw [version]
  exact ⟨same, List.any_eq_true.mpr ⟨_, there, named⟩⟩

/-- The old session reads a message that is due, after the new ones have drawn for nothing, and comes
to the front. -/
theorem Ready.reads (h : Ready S peer reader identity t start d newer) (hS : S.Lawful)
    (hp : d.talk.posted[n]? = some p) (due : d.Due S reader n p) :
    ∃ m e st s', p.message.inner? = some m ∧ d.site.entropy.Before e ∧ e.dead = false ∧
      ((d.talk.session reader).decrypt S m).run e = (.ok (p.plain, st), s'.entropy) ∧
      d.delivery S peer p = (.ok p.plain, s') ∧
      d.site.store.Promotes s'.store peer newer (d.talk.session reader) st ∧
      s'.store.identities[peer]? = some (identity reader.other) := by
  obtain ⟨ladder, known⟩ := h.known
  obtain ⟨m, hm, -⟩ := known.known.made p (List.mem_of_getElem? hp)
  obtain ⟨record, older, stored, sessions, bounded⟩ := h.behind.stored
  have mem : p ∈ t.posted := by
    rw [← h.posted]
    exact List.mem_of_getElem? hp
  obtain ⟨e, refused, alive⟩ := refused_of_foreign h.alive (h.foreign p mem due.sender m hm)
    fun st there window hw => (h.behind.unheard st there).early hw
  have listener : p.sender.other = reader := by rw [due.sender, other_other]
  obtain ⟨st, e', ran⟩ := known.hears hS alive hp due.unread hm (by
    rw [listener]
    exact due.inTime m hm)
  rw [listener] at ran
  have remote : st.remoteIdentity = some (identity reader.other) :=
    (Evolves.opened ran).remoteIdentity_eq.trans (known.known.lockstep.remote_eq reader)
  obtain ⟨store', read, settled, pinned, sessions'⟩ := (h.offers hp due.sender hm stored
    sessions).read_front sessions bounded refused ran remote
  rw [← Store.sessionsWith_of_contains stored] at sessions
  exact ⟨m, e, st, ⟨store', e'⟩, hm, refused.before, alive, ran, read,
    ⟨⟨older, sessions, sessions'⟩, settled⟩, pinned⟩

/-- A key that is made now is a new one. -/
theorem Ready.unused (h : Ready S peer reader identity t start d newer) {e : Entropy}
    (before : d.site.entropy.Before e) (fresh : Fresh S t start (e.advance 32)) :
    ¬d.talk.Used (S.nextKeyPair e).publicKey := by
  intro used
  have drawn := h.drawn.trans before
  have keys := Suite.publicKeys_advance (S := S) drawn
  rcases h.used _ used with old | made
  · refine fresh.unused _ ?_ old
    rw [keys]
    exact List.mem_append_right _ List.mem_cons_self
  · have distinct := fresh.distinct
    rw [keys, List.nodup_append] at distinct
    exact distinct.2.2 _ ((Suite.publicKeys_prefix h.drawn before).subset made) _
      List.mem_cons_self rfl

/-- Once a message that was due has been delivered no session stands before the old one. -/
theorem Ready.deliver (h : Ready S peer reader identity t start d newer) (hS : S.Lawful)
    (hp : d.talk.posted[n]? = some p) (due : d.Due S reader n p)
    (fresh : Fresh S t start (d.deliver S peer reader n).site.entropy) :
    Ready S peer reader identity t start (d.deliver S peer reader n) [] := by
  obtain ⟨m, e, st, s', hm, before, alive, ran, read, promotes, pinned⟩ := h.reads hS hp due
  obtain ⟨older, -, sessions'⟩ := promotes.sessions
  have delivered : d.deliver S peer reader n = ⟨s', d.talk.heard reader n st⟩ := by
    unfold Inbox.deliver
    rw [hp]
    dsimp only
    rw [read, Store.current_of_sessionsWith sessions']
  rw [delivered] at fresh ⊢
  have drawn := (d.talk.session reader).before_decrypt (S := S) m e
  rw [ran] at drawn
  have listener : p.sender.other = reader := by rw [due.sender, other_other]
  obtain ⟨ladder, known⟩ := h.known
  have heard := known.heard hS alive hp hm (by rw [listener]; exact ran)
    (fun turned => h.unused before (by rw [← turned]; exact fresh))
    (fun late => absurd late (by rw [listener]; exact (due.inTime m hm).chain))
  rw [listener] at heard
  have front : (d.talk.heard reader n st).session reader = st := put_self ..
  rw [← front] at sessions'
  refine { known := heard.2, posted := h.posted, behind := ⟨promotes.settled, ⟨_, sessions'⟩, nofun⟩
           foreign := fun _ _ _ _ _ => nofun, pinned, alive := drawn.dead_eq.trans alive
           drawn := (h.drawn.trans before).trans drawn, used := ?used }
  case used =>
    intro key used
    rcases Talk.Known.used_heard ran used with old | ⟨turned, rfl⟩
    · exact (h.used key old).imp_right fun made =>
        (Suite.publicKeys_prefix h.drawn (before.trans drawn)).subset made
    · dsimp only
      rw [turned, Suite.publicKeys_advance (h.drawn.trans before)]
      exact .inr (List.mem_append_right _ List.mem_cons_self)

theorem before_deliver (d : Inbox) (n : Nat) :
    d.site.entropy.Before (d.deliver S peer reader n).site.entropy := by
  unfold Inbox.deliver
  cases d.talk.posted[n]? with
  | none => exact .refl _
  | some p => exact p.message.before_read peer d.site

theorem before_after (d : Inbox) (numbers : List Nat) :
    d.site.entropy.Before (d.after S peer reader numbers).site.entropy := by
  induction numbers generalizing d with
  | nil => exact .refl _
  | cons n numbers ih => exact (before_deliver d n).trans (ih _)

theorem Fresh.until {finish later : Entropy} (h : Fresh S t start later)
    (drawn : start.Before finish) (before : finish.Before later) : Fresh S t start finish := by
  have first := Suite.publicKeys_prefix (S := S) drawn before
  exact ⟨h.distinct.sublist first.sublist, fun key made => h.unused key (first.subset made)⟩

/-- As long as every message is due when it is delivered, the old session stays ready. -/
theorem Ready.after (h : Ready S peer reader identity t start d newer) (hS : S.Lawful)
    {numbers : List Nat} (timely : d.Timely S peer reader numbers)
    (fresh : Fresh S t start (d.after S peer reader numbers).site.entropy) :
    ∃ newer', Ready S peer reader identity t start (d.after S peer reader numbers) newer' ∧
      newer' <+: newer ∧ (numbers ≠ [] → newer' = []) := by
  induction numbers generalizing d newer with
  | nil => exact ⟨newer, h, List.prefix_refl _, fun some => absurd rfl some⟩
  | cons n numbers ih =>
    obtain ⟨⟨p, hp, due⟩, rest⟩ := timely
    have ready := h.deliver hS hp due (fresh.until (h.drawn.trans (before_deliver d n))
      (before_after _ numbers))
    obtain ⟨newer', after, first, -⟩ := ih ready rest fresh
    obtain rfl := List.prefix_nil.mp first
    exact ⟨[], after, List.nil_prefix, fun _ => rfl⟩

end Inbox

section
variable {S : Suite} {peer : Address} {s : Site} {old : SessionState} {newer : List SessionState}

theorem Site.before_after (S : Suite) (peer : Address) (s : Site) (calls : List (Call × App)) :
    s.entropy.Before (s.after S peer calls).entropy := by
  induction calls generalizing s with
  | nil => exact .refl _
  | cons call calls ih => exact (call.1.before_run S peer call.2 s).trans (ih _)

/-- Starting sessions and sending leave the pin as it is. -/
theorem Site.pinned_after {identity : PublicKey} {calls : List (Call × App)}
    (pinned : s.store.identities[peer]? = some identity) (rekeys : ∀ call ∈ calls, call.1.Rekeys) :
    (s.after S peer calls).store.identities[peer]? = some identity := by
  induction calls generalizing s with
  | nil => exact pinned
  | cons call calls ih =>
    rw [List.forall_mem_cons] at rekeys
    refine ih (Call.identity_kept ?_ rfl pinned) rekeys.2
    intro identity pin
    rw [pin] at rekeys
    exact rekeys.1.elim

/-- Of several places where the session may stand the first one counts. -/
theorem Store.Behind.first (h : s.store.Behind peer newer old) :
    s.store.Behind peer ((s.store.sessionsWith peer).takeWhile (· ≠ old)) old := by
  obtain ⟨older, sessions⟩ := h.sessions
  have split : ∀ l : List SessionState, ∃ rest,
      l ++ old :: older = (l ++ old :: older).takeWhile (· ≠ old) ++ old :: rest ∧
        ∀ st ∈ (l ++ old :: older).takeWhile (· ≠ old), st ∈ l := by
    intro l
    induction l with
    | nil => exact ⟨older, by simp⟩
    | cons st l ih =>
      by_cases same : st = old
      · exact ⟨l ++ old :: older, by simp [same]⟩
      · obtain ⟨rest, eq, sub⟩ := ih
        refine ⟨rest, ?_, ?_⟩
        · rw [List.cons_append, List.takeWhile_cons_of_pos (by simpa using same), List.cons_append,
            ← eq]
        · rw [List.cons_append, List.takeWhile_cons_of_pos (by simpa using same),
            List.forall_mem_cons]
          exact ⟨List.mem_cons_self, fun st there => List.mem_cons_of_mem _ (sub st there)⟩
  obtain ⟨rest, eq, sub⟩ := split newer
  rw [← sessions] at eq sub
  exact ⟨h.settled, ⟨rest, eq⟩, fun st there => h.unheard st (sub st there)⟩

end

/-- **Messages on the way survive new sessions.**  A session of an established talk is the current one
of a device, whatever is in its archive.  The device starts new sessions with the peer, as many as are
archived at most, and sends with them.  Then messages that the peer has sent in the old session are
delivered, in any order, each of them in time.  Every one of them is read as it was said.  The old
session comes to the front, with its handshake answered, and all other sessions stay as they are.  No
key has been made twice, and no session that has been started since finds the tag of a message of the
old one right. -/
theorem read_behind {S : Suite} (hS : S.Lawful) {t : Talk} (established : t.Established S)
    {reader : HandshakeRole} {peer : Address} {s : Site} {archive : List SessionState}
    (stored : s.store.sessions[peer]? = some { current := t.session reader, archive, fresh := false })
    (bounded : archive.length ≤ limits.archivedSessions)
    (pinned : s.store.identities[peer]? = (t.session reader).remoteIdentity)
    (alive : s.entropy.dead = false)
    {calls : List (Call × App)} (rekeys : ∀ call ∈ calls, call.1.Rekeys)
    (started : ∀ call ∈ calls.head?, (call.1.run S peer call.2 s).1 = .ok .done)
    (few : calls.countP (·.1.isStart) ≤ limits.archivedSessions)
    (foreign : ∀ p ∈ t.posted, p.sender = reader.other → ∀ m ∈ p.message.inner?,
      ∀ st ∈ ((s.after S peer calls).store.sessionsWith peer).takeWhile (· ≠ t.session reader),
        ¬st.Verifies S m)
    {numbers : List Nat} {d : Inbox}
    (run : Inbox.after S peer reader ⟨s.after S peer calls, t⟩ numbers = d)
    (timely : Inbox.Timely S peer reader ⟨s.after S peer calls, t⟩ numbers)
    (fresh : Inbox.Fresh S t s.entropy d.site.entropy)
    {n : Nat} {p : Posted} (posted : t.posted[n]? = some p) (due : d.Due S reader n p) :
    ∃ newer now s', d.delivery S peer p = (.ok p.plain, s') ∧
      d.site.store.Promotes s'.store peer newer (d.talk.session reader) now ∧ now.pending = none ∧
      (numbers ≠ [] → newer = []) := by
  subst run
  obtain ⟨identity, ladder, known⟩ := established.known hS
  have settled : s.store.Settled peer := by
    intro record hr
    rw [stored] at hr
    cases hr
    exact ⟨rfl, bounded⟩
  have front : s.store.Behind peer [] (t.session reader) :=
    ⟨settled, ⟨archive, Store.sessionsWith_of_contains stored⟩, nofun⟩
  obtain ⟨newer, behind, -⟩ := front.after rekeys (by
    rw [List.length_nil, Nat.zero_add]
    exact few) (.inr started)
  rw [known.known.lockstep.remote_eq] at pinned
  have drawn := s.before_after S peer calls
  have ready : Inbox.Ready S peer reader identity t s.entropy ⟨s.after S peer calls, t⟩ _ :=
    { known := ⟨ladder, known⟩, posted := rfl, behind := behind.first, foreign
      pinned := Site.pinned_after pinned rekeys, alive := drawn.dead_eq.trans alive, drawn
      used := fun _ => .inl }
  obtain ⟨newer', ready', -, none⟩ := ready.after hS timely fresh
  rw [← ready'.posted] at posted
  obtain ⟨m, e, now, s', -, -, -, ran, read, promotes, -⟩ := ready'.reads hS posted due
  exact ⟨newer', now, s', read, promotes, SessionState.pending_decrypt ran, none⟩

namespace Toy

/-- The address of the device. -/
def device : Address := ⟨"bob", 1⟩

/-- The peer and the device have the keys of a handshake without a one-time pre-key. -/
def acquaintance : Beginning where
  initiator := { identity := keyPair 4, registrationId := 2 }
  bundle := bundle none
  baseKey := keyPair 5
  ratchetKey := keyPair 6
  responder := bob.store
  keys := ⟨keyPair 1, keyPair 2, none, keyPair 2, (keyPair 4).publicKey, (keyPair 5).publicKey⟩
  hello := ⟨2, none, 9, (keyPair 5).publicKey, (keyPair 4).publicKey⟩

/-- The device has heard a message, and has answered twice. -/
def chat : List Act :=
  [.say .initiator [1], .hear 0 bob.entropy, .say .responder [2], .say .responder [3]]

/-- The talk then. -/
def dialogue : Talk := Talk.after suite { session := acquaintance.session suite } chat

/-- The peer has not heard the answers yet; it has another session in its archive. -/
def waiting : Site where
  store := {
    identity := keyPair 4
    registrationId := 2
    identities := (∅ : Std.ExtTreeMap Address PublicKey).insert device (keyPair 1).publicKey
    sessions := (∅ : Std.ExtTreeMap Address SessionRecord).insert device
      { current := dialogue.session .initiator, archive := [session], fresh := false } }
  entropy := { stream := fun n => UInt8.ofNat (n / 32 + 100) }

/-- It starts two sessions more, and sends with either. -/
def impatient : List (Call × App) :=
  [(.start (bundle none), accepting), (.encrypt [4], accepting),
    (.start (bundle (some (7, (keyPair 3).publicKey))), accepting), (.encrypt [5], accepting)]

/-- The second answer comes first. -/
def inbox : Inbox := Inbox.after suite device .initiator
  ⟨waiting.after suite device impatient, dialogue⟩ [2]

end Toy

/-- Both answers are read behind the new sessions. -/
theorem read_behind_two : ∃ p newer now s', Toy.dialogue.posted[1]? = some p ∧
    Toy.inbox.delivery Toy.suite Toy.device p = (.ok [2], s') ∧
    Toy.inbox.site.store.Promotes s'.store Toy.device newer
      (Toy.inbox.talk.session .initiator) now ∧ now.pending = none ∧ newer = [] := by
  have lawful : Toy.suite.Lawful := ⟨Toy.agreement_comm, Toy.decrypt_encrypt⟩
  have established : Toy.dialogue.Established Toy.suite :=
    ⟨Toy.acquaintance, ⟨⟨⟨rfl, rfl⟩, ⟨rfl, rfl, rfl⟩, nofun, rfl, rfl, rfl, rfl, rfl, rfl⟩, rfl,
      by decide +kernel, rfl⟩, Toy.chat, by decide +kernel, rfl⟩
  have posted : ∃ p, Toy.dialogue.posted[1]? = some p ∧ p.plain = [2] ∧
      Toy.inbox.Due Toy.suite .initiator 1 p := by
    have due : ∃ p ∈ Toy.dialogue.posted[1]?, p.plain = [2] ∧
      Toy.inbox.Due Toy.suite .initiator 1 p := by decide +kernel
    exact due
  obtain ⟨p, hp, plain, due⟩ := posted
  have stored : Toy.waiting.store.sessions[Toy.device]? = some {
      current := Toy.dialogue.session .initiator, archive := [Toy.session], fresh := false } := by
    simp [Toy.waiting]
  have started : ∀ call ∈ Toy.impatient.head?,
      (call.1.run Toy.suite Toy.device call.2 Toy.waiting).1 = .ok .done := by decide +kernel
  have run : Inbox.after Toy.suite Toy.device .initiator
      ⟨Toy.waiting.after Toy.suite Toy.device Toy.impatient, Toy.dialogue⟩ [2] = Toy.inbox := rfl
  obtain ⟨newer, now, s', read, promotes, answered, first⟩ :=
    read_behind lawful established stored (by decide) (by decide +kernel) rfl (by decide) started
      (by decide) (by decide +kernel) run (by decide +kernel) ⟨by decide +kernel, by decide +kernel⟩
      hp due
  rw [plain] at read
  exact ⟨p, newer, now, s', hp, read, promotes, answered, first (List.cons_ne_nil _ _)⟩

end DoubleRatchet
