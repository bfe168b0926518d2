/-
DoubleRatchet/Proofs/Stamps.lean

No two messages have a stamp in common.

The lock of a peer lets one job at a time visit the sessions with it, so there is one
`Ledger` for all threads: the stamps of the messages that have been handed out, and of
the one that the visitor may still have to hand out, are accounted for by the voices of
the record in the store.  Every step of a visit keeps the ledger, whatever the others do
meanwhile, what a callback does included (`Visited`).  So the messages with a ratchet key
are numbered from 0 on, without gaps and without end but the last number
(`numbered_once`).
-/
import DoubleRatchet.Proofs.Sending

namespace DoubleRatchet

open Function (update)
open List (Subperm)

/-! ### The ledger -/

/-- The ratchet keys that a visitor has drawn. -/
def Visit.drawn : Visit → List PublicKey
  | inside _ drawn => drawn
  | _ => []

/-- The message that a visitor still has to hand out. -/
def Visit.owed : Visit → Option Message
  | stored message | closed message => message
  | _ => none

/-- How a visitor holds the lock. -/
def Visit.holder (thread : Nat) : Visit → Option Holder
  | inside .. | stored _ => some ⟨thread, 1⟩
  | _ => none

/-- The record in the store, the ratchet keys that have been drawn and the messages that have been
handed out, while a visitor is at work: all stamps are accounted for. -/
structure Ledger (record : SessionRecord) (keys : List PublicKey) (sent : List Message) (t : Visit) :
    Prop where
  steady : record.Steady
  loaded : ∀ {r drawn}, t = .inside (some r) drawn → r = record
  account : ∃ stamps used, (used ++ t.drawn).Subperm keys ∧
    (sent ++ t.owed.toList).map Message.stamp? = stamps.map some ∧
    Accounted record.voices stamps used

section
variable {S : Suite} {c : Call} {record r : SessionRecord} {keys drawn : List PublicKey}
  {sent : List Message} {t : Visit} {loaded : Option SessionRecord} {message : Option Message}

namespace Ledger

theorem empty : Ledger .empty [] [] .outside where
  steady := .inl rfl
  loaded := nofun
  account := ⟨[], [], Subperm.refl _, rfl, accounted_nil⟩

theorem enter (h : Ledger record keys sent .outside) : Ledger record keys sent (.inside none []) where
  steady := h.steady
  loaded := nofun
  account := h.account

theorem load (h : Ledger record keys sent (.inside loaded drawn)) :
    Ledger record keys sent (.inside (some record) drawn) where
  steady := h.steady
  loaded := by
    rintro r drawn ⟨⟩
    rfl
  account := h.account

theorem draw (h : Ledger record keys sent (.inside loaded drawn)) (new : List PublicKey) :
    Ledger record (keys ++ new) sent (.inside loaded (drawn ++ new)) where
  steady := h.steady
  loaded := by
    rintro r _ ⟨⟩
    exact h.loaded rfl
  account := by
    obtain ⟨stamps, used, sub, account⟩ := h.account
    refine ⟨stamps, used, ?_, account⟩
    show (used ++ (drawn ++ new)).Subperm _
    rw [← List.append_assoc]
    exact sub.append (Subperm.refl _)

/-- Keys that are drawn by others, or in vain, make no difference. -/
theorem more (h : Ledger record keys sent t) (new : List PublicKey) :
    Ledger record (keys ++ new) sent t where
  steady := h.steady
  loaded := h.loaded
  account := by
    obtain ⟨stamps, used, sub, account⟩ := h.account
    exact ⟨stamps, used, sub.trans (List.sublist_append_left _ _).subperm, account⟩

theorem subperm_used {used : List PublicKey} (sub : (used ++ drawn).Subperm keys) :
    (used ++ []).Subperm keys := by
  rw [List.append_nil]
  exact (List.sublist_append_left _ _).subperm.trans sub

theorem drew (h : Ledger record keys sent t) (number : Nat) (source after : Entropy) :
    Ledger record (keys ++ c.ratchetKeys S number source after) sent
      (c.visit S t (.drew number source after)) := by
  cases t with
  | inside loaded drawn => cases loaded <;> exact h.draw _
  | _ => exact h.more _

/-- A record is stored: a message has been made with it, or its voices have been renewed. -/
theorem keep {r' : SessionRecord} (h : Ledger record keys sent (.inside (some r) drawn))
    (nodup : keys.Nodup) (keeps : c.Keeps S drawn r r') :
    Ledger r'.stored keys sent (.stored (c.made S r)) := by
  obtain rfl := h.loaded rfl
  obtain ⟨stamps, used, sub, same, account⟩ := h.account
  have renewed : r.Renews drawn r' → Ledger r'.stored keys sent (.stored none) := by
    intro renews
    obtain ⟨new, few, voices⟩ := renews.voices
    refine ⟨.inr ⟨rfl, renews.speaks.heard, renews.speaks.few⟩, nofun, stamps, used ++ drawn, ?_,
      same, account.renewed (nodup_of_subperm sub nodup) few voices⟩
    show ((used ++ drawn) ++ []).Subperm keys
    rw [List.append_nil]
    exact sub
  cases c with
  | encrypt plain =>
    obtain ⟨old, message, st, made, rfl⟩ := keeps
    have speaks : r.Speaks := by
      rcases h.steady with rfl | ⟨-, speaks⟩
      · cases old
      · exact speaks
    obtain ⟨key, n, rest, room, voices, stamp, voices', speaks'⟩ :=
      SessionRecord.voices_encrypt speaks made
    have owed : (Call.encrypt plain).made S r = some message := by
      simp [Call.made, made, Except.toOption]
    rw [voices] at account
    refine ⟨.inr ⟨rfl, speaks'.heard, speaks'.few⟩, ?_, stamps ++ [(key, n)], used, ?_, ?_, ?_⟩
    · rintro _ _ ⟨⟩
    · exact subperm_used sub
    · have before : sent.map Message.stamp? = stamps.map some := by simpa [Visit.owed] using same
      rw [owed]
      simp [Visit.owed, before, stamp]
    · exact voices' ▸ account.sent room
  | start bundle => exact renewed keeps
  | decrypt m => exact renewed keeps
  | decryptPreKey m => exact renewed keeps
  | pin identity => exact renewed keeps

theorem release (h : Ledger record keys sent t) (holds : t.Holds message) :
    Ledger record keys sent (.closed message) := by
  obtain ⟨stamps, used, sub, same, account⟩ := h.account
  refine ⟨h.steady, nofun, stamps, used, ?_, ?_, account⟩
  · exact subperm_used sub
  · cases holds <;> exact same

theorem leave (h : Ledger record keys sent (.closed message)) :
    Ledger record keys (sent ++ message.toList) .outside := by
  obtain ⟨stamps, used, sub, same, account⟩ := h.account
  refine ⟨h.steady, nofun, stamps, used, sub, ?_, account⟩
  show ((sent ++ message.toList) ++ []).map Message.stamp? = stamps.map some
  rw [List.append_nil]
  exact same

end Ledger

end

/-! ### Devices -/

/-- Who holds the lock of a peer. -/
def Device.holder? (d : Device) (peer : Address) : Option Holder :=
  d.locks.holder? ⟨d.number, .session peer⟩

theorem Store.sessions_answer {peer : Address} {store : Store} {q : StoreRequest}
    (spares : q.Spares peer) : (store.answer q).2.sessions[peer]? = store.sessions[peer]? := by
  cases q with
  | storeSession other record =>
    have ne : other ≠ peer := spares
    simp [answer, storeSession, Std.ExtTreeMap.getElem?_insert, ne]
  | deleteSession other =>
    have ne : other ≠ peer := spares
    simp [answer, Std.ExtTreeMap.getElem?_erase, ne]
  | deleteAllSessions name =>
    have kept : (peer.name != name) = true := bne_iff_ne.mpr (Ne.symm spares)
    cases h : store.sessions[peer]? <;>
      simp [answer, deleteAllSessions, Std.ExtTreeMap.getElem?_filter, kept, h]
  | _ => rfl

theorem Store.loadSession_answer {peer : Address} {store : Store} {q : StoreRequest}
    (spares : q.Spares peer) : (store.answer q).2.loadSession peer = store.loadSession peer := by
  rw [loadSession, sessions_answer spares]
  rfl

section
variable {S : Suite} {peer : Address} {c : Call} {d d' : Device} {thread : Nat} {r : Request}
  {reply : Except Error r.Reply} {keys : List PublicKey} {sent : List Message} {t : Visit}

/-- What spares the sessions with a peer leaves them alone, and their lock. -/
theorem Device.Meets.spares (h : d.Meets thread r reply d') (spares : r.Spares peer) :
    d'.store.loadSession peer = d.store.loadSession peer ∧ d'.holder? peer = d.holder? peer := by
  refine ⟨?_, h.lockHolder?_eq spares.avoids⟩
  cases h with
  | answered q => exact Store.loadSession_answer spares
  | _ => rfl

/-- A request of a visitor is answered. -/
theorem Ledger.asked (h : Ledger (d.store.loadSession peer) keys sent t)
    (held : d.holder? peer = t.holder thread) (asks : c.VisitAsks S peer t r)
    (met : d.Meets thread r reply d') (nodup : keys.Nodup) :
    Ledger (d'.store.loadSession peer) keys sent (c.visit S t (.asked r reply)) ∧
      d'.holder? peer = (c.visit S t (.asked r reply)).holder thread := by
  cases asks with
  | quiet quiet =>
    obtain ⟨same, lock⟩ := met.spares (quiet.spares peer)
    rw [Call.visit_quiet quiet, same, lock]
    exact ⟨h, held⟩
  | enter =>
    cases met with
    | @granted _ _ locks granted =>
      refine ⟨h.enter, ?_⟩
      show locks.holder? _ = some ⟨thread, 1⟩
      obtain ⟨-, rfl⟩ | ⟨_, taken, -, -⟩ := Locks.acquire_granted granted
      · rw [Locks.holder?_hold, if_pos rfl]
      · -- nobody holds the lock while there is no visitor
        have free : d.locks.holder? ⟨d.number, .session peer⟩ = none := held
        rw [free] at taken
        cases taken
    | refused refused => exact ⟨h, held⟩
  | load loaded drawn =>
    cases met with
    | failed q e => cases loaded <;> exact ⟨h, held⟩
    | answered q => exact ⟨h.load, held⟩
  | @keep record drawn record' keeps =>
    cases met with
    | failed q e => exact ⟨h, held⟩
    | answered q =>
      refine ⟨?_, held⟩
      show Ledger ((d.store.storeSession peer record').loadSession peer) _ _ _
      rw [Store.loadSession_storeSession]
      exact h.keep nodup keeps
  | leave holds =>
    cases met with
    | released lock =>
      have free : (d.locks.release ⟨d.number, .session peer⟩).holder? ⟨d.number, .session peer⟩
          = none := by
        have held : d.locks.holder? ⟨d.number, .session peer⟩ = some ⟨thread, 1⟩ := by
          cases holds <;> exact held
        rw [Locks.holder?_release, if_pos rfl, held]
        rfl
      cases holds with
      | inside loaded drawn => cases loaded <;> exact ⟨h.release (.inside _ _), free⟩
      | stored => exact ⟨h.release (.stored _), free⟩

end

/-! ### All threads -/

/-- The ledger of what the threads share. -/
def Shared.Ledger (S : Suite) (peer : Address) (s : Shared) (t : Visit) : Prop :=
  DoubleRatchet.Ledger (s.device.store.loadSession peer) (ratchetKeys S peer s.history)
    (sentTo peer s.history) t

/-- All jobs but one are outside. -/
def Underway.Alone (jobs : Underway Visit) (c : Nat) : Prop :=
  ∀ {n x}, n ≠ c → jobs n = some x → x.2 = .outside

/-- The job with a number, whose thread and state are given, is the only one that may be at work. -/
structure VisitedBy (S : Suite) (peer : Address) (s : Shared) (jobs : Underway Visit)
    (c thread : Nat) (t : Visit) : Prop where
  own : jobs c = some (thread, t)
  others : jobs.Alone c
  held : s.device.holder? peer = t.holder thread
  ledger : s.Ledger S peer t

/-- At most one job is at work on the sessions with the peer, and it has the lock. -/
inductive Visited (S : Suite) (peer : Address) (s : Shared) (jobs : Underway Visit) : Prop
  | nobody (out : ∀ {n x}, jobs n = some x → x.2 = .outside) (free : s.device.holder? peer = none)
      (ledger : s.Ledger S peer .outside)
  | by_job {c thread t} (h : VisitedBy S peer s jobs c thread t)

section
variable {S : Suite} {peer : Address} {s s' : Shared} {jobs : Underway Visit} {c thread : Nat}
  {t : Visit}

/-- A job either may be at work, or it is outside and another one is at work. -/
theorem Visited.cases (h : Visited S peer s jobs) (own : jobs c = some (thread, t)) :
    VisitedBy S peer s jobs c thread t ∨
      (t = .outside ∧ ∃ c' thread' t', c' ≠ c ∧ t' ≠ .outside ∧
        VisitedBy S peer s jobs c' thread' t') := by
  cases h with
  | nobody out free ledger =>
    obtain rfl : t = .outside := out own
    exact .inl ⟨own, fun _ hx => out hx, free, ledger⟩
  | @by_job c' thread' t' h =>
    by_cases same : c = c'
    · subst same
      obtain ⟨rfl, rfl⟩ := Prod.mk.inj (Option.some.inj (own.symm.trans h.own))
      exact .inl h
    · obtain rfl : t = .outside := h.others same own
      by_cases out : t' = .outside
      · subst out
        refine .inl ⟨own, fun {n x} ne hx => ?_, h.held, h.ledger⟩
        by_cases other : n = c'
        · subst other
          obtain rfl := Option.some.inj (h.own.symm.trans hx)
          rfl
        · exact h.others other hx
      · exact .inr ⟨rfl, c', thread', t', Ne.symm same, out, h⟩

/-- The job that may be at work makes a step. -/
theorem VisitedBy.step (h : VisitedBy S peer s jobs c thread t) {t' : Visit}
    (held : s'.device.holder? peer = t'.holder thread) (ledger : s'.Ledger S peer t') :
    Visited S peer s' (update jobs c (some (thread, t'))) := by
  refine .by_job ⟨Function.update_self _ _ _, fun {n x} ne hx => ?_, held, ledger⟩
  rw [Function.update_of_ne ne] at hx
  exact h.others ne hx

/-- Another job makes a step, and stays outside. -/
theorem VisitedBy.beside (h : VisitedBy S peer s jobs c thread t) {n : Nat} {x : Option (Nat × Visit)}
    (ne : c ≠ n) (out : ∀ y ∈ x, y.2 = .outside)
    (held : s'.device.holder? peer = s.device.holder? peer) (ledger : s'.Ledger S peer t) :
    Visited S peer s' (update jobs n x) := by
  refine .by_job (c := c) ⟨?_, fun {n' x'} ne' hx => ?_, held.trans h.held, ledger⟩
  · rw [Function.update_of_ne ne]
    exact h.own
  · rcases Underway.of_update hx with ⟨-, hx⟩ | ⟨-, hx⟩
    · exact out _ hx
    · exact h.others ne' hx

/-! What an entry adds to the keys and the messages. -/

theorem ratchetKeys_append (h : List Entry) (x : Entry) :
    ratchetKeys S peer (h ++ [x]) = ratchetKeys S peer h ++ x.ratchetKeys S peer := by
  simp [ratchetKeys]

theorem sentTo_append (h : List Entry) (x : Entry) :
    sentTo peer (h ++ [x]) = sentTo peer h ++ (x.sent? peer).toList := by
  unfold sentTo
  rw [List.filterMap_append]
  congr 1

/-- What an entry does to the ledger. -/
theorem Shared.ledger_log {job : Option Job} {event : Event} :
    (s.log job event).Ledger S peer t ↔
      DoubleRatchet.Ledger (s.device.store.loadSession peer)
        (ratchetKeys S peer s.history ++ Entry.ratchetKeys S peer ⟨job, event⟩)
        (sentTo peer s.history ++ (Entry.sent? peer ⟨job, event⟩).toList) t := by
  unfold Shared.Ledger
  rw [← ratchetKeys_append, ← sentTo_append]
  rfl

/-- An entry without messages. -/
theorem Shared.ledger_silent {job : Option Job} {event : Event}
    (sent : Entry.sent? peer ⟨job, event⟩ = none) :
    (s.log job event).Ledger S peer t ↔
      DoubleRatchet.Ledger (s.device.store.loadSession peer)
        (ratchetKeys S peer s.history ++ Entry.ratchetKeys S peer ⟨job, event⟩)
        (sentTo peer s.history) t := by
  rw [ledger_log, sent, Option.toList_none, List.append_nil]

/-- An entry without keys and messages. -/
theorem Shared.ledger_quiet {job : Option Job} {event : Event}
    (keys : Entry.ratchetKeys S peer ⟨job, event⟩ = []) (sent : Entry.sent? peer ⟨job, event⟩ = none) :
    (s.log job event).Ledger S peer t ↔
      DoubleRatchet.Ledger (s.device.store.loadSession peer) (ratchetKeys S peer s.history)
        (sentTo peer s.history) t := by
  rw [ledger_silent sent, keys, List.append_nil]

section
variable {device : Device} {r : Request} {reply : Except Error r.Reply} {job : Job}

theorem Visited.steady (h : Visited S peer s jobs) : (s.device.store.loadSession peer).Steady := by
  cases h with
  | nobody out free ledger => exact ledger.steady
  | by_job h => exact h.ledger.steady

/-- A record that is loaded is steady, and a lock is always released. -/
theorem Visited.expects (h : Visited S peer s jobs) (met : s.device.Meets thread r reply device)
    (op : Operation) (t : Visit) : (sending S peer).Expects op t r reply := by
  have steady := h.steady
  cases met with
  | answered q =>
    cases q with
    | loadSession other =>
      rintro rfl
      exact steady
    | _ => trivial
  | failed q e => cases q <;> trivial
  | _ => trivial

/-- A request of the job that may be at work is answered. -/
theorem VisitedBy.asked (h : VisitedBy S peer s jobs c thread t) {op : Operation}
    (asks : (sending S peer).Asks op t r) (met : s.device.Meets thread r reply device)
    (nodup : (ratchetKeys S peer s.history).Nodup) :
    Ledger (device.store.loadSession peer) (ratchetKeys S peer s.history) (sentTo peer s.history)
        ((sending S peer).after op t (.asked r reply)) ∧
      device.holder? peer = ((sending S peer).after op t (.asked r reply)).holder thread := by
  cases own : op.for? peer with
  | none =>
    simp only [sending, own] at asks ⊢
    obtain ⟨same, lock⟩ := met.spares asks
    rw [same, lock]
    exact ⟨h.ledger, h.held⟩
  | some c =>
    simp only [sending, own] at asks ⊢
    exact Ledger.asked h.ledger h.held asks met nodup

/-- The job that may be at work draws. -/
theorem VisitedBy.drew (h : VisitedBy S peer s jobs c thread t) (job : Job) (number : Nat)
    (source after : Entropy) :
    Ledger (s.device.store.loadSession peer)
        (ratchetKeys S peer s.history ++
          Entry.ratchetKeys S peer ⟨some job, .drew number source after⟩)
        (sentTo peer s.history) ((sending S peer).after job.op t (.drew number source after)) ∧
      s.device.holder? peer =
        ((sending S peer).after job.op t (.drew number source after)).holder thread := by
  unfold Entry.ratchetKeys
  cases own : job.op.for? peer with
  | none =>
    simp only [sending, own]
    exact ⟨h.ledger.more _, h.held⟩
  | some c =>
    simp only [sending, own, Option.bind_some, Option.elim_some]
    refine ⟨Ledger.drew h.ledger number source after, h.held.trans ?_⟩
    rcases t with _ | ⟨_ | _, _⟩ | _ | _ <;> rfl

/-- A job leaves with the message that it owes. -/
theorem sent_of_leaves {outcome : Except Error Outcome}
    (leaves : (sending S peer).Leaves job.op t outcome) :
    (t = .outside ∧ Entry.sent? peer ⟨some job, .left outcome⟩ = none) ∨
      t = .closed (Entry.sent? peer ⟨some job, .left outcome⟩) := by
  unfold Entry.sent?
  cases own : job.op.for? peer with
  | none =>
    simp only [sending, own] at leaves
    simp [leaves, own]
  | some c =>
    simp only [sending, own] at leaves
    simpa only [own, Option.bind_some] using leaves

/-- While a job is at work, the requests of another one make no difference to it. -/
theorem VisitedBy.asked_beside (h : VisitedBy S peer s jobs c thread t) (busy : t ≠ .outside)
    (rests : (sending S peer).Rests t) {thread' : Nat} {op : Operation}
    (asks : (sending S peer).Asks op .outside r) (met : s.device.Meets thread' r reply device) :
    device.store.loadSession peer = s.device.store.loadSession peer ∧
      device.holder? peer = s.device.holder? peer ∧
      (sending S peer).after op .outside (.asked r reply) = .outside := by
  cases own : op.for? peer with
  | none =>
    simp only [sending, own] at asks ⊢
    obtain ⟨same, lock⟩ := met.spares asks
    exact ⟨same, lock, trivial⟩
  | some c =>
    simp only [sending, own] at asks ⊢
    cases asks with
    | quiet quiet =>
      obtain ⟨same, lock⟩ := met.spares (quiet.spares peer)
      exact ⟨same, lock, Call.visit_quiet quiet⟩
    | enter =>
      cases met with
      | granted granted =>
        -- the job at work has the lock
        have taken : s.device.locks.holder? ⟨s.device.number, .session peer⟩ = some ⟨thread, 1⟩ := by
          refine h.held.trans ?_
          cases t with
          | outside => exact absurd rfl busy
          | closed message => exact absurd rfl (rests message)
          | inside loaded drawn => rfl
          | stored message => rfl
        obtain ⟨free, -⟩ | ⟨_, -, ⟨⟩, -⟩ := Locks.acquire_granted granted
        rw [taken] at free
        cases free
      | refused refused => exact ⟨rfl, rfl, rfl⟩
    | leave holds => cases holds

end

/-- The sessions with a peer are visited by one job at a time. -/
theorem invariant_visited (S : Suite) (peer : Address) :
    (sending S peer).Invariant (fun h => (ratchetKeys S peer h).Nodup) (Visited S peer) where
  closed := by
    rintro h _ ⟨later, rfl⟩ nodup
    unfold ratchetKeys at nodup ⊢
    rw [List.flatMap_append] at nodup
    exact (List.nodup_append.mp nodup).1
  entered {s jobs} thread op inv unused good := by
    have same : ∀ {t}, s.Ledger S peer t → (s.enter op).Ledger S peer t :=
      (Shared.ledger_quiet (s := { s with jobs := s.jobs + 1 }) rfl rfl).mpr
    cases inv with
    | nobody out free ledger =>
      refine .nobody (fun {n x} hx => ?_) free (same ledger)
      rcases Underway.of_update hx with ⟨-, ⟨⟩⟩ | ⟨-, hx⟩
      · rfl
      · exact out hx
    | by_job h =>
      refine h.beside ?_ (by rintro _ ⟨⟩; rfl) rfl (same h.ledger)
      rintro rfl
      rw [h.own] at unused
      cases unused
  asked {s jobs thread job t fault r reply s'} inv own rests asks answered good := by
    obtain ⟨device, met, rfl⟩ := Shared.answer_eq answered
    have nodup : (ratchetKeys S peer s.history).Nodup := by
      rw [Shared.log, ratchetKeys_append] at good
      exact (List.nodup_append.mp good).1
    refine ⟨inv.expects met job.op t, ?_⟩
    rcases inv.cases own with h | ⟨rfl, c, thread', t', ne, busy, h⟩
    · obtain ⟨ledger, held⟩ := h.asked asks met nodup
      exact h.step held ((Shared.ledger_quiet (s := { s with device }) rfl rfl).mpr ledger)
    · obtain ⟨same, lock, out⟩ := h.asked_beside busy (rests h.own) asks met
      rw [out]
      refine h.beside ne (by rintro _ ⟨⟩; rfl) lock ?_
      refine (Shared.ledger_quiet (s := { s with device }) rfl rfl).mpr ?_
      show DoubleRatchet.Ledger (device.store.loadSession peer) _ _ _
      rw [same]
      exact h.ledger
  requested {s jobs thread fault q reply s'} inv free answered good := by
    obtain ⟨device, met, rfl⟩ := Shared.answer_eq answered
    have spared : Request.Spares peer (.store q) := free
    obtain ⟨same, lock⟩ := met.spares spared
    have kept : ∀ {t}, s.Ledger S peer t →
        ({ s with device }.log none (.asked (.store q) reply)).Ledger S peer t := by
      intro t ledger
      refine (Shared.ledger_quiet (s := { s with device }) rfl rfl).mpr ?_
      show DoubleRatchet.Ledger (device.store.loadSession peer) _ _ _
      rw [same]
      exact ledger
    cases inv with
    | nobody out free ledger => exact .nobody out (lock.trans free) (kept ledger)
    | by_job h => exact .by_job ⟨h.own, h.others, lock.trans h.held, kept h.ledger⟩
  drew {β s jobs thread job t fault number x} inv own good := by
    rcases inv.cases own with h | ⟨rfl, c, thread', t', ne, busy, h⟩
    · obtain ⟨ledger, held⟩ := h.drew job number (s.source fault) (x.run (s.source fault)).2
      exact h.step held ((Shared.ledger_silent rfl).mpr ledger)
    · have out : (sending S peer).after job.op .outside
          (.drew number (s.source fault) (x.run (s.source fault)).2) = .outside := by
        cases own : job.op.for? peer <;> simp [sending, own, Call.visit]
      rw [out]
      exact h.beside ne (by rintro _ ⟨⟩; rfl) rfl ((Shared.ledger_silent rfl).mpr (h.ledger.more _))
  left {s jobs thread job t outcome} inv own rests leaves good := by
    rcases inv.cases own with h | ⟨rfl, c, thread', t', ne, busy, h⟩
    · have out : ∀ {n x}, update jobs job.number none n = some x → x.2 = Visit.outside := by
        intro n x hx
        rcases Underway.of_update hx with ⟨-, ⟨⟩⟩ | ⟨ne, hx⟩
        exact h.others ne hx
      rcases sent_of_leaves leaves with ⟨rfl, nothing⟩ | closed
      · exact .nobody out h.held ((Shared.ledger_quiet rfl nothing).mpr h.ledger)
      · rw [closed] at h
        refine .nobody out h.held (Shared.ledger_log.mpr ?_)
        exact h.ledger.leave.more []
    · rcases sent_of_leaves leaves with ⟨-, nothing⟩ | ⟨⟨⟩⟩
      exact h.beside ne (by rintro _ ⟨⟩) rfl ((Shared.ledger_quiet rfl nothing).mpr h.ledger)

/-! ### The last number -/

/-- A chain ends at the last number: nothing is encrypted on it, and the record stays as it is. -/
theorem encrypt_at_end {app : App} {site : Site} {chain : SenderChain}
    (current : (site.store.loadSession peer).current.senderChain = some chain)
    (full : chain.chainKey.index = 0xffffffff) (plain : Bytes) :
    ∃ e, (encrypt S peer plain).alone app site = (.error e, site) := by
  rcases ran : (encrypt S peer plain).alone app site with ⟨e | message, site'⟩
  · exact ⟨e, by rw [encrypt_error ran]⟩
  · obtain ⟨-, _, _, st, -, -, made, -⟩ := encrypt_ok ran
    obtain ⟨_, _, chain', next, -, -, same, stepped, -⟩ := SessionState.encrypt_ok made
    obtain rfl := Option.some.inj (current.symm.trans same)
    rw [ChainKey.next, if_pos full] at stepped
    cases stepped

theorem visited_start {device : Device} (none : device.store.sessions[peer]? = none)
    (free : device.holder? peer = Option.none) (entropy : Entropy) :
    Visited S peer { device, entropy } fun _ => Option.none := by
  refine .nobody nofun free ?_
  show Ledger (device.store.loadSession peer) [] [] .outside
  rw [Store.loadSession, none]
  exact Ledger.empty

/-- **No two messages are sent with the same ratchet key and number.**  On a device that begins
without a session with the peer, whatever threads do there and whatever fails, as long as no ratchet
key is made twice: the messages that encryptions for the peer have returned have distinct stamps, and
the numbers with a ratchet key are 0, 1, 2 and so on, in the order of the messages.  The last number is
never given away: when the current chain has come to it, encryption fails and changes nothing. -/
theorem numbered_once {device : Device} {entropy : Entropy} {scripts : List Script}
    {turns : List (Nat × Option Error)} (none : device.store.sessions[peer]? = none)
    (free : device.holder? peer = Option.none)
    (spares : ∀ script ∈ scripts, script.Within (·.Spares peer))
    (distinct : (ratchetKeys S peer
      ((Machine.start S device entropy scripts).after turns).shared.history).Nodup) :
    let s := ((Machine.start S device entropy scripts).after turns).shared
    (∃ stamps : List Stamp, (sentTo peer s.history).map Message.stamp? = stamps.map some ∧
      stamps.Nodup ∧ (∀ key, ∃ n, numbers key stamps = List.range n) ∧
      ∀ x ∈ stamps, x.2 ≠ 0xffffffff) ∧
    ∀ chain, (s.device.store.loadSession peer).current.senderChain = some chain →
      chain.chainKey.index = 0xffffffff → ∀ (app : App) (e : Entropy) (plain : Bytes),
        ∃ err, (encrypt S peer plain).alone app ⟨s.device.store, e⟩
          = (.error err, ⟨s.device.store, e⟩) := by
  intro s
  obtain ⟨jobs, visited⟩ := (invariant_visited S peer).after (follows_sending S peer) spares
    (visited_start none free entropy) turns distinct
  refine ⟨?_, fun chain current full app e plain => encrypt_at_end current full plain⟩
  -- what is still owed comes after what has been handed out
  obtain ⟨t, ledger⟩ : ∃ t, s.Ledger S peer t := by
    cases visited with
    | nobody out free ledger => exact ⟨_, ledger⟩
    | by_job h => exact ⟨_, h.ledger⟩
  obtain ⟨all, used, -, same, account⟩ := ledger.account
  rw [List.map_append] at same
  obtain ⟨stamps, later, rfl, same, -⟩ := List.map_eq_append_iff.mp same.symm
  refine ⟨stamps, same.symm, (List.nodup_append.mp account.nodup).1, fun key => ?_,
    fun x hx => account.bounded x (List.mem_append_left _ hx)⟩
  obtain ⟨n, numbered⟩ := account.gapless key
  have begun : numbers key stamps <+: numbers key (stamps ++ later) := numbers_prefix
  rw [numbered] at begun
  exact range_of_prefix begun

end

/-! ### Threads to compute with -/

namespace Toy

/-- Encrypt a plaintext of one byte, and go on whatever comes of it. -/
def encryption (b : UInt8) (next : Script) : Script :=
  .perform (.session alice (.encrypt [b])) (fun _ => .stop (.ok ())) fun _ => next

/-- One thread reads the first message, with a callback that tries to encrypt, and encrypts twice; the
other one encrypts twice. -/
def senders : List Script :=
  [.perform (.session alice (.decryptPreKey first)) (fun _ => encryption 1 (.stop (.ok ())))
      fun _ => encryption 2 (encryption 3 (.stop (.ok ()))),
    encryption 4 (encryption 5 (.stop (.ok ())))]

/-- Both threads in turn; the store fails to keep what the other one has encrypted first. -/
def senderTurns : List (Nat × Option Error) :=
  (List.range 40).flatMap fun i => [(0, none), (1, if i = 15 then some (.storage "full") else none)]

/-- What the threads have come to. -/
def afterSenders : Shared :=
  ((Machine.start suite { store := bob.store } bob.entropy senders).after senderTurns).shared

end Toy

/-- Two threads and a callback encrypt: one encryption is refused, one fails, and three are handed
out. -/
theorem numbered_once_senders :
    let sent := sentTo Toy.alice Toy.afterSenders.history
    sent.length = 3 ∧ ∃ stamps : List Stamp, sent.map Message.stamp? = stamps.map some ∧
      stamps.Nodup ∧ ∀ key, ∃ n, numbers key stamps = List.range n := by
  intro sent
  have three : sent.length = 3 := by decide +kernel
  have none : Toy.bob.store.sessions[Toy.alice]? = none := by decide +kernel
  have distinct : (ratchetKeys Toy.suite Toy.alice Toy.afterSenders.history).Nodup := by
    decide +kernel
  have spares : ∀ script ∈ Toy.senders, script.Within (·.Spares Toy.alice) := by
    simp [Toy.senders, Toy.encryption, Script.Within]
  rw [Toy.afterSenders] at distinct
  obtain ⟨⟨stamps, same, nodup, gapless, -⟩, -⟩ := numbered_once none rfl spares distinct
  rw [← Toy.afterSenders] at same
  exact ⟨three, stamps, same, nodup, gapless⟩

end DoubleRatchet
