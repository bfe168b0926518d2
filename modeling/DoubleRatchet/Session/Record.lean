/-
DoubleRatchet/Session/Record.lean

All sessions with one peer: the current one and the ones before it, newest first.
Earlier sessions are kept because messages of theirs may still be on the way, and
because both sides may start a session at the same time.

A record is fresh until a session has been put into it or it has been stored; a
fresh record has no session that would have to be kept.
-/
import DoubleRatchet.Session.State

namespace DoubleRatchet

/-- All sessions with a peer. -/
structure SessionRecord where
  current : SessionState := .empty
  /-- Earlier sessions, newest first. -/
  archive : List SessionState := []
  fresh : Bool := true
  deriving DecidableEq

namespace SessionRecord

/-- The record of a peer that there is no session with. -/
def empty : SessionRecord := {}

/-- The record of one session. -/
def ofState (st : SessionState) : SessionRecord := { current := st, fresh := false }

/-- Whether the session of a version and a base key is in the record. -/
def knows (r : SessionRecord) (version : UInt8) (baseKey : Bytes) : Bool :=
  (r.current :: r.archive).any (·.isFor version baseKey)

/-- Put another session in the place of the current one, which goes to the front of the archive;
when there are too many, the oldest ones go. -/
def promote (r : SessionRecord) (st : SessionState) : SessionRecord where
  current := st
  archive := (r.current :: r.archive).take limits.archivedSessions
  fresh := false

/-- Move the current session to the archive and start with an empty one. -/
def retire (r : SessionRecord) : SessionRecord := r.promote .empty

/-- Make room for a new session: the current one is moved to the archive, if there is any. -/
def makeRoom (r : SessionRecord) : SessionRecord := if r.fresh then r else r.retire

/-- The record as it is once it has been stored. -/
def stored (r : SessionRecord) : SessionRecord := { r with fresh := false }

end SessionRecord

end DoubleRatchet
