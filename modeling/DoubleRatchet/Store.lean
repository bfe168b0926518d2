/-
DoubleRatchet/Store.lean

What a device keeps: its own identity, the identities that it has seen, its pre-keys,
its sessions and the chains of group senders.

An identity is trusted when it is the first one seen for a peer, or the one kept for
it.  What is loaded is a copy, and what is stored is a snapshot, so nothing changes in
a store but by a request to it; `Store.answer` is the answer to every request.
-/
import DoubleRatchet.Group.Record
import DoubleRatchet.PreKey
import DoubleRatchet.Session.Record

namespace DoubleRatchet

open Std (ExtTreeMap)

/-- Whether an identity is about to be written to or heard from. -/
inductive Direction where
  | sending
  | receiving
  deriving DecidableEq

/-- What a device keeps. -/
structure Store where
  identity : KeyPair
  registrationId : UInt32
  /-- The identities of the peers. -/
  identities : ExtTreeMap Address PublicKey := ∅
  preKeys : ExtTreeMap UInt32 PreKey := ∅
  signedPreKeys : ExtTreeMap UInt32 SignedPreKey := ∅
  sessions : ExtTreeMap Address SessionRecord := ∅
  senderKeys : ExtTreeMap GroupSender GroupRecord := ∅

/-- A request to a store. -/
inductive StoreRequest where
  | identityKeyPair
  | registrationId
  | saveIdentity (peer : Address) (key : PublicKey)
  | isTrusted (peer : Address) (key : PublicKey) (direction : Direction)
  | getIdentity (peer : Address)
  | loadPreKey (id : UInt32)
  | storePreKey (id : UInt32) (record : PreKey)
  | containsPreKey (id : UInt32)
  | removePreKey (id : UInt32)
  | loadSignedPreKey (id : UInt32)
  | loadSignedPreKeys
  | storeSignedPreKey (id : UInt32) (record : SignedPreKey)
  | containsSignedPreKey (id : UInt32)
  | removeSignedPreKey (id : UInt32)
  | loadSession (peer : Address)
  | subDevices (name : String)
  | storeSession (peer : Address) (record : SessionRecord)
  | containsSession (peer : Address)
  | deleteSession (peer : Address)
  | deleteAllSessions (name : String)
  | loadSenderKey (sender : GroupSender)
  | storeSenderKey (sender : GroupSender) (record : GroupRecord)

/-- What a request is answered with. -/
@[reducible] def StoreRequest.Reply : StoreRequest → Type
  | identityKeyPair => KeyPair
  | registrationId => UInt32
  | saveIdentity .. | isTrusted .. => Bool
  | getIdentity _ => Option PublicKey
  | loadPreKey _ => PreKey
  | loadSignedPreKey _ => SignedPreKey
  | loadSignedPreKeys => List SignedPreKey
  | loadSession _ => SessionRecord
  | subDevices _ => List UInt32
  | loadSenderKey _ => GroupRecord
  | containsPreKey _ | containsSignedPreKey _ | containsSession _ => Bool
  | storePreKey .. | removePreKey _ | storeSignedPreKey .. | removeSignedPreKey _
  | storeSession .. | deleteSession _ | deleteAllSessions _ | storeSenderKey .. => Unit

namespace Store

/-! ### Identities -/

/-- Whether an identity is the first one for a peer, or the one that is kept for it. -/
def isTrusted (s : Store) (peer : Address) (key : PublicKey) : Bool :=
  match s.identities[peer]? with
  | none => true
  | some kept => kept == key

/-- Keep an identity for a peer. -/
def saveIdentity (s : Store) (peer : Address) (key : PublicKey) : Store :=
  { s with identities := s.identities.insert peer key }

theorem isTrusted_saveIdentity (s : Store) (peer : Address) (key asked : PublicKey) :
    (s.saveIdentity peer key).isTrusted peer asked = (key == asked) := by
  simp [isTrusted, saveIdentity]

theorem isTrusted_saveIdentity_of_ne (s : Store) {peer other : Address} (key asked : PublicKey)
    (h : other ≠ peer) :
    (s.saveIdentity peer key).isTrusted other asked = s.isTrusted other asked := by
  simp [isTrusted, saveIdentity, ExtTreeMap.getElem?_insert, Ne.symm h]

/-! ### Pre-keys -/

/-- The one-time pre-key with a number. -/
def loadPreKey (s : Store) (id : UInt32) : Except Error PreKey :=
  match s.preKeys[id]? with
  | none => .error (.invalidKeyId (.noPreKey id))
  | some record => .ok record

/-- The signed pre-key with a number. -/
def loadSignedPreKey (s : Store) (id : UInt32) : Except Error SignedPreKey :=
  match s.signedPreKeys[id]? with
  | none => .error (.invalidKeyId (.noSignedPreKey id))
  | some record => .ok record

/-- All signed pre-keys, by the numbers that they are kept under. -/
def allSignedPreKeys (s : Store) : List SignedPreKey := s.signedPreKeys.toList.map (·.2)

/-! ### Sessions -/

/-- The sessions with a peer; there may be none. -/
def loadSession (s : Store) (peer : Address) : SessionRecord := s.sessions[peer]?.getD .empty

/-- Keep the sessions with a peer. -/
def storeSession (s : Store) (peer : Address) (record : SessionRecord) : Store :=
  { s with sessions := s.sessions.insert peer record.stored }

@[simp] theorem loadSession_storeSession (s : Store) (peer : Address) (record : SessionRecord) :
    (s.storeSession peer record).loadSession peer = record.stored := by
  simp [loadSession, storeSession]

theorem loadSession_storeSession_of_ne (s : Store) {peer other : Address} (record : SessionRecord)
    (h : other ≠ peer) : (s.storeSession peer record).loadSession other = s.loadSession other := by
  simp [loadSession, storeSession, ExtTreeMap.getElem?_insert, Ne.symm h]

/-- The devices of a name that there is a session with, but for the first one. -/
def subDevices (s : Store) (name : String) : List UInt32 :=
  (s.sessions.keys.filter fun peer => peer.name == name && peer.device != 1).map (·.device)

/-- Forget the sessions with all devices of a name. -/
def deleteAllSessions (s : Store) (name : String) : Store :=
  { s with sessions := s.sessions.filter fun peer _ => peer.name != name }

/-! ### Groups -/

/-- The chains of a group sender; there may be none. -/
def loadSenderKey (s : Store) (sender : GroupSender) : GroupRecord :=
  s.senderKeys[sender]?.getD .empty

/-! ### All requests -/

/-- The answer to a request, and the store after it. -/
def answer (s : Store) : (r : StoreRequest) → Except Error r.Reply × Store
  | .identityKeyPair => (.ok s.identity, s)
  | .registrationId => (.ok s.registrationId, s)
  | .saveIdentity peer key => (.ok !s.isTrusted peer key, s.saveIdentity peer key)
  | .isTrusted peer key _ => (.ok (s.isTrusted peer key), s)
  | .getIdentity peer => (.ok s.identities[peer]?, s)
  | .loadPreKey id => (s.loadPreKey id, s)
  | .storePreKey id record => (.ok (), { s with preKeys := s.preKeys.insert id record })
  | .containsPreKey id => (.ok (s.preKeys.contains id), s)
  | .removePreKey id => (.ok (), { s with preKeys := s.preKeys.erase id })
  | .loadSignedPreKey id => (s.loadSignedPreKey id, s)
  | .loadSignedPreKeys => (.ok s.allSignedPreKeys, s)
  | .storeSignedPreKey id record =>
    (.ok (), { s with signedPreKeys := s.signedPreKeys.insert id record })
  | .containsSignedPreKey id => (.ok (s.signedPreKeys.contains id), s)
  | .removeSignedPreKey id => (.ok (), { s with signedPreKeys := s.signedPreKeys.erase id })
  | .loadSession peer => (.ok (s.loadSession peer), s)
  | .subDevices name => (.ok (s.subDevices name), s)
  | .storeSession peer record => (.ok (), s.storeSession peer record)
  | .containsSession peer => (.ok (s.sessions.contains peer), s)
  | .deleteSession peer => (.ok (), { s with sessions := s.sessions.erase peer })
  | .deleteAllSessions name => (.ok (), s.deleteAllSessions name)
  | .loadSenderKey sender => (.ok (s.loadSenderKey sender), s)
  | .storeSenderKey sender record =>
    (.ok (), { s with senderKeys := s.senderKeys.insert sender record })

end Store

end DoubleRatchet
