/-
DoubleRatchet/Store/Journal.lean

Requests to a store in words: the name of each, and what is written down of those that
change something.
-/
import DoubleRatchet.Store

namespace DoubleRatchet

namespace StoreRequest

/-- The name of a request. -/
def name : StoreRequest → String
  | identityKeyPair => "get_identity_key_pair"
  | registrationId => "get_local_registration_id"
  | saveIdentity .. => "save_identity"
  | isTrusted .. => "is_trusted_identity"
  | getIdentity _ => "get_identity"
  | loadPreKey _ => "load_pre_key"
  | storePreKey .. => "store_pre_key"
  | containsPreKey _ => "contains_pre_key"
  | removePreKey _ => "remove_pre_key"
  | loadSignedPreKey _ => "load_signed_pre_key"
  | loadSignedPreKeys => "load_signed_pre_keys"
  | storeSignedPreKey .. => "store_signed_pre_key"
  | containsSignedPreKey _ => "contains_signed_pre_key"
  | removeSignedPreKey _ => "remove_signed_pre_key"
  | loadSession _ => "load_session"
  | subDevices _ => "get_sub_device_sessions"
  | storeSession .. => "store_session"
  | containsSession _ => "contains_session"
  | deleteSession _ => "delete_session"
  | deleteAllSessions _ => "delete_all_sessions"
  | loadSenderKey _ => "load_sender_key"
  | storeSenderKey .. => "store_sender_key"

/-- What a request changes, none if it only asks. -/
def subject : StoreRequest → Option String
  | saveIdentity peer _ | storeSession peer _ | deleteSession peer => some peer.text
  | storePreKey id _ | removePreKey id | storeSignedPreKey id _ | removeSignedPreKey id =>
    some (toString id)
  | deleteAllSessions name => some name
  | storeSenderKey sender _ => some sender.text
  | _ => none

/-- Whether an answer says that an identity was replaced; nothing is said by other answers. -/
def remark : (r : StoreRequest) → Except Error r.Reply → String
  | saveIdentity .., .ok replaced => if replaced then " true" else " false"
  | _, _ => ""

/-- The line of the journal for a request that has been answered. -/
def line (r : StoreRequest) (reply : Except Error r.Reply) : Option String :=
  r.subject.map fun s => r.name ++ " " ++ s ++ r.remark reply

end StoreRequest

end DoubleRatchet
