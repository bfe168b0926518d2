import DoubleRatchet.Action
import DoubleRatchet.Address
import DoubleRatchet.Bytes
import DoubleRatchet.Chain
import DoubleRatchet.Cipher.Aes
import DoubleRatchet.Cipher.Cbc
import DoubleRatchet.Curve.Edwards
import DoubleRatchet.Curve.Field
import DoubleRatchet.Curve.Montgomery
import DoubleRatchet.Curve.Signature
import DoubleRatchet.Device
import DoubleRatchet.Digest.Hmac
import DoubleRatchet.Digest.Sha256
import DoubleRatchet.Digest.Sha512
import DoubleRatchet.Entropy
import DoubleRatchet.Error
import DoubleRatchet.Format
import DoubleRatchet.Group.Chain
import DoubleRatchet.Group.Layout
import DoubleRatchet.Group.Operations
import DoubleRatchet.Group.Record
import DoubleRatchet.Key
import DoubleRatchet.Key.Layout
import DoubleRatchet.KeyGeneration
import DoubleRatchet.Limits
import DoubleRatchet.Locks
import DoubleRatchet.Message
import DoubleRatchet.Message.Group
import DoubleRatchet.Message.Session
import DoubleRatchet.Message.Version
import DoubleRatchet.PreKey
import DoubleRatchet.PreKey.Layout
import DoubleRatchet.PreKey.Operations
import DoubleRatchet.Session.Handshake
import DoubleRatchet.Session.Layout
import DoubleRatchet.Session.Operations
import DoubleRatchet.Session.Ratchet
import DoubleRatchet.Session.Record
import DoubleRatchet.Session.State
import DoubleRatchet.Store
import DoubleRatchet.Store.Journal
import DoubleRatchet.Suite
import DoubleRatchet.Window
import DoubleRatchet.Wire.Fields
import DoubleRatchet.Wire.Varint
import DoubleRatchet.World
import DoubleRatchet.Proofs.Alone
import DoubleRatchet.Proofs.Outcomes
import DoubleRatchet.Proofs.Windows
import DoubleRatchet.Proofs.Attempts
import DoubleRatchet.Proofs.Calls
import DoubleRatchet.Proofs.Runs
import DoubleRatchet.Proofs.Receivers
import DoubleRatchet.Proofs.Toy
import DoubleRatchet.Proofs.Identity
import DoubleRatchet.Proofs.Handshake
import DoubleRatchet.Proofs.Once
import DoubleRatchet.Proofs.Ladder
import DoubleRatchet.Proofs.Agreement
import DoubleRatchet.Proofs.Lockstep
import DoubleRatchet.Proofs.Exchange
import DoubleRatchet.Proofs.Correspondence
import DoubleRatchet.Proofs.Single
import DoubleRatchet.Proofs.Underway
import DoubleRatchet.Proofs.Delivery
import DoubleRatchet.Proofs.GroupCalls
import DoubleRatchet.Proofs.Failures
import DoubleRatchet.Proofs.Pinning
import DoubleRatchet.Proofs.GroupOnce
import DoubleRatchet.Proofs.Origins
import DoubleRatchet.Proofs.Relearning
import DoubleRatchet.Proofs.Bodies
import DoubleRatchet.Proofs.Broadcast
import DoubleRatchet.Proofs.Listening
import DoubleRatchet.Proofs.Threads
import DoubleRatchet.Proofs.Disciplines
import DoubleRatchet.Proofs.Requests
import DoubleRatchet.Proofs.Exclusion
import DoubleRatchet.Proofs.SingleUse
import DoubleRatchet.Proofs.Voices
import DoubleRatchet.Proofs.Sending
import DoubleRatchet.Proofs.Stamps
import DoubleRatchet.Proofs.Authenticity
import DoubleRatchet.Proofs.Lineages
import DoubleRatchet.Proofs.Replays
import DoubleRatchet.Proofs.Talks
import DoubleRatchet.Proofs.Rekeying
import DoubleRatchet.Proofs.Abreast
import DoubleRatchet.Proofs.Crossing
import DoubleRatchet.Proofs.Convergence
import DoubleRatchet.Proofs.RoundTrip
import DoubleRatchet.Proofs.Errands
import DoubleRatchet.Proofs.WellKept
import DoubleRatchet.Proofs.Trust
import DoubleRatchet.Proofs.Iterations
import DoubleRatchet.Proofs.GroupVisits
import DoubleRatchet.Proofs.GroupSending
import DoubleRatchet.Proofs.Layouts
import DoubleRatchet.Proofs.Guards
import DoubleRatchet.Proofs.Footprints
import DoubleRatchet.Proofs.Unanswered
import DoubleRatchet.Proofs.Search
import DoubleRatchet.Proofs.Derivation
import DoubleRatchet.Proofs.SetUps
import DoubleRatchet.Proofs.Primality
import DoubleRatchet.Proofs.EdwardsGroup
import DoubleRatchet.Proofs.Residues
import DoubleRatchet.Proofs.CurvePoints
import DoubleRatchet.Proofs.MontgomeryLadder
import DoubleRatchet.Proofs.Signatures
import DoubleRatchet.Proofs.Malleability
import DoubleRatchet.Proofs.PreKeyNumbers
