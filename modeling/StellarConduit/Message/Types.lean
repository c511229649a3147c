import Mathlib.Data.Vector.Basic
import StellarConduit.Lib.Bytes

/-!
# Protocol messages

The data of `message/types.rs`: the transaction envelope, the topology update, the two
anti-entropy messages and the handshake.  Fixed-size byte arrays carry their length in
their type.
-/

namespace StellarConduit

open Verif.Bytes

/-- A byte array of `n` bytes. -/
abbrev Bytes (n : ℕ) := List.Vector UInt8 n

/-- A byte array as it stands. -/
def bytesField (n : ℕ) : FixedField (Bytes n) n where
  encode := List.Vector.toList
  length_encode := List.Vector.toList_length
  injective := List.Vector.toList_injective

/-- The bytes of a Rust `String`, which are its UTF-8 encoding. -/
def utf8Bytes (s : String) : List UInt8 := s.toByteArray.data.toList

theorem utf8Bytes_injective : Function.Injective utf8Bytes := by
  intro s t h
  have hdata : s.toByteArray.data = t.toByteArray.data := Array.toList_inj.1 h
  exact String.toByteArray_inj.1 (ByteArray.ext hdata)

/-- A transaction on its way through the mesh. -/
structure TransactionEnvelope where
  messageId : Bytes 32
  originPubkey : Bytes 32
  txXdr : String
  ttlHops : UInt8
  timestamp : UInt64
  signature : Bytes 64
  deriving DecidableEq

inductive TopologyFlag
  | goToSleep
  | lowPowerMode
  | deepSleepPending
  | macRotated
  deriving DecidableEq

structure TopologyUpdate where
  originPubkey : Bytes 32
  directlyConnectedPeers : List (Bytes 32)
  hopsToRelay : UInt8
  topologyFlags : List TopologyFlag
  deriving DecidableEq

/-- A pull request: the four-byte prefixes of the message ids already held. -/
structure SyncRequest where
  knownMessageIds : List (Bytes 4)
  deriving DecidableEq

structure SyncResponse where
  missingEnvelopes : List TransactionEnvelope
  deriving DecidableEq

inductive ProtocolMessage
  | transaction (envelope : TransactionEnvelope)
  | topologyUpdate (update : TopologyUpdate)
  | syncRequest (request : SyncRequest)
  | syncResponse (response : SyncResponse)
  | handshake (pubkey : Bytes 32)
  deriving DecidableEq

end StellarConduit
