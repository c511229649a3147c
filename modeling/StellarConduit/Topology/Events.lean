import Mathlib.Data.Nat.Log
import StellarConduit.Lib.Broadcast
import StellarConduit.Message.Types

/-!
# Topology events

`TopologyEvent` of `topology/events.rs`: what the bus tells its subscribers, and the bus as one of
them finds it.
-/

namespace StellarConduit

open Verif

inductive TopologyEvent
  | peerUpdated (pubkey : Bytes 32) (hopsToRelay : UInt8) (neighborCount : ℕ)
  | peerPruned (pubkey : Bytes 32)
  | relayReachabilityGained (viaPeer : Bytes 32) (hops : UInt8)
  | relayReachabilityLost
  | meshSizeChanged (previous current : ℕ)
  | peerDisconnected (peerPubkey : Bytes 32)
  | relayLost (relayPubkey : Bytes 32)
  | peerUnreachable (peerPubkey : Bytes 32)
  | clusterMerge (originPubkey : Bytes 32)
  | partitionDetected (originPubkey : Bytes 32)
  deriving DecidableEq

def TopologyEvent.affectedPeerPubkey : TopologyEvent → Bytes 32
  | .peerDisconnected peerPubkey => peerPubkey
  | .relayLost relayPubkey => relayPubkey
  | .peerUnreachable peerPubkey => peerPubkey
  | .clusterMerge originPubkey => originPubkey
  | .partitionDetected originPubkey => originPubkey
  | .peerUpdated pubkey _ _ => pubkey
  | .peerPruned pubkey => pubkey
  | .relayReachabilityGained viaPeer _ => viaPeer
  | _ => List.Vector.replicate 32 0

abbrev TopologyEventBus := Receiver TopologyEvent

/-- The channel has a power of two of slots, at least as many as it is asked for. -/
def TopologyEventBus.new (capacity : ℕ) : TopologyEventBus := .subscribe (2 ^ Nat.clog 2 capacity)

end StellarConduit
