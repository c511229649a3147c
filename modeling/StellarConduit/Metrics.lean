import Mathlib.Init

/-!
# Metrics

The counters of `metrics.rs` that the modelled functions increment.  A counter is a 64-bit
word and `fetch_add` wraps.
-/

namespace StellarConduit

structure Metrics where
  peersBanned : UInt64
  transactionsSubmitted : UInt64
  transactionsRejected : UInt64
  relaySubmissionRetries : UInt64
  deriving DecidableEq

namespace Metrics

def new : Metrics := ⟨0, 0, 0, 0⟩

end Metrics

/-- The counters of `Metrics` that the gossip loop increments. -/
structure GossipMetrics where
  gossipRoundsFired : UInt64
  envelopesForwarded : UInt64
  envelopesDroppedBloom : UInt64
  envelopesDroppedTtl : UInt64
  syncRequestsSent : UInt64
  syncResponsesReceived : UInt64
  envelopesMergedFromSync : UInt64
  macroMergeEvents : UInt64
  peersUnbanned : UInt64
  deriving DecidableEq

namespace GossipMetrics

def new : GossipMetrics := ⟨0, 0, 0, 0, 0, 0, 0, 0, 0⟩

end GossipMetrics

/-- The counters of `Metrics` that the routing table increments. -/
structure RoutingMetrics where
  routingTableHits : UInt64
  routingTableMisses : UInt64
  routingTableRefreshes : UInt64
  routingTableInvalidations : UInt64
  deriving DecidableEq

namespace RoutingMetrics

def new : RoutingMetrics := ⟨0, 0, 0, 0⟩

end RoutingMetrics

/-- The counters of `Metrics` that the rate limiter increments. -/
structure RateMetrics where
  messagesRateLimited : UInt64
  peerViolationsRecorded : UInt64
  deriving DecidableEq

namespace RateMetrics

def new : RateMetrics := ⟨0, 0⟩

end RateMetrics

end StellarConduit
