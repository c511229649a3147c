import StellarConduit.Lib.Lru
import StellarConduit.Metrics
import StellarConduit.Peer.Peer

/-!
# The routing table

`RoutingTable` of `router/table.rs`: the next hops to each destination, in an LRU cache.  The cache
is the `lru` crate's, a parameter with the interface `LruMap`.
-/

namespace StellarConduit

open Verif

structure RoutingTable (σ : Type) where
  cache : σ
  metrics : RoutingMetrics

namespace RoutingTable

variable {σ : Type} [LruMap σ (Bytes 32) (List PeerIdentity)]

/-- The cache cannot have the capacity zero; then it gets 128. -/
def new (capacity : ℕ) (metrics : RoutingMetrics) : RoutingTable σ where
  cache := LruCache.new (if capacity = 0 then 128 else capacity)
  metrics := metrics

def lookup (t : RoutingTable σ) (dest : Bytes 32) : Option (List PeerIdentity) × RoutingTable σ :=
  match LruCache.get t.cache dest with
  | (some hops, cache) =>
    (some hops,
      { cache := cache
        metrics :=
          { t.metrics with routingTableHits := t.metrics.routingTableHits + 1 } })
  | (none, cache) =>
    (none,
      { cache := cache
        metrics :=
          { t.metrics with routingTableMisses := t.metrics.routingTableMisses + 1 } })

def insert (t : RoutingTable σ) (dest : Bytes 32) (nextHops : List PeerIdentity) :
    RoutingTable σ :=
  { t with cache := LruCache.put t.cache dest nextHops }

def refresh (t : RoutingTable σ) (entries : List (Bytes 32 × List PeerIdentity)) :
    RoutingTable σ where
  cache := entries.foldl (fun cache entry => LruCache.put cache entry.1 entry.2) t.cache
  metrics := { t.metrics with routingTableRefreshes := t.metrics.routingTableRefreshes + 1 }

def len (t : RoutingTable σ) : ℕ := (LruCache.iter t.cache).length

/-- Remove the routes to the peer, and those through it. -/
def invalidate (t : RoutingTable σ) (peer : Bytes 32) : RoutingTable σ :=
  let cache := (LruMap.pop t.cache peer).2
  let keysToRemove := ((LruCache.iter cache).filter fun entry =>
    entry.2.any fun hop => decide (hop.pubkey = peer)).map Prod.fst
  { cache := keysToRemove.foldl (fun cache key => (LruMap.pop cache key).2) cache
    metrics :=
      { t.metrics with routingTableInvalidations := t.metrics.routingTableInvalidations + 1 } }

def clear (t : RoutingTable σ) : RoutingTable σ where
  cache := LruMap.clear t.cache
  metrics :=
    { t.metrics with
      routingTableInvalidations := t.metrics.routingTableInvalidations + UInt64.ofNat t.len }

end RoutingTable

end StellarConduit
