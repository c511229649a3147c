import StellarConduit.Lib.Lru
import StellarConduit.Gossip.Bloom
import StellarConduit.Message.RelayProof

/-!
# The relay's deduplicator

`relay/dedup.rs`: a sliding Bloom filter of the message ids that were submitted, and a
least-recently-used cache of their proofs.  The two have the same capacity.  `check`
consults the cache alone.
-/

namespace StellarConduit

open Verif

structure RelayDeduplicator (β σ : Type) where
  seenIds : SlidingBloomFilter β
  resultCache : σ

namespace RelayDeduplicator

variable {β σ : Type} [LruCache σ (Bytes 32) RelayChainProof]

/-- The capacity of the cache; a deduplicator of capacity 0 caches 1000 proofs. -/
def cacheCapacity (capacity : ℕ) : ℕ := if capacity = 0 then 1000 else capacity

theorem le_cacheCapacity (capacity : ℕ) : capacity ≤ cacheCapacity capacity := by
  unfold cacheCapacity
  split_ifs with h
  · omega
  · exact Nat.le_refl capacity

/-- The proof cached for an id, which becomes the most recently used one. -/
def check (d : RelayDeduplicator β σ) (messageId : Bytes 32) :
    Option RelayChainProof × RelayDeduplicator β σ :=
  let (proof, resultCache) := LruCache.get d.resultCache messageId
  (proof, { d with resultCache := resultCache })

@[simp] theorem check_snd_resultCache (d : RelayDeduplicator β σ) (id : Bytes 32) :
    (d.check id).2.resultCache = (LruCache.get d.resultCache id).2 := rfl

/-- A proof is cached for an id exactly when the cache holds the id. -/
theorem check_fst_eq_none_iff [LawfulLruCache σ (Bytes 32) RelayChainProof]
    (d : RelayDeduplicator β σ) (id : Bytes 32) :
    (d.check id).1 = none ↔ id ∉ Lru.keys d.resultCache :=
  Lru.get_eq_none_iff d.resultCache id

variable [Bloom β (Bytes 32)]

def new (capacity : ℕ) : RelayDeduplicator β σ where
  seenIds := SlidingBloomFilter.new capacity 0.01
  resultCache := LruCache.new (cacheCapacity capacity)

def markSubmitted (d : RelayDeduplicator β σ) (messageId : Bytes 32) (proof : RelayChainProof) :
    RelayDeduplicator β σ where
  seenIds := d.seenIds.add messageId
  resultCache := LruCache.put d.resultCache messageId proof

end RelayDeduplicator

end StellarConduit
