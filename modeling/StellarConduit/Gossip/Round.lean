import StellarConduit.Discovery.PeerList
import StellarConduit.Gossip.Bloom
import StellarConduit.Gossip.State
import StellarConduit.Metrics

/-!
# Fanout rounds

`execute_fanout_round` of `gossip/protocol.rs`: a batch of envelopes is taken off the queue, and
those that the Bloom filter does not know and that have hops left are offered to a few random
peers.

* `executeFanoutRound`: the answer are the calls of `send_to`, in their order.  What these calls
  come to is only logged, so it is no part of the model;
* `mem_sends_executeFanoutRound`: what is offered was waiting in the queue;
* `mem_rounds_iff`: an envelope is still in the queue after rounds exactly when it outlasts each
  of them;
* `repaired_iff`: when anti-entropy can repair what the rounds failed to push.
-/

namespace StellarConduit

open Verif.Machine

/-! ### Recipients -/

structure FanoutCalculator where
  minFanout : ℕ
  maxFanout : ℕ

namespace FanoutCalculator

def fallbackFanout : ℕ := 3

def new : FanoutCalculator := ⟨2, 6⟩

/-- `calculate_target`, which is `calculate` without an estimate of the size of the mesh. -/
def calculateTarget (c : FanoutCalculator) (activeConnections : ℕ) : ℕ :=
  if activeConnections ≤ c.minFanout then activeConnections
  else if activeConnections > c.maxFanout then min fallbackFanout activeConnections
  else min (max c.minFanout (min activeConnections c.maxFanout)) activeConnections

end FanoutCalculator

/-- `choose_multiple` of the `rand` crate: so many of the elements, in any order. -/
structure RandomChoice (α : Type) where
  choose : List α → ℕ → List α
  subperm : ∀ l amount, (choose l amount).Subperm l
  length_choose : ∀ l amount, (choose l amount).length = min amount l.length

/-- The choice of the first elements. -/
def RandomChoice.first {α : Type} : RandomChoice α where
  choose l amount := l.take amount
  subperm l amount := (List.take_sublist amount l).subperm
  length_choose _ _ := List.length_take

def selectRandomPeers (choice : RandomChoice PeerIdentity) (peers : List PeerIdentity) (f : ℕ) :
    List PeerIdentity :=
  if peers = [] ∨ f = 0 then [] else choice.choose peers (min f peers.length)

/-- The active peers that are not banned. -/
def PeerList.eligiblePeers (pl : PeerList) (now : UInt64) : List PeerIdentity :=
  ((pl.getActivePeers now).filter fun peer => !peer.isBanned).map Peer.identity

/-! ### One round -/

def fanoutBatchSize : ℕ := 32

/-- A call of `send_to`. -/
structure SendCall where
  peer : PeerIdentity
  message : ProtocolMessage
  deriving DecidableEq

/-- What `execute_fanout_round` reads and changes, β being the type of its Bloom filters. -/
structure RoundState (β : Type) where
  bloom : SlidingBloomFilter β
  metrics : GossipMetrics
  state : GossipState
  peerList : PeerList

/-- The clock readings and the random choice of a round. -/
structure RoundInput where
  activeAt : UInt64
  drainedAt : UInt64
  choice : RandomChoice PeerIdentity

/-- What the loop of a round over its batch accumulates. -/
structure Forwarding (β : Type) where
  bloom : SlidingBloomFilter β
  metrics : GossipMetrics
  sends : List SendCall
  forwarded : UInt64
  duplicateOrigins : List (Bytes 32)

section Round

variable {β : Type} [Bloom β (Bytes 32)]

/-- The body of the loop. -/
def Forwarding.forward (recipients : List PeerIdentity) (acc : Forwarding β)
    (env : TransactionEnvelope) : Forwarding β :=
  match acc.bloom.checkAndAdd env.messageId with
  | (true, bloom) =>
    { acc with
      bloom := bloom
      metrics :=
        { acc.metrics with envelopesDroppedBloom := acc.metrics.envelopesDroppedBloom + 1 }
      duplicateOrigins := acc.duplicateOrigins ++ [env.originPubkey] }
  | (false, bloom) =>
    if env.ttlHops = 0 then
      { acc with
        bloom := bloom
        metrics :=
          { acc.metrics with envelopesDroppedTtl := acc.metrics.envelopesDroppedTtl + 1 } }
    else
      let outbound := { env with ttlHops := env.ttlHops - 1 }
      { acc with
        bloom := bloom
        sends := acc.sends ++ recipients.map fun peer => ⟨peer, .transaction outbound⟩
        forwarded := acc.forwarded + 1 }

def executeFanoutRound (fanoutCalc : FanoutCalculator) (s : RoundState β) (i : RoundInput) :
    List SendCall × RoundState β :=
  let activePeers := s.peerList.eligiblePeers i.activeAt
  if activePeers = [] then
    ([], { s with metrics :=
      { s.metrics with gossipRoundsFired := s.metrics.gossipRoundsFired + 1 } })
  else
    let f := fanoutCalc.calculateTarget activePeers.length
    let recipients := selectRandomPeers i.choice activePeers f
    let (drained, activeQueue) := s.state.activeQueue.drainBatch fanoutBatchSize i.drainedAt
    let batch := envelopes drained
    let acc := batch.foldl (Forwarding.forward recipients) ⟨s.bloom, s.metrics, [], 0, []⟩
    let peerList := acc.duplicateOrigins.foldl
      (fun pl origin => pl.modifyPeer origin (applyPenalty · .duplicateMessageFlood)) s.peerList
    (acc.sends,
      { bloom := acc.bloom
        metrics :=
          { acc.metrics with
            gossipRoundsFired := acc.metrics.gossipRoundsFired + 1
            envelopesForwarded := acc.metrics.envelopesForwarded + acc.forwarded }
        state := { s.state with activeQueue := activeQueue }
        peerList := peerList })

/-- What the loop offers is an envelope of the batch that has hops left, with one hop less. -/
theorem mem_sends_foldl_forward {recipients : List PeerIdentity}
    {batch : List TransactionEnvelope} {acc : Forwarding β} {call : SendCall}
    (h : call ∈ (batch.foldl (Forwarding.forward recipients) acc).sends) :
    call ∈ acc.sends ∨ ∃ env ∈ batch, env.ttlHops ≠ 0 ∧ call.peer ∈ recipients ∧
      call.message = .transaction { env with ttlHops := env.ttlHops - 1 } := by
  induction batch generalizing acc with
  | nil => exact Or.inl h
  | cons env batch ih =>
    rcases ih h with hsent | ⟨env', henv', hcall⟩
    · unfold Forwarding.forward at hsent
      split at hsent
      · exact Or.inl hsent
      · split_ifs at hsent with httl
        · exact Or.inl hsent
        · rcases List.mem_append.1 hsent with hsent | hsent
          · exact Or.inl hsent
          · obtain ⟨peer, hpeer, rfl⟩ := List.mem_map.1 hsent
            exact Or.inr ⟨env, List.mem_cons_self, httl, hpeer, rfl⟩
    · exact Or.inr ⟨env', List.mem_cons_of_mem env henv', hcall⟩

variable (fanoutCalc : FanoutCalculator) (s : RoundState β) (i : RoundInput)

/-- Without eligible peers the queue is left as it is; otherwise a batch is taken off it. -/
theorem activeQueue_executeFanoutRound :
    (executeFanoutRound fanoutCalc s i).2.state.activeQueue =
      if s.peerList.eligiblePeers i.activeAt = [] then s.state.activeQueue
      else (s.state.activeQueue.drainBatch fanoutBatchSize i.drainedAt).2 := by
  unfold executeFanoutRound
  dsimp only
  split_ifs <;> rfl

/-- A round does not look at the backlog. -/
theorem macroMergeBacklog_executeFanoutRound :
    (executeFanoutRound fanoutCalc s i).2.state.macroMergeBacklog = s.state.macroMergeBacklog := by
  unfold executeFanoutRound
  dsimp only
  split_ifs <;> rfl

/-- What a round offers was waiting in the queue. -/
theorem mem_sends_executeFanoutRound {call : SendCall}
    (h : call ∈ (executeFanoutRound fanoutCalc s i).1) :
    ∃ env ∈ s.state.activeQueue.iterEnvelopes, env.ttlHops ≠ 0 ∧
      call.message = .transaction { env with ttlHops := env.ttlHops - 1 } := by
  unfold executeFanoutRound at h
  dsimp only at h
  split_ifs at h
  · simp at h
  · rcases mem_sends_foldl_forward h with hnil | ⟨env, henv, httl, -, hmessage⟩
    · simp at hnil
    · have hperm := s.state.activeQueue.iterEnvelopes_drainBatch fanoutBatchSize i.drainedAt
      exact ⟨env, hperm.subset (List.mem_append_left _ henv), httl, hmessage⟩

/-- A round leaves in the queue only what was there. -/
theorem iterEnvelopes_executeFanoutRound_subset :
    (executeFanoutRound fanoutCalc s i).2.state.activeQueue.iterEnvelopes ⊆
      s.state.activeQueue.iterEnvelopes := by
  intro env henv
  rw [activeQueue_executeFanoutRound] at henv
  split_ifs at henv
  · exact henv
  · have hperm := s.state.activeQueue.iterEnvelopes_drainBatch fanoutBatchSize i.drainedAt
    exact hperm.subset (List.mem_append_right _ henv)

/-! ### What rounds leave for anti-entropy -/

/-- An envelope outlasts a round: there is no eligible peer, or as many envelopes of the tier as
the round takes are more urgent than it, or as urgent and earlier. -/
def Outlasts (env : TransactionEnvelope) (s : RoundState β) (i : RoundInput) : Prop :=
  s.peerList.eligiblePeers i.activeAt = [] ∨
    ∃ pre post, s.state.activeQueue.normal.messages = pre ++ .transaction env :: post ∧
      fanoutBatchSize ≤
        pre.countP (fun msg => decide
          (MessagePriority.urgencyScore i.drainedAt (.transaction env) ≤
            MessagePriority.urgencyScore i.drainedAt msg)) +
        post.countP fun msg => decide
          (MessagePriority.urgencyScore i.drainedAt (.transaction env) <
            MessagePriority.urgencyScore i.drainedAt msg)

/-- What is in the queue after a round was there before, and outlasted it. -/
theorem mem_round_iff (env : TransactionEnvelope) :
    env ∈ (executeFanoutRound fanoutCalc s i).2.state.activeQueue.iterEnvelopes ↔
      env ∈ s.state.activeQueue.iterEnvelopes ∧ Outlasts env s i := by
  constructor
  · intro henv
    refine ⟨iterEnvelopes_executeFanoutRound_subset fanoutCalc s i henv, ?_⟩
    rw [activeQueue_executeFanoutRound] at henv
    split_ifs at henv with hpeers
    · exact Or.inl hpeers
    · exact Or.inr ((s.state.activeQueue.mem_iterEnvelopes_drainBatch_iff (by decide)
        i.drainedAt env).1 henv)
  · rintro ⟨henv, houtlasts⟩
    rw [activeQueue_executeFanoutRound]
    split_ifs with hpeers
    · exact henv
    · exact (s.state.activeQueue.mem_iterEnvelopes_drainBatch_iff (by decide)
        i.drainedAt env).2 (houtlasts.resolve_left hpeers)

/-- What is in the queue after rounds was there before, and outlasted each of them. -/
theorem mem_rounds_iff (env : TransactionEnvelope) (is : List RoundInput) :
    env ∈ (exec (executeFanoutRound fanoutCalc) s is).state.activeQueue.iterEnvelopes ↔
      env ∈ s.state.activeQueue.iterEnvelopes ∧
        ∀ e ∈ trace (executeFanoutRound fanoutCalc) s is, Outlasts env e.before e.input := by
  induction is generalizing s with
  | nil => simp
  | cons i is ih => rw [exec_cons, ih, mem_round_iff, trace_cons, List.forall_mem_cons, and_assoc]

/-- The node returns the envelope to every request that does not list its prefix. -/
def Serves (s : GossipState) (env : TransactionEnvelope) : Prop :=
  ∀ req : SyncRequest, idPrefix4 env.messageId ∉ req.knownMessageIds →
    env ∈ (s.handleSyncRequest req).missingEnvelopes

/-- A node serves what is in its queue. -/
theorem serves_iff (s : GossipState) (env : TransactionEnvelope) :
    Serves s env ↔ env ∈ s.activeQueue.iterEnvelopes := by
  constructor
  · intro h
    exact (s.mem_handleSyncRequest.1 (h ⟨[]⟩ List.not_mem_nil)).1
  · intro henv req hprefix
    exact s.mem_handleSyncRequest.2 ⟨henv, hprefix⟩

/-- **What anti-entropy can repair.**  A node accepts an envelope, and executes rounds.  It then
returns the envelope to every request that does not list its prefix if and only if the envelope
outlasted each round.  Whether a recipient got it does not matter. -/
theorem repaired_iff (env : TransactionEnvelope) (is : List RoundInput) :
    let accepted := { s with state := (s.state.addEnvelope env).2 }
    Serves (exec (executeFanoutRound fanoutCalc) accepted is).state env ↔
      ∀ e ∈ trace (executeFanoutRound fanoutCalc) accepted is, Outlasts env e.before e.input := by
  intro accepted
  have henv : env ∈ accepted.state.activeQueue.iterEnvelopes := s.state.mem_addEnvelope env
  rw [serves_iff, mem_rounds_iff]
  exact and_iff_right henv

end Round

/-- A node that knows one peer and holds nothing. -/
def sampleRound : RoundState (ExactFilter (Bytes 32)) where
  bloom := SlidingBloomFilter.new 10000 0.01
  metrics := GossipMetrics.new
  state := GossipState.new
  peerList := ((PeerList.new 300).insertOrUpdate sampleKey 0 1672531200).2

/-- The readings of a round in the second in which the peer was seen. -/
def sampleReadings : RoundInput := ⟨1672531200, 1672531200, RandomChoice.first⟩

/-- An envelope with ten hops left is gone after one round, so that nobody can pull it. -/
theorem unrepaired_sample :
    let env := (sampleForged 0).envelope
    let accepted := { sampleRound with state := (sampleRound.state.addEnvelope env).2 }
    1 < env.ttlHops ∧ ¬ Serves
      (exec (executeFanoutRound FanoutCalculator.new) accepted [sampleReadings]).state env := by
  intro env accepted
  refine ⟨by decide, fun h => ?_⟩
  exact absurd (h ⟨[]⟩ List.not_mem_nil) (by decide +kernel)

end StellarConduit
