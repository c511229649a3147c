import StellarConduit.Gossip.Round
import StellarConduit.Gossip.Window

/-!
# The verdicts of a round

`execute_fanout_round` asks the Bloom filter for each envelope of its batch, and the answers decide
everything else: what is offered, and who is penalized.

* `RoundState.batch`: the envelopes that a round takes;
* `verdicts`: the answers of `check_and_add`, and `afterBatch` the filter behind them;
* `calls_executeFanoutRound`, `bloom_executeFanoutRound`, `peerList_executeFanoutRound`: a round in
  terms of the verdicts.
-/

namespace StellarConduit

open Verif.Machine

variable {β : Type}

/-- The envelopes that a round takes off the queue. -/
def RoundState.batch (s : RoundState β) (i : RoundInput) : List TransactionEnvelope :=
  if s.peerList.eligiblePeers i.activeAt = [] then []
  else envelopes (s.state.activeQueue.drainBatch fanoutBatchSize i.drainedAt).1

theorem RoundState.length_batch_le (s : RoundState β) (i : RoundInput) :
    (s.batch i).length ≤ fanoutBatchSize := by
  unfold batch
  split_ifs
  · exact Nat.zero_le _
  · exact (List.length_filterMap_le _ _).trans (s.state.activeQueue.length_drainBatch_le _ _)

theorem RoundState.eligiblePeers_ne_nil {s : RoundState β} {i : RoundInput}
    {pre post : List TransactionEnvelope} {env : TransactionEnvelope}
    (hbatch : s.batch i = pre ++ env :: post) : s.peerList.eligiblePeers i.activeAt ≠ [] := by
  intro hnil
  rw [batch, if_pos hnil] at hbatch
  simp at hbatch

/-- The peers to which a round offers an envelope. -/
def RoundState.recipients (s : RoundState β) (fanoutCalc : FanoutCalculator) (i : RoundInput) :
    List PeerIdentity :=
  let activePeers := s.peerList.eligiblePeers i.activeAt
  selectRandomPeers i.choice activePeers (fanoutCalc.calculateTarget activePeers.length)

/-- A round with eligible peers has recipients. -/
theorem RoundState.recipients_ne_nil (s : RoundState β) (fanoutCalc : FanoutCalculator)
    (i : RoundInput) (h : s.peerList.eligiblePeers i.activeAt ≠ []) :
    s.recipients fanoutCalc i ≠ [] := by
  have hpos : 0 < (s.peerList.eligiblePeers i.activeAt).length := List.length_pos_iff.2 h
  have htarget : 0 < fanoutCalc.calculateTarget (s.peerList.eligiblePeers i.activeAt).length := by
    unfold FanoutCalculator.calculateTarget FanoutCalculator.fallbackFanout
    split_ifs <;> omega
  unfold recipients selectRandomPeers
  dsimp only
  rw [if_neg (by rintro (hnil | hzero); exacts [h hnil, by omega]), ← List.length_pos_iff,
    i.choice.length_choose]
  omega

/-- The copy of an envelope that is sent. -/
def TransactionEnvelope.outbound (env : TransactionEnvelope) : TransactionEnvelope :=
  { env with ttlHops := env.ttlHops - 1 }

/-- The calls for one envelope, when `seen` is the answer of the filter. -/
def offers (recipients : List PeerIdentity) (env : TransactionEnvelope) (seen : Bool) :
    List SendCall :=
  if seen = true ∨ env.ttlHops = 0 then []
  else recipients.map fun peer => ⟨peer, .transaction env.outbound⟩

section Verdicts

variable [Bloom β (Bytes 32)]

/-- The filter after a batch. -/
def SlidingBloomFilter.afterBatch (bloom : SlidingBloomFilter β)
    (batch : List TransactionEnvelope) : SlidingBloomFilter β :=
  batch.foldl (fun bloom env => (bloom.checkAndAdd env.messageId).2) bloom

/-- The envelopes of a batch, each with the answer of the filter. -/
def verdicts (bloom : SlidingBloomFilter β) :
    List TransactionEnvelope → List (TransactionEnvelope × Bool)
  | [] => []
  | env :: batch =>
    let (seen, bloom) := bloom.checkAndAdd env.messageId
    (env, seen) :: verdicts bloom batch

/-- The origins of the envelopes that are reported as seen. -/
def duplicateOrigins (bloom : SlidingBloomFilter β) (batch : List TransactionEnvelope) :
    List (Bytes 32) :=
  ((verdicts bloom batch).filter Prod.snd).map fun v => v.1.originPubkey

theorem verdicts_append (bloom : SlidingBloomFilter β) (pre post : List TransactionEnvelope) :
    verdicts bloom (pre ++ post) = verdicts bloom pre ++ verdicts (bloom.afterBatch pre) post := by
  induction pre generalizing bloom with
  | nil => rfl
  | cons env pre ih => exact congrArg (List.cons _) (ih _)

/-- The verdict on an envelope is that of the filter behind the envelopes before it. -/
theorem mem_verdicts {bloom : SlidingBloomFilter β} {batch : List TransactionEnvelope}
    {v : TransactionEnvelope × Bool} (h : v ∈ verdicts bloom batch) :
    ∃ pre post, batch = pre ++ v.1 :: post ∧
      v.2 = (bloom.afterBatch pre).check v.1.messageId := by
  induction batch generalizing bloom with
  | nil => cases h
  | cons env batch ih =>
    rcases List.mem_cons.1 h with rfl | h
    · exact ⟨[], batch, rfl, congrArg Prod.fst (bloom.checkAndAdd_eq env.messageId)⟩
    · obtain ⟨pre, post, hbatch, hseen⟩ := ih h
      exact ⟨env :: pre, post, congrArg (List.cons env) hbatch, hseen⟩

theorem afterBatch_append (bloom : SlidingBloomFilter β) (pre post : List TransactionEnvelope) :
    bloom.afterBatch (pre ++ post) = (bloom.afterBatch pre).afterBatch post :=
  List.foldl_append

/-- A batch is a run of `check_and_add`. -/
theorem afterBatch_eq_exec (bloom : SlidingBloomFilter β) (batch : List TransactionEnvelope) :
    bloom.afterBatch batch = exec SlidingBloomFilter.step bloom
      (batch.map fun env => .checkAndAdd env.messageId) := by
  induction batch generalizing bloom with
  | nil => rfl
  | cons env batch ih => exact ih _

/-- What a batch inserts is reported as seen after it, if the window is longer than the rest of
the batch. -/
theorem check_afterBatch [LawfulBloom β] {f : SlidingBloomFilter β} {env : TransactionEnvelope}
    (hunseen : f.check env.messageId = false) {post : List TransactionEnvelope}
    (hcapacity : post.length < f.capacity) :
    (f.afterBatch (env :: post)).check env.messageId = true := by
  have hinsert : (f.checkAndAdd env.messageId).2 = f.insert env.messageId := by
    rw [f.checkAndAdd_eq, hunseen]
    rfl
  have hpos : 1 ≤ f.capacity := by omega
  have hremembers := remembers_run (Remembers.of_insert hpos env.messageId)
    (by rwa [f.capacity_insert]) (post.map fun env => .checkAndAdd env.messageId)
  show ((f.checkAndAdd env.messageId).2.afterBatch post).check env.messageId = true
  rw [hinsert, afterBatch_eq_exec]
  apply hremembers.check
  have hlength := length_insertedIds_le (f.insert env.messageId)
    (post.map fun env => .checkAndAdd env.messageId)
  rw [List.length_map] at hlength
  rw [SlidingBloomFilter.capacity_exec, f.capacity_insert, List.take_append, List.length_reverse]
  refine List.mem_append_right _ ?_
  rw [List.take_of_length_le (by rw [List.length_singleton]; omega)]
  exact List.mem_singleton_self _

/-! ### The loop of a round -/

theorem forward_eq (recipients : List PeerIdentity) (acc : Forwarding β)
    (env : TransactionEnvelope) :
    (acc.forward recipients env).bloom = (acc.bloom.checkAndAdd env.messageId).2 ∧
      (acc.forward recipients env).sends =
        acc.sends ++ offers recipients env (acc.bloom.checkAndAdd env.messageId).1 ∧
      (acc.forward recipients env).duplicateOrigins = acc.duplicateOrigins ++
        if (acc.bloom.checkAndAdd env.messageId).1 then [env.originPubkey] else [] := by
  unfold Forwarding.forward offers
  obtain ⟨seen, bloom⟩ := acc.bloom.checkAndAdd env.messageId
  cases seen with
  | true => simp
  | false =>
    by_cases httl : env.ttlHops = 0
    · simp [httl]
    · simp [httl, TransactionEnvelope.outbound]

theorem foldl_forward_eq (recipients : List PeerIdentity) (batch : List TransactionEnvelope)
    (acc : Forwarding β) :
    (batch.foldl (Forwarding.forward recipients) acc).bloom = acc.bloom.afterBatch batch ∧
      (batch.foldl (Forwarding.forward recipients) acc).sends = acc.sends ++
        (verdicts acc.bloom batch).flatMap (fun v => offers recipients v.1 v.2) ∧
      (batch.foldl (Forwarding.forward recipients) acc).duplicateOrigins =
        acc.duplicateOrigins ++ duplicateOrigins acc.bloom batch := by
  induction batch generalizing acc with
  | nil => simp [SlidingBloomFilter.afterBatch, verdicts, duplicateOrigins]
  | cons env batch ih =>
    obtain ⟨hbloom, hsends, hduplicates⟩ := forward_eq recipients acc env
    obtain ⟨hbloom', hsends', hduplicates'⟩ := ih (acc.forward recipients env)
    rw [List.foldl_cons]
    refine ⟨?_, ?_, ?_⟩
    · rw [hbloom', hbloom]
      rfl
    · rw [hsends', hsends, hbloom, List.append_assoc]
      rfl
    · rw [hduplicates', hduplicates, hbloom, List.append_assoc]
      unfold duplicateOrigins
      show _ = _ ++ List.map _ (List.filter _ ((env, (acc.bloom.checkAndAdd env.messageId).1) ::
        verdicts (acc.bloom.checkAndAdd env.messageId).2 batch))
      cases (acc.bloom.checkAndAdd env.messageId).1 <;> simp

/-! ### A round -/

variable (fanoutCalc : FanoutCalculator) (s : RoundState β) (i : RoundInput)

theorem calls_executeFanoutRound :
    (executeFanoutRound fanoutCalc s i).1 =
      (verdicts s.bloom (s.batch i)).flatMap fun v =>
        offers (s.recipients fanoutCalc i) v.1 v.2 := by
  unfold executeFanoutRound RoundState.batch
  dsimp only
  split_ifs
  · rfl
  · exact (foldl_forward_eq _ _ _).2.1

theorem bloom_executeFanoutRound :
    (executeFanoutRound fanoutCalc s i).2.bloom = s.bloom.afterBatch (s.batch i) := by
  unfold executeFanoutRound RoundState.batch
  dsimp only
  split_ifs
  · rfl
  · exact (foldl_forward_eq _ _ _).1

theorem peerList_executeFanoutRound :
    (executeFanoutRound fanoutCalc s i).2.peerList =
      (duplicateOrigins s.bloom (s.batch i)).foldl
        (fun pl origin => pl.modifyPeer origin (applyPenalty · .duplicateMessageFlood))
        s.peerList := by
  unfold executeFanoutRound RoundState.batch
  dsimp only
  split_ifs
  · rfl
  · rw [(foldl_forward_eq _ _ _).2.2]
    rfl

/-- What a round takes and what it leaves is what waited. -/
theorem batch_append_iterEnvelopes :
    (s.batch i ++ (executeFanoutRound fanoutCalc s i).2.state.activeQueue.iterEnvelopes).Perm
      s.state.activeQueue.iterEnvelopes := by
  rw [activeQueue_executeFanoutRound]
  unfold RoundState.batch
  split_ifs
  · exact List.Perm.refl _
  · exact s.state.activeQueue.iterEnvelopes_drainBatch fanoutBatchSize i.drainedAt

end Verdicts

end StellarConduit
