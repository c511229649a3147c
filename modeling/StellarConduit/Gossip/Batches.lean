import StellarConduit.Gossip.Merging

/-!
# Batches

Two calls move messages in batches: `drain_batch` of `gossip/queue.rs` takes the most urgent
messages off the Normal tier, and `process_paced_recovery_batch` of `gossip/protocol.rs` moves the
oldest envelopes of a macro-merge behind it.

* `PriorityQueue.drained`: what a sequence of `drain_batch` calls returns;
* `drainBatch_most_urgent`: a batch has the most urgent messages of the tier, and a sequence of
  batches is one batch of their total size;
* `GossipState.recovered`: the state after a sequence of paced batches; `paced_recovery` is what
  they have moved.
-/

namespace StellarConduit

open Verif Verif.Machine MessagePriority

/-! ### Taking the most urgent -/

/-- The messages that a call returns from `drain_batch`. -/
def QueueOutput.batch : QueueOutput → List ProtocolMessage
  | .drained batch => batch
  | _ => []

namespace PriorityQueue

variable (q : PriorityQueue) (now : UInt64)

/-- What the calls of `drain_batch` with these sizes return, in sequence. -/
def drained (sizes : List ℕ) : List ProtocolMessage :=
  (outputs step q (sizes.map (QueueInput.drainBatch · now))).flatMap QueueOutput.batch

theorem drained_cons (k : ℕ) (sizes : List ℕ) :
    q.drained now (k :: sizes) =
      (q.drainBatch k now).1 ++ (q.drainBatch k now).2.drained now sizes :=
  rfl

@[simp] theorem drainBatch_zero : q.drainBatch 0 now = ([], q) := if_pos rfl

theorem length_byUrgency : (q.byUrgency now).length = q.normal.messages.length :=
  (sortByKey_perm _ _).length_eq

/-- A batch is the first messages of the tier in the order of their urgency. -/
theorem drainBatch_eq_take (k : ℕ) : (q.drainBatch k now).1 = (q.byUrgency now).take k := by
  by_cases hk : k = 0
  · rw [hk, drainBatch_zero, List.take_zero]
  · rw [drainBatch, if_neg hk]
    show (q.byUrgency now).take (min k (q.byUrgency now).length) = _
    rw [← List.take_take, List.take_length]

/-- The order of the urgency does not change when the most urgent messages are taken. -/
theorem byUrgency_drainBatch (k : ℕ) :
    (q.drainBatch k now).2.byUrgency now = (q.byUrgency now).drop k := by
  by_cases hk : k = 0
  · rw [hk, drainBatch_zero, List.drop_zero]
  · have hsorted : ((q.byUrgency now).drop k).Pairwise
        fun msg msg' => urgencyScore now msg' ≤ urgencyScore now msg :=
      (pairwise_sortByKey (urgencyScore now) q.normal.messages).drop
    rw [byUrgency, q.normal_drainBatch, if_neg hk]
    exact sortByKey_of_pairwise _ hsorted

/-- Batches one after the other are one batch. -/
theorem drained_eq_take (sizes : List ℕ) :
    q.drained now sizes = (q.byUrgency now).take sizes.sum := by
  induction sizes generalizing q with
  | nil => rfl
  | cons k sizes ih =>
    rw [drained_cons, ih, byUrgency_drainBatch, drainBatch_eq_take, List.sum_cons, List.take_add]

/-- A batch and what it leaves are the tier in the order of its urgency. -/
theorem stablySorted_drainBatch {k : ℕ} (hk : k ≠ 0) :
    StablySorted (fun score score' => score' ≤ score) (urgencyScore now) q.normal.messages
      ((q.drainBatch k now).1 ++ (q.drainBatch k now).2.normal.messages) := by
  rw [q.drainBatch_append hk]
  exact stablySorted_sortByKey _ _

end PriorityQueue

/-- **The most urgent.**  A `drain_batch` of size `k` returns `min k n` messages, the most urgent
first; none that it leaves is more urgent than one that it returns. Unless `k` is zero, what it
returns and what it leaves are together the tier in the order of the urgency, ties as they stood;
if `k` is zero the tier is as it was. Several batches at one clock reading are one of their total
size. -/
theorem drainBatch_most_urgent (q : PriorityQueue) (now : UInt64) :
    (∀ k,
      let batch := (q.drainBatch k now).1
      let after := (q.drainBatch k now).2
      batch.length = min k q.normal.messages.length ∧
        (batch.Pairwise fun msg msg' => urgencyScore now msg' ≤ urgencyScore now msg) ∧
        (∀ msg ∈ batch, ∀ left ∈ after.normal.messages,
          urgencyScore now left ≤ urgencyScore now msg) ∧
        (k ≠ 0 → StablySorted (fun score score' => score' ≤ score) (urgencyScore now)
          q.normal.messages (batch ++ after.normal.messages)) ∧
        (k = 0 → after = q) ∧ after.high = q.high ∧ after.low = q.low) ∧
      ∀ sizes, q.drained now sizes = (q.drainBatch sizes.sum now).1 := by
  constructor
  · intro k batch after
    have hsorted := pairwise_sortByKey (urgencyScore now) q.normal.messages
    have hbatch : batch = (q.byUrgency now).take k := q.drainBatch_eq_take now k
    obtain ⟨-, hhigh, hlow⟩ := q.drainBatch_spec k now
    refine ⟨?_, ?_, ?_, fun hk => q.stablySorted_drainBatch now hk, ?_, hhigh, hlow⟩
    · rw [hbatch, List.length_take, PriorityQueue.length_byUrgency]
    · rw [hbatch]
      exact hsorted.take
    -- The batch and what is left are one sorted list, cut in two.
    · intro msg hmsg left hleft
      have hk : k ≠ 0 := by
        rintro rfl
        rw [hbatch, List.take_zero] at hmsg
        cases hmsg
      have hall := (q.stablySorted_drainBatch now hk).pairwise
      exact (List.pairwise_append.1 hall).2.2 msg hmsg left hleft
    · rintro rfl
      exact congrArg Prod.snd (q.drainBatch_zero now)
  · intro sizes
    rw [q.drained_eq_take, q.drainBatch_eq_take]

/-- Two messages wait, the more urgent one behind the other. -/
def sampleUnsorted : PriorityQueue :=
  let q := (PriorityQueue.new.push (.transaction { sampleTagged 1 with ttlHops := 15 })).2
  (q.push (.transaction { sampleTagged 2 with ttlHops := 1 })).2

/-- Batches of one, none and one message are a batch of two, and a batch of one is in order. -/
theorem drainBatch_most_urgent_sample :
    StablySorted (fun score score' => score' ≤ score) (urgencyScore 0)
        sampleUnsorted.normal.messages
        ((sampleUnsorted.drainBatch 1 0).1 ++ (sampleUnsorted.drainBatch 1 0).2.normal.messages) ∧
      sampleUnsorted.drained 0 [1, 0, 1] = (sampleUnsorted.drainBatch 2 0).1 := by
  obtain ⟨hbatch, hdrained⟩ := drainBatch_most_urgent sampleUnsorted 0
  exact ⟨(hbatch 1).2.2.2.1 (by decide), hdrained [1, 0, 1]⟩

/-- A batch of size zero leaves the less urgent message in front of the more urgent one. -/
theorem drainBatch_zero_sample :
    ¬ StablySorted (fun score score' => score' ≤ score) (urgencyScore 0)
        sampleUnsorted.normal.messages
        ((sampleUnsorted.drainBatch 0 0).1 ++
          (sampleUnsorted.drainBatch 0 0).2.normal.messages) := by
  intro hsorted
  have hscores : sampleUnsorted.normal.messages.map (urgencyScore 0) = [1, 15] := by
    decide +kernel
  have hdescending : (sampleUnsorted.normal.messages.map (urgencyScore 0)).Pairwise
      fun score score' => score' ≤ score := List.pairwise_map.2 hsorted.pairwise
  rw [hscores] at hdescending
  exact absurd hdescending (by decide)

/-! ### Recovering in paces -/

/-- The messages of the Normal tier are the envelopes that wait. -/
theorem PriorityQueue.normal_eq_map (q : PriorityQueue) :
    q.normal.messages = q.iterEnvelopes.map ProtocolMessage.transaction := by
  rw [q.iterEnvelopes_eq, map_envelopes q.normal.priority_eq]

namespace GossipState

variable (s : GossipState)

/-- The state after paced batches of these sizes. -/
def recovered (sizes : List ℕ) : GossipState :=
  exec step s (sizes.map GossipInput.processPacedRecoveryBatch)

/-- The first `n` envelopes of the backlog have moved behind what waited. -/
structure Moved (n : ℕ) (s' : GossipState) : Prop where
  iterEnvelopes : s'.activeQueue.iterEnvelopes =
    s.activeQueue.iterEnvelopes ++ s.macroMergeBacklog.take n
  backlog : s'.macroMergeBacklog = s.macroMergeBacklog.drop n
  high : s'.activeQueue.high = s.activeQueue.high
  low : s'.activeQueue.low = s.activeQueue.low

/-- There is room in the Normal tier for the first `n` envelopes of the backlog. -/
def RoomFor (n : ℕ) : Prop :=
  s.activeQueue.iterEnvelopes.length + min n s.macroMergeBacklog.length ≤ normalCapacity

variable {s}

theorem Moved.refl : s.Moved 0 s := ⟨by simp, rfl, rfl, rfl⟩

theorem Moved.trans {s' s'' : GossipState} {n n' : ℕ} (h : s.Moved n s') (h' : s'.Moved n' s'') :
    s.Moved (n + n') s'' where
  iterEnvelopes := by
    rw [h'.iterEnvelopes, h.iterEnvelopes, h.backlog, List.append_assoc, List.take_add]
  backlog := by rw [h'.backlog, h.backlog, List.drop_drop]
  high := h'.high.trans h.high
  low := h'.low.trans h.low

/-- Room for what moves is room for it now, and for the others afterwards. -/
theorem RoomFor.of_moved {s' : GossipState} {n n' : ℕ} (h : s.RoomFor (n + n'))
    (hmoved : s.Moved n s') : s'.RoomFor n' := by
  unfold RoomFor at h ⊢
  rw [hmoved.iterEnvelopes, hmoved.backlog, List.length_append, List.length_take,
    List.length_drop]
  omega

/-- What one paced batch moves. -/
theorem moved_processPacedRecoveryBatch {n : ℕ} (h : s.RoomFor n) :
    s.Moved n (s.processPacedRecoveryBatch n).2 := by
  rw [s.processPacedRecoveryBatch_eq]
  unfold RoomFor at h
  obtain ⟨hhigh, hlow⟩ := { s with
    macroMergeBacklog := s.macroMergeBacklog.drop n }.tiers_addEnvelopes
      (s.macroMergeBacklog.take n)
  refine ⟨?_, macroMergeBacklog_addEnvelopes _ _, hhigh, hlow⟩
  refine iterEnvelopes_addEnvelopes _ _ ?_
  rwa [List.length_take]

/-- What paced batches move, one after the other. -/
theorem moved_recovered {sizes : List ℕ} (h : s.RoomFor sizes.sum) :
    s.Moved sizes.sum (s.recovered sizes) := by
  induction sizes generalizing s with
  | nil => exact Moved.refl
  | cons n sizes ih =>
    rw [List.sum_cons] at h ⊢
    have hfirst : s.RoomFor n := by
      unfold RoomFor at h ⊢
      omega
    have hone := moved_processPacedRecoveryBatch hfirst
    exact hone.trans (ih (h.of_moved hone))

variable (s) in
/-- A macro-merge sets the response aside, in the order of the timestamps. -/
theorem stablySorted_handleSyncResponse {resp : SyncResponse}
    (h : macroMergeThreshold < resp.missingEnvelopes.length) :
    StablySorted (fun t t' => t ≤ t') TransactionEnvelope.timestamp resp.missingEnvelopes
      (s.handleSyncResponse resp).macroMergeBacklog := by
  have : Std.Total fun t t' : UInt64 => t ≤ t' := ⟨UInt64.le_total⟩
  have : IsTrans UInt64 fun t t' => t ≤ t' := ⟨fun _ _ _ => UInt64.le_trans⟩
  unfold handleSyncResponse
  rw [if_neg (Nat.not_le.2 h)]
  exact stablySorted_insertionSort (fun t t' => t ≤ t') TransactionEnvelope.timestamp _

end GossipState

/-- **Paced recovery.**  After a response that is a macro-merge, each paced batch moves as many
envelopes as it may, or as are left. While the Normal tier has room for them, those that have moved
are the first of the response in the order of their timestamps, ties as they stood, behind what
waited before; when the sizes add up to the length of the response, all have moved once. -/
theorem paced_recovery (s : GossipState) (resp : SyncResponse)
    (hmerge : macroMergeThreshold < resp.missingEnvelopes.length) :
    ∃ sorted, StablySorted (fun t t' => t ≤ t') TransactionEnvelope.timestamp
        resp.missingEnvelopes sorted ∧
      ∀ sizes : List ℕ,
        s.activeQueue.normal.messages.length + min sizes.sum resp.missingEnvelopes.length ≤
          normalCapacity →
        let handled := s.handleSyncResponse resp
        let after := handled.recovered sizes
        (∀ e ∈ trace GossipState.step handled (sizes.map .processPacedRecoveryBatch),
          ∀ b, e.input = .processPacedRecoveryBatch b →
            e.output = .moved (min b e.before.pendingMacroMergeLen)) ∧
        after.activeQueue.normal.messages =
          s.activeQueue.normal.messages ++ (sorted.take sizes.sum).map .transaction ∧
        after.macroMergeBacklog = sorted.drop sizes.sum ∧
        after.activeQueue.high = s.activeQueue.high ∧ after.activeQueue.low = s.activeQueue.low ∧
        (resp.missingEnvelopes.length ≤ sizes.sum →
          after.activeQueue.normal.messages =
              s.activeQueue.normal.messages ++ sorted.map .transaction ∧
            after.pendingMacroMergeLen = 0) := by
  have hsorted := s.stablySorted_handleSyncResponse hmerge
  refine ⟨_, hsorted, ?_⟩
  intro sizes hroom handled after
  have hlength := hsorted.perm.length_eq
  have hqueue : handled.activeQueue = s.activeQueue := (s.handleSyncResponse_of_lt hmerge).1
  -- The response was too large for the queue, which is as it was before.
  have hfits : handled.RoomFor sizes.sum := by
    unfold GossipState.RoomFor
    rwa [hqueue, hlength, PriorityQueue.length_iterEnvelopes]
  have hmoved := GossipState.moved_recovered hfits
  have hnormal : after.activeQueue.normal.messages = s.activeQueue.normal.messages ++
      (handled.macroMergeBacklog.take sizes.sum).map .transaction := by
    rw [PriorityQueue.normal_eq_map, hmoved.iterEnvelopes, hqueue, List.map_append,
      ← PriorityQueue.normal_eq_map]
  refine ⟨?_, hnormal, hmoved.backlog, hmoved.high.trans (congrArg _ hqueue),
    hmoved.low.trans (congrArg _ hqueue), fun hall => ⟨?_, ?_⟩⟩
  · rintro e he b hinput
    obtain ⟨pre, i, post, -, rfl⟩ := mem_trace he
    cases hinput
    exact congrArg (GossipOutput.moved ·.1) (GossipState.processPacedRecoveryBatch_eq _ b)
  · rw [hnormal, List.take_of_length_le (hlength.trans_le hall)]
  · show after.macroMergeBacklog.length = 0
    rw [hmoved.backlog, List.drop_eq_nil_of_le (hlength.trans_le hall), List.length_nil]

/-- A response of one envelope more than the threshold, in three batches, one of them empty. -/
theorem paced_recovery_sample :
    let resp : SyncResponse := ⟨List.replicate 501 (sampleTagged 1)⟩
    let after := (GossipState.new.handleSyncResponse resp).recovered [250, 0, 300]
    after.pendingMacroMergeLen = 0 ∧ after.activeQueue.normal.messages.length = 501 := by
  intro resp after
  have hlength : resp.missingEnvelopes.length = 501 := List.length_replicate
  obtain ⟨sorted, hsorted, hmoved⟩ := paced_recovery GossipState.new resp (by
    rw [hlength]
    decide)
  have hroom : GossipState.new.activeQueue.normal.messages.length +
      min [250, 0, 300].sum resp.missingEnvelopes.length ≤ normalCapacity := by
    rw [hlength]
    decide
  obtain ⟨-, -, -, -, -, hall⟩ := hmoved [250, 0, 300] hroom
  obtain ⟨hnormal, hbacklog⟩ := hall (by rw [hlength]; decide)
  refine ⟨hbacklog, ?_⟩
  rw [hnormal, List.length_append, List.length_map, hsorted.perm.length_eq, hlength]
  rfl

end StellarConduit
