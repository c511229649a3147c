import StellarConduit.Gossip.QueueRuns
import StellarConduit.Gossip.State

/-!
# Merging a response again

`handle_sync_response` of `gossip/protocol.rs` adds what a response brings to what waits, without
looking for copies: copies are dropped when they are forwarded.

* `iterEnvelopes_addEnvelopes_eq`: what waits after envelopes were added, also over the capacity;
* `merging_adds`: what it comes to when a response is handled twice, and when message ids stay
  distinct.
-/

namespace StellarConduit

open Verif.Machine

/-! ### Envelopes that are added -/

namespace PriorityQueue

/-- The messages that wait are the envelopes and those of the other tiers. -/
theorem held_eq (q : PriorityQueue) :
    q.held = ↑q.high.messages + ↑(q.iterEnvelopes.map ProtocolMessage.transaction) +
      ↑q.low.messages := by
  rw [held, iterEnvelopes_eq, map_envelopes q.normal.priority_eq]

end PriorityQueue

namespace GossipState

variable (s : GossipState)

theorem length_iterEnvelopes_le : s.activeQueue.iterEnvelopes.length ≤ normalCapacity := by
  have hfits := s.activeQueue.not_exceeded_tier .normal
  rw [MessagePriority.exceeded_normal_iff] at hfits
  rw [PriorityQueue.length_iterEnvelopes]
  exact Nat.not_lt.1 hfits

/-- Envelopes concern the Normal tier only. -/
theorem tiers_addEnvelopes (envs : List TransactionEnvelope) :
    (s.addEnvelopes envs).activeQueue.high = s.activeQueue.high ∧
      (s.addEnvelopes envs).activeQueue.low = s.activeQueue.low := by
  induction envs generalizing s with
  | nil => exact ⟨rfl, rfl⟩
  | cons env envs ih =>
    obtain ⟨hhigh, hlow⟩ := ih (s.addEnvelope env).2
    rw [activeQueue_addEnvelope] at hhigh hlow
    exact ⟨hhigh, hlow⟩

/-- An envelope over the capacity pushes the first one out. -/
theorem iterEnvelopes_addEnvelope (env : TransactionEnvelope) :
    (s.addEnvelope env).2.activeQueue.iterEnvelopes =
      (s.activeQueue.iterEnvelopes ++ [env]).drop
        (s.activeQueue.iterEnvelopes.length + 1 - normalCapacity) := by
  have hle := s.length_iterEnvelopes_le
  rcases Nat.lt_or_ge s.activeQueue.iterEnvelopes.length normalCapacity with hlt | hge
  · rw [activeQueue_addEnvelope, PriorityQueue.iterEnvelopes_push_of_fits _ env hlt,
      Nat.sub_eq_zero_of_le hlt, List.drop_zero]
  · have hpush := s.activeQueue.iterEnvelopes_push (.transaction env)
    have hmore := (s.addEnvelope env).2.length_iterEnvelopes_le
    rw [activeQueue_addEnvelope] at hmore ⊢
    have hone : s.activeQueue.iterEnvelopes.length + 1 - normalCapacity = 1 := by omega
    have henv : envelopes [ProtocolMessage.transaction env] = [env] := rfl
    rw [henv] at hpush
    have hlength := congrArg List.length hpush
    rw [List.length_append, List.length_append, List.length_singleton] at hlength
    have hdropped : (envelopes
        (s.activeQueue.push (.transaction env)).1.toList).length = 1 := by
      have hatMost : (envelopes (s.activeQueue.push (.transaction env)).1.toList).length ≤ 1 := by
        refine (List.length_filterMap_le _ _).trans ?_
        cases (s.activeQueue.push (.transaction env)).1 <;> simp
      omega
    rw [hone, ← hpush, ← hdropped, List.drop_left]

/-- The last envelopes wait, as many as fit. -/
theorem iterEnvelopes_addEnvelopes_eq (envs : List TransactionEnvelope) :
    (s.addEnvelopes envs).activeQueue.iterEnvelopes =
      (s.activeQueue.iterEnvelopes ++ envs).drop
        (s.activeQueue.iterEnvelopes.length + envs.length - normalCapacity) := by
  induction envs generalizing s with
  | nil =>
    have hle := s.length_iterEnvelopes_le
    rw [List.append_nil, List.length_nil, Nat.add_zero, Nat.sub_eq_zero_of_le hle, List.drop_zero]
    rfl
  | cons env envs ih =>
    have hle := s.length_iterEnvelopes_le
    have hrest := ih (s.addEnvelope env).2
    have hone := s.iterEnvelopes_addEnvelope env
    generalize (s.addEnvelope env).2.activeQueue.iterEnvelopes = waiting at hone hrest
    show ((s.addEnvelope env).2.addEnvelopes envs).activeQueue.iterEnvelopes = _
    have hfits : s.activeQueue.iterEnvelopes.length + 1 - normalCapacity ≤
        (s.activeQueue.iterEnvelopes ++ [env]).length := by
      rw [List.length_append, List.length_singleton]
      exact Nat.sub_le _ _
    have htwice : s.activeQueue.iterEnvelopes.length + 1 - normalCapacity +
        (s.activeQueue.iterEnvelopes.length + 1 -
          (s.activeQueue.iterEnvelopes.length + 1 - normalCapacity) + envs.length -
            normalCapacity) =
        s.activeQueue.iterEnvelopes.length + (envs.length + 1) - normalCapacity := by
      omega
    rw [hrest, hone, List.length_drop, List.length_append, List.length_singleton,
      ← List.drop_append_of_le_length hfits, List.drop_drop, List.append_assoc, htwice,
      List.length_cons, List.singleton_append]

end GossipState

/-! ### Handling a response -/

/-- The envelopes that still wait when so many more have been added. -/
def GossipState.remaining (s : GossipState) (added : ℕ) : List TransactionEnvelope :=
  s.activeQueue.iterEnvelopes.drop (s.activeQueue.iterEnvelopes.length + added - normalCapacity)

/-- The message ids of the queue are pairwise distinct. -/
def GossipState.DistinctIds (s : GossipState) : Prop :=
  (s.activeQueue.iterEnvelopes.map TransactionEnvelope.messageId).Nodup

/-- The messages of the queue. -/
abbrev GossipState.messages (s : GossipState) : Multiset ProtocolMessage := s.activeQueue.held

namespace GossipState

section Merging

variable (s : GossipState) {resp : SyncResponse}

/-- A response that is no macro-merge comes behind what remains. -/
theorem iterEnvelopes_handleSyncResponse
    (h : resp.missingEnvelopes.length ≤ macroMergeThreshold) :
    (s.handleSyncResponse resp).activeQueue.iterEnvelopes =
      s.remaining resp.missingEnvelopes.length ++ resp.missingEnvelopes := by
  have hfits : resp.missingEnvelopes.length ≤ normalCapacity :=
    h.trans (by decide)
  rw [s.handleSyncResponse_of_le h, s.iterEnvelopes_addEnvelopes_eq,
    List.drop_append_of_le_length (by omega)]
  rfl

/-- A response changes the envelopes of the queue only. -/
theorem messages_handleSyncResponse :
    (s.handleSyncResponse resp).messages = ↑s.activeQueue.high.messages +
      ↑((s.handleSyncResponse resp).activeQueue.iterEnvelopes.map ProtocolMessage.transaction) +
        ↑s.activeQueue.low.messages := by
  rcases Nat.lt_or_ge macroMergeThreshold resp.missingEnvelopes.length with hlt | hle
  · obtain ⟨hqueue, -⟩ := s.handleSyncResponse_of_lt hlt
    rw [GossipState.messages, hqueue, PriorityQueue.held_eq]
  · obtain ⟨hhigh, hlow⟩ := s.tiers_addEnvelopes resp.missingEnvelopes
    rw [GossipState.messages, PriorityQueue.held_eq, s.handleSyncResponse_of_le hle, hhigh, hlow]

/-- Two queues that differ in their envelopes hold the same messages when these are the same. -/
theorem held_eq_iff {q q' : PriorityQueue} (hhigh : q.high = q'.high) (hlow : q.low = q'.low) :
    q.held = q'.held ↔ q.iterEnvelopes.Perm q'.iterEnvelopes := by
  have hinjective : Function.Injective ProtocolMessage.transaction := by
    intro env env' heq
    injection heq
  rw [PriorityQueue.held_eq, PriorityQueue.held_eq, hhigh, hlow, add_left_inj, add_right_inj,
    ← Multiset.map_coe, ← Multiset.map_coe, (Multiset.map_injective hinjective).eq_iff,
    Multiset.coe_eq_coe]

/-- A list whose first elements moved to its end are others is the same when these are the same. -/
theorem perm_drop_append_iff {α : Type*} (l m : List α) (n : ℕ) :
    (l.drop n ++ m).Perm l ↔ (l.take n).Perm m := by
  constructor
  · intro h
    have hsplit : (l.drop n ++ m).Perm (l.drop n ++ l.take n) := by
      refine h.trans ?_
      conv_lhs => rw [← List.take_append_drop n l]
      exact List.perm_append_comm
    exact ((List.perm_append_left_iff _).1 hsplit).symm
  · intro h
    refine ((List.perm_append_left_iff _).2 h.symm).trans ?_
    conv_rhs => rw [← List.take_append_drop n l]
    exact List.perm_append_comm

/-- Handling a response again leaves the messages as they are when copies push their like out. -/
theorem messages_again_iff (h : resp.missingEnvelopes.length ≤ macroMergeThreshold) :
    let once := s.handleSyncResponse resp
    (once.handleSyncResponse resp).messages = once.messages ↔
      resp.missingEnvelopes = [] ∨
        once.activeQueue.iterEnvelopes.length = normalCapacity ∧
          (once.activeQueue.iterEnvelopes.take resp.missingEnvelopes.length).Perm
            resp.missingEnvelopes := by
  intro once
  obtain ⟨hhigh, hlow⟩ := once.tiers_addEnvelopes resp.missingEnvelopes
  have hfull := once.length_iterEnvelopes_le
  rw [← once.handleSyncResponse_of_le h] at hhigh hlow
  rw [held_eq_iff hhigh hlow, iterEnvelopes_handleSyncResponse _ h, GossipState.remaining,
    perm_drop_append_iff]
  generalize once.activeQueue.iterEnvelopes = waiting at hfull ⊢
  generalize resp.missingEnvelopes = envs at h ⊢
  constructor
  · intro hperm
    have hlength := hperm.length_eq
    rw [List.length_take] at hlength
    -- If something is merged, the lengths agree only in a full queue.
    rcases envs.eq_nil_or_concat with rfl | ⟨init, env, rfl⟩
    · exact .inl rfl
    · rw [List.concat_eq_append, List.length_append, List.length_singleton] at hlength hperm ⊢
      have hsize : waiting.length = normalCapacity := by omega
      refine .inr ⟨hsize, ?_⟩
      rwa [hsize, Nat.add_sub_cancel_left] at hperm
  · rintro (rfl | ⟨hsize, hperm⟩)
    · rw [List.length_nil, Nat.add_zero, Nat.sub_eq_zero_of_le hfull, List.take_zero]
    · rwa [hsize, Nat.add_sub_cancel_left]

/-- Handling a response again brings no other message. -/
theorem messages_again_subset (h : resp.missingEnvelopes.length ≤ macroMergeThreshold)
    {msg : ProtocolMessage}
    (hmsg : msg ∈ ((s.handleSyncResponse resp).handleSyncResponse resp).messages) :
    msg ∈ (s.handleSyncResponse resp).messages := by
  have honce := s.iterEnvelopes_handleSyncResponse h
  have hagain := (s.handleSyncResponse resp).iterEnvelopes_handleSyncResponse h
  obtain ⟨hhigh, hlow⟩ := (s.handleSyncResponse resp).tiers_addEnvelopes resp.missingEnvelopes
  rw [← GossipState.handleSyncResponse_of_le _ h] at hhigh hlow
  have hsubset : ∀ env ∈
      ((s.handleSyncResponse resp).handleSyncResponse resp).activeQueue.iterEnvelopes,
      env ∈ (s.handleSyncResponse resp).activeQueue.iterEnvelopes := by
    intro env henv
    rw [hagain, List.mem_append] at henv
    rcases henv with hbefore | hcopy
    · exact List.mem_of_mem_drop hbefore
    · rw [honce]
      exact List.mem_append_right _ hcopy
  rw [GossipState.messages, PriorityQueue.held_eq] at hmsg ⊢
  rw [hhigh, hlow] at hmsg
  simp only [Multiset.mem_add, Multiset.mem_coe, List.mem_map] at hmsg ⊢
  rcases hmsg with (htop | ⟨env, henv, rfl⟩) | hrest
  · exact .inl (.inl htop)
  · exact .inl (.inr ⟨env, hsubset env henv, rfl⟩)
  · exact .inr hrest

/-- With room for them each envelope is held once more. -/
theorem messages_of_room (h : resp.missingEnvelopes.length ≤ macroMergeThreshold)
    (hroom : s.activeQueue.iterEnvelopes.length + resp.missingEnvelopes.length ≤ normalCapacity) :
    (s.handleSyncResponse resp).messages =
      s.messages + ↑(resp.missingEnvelopes.map ProtocolMessage.transaction) := by
  rw [messages_handleSyncResponse, iterEnvelopes_handleSyncResponse s h, GossipState.remaining,
    Nat.sub_eq_zero_of_le hroom, List.drop_zero, List.map_append, ← Multiset.coe_add,
    GossipState.messages, PriorityQueue.held_eq]
  abel

/-- Message ids stay distinct when the response brings other ones, or is a macro-merge. -/
theorem distinctIds_handleSyncResponse_iff (hids : s.DistinctIds) (resp : SyncResponse) :
    (s.handleSyncResponse resp).DistinctIds ↔
      macroMergeThreshold < resp.missingEnvelopes.length ∨
        (resp.missingEnvelopes.map TransactionEnvelope.messageId).Nodup ∧
          ∀ env ∈ s.remaining resp.missingEnvelopes.length,
            env.messageId ∉ resp.missingEnvelopes.map TransactionEnvelope.messageId := by
  rcases Nat.lt_or_ge macroMergeThreshold resp.missingEnvelopes.length with hlt | hle
  · obtain ⟨hqueue, -⟩ := s.handleSyncResponse_of_lt hlt
    rw [GossipState.DistinctIds, hqueue]
    exact iff_of_true hids (.inl hlt)
  · have hremaining : ((s.remaining resp.missingEnvelopes.length).map
        TransactionEnvelope.messageId).Nodup := by
      rw [GossipState.remaining, List.map_drop]
      exact hids.sublist (List.drop_sublist _ _)
    rw [GossipState.DistinctIds, iterEnvelopes_handleSyncResponse s hle, List.map_append,
      List.nodup_append', or_iff_right (Nat.not_lt.2 hle), and_iff_right hremaining]
    refine and_congr_right fun _ => ?_
    constructor
    · intro hdisjoint env henv hcopy
      exact hdisjoint (List.mem_map_of_mem henv) hcopy
    · intro hother messageId hbefore hcopy
      obtain ⟨env, henv, rfl⟩ := List.mem_map.1 hbefore
      exact hother env henv hcopy

end Merging

end GossipState

/-- A response handled twice brings no message that handling it once did not bring, and a copy of
each of its envelopes: the messages are the same only when the copies push their like out. Message
ids stay distinct when those of the response are, and are not among those that still wait. -/
theorem merging_adds (s : GossipState) (resp : SyncResponse) :
    (resp.missingEnvelopes.length ≤ macroMergeThreshold →
      let once := s.handleSyncResponse resp
      let twice := once.handleSyncResponse resp
      (∀ msg ∈ twice.messages, msg ∈ once.messages) ∧
      (once.activeQueue.iterEnvelopes.length + resp.missingEnvelopes.length ≤ normalCapacity →
        twice.messages =
          once.messages + ↑(resp.missingEnvelopes.map ProtocolMessage.transaction)) ∧
      (twice.messages = once.messages ↔
        resp.missingEnvelopes = [] ∨
          once.activeQueue.iterEnvelopes.length = normalCapacity ∧
            (once.activeQueue.iterEnvelopes.take resp.missingEnvelopes.length).Perm
              resp.missingEnvelopes)) ∧
    (s.DistinctIds →
      ((s.handleSyncResponse resp).DistinctIds ↔
        macroMergeThreshold < resp.missingEnvelopes.length ∨
          (resp.missingEnvelopes.map TransactionEnvelope.messageId).Nodup ∧
            ∀ env ∈ s.remaining resp.missingEnvelopes.length,
              env.messageId ∉ resp.missingEnvelopes.map TransactionEnvelope.messageId)) := by
  constructor
  · intro h once twice
    refine ⟨?_, ?_, s.messages_again_iff h⟩
    · intro msg hmsg
      exact s.messages_again_subset h hmsg
    · intro hroom
      exact once.messages_of_room h hroom
  · intro hids
    exact s.distinctIds_handleSyncResponse_iff hids resp

/-- A new node that handles a response of one envelope, and handles it again. -/
theorem merging_adds_sample :
    let resp : SyncResponse := ⟨[sampleTagged 1]⟩
    let once := GossipState.new.handleSyncResponse resp
    once.DistinctIds ∧ (once.handleSyncResponse resp).messages =
      once.messages + ↑(resp.missingEnvelopes.map ProtocolMessage.transaction) := by
  intro resp once
  obtain ⟨hagain, hids⟩ := merging_adds GossipState.new resp
  have hroom : once.activeQueue.iterEnvelopes.length + resp.missingEnvelopes.length ≤
      normalCapacity := by decide +kernel
  refine ⟨(hids List.nodup_nil).2 (.inr ⟨List.nodup_singleton _, ?_⟩), ?_⟩
  · intro env henv
    exact absurd (List.mem_of_mem_drop henv) List.not_mem_nil
  · exact (hagain (by decide)).2.1 hroom

/-- The queue then holds the envelope twice, and its id is no longer distinct. -/
theorem not_idempotent_sample :
    let resp : SyncResponse := ⟨[sampleTagged 1]⟩
    let once := GossipState.new.handleSyncResponse resp
    let twice := once.handleSyncResponse resp
    resp.missingEnvelopes.length < macroMergeThreshold ∧
      twice.messages ≠ once.messages ∧ once.DistinctIds ∧ ¬twice.DistinctIds := by
  intro resp once twice
  have hcard : Multiset.card twice.messages ≠ Multiset.card once.messages := by decide +kernel
  refine ⟨by decide, ?_, ?_, ?_⟩
  · intro hsame
    exact hcard (congrArg _ hsame)
  · unfold GossipState.DistinctIds
    decide +kernel
  · unfold GossipState.DistinctIds
    decide +kernel

end StellarConduit
