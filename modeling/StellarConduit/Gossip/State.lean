import Mathlib.Algebra.Order.BigOperators.Group.List
import Mathlib.Data.Multiset.OrderedMonoid
import Mathlib.Tactic.Abel
import StellarConduit.Gossip.Intake
import StellarConduit.Gossip.Queue

/-!
# The gossip state and anti-entropy

`GossipState` of `gossip/protocol.rs`: the queue of envelopes to forward, and the backlog of a
macro-merge, from which envelopes are moved to the queue in paced batches.

* `generateSyncRequest`, `handleSyncRequest`, `handleSyncResponse`: one exchange, in which a node
  names the envelopes it has by the first four bytes of their ids;
* `converges_up_to_prefix`: after an exchange the requester has every envelope of the queue of
  the other node whose prefix it did not name;
* `GossipState.step`: the calls on a state, as a machine; `ledger_gossip` books every envelope;
* `conserves_iff`: no envelope disappears exactly when no macro-merge meets a backlog.
-/

namespace StellarConduit

open Verif.Machine

def macroMergeThreshold : ℕ := 500

@[ext]
structure GossipState where
  activeQueue : PriorityQueue
  macroMergeBacklog : List TransactionEnvelope
  deriving DecidableEq

/-- `&message_id[0..4]` -/
def idPrefix4 (messageId : Bytes 32) : Bytes 4 := ⟨messageId.toList.take 4, by simp⟩

namespace GossipState

def new : GossipState := ⟨.new, []⟩

def addEnvelope (s : GossipState) (env : TransactionEnvelope) :
    Except GossipError Unit × GossipState :=
  let (dropped, activeQueue) := s.activeQueue.push (.transaction env)
  let s := { s with activeQueue := activeQueue }
  match dropped with
  | some (.transaction droppedEnv) => (.error (.normalQueueOverflow droppedEnv.messageId), s)
  | _ => (.ok (), s)

/-- The loop that adds envelopes and ignores what becomes of it. -/
def addEnvelopes (s : GossipState) (envs : List TransactionEnvelope) : GossipState :=
  envs.foldl (fun s env => (s.addEnvelope env).2) s

def pendingMacroMergeLen (s : GossipState) : ℕ := s.macroMergeBacklog.length

/-- `process_paced_recovery_batch`: the answer is the number of envelopes moved. -/
def processPacedRecoveryBatch (s : GossipState) : ℕ → ℕ × GossipState
  | 0 => (0, s)
  | n + 1 =>
    match s.macroMergeBacklog with
    | [] => (0, s)
    | env :: backlog =>
      let (_, s) := { s with macroMergeBacklog := backlog }.addEnvelope env
      let (moved, s) := s.processPacedRecoveryBatch n
      (moved + 1, s)

def generateSyncRequest (s : GossipState) : SyncRequest :=
  ⟨s.activeQueue.iterEnvelopes.map fun env => idPrefix4 env.messageId⟩

def handleSyncRequest (s : GossipState) (req : SyncRequest) : SyncResponse :=
  ⟨s.activeQueue.iterEnvelopes.filter fun env =>
    decide (idPrefix4 env.messageId ∉ req.knownMessageIds)⟩

def handleSyncResponse (s : GossipState) (resp : SyncResponse) : GossipState :=
  if resp.missingEnvelopes.length ≤ macroMergeThreshold then
    s.addEnvelopes resp.missingEnvelopes
  else
    let backlog := resp.missingEnvelopes.insertionSort fun a b => a.timestamp ≤ b.timestamp
    { s with macroMergeBacklog := backlog }

end GossipState

/-- The envelopes that are pushed out when envelopes are pushed one after the other. -/
def PriorityQueue.overflow (q : PriorityQueue) : List TransactionEnvelope → List TransactionEnvelope
  | [] => []
  | env :: envs =>
    let (dropped, q) := q.push (.transaction env)
    envelopes dropped.toList ++ q.overflow envs

namespace GossipState

variable (s : GossipState)

@[simp] theorem activeQueue_addEnvelope (env : TransactionEnvelope) :
    (s.addEnvelope env).2.activeQueue = (s.activeQueue.push (.transaction env)).2 := by
  unfold addEnvelope
  dsimp only
  split <;> rfl

@[simp] theorem macroMergeBacklog_addEnvelope (env : TransactionEnvelope) :
    (s.addEnvelope env).2.macroMergeBacklog = s.macroMergeBacklog := by
  unfold addEnvelope
  dsimp only
  split <;> rfl

@[simp] theorem macroMergeBacklog_addEnvelopes (envs : List TransactionEnvelope) :
    (s.addEnvelopes envs).macroMergeBacklog = s.macroMergeBacklog := by
  induction envs generalizing s with
  | nil => rfl
  | cons env envs ih => exact (ih _).trans (s.macroMergeBacklog_addEnvelope env)

/-- What is pushed out and what waits is what waited and what was added. -/
theorem overflow_addEnvelopes (envs : List TransactionEnvelope) :
    s.activeQueue.overflow envs ++ (s.addEnvelopes envs).activeQueue.iterEnvelopes =
      s.activeQueue.iterEnvelopes ++ envs := by
  induction envs generalizing s with
  | nil => simp [PriorityQueue.overflow, addEnvelopes]
  | cons env envs ih =>
    have hpush := s.activeQueue.iterEnvelopes_push (.transaction env)
    have hrest := ih (s.addEnvelope env).2
    rw [activeQueue_addEnvelope] at hrest
    show _ ++ ((s.addEnvelope env).2.addEnvelopes envs).activeQueue.iterEnvelopes = _
    rw [PriorityQueue.overflow, List.append_assoc, hrest, ← List.append_assoc, hpush,
      List.append_assoc]
    rfl

/-- While there is room for all, they come last. -/
theorem iterEnvelopes_addEnvelopes (envs : List TransactionEnvelope)
    (h : s.activeQueue.iterEnvelopes.length + envs.length ≤ normalCapacity) :
    (s.addEnvelopes envs).activeQueue.iterEnvelopes = s.activeQueue.iterEnvelopes ++ envs := by
  induction envs generalizing s with
  | nil => simp [addEnvelopes]
  | cons env envs ih =>
    rw [List.length_cons] at h
    have hone : (s.addEnvelope env).2.activeQueue.iterEnvelopes =
        s.activeQueue.iterEnvelopes ++ [env] := by
      rw [activeQueue_addEnvelope]
      exact s.activeQueue.iterEnvelopes_push_of_fits env (by omega)
    have hrest := ih (s.addEnvelope env).2 (by rw [hone, List.length_append]; simp; omega)
    rw [hone, List.append_assoc] at hrest
    exact hrest

/-- An envelope that is added is in the queue. -/
theorem mem_addEnvelope (env : TransactionEnvelope) :
    env ∈ (s.addEnvelope env).2.activeQueue.iterEnvelopes := by
  rw [activeQueue_addEnvelope, PriorityQueue.iterEnvelopes_eq, mem_envelopes]
  exact s.activeQueue.mem_normal_push env

/-- A paced batch adds the first envelopes of the backlog. -/
theorem processPacedRecoveryBatch_eq (n : ℕ) :
    s.processPacedRecoveryBatch n =
      (min n s.macroMergeBacklog.length,
        { s with macroMergeBacklog := s.macroMergeBacklog.drop n }.addEnvelopes
          (s.macroMergeBacklog.take n)) := by
  induction n generalizing s with
  | zero => simp [processPacedRecoveryBatch, addEnvelopes]
  | succ n ih =>
    obtain ⟨queue, backlog⟩ := s
    rw [processPacedRecoveryBatch]
    cases backlog with
    | nil => rfl
    | cons env backlog =>
      dsimp only
      rw [ih, macroMergeBacklog_addEnvelope]
      refine Prod.ext ?_ ?_
      · simp
      · exact congrArg (GossipState.addEnvelopes · _) (GossipState.ext (by simp) (by simp))

/-- A response that is no macro-merge adds its envelopes. -/
theorem handleSyncResponse_of_le {resp : SyncResponse}
    (h : resp.missingEnvelopes.length ≤ macroMergeThreshold) :
    s.handleSyncResponse resp = s.addEnvelopes resp.missingEnvelopes :=
  if_pos h

/-- A macro-merge replaces the backlog. -/
theorem handleSyncResponse_of_lt {resp : SyncResponse}
    (h : macroMergeThreshold < resp.missingEnvelopes.length) :
    (s.handleSyncResponse resp).activeQueue = s.activeQueue ∧
      (s.handleSyncResponse resp).macroMergeBacklog.Perm resp.missingEnvelopes := by
  unfold handleSyncResponse
  rw [if_neg (by omega)]
  exact ⟨rfl, List.perm_insertionSort _ _⟩

/-- After a macro-merge the backlog is not empty. -/
theorem backlog_ne_nil_of_lt {resp : SyncResponse}
    (h : macroMergeThreshold < resp.missingEnvelopes.length) :
    (s.handleSyncResponse resp).macroMergeBacklog ≠ [] := by
  have hlength := (s.handleSyncResponse_of_lt h).2.length_eq
  intro hnil
  rw [hnil, List.length_nil] at hlength
  omega

/-- A response does not empty the backlog. -/
theorem backlog_handleSyncResponse_ne_nil {resp : SyncResponse} (h : s.macroMergeBacklog ≠ []) :
    (s.handleSyncResponse resp).macroMergeBacklog ≠ [] := by
  rcases Nat.lt_or_ge macroMergeThreshold resp.missingEnvelopes.length with hlt | hle
  · exact s.backlog_ne_nil_of_lt hlt
  · rwa [s.handleSyncResponse_of_le hle, s.macroMergeBacklog_addEnvelopes]

theorem mem_handleSyncRequest {req : SyncRequest} {env : TransactionEnvelope} :
    env ∈ (s.handleSyncRequest req).missingEnvelopes ↔
      env ∈ s.activeQueue.iterEnvelopes ∧ idPrefix4 env.messageId ∉ req.knownMessageIds := by
  unfold handleSyncRequest
  rw [List.mem_filter, decide_eq_true_iff]

theorem mem_generateSyncRequest {p : Bytes 4} :
    p ∈ s.generateSyncRequest.knownMessageIds ↔
      ∃ env ∈ s.activeQueue.iterEnvelopes, idPrefix4 env.messageId = p :=
  List.mem_map

end GossipState

/-! ### Anti-entropy -/

/-- **Anti-entropy up to prefixes.**  If the envelopes of both queues fit into one, then after an
exchange the requester `B` has every envelope of the queue of `A`, in its queue or its backlog,
unless it already had one with the same prefix.  It still has the envelopes of its own queue,
and, if the response is no macro-merge, its backlog. -/
theorem converges_up_to_prefix (A B : GossipState)
    (hfits : A.activeQueue.iterEnvelopes.length + B.activeQueue.iterEnvelopes.length ≤
      normalCapacity) :
    let resp := A.handleSyncRequest B.generateSyncRequest
    let B' := B.handleSyncResponse resp
    (∀ env ∈ A.activeQueue.iterEnvelopes,
      (∀ own ∈ B.activeQueue.iterEnvelopes, idPrefix4 own.messageId ≠ idPrefix4 env.messageId) →
        env ∈ B'.activeQueue.iterEnvelopes ∨ env ∈ B'.macroMergeBacklog) ∧
      (∀ own ∈ B.activeQueue.iterEnvelopes, own ∈ B'.activeQueue.iterEnvelopes) ∧
      (resp.missingEnvelopes.length ≤ macroMergeThreshold →
        B'.macroMergeBacklog = B.macroMergeBacklog) := by
  intro resp B'
  have hsent : ∀ env ∈ A.activeQueue.iterEnvelopes,
      (∀ own ∈ B.activeQueue.iterEnvelopes, idPrefix4 own.messageId ≠ idPrefix4 env.messageId) →
        env ∈ resp.missingEnvelopes := by
    intro env henv hnone
    refine (A.mem_handleSyncRequest).2 ⟨henv, fun hknown => ?_⟩
    obtain ⟨own, hown, heq⟩ := B.mem_generateSyncRequest.1 hknown
    exact hnone own hown heq
  -- A large response waits in the backlog, a small one is merged and fits.
  rcases Nat.lt_or_ge macroMergeThreshold resp.missingEnvelopes.length with hlt | hle
  · obtain ⟨hqueue, hbacklog⟩ := B.handleSyncResponse_of_lt hlt
    refine ⟨fun env henv hnone => Or.inr ?_, fun own hown => ?_, fun hle => ?_⟩
    · exact hbacklog.mem_iff.2 (hsent env henv hnone)
    · rwa [hqueue]
    · omega
  · have hlength : resp.missingEnvelopes.length ≤ A.activeQueue.iterEnvelopes.length :=
      List.length_filter_le _ _
    have hadd := B.iterEnvelopes_addEnvelopes resp.missingEnvelopes (by omega)
    have hB' : B' = B.addEnvelopes resp.missingEnvelopes := B.handleSyncResponse_of_le hle
    rw [← hB'] at hadd
    rw [hadd]
    refine ⟨fun env henv hnone => Or.inl ?_, fun own hown => ?_, fun _ => ?_⟩
    · exact List.mem_append_right _ (hsent env henv hnone)
    · exact List.mem_append_left _ hown
    · rw [hB', GossipState.macroMergeBacklog_addEnvelopes]

/-- An envelope with a message id of 31 zeros and one byte. -/
def sampleTagged (tag : UInt8) : TransactionEnvelope :=
  { (sampleForged 0).envelope with
    messageId := ⟨List.replicate 31 0 ++ [tag], by simp⟩ }

/-- The hypothesis holds of two nodes with an envelope each. -/
theorem converges_up_to_prefix_sample :
    let A := (GossipState.new.addEnvelope (sampleForged 0).envelope).2
    let B := (GossipState.new.addEnvelope (sampleTagged 0)).2
    (sampleForged 0).envelope ∈ (B.handleSyncResponse
      (A.handleSyncRequest B.generateSyncRequest)).activeQueue.iterEnvelopes := by
  intro A B
  have hA : (sampleForged 0).envelope ∈ A.activeQueue.iterEnvelopes := by decide +kernel
  have hB : ∀ own ∈ B.activeQueue.iterEnvelopes,
      idPrefix4 own.messageId ≠ idPrefix4 (sampleForged 0).envelope.messageId := by decide +kernel
  obtain ⟨hconverges, -⟩ := converges_up_to_prefix A B (by decide +kernel)
  refine (hconverges _ hA hB).resolve_right ?_
  decide +kernel

/-- An envelope whose prefix the requester names for another one is not sent. -/
theorem hidden_by_prefix_sample :
    let A := (GossipState.new.addEnvelope (sampleTagged 1)).2
    let B := (GossipState.new.addEnvelope (sampleTagged 2)).2
    let B' := B.handleSyncResponse (A.handleSyncRequest B.generateSyncRequest)
    A.activeQueue.iterEnvelopes.length + B.activeQueue.iterEnvelopes.length < normalCapacity ∧
      sampleTagged 1 ∈ A.activeQueue.iterEnvelopes ∧
      sampleTagged 1 ∉ B'.activeQueue.iterEnvelopes ∧
      sampleTagged 1 ∉ B'.macroMergeBacklog := by
  decide +kernel

/-! ### The calls on a gossip state -/

inductive GossipInput
  | addEnvelope (env : TransactionEnvelope)
  | handleSyncResponse (resp : SyncResponse)
  | processPacedRecoveryBatch (batchSize : ℕ)
  | drainBatch (batchSize : ℕ) (now : UInt64)
  /-- `push` and `pop` on the public field `active_queue` -/
  | push (msg : ProtocolMessage)
  | pop

inductive GossipOutput
  | added (result : Except GossipError Unit)
  | merged
  | moved (n : ℕ)
  | drained (batch : List ProtocolMessage)
  | pushed (dropped : Option ProtocolMessage)
  | popped (msg : Option ProtocolMessage)

def GossipState.step (s : GossipState) : GossipInput → GossipOutput × GossipState
  | .addEnvelope env =>
    let (result, s) := s.addEnvelope env
    (.added result, s)
  | .handleSyncResponse resp => (.merged, s.handleSyncResponse resp)
  | .processPacedRecoveryBatch batchSize =>
    let (moved, s) := s.processPacedRecoveryBatch batchSize
    (.moved moved, s)
  | .drainBatch batchSize now =>
    let (batch, activeQueue) := s.activeQueue.drainBatch batchSize now
    (.drained batch, { s with activeQueue := activeQueue })
  | .push msg =>
    let (dropped, activeQueue) := s.activeQueue.push msg
    (.pushed dropped, { s with activeQueue := activeQueue })
  | .pop =>
    let (msg, activeQueue) := s.activeQueue.pop
    (.popped msg, { s with activeQueue := activeQueue })

abbrev GossipEvent := Event GossipState GossipInput GossipOutput

/-- The envelopes that a call puts in. -/
def putIn : GossipInput → Multiset TransactionEnvelope
  | .addEnvelope env => ↑[env]
  | .handleSyncResponse resp => ↑resp.missingEnvelopes
  | .push msg => ↑(envelopes [msg])
  | _ => 0

/-- The envelopes that a call returns. -/
def takenOut (e : GossipEvent) : Multiset TransactionEnvelope :=
  match e.output with
  | .drained batch => ↑(envelopes batch)
  | .popped msg => ↑(envelopes msg.toList)
  | _ => 0

/-- The envelopes that a call pushes out of the Normal tier. -/
def overflowed (e : GossipEvent) : Multiset TransactionEnvelope :=
  match e.input with
  | .addEnvelope env => ↑(e.before.activeQueue.overflow [env])
  | .handleSyncResponse resp =>
    if resp.missingEnvelopes.length ≤ macroMergeThreshold then
      ↑(e.before.activeQueue.overflow resp.missingEnvelopes)
    else 0
  | .processPacedRecoveryBatch batchSize =>
    ↑(e.before.activeQueue.overflow (e.before.macroMergeBacklog.take batchSize))
  | .push msg => ↑(envelopes (e.before.activeQueue.push msg).1.toList)
  | _ => 0

/-- The envelopes of the backlog that a macro-merge replaces. -/
def replaced (e : GossipEvent) : Multiset TransactionEnvelope :=
  match e.input with
  | .handleSyncResponse resp =>
    if resp.missingEnvelopes.length ≤ macroMergeThreshold then 0 else ↑e.before.macroMergeBacklog
  | _ => 0

/-- The envelopes in the queue and in the backlog. -/
def GossipState.held (s : GossipState) : Multiset TransactionEnvelope :=
  ↑s.activeQueue.iterEnvelopes + ↑s.macroMergeBacklog

theorem GossipState.held_addEnvelopes (s : GossipState) (envs : List TransactionEnvelope) :
    s.held + ↑envs = (s.addEnvelopes envs).held + ↑(s.activeQueue.overflow envs) := by
  have h := congrArg Multiset.ofList (s.overflow_addEnvelopes envs)
  rw [← Multiset.coe_add, ← Multiset.coe_add] at h
  rw [held, held, s.macroMergeBacklog_addEnvelopes, add_right_comm, ← h]
  abel

/-- **The book of the envelopes.**  What comes in is held, taken out, pushed out or replaced. -/
theorem ledger_gossip :
    Ledger GossipState.step GossipState.held (fun e => putIn e.input)
      fun e => takenOut e + overflowed e + replaced e := by
  intro s i
  cases i with
  | addEnvelope env =>
    show s.held + ↑[env] = (s.addEnvelopes [env]).held + (0 + ↑(s.activeQueue.overflow [env]) + 0)
    rw [s.held_addEnvelopes [env], zero_add, add_zero]
  | handleSyncResponse resp =>
    show s.held + ↑resp.missingEnvelopes = (s.handleSyncResponse resp).held +
      (0 + (if resp.missingEnvelopes.length ≤ macroMergeThreshold then
          ↑(s.activeQueue.overflow resp.missingEnvelopes) else 0) +
        if resp.missingEnvelopes.length ≤ macroMergeThreshold then 0 else ↑s.macroMergeBacklog)
    rcases Nat.lt_or_ge macroMergeThreshold resp.missingEnvelopes.length with hlt | hle
    · obtain ⟨hqueue, hbacklog⟩ := s.handleSyncResponse_of_lt hlt
      rw [if_neg (by omega), if_neg (by omega), GossipState.held, GossipState.held, hqueue,
        Multiset.coe_eq_coe.2 hbacklog]
      abel
    · rw [if_pos hle, if_pos hle, s.handleSyncResponse_of_le hle, s.held_addEnvelopes, zero_add,
        add_zero]
  | processPacedRecoveryBatch batchSize =>
    show s.held + 0 = (s.processPacedRecoveryBatch batchSize).2.held +
      (0 + ↑(s.activeQueue.overflow (s.macroMergeBacklog.take batchSize)) + 0)
    have hmoved := { s with
      macroMergeBacklog := s.macroMergeBacklog.drop batchSize }.held_addEnvelopes
        (s.macroMergeBacklog.take batchSize)
    -- The batch moves from the backlog to the queue, where it may push others out.
    have hsplit : s.held = { s with
        macroMergeBacklog := s.macroMergeBacklog.drop batchSize }.held +
          ↑(s.macroMergeBacklog.take batchSize) := by
      have hbacklog := congrArg Multiset.ofList
        (List.take_append_drop batchSize s.macroMergeBacklog)
      rw [← Multiset.coe_add] at hbacklog
      rw [GossipState.held, GossipState.held, ← hbacklog]
      abel
    rw [s.processPacedRecoveryBatch_eq, add_zero, zero_add, add_zero, hsplit, hmoved]
  | drainBatch batchSize now =>
    have h := s.activeQueue.iterEnvelopes_drainBatch batchSize now
    show s.held + 0 = ↑(s.activeQueue.drainBatch batchSize now).2.iterEnvelopes +
      ↑s.macroMergeBacklog + (↑(envelopes (s.activeQueue.drainBatch batchSize now).1) + 0 + 0)
    rw [GossipState.held, ← Multiset.coe_eq_coe.2 h, ← Multiset.coe_add]
    abel
  | push msg =>
    have h := congrArg Multiset.ofList (s.activeQueue.iterEnvelopes_push msg)
    rw [← Multiset.coe_add, ← Multiset.coe_add] at h
    show s.held + ↑(envelopes [msg]) = ↑(s.activeQueue.push msg).2.iterEnvelopes +
      ↑s.macroMergeBacklog + (0 + ↑(envelopes (s.activeQueue.push msg).1.toList) + 0)
    rw [GossipState.held, add_right_comm, ← h]
    abel
  | pop =>
    have h := congrArg Multiset.ofList s.activeQueue.iterEnvelopes_pop
    rw [← Multiset.coe_add] at h
    show s.held + 0 = ↑s.activeQueue.pop.2.iterEnvelopes + ↑s.macroMergeBacklog +
      (↑(envelopes s.activeQueue.pop.1.toList) + 0 + 0)
    rw [GossipState.held, ← h]
    abel

/-! ### Conservation -/

/-- After the calls, what was put in is what is held, what was returned and what was pushed out
of the Normal tier. -/
def Conserves (is : List GossipInput) : Prop :=
  (is.map putIn).sum =
    ↑(exec GossipState.step .new is).activeQueue.iterEnvelopes +
      ↑(exec GossipState.step .new is).macroMergeBacklog +
      ((trace GossipState.step .new is).map takenOut).sum +
      ((trace GossipState.step .new is).map overflowed).sum

/-- Nothing is lost but what was replaced. -/
theorem conserves_iff_replaced (is : List GossipInput) :
    Conserves is ↔ ((trace GossipState.step .new is).map replaced).sum = 0 := by
  have hbook := ledger_gossip.exec GossipState.new is
  have hnew : GossipState.new.held = 0 := rfl
  rw [hnew, zero_add, map_of_input_trace, List.sum_map_add, List.sum_map_add, ← add_assoc,
    ← add_assoc] at hbook
  unfold Conserves
  rw [hbook, GossipState.held]
  exact add_eq_left

/-- **Conservation.**  Over a run of calls every envelope is accounted for if and only if no
macro-merge is handled while envelopes wait in the backlog. -/
theorem conserves_iff (is : List GossipInput) :
    Conserves is ↔
      ∀ e ∈ trace GossipState.step .new is, ∀ resp, e.input = .handleSyncResponse resp →
        macroMergeThreshold < resp.missingEnvelopes.length → e.before.macroMergeBacklog = [] := by
  rw [conserves_iff_replaced, List.sum_eq_zero_iff]
  simp only [List.mem_map, forall_exists_index, and_imp, forall_apply_eq_imp_iff₂]
  refine forall₂_congr fun e _ => ?_
  obtain ⟨before, input, output⟩ := e
  cases input with
  | handleSyncResponse resp =>
    rcases Nat.lt_or_ge macroMergeThreshold resp.missingEnvelopes.length with hlt | hle
    · have hnle : ¬ resp.missingEnvelopes.length ≤ macroMergeThreshold := by omega
      simp [replaced, hnle, hlt]
    · have hnlt : ¬ macroMergeThreshold < resp.missingEnvelopes.length := by omega
      simp [replaced, hle, hnlt]
  | _ => simp [replaced]

/-- Of two macro-merges, the second replaces what came with the first. -/
theorem not_conserves_of_macroMerges {resp resp' : SyncResponse}
    (h : macroMergeThreshold < resp.missingEnvelopes.length)
    (h' : macroMergeThreshold < resp'.missingEnvelopes.length) :
    ¬ Conserves [.handleSyncResponse resp, .handleSyncResponse resp'] := by
  rw [conserves_iff_replaced]
  intro hzero
  have hsecond := List.sum_eq_zero_iff.1 hzero _ (List.mem_map_of_mem
    (event_mem_trace [GossipInput.handleSyncResponse resp] (.handleSyncResponse resp') []))
  have hnil : (GossipState.new.handleSyncResponse resp).macroMergeBacklog = [] := by
    simpa [replaced, GossipState.step, Nat.not_le.2 h'] using hsecond
  obtain ⟨-, hbacklog⟩ := GossipState.new.handleSyncResponse_of_lt h
  rw [hnil] at hbacklog
  have hlength := hbacklog.length_eq
  rw [List.length_nil] at hlength
  omega

/-- The failing input: two responses of 501 envelopes. -/
theorem not_conserves_sample :
    ¬ Conserves
      [.handleSyncResponse ⟨List.replicate 501 (sampleTagged 1)⟩,
        .handleSyncResponse ⟨List.replicate 501 (sampleTagged 2)⟩] := by
  have hlength : ∀ tag, macroMergeThreshold < (List.replicate 501 (sampleTagged tag)).length := by
    intro tag
    rw [List.length_replicate]
    decide
  exact not_conserves_of_macroMerges (hlength 1) (hlength 2)

end StellarConduit
