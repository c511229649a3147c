import StellarConduit.Relay.Node

/-!
# Which transactions a relay node submits, and how often

Runs of `process_envelope`, with arbitrary envelopes and arbitrary answers of the RPC client.

* `at_most_once_of_completes`: once a submission was accepted, an id is not submitted again,
  provided every accepted submission is followed by answers that allow a proof; a step
  without them resubmits when it is repeated;
* `submissions_eq`: when all RPC calls succeed, the cache alone decides, and the history of
  ids says what it holds;
* `only_authentic_iff`: what is submitted verifies exactly when every envelope does whose id
  is not cached.
-/

namespace StellarConduit.RelayNode

open Verif Verif.Machine

variable {C : Crypto} {β σ : Type} [Bloom β (Bytes 32)] [LruCache σ (Bytes 32) RelayChainProof]

/-- The ids for which the events of a run hand out a proof, in order. -/
def provenIds (events : List (Event (RelayNode C β σ) RelayInput Outcome)) : List (Bytes 32) :=
  events.flatMap fun e => if e.output.result.isOk then [e.input.envelope.messageId] else []

section Runs

variable (hexDecode : String → Except String (List UInt8)) {node : RelayNode C β σ}

theorem mem_of_mem_provenIds {is : List RelayInput} {id : Bytes 32}
    (h : id ∈ provenIds (trace (processEnvelope hexDecode) node is)) :
    id ∈ is.map fun i => i.envelope.messageId := by
  obtain ⟨e, he, hid⟩ := List.mem_flatMap.1 h
  obtain ⟨pre, i, post, rfl, rfl⟩ := mem_trace he
  split_ifs at hid with hok
  · rw [List.mem_singleton.1 hid]
    exact List.mem_map.2 ⟨i, by simp, rfl⟩
  · cases hid

variable [LawfulLruCache σ (Bytes 32) RelayChainProof]

theorem cap_exec (is : List RelayInput) :
    LruCache.cap (exec (processEnvelope hexDecode) node is).deduplicator.resultCache =
      LruCache.cap node.deduplicator.resultCache :=
  exec_invariant
    (fun n : RelayNode C β σ => LruCache.cap n.deduplicator.resultCache =
      LruCache.cap node.deduplicator.resultCache)
    (fun n i _ h => (n.step_processEnvelope hexDecode i).cap_eq.trans h) rfl

/-- The cache follows the ids for which the run hands out a proof. -/
theorem follows_exec {ks : List (Bytes 32)}
    (h : Lru.Follows node.deduplicator.resultCache ks) (is : List RelayInput) :
    Lru.Follows (exec (processEnvelope hexDecode) node is).deduplicator.resultCache
      (ks ++ provenIds (trace (processEnvelope hexDecode) node is)) := by
  induction is generalizing node ks with
  | nil =>
    show Lru.Follows _ (ks ++ [])
    rw [List.append_nil]
    exact h
  | cons i is ih =>
    rw [exec_cons, trace_cons, provenIds, List.flatMap_cons, ← List.append_assoc]
    exact ih ((node.step_processEnvelope hexDecode i).follows h)

/-- After a run from a node with an empty cache, a proof is cached for an id exactly when one
was handed out for it recently. -/
theorem check_exec_eq_none_iff (h : Lru.Follows node.deduplicator.resultCache [])
    (is : List RelayInput) (id : Bytes 32) :
    ((exec (processEnvelope hexDecode) node is).deduplicator.check id).1 = none ↔
      ¬ Lru.UsedWithin (LruCache.cap node.deduplicator.resultCache)
        (provenIds (trace (processEnvelope hexDecode) node is)) id := by
  have hfollows := follows_exec hexDecode h is
  rw [RelayDeduplicator.check_fst_eq_none_iff, hfollows.mem_keys_iff, cap_exec, List.nil_append]

end Runs

/-! ### Sample runs -/

/-- A node of the transparent scheme, with caches that are lists. -/
abbrev SampleNode :=
  RelayNode Crypto.transparent (ExactFilter (Bytes 32)) (ListLru (Bytes 32) RelayChainProof)

def sampleNode (capacity : ℕ) : SampleNode := new capacity sampleKey Metrics.new

/-- Every submission is accepted, and the hashes are hashes. -/
def sampleRpc (getLedgerSequence : Except RpcError UInt64) : Rpc where
  submitTransaction _ := .ok "abababababababababababababababababababababababababababababababab"
  getLedgerSequence := getLedgerSequence
  getLedgerHash := .ok "cdcdcdcdcdcdcdcdcdcdcdcdcdcdcdcdcdcdcdcdcdcdcdcdcdcdcdcdcdcdcdcd"

/-- An envelope with a placeholder signature. -/
def sampleInput (id : UInt8) (getLedgerSequence : Except RpcError UInt64) : RelayInput where
  envelope :=
    { messageId := List.Vector.replicate 32 id
      originPubkey := List.Vector.replicate 32 2
      txXdr := "AAAAAQAAAAAAAAAA"
      ttlHops := 10
      timestamp := 1672531200
      signature := List.Vector.replicate 64 3 }
  peer := none
  rpc := sampleRpc getLedgerSequence

/-- All calls of the RPC client succeed, and the hashes are hashes. -/
def RpcSucceeds (hexDecode : String → Except String (List UInt8)) (rpc : Rpc) : Prop :=
  ∃ txHash, rpc.submitTransaction 1 = .ok txHash ∧ ProofObtainable hexDecode rpc txHash

theorem sampleRpc_succeeds (sequence : UInt64) :
    RpcSucceeds sampleHexDecode (sampleRpc (.ok sequence)) := by
  refine ⟨_, rfl, ⟨List.Vector.replicate 32 0xab, by decide +kernel⟩, ⟨sequence, rfl⟩, _,
    List.Vector.replicate 32 0xcd, rfl, by decide +kernel⟩

/-! ### Failures after the submission -/

section Failures

variable (hexDecode : String → Except String (List UInt8)) (node : RelayNode C β σ)

/-- Either a proof is cached for the envelope, or, if its submission is accepted, the answers
after it allow a proof. -/
def Completes (i : RelayInput) : Prop :=
  (node.deduplicator.check i.envelope.messageId).1 ≠ none ∨
    ∀ txHash, SubmissionAccepted node.retryConfig.maxAttempts i.rpc txHash →
      ProofObtainable hexDecode i.rpc txHash

/-- Once a submission was accepted, no later step with the same message id submits. -/
def AtMostOnceAfterOk (is : List RelayInput) : Prop :=
  (trace (processEnvelope hexDecode) node is).Pairwise fun e₁ e₂ =>
    e₁.input.envelope.messageId = e₂.input.envelope.messageId →
      e₁.output.Accepted → ¬ e₂.output.Submits

variable {hexDecode node} {i : RelayInput}

theorem result_of_completes (h : Completes hexDecode node i)
    (haccepted : (processEnvelope hexDecode node i).1.Accepted) :
    (processEnvelope hexDecode node i).1.result.isOk := by
  have hstep := node.step_processEnvelope hexDecode i
  obtain ⟨hcache, txHash, htx⟩ := hstep.accepted_iff.1 haccepted
  rcases h with hcached | hproof
  · exact absurd hcache hcached
  · obtain ⟨proof, hresult⟩ := hstep.result_eq_ok_iff.2 (Or.inr ⟨txHash, htx, hproof txHash htx⟩)
    rw [hresult]
    rfl

theorem accepted_of_not_completes (h : ¬ Completes hexDecode node i) :
    (processEnvelope hexDecode node i).1.Accepted ∧
      ∃ e, (processEnvelope hexDecode node i).1.result = .error e := by
  have hstep := node.step_processEnvelope hexDecode i
  unfold Completes at h
  push Not at h
  obtain ⟨hcache, txHash, htx, hproof⟩ := h
  refine ⟨hstep.accepted_iff.2 ⟨hcache, txHash, htx⟩, ?_⟩
  cases hresult : (processEnvelope hexDecode node i).1.result with
  | error e => exact ⟨e, rfl⟩
  | ok proof =>
    rcases hstep.result_eq_ok_iff.1 ⟨proof, hresult⟩ with hcached | ⟨txHash', htx', hproof'⟩
    · exact absurd hcache hcached
    · rw [htx'.unique htx] at hproof'
      exact absurd hproof' hproof

variable [LawfulLruCache σ (Bytes 32) RelayChainProof]

/-- A step without the answers for a proof submits again when it is repeated. -/
theorem not_atMostOnceAfterOk_of_not_completes (pre : List RelayInput)
    (h : ¬ Completes hexDecode (exec (processEnvelope hexDecode) node pre) i) :
    ¬ AtMostOnceAfterOk hexDecode node (pre ++ [i, i]) := by
  intro hpairwise
  obtain ⟨haccepted, e, he⟩ := accepted_of_not_completes h
  have hstep := (exec (processEnvelope hexDecode) node pre).step_processEnvelope hexDecode i
  have hcache := (hstep.accepted_iff.1 haccepted).1
  rw [AtMostOnceAfterOk, trace_append, trace_cons, trace_cons, trace_nil] at hpairwise
  have htwice := List.pairwise_iff_forall_sublist.1 hpairwise (List.sublist_append_right _ _)
  refine htwice rfl haccepted ((step_processEnvelope hexDecode _ i).submits_iff.2 ?_)
  -- The failed step has left the cache as it was.
  rw [RelayDeduplicator.check_fst_eq_none_iff] at hcache ⊢
  rw [hstep.deduplicator_of_error he, RelayDeduplicator.check_snd_resultCache, Lru.keys,
    Lru.iter_get_of_notMem hcache]
  exact hcache

/-- **At most once, failures included.**  In a run over fewer ids than the capacity whose
steps all complete, no id is submitted again after an accepted submission.  A step of the
run that does not complete is submitted again when it is repeated. -/
theorem at_most_once_of_completes (capacity : ℕ) (signingKey : C.SigningKey)
    (metrics : Metrics) (retryConfig : RetryConfig) (is : List RelayInput)
    (hfew : (is.map fun i => i.envelope.messageId).toFinset.card < capacity) :
    let node : RelayNode C β σ := (new capacity signingKey metrics).withRetryConfig retryConfig
    ((∀ e ∈ trace (processEnvelope hexDecode) node is,
        Completes hexDecode e.before e.input) → AtMostOnceAfterOk hexDecode node is) ∧
      ∀ pre i post, is = pre ++ i :: post →
        ¬ Completes hexDecode (exec (processEnvelope hexDecode) node pre) i →
          ¬ AtMostOnceAfterOk hexDecode node (pre ++ [i, i]) := by
  intro node
  refine ⟨fun hcompletes => pairwise_trace ?_, fun pre i _ _ h =>
    not_atMostOnceAfterOk_of_not_completes pre h⟩
  intro pre i mid j post hsplit hid haccepted hsubmits
  have hcache := (step_processEnvelope hexDecode _ j).submits_iff.1 hsubmits
  have hnew : Lru.Follows node.deduplicator.resultCache [] := Lru.follows_new _
  refine (check_exec_eq_none_iff hexDecode hnew (pre ++ i :: mid) _).1 hcache ?_
  -- The first step has handed out a proof, so its id is in the history.
  have hcompleted := hcompletes _ (hsplit ▸ event_mem_trace pre i (mid ++ j :: post))
  have hmem : j.envelope.messageId ∈
      provenIds (trace (processEnvelope hexDecode) node (pre ++ i :: mid)) := by
    refine List.mem_flatMap.2 ⟨_, event_mem_trace pre i mid, ?_⟩
    rw [if_pos (result_of_completes hcompleted haccepted)]
    exact List.mem_singleton.2 hid.symm
  refine (Lru.usedWithin_iff_mem ?_).2 hmem
  rw [cap_new]
  refine lt_of_le_of_lt (Finset.card_le_card fun id hid' => ?_)
    (lt_of_lt_of_le hfew (RelayDeduplicator.le_cacheCapacity capacity))
  have hin := mem_of_mem_provenIds hexDecode (List.mem_toFinset.1 hid')
  rw [hsplit, List.mem_toFinset, List.map_append]
  rw [List.map_append, List.map_cons] at hin
  simp only [List.mem_append, List.mem_cons, List.map_cons, List.map_append] at hin ⊢
  tauto

end Failures

/-- Sequence numbers arrive, so the run over one id twice meets the condition. -/
theorem at_most_once_of_completes_sample :
    AtMostOnceAfterOk sampleHexDecode
      ((sampleNode 2).withRetryConfig RetryConfig.default)
      [sampleInput 1 (.ok 42), sampleInput 1 (.ok 43)] := by
  refine (at_most_once_of_completes (C := Crypto.transparent) 2 sampleKey Metrics.new
    RetryConfig.default [sampleInput 1 (.ok 42), sampleInput 1 (.ok 43)] (by decide)).1
      fun e he => Or.inr ?_
  intro txHash haccepted
  obtain ⟨pre, i, post, hsplit, rfl⟩ := mem_trace he
  have hi : i ∈ [sampleInput 1 (.ok 42), sampleInput 1 (.ok 43)] := by
    rw [hsplit]
    exact List.mem_append_right pre List.mem_cons_self
  have hsucceeds : RpcSucceeds sampleHexDecode i.rpc := by
    simp only [List.mem_cons, List.not_mem_nil, or_false] at hi
    rcases hi with rfl | rfl <;> exact sampleRpc_succeeds _
  obtain ⟨txHash', hfirst, hproof⟩ := hsucceeds
  rwa [haccepted.unique (.first hfirst _)]

/-- The ledger does not answer after the first submission, and the retry submits again. -/
theorem resubmitted_sample :
    ¬ AtMostOnceAfterOk sampleHexDecode (sampleNode 3)
      [sampleInput 1 (.error (.timeout 1000)), sampleInput 1 (.error (.timeout 1000))] := by
  refine not_atMostOnceAfterOk_of_not_completes [] ?_
  rintro (hcached | hproof)
  · exact hcached rfl
  · obtain ⟨-, ⟨sequence, hsequence⟩, -⟩ := hproof _ (.first rfl _)
    cases hsequence

/-! ### Calls that succeed -/

/-- How often `submit_transaction` is called in a run for envelopes with a given id. -/
def submissionCount (hexDecode : String → Except String (List UInt8)) (node : RelayNode C β σ)
    (is : List RelayInput) (id : Bytes 32) : ℕ :=
  (((trace (processEnvelope hexDecode) node is).filter fun e =>
    e.input.envelope.messageId = id).map fun e =>
      e.output.calls.countP RpcCall.isSubmission).sum

section Success

variable {hexDecode : String → Except String (List UInt8)} {node : RelayNode C β σ}

theorem result_of_succeeds {i : RelayInput} (h : RpcSucceeds hexDecode i.rpc) :
    (processEnvelope hexDecode node i).1.result.isOk := by
  obtain ⟨txHash, hfirst, hproof⟩ := h
  obtain ⟨proof, hresult⟩ := (node.step_processEnvelope hexDecode i).result_eq_ok_iff.2
    (Or.inr ⟨txHash, .first hfirst _, hproof⟩)
  rw [hresult]
  rfl

theorem provenIds_of_succeeds {is : List RelayInput}
    (h : ∀ i ∈ is, RpcSucceeds hexDecode i.rpc) :
    provenIds (trace (processEnvelope hexDecode) node is) =
      is.map fun i => i.envelope.messageId := by
  induction is generalizing node with
  | nil => rfl
  | cons i is ih =>
    have hi := h i List.mem_cons_self
    rw [trace_cons, provenIds, List.flatMap_cons, if_pos (result_of_succeeds hi)]
    exact congrArg (i.envelope.messageId :: ·)
      (ih fun j hj => h j (List.mem_cons_of_mem i hj))

/-- **Calls that succeed.**  After a run whose RPC calls succeed, an envelope whose calls
succeed is submitted once, or not at all: not at all when its id was processed and fewer
than the capacity of the cache were processed since. -/
theorem submissions_eq [LawfulLruCache σ (Bytes 32) RelayChainProof] (capacity : ℕ)
    (signingKey : C.SigningKey) (metrics : Metrics) (retryConfig : RetryConfig)
    (is : List RelayInput) (i : RelayInput)
    (hok : ∀ j ∈ is ++ [i], RpcSucceeds hexDecode j.rpc) :
    let node : RelayNode C β σ := (new capacity signingKey metrics).withRetryConfig retryConfig
    (processEnvelope hexDecode (exec (processEnvelope hexDecode) node is) i).1.calls.countP
        RpcCall.isSubmission =
      if Lru.UsedWithin (RelayDeduplicator.cacheCapacity capacity)
        (is.map fun j => j.envelope.messageId) i.envelope.messageId then 0 else 1 := by
  intro node
  have his : ∀ j ∈ is, RpcSucceeds hexDecode j.rpc := fun j hj =>
    hok j (List.mem_append_left _ hj)
  obtain ⟨txHash, hfirst, -⟩ := hok i (by simp)
  have hnew : Lru.Follows node.deduplicator.resultCache [] := Lru.follows_new _
  have hcheck := check_exec_eq_none_iff hexDecode hnew is i.envelope.messageId
  rw [cap_new, provenIds_of_succeeds his] at hcheck
  rw [(step_processEnvelope hexDecode _ i).countP_isSubmission hfirst]
  by_cases hused : Lru.UsedWithin (RelayDeduplicator.cacheCapacity capacity)
      (is.map fun j => j.envelope.messageId) i.envelope.messageId
  · rw [if_pos hused, if_neg fun hnone => hcheck.1 hnone hused]
  · rw [if_neg hused, if_pos (hcheck.2 hused)]

end Success

/-- The equation, for a cache of one proof that has dropped the first one. -/
theorem submissions_eq_sample :
    (processEnvelope sampleHexDecode (exec (processEnvelope sampleHexDecode)
        ((sampleNode 1).withRetryConfig RetryConfig.default)
        [sampleInput 1 (.ok 42), sampleInput 2 (.ok 43)])
        (sampleInput 1 (.ok 44))).1.calls.countP RpcCall.isSubmission =
      if Lru.UsedWithin (RelayDeduplicator.cacheCapacity 1)
        [List.Vector.replicate 32 1, List.Vector.replicate 32 2]
        (List.Vector.replicate 32 1 : Bytes 32) then 0 else 1 := by
  refine submissions_eq (C := Crypto.transparent) 1 sampleKey Metrics.new RetryConfig.default
    [sampleInput 1 (.ok 42), sampleInput 2 (.ok 43)] (sampleInput 1 (.ok 44)) fun j hj => ?_
  simp only [List.cons_append, List.nil_append, List.mem_cons, List.not_mem_nil, or_false] at hj
  rcases hj with rfl | rfl | rfl <;> exact sampleRpc_succeeds _

/-- With a cache of one proof, an id that comes back after another one is submitted twice. -/
theorem resubmitted_after_eviction :
    (∀ i ∈ [sampleInput 1 (.ok 42), sampleInput 2 (.ok 43), sampleInput 1 (.ok 44)],
        RpcSucceeds sampleHexDecode i.rpc) ∧
      submissionCount sampleHexDecode (sampleNode 1)
        [sampleInput 1 (.ok 42), sampleInput 2 (.ok 43), sampleInput 1 (.ok 44)]
        (List.Vector.replicate 32 1) = 2 := by
  refine ⟨fun i hi => ?_, by decide +kernel⟩
  simp only [List.mem_cons, List.not_mem_nil, or_false] at hi
  rcases hi with rfl | rfl | rfl <;> exact sampleRpc_succeeds _

/-! ### Authenticity -/

/-- Only transactions of envelopes that verify are submitted. -/
def OnlyAuthentic (hexDecode : String → Except String (List UInt8)) (node : RelayNode C β σ)
    (is : List RelayInput) : Prop :=
  ∀ e ∈ trace (processEnvelope hexDecode) node is, ∀ answer,
    RpcCall.submitTransaction e.input.envelope.txXdr answer ∈ e.output.calls →
      verifySignature C e.input.envelope = .ok true

/-- **Authenticity of submissions.**  Only transactions of envelopes that verify are
submitted in a run exactly when every envelope that arrives without a cached proof verifies. -/
theorem only_authentic_iff (hexDecode : String → Except String (List UInt8))
    (node : RelayNode C β σ) (is : List RelayInput) :
    OnlyAuthentic hexDecode node is ↔
      ∀ e ∈ trace (processEnvelope hexDecode) node is,
        (e.before.deduplicator.check e.input.envelope.messageId).1 = none →
          verifySignature C e.input.envelope = .ok true := by
  constructor
  · intro h e he hcache
    obtain ⟨pre, i, post, hsplit, rfl⟩ := mem_trace he
    obtain ⟨answer, hanswer⟩ := (step_processEnvelope hexDecode _ i).exists_submission hcache
    exact h _ he answer hanswer
  · intro h e he answer hanswer
    obtain ⟨pre, i, post, hsplit, rfl⟩ := mem_trace he
    exact h _ he ((step_processEnvelope hexDecode _ i).submits_iff.1 ⟨_, hanswer, rfl⟩)

/-- The signature of the sample envelope is a placeholder; its transaction is submitted. -/
theorem not_onlyAuthentic_sample :
    verifySignature Crypto.transparent (sampleInput 1 (.ok 42)).envelope =
        .error .invalidSignature ∧
      ¬ OnlyAuthentic sampleHexDecode (sampleNode 3) [sampleInput 1 (.ok 42)] := by
  have hforged : verifySignature Crypto.transparent (sampleInput 1 (.ok 42)).envelope =
      .error .invalidSignature := by decide
  refine ⟨hforged, fun h => ?_⟩
  obtain ⟨answer, hanswer⟩ := (step_processEnvelope sampleHexDecode (sampleNode 3)
    (sampleInput 1 (.ok 42))).exists_submission rfl
  have hverify := h _ (event_mem_trace [] (sampleInput 1 (.ok 42)) []) answer hanswer
  cases hforged.symm.trans hverify

end StellarConduit.RelayNode
