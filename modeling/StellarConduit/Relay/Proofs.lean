import StellarConduit.Relay.Submission

/-!
# The proofs a relay node hands out

Runs of `process_envelope` from a new node, with arbitrary envelopes and arbitrary answers of
the RPC client.

* `acceptedHashes_submitLoop`: the retry loop ends with the one submission that is accepted;
* `lastAccepted`: the hash that the latest accepted submission for an id answered with;
* `Attested`: what a proof is about; `attested_exec` says that all cached proofs are about the
  latest accepted submission for their id;
* `verify_of_result`: a proof that is handed out verifies for that transaction.
-/

namespace StellarConduit

open Verif Verif.Machine

/-! ### Accepted submissions -/

/-- The transaction hash that an accepted submission answers with. -/
def RpcCall.acceptedHash : RpcCall → Option String
  | .submitTransaction _ (.ok txHash) => some txHash
  | _ => none

theorem RpcCall.acceptedHash_of_not_isSubmission {call : RpcCall}
    (h : call.isSubmission = false) : call.acceptedHash = none := by
  cases call with
  | submitTransaction txXdr answer => cases h
  | getLedgerSequence answer => rfl
  | getLedgerHash answer => rfl

/-- The transaction hashes that the accepted submissions among the calls answer with. -/
def acceptedHashes (calls : List RpcCall) : List String := calls.filterMap RpcCall.acceptedHash

/-- The retry loop stops at the first submission that is accepted. -/
theorem acceptedHashes_submitLoop (maxAttempts : UInt32) (rpc : Rpc) (txXdr : String)
    (attempt : ℕ) (metrics : Metrics) :
    acceptedHashes (submitLoop maxAttempts rpc txXdr attempt metrics).2.2 =
      (submitLoop maxAttempts rpc txXdr attempt metrics).1.toOption.toList := by
  fun_induction submitLoop maxAttempts rpc txXdr attempt metrics with
  | case1 attempt metrics answer call hash hanswer =>
    simp [acceptedHashes, call, hanswer, RpcCall.acceptedHash, Except.toOption]
  | case2 attempt metrics answer call reason hanswer =>
    simp [acceptedHashes, call, hanswer, RpcCall.acceptedHash, Except.toOption]
  | case3 attempt metrics answer call e hne hanswer hstop =>
    simp [acceptedHashes, call, hanswer, RpcCall.acceptedHash, Except.toOption]
  | case4 attempt metrics answer call e hne hanswer hgo result metrics' calls heq ih =>
    rw [heq] at ih
    have hcall : call.acceptedHash = none := by
      simp only [call, hanswer, RpcCall.acceptedHash]
    rw [acceptedHashes, List.filterMap_cons_none hcall]
    exact ih

namespace RelayNode

variable {C : Crypto} {β σ : Type}

theorem acceptedHashes_submitWithRetry (node : RelayNode C β σ) (rpc : Rpc) (txXdr : String) :
    acceptedHashes (node.submitWithRetry rpc txXdr).2.2 =
      (node.submitWithRetry rpc txXdr).1.toOption.toList :=
  acceptedHashes_submitLoop _ rpc txXdr 0 _

theorem acceptedHashes_proveInclusion (hexDecode : String → Except String (List UInt8))
    (node : RelayNode C β σ) (rpc : Rpc) (txHash : String) :
    acceptedHashes (node.proveInclusion hexDecode rpc txHash).2 = [] := by
  refine List.filterMap_eq_nil_iff.2 fun call hcall => ?_
  exact call.acceptedHash_of_not_isSubmission
    (node.not_isSubmission_of_mem_proveInclusion hexDecode rpc txHash call hcall)

/-- The transaction hash that the latest accepted submission for an id answered with. -/
def lastAccepted (events : List (Event (RelayNode C β σ) RelayInput Outcome)) (id : Bytes 32) :
    Option String :=
  (events.flatMap fun e =>
    if e.input.envelope.messageId = id then acceptedHashes e.output.calls else []).getLast?

section LastAccepted

variable (events : List (Event (RelayNode C β σ) RelayInput Outcome))
  (e : Event (RelayNode C β σ) RelayInput Outcome)

theorem lastAccepted_concat (id : Bytes 32) :
    lastAccepted (events ++ [e]) id =
      if e.input.envelope.messageId = id then
        (acceptedHashes e.output.calls).getLast?.or (lastAccepted events id)
      else lastAccepted events id := by
  simp only [lastAccepted, List.flatMap_append, List.flatMap_cons, List.flatMap_nil,
    List.append_nil, List.getLast?_append]
  split_ifs
  · rfl
  · rw [List.getLast?_nil, Option.none_or]

/-- An event that has no accepted submission for an id does not count for it. -/
theorem lastAccepted_concat_of_not {id : Bytes 32}
    (h : e.input.envelope.messageId = id → acceptedHashes e.output.calls = []) :
    lastAccepted (events ++ [e]) id = lastAccepted events id := by
  rw [lastAccepted_concat]
  split_ifs with hid
  · rw [h hid, List.getLast?_nil, Option.none_or]
  · rfl

theorem lastAccepted_concat_self {txHash : String}
    (h : acceptedHashes e.output.calls = [txHash]) :
    lastAccepted (events ++ [e]) e.input.envelope.messageId = some txHash := by
  rw [lastAccepted_concat, if_pos rfl, h, List.getLast?_singleton, Option.some_or]

end LastAccepted

/-! ### What the proofs are about -/

/-- The proof is a signature of the transaction of the latest accepted submission for the id. -/
def Attested (hexDecode : String → Except String (List UInt8)) (signingKey : C.SigningKey)
    (events : List (Event (RelayNode C β σ) RelayInput Outcome)) (id : Bytes 32)
    (proof : RelayChainProof) : Prop :=
  ∃ txHash txId chainHash sequence, lastAccepted events id = some txHash ∧
    decodeHash32 hexDecode txHash "transaction hash" = .ok txId ∧
      proof = .sign C signingKey txId chainHash sequence

variable {hexDecode : String → Except String (List UInt8)} {signingKey : C.SigningKey}
  {events : List (Event (RelayNode C β σ) RelayInput Outcome)}

/-- An event without an accepted submission for the id leaves a proof attested. -/
theorem Attested.concat {id : Bytes 32} {proof : RelayChainProof}
    (h : Attested hexDecode signingKey events id proof)
    {e : Event (RelayNode C β σ) RelayInput Outcome}
    (hnone : e.input.envelope.messageId = id → acceptedHashes e.output.calls = []) :
    Attested hexDecode signingKey (events ++ [e]) id proof := by
  obtain ⟨txHash, txId, chainHash, sequence, hlast, hdecode, hproof⟩ := h
  refine ⟨txHash, txId, chainHash, sequence, ?_, hdecode, hproof⟩
  rw [lastAccepted_concat_of_not events e hnone, hlast]

variable [LruCache σ (Bytes 32) RelayChainProof] {node : RelayNode C β σ} {i : RelayInput}

/-- All cached proofs are attested, by a node with this key. -/
structure CacheAttested (hexDecode : String → Except String (List UInt8))
    (signingKey : C.SigningKey) (events : List (Event (RelayNode C β σ) RelayInput Outcome))
    (node : RelayNode C β σ) : Prop where
  signingKey_eq : node.signingKey = signingKey
  entries : ∀ entry ∈ LruCache.iter node.deduplicator.resultCache,
    Attested hexDecode signingKey events entry.1 entry.2

variable [LawfulLruCache σ (Bytes 32) RelayChainProof]

/-- The entries of the cache after a lookup, under an event that follows it. -/
theorem CacheAttested.lookup (h : CacheAttested hexDecode signingKey events node)
    {e : Event (RelayNode C β σ) RelayInput Outcome}
    (hnone : ∀ entry ∈ LruCache.iter node.deduplicator.resultCache,
      e.input.envelope.messageId = entry.1 → acceptedHashes e.output.calls = []) :
    ∀ entry ∈ LruCache.iter
      (node.deduplicator.check i.envelope.messageId).2.resultCache,
        Attested hexDecode signingKey (events ++ [e]) entry.1 entry.2 := by
  intro entry hentry
  have hbefore := Lru.mem_iter_of_mem_get hentry
  exact (h.entries entry hbefore).concat (hnone entry hbefore)

variable [Bloom β (Bytes 32)]

/-- **One step.**  Cached proofs stay attested, and a proof that is handed out is. -/
theorem CacheAttested.step (h : CacheAttested hexDecode signingKey events node)
    {out : Outcome × RelayNode C β σ} (hstep : Step hexDecode node i out) :
    CacheAttested hexDecode signingKey (events ++ [⟨node, i, out.1⟩]) out.2 ∧
      ∀ proof, out.1.result = .ok proof → Attested hexDecode signingKey
        (events ++ [⟨node, i, out.1⟩]) i.envelope.messageId proof := by
  have hkey := hstep.signingKey_eq.trans h.signingKey_eq
  -- Without a cached proof, no entry is for the id that is processed.
  have hother (hcache : (node.deduplicator.check i.envelope.messageId).1 = none) :
      ∀ entry ∈ LruCache.iter node.deduplicator.resultCache,
        i.envelope.messageId ≠ entry.1 := by
    intro entry hentry hid
    refine (RelayDeduplicator.check_fst_eq_none_iff _ _).1 hcache ?_
    rw [hid]
    exact List.mem_map_of_mem hentry
  cases hstep with
  | cached proof hcache =>
    constructor
    · exact ⟨hkey, h.lookup fun _ _ _ => rfl⟩
    · intro proof' hproof'
      obtain rfl := Except.ok.inj hproof'
      exact (h.entries _ (Lru.mem_iter_of_get hcache)).concat fun _ => rfl
  | notAccepted e metrics hcache hsubmit =>
    constructor
    · exact ⟨hkey, h.lookup fun entry hentry hid => absurd hid (hother hcache entry hentry)⟩
    · intro proof hproof
      cases hproof
  | notProven txHash e metrics hcache hsubmit hprove =>
    constructor
    · exact ⟨hkey, h.lookup fun entry hentry hid => absurd hid (hother hcache entry hentry)⟩
    · intro proof hproof
      cases hproof
  | proven txHash proof metrics hcache hsubmit hprove =>
    obtain ⟨txId, sequence, -, chainHash, hdecode, -, -, -, hproof⟩ :=
      (proveInclusion_fst_eq_ok hexDecode node i.rpc txHash proof).1 hprove
    have haccepted : acceptedHashes ((node.submitWithRetry i.rpc i.envelope.txXdr).2.2 ++
        (node.proveInclusion hexDecode i.rpc txHash).2) = [txHash] := by
      rw [acceptedHashes, List.filterMap_append]
      show acceptedHashes _ ++ acceptedHashes _ = _
      rw [acceptedHashes_submitWithRetry, acceptedHashes_proveInclusion, hsubmit]
      rfl
    have hnew := lastAccepted_concat_self events
      ⟨node, i, ⟨.ok proof, i.peer.map (applyReward · .successfullyRoutedTx), _⟩⟩ haccepted
    rw [h.signingKey_eq] at hproof
    constructor
    · refine ⟨hkey, fun entry hentry => ?_⟩
      rcases Lru.mem_iter_of_mem_put hentry with rfl | ⟨hold, hne⟩
      · exact ⟨txHash, txId, chainHash, sequence, hnew, hdecode, hproof⟩
      · refine h.lookup ?_ entry hold
        intro entry' hentry' hid
        exact absurd hid (hother hcache entry' hentry')
    · intro proof' hproof'
      obtain rfl := Except.ok.inj hproof'
      exact ⟨txHash, txId, chainHash, sequence, hnew, hdecode, hproof⟩

/-- The cache of a new node is empty. -/
theorem cacheAttested_new (hexDecode : String → Except String (List UInt8)) (capacity : ℕ)
    (signingKey : C.SigningKey) (metrics : Metrics) (retryConfig : RetryConfig) :
    CacheAttested hexDecode signingKey []
      ((new capacity signingKey metrics : RelayNode C β σ).withRetryConfig retryConfig) := by
  refine ⟨rfl, fun entry hentry => ?_⟩
  have hempty : LruCache.iter (LruCache.new (RelayDeduplicator.cacheCapacity capacity) : σ) = [] :=
    LawfulLruCache.iter_new _
  exact absurd (hempty ▸ hentry) List.not_mem_nil

/-- All proofs that a run has cached are attested. -/
theorem CacheAttested.exec (h : CacheAttested hexDecode signingKey events node)
    (is : List RelayInput) :
    CacheAttested hexDecode signingKey
      (events ++ trace (processEnvelope hexDecode) node is)
      (exec (processEnvelope hexDecode) node is) := by
  induction is generalizing node events with
  | nil =>
    rw [trace_nil, List.append_nil]
    exact h
  | cons i is ih =>
    rw [trace_cons, exec_cons, List.append_cons]
    exact ih (h.step (node.step_processEnvelope hexDecode i)).1

/-- **Every proof handed out verifies.**  In every run of a new node, a proof that
`process_envelope` returns, fresh or cached, verifies under the key of the node for the
transaction of the latest accepted submission for the id. -/
theorem verify_of_result (hC : C.VerifiesSigned)
    (hexDecode : String → Except String (List UInt8)) (capacity : ℕ)
    (signingKey : C.SigningKey) (metrics : Metrics) (retryConfig : RetryConfig)
    (pre : List RelayInput) (i : RelayInput) (proof : RelayChainProof) :
    let node : RelayNode C β σ := (new capacity signingKey metrics).withRetryConfig retryConfig
    (processEnvelope hexDecode (exec (processEnvelope hexDecode) node pre) i).1.result =
        .ok proof →
      ∃ txHash txId,
        lastAccepted (trace (processEnvelope hexDecode) node (pre ++ [i]))
            i.envelope.messageId = some txHash ∧
          decodeHash32 hexDecode txHash "transaction hash" = .ok txId ∧
            proof.verify C (C.verifyingKey signingKey) txId = true := by
  intro node hresult
  have hcache := (cacheAttested_new hexDecode capacity signingKey metrics retryConfig
    (β := β) (σ := σ)).exec pre
  obtain ⟨txHash, txId, chainHash, sequence, hlast, hdecode, rfl⟩ :=
    (hcache.step (step_processEnvelope hexDecode _ i)).2 proof hresult
  refine ⟨txHash, txId, ?_, hdecode, RelayChainProof.verify_sign hC _ _ _ _⟩
  rw [trace_append, trace_cons, trace_nil]
  exact hlast

/-- A retry after a ledger that did not answer, and then the cached proof. -/
theorem verify_of_result_sample :
    ∃ txHash txId,
      lastAccepted (trace (processEnvelope sampleHexDecode)
          ((sampleNode 3).withRetryConfig RetryConfig.default)
          ([sampleInput 1 (.error (.timeout 1000)), sampleInput 1 (.ok 42)] ++
            [sampleInput 1 (.ok 43)])) (List.Vector.replicate 32 1) = some txHash ∧
        decodeHash32 sampleHexDecode txHash "transaction hash" = .ok txId ∧
          (RelayChainProof.sign Crypto.transparent sampleKey (List.Vector.replicate 32 0xab)
            (List.Vector.replicate 32 0xcd) 42).verify Crypto.transparent sampleKey txId = true :=
  verify_of_result Crypto.transparent_verifiesSigned sampleHexDecode 3 sampleKey Metrics.new
    RetryConfig.default [sampleInput 1 (.error (.timeout 1000)), sampleInput 1 (.ok 42)]
    (sampleInput 1 (.ok 43)) _ (by decide +kernel)

end RelayNode

end StellarConduit
