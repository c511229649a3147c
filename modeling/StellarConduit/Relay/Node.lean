import StellarConduit.Lib.Machine
import StellarConduit.Metrics
import StellarConduit.Peer.Peer
import StellarConduit.Relay.Dedup

/-!
# Relay nodes

`relay/mod.rs`: a relay node submits the transactions of envelopes to Stellar and hands out
signed proofs.  The RPC client is on the other side of the network; its answers to the
calls that one `process_envelope` may make are an input of the step (`Rpc`), and the calls
the node does make are part of its output (`Outcome.calls`).  Backoff, jitter and the log
do not influence the calls and are left out.

* `submitLoop`, `submitWithRetry`: the retry loop; `submitLoop_spec` says at which attempt it
  stops, what it has called by then and what it returns;
* `processEnvelope`: one step; `Step` lists all that a step can do;
* `Step.submits_iff`, `Step.accepted_iff`, `Step.result_eq_ok_iff`: when a step calls
  `submit_transaction`, when one of these calls answers `Ok`, and when a proof is handed out;
* `Step.follows`: the cache of proofs follows the history of the ids for which a proof was
  handed out.
-/

namespace StellarConduit

open Verif

/-! ### The RPC client -/

/-- Errors of the Stellar RPC layer. -/
inductive RpcError
  | http (status : UInt16) (body : String)
  | transactionRejected (reason : String)
  | network (message : String)
  | timeout (timeoutMs : UInt64)
  deriving DecidableEq

/-- Every error but a rejection is transient. -/
def RpcError.isTransient : RpcError → Bool
  | .transactionRejected _ => false
  | _ => true

/-- The answers of the RPC client while one envelope is processed; submissions are numbered
from 1. -/
structure Rpc where
  submitTransaction : ℕ → Except RpcError String
  getLedgerSequence : Except RpcError UInt64
  getLedgerHash : Except RpcError String

/-- A call of the RPC client, with its answer. -/
inductive RpcCall
  | submitTransaction (txXdr : String) (answer : Except RpcError String)
  | getLedgerSequence (answer : Except RpcError UInt64)
  | getLedgerHash (answer : Except RpcError String)

def RpcCall.isSubmission : RpcCall → Bool
  | .submitTransaction _ _ => true
  | _ => false

def RpcCall.isAccepted : RpcCall → Bool
  | .submitTransaction _ (.ok _) => true
  | _ => false

theorem RpcCall.isSubmission_of_isAccepted (call : RpcCall) (h : call.isAccepted) :
    call.isSubmission = true := by
  cases call with
  | submitTransaction => rfl
  | _ => cases h

/-! ### Decoding hashes -/

/-- `hash.strip_prefix("0x").unwrap_or(hash)` -/
def stripHexPrefix (hash : String) : String :=
  match hash.toList with
  | '0' :: 'x' :: rest => String.ofList rest
  | _ => hash

/-- `decode_hash_32`; `hexDecode` is the function `decode` of the `hex` crate. -/
def decodeHash32 (hexDecode : String → Except String (List UInt8)) (hash label : String) :
    Except String (Bytes 32) :=
  match hexDecode (stripHexPrefix hash) with
  | .error e => .error s!"invalid {label}: {e}"
  | .ok bytes =>
    if h : bytes.length = 32 then .ok ⟨bytes, h⟩
    else .error s!"invalid {label}: expected 32 bytes, got {bytes.length}"

/-- The value of a hexadecimal digit. -/
def hexValue (b : UInt8) : Except String UInt8 :=
  if 48 ≤ b ∧ b ≤ 57 then .ok (b - 48)
  else if 97 ≤ b ∧ b ≤ 102 then .ok (b - 87)
  else if 65 ≤ b ∧ b ≤ 70 then .ok (b - 55)
  else .error "Invalid character"

def decodeDigits : List UInt8 → Except String (List UInt8)
  | [] => .ok []
  | [_] => .error "Odd number of digits"
  | hi :: lo :: rest => do
    let h ← hexValue hi
    let l ← hexValue lo
    let bytes ← decodeDigits rest
    return (16 * h + l) :: bytes

/-- A decoder of hexadecimal strings that computes. -/
def sampleHexDecode (s : String) : Except String (List UInt8) := decodeDigits (utf8Bytes s)

example : decodeHash32 sampleHexDecode "0xabcd" "ledger hash" =
    .error "invalid ledger hash: expected 32 bytes, got 2" := by decide +kernel

/-! ### The node -/

structure RetryConfig where
  maxAttempts : UInt32
  deriving DecidableEq

def RetryConfig.default : RetryConfig where
  maxAttempts := 5

structure RelayNode (C : Crypto) (β σ : Type) where
  deduplicator : RelayDeduplicator β σ
  signingKey : C.SigningKey
  metrics : Metrics
  retryConfig : RetryConfig

/-- What `process_envelope` is called with, and the answers it would get. -/
structure RelayInput where
  envelope : TransactionEnvelope
  peer : Option Peer
  rpc : Rpc

/-- What `process_envelope` returns, the peer afterwards, and the calls made. -/
structure Outcome where
  result : Except RpcError RelayChainProof
  peer : Option Peer
  calls : List RpcCall

/-- `submit_transaction` was called. -/
def Outcome.Submits (o : Outcome) : Prop := ∃ call ∈ o.calls, call.isSubmission

/-- `submit_transaction` was called and answered `Ok`. -/
def Outcome.Accepted (o : Outcome) : Prop := ∃ call ∈ o.calls, call.isAccepted

/-- The loop of `submit_with_retry` after `attempt` calls. -/
def submitLoop (maxAttempts : UInt32) (rpc : Rpc) (txXdr : String) (attempt : ℕ)
    (metrics : Metrics) : Except RpcError String × Metrics × List RpcCall :=
  let answer := rpc.submitTransaction (attempt + 1)
  let call := RpcCall.submitTransaction txXdr answer
  match answer with
  | .ok hash => (.ok hash, metrics, [call])
  | .error (.transactionRejected reason) =>
    (.error (.transactionRejected reason), metrics, [call])
  | .error e =>
    if attempt + 1 ≥ maxAttempts.toNat then (.error e, metrics, [call])
    else
      let (result, metrics, calls) := submitLoop maxAttempts rpc txXdr (attempt + 1)
        { metrics with relaySubmissionRetries := metrics.relaySubmissionRetries + 1 }
      (result, metrics, call :: calls)
termination_by maxAttempts.toNat - attempt

/-- The loop stops at attempt `n`: the answers before `n` are transient errors, and either the
answer at `n` is not, or there are no attempts left. -/
structure StopsAt (maxAttempts : UInt32) (rpc : Rpc) (n : ℕ) : Prop where
  pos : 1 ≤ n
  le : n ≤ max 1 maxAttempts.toNat
  transient : ∀ j, 1 ≤ j → j < n → ∃ e, rpc.submitTransaction j = .error e ∧ e.isTransient
  final : ∀ e, rpc.submitTransaction n = .error e → e.isTransient → maxAttempts.toNat ≤ n

/-- **The retry loop.**  It stops at some attempt, has called once for each attempt up to it,
and returns the last answer. -/
theorem submitLoop_spec (maxAttempts : UInt32) (rpc : Rpc) (txXdr : String) (attempt : ℕ)
    (metrics : Metrics) (hle : attempt + 1 ≤ max 1 maxAttempts.toNat)
    (hbefore : ∀ j, 1 ≤ j → j < attempt + 1 →
      ∃ e, rpc.submitTransaction j = .error e ∧ e.isTransient) :
    ∃ n, attempt + 1 ≤ n ∧ StopsAt maxAttempts rpc n ∧
      (submitLoop maxAttempts rpc txXdr attempt metrics).1 = rpc.submitTransaction n ∧
      (submitLoop maxAttempts rpc txXdr attempt metrics).2.2 =
        (List.range' (attempt + 1) (n - attempt)).map fun i =>
          RpcCall.submitTransaction txXdr (rpc.submitTransaction i) := by
  have once : ∀ a, List.range' (a + 1) (a + 1 - a) = [a + 1] := fun a => by
    rw [Nat.add_sub_cancel_left]
    rfl
  fun_induction submitLoop maxAttempts rpc txXdr attempt metrics with
  | case1 attempt metrics answer call hash hanswer =>
    refine ⟨attempt + 1, Nat.le_refl _, ⟨by omega, hle, hbefore, ?_⟩, hanswer.symm, ?_⟩
    · intro e he
      rw [show rpc.submitTransaction (attempt + 1) = .ok hash from hanswer] at he
      cases he
    · rw [once]
      rfl
  | case2 attempt metrics answer call reason hanswer =>
    refine ⟨attempt + 1, Nat.le_refl _, ⟨by omega, hle, hbefore, ?_⟩, hanswer.symm, ?_⟩
    · intro e he htransient
      obtain rfl := Except.error.inj (hanswer.symm.trans he)
      cases htransient
    · rw [once]
      rfl
  | case3 attempt metrics answer call e hne hanswer hstop =>
    refine ⟨attempt + 1, Nat.le_refl _, ⟨by omega, hle, hbefore, ?_⟩, hanswer.symm, ?_⟩
    · intro _ _ _
      exact hstop
    · rw [once]
      rfl
  | case4 attempt metrics answer call e hne hanswer hgo result metrics' calls heq ih =>
    have htransient : e.isTransient := by
      cases e with
      | transactionRejected reason => exact absurd rfl (hne reason)
      | _ => rfl
    have hbefore' : ∀ j, 1 ≤ j → j < attempt + 1 + 1 →
        ∃ e, rpc.submitTransaction j = .error e ∧ e.isTransient := by
      intro j hj hlt
      rcases Nat.lt_succ_iff_lt_or_eq.1 hlt with hlt | rfl
      · exact hbefore j hj hlt
      · exact ⟨e, hanswer, htransient⟩
    -- The attempt failed for a while only, and the loop goes on with the next one.
    obtain ⟨n, hn, hstops, hresult, hcalls⟩ := ih (by omega) hbefore'
    rw [heq] at hresult hcalls
    refine ⟨n, by omega, hstops, hresult, ?_⟩
    rw [show n - attempt = n - (attempt + 1) + 1 by omega, List.range'_succ, List.map_cons]
    exact congrArg (call :: ·) hcalls

theorem StopsAt.unique {maxAttempts : UInt32} {rpc : Rpc} {n n' : ℕ}
    (h : StopsAt maxAttempts rpc n) (h' : StopsAt maxAttempts rpc n') : n = n' := by
  have not_lt : ∀ {m m'}, StopsAt maxAttempts rpc m → StopsAt maxAttempts rpc m' → ¬ m < m' := by
    intro m m' hm hm' hlt
    obtain ⟨e, he, htransient⟩ := hm'.transient m hm.pos hlt
    have hmax := hm.final e he htransient
    have hle := hm'.le
    have hpos := hm.pos
    omega
  exact Nat.le_antisymm (Nat.not_lt.1 (not_lt h' h)) (Nat.not_lt.1 (not_lt h h'))

/-- The submission is accepted, with this transaction hash. -/
def SubmissionAccepted (maxAttempts : UInt32) (rpc : Rpc) (txHash : String) : Prop :=
  ∃ n, StopsAt maxAttempts rpc n ∧ rpc.submitTransaction n = .ok txHash

theorem SubmissionAccepted.first {rpc : Rpc} {txHash : String}
    (h : rpc.submitTransaction 1 = .ok txHash) (maxAttempts : UInt32) :
    SubmissionAccepted maxAttempts rpc txHash := by
  refine ⟨1, ⟨Nat.le_refl 1, Nat.le_max_left _ _, fun j hj hlt => by omega, fun e he => ?_⟩, h⟩
  rw [h] at he
  cases he

theorem SubmissionAccepted.unique {maxAttempts : UInt32} {rpc : Rpc} {txHash txHash' : String}
    (h : SubmissionAccepted maxAttempts rpc txHash)
    (h' : SubmissionAccepted maxAttempts rpc txHash') : txHash = txHash' := by
  obtain ⟨n, hstops, hanswer⟩ := h
  obtain ⟨n', hstops', hanswer'⟩ := h'
  rw [hstops.unique hstops', hanswer'] at hanswer
  exact (Except.ok.inj hanswer).symm

/-- The answers after the submission allow a proof: both hashes decode to 32 bytes, and both
calls for the ledger answer `Ok`. -/
def ProofObtainable (hexDecode : String → Except String (List UInt8)) (rpc : Rpc)
    (txHash : String) : Prop :=
  (∃ txId, decodeHash32 hexDecode txHash "transaction hash" = .ok txId) ∧
    (∃ sequence, rpc.getLedgerSequence = .ok sequence) ∧
    ∃ chainHashStr chainHash, rpc.getLedgerHash = .ok chainHashStr ∧
      decodeHash32 hexDecode chainHashStr "ledger hash" = .ok chainHash

namespace RelayNode

variable {C : Crypto} {β σ : Type}

def submitWithRetry (node : RelayNode C β σ) (rpc : Rpc) (txXdr : String) :
    Except RpcError String × Metrics × List RpcCall :=
  submitLoop node.retryConfig.maxAttempts rpc txXdr 0 node.metrics

/-- The steps of `process_envelope` between an accepted submission and its record: decode
the transaction hash, ask for the ledger, sign. -/
def proveInclusion (hexDecode : String → Except String (List UInt8)) (node : RelayNode C β σ)
    (rpc : Rpc) (txHash : String) : Except RpcError RelayChainProof × List RpcCall :=
  match decodeHash32 hexDecode txHash "transaction hash" with
  | .error e => (.error (.network e), [])
  | .ok txId =>
    let sequenceCall := RpcCall.getLedgerSequence rpc.getLedgerSequence
    match rpc.getLedgerSequence with
    | .error e => (.error e, [sequenceCall])
    | .ok sequence =>
      let calls := [sequenceCall, .getLedgerHash rpc.getLedgerHash]
      match rpc.getLedgerHash with
      | .error e => (.error e, calls)
      | .ok chainHashStr =>
        match decodeHash32 hexDecode chainHashStr "ledger hash" with
        | .error e => (.error (.network e), calls)
        | .ok chainHash =>
          (.ok (RelayChainProof.sign C node.signingKey txId chainHash sequence), calls)

/-! ### Submissions and proofs -/

theorem submitWithRetry_spec (node : RelayNode C β σ) (rpc : Rpc) (txXdr : String) :
    ∃ n, StopsAt node.retryConfig.maxAttempts rpc n ∧
      (node.submitWithRetry rpc txXdr).1 = rpc.submitTransaction n ∧
      (node.submitWithRetry rpc txXdr).2.2 =
        (List.range' 1 n).map fun i =>
          RpcCall.submitTransaction txXdr (rpc.submitTransaction i) := by
  obtain ⟨n, -, hstops, hresult, hcalls⟩ :=
    submitLoop_spec node.retryConfig.maxAttempts rpc txXdr 0 node.metrics (by omega)
      fun j hj hlt => by omega
  exact ⟨n, hstops, hresult, hcalls⟩

theorem submitWithRetry_eq_ok_iff (node : RelayNode C β σ) (rpc : Rpc) (txXdr txHash : String) :
    (node.submitWithRetry rpc txXdr).1 = .ok txHash ↔
      SubmissionAccepted node.retryConfig.maxAttempts rpc txHash := by
  obtain ⟨n, hstops, hresult, -⟩ := node.submitWithRetry_spec rpc txXdr
  rw [hresult]
  constructor
  · intro h
    exact ⟨n, hstops, h⟩
  · rintro ⟨n', hstops', h⟩
    rwa [hstops.unique hstops']

theorem exists_submission (node : RelayNode C β σ) (rpc : Rpc) (txXdr : String) :
    ∃ answer, RpcCall.submitTransaction txXdr answer ∈ (node.submitWithRetry rpc txXdr).2.2 := by
  obtain ⟨n, hstops, -, hcalls⟩ := node.submitWithRetry_spec rpc txXdr
  refine ⟨rpc.submitTransaction 1, ?_⟩
  rw [hcalls]
  exact List.mem_map.2 ⟨1, List.mem_range'_1.2 ⟨Nat.le_refl 1, by have := hstops.pos; omega⟩, rfl⟩

/-- When the first attempt is accepted, it is the only one. -/
theorem submitWithRetry_of_first (node : RelayNode C β σ) {rpc : Rpc} {txHash : String}
    (h : rpc.submitTransaction 1 = .ok txHash) (txXdr : String) :
    (node.submitWithRetry rpc txXdr).2.2 = [.submitTransaction txXdr (.ok txHash)] := by
  obtain ⟨n, hstops, -, hcalls⟩ := node.submitWithRetry_spec rpc txXdr
  have hn : n = 1 := by
    by_contra hne
    have hpos := hstops.pos
    obtain ⟨e, he, -⟩ := hstops.transient 1 (Nat.le_refl 1) (by omega)
    rw [h] at he
    cases he
  rw [hcalls, hn, ← h]
  rfl

/-- Only the last call of the loop can be accepted. -/
theorem exists_accepted_iff (node : RelayNode C β σ) (rpc : Rpc) (txXdr : String) :
    (∃ call ∈ (node.submitWithRetry rpc txXdr).2.2, call.isAccepted) ↔
      ∃ txHash, (node.submitWithRetry rpc txXdr).1 = .ok txHash := by
  obtain ⟨n, hstops, hresult, hcalls⟩ := node.submitWithRetry_spec rpc txXdr
  rw [hresult, hcalls]
  constructor
  · rintro ⟨call, hmem, hok⟩
    obtain ⟨i, hi, rfl⟩ := List.mem_map.1 hmem
    obtain ⟨hlo, hhi⟩ := List.mem_range'_1.1 hi
    rcases Nat.lt_or_ge i n with hlt | hge
    · obtain ⟨e, he, -⟩ := hstops.transient i hlo hlt
      rw [he] at hok
      cases hok
    · obtain rfl : i = n := by omega
      cases hanswer : rpc.submitTransaction i with
      | error e =>
        rw [hanswer] at hok
        cases hok
      | ok txHash => exact ⟨txHash, rfl⟩
  · rintro ⟨txHash, hanswer⟩
    refine ⟨_, List.mem_map.2 ⟨n, List.mem_range'_1.2 ⟨hstops.pos, by omega⟩, rfl⟩, ?_⟩
    rw [hanswer]
    rfl

/-- What is signed: the id of the transaction, and what the ledger was said to be. -/
theorem proveInclusion_fst_eq_ok (hexDecode : String → Except String (List UInt8))
    (node : RelayNode C β σ) (rpc : Rpc) (txHash : String) (proof : RelayChainProof) :
    (node.proveInclusion hexDecode rpc txHash).1 = .ok proof ↔
      ∃ txId sequence chainHashStr chainHash,
        decodeHash32 hexDecode txHash "transaction hash" = .ok txId ∧
          rpc.getLedgerSequence = .ok sequence ∧ rpc.getLedgerHash = .ok chainHashStr ∧
            decodeHash32 hexDecode chainHashStr "ledger hash" = .ok chainHash ∧
              proof = .sign C node.signingKey txId chainHash sequence := by
  unfold proveInclusion
  cases decodeHash32 hexDecode txHash "transaction hash" with
  | error e => simp
  | ok txId =>
    cases rpc.getLedgerSequence with
    | error e => simp
    | ok sequence =>
      cases rpc.getLedgerHash with
      | error e => simp
      | ok chainHashStr =>
        cases hdecode : decodeHash32 hexDecode chainHashStr "ledger hash" with
        | error e => simp [hdecode]
        | ok chainHash => simp [hdecode, eq_comm]

theorem proveInclusion_fst_eq_ok_iff (hexDecode : String → Except String (List UInt8))
    (node : RelayNode C β σ) (rpc : Rpc) (txHash : String) :
    (∃ proof, (node.proveInclusion hexDecode rpc txHash).1 = .ok proof) ↔
      ProofObtainable hexDecode rpc txHash := by
  simp only [proveInclusion_fst_eq_ok]
  constructor
  · rintro ⟨_, txId, sequence, chainHashStr, chainHash, htxId, hsequence, hhash, hdecode, -⟩
    exact ⟨⟨txId, htxId⟩, ⟨sequence, hsequence⟩, chainHashStr, chainHash, hhash, hdecode⟩
  · rintro ⟨⟨txId, htxId⟩, ⟨sequence, hsequence⟩, chainHashStr, chainHash, hhash, hdecode⟩
    exact ⟨_, txId, sequence, chainHashStr, chainHash, htxId, hsequence, hhash, hdecode, rfl⟩

theorem not_isSubmission_of_mem_proveInclusion
    (hexDecode : String → Except String (List UInt8)) (node : RelayNode C β σ) (rpc : Rpc)
    (txHash : String) :
    ∀ call ∈ (node.proveInclusion hexDecode rpc txHash).2, call.isSubmission = false := by
  unfold proveInclusion
  cases decodeHash32 hexDecode txHash "transaction hash" with
  | error e => simp
  | ok txId =>
    cases rpc.getLedgerSequence with
    | error e => simp [RpcCall.isSubmission]
    | ok sequence =>
      cases rpc.getLedgerHash with
      | error e => simp [RpcCall.isSubmission]
      | ok chainHashStr =>
        cases hdecode : decodeHash32 hexDecode chainHashStr "ledger hash" <;>
          simp [hdecode, RpcCall.isSubmission]

/-! ### Processing an envelope -/

variable [Bloom β (Bytes 32)] [LruCache σ (Bytes 32) RelayChainProof]

def new (capacity : ℕ) (signingKey : C.SigningKey) (metrics : Metrics) : RelayNode C β σ where
  deduplicator := RelayDeduplicator.new capacity
  signingKey := signingKey
  metrics := metrics
  retryConfig := RetryConfig.default

def withRetryConfig (node : RelayNode C β σ) (retryConfig : RetryConfig) : RelayNode C β σ :=
  { node with retryConfig := retryConfig }

def processEnvelope (hexDecode : String → Except String (List UInt8)) (node : RelayNode C β σ)
    (i : RelayInput) : Outcome × RelayNode C β σ :=
  let (existing, deduplicator) := node.deduplicator.check i.envelope.messageId
  let node := { node with deduplicator := deduplicator }
  match existing with
  | some existingProof => (⟨.ok existingProof, i.peer, []⟩, node)
  | none =>
    let (submitted, metrics, calls) := node.submitWithRetry i.rpc i.envelope.txXdr
    match submitted with
    | .error (.transactionRejected reason) =>
      (⟨.error (.transactionRejected reason), i.peer, calls⟩,
        { node with metrics :=
          { metrics with transactionsRejected := metrics.transactionsRejected + 1 } })
    | .error e => (⟨.error e, i.peer, calls⟩, { node with metrics := metrics })
    | .ok txHash =>
      let node := { node with metrics :=
        { metrics with transactionsSubmitted := metrics.transactionsSubmitted + 1 } }
      match node.proveInclusion hexDecode i.rpc txHash with
      | (.error e, ledgerCalls) => (⟨.error e, i.peer, calls ++ ledgerCalls⟩, node)
      | (.ok proof, ledgerCalls) =>
        (⟨.ok proof, i.peer.map (applyReward · .successfullyRoutedTx), calls ++ ledgerCalls⟩,
          { node with deduplicator :=
            node.deduplicator.markSubmitted i.envelope.messageId proof })

theorem cap_new [LawfulLruCache σ (Bytes 32) RelayChainProof] (capacity : ℕ)
    (signingKey : C.SigningKey) (metrics : Metrics) (retryConfig : RetryConfig) :
    LruCache.cap ((new capacity signingKey metrics : RelayNode C β σ).withRetryConfig
      retryConfig).deduplicator.resultCache = RelayDeduplicator.cacheCapacity capacity :=
  LawfulLruCache.cap_new _

/-- All that a step can do. -/
inductive Step (hexDecode : String → Except String (List UInt8)) (node : RelayNode C β σ)
    (i : RelayInput) : Outcome × RelayNode C β σ → Prop
  | cached (proof : RelayChainProof)
      (hcache : (node.deduplicator.check i.envelope.messageId).1 = some proof) :
      Step hexDecode node i
        (⟨.ok proof, i.peer, []⟩,
          { node with deduplicator := (node.deduplicator.check i.envelope.messageId).2 })
  | notAccepted (e : RpcError) (metrics : Metrics)
      (hcache : (node.deduplicator.check i.envelope.messageId).1 = none)
      (hsubmit : (node.submitWithRetry i.rpc i.envelope.txXdr).1 = .error e) :
      Step hexDecode node i
        (⟨.error e, i.peer, (node.submitWithRetry i.rpc i.envelope.txXdr).2.2⟩,
          { node with
            deduplicator := (node.deduplicator.check i.envelope.messageId).2
            metrics := metrics })
  | notProven (txHash : String) (e : RpcError) (metrics : Metrics)
      (hcache : (node.deduplicator.check i.envelope.messageId).1 = none)
      (hsubmit : (node.submitWithRetry i.rpc i.envelope.txXdr).1 = .ok txHash)
      (hprove : (node.proveInclusion hexDecode i.rpc txHash).1 = .error e) :
      Step hexDecode node i
        (⟨.error e, i.peer, (node.submitWithRetry i.rpc i.envelope.txXdr).2.2 ++
            (node.proveInclusion hexDecode i.rpc txHash).2⟩,
          { node with
            deduplicator := (node.deduplicator.check i.envelope.messageId).2
            metrics := metrics })
  | proven (txHash : String) (proof : RelayChainProof) (metrics : Metrics)
      (hcache : (node.deduplicator.check i.envelope.messageId).1 = none)
      (hsubmit : (node.submitWithRetry i.rpc i.envelope.txXdr).1 = .ok txHash)
      (hprove : (node.proveInclusion hexDecode i.rpc txHash).1 = .ok proof) :
      Step hexDecode node i
        (⟨.ok proof, i.peer.map (applyReward · .successfullyRoutedTx),
            (node.submitWithRetry i.rpc i.envelope.txXdr).2.2 ++
              (node.proveInclusion hexDecode i.rpc txHash).2⟩,
          { node with
            deduplicator := (node.deduplicator.check i.envelope.messageId).2.markSubmitted
              i.envelope.messageId proof
            metrics := metrics })

theorem step_processEnvelope (hexDecode : String → Except String (List UInt8))
    (node : RelayNode C β σ) (i : RelayInput) :
    Step hexDecode node i (node.processEnvelope hexDecode i) := by
  unfold processEnvelope
  rcases hcache : node.deduplicator.check i.envelope.messageId with ⟨existing, deduplicator⟩
  rcases hsubmit : node.submitWithRetry i.rpc i.envelope.txXdr with ⟨submitted, metrics, calls⟩
  have hd : deduplicator = (node.deduplicator.check i.envelope.messageId).2 := by rw [hcache]
  have hcalls : calls = (node.submitWithRetry i.rpc i.envelope.txXdr).2.2 := by rw [hsubmit]
  have hsubmit' : ∀ d : RelayDeduplicator β σ,
      submitWithRetry { node with deduplicator := d } i.rpc i.envelope.txXdr =
        (submitted, metrics, calls) := fun _ => hsubmit
  -- The stages, in the order of the code: the cache, the submission, the proof of inclusion.
  cases existing with
  | some proof =>
    rw [hd]
    exact .cached proof (by rw [hcache])
  | none =>
    simp only [hsubmit']
    rw [hd, hcalls]
    cases submitted with
    | error e =>
      cases e with
      | transactionRejected reason => exact .notAccepted _ _ (by rw [hcache]) (by rw [hsubmit])
      | _ => exact .notAccepted _ _ (by rw [hcache]) (by rw [hsubmit])
    | ok txHash =>
      rcases hprove : node.proveInclusion hexDecode i.rpc txHash with ⟨proved, ledgerCalls⟩
      have hprove' : ∀ (d : RelayDeduplicator β σ) (m : Metrics), proveInclusion hexDecode
          { node with deduplicator := d, metrics := m } i.rpc txHash = (proved, ledgerCalls) :=
        fun _ _ => hprove
      have hledger : ledgerCalls = (node.proveInclusion hexDecode i.rpc txHash).2 := by
        rw [hprove]
      simp only [hprove']
      rw [hledger]
      cases proved with
      | error e =>
        exact .notProven txHash e _ (by rw [hcache]) (by rw [hsubmit]) (by rw [hprove])
      | ok proof =>
        exact .proven txHash proof _ (by rw [hcache]) (by rw [hsubmit]) (by rw [hprove])

namespace Step

variable {hexDecode : String → Except String (List UInt8)} {node : RelayNode C β σ}
  {i : RelayInput} {out : Outcome × RelayNode C β σ}

/-- The transaction submitted is the envelope's. -/
theorem exists_submission (h : Step hexDecode node i out)
    (hcache : (node.deduplicator.check i.envelope.messageId).1 = none) :
    ∃ answer, RpcCall.submitTransaction i.envelope.txXdr answer ∈ out.1.calls := by
  obtain ⟨answer, hanswer⟩ := node.exists_submission i.rpc i.envelope.txXdr
  refine ⟨answer, ?_⟩
  cases h with
  | cached proof hcached =>
    rw [hcached] at hcache
    cases hcache
  | notAccepted => exact hanswer
  | _ => exact List.mem_append_left _ hanswer

/-- `submit_transaction` is called exactly when no proof is cached. -/
theorem submits_iff (h : Step hexDecode node i out) :
    out.1.Submits ↔ (node.deduplicator.check i.envelope.messageId).1 = none := by
  constructor
  · rintro ⟨call, hcall, -⟩
    cases h with
    | cached => cases hcall
    | notAccepted e metrics hcache => exact hcache
    | notProven txHash e metrics hcache => exact hcache
    | proven txHash proof metrics hcache => exact hcache
  · intro hcache
    obtain ⟨answer, hanswer⟩ := h.exists_submission hcache
    exact ⟨_, hanswer, rfl⟩

/-- When the first attempt is accepted, a step calls `submit_transaction` once or not at all. -/
theorem countP_isSubmission (h : Step hexDecode node i out) {txHash : String}
    (hfirst : i.rpc.submitTransaction 1 = .ok txHash) :
    out.1.calls.countP RpcCall.isSubmission =
      if (node.deduplicator.check i.envelope.messageId).1 = none then 1 else 0 := by
  have hcalls := node.submitWithRetry_of_first hfirst i.envelope.txXdr
  have hledger : ∀ txHash, (node.proveInclusion hexDecode i.rpc txHash).2.countP
      RpcCall.isSubmission = 0 := by
    intro txHash
    refine List.countP_eq_zero.2 fun call hcall => ?_
    rw [not_isSubmission_of_mem_proveInclusion hexDecode node i.rpc txHash call hcall]
    exact Bool.false_ne_true
  cases h with
  | cached proof hcache =>
    rw [hcache]
    rfl
  | notAccepted e metrics hcache =>
    rw [if_pos hcache]
    show List.countP _ (node.submitWithRetry i.rpc i.envelope.txXdr).2.2 = 1
    rw [hcalls]
    rfl
  | notProven txHash e metrics hcache =>
    rw [if_pos hcache]
    show List.countP _ (_ ++ _) = 1
    rw [List.countP_append, hledger, hcalls]
    rfl
  | proven txHash proof metrics hcache =>
    rw [if_pos hcache]
    show List.countP _ (_ ++ _) = 1
    rw [List.countP_append, hledger, hcalls]
    rfl

/-- A submission is accepted exactly when no proof is cached and one of the attempts is
answered with `Ok`. -/
theorem accepted_iff (h : Step hexDecode node i out) :
    out.1.Accepted ↔ (node.deduplicator.check i.envelope.messageId).1 = none ∧
      ∃ txHash, SubmissionAccepted node.retryConfig.maxAttempts i.rpc txHash := by
  simp only [← submitWithRetry_eq_ok_iff node i.rpc i.envelope.txXdr, ← exists_accepted_iff]
  have append : ∀ txHash, (∃ call ∈ (node.submitWithRetry i.rpc i.envelope.txXdr).2.2 ++
      (node.proveInclusion hexDecode i.rpc txHash).2, call.isAccepted) ↔
        ∃ call ∈ (node.submitWithRetry i.rpc i.envelope.txXdr).2.2, call.isAccepted := by
    intro txHash
    constructor
    · rintro ⟨call, hcall, hok⟩
      rcases List.mem_append.1 hcall with hcall | hcall
      · exact ⟨call, hcall, hok⟩
      · have hnot := not_isSubmission_of_mem_proveInclusion hexDecode node i.rpc txHash call hcall
        rw [call.isSubmission_of_isAccepted hok] at hnot
        cases hnot
    · rintro ⟨call, hcall, hok⟩
      exact ⟨call, List.mem_append_left _ hcall, hok⟩
  -- The calls for the proof are no submissions, so they change nothing.
  cases h with
  | cached proof hcache =>
    rw [hcache]
    constructor
    · rintro ⟨call, hcall, -⟩
      cases hcall
    · rintro ⟨h, -⟩
      cases h
  | notAccepted e metrics hcache => exact (and_iff_right hcache).symm
  | notProven txHash e metrics hcache =>
    rw [and_iff_right hcache]
    exact append txHash
  | proven txHash proof metrics hcache =>
    rw [and_iff_right hcache]
    exact append txHash

/-- A proof is handed out exactly when one is cached, or the submission is accepted and the
answers after it allow a proof. -/
theorem result_eq_ok_iff (h : Step hexDecode node i out) :
    (∃ proof, out.1.result = .ok proof) ↔
      (node.deduplicator.check i.envelope.messageId).1 ≠ none ∨
        ∃ txHash, SubmissionAccepted node.retryConfig.maxAttempts i.rpc txHash ∧
          ProofObtainable hexDecode i.rpc txHash := by
  simp only [← submitWithRetry_eq_ok_iff node i.rpc i.envelope.txXdr,
    ← proveInclusion_fst_eq_ok_iff hexDecode node]
  cases h with
  | cached proof hcache => simp [hcache]
  | notAccepted e metrics hcache hsubmit => simp [hcache, hsubmit]
  | notProven txHash e metrics hcache hsubmit hprove => simp [hcache, hsubmit, hprove]
  | proven txHash proof metrics hcache hsubmit hprove => simp [hcache, hsubmit, hprove]

/-- A step that returns an error leaves the deduplicator as the lookup left it. -/
theorem deduplicator_of_error (h : Step hexDecode node i out) {e : RpcError}
    (he : out.1.result = .error e) :
    out.2.deduplicator = (node.deduplicator.check i.envelope.messageId).2 := by
  cases h with
  | proven => cases he
  | _ => rfl

theorem signingKey_eq (h : Step hexDecode node i out) :
    out.2.signingKey = node.signingKey := by
  cases h <;> rfl

variable [LawfulLruCache σ (Bytes 32) RelayChainProof]

/-- The cache of proofs follows the ids for which a proof was handed out. -/
theorem follows (h : Step hexDecode node i out) {ks : List (Bytes 32)}
    (hks : Lru.Follows node.deduplicator.resultCache ks) :
    Lru.Follows out.2.deduplicator.resultCache
      (ks ++ if out.1.result.isOk then [i.envelope.messageId] else []) := by
  have unused (hcache : (node.deduplicator.check i.envelope.messageId).1 = none) :
      Lru.Follows (node.deduplicator.check i.envelope.messageId).2.resultCache ks :=
    hks.get_of_notMem ((RelayDeduplicator.check_fst_eq_none_iff _ _).1 hcache)
  cases h with
  | cached proof hcache =>
    refine hks.get ?_
    by_contra hnot
    rw [(RelayDeduplicator.check_fst_eq_none_iff _ _).2 hnot] at hcache
    cases hcache
  | notAccepted e metrics hcache =>
    show Lru.Follows _ (ks ++ [])
    rw [List.append_nil]
    exact unused hcache
  | notProven txHash e metrics hcache =>
    show Lru.Follows _ (ks ++ [])
    rw [List.append_nil]
    exact unused hcache
  | proven txHash proof metrics hcache => exact (unused hcache).put _ _

theorem cap_eq (h : Step hexDecode node i out) :
    LruCache.cap out.2.deduplicator.resultCache =
      LruCache.cap node.deduplicator.resultCache := by
  cases h with
  | proven =>
    exact (LawfulLruCache.cap_put _ _ _).trans (LawfulLruCache.cap_get _ _)
  | _ => exact LawfulLruCache.cap_get _ _

end Step

end RelayNode

end StellarConduit
