import StellarConduit.Relay.Proofs

/-!
# The ledgers that relay proofs name

A relay proof carries the sequence number and the hash of a ledger.  `process_envelope` asks for
the two in separate queries (`relay/rpc_client.rs`), and ledgers may close before each of
them.  A `Chain` holds the ledgers that have closed; a step of the system (`relayStep`) is a
call of `process_envelope` together with the ledgers that close meanwhile.

* `Chain.closeAll`: ledgers only come at the end, with growing sequence numbers, so a sequence
  number belongs to one ledger (`Chain.eq_of_sequence_eq`);
* `Step.result_of_proves`, `Step.of_result`: a proof that is not cached pairs the answers of
  the two queries;
* `namesLedgers_iff`: the proofs of a run name ledgers exactly when no fresh proof is made
  while a ledger with another hash closes between the two queries.
-/

namespace StellarConduit

open Verif Verif.Machine

/-! ### Ledgers -/

/-- A record of the endpoint `ledgers`. -/
structure LedgerRecord where
  sequence : UInt64
  hash : String
  deriving DecidableEq

/-- The ledgers that have closed, oldest first. -/
structure Chain where
  ledgers : List LedgerRecord
  ne_nil : ledgers ≠ []
  increasing : ledgers.Pairwise fun a b => a.sequence < b.sequence

namespace Chain

def latest (chain : Chain) : LedgerRecord := chain.ledgers.getLast chain.ne_nil

theorem latest_mem (chain : Chain) : chain.latest ∈ chain.ledgers := List.getLast_mem _

theorem eq_latest_or_lt (chain : Chain) {ledger : LedgerRecord} (h : ledger ∈ chain.ledgers) :
    ledger = chain.latest ∨ ledger.sequence < chain.latest.sequence := by
  have hsplit := List.dropLast_append_getLast chain.ne_nil
  have hincreasing := chain.increasing
  rw [← hsplit, List.pairwise_append] at hincreasing
  rw [← hsplit, List.mem_append, List.mem_singleton] at h
  rcases h with h | h
  · exact Or.inr (hincreasing.2.2 ledger h _ List.mem_cons_self)
  · exact Or.inl h

/-- A ledger closes on top of the latest one. -/
def close (chain : Chain) (ledger : LedgerRecord) : Chain :=
  if h : chain.latest.sequence < ledger.sequence then
    { ledgers := chain.ledgers ++ [ledger]
      ne_nil := List.append_ne_nil_of_right_ne_nil _ (List.cons_ne_nil _ _)
      increasing := by
        refine List.pairwise_append.2 ⟨chain.increasing, List.pairwise_singleton _ _, ?_⟩
        intro a ha b hb
        rw [List.mem_singleton.1 hb]
        rcases chain.eq_latest_or_lt ha with rfl | hlt
        · exact h
        · exact UInt64.lt_trans hlt h }
  else chain

def closeAll (chain : Chain) (ledgers : List LedgerRecord) : Chain :=
  ledgers.foldl close chain

theorem mem_close {chain : Chain} {ledger : LedgerRecord} (h : ledger ∈ chain.ledgers)
    (next : LedgerRecord) : ledger ∈ (chain.close next).ledgers := by
  unfold close
  split_ifs
  · exact List.mem_append_left _ h
  · exact h

theorem mem_closeAll {chain : Chain} {ledger : LedgerRecord} (h : ledger ∈ chain.ledgers)
    (ledgers : List LedgerRecord) : ledger ∈ (chain.closeAll ledgers).ledgers := by
  induction ledgers generalizing chain with
  | nil => exact h
  | cons next ledgers ih => exact ih (mem_close h next)

/-- A sequence number belongs to one ledger. -/
theorem eq_of_sequence_eq (chain : Chain) {a b : LedgerRecord} (ha : a ∈ chain.ledgers)
    (hb : b ∈ chain.ledgers) (h : a.sequence = b.sequence) : a = b := by
  have hnodup : (chain.ledgers.map LedgerRecord.sequence).Nodup :=
    (List.pairwise_map.2 chain.increasing).imp UInt64.ne_of_lt
  exact List.inj_on_of_nodup_map hnodup ha hb h

/-- The answer of `ledgers?order=desc&limit=1`. -/
def latestPage (chain : Chain) : List LedgerRecord := chain.ledgers.reverse.take 1

theorem latestPage_eq (chain : Chain) : chain.latestPage = [chain.latest] := by
  have hsplit := List.dropLast_append_getLast chain.ne_nil
  rw [latestPage, ← hsplit, List.reverse_append]
  rfl

/-- The proof names a ledger: the two numbers it carries are the sequence number and the hash
of one ledger. -/
def Names (hexDecode : String → Except String (List UInt8)) (chain : Chain)
    (proof : RelayChainProof) : Prop :=
  ∃ ledger ∈ chain.ledgers, ledger.sequence = proof.sequence ∧
    decodeHash32 hexDecode ledger.hash "ledger hash" = .ok proof.chainHash

theorem Names.closeAll {hexDecode : String → Except String (List UInt8)} {chain : Chain}
    {proof : RelayChainProof} (h : chain.Names hexDecode proof) (ledgers : List LedgerRecord) :
    (chain.closeAll ledgers).Names hexDecode proof := by
  obtain ⟨ledger, hmem, hledger⟩ := h
  exact ⟨ledger, mem_closeAll hmem ledgers, hledger⟩

end Chain

namespace HorizonRpcClient

/-- `get_ledger_sequence`, from the records of the answer. -/
def getLedgerSequence (records : List LedgerRecord) : Except RpcError UInt64 :=
  match records.head? with
  | some r => .ok r.sequence
  | none => .error (.network "no ledger records returned")

/-- `get_ledger_hash`, from the records of the answer. -/
def getLedgerHash (records : List LedgerRecord) : Except RpcError String :=
  match records.head? with
  | some r => .ok r.hash
  | none => .error (.network "no ledger records returned")

@[simp] theorem getLedgerSequence_latestPage (chain : Chain) :
    getLedgerSequence chain.latestPage = .ok chain.latest.sequence := by
  rw [chain.latestPage_eq]
  rfl

@[simp] theorem getLedgerHash_latestPage (chain : Chain) :
    getLedgerHash chain.latestPage = .ok chain.latest.hash := by
  rw [chain.latestPage_eq]
  rfl

end HorizonRpcClient

/-! ### Calls while ledgers close -/

/-- A call of `process_envelope`, and what happens on the network while it runs.  A query fails or
is answered with the latest ledger. -/
structure RelayCall where
  envelope : TransactionEnvelope
  peer : Option Peer
  submitTransaction : ℕ → Except RpcError String
  /-- the ledgers that close before the sequence number is asked for -/
  closedBefore : List LedgerRecord
  /-- the ledgers that close after that, and before the hash is asked for -/
  closedBetween : List LedgerRecord
  sequenceFails : Option RpcError
  hashFails : Option RpcError

namespace RelayCall

def atSequence (call : RelayCall) (chain : Chain) : Chain := chain.closeAll call.closedBefore

def atHash (call : RelayCall) (chain : Chain) : Chain :=
  (call.atSequence chain).closeAll call.closedBetween

def input (call : RelayCall) (chain : Chain) : RelayInput where
  envelope := call.envelope
  peer := call.peer
  rpc :=
    { submitTransaction := call.submitTransaction
      getLedgerSequence :=
        match call.sequenceFails with
        | some e => .error e
        | none => HorizonRpcClient.getLedgerSequence (call.atSequence chain).latestPage
      getLedgerHash :=
        match call.hashFails with
        | some e => .error e
        | none => HorizonRpcClient.getLedgerHash (call.atHash chain).latestPage }

variable {call : RelayCall} {chain : Chain}

theorem sequence_of_answer {sequence : UInt64}
    (h : (call.input chain).rpc.getLedgerSequence = .ok sequence) :
    (call.atSequence chain).latest.sequence = sequence := by
  cases hfails : call.sequenceFails with
  | some e => simp [input, hfails] at h
  | none => simpa [input, hfails] using h

theorem hash_of_answer {hash : String} (h : (call.input chain).rpc.getLedgerHash = .ok hash) :
    (call.atHash chain).latest.hash = hash := by
  cases hfails : call.hashFails with
  | some e => simp [input, hfails] at h
  | none => simpa [input, hfails] using h

end RelayCall

namespace RelayNode

variable {C : Crypto} {β σ : Type}

/-- The proof pairs the answers to the two queries for the ledger. -/
def Pairs (hexDecode : String → Except String (List UInt8)) (rpc : Rpc)
    (proof : RelayChainProof) : Prop :=
  rpc.getLedgerSequence = .ok proof.sequence ∧
    ∃ hash, rpc.getLedgerHash = .ok hash ∧
      decodeHash32 hexDecode hash "ledger hash" = .ok proof.chainHash

theorem pairs_of_proveInclusion {hexDecode : String → Except String (List UInt8)}
    {node : RelayNode C β σ} {rpc : Rpc} {txHash : String} {proof : RelayChainProof}
    (h : (node.proveInclusion hexDecode rpc txHash).1 = .ok proof) :
    Pairs hexDecode rpc proof := by
  obtain ⟨txId, sequence, hash, chainHash, -, hsequence, hhash, hdecode, rfl⟩ :=
    (proveInclusion_fst_eq_ok hexDecode node rpc txHash proof).1 h
  exact ⟨hsequence, hash, hhash, hdecode⟩

variable [Bloom β (Bytes 32)] [LruCache σ (Bytes 32) RelayChainProof]

/-- The step makes a proof: none is cached, the submission is accepted and the answers after it
allow a proof. -/
def Proves (hexDecode : String → Except String (List UInt8)) (node : RelayNode C β σ)
    (i : RelayInput) : Prop :=
  (node.deduplicator.check i.envelope.messageId).1 = none ∧
    ∃ txHash, SubmissionAccepted node.retryConfig.maxAttempts i.rpc txHash ∧
      ProofObtainable hexDecode i.rpc txHash

section Steps

variable {hexDecode : String → Except String (List UInt8)} {node : RelayNode C β σ}
  {i : RelayInput} {out : Outcome × RelayNode C β σ}

/-- A step that makes a proof hands it out. -/
theorem Step.result_of_proves (h : Step hexDecode node i out) (hproves : Proves hexDecode node i) :
    ∃ proof, out.1.result = .ok proof ∧ Pairs hexDecode i.rpc proof := by
  obtain ⟨hcache, htx⟩ := hproves
  obtain ⟨proof, hresult⟩ := h.result_eq_ok_iff.2 (Or.inr htx)
  refine ⟨proof, hresult, ?_⟩
  cases h with
  | cached proof hcached =>
    rw [hcached] at hcache
    cases hcache
  | notAccepted => cases hresult
  | notProven => cases hresult
  | proven txHash proof' metrics _ hsubmit hprove =>
    obtain rfl := Except.ok.inj hresult
    exact pairs_of_proveInclusion hprove

/-- A proof that is handed out was cached, or it is made by the step. -/
theorem Step.of_result [LawfulLruCache σ (Bytes 32) RelayChainProof]
    (h : Step hexDecode node i out) {proof : RelayChainProof} (hresult : out.1.result = .ok proof) :
    (i.envelope.messageId, proof) ∈ LruCache.iter node.deduplicator.resultCache ∨
      Proves hexDecode node i ∧ Pairs hexDecode i.rpc proof := by
  by_cases hcache : (node.deduplicator.check i.envelope.messageId).1 = none
  · have hproves : Proves hexDecode node i :=
      ⟨hcache, (h.result_eq_ok_iff.1 ⟨proof, hresult⟩).resolve_left fun hne => hne hcache⟩
    obtain ⟨proof', hresult', hpairs⟩ := h.result_of_proves hproves
    obtain rfl := Except.ok.inj (hresult.symm.trans hresult')
    exact Or.inr ⟨hproves, hpairs⟩
  · cases h with
    | cached proof' hcached =>
      obtain rfl := Except.ok.inj hresult
      exact Or.inl (Lru.mem_iter_of_get hcached)
    | notAccepted e metrics hnone => exact absurd hnone hcache
    | notProven txHash e metrics hnone => exact absurd hnone hcache
    | proven txHash proof' metrics hnone => exact absurd hnone hcache

/-- The proofs cached after a step were cached before, or the step hands them out. -/
theorem Step.mem_cache [LawfulLruCache σ (Bytes 32) RelayChainProof]
    (h : Step hexDecode node i out) {entry : Bytes 32 × RelayChainProof}
    (hentry : entry ∈ LruCache.iter out.2.deduplicator.resultCache) :
    entry ∈ LruCache.iter node.deduplicator.resultCache ∨ out.1.result = .ok entry.2 := by
  cases h with
  | cached => exact Or.inl (Lru.mem_iter_of_mem_get hentry)
  | notAccepted => exact Or.inl (Lru.mem_iter_of_mem_get hentry)
  | notProven => exact Or.inl (Lru.mem_iter_of_mem_get hentry)
  | proven txHash proof metrics hcache hsubmit hprove =>
    rcases Lru.mem_iter_of_mem_put hentry with rfl | ⟨hold, -⟩
    · exact Or.inr rfl
    · exact Or.inl (Lru.mem_iter_of_mem_get hold)

end Steps

end RelayNode

/-! ### Runs -/

/-- A relay node, and the chain on the other side of the network. -/
structure RelaySystem (C : Crypto) (β σ : Type) where
  node : RelayNode C β σ
  chain : Chain

section Runs

variable {C : Crypto} {β σ : Type} [Bloom β (Bytes 32)] [LruCache σ (Bytes 32) RelayChainProof]
  (hexDecode : String → Except String (List UInt8))

def relayStep (s : RelaySystem C β σ) (call : RelayCall) : Outcome × RelaySystem C β σ :=
  let (outcome, node) := s.node.processEnvelope hexDecode (call.input s.chain)
  (outcome, { node := node, chain := call.atHash s.chain })

/-- All cached proofs name a ledger. -/
def CacheNames (s : RelaySystem C β σ) : Prop :=
  ∀ entry ∈ LruCache.iter s.node.deduplicator.resultCache, s.chain.Names hexDecode entry.2

/-- The proof that a step hands out names a ledger, and so do the proofs that are cached after
it. -/
structure NamesLedgers (e : Event (RelaySystem C β σ) RelayCall Outcome) : Prop where
  returned : ∀ proof, e.output.result = .ok proof →
    (relayStep hexDecode e.before e.input).2.chain.Names hexDecode proof
  cached : CacheNames hexDecode (relayStep hexDecode e.before e.input).2

/-- If a step makes a proof, the latest ledgers at the two queries have the same hash. -/
def OneHash (e : Event (RelaySystem C β σ) RelayCall Outcome) : Prop :=
  e.before.node.Proves hexDecode (e.input.input e.before.chain) →
    decodeHash32 hexDecode (e.input.atSequence e.before.chain).latest.hash "ledger hash" =
      decodeHash32 hexDecode (e.input.atHash e.before.chain).latest.hash "ledger hash"

variable {hexDecode}

/-- A fresh proof names a ledger exactly when the latest ledgers at the two queries have the
same hash. -/
theorem RelayNode.Pairs.names_iff {call : RelayCall} {chain : Chain} {proof : RelayChainProof}
    (h : RelayNode.Pairs hexDecode (call.input chain).rpc proof) :
    (call.atHash chain).Names hexDecode proof ↔
      decodeHash32 hexDecode (call.atSequence chain).latest.hash "ledger hash" =
        decodeHash32 hexDecode (call.atHash chain).latest.hash "ledger hash" := by
  obtain ⟨hsequence, hash, hhash, hdecode⟩ := h
  have hlatest := RelayCall.sequence_of_answer hsequence
  rw [RelayCall.hash_of_answer hhash, hdecode]
  have hmem : (call.atSequence chain).latest ∈ (call.atHash chain).ledgers :=
    Chain.mem_closeAll (Chain.latest_mem _) call.closedBetween
  constructor
  · rintro ⟨ledger, hledger, hnumber, hnamed⟩
    -- The sequence number is that of the ledger that answered the first query.
    rw [Chain.eq_of_sequence_eq _ hmem hledger (hlatest.trans hnumber.symm)]
    exact hnamed
  · intro hsame
    exact ⟨_, hmem, hlatest, hsame⟩

variable [LawfulLruCache σ (Bytes 32) RelayChainProof]

/-- **One step.**  If the cached proofs name ledgers and the step makes no proof of two hashes,
what the step hands out and leaves in the cache names ledgers. -/
theorem namesLedgers_of_oneHash {s : RelaySystem C β σ} {call : RelayCall}
    (hcache : CacheNames hexDecode s)
    (hone : OneHash hexDecode ⟨s, call, (relayStep hexDecode s call).1⟩) :
    NamesLedgers hexDecode ⟨s, call, (relayStep hexDecode s call).1⟩ := by
  have hstep := s.node.step_processEnvelope hexDecode (call.input s.chain)
  have hold : ∀ entry ∈ LruCache.iter s.node.deduplicator.resultCache,
      (call.atHash s.chain).Names hexDecode entry.2 := by
    intro entry hentry
    exact ((hcache entry hentry).closeAll _).closeAll _
  have hreturned : ∀ proof, (relayStep hexDecode s call).1.result = .ok proof →
      (call.atHash s.chain).Names hexDecode proof := by
    intro proof hresult
    rcases hstep.of_result hresult with hentry | ⟨hproves, hpairs⟩
    · exact hold _ hentry
    · exact hpairs.names_iff.2 (hone hproves)
  refine ⟨hreturned, fun entry hentry => ?_⟩
  rcases hstep.mem_cache hentry with hentry | hresult
  · exact hold entry hentry
  · exact hreturned _ hresult

/-- **Relay proofs name ledgers.**  All proofs that a run of a new node hands out and caches name
ledgers exactly when, in every step that makes a proof, the latest ledgers at the two queries
have the same hash. -/
theorem namesLedgers_iff (hexDecode : String → Except String (List UInt8)) (capacity : ℕ)
    (signingKey : C.SigningKey) (metrics : Metrics) (retryConfig : RetryConfig) (chain : Chain)
    (calls : List RelayCall) :
    let s : RelaySystem C β σ :=
      ⟨(RelayNode.new capacity signingKey metrics).withRetryConfig retryConfig, chain⟩
    (∀ e ∈ trace (relayStep hexDecode) s calls, NamesLedgers hexDecode e) ↔
      ∀ e ∈ trace (relayStep hexDecode) s calls, OneHash hexDecode e := by
  intro s
  constructor
  · intro h e he hproves
    have hnames := (h e he).returned
    obtain ⟨pre, call, post, -, rfl⟩ := mem_trace he
    obtain ⟨proof, hresult, hpairs⟩ :=
      (RelayNode.step_processEnvelope hexDecode _ _).result_of_proves hproves
    exact hpairs.names_iff.1 (hnames proof hresult)
  · intro h
    have hnew : CacheNames hexDecode s := by
      intro entry hentry
      have hempty : LruCache.iter (LruCache.new (RelayDeduplicator.cacheCapacity capacity) : σ) =
          [] := LawfulLruCache.iter_new _
      exact absurd (hempty ▸ hentry) List.not_mem_nil
    have hcache := (trace_invariant (CacheNames hexDecode)
      (fun s call hone hs => (namesLedgers_of_oneHash hs hone).cached) h hnew).1
    intro e he
    have hone := h e he
    have hbefore := hcache e he
    obtain ⟨pre, call, post, -, rfl⟩ := mem_trace he
    exact namesLedgers_of_oneHash hbefore hone

end Runs

/-! ### Sample runs -/

def sampleLedger : LedgerRecord where
  sequence := 42
  hash := "cdcdcdcdcdcdcdcdcdcdcdcdcdcdcdcdcdcdcdcdcdcdcdcdcdcdcdcdcdcdcdcd"

def sampleNextLedger : LedgerRecord where
  sequence := 43
  hash := "efefefefefefefefefefefefefefefefefefefefefefefefefefefefefefefef"

def sampleSystem : RelaySystem Crypto.transparent (ExactFilter (Bytes 32))
    (ListLru (Bytes 32) RelayChainProof) where
  node := (RelayNode.sampleNode 3).withRetryConfig RetryConfig.default
  chain :=
    { ledgers := [sampleLedger]
      ne_nil := List.cons_ne_nil _ _
      increasing := List.pairwise_singleton _ _ }

/-- A call whose submission is accepted, and the ledgers that close during it. -/
def sampleRelayCall (closedBefore closedBetween : List LedgerRecord) : RelayCall where
  envelope := (RelayNode.sampleInput 1 (.ok 42)).envelope
  peer := none
  submitTransaction := (RelayNode.sampleRpc (.ok 42)).submitTransaction
  closedBefore := closedBefore
  closedBetween := closedBetween
  sequenceFails := none
  hashFails := none

def sampleRelayCalls : List RelayCall :=
  [sampleRelayCall [sampleNextLedger] [], sampleRelayCall [] []]

/-- The next ledger closes before the queries, and the second call finds the proof. -/
theorem namesLedgers_iff_sample :
    (trace (relayStep sampleHexDecode) sampleSystem sampleRelayCalls).map
        (fun e => e.output.result.toOption.map RelayChainProof.sequence) = [some 43, some 43] ∧
      ∀ e ∈ trace (relayStep sampleHexDecode) sampleSystem sampleRelayCalls,
        NamesLedgers sampleHexDecode e := by
  refine ⟨by decide +kernel, ?_⟩
  refine (namesLedgers_iff (C := Crypto.transparent) sampleHexDecode 3 sampleKey Metrics.new
    RetryConfig.default sampleSystem.chain _).2 fun e he _ => ?_
  obtain ⟨pre, call, post, hsplit, rfl⟩ := mem_trace he
  have hcall : call ∈ sampleRelayCalls := by
    rw [hsplit]
    exact List.mem_append_right pre List.mem_cons_self
  simp only [sampleRelayCalls, List.mem_cons, List.not_mem_nil, or_false] at hcall
  rcases hcall with rfl | rfl <;> rfl

/-- The next ledger closes between the queries: the proof has the number of one ledger and the
hash of the other. -/
theorem torn_ledger_sample :
    ¬ ∀ e ∈ trace (relayStep sampleHexDecode) sampleSystem
      [sampleRelayCall [] [sampleNextLedger]], NamesLedgers sampleHexDecode e := by
  intro h
  have hnames := (h _ (event_mem_trace [] (sampleRelayCall [] [sampleNextLedger]) [])).returned
    (.sign Crypto.transparent sampleKey (List.Vector.replicate 32 0xab)
      (List.Vector.replicate 32 0xef) 42) (by decide +kernel)
  obtain ⟨ledger, hledger, hnumber, hhash⟩ := hnames
  have hledgers : ledger ∈ [sampleLedger, sampleNextLedger] := hledger
  simp only [List.mem_cons, List.not_mem_nil, or_false] at hledgers
  rcases hledgers with rfl | rfl
  · revert hhash
    decide +kernel
  · revert hnumber
    decide

end StellarConduit
