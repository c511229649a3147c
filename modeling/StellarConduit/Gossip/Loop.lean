import StellarConduit.Gossip.Round
import StellarConduit.Persistence.Db
import StellarConduit.Transport.Connection

/-!
# The gossip loop

`run_gossip_loop` of `gossip/protocol.rs`: in each turn one arm of a `select!` runs, and timers
decide which.  So a run is a list of turns in any order.  The arm of the topology events, which
works on the routing table alone, comes with `Gossip/Arms`.

* `antiEntropy`: one pull.  What `send_to` and `recv_any` come to is an input;
* `LoopState.step`: the arms, as a machine whose outputs are the calls of `send_to`;
* `forwarded_verified`: when only verified envelopes are forwarded.  What is pushed to a node is
  verified by `process_transaction_envelope`, what it pulls is not.
-/

namespace StellarConduit

open Verif.Machine

/-- What `run_gossip_loop` reads and changes. -/
structure LoopState (β : Type) extends RoundState β where
  strikeTracker : StrikeTracker
  db : Option MeshDatabase

/-- What the anti-entropy arm depends on.  `received` is what `recv_any` returns before the
timeout of ten seconds. -/
structure AntiEntropyInput where
  activeAt : UInt64
  choice : RandomChoice PeerIdentity
  sendResult : Except TransportError Unit
  received : Option (PeerIdentity × ProtocolMessage)

inductive LoopInput
  | fanoutRound (i : RoundInput)
  | antiEntropy (i : AntiEntropyInput)
  /-- Each peer reads the clock on its own, and its row may be impossible to remove. -/
  | banCheck (now : Bytes 32 → UInt64) (fault : Bytes 32 → Option DbError)

namespace LoopState

variable {β : Type}

/-- The peer that the anti-entropy arm picks. -/
def pickPeer (s : LoopState β) (i : AntiEntropyInput) : Option PeerIdentity :=
  (i.choice.choose (s.peerList.eligiblePeers i.activeAt) 1).head?

/-- The part of the anti-entropy arm that merges a response. -/
def mergeResponse (s : LoopState β) (resp : SyncResponse) : LoopState β :=
  let n := resp.missingEnvelopes.length
  let macroMergeEvents := s.metrics.macroMergeEvents
  { s with
    metrics :=
      { s.metrics with
        syncResponsesReceived := s.metrics.syncResponsesReceived + 1
        envelopesMergedFromSync := s.metrics.envelopesMergedFromSync + UInt64.ofNat n
        macroMergeEvents :=
          if n > macroMergeThreshold then macroMergeEvents + 1 else macroMergeEvents }
    state := s.state.handleSyncResponse resp }

def antiEntropy (s : LoopState β) (i : AntiEntropyInput) : List SendCall × LoopState β :=
  match s.pickPeer i with
  | none => ([], s)
  | some peer =>
    let calls := [⟨peer, .syncRequest s.state.generateSyncRequest⟩]
    match i.sendResult with
    | .error _ => (calls, s)
    | .ok () =>
      let s := { s with metrics :=
        { s.metrics with syncRequestsSent := s.metrics.syncRequestsSent + 1 } }
      match i.received with
      | some (fromPeer, .syncResponse resp) =>
        if fromPeer = peer then (calls, s.mergeResponse resp) else (calls, s)
      | _ => (calls, s)

def banCheck (s : LoopState β) (now : Bytes 32 → UInt64) (fault : Bytes 32 → Option DbError) :
    LoopState β :=
  let (unbanned, peerList) := s.peerList.checkBanExpirations now
  let s := { s with peerList := peerList }
  if unbanned = [] then s
  else
    { s with
      metrics :=
        { s.metrics with
          peersUnbanned := s.metrics.peersUnbanned + UInt64.ofNat unbanned.length }
      strikeTracker := unbanned.foldl StrikeTracker.clearPeer s.strikeTracker
      db := s.db.map fun db => unbanned.foldl
        (fun db peer => ((db.removeBan peer.pubkey (fault peer.pubkey)).toOption).getD db) db }

def step [Bloom β (Bytes 32)] (s : LoopState β) : LoopInput → List SendCall × LoopState β
  | .fanoutRound i =>
    let (calls, round) := executeFanoutRound FanoutCalculator.new s.toRoundState i
    (calls, { s with toRoundState := round })
  | .antiEntropy i => s.antiEntropy i
  | .banCheck now fault => ([], s.banCheck now fault)

/-- The anti-entropy arm merges a response. -/
def Merges (s : LoopState β) (i : LoopInput) (resp : SyncResponse) : Prop :=
  ∃ pull peer, i = .antiEntropy pull ∧ s.pickPeer pull = some peer ∧ pull.sendResult = .ok () ∧
    pull.received = some (peer, .syncResponse resp)

/-! ### Where the queue comes from -/

/-- The anti-entropy arm merges a response, or leaves the gossip state as it is. -/
theorem state_antiEntropy (s : LoopState β) (i : AntiEntropyInput) :
    (s.antiEntropy i).2.state = s.state ∨
      ∃ resp, s.Merges (.antiEntropy i) resp ∧
        (s.antiEntropy i).2.state = s.state.handleSyncResponse resp := by
  unfold antiEntropy
  split
  next => exact Or.inl rfl
  next peer hpeer =>
    dsimp only
    split
    next => exact Or.inl rfl
    next hsend =>
      split
      next fromPeer resp hreceived =>
        split_ifs with hfrom
        · subst hfrom
          exact Or.inr ⟨resp, ⟨i, fromPeer, rfl, hpeer, hsend, hreceived⟩, rfl⟩
        · exact Or.inl rfl
      next => exact Or.inl rfl

/-- What a turn merges is handled. -/
theorem state_antiEntropy_of_merges {s : LoopState β} {i : AntiEntropyInput} {resp : SyncResponse}
    (h : s.Merges (.antiEntropy i) resp) :
    (s.antiEntropy i).2.state = s.state.handleSyncResponse resp := by
  obtain ⟨pull, peer, hinput, hpeer, hsend, hreceived⟩ := h
  cases hinput
  unfold antiEntropy
  rw [hpeer, hsend, hreceived]
  simp [mergeResponse]

@[simp] theorem state_banCheck (s : LoopState β) (now : Bytes 32 → UInt64)
    (fault : Bytes 32 → Option DbError) : (s.banCheck now fault).state = s.state := by
  unfold banCheck
  dsimp only
  split_ifs <;> rfl

/-- What is in the queue after a turn was there before, or was merged. -/
theorem mem_iterEnvelopes_step [Bloom β (Bytes 32)] {s : LoopState β} {i : LoopInput}
    {env : TransactionEnvelope} (h : env ∈ (s.step i).2.state.activeQueue.iterEnvelopes) :
    env ∈ s.state.activeQueue.iterEnvelopes ∨
      ∃ resp, s.Merges i resp ∧ resp.missingEnvelopes.length ≤ macroMergeThreshold ∧
        env ∈ resp.missingEnvelopes := by
  cases i with
  | fanoutRound i =>
    exact Or.inl (iterEnvelopes_executeFanoutRound_subset _ s.toRoundState i h)
  | antiEntropy i =>
    change env ∈ (s.antiEntropy i).2.state.activeQueue.iterEnvelopes at h
    rcases s.state_antiEntropy i with hstate | ⟨resp, hmerges, hstate⟩
    · rw [hstate] at h
      exact Or.inl h
    · rw [hstate] at h
      rcases Nat.lt_or_ge macroMergeThreshold resp.missingEnvelopes.length with hlt | hle
      · -- A macro-merge goes to the backlog, which no arm of the loop empties.
        rw [(s.state.handleSyncResponse_of_lt hlt).1] at h
        exact Or.inl h
      · rw [s.state.handleSyncResponse_of_le hle] at h
        have hall : env ∈ s.state.activeQueue.iterEnvelopes ++ resp.missingEnvelopes := by
          rw [← s.state.overflow_addEnvelopes]
          exact List.mem_append_right _ h
        rcases List.mem_append.1 hall with henv | henv
        · exact Or.inl henv
        · exact Or.inr ⟨resp, hmerges, hle, henv⟩
  | banCheck now fault =>
    change env ∈ (s.banCheck now fault).state.activeQueue.iterEnvelopes at h
    rw [state_banCheck] at h
    exact Or.inl h

/-- A transaction is offered by a round only, and was waiting in the queue. -/
theorem exists_of_mem_step [Bloom β (Bytes 32)] {s : LoopState β} {i : LoopInput}
    {call : SendCall} (h : call ∈ (s.step i).1) {env : TransactionEnvelope}
    (hmessage : call.message = .transaction env) :
    ∃ waiting ∈ s.state.activeQueue.iterEnvelopes, waiting.ttlHops ≠ 0 ∧
      env = { waiting with ttlHops := waiting.ttlHops - 1 } := by
  cases i with
  | fanoutRound i =>
    obtain ⟨waiting, hwaiting, httl, hcall⟩ :=
      mem_sends_executeFanoutRound _ s.toRoundState i h
    rw [hmessage] at hcall
    exact ⟨waiting, hwaiting, httl, ProtocolMessage.transaction.inj hcall⟩
  | antiEntropy i =>
    change call ∈ (s.antiEntropy i).1 at h
    have hcall : ∃ peer, call = ⟨peer, .syncRequest s.state.generateSyncRequest⟩ := by
      unfold antiEntropy at h
      split at h
      next => simp at h
      next peer _ =>
        dsimp only at h
        refine ⟨peer, ?_⟩
        split at h
        next => simpa using h
        next =>
          split at h
          next => split_ifs at h <;> simpa using h
          next => simpa using h
    obtain ⟨peer, rfl⟩ := hcall
    cases hmessage
  | banCheck now fault => simp [step] at h

end LoopState

/-! ### Verified envelopes -/

/-- The number of hops that are left is not signed. -/
@[simp] theorem verifySignature_ttlHops (C : Crypto) (env : TransactionEnvelope) (ttl : UInt8) :
    verifySignature C { env with ttlHops := ttl } = verifySignature C env :=
  rfl

/-- Every envelope with hops left that the turn merges into the queue verifies. -/
def MergesVerified (C : Crypto) {β : Type} (s : LoopState β) (i : LoopInput) : Prop :=
  ∀ resp, s.Merges i resp → resp.missingEnvelopes.length ≤ macroMergeThreshold →
    ∀ env ∈ resp.missingEnvelopes, env.ttlHops ≠ 0 → verifySignature C env = .ok true

/-- Every transaction that is handed to `send_to` verifies. -/
def ForwardsVerified (C : Crypto) (calls : List SendCall) : Prop :=
  ∀ call ∈ calls, ∀ env, call.message = .transaction env → verifySignature C env = .ok true

/-- **Only verified envelopes are forwarded**, in every run of the loop in which every envelope
with hops left that is merged into the queue verifies. -/
theorem forwarded_verified (C : Crypto) {β : Type} [Bloom β (Bytes 32)] (s : LoopState β)
    (hs : ∀ env ∈ s.state.activeQueue.iterEnvelopes, verifySignature C env = .ok true)
    (is : List LoopInput)
    (hmerged : ∀ e ∈ trace LoopState.step s is, MergesVerified C e.before e.input) :
    ∀ e ∈ trace LoopState.step s is, ForwardsVerified C e.output := by
  -- What waits in the queue verifies, unless it has no hops left and will not be offered.
  let Inv : LoopState β → Prop := fun s => ∀ env ∈ s.state.activeQueue.iterEnvelopes,
    env.ttlHops ≠ 0 → verifySignature C env = .ok true
  have hstep : ∀ (s : LoopState β) i, MergesVerified C s i → Inv s → Inv (s.step i).2 := by
    intro s i hmerged hinv env henv httl
    rcases LoopState.mem_iterEnvelopes_step henv with henv | ⟨resp, hmerges, hle, henv⟩
    · exact hinv env henv httl
    · exact hmerged resp hmerges hle env henv httl
  obtain ⟨hbefore, -⟩ := trace_invariant Inv hstep hmerged fun env henv _ => hs env henv
  intro e he call hcall env hmessage
  obtain ⟨pre, i, post, -, rfl⟩ := mem_trace he
  obtain ⟨waiting, hwaiting, httl, rfl⟩ := LoopState.exists_of_mem_step hcall hmessage
  rw [verifySignature_ttlHops]
  exact hbefore _ he waiting hwaiting httl

/-- The loop of a node that knows one peer and holds nothing. -/
def sampleLoop : LoopState (ExactFilter (Bytes 32)) where
  toRoundState := sampleRound
  strikeTracker := StrikeTracker.new
  db := none

/-- The peer answers a pull with one envelope. -/
def samplePull (env : TransactionEnvelope) : LoopInput :=
  .antiEntropy
    { activeAt := 1672531200
      choice := RandomChoice.first
      sendResult := .ok ()
      received := some (PeerIdentity.new sampleKey, .syncResponse ⟨[env]⟩) }

/-- A signed envelope is pulled and forwarded. -/
theorem forwarded_verified_sample :
    ForwardsVerified Crypto.transparent
      (LoopState.step (sampleLoop.step (samplePull (sampleSigned 1 0).envelope)).2
        (.fanoutRound sampleReadings)).1 := by
  have hpull : ∀ e ∈ trace LoopState.step sampleLoop
      [samplePull (sampleSigned 1 0).envelope, .fanoutRound sampleReadings],
      MergesVerified Crypto.transparent e.before e.input := by
    intro e he resp hmerges _ env henv _
    obtain ⟨pull, peer, hinput, -, -, hreceived⟩ := hmerges
    rcases List.mem_cons.1 he with rfl | he
    · cases hinput
      cases hreceived
      rw [List.mem_singleton.1 henv]
      decide +kernel
    · obtain rfl := List.mem_singleton.1 he
      cases hinput
  refine forwarded_verified Crypto.transparent sampleLoop (fun env henv => ?_)
    [samplePull (sampleSigned 1 0).envelope, .fanoutRound sampleReadings] hpull _
    (List.mem_cons_of_mem _ (List.mem_singleton_self _))
  exact absurd henv List.not_mem_nil

/-- A forged envelope is pulled and forwarded. -/
theorem forwards_forged_sample :
    (∀ env ∈ sampleLoop.state.activeQueue.iterEnvelopes,
      verifySignature Crypto.transparent env = .ok true) ∧
      ¬ ∀ e ∈ trace LoopState.step sampleLoop
        [samplePull (sampleForged 0).envelope, .fanoutRound sampleReadings],
        ForwardsVerified Crypto.transparent e.output := by
  refine ⟨fun env henv => absurd henv List.not_mem_nil, fun h => ?_⟩
  have hround := h _ (List.mem_cons_of_mem _ (List.mem_singleton_self _))
  let outbound := { (sampleForged 0).envelope with ttlHops := 9 }
  have hcall : ⟨PeerIdentity.new sampleKey, .transaction outbound⟩ ∈
      (LoopState.step (sampleLoop.step (samplePull (sampleForged 0).envelope)).2
        (.fanoutRound sampleReadings)).1 := by decide +kernel
  exact absurd (hround _ hcall outbound rfl) (by decide +kernel)

end StellarConduit
