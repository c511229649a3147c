import StellarConduit.Gossip.Loop
import StellarConduit.Gossip.Verdicts
import StellarConduit.Router.Table
import StellarConduit.Topology.Events

/-!
# All arms of the gossip loop

`run_gossip_loop` of `gossip/protocol.rs` with its fourth arm, which keeps the routing table in step
with the topology.

* `ArmsState.step`: a turn of the loop, in any arm;
* `not_recovers`: a turn puts no more copies of an envelope into the queue than it merges;
* `backlog_dead_end`: so nothing gets from the backlog of a macro-merge into the queue.
-/

namespace StellarConduit

open Verif Verif.Machine

structure ArmsState (β σ : Type) extends LoopState β where
  routingTable : Option (RoutingTable σ)

inductive ArmInput
  | loop (i : LoopInput)
  /-- What `recv` returned, if it did not fail. -/
  | topologyEvent (event : Option TopologyEvent)

namespace ArmsState

variable {β σ : Type} [LruMap σ (Bytes 32) (List PeerIdentity)]

/-- Some events invalidate the routes of one peer, and some those of all. -/
def topologyEvent (s : ArmsState β σ) (event : TopologyEvent) : ArmsState β σ :=
  let peerKey := event.affectedPeerPubkey
  match event with
  | .peerDisconnected _ | .relayLost _ | .peerUnreachable _ =>
    { s with routingTable := s.routingTable.map (RoutingTable.invalidate · peerKey) }
  | .clusterMerge _ | .partitionDetected _ =>
    { s with routingTable := s.routingTable.map RoutingTable.clear }
  | _ => s

def step [Bloom β (Bytes 32)] (s : ArmsState β σ) : ArmInput → List SendCall × ArmsState β σ
  | .loop i =>
    let (calls, loop) := s.toLoopState.step i
    (calls, { s with toLoopState := loop })
  | .topologyEvent (some event) => ([], s.topologyEvent event)
  | .topologyEvent none => ([], s)

@[simp] theorem state_topologyEvent (s : ArmsState β σ) (event : TopologyEvent) :
    (s.topologyEvent event).state = s.state := by
  cases event <;> rfl

end ArmsState

/-! ### The backlog -/

section Backlog

variable {β σ : Type} [Bloom β (Bytes 32)] [LruMap σ (Bytes 32) (List PeerIdentity)]

abbrev ArmEvent (β σ : Type) := Event (ArmsState β σ) ArmInput (List SendCall)

/-- The turn puts a copy of the envelope into the queue that was not merged in it. -/
def Recovers (env : TransactionEnvelope) (e : ArmEvent β σ) : Prop :=
  let before := e.before.state.activeQueue.iterEnvelopes.count env
  let after := (e.before.step e.input).2.state.activeQueue.iterEnvelopes.count env
  before < after ∧ ∀ i resp, e.input = .loop i → e.before.Merges i resp →
    before + resp.missingEnvelopes.count env < after

/-- For each envelope of the backlog there is a run of the loop in which it enters the queue. -/
def LeadsOn (s : ArmsState β σ) : Prop :=
  ∀ env ∈ s.state.macroMergeBacklog, ∃ is, ∃ e ∈ trace ArmsState.step s is, Recovers env e

/-- No turn takes an envelope from anywhere but the response that it merges. -/
theorem not_recovers (env : TransactionEnvelope) (s : ArmsState β σ) (i : ArmInput) :
    ¬ Recovers env ⟨s, i, (s.step i).1⟩ := by
  rintro ⟨hmore, hunmerged⟩
  dsimp only at hmore hunmerged
  cases i with
  | loop i =>
    cases i with
    | fanoutRound i =>
      have hperm := batch_append_iterEnvelopes FanoutCalculator.new s.toRoundState i
      have hcount := hperm.count_eq env
      rw [List.count_append] at hcount
      change _ < (executeFanoutRound FanoutCalculator.new s.toRoundState
        i).2.state.activeQueue.iterEnvelopes.count env at hmore
      omega
    | antiEntropy i =>
      change _ < (s.antiEntropy i).2.state.activeQueue.iterEnvelopes.count env at hmore
      rcases s.state_antiEntropy i with hstate | ⟨resp, hmerges, hstate⟩
      · rw [hstate] at hmore
        omega
      -- A large response goes to the backlog, and a small one brings no more than it has.
      · have hfew := hunmerged _ resp rfl hmerges
        change _ < (s.antiEntropy i).2.state.activeQueue.iterEnvelopes.count env at hfew
        rw [hstate] at hmore hfew
        rcases Nat.lt_or_ge macroMergeThreshold resp.missingEnvelopes.length with hlt | hle
        · rw [(s.state.handleSyncResponse_of_lt hlt).1] at hmore
          omega
        · have hcount := congrArg (List.count env)
            (s.state.overflow_addEnvelopes resp.missingEnvelopes)
          rw [List.count_append, List.count_append] at hcount
          rw [s.state.handleSyncResponse_of_le hle] at hfew
          omega
    | banCheck now fault =>
      change _ < (s.banCheck now fault).state.activeQueue.iterEnvelopes.count env at hmore
      rw [LoopState.state_banCheck] at hmore
      omega
  | topologyEvent event =>
    cases event with
    | none => exact absurd hmore (Nat.lt_irrefl _)
    | some event =>
      change _ < (s.topologyEvent event).state.activeQueue.iterEnvelopes.count env at hmore
      rw [ArmsState.state_topologyEvent] at hmore
      omega

/-- The backlog is never emptied. -/
theorem backlog_ne_nil_step (s : ArmsState β σ) (i : ArmInput)
    (h : s.state.macroMergeBacklog ≠ []) : (s.step i).2.state.macroMergeBacklog ≠ [] := by
  cases i with
  | loop i =>
    cases i with
    | fanoutRound i =>
      show (executeFanoutRound FanoutCalculator.new s.toRoundState i).2.state.macroMergeBacklog ≠ []
      rwa [macroMergeBacklog_executeFanoutRound]
    | antiEntropy i =>
      show (s.antiEntropy i).2.state.macroMergeBacklog ≠ []
      rcases s.state_antiEntropy i with hstate | ⟨resp, -, hstate⟩
      · rwa [hstate]
      · rw [hstate]
        exact s.state.backlog_handleSyncResponse_ne_nil h
    | banCheck now fault =>
      show (s.banCheck now fault).state.macroMergeBacklog ≠ []
      rwa [LoopState.state_banCheck]
  | topologyEvent event =>
    cases event with
    | none => exact h
    | some event =>
      show (s.topologyEvent event).state.macroMergeBacklog ≠ []
      rwa [ArmsState.state_topologyEvent]

/-- The envelopes of a backlog stay where they are. -/
theorem not_leadsOn {s : ArmsState β σ} (h : s.state.macroMergeBacklog ≠ []) : ¬ LeadsOn s := by
  intro hleads
  obtain ⟨env, henv⟩ := List.exists_mem_of_ne_nil _ h
  obtain ⟨is, e, he, hrecovers⟩ := hleads env henv
  obtain ⟨pre, i, post, -, rfl⟩ := mem_trace he
  exact not_recovers env _ i hrecovers

/-- After a macro-merge the backlog is not empty. -/
theorem backlog_ne_nil_of_merges {s : ArmsState β σ} {i : LoopInput} {resp : SyncResponse}
    (hmerges : s.Merges i resp) (hlarge : macroMergeThreshold < resp.missingEnvelopes.length) :
    (s.step (.loop i)).2.state.macroMergeBacklog ≠ [] := by
  have hmerges' := hmerges
  obtain ⟨pull, peer, rfl, -⟩ := hmerges'
  show (s.antiEntropy pull).2.state.macroMergeBacklog ≠ []
  rw [LoopState.state_antiEntropy_of_merges hmerges]
  exact s.state.backlog_ne_nil_of_lt hlarge

/-- **The backlog is a dead end.**  After a macro-merge the backlog is never empty again, and no
envelope of it enters the queue, however the loop goes on. -/
theorem backlog_dead_end (s : ArmsState β σ) {i : LoopInput} {resp : SyncResponse}
    (hmerges : s.Merges i resp) (hlarge : macroMergeThreshold < resp.missingEnvelopes.length)
    (is : List ArmInput) :
    let reached := exec ArmsState.step (s.step (.loop i)).2 is
    reached.state.macroMergeBacklog ≠ [] ∧
      ¬ LeadsOn reached ∧
      ∀ env ∈ reached.state.macroMergeBacklog, ∀ is', ∀ e ∈ trace ArmsState.step reached is',
        ¬ Recovers env e := by
  intro reached
  have hbacklog : reached.state.macroMergeBacklog ≠ [] :=
    exec_invariant (fun s : ArmsState β σ => s.state.macroMergeBacklog ≠ [])
      (fun s i _ => backlog_ne_nil_step s i) (backlog_ne_nil_of_merges hmerges hlarge)
  refine ⟨hbacklog, not_leadsOn hbacklog, fun env _ is' e he => ?_⟩
  obtain ⟨pre, i, post, -, rfl⟩ := mem_trace he
  exact not_recovers env _ i

end Backlog

/-- The loop of a node that knows one peer and keeps routes. -/
def sampleArms : ArmsState (ExactFilter (Bytes 32)) (ListLru (Bytes 32) (List PeerIdentity)) where
  toLoopState := sampleLoop
  routingTable := some (RoutingTable.new 0 RoutingMetrics.new)

/-- One envelope more than the threshold allows. -/
def sampleResponse : SyncResponse := ⟨List.replicate 501 (sampleTagged 1)⟩

theorem sampleResponse_large : macroMergeThreshold < sampleResponse.missingEnvelopes.length := by
  rw [sampleResponse, List.length_replicate]
  decide

/-- The peer answers a pull with a macro-merge. -/
def sampleMerge : AntiEntropyInput where
  activeAt := 1672531200
  choice := RandomChoice.first
  sendResult := .ok ()
  received := some (PeerIdentity.new sampleKey, .syncResponse sampleResponse)

theorem sampleMerge_merges : sampleArms.Merges (.antiEntropy sampleMerge) sampleResponse :=
  ⟨sampleMerge, PeerIdentity.new sampleKey, rfl, by decide +kernel, rfl, rfl⟩

/-- A relay is lost after the macro-merge. -/
theorem backlog_dead_end_sample :
    ¬ LeadsOn (exec ArmsState.step
      (sampleArms.step (.loop (.antiEntropy sampleMerge))).2
        [.topologyEvent (some (.relayLost sampleKey))]) :=
  (backlog_dead_end sampleArms sampleMerge_merges sampleResponse_large
    [.topologyEvent (some (.relayLost sampleKey))]).2.1

/-- The failing input: a response of 501 envelopes. -/
theorem stuck_backlog_sample :
    ¬ LeadsOn (sampleArms.step (.loop (.antiEntropy sampleMerge))).2 :=
  not_leadsOn (backlog_ne_nil_of_merges sampleMerge_merges sampleResponse_large)

end StellarConduit
