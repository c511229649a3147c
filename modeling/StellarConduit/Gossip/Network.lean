import Mathlib.Data.List.Induction
import StellarConduit.Gossip.Verdicts

/-!
# Networks of nodes

Nodes that run `execute_fanout_round` and exchange `SyncRequest` and `SyncResponse`
(`gossip/protocol.rs`), and the messages between them, which arrive in any order or not at all.

* `Network.step`: what a node does, or what becomes of a message on its way;
* `History`: where a copy of an envelope comes from, and how often it was pushed and pulled;
* `exists_history`: every copy has a history;
* `hop_budget_iff`: the hops of every copy stay within those of its original exactly when no
  envelope is pulled, since only a push takes a hop off.
-/

namespace StellarConduit

open Verif.Machine

/-- A message on its way. -/
structure Packet where
  sender : Bytes 32
  receiver : Bytes 32
  message : ProtocolMessage
  deriving DecidableEq

/-- The nodes by their public keys, and what is on its way. -/
structure Network (β : Type) where
  node : Bytes 32 → RoundState β
  inFlight : List Packet

inductive NetworkInput
  | originate (node : Bytes 32) (env : TransactionEnvelope)
  | fanoutRound (node : Bytes 32) (fanoutCalc : FanoutCalculator) (i : RoundInput)
  /-- The node asks a peer for what it is missing. -/
  | pull (node peer : Bytes 32)
  | processPacedRecoveryBatch (node : Bytes 32) (batchSize : ℕ)
  /-- The packet arrives, and the receiver accepts what it carries, or it is lost. -/
  | deliver (packet : Packet) (accepted : Bool)

namespace Network

variable {β : Type}

def setNode (n : Network β) (p : Bytes 32) (s : RoundState β) : Network β :=
  { n with node := Function.update n.node p s }

/-- A call on the gossip state of a node. -/
def call (n : Network β) (p : Bytes 32) (i : GossipInput) : Network β :=
  n.setNode p { n.node p with state := ((n.node p).state.step i).2 }

/-- The answer to a request. -/
def answer (n : Network β) (packet : Packet) (req : SyncRequest) : Packet :=
  ⟨packet.receiver, packet.sender,
    .syncResponse ((n.node packet.receiver).state.handleSyncRequest req)⟩

/-- What the receiver does with a packet that it accepts, and what it sends. -/
def receive (n : Network β) (packet : Packet) : List Packet × Network β :=
  match packet.message with
  | .transaction env => ([], n.call packet.receiver (.addEnvelope env))
  | .syncRequest req => ([n.answer packet req], n)
  | .syncResponse resp => ([], n.call packet.receiver (.handleSyncResponse resp))
  | _ => ([], n)

/-- Packets are sent. -/
def send (n : Network β) (packets : List Packet) : Network β :=
  { n with inFlight := n.inFlight ++ packets }

/-- One step, and the packets that are sent in it. -/
def step [Bloom β (Bytes 32)] (n : Network β) : NetworkInput → List Packet × Network β
  | .originate p env => ([], n.call p (.addEnvelope env))
  | .fanoutRound p fanoutCalc i =>
    let (calls, s) := executeFanoutRound fanoutCalc (n.node p) i
    let packets := calls.map fun call => ⟨p, call.peer.pubkey, call.message⟩
    (packets, (n.setNode p s).send packets)
  | .pull p peer =>
    let packets := [⟨p, peer, .syncRequest (n.node p).state.generateSyncRequest⟩]
    (packets, n.send packets)
  | .processPacedRecoveryBatch p batchSize => ([], n.call p (.processPacedRecoveryBatch batchSize))
  | .deliver packet accepted =>
    if packet ∈ n.inFlight then
      let n := { n with inFlight := n.inFlight.erase packet }
      if accepted then
        let (packets, n) := n.receive packet
        (packets, n.send packets)
      else ([], n)
    else ([], n)

end Network

abbrev NetworkEvent (β : Type) := Event (Network β) NetworkInput (List Packet)

/-! ### Copies -/

/-- Where a copy of an envelope can be. -/
inductive Place
  /-- in the queue or in the backlog of a node -/
  | held (node : Bytes 32)
  | flight (packet : Packet)

/-- The envelopes that a packet carries. -/
def Packet.copies (packet : Packet) : List TransactionEnvelope :=
  match packet.message with
  | .transaction env => [env]
  | .syncResponse resp => resp.missingEnvelopes
  | _ => []

/-- The pushes that the arrival of a packet completes. -/
def Packet.pushes (packet : Packet) : ℕ :=
  match packet.message with
  | .transaction _ => 1
  | _ => 0

/-- The pulls that the arrival of a packet completes. -/
def Packet.pulls (packet : Packet) : ℕ :=
  match packet.message with
  | .syncResponse _ => 1
  | _ => 0

/-- There is a copy at the place. -/
def Network.Has {β : Type} (n : Network β) (env : TransactionEnvelope) : Place → Prop
  | .held p => env ∈ (n.node p).state.held
  | .flight packet => packet ∈ n.inFlight ∧ env ∈ packet.copies

section Moves

variable {β : Type}

/-- How a copy gets from place to place in a step, and how many pushes and pulls this completes. -/
inductive Moves (n : Network β) :
    NetworkInput → Place → TransactionEnvelope → Place → TransactionEnvelope → ℕ → ℕ → Prop
  | stays (i : NetworkInput) (place : Place) (env : TransactionEnvelope) :
      Moves n i place env place env 0 0
  /-- A round offers a copy with one hop less. -/
  | pushed (p peer : Bytes 32) (fanoutCalc : FanoutCalculator) (i : RoundInput)
      (env : TransactionEnvelope) (httl : env.ttlHops ≠ 0) :
      Moves n (.fanoutRound p fanoutCalc i) (.held p) env
        (.flight ⟨p, peer, .transaction env.outbound⟩) env.outbound 0 0
  | answered (packet : Packet) (req : SyncRequest) (env : TransactionEnvelope) :
      Moves n (.deliver packet true) (.held packet.receiver) env (.flight (n.answer packet req)) env
        0 0
  | arrived (packet : Packet) (env : TransactionEnvelope) (hflight : packet ∈ n.inFlight)
      (hcopy : env ∈ packet.copies) :
      Moves n (.deliver packet true) (.flight packet) env (.held packet.receiver) env
        packet.pushes packet.pulls

/-! ### Every copy comes from somewhere -/

/-- A call on a gossip state holds nothing but what was held and what it puts in. -/
theorem GossipState.mem_held_step {s : GossipState} {i : GossipInput} {env : TransactionEnvelope}
    (h : env ∈ (s.step i).2.held) : env ∈ s.held ∨ env ∈ putIn i := by
  have hbook := ledger_gossip s i
  rw [← Multiset.mem_add, hbook]
  exact Multiset.mem_add.2 (Or.inl h)

/-- The copy at the place comes from a copy that was there before the step. -/
def Comes (n : Network β) (i : NetworkInput) (place' : Place) (env' : TransactionEnvelope) : Prop :=
  ∃ place env pushes pulls, n.Has env place ∧ Moves n i place env place' env' pushes pulls

theorem Network.Has.comes {n : Network β} {env : TransactionEnvelope} {place : Place}
    (h : n.Has env place) (i : NetworkInput) : Comes n i place env :=
  ⟨place, env, 0, 0, h, .stays i place env⟩

/-- Fewer packets and the same nodes have no new copies. -/
theorem Network.Has.mono {n m : Network β} {env : TransactionEnvelope} {place : Place}
    (h : m.Has env place) (hnode : m.node = n.node) (hless : m.inFlight ⊆ n.inFlight) :
    n.Has env place := by
  cases place with
  | held p => rwa [Has, hnode] at h
  | flight packet => exact ⟨hless h.1, h.2⟩

/-- A copy was there before a node changed, or the node holds it now. -/
theorem Network.has_setNode {n : Network β} {p : Bytes 32} {s : RoundState β}
    {env : TransactionEnvelope} {place : Place} (h : (n.setNode p s).Has env place) :
    n.Has env place ∨ place = .held p ∧ env ∈ s.state.held := by
  cases place with
  | flight packet => exact Or.inl h
  | held q =>
    by_cases hq : q = p
    · subst hq
      exact Or.inr ⟨rfl, by simpa [Has, setNode] using h⟩
    · exact Or.inl (by simpa [Has, setNode, hq] using h)

/-- A copy behind a call was there before, or is one of those that the call puts in. -/
theorem Network.has_call {n : Network β} {p : Bytes 32} {i : GossipInput}
    {env : TransactionEnvelope} {place : Place} (h : (n.call p i).Has env place) :
    n.Has env place ∨ place = .held p ∧ env ∈ putIn i := by
  rcases has_setNode h with hold | ⟨rfl, hheld⟩
  · exact Or.inl hold
  · exact (GossipState.mem_held_step hheld).imp_right fun hput => ⟨rfl, hput⟩

/-- A copy behind a sending was there before, or is in one of the packets. -/
theorem Network.has_send {n : Network β} {packets : List Packet} {env : TransactionEnvelope}
    {place : Place} (h : (n.send packets).Has env place) :
    n.Has env place ∨ ∃ packet ∈ packets, place = .flight packet ∧ env ∈ packet.copies := by
  cases place with
  | held p => exact Or.inl h
  | flight packet =>
    rcases List.mem_append.1 h.1 with hold | hnew
    · exact Or.inl ⟨hold, h.2⟩
    · exact Or.inr ⟨packet, hnew, rfl, h.2⟩

/-- What a packet carries gets to its receiver, or the receiver answers with what it holds. -/
theorem comes_receive {n m : Network β} {packet : Packet} (hflight : packet ∈ n.inFlight)
    (hnode : m.node = n.node) (hless : m.inFlight ⊆ n.inFlight) {env : TransactionEnvelope}
    {place : Place} (h : ((m.receive packet).2.send (m.receive packet).1).Has env place) :
    Comes n (.deliver packet true) place env := by
  have hcall : ∀ i, (∀ env, env ∈ putIn i → env ∈ packet.copies) →
      (m.call packet.receiver i).Has env place → Comes n (.deliver packet true) place env := by
    intro i hput hhas
    rcases Network.has_call hhas with hold | ⟨rfl, hnew⟩
    · exact (hold.mono hnode hless).comes _
    · have hcopy := hput env hnew
      exact ⟨.flight packet, env, _, _, ⟨hflight, hcopy⟩, .arrived packet env hflight hcopy⟩
  -- A message brings copies to its receiver; a request takes copies from what it holds.
  unfold Network.receive at h
  cases hmessage : packet.message with
  | transaction env' =>
    rw [hmessage] at h
    rcases Network.has_send h with hhas | ⟨_, hnone, -⟩
    · refine hcall (.addEnvelope env') (fun env henv => ?_) hhas
      simpa [putIn, Packet.copies, hmessage] using henv
    · cases hnone
  | syncResponse resp =>
    rw [hmessage] at h
    rcases Network.has_send h with hhas | ⟨_, hnone, -⟩
    · refine hcall (.handleSyncResponse resp) (fun env henv => ?_) hhas
      simpa [putIn, Packet.copies, hmessage] using henv
    · cases hnone
  | syncRequest req =>
    rw [hmessage] at h
    rcases Network.has_send h with hold | ⟨other, hanswer, rfl, hcopy⟩
    · exact (hold.mono hnode hless).comes _
    · obtain rfl := List.mem_singleton.1 hanswer
      have hqueue : env ∈ (m.node packet.receiver).state.activeQueue.iterEnvelopes :=
        ((GossipState.mem_handleSyncRequest _).1 hcopy).1
      have heq : m.answer packet req = n.answer packet req := by
        unfold Network.answer
        rw [hnode]
      rw [heq]
      rw [hnode] at hqueue
      exact ⟨.held packet.receiver, env, 0, 0, Multiset.mem_add.2 (Or.inl hqueue),
        .answered packet req env⟩
  | _ =>
    rw [hmessage] at h
    rcases Network.has_send h with hold | ⟨_, hnone, -⟩
    · exact (hold.mono hnode hless).comes _
    · cases hnone

variable [Bloom β (Bytes 32)]

/-- A round holds nothing new. -/
theorem mem_held_executeFanoutRound {fanoutCalc : FanoutCalculator} {s : RoundState β}
    {i : RoundInput} {env : TransactionEnvelope}
    (h : env ∈ (executeFanoutRound fanoutCalc s i).2.state.held) : env ∈ s.state.held := by
  rcases Multiset.mem_add.1 h with hqueue | hbacklog
  · exact Multiset.mem_add.2 (Or.inl (iterEnvelopes_executeFanoutRound_subset _ _ _ hqueue))
  · rw [macroMergeBacklog_executeFanoutRound] at hbacklog
    exact Multiset.mem_add.2 (Or.inr hbacklog)

/-- After a step, a copy was just originated, or comes from a copy that was there before. -/
theorem comes_step {n : Network β} {i : NetworkInput} {env : TransactionEnvelope} {place : Place}
    (h : (n.step i).2.Has env place) :
    (∃ p, i = .originate p env ∧ place = .held p) ∨ Comes n i place env := by
  cases i with
  | originate p env' =>
    rcases Network.has_call h with hold | ⟨rfl, hnew⟩
    · exact Or.inr (hold.comes _)
    · have heq : env = env' := by simpa [putIn] using hnew
      exact Or.inl ⟨p, by rw [heq], rfl⟩
  | fanoutRound p fanoutCalc i =>
    refine Or.inr ?_
    let calls := (executeFanoutRound fanoutCalc (n.node p) i).1
    change ((n.setNode p (executeFanoutRound fanoutCalc (n.node p) i).2).send
      (calls.map fun call => ⟨p, call.peer.pubkey, call.message⟩)).Has env place at h
    rcases Network.has_send h with hold | ⟨packet, hpacket, rfl, hcopy⟩
    · rcases Network.has_setNode hold with hold | ⟨rfl, hheld⟩
      · exact hold.comes _
      · have hhas : n.Has env (.held p) := mem_held_executeFanoutRound hheld
        exact hhas.comes _
    · obtain ⟨call, hcall, rfl⟩ := List.mem_map.1 hpacket
      obtain ⟨waiting, hwaiting, httl, hmessage⟩ := mem_sends_executeFanoutRound _ _ _ hcall
      have henv : env = waiting.outbound := by
        simpa [Packet.copies, hmessage, TransactionEnvelope.outbound] using hcopy
      rw [hmessage, henv]
      exact ⟨.held p, waiting, 0, 0, Multiset.mem_add.2 (Or.inl hwaiting),
        .pushed p call.peer.pubkey fanoutCalc i waiting httl⟩
  | pull p peer =>
    refine Or.inr ?_
    rcases Network.has_send h with hold | ⟨packet, hpacket, rfl, hcopy⟩
    · exact hold.comes _
    · obtain rfl := List.mem_singleton.1 hpacket
      cases hcopy
  | processPacedRecoveryBatch p batchSize =>
    rcases Network.has_call h with hold | ⟨-, hnone⟩
    · exact Or.inr (hold.comes _)
    · exact absurd hnone (Multiset.notMem_zero _)
  | deliver packet accepted =>
    refine Or.inr ?_
    unfold Network.step at h
    dsimp only at h
    -- The packet leaves the network before its receiver handles it.
    have hless : n.inFlight.erase packet ⊆ n.inFlight := List.erase_subset
    split_ifs at h with hflight haccepted
    · subst haccepted
      exact comes_receive (m := { n with inFlight := n.inFlight.erase packet }) hflight rfl hless h
    · exact (Network.Has.mono (n := n) h rfl hless).comes _
    · exact Network.Has.comes (n := n) h _

end Moves

/-! ### Histories -/

section Histories

variable {β : Type} [Bloom β (Bytes 32)]

/-- Over the run of the network, a copy came from the original to the place, by so many pushes and
pulls.  What the nodes hold at the beginning counts as original. -/
inductive History (n : Network β) :
    List NetworkInput → TransactionEnvelope → Place → TransactionEnvelope → ℕ → ℕ → Prop
  | initial {p : Bytes 32} {env : TransactionEnvelope} (hhas : n.Has env (.held p)) :
      History n [] env (.held p) env 0 0
  | originated (is : List NetworkInput) (p : Bytes 32) (env : TransactionEnvelope) :
      History n (is ++ [.originate p env]) env (.held p) env 0 0
  | moved {is : List NetworkInput} {i : NetworkInput} {original env env' : TransactionEnvelope}
      {place place' : Place} {pushes pulls pushes' pulls' : ℕ}
      (h : History n is original place env pushes pulls)
      (hmove : Moves (exec Network.step n is) i place env place' env' pushes' pulls')
      (hhas : (exec Network.step n (is ++ [i])).Has env' place') :
      History n (is ++ [i]) original place' env' (pushes + pushes') (pulls + pulls')

/-- Every copy has a history, if nothing is on its way at the beginning. -/
theorem exists_history {n : Network β} (hempty : n.inFlight = []) {is : List NetworkInput}
    {env : TransactionEnvelope} {place : Place} (h : (exec Network.step n is).Has env place) :
    ∃ original pushes pulls, History n is original place env pushes pulls := by
  induction is using List.reverseRecOn generalizing env place with
  | nil =>
    cases place with
    | held p => exact ⟨env, 0, 0, .initial h⟩
    | flight packet =>
      have hmem : packet ∈ n.inFlight := h.1
      rw [hempty] at hmem
      cases hmem
  | append_singleton is i ih =>
    have hhas := h
    rw [exec_concat] at h
    rcases comes_step h with ⟨p, rfl, rfl⟩ | ⟨place', env', pushes, pulls, hold, hmove⟩
    · exact ⟨env, 0, 0, .originated is p env⟩
    · obtain ⟨original, pushes', pulls', hhistory⟩ := ih hold
      exact ⟨original, _, _, .moved hhistory hmove hhas⟩

/-- A push that is still on its way has taken its hop already. -/
def Place.pending : Place → ℕ
  | .held _ => 0
  | .flight packet => packet.pushes

/-- A push takes a hop off. -/
theorem toNat_ttlHops_outbound {env : TransactionEnvelope} (h : env.ttlHops ≠ 0) :
    env.outbound.ttlHops.toNat + 1 = env.ttlHops.toNat := by
  have hpos : 0 < env.ttlHops.toNat := by
    rw [Nat.pos_iff_ne_zero]
    exact fun hzero => h (UInt8.toNat_inj.1 hzero)
  have hle : (1 : UInt8) ≤ env.ttlHops := UInt8.le_iff_toNat_le.2 hpos
  show (env.ttlHops - 1).toNat + 1 = _
  rw [UInt8.toNat_sub_of_le _ _ hle]
  exact Nat.sub_add_cancel hpos

/-- **The book of the hops.**  The hops that a copy has left, the pushes that it took and the one
under way are the hops of its original, whose other fields it has. -/
theorem History.hops {n : Network β} {is : List NetworkInput}
    {original env : TransactionEnvelope} {place : Place} {pushes pulls : ℕ}
    (h : History n is original place env pushes pulls) :
    env.ttlHops.toNat + pushes + place.pending = original.ttlHops.toNat ∧
      { env with ttlHops := original.ttlHops } = original := by
  induction h with
  | initial _ => exact ⟨rfl, rfl⟩
  | originated _ _ _ => exact ⟨rfl, rfl⟩
  | moved _ hmove _ ih =>
    obtain ⟨hhops, hfields⟩ := ih
    cases hmove with
    | stays => exact ⟨hhops, hfields⟩
    | pushed p peer fanoutCalc i _ httl =>
      refine ⟨?_, hfields⟩
      have hone := toNat_ttlHops_outbound httl
      simp only [Place.pending, Packet.pushes] at hhops ⊢
      omega
    | answered packet req => exact ⟨hhops, hfields⟩
    | arrived packet _ hflight hcopy =>
      refine ⟨?_, hfields⟩
      simp only [Place.pending] at hhops ⊢
      omega

/-- The step pulls no envelope. -/
def PullsNothing (e : NetworkEvent β) : Prop :=
  ∀ packet resp, e.input = .deliver packet true → packet ∈ e.before.inFlight →
    packet.message = .syncResponse resp → resp.missingEnvelopes = []

/-- The hops that a copy has left and those it took are no more than those of its original, whose
other fields it has, and a push takes a hop off where one is left. -/
structure HopBudget (n : Network β) (is : List NetworkInput) : Prop where
  budget : ∀ original place env pushes pulls, History n is original place env pushes pulls →
    env.ttlHops.toNat + (pushes + pulls) ≤ original.ttlHops.toNat
  fields : ∀ original place env pushes pulls, History n is original place env pushes pulls →
    { env with ttlHops := original.ttlHops } = original
  noUnderflow : ∀ e ∈ trace Network.step n is, ∀ packet ∈ e.output, ∀ env,
    packet.message = .transaction env →
      ∃ waiting ∈ (e.before.node packet.sender).state.activeQueue.iterEnvelopes,
        waiting.ttlHops ≠ 0 ∧ env = waiting.outbound

/-- While nothing is pulled, no copy was. -/
theorem History.pulls_eq_zero {n : Network β} {is : List NetworkInput}
    {original env : TransactionEnvelope} {place : Place} {pushes pulls : ℕ}
    (h : History n is original place env pushes pulls)
    (hcond : ∀ e ∈ trace Network.step n is, PullsNothing e) : pulls = 0 := by
  induction h with
  | initial _ => rfl
  | originated _ _ _ => rfl
  | moved _ hmove _ ih =>
    rw [trace_append] at hcond
    have hbefore := ih fun e he => hcond e (List.mem_append_left _ he)
    cases hmove with
    | stays => omega
    | pushed => omega
    | answered => omega
    | arrived packet _ hflight hcopy =>
      have hlast := hcond _ (List.mem_append_right _ List.mem_cons_self)
      unfold Packet.pulls
      split
      next resp hmessage =>
        simp only [Packet.copies, hmessage, hlast packet resp rfl hflight hmessage] at hcopy
        cases hcopy
      next => omega

/-- A transaction is sent in a round only, where it waited with hops left. -/
theorem exists_waiting_of_sent {n : Network β} {i : NetworkInput} {packet : Packet}
    (h : packet ∈ (n.step i).1) {env : TransactionEnvelope}
    (hmessage : packet.message = .transaction env) :
    ∃ waiting ∈ (n.node packet.sender).state.activeQueue.iterEnvelopes,
      waiting.ttlHops ≠ 0 ∧ env = waiting.outbound := by
  cases i with
  | originate p env' => cases h
  | fanoutRound p fanoutCalc i =>
    obtain ⟨call, hcall, rfl⟩ := List.mem_map.1 h
    obtain ⟨waiting, hwaiting, httl, hcall'⟩ := mem_sends_executeFanoutRound _ _ _ hcall
    have henv : ProtocolMessage.transaction env = .transaction waiting.outbound :=
      hmessage.symm.trans hcall'
    exact ⟨waiting, hwaiting, httl, ProtocolMessage.transaction.inj henv⟩
  | pull p peer =>
    obtain rfl := List.mem_singleton.1 h
    cases hmessage
  | processPacedRecoveryBatch p batchSize => cases h
  | deliver packet' accepted =>
    unfold Network.step at h
    dsimp only at h
    split_ifs at h
    · unfold Network.receive at h
      split at h
      next => cases h
      next =>
        obtain rfl := List.mem_singleton.1 h
        cases hmessage
      next => cases h
      next => cases h
    · cases h
    · cases h

/-- While nothing is pulled, the budget is kept. -/
theorem hopBudget_of_pullsNothing {n : Network β} {is : List NetworkInput}
    (h : ∀ e ∈ trace Network.step n is, PullsNothing e) : HopBudget n is where
  budget original place env pushes pulls hhistory := by
    obtain ⟨hhops, -⟩ := hhistory.hops
    have hpulls := hhistory.pulls_eq_zero h
    omega
  fields original place env pushes pulls hhistory := hhistory.hops.2
  noUnderflow e he packet hpacket env hmessage := by
    obtain ⟨pre, i, post, -, rfl⟩ := mem_trace he
    exact exists_waiting_of_sent hpacket hmessage

/-- Of a response that is not empty, a copy is held. -/
theorem GossipState.exists_mem_held_handleSyncResponse (s : GossipState) {resp : SyncResponse}
    (h : resp.missingEnvelopes ≠ []) :
    ∃ env ∈ resp.missingEnvelopes, env ∈ (s.handleSyncResponse resp).held := by
  rcases Nat.lt_or_ge macroMergeThreshold resp.missingEnvelopes.length with hlt | hle
  · obtain ⟨env, henv⟩ := List.exists_mem_of_ne_nil _ h
    have hbacklog := (s.handleSyncResponse_of_lt hlt).2.mem_iff.2 henv
    exact ⟨env, henv, Multiset.mem_add.2 (Or.inr hbacklog)⟩
  · -- The last one is added last, and is still there.
    obtain ⟨init, last, hsplit⟩ : ∃ init last, resp.missingEnvelopes = init ++ [last] :=
      ⟨_, _, (List.dropLast_append_getLast h).symm⟩
    refine ⟨last, by simp [hsplit], ?_⟩
    rw [s.handleSyncResponse_of_le hle, hsplit, addEnvelopes, List.foldl_append]
    exact Multiset.mem_add.2 (Or.inl (mem_addEnvelope _ _))

/-- A copy that is pulled has more hops left than it may. -/
theorem not_hopBudget_of_pull {n : Network β} (hempty : n.inFlight = []) {is : List NetworkInput}
    {packet : Packet} {resp : SyncResponse}
    (hflight : packet ∈ (exec Network.step n is).inFlight)
    (hmessage : packet.message = .syncResponse resp) (hresp : resp.missingEnvelopes ≠ []) :
    ¬ HopBudget n (is ++ [.deliver packet true]) := by
  intro hbudget
  obtain ⟨env, henv, hheld⟩ := GossipState.exists_mem_held_handleSyncResponse
    ((exec Network.step n is).node packet.receiver).state hresp
  have hcopy : env ∈ packet.copies := by
    rw [Packet.copies, hmessage]
    exact henv
  have hhas : (exec Network.step n (is ++ [.deliver packet true])).Has env
      (.held packet.receiver) := by
    rw [exec_concat]
    simpa [Network.Has, Network.step, hflight, Network.receive, hmessage, Network.send,
      Network.call, Network.setNode, GossipState.step] using hheld
  have hflying : (exec Network.step n is).Has env (.flight packet) := ⟨hflight, hcopy⟩
  obtain ⟨original, pushes, pulls, hhistory⟩ := exists_history hempty hflying
  have hpulled := hbudget.budget _ _ _ _ _ (hhistory.moved (.arrived packet env hflight hcopy) hhas)
  obtain ⟨hhops, -⟩ := hhistory.hops
  simp only [Place.pending, Packet.pushes, Packet.pulls, hmessage] at hhops hpulled
  omega

/-- **Only pushes count as hops.**  In a run that begins with nothing on its way, the hop budget is
kept in every state if and only if no envelope is pulled. -/
theorem hop_budget_iff (n : Network β) (hempty : n.inFlight = []) (is : List NetworkInput) :
    (∀ pre, pre <+: is → HopBudget n pre) ↔
      ∀ e ∈ trace Network.step n is, PullsNothing e := by
  constructor
  · intro hbudget e he packet resp hinput hflight hmessage
    by_contra hresp
    obtain ⟨pre, i, post, rfl, rfl⟩ := mem_trace he
    cases hinput
    exact not_hopBudget_of_pull hempty hflight hmessage hresp (hbudget _ ⟨post, by simp⟩)
  · rintro hcond pre ⟨post, rfl⟩
    refine hopBudget_of_pullsNothing fun e he => hcond e ?_
    rw [trace_append]
    exact List.mem_append_left _ he

end Histories

/-- Nodes that know one peer and hold nothing. -/
def sampleNetwork : Network (ExactFilter (Bytes 32)) where
  node _ := sampleRound
  inFlight := []

/-- The public key of another node. -/
def otherKey : Bytes 32 := List.Vector.replicate 32 1

/-- An envelope with ten hops left is pushed to the peer. -/
def pushRun : List NetworkInput :=
  [.originate otherKey (sampleSigned 1 0).envelope,
    .fanoutRound otherKey FanoutCalculator.new sampleReadings,
    .deliver ⟨otherKey, sampleKey, .transaction (sampleSigned 1 0).envelope.outbound⟩ true]

theorem hop_budget_iff_sample : HopBudget sampleNetwork pushRun := by
  refine (hop_budget_iff sampleNetwork rfl pushRun).2 (fun e he packet resp hinput _ hmessage => ?_)
    pushRun (List.prefix_refl pushRun)
  rcases List.mem_cons.1 he with rfl | he
  · cases hinput
  rcases List.mem_cons.1 he with rfl | he
  · cases hinput
  · obtain rfl := List.mem_singleton.1 he
    cases hinput
    cases hmessage

/-- A node pulls the envelope from its origin. -/
def pullRun : List NetworkInput :=
  [.originate sampleKey (sampleSigned 1 0).envelope, .pull otherKey sampleKey,
    .deliver ⟨otherKey, sampleKey, .syncRequest ⟨[]⟩⟩ true,
    .deliver ⟨sampleKey, otherKey, .syncResponse ⟨[(sampleSigned 1 0).envelope]⟩⟩ true]

/-- The copy that was pulled has all ten hops left. -/
theorem not_hopBudget_sample :
    sampleNetwork.inFlight = [] ∧
      (exec Network.step sampleNetwork pullRun).Has (sampleSigned 1 0).envelope
        (.held otherKey) ∧
      ¬ HopBudget sampleNetwork pullRun := by
  refine ⟨rfl, ?_, ?_⟩
  · show (sampleSigned 1 0).envelope ∈
      ((exec Network.step sampleNetwork pullRun).node otherKey).state.held
    decide +kernel
  · have hflight : ⟨sampleKey, otherKey, .syncResponse ⟨[(sampleSigned 1 0).envelope]⟩⟩ ∈
        (exec Network.step sampleNetwork pullRun.dropLast).inFlight := by decide +kernel
    exact not_hopBudget_of_pull rfl hflight rfl (List.cons_ne_nil _ _)

end StellarConduit
