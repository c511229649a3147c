import Mathlib.Data.Finset.Card
import Mathlib.Logic.Relation
import StellarConduit.Gossip.Forwarding
import StellarConduit.Gossip.Network

/-!
# How far a message gets

Nodes push a message to their neighbours in their rounds, each node once, and a copy loses a hop
with every push.  What the first copy to arrive has lost on its way does not depend on the distance
from the origin alone, so the hops have to suffice for all nodes.

* `Network.lost`: the copies that are lost in a step;
* `Reliable`: a step in which no copy of the message is lost;
* `Spreads`: which nodes have forwarded the message, and how many hops the copies have;
* `everyone_forwards`: when there is no copy any more, every node that can be reached has forwarded
  the message.
-/

namespace StellarConduit

open Verif.Machine

variable {β : Type} {id : Bytes 32}

/-! ### What is lost -/

/-- The copies that a call on a gossip state pushes out of the queue or out of the backlog. -/
def GossipState.lostBy (s : GossipState) (i : GossipInput) : Multiset TransactionEnvelope :=
  overflowed ⟨s, i, (s.step i).1⟩ + replaced ⟨s, i, (s.step i).1⟩

/-- What is held and what a call puts in is held, unless it is taken out or lost. -/
theorem GossipState.mem_held_step_of_mem {s : GossipState} {i : GossipInput}
    (htaken : takenOut ⟨s, i, (s.step i).1⟩ = 0) {env : TransactionEnvelope}
    (h : env ∈ s.held ∨ env ∈ putIn i) : env ∈ (s.step i).2.held ∨ env ∈ s.lostBy i := by
  have hbook := ledger_gossip s i
  dsimp only at hbook
  rw [htaken, zero_add] at hbook
  rw [← Multiset.mem_add, hbook] at h
  exact Multiset.mem_add.1 h

namespace Network

/-- The copies of envelopes that are lost in a step: an envelope that was pushed does not arrive,
or a node has no room for it. -/
def lost (n : Network β) : NetworkInput → Multiset TransactionEnvelope
  | .originate p env => (n.node p).state.lostBy (.addEnvelope env)
  | .processPacedRecoveryBatch p batchSize =>
    (n.node p).state.lostBy (.processPacedRecoveryBatch batchSize)
  | .deliver packet accepted =>
    if packet ∈ n.inFlight then
      match packet.message with
      | .transaction env =>
        if accepted then (n.node packet.receiver).state.lostBy (.addEnvelope env) else ↑[env]
      | .syncResponse resp =>
        if accepted then (n.node packet.receiver).state.lostBy (.handleSyncResponse resp) else 0
      | _ => 0
    else 0
  | _ => 0

/-- The node holds a copy of the message. -/
def Holds (id : Bytes 32) (n : Network β) (p : Bytes 32) : Prop :=
  ∃ env ∈ (n.node p).state.held, env.messageId = id

/-- A copy of the message is on its way to the node. -/
def Awaits (id : Bytes 32) (n : Network β) (p : Bytes 32) : Prop :=
  ∃ packet ∈ n.inFlight, packet.receiver = p ∧
    ∃ env, packet.message = .transaction env ∧ env.messageId = id

theorem node_call (n : Network β) (p : Bytes 32) (i : GossipInput) (q : Bytes 32) :
    (n.call p i).node q =
      if q = p then { n.node p with state := ((n.node p).state.step i).2 } else n.node q :=
  Function.update_apply _ _ _ _

theorem Holds.call {n : Network β} {p q : Bytes 32} {i : GossipInput}
    (htaken : takenOut ⟨(n.node p).state, i, ((n.node p).state.step i).1⟩ = 0)
    (hlost : ∀ env ∈ (n.node p).state.lostBy i, env.messageId ≠ id)
    (h : n.Holds id q ∨ p = q ∧ ∃ env ∈ putIn i, env.messageId = id) :
    (n.call p i).Holds id q := by
  by_cases hq : q = p
  · subst hq
    obtain ⟨env, henv, hid⟩ : ∃ env, (env ∈ (n.node q).state.held ∨ env ∈ putIn i) ∧
        env.messageId = id := by
      rcases h with ⟨env, henv, hid⟩ | ⟨-, env, henv, hid⟩
      · exact ⟨env, .inl henv, hid⟩
      · exact ⟨env, .inr henv, hid⟩
    rcases GossipState.mem_held_step_of_mem htaken henv with hheld | hgone
    · refine ⟨env, ?_, hid⟩
      simpa [Network.call, setNode] using hheld
    · exact absurd hid (hlost env hgone)
  · rcases h with ⟨env, henv, hid⟩ | ⟨heq, -⟩
    · refine ⟨env, ?_, hid⟩
      simpa [Network.call, setNode, hq] using henv
    · exact absurd heq.symm hq

/-- A copy on its way is still on its way when a packet is gone, or it was in that packet. -/
theorem Awaits.erase {n : Network β} {q : Bytes 32} (packet : Packet) (h : n.Awaits id q) :
    Awaits id { n with inFlight := n.inFlight.erase packet } q ∨ packet.receiver = q ∧
      ∃ env, packet.message = .transaction env ∧ env.messageId = id := by
  obtain ⟨other, hother, hcopy⟩ := h
  by_cases heq : other = packet
  · exact .inr (heq ▸ hcopy)
  · exact .inl ⟨other, (List.mem_erase_of_ne heq).2 hother, hcopy⟩

/-- A packet that is accepted gets to the node, with the copy in it. -/
theorem pending_receive {n : Network β} {packet : Packet} {q : Bytes 32}
    (hlossless : ∀ env ∈ (match packet.message with
      | .transaction env => (n.node packet.receiver).state.lostBy (.addEnvelope env)
      | .syncResponse resp => (n.node packet.receiver).state.lostBy (.handleSyncResponse resp)
      | _ => 0), env.messageId ≠ id)
    (h : n.Holds id q ∨ n.Awaits id q ∨ packet.receiver = q ∧
      ∃ env, packet.message = .transaction env ∧ env.messageId = id) :
    ((n.receive packet).2.send (n.receive packet).1).Holds id q ∨
      ((n.receive packet).2.send (n.receive packet).1).Awaits id q := by
  have hkept : n.Awaits id q → ∀ i, ((n.call packet.receiver i).send []).Awaits id q :=
    fun ⟨other, hother, hcopy⟩ _ => ⟨other, List.mem_append_left _ hother, hcopy⟩
  unfold receive
  cases hmessage : packet.message with
  | transaction env =>
    rw [hmessage] at hlossless h
    rcases h with hholds | hawaits | ⟨heq, env', hcopy, hid⟩
    · exact .inl (Holds.call rfl hlossless (.inl hholds))
    · exact .inr (hkept hawaits _)
    · obtain rfl := ProtocolMessage.transaction.inj hcopy
      exact .inl (Holds.call rfl hlossless (.inr ⟨heq, env, Multiset.mem_coe.2 (by simp), hid⟩))
  | syncResponse resp =>
    rw [hmessage] at hlossless h
    rcases h with hholds | hawaits | ⟨-, env', hcopy, -⟩
    · exact .inl (Holds.call rfl hlossless (.inl hholds))
    · exact .inr (hkept hawaits _)
    · cases hcopy
  | _ =>
    rw [hmessage] at h
    rcases h with hholds | ⟨other, hother, hcopy⟩ | ⟨-, env', hcopy, -⟩
    · exact .inl hholds
    · exact .inr ⟨other, List.mem_append_left _ hother, hcopy⟩
    · cases hcopy

section Runs

variable [Bloom β (Bytes 32)]

/-- The node sends a copy of the message in one of the packets. -/
def Offers (id : Bytes 32) (packets : List Packet) (p : Bytes 32) : Prop :=
  ∃ packet ∈ packets, packet.sender = p ∧
    ∃ env, packet.message = .transaction env ∧ env.messageId = id

/-- The node that offers a copy of the message. -/
def forwarder? (id : Bytes 32) (packet : Packet) : Option (Bytes 32) :=
  match packet.message with
  | .transaction env => if env.messageId = id then some packet.sender else none
  | _ => none

/-- The nodes that have forwarded the message in the run. -/
def forwarders (id : Bytes 32) (n : Network β) (is : List NetworkInput) : Finset (Bytes 32) :=
  (((trace step n is).flatMap Event.output).filterMap (forwarder? id)).toFinset

/-- How many envelopes the node takes off its queue in a step. -/
def taken (p : Bytes 32) (e : NetworkEvent β) : ℕ :=
  match e.input with
  | .fanoutRound q _ i => if q = p then ((e.before.node p).batch i).length else 0
  | _ => 0

/-- How many envelopes the node has taken off its queue in the rounds of the run. -/
def handled (n : Network β) (is : List NetworkInput) (p : Bytes 32) : ℕ :=
  ((trace step n is).map (taken p)).sum

theorem handled_concat (n : Network β) (is : List NetworkInput) (i : NetworkInput) (p : Bytes 32) :
    n.handled (is ++ [i]) p =
      n.handled is p + taken p ⟨exec step n is, i, ((exec step n is).step i).1⟩ := by
  unfold handled
  rw [trace_append, List.map_append, List.sum_append]
  rfl

theorem handled_round (n : Network β) (is : List NetworkInput) (p : Bytes 32)
    (fanoutCalc : FanoutCalculator) (i : RoundInput) (q : Bytes 32) :
    n.handled (is ++ [.fanoutRound p fanoutCalc i]) q =
      n.handled is q + if p = q then (((exec step n is).node q).batch i).length else 0 :=
  handled_concat n is _ q

theorem handled_of_ne_round {n : Network β} {is : List NetworkInput} {i : NetworkInput}
    (hround : ∀ p fanoutCalc round, i ≠ .fanoutRound p fanoutCalc round) (p : Bytes 32) :
    n.handled (is ++ [i]) p = n.handled is p := by
  rw [handled_concat]
  unfold taken
  split
  next q fanoutCalc round hi => exact absurd hi (hround q fanoutCalc round)
  next => rfl

theorem handled_le (n : Network β) (is : List NetworkInput) (p : Bytes 32) :
    n.handled is p ≤ is.length * fanoutBatchSize := by
  have htaken : ∀ k ∈ (trace step n is).map (taken p), k ≤ fanoutBatchSize := by
    intro k hk
    obtain ⟨e, -, rfl⟩ := List.mem_map.1 hk
    unfold taken
    split
    · split_ifs
      · exact RoundState.length_batch_le _ _
      · exact Nat.zero_le _
    · exact Nat.zero_le _
  have hlength : (trace step n is).length = is.length := by
    conv_rhs => rw [← map_input_trace step n is, List.length_map]
  have hle := List.sum_le_card_nsmul _ _ htaken
  rw [List.length_map, hlength] at hle
  exact hle

theorem mem_filterMap_forwarder? {packets : List Packet} {p : Bytes 32} :
    p ∈ packets.filterMap (forwarder? id) ↔ Offers id packets p := by
  rw [List.mem_filterMap]
  refine exists_congr fun packet => and_congr_right fun _ => ?_
  unfold forwarder?
  constructor
  · intro h
    split at h
    next env hmessage =>
      obtain ⟨hid, hsender⟩ := Option.ite_none_right_eq_some.1 h
      exact ⟨Option.some.inj hsender, env, hmessage, hid⟩
    next => cases h
  · rintro ⟨rfl, env, hmessage, hid⟩
    rw [hmessage]
    exact if_pos hid

theorem mem_forwarders_concat {n : Network β} {is : List NetworkInput} {i : NetworkInput}
    {p : Bytes 32} : p ∈ forwarders id n (is ++ [i]) ↔
      p ∈ forwarders id n is ∨ Offers id ((exec step n is).step i).1 p := by
  unfold forwarders
  rw [trace_append, List.flatMap_append, List.filterMap_append, List.toFinset_append,
    Finset.mem_union, ← mem_filterMap_forwarder?,
    ← List.mem_toFinset (l := List.filterMap _ ((exec step n is).step i).1)]
  simp

/-- Only rounds offer copies. -/
theorem exists_round_of_offers {n : Network β} {i : NetworkInput} {p : Bytes 32}
    (h : Offers id (n.step i).1 p) : ∃ fanoutCalc round, i = .fanoutRound p fanoutCalc round := by
  obtain ⟨packet, hpacket, rfl, env, hmessage, -⟩ := h
  cases i with
  | originate p env' => cases hpacket
  | fanoutRound p fanoutCalc i =>
    obtain ⟨call, -, rfl⟩ := List.mem_map.1 hpacket
    exact ⟨fanoutCalc, i, rfl⟩
  | pull p peer =>
    obtain rfl := List.mem_singleton.1 hpacket
    cases hmessage
  | processPacedRecoveryBatch p batchSize => cases hpacket
  | deliver packet' accepted =>
    unfold Network.step at hpacket
    dsimp only at hpacket
    split_ifs at hpacket
    · unfold Network.receive at hpacket
      split at hpacket
      next => cases hpacket
      next =>
        obtain rfl := List.mem_singleton.1 hpacket
        cases hmessage
      next => cases hpacket
      next => cases hpacket
    · cases hpacket
    · cases hpacket

/-! ### What a step does to the copies -/

/-- Outside of rounds, a node to which a copy was on its way, or which held one, still does. -/
theorem pending_step {n : Network β} {i : NetworkInput} {q : Bytes 32}
    (hround : ∀ p fanoutCalc round, i ≠ .fanoutRound p fanoutCalc round)
    (hlossless : ∀ env ∈ n.lost i, env.messageId ≠ id) (h : n.Holds id q ∨ n.Awaits id q) :
    (n.step i).2.Holds id q ∨ (n.step i).2.Awaits id q := by
  cases i with
  | originate p env => exact h.imp_left fun hholds => Holds.call rfl hlossless (.inl hholds)
  | fanoutRound p fanoutCalc round => exact absurd rfl (hround p fanoutCalc round)
  | pull p peer =>
    exact h.imp_right fun ⟨packet, hpacket, hcopy⟩ =>
      ⟨packet, List.mem_append_left _ hpacket, hcopy⟩
  | processPacedRecoveryBatch p batchSize =>
    exact h.imp_left fun hholds => Holds.call rfl hlossless (.inl hholds)
  | deliver packet accepted =>
    unfold Network.step
    unfold lost at hlossless
    dsimp only at hlossless ⊢
    by_cases hflight : packet ∈ n.inFlight
    · rw [if_pos hflight] at hlossless ⊢
      have hwhere : _ ∨ _ ∨ _ := h.imp_right (Awaits.erase packet)
      cases accepted with
      | true =>
        exact pending_receive (n := { n with inFlight := n.inFlight.erase packet })
          (by simpa using hlossless) hwhere
      | false =>
        rcases hwhere with hholds | hawaits | ⟨-, env, hcopy, hid⟩
        · exact .inl hholds
        · exact .inr hawaits
        · rw [hcopy] at hlossless
          exact absurd hid (hlossless env (by simp))
    · rw [if_neg hflight]
      exact h

/-- The node that does something in a step. -/
def actor : NetworkInput → Bytes 32
  | .originate p _ | .fanoutRound p _ _ | .pull p _ | .processPacedRecoveryBatch p _ => p
  | .deliver packet _ => packet.receiver

theorem node_step_of_ne {n : Network β} {i : NetworkInput} {q : Bytes 32} (h : q ≠ actor i) :
    (n.step i).2.node q = n.node q := by
  cases i with
  | originate p env => exact (n.node_call p _ q).trans (if_neg h)
  | fanoutRound p fanoutCalc i => exact (Function.update_apply _ _ _ _).trans (if_neg h)
  | pull p peer => rfl
  | processPacedRecoveryBatch p batchSize => exact (n.node_call p _ q).trans (if_neg h)
  | deliver packet accepted =>
    unfold Network.step
    dsimp only
    split_ifs
    · unfold receive
      split
      next => exact (node_call _ packet.receiver _ q).trans (if_neg h)
      next => rfl
      next => exact (node_call _ packet.receiver _ q).trans (if_neg h)
      next => rfl
    · rfl
    · rfl

/-- Outside of rounds only the gossip states change. -/
theorem node_step_of_ne_round {n : Network β} {i : NetworkInput}
    (hround : ∀ p fanoutCalc round, i ≠ .fanoutRound p fanoutCalc round) (q : Bytes 32) :
    ∃ state, (n.step i).2.node q = { n.node q with state := state } := by
  have hcall : ∀ (m : Network β) p i,
      ∃ state, (m.call p i).node q = { m.node q with state := state } := by
    intro m p i
    rw [node_call]
    split_ifs with hq
    · rw [hq]
      exact ⟨_, rfl⟩
    · exact ⟨(m.node q).state, rfl⟩
  have hsame : ∃ state, n.node q = { n.node q with state := state } := ⟨(n.node q).state, rfl⟩
  cases i with
  | originate p env => exact hcall n p _
  | fanoutRound p fanoutCalc round => exact absurd rfl (hround p fanoutCalc round)
  | pull p peer => exact hsame
  | processPacedRecoveryBatch p batchSize => exact hcall n p _
  | deliver packet accepted =>
    unfold Network.step
    dsimp only
    split_ifs
    · unfold receive
      split
      next => exact hcall { n with inFlight := n.inFlight.erase packet } packet.receiver _
      next => exact hsame
      next => exact hcall { n with inFlight := n.inFlight.erase packet } packet.receiver _
      next => exact hsame
    · exact hsame
    · exact hsame

/-- Outside of rounds, a copy has the hops of one that was there before, or was originated. -/
theorem has_step {n : Network β} {i : NetworkInput}
    (hround : ∀ p fanoutCalc round, i ≠ .fanoutRound p fanoutCalc round)
    {env : TransactionEnvelope} {place : Place} (h : (n.step i).2.Has env place) :
    (∃ p, i = .originate p env) ∨ ∃ place, n.Has env place := by
  rcases comes_step h with ⟨p, hi, -⟩ | ⟨place', env', pushes, pulls, hold, hmove⟩
  · exact .inl ⟨p, hi⟩
  · refine .inr ⟨place', ?_⟩
    cases hmove with
    | stays => exact hold
    | pushed p peer fanoutCalc round => exact absurd rfl (hround p fanoutCalc round)
    | answered => exact hold
    | arrived => exact hold

theorem node_round (n : Network β) (p : Bytes 32) (fanoutCalc : FanoutCalculator) (i : RoundInput)
    (q : Bytes 32) : (n.step (.fanoutRound p fanoutCalc i)).2.node q =
      if q = p then (executeFanoutRound fanoutCalc (n.node p) i).2 else n.node q :=
  Function.update_apply _ _ _ _

theorem offers_round_iff {n : Network β} {p : Bytes 32} {fanoutCalc : FanoutCalculator}
    {i : RoundInput} {q : Bytes 32} : Offers id (n.step (.fanoutRound p fanoutCalc i)).1 q ↔
      p = q ∧ Pushes id (executeFanoutRound fanoutCalc (n.node p) i).1 := by
  constructor
  · rintro ⟨packet, hpacket, rfl, hcopy⟩
    obtain ⟨call, hcall, rfl⟩ := List.mem_map.1 hpacket
    exact ⟨rfl, call, hcall, hcopy⟩
  · rintro ⟨rfl, call, hcall, hcopy⟩
    exact ⟨_, List.mem_map_of_mem hcall, rfl, hcopy⟩

/-- After a round a copy was there before, or was offered. -/
theorem has_round {n : Network β} {p : Bytes 32} {fanoutCalc : FanoutCalculator} {i : RoundInput}
    {env : TransactionEnvelope} {place : Place}
    (h : (n.step (.fanoutRound p fanoutCalc i)).2.Has env place) :
    (∃ place, n.Has env place) ∨ ∃ call ∈ (executeFanoutRound fanoutCalc (n.node p) i).1,
      call.message = .transaction env := by
  rcases has_send h with hold | ⟨packet, hpacket, -, hcopy⟩
  · rcases has_setNode hold with hold | ⟨-, hheld⟩
    · exact .inl ⟨place, hold⟩
    · exact .inl ⟨.held p, mem_held_executeFanoutRound hheld⟩
  · obtain ⟨call, hcall, rfl⟩ := List.mem_map.1 hpacket
    obtain ⟨waiting, -, -, hmessage⟩ := mem_sends_executeFanoutRound _ _ _ hcall
    refine .inr ⟨call, hcall, ?_⟩
    have henv : env = waiting.outbound := by
      simpa [Packet.copies, hmessage, TransactionEnvelope.outbound] using hcopy
    rw [hmessage, henv]
    rfl

/-- What a node holds when it begins a round it takes or still holds. -/
theorem Holds.round {n : Network β} {q : Bytes 32} (h : n.Holds id q) (p : Bytes 32)
    (fanoutCalc : FanoutCalculator) (i : RoundInput) :
    (n.step (.fanoutRound p fanoutCalc i)).2.Holds id q ∨
      p = q ∧ ∃ env ∈ (n.node p).batch i, env.messageId = id := by
  obtain ⟨env, henv, hid⟩ := h
  by_cases hq : q = p
  · subst hq
    rcases Multiset.mem_add.1 henv with hqueue | hbacklog
    · rcases List.mem_append.1 ((batch_append_iterEnvelopes fanoutCalc (n.node q) i).mem_iff.2
        hqueue) with hbatch | hleft
      · exact .inr ⟨rfl, env, hbatch, hid⟩
      · refine .inl ⟨env, Multiset.mem_add.2 (.inl ?_), hid⟩
        rw [node_round, if_pos rfl]
        exact hleft
    · refine .inl ⟨env, Multiset.mem_add.2 (.inr ?_), hid⟩
      rw [node_round, if_pos rfl, macroMergeBacklog_executeFanoutRound]
      exact hbacklog
  · refine .inl ⟨env, ?_, hid⟩
    rw [node_round, if_neg hq]
    exact henv

/-! ### Runs -/

/-- A step in which no copy of the message is lost.  A message that is originated has as many hops
as there are nodes in `V`, and a node that takes a batch in a round is one of these, and chooses all
its neighbours under `R`. -/
structure Reliable (id : Bytes 32) (V : Finset (Bytes 32)) (R : Bytes 32 → Bytes 32 → Prop)
    (e : NetworkEvent β) : Prop where
  lossless : ∀ env ∈ e.before.lost e.input, env.messageId ≠ id
  origin : ∀ p env, e.input = .originate p env → env.messageId = id → V.card ≤ env.ttlHops.toNat
  round : ∀ p fanoutCalc i, e.input = .fanoutRound p fanoutCalc i →
    (e.before.node p).batch i ≠ [] →
      p ∈ V ∧ ∀ q, R p q → ∃ peer ∈ (e.before.node p).recipients fanoutCalc i, peer.pubkey = q

/-- The node has forwarded the message in the run, or it holds a copy, or one is on its way to
it. -/
def Reached (id : Bytes 32) (n : Network β) (is : List NetworkInput) (q : Bytes 32) : Prop :=
  q ∈ forwarders id n is ∨ (exec step n is).Holds id q ∨ (exec step n is).Awaits id q

/-- How far the message has got in a run: every copy has a hop for each node that is left. -/
structure Spreads (id : Bytes 32) (V : Finset (Bytes 32)) (R : Bytes 32 → Bytes 32 → Prop)
    (n : Network β) (is : List NetworkInput) : Prop where
  subset : forwarders id n is ⊆ V
  hops : ∀ env place, (exec step n is).Has env place → env.messageId = id →
    V.card ≤ env.ttlHops.toNat + (forwarders id n is).card
  tracks : ∀ p, Tracks id (p ∈ forwarders id n is) ((exec step n is).node p).bloom (n.handled is p)
  covered : ∀ p ∈ forwarders id n is, ∀ q, R p q → Reached id n is q
  origins : ∀ p env, .originate p env ∈ is → env.messageId = id → Reached id n is p

variable {V : Finset (Bytes 32)} {R : Bytes 32 → Bytes 32 → Prop} {n : Network β}
  {is : List NetworkInput}

/-- At the beginning nobody has forwarded the message, and there is no copy of it. -/
theorem spreads_nil (hfilter : NoFalsePositive β id)
    (hnew : ∀ p, (n.node p).bloom = .new 10000 0.01)
    (hnone : ∀ env place, n.Has env place → env.messageId ≠ id) : Spreads id V R n [] where
  subset := Finset.empty_subset V
  hops env place hhas hid := absurd hid (hnone env place hhas)
  tracks p := by
    show Tracks id _ (n.node p).bloom _
    rw [hnew p]
    refine ⟨rfl, fun _ => ⟨?_, [], .new 10000 0.01, Nat.zero_le _⟩, fun hmem => ?_⟩
    · rw [SlidingBloomFilter.check, SlidingBloomFilter.new, hfilter.check_new]
      rfl
    · exact absurd hmem (Finset.notMem_empty p)
  covered p hp := absurd hp (Finset.notMem_empty p)
  origins p env hmem := absurd hmem List.not_mem_nil

/-- A step that is no round keeps the picture. -/
theorem Spreads.concat_of_ne_round {i : NetworkInput} (h : Spreads id V R n is)
    (hround : ∀ p fanoutCalc round, i ≠ .fanoutRound p fanoutCalc round)
    (hreliable : Reliable id V R ⟨exec step n is, i, ((exec step n is).step i).1⟩) :
    Spreads id V R n (is ++ [i]) := by
  have hforwarders : forwarders id n (is ++ [i]) = forwarders id n is := by
    ext p
    rw [mem_forwarders_concat]
    refine or_iff_left fun hoffers => ?_
    obtain ⟨fanoutCalc, round, hi⟩ := exists_round_of_offers hoffers
    exact hround p fanoutCalc round hi
  have hhandled : ∀ p, n.handled (is ++ [i]) p = n.handled is p := handled_of_ne_round hround
  have hreached : ∀ {q}, Reached id n is q → Reached id n (is ++ [i]) q := by
    intro q hq
    unfold Reached
    rw [hforwarders, exec_concat]
    exact hq.imp_right (pending_step hround hreliable.lossless)
  refine ⟨?_, fun env place hhas hid => ?_, fun p => ?_, fun p hp q hpq => ?_,
    fun p env hmem hid => ?_⟩
  · rw [hforwarders]
    exact h.subset
  · rw [hforwarders]
    rw [exec_concat] at hhas
    rcases has_step hround hhas with ⟨p, hi⟩ | ⟨place', hold⟩
    · exact (hreliable.origin p env hi hid).trans (Nat.le_add_right _ _)
    · exact h.hops env place' hold hid
  · obtain ⟨state, hnode⟩ := node_step_of_ne_round (n := exec step n is) hround p
    rw [hforwarders, hhandled, exec_concat, hnode]
    exact h.tracks p
  · rw [hforwarders] at hp
    exact hreached (h.covered p hp q hpq)
  · rcases List.mem_append.1 hmem with hmem | hmem
    · exact hreached (h.origins p env hmem hid)
    · obtain rfl := List.mem_singleton.1 hmem
      refine .inr (.inl ?_)
      rw [exec_concat]
      exact Holds.call rfl hreliable.lossless
        (.inr ⟨rfl, env, Multiset.mem_coe.2 (by simp), hid⟩)

section Round

variable {p : Bytes 32} {fanoutCalc : FanoutCalculator} {i : RoundInput}

theorem mem_forwarders_round {q : Bytes 32} :
    q ∈ forwarders id n (is ++ [.fanoutRound p fanoutCalc i]) ↔ q ∈ forwarders id n is ∨
      p = q ∧ Pushes id (executeFanoutRound fanoutCalc ((exec step n is).node p) i).1 := by
  rw [mem_forwarders_concat, offers_round_iff]

theorem forwarders_subset_round :
    forwarders id n is ⊆ forwarders id n (is ++ [.fanoutRound p fanoutCalc i]) :=
  fun _ hq => mem_forwarders_round.2 (.inl hq)

/-- A node that takes part and has not forwarded the message is left over, so that the copies in its
batch have a hop. -/
theorem Spreads.live_of_mem_batch (h : Spreads id V R n is) (hV : p ∈ V)
    (hp : p ∉ forwarders id n is) {env : TransactionEnvelope}
    (henv : env ∈ ((exec step n is).node p).batch i) (hid : env.messageId = id) :
    env.ttlHops ≠ 0 := by
  intro hzero
  have hwaiting := (batch_append_iterEnvelopes FanoutCalculator.new _ i).mem_iff.1
    (List.mem_append_left _ henv)
  have hhops := h.hops env (.held p) (Multiset.mem_add.2 (.inl hwaiting)) hid
  have hlt : (forwarders id n is).card < V.card :=
    Finset.card_lt_card ((Finset.ssubset_iff_of_subset h.subset).2 ⟨p, hV, hp⟩)
  rw [hzero] at hhops
  have hzero' : (0 : UInt8).toNat = 0 := rfl
  omega

/-- Who was reached stays so, if the round pushes the copies that it takes. -/
theorem Reached.round {q : Bytes 32} (h : Reached id n is q)
    (hpushes : p ∉ forwarders id n is →
      (∃ env ∈ ((exec step n is).node p).batch i, env.messageId = id) →
        Pushes id (executeFanoutRound fanoutCalc ((exec step n is).node p) i).1) :
    Reached id n (is ++ [.fanoutRound p fanoutCalc i]) q := by
  unfold Reached
  rw [exec_concat]
  rcases h with hq | hholds | ⟨packet, hpacket, hcopy⟩
  · exact .inl (forwarders_subset_round hq)
  · rcases hholds.round p fanoutCalc i with hholds | ⟨rfl, hbatch⟩
    · exact .inr (.inl hholds)
    · by_cases hp : p ∈ forwarders id n is
      · exact .inl (forwarders_subset_round hp)
      · exact .inl (mem_forwarders_round.2 (.inr ⟨rfl, hpushes hp hbatch⟩))
  · exact .inr (.inr ⟨packet, List.mem_append_left _ hpacket, hcopy⟩)

/-- The copies that are pushed have lost a hop, but one more node has forwarded the message. -/
theorem Spreads.hops_round (h : Spreads id V R n is)
    (hV : ∀ {env}, env ∈ ((exec step n is).node p).batch i → p ∈ V)
    (hpushed : Pushes id (executeFanoutRound fanoutCalc ((exec step n is).node p) i).1 →
      p ∉ forwarders id n is ∧ ∃ waiting ∈ ((exec step n is).node p).batch i,
        waiting.messageId = id ∧
        ∀ call ∈ (executeFanoutRound fanoutCalc ((exec step n is).node p) i).1,
          ∀ env, call.message = .transaction env → env.messageId = id → env = waiting.outbound)
    {env : TransactionEnvelope} {place : Place}
    (hhas : (exec step n (is ++ [.fanoutRound p fanoutCalc i])).Has env place)
    (hid : env.messageId = id) :
    V.card ≤ env.ttlHops.toNat +
      (forwarders id n (is ++ [.fanoutRound p fanoutCalc i])).card := by
  rw [exec_concat] at hhas
  rcases has_round hhas with ⟨place', hold⟩ | ⟨call, hcall, hmessage⟩
  · have hhops := h.hops env place' hold hid
    have hcard : (forwarders id n is).card ≤
        (forwarders id n (is ++ [.fanoutRound p fanoutCalc i])).card :=
      Finset.card_le_card forwarders_subset_round
    omega
  · have hpushes : Pushes id (executeFanoutRound fanoutCalc _ i).1 :=
      ⟨call, hcall, env, hmessage, hid⟩
    obtain ⟨hp, waiting, hbatch, hid', honly⟩ := hpushed hpushes
    obtain rfl := honly call hcall env hmessage hid
    have hmore : (forwarders id n is).card <
        (forwarders id n (is ++ [.fanoutRound p fanoutCalc i])).card :=
      Finset.card_lt_card ((Finset.ssubset_iff_of_subset forwarders_subset_round).2
        ⟨p, mem_forwarders_round.2 (.inr ⟨rfl, hpushes⟩), hp⟩)
    have hwaiting := (batch_append_iterEnvelopes fanoutCalc _ i).mem_iff.1
      (List.mem_append_left _ hbatch)
    have hhops := h.hops waiting (.held p) (Multiset.mem_add.2 (.inl hwaiting)) hid'
    have hone := toNat_ttlHops_outbound (h.live_of_mem_batch (hV hbatch) hp hbatch hid')
    omega

end Round

variable [LawfulBloom β]

/-- A round keeps the picture, too. -/
theorem Spreads.concat_round {p : Bytes 32} {fanoutCalc : FanoutCalculator} {i : RoundInput}
    (h : Spreads id V R n is) (hfilter : NoFalsePositive β id)
    (hreliable : Reliable id V R ⟨exec step n is, .fanoutRound p fanoutCalc i,
      ((exec step n is).step (.fanoutRound p fanoutCalc i)).1⟩)
    (hcount : n.handled (is ++ [.fanoutRound p fanoutCalc i]) p ≤ 10000) :
    Spreads id V R n (is ++ [.fanoutRound p fanoutCalc i]) := by
  let s := (exec step n is).node p
  rw [handled_round, if_pos rfl] at hcount
  have hV : ∀ {env}, env ∈ s.batch i → p ∈ V := fun henv =>
    (hreliable.round p fanoutCalc i rfl (List.ne_nil_of_mem henv)).1
  have hlive : p ∉ forwarders id n is → ∀ env ∈ s.batch i, env.messageId = id →
      env.ttlHops ≠ 0 := fun hp env henv => h.live_of_mem_batch (hV henv) hp henv
  obtain ⟨hpushes, htracks⟩ := (h.tracks p).round fanoutCalc hfilter hcount hlive
  have hpushed := (h.tracks p).pushed fanoutCalc hfilter hcount hlive
  have hreached : ∀ {q}, Reached id n is q →
      Reached id n (is ++ [.fanoutRound p fanoutCalc i]) q :=
    fun hq => hq.round fun hp hbatch => hpushes.2 ⟨hp, hbatch⟩
  refine ⟨fun q hq => ?_, fun env place hhas hid => ?_, fun q => ?_, fun q hq q' hR => ?_,
    fun q env horiginate hid => ?_⟩
  · rcases mem_forwarders_round.1 hq with hq | ⟨rfl, hyes⟩
    · exact h.subset hq
    · obtain ⟨-, env, henv, -⟩ := hpushes.1 hyes
      exact hV henv
  · refine h.hops_round hV (fun hyes => ?_) hhas hid
    obtain ⟨waiting, hbatch, hid', -, honly⟩ := hpushed hyes
    exact ⟨(hpushes.1 hyes).1, waiting, hbatch, hid', honly⟩
  · rw [exec_concat, node_round, handled_round, mem_forwarders_round]
    by_cases hq : q = p
    · subst hq
      rw [if_pos rfl, if_pos rfl, eq_true (rfl : q = q), true_and]
      exact htracks
    · rw [if_neg hq, if_neg (Ne.symm hq), eq_false (Ne.symm hq), false_and, or_false]
      exact h.tracks q
  · rcases mem_forwarders_round.1 hq with hq | ⟨rfl, hyes⟩
    · exact hreached (h.covered q hq q' hR)
    · obtain ⟨env, hbatch, hid, hoffered, -⟩ := hpushed hyes
      obtain ⟨-, hlinks⟩ := hreliable.round p fanoutCalc i rfl (List.ne_nil_of_mem hbatch)
      obtain ⟨peer, hpeer, rfl⟩ := hlinks q' hR
      refine .inr (.inr ?_)
      rw [exec_concat]
      exact ⟨_, List.mem_append_right _ (List.mem_map_of_mem (hoffered peer hpeer)), rfl,
        env.outbound, rfl, hid⟩
  · rcases List.mem_append.1 horiginate with hold | hnew
    · exact hreached (h.origins q env hold hid)
    · cases List.mem_singleton.1 hnew

/-- So it is after every run. -/
theorem spreads_run (hfilter : NoFalsePositive β id)
    (hnew : ∀ p, (n.node p).bloom = .new 10000 0.01)
    (hnone : ∀ env place, n.Has env place → env.messageId ≠ id)
    (hreliable : ∀ e ∈ trace step n is, Reliable id V R e)
    (hcount : ∀ p, n.handled is p ≤ 10000) : Spreads id V R n is := by
  induction is using List.reverseRecOn with
  | nil => exact spreads_nil hfilter hnew hnone
  | append_singleton is i ih =>
    rw [trace_append] at hreliable
    have hlast := hreliable _ (List.mem_append_right _ List.mem_cons_self)
    have hbefore := ih (fun e he => hreliable e (List.mem_append_left _ he)) fun p => by
      have hle := hcount p
      rw [handled_concat] at hle
      omega
    cases i with
    | fanoutRound p fanoutCalc round => exact hbefore.concat_round hfilter hlast (hcount p)
    | _ => exact hbefore.concat_of_ne_round (by simp) hlast

/-- **Everyone forwards the message.**  Nodes with fresh filters run until no copy of the message is
held or on its way.  If no copy was lost, the filters had no false positives on the message and were
not overrun, and its hops are as many as the nodes that take part, then every node that can be
reached from its origin has forwarded it. -/
theorem everyone_forwards (hfilter : NoFalsePositive β id)
    (hnew : ∀ p, (n.node p).bloom = .new 10000 0.01)
    (hnone : ∀ env place, n.Has env place → env.messageId ≠ id)
    (hreliable : ∀ e ∈ trace step n is, Reliable id V R e)
    (hcount : ∀ p, n.handled is p ≤ 10000)
    (hquiet : ∀ p, ¬ (exec step n is).Holds id p ∧ ¬ (exec step n is).Awaits id p)
    {origin : Bytes 32} {env : TransactionEnvelope} (horigin : .originate origin env ∈ is)
    (hid : env.messageId = id) {q : Bytes 32} (hpath : Relation.ReflTransGen R origin q) :
    q ∈ forwarders id n is := by
  have hspreads : Spreads id V R n is := spreads_run hfilter hnew hnone hreliable hcount
  have hforwarded : ∀ {p}, Reached id n is p → p ∈ forwarders id n is := by
    rintro p (hp | hholds | hawaits)
    · exact hp
    · exact absurd hholds (hquiet p).1
    · exact absurd hawaits (hquiet p).2
  induction hpath with
  | refl => exact hforwarded (hspreads.origins origin env horigin hid)
  | tail _ hR ih => exact hforwarded (hspreads.covered _ ih _ hR)

end Runs

end Network

/-- An envelope is pushed to the peer, which pushes it to itself. -/
def floodRun : List NetworkInput :=
  [.originate otherKey (sampleSigned 1 0).envelope,
    .fanoutRound otherKey FanoutCalculator.new sampleReadings,
    .deliver ⟨otherKey, sampleKey, .transaction (sampleSigned 1 0).envelope.outbound⟩ true,
    .fanoutRound sampleKey FanoutCalculator.new sampleReadings,
    .deliver ⟨sampleKey, sampleKey,
      .transaction (sampleSigned 1 0).envelope.outbound.outbound⟩ true,
    .fanoutRound sampleKey FanoutCalculator.new sampleReadings]

/-- The peer forwards it. -/
theorem everyone_forwards_sample :
    sampleKey ∈ sampleNetwork.forwarders (sampleSigned 1 0).envelope.messageId floodRun := by
  have horigin : .originate otherKey (sampleSigned 1 0).envelope ∈ floodRun := List.mem_cons_self
  have hactors : ∀ i ∈ floodRun, Network.actor i = otherKey ∨ Network.actor i = sampleKey := by
    decide +kernel
  have hinputs : ∀ e ∈ trace Network.step sampleNetwork floodRun, e.input ∈ floodRun := by
    intro e he
    have hmem := List.mem_map_of_mem (f := Event.input) he
    rwa [map_input_trace] at hmem
  refine Network.everyone_forwards (V := {otherKey, sampleKey}) (R := fun _ q => q = sampleKey)
    (ExactFilter.noFalsePositive _) (fun _ => rfl) ?_ (fun e he => ⟨?_, ?_, ?_⟩) (fun p => ?_)
    (fun p => ⟨?_, ?_⟩) horigin rfl (.single rfl)
  · rintro env (p | packet) hhas
    · exact absurd hhas (Multiset.notMem_zero env)
    · exact absurd hhas.1 List.not_mem_nil
  · have hlost : ∀ e ∈ trace Network.step sampleNetwork floodRun, e.before.lost e.input = 0 := by
      decide +kernel
    rw [hlost e he]
    exact fun env henv => absurd henv (Multiset.notMem_zero env)
  · intro p env hinput _
    obtain ⟨rfl, rfl⟩ : p = otherKey ∧ env = (sampleSigned 1 0).envelope := by
      simpa [floodRun, hinput] using hinputs e he
    decide
  · intro p fanoutCalc i hinput _
    obtain ⟨hp, rfl, rfl⟩ : (p = otherKey ∨ p = sampleKey) ∧ fanoutCalc = FanoutCalculator.new ∧
        i = sampleReadings := by
      have hi := hinputs e he
      simp only [floodRun, hinput, List.mem_cons, List.not_mem_nil, NetworkInput.fanoutRound.injEq,
        reduceCtorEq, false_or, or_false, or_self] at hi
      rcases hi with ⟨rfl, hrest⟩ | ⟨rfl, hrest⟩
      · exact ⟨.inl rfl, hrest⟩
      · exact ⟨.inr rfl, hrest⟩
    have hpeers : ∀ e ∈ trace Network.step sampleNetwork floodRun,
        (e.before.node otherKey).recipients FanoutCalculator.new sampleReadings = [.new sampleKey] ∧
        (e.before.node sampleKey).recipients FanoutCalculator.new sampleReadings =
          [.new sampleKey] := by
      decide +kernel
    obtain ⟨hother, hsample⟩ := hpeers e he
    refine ⟨by simpa using hp, fun q hq => ⟨.new sampleKey, ?_, hq.symm⟩⟩
    rcases hp with rfl | rfl
    · rw [hother]
      exact List.mem_singleton_self _
    · rw [hsample]
      exact List.mem_singleton_self _
  · exact (sampleNetwork.handled_le floodRun p).trans (by decide)
  · rintro ⟨env, henv, -⟩
    by_cases hp : p = otherKey ∨ p = sampleKey
    · have hnone : ((exec Network.step sampleNetwork floodRun).node otherKey).state.held = 0 ∧
          ((exec Network.step sampleNetwork floodRun).node sampleKey).state.held = 0 := by
        decide +kernel
      rcases hp with rfl | rfl
      · rw [hnone.1] at henv
        exact Multiset.notMem_zero env henv
      · rw [hnone.2] at henv
        exact Multiset.notMem_zero env henv
    · have hnode : (exec Network.step sampleNetwork floodRun).node p = sampleRound := by
        refine exec_invariant (fun n : Network _ => n.node p = sampleRound) (fun n i hi h => ?_) rfl
        have hne : p ≠ Network.actor i := fun heq => hp (by rw [heq]; exact hactors i hi)
        rw [Network.node_step_of_ne hne, h]
      rw [hnode] at henv
      exact Multiset.notMem_zero env henv
  · rintro ⟨packet, hpacket, -⟩
    have hempty : (exec Network.step sampleNetwork floodRun).inFlight = [] := by decide +kernel
    rw [hempty] at hpacket
    cases hpacket

end StellarConduit
