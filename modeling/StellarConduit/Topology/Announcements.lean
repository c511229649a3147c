import StellarConduit.Topology.Graph
import StellarConduit.Transport.Power

/-!
# Announcements of power states

When a node goes to a low-power state, the power manager makes a topology update that announces it,
in which the caller fills in the public key of the node.  The other fields do not describe the node:
there are no peers and no hops, which `apply_update` of a receiver takes at face value.

* `of_mem_setState`: what an announcement says;
* `truthful_announce_iff`: which graphs it leaves as they are, and which reports it does not change.
-/

namespace StellarConduit

open Verif MeshGraph

/-- The caller fills in the public key. -/
def announce (originPubkey : Bytes 32) (update : TopologyUpdate) : TopologyUpdate :=
  { update with originPubkey := originPubkey }

/-- The update leaves the neighbours of its node as they were, and the node is not reported to be
closer to a relay than its last regular update said. -/
structure Truthful (g : MeshGraph) (last update : TopologyUpdate) (now : ℕ)
    (eventBus : Option TopologyEventBus) : Prop where
  neighbors : (g.applyUpdate update now eventBus).1.getNeighbors update.originPubkey =
    g.getNeighbors update.originPubkey
  hops : ∀ hopsToRelay neighborCount,
    .peerUpdated update.originPubkey hopsToRelay neighborCount ∈ g.updateEvents update now →
      last.hopsToRelay ≤ hopsToRelay

/-- The one report on its node that an update makes. -/
theorem peerUpdated_mem_updateEvents {g : MeshGraph} {update : TopologyUpdate} {now : ℕ}
    {hopsToRelay : UInt8} {neighborCount : ℕ} :
    .peerUpdated update.originPubkey hopsToRelay neighborCount ∈ g.updateEvents update now ↔
      hopsToRelay = update.hopsToRelay ∧ neighborCount = (neighborList update).length := by
  unfold updateEvents
  dsimp only
  split_ifs <;> simp

section Announcement

variable {p : PowerManager} {state : PowerState} {update : TopologyUpdate}

/-- An announcement has no peers and no hops, whatever the node has. -/
theorem of_mem_setState (h : update ∈ (p.setState state).1) :
    update.directlyConnectedPeers = [] ∧ update.hopsToRelay = 0 := by
  cases state with
  | active => cases h
  | lowPower =>
    obtain rfl := Option.some.inj h
    exact ⟨rfl, rfl⟩
  | deepSleep =>
    obtain rfl := Option.some.inj h
    exact ⟨rfl, rfl⟩

theorem neighborList_announce (h : update ∈ (p.setState state).1) (originPubkey : Bytes 32) :
    neighborList (announce originPubkey update) = [] := by
  refine List.eq_nil_iff_forall_not_mem.2 fun peer hpeer => ?_
  have hmem : peer ∈ update.directlyConnectedPeers := (mem_neighborList.1 hpeer).1
  rw [(of_mem_setState h).1] at hmem
  cases hmem

/-- **When an announcement tells the truth.**  An announcement leaves the topology as it is if the
receiver knows the node and knows no neighbours of it, and the node was at no hops from a relay. -/
theorem truthful_announce_iff (h : update ∈ (p.setState state).1) (g : MeshGraph)
    (last : TopologyUpdate) (now : ℕ) (eventBus : Option TopologyEventBus) :
    Truthful g last (announce last.originPubkey update) now eventBus ↔
      g.getNeighbors last.originPubkey = some [] ∧ last.hopsToRelay = 0 := by
  have hafter : (g.applyUpdate (announce last.originPubkey update) now eventBus).1.getNeighbors
      last.originPubkey = some [] := by
    rw [getNeighbors, lookup_edges_applyUpdate, neighborList_announce h]
    exact if_pos rfl
  constructor
  · intro htruthful
    have hreport : last.hopsToRelay ≤ update.hopsToRelay :=
      htruthful.hops _ _ (peerUpdated_mem_updateEvents.2 ⟨rfl, rfl⟩)
    rw [(of_mem_setState h).2] at hreport
    exact ⟨htruthful.neighbors.symm.trans hafter, UInt8.le_zero_iff.1 hreport⟩
  · rintro ⟨hbefore, hhops⟩
    refine ⟨hafter.trans hbefore.symm, fun hopsToRelay neighborCount _ => ?_⟩
    rw [hhops]
    exact UInt8.zero_le

end Announcement

/-- The last regular update of a relay node without peers. -/
def relayUpdate : TopologyUpdate where
  originPubkey := List.Vector.replicate 32 1
  directlyConnectedPeers := []
  hopsToRelay := 0
  topologyFlags := []

/-- A relay node without peers may announce that it sleeps. -/
theorem truthful_announce_sample :
    ∃ update ∈ ((PowerManager.new 0).setState .deepSleep).1,
      Truthful (MeshGraph.new.applyUpdate relayUpdate 0 none).1 relayUpdate
        (announce relayUpdate.originPubkey update) 1 none := by
  obtain ⟨update, hupdate⟩ : ∃ update, update ∈ ((PowerManager.new 0).setState .deepSleep).1 :=
    ⟨_, rfl⟩
  refine ⟨update, hupdate, (truthful_announce_iff hupdate _ relayUpdate 1 none).2 ⟨?_, rfl⟩⟩
  rw [getNeighbors, lookup_edges_applyUpdate, if_pos rfl]
  exact congrArg some (sortSet_empty byteKey)

/-- The last regular update of a node with a peer, three hops from a relay. -/
def regularUpdate : TopologyUpdate where
  originPubkey := List.Vector.replicate 32 1
  directlyConnectedPeers := [List.Vector.replicate 32 2]
  hopsToRelay := 3
  topologyFlags := []

/-- When that node announces low power, its neighbour is forgotten, and it is reported to be a
relay. -/
theorem announcement_falsifies :
    let g := (MeshGraph.new.applyUpdate regularUpdate 0 none).1
    ∃ update ∈ ((PowerManager.new 0).setState .lowPower).1,
      let announcement := announce regularUpdate.originPubkey update
      g.getNeighbors regularUpdate.originPubkey = some [List.Vector.replicate 32 2] ∧
        (g.applyUpdate announcement 1 none).1.getNeighbors regularUpdate.originPubkey = some [] ∧
        .peerUpdated regularUpdate.originPubkey 0 0 ∈ g.updateEvents announcement 1 ∧
        ¬ Truthful g regularUpdate announcement 1 none := by
  intro g
  refine ⟨_, rfl, ?_⟩
  intro announcement
  have hbefore : g.getNeighbors regularUpdate.originPubkey = some [List.Vector.replicate 32 2] := by
    rw [getNeighbors, lookup_edges_applyUpdate, if_pos rfl]
    exact congrArg some (sortSet_singleton byteKey _)
  have hafter : (g.applyUpdate announcement 1 none).1.getNeighbors regularUpdate.originPubkey =
      some [] := by
    rw [getNeighbors, lookup_edges_applyUpdate]
    exact congrArg some (sortSet_empty byteKey)
  refine ⟨hbefore, hafter, peerUpdated_mem_updateEvents.2 ⟨rfl, ?_⟩, fun htruthful => ?_⟩
  · exact (congrArg List.length (sortSet_empty byteKey)).symm
  · have heq := hafter.symm.trans (htruthful.neighbors.trans hbefore)
    cases heq

end StellarConduit
