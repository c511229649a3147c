import Mathlib.Data.List.Lex
import StellarConduit.Lib.HashMap
import StellarConduit.Lib.StableSort
import StellarConduit.Topology.Events

/-!
# The mesh graph

`MeshGraph` of `topology/graph.rs`: the updates of the nodes, and the pruning of nodes that have not
been heard of for some time.  Instants and durations are in nanoseconds; `now` is the instant that
a call reads off the clock.  The order in which a map is visited is that of its entries, which may
be any.
-/

namespace StellarConduit

open Verif

structure MeshGraph where
  edges : HashMap (Bytes 32) (List (Bytes 32))
  /-- when the list of a node was last updated -/
  lastUpdated : HashMap (Bytes 32) ℕ

namespace MeshGraph

def new : MeshGraph := ⟨∅, ∅⟩

def getNeighbors (g : MeshGraph) (target : Bytes 32) : Option (List (Bytes 32)) :=
  g.edges.lookup target

def nodeCount (g : MeshGraph) : ℕ := g.edges.entries.length

/-- The nodes that were last updated more than `timeout` ago. -/
def staleKeys (g : MeshGraph) (timeout now : ℕ) : List (Bytes 32) :=
  (g.lastUpdated.entries.filter fun entry => decide (now - entry.2 > timeout)).map Sigma.fst

def remove (g : MeshGraph) (key : Bytes 32) : MeshGraph where
  edges := g.edges.erase key
  lastUpdated := g.lastUpdated.erase key

/-- The graph has lost a fifth of its nodes.  The quotient that the source compares with `0.20` is
rounded to a double, which is exact for a fifth. -/
def Shrunk (prevCount newCount : ℕ) : Prop :=
  prevCount ≠ newCount ∧ prevCount > 0 ∧ 5 * (prevCount - newCount) ≥ prevCount

instance (prevCount newCount : ℕ) : Decidable (Shrunk prevCount newCount) :=
  inferInstanceAs (Decidable (_ ∧ _ ∧ _))

def pruneStaleEdges (g : MeshGraph) (timeout now : ℕ) (eventBus : Option TopologyEventBus) :
    ℕ × MeshGraph × Option TopologyEventBus :=
  let staleKeys := g.staleKeys timeout now
  let prevCount := g.nodeCount
  let pruned := staleKeys.length
  let g := staleKeys.foldl remove g
  let eventBus := eventBus.map fun bus =>
    let bus := bus.publishAll (staleKeys.map .peerPruned)
    let newCount := g.nodeCount
    if Shrunk prevCount newCount then bus.publish (.meshSizeChanged prevCount newCount) else bus
  (pruned, g, eventBus)

section Update

/-- Arrays are compared byte by byte. -/
def byteKey {n : ℕ} : Bytes n ↪ List ℕ where
  toFun bytes := bytes.toList.map UInt8.toNat
  inj' := fun _ _ h => List.Vector.toList_injective
    (List.map_injective_iff.2 (fun _ _ => UInt8.toNat_inj.1) h)

/-- The neighbours that an update sets: a set, collected and sorted. -/
def neighborList (update : TopologyUpdate) : List (Bytes 32) :=
  let origin := update.originPubkey
  let set := (update.directlyConnectedPeers.filter fun peer => decide (peer ≠ origin)).toFinset
  sortSet byteKey set

def insert (g : MeshGraph) (key : Bytes 32) (list : List (Bytes 32)) (now : ℕ) : MeshGraph where
  edges := g.edges.insert key list
  lastUpdated := g.lastUpdated.insert key now

/-- The graph has gained more than a fifth of its nodes.  The quotient that the source compares with
`0.20` is rounded to a double, and for a fifth, `6.0 / 5.0 - 1.0`, it is less. -/
def Grown (prevCount newCount : ℕ) : Prop :=
  prevCount ≠ newCount ∧ prevCount > 0 ∧ 5 * (newCount - prevCount) > prevCount

instance (prevCount newCount : ℕ) : Decidable (Grown prevCount newCount) :=
  inferInstanceAs (Decidable (_ ∧ _ ∧ _))

def applyUpdate (g : MeshGraph) (update : TopologyUpdate) (now : ℕ)
    (eventBus : Option TopologyEventBus) : MeshGraph × Option TopologyEventBus :=
  let prevCount := g.nodeCount
  let origin := update.originPubkey
  let g := g.insert origin (neighborList update) now
  let eventBus := eventBus.map fun bus =>
    let neighborCount := ((g.edges.lookup origin).map List.length).getD 0
    let bus := bus.publish (.peerUpdated origin update.hopsToRelay neighborCount)
    let newCount := g.nodeCount
    if Grown prevCount newCount then bus.publish (.meshSizeChanged prevCount newCount) else bus
  (g, eventBus)

@[simp] theorem mem_neighborList {update : TopologyUpdate} {peer : Bytes 32} :
    peer ∈ neighborList update ↔
      peer ∈ update.directlyConnectedPeers ∧ peer ≠ update.originPubkey := by
  unfold neighborList
  rw [mem_sortSet, List.mem_toFinset, List.mem_filter, decide_eq_true_iff]

/-- Order and repetition of the peers in an update do not matter. -/
theorem neighborList_congr {update update' : TopologyUpdate}
    (horigin : update.originPubkey = update'.originPubkey)
    (hpeers : ∀ peer, peer ∈ update.directlyConnectedPeers ↔
      peer ∈ update'.directlyConnectedPeers) : neighborList update = neighborList update' := by
  unfold neighborList
  refine congrArg (sortSet byteKey) (Finset.ext fun peer => ?_)
  rw [List.mem_toFinset, List.mem_toFinset, List.mem_filter, List.mem_filter, hpeers, horigin]

variable (g : MeshGraph) (update : TopologyUpdate) (now : ℕ)

/-- What a bus is told when an update is applied. -/
def updateEvents : List TopologyEvent :=
  let newCount := (g.insert update.originPubkey (neighborList update) now).nodeCount
  .peerUpdated update.originPubkey update.hopsToRelay (neighborList update).length ::
    if Grown g.nodeCount newCount then [.meshSizeChanged g.nodeCount newCount] else []

theorem eventBus_applyUpdate (bus : TopologyEventBus) :
    (g.applyUpdate update now (some bus)).2 =
      some (bus.publishAll (g.updateEvents update now)) := by
  have hlookup : (g.insert update.originPubkey (neighborList update) now).edges.lookup
      update.originPubkey = some (neighborList update) := AList.lookup_insert g.edges
  unfold applyUpdate updateEvents Receiver.publishAll
  dsimp only [Option.map_some]
  rw [hlookup]
  split_ifs <;> rfl

theorem lookup_edges_applyUpdate (eventBus : Option TopologyEventBus) (key : Bytes 32) :
    (g.applyUpdate update now eventBus).1.edges.lookup key =
      if key = update.originPubkey then some (neighborList update) else g.edges.lookup key := by
  split_ifs with h
  · subst h
    exact AList.lookup_insert g.edges
  · exact AList.lookup_insert_ne h

theorem lookup_lastUpdated_applyUpdate (eventBus : Option TopologyEventBus) (key : Bytes 32) :
    (g.applyUpdate update now eventBus).1.lastUpdated.lookup key =
      if key = update.originPubkey then some now else g.lastUpdated.lookup key := by
  split_ifs with h
  · subst h
    exact AList.lookup_insert g.lastUpdated
  · exact AList.lookup_insert_ne h

end Update

section Prune

variable (g : MeshGraph) (timeout now : ℕ)

/-- What a bus is told when stale nodes are pruned. -/
def pruneEvents : List TopologyEvent :=
  let newCount := ((g.staleKeys timeout now).foldl remove g).nodeCount
  (g.staleKeys timeout now).map .peerPruned ++
    if Shrunk g.nodeCount newCount then [.meshSizeChanged g.nodeCount newCount] else []

theorem eventBus_pruneStaleEdges (bus : TopologyEventBus) :
    (g.pruneStaleEdges timeout now (some bus)).2.2 =
      some (bus.publishAll (g.pruneEvents timeout now)) := by
  unfold pruneStaleEdges pruneEvents Receiver.publishAll
  dsimp only [Option.map_some]
  split_ifs
  · rw [List.foldl_append]
    rfl
  · rw [List.append_nil]

theorem mem_staleKeys {key : Bytes 32} :
    key ∈ g.staleKeys timeout now ↔
      ∃ timestamp ∈ g.lastUpdated.lookup key, now - timestamp > timeout := by
  unfold staleKeys
  constructor
  · intro h
    obtain ⟨⟨key, timestamp⟩, hentry, rfl⟩ := List.mem_map.1 h
    obtain ⟨hmem, hstale⟩ := List.mem_filter.1 hentry
    exact ⟨timestamp, AList.mem_lookup_iff.2 hmem, of_decide_eq_true hstale⟩
  · rintro ⟨timestamp, hlookup, hstale⟩
    refine List.mem_map.2 ⟨⟨key, timestamp⟩, List.mem_filter.2 ⟨?_, decide_eq_true hstale⟩, rfl⟩
    exact AList.mem_lookup_iff.1 hlookup

theorem edges_removeAll (keys : List (Bytes 32)) :
    (keys.foldl remove g).edges = keys.foldl (fun edges key => edges.erase key) g.edges := by
  induction keys generalizing g with
  | nil => rfl
  | cons first keys ih => exact ih (g.remove first)

theorem lastUpdated_removeAll (keys : List (Bytes 32)) :
    (keys.foldl remove g).lastUpdated =
      keys.foldl (fun lastUpdated key => lastUpdated.erase key) g.lastUpdated := by
  induction keys generalizing g with
  | nil => rfl
  | cons first keys ih => exact ih (g.remove first)

theorem lookup_removeAll (keys : List (Bytes 32)) (key : Bytes 32) :
    (keys.foldl remove g).lastUpdated.lookup key =
      if key ∈ keys then none else g.lastUpdated.lookup key := by
  rw [lastUpdated_removeAll, HashMap.lookup_foldl_erase]

theorem lookup_edges_pruneStaleEdges (eventBus : Option TopologyEventBus) (key : Bytes 32) :
    (g.pruneStaleEdges timeout now eventBus).2.1.edges.lookup key =
      if key ∈ g.staleKeys timeout now then none else g.edges.lookup key := by
  show ((g.staleKeys timeout now).foldl remove g).edges.lookup key = _
  rw [edges_removeAll, HashMap.lookup_foldl_erase]

theorem lookup_lastUpdated_pruneStaleEdges (eventBus : Option TopologyEventBus) (key : Bytes 32) :
    (g.pruneStaleEdges timeout now eventBus).2.1.lastUpdated.lookup key =
      if key ∈ g.staleKeys timeout now then none else g.lastUpdated.lookup key :=
  g.lookup_removeAll _ key

theorem nodup_staleKeys : (g.staleKeys timeout now).Nodup :=
  List.Nodup.sublist (List.filter_sublist.map Sigma.fst) g.lastUpdated.nodupKeys

/-- The nodes that are pruned are the stale ones. -/
theorem mem_staleKeys_iff_pruned {key : Bytes 32} (eventBus : Option TopologyEventBus) :
    key ∈ g.staleKeys timeout now ↔
      key ∈ g.lastUpdated ∧ key ∉ (g.pruneStaleEdges timeout now eventBus).2.1.lastUpdated := by
  have hafter := g.lookup_lastUpdated_pruneStaleEdges timeout now eventBus key
  rw [← AList.lookup_isSome, ← AList.lookup_isSome, hafter]
  by_cases hstale : key ∈ g.staleKeys timeout now
  · obtain ⟨timestamp, hlookup, -⟩ := (g.mem_staleKeys timeout now).1 hstale
    rw [Option.mem_def] at hlookup
    simp [hstale, hlookup]
  · simp [hstale, Option.isSome_iff_ne_none]

end Prune

end MeshGraph

end StellarConduit
