import StellarConduit.Lib.Bfs
import StellarConduit.Lib.StableSort
import StellarConduit.Topology.Graph
import StellarConduit.Topology.HopCounter

/-!
# The path finder

`PathFinder` of `router/path_finder.rs`, which ranks peers by their shortest path to a relay, and
`RelayRouter` of `router/relay_router.rs`, which takes the first of them.

The loop that searches from one peer runs on fuel.  Distances are in `ℕ∞`: `⊤` stands for
`usize::MAX`, which no path through a graph in memory is long enough to reach.

* `MeshGraph.relayDistance`: how far a peer is from the nearest relay that it leads to;
* `minDistance_eq`: the search ends, and finds this distance;
* `rankNextHops_spec`: the peers are sorted by it, and what the router takes of them.
-/

namespace StellarConduit

open Verif
open Verif.Bfs (Search)

namespace MeshGraph

/-- The nodes that a node says it is connected to. -/
def successors (graph : MeshGraph) (v : Bytes 32) : List (Bytes 32) :=
  (graph.getNeighbors v).getD []

/-- The nodes that some node says it is connected to. -/
def linked (graph : MeshGraph) : Finset (Bytes 32) :=
  (graph.edges.entries.flatMap Sigma.snd).toFinset

theorem mem_linked {graph : MeshGraph} {v w : Bytes 32} (h : w ∈ graph.successors v) :
    w ∈ graph.linked := by
  unfold successors getNeighbors at h
  cases hlookup : graph.edges.lookup v with
  | none => simp [hlookup] at h
  | some neighbors =>
    rw [hlookup, Option.getD_some] at h
    have hentry := AList.mem_lookup_iff.1 hlookup
    exact List.mem_toFinset.2 (List.mem_flatMap.2 ⟨⟨v, neighbors⟩, hentry, h⟩)

/-- The least length of a path to a node with a recorded distance, and that distance. -/
noncomputable def relayDistance (graph : MeshGraph) (hopCounter : HopCounter)
    (peer : Bytes 32) : ℕ∞ :=
  ⨅ (v : Bytes 32) (hops ∈ hopCounter.peerDistances.lookup v),
    Bfs.distance graph.successors peer v + (hops.toNat : ℕ∞)

theorem le_relayDistance_iff {graph : MeshGraph} {hopCounter : HopCounter} {peer : Bytes 32}
    {m : ℕ∞} :
    m ≤ graph.relayDistance hopCounter peer ↔
      ∀ v, ∀ hops ∈ hopCounter.peerDistances.lookup v,
        m ≤ Bfs.distance graph.successors peer v + (hops.toNat : ℕ∞) := by
  simp only [relayDistance, le_iInf_iff]

end MeshGraph

namespace PathFinder

/-- What the search makes of a node that it takes off the queue. -/
def visit (hopCounter : HopCounter) (minDistance : ℕ∞) (item : Bytes 32 × ℕ) : ℕ∞ :=
  match hopCounter.peerDistances.lookup item.1 with
  | some relayDist =>
    let totalDistance : ℕ∞ := (item.2 + relayDist.toNat : ℕ)
    if totalDistance < minDistance then totalDistance else minDistance
  | none => minDistance

/-- `while let Some((current_node, depth)) = queue.pop_front()` -/
def searchLoop (graph : MeshGraph) (hopCounter : HopCounter) :
    ℕ → Search (Bytes 32) → ℕ∞ → Option ℕ∞
  | fuel, s, minDistance =>
    match s.queue with
    | [] => some minDistance
    | (currentNode, depth) :: queue =>
      match fuel with
      | 0 => none
      | fuel + 1 =>
        let minDistance := visit hopCounter minDistance (currentNode, depth)
        let s : Search (Bytes 32) := ⟨queue, s.visited⟩
        let s := match graph.getNeighbors currentNode with
          | some neighbors => neighbors.foldl (Search.discover (depth + 1)) s
          | none => s
        searchLoop graph hopCounter fuel s minDistance

/-- The search from one of the active connections. -/
def minDistance (graph : MeshGraph) (hopCounter : HopCounter) (fuel : ℕ) (startNode : Bytes 32) :
    Option ℕ∞ :=
  searchLoop graph hopCounter fuel (Search.start startNode) ⊤

/-- `for &start_node in active_connections` -/
def shortestPaths (graph : MeshGraph) (hopCounter : HopCounter) (fuel : ℕ) :
    List (Bytes 32) → HashMap (Bytes 32) ℕ∞ → Option (HashMap (Bytes 32) ℕ∞)
  | [], paths => some paths
  | startNode :: rest, paths =>
    match minDistance graph hopCounter fuel startNode with
    | none => none
    | some distance =>
      shortestPaths graph hopCounter fuel rest
        (if distance ≠ ⊤ then paths.insert startNode distance else paths)

def rankNextHops (graph : MeshGraph) (hopCounter : HopCounter) (fuel : ℕ)
    (activeConnections : List (Bytes 32)) : Option (List (Bytes 32)) :=
  if activeConnections.isEmpty then
    some []
  else
    (shortestPaths graph hopCounter fuel activeConnections ∅).map fun paths =>
      sortAscending (fun peer => (paths.lookup peer).getD ⊤) activeConnections

/-! ### One search -/

section Search

variable (graph : MeshGraph) (hopCounter : HopCounter)

theorem expand_eq (s : Search (Bytes 32)) (v : Bytes 32) (depth : ℕ) :
    (match graph.getNeighbors v with
      | some neighbors => neighbors.foldl (Search.discover (depth + 1)) s
      | none => s) = s.expand graph.successors v depth := by
  unfold Search.expand MeshGraph.successors
  cases graph.getNeighbors v <;> rfl

/-- The loop is a breadth-first search that visits what it takes off the queue. -/
theorem searchLoop_eq (fuel : ℕ) (s : Search (Bytes 32)) (m : ℕ∞) :
    searchLoop graph hopCounter fuel s m =
      (Bfs.visits graph.successors fuel s).map fun items => items.foldl (visit hopCounter) m := by
  induction fuel generalizing s m with
  | zero =>
    obtain ⟨queue, visited⟩ := s
    cases queue <;> rfl
  | succ fuel ih =>
    obtain ⟨queue, visited⟩ := s
    cases queue with
    | nil => rfl
    | cons item queue =>
      obtain ⟨v, depth⟩ := item
      unfold searchLoop Bfs.visits
      dsimp only
      rw [expand_eq, ih, Option.map_map]
      rfl

theorem le_visit_iff {c m : ℕ∞} {item : Bytes 32 × ℕ} :
    c ≤ visit hopCounter m item ↔
      c ≤ m ∧ ∀ hops ∈ hopCounter.peerDistances.lookup item.1,
        c ≤ (item.2 : ℕ∞) + (hops.toNat : ℕ∞) := by
  unfold visit
  cases hopCounter.peerDistances.lookup item.1 with
  | none => simp
  | some hops =>
    dsimp only
    split_ifs with hlt
    · push_cast at hlt ⊢
      simpa using fun h : c ≤ _ => h.trans hlt.le
    · push_cast at hlt ⊢
      simpa using fun h : c ≤ m => h.trans (not_lt.1 hlt)

theorem le_foldl_visit_iff {c m : ℕ∞} {items : List (Bytes 32 × ℕ)} :
    c ≤ items.foldl (visit hopCounter) m ↔
      c ≤ m ∧ ∀ item ∈ items, ∀ hops ∈ hopCounter.peerDistances.lookup item.1,
        c ≤ (item.2 : ℕ∞) + (hops.toNat : ℕ∞) := by
  induction items generalizing m with
  | nil => simp
  | cons item items ih => rw [List.foldl_cons, ih, le_visit_iff, List.forall_mem_cons, and_assoc]

/-- The search from a peer ends, and finds how far the peer is from a relay. -/
theorem minDistance_eq {fuel : ℕ} (hfuel : graph.linked.card < fuel) (peer : Bytes 32) :
    minDistance graph hopCounter fuel peer = some (graph.relayDistance hopCounter peer) := by
  have hclosed : ∀ v ∈ insert peer graph.linked, ∀ w ∈ graph.successors v,
      w ∈ insert peer graph.linked :=
    fun v _ w hw => Finset.mem_insert_of_mem (graph.mem_linked hw)
  obtain ⟨items, hvisits, hitems⟩ := Bfs.visits_start hclosed (Finset.mem_insert_self peer _)
    ((Finset.card_insert_le _ _).trans hfuel)
  rw [minDistance, searchLoop_eq, hvisits, Option.map_some, Option.some_inj]
  refine eq_of_forall_le_iff fun c => ?_
  rw [le_foldl_visit_iff, MeshGraph.le_relayDistance_iff]
  constructor
  · rintro ⟨-, hvisited⟩ v hops hhops
    cases hdistance : Bfs.distance graph.successors peer v with
    | top => exact le_top
    | coe depth => exact hvisited (v, depth) ((hitems v depth).2 hdistance) hops hhops
  · intro hle
    refine ⟨le_top, ?_⟩
    rintro ⟨v, depth⟩ hmem hops hhops
    have hdistance := (hitems v depth).1 hmem
    exact hdistance ▸ hle v hops hhops

end Search

/-! ### All searches -/

section Rank

variable {graph : MeshGraph} {hopCounter : HopCounter} {fuel : ℕ}

/-- The map holds the distances of the peers that were searched from, unless they are infinite. -/
theorem shortestPaths_eq (hfuel : graph.linked.card < fuel) (searched rest : List (Bytes 32))
    {paths : HashMap (Bytes 32) ℕ∞}
    (h : ∀ peer, (paths.lookup peer).getD ⊤ =
      if peer ∈ searched then graph.relayDistance hopCounter peer else ⊤) :
    ∃ paths', shortestPaths graph hopCounter fuel rest paths = some paths' ∧
      ∀ peer, (paths'.lookup peer).getD ⊤ =
        if peer ∈ searched ++ rest then graph.relayDistance hopCounter peer else ⊤ := by
  induction rest generalizing searched paths with
  | nil => exact ⟨paths, rfl, by simpa using h⟩
  | cons startNode rest ih =>
    -- An unreachable start is left out of the table, and is read as `⊤` all the same.
    have hnext : ∀ peer, ((if graph.relayDistance hopCounter startNode ≠ ⊤ then
          paths.insert startNode (graph.relayDistance hopCounter startNode)
        else paths).lookup peer).getD ⊤ =
        if peer ∈ searched ++ [startNode] then graph.relayDistance hopCounter peer else ⊤ := by
      intro peer
      by_cases hstart : peer = startNode
      · subst hstart
        have hmem : peer ∈ searched ++ [peer] := by simp
        rw [if_pos hmem]
        by_cases htop : graph.relayDistance hopCounter peer = ⊤
        · rw [if_neg (not_not_intro htop), h, htop, ite_self]
        · rw [if_pos htop, AList.lookup_insert, Option.getD_some]
      · have hkeep : peer ∈ searched ++ [startNode] ↔ peer ∈ searched := by simp [hstart]
        simp only [hkeep, ← h peer]
        split_ifs
        · rw [AList.lookup_insert_ne hstart]
        · rfl
    obtain ⟨paths', hpaths, hlookup⟩ := ih (searched ++ [startNode]) hnext
    refine ⟨paths', ?_, ?_⟩
    · unfold shortestPaths
      rw [minDistance_eq graph hopCounter hfuel]
      exact hpaths
    · rwa [List.append_assoc] at hlookup

/-- The peers are sorted by their distance from a relay. -/
theorem rankNextHops_eq (hfuel : graph.linked.card < fuel)
    (activeConnections : List (Bytes 32)) :
    rankNextHops graph hopCounter fuel activeConnections =
      some (sortAscending (graph.relayDistance hopCounter) activeConnections) := by
  unfold rankNextHops
  by_cases hempty : activeConnections.isEmpty = true
  · rw [if_pos hempty, List.isEmpty_iff.1 hempty]
    rfl
  · have hnone : ∀ peer, ((∅ : HashMap (Bytes 32) ℕ∞).lookup peer).getD ⊤ =
        if peer ∈ ([] : List (Bytes 32)) then graph.relayDistance hopCounter peer else ⊤ :=
      fun _ => rfl
    obtain ⟨paths, hpaths, hlookup⟩ := shortestPaths_eq hfuel [] activeConnections hnone
    rw [if_neg hempty, hpaths, Option.map_some]
    refine congrArg some (sortAscending_congr _ fun peer hpeer => ?_)
    rw [hlookup, List.nil_append, if_pos hpeer]

end Rank

end PathFinder

/-- `RelayRouter::select_next_hops` -/
def RelayRouter.selectNextHops (targetFanout : ℕ) (rankedPeers : List (Bytes 32)) :
    List (Bytes 32) :=
  if rankedPeers.isEmpty then
    []
  else if targetFanout ≥ rankedPeers.length then
    rankedPeers
  else
    rankedPeers.take targetFanout

theorem RelayRouter.selectNextHops_eq (targetFanout : ℕ) (rankedPeers : List (Bytes 32)) :
    selectNextHops targetFanout rankedPeers = rankedPeers.take targetFanout := by
  unfold selectNextHops
  split_ifs with hempty hfanout
  · rw [List.isEmpty_iff.1 hempty, List.take_nil]
  · rw [List.take_of_length_le hfanout]
  · rfl

namespace PathFinder

/-- **Next hops.**  The search ends for every peer.  The peers come out sorted by their distance
from a relay, those of one distance in the order they were in, and the router takes as many as it
is asked for, if there are so many, and leaves none behind that is nearer than one it takes. -/
theorem rankNextHops_spec (graph : MeshGraph) (hopCounter : HopCounter)
    (activeConnections : List (Bytes 32)) {fuel : ℕ} (hfuel : graph.linked.card < fuel) :
    ∃ ranked, rankNextHops graph hopCounter fuel activeConnections = some ranked ∧
      ranked.Perm activeConnections ∧
      ranked.Pairwise (fun p q =>
        graph.relayDistance hopCounter p ≤ graph.relayDistance hopCounter q) ∧
      (∀ k, ranked.filter (fun p => decide (graph.relayDistance hopCounter p = k)) =
        activeConnections.filter fun p => decide (graph.relayDistance hopCounter p = k)) ∧
      ∀ f, (RelayRouter.selectNextHops f ranked).length = min f activeConnections.length ∧
        ∃ left, RelayRouter.selectNextHops f ranked ++ left = ranked ∧
          ∀ p ∈ RelayRouter.selectNextHops f ranked, ∀ q ∈ left,
            graph.relayDistance hopCounter p ≤ graph.relayDistance hopCounter q := by
  have hperm := sortAscending_perm (graph.relayDistance hopCounter) activeConnections
  have hsorted := pairwise_sortAscending (graph.relayDistance hopCounter) activeConnections
  refine ⟨_, rankNextHops_eq hfuel activeConnections, hperm, hsorted,
    filter_sortAscending _ activeConnections, fun f => ?_⟩
  rw [RelayRouter.selectNextHops_eq]
  refine ⟨?_, List.drop f _, List.take_append_drop f _, fun p hp q hq => ?_⟩
  · rw [List.length_take, hperm.length_eq]
  · rw [← List.take_append_drop f (sortAscending _ _)] at hsorted
    exact (List.pairwise_append.1 hsorted).2.2 p hp q hq

def samplePeer (b : UInt8) : Bytes 32 := List.Vector.replicate 32 b

/-- The first two nodes lead to each other, and the second one to the third. -/
def sampleMesh : MeshGraph where
  edges := ((∅ : HashMap (Bytes 32) (List (Bytes 32))).insert (samplePeer 1) [samplePeer 2]).insert
    (samplePeer 2) [samplePeer 1, samplePeer 3]
  lastUpdated := ∅

def sampleCounter : HopCounter := HopCounter.new.setDistance (samplePeer 3) 1

example : rankNextHops sampleMesh sampleCounter 4 [samplePeer 4, samplePeer 1, samplePeer 2] =
    some [samplePeer 2, samplePeer 1, samplePeer 4] := by
  decide +kernel

theorem rankNextHops_spec_sample :
    ∃ ranked, rankNextHops sampleMesh sampleCounter 4 [samplePeer 4, samplePeer 1, samplePeer 2] =
        some ranked ∧
      (RelayRouter.selectNextHops 2 ranked).length = 2 := by
  obtain ⟨ranked, hranked, -, -, -, hselect⟩ := rankNextHops_spec sampleMesh sampleCounter
    [samplePeer 4, samplePeer 1, samplePeer 2]
    (show sampleMesh.linked.card < 4 by decide +kernel)
  exact ⟨ranked, hranked, (hselect 2).1⟩

end PathFinder

end StellarConduit
