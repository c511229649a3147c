import StellarConduit.Router.KnownRelays
import StellarConduit.Topology.GraphRuns

/-!
# Along the next hops

What the ranking is for: a message that every node passes on to its next hops comes to a relay.  The
nodes have been told the same of one another, though not in the same order, and each is connected to
its neighbours.

* `Router`: the updates, hop counts and connections of a node; `Router.nextHops` are the peers that
  `RelayRouter` selects of those that `PathFinder` has ranked;
* `Informed`: what a node has been told is the mesh;
* `Informed.nextHops_eq`: the next hops are the neighbours that are nearest to a recorded node;
* `next_hops_lead_to_relay`: where the next hops lead.
-/

namespace StellarConduit

open Verif
open Verif.Machine (exec)
open Verif.Bfs (Walk nearest nearest_le le_nearest_iff LeastPick)

/-- What a node has been told: topology updates, hop counts of its peers, and its connections. -/
structure Router where
  updates : List GraphInput
  distances : List (Bytes 32 × UInt8)
  activeConnections : List (Bytes 32)

/-- The hop count of a node in a report. -/
def hopsIn (key : Bytes 32) (report : Bytes 32 × UInt8) : Option UInt8 :=
  if report.1 = key then some report.2 else none

namespace Router

def graph (r : Router) : MeshGraph := exec MeshGraph.step .new r.updates

def hopCounter (r : Router) : HopCounter :=
  r.distances.foldl (fun hc report => (hc.updateDistance report.1 report.2 none).1) .new

/-- The nodes of the graph are enough fuel for every search. -/
def ranked (r : Router) : Option (List (Bytes 32)) :=
  PathFinder.rankNextHops r.graph r.hopCounter (r.graph.linked.card + 1) r.activeConnections

def nextHops (r : Router) (targetFanout : ℕ) : Option (List (Bytes 32)) :=
  r.ranked.map (RelayRouter.selectNextHops targetFanout)

/-- A hop counter holds the last hop count of each peer. -/
theorem lookup_hopCounter (r : Router) (key : Bytes 32) :
    r.hopCounter.peerDistances.lookup key = lastOf (hopsIn key) r.distances := by
  unfold hopCounter
  induction r.distances using List.reverseRecOn with
  | nil => rfl
  | append_singleton reports report ih =>
    rw [List.foldl_concat, lastOf_concat, ← ih]
    show AList.lookup key (AList.insert (β := fun _ => UInt8) report.1 report.2 _) = _
    unfold hopsIn
    split_ifs with hkey
    · rw [hkey, AList.lookup_insert]
      rfl
    · rw [AList.lookup_insert_ne (Ne.symm hkey)]
      rfl

/-- The successors of a node are the peers of its latest update, if it is kept. -/
theorem mem_successors (r : Router) {key peer : Bytes 32} :
    peer ∈ r.graph.successors key ↔
      ∃ update timestamp, MeshGraph.Kept r.updates key update timestamp ∧
        peer ∈ update.directlyConnectedPeers ∧ peer ≠ key := by
  unfold MeshGraph.successors graph
  constructor
  · intro hpeer
    cases hlist : (exec MeshGraph.step .new r.updates).getNeighbors key with
    | none => simp [hlist] at hpeer
    | some list =>
      rw [hlist, Option.getD_some] at hpeer
      obtain ⟨update, timestamp, hkept, -, rfl⟩ := MeshGraph.getNeighbors_exec hlist
      have horigin := MeshGraph.originPubkey_of_lastUpdate hkept.lastUpdate_eq
      rw [MeshGraph.mem_neighborList, horigin] at hpeer
      exact ⟨update, timestamp, hkept, hpeer⟩
  · rintro ⟨update, timestamp, hkept, hpeer⟩
    have hlist : (exec MeshGraph.step .new r.updates).getNeighbors key = some _ :=
      ((MeshGraph.entry_eq_some_iff key).1 (MeshGraph.entry_exec_iff.2 ⟨update, hkept, rfl⟩)).1
    rw [hlist, Option.getD_some, MeshGraph.mem_neighborList,
      MeshGraph.originPubkey_of_lastUpdate hkept.lastUpdate_eq]
    exact hpeer

end Router

variable {adj : Bytes 32 → List (Bytes 32)} {recorded : Bytes 32 → Option UInt8} {p : Bytes 32}
  {r : Router}

/-- What the node `p` has been told: for each node the latest update, which it has kept, lists its
neighbours, and the last hop count is the recorded one.  Its connections are its own neighbours. -/
structure Informed (adj : Bytes 32 → List (Bytes 32)) (recorded : Bytes 32 → Option UInt8)
    (p : Bytes 32) (r : Router) : Prop where
  updates : ∀ key peer, peer ∈ adj key ↔
    ∃ update timestamp, MeshGraph.Kept r.updates key update timestamp ∧
      peer ∈ update.directlyConnectedPeers ∧ peer ≠ key
  distances : ∀ key, lastOf (hopsIn key) r.distances = recorded key
  activeConnections : ∀ peer, peer ∈ r.activeConnections ↔ peer ∈ adj p

/-- The recorded hop count; a node without one is no end of a path. -/
def hopCost (recorded : Bytes 32 → Option UInt8) (v : Bytes 32) : ℕ∞ :=
  match recorded v with
  | some hops => hops.toNat
  | none => ⊤

namespace Informed

theorem walk_iff (h : Informed adj recorded p r) {u v : Bytes 32} {n : ℕ} :
    Walk r.graph.successors u n v ↔ Walk adj u n v := by
  have hmem : ∀ v w, w ∈ r.graph.successors v ↔ w ∈ adj v := fun v w =>
    r.mem_successors.trans (h.updates v w).symm
  exact ⟨Walk.mono fun v w => (hmem v w).1, Walk.mono fun v w => (hmem v w).2⟩

/-- How far a peer is from a relay is the same to all nodes. -/
theorem relayDistance_eq (h : Informed adj recorded p r) (peer : Bytes 32) :
    r.graph.relayDistance r.hopCounter peer = nearest adj (hopCost recorded) peer := by
  refine eq_of_forall_le_iff fun c => ?_
  rw [le_relayDistance_iff, le_nearest_iff]
  constructor
  · intro hle n v hwalk
    unfold hopCost
    cases hhops : recorded v with
    | none => simp
    | some hops =>
      rw [← h.distances, ← r.lookup_hopCounter] at hhops
      exact_mod_cast hle n hops ⟨v, h.walk_iff.2 hwalk, hhops⟩
  · rintro hle n hops ⟨v, hwalk, hhops⟩
    rw [r.lookup_hopCounter, h.distances] at hhops
    have hcost := hle n v (h.walk_iff.1 hwalk)
    unfold hopCost at hcost
    rw [hhops] at hcost
    exact_mod_cast hcost

/-- The next hops are the nearest neighbours. -/
theorem nextHops_eq (h : Informed adj recorded p r) (targetFanout : ℕ) :
    r.nextHops targetFanout =
      some ((sortAscending (nearest adj (hopCost recorded)) r.activeConnections).take
        targetFanout) := by
  unfold Router.nextHops Router.ranked
  rw [PathFinder.rankNextHops_eq (Nat.lt_succ_self _), Option.map_some,
    RelayRouter.selectNextHops_eq]
  refine congrArg some (congrArg _ (sortAscending_congr _ fun peer _ => h.relayDistance_eq peer))

/-- The first of the next hops is the first of the sorted connections. -/
theorem head?_nextHops (h : Informed adj recorded p r) {targetFanout : ℕ}
    (hfanout : 0 < targetFanout) :
    (r.nextHops targetFanout).bind List.head? =
      (sortAscending (nearest adj (hopCost recorded)) r.activeConnections).head? := by
  rw [h.nextHops_eq, Option.bind_some, List.head?_take, if_neg hfanout.ne']

end Informed

/-- In a mesh, the first of the next hops is a nearest neighbour. -/
theorem leastPick_nextHops {mesh : Bytes 32 → Router} {nodes : Set (Bytes 32)}
    (hclosed : ∀ p ∈ nodes, ∀ q ∈ adj p, q ∈ nodes)
    (hmesh : ∀ p ∈ nodes, Informed adj recorded p (mesh p)) {targetFanout : Bytes 32 → ℕ}
    (hfanout : ∀ p, 0 < targetFanout p) :
    LeastPick adj (hopCost recorded)
      (fun p => ((mesh p).nextHops (targetFanout p)).bind List.head?) nodes where
  closed hp hq := hclosed _ hp _ hq
  mem {p q} hp hpick := by
    have h := hmesh p hp
    rw [h.head?_nextHops (hfanout p)] at hpick
    exact (h.activeConnections q).1 (mem_and_le_of_head?_sortAscending _ hpick).1
  least {p q q'} hp hpick hq' := by
    have h := hmesh p hp
    rw [h.head?_nextHops (hfanout p)] at hpick
    exact (mem_and_le_of_head?_sortAscending _ hpick).2 q' ((h.activeConnections q').2 hq')
  names {p q} hp hq hnone := by
    have h := hmesh p hp
    rw [h.head?_nextHops (hfanout p), List.head?_eq_none_iff] at hnone
    have hmem := (sortAscending_perm (nearest adj (hopCost recorded)) _).mem_iff.2
      ((h.activeConnections q).2 hq)
    rw [hnone] at hmem
    cases hmem

theorem hopCost_eq {v : Bytes 32} {hops : UInt8} (h : recorded v = some hops) :
    hopCost recorded v = hops.toNat := by
  unfold hopCost
  rw [h]

theorem exists_recorded {v : Bytes 32} (h : hopCost recorded v ≠ ⊤) :
    ∃ hops, recorded v = some hops := by
  unfold hopCost at h
  cases hhops : recorded v with
  | none => simp [hhops] at h
  | some hops => exact ⟨hops, rfl⟩

/-- **Along the next hops.**  In a mesh whose nodes have been told the same of it, in whatever
order, and pass a message on to one or more next hops each, it comes from any node that leads to a
recorded one to such a node, without passing a node twice, and on a way that is shortest when the
recorded hops are counted. -/
theorem next_hops_lead_to_relay (adj : Bytes 32 → List (Bytes 32))
    (recorded : Bytes 32 → Option UInt8) (mesh : Bytes 32 → Router) (nodes : Set (Bytes 32))
    (hclosed : ∀ p ∈ nodes, ∀ q ∈ adj p, q ∈ nodes)
    (hmesh : ∀ p ∈ nodes, Informed adj recorded p (mesh p)) (targetFanout : Bytes 32 → ℕ)
    (hfanout : ∀ p, 0 < targetFanout p) (p : Bytes 32) (hp : p ∈ nodes)
    (hleads : ∃ n v, Walk adj p n v ∧ (recorded v).isSome) :
    ∃ (path : List (Bytes 32)) (relay : Bytes 32) (hops : UInt8), recorded relay = some hops ∧
      path.head? = some p ∧ path.getLast? = some relay ∧ path.Nodup ∧
      path.IsChain (fun q next => ∃ selected ∈ (mesh q).nextHops (targetFanout q),
        next ∈ selected) ∧
      ∀ n v hops', Walk adj p n v → recorded v = some hops' →
        path.length + hops.toNat ≤ n + 1 + hops'.toNat := by
  obtain ⟨m, w, hwalk, hw⟩ := hleads
  obtain ⟨hops', hhops'⟩ := Option.isSome_iff_exists.1 hw
  have hfinite : nearest adj (hopCost recorded) p ≠ ⊤ := by
    have hle : nearest adj (hopCost recorded) p ≤ _ := nearest_le hwalk
    rw [hopCost_eq hhops'] at hle
    exact ne_top_of_le_ne_top (ENat.natCast_ne_top (m + hops'.toNat)) (by exact_mod_cast hle)
  obtain ⟨d, hd⟩ := ENat.ne_top_iff_exists.1 hfinite
  obtain ⟨n, relay, path, hpath⟩ :=
    (leastPick_nextHops hclosed hmesh hfanout).descends hp hd.symm
  obtain ⟨hops, hhops⟩ : ∃ hops, recorded relay = some hops := by
    refine exists_recorded fun htop => hfinite ?_
    rw [hpath.cost, htop, add_top]
  refine ⟨path, relay, hops, hhops, hpath.head, hpath.last, ?_, ?_, ?_⟩
  · exact hpath.nearer.imp fun hlt heq => (heq ▸ hlt).false
  · refine hpath.steps.imp fun q next hnext => ?_
    obtain ⟨selected, hselected, hfirst⟩ := Option.bind_eq_some_iff.1 hnext
    exact ⟨selected, hselected, List.mem_of_head? hfirst⟩
  -- No walk is shorter than the nearest one, which is the path.
  · intro n' v hops'' hwalk' hhops''
    have hle : nearest adj (hopCost recorded) p ≤ _ := nearest_le hwalk'
    rw [hpath.cost, hopCost_eq hhops, hopCost_eq hhops''] at hle
    have hshort : n + hops.toNat ≤ n' + hops''.toNat := by exact_mod_cast hle
    rw [hpath.length]
    omega

/-- The first node is connected to the second one, and the second one to the first and the third. -/
def sampleAdj (p : Bytes 32) : List (Bytes 32) :=
  if p = PathFinder.samplePeer 1 then [PathFinder.samplePeer 2]
  else if p = PathFinder.samplePeer 2 then [PathFinder.samplePeer 3, PathFinder.samplePeer 1]
  else []

def sampleLinks (key : UInt8) : TopologyUpdate :=
  ⟨PathFinder.samplePeer key, sampleAdj (PathFinder.samplePeer key), 255, []⟩

/-- The second node has heard of itself first. -/
def sampleRouter (p : Bytes 32) : Router where
  updates :=
    let first : GraphInput := .applyUpdate (sampleLinks 1) 0 none
    let second : GraphInput := .applyUpdate (sampleLinks 2) 0 none
    if p = PathFinder.samplePeer 2 then [second, first] else [first, second]
  distances := [(PathFinder.samplePeer 3, 0)]
  activeConnections := sampleAdj p

theorem getNeighbors_sampleRouter (p key : Bytes 32) :
    (sampleRouter p).graph.getNeighbors key =
      if key = PathFinder.samplePeer 1 then some (MeshGraph.neighborList (sampleLinks 1))
      else if key = PathFinder.samplePeer 2 then some (MeshGraph.neighborList (sampleLinks 2))
      else none := by
  have hne : PathFinder.samplePeer 1 ≠ PathFinder.samplePeer 2 := by decide
  unfold sampleRouter Router.graph MeshGraph.getNeighbors
  by_cases hp : p = PathFinder.samplePeer 2
  · rw [if_pos hp]
    show ((MeshGraph.new.applyUpdate (sampleLinks 2) 0 none).1.applyUpdate (sampleLinks 1) 0
      none).1.edges.lookup key = _
    rw [MeshGraph.lookup_edges_applyUpdate, MeshGraph.lookup_edges_applyUpdate]
    rfl
  · rw [if_neg hp]
    show ((MeshGraph.new.applyUpdate (sampleLinks 1) 0 none).1.applyUpdate (sampleLinks 2) 0
      none).1.edges.lookup key = _
    rw [MeshGraph.lookup_edges_applyUpdate, MeshGraph.lookup_edges_applyUpdate]
    show (if key = PathFinder.samplePeer 2 then some _ else
      if key = PathFinder.samplePeer 1 then some _ else none) = _
    split_ifs with hsecond hfirst
    · exact absurd (hfirst.symm.trans hsecond) hne
    · rfl
    · rfl
    · rfl

theorem informed_sampleRouter (p : Bytes 32) :
    Informed sampleAdj (fun key => lastOf (hopsIn key) [(PathFinder.samplePeer 3, (0 : UInt8))]) p
      (sampleRouter p) := by
  refine ⟨fun key peer => ?_, fun key => rfl, fun peer => .rfl⟩
  rw [← Router.mem_successors]
  unfold MeshGraph.successors
  rw [getNeighbors_sampleRouter]
  have hfirst' : PathFinder.samplePeer 1 ∉ sampleAdj (PathFinder.samplePeer 1) := by decide
  have hsecond' : PathFinder.samplePeer 2 ∉ sampleAdj (PathFinder.samplePeer 2) := by decide
  split_ifs with hfirst hsecond
  · rw [hfirst, Option.getD_some, MeshGraph.mem_neighborList]
    exact (and_iff_left_of_imp fun hpeer => ne_of_mem_of_not_mem hpeer hfirst').symm
  · rw [hsecond, Option.getD_some, MeshGraph.mem_neighborList]
    exact (and_iff_left_of_imp fun hpeer => ne_of_mem_of_not_mem hpeer hsecond').symm
  · unfold sampleAdj
    rw [if_neg hfirst, if_neg hsecond]
    rfl

/-- A message of the first node comes to the third one, two steps away, which is a relay. -/
theorem next_hops_lead_to_relay_sample :
    ∃ (path : List (Bytes 32)) (relay : Bytes 32) (hops : UInt8),
      lastOf (hopsIn relay) [(PathFinder.samplePeer 3, (0 : UInt8))] = some hops ∧
        path.head? = some (PathFinder.samplePeer 1) ∧ path.getLast? = some relay ∧
        path.length + hops.toNat ≤ 3 := by
  have hwalk : Walk sampleAdj (PathFinder.samplePeer 1) 2 (PathFinder.samplePeer 3) :=
    .tail (.tail .refl (by decide : PathFinder.samplePeer 2 ∈ _)) (by decide)
  obtain ⟨path, relay, hops, hhops, hhead, hlast, -, -, hshort⟩ := next_hops_lead_to_relay
    sampleAdj _ sampleRouter Set.univ (fun _ _ _ _ => trivial)
    (fun p _ => informed_sampleRouter p) (fun _ => 2) (fun _ => by decide)
    (PathFinder.samplePeer 1) trivial ⟨2, _, hwalk, by decide⟩
  exact ⟨path, relay, hops, hhops, hhead, hlast, hshort 2 _ 0 hwalk (by decide)⟩

end StellarConduit
