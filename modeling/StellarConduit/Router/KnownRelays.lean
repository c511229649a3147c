import StellarConduit.Router.PathFinder

/-!
# Peers with a known relay

A distance of 255 in the `HopCounter` stands for no known relay.  The search of
`router/path_finder.rs` adds it to the length of a path like any other distance, so that a peer that
leads to no known relay can come out before one that does.

* `RecordedAt`: a peer leads to a node with a recorded distance, in so many steps;
* `LeadsToRelay`: it leads to a node that knows a relay; `KnownFirst` are the lists in which such
  peers come first;
* `known_first_iff`: when the peers come out in this order.
-/

namespace StellarConduit

open Verif
open Verif.Bfs (Walk)

/-- `no known relay`, as `local_hop_count` returns it -/
def unknownHops : UInt8 := 255

section Reach

variable (graph : MeshGraph) (hopCounter : HopCounter)

/-- In `n` steps a peer leads to a node with so many recorded hops. -/
def RecordedAt (peer : Bytes 32) (n : ℕ) (hops : UInt8) : Prop :=
  ∃ v, Walk graph.successors peer n v ∧ hopCounter.peerDistances.lookup v = some hops

/-- A peer leads to a node that knows a relay. -/
def LeadsToRelay (peer : Bytes 32) : Prop :=
  ∃ n hops, RecordedAt graph hopCounter peer n hops ∧ hops < unknownHops

/-- No peer stands before one that leads to a known relay, unless it does so, too. -/
def KnownFirst (ranked : List (Bytes 32)) : Prop :=
  ranked.Pairwise fun p q => LeadsToRelay graph hopCounter q → LeadsToRelay graph hopCounter p

/-- However `q` leads to a node recorded as unknown, 255 hops counted for it, some way from `p` to a
recorded node is no longer, its hops counted. -/
def AsNear (p q : Bytes 32) : Prop :=
  ∀ m, RecordedAt graph hopCounter q m unknownHops →
    ∃ n hops, RecordedAt graph hopCounter p n hops ∧ n + hops.toNat ≤ m + unknownHops.toNat

/-- However `q` leads to a node recorded as unknown, some way from `p` is shorter. -/
def Nearer (p q : Bytes 32) : Prop :=
  ∀ m, RecordedAt graph hopCounter q m unknownHops →
    ∃ n hops, RecordedAt graph hopCounter p n hops ∧ n + hops.toNat < m + unknownHops.toNat

variable {graph hopCounter} {p q : Bytes 32}

theorem le_relayDistance_iff {c : ℕ∞} :
    c ≤ graph.relayDistance hopCounter p ↔
      ∀ n hops, RecordedAt graph hopCounter p n hops → c ≤ (n + hops.toNat : ℕ) := by
  rw [MeshGraph.le_relayDistance_iff]
  constructor
  · rintro h n hops ⟨v, hwalk, hlookup⟩
    refine (h v hops hlookup).trans ?_
    push_cast
    gcongr
    exact Bfs.distance_le hwalk
  · intro h v hops hlookup
    rw [← tsub_le_iff_right, Bfs.le_distance_iff]
    intro n hwalk
    rw [tsub_le_iff_right]
    exact_mod_cast h n hops ⟨v, hwalk, hlookup⟩

theorem relayDistance_lt_iff {k : ℕ} :
    graph.relayDistance hopCounter p < k ↔
      ∃ n hops, RecordedAt graph hopCounter p n hops ∧ n + hops.toNat < k := by
  rw [← not_le, le_relayDistance_iff]
  push Not
  simp only [Nat.cast_lt]

theorem relayDistance_le_iff {k : ℕ} :
    graph.relayDistance hopCounter p ≤ k ↔
      ∃ n hops, RecordedAt graph hopCounter p n hops ∧ n + hops.toNat ≤ k := by
  rw [← ENat.lt_add_one_iff (ENat.natCast_ne_top k), ← Nat.cast_succ, relayDistance_lt_iff]
  simp only [Nat.lt_succ_iff]

/-- A peer that leads to a known relay is at a finite distance. -/
theorem LeadsToRelay.relayDistance_ne_top (h : LeadsToRelay graph hopCounter p) :
    graph.relayDistance hopCounter p ≠ ⊤ := by
  obtain ⟨n, hops, hrecorded, -⟩ := h
  exact ne_top_of_le_ne_top (ENat.natCast_ne_top _)
    (relayDistance_le_iff.2 ⟨n, hops, hrecorded, Nat.le_refl _⟩)

/-- All that a peer without a known relay leads to is recorded as unknown. -/
theorem le_relayDistance_iff_of_not (hq : ¬ LeadsToRelay graph hopCounter q) {c : ℕ∞} :
    c ≤ graph.relayDistance hopCounter q ↔
      ∀ m, RecordedAt graph hopCounter q m unknownHops → c ≤ (m + unknownHops.toNat : ℕ) := by
  rw [le_relayDistance_iff]
  constructor
  · exact fun h m => h m unknownHops
  · intro h n hops hrecorded
    have hunknown : hops = unknownHops := by
      by_contra hne
      exact hq ⟨n, hops, hrecorded, HopCounter.lt_255_of_ne hne⟩
    rw [hunknown] at hrecorded ⊢
    exact h n hrecorded

theorem asNear_iff (hq : ¬ LeadsToRelay graph hopCounter q) :
    AsNear graph hopCounter p q ↔
      graph.relayDistance hopCounter p ≤ graph.relayDistance hopCounter q := by
  rw [le_relayDistance_iff_of_not hq]
  exact forall₂_congr fun m _ => relayDistance_le_iff.symm

theorem nearer_iff (hp : LeadsToRelay graph hopCounter p)
    (hq : ¬ LeadsToRelay graph hopCounter q) :
    Nearer graph hopCounter p q ↔
      graph.relayDistance hopCounter p < graph.relayDistance hopCounter q := by
  rw [← ENat.add_one_le_iff hp.relayDistance_ne_top, le_relayDistance_iff_of_not hq]
  refine forall₂_congr fun m _ => ?_
  rw [ENat.add_one_le_iff hp.relayDistance_ne_top]
  exact relayDistance_lt_iff.symm

end Reach

/-- **Known relays first.**  The peers that lead to a known relay come out first if and only if each
of them is nearer than each of the others that stood before it, and as near as each of the others
that stood behind it, when the 255 of an unknown distance counts as hops. -/
theorem known_first_iff (graph : MeshGraph) (hopCounter : HopCounter)
    (activeConnections : List (Bytes 32)) {fuel : ℕ} (hfuel : graph.linked.card < fuel) :
    ∃ ranked, PathFinder.rankNextHops graph hopCounter fuel activeConnections = some ranked ∧
      (KnownFirst graph hopCounter ranked ↔
        activeConnections.Pairwise fun p q =>
          (¬ LeadsToRelay graph hopCounter p → LeadsToRelay graph hopCounter q →
            Nearer graph hopCounter q p) ∧
          (LeadsToRelay graph hopCounter p → ¬ LeadsToRelay graph hopCounter q →
            AsNear graph hopCounter p q)) := by
  refine ⟨_, PathFinder.rankNextHops_eq hfuel activeConnections, ?_⟩
  unfold KnownFirst
  rw [pairwise_sortAscending_iff]
  refine List.Pairwise.iff fun {p q} => ?_
  by_cases hp : LeadsToRelay graph hopCounter p
  · by_cases hq : LeadsToRelay graph hopCounter q
    · simp [hp, hq]
    · simp [hp, hq, asNear_iff hq]
  · by_cases hq : LeadsToRelay graph hopCounter q
    · simp [hp, hq, nearer_iff hq hp]
    · simp [hp, hq]

section Samples

open PathFinder

/-- The first node of the sample mesh leads to the third one. -/
theorem recordedAt_sample {hopCounter : HopCounter} {hops : UInt8}
    (h : hopCounter.peerDistances.lookup (samplePeer 3) = some hops) :
    RecordedAt sampleMesh hopCounter (samplePeer 1) 2 hops := by
  have hfirst : samplePeer 2 ∈ sampleMesh.successors (samplePeer 1) := by decide +kernel
  have hsecond : samplePeer 3 ∈ sampleMesh.successors (samplePeer 2) := by decide +kernel
  exact ⟨samplePeer 3, (Walk.refl.tail hfirst).tail hsecond, h⟩

/-- The fourth one leads to itself only. -/
theorem lookup_of_recordedAt_sample {hopCounter : HopCounter} {n : ℕ} {hops : UInt8}
    (h : RecordedAt sampleMesh hopCounter (samplePeer 4) n hops) :
    hopCounter.peerDistances.lookup (samplePeer 4) = some hops := by
  obtain ⟨v, hwalk, hlookup⟩ := h
  have halone : sampleMesh.successors (samplePeer 4) = [] := by decide +kernel
  have hclosed : ∀ v ∈ ({samplePeer 4} : Finset (Bytes 32)), ∀ w ∈ sampleMesh.successors v,
      w ∈ ({samplePeer 4} : Finset (Bytes 32)) := by
    intro v hv w hw
    rw [Finset.mem_singleton.1 hv, halone] at hw
    cases hw
  have hv := Bfs.mem_of_walk hclosed (Finset.mem_singleton_self _) hwalk
  rwa [Finset.mem_singleton.1 hv] at hlookup

/-- A peer that leads to a relay stands before one of which nothing is recorded. -/
theorem known_first_iff_sample :
    ∃ ranked, rankNextHops sampleMesh sampleCounter 4 [samplePeer 1, samplePeer 4] = some ranked ∧
      KnownFirst sampleMesh sampleCounter ranked := by
  obtain ⟨ranked, hranked, hknown⟩ := known_first_iff sampleMesh sampleCounter
    [samplePeer 1, samplePeer 4] (show sampleMesh.linked.card < 4 by decide +kernel)
  have hnothing : sampleCounter.peerDistances.lookup (samplePeer 4) = none := by decide +kernel
  have hleads : LeadsToRelay sampleMesh sampleCounter (samplePeer 1) :=
    ⟨2, 1, recordedAt_sample (by decide +kernel), by decide⟩
  refine ⟨ranked, hranked, hknown.2 (List.pairwise_pair.2 ⟨fun hnot => absurd hleads hnot, ?_⟩)⟩
  intro _ _ m hrecorded
  have hsome := lookup_of_recordedAt_sample hrecorded
  rw [hnothing] at hsome
  cases hsome

/-- The relay is 254 hops behind the third node, and the fourth one knows none. -/
def sampleFar : HopCounter :=
  (HopCounter.new.setDistance (samplePeer 3) 254).setDistance (samplePeer 4) 255

/-- The peer without a known relay comes out first. -/
theorem unknown_first_sample :
    LeadsToRelay sampleMesh sampleFar (samplePeer 1) ∧
      ¬ LeadsToRelay sampleMesh sampleFar (samplePeer 4) ∧
      ∃ ranked, rankNextHops sampleMesh sampleFar 4 [samplePeer 1, samplePeer 4] = some ranked ∧
        ¬ KnownFirst sampleMesh sampleFar ranked := by
  have hleads : LeadsToRelay sampleMesh sampleFar (samplePeer 1) :=
    ⟨2, 254, recordedAt_sample (by decide +kernel), by decide⟩
  have hnone : ¬ LeadsToRelay sampleMesh sampleFar (samplePeer 4) := by
    rintro ⟨n, hops, hrecorded, hlt⟩
    have hunknown : sampleFar.peerDistances.lookup (samplePeer 4) = some 255 := by decide +kernel
    rw [lookup_of_recordedAt_sample hrecorded] at hunknown
    cases hunknown
    exact absurd hlt (by decide)
  refine ⟨hleads, hnone, [samplePeer 4, samplePeer 1], by decide +kernel, ?_⟩
  intro hknown
  exact hnone (List.pairwise_pair.1 hknown hleads)

end Samples

end StellarConduit
