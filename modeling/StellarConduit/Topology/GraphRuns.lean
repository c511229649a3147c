import StellarConduit.Lib.LastWrite
import StellarConduit.Topology.Graph

/-!
# What a mesh graph knows

Runs of `apply_update` and `prune_stale_edges`, at any instants.

* `lastUpdate`: the latest update of a node in a run;
* `getNeighbors_exec`: the neighbours that a graph has of a node are those of its latest update;
* `mem_staleKeys_exec`: the nodes that are pruned are those whose latest update is too old;
* `applyUpdate_congr`, `same_applyUpdate_comm`: what the result of an update does not depend on;
* `represents`: all of it.
-/

namespace StellarConduit

open Verif
open Verif.Machine (Event exec trace Cell trace_append trace_cons mem_trace map_input_trace)

/-- A call of a mesh graph, with the instant and the bus that it finds. -/
inductive GraphInput
  | applyUpdate (update : TopologyUpdate) (now : ℕ) (eventBus : Option TopologyEventBus)
  | pruneStaleEdges (timeout now : ℕ) (eventBus : Option TopologyEventBus)

/-- A prune that finds an update at this instant too old. -/
def GraphInput.Expires (timestamp : ℕ) : GraphInput → Prop
  | .applyUpdate _ _ _ => False
  | .pruneStaleEdges timeout now _ => now - timestamp > timeout

namespace MeshGraph

/-- A call returns the number of pruned nodes, if it prunes. -/
def step (g : MeshGraph) : GraphInput → Option ℕ × MeshGraph
  | .applyUpdate update now eventBus => (none, (g.applyUpdate update now eventBus).1)
  | .pruneStaleEdges timeout now eventBus =>
    let (pruned, g, _) := g.pruneStaleEdges timeout now eventBus
    (some pruned, g)

/-- The update of a node in a call, and its instant. -/
def updateIn (key : Bytes 32) : GraphInput → Option (TopologyUpdate × ℕ)
  | .applyUpdate update now _ => if update.originPubkey = key then some (update, now) else none
  | .pruneStaleEdges _ _ _ => none

theorem updateIn_eq_some_iff {key : Bytes 32} {i : GraphInput} {u : TopologyUpdate × ℕ} :
    updateIn key i = some u ↔ ∃ bus, i = .applyUpdate u.1 u.2 bus ∧ u.1.originPubkey = key := by
  cases i with
  | applyUpdate update now bus =>
    unfold updateIn
    rw [Option.ite_none_right_eq_some]
    constructor
    · rintro ⟨horigin, hu⟩
      obtain rfl := Option.some.inj hu
      exact ⟨bus, rfl, horigin⟩
    · rintro ⟨bus', hi, horigin⟩
      cases hi
      exact ⟨horigin, rfl⟩
  | pruneStaleEdges timeout now bus =>
    constructor
    · intro h
      cases h
    · rintro ⟨bus', hi, -⟩
      cases hi

/-- The latest update of a node, and its instant. -/
def lastUpdate (key : Bytes 32) (is : List GraphInput) : Option (TopologyUpdate × ℕ) :=
  lastOf (updateIn key) is

/-! ### The two maps -/

section Run

variable (is : List GraphInput) (key : Bytes 32)

/-- The maps have the same keys. -/
def SameKeys (g : MeshGraph) : Prop := ∀ key, key ∈ g.edges ↔ key ∈ g.lastUpdated

theorem sameKeys_step {g : MeshGraph} (h : g.SameKeys) (i : GraphInput) :
    (g.step i).2.SameKeys := by
  intro key
  have hkey := h key
  rw [← AList.lookup_isSome, ← AList.lookup_isSome] at hkey ⊢
  cases i with
  | applyUpdate update now eventBus =>
    show ((g.applyUpdate update now eventBus).1.edges.lookup key).isSome = true ↔
      ((g.applyUpdate update now eventBus).1.lastUpdated.lookup key).isSome = true
    rw [lookup_edges_applyUpdate, lookup_lastUpdated_applyUpdate]
    split_ifs
    · exact Iff.rfl
    · exact hkey
  | pruneStaleEdges timeout now eventBus =>
    show ((g.pruneStaleEdges timeout now eventBus).2.1.edges.lookup key).isSome = true ↔
      ((g.pruneStaleEdges timeout now eventBus).2.1.lastUpdated.lookup key).isSome = true
    rw [lookup_edges_pruneStaleEdges, lookup_lastUpdated_pruneStaleEdges]
    split_ifs
    · exact Iff.rfl
    · exact hkey

theorem sameKeys_exec : (exec step new is).SameKeys :=
  Verif.Machine.exec_invariant SameKeys (fun _ i _ h => sameKeys_step h i) fun _ => Iff.rfl

/-- What a graph knows of a node: its neighbours, and when they were last updated. -/
def entry (g : MeshGraph) (key : Bytes 32) : Option (List (Bytes 32) × ℕ) :=
  (g.edges.lookup key).bind fun list => (g.lastUpdated.lookup key).map fun now => (list, now)

theorem entry_applyUpdate (g : MeshGraph) (update : TopologyUpdate) (now : ℕ)
    (eventBus : Option TopologyEventBus) :
    (g.applyUpdate update now eventBus).1.entry key =
      if key = update.originPubkey then some (neighborList update, now) else g.entry key := by
  unfold entry
  rw [lookup_edges_applyUpdate, lookup_lastUpdated_applyUpdate]
  split_ifs <;> rfl

theorem entry_pruneStaleEdges (g : MeshGraph) (timeout now : ℕ)
    (eventBus : Option TopologyEventBus) :
    (g.pruneStaleEdges timeout now eventBus).2.1.entry key =
      if key ∈ g.staleKeys timeout now then none else g.entry key := by
  unfold entry
  rw [lookup_edges_pruneStaleEdges, lookup_lastUpdated_pruneStaleEdges]
  split_ifs <;> rfl

theorem entry_eq_some_iff {g : MeshGraph} {list : List (Bytes 32)} {timestamp : ℕ} :
    g.entry key = some (list, timestamp) ↔
      g.edges.lookup key = some list ∧ g.lastUpdated.lookup key = some timestamp := by
  unfold entry
  cases g.edges.lookup key <;> cases g.lastUpdated.lookup key <;> simp

/-- The updates of a node write its entry, which is dropped when it has expired. -/
theorem entry_cell :
    Cell step (fun g => g.entry key)
      (fun e => (updateIn key e.input).map fun u => (neighborList u.1, u.2))
      fun e known => e.input.Expires known.2 where
  step g i known := by
    obtain ⟨list, timestamp⟩ := known
    cases i with
    | applyUpdate update now eventBus =>
      show (g.applyUpdate update now eventBus).1.entry key = _ ↔ _
      rw [entry_applyUpdate]
      by_cases horigin : update.originPubkey = key
      · subst horigin
        simp [updateIn, GraphInput.Expires]
      · simp [updateIn, GraphInput.Expires, horigin, Ne.symm horigin]
    | pruneStaleEdges timeout now eventBus =>
      show (g.pruneStaleEdges timeout now eventBus).2.1.entry key = _ ↔ _
      rw [entry_pruneStaleEdges, Option.ite_none_left_eq_some, entry_eq_some_iff, mem_staleKeys]
      simp only [updateIn, GraphInput.Expires, Option.map_none, reduceCtorEq, false_or, true_and,
        Option.mem_def]
      constructor
      · rintro ⟨hfresh, hlist, htimestamp⟩
        exact ⟨⟨hlist, htimestamp⟩, fun hstale => hfresh ⟨timestamp, htimestamp, hstale⟩⟩
      · rintro ⟨⟨hlist, htimestamp⟩, hfresh⟩
        refine ⟨?_, hlist, htimestamp⟩
        rintro ⟨timestamp', htimestamp', hstale⟩
        obtain rfl := Option.some.inj (htimestamp.symm.trans htimestamp')
        exact hfresh hstale

/-- Of the updates of a node, this one is the latest, and no prune since has found it too old. -/
def Kept (update : TopologyUpdate) (timestamp : ℕ) : Prop :=
  ∃ before eventBus after, is = before ++ .applyUpdate update timestamp eventBus :: after ∧
    update.originPubkey = key ∧ ∀ i ∈ after, updateIn key i = none ∧ ¬ i.Expires timestamp

variable {is key}

/-- A graph knows of a node what has been kept. -/
theorem entry_exec_iff {list : List (Bytes 32)} {timestamp : ℕ} :
    (exec step new is).entry key = some (list, timestamp) ↔
      ∃ update, Kept is key update timestamp ∧ list = neighborList update := by
  rw [(entry_cell key).exec_iff rfl is]
  constructor
  · rintro ⟨before, e, after, hsplit, hwrite, hafter⟩
    obtain ⟨⟨update, now⟩, hu, heq⟩ := Option.map_eq_some_iff.1 hwrite
    cases heq
    obtain ⟨bus, hinput, horigin⟩ := updateIn_eq_some_iff.1 hu
    refine ⟨update, ⟨before.map Event.input, bus, after.map Event.input, ?_, horigin, ?_⟩, rfl⟩
    · rw [← map_input_trace step new is, hsplit, List.map_append, List.map_cons, hinput]
    · intro i hi
      obtain ⟨e', he', rfl⟩ := List.mem_map.1 hi
      exact ⟨Option.map_eq_none_iff.1 (hafter e' he').1, (hafter e' he').2⟩
  · rintro ⟨update, ⟨before, bus, after, rfl, horigin, hafter⟩, rfl⟩
    rw [trace_append, trace_cons]
    refine ⟨_, _, _, rfl, ?_, fun e' he' => ?_⟩
    · exact Option.map_eq_some_iff.2
        ⟨(update, timestamp), updateIn_eq_some_iff.2 ⟨bus, rfl, horigin⟩, rfl⟩
    · obtain ⟨pre, i, post, hsplit, rfl⟩ := mem_trace he'
      have hi := hafter i (hsplit ▸ List.mem_append_right pre List.mem_cons_self)
      exact ⟨Option.map_eq_none_iff.2 hi.1, hi.2⟩

theorem originPubkey_of_lastUpdate {u : TopologyUpdate × ℕ} (h : lastUpdate key is = some u) :
    u.1.originPubkey = key := by
  obtain ⟨before, i, after, -, hi, -⟩ := (lastOf_eq_some_iff _).1 h
  obtain ⟨bus, -, horigin⟩ := updateIn_eq_some_iff.1 hi
  exact horigin

/-- What is kept of a node is its latest update. -/
theorem Kept.lastUpdate_eq {update : TopologyUpdate} {timestamp : ℕ}
    (h : Kept is key update timestamp) : lastUpdate key is = some (update, timestamp) := by
  obtain ⟨before, bus, after, hsplit, horigin, hafter⟩ := h
  exact (lastOf_eq_some_iff _).2 ⟨before, _, after, hsplit,
    updateIn_eq_some_iff.2 ⟨bus, rfl, horigin⟩, fun i hi => (hafter i hi).1⟩

/-- A graph has neighbours of a node, and the time of their update, if an update is kept. -/
theorem getNeighbors_exec {list : List (Bytes 32)}
    (h : (exec step new is).getNeighbors key = some list) :
    ∃ update timestamp, Kept is key update timestamp ∧
      (exec step new is).lastUpdated.lookup key = some timestamp ∧ list = neighborList update := by
  have hmem : key ∈ (exec step new is).edges := AList.lookup_isSome.1 (Option.isSome_of_mem h)
  obtain ⟨timestamp, htimestamp⟩ := Option.isSome_iff_exists.1
    (AList.lookup_isSome.2 ((sameKeys_exec is key).1 hmem))
  obtain ⟨update, hkept, hlist⟩ := entry_exec_iff.1 ((entry_eq_some_iff key).2 ⟨h, htimestamp⟩)
  exact ⟨update, timestamp, hkept, htimestamp, hlist⟩

theorem mem_edges_exec_iff :
    key ∈ (exec step new is).edges ↔ ∃ update timestamp, Kept is key update timestamp := by
  constructor
  · intro hmem
    obtain ⟨list, hlist⟩ := Option.isSome_iff_exists.1 (AList.lookup_isSome.2 hmem)
    obtain ⟨update, timestamp, hkept, -⟩ := getNeighbors_exec hlist
    exact ⟨update, timestamp, hkept⟩
  · rintro ⟨update, timestamp, hkept⟩
    have hedges := ((entry_eq_some_iff key).1 (entry_exec_iff.2 ⟨update, hkept, rfl⟩)).1
    exact AList.lookup_isSome.1 (Option.isSome_of_mem hedges)

/-! ### Pruning -/

/-- A prune takes a set of nodes out of the graph, and returns their number. -/
structure Removes (g : MeshGraph) (stale : Finset (Bytes 32))
    (r : ℕ × MeshGraph × Option TopologyEventBus) : Prop where
  pruned : r.1 = stale.card
  edges : ∀ key, r.2.1.edges.lookup key = if key ∈ stale then none else g.edges.lookup key
  lastUpdated : ∀ key,
    r.2.1.lastUpdated.lookup key = if key ∈ stale then none else g.lastUpdated.lookup key

theorem removes_staleKeys (g : MeshGraph) (timeout now : ℕ) (eventBus : Option TopologyEventBus) :
    g.Removes (g.staleKeys timeout now).toFinset (g.pruneStaleEdges timeout now eventBus) where
  pruned := (List.toFinset_card_of_nodup (g.nodup_staleKeys timeout now)).symm
  edges key := by
    rw [lookup_edges_pruneStaleEdges]
    simp only [List.mem_toFinset]
  lastUpdated key := by
    rw [lookup_lastUpdated_pruneStaleEdges]
    simp only [List.mem_toFinset]

/-- In a run, the stale nodes are those whose latest update is older than the timeout. -/
theorem mem_staleKeys_exec {timeout now : ℕ} :
    key ∈ (exec step new is).staleKeys timeout now ↔
      key ∈ (exec step new is).edges ∧
        ∃ update timestamp, lastUpdate key is = some (update, timestamp) ∧
          now - timestamp > timeout := by
  rw [mem_staleKeys]
  constructor
  · rintro ⟨timestamp, htimestamp, hstale⟩
    have hmem : key ∈ (exec step new is).edges :=
      (sameKeys_exec is key).2 (AList.lookup_isSome.1 (Option.isSome_of_mem htimestamp))
    obtain ⟨list, hlist⟩ := Option.isSome_iff_exists.1 (AList.lookup_isSome.2 hmem)
    obtain ⟨update, timestamp', hkept, htimestamp', -⟩ := getNeighbors_exec hlist
    obtain rfl := Option.some.inj (htimestamp.symm.trans htimestamp')
    exact ⟨hmem, update, timestamp, hkept.lastUpdate_eq, hstale⟩
  · rintro ⟨hmem, update, timestamp, hlast, hstale⟩
    obtain ⟨list, hlist⟩ := Option.isSome_iff_exists.1 (AList.lookup_isSome.2 hmem)
    obtain ⟨update', timestamp', hkept, htimestamp', -⟩ := getNeighbors_exec hlist
    obtain ⟨-, rfl⟩ := Prod.mk.inj (Option.some.inj (hlast.symm.trans hkept.lastUpdate_eq))
    exact ⟨timestamp, htimestamp', hstale⟩

end Run

/-! ### What does not matter -/

section Update

variable (g : MeshGraph)

/-- The order of the peers in an update and their repetition do not matter. -/
theorem applyUpdate_congr (update : TopologyUpdate) {peers : List (Bytes 32)}
    (hpeers : ∀ peer, peer ∈ update.directlyConnectedPeers ↔ peer ∈ peers) (now : ℕ)
    (eventBus : Option TopologyEventBus) :
    g.applyUpdate update now eventBus =
      g.applyUpdate { update with directlyConnectedPeers := peers } now eventBus := by
  have hlist : neighborList update =
      neighborList { update with directlyConnectedPeers := peers } := neighborList_congr rfl hpeers
  unfold applyUpdate
  rw [hlist]

/-- Two graphs hold the same maps. -/
def Same (g g' : MeshGraph) : Prop :=
  ∀ key, g.edges.lookup key = g'.edges.lookup key ∧
    g.lastUpdated.lookup key = g'.lastUpdated.lookup key

/-- Updates of different nodes commute. -/
theorem same_applyUpdate_comm {update update' : TopologyUpdate}
    (horigin : update.originPubkey ≠ update'.originPubkey)
    (now now' : ℕ) (bus bus' : Option TopologyEventBus) :
    Same ((g.applyUpdate update now bus).1.applyUpdate update' now' bus').1
      ((g.applyUpdate update' now' bus').1.applyUpdate update now bus).1 := by
  intro key
  simp only [lookup_edges_applyUpdate, lookup_lastUpdated_applyUpdate]
  split_ifs with h h'
  · exact absurd (h'.symm.trans h) horigin
  · exact ⟨rfl, rfl⟩
  · exact ⟨rfl, rfl⟩
  · exact ⟨rfl, rfl⟩

end Update

/-- **The representation of the mesh.**  After any run, the two maps have the same keys; the
neighbours of a node are those of its latest update, strictly sorted and without the node itself;
a prune removes the nodes whose latest update is too old; and neither the order and the repetition
of peers in an update matter, nor the order of updates of different nodes. -/
theorem represents (is : List GraphInput) :
    let g := exec step new is
    (∀ key, key ∈ g.edges ↔ key ∈ g.lastUpdated) ∧
      (∀ key, key ∈ g.edges ↔ ∃ update timestamp, Kept is key update timestamp) ∧
      (∀ key list, g.getNeighbors key = some list →
        list.Pairwise (fun a b => byteKey a < byteKey b) ∧ list.Nodup ∧ key ∉ list ∧
          ∃ update timestamp, lastUpdate key is = some (update, timestamp) ∧
            g.lastUpdated.lookup key = some timestamp ∧
            ∀ peer, peer ∈ list ↔ peer ∈ update.directlyConnectedPeers ∧ peer ≠ key) ∧
      (∀ timeout now bus, ∃ stale : Finset (Bytes 32),
        g.Removes stale (g.pruneStaleEdges timeout now bus) ∧
          ∀ key, key ∈ stale ↔ key ∈ g.edges ∧
            ∃ update timestamp, lastUpdate key is = some (update, timestamp) ∧
              now - timestamp > timeout) ∧
      (∀ (update : TopologyUpdate) peers now bus,
        (∀ peer, peer ∈ update.directlyConnectedPeers ↔ peer ∈ peers) →
          g.applyUpdate update now bus =
            g.applyUpdate { update with directlyConnectedPeers := peers } now bus) ∧
      ∀ update update' now now' bus bus', update.originPubkey ≠ update'.originPubkey →
        Same ((g.applyUpdate update now bus).1.applyUpdate update' now' bus').1
          ((g.applyUpdate update' now' bus').1.applyUpdate update now bus).1 := by
  intro g
  refine ⟨sameKeys_exec is, fun key => mem_edges_exec_iff, ?_, ?_, ?_, ?_⟩
  · intro key list h
    obtain ⟨update, timestamp, hkept, htimestamp, rfl⟩ := getNeighbors_exec h
    have horigin : update.originPubkey = key := originPubkey_of_lastUpdate hkept.lastUpdate_eq
    refine ⟨pairwise_sortSet byteKey _, nodup_sortSet byteKey _, ?_, update, timestamp,
      hkept.lastUpdate_eq, htimestamp, ?_⟩
    · rw [mem_neighborList]
      exact fun hmem => hmem.2 horigin.symm
    · intro peer
      rw [mem_neighborList, horigin]
  · intro timeout now bus
    refine ⟨_, g.removes_staleKeys timeout now bus, fun key => ?_⟩
    rw [List.mem_toFinset]
    exact mem_staleKeys_exec
  · intro update peers now bus hpeers
    exact g.applyUpdate_congr update hpeers now bus
  · intro update update' now now' bus bus' horigin
    exact g.same_applyUpdate_comm horigin now now' bus bus'

/-- An update with a repeated peer and the node itself among its peers. -/
def sampleUpdate (origin : UInt8) : TopologyUpdate where
  originPubkey := List.Vector.replicate 32 origin
  directlyConnectedPeers := [3, origin, 2, 3].map fun byte => List.Vector.replicate 32 byte
  hopsToRelay := 1
  topologyFlags := []

/-- Of two nodes, the one that is updated first is pruned. -/
theorem represents_sample :
    let is := [GraphInput.applyUpdate (sampleUpdate 1) 10 none,
      GraphInput.applyUpdate (sampleUpdate 2) 20 none]
    let g := exec step new is
    let list := neighborList (sampleUpdate 1)
    list.Pairwise (fun a b => byteKey a < byteKey b) ∧ (sampleUpdate 1).originPubkey ∉ list ∧
      (sampleUpdate 1).originPubkey ∉ (g.pruneStaleEdges 10 25 none).2.1.edges ∧
      g.applyUpdate (sampleUpdate 1) 30 none = g.applyUpdate
        { sampleUpdate 1 with
          directlyConnectedPeers := [2, 3, 1].map fun byte => List.Vector.replicate 32 byte }
        30 none ∧
      Same ((g.applyUpdate (sampleUpdate 1) 30 none).1.applyUpdate (sampleUpdate 2) 31 none).1
        ((g.applyUpdate (sampleUpdate 2) 31 none).1.applyUpdate (sampleUpdate 1) 30 none).1 := by
  intro is g list
  obtain ⟨-, hkept, hlists, hprune, hcongr, hcomm⟩ := represents is
  have hlookup : g.getNeighbors (sampleUpdate 1).originPubkey = some list := by
    show (((MeshGraph.new.applyUpdate (sampleUpdate 1) 10 none).1.applyUpdate (sampleUpdate 2) 20
      none).1.edges.lookup _) = _
    rw [lookup_edges_applyUpdate, if_neg (by decide), lookup_edges_applyUpdate, if_pos rfl]
  obtain ⟨hsorted, -, hself, -⟩ := hlists _ list hlookup
  obtain ⟨stale, hremoves, hstale⟩ := hprune 10 25 none
  have hold : (sampleUpdate 1).originPubkey ∈ stale := (hstale _).2
    ⟨AList.lookup_isSome.1 (Option.isSome_of_mem hlookup), sampleUpdate 1, 10, by rfl, by decide⟩
  refine ⟨hsorted, hself, ?_, ?_, ?_⟩
  · rw [← AList.lookup_eq_none, hremoves.edges, if_pos hold]
  · refine hcongr (sampleUpdate 1) _ 30 none fun peer => ?_
    simp only [sampleUpdate, List.map_cons, List.map_nil, List.mem_cons, List.not_mem_nil]
    tauto
  · exact hcomm _ _ 30 31 none none (by decide)

end MeshGraph

end StellarConduit
