import StellarConduit.Gossip.Arms
import StellarConduit.Router.Routes
import StellarConduit.Topology.Graph

/-!
# The routing table and the event bus

`run_gossip_loop` of `gossip/protocol.rs` as a subscriber of the bus, from which it learns which
routes to drop.

* `BusLoop.step`: a turn of the loop, a poll of its topology arm, or an event that others publish;
* `routes_exec`: once the receiver is drained, those routes are left that no event dropped which was
  still in the channel;
* `burst_invalidates_iff`, `prune_invalidates_iff`: when these are the routes that avoid the peers
  that were lost in a burst of events, and the nodes that were pruned from the graph.
-/

namespace StellarConduit

open Verif Verif.Machine

/-- The gossip loop that was given a bus. -/
structure BusLoop (β σ : Type) extends ArmsState β σ where
  topologyEvents : TopologyEventBus

inductive BusInput
  | loop (i : LoopInput)
  /-- The topology arm polls the receiver. -/
  | poll
  /-- Some other task publishes an event. -/
  | publish (event : TopologyEvent)

def BusInput.event? : BusInput → Option TopologyEvent
  | .publish event => some event
  | _ => none

namespace TopologyEvent

/-- The peer that an event says is lost. -/
def lostPeer? : TopologyEvent → Option (Bytes 32)
  | .peerDisconnected peerPubkey => some peerPubkey
  | .relayLost relayPubkey => some relayPubkey
  | .peerUnreachable peerPubkey => some peerPubkey
  | _ => none

/-- The loop drops the route when it receives the event. -/
def drops (event : TopologyEvent) (route : Bytes 32 × List PeerIdentity) : Bool :=
  match event with
  | .peerDisconnected peer | .relayLost peer | .peerUnreachable peer => decide (Uses peer route)
  | .clusterMerge _ | .partitionDetected _ => true
  | _ => false

end TopologyEvent

namespace ArmsState

variable {β σ : Type} [LruMap σ (Bytes 32) (List PeerIdentity)]

/-- The routes of the table, if there is one. -/
def routes (s : ArmsState β σ) : List (Bytes 32 × List PeerIdentity) :=
  (s.routingTable.map RoutingTable.routes).getD []

/-- One destination has one route. -/
def Distinct [LawfulLruMap σ (Bytes 32) (List PeerIdentity)] (s : ArmsState β σ) : Prop :=
  ∀ t ∈ s.routingTable, t.Distinct

variable [LawfulLruMap σ (Bytes 32) (List PeerIdentity)]

theorem distinct_of_reached {s : ArmsState β σ} (h : ∀ t ∈ s.routingTable, t.Reached) :
    s.Distinct := by
  intro t ht
  exact (h t ht).distinct

theorem routes_invalidate {s : ArmsState β σ} (h : s.Distinct) (peer : Bytes 32) :
    ({ s with routingTable := s.routingTable.map (RoutingTable.invalidate · peer) } :
      ArmsState β σ).routes = s.routes.filter fun route => !decide (Uses peer route) := by
  simp only [← decide_not]
  unfold routes
  dsimp only
  cases htable : s.routingTable with
  | none => rfl
  | some t => exact RoutingTable.iter_invalidate (h t htable) peer

theorem distinct_invalidate {s : ArmsState β σ} (h : s.Distinct) (peer : Bytes 32) :
    ({ s with routingTable := s.routingTable.map (RoutingTable.invalidate · peer) } :
      ArmsState β σ).Distinct := by
  intro t ht
  obtain ⟨before, hbefore, rfl⟩ := Option.map_eq_some_iff.1 ht
  exact RoutingTable.distinct_invalidate (h before hbefore) peer

theorem routes_clear (s : ArmsState β σ) :
    ({ s with routingTable := s.routingTable.map RoutingTable.clear } :
      ArmsState β σ).routes = [] := by
  unfold routes
  dsimp only
  cases s.routingTable with
  | none => rfl
  | some t => exact RoutingTable.routes_clear t

theorem distinct_clear (s : ArmsState β σ) :
    ({ s with routingTable := s.routingTable.map RoutingTable.clear } :
      ArmsState β σ).Distinct := by
  intro t ht
  obtain ⟨before, -, rfl⟩ := Option.map_eq_some_iff.1 ht
  exact Lru.nodup_keys_clear before.cache

/-- An event takes out the routes that it drops. -/
theorem routes_topologyEvent {s : ArmsState β σ} (h : s.Distinct) (event : TopologyEvent) :
    (s.topologyEvent event).routes = s.routes.filter fun route => !event.drops route := by
  cases event with
  | peerDisconnected peer => exact routes_invalidate h peer
  | relayLost relay => exact routes_invalidate h relay
  | peerUnreachable peer => exact routes_invalidate h peer
  | clusterMerge | partitionDetected =>
    exact (routes_clear s).trans (List.filter_eq_nil_iff.2 fun _ _ => Bool.false_ne_true).symm
  | peerUpdated | peerPruned | relayReachabilityGained | relayReachabilityLost | meshSizeChanged =>
    exact (List.filter_eq_self.2 fun _ _ => rfl).symm

theorem distinct_topologyEvent {s : ArmsState β σ} (h : s.Distinct) (event : TopologyEvent) :
    (s.topologyEvent event).Distinct := by
  cases event with
  | peerDisconnected peer => exact distinct_invalidate h peer
  | relayLost relay => exact distinct_invalidate h relay
  | peerUnreachable peer => exact distinct_invalidate h peer
  | clusterMerge | partitionDetected => exact distinct_clear s
  | peerUpdated | peerPruned | relayReachabilityGained | relayReachabilityLost | meshSizeChanged =>
    exact h

end ArmsState

namespace BusLoop

variable {β σ : Type} [Bloom β (Bytes 32)] [LruMap σ (Bytes 32) (List PeerIdentity)]

/-- The topology arm makes nothing of an error, and of an empty channel. -/
def ok : Received TopologyEvent → Option TopologyEvent
  | .value event => some event
  | _ => none

def step (s : BusLoop β σ) : BusInput → List SendCall × BusLoop β σ
  | .loop i =>
    let (calls, arms) := s.toArmsState.step (.loop i)
    (calls, { s with toArmsState := arms })
  | .poll =>
    let (received, topologyEvents) := s.topologyEvents.recv
    let (calls, arms) := s.toArmsState.step (.topologyEvent (ok received))
    (calls, { toArmsState := arms, topologyEvents := topologyEvents })
  | .publish event => ([], { s with topologyEvents := s.topologyEvents.publish event })

/-- The routes that an event leaves. -/
def keep (routes : List (Bytes 32 × List PeerIdentity)) (event : TopologyEvent) :
    List (Bytes 32 × List PeerIdentity) :=
  routes.filter fun route => !event.drops route

section Channel

variable {s : BusLoop β σ}

/-- Publishing, and the other arms, leave the table as it is. -/
theorem routingTable_step_of_ne_poll {i : BusInput} (hi : i ≠ .poll) :
    (s.step i).2.routingTable = s.routingTable ∧
      (s.step i).2.topologyEvents = s.topologyEvents.publishAll i.event?.toList := by
  cases i with
  | loop i => exact ⟨rfl, rfl⟩
  | poll => exact absurd rfl hi
  | publish event => exact ⟨rfl, rfl⟩

/-- Between two polls events gather in the channel. -/
theorem exec_of_forall_ne_poll {is : List BusInput} (his : ∀ i ∈ is, i ≠ .poll) :
    (exec step s is).routingTable = s.routingTable ∧
      (exec step s is).topologyEvents =
        s.topologyEvents.publishAll (is.filterMap BusInput.event?) := by
  induction is generalizing s with
  | nil => exact ⟨rfl, rfl⟩
  | cons i is ih =>
    obtain ⟨htable, hevents⟩ := routingTable_step_of_ne_poll (s := s) (his i List.mem_cons_self)
    obtain ⟨htable', hevents'⟩ := ih fun j hj => his j (List.mem_cons_of_mem i hj)
    refine ⟨htable'.trans htable, hevents'.trans ?_⟩
    rw [hevents]
    cases hevent : i.event? with
    | none =>
      rw [List.filterMap_cons_none hevent]
      rfl
    | some event =>
      rw [List.filterMap_cons_some hevent]
      rfl

/-- A receiver that is asked often enough is drained. -/
theorem pending_exec_poll (n : ℕ) :
    (exec step s (List.replicate n .poll)).topologyEvents.pending =
      s.topologyEvents.pending - n := by
  induction n generalizing s with
  | zero => rfl
  | succ n ih =>
    have hone : (s.step .poll).2.topologyEvents.pending = s.topologyEvents.pending - 1 :=
      s.topologyEvents.pending_recv
    rw [List.replicate_succ, exec_cons, ih, hone]
    omega

theorem drained_exec_poll :
    (exec step s (List.replicate (s.topologyEvents.slots + 1) .poll)).topologyEvents.Drained := by
  rw [← Receiver.pending_eq_zero_iff, pending_exec_poll]
  exact Nat.sub_eq_zero_of_le s.topologyEvents.pending_le

end Channel

variable [LawfulLruMap σ (Bytes 32) (List PeerIdentity)]

/-- Of the table those routes will be left once all that waits has been received. -/
structure Leaves (routes : List (Bytes 32 × List PeerIdentity)) (s : BusLoop β σ) : Prop where
  distinct : s.Distinct
  outcome_eq : s.topologyEvents.outcome keep s.routes = routes

section Step

variable {routes : List (Bytes 32 × List PeerIdentity)} {s : BusLoop β σ}

theorem routes_poll (h : s.Distinct) :
    (s.step .poll).2.routes =
      Receiver.consumeReceived keep s.routes s.topologyEvents.recv.1 := by
  show (s.toArmsState.step (.topologyEvent (ok s.topologyEvents.recv.1))).2.routes = _
  cases s.topologyEvents.recv.1 with
  | empty => rfl
  | lagged missed => rfl
  | value event => exact ArmsState.routes_topologyEvent h event

theorem distinct_poll (h : s.Distinct) : (s.step .poll).2.Distinct := by
  show (s.toArmsState.step (.topologyEvent (ok s.topologyEvents.recv.1))).2.Distinct
  cases s.topologyEvents.recv.1 with
  | empty => exact h
  | lagged missed => exact h
  | value event => exact ArmsState.distinct_topologyEvent h event

/-- What will be left stays the same unless something is published. -/
theorem Leaves.step (h : Leaves routes s) {i : BusInput} (hi : i.event? = none) :
    Leaves routes (s.step i).2 := by
  cases i with
  | loop i => exact ⟨h.distinct, h.outcome_eq⟩
  | poll =>
    refine ⟨distinct_poll h.distinct, ?_⟩
    rw [routes_poll h.distinct]
    exact (Receiver.outcome_recv keep s.routes s.topologyEvents).trans h.outcome_eq
  | publish event => cases hi

end Step

/-! ### Runs -/

section Runs

variable {s : BusLoop β σ}

theorem leaves_exec {routes : List (Bytes 32 × List PeerIdentity)} (h : Leaves routes s)
    {is : List BusInput} (hquiet : ∀ i ∈ is, i.event? = none) : Leaves routes (exec step s is) :=
  exec_invariant (Leaves routes) (fun _ i hi hs => hs.step (hquiet i hi)) h

/-- Once the receiver is drained, those routes are left that no event dropped which waited. -/
theorem routes_exec (h : s.Distinct) {is : List BusInput} (hquiet : ∀ i ∈ is, i.event? = none)
    (hdrained : (exec step s is).topologyEvents.Drained) :
    (exec step s is).routes =
      s.routes.filter fun route => s.topologyEvents.unread.all fun event => !event.drops route := by
  have hleaves := leaves_exec ⟨h, rfl⟩ hquiet
  have houtcome := hleaves.outcome_eq
  rw [Receiver.outcome_of_drained keep _ hdrained] at houtcome
  rw [houtcome]
  exact Receiver.outcome_filter (fun event route => !event.drops route) s.routes s.topologyEvents

/-- The routes that are left avoid some peers when an event that waited dropped each route that
uses one of them. -/
theorem avoids_iff (h : s.Distinct) {is : List BusInput} (hquiet : ∀ i ∈ is, i.event? = none)
    (hdrained : (exec step s is).topologyEvents.Drained) (peer : Bytes 32) :
    (∀ route ∈ (exec step s is).routes, ¬ Uses peer route) ↔
      ∀ route ∈ s.routes, Uses peer route →
        ∃ event ∈ s.topologyEvents.unread, event.drops route = true := by
  rw [routes_exec h hquiet hdrained]
  constructor
  · intro havoids route hroute huses
    by_contra hnone
    push Not at hnone
    refine havoids route (List.mem_filter.2 ⟨hroute, ?_⟩) huses
    simpa using hnone
  · intro hdropped route hroute huses
    obtain ⟨hmem, hkept⟩ := List.mem_filter.1 hroute
    obtain ⟨event, hevent, hdrops⟩ := hdropped route hmem huses
    have hnot := List.all_eq_true.1 hkept event hevent
    rw [hdrops] at hnot
    exact absurd hnot Bool.false_ne_true

end Runs

end BusLoop

open BusLoop

section Main

variable {β σ : Type} [Bloom β (Bytes 32)] [LruMap σ (Bytes 32) (List PeerIdentity)]
  [LawfulLruMap σ (Bytes 32) (List PeerIdentity)]

/-- **When a burst of events leaves no stale route.**  Events are published between two polls, with
turns of the other arms among them.  The loop can drain its receiver; and once it has, the routes
that are left avoid every peer that the burst says is lost exactly when each route that used one of
them is dropped by an event that was still in the channel after the burst. -/
theorem burst_invalidates_iff (s : BusLoop β σ) (hreached : ∀ t ∈ s.routingTable, t.Reached)
    (burst is : List BusInput) (hburst : ∀ i ∈ burst, i ≠ .poll)
    (hquiet : ∀ i ∈ is, i.event? = none) :
    let events := burst.filterMap BusInput.event?
    let waiting := (s.topologyEvents.unread ++ events).drop
      (s.topologyEvents.unread.length + events.length - s.topologyEvents.slots)
    let reached := exec BusLoop.step s (burst ++ is)
    (exec BusLoop.step s (burst ++
        List.replicate (s.topologyEvents.slots + 1) .poll)).topologyEvents.Drained ∧
      (reached.topologyEvents.Drained →
        ((∀ event ∈ events, ∀ peer ∈ event.lostPeer?, ∀ route ∈ reached.routes, ¬ Uses peer route) ↔
          ∀ event ∈ events, ∀ peer ∈ event.lostPeer?, ∀ route ∈ s.routes, Uses peer route →
            ∃ event' ∈ waiting, event'.drops route = true)) := by
  intro events waiting reached
  obtain ⟨htable, hevents⟩ := exec_of_forall_ne_poll (s := s) hburst
  have hunread : (exec BusLoop.step s burst).topologyEvents.unread = waiting := by
    rw [hevents, Receiver.unread_publishAll]
  have hslots : (exec BusLoop.step s burst).topologyEvents.slots = s.topologyEvents.slots := by
    rw [hevents, Receiver.slots_publishAll]
  have hroutes : (exec BusLoop.step s burst).routes = s.routes := by
    unfold ArmsState.routes
    rw [htable]
  have hdistinct : (exec BusLoop.step s burst).Distinct := by
    apply ArmsState.distinct_of_reached
    rw [htable]
    exact hreached
  -- What the burst leaves unread decides, since the inputs after it publish nothing.
  refine ⟨?_, fun hdrained => ?_⟩
  · rw [exec_append, ← hslots]
    exact drained_exec_poll
  · refine forall₂_congr fun event _ => forall₂_congr fun peer _ => ?_
    change (exec BusLoop.step s (burst ++ is)).topologyEvents.Drained at hdrained
    show (∀ route ∈ (exec BusLoop.step s (burst ++ is)).routes, _) ↔ _
    rw [exec_append] at hdrained ⊢
    rw [avoids_iff hdistinct hquiet hdrained, hunread, hroutes]

/-- The events of a pruning drop no route. -/
theorem drops_of_mem_pruneEvents (g : MeshGraph) (timeout now : ℕ) {event : TopologyEvent}
    (h : event ∈ g.pruneEvents timeout now) (route : Bytes 32 × List PeerIdentity) :
    ¬ event.drops route = true := by
  rcases List.mem_append.1 h with hpruned | hsize
  · obtain ⟨key, -, rfl⟩ := List.mem_map.1 hpruned
    exact Bool.false_ne_true
  · split_ifs at hsize
    · rw [List.mem_singleton.1 hsize]
      exact Bool.false_ne_true
    · exact absurd hsize List.not_mem_nil

/-- **When routing follows the pruning of the graph.**  Stale nodes are pruned and the bus is told.
Once the loop has drained its receiver, the routes that are left avoid every node that was pruned
exactly when each route that used one of them is dropped by an event that was in the channel before,
and is still in it when the bus has been told. -/
theorem prune_invalidates_iff (s : BusLoop β σ) (hreached : ∀ t ∈ s.routingTable, t.Reached)
    (g : MeshGraph) (timeout now : ℕ) (is : List BusInput) (hquiet : ∀ i ∈ is, i.event? = none) :
    let g' := (g.pruneStaleEdges timeout now (some s.topologyEvents)).2.1
    let eventBus := (g.pruneStaleEdges timeout now (some s.topologyEvents)).2.2
    let waiting := s.topologyEvents.unread.drop (s.topologyEvents.unread.length +
      (g.pruneEvents timeout now).length - s.topologyEvents.slots)
    ∀ bus ∈ eventBus,
      let reached := exec BusLoop.step { s with topologyEvents := bus } is
      reached.topologyEvents.Drained →
        ((∀ key, key ∈ g.lastUpdated ∧ key ∉ g'.lastUpdated →
            ∀ route ∈ reached.routes, ¬ Uses key route) ↔
          ∀ key ∈ g.staleKeys timeout now, ∀ route ∈ s.routes, Uses key route →
            ∃ event ∈ waiting, event.drops route = true) := by
  intro g' eventBus waiting bus hbus reached hdrained
  have hbus' := g.eventBus_pruneStaleEdges timeout now s.topologyEvents
  obtain rfl := Option.some.inj ((Option.mem_def.1 hbus).symm.trans hbus')
  refine forall_congr' fun key => ?_
  rw [← g.mem_staleKeys_iff_pruned timeout now (some s.topologyEvents)]
  refine forall_congr' fun _ => ?_
  have havoids := avoids_iff
    (s := { s with topologyEvents := s.topologyEvents.publishAll (g.pruneEvents timeout now) })
    (ArmsState.distinct_of_reached hreached) hquiet hdrained key
  refine havoids.trans (forall₂_congr fun route _ => forall_congr' fun _ => ?_)
  exact Receiver.mem_unread_publishAll_of_forall_not
    fun event hevent => drops_of_mem_pruneEvents g timeout now hevent route

end Main

/-! ### Samples -/

/-- A loop that keeps a route to one peer through another one, with a bus of some capacity. -/
def sampleBus (capacity : ℕ) :
    BusLoop (ExactFilter (Bytes 32)) (ListLru (Bytes 32) (List PeerIdentity)) where
  toLoopState := sampleLoop
  routingTable := some ((RoutingTable.new 16 RoutingMetrics.new).insert
    (List.Vector.replicate 32 1) [PeerIdentity.new (List.Vector.replicate 32 2)])
  topologyEvents := TopologyEventBus.new capacity

theorem sampleBus_reached (capacity : ℕ) : ∀ t ∈ (sampleBus capacity).routingTable, t.Reached := by
  intro t ht
  obtain rfl := Option.some.inj ht
  exact ⟨16, RoutingMetrics.new, [.insert _ _], rfl⟩

/-- A burst of two events in a channel of two: the next hop is lost, and the route with it. -/
theorem burst_invalidates_iff_sample :
    let hop : Bytes 32 := List.Vector.replicate 32 2
    let burst : List BusInput := [.publish (.peerUnreachable hop), .publish .relayReachabilityLost]
    (sampleBus 2).routes ≠ [] ∧
      (∀ event ∈ burst.filterMap BusInput.event?, ∀ peer ∈ event.lostPeer?, ∀ route ∈
        (exec BusLoop.step (sampleBus 2) (burst ++ [.poll, .poll])).routes, ¬ Uses peer route) := by
  intro hop burst
  refine ⟨by decide +kernel, ?_⟩
  obtain ⟨-, hiff⟩ := burst_invalidates_iff (sampleBus 2) (sampleBus_reached 2) burst
    [.poll, .poll] (by simp [burst]) (by simp [BusInput.event?])
  have hdropped : ∀ route ∈ (sampleBus 2).routes,
      (TopologyEvent.peerUnreachable hop).drops route = true := by decide +kernel
  refine (hiff ⟨by decide +kernel, by decide +kernel⟩).2 fun _ _ _ _ route hroute _ => ?_
  exact ⟨_, List.mem_cons_self, hdropped route hroute⟩

/-- The same burst in a channel of one: the loss is overwritten, and the loop told so, before it is
received; the route stays. -/
theorem stale_after_burst_sample :
    let hop : Bytes 32 := List.Vector.replicate 32 2
    let burst : List BusInput := [.publish (.peerUnreachable hop), .publish .relayReachabilityLost]
    let reached := exec BusLoop.step (sampleBus 1) (burst ++ [.poll, .poll])
    reached.topologyEvents.Drained ∧ ∃ route ∈ reached.routes, Uses hop route := by
  decide +kernel

/-- A graph of one node, that was heard of at the instant zero. -/
def sampleGraph (key : Bytes 32) : MeshGraph where
  edges := AList.singleton key []
  lastUpdated := AList.singleton key 0

/-- The loop when the loss of the next hop waits in its channel. -/
def sampleLossWaiting : BusLoop (ExactFilter (Bytes 32)) (ListLru (Bytes 32) (List PeerIdentity)) :=
  { sampleBus 4 with
    topologyEvents := (sampleBus 4).topologyEvents.publish
      (.peerUnreachable (List.Vector.replicate 32 2)) }

/-- The next hop of the route is pruned while its loss still waits: the route goes with the loss. -/
theorem prune_invalidates_iff_sample :
    let hop : Bytes 32 := List.Vector.replicate 32 2
    let g := (sampleGraph hop).pruneStaleEdges 5 10 (some sampleLossWaiting.topologyEvents)
    hop ∈ (sampleGraph hop).lastUpdated ∧ hop ∉ g.2.1.lastUpdated ∧
      (∃ route ∈ sampleLossWaiting.routes, Uses hop route) ∧ ∀ bus ∈ g.2.2,
        ∀ route ∈ (exec BusLoop.step { sampleLossWaiting with topologyEvents := bus }
          [.poll, .poll, .poll]).routes, ¬ Uses hop route := by
  intro hop g
  have hpruned : hop ∈ (sampleGraph hop).lastUpdated ∧ hop ∉ g.2.1.lastUpdated := by
    decide +kernel
  have huses : ∃ route ∈ sampleLossWaiting.routes, Uses hop route := by decide +kernel
  refine ⟨hpruned.1, hpruned.2, huses, fun bus hbus => ?_⟩
  have hdrained : (exec BusLoop.step { sampleLossWaiting with topologyEvents := bus }
      [.poll, .poll, .poll]).topologyEvents.Drained := by
    obtain rfl := Option.some.inj hbus
    exact ⟨by decide +kernel, by decide +kernel⟩
  have hdropped : ∀ route ∈ sampleLossWaiting.routes,
      (TopologyEvent.peerUnreachable hop).drops route = true := by decide +kernel
  refine (prune_invalidates_iff sampleLossWaiting (sampleBus_reached 4) (sampleGraph hop) 5 10
    [.poll, .poll, .poll] (by simp [BusInput.event?]) bus hbus hdrained).2 ?_ hop hpruned
  intro _ _ route hroute _
  exact ⟨_, List.mem_cons_self, hdropped route hroute⟩

/-- A node is pruned to which a route leads: the loop receives the event, and the route stays. -/
theorem stale_after_prune_sample :
    let key : Bytes 32 := List.Vector.replicate 32 1
    let g := (sampleGraph key).pruneStaleEdges 5 10 (some (sampleBus 4).topologyEvents)
    key ∈ (sampleGraph key).lastUpdated ∧ key ∉ g.2.1.lastUpdated ∧ ∃ bus ∈ g.2.2,
      let reached := exec BusLoop.step { sampleBus 4 with topologyEvents := bus } [.poll, .poll]
      reached.topologyEvents.Drained ∧ ∃ route ∈ reached.routes, Uses key route := by
  decide +kernel

end StellarConduit
