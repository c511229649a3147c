import StellarConduit.Discovery.Bans
import StellarConduit.Persistence.Offline
import StellarConduit.Persistence.Pending
import StellarConduit.Topology.GraphRuns

/-!
# Garbage collection

`topology/health.rs`: the `StatePruner`, whose loop sweeps the peer list, the mesh graph and the
pending messages, among all other calls on them.  Each of the three reads a clock of its own.

* `sweep`, `step`: one pass of the loop, and the calls in between;
* `graph_exec`, `peerList_exec`, `pending_exec`: each store runs on its own part of the calls;
* `listed_exec_iff`: which peers are listed after a run;
* `remembered_iff`: what a node remembers.
-/

namespace StellarConduit

open Verif Verif.Machine Verif.MessagePack

/-! ### The peers on a list -/

namespace PeerList

/-- When the call says that the peer has been seen. -/
def seenAt (key : Bytes 32) (e : PeerListEvent) : Option UInt64 :=
  match e.input with
  | .insertOrUpdate pubkey _ now => if pubkey = key then some now else none
  | .setLastSeen pubkey ts =>
    if pubkey = key ∧ (e.before.getPeer key).isSome then some ts else none
  | _ => none

/-- A sweep at a second by which a peer seen at `seen` is beyond the expiry window. -/
def Expires (expirySeconds seen : UInt64) (call : PeerListInput) : Prop :=
  ∃ now ∈ pruningTime call, expirySeconds.toNat < now.toNat - seen.toNat

def lastSeen (key : Bytes 32) (pl : PeerList) : Option UInt64 :=
  (pl.getPeer key).map Peer.lastSeenUnixSec

variable {pl : PeerList} {key : Bytes 32}

theorem lastSeen_modifyPeer (pubkey : Bytes 32) {f : Peer → Peer}
    (hf : ∀ peer, (f peer).lastSeenUnixSec = peer.lastSeenUnixSec) :
    lastSeen key (pl.modifyPeer pubkey f) = lastSeen key pl := by
  unfold lastSeen
  by_cases hkey : key = pubkey
  · subst hkey
    rw [getPeer_modifyPeer_self, Option.map_map]
    exact congrArg (fun f => (pl.getPeer key).map f) (funext hf)
  · rw [getPeer_modifyPeer_ne pl hkey]

theorem lastSeen_insertOrUpdate (pubkey : Bytes 32) (signalStrength : UInt8) (now : UInt64) :
    lastSeen key (pl.insertOrUpdate pubkey signalStrength now).2 =
      if pubkey = key then some now else lastSeen key pl := by
  unfold lastSeen
  by_cases hkey : pubkey = key
  · subst hkey
    rw [getPeer_insertOrUpdate_self, if_pos rfl, Option.map_some]
  · rw [getPeer_insertOrUpdate_ne pl (Ne.symm hkey), if_neg hkey]

theorem lastSeen_setLastSeen (pubkey : Bytes 32) (ts : UInt64) :
    lastSeen key (pl.setLastSeen pubkey ts) =
      if pubkey = key ∧ (pl.getPeer key).isSome then some ts else lastSeen key pl := by
  unfold lastSeen setLastSeen
  by_cases hkey : pubkey = key
  · subst hkey
    rw [getPeer_modifyPeer_self]
    cases pl.getPeer pubkey <;> simp
  · rw [getPeer_modifyPeer_ne pl (Ne.symm hkey), if_neg fun h => hkey h.1]

theorem lastSeen_checkBanExpirations (now : Bytes 32 → UInt64) :
    lastSeen key (pl.checkBanExpirations now).2 = lastSeen key pl := by
  unfold lastSeen
  rw [getPeer_checkBanExpirations, Option.map_map]
  refine congrArg (fun f => (pl.getPeer key).map f) (funext fun peer => ?_)
  show (peer.checkBanExpiration (now key)).2.lastSeenUnixSec = peer.lastSeenUnixSec
  unfold Peer.checkBanExpiration
  split_ifs <;> rfl

theorem lastSeen_pruneStalePeers (now seen : UInt64) :
    lastSeen key (pl.pruneStalePeers now).2 = some seen ↔
      lastSeen key pl = some seen ∧ ¬ pl.expirySeconds.toNat < now.toNat - seen.toNat := by
  unfold lastSeen
  rw [getPeer_pruneStalePeers]
  cases pl.getPeer key with
  | none => simp
  | some peer =>
    by_cases hstale : pl.expirySeconds.toNat < now.toNat - peer.lastSeenUnixSec.toNat
    · rw [Option.filter_some, isStale, decide_eq_true hstale]
      simp only [Bool.not_true, Bool.false_eq_true, if_false, Option.map_none, Option.map_some,
        Option.some.injEq, reduceCtorEq, false_iff, not_and, not_not]
      rintro rfl
      exact hstale
    · rw [Option.filter_some, isStale, decide_eq_false hstale]
      simp only [Bool.not_false, if_true, Option.map_some, Option.some.injEq]
      constructor
      · rintro rfl
        exact ⟨rfl, hstale⟩
      · exact fun h => h.1

/-- The last second at which a peer was seen, until a sweep finds it stale. -/
theorem lastSeen_cell :
    Cell PeerList.step (lastSeen key) (seenAt key)
      fun e seen => Expires e.before.expirySeconds seen e.input where
  step pl call seen := by
    -- Most calls change another field of one record.
    have quiet (hcall : pruningTime call = none) (hseen : seenAt key ⟨pl, call, (pl.step call).1⟩ =
        none) (hkept : lastSeen key (pl.step call).2 = lastSeen key pl) :
        lastSeen key (pl.step call).2 = some seen ↔
          seenAt key ⟨pl, call, (pl.step call).1⟩ = some seen ∨
            seenAt key ⟨pl, call, (pl.step call).1⟩ = none ∧ lastSeen key pl = some seen ∧
              ¬ Expires pl.expirySeconds seen call := by
      rw [hseen, hkept]
      simp [Expires, hcall]
    cases call with
    | insertOrUpdate pubkey signalStrength now =>
      show lastSeen key (pl.insertOrUpdate pubkey signalStrength now).2 = _ ↔ _
      rw [lastSeen_insertOrUpdate]
      by_cases hkey : pubkey = key <;> simp [seenAt, Expires, pruningTime, hkey]
    | setLastSeen pubkey ts =>
      show lastSeen key (pl.setLastSeen pubkey ts) = _ ↔ _
      rw [lastSeen_setLastSeen]
      dsimp only [seenAt]
      split_ifs <;> simp [Expires, pruningTime]
    | pruneStalePeers now =>
      refine (lastSeen_pruneStalePeers now seen).trans ?_
      simp [seenAt, Expires, pruningTime]
    | checkBanExpirations now => exact quiet rfl rfl (lastSeen_checkBanExpirations now)
    | banPeer pubkey durationSec now =>
      exact quiet rfl rfl (lastSeen_modifyPeer pubkey fun _ => rfl)
    | unbanPeer pubkey => exact quiet rfl rfl (lastSeen_modifyPeer pubkey fun _ => rfl)
    | applyPenalty pubkey reason =>
      exact quiet rfl rfl (lastSeen_modifyPeer pubkey fun _ => rfl)
    | applyReward pubkey reason =>
      exact quiet rfl rfl (lastSeen_modifyPeer pubkey fun _ => rfl)

theorem expirySeconds_step (call : PeerListInput) :
    (pl.step call).2.expirySeconds = pl.expirySeconds := by
  cases call with
  | insertOrUpdate pubkey signalStrength now =>
    show (pl.insertOrUpdate pubkey signalStrength now).2.expirySeconds = _
    unfold insertOrUpdate
    cases pl.peers.lookup pubkey <;> rfl
  | _ => rfl

/-- The peer was seen last at this second, and no sweep since has found it stale. -/
def Sighted (expirySeconds : UInt64) (calls : List PeerListInput) (key : Bytes 32)
    (seen : UInt64) : Prop :=
  ∃ before e after, trace PeerList.step (PeerList.new expirySeconds) calls = before ++ e :: after ∧
    seenAt key e = some seen ∧
      ∀ e' ∈ after, seenAt key e' = none ∧ ¬ Expires expirySeconds seen e'.input

/-- A peer is listed if it has been seen, and no sweep since has found it stale. -/
theorem listed_exec_iff (expirySeconds : UInt64) (calls : List PeerListInput) (seen : UInt64) :
    lastSeen key (exec PeerList.step (PeerList.new expirySeconds) calls) = some seen ↔
      Sighted expirySeconds calls key seen := by
  have hexpiry : ∀ e ∈ trace PeerList.step (PeerList.new expirySeconds) calls,
      e.before.expirySeconds = expirySeconds := by
    intro e he
    obtain ⟨pre, call, post, -, rfl⟩ := mem_trace he
    exact exec_invariant (fun pl : PeerList => pl.expirySeconds = expirySeconds)
      (fun _ call _ h => (expirySeconds_step call).trans h) rfl
  rw [lastSeen_cell.exec_iff rfl]
  unfold Sighted
  refine exists_congr fun before => exists_congr fun e => exists_congr fun after =>
    and_congr_right fun hsplit => and_congr_right fun _ => forall₂_congr fun e' he' => ?_
  rw [hexpiry e' (hsplit ▸ List.mem_append_right before (List.mem_cons_of_mem e he'))]

end PeerList

/-! ### The sweep -/

/-- The stores that a `StatePruner` holds; of the database, two tables. -/
structure PrunedState where
  graph : MeshGraph
  peerList : PeerList
  peers : PeerTable
  pending : PendingTable

/-- What one pass of the loop reads: its clocks, and the faults of the database. -/
structure SweepReadings where
  peersNow : UInt64
  markFault : Bytes 32 → Option DbError
  edgesNow : ℕ
  messagesNow : UInt64
  deleteFault : Option DbError

namespace StatePruner

def edgeTimeout : ℕ := 60 * 60 * 1000000000

def msgMaxAge : UInt64 := 60 * 60 * 24

/-- `now.saturating_sub(MSG_MAX_AGE.as_secs())` -/
def messageCutoff (now : UInt64) : UInt64 := if now < msgMaxAge then 0 else now - msgMaxAge

def pruneGraphEdges (graph : MeshGraph) (now : ℕ) : MeshGraph :=
  (graph.pruneStaleEdges edgeTimeout now none).2.1

/-- `prune_pending_messages`; an error counts as no deletions. -/
def prunePendingMessages (pending : PendingTable) (now : UInt64) (fault : Option DbError) :
    PendingTable :=
  match pending.deleteMessagesOlderThan (messageCutoff now) fault with
  | .ok (_, pending) => pending
  | .error _ => pending

/-- One pass of the loop of `start_background_task`. -/
def sweep (state : PrunedState) (r : SweepReadings) : PrunedState :=
  let (peerList, peers) := prunePeers state.peerList state.peers r.peersNow r.markFault
  { graph := pruneGraphEdges state.graph r.edgesNow
    peerList := peerList
    peers := peers
    pending := prunePendingMessages state.pending r.messagesNow r.deleteFault }

end StatePruner

/-- A sweep, or a call on one of the stores. -/
inductive PrunedCall
  | sweep (readings : SweepReadings)
  | graph (call : GraphInput)
  | peerList (call : PeerListInput)
  | peers (call : PeerTableCall)
  | pending (call : PendingCall)

namespace PrunedState

def fresh (expirySeconds : UInt64) : PrunedState :=
  ⟨MeshGraph.new, PeerList.new expirySeconds, ⟨∅⟩, ⟨∅⟩⟩

def step (text : DecodeError → String) (state : PrunedState) : PrunedCall → Unit × PrunedState
  | .sweep readings => ((), StatePruner.sweep state readings)
  | .graph call => ((), { state with graph := (state.graph.step call).2 })
  | .peerList call => ((), { state with peerList := (state.peerList.step call).2 })
  | .peers call => ((), { state with peers := (state.peers.step call).2 })
  | .pending call => ((), { state with pending := (state.pending.step text call).2 })

end PrunedState

namespace PrunedCall

/-- The call that reaches the graph. -/
def graphCall : PrunedCall → Option GraphInput
  | .sweep readings =>
    some (.pruneStaleEdges StatePruner.edgeTimeout readings.edgesNow none)
  | .graph call => some call
  | _ => none

def listCall : PrunedCall → Option PeerListInput
  | .sweep readings => some (.pruneStalePeers readings.peersNow)
  | .peerList call => some call
  | _ => none

def pendingCall : PrunedCall → Option PendingCall
  | .sweep readings =>
    some (.deleteMessagesOlderThan (StatePruner.messageCutoff readings.messagesNow)
      readings.deleteFault)
  | .pending call => some call
  | _ => none

end PrunedCall

namespace PrunedState

open PrunedCall

variable (text : DecodeError → String) (expirySeconds : UInt64) (calls : List PrunedCall)

theorem graph_exec :
    (exec (step text) (fresh expirySeconds) calls).graph =
      exec MeshGraph.step MeshGraph.new (calls.filterMap graphCall) := by
  rw [List.filterMap_eq_flatMap_toList]
  refine exec_component (fun state call => ?_) _ _
  cases call <;> rfl

theorem peerList_exec :
    (exec (step text) (fresh expirySeconds) calls).peerList =
      exec PeerList.step (PeerList.new expirySeconds) (calls.filterMap listCall) := by
  rw [List.filterMap_eq_flatMap_toList]
  refine exec_component (fun state call => ?_) _ _
  cases call <;> rfl

theorem pending_exec :
    (exec (step text) (fresh expirySeconds) calls).pending =
      exec (PendingTable.step text) ⟨∅⟩ (calls.filterMap pendingCall) := by
  rw [List.filterMap_eq_flatMap_toList]
  refine exec_component (fun state call => ?_) _ _
  cases call with
  | sweep readings =>
    show StatePruner.prunePendingMessages _ _ _ = (PendingTable.step text _ _).2
    unfold StatePruner.prunePendingMessages PendingTable.step
    dsimp only
    cases state.pending.deleteMessagesOlderThan _ readings.deleteFault <;> rfl
  | _ => rfl

/-- **What a node remembers.**  After any calls and sweeps, the graph has a node exactly if its
latest update has outlived all sweeps since, a peer is listed exactly if the second at which it was
seen last has, and a message is loaded exactly if it was stored as the first copy and neither
deleted nor swept since. -/
theorem remembered_iff :
    let state := exec (step text) (fresh expirySeconds) calls
    (∀ key, key ∈ state.graph.edges ↔ ∃ update timestamp,
        MeshGraph.Kept (calls.filterMap graphCall) key update timestamp) ∧
      (∀ key, (∃ peer, state.peerList.getPeer key = some peer) ↔ ∃ seen,
        PeerList.Sighted expirySeconds (calls.filterMap listCall) key seen) ∧
      ∃ list, state.pending.loadPendingEnvelopes text none = .ok list ∧
        (list.map TransactionEnvelope.messageId).Nodup ∧
          ∀ envelope, envelope ∈ list ↔
            PendingStore.Kept (calls.filterMap pendingCall) envelope := by
  intro state
  refine ⟨fun key => ?_, fun key => ?_, ?_⟩
  · show key ∈ (exec (step text) (fresh expirySeconds) calls).graph.edges ↔ _
    rw [graph_exec, MeshGraph.mem_edges_exec_iff]
  · have hseen : (∃ peer, state.peerList.getPeer key = some peer) ↔
        ∃ seen, PeerList.lastSeen key state.peerList = some seen := by
      unfold PeerList.lastSeen
      cases state.peerList.getPeer key <;> simp
    rw [hseen]
    refine exists_congr fun seen => ?_
    show PeerList.lastSeen key (exec (step text) (fresh expirySeconds) calls).peerList = _ ↔ _
    rw [peerList_exec, PeerList.listed_exec_iff]
  · show ∃ list, (exec (step text) (fresh expirySeconds) calls).pending.loadPendingEnvelopes text
      none = .ok list ∧ _
    rw [pending_exec]
    exact loadPendingEnvelopes_exec text _

end PrunedState

end StellarConduit
