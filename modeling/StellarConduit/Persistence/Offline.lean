import StellarConduit.Discovery.PeerList
import StellarConduit.Lib.LastWrite
import StellarConduit.Persistence.Peers

/-!
# Peers that go offline

`mark_peer_offline` of `persistence/db.rs`, which `StatePruner` of `topology/health.rs` calls for
every stale peer, among the calls of `save_peer` and `load_all_peers`.  A peer is marked in the
column of its ban.

* `PeerTable.step`: the calls, as a machine over the table;
* `prunePeers_eq_exec`: a sweep of the pruner is a run of it;
* `exec_eq_saveAll`: to mark a peer is to save it as banned;
* `stays_unbanned_iff`: when the peers that were saved without a ban are loaded without one.
-/

namespace StellarConduit

open Verif Verif.Machine

inductive PeerTableCall
  | savePeer (peer : Peer) (fault : Option DbError)
  | markPeerOffline (pubkey : Bytes 32) (fault : Option DbError)
  | loadAllPeers (fault : Option DbError)

inductive PeerTableAnswer
  | saved (result : Except DbError Unit)
  | marked (result : Except DbError ℕ)
  | loaded (result : Except DbError (List Peer))

namespace PeerTable

/-- `UPDATE peers SET is_banned=1`: the answer is the number of rows that were changed. -/
def markPeerOffline (table : PeerTable) (pubkey : Bytes 32) (fault : Option DbError) :
    Except DbError (ℕ × PeerTable) :=
  match fault with
  | some e => .error e
  | none =>
    .ok (if (table.rows.lookup pubkey).isSome then 1 else 0,
      { table with rows := HashMap.modify pubkey (fun row => row.set 3 (sqlBool true)) table.rows })

/-- The calls, as a machine.  A call that fails leaves the table as it is. -/
def step (table : PeerTable) : PeerTableCall → PeerTableAnswer × PeerTable
  | .savePeer peer fault =>
    match table.savePeer peer fault with
    | .ok table => (.saved (.ok ()), table)
    | .error e => (.saved (.error e), table)
  | .markPeerOffline pubkey fault =>
    match table.markPeerOffline pubkey fault with
    | .ok (count, table) => (.marked (.ok count), table)
    | .error e => (.marked (.error e), table)
  | .loadAllPeers fault => (.loaded (table.loadAllPeers fault), table)

end PeerTable

/-- `StatePruner::prune_peers`; what `mark_peer_offline` returns is not looked at. -/
def prunePeers (peerList : PeerList) (table : PeerTable) (now : UInt64)
    (fault : Bytes 32 → Option DbError) : PeerList × PeerTable :=
  let (lost, peerList) := peerList.pruneStalePeers now
  let mark (table : PeerTable) : DiscoveryEvent → PeerTable
    | .peerLost identity =>
      match table.markPeerOffline identity.pubkey (fault identity.pubkey) with
      | .ok (_, table) => table
      | .error _ => table
    | _ => table
  (peerList, lost.foldl mark table)

/-- The peers that a sweep finds stale. -/
def PeerList.stalePeers (peerList : PeerList) (now : UInt64) : List Peer :=
  (peerList.peers.entries.map Sigma.snd).filter (peerList.isStale now)

/-- A sweep marks the stale peers, one after the other. -/
theorem prunePeers_eq_exec (peerList : PeerList) (table : PeerTable) (now : UInt64)
    (fault : Bytes 32 → Option DbError) :
    (prunePeers peerList table now fault).2 =
      exec PeerTable.step table ((peerList.stalePeers now).map fun peer =>
        .markPeerOffline peer.identity.pubkey (fault peer.identity.pubkey)) := by
  unfold prunePeers PeerList.pruneStalePeers
  dsimp only
  rw [← PeerList.stalePeers]
  induction peerList.stalePeers now generalizing table with
  | nil => rfl
  | cons peer peers ih =>
    rw [List.map_cons, List.map_cons, List.foldl_cons, ih, exec_cons]
    congr 1
    unfold PeerTable.step
    dsimp only
    cases table.markPeerOffline peer.identity.pubkey (fault peer.identity.pubkey) <;> rfl

/-! ### What the calls leave of a peer -/

abbrev PeerTableEvent := Event PeerTable PeerTableCall PeerTableAnswer

/-- The peer that a successful call saves under a key. -/
def savedAs (pubkey : Bytes 32) (e : PeerTableEvent) : Option Peer :=
  match e.input, e.output with
  | .savePeer peer _, .saved (.ok ()) =>
    if peer.identity.pubkey = pubkey then some peer else none
  | _, _ => none

/-- Whether a successful call marks a peer offline, or saves it. -/
def marksOrSaves (pubkey : Bytes 32) (e : PeerTableEvent) : Option Bool :=
  match e.input, e.output with
  | .savePeer peer _, .saved (.ok ()) =>
    if peer.identity.pubkey = pubkey then some false else none
  | .markPeerOffline marked _, .marked (.ok _) => if marked = pubkey then some true else none
  | _, _ => none

/-- Since it was saved last, the peer has been marked offline. -/
def markedSince (pubkey : Bytes 32) (events : List PeerTableEvent) : Bool :=
  (lastOf (marksOrSaves pubkey) events).getD false

/-- The peer as its row has it. -/
def storedPeer (pubkey : Bytes 32) (events : List PeerTableEvent) : Option Peer :=
  (lastOf (savedAs pubkey) events).map fun peer =>
    { peer with isBanned := peer.isBanned || markedSince pubkey events }

section Stored

variable (pubkey : Bytes 32) (events : List PeerTableEvent) {e : PeerTableEvent}

theorem storedPeer_of_save {peer : Peer} {fault : Option DbError}
    (hinput : e.input = .savePeer peer fault) (houtput : e.output = .saved (.ok ())) :
    storedPeer pubkey (events ++ [e]) =
      if peer.identity.pubkey = pubkey then some peer else storedPeer pubkey events := by
  unfold storedPeer markedSince
  rw [lastOf_concat, lastOf_concat]
  unfold savedAs marksOrSaves
  rw [hinput, houtput]
  dsimp only
  by_cases hkey : peer.identity.pubkey = pubkey <;> simp [hkey]

theorem storedPeer_of_mark {marked : Bytes 32} {fault : Option DbError} {count : ℕ}
    (hinput : e.input = .markPeerOffline marked fault) (houtput : e.output = .marked (.ok count)) :
    storedPeer pubkey (events ++ [e]) =
      if marked = pubkey then
        (storedPeer pubkey events).map fun peer => { peer with isBanned := true }
      else storedPeer pubkey events := by
  unfold storedPeer markedSince
  rw [lastOf_concat, lastOf_concat]
  unfold savedAs marksOrSaves
  rw [hinput, houtput]
  dsimp only
  by_cases hkey : marked = pubkey
  · simp [hkey, Function.comp_def]
  · simp [hkey]

theorem marksOrSaves_of_savedAs {peer : Peer} (h : savedAs pubkey e = some peer) :
    marksOrSaves pubkey e = some false := by
  unfold savedAs at h
  split at h
  next hinput houtput =>
    split_ifs at h with hkey
    unfold marksOrSaves
    rw [hinput, houtput]
    exact if_pos hkey
  next => cases h

theorem storedPeer_of_none (h : marksOrSaves pubkey e = none) :
    storedPeer pubkey (events ++ [e]) = storedPeer pubkey events := by
  have hsaved : savedAs pubkey e = none := by
    cases hpeer : savedAs pubkey e with
    | none => rfl
    | some peer =>
      rw [marksOrSaves_of_savedAs pubkey hpeer] at h
      cases h
  unfold storedPeer markedSince
  rw [lastOf_concat, lastOf_concat, h, hsaved]
  rfl

end Stored

namespace PeerTable

theorem savePeer_eq_ok {table table' : PeerTable} {peer : Peer} {fault : Option DbError}
    (h : table.savePeer peer fault = .ok table') :
    peer.lastSeenUnixSec.toNat < 2 ^ 63 ∧ table.savePeer peer none = .ok table' := by
  unfold savePeer at h ⊢
  cases fault with
  | some e => cases h
  | none =>
    dsimp only at h ⊢
    split_ifs at h with hfits
    exact ⟨hfits, by rw [if_pos hfits, h]⟩

theorem saveAll_concat {saves : List Peer} {table table' : PeerTable} {peer : Peer}
    (h : saveAll ⟨∅⟩ saves = .ok table) (hpeer : table.savePeer peer none = .ok table') :
    saveAll ⟨∅⟩ (saves ++ [peer]) = .ok table' := by
  unfold saveAll at h ⊢
  rw [List.foldlM_append, h]
  show (table.savePeer peer none >>= fun table => .ok table) = _
  rw [hpeer]
  rfl

/-- Of a peer that has a row, the row is marked as it is when the peer is saved as banned. -/
theorem markPeerOffline_eq {table : PeerTable} {pubkey : Bytes 32} {peer : Peer}
    (hrow : table.rows.lookup pubkey = some (peerRow peer)) (hkey : peer.identity.pubkey = pubkey)
    (hfits : peer.lastSeenUnixSec.toNat < 2 ^ 63) :
    ∃ table', table.markPeerOffline pubkey none = .ok (1, table') ∧
      table.savePeer { peer with isBanned := true } none = .ok table' := by
  refine ⟨⟨table.rows.insert pubkey (peerRow { peer with isBanned := true })⟩, ?_, ?_⟩
  · unfold markPeerOffline HashMap.modify
    rw [hrow]
    rfl
  · unfold savePeer
    dsimp only
    rw [if_pos hfits, hkey]

theorem markPeerOffline_of_none {table : PeerTable} {pubkey : Bytes 32}
    (hrow : table.rows.lookup pubkey = none) :
    table.markPeerOffline pubkey none = .ok (0, table) := by
  unfold markPeerOffline HashMap.modify
  rw [hrow]
  rfl

/-! ### Runs -/

/-- The table is what saving some peers makes of it, which are those that are stored. -/
structure SavedBy (saves : List Peer) (table : PeerTable) (events : List PeerTableEvent) :
    Prop where
  fits : ∀ peer ∈ saves, peer.lastSeenUnixSec.toNat < 2 ^ 63
  table : saveAll ⟨∅⟩ saves = .ok table
  stored : ∀ pubkey, lastSaved saves pubkey = storedPeer pubkey events

namespace SavedBy

variable {saves : List Peer} {table : PeerTable} {events : List PeerTableEvent}

theorem lookup (h : SavedBy saves table events) (pubkey : Bytes 32) :
    table.rows.lookup pubkey = (storedPeer pubkey events).map peerRow := by
  obtain ⟨table', hsave, hrows⟩ := saveAll_eq h.fits
  rw [h.table] at hsave
  cases hsave
  rw [hrows, h.stored]

/-- One more peer is saved. -/
theorem save (h : SavedBy saves table events) {table' : PeerTable} (peer : Peer)
    (hfits : peer.lastSeenUnixSec.toNat < 2 ^ 63) (hpeer : table.savePeer peer none = .ok table')
    {e : PeerTableEvent} (hstored : ∀ pubkey, storedPeer pubkey (events ++ [e]) =
      if peer.identity.pubkey = pubkey then some peer else storedPeer pubkey events) :
    SavedBy (saves ++ [peer]) table' (events ++ [e]) where
  fits := by
    intro p hp
    rcases List.mem_append.1 hp with hp | hp
    · exact h.fits p hp
    · rw [List.mem_singleton.1 hp]
      exact hfits
  table := saveAll_concat h.table hpeer
  stored pubkey := by rw [lastSaved_concat, hstored, h.stored]

/-- Nothing is written. -/
theorem idle (h : SavedBy saves table events) {e : PeerTableEvent}
    (hstored : ∀ pubkey, storedPeer pubkey (events ++ [e]) = storedPeer pubkey events) :
    SavedBy saves table (events ++ [e]) where
  fits := h.fits
  table := h.table
  stored pubkey := by rw [hstored, h.stored]

/-- **Each call** saves a peer, or nothing: to mark a peer offline is to save it as banned. -/
theorem step (h : SavedBy saves table events) (call : PeerTableCall) :
    ∃ saves', SavedBy saves' (table.step call).2
      (events ++ [⟨table, call, (table.step call).1⟩]) := by
  cases call with
  | loadAllPeers fault => exact ⟨saves, h.idle fun pubkey => storedPeer_of_none _ _ rfl⟩
  | savePeer peer fault =>
    unfold PeerTable.step
    dsimp only
    cases hsave : table.savePeer peer fault with
    | error e => exact ⟨saves, h.idle fun pubkey => storedPeer_of_none _ _ rfl⟩
    | ok table' =>
      obtain ⟨hfits, hpeer⟩ := savePeer_eq_ok hsave
      exact ⟨_, h.save peer hfits hpeer fun pubkey => storedPeer_of_save _ _ rfl rfl⟩
  | markPeerOffline pubkey fault =>
    unfold PeerTable.step
    dsimp only
    cases fault with
    | some e => exact ⟨saves, h.idle fun pubkey => storedPeer_of_none _ _ rfl⟩
    | none =>
      have hlookup := h.lookup pubkey
      cases hpeer : storedPeer pubkey events with
      | none =>
        rw [hpeer, Option.map_none] at hlookup
        rw [markPeerOffline_of_none hlookup]
        refine ⟨saves, h.idle fun other => ?_⟩
        rw [storedPeer_of_mark other events rfl rfl]
        split_ifs with hother
        · rw [← hother, hpeer, Option.map_none]
        · rfl
      | some peer =>
        rw [hpeer, Option.map_some] at hlookup
        have hlast : lastSaved saves pubkey = some peer := (h.stored pubkey).trans hpeer
        obtain ⟨hmem, hkey⟩ := lastSaved_pubkey hlast
        -- Marking a stored peer does what saving it again with the flag set does.
        obtain ⟨table', hmark, hsave⟩ := markPeerOffline_eq hlookup hkey (h.fits peer hmem)
        rw [hmark]
        refine ⟨_, h.save { peer with isBanned := true } (h.fits peer hmem) hsave
          fun other => ?_⟩
        rw [storedPeer_of_mark other events rfl rfl]
        dsimp only
        rw [hkey]
        split_ifs with hother
        · rw [← hother, hpeer, Option.map_some]
        · rfl

end SavedBy

/-- **A run of calls** leaves the table that saving the stored peers makes. -/
theorem exec_eq_saveAll (calls : List PeerTableCall) :
    ∃ saves, SavedBy saves (exec step ⟨∅⟩ calls) (trace step ⟨∅⟩ calls) := by
  induction calls using List.reverseRecOn with
  | nil => exact ⟨[], fun _ hp => (List.not_mem_nil hp).elim, rfl, fun _ => rfl⟩
  | append_singleton calls call ih =>
    obtain ⟨saves, h⟩ := ih
    rw [exec_concat, trace_append]
    exact h.step call

/-- What is loaded after any calls: of every key that was saved, what its row holds of the peer as
it is stored. -/
theorem loadAllPeers_exec (calls : List PeerTableCall) :
    ∃ loaded, (exec step ⟨∅⟩ calls).loadAllPeers none = .ok loaded ∧
      (loaded.map fun peer => peer.identity.pubkey).Nodup ∧
      ∀ peer, peer ∈ loaded ↔
        ∃ pubkey, ∃ last ∈ storedPeer pubkey (trace step ⟨∅⟩ calls), peer = restored last := by
  obtain ⟨saves, h⟩ := exec_eq_saveAll calls
  obtain ⟨table, loaded, hsave, hload, hnodup, hmem⟩ := loadAllPeers_eq h.fits
  rw [h.table] at hsave
  cases hsave
  refine ⟨loaded, hload, hnodup, fun peer => ?_⟩
  rw [hmem]
  simp only [h.stored]

/-- The peer was saved last without a ban. -/
def SavedUnbanned (pubkey : Bytes 32) (events : List PeerTableEvent) : Prop :=
  ∃ last ∈ lastOf (savedAs pubkey) events, last.isBanned = false

/-- **Going offline.**  After any calls, exactly one peer is loaded of every key that was saved.  If
it was saved last without a ban, it is loaded without one if and only if it has not been marked
offline since. -/
theorem stays_unbanned_iff (calls : List PeerTableCall) :
    let events := trace step ⟨∅⟩ calls
    ∃ loaded, (exec step ⟨∅⟩ calls).loadAllPeers none = .ok loaded ∧
      (loaded.map fun peer => peer.identity.pubkey).Nodup ∧
      (∀ pubkey, pubkey ∈ loaded.map (fun peer => peer.identity.pubkey) ↔
        (lastOf (savedAs pubkey) events).isSome) ∧
      ∀ pubkey, SavedUnbanned pubkey events →
        ((∃ peer ∈ loaded, peer.identity.pubkey = pubkey ∧ peer.isBanned = false) ↔
          markedSince pubkey events = false) := by
  intro events
  obtain ⟨loaded, hload, hnodup, hmem⟩ := loadAllPeers_exec calls
  obtain ⟨saves, h⟩ := exec_eq_saveAll calls
  have hkey : ∀ pubkey, ∀ last ∈ storedPeer pubkey events, last.identity.pubkey = pubkey :=
    fun pubkey last hlast => (lastSaved_pubkey ((h.stored pubkey).trans hlast)).2
  refine ⟨loaded, hload, hnodup, fun pubkey => ?_, fun pubkey hunbanned => ?_⟩
  · have hsome : (lastOf (savedAs pubkey) events).isSome ↔ ∃ last, storedPeer pubkey events =
        some last := by
      rw [← Option.isSome_iff_exists, storedPeer, Option.isSome_map]
    rw [hsome, List.mem_map]
    constructor
    · rintro ⟨peer, hpeer, rfl⟩
      obtain ⟨pubkey, last, hlast, rfl⟩ := (hmem peer).1 hpeer
      have hpubkey : (restored last).identity.pubkey = pubkey := hkey pubkey last hlast
      exact ⟨last, by rw [hpubkey, hlast]⟩
    · rintro ⟨last, hlast⟩
      exact ⟨restored last, (hmem _).2 ⟨pubkey, last, hlast, rfl⟩, hkey pubkey last hlast⟩
  · obtain ⟨saved, hsaved, hnot⟩ := hunbanned
    -- The flag of the stored record is that of the last save, or that of a mark since.
    have hstored : storedPeer pubkey events =
        some { saved with isBanned := markedSince pubkey events } := by
      unfold storedPeer
      rw [Option.mem_def.1 hsaved, Option.map_some, hnot, Bool.false_or]
    constructor
    · rintro ⟨peer, hpeer, hpubkey, hbanned⟩
      obtain ⟨other, last, hlast, rfl⟩ := (hmem peer).1 hpeer
      have hother : other = pubkey := (hkey other last hlast).symm.trans hpubkey
      rw [hother, hstored] at hlast
      cases hlast
      exact hbanned
    · intro hmarked
      have hpubkey := hkey pubkey _ hstored
      exact ⟨_, (hmem _).2 ⟨pubkey, _, hstored, rfl⟩, hpubkey, hmarked⟩

/-- A peer in good standing that is saved, and then pruned. -/
def sampleCalls : List PeerTableCall :=
  [.savePeer (Peer.new (List.Vector.replicate 32 42)) none,
    .markPeerOffline (List.Vector.replicate 32 42) none]

/-- Before it is pruned, the peer is loaded without a ban. -/
theorem stays_unbanned_sample :
    ∃ loaded, (exec step ⟨∅⟩ (sampleCalls.take 1)).loadAllPeers none = .ok loaded ∧
      ∃ peer ∈ loaded, peer.identity.pubkey = List.Vector.replicate 32 42 ∧
        peer.isBanned = false := by
  obtain ⟨loaded, hload, -, -, hiff⟩ := stays_unbanned_iff (sampleCalls.take 1)
  refine ⟨loaded, hload, (hiff _ ⟨Peer.new (List.Vector.replicate 32 42), ?_, rfl⟩).2 ?_⟩
  · rfl
  · rfl

/-- After it was pruned, it is loaded with one. -/
theorem pruned_is_banned :
    let events := trace step ⟨∅⟩ sampleCalls
    SavedUnbanned (List.Vector.replicate 32 42) events ∧
      ((exec step ⟨∅⟩ sampleCalls).loadAllPeers none).map (fun loaded =>
        loaded.map fun peer => (peer.identity.pubkey, peer.isBanned)) =
          .ok [(List.Vector.replicate 32 42, true)] := by
  refine ⟨⟨Peer.new (List.Vector.replicate 32 42), rfl, rfl⟩, ?_⟩
  decide +kernel

end PeerTable

end StellarConduit
