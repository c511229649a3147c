import StellarConduit.Discovery.Advertising
import StellarConduit.Discovery.Bans
import StellarConduit.Lib.LastWrite

/-!
# Discovering peers

Everything that puts peers on the list of a node: the BLE scanner of `discovery/ble.rs`, the scanner
of `discovery/wifi_direct.rs`, the event loop of `discovery/mdns.rs`, and the task of the daemon
(`bin/stellarconduitd.rs`) that takes the peers which this loop has sent, among any other calls on
the list.

* `Discovery.step`: one event of one of the scanners, or one call;
* `queue_discovered`: the daemon takes the peers in the order in which they were announced;
* `relay_marked_iff`: which peers are marked as relays.
-/

namespace StellarConduit

open Verif.Machine

/-- `mdns_sd::ServiceEvent`, on what was found of it so far -/
inductive ServiceEvent (Addr : Type)
  | searchStarted
  | serviceFound
  | serviceResolved (info : ServiceInfo Addr)
  | serviceRemoved
  | searchStopped

/-- The list of peers, whether the two event loops are running, and the channel from the one to the
daemon.  A loop that finds the channel full waits, so the channel is of any length here. -/
structure Discovery (Addr : Type) where
  peerList : PeerList
  scanning : Bool
  browsing : Bool
  discovered : List (DiscoveredPeer Addr)

inductive DiscoveryCall (Addr : Type)
  /-- `handle_advertisement` of the BLE scanner -/
  | advertisement (manufacturerData : List UInt8) (rssi : UInt8) (now : UInt64)
  /-- an event of the loop of `wifi_direct.rs` -/
  | scanned (event : ServiceEvent Addr) (now : UInt64)
  /-- an event of the loop of `mdns.rs` -/
  | browsed (event : ServiceEvent Addr)
  /-- the daemon takes a peer -/
  | take (now : UInt64)
  | list (call : PeerListInput)

namespace PeerList

/-- `BleScanner::handle_advertisement`; its event is broadcast as well. -/
def handleAdvertisement (list : PeerList) (manufacturerData : List UInt8) (rssi : UInt8)
    (now : UInt64) : Option DiscoveryEvent × PeerList :=
  match BleAdvertisementPayload.decode manufacturerData with
  | none => (none, list)
  | some payload =>
    let (event, list) := list.insertOrUpdate payload.pubkey rssi now
    (some event, list)

/-- `MdnsScanner::handle_service_resolved`; the loop logs an error and goes on. -/
def handleServiceResolved {Addr : Type} (txtEntry : String × String → String) (list : PeerList)
    (info : ServiceInfo Addr) (now : UInt64) :
    Except DiscoveryError Unit × PeerList :=
  match MdnsScanner.parsePubkeyFromTxt (info.properties.map txtEntry) with
  | .error e => (.error e, list)
  | .ok pubkey => (.ok (), (list.insertOrUpdate pubkey 0 now).2)

/-- The body of the daemon's task: a peer that is listed already is left as it is. -/
def addDiscovered {Addr : Type} (list : PeerList) (peer : DiscoveredPeer Addr) (now : UInt64) :
    PeerList :=
  if (list.getPeer peer.pubkey).isNone then
    let list := (list.insertOrUpdate peer.pubkey 0 now).2
    list.modifyPeer peer.pubkey fun p => { p with isRelayNode := decide (peer.hopsToRelay < 255) }
  else list

end PeerList

namespace Discovery

variable {Addr : Type} (hexDecode : List UInt8 → Except String (List UInt8))
  (txtEntry : String × String → String) (localhost : Addr)

/-- At the start of the node. -/
def new (expirySeconds : UInt64) : Discovery Addr where
  peerList := .new expirySeconds
  scanning := true
  browsing := true
  discovered := []

/-- The peer that the loop of `mdns.rs` sends for a resolved service, if any. -/
def announced (info : ServiceInfo Addr) : Option (DiscoveredPeer Addr) :=
  if !startsWith info.serviceType "_stellarconduit" then none
  else
    match Mdns.parseResolvedService hexDecode txtEntry localhost info with
    | .error _ => none
    | .ok peer => some peer

def step (s : Discovery Addr) : DiscoveryCall Addr → Option DiscoveryEvent × Discovery Addr
  | .advertisement manufacturerData rssi now =>
    let (event, peerList) := s.peerList.handleAdvertisement manufacturerData rssi now
    (event, { s with peerList := peerList })
  | .scanned event now =>
    if !s.scanning then (none, s)
    else
      match event with
      | .serviceResolved info =>
        (none, { s with peerList := (s.peerList.handleServiceResolved txtEntry info now).2 })
      | .searchStopped => (none, { s with scanning := false })
      | _ => (none, s)
  | .browsed event =>
    if !s.browsing then (none, s)
    else
      match event with
      | .serviceResolved info =>
        let announcement := announced hexDecode txtEntry localhost info
        (none, { s with discovered := s.discovered ++ announcement.toList })
      | .searchStopped => (none, { s with browsing := false })
      | _ => (none, s)
  | .take now =>
    match s.discovered with
    | [] => (none, s)
    | peer :: rest =>
      (none, { s with peerList := s.peerList.addDiscovered peer now, discovered := rest })
  | .list call => (none, { s with peerList := (s.peerList.step call).2 })

abbrev DiscoveryStep (Addr : Type) :=
  Event (Discovery Addr) (DiscoveryCall Addr) (Option DiscoveryEvent)

/-- What a call sends to the daemon. -/
def sent (e : DiscoveryStep Addr) : Option (DiscoveredPeer Addr) :=
  match e.input with
  | .browsed (.serviceResolved info) =>
    if e.before.browsing then announced hexDecode txtEntry localhost info else none
  | _ => none

/-- What the daemon has taken in a call. -/
def taken (e : DiscoveryStep Addr) : Option (DiscoveredPeer Addr) :=
  match e.input with
  | .take _ => e.before.discovered.head?
  | _ => none

/-- **The daemon takes peers in order.** -/
theorem queue_discovered :
    Queue (step hexDecode txtEntry localhost) (sent hexDecode txtEntry localhost) taken
      fun s q => s.discovered = q where
  step s q call hq := by
    subst hq
    cases call with
    | advertisement manufacturerData rssi now => exact ⟨_, rfl, by simp [sent, taken, step]⟩
    | list call => exact ⟨_, rfl, by simp [sent, taken, step]⟩
    | scanned event now =>
      refine ⟨_, rfl, ?_⟩
      unfold step sent taken
      dsimp only
      split_ifs
      · simp
      · cases event <;> simp
    | browsed event =>
      refine ⟨_, rfl, ?_⟩
      unfold step sent taken
      cases s.browsing <;> cases event <;> simp
    | take now =>
      refine ⟨_, rfl, ?_⟩
      unfold step sent taken
      cases hdiscovered : s.discovered <;> simp [hdiscovered]

end Discovery

/-! ### The mark of a relay -/

namespace PeerList

/-- Whether the record of a peer marks it as a relay. -/
def relayMark (key : Bytes 32) (pl : PeerList) : Option Bool :=
  (pl.getPeer key).map Peer.isRelayNode

/-- What a call makes of the mark, unless it is the daemon that takes a peer: nothing, or the record
goes, or it is made without the mark. -/
def Unmarked (before after : Option Bool) : Prop :=
  after = before ∨ after = none ∨ before = none ∧ after = some false

variable {pl : PeerList} {key : Bytes 32}

theorem relayMark_modifyPeer (pubkey : Bytes 32) {f : Peer → Peer}
    (hf : ∀ peer, (f peer).isRelayNode = peer.isRelayNode) :
    relayMark key (pl.modifyPeer pubkey f) = relayMark key pl := by
  unfold relayMark
  by_cases hkey : key = pubkey
  · subst hkey
    rw [getPeer_modifyPeer_self, Option.map_map]
    exact congrArg (fun f => (pl.getPeer key).map f) (funext hf)
  · rw [getPeer_modifyPeer_ne pl hkey]

theorem relayMark_insertOrUpdate (pubkey : Bytes 32) (signalStrength : UInt8) (now : UInt64) :
    relayMark key (pl.insertOrUpdate pubkey signalStrength now).2 =
      if pubkey = key then some ((relayMark key pl).getD false) else relayMark key pl := by
  unfold relayMark
  by_cases hkey : pubkey = key
  · subst hkey
    rw [getPeer_insertOrUpdate_self, if_pos rfl]
    cases pl.getPeer pubkey <;> rfl
  · rw [getPeer_insertOrUpdate_ne pl (Ne.symm hkey), if_neg hkey]

theorem unmarked_insertOrUpdate (pubkey : Bytes 32) (signalStrength : UInt8) (now : UInt64) :
    Unmarked (relayMark key pl)
      (relayMark key (pl.insertOrUpdate pubkey signalStrength now).2) := by
  rw [relayMark_insertOrUpdate]
  split_ifs with hkey
  · cases hmark : relayMark key pl with
    | none => exact .inr (.inr ⟨rfl, rfl⟩)
    | some mark => exact .inl rfl
  · exact .inl rfl

/-- **The calls on the list** mark no peer. -/
theorem unmarked_step (call : PeerListInput) :
    Unmarked (relayMark key pl) (relayMark key (pl.step call).2) := by
  cases call with
  | insertOrUpdate pubkey signalStrength now => exact unmarked_insertOrUpdate _ _ _
  | pruneStalePeers now =>
    show Unmarked _ (relayMark key (pl.pruneStalePeers now).2)
    unfold relayMark
    rw [getPeer_pruneStalePeers]
    cases pl.getPeer key with
    | none => exact .inl rfl
    | some peer =>
      rw [Option.filter_some]
      split_ifs
      · exact .inl rfl
      · exact .inr (.inl rfl)
  | checkBanExpirations now =>
    refine .inl ?_
    show relayMark key (pl.checkBanExpirations now).2 = _
    unfold relayMark
    rw [getPeer_checkBanExpirations, Option.map_map]
    refine congrArg (fun f => (pl.getPeer key).map f) (funext fun peer => ?_)
    show (peer.checkBanExpiration (now key)).2.isRelayNode = peer.isRelayNode
    unfold Peer.checkBanExpiration
    split_ifs <;> rfl
  | setLastSeen pubkey ts => exact .inl (relayMark_modifyPeer pubkey fun _ => rfl)
  | banPeer pubkey durationSec now => exact .inl (relayMark_modifyPeer pubkey fun _ => rfl)
  | unbanPeer pubkey => exact .inl (relayMark_modifyPeer pubkey fun _ => rfl)
  | applyPenalty pubkey reason => exact .inl (relayMark_modifyPeer pubkey fun _ => rfl)
  | applyReward pubkey reason => exact .inl (relayMark_modifyPeer pubkey fun _ => rfl)

variable {Addr : Type}

/-- **The daemon** marks a peer that it puts on the list, if there is a relay in reach. -/
theorem relayMark_addDiscovered (peer : DiscoveredPeer Addr) (now : UInt64) :
    relayMark key (pl.addDiscovered peer now) =
      if peer.pubkey = key ∧ relayMark key pl = none then some (decide (peer.hopsToRelay < 255))
      else relayMark key pl := by
  unfold addDiscovered
  by_cases hkey : peer.pubkey = key
  · subst hkey
    cases hpeer : pl.getPeer peer.pubkey with
    | some listed => simp [relayMark, hpeer]
    | none =>
      rw [if_pos (by rfl), if_pos ⟨rfl, by rw [relayMark, hpeer]; rfl⟩]
      dsimp only [relayMark]
      rw [getPeer_modifyPeer_self, getPeer_insertOrUpdate_self]
      rfl
  · have hother : ¬ (peer.pubkey = key ∧ relayMark key pl = none) := fun h => hkey h.1
    rw [if_neg hother]
    split_ifs
    · unfold relayMark
      rw [getPeer_modifyPeer_ne _ (Ne.symm hkey), getPeer_insertOrUpdate_ne _ (Ne.symm hkey)]
    · rfl

end PeerList

namespace Discovery

variable {Addr : Type} (hexDecode : List UInt8 → Except String (List UInt8))
  (txtEntry : String × String → String) (localhost : Addr)
  (key : Bytes 32)

/-- The mark in the record of a peer. -/
def relayMark (s : Discovery Addr) : Option Bool := s.peerList.relayMark key

/-- The mark with which a call makes the record of a peer. -/
def newMark (e : DiscoveryStep Addr) : Option Bool :=
  if relayMark key e.before = none then
    relayMark key (step hexDecode txtEntry localhost e.before e.input).2
  else none

/-- The call removes the record of a peer. -/
def Unlists (e : DiscoveryStep Addr) : Prop :=
  (step hexDecode txtEntry localhost e.before e.input).2.peerList.getPeer key = none

theorem unmarked_step (s : Discovery Addr) {call : DiscoveryCall Addr}
    (hcall : ∀ now, call ≠ .take now) :
    PeerList.Unmarked (relayMark key s)
      (relayMark key (step hexDecode txtEntry localhost s call).2) := by
  unfold relayMark
  cases call with
  | advertisement manufacturerData rssi now =>
    show PeerList.Unmarked _
      (PeerList.relayMark key (s.peerList.handleAdvertisement manufacturerData rssi now).2)
    unfold PeerList.handleAdvertisement
    cases BleAdvertisementPayload.decode manufacturerData with
    | none => exact .inl rfl
    | some payload => exact PeerList.unmarked_insertOrUpdate _ _ _
  | scanned event now =>
    unfold step
    dsimp only
    split_ifs
    · exact .inl rfl
    · cases event with
      | serviceResolved info =>
        dsimp only
        unfold PeerList.handleServiceResolved
        cases MdnsScanner.parsePubkeyFromTxt (info.properties.map txtEntry) with
        | error e => exact .inl rfl
        | ok pubkey => exact PeerList.unmarked_insertOrUpdate _ _ _
      | _ => exact .inl rfl
  | browsed event =>
    unfold step
    dsimp only
    split_ifs
    · exact .inl rfl
    · cases event <;> exact .inl rfl
  | take now => exact absurd rfl (hcall now)
  | list call => exact PeerList.unmarked_step call

variable {key}

theorem relayMark_take (s : Discovery Addr) (now : UInt64) :
    relayMark key (step hexDecode txtEntry localhost s (.take now)).2 =
      match s.discovered with
      | [] => relayMark key s
      | peer :: _ =>
        if peer.pubkey = key ∧ relayMark key s = none then some (decide (peer.hopsToRelay < 255))
        else relayMark key s := by
  unfold step
  cases s.discovered with
  | nil => rfl
  | cons peer rest => exact PeerList.relayMark_addDiscovered peer now

/-- A mark stays as it is as long as its record does. -/
theorem relayMark_cell :
    Cell (step hexDecode txtEntry localhost) (relayMark key)
      (newMark hexDecode txtEntry localhost key)
      fun e _ => Unlists hexDecode txtEntry localhost key e where
  step s call mark := by
    have hgone : Unlists hexDecode txtEntry localhost key
        ⟨s, call, (step hexDecode txtEntry localhost s call).1⟩ ↔
          relayMark key (step hexDecode txtEntry localhost s call).2 = none :=
      Option.map_eq_none_iff.symm
    unfold newMark
    dsimp only
    rw [hgone]
    cases hbefore : relayMark key s with
    | none => simp
    | some before =>
      -- The mark of a record that is there is not changed.
      have hkept : relayMark key (step hexDecode txtEntry localhost s call).2 = some before ∨
          relayMark key (step hexDecode txtEntry localhost s call).2 = none := by
        by_cases htake : ∃ now, call = .take now
        · obtain ⟨now, rfl⟩ := htake
          rw [relayMark_take, hbefore]
          left
          cases s.discovered <;> simp
        · push Not at htake
          rcases unmarked_step hexDecode txtEntry localhost key s htake with h | h | ⟨h, -⟩
          · exact .inl (h.trans hbefore)
          · exact .inr h
          · rw [hbefore] at h
            cases h
      rcases hkept with h | h <;> simp [h]

/-- Only the daemon marks a new record. -/
theorem newMark_eq_true_iff (s : Discovery Addr) (call : DiscoveryCall Addr) :
    newMark hexDecode txtEntry localhost key
        ⟨s, call, (step hexDecode txtEntry localhost s call).1⟩ = some true ↔
      ∃ now peer, call = .take now ∧ s.discovered.head? = some peer ∧ peer.pubkey = key ∧
        s.peerList.getPeer key = none ∧ peer.hopsToRelay < 255 := by
  have hlisted : s.peerList.getPeer key = none ↔ relayMark key s = none :=
    Option.map_eq_none_iff.symm
  unfold newMark
  dsimp only
  rw [hlisted]
  by_cases htake : ∃ now, call = .take now
  · obtain ⟨now, rfl⟩ := htake
    rw [relayMark_take]
    cases hbefore : relayMark key s with
    | some before => simp
    | none =>
      cases hdiscovered : s.discovered with
      | nil => simp
      | cons peer rest =>
        by_cases hkey : peer.pubkey = key
        · simp [hkey]
        · simp [hkey]
  · push Not at htake
    refine iff_of_false (fun hmark => ?_) fun ⟨now, _, hcall, _⟩ => htake now hcall
    obtain ⟨hnone, hnew⟩ := Option.ite_none_right_eq_some.1 hmark
    rcases unmarked_step hexDecode txtEntry localhost key s htake with h | h | ⟨-, h⟩
    · rw [h, hnone] at hnew
      cases hnew
    · rw [h] at hnew
      cases hnew
    · rw [h] at hnew
      cases hnew

/-- No call of a run removes a record exactly when it is there after every part of the run. -/
theorem forall_not_unlists_iff {s : Discovery Addr} {calls : List (DiscoveryCall Addr)}
    (hs : s.peerList.getPeer key ≠ none) :
    (∀ e ∈ trace (step hexDecode txtEntry localhost) s calls,
        ¬ Unlists hexDecode txtEntry localhost key e) ↔
      ∀ mid rest, calls = mid ++ rest →
        (exec (step hexDecode txtEntry localhost) s mid).peerList.getPeer key ≠ none := by
  constructor
  · rintro h mid rest rfl
    induction mid using List.reverseRecOn with
    | nil => exact hs
    | append_singleton mid call _ =>
      rw [exec_concat]
      rw [List.append_assoc] at h
      exact h _ (event_mem_trace mid call rest)
  · intro h e he
    obtain ⟨pre, call, post, rfl, rfl⟩ := mem_trace he
    have hafter := h (pre ++ [call]) post (by simp)
    rwa [exec_concat] at hafter

/-- **Which peers are marked as relays.**  Those of which the daemon took an announcement with less
than 255 hops when they were not on the list, and that have been on it ever since; the daemon takes
announcements in the order in which they were sent.  What is announced over BLE, or to the scanner
of `wifi_direct.rs`, marks no peer; and neither do later announcements. -/
theorem relay_marked_iff (expirySeconds : UInt64) (calls : List (DiscoveryCall Addr))
    (key : Bytes 32) :
    let run := exec (step hexDecode txtEntry localhost) (new expirySeconds)
    ((∃ peer, (run calls).peerList.getPeer key = some peer ∧ peer.isRelayNode = true) ↔
      ∃ pre now peer post, calls = pre ++ .take now :: post ∧
        (run pre).discovered.head? = some peer ∧ peer.pubkey = key ∧ peer.hopsToRelay < 255 ∧
        (run pre).peerList.getPeer key = none ∧
        ∀ mid rest, post = mid ++ rest →
          (run (pre ++ .take now :: mid)).peerList.getPeer key ≠ none) ∧
    (trace (step hexDecode txtEntry localhost) (new expirySeconds) calls).filterMap
        (sent hexDecode txtEntry localhost) =
      (trace (step hexDecode txtEntry localhost) (new expirySeconds) calls).filterMap taken ++
        (run calls).discovered := by
  intro run
  refine ⟨?_, ?_⟩
  · have hmark : (∃ peer, (run calls).peerList.getPeer key = some peer ∧ peer.isRelayNode = true) ↔
        relayMark key (run calls) = some true := Option.map_eq_some_iff.symm
    have hempty : ∀ e, (newMark hexDecode txtEntry localhost key e).isSome = true →
        relayMark key e.before = none := by
      intro e he
      obtain ⟨mark, hmark⟩ := Option.isSome_iff_exists.1 he
      exact (Option.ite_none_right_eq_some.1 hmark).1
    rw [hmark, (relayMark_cell hexDecode txtEntry localhost).exec_iff_of_empty hempty rfl]
    constructor
    · rintro ⟨pre, call, post, rfl, hnew, hlisted⟩
      obtain ⟨now, peer, rfl, hhead, hkey, habsent, hhops⟩ :=
        (newMark_eq_true_iff hexDecode txtEntry localhost _ _).1 hnew
      refine ⟨pre, now, peer, post, rfl, hhead, hkey, hhops, habsent, fun mid rest hsplit => ?_⟩
      have hafter : (run (pre ++ [.take now])).peerList.getPeer key ≠ none := by
        have hsome := (Option.ite_none_right_eq_some.1 hnew).2
        rw [← exec_concat] at hsome
        obtain ⟨listed, hpeer, -⟩ := Option.map_eq_some_iff.1 hsome
        exact fun hnone => Option.some_ne_none listed (hpeer.symm.trans hnone)
      have hlater :=
        (forall_not_unlists_iff hexDecode txtEntry localhost hafter).1 hlisted mid rest hsplit
      rwa [← exec_append, List.append_assoc] at hlater
    · rintro ⟨pre, now, peer, post, rfl, hhead, hkey, hhops, habsent, hlater⟩
      refine ⟨pre, .take now, post, rfl, (newMark_eq_true_iff hexDecode txtEntry localhost _ _).2
        ⟨now, peer, rfl, hhead, hkey, habsent, hhops⟩, ?_⟩
      refine (forall_not_unlists_iff hexDecode txtEntry localhost (hlater [] post rfl)).2 ?_
      intro mid rest hsplit
      rw [← exec_append, List.append_assoc]
      exact hlater mid rest hsplit
  · obtain ⟨q, rfl, hqueue⟩ := (queue_discovered hexDecode txtEntry localhost).exec
      (s := new expirySeconds) rfl calls
    exact hqueue

end Discovery

end StellarConduit
