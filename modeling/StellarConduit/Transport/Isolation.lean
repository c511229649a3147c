import StellarConduit.Transport.Flags
import StellarConduit.Transport.PeerCount

/-!
# Failures of other peers

`send_to` and `recv_any` begin with a tick, which may send the messages that waited, and give up
when one of these is not accepted.

* `SendsSucceed`: what it takes for the sends on a connection to succeed, whatever happens on the
  others;
* `Delivers`, `PollsLive`: what the two operations do when they go on;
* `failure_isolated_iff`: they do so exactly when each message that waited is accepted in its turn.
-/

namespace StellarConduit

open Verif.Machine

variable {Conn World : Type}

/-- The sends on a reliable connection succeed and leave it reliable, and so does whatever is sent
on other connections, or opened. -/
structure SendsSucceed (api : Connection Conn World) (Reliable : Conn → World → Prop) : Prop where
  send : ∀ conn msg world, Reliable conn world →
    (api.send conn msg world).1 = .ok () ∧
      Reliable (api.send conn msg world).2.1 (api.send conn msg world).2.2
  send_other : ∀ conn other msg world, Reliable conn world →
    Reliable conn (api.send other msg world).2.2
  connectBle : ∀ conn peer world, Reliable conn world →
    Reliable conn (api.connectBle peer world).2

/-- The key at which the call polls. -/
def ConnectionCall.polledKey : ConnectionCall Conn → Option (Bytes 32)
  | .send _ _ _ _ => none
  | .recv pubkey _ _ => some pubkey

/-- After a message, no further connection is polled. -/
def ConnectionCall.endsPolling : ConnectionCall Conn → Bool
  | .recv _ _ (.ok _) => true
  | .recv _ _ (.panic _) => true
  | _ => false

theorem ConnectionCall.polledKey_of_isSend (call : ConnectionCall Conn) (h : call.isSend = true) :
    call.polledKey = none ∧ call.endsPolling = false := by
  cases call with
  | send peer msg conn answer => exact ⟨rfl, rfl⟩
  | recv pubkey conn answer => cases h

/-- The connections are polled in their order, and all of them if none has a message. -/
structure PollsInTurn (keys : List (Bytes 32)) (calls : List (ConnectionCall Conn)) : Prop where
  inTurn : calls.filterMap ConnectionCall.polledKey <+: keys
  all : (∀ call ∈ calls, call.endsPolling = false) →
    calls.filterMap ConnectionCall.polledKey = keys

theorem PollsInTurn.cons {pubkey : Bytes 32} {keys : List (Bytes 32)}
    {calls : List (ConnectionCall Conn)} (h : PollsInTurn keys calls) (conn : Conn)
    (answer : Awaited ProtocolMessage) :
    PollsInTurn (pubkey :: keys) (.recv pubkey conn answer :: calls) := by
  refine ⟨(List.prefix_cons_inj pubkey).2 h.inTurn, fun hnone => ?_⟩
  exact congrArg (List.cons pubkey) (h.all (List.forall_mem_cons.1 hnone).2)

/-- A message, or a panic, is the last thing that polling comes to. -/
theorem pollsInTurn_of_endsPolling (pubkey : Bytes 32) (keys : List (Bytes 32)) {conn : Conn}
    {answer : Awaited ProtocolMessage}
    (h : (ConnectionCall.recv pubkey conn answer).endsPolling = true) :
    PollsInTurn (pubkey :: keys) [.recv pubkey conn answer] := by
  refine ⟨⟨keys, rfl⟩, fun hnone => ?_⟩
  rw [hnone _ (List.mem_singleton_self _)] at h
  cases h

namespace TransportManager

section Peers

variable {api : Connection Conn World} {Reliable : Conn → World → Prop}
  {m : TransportManager Conn} {world : World} {pubkey : Bytes 32}

/-- The peer has a reliable connection. -/
def Trusts (Reliable : Conn → World → Prop) (m : TransportManager Conn) (world : World)
    (pubkey : Bytes 32) : Prop :=
  ∃ conn, m.connection pubkey = some conn ∧ Reliable conn world

/-- The peer has a reliable connection, with those that were delivered; one over BLE does not count
if the address is due to be changed. -/
def ReachesReliably (api : Connection Conn World) (Reliable : Conn → World → Prop)
    (m : TransportManager Conn) (around : Surroundings Conn World) (pubkey : Bytes 32) : Prop :=
  ∃ conn, (m.processBleIncoming around.bleIncoming).connection pubkey = some conn ∧
    (m.RotationDue around.instant → api.transportType conn ≠ .ble) ∧ Reliable conn around.world

theorem ReachesReliably.trusts {around : Surroundings Conn World}
    (h : m.ReachesReliably api Reliable around pubkey) (now : ℕ) :
    (m.tickPower api now around).2.Trusts Reliable around.world pubkey := by
  obtain ⟨conn, hconn, hkept, hreliable⟩ := h
  exact ⟨conn, (m.connection_tickPower_iff api now around pubkey conn).2 ⟨hconn, hkept⟩, hreliable⟩

/-! ### What other peers cannot break -/

section Trusts

variable (h : SendsSucceed api Reliable)

include h

/-- A message to a peer that has a reliable connection is accepted. -/
theorem sendNow_of_trusts {peer : PeerIdentity} (hm : m.Trusts Reliable world peer.pubkey)
    (msg : ProtocolMessage) :
    (m.sendNow api peer msg world).answer = .ok () ∧
      (m.sendNow api peer msg world).manager.Trusts Reliable
        (m.sendNow api peer msg world).world peer.pubkey := by
  obtain ⟨conn, hconn, hreliable⟩ := hm
  obtain ⟨hanswer, hnext⟩ := h.send conn msg world hreliable
  have hok : (m.sendOn api peer msg conn world).answer = .ok () := hanswer
  unfold sendNow
  rw [hconn]
  dsimp only
  rw [if_neg (by rw [hok]; simp)]
  exact ⟨hok, _, connection_setConnection_self _ _ _, hnext⟩

theorem trusts_sendOn {peer : PeerIdentity} (hne : pubkey ≠ peer.pubkey)
    (hm : m.Trusts Reliable world pubkey) (msg : ProtocolMessage) (other : Conn) :
    (m.sendOn api peer msg other world).manager.Trusts Reliable
      (m.sendOn api peer msg other world).world pubkey := by
  obtain ⟨conn, hconn, hreliable⟩ := hm
  exact ⟨conn, (connection_setConnection_ne m hne _).trans hconn,
    h.send_other conn other msg world hreliable⟩

/-- Whatever a message to another peer comes to, a reliable connection stays. -/
theorem trusts_sendNow (peer : PeerIdentity) (msg : ProtocolMessage)
    (hm : m.Trusts Reliable world pubkey) :
    (m.sendNow api peer msg world).manager.Trusts Reliable
      (m.sendNow api peer msg world).world pubkey := by
  by_cases hpeer : pubkey = peer.pubkey
  · subst hpeer
    exact (sendNow_of_trusts h hm msg).2
  · -- The connection that is given up, or replaced, is that of the other peer.
    have hremoved : ∀ other, ∃ conn, ((m.sendOn api peer msg other world).manager.remove
        peer.pubkey).connection pubkey = some conn ∧ ∀ opened world',
          api.connectBle peer (api.send other msg world).2.2 = (opened, world') →
            Reliable conn world' := by
      intro other
      obtain ⟨conn, hconn, hreliable⟩ := trusts_sendOn h hpeer hm msg other
      refine ⟨conn, (connection_remove_ne _ hpeer).trans hconn, fun opened world' hdialed => ?_⟩
      have hworld := h.connectBle conn peer _ hreliable
      rwa [show (m.sendOn api peer msg other world).world = (api.send other msg world).2.2 from rfl,
        hdialed] at hworld
    refine sendNow_cases (P := fun r => r.manager.Trusts Reliable r.world pubkey) api m peer msg
      world (fun _ => hm) (fun other _ _ => trusts_sendOn h hpeer hm msg other) ?_ ?_
    · intro other e world' _ _ hdialed
      obtain ⟨conn, hconn, hreliable⟩ := hremoved other
      exact ⟨conn, hconn, hreliable _ world' hdialed⟩
    · intro other opened world' _ _ hdialed
      obtain ⟨conn, hconn, hreliable⟩ := hremoved other
      have hregistered : (((m.sendOn api peer msg other world).manager.remove
          peer.pubkey).registerInbound peer opened).Trusts Reliable world' pubkey :=
        ⟨conn, (connection_registerInbound_ne _ hpeer opened).trans hconn,
          hreliable _ world' hdialed⟩
      exact trusts_sendOn h hpeer hregistered msg opened

theorem trusts_flush (pendings : List PendingMessage) (hm : m.Trusts Reliable world pubkey) :
    (m.flush api world pendings).manager.Trusts Reliable
      (m.flush api world pendings).world pubkey := by
  induction pendings generalizing m world with
  | nil => exact hm
  | cons pending rest ih =>
    have hsent := trusts_sendNow (m := { m with pendingMessages := rest }) h pending.peer
      pending.message hm
    unfold flush Ran.bind
    split
    next => exact ih hsent
    all_goals exact hsent

/-- The tick keeps a reliable connection, also when a message that waited is not accepted. -/
theorem trusts_powerTickAt (now : ℕ) {around : Surroundings Conn World}
    (hm : m.ReachesReliably api Reliable around pubkey) :
    (m.powerTickAt api now around).manager.Trusts Reliable
      (m.powerTickAt api now around).world pubkey := by
  have htrusts := hm.trusts now
  unfold powerTickAt
  dsimp only [Ran.map]
  split_ifs
  · exact trusts_flush h _ htrusts
  · exact htrusts

end Trusts

end Peers

/-! ### Polling -/

section Polling

variable (api : Connection Conn World) {m : TransportManager Conn} {pubkey : Bytes 32}

/-- There is a connection to the peer. -/
def Connected (m : TransportManager Conn) (pubkey : Bytes 32) : Prop :=
  ∃ conn, m.connection pubkey = some conn

theorem Connected.setConnection (h : m.Connected pubkey) {other : Bytes 32} (hne : pubkey ≠ other)
    (conn : Conn) : (m.setConnection other conn).Connected pubkey := by
  obtain ⟨conn', hconn'⟩ := h
  exact ⟨conn', (connection_setConnection_ne m hne conn).trans hconn'⟩

/-- A fallback may replace a connection, but takes away none except the broken one. -/
theorem Connected.bleFallback (h : m.Connected pubkey) {other : Bytes 32} (hne : pubkey ≠ other)
    (peer : PeerIdentity) (world : World) :
    ((m.remove other).bleFallback api peer world).manager.Connected pubkey := by
  obtain ⟨conn, hconn⟩ := h
  have hremoved := (connection_remove_ne m hne).trans hconn
  unfold TransportManager.bleFallback
  split
  next => exact ⟨conn, hremoved⟩
  next opened _ _ =>
    by_cases hpeer : pubkey = peer.pubkey
    · subst hpeer
      exact ⟨opened, connection_registerInbound_self _ peer opened⟩
    · exact ⟨conn, (connection_registerInbound_ne _ hpeer opened).trans hremoved⟩

/-- A poll visits the connections one after the other until one has a message. -/
theorem pollsInTurn_pollKeys (now : ℕ) (world : World) {keys : List (Bytes 32)}
    (hnodup : keys.Nodup) (hkeys : ∀ pubkey ∈ keys, m.Connected pubkey) :
    PollsInTurn keys (m.pollKeys api now world keys).calls := by
  induction keys generalizing m world with
  | nil => exact ⟨List.prefix_rfl, fun _ => rfl⟩
  | cons pubkey keys ih =>
    obtain ⟨hnot, hnodup⟩ := List.nodup_cons.1 hnodup
    obtain ⟨⟨conn, hconn⟩, hkeys⟩ := List.forall_mem_cons.1 hkeys
    have hne : ∀ other ∈ keys, other ≠ pubkey :=
      fun other hother hsame => hnot (hsame ▸ hother)
    unfold pollKeys
    rw [hconn]
    dsimp only [Ran.after]
    have hset : ∀ other ∈ keys,
        (m.setConnection pubkey (api.recv conn world).2.1).Connected other :=
      fun other hother => (hkeys other hother).setConnection (hne other hother) _
    split
    next msg hanswer =>
      exact pollsInTurn_of_endsPolling pubkey keys (by rw [hanswer]; rfl)
    next p hanswer =>
      exact pollsInTurn_of_endsPolling pubkey keys (by rw [hanswer]; rfl)
    next =>
      refine (ih _ hnodup fun other hother => ?_).cons conn _
      exact (hset other hother).bleFallback api (hne other hother) _ _
    next => exact (ih _ hnodup hset).cons conn _

end Polling

/-! ### The two operations -/

section Operations

variable (api : Connection Conn World) (m : TransportManager Conn) (now : ℕ)
  (around : Surroundings Conn World)

/-- The message is accepted by a connection, after what waited, and the answer is `Ok`. -/
structure Delivers (peer : PeerIdentity) (msg : ProtocolMessage) : Prop where
  answer : (m.sendToAt api peer msg now around).answer = .ok ()
  accepted : accepted (m.sendToAt api peer msg now around).calls =
    accepted (m.powerTickAt api now around).calls ++ [⟨peer, msg⟩]

/-- The connections that are there after the tick are polled. -/
def PollsLive : Prop :=
  PollsInTurn
    (around.keyOrder (m.powerTickAt api now around).manager.connections.activeConnections.keys)
    (m.recvAnyAt api now around).calls

/-- All calls of a tick are sends. -/
theorem polledKey_powerTickAt :
    (m.powerTickAt api now around).calls.filterMap ConnectionCall.polledKey = [] ∧
      ∀ call ∈ (m.powerTickAt api now around).calls, call.endsPolling = false := by
  have hsends : ∀ call ∈ (m.powerTickAt api now around).calls, call.isSend = true := by
    rw [← call_sendingsTick, List.forall_mem_map]
    exact fun s hs => (enabled_sendingsTick api now m hs).2
  refine ⟨List.filterMap_eq_nil_iff.2 fun call hcall => ?_, fun call hcall => ?_⟩
  · exact (call.polledKey_of_isSend (hsends call hcall)).1
  · exact (call.polledKey_of_isSend (hsends call hcall)).2

/-- The outcome of a tick of a node that is awake. -/
theorem interfaceState_of_answer (hawake : ¬ m.powerManager.Asleep now)
    {outcome : PowerTickOutcome} (h : (m.powerTickAt api now around).answer = .ok outcome) :
    outcome.interfaceState = .awake ∧
      (m.powerTickAt api now around).manager.powerManager.interfaceState now = .awake := by
  obtain ⟨-, hinterface, -⟩ := m.tickPower_spec api now around
  have hnow : (m.powerManager.tick now).2.interfaceState now = .awake := by
    have hnot := mt (m.powerManager.interfaceState_tick_iff now).1 hawake
    unfold PowerManager.interfaceState at hnot ⊢
    split_ifs at hnot ⊢
    · rfl
    · exact absurd rfl hnot
  refine ⟨?_, by rw [powerManager_powerTickAt, hnow]⟩
  unfold powerTickAt at h
  obtain ⟨flushed, -, rfl⟩ := Awaited.map_eq_ok_iff.1 h
  exact hinterface.trans ((m.powerManager.interfaceState_fst_tick now).trans hnow)

variable {api m now around} {Reliable : Conn → World → Prop} {peer : PeerIdentity}

/-- While the interfaces are awake, a message does not wait. -/
theorem sendToAt_of_awake (peer : PeerIdentity) (msg : ProtocolMessage)
    {tick : Ran Conn World PowerTickOutcome} (htick : m.powerTickAt api now around = tick)
    {outcome : PowerTickOutcome} (houtcome : tick.answer = .ok outcome)
    (hawake : tick.manager.powerManager.interfaceState now = .awake) :
    ∃ recorded : TransportManager Conn, recorded.connections = tick.manager.connections ∧
      (m.sendToAt api peer msg now around).answer =
        (recorded.sendNow api peer msg tick.world).answer ∧
      (m.sendToAt api peer msg now around).calls =
        tick.calls ++ (recorded.sendNow api peer msg tick.world).calls := by
  have hsends : ¬ (msg.isTransaction ∧
      tick.manager.powerManager.mode = .synchronizedLowPower ∧
      (tick.manager.powerManager.interfaceState now).bleEnabled = false) := by
    rw [hawake]
    rintro ⟨-, -, hble⟩
    cases hble
  unfold sendToAt Ran.bind
  rw [htick, houtcome]
  dsimp only
  rw [if_neg hsends]
  exact ⟨{ tick.manager with
    powerManager := (tick.manager.powerManager.recordOutboundTransaction now).2 }, rfl, rfl, rfl⟩

/-- What is sent to a peer that has a reliable connection is delivered, unless the tick fails. -/
theorem delivers_iff (h : SendsSucceed api Reliable)
    (hpeer : m.ReachesReliably api Reliable around peer.pubkey)
    (hawake : ¬ m.powerManager.Asleep now) (msg : ProtocolMessage) :
    m.Delivers api now around peer msg ↔ m.FlushAccepted api now around := by
  rw [← answer_powerTickAt_iff]
  constructor
  · rintro ⟨hanswer, -⟩
    unfold sendToAt Ran.bind at hanswer
    split at hanswer
    next outcome houtcome => exact ⟨outcome, houtcome⟩
    all_goals cases hanswer
  · rintro ⟨outcome, houtcome⟩
    obtain ⟨-, hinterface⟩ := interfaceState_of_answer api m now around hawake houtcome
    obtain ⟨recorded, hconnections, hanswer, hcalls⟩ :=
      sendToAt_of_awake peer msg rfl houtcome hinterface
    have htrusts : recorded.Trusts Reliable (m.powerTickAt api now around).world peer.pubkey := by
      unfold Trusts connection
      rw [hconnections]
      exact trusts_powerTickAt h now hpeer
    have hok := (sendNow_of_trusts h htrusts msg).1
    have hsent := (sent_sendNow api recorded peer msg
      (m.powerTickAt api now around).world).accepted
    refine ⟨hanswer.trans hok, ?_⟩
    rw [hcalls, accepted_append, hsent, if_pos hok]

/-- While an interface is awake, the connections are polled. -/
theorem recvAnyAt_of_awake {tick : Ran Conn World PowerTickOutcome}
    (htick : m.powerTickAt api now around = tick) {outcome : PowerTickOutcome}
    (houtcome : tick.answer = .ok outcome) (hawake : outcome.interfaceState = .awake) :
    (m.recvAnyAt api now around).calls =
      tick.calls ++ (tick.manager.pollKeys api now tick.world
        (around.keyOrder tick.manager.connections.activeConnections.keys)).calls := by
  unfold recvAnyAt Ran.bind
  dsimp only
  rw [htick, houtcome]
  dsimp only
  rw [hawake, if_neg (by decide)]

/-- A tick that fails ends the operation. -/
theorem recvAnyAt_of_fails {tick : Ran Conn World PowerTickOutcome}
    (htick : m.powerTickAt api now around = tick)
    (hfails : ¬ ∃ outcome, tick.answer = .ok outcome) :
    (m.recvAnyAt api now around).calls = tick.calls := by
  unfold recvAnyAt Ran.bind
  dsimp only
  rw [htick]
  cases hanswer : tick.answer with
  | ok outcome => exact absurd ⟨outcome, hanswer⟩ hfails
  | err | panic | pending => rfl

/-- The connections are polled, unless the tick fails. -/
theorem pollsLive_iff (h : SendsSucceed api Reliable)
    (hpeer : m.ReachesReliably api Reliable around peer.pubkey)
    (hawake : ¬ m.powerManager.Asleep now) :
    m.PollsLive api now around ↔ m.FlushAccepted api now around := by
  obtain ⟨hkeys, hsends⟩ := polledKey_powerTickAt api m now around
  have htrusts := trusts_powerTickAt h now hpeer
  have hinterface : ∀ outcome, (m.powerTickAt api now around).answer = .ok outcome →
      outcome.interfaceState = .awake :=
    fun outcome houtcome => (interfaceState_of_answer api m now around hawake houtcome).1
  rw [← answer_powerTickAt_iff]
  unfold PollsLive
  generalize htick : m.powerTickAt api now around = tick at hkeys hsends htrusts hinterface ⊢
  have horder := around.keyOrder_perm tick.manager.connections.activeConnections.keys
  constructor
  · rintro ⟨-, hall⟩
    by_contra hfails
    -- Nothing is polled, although the peer has a connection.
    rw [recvAnyAt_of_fails htick hfails, hkeys] at hall
    obtain ⟨conn, hconn, -⟩ := htrusts
    have hmem := (ConnectionTable.mem_keys_iff _ peer.pubkey).2 ⟨conn, hconn⟩
    rw [← horder.mem_iff, ← hall hsends] at hmem
    cases hmem
  · rintro ⟨outcome, houtcome⟩
    have hcalls := recvAnyAt_of_awake htick houtcome (hinterface outcome houtcome)
    have hpolled := pollsInTurn_pollKeys api (m := tick.manager) now tick.world
      (horder.nodup_iff.2 tick.manager.connections.activeConnections.keys_nodup)
      fun pubkey hpubkey => (ConnectionTable.mem_keys_iff _ pubkey).1 (horder.mem_iff.1 hpubkey)
    constructor
    · rw [hcalls, List.filterMap_append, hkeys]
      exact hpolled.inTurn
    · intro hnone
      rw [hcalls, List.forall_mem_append] at hnone
      rw [hcalls, List.filterMap_append, hkeys]
      exact hpolled.all hnone.2

end Operations

end TransportManager

open TransportManager

/-- **When failures of other peers are isolated.**  On a node that is awake, a message to a peer
that has a reliable connection is delivered, and the connections are polled, exactly when each
message that waited is accepted in its turn, if the tick sends these. -/
theorem failure_isolated_iff (api : Connection Conn World) {Reliable : Conn → World → Prop}
    (h : SendsSucceed api Reliable) (m : TransportManager Conn) (peer : PeerIdentity)
    (msg : ProtocolMessage) (now : ℕ) (around : Surroundings Conn World)
    (hpeer : m.ReachesReliably api Reliable around peer.pubkey)
    (hawake : ¬ m.powerManager.Asleep now) :
    (m.Delivers api now around peer msg ↔ m.FlushAccepted api now around) ∧
      (m.PollsLive api now around ↔ m.FlushAccepted api now around) :=
  ⟨delivers_iff h hpeer hawake msg, pollsLive_iff h hpeer hawake⟩

/-- Two peers are connected, and a message to the first one waits. -/
def waitingRun : List (ManagerInput PeerIdentity Unit) :=
  [.registerInbound (samplePeer 1) (samplePeer 1), .registerInbound (samplePeer 2) (samplePeer 2),
    .sendToAt (samplePeer 1) sampleTransaction sleepingAt .quiet]

theorem sendsSucceed_sampleApi : SendsSucceed sampleApi fun _ _ => True :=
  ⟨fun _ _ _ _ => ⟨rfl, trivial⟩, fun _ _ _ _ _ => trivial, fun _ _ _ _ => trivial⟩

theorem failure_isolated_sample :
    let m := exec (step sampleApi) (withPowerManager (PowerManager.new 0)) waitingRun
    let peer := samplePeer 2
    m.Delivers sampleApi awakeAt .quiet peer (.handshake peer.pubkey) ∧
      m.PollsLive sampleApi awakeAt .quiet := by
  intro m peer
  obtain ⟨hdelivers, hpolls⟩ := failure_isolated_iff sampleApi sendsSucceed_sampleApi m peer
    (.handshake peer.pubkey) awakeAt .quiet
    ⟨peer, by decide +kernel, fun hdue => absurd hdue (by decide +kernel), trivial⟩
    fun hasleep => absurd hasleep.1 (by decide +kernel)
  have haccepted : m.FlushAccepted sampleApi awakeAt .quiet :=
    fun _ => ⟨⟨samplePeer 1, by decide +kernel, trivial⟩, trivial⟩
  exact ⟨hdelivers.2 haccepted, hpolls.2 haccepted⟩

/-- When the first peer disconnects, the message that waits for it fails the tick, so that nothing
is sent to the second one, and its connection is not polled. -/
theorem failure_spreads_sample :
    let m := exec (step sampleApi) (withPowerManager (PowerManager.new 0))
      (waitingRun ++ [.disconnectPeer (samplePeer 1).pubkey])
    let peer := samplePeer 2
    m.ReachesReliably sampleApi (fun _ _ => True) .quiet peer.pubkey ∧
      ¬ m.powerManager.Asleep awakeAt ∧
      (m.sendToAt sampleApi peer (.handshake peer.pubkey) awakeAt .quiet).answer =
        .err .notConnected ∧
      (m.recvAnyAt sampleApi awakeAt .quiet).answer = .ok none ∧
      (m.recvAnyAt sampleApi awakeAt .quiet).calls = [] ∧
      ¬ m.Delivers sampleApi awakeAt .quiet peer (.handshake peer.pubkey) ∧
      ¬ m.PollsLive sampleApi awakeAt .quiet := by
  intro m peer
  have hanswer : (m.sendToAt sampleApi peer (.handshake peer.pubkey) awakeAt .quiet).answer =
      .err .notConnected := by decide +kernel
  have hcalls : (m.recvAnyAt sampleApi awakeAt .quiet).calls = [] :=
    List.length_eq_zero_iff.1 (by decide +kernel)
  refine ⟨⟨peer, by decide +kernel, fun hdue => absurd hdue (by decide +kernel), trivial⟩,
    fun hasleep => absurd hasleep.1 (by decide +kernel), hanswer, by decide +kernel, hcalls, ?_, ?_⟩
  · rintro ⟨hok, -⟩
    rw [hanswer] at hok
    cases hok
  · rintro ⟨-, hall⟩
    rw [hcalls] at hall
    exact absurd (hall fun _ hcall => absurd hcall List.not_mem_nil) (by decide +kernel)

end StellarConduit
