import StellarConduit.Transport.Operations
import StellarConduit.Transport.Preservation

/-!
# Radio silence

`recv_any` polls no connection while the interfaces sleep, and a transaction then waits.  Other
messages are sent at once.

* `Sending`: a call of `send`, with the power manager as it is at the time of the call;
* `sendings`: the calls of `send` that an operation makes, which are those among its calls
  (`call_sendings`);
* `SpeaksAsleep`: a message other than a transaction is sent while the interfaces sleep;
* `radio_silence_iff`: a run in which this does not happen calls `send` only while an interface is
  enabled.
-/

namespace StellarConduit

open Verif.Machine

variable {Conn World Addr : Type}

structure Sending (Conn : Type) where
  powerManager : PowerManager
  now : ℕ
  call : ConnectionCall Conn

def InterfacePowerState.enabled (interfaceState : InterfacePowerState) : Bool :=
  interfaceState.bleEnabled || interfaceState.wifiEnabled

/-- The power manager reports an enabled interface. -/
def Sending.Enabled (s : Sending Conn) : Prop :=
  (s.powerManager.interfaceState s.now).enabled = true

instance (s : Sending Conn) : Decidable s.Enabled := inferInstanceAs (Decidable (_ = true))

def ConnectionCall.isSend : ConnectionCall Conn → Bool
  | .send _ _ _ _ => true
  | .recv _ _ _ => false

namespace TransportManager

section Sendings

variable (api : Connection Conn World) (now : ℕ)

/-- `send` on the connection to the peer. -/
def sendingOn (m : TransportManager Conn) (peer : PeerIdentity) (msg : ProtocolMessage)
    (conn : Conn) (world : World) : Sending Conn :=
  ⟨m.powerManager, now, .send peer msg conn (api.send conn msg world).1⟩

/-- In `send_now`. -/
def sendingsNow (m : TransportManager Conn) (peer : PeerIdentity) (msg : ProtocolMessage)
    (world : World) : List (Sending Conn) :=
  match m.connection peer.pubkey with
  | none => []
  | some conn =>
    let sent := m.sendOn api peer msg conn world
    m.sendingOn api now peer msg conn world ::
      if sent.answer = .err .brokenPipe then
        let fallback := (sent.manager.remove peer.pubkey).bleFallback api peer sent.world
        match fallback.answer, fallback.manager.connection peer.pubkey with
        | .ok (), some conn => [fallback.manager.sendingOn api now peer msg conn fallback.world]
        | _, _ => []
      else []

/-- In the loop that sends the messages that waited. -/
def sendingsFlush (m : TransportManager Conn) (world : World) :
    List PendingMessage → List (Sending Conn)
  | [] => []
  | pending :: rest =>
    let popped := { m with pendingMessages := rest }
    let sent := popped.sendNow api pending.peer pending.message world
    popped.sendingsNow api now pending.peer pending.message world ++
      match sent.answer with
      | .ok () => sent.manager.sendingsFlush sent.world rest
      | _ => []

/-- In `power_tick_at`. -/
def sendingsTick (m : TransportManager Conn) (around : Surroundings Conn World) :
    List (Sending Conn) :=
  let (decision, m) := m.tickPower api now around
  if decision.wakeNetwork then m.sendingsFlush api now around.world m.pendingMessages else []

/-- In `send_to_at`. -/
def sendingsSendTo (m : TransportManager Conn) (peer : PeerIdentity) (msg : ProtocolMessage)
    (around : Surroundings Conn World) : List (Sending Conn) :=
  let tick := m.powerTickAt api now around
  m.sendingsTick api now around ++
    match tick.answer with
    | .ok _ =>
      let m := tick.manager
      if msg.isTransaction ∧ m.powerManager.mode = .synchronizedLowPower ∧
          (m.powerManager.interfaceState now).bleEnabled = false then []
      else
        { m with powerManager := (m.powerManager.recordOutboundTransaction now).2 }.sendingsNow
          api now peer msg tick.world
    | _ => []

end Sendings

/-- The calls of `send` in an operation. -/
def sendings (api : Connection Conn World) (m : TransportManager Conn) :
    Operation Conn World Addr → List (Sending Conn)
  | .sendToAt peer msg now around => m.sendingsSendTo api now peer msg around
  | .recvAnyAt now around => m.sendingsTick api now around
  | .powerTickAt now around => m.sendingsTick api now around
  | _ => []

/-! ### These are its calls of `send` -/

section Calls

variable (api : Connection Conn World) (now : ℕ) (m : TransportManager Conn)

theorem call_sendingsNow (peer : PeerIdentity) (msg : ProtocolMessage) (world : World) :
    (m.sendingsNow api now peer msg world).map Sending.call =
      (m.sendNow api peer msg world).calls := by
  unfold sendingsNow sendNow
  cases m.connection peer.pubkey with
  | none => rfl
  | some conn =>
    dsimp only
    split_ifs with hbroken
    · -- The connection is replaced, and the new one is asked.
      have hfirst : (api.send conn msg world).1 = .err .brokenPipe := hbroken
      rw [List.map_cons, sendingOn, hfirst]
      refine congrArg (List.cons (ConnectionCall.send peer msg conn (.err .brokenPipe))) ?_
      obtain ⟨-, -, hcalls⟩ := bleFallback_spec api
        ((m.sendOn api peer msg conn world).manager.remove peer.pubkey) peer
        (m.sendOn api peer msg conn world).world
      generalize bleFallback api _ peer _ = fallback at hcalls
      obtain ⟨answer, m', world', calls⟩ := fallback
      obtain rfl : calls = [] := hcalls
      cases answer with
      | ok =>
        dsimp only [Ran.bind]
        cases m'.connection peer.pubkey <;> rfl
      | err | panic | pending => rfl
    · rfl

theorem call_sendingsFlush (world : World) (pendings : List PendingMessage) :
    (m.sendingsFlush api now world pendings).map Sending.call =
      (m.flush api world pendings).calls := by
  induction pendings generalizing m world with
  | nil => rfl
  | cons pending rest ih =>
    unfold sendingsFlush flush
    dsimp only
    rw [List.map_append, call_sendingsNow]
    generalize sendNow api _ pending.peer pending.message world = sent
    obtain ⟨answer, m', world', calls⟩ := sent
    cases answer with
    | ok => exact congrArg (calls ++ ·) (ih m' world')
    | err | panic | pending => exact List.append_nil _

theorem call_sendingsTick (around : Surroundings Conn World) :
    (m.sendingsTick api now around).map Sending.call = (m.powerTickAt api now around).calls := by
  unfold sendingsTick powerTickAt
  dsimp only [Ran.map]
  split_ifs
  · exact call_sendingsFlush api now _ _ _
  · rfl

theorem call_sendingsSendTo (peer : PeerIdentity) (msg : ProtocolMessage)
    (around : Surroundings Conn World) :
    (m.sendingsSendTo api now peer msg around).map Sending.call =
      (m.sendToAt api peer msg now around).calls := by
  unfold sendingsSendTo sendToAt
  dsimp only
  rw [List.map_append, call_sendingsTick]
  generalize m.powerTickAt api now around = tick
  obtain ⟨answer, m', world', calls⟩ := tick
  cases answer with
  | ok outcome =>
    refine congrArg (calls ++ ·) ?_
    dsimp only
    split_ifs
    · rfl
    · exact call_sendingsNow api now _ peer msg world'
  | err | panic | pending => exact List.append_nil _

/-- Each call comes with the power manager that `send_now` finds, which it leaves alone. -/
theorem powerManager_sendingsNow {peer : PeerIdentity} {msg : ProtocolMessage} {world : World}
    {s : Sending Conn} (hs : s ∈ m.sendingsNow api now peer msg world) :
    s.powerManager = m.powerManager ∧ s.now = now ∧ s.call.isSend = true := by
  unfold sendingsNow at hs
  split at hs
  next => cases hs
  next conn _ =>
    rcases List.mem_cons.1 hs with rfl | hs
    · exact ⟨rfl, rfl, rfl⟩
    · split_ifs at hs
      · obtain ⟨hpower, -, -⟩ := bleFallback_spec api
          ((m.sendOn api peer msg conn world).manager.remove peer.pubkey) peer
          (m.sendOn api peer msg conn world).world
        dsimp only at hs
        generalize bleFallback api _ peer _ = fallback at hpower hs
        split at hs
        next =>
          rw [List.mem_singleton.1 hs]
          exact ⟨hpower, rfl, rfl⟩
        next => cases hs
      · cases hs

theorem powerManager_sendingsFlush {world : World} {pendings : List PendingMessage}
    {s : Sending Conn} (hs : s ∈ m.sendingsFlush api now world pendings) :
    s.powerManager = m.powerManager ∧ s.now = now ∧ s.call.isSend = true := by
  induction pendings generalizing m world with
  | nil => cases hs
  | cons pending rest ih =>
    have hsent := sent_sendNow api { m with pendingMessages := rest } pending.peer
      pending.message world
    rcases List.mem_append.1 hs with hs | hs
    · exact powerManager_sendingsNow api now { m with pendingMessages := rest } hs
    · split at hs
      next =>
        obtain ⟨hpower, hnow, hsend⟩ := ih _ hs
        exact ⟨hpower.trans hsent.powerManager, hnow, hsend⟩
      next => cases hs

/-- A tick sends only when it has enabled the interfaces. -/
theorem enabled_sendingsTick {around : Surroundings Conn World} {s : Sending Conn}
    (hs : s ∈ m.sendingsTick api now around) : s.Enabled ∧ s.call.isSend = true := by
  obtain ⟨hwake, -, hpowerManager, -⟩ := m.tickPower_spec api now around
  unfold sendingsTick at hs
  dsimp only at hs
  split_ifs at hs with hwakes
  · obtain ⟨hpower, hnow, hsend⟩ := powerManager_sendingsFlush api now _ hs
    rw [hwake] at hwakes
    refine ⟨?_, hsend⟩
    rw [Sending.Enabled, hpower, hpowerManager, hnow,
      PowerManager.interfaceState_of_wakeNetwork hwakes]
    rfl
  · cases hs

theorem filter_isSend_pollKeys (world : World) (keys : List (Bytes 32)) :
    (m.pollKeys api now world keys).calls.filter ConnectionCall.isSend = [] := by
  refine List.filter_eq_nil_iff.2 fun call hcall => ?_
  obtain ⟨_, _, _, rfl⟩ := exists_recv_of_mem_pollKeys hcall
  exact Bool.false_ne_true

end Calls

/-- The sendings are the calls of `send` that the operation makes. -/
theorem call_sendings (radio : Radio Conn World Addr) (preference : TransportPreference)
    (m : TransportManager Conn) (op : Operation Conn World Addr) :
    (m.sendings radio.toConnection op).map Sending.call =
      (operate radio preference m op).calls.filter ConnectionCall.isSend := by
  -- All calls of a tick are of `send`, so the filter keeps them.
  have htick : ∀ now (around : Surroundings Conn World),
      (m.powerTickAt radio.toConnection now around).calls.filter ConnectionCall.isSend =
        (m.powerTickAt radio.toConnection now around).calls := by
    intro now around
    rw [← call_sendingsTick, List.filter_eq_self, List.forall_mem_map]
    exact fun s hs => (enabled_sendingsTick _ _ _ hs).2
  cases op with
  | sendToAt peer msg now around =>
    show (m.sendingsSendTo _ now peer msg around).map Sending.call =
      (m.sendToAt _ peer msg now around).calls.filter _
    rw [← call_sendingsSendTo]
    refine (List.filter_eq_self.2 (List.forall_mem_map.2 fun s hs => ?_)).symm
    rcases List.mem_append.1 hs with hs | hs
    · exact (enabled_sendingsTick _ _ _ hs).2
    · split at hs
      next =>
        dsimp only at hs
        split_ifs at hs
        · cases hs
        · exact (powerManager_sendingsNow _ _ _ hs).2.2
      next => cases hs
  | recvAnyAt now around =>
    show (m.sendingsTick _ now around).map Sending.call =
      (m.recvAnyAt _ now around).calls.filter _
    rw [call_sendingsTick, ← htick]
    unfold recvAnyAt
    dsimp only
    generalize m.powerTickAt radio.toConnection now around = tick
    obtain ⟨answer, m', world', calls⟩ := tick
    cases answer with
    | ok outcome =>
      dsimp only [Ran.bind]
      rw [List.filter_append]
      split_ifs
      · exact (List.append_nil _).symm
      · rw [filter_isSend_pollKeys, List.append_nil]
    | err | panic | pending => rfl
  | powerTickAt now around =>
    exact (call_sendingsTick _ now m around).trans (htick now around).symm
  | connect peer wifiAddr world =>
    show [] = (m.connect radio preference peer wifiAddr world).calls.filter _
    unfold connect
    split <;> rfl
  | registerInbound | disconnectPeer | notifyMacRotated | shutdown => rfl

/-! ### Peers that have a connection -/

section Reaches

variable (api : Connection Conn World) (m : TransportManager Conn)

/-- The address is due to be changed. -/
def RotationDue (instant : ℕ) : Prop :=
  ∃ scanner, m.bleCentralScanner = some scanner ∧
    scanner.rotationInterval ≤ instant - scanner.lastRotation

/-- The peer has a connection, with those that were delivered; one over BLE does not count if the
address is due to be changed. -/
def Reaches (around : Surroundings Conn World) (pubkey : Bytes 32) : Prop :=
  ∃ conn, (m.processBleIncoming around.bleIncoming).connection pubkey = some conn ∧
    (m.RotationDue around.instant → api.transportType conn ≠ .ble)

theorem connection_foldl_remove (pubkeys : List (Bytes 32)) (pubkey : Bytes 32) :
    (pubkeys.foldl remove m).connection pubkey =
      if pubkey ∈ pubkeys then none else m.connection pubkey := by
  induction pubkeys generalizing m with
  | nil => rfl
  | cons first pubkeys ih =>
    rw [List.foldl_cons, ih]
    by_cases hrest : pubkey ∈ pubkeys
    · simp [hrest]
    · by_cases hfirst : pubkey = first
      · subst hfirst
        simp [hrest, connection_remove_self]
      · simp [hrest, hfirst, connection_remove_ne m hfirst]

/-- Connections over BLE are given up when the address has changed, and no others. -/
theorem connection_notifyMacRotated_iff (pubkey : Bytes 32) (conn : Conn) :
    (m.notifyMacRotated api).connection pubkey = some conn ↔
      m.connection pubkey = some conn ∧ api.transportType conn ≠ .ble := by
  unfold notifyMacRotated
  dsimp only
  rw [connection_foldl_remove]
  have hmem : ∀ conn', m.connection pubkey = some conn' ↔
      ⟨pubkey, conn'⟩ ∈ m.connections.activeConnections.entries :=
    fun conn' => AList.mem_lookup_iff
  split_ifs with hble
  · obtain ⟨⟨_, conn'⟩, hconn', rfl⟩ := List.mem_map.1 hble
    obtain ⟨hentry, htype⟩ := List.mem_filter.1 hconn'
    refine iff_of_false (by simp) fun h => h.2 ?_
    have hsame : some conn' = some conn := ((hmem conn').2 hentry).symm.trans h.1
    cases hsame
    simpa using htype
  · refine ⟨fun hconn => ⟨hconn, fun htype => hble ?_⟩, And.left⟩
    exact List.mem_map.2 ⟨⟨pubkey, conn⟩,
      List.mem_filter.2 ⟨(hmem conn).1 hconn, decide_eq_true htype⟩, rfl⟩

/-- The connections that a tick leaves, before messages are flushed. -/
theorem connection_tickPower_iff (now : ℕ) (around : Surroundings Conn World) (pubkey : Bytes 32)
    (conn : Conn) :
    (m.tickPower api now around).2.connection pubkey = some conn ↔
      (m.processBleIncoming around.bleIncoming).connection pubkey = some conn ∧
        (m.RotationDue around.instant → api.transportType conn ≠ .ble) := by
  obtain ⟨-, -, hscanner⟩ := m.processBleIncoming_spec around.bleIncoming
  unfold tickPower RotationDue BleScanner.rotateMacIfDue
  dsimp only
  rw [hscanner]
  cases m.bleCentralScanner with
  | none => simp [connection]
  | some scanner =>
    dsimp only
    by_cases hdue : scanner.rotationInterval ≤ around.instant - scanner.lastRotation
    · rw [if_pos hdue]
      refine (connection_notifyMacRotated_iff api _ pubkey conn).trans ?_
      simp [hdue, connection]
    · rw [if_neg hdue]
      simp [hdue, connection]

theorem reaches_iff (now : ℕ) (around : Surroundings Conn World) (pubkey : Bytes 32) :
    m.Reaches api around pubkey ↔
      ∃ conn, (m.tickPower api now around).2.connection pubkey = some conn :=
  exists_congr fun conn => (m.connection_tickPower_iff api now around pubkey conn).symm

end Reaches

/-! ### Sending while the interfaces sleep -/

/-- A message other than a transaction is sent to a peer that has a connection, while the interfaces
sleep. -/
def SpeaksAsleep (api : Connection Conn World) (m : TransportManager Conn) :
    Operation Conn World Addr → Prop
  | .sendToAt peer msg now around =>
    msg.isTransaction = false ∧ m.powerManager.Asleep now ∧ m.Reaches api around peer.pubkey
  | _ => False

section Steps

variable (api : Connection Conn World) {now : ℕ} {m : TransportManager Conn}

/-- A tick of a node that sleeps sends nothing. -/
theorem powerTickAt_of_asleep (hasleep : m.powerManager.Asleep now)
    (around : Surroundings Conn World) :
    (∃ outcome, (m.powerTickAt api now around).answer = .ok outcome) ∧
      (m.powerTickAt api now around).manager = (m.tickPower api now around).2 := by
  obtain ⟨hwake, -⟩ := m.tickPower_spec api now around
  rw [(m.powerManager.tick_of_not_isAwakeWindow hasleep.1).1] at hwake
  unfold powerTickAt
  dsimp only
  rw [hwake]
  exact ⟨⟨_, rfl⟩, rfl⟩

theorem powerManager_flush (world : World) (pendings : List PendingMessage) :
    (m.flush api world pendings).manager.powerManager = m.powerManager := by
  induction pendings generalizing m world with
  | nil => rfl
  | cons pending rest ih =>
    have hsent := sent_sendNow api { m with pendingMessages := rest } pending.peer
      pending.message world
    unfold flush Ran.bind
    split
    next => exact (ih _).trans hsent.powerManager
    all_goals exact hsent.powerManager

theorem powerManager_powerTickAt (around : Surroundings Conn World) :
    (m.powerTickAt api now around).manager.powerManager = (m.powerManager.tick now).2 := by
  obtain ⟨-, -, hpower, -⟩ := m.tickPower_spec api now around
  unfold powerTickAt
  dsimp only [Ran.map]
  split_ifs
  · exact (powerManager_flush api _ _).trans hpower
  · exact hpower

theorem not_enabled_iff (s : Sending Conn) :
    ¬ s.Enabled ↔ s.powerManager.interfaceState s.now = .sleeping := by
  unfold Sending.Enabled PowerManager.interfaceState
  split_ifs <;> decide

/-- While the interfaces sleep, `send_now` must find no connection. -/
theorem enabled_sendingsNow_iff (peer : PeerIdentity) (msg : ProtocolMessage) (world : World) :
    (∀ s ∈ m.sendingsNow api now peer msg world, s.Enabled) ↔
      (m.powerManager.interfaceState now = .sleeping → m.connection peer.pubkey = none) := by
  constructor
  · intro henabled hsleeping
    cases hconn : m.connection peer.pubkey with
    | none => rfl
    | some conn =>
      have hs : m.sendingOn api now peer msg conn world ∈
          m.sendingsNow api now peer msg world := by
        unfold sendingsNow
        rw [hconn]
        exact List.mem_cons_self
      exact absurd (henabled _ hs) ((not_enabled_iff _).2 hsleeping)
  · intro hconn s hs
    by_contra hsleeping
    obtain ⟨hpower, hnow, -⟩ := powerManager_sendingsNow api now m hs
    rw [not_enabled_iff, hpower, hnow] at hsleeping
    unfold sendingsNow at hs
    rw [hconn hsleeping] at hs
    cases hs

/-- `send_to_at` calls `send` while the interfaces sleep when the message is not a transaction. -/
theorem enabled_sendingsSendTo_iff (peer : PeerIdentity) (msg : ProtocolMessage)
    (around : Surroundings Conn World) :
    (∀ s ∈ m.sendingsSendTo api now peer msg around, s.Enabled) ↔
      ¬ (msg.isTransaction = false ∧ m.powerManager.Asleep now ∧
        m.Reaches api around peer.pubkey) := by
  have hpower : (m.powerTickAt api now around).manager.powerManager =
      (m.powerManager.tick now).2 := powerManager_powerTickAt api around
  have hrecorded : ((m.powerTickAt api now around).manager.powerManager.recordOutboundTransaction
      now).2.interfaceState now = .sleeping ↔ m.powerManager.Asleep now := by
    rw [PowerManager.interfaceState_recordOutboundTransaction_iff, hpower,
      PowerManager.asleep_tick_iff]
  have htick : ∀ s ∈ m.sendingsTick api now around, s.Enabled :=
    fun s hs => (enabled_sendingsTick api now m hs).1
  unfold sendingsSendTo
  dsimp only
  rw [List.forall_mem_append, and_iff_right htick]
  by_cases hasleep : m.powerManager.Asleep now
  · -- The tick flushes nothing, and a message that does not wait is sent.
    obtain ⟨⟨outcome, hanswer⟩, hmanager⟩ := powerTickAt_of_asleep api hasleep around
    have hsleeping := (m.powerManager.interfaceState_tick_iff now).2 hasleep
    rw [← hpower] at hsleeping
    have hmode := ((PowerManager.interfaceState_eq_sleeping_iff _ now).1 hsleeping).1
    rw [hanswer]
    dsimp only
    rw [hsleeping, hmode]
    cases hmsg : msg.isTransaction with
    | true => simp [InterfacePowerState.sleeping]
    | false =>
      rw [if_neg (by simp), enabled_sendingsNow_iff, m.reaches_iff api now around, ← hmanager]
      simp [hasleep, hrecorded, connection, Option.eq_none_iff_forall_ne_some]
  · -- The interfaces are awake after the tick.
    refine iff_of_true ?_ (fun h => hasleep h.2.1)
    split
    next =>
      split_ifs
      · simp
      · rw [enabled_sendingsNow_iff]
        dsimp only
        exact fun h => absurd (hrecorded.1 h) hasleep
    next => simp

end Steps

/-- An operation calls `send` only while an interface is enabled when it sends no message other than
a transaction while the interfaces sleep. -/
theorem enabled_sendings_iff (api : Connection Conn World) (m : TransportManager Conn)
    (op : Operation Conn World Addr) :
    (∀ s ∈ m.sendings api op, s.Enabled) ↔ ¬ m.SpeaksAsleep api op := by
  cases op with
  | sendToAt peer msg now around => exact enabled_sendingsSendTo_iff api peer msg around
  | recvAnyAt now around | powerTickAt now around =>
    exact iff_of_true (fun s hs => (enabled_sendingsTick api now m hs).1) not_false
  | connect | registerInbound | disconnectPeer | notifyMacRotated | shutdown =>
    exact iff_of_true (fun s hs => absurd hs List.not_mem_nil) not_false

end TransportManager

open TransportManager

/-- **When the radio is silent while the node sleeps.**  In a run, every call of `send` is made
while an interface is enabled when no message other than a transaction is sent, to a peer that has a
connection, while the interfaces sleep. -/
theorem radio_silence_iff (radio : Radio Conn World Addr) (preference : TransportPreference)
    (m : TransportManager Conn) (ops : List (Operation Conn World Addr)) :
    (∀ e ∈ trace (operations radio preference) m ops,
        ∀ s ∈ e.before.sendings radio.toConnection e.input, s.Enabled) ↔
      ∀ e ∈ trace (operations radio preference) m ops,
        ¬ e.before.SpeaksAsleep radio.toConnection e.input :=
  forall₂_congr fun e _ => enabled_sendings_iff radio.toConnection e.before e.input

/-- A handshake is sent a second after the node went to sleep. -/
theorem speaks_asleep_sample :
    let peer := samplePeer 1
    let ops : List (Operation (PeerIdentity × TransportType) Bool Unit) :=
      [.registerInbound peer (peer, .ble) false,
        .sendToAt peer (.handshake peer.pubkey) sleepingAt
          { bleIncoming := [], instant := 0, keyOrder := fun keys => keys,
            keyOrder_perm := fun _ => .refl _, world := false }]
    ∃ e ∈ trace (operations sampleRadio .auto) (withPowerManager (PowerManager.new 0)) ops,
      ∃ s ∈ e.before.sendings sampleRadio.toConnection e.input, ¬ s.Enabled := by
  intro peer ops
  refine ⟨_, List.mem_cons_of_mem _ (List.mem_singleton_self _), ?_⟩
  decide +kernel

end StellarConduit
