import StellarConduit.Transport.Ble
import StellarConduit.Transport.Listeners
import StellarConduit.Transport.Origins

/-!
# The connections that a manager registers

A manager puts a connection into its table when `connect` or `ble_fallback` has opened it, and when
its BLE listener has completed the handshake of a central.

* `StaysReady`: what connections must do for `sendToAt_of_hasReady`, that a `send_to` for a peer
  with a connection that is ready does not fail with `NotConnected`;
* `BleListening`: a manager and its BLE listener, which may be started at any time;
* `BleListening.registrations`: what the manager registers in a step; nothing else enters its table,
  but what a caller hands in (`comesFrom_registrations`);
* `registrations_usable_iff`: in every run, all of that is usable when no tick finds a completed
  handshake.
-/

namespace StellarConduit

open Verif Verif.Machine TransportManager

/-! ### Connections that stay ready -/

section Ready

variable {Conn World : Type}

/-- A connection that is `Ready` stays so, and a `send` on it does not fail with `NotConnected`.
What is opened over BLE is ready. -/
structure StaysReady (api : Connection Conn World) (Ready : Conn → Prop) : Prop where
  send : ∀ conn msg world, Ready conn →
    (api.send conn msg world).1 ≠ .err .notConnected ∧ Ready (api.send conn msg world).2.1
  connectBle : ∀ peer world,
    match (api.connectBle peer world).1 with
    | .ok conn => Ready conn
    | .error e => e ≠ .notConnected

/-- The peer has a connection, which is ready. -/
def TransportManager.HasReady (m : TransportManager Conn) (Ready : Conn → Prop)
    (pubkey : Bytes 32) : Prop :=
  ∃ conn, m.connection pubkey = some conn ∧ Ready conn

variable {api : Connection Conn World} {Ready : Conn → Prop} (h : StaysReady api Ready)
  {m : TransportManager Conn} (world : World) {pubkey : Bytes 32}

include h

theorem hasReady_sendOn (peer : PeerIdentity) (msg : ProtocolMessage) {conn : Conn}
    (hconn : Ready conn) :
    (m.sendOn api peer msg conn world).answer ≠ .err .notConnected ∧
      (m.sendOn api peer msg conn world).manager.HasReady Ready peer.pubkey := by
  obtain ⟨hanswer, hready⟩ := h.send conn msg world hconn
  exact ⟨hanswer, _, connection_setConnection_self m _ _, hready⟩

/-- A connection that breaks is replaced by one that is ready, or the message fails otherwise. -/
theorem hasReady_sendNow (peer : PeerIdentity) (msg : ProtocolMessage)
    (hm : m.HasReady Ready peer.pubkey) :
    (m.sendNow api peer msg world).answer ≠ .err .notConnected ∧
      ((m.sendNow api peer msg world).answer = .ok () →
        (m.sendNow api peer msg world).manager.HasReady Ready peer.pubkey) := by
  obtain ⟨conn, hconn, hready⟩ := hm
  refine sendNow_cases (P := fun r => r.answer ≠ .err .notConnected ∧
    (r.answer = .ok () → r.manager.HasReady Ready peer.pubkey)) api m peer msg world ?_ ?_ ?_ ?_
  · intro hnone
    rw [hnone] at hconn
    cases hconn
  · intro conn' hconn' _
    obtain rfl : conn = conn' := Option.some.inj (hconn.symm.trans hconn')
    obtain ⟨hanswer, hsent⟩ := hasReady_sendOn h (m := m) world peer msg hready
    exact ⟨hanswer, fun _ => hsent⟩
  · intro conn' e world' _ _ hdialed
    have hble := h.connectBle peer (api.send conn' msg world).2.2
    rw [hdialed] at hble
    exact ⟨fun herr => hble (Awaited.err.inj herr), fun hok => by cases hok⟩
  · intro conn' opened world' _ _ hdialed
    have hble := h.connectBle peer (api.send conn' msg world).2.2
    rw [hdialed] at hble
    obtain ⟨hanswer, hsent⟩ := hasReady_sendOn h (m := ((m.sendOn api peer msg conn'
      world).manager.remove peer.pubkey).registerInbound peer opened) world' peer msg hble
    exact ⟨hanswer, fun _ => hsent⟩

omit h in
/-- A message to one peer leaves the connections of the others. -/
theorem connection_sendNow_ne (api : Connection Conn World) {peer : PeerIdentity}
    (hne : pubkey ≠ peer.pubkey) (msg : ProtocolMessage) :
    (m.sendNow api peer msg world).manager.connection pubkey = m.connection pubkey := by
  have hon : ∀ (m : TransportManager Conn) conn world,
      (m.sendOn api peer msg conn world).manager.connection pubkey = m.connection pubkey :=
    fun m conn world => connection_setConnection_ne m hne _
  have hremoved : ∀ conn, ((m.sendOn api peer msg conn world).manager.remove
      peer.pubkey).connection pubkey = m.connection pubkey :=
    fun conn => (connection_remove_ne _ hne).trans (hon m conn world)
  refine sendNow_cases (P := fun r => r.manager.connection pubkey = m.connection pubkey) api m peer
    msg world (fun _ => rfl) (fun conn _ _ => hon m conn world)
    (fun conn _ _ _ _ _ => hremoved conn) fun conn opened world' _ _ _ => ?_
  exact (hon _ _ _).trans ((connection_registerInbound_ne _ hne _).trans (hremoved conn))

/-- A message that is sent, to whichever peer, leaves the connection ready. -/
theorem hasReady_of_sendNow (peer : PeerIdentity) (msg : ProtocolMessage)
    (hm : m.HasReady Ready pubkey) (hok : (m.sendNow api peer msg world).answer = .ok ()) :
    (m.sendNow api peer msg world).manager.HasReady Ready pubkey := by
  by_cases hpeer : pubkey = peer.pubkey
  · subst hpeer
    exact (hasReady_sendNow h world peer msg hm).2 hok
  · obtain ⟨conn, hconn, hready⟩ := hm
    exact ⟨conn, (connection_sendNow_ne world api hpeer msg).trans hconn, hready⟩

/-- Messages that are sent one after another leave the connection ready, and they fail for want of a
connection only at one for another peer. -/
theorem hasReady_flush (pendings : List PendingMessage) (hm : m.HasReady Ready pubkey) :
    ((m.flush api world pendings).answer = .err .notConnected →
        ∃ pending ∈ pendings, pending.peer.pubkey ≠ pubkey) ∧
      ∀ flushed, (m.flush api world pendings).answer = .ok flushed →
        (m.flush api world pendings).manager.HasReady Ready pubkey := by
  induction pendings generalizing m world with
  | nil =>
    refine ⟨fun herr => ?_, fun _ _ => hm⟩
    cases herr
  | cons pending rest ih =>
    have hsent := hasReady_of_sendNow h (m := { m with pendingMessages := rest }) world
      pending.peer pending.message hm
    -- Only a message for another peer finds no connection.
    have hother : (sendNow api { m with pendingMessages := rest } pending.peer pending.message
        world).answer = .err .notConnected → pending.peer.pubkey ≠ pubkey := by
      rintro herr rfl
      exact (hasReady_sendNow h (m := { m with pendingMessages := rest }) world pending.peer
        pending.message hm).1 herr
    unfold flush
    generalize sendNow api _ pending.peer pending.message world = sent at hsent hother ⊢
    obtain ⟨answer, m', world', calls⟩ := sent
    cases answer with
    | ok done =>
      obtain ⟨herr, hok⟩ := ih world' (hsent rfl)
      refine ⟨fun hfailed => ?_, fun flushed hflushed => ?_⟩
      · obtain ⟨other, hmem, hne⟩ := herr (Awaited.map_eq_err_iff.1 hfailed)
        exact ⟨other, List.mem_cons_of_mem _ hmem, hne⟩
      · obtain ⟨flushed', hok', -⟩ := Awaited.map_eq_ok_iff.1 hflushed
        exact hok flushed' hok'
    | err e =>
      refine ⟨fun herr => ⟨pending, List.mem_cons_self, hother ?_⟩, fun _ hok => ?_⟩
      · exact congrArg Awaited.err (Awaited.err.inj herr)
      · cases hok
    | panic p => exact ⟨by rintro ⟨⟩, by rintro _ ⟨⟩⟩
    | pending => exact ⟨by rintro ⟨⟩, by rintro _ ⟨⟩⟩

omit h in
/-- A tick that finds no completed handshake, and rotates no address, leaves the table. -/
theorem tickPower_quiet (api : Connection Conn World) (hscanner : m.bleCentralScanner = none)
    (now : ℕ) {around : Surroundings Conn World} (hnil : around.bleIncoming = []) :
    (m.tickPower api now around).2 = { m with powerManager := (m.powerManager.tick now).2 } := by
  unfold tickPower
  rw [hnil]
  dsimp only [processBleIncoming, List.foldl_nil]
  rw [hscanner]

theorem hasReady_powerTickAt (hm : m.HasReady Ready pubkey) (hscanner : m.bleCentralScanner = none)
    (now : ℕ) {around : Surroundings Conn World} (hnil : around.bleIncoming = []) :
    ((m.powerTickAt api now around).answer = .err .notConnected →
        ∃ pending ∈ m.pendingMessages, pending.peer.pubkey ≠ pubkey) ∧
      ∀ outcome, (m.powerTickAt api now around).answer = .ok outcome →
        (m.powerTickAt api now around).manager.HasReady Ready pubkey := by
  have hquiet := tickPower_quiet api hscanner now hnil
  have hticked : (m.tickPower api now around).2.HasReady Ready pubkey := hquiet ▸ hm
  have hpending : (m.tickPower api now around).2.pendingMessages = m.pendingMessages := by
    rw [hquiet]
  unfold powerTickAt
  dsimp only
  rw [hpending]
  split_ifs
  · obtain ⟨herr, hok⟩ := hasReady_flush h around.world m.pendingMessages hticked
    refine ⟨fun hfailed => herr (Awaited.map_eq_err_iff.1 hfailed), fun outcome hticks => ?_⟩
    obtain ⟨flushed, hflushed, -⟩ := Awaited.map_eq_ok_iff.1 hticks
    exact hok flushed hflushed
  · refine ⟨fun herr => ?_, fun _ _ => hticked⟩
    cases herr

/-- If the connection to a peer is ready, a `send_to` fails with `NotConnected` only when a message
for another peer waits, which is sent first. -/
theorem sendToAt_of_hasReady {peer : PeerIdentity} (hm : m.HasReady Ready peer.pubkey)
    (hscanner : m.bleCentralScanner = none) (msg : ProtocolMessage) (now : ℕ)
    {around : Surroundings Conn World} (hnil : around.bleIncoming = [])
    (herr : (m.sendToAt api peer msg now around).answer = .err .notConnected) :
    ∃ pending ∈ m.pendingMessages, pending.peer.pubkey ≠ peer.pubkey := by
  obtain ⟨hother, hkept⟩ := hasReady_powerTickAt h hm hscanner now hnil
  unfold sendToAt Ran.bind at herr
  generalize m.powerTickAt api now around = tick at herr hother hkept
  split at herr
  next outcome hanswer =>
    obtain ⟨conn, hconn, hready⟩ := hkept outcome hanswer
    dsimp only at herr
    split_ifs at herr
    have hsent := hasReady_sendNow h (m := { tick.manager with powerManager :=
      (tick.manager.powerManager.recordOutboundTransaction now).2 }) tick.world peer msg
      ⟨conn, hconn, hready⟩
    exact absurd herr hsent.1
  next e hanswer => exact hother (hanswer.trans (congrArg Awaited.err (Awaited.err.inj herr)))
  next => cases herr
  next => cases herr

end Ready

/-! ### A manager with its BLE listener -/

/-- The connection that the listener makes for a central. -/
def acceptCentral (centralPeer : PeerIdentity) : NodeConnection :=
  .inr (.inl (BlePeripheral.new centralPeer))

structure BleListening where
  /-- The WiFi listener does not run: what it delivers is registered by a caller. -/
  listening : Listening NodeConnection
  shutDown : Bool

inductive BleListeningInput (Addr : Type)
  /-- `max_peers` is read when the listener is started. -/
  | startBleListener (localPeer : PeerIdentity) (maxPeers : ℕ)
  /-- A central writes to the characteristic. -/
  | bleData (bytes : List UInt8) (now : ℕ)
  | operate (op : Operation NodeConnection (NodeWorld Addr) Addr)

variable {Addr : Type}

/-- The operation is a shutdown. -/
def Operation.shutsDown {Conn World Addr : Type} : Operation Conn World Addr → Bool
  | .shutdown _ => true
  | _ => false

/-- The step starts with a tick of the manager. -/
def BleListeningInput.ticks : BleListeningInput Addr → Bool
  | .operate op => op.ticks
  | _ => false

namespace BleListening

/-- `TransportManager::with_power_manager` -/
def new (powerManager : PowerManager) : BleListening where
  listening :=
    { manager := .withPowerManager powerManager
      maxPeers := 300
      wifiRunning := false
      wifiCapacity := 0
      wifiIncoming := []
      bleRunning := false
      bleReassembler := .new
      bleIncoming := [] }
  shutDown := false

/-- A listener of before delivers into a channel that is closed.  One that is started after a
shutdown stops before it accepts anything. -/
def startBleListener (s : BleListening) (localPeer : PeerIdentity) (maxPeers : ℕ) : BleListening :=
  let (advertised, _) := (BlePeripheral.new localPeer).startAdvertising
  { s with
    listening :=
      { s.listening with
        maxPeers := maxPeers
        bleRunning := advertised.isOk && !s.shutDown
        bleReassembler := .new
        bleIncoming := [] } }

section Step

variable (rmp : RmpSerde) (preference : TransportPreference) (s : BleListening)

def step : BleListeningInput Addr → Unit × BleListening
  | .startBleListener localPeer maxPeers => ((), s.startBleListener localPeer maxPeers)
  | .bleData bytes now =>
    ((), { s with listening := s.listening.bleData rmp acceptCentral bytes now })
  | .operate op =>
    ((), ⟨s.listening.operate (nodeRadio Addr rmp) preference op, s.shutDown || op.shutsDown⟩)

/-- What the manager registers in a step, under the peer of each connection: what the listener has
delivered, if it ticks, and what it then opens.  A caller of `register_inbound` registers what he
was given. -/
def registrations : BleListeningInput Addr → List (PeerIdentity × NodeConnection)
  | .operate op =>
    let radio := nodeRadio Addr rmp
    let incoming := s.listening.bleIncoming.take bleChannelCapacity
    let log := radioLog radio preference s.listening.manager (op.withIncoming incoming)
    let opened := log.filterMap RadioEvent.opened
    (if op.ticks then incoming else []) ++ opened.map fun conn => (radio.remotePeer conn, conn)
  | _ => []

end Step

end BleListening

/-- The connection is connected; and a `send_to` for its peer right after it was registered fails
with `NotConnected` only when a message for another peer waits, which is sent first.  The manager
has no scanner: only tests give it one, whose rotations drop connections. -/
structure Usable (Addr : Type) (rmp : RmpSerde) (entry : PeerIdentity × NodeConnection) :
    Prop where
  connected : NodeConnection.state entry.2 = .connected
  sendToAt : ∀ (m : TransportManager NodeConnection) (msg : ProtocolMessage) (now : ℕ)
    (around : Surroundings NodeConnection (NodeWorld Addr)),
    m.bleCentralScanner = none → around.bleIncoming = [] →
      ((m.registerInbound entry.1 entry.2).sendToAt (nodeRadio Addr rmp).toConnection entry.1 msg
          now around).answer = .err .notConnected →
        ∃ pending ∈ m.pendingMessages, pending.peer.pubkey ≠ entry.1.pubkey

/-! ### What is opened is usable -/

theorem staysReady_nodeRadio (rmp : RmpSerde) :
    StaysReady (nodeRadio Addr rmp).toConnection NodeConnection.Ready where
  send conn msg world hready := send_of_ready rmp hready msg world
  connectBle peer world := by
    have hopened := ready_of_connectBle rmp peer world
    generalize (nodeRadio Addr rmp).connectBle peer world = dialed at hopened ⊢
    obtain ⟨result, world'⟩ := dialed
    cases result with
    | error e =>
      obtain rfl : e = .brokenPipe := hopened
      show TransportError.brokenPipe ≠ .notConnected
      decide
    | ok conn => exact hopened.1

theorem usable_of_ready (rmp : RmpSerde) {entry : PeerIdentity × NodeConnection}
    (hready : NodeConnection.Ready entry.2) : Usable Addr rmp entry where
  connected := hready.state_eq
  sendToAt m msg now around hscanner hnil herr := by
    have hm : (m.registerInbound entry.1 entry.2).HasReady NodeConnection.Ready entry.1.pubkey :=
      ⟨entry.2, connection_registerInbound_self m entry.1 entry.2, hready⟩
    exact sendToAt_of_hasReady (m := m.registerInbound entry.1 entry.2) (staysReady_nodeRadio rmp)
      hm hscanner msg now hnil herr

/-- The connection of a central has not been connected. -/
theorem not_usable_acceptCentral (rmp : RmpSerde) (centralPeer peer : PeerIdentity) :
    ¬ Usable Addr rmp (peer, acceptCentral centralPeer) := by
  intro h
  have hstate : NodeConnection.state (acceptCentral centralPeer) = .disconnected := rfl
  have hconnected := hstate.symm.trans h.connected
  cases hconnected

section Opened

variable (rmp : RmpSerde) (peer : PeerIdentity) (world : NodeWorld Addr)

theorem ready_of_mem_connectBle :
    ∀ conn ∈ ((nodeRadio Addr rmp).connectBle peer world).1.toOption,
      NodeConnection.Ready conn ∧ (nodeRadio Addr rmp).remotePeer conn = peer := by
  refine forall_toOption fun conn world' hopened => ?_
  have hready := ready_of_connectBle rmp peer world
  rw [hopened] at hready
  exact hready

theorem ready_of_mem_connectWifi (addr : Addr) :
    ∀ conn ∈ ((nodeRadio Addr rmp).connectWifi peer addr world).1.toOption,
      NodeConnection.Ready conn ∧ (nodeRadio Addr rmp).remotePeer conn = peer :=
  forall_toOption fun _ _ hopened => ready_of_connectWifi rmp hopened

theorem namesPeers_nodeRadio : (nodeRadio Addr rmp).NamesPeers where
  connectBle peer world conn hconn := (ready_of_mem_connectBle rmp peer world conn hconn).2
  connectWifi peer addr world conn hconn :=
    (ready_of_mem_connectWifi rmp peer world addr conn hconn).2

/-- All that operations open is ready. -/
theorem holdsOfLogs_ready (preference : TransportPreference) :
    HoldsOfLogs (nodeRadio Addr rmp) preference fun log =>
      ∀ event ∈ log, ∀ conn ∈ event.opened, NodeConnection.Ready conn where
  nil := List.forall_mem_nil _
  append log log' h h' := List.forall_mem_append.2 ⟨h, h'⟩
  called broke := by
    rw [List.forall_mem_singleton]
    rintro conn ⟨⟩
  fallback peer world := by
    refine List.forall_mem_cons.2 ⟨by rintro conn ⟨⟩, ?_⟩
    rw [List.forall_mem_singleton]
    exact fun conn hconn => (ready_of_mem_connectBle rmp peer world conn hconn).1
  dial peer wifiAddr world := by
    intro event hevent conn hconn
    rcases mem_log_dial hevent with ⟨world', rfl⟩ | ⟨addr, world', rfl⟩
    · exact (ready_of_mem_connectBle rmp peer world' conn hconn).1
    · exact (ready_of_mem_connectWifi rmp peer world' addr conn hconn).1

end Opened

/-! ### Nothing else is registered -/

/-- A connection that the manager has after an operation was there before, or was registered, or a
caller handed it in. -/
theorem BleListening.comesFrom_registrations (rmp : RmpSerde) (preference : TransportPreference)
    (s : BleListening) (op : Operation NodeConnection (NodeWorld Addr) Addr) :
    (s.step rmp preference (.operate op)).2.listening.manager.connections.ComesFrom
      (nodeRadio Addr rmp).toConnection fun pubkey conn =>
        s.listening.manager.connection pubkey = some conn ∨
          (∃ entry ∈ s.registrations rmp preference (.operate op),
            entry.1.pubkey = pubkey ∧ entry.2 = conn) ∨
            ∃ peer world, op = .registerInbound peer conn world ∧ peer.pubkey = pubkey := by
  intro pubkey conn' hconn'
  let incoming := s.listening.bleIncoming.take bleChannelCapacity
  have hmanager : (s.step rmp preference (.operate op)).2.listening.manager =
      (StellarConduit.operate (nodeRadio Addr rmp) preference s.listening.manager
        (op.withIncoming incoming)).manager := s.listening.manager_operate _ _ op
  rw [hmanager] at hconn'
  obtain ⟨conn, hsource, hdescends⟩ := comesFrom_operate (namesPeers_nodeRadio rmp) preference
    s.listening.manager (op.withIncoming incoming) pubkey conn' hconn'
  refine ⟨conn, ?_, hdescends⟩
  rcases hsource with hbefore | ⟨entry, hentry, hkey, hconn⟩ | ⟨hopened, hkey⟩
  · exact Or.inl hbefore
  · cases op with
    | sendToAt | recvAnyAt | powerTickAt =>
      exact Or.inr (Or.inl ⟨entry, List.mem_append_left _ hentry, hkey, hconn⟩)
    | registerInbound peer given world =>
      obtain rfl : entry = (peer, given) := List.mem_singleton.1 hentry
      obtain rfl : given = conn := hconn
      exact Or.inr (Or.inr ⟨peer, world, rfl, hkey⟩)
    | connect | disconnectPeer | notifyMacRotated | shutdown => cases hentry
  · refine Or.inr (Or.inl ⟨((nodeRadio Addr rmp).remotePeer conn, conn), ?_, hkey, rfl⟩)
    exact List.mem_append_right _ (List.mem_map_of_mem hopened)

/-! ### The runs -/

/-- A complete handshake is delivered with a new connection, and nothing else is. -/
theorem Listening.bleIncoming_bleData {Conn : Type} (rmp : RmpSerde)
    (peripheral : PeerIdentity → Conn) (s : Listening Conn) (bytes : List UInt8) (now : ℕ) :
    (s.bleData rmp peripheral bytes now).bleIncoming = s.bleIncoming ∨
      ∃ peer, (s.bleData rmp peripheral bytes now).bleIncoming =
        s.bleIncoming ++ [(peer, peripheral peer)] := by
  unfold bleData
  split_ifs
  · exact Or.inl rfl
  · exact Or.inl rfl
  · split
    next => exact Or.inl rfl
    next =>
      split
      next => exact Or.inl rfl
      next => exact Or.inl rfl
      next =>
        dsimp only
        split
        next pubkey _ => exact Or.inr ⟨PeerIdentity.new pubkey, rfl⟩
        next => exact Or.inl rfl

namespace BleListening

/-- What the listener has delivered are the connections that it makes for centrals. -/
def Fresh (s : BleListening) : Prop :=
  ∀ entry ∈ s.listening.bleIncoming, entry.2 = acceptCentral entry.1

variable {s : BleListening} (rmp : RmpSerde) (preference : TransportPreference)

theorem fresh_new (powerManager : PowerManager) : (new powerManager).Fresh :=
  List.forall_mem_nil _

theorem Fresh.step (h : s.Fresh) (i : BleListeningInput Addr) :
    (s.step rmp preference i).2.Fresh := by
  cases i with
  | startBleListener localPeer maxPeers => exact List.forall_mem_nil _
  | bleData bytes now =>
    show ∀ entry ∈ (s.listening.bleData rmp acceptCentral bytes now).bleIncoming, _
    rcases s.listening.bleIncoming_bleData rmp acceptCentral bytes now with heq | ⟨peer, heq⟩
    · rw [heq]
      exact h
    · rw [heq, List.forall_mem_append, List.forall_mem_singleton]
      exact ⟨h, rfl⟩
  | operate op =>
    have hdrop : ∀ entry ∈ s.listening.bleIncoming.drop bleChannelCapacity,
        entry.2 = acceptCentral entry.1 := fun entry hentry => h entry (List.mem_of_mem_drop hentry)
    cases op with
    | sendToAt | recvAnyAt | powerTickAt => exact hdrop
    | connect | registerInbound | disconnectPeer | notifyMacRotated | shutdown => exact h

/-- What is registered in a step is usable when no tick finds a completed handshake. -/
theorem usable_registrations_iff (h : s.Fresh) (i : BleListeningInput Addr) :
    (∀ entry ∈ s.registrations rmp preference i, Usable Addr rmp entry) ↔
      (i.ticks → s.listening.bleIncoming = []) := by
  cases i with
  | startBleListener localPeer maxPeers =>
    exact iff_of_true (List.forall_mem_nil _) (fun hticks => absurd hticks Bool.false_ne_true)
  | bleData bytes now =>
    exact iff_of_true (List.forall_mem_nil _) (fun hticks => absurd hticks Bool.false_ne_true)
  | operate op =>
    -- What the radio opens is ready; only what a central brought is not.
    have hopened : ∀ entry ∈ ((radioLog (nodeRadio Addr rmp) preference s.listening.manager
        (op.withIncoming (s.listening.bleIncoming.take bleChannelCapacity))).filterMap
          RadioEvent.opened).map fun conn => ((nodeRadio Addr rmp).remotePeer conn, conn),
        Usable Addr rmp entry := by
      intro entry hentry
      obtain ⟨conn, hconn, rfl⟩ := List.mem_map.1 hentry
      obtain ⟨event, hevent, hopened⟩ := List.mem_filterMap.1 hconn
      exact usable_of_ready rmp
        ((holdsOfLogs_ready rmp preference).radioLog _ _ event hevent conn hopened)
    unfold registrations BleListeningInput.ticks
    dsimp only
    rw [List.forall_mem_append, and_iff_left hopened]
    cases op.ticks with
    | false =>
      exact iff_of_true (List.forall_mem_nil _) (fun hticks => absurd hticks Bool.false_ne_true)
    | true =>
      rw [if_pos rfl]
      constructor
      · intro husable _
        cases hincoming : s.listening.bleIncoming with
        | nil => rfl
        | cons entry rest =>
          have hfirst := husable entry (by rw [hincoming]; exact List.mem_cons_self)
          have hfresh := h entry (by rw [hincoming]; exact List.mem_cons_self)
          obtain ⟨peer, conn⟩ := entry
          obtain rfl : conn = acceptCentral peer := hfresh
          exact absurd hfirst (not_usable_acceptCentral rmp peer peer)
      · intro hnil
        rw [hnil rfl]
        exact List.forall_mem_nil _

end BleListening

/-- **When what a manager registers is usable.**  In every run of a manager, each connection that it
registers itself is connected, and a `send_to` for its peer does not fail for want of a connection,
when no handshake of a central is complete and waits whenever the manager ticks. -/
theorem registrations_usable_iff (rmp : RmpSerde) (preference : TransportPreference)
    (powerManager : PowerManager) (is : List (BleListeningInput Addr)) :
    (∀ e ∈ trace (BleListening.step rmp preference) (.new powerManager) is,
        ∀ entry ∈ e.before.registrations rmp preference e.input, Usable Addr rmp entry) ↔
      ∀ e ∈ trace (BleListening.step rmp preference) (.new powerManager) is,
        e.input.ticks → e.before.listening.bleIncoming = [] := by
  have hfresh : ∀ e ∈ trace (BleListening.step rmp preference) (.new powerManager) is,
      e.before.Fresh := by
    intro e he
    obtain ⟨pre, i, post, -, rfl⟩ := mem_trace he
    exact exec_invariant BleListening.Fresh (fun s i _ hs => hs.step rmp preference i)
      (BleListening.fresh_new powerManager)
  exact forall₂_congr fun e he =>
    BleListening.usable_registrations_iff rmp preference (hfresh e he) e.input

/-! ### A central that is registered -/

/-- Nothing completes a handshake, and no address can be dialed. -/
def quietNode : Surroundings NodeConnection (NodeWorld Unit) :=
  { (Surroundings.quiet : Surroundings NodeConnection Unit) with
    world := (⟨fun _ => 0, fun _ _ => 0, none⟩, fun _ _ => none) }

/-- A listener is started, and the only chunk of a handshake arrives. -/
def centralRun (central : PeerIdentity) : List (BleListeningInput Unit) :=
  let bytes := (ProtocolMessage.handshake central.pubkey).toBytes
  let frame := ⟨7, UInt32.ofNat bytes.length, 0, UInt16.ofNat bytes.length, bytes⟩
  [.startBleListener (samplePeer 1) 300, .bleData (encodeChunk frame) 0]

/-- A central completes its handshake.  The next tick registers a connection that is not connected,
and a message to the central then fails. -/
theorem central_unusable_sample :
    let central := samplePeer 2
    let tick : BleListeningInput Unit := .operate (.recvAnyAt 0 quietNode)
    let is := centralRun central ++ [tick]
    let s := BleListening.new (PowerManager.new 0)
    let registered := (exec (BleListening.step rmpSerde .bleOnly) s
      (centralRun central)).registrations rmpSerde .bleOnly tick
    let m := (exec (BleListening.step rmpSerde .bleOnly) s is).listening.manager
    registered.map (fun entry => (entry.1, NodeConnection.state entry.2)) =
        [(central, .disconnected)] ∧
      (m.sendToAt (nodeRadio Unit rmpSerde).toConnection central (.handshake central.pubkey) 0
        quietNode).answer = .err .notConnected ∧
      ¬ ∀ e ∈ trace (BleListening.step rmpSerde .bleOnly) s is,
        ∀ entry ∈ e.before.registrations rmpSerde .bleOnly e.input, Usable Unit rmpSerde entry := by
  intro central tick is s registered m
  have hregistered : registered.map (fun entry => (entry.1, NodeConnection.state entry.2)) =
      [(central, .disconnected)] := by decide +kernel
  have hsent : (m.sendToAt (nodeRadio Unit rmpSerde).toConnection central
      (.handshake central.pubkey) 0 quietNode).answer = .err .notConnected := by decide +kernel
  refine ⟨hregistered, hsent, fun husable => ?_⟩
  have hmem : (central, ConnectionState.disconnected) ∈
      registered.map fun entry => (entry.1, NodeConnection.state entry.2) := by
    rw [hregistered]
    exact List.mem_singleton_self _
  obtain ⟨entry, hentry, heq⟩ := List.mem_map.1 hmem
  have husable' := husable _ (event_mem_trace (centralRun central) tick []) entry hentry
  have hconnected := husable'.connected
  have hstate : NodeConnection.state entry.2 = .disconnected := congrArg Prod.snd heq
  rw [hstate] at hconnected
  cases hconnected

end StellarConduit
