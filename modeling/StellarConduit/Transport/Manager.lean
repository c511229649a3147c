import StellarConduit.Transport.Connection
import StellarConduit.Transport.Connections
import StellarConduit.Transport.Power

/-!
# The transport manager

`TransportManager` of `transport/unified.rs`: one connection for each peer, a power manager, and
the messages that wait until the interfaces are awake.

* `Ran`: what an operation comes to, with every call that it made on a connection; a call that is
  dropped while it waits ends the operation where it stands;
* `sendNow`, `powerTickAt`, `sendToAt`, `recvAnyAt`: the operations, over any type of connections;
* `Surroundings`: what an operation meets outside of the manager;
* `sendNow_cases`: what a message comes to.
-/

namespace StellarConduit

open Verif

structure PendingMessage where
  peer : PeerIdentity
  message : ProtocolMessage
  deriving DecidableEq

/-- The part of the `BleCentral` with which the node scans: when it changed its address. -/
structure BleScanner where
  lastRotation : ℕ
  rotationInterval : ℕ

/-- `rotate_mac_if_due`: the answer says whether the address was changed. -/
def BleScanner.rotateMacIfDue (s : BleScanner) (instant : ℕ) : Bool × BleScanner :=
  if instant - s.lastRotation ≥ s.rotationInterval then
    (true, { s with lastRotation := instant })
  else (false, s)

structure TransportManager (Conn : Type) where
  connections : ConnectionTable Conn
  powerManager : PowerManager
  pendingMessages : List PendingMessage
  bleCentralScanner : Option BleScanner

/-- A call on a connection, and what it came to. -/
inductive ConnectionCall (Conn : Type)
  | send (peer : PeerIdentity) (message : ProtocolMessage) (conn : Conn) (answer : Awaited Unit)
  | recv (pubkey : Bytes 32) (conn : Conn) (answer : Awaited ProtocolMessage)

/-- What an operation comes to. -/
structure Ran (Conn World α : Type) where
  answer : Awaited α
  manager : TransportManager Conn
  world : World
  calls : List (ConnectionCall Conn)

/-- What an operation finds outside of the manager. -/
structure Surroundings (Conn World : Type) where
  /-- The connections of centrals that have completed their handshake. -/
  bleIncoming : List (PeerIdentity × Conn)
  /-- The instant at which the rotation of the address is checked. -/
  instant : ℕ
  /-- The order in which the table is iterated. -/
  keyOrder : List (Bytes 32) → List (Bytes 32)
  keyOrder_perm : ∀ keys, (keyOrder keys).Perm keys
  world : World

/-- Nothing happens outside of the manager. -/
def Surroundings.quiet {Conn : Type} : Surroundings Conn Unit where
  bleIncoming := []
  instant := 0
  keyOrder := id
  keyOrder_perm _ := List.Perm.refl _
  world := ()

structure PowerTickOutcome where
  interfaceState : InterfacePowerState
  topologyFlags : List TopologyFlag
  flushedTransactions : ℕ

def ProtocolMessage.isTransaction : ProtocolMessage → Bool
  | .transaction _ => true
  | _ => false

variable {Conn World : Type}

namespace Ran

variable {α β : Type}

/-- Go on after a success. -/
def bind (r : Ran Conn World α) (f : α → TransportManager Conn → World → Ran Conn World β) :
    Ran Conn World β :=
  match r.answer with
  | .ok a =>
    let next := f a r.manager r.world
    { next with calls := r.calls ++ next.calls }
  | .err e => ⟨.err e, r.manager, r.world, r.calls⟩
  | .panic p => ⟨.panic p, r.manager, r.world, r.calls⟩
  | .pending => ⟨.pending, r.manager, r.world, r.calls⟩

def map (f : α → β) (r : Ran Conn World α) : Ran Conn World β :=
  { r with answer := r.answer.map f }

/-- Put a call in front. -/
def after (call : ConnectionCall Conn) (r : Ran Conn World α) : Ran Conn World α :=
  { r with calls := call :: r.calls }

end Ran

namespace TransportManager

def withPowerManager (powerManager : PowerManager) : TransportManager Conn where
  connections := .new
  powerManager := powerManager
  pendingMessages := []
  bleCentralScanner := none

/-- The connection to a peer. -/
def connection (m : TransportManager Conn) (pubkey : Bytes 32) : Option Conn :=
  m.connections.activeConnections.lookup pubkey

/-- `active_connections.remove`, and the count. -/
def remove (m : TransportManager Conn) (pubkey : Bytes 32) : TransportManager Conn :=
  { m with connections := (m.connections.disconnectPeer pubkey).2 }

def registerInbound (m : TransportManager Conn) (peer : PeerIdentity) (conn : Conn) :
    TransportManager Conn :=
  { m with connections := m.connections.insert peer.pubkey conn }

def setConnection (m : TransportManager Conn) (pubkey : Bytes 32) (conn : Conn) :
    TransportManager Conn :=
  { m with connections := m.connections.set pubkey conn }

def processBleIncoming (m : TransportManager Conn) (entries : List (PeerIdentity × Conn)) :
    TransportManager Conn :=
  entries.foldl (fun m entry => m.registerInbound entry.1 entry.2) m

section Operations

variable (api : Connection Conn World)

def notifyMacRotated (m : TransportManager Conn) : TransportManager Conn :=
  let blePeers := m.connections.activeConnections.entries.filter fun e =>
    decide (api.transportType e.2 = .ble)
  (blePeers.map Sigma.fst).foldl remove m

def bleFallback (m : TransportManager Conn) (peer : PeerIdentity) (world : World) :
    Ran Conn World Unit :=
  match api.connectBle peer world with
  | (.error e, world) => ⟨.err e, m, world, []⟩
  | (.ok conn, world) => ⟨.ok (), m.registerInbound peer conn, world, []⟩

/-- `send` on the connection to the peer. -/
def sendOn (m : TransportManager Conn) (peer : PeerIdentity) (msg : ProtocolMessage) (conn : Conn)
    (world : World) : Ran Conn World Unit :=
  let (answer, conn', world) := api.send conn msg world
  ⟨answer, m.setConnection peer.pubkey conn', world, [.send peer msg conn answer]⟩

def sendNow (m : TransportManager Conn) (peer : PeerIdentity) (msg : ProtocolMessage)
    (world : World) : Ran Conn World Unit :=
  match m.connection peer.pubkey with
  | none => ⟨.err .notConnected, m, world, []⟩
  | some conn =>
    let sent := m.sendOn api peer msg conn world
    if sent.answer = .err .brokenPipe then
      (bleFallback api (sent.manager.remove peer.pubkey) peer sent.world).bind
        (fun _ m world =>
          match m.connection peer.pubkey with
          | some conn => m.sendOn api peer msg conn world
          | none => ⟨.err .notConnected, m, world, []⟩)
        |>.after (.send peer msg conn (.err .brokenPipe))
    else sent

/-- The loop that sends the messages that waited.  Each is taken off the queue first. -/
def flush (m : TransportManager Conn) (world : World) : List PendingMessage → Ran Conn World ℕ
  | [] => ⟨.ok 0, { m with pendingMessages := [] }, world, []⟩
  | pending :: rest =>
    ({ m with pendingMessages := rest }.sendNow api pending.peer pending.message world).bind
      fun _ m world => (m.flush world rest).map (· + 1)

/-- A tick up to the point at which messages are flushed. -/
def tickPower (m : TransportManager Conn) (now : ℕ) (around : Surroundings Conn World) :
    PowerDecision × TransportManager Conn :=
  let m := m.processBleIncoming around.bleIncoming
  let (decision, powerManager) := m.powerManager.tick now
  let m := { m with powerManager := powerManager }
  match m.bleCentralScanner with
  | none => (decision, m)
  | some scanner =>
    match scanner.rotateMacIfDue around.instant with
    | (false, _) => (decision, m)
    | (true, scanner) =>
      ({ decision with topologyFlags := decision.topologyFlags ++ [.macRotated] },
        notifyMacRotated api { m with bleCentralScanner := some scanner })

def powerTickAt (m : TransportManager Conn) (now : ℕ) (around : Surroundings Conn World) :
    Ran Conn World PowerTickOutcome :=
  let (decision, m) := m.tickPower api now around
  let flushed : Ran Conn World ℕ :=
    if decision.wakeNetwork then m.flush api around.world m.pendingMessages
    else ⟨.ok 0, m, around.world, []⟩
  flushed.map fun flushedTransactions =>
    ⟨decision.interfaceState, decision.topologyFlags, flushedTransactions⟩

def sendToAt (m : TransportManager Conn) (peer : PeerIdentity) (msg : ProtocolMessage) (now : ℕ)
    (around : Surroundings Conn World) : Ran Conn World Unit :=
  (m.powerTickAt api now around).bind fun _ m world =>
    let recorded :=
      { m with powerManager := (m.powerManager.recordOutboundTransaction now).2 }
    if msg.isTransaction ∧ m.powerManager.mode = .synchronizedLowPower ∧
        (m.powerManager.interfaceState now).bleEnabled = false then
      ⟨.ok (),
        { recorded with pendingMessages := recorded.pendingMessages ++ [⟨peer, msg⟩] }, world, []⟩
    else recorded.sendNow api peer msg world

/-- The loop of `recv_any_at` over the peers. -/
def pollKeys (now : ℕ) (m : TransportManager Conn) (world : World) :
    List (Bytes 32) → Ran Conn World (Option (PeerIdentity × ProtocolMessage))
  | [] => ⟨.ok none, m, world, []⟩
  | pubkey :: keys =>
    match m.connection pubkey with
    | none => pollKeys now m world keys
    | some conn =>
      let peer := api.remotePeer conn
      let (answer, conn', world) := api.recv conn world
      let m := m.setConnection pubkey conn'
      let polled : Ran Conn World (Option (PeerIdentity × ProtocolMessage)) :=
        match answer with
        | .ok msg =>
          let m :=
            if msg.isTransaction then
              { m with powerManager := (m.powerManager.recordIncomingTransaction now).2 }
            else m
          ⟨.ok (some (peer, msg)), m, world, []⟩
        | .panic p => ⟨.panic p, m, world, []⟩
        | .err .brokenPipe =>
          let fallback := bleFallback api (m.remove pubkey) peer world
          pollKeys now fallback.manager fallback.world keys
        | _ => pollKeys now m world keys
      polled.after (.recv pubkey conn answer)

def recvAnyAt (m : TransportManager Conn) (now : ℕ) (around : Surroundings Conn World) :
    Ran Conn World (Option (PeerIdentity × ProtocolMessage)) :=
  let tick := m.powerTickAt api now around
  match tick.answer with
  | .err _ => ⟨.ok none, tick.manager, tick.world, tick.calls⟩
  | _ =>
    tick.bind fun outcome m world =>
      if outcome.interfaceState.bleEnabled = false ∧
          outcome.interfaceState.wifiEnabled = false then
        ⟨.ok none, m, world, []⟩
      else
        pollKeys api now m world (around.keyOrder m.connections.activeConnections.keys)

end Operations

/-! ### What registrations and rotations keep of the connections -/

section Table

variable {P : ConnectionTable Conn → Prop} {m : TransportManager Conn}

theorem processBleIncoming_induction {entries : List (PeerIdentity × Conn)}
    (hinsert : ∀ entry ∈ entries, ∀ t, P t → P (t.insert entry.1.pubkey entry.2))
    (hm : P m.connections) : P (m.processBleIncoming entries).connections := by
  unfold processBleIncoming
  induction entries generalizing m with
  | nil => exact hm
  | cons entry entries ih =>
    rw [List.forall_mem_cons] at hinsert
    exact ih (m := m.registerInbound entry.1 entry.2) hinsert.2 (hinsert.1 _ hm)

variable (hremove : ∀ t pubkey, P t → P (t.disconnectPeer pubkey).2) (api : Connection Conn World)

include hremove

theorem notifyMacRotated_induction (hm : P m.connections) :
    P (m.notifyMacRotated api).connections := by
  unfold notifyMacRotated
  dsimp only
  generalize List.map Sigma.fst _ = pubkeys
  induction pubkeys generalizing m with
  | nil => exact hm
  | cons pubkey pubkeys ih => exact ih (m := m.remove pubkey) (hremove _ pubkey hm)

/-- A tick changes the table, after it has registered connections, only by giving some up. -/
theorem tickPower_induction (now : ℕ) (around : Surroundings Conn World)
    (hm : P (m.processBleIncoming around.bleIncoming).connections) :
    P (m.tickPower api now around).2.connections := by
  unfold tickPower
  dsimp only
  split
  next => exact hm
  next =>
    split
    next => exact hm
    next => exact notifyMacRotated_induction hremove api hm

end Table

/-! ### What a message comes to -/

/-- There is no connection for the message; or there is one, and it does not break, or it cannot be
replaced, or it is replaced by one that is asked in its place. -/
theorem sendNow_cases {P : Ran Conn World Unit → Prop} (api : Connection Conn World)
    (m : TransportManager Conn) (peer : PeerIdentity) (msg : ProtocolMessage) (world : World)
    (hnone : m.connection peer.pubkey = none → P ⟨.err .notConnected, m, world, []⟩)
    (hkept : ∀ conn, m.connection peer.pubkey = some conn →
      (api.send conn msg world).1 ≠ .err .brokenPipe → P (m.sendOn api peer msg conn world))
    (hfailed : ∀ conn e world', m.connection peer.pubkey = some conn →
      (api.send conn msg world).1 = .err .brokenPipe →
      api.connectBle peer (api.send conn msg world).2.2 = (.error e, world') →
      P ⟨.err e, (m.sendOn api peer msg conn world).manager.remove peer.pubkey, world',
        [.send peer msg conn (.err .brokenPipe)]⟩)
    (hreplaced : ∀ conn conn' world', m.connection peer.pubkey = some conn →
      (api.send conn msg world).1 = .err .brokenPipe →
      api.connectBle peer (api.send conn msg world).2.2 = (.ok conn', world') →
      P (Ran.after (.send peer msg conn (.err .brokenPipe))
        ((((m.sendOn api peer msg conn world).manager.remove peer.pubkey).registerInbound peer
          conn').sendOn api peer msg conn' world'))) :
    P (m.sendNow api peer msg world) := by
  unfold sendNow
  cases hconn : m.connection peer.pubkey with
  | none => exact hnone hconn
  | some conn =>
    dsimp only
    split_ifs with hbroken
    · have hfailed := hfailed conn
      have hreplaced := hreplaced conn
      change ∀ e world', _ → _ → api.connectBle peer (m.sendOn api peer msg conn world).world =
        (.error e, world') → _ at hfailed
      change ∀ conn' world', _ → _ → api.connectBle peer (m.sendOn api peer msg conn world).world =
        (.ok conn', world') → _ at hreplaced
      -- The broken connection is removed before another one is dialed.
      generalize (m.sendOn api peer msg conn world).manager.remove peer.pubkey = removed at *
      unfold bleFallback
      rcases hdialed : api.connectBle peer (m.sendOn api peer msg conn world).world with
        ⟨result, world'⟩
      cases result with
      | error e => exact hfailed e world' hconn hbroken hdialed
      | ok conn' =>
        have hregistered : (removed.registerInbound peer conn').connection peer.pubkey =
            some conn' := ConnectionTable.lookup_insert_self _ _ _
        have hsent := hreplaced conn' world' hconn hbroken hdialed
        dsimp only [Ran.bind]
        rw [hregistered]
        exact hsent
    · exact hkept conn hconn hbroken

/-- A poll sends nothing. -/
theorem exists_recv_of_mem_pollKeys {api : Connection Conn World} {m : TransportManager Conn}
    {now : ℕ} {world : World} {keys : List (Bytes 32)} {call : ConnectionCall Conn}
    (h : call ∈ (m.pollKeys api now world keys).calls) :
    ∃ pubkey conn answer, call = .recv pubkey conn answer := by
  induction keys generalizing m world with
  | nil => cases h
  | cons pubkey keys ih =>
    unfold pollKeys at h
    split at h
    next => exact ih h
    next conn _ =>
      rcases List.mem_cons.1 h with rfl | h
      · exact ⟨_, _, _, rfl⟩
      · split at h
        next => cases h
        next => cases h
        next => exact ih h
        next => exact ih h

end TransportManager

end StellarConduit
