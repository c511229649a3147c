import StellarConduit.Lib.Machine
import StellarConduit.Transport.Deferred
import StellarConduit.Transport.Moves

/-!
# All operations of a transport manager

`connect` and `shutdown` of `transport/unified.rs`, and with them all operations that concern the
connections.

* `Radio`: the calls on connections and those that open one, over BLE and over WiFi-Direct;
* `connect`, `shutdown`; `operate`: any operation.
-/

namespace StellarConduit

open Verif Verif.Machine

inductive TransportPreference
  | auto
  | bleOnly
  | wifiOnly
  deriving DecidableEq

/-- The two ways in which a connection is opened.  `Addr` is the type of socket addresses. -/
structure Radio (Conn World Addr : Type) extends Connection Conn World where
  /-- `WifiDirectConnection::connect_to` -/
  connectWifi : PeerIdentity → Addr → World → Except TransportError Conn × World
  ble_of_connectBle : ∀ peer world conn world', connectBle peer world = (.ok conn, world') →
    transportType conn = .ble
  wifiDirect_of_connectWifi : ∀ peer addr world conn world',
    connectWifi peer addr world = (.ok conn, world') → transportType conn = .wifiDirect

variable {Conn World Addr : Type}

/-- The connection that `connect` opens: over WiFi-Direct or BLE, or over BLE when WiFi-Direct is
refused or takes too long. -/
def Radio.dial (radio : Radio Conn World Addr) (preference : TransportPreference)
    (peer : PeerIdentity) (wifiAddr : Option Addr) (world : World) :
    Except TransportError Conn × World :=
  match preference with
  | .wifiOnly =>
    match wifiAddr with
    | none => (.error .notConnected, world)
    | some addr => radio.connectWifi peer addr world
  | .bleOnly => radio.connectBle peer world
  | .auto =>
    match wifiAddr with
    | some addr =>
      match radio.connectWifi peer addr world with
      | (.error .connectionRefused, world) => radio.connectBle peer world
      | (.error .timeout, world) => radio.connectBle peer world
      | result => result
    | none => radio.connectBle peer world

namespace TransportManager

/-- A connection that was opened takes the place of any other one to the peer. -/
def connect (radio : Radio Conn World Addr) (preference : TransportPreference)
    (m : TransportManager Conn) (peer : PeerIdentity) (wifiAddr : Option Addr) (world : World) :
    Ran Conn World Unit :=
  match radio.dial preference peer wifiAddr world with
  | (.error e, world) => ⟨.err e, m, world, []⟩
  | (.ok conn, world) => ⟨.ok (), m.registerInbound peer conn, world, []⟩

/-- The connections are closed, and nothing is left to send. -/
def shutdown (m : TransportManager Conn) : TransportManager Conn :=
  { m with connections := m.connections.clear, pendingMessages := [] }

end TransportManager

inductive Operation (Conn World Addr : Type)
  | sendToAt (peer : PeerIdentity) (msg : ProtocolMessage) (now : ℕ)
    (around : Surroundings Conn World)
  | recvAnyAt (now : ℕ) (around : Surroundings Conn World)
  | powerTickAt (now : ℕ) (around : Surroundings Conn World)
  | connect (peer : PeerIdentity) (wifiAddr : Option Addr) (world : World)
  | registerInbound (peer : PeerIdentity) (conn : Conn) (world : World)
  | disconnectPeer (pubkey : Bytes 32) (world : World)
  | notifyMacRotated (world : World)
  | shutdown (world : World)

/-- What an operation comes to, whatever it returns. -/
def operate (radio : Radio Conn World Addr) (preference : TransportPreference)
    (m : TransportManager Conn) : Operation Conn World Addr → Ran Conn World Unit
  | .sendToAt peer msg now around => m.sendToAt radio.toConnection peer msg now around
  | .recvAnyAt now around => (m.recvAnyAt radio.toConnection now around).map fun _ => ()
  | .powerTickAt now around => (m.powerTickAt radio.toConnection now around).map fun _ => ()
  | .connect peer wifiAddr world => m.connect radio preference peer wifiAddr world
  | .registerInbound peer conn world => ⟨.ok (), m.registerInbound peer conn, world, []⟩
  | .disconnectPeer pubkey world => ⟨.ok (), m.remove pubkey, world, []⟩
  | .notifyMacRotated world => ⟨.ok (), m.notifyMacRotated radio.toConnection, world, []⟩
  | .shutdown world => ⟨.ok (), m.shutdown, world, []⟩

/-- The operations as a machine. -/
def operations (radio : Radio Conn World Addr) (preference : TransportPreference)
    (m : TransportManager Conn) (op : Operation Conn World Addr) :
    Ran Conn World Unit × TransportManager Conn :=
  let r := operate radio preference m op
  (r, r.manager)

/-- Connections over BLE that accept everything, and those over WiFi-Direct that break if the world
says so. -/
def sampleRadio : Radio (PeerIdentity × TransportType) Bool Unit where
  remotePeer := Prod.fst
  transportType := Prod.snd
  send conn _ breaks :=
    (if conn.2 = .wifiDirect ∧ breaks then .err .brokenPipe else .ok (), conn, breaks)
  recv conn breaks :=
    (if conn.2 = .wifiDirect ∧ breaks then .err .brokenPipe else .pending, conn, breaks)
  connectBle peer breaks := (.ok (peer, .ble), breaks)
  connectWifi peer _ breaks := (.ok (peer, .wifiDirect), breaks)
  ble_of_connectBle := by
    rintro peer breaks conn breaks' heq
    cases heq
    rfl
  wifiDirect_of_connectWifi := by
    rintro peer addr breaks conn breaks' heq
    cases heq
    rfl

end StellarConduit
