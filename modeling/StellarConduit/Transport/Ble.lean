import StellarConduit.Transport.Dropped
import StellarConduit.Transport.Operations

/-!
# Connections over BLE

`BlePeripheral` and `BleCentral` of `transport/ble_transport.rs`, the two ends of a connection over
BLE.  The chunks of a message that is sent are not handed to an adapter yet, so they are left out.

* `BleLink`: what the two ends have in common, with its `send` and `recv`;
* `BlePeripheral.startAdvertising`, `BleCentral.scanAndConnect`: how they come to be connected;
* `nodeRadio`: all connections that a node opens or is given, over BLE and over WiFi-Direct;
* `send_of_ready`: calls on connections that are `Ready` do not find them without a connection.
-/

namespace StellarConduit

open Verif

/-! ### The two ends -/

structure BleLink where
  state : ConnectionState
  remotePeer : PeerIdentity
  /-- `inbox_rx`: messages that were reassembled and are still to be received -/
  inbox : List (List UInt8)
  deriving DecidableEq

namespace BleLink

def new (remotePeer : PeerIdentity) : BleLink := ⟨.disconnected, remotePeer, []⟩

def send (rmp : RmpSerde) (link : BleLink) (msg : ProtocolMessage) : Awaited Unit :=
  if link.state ≠ .connected then .err .notConnected
  else
    match rmp.toVec msg with
    | none => .err .brokenPipe
    | some _ => .ok ()

/-- The link holds a sender of its own inbox, which is therefore never closed. -/
def recv (rmp : RmpSerde) (link : BleLink) : Awaited ProtocolMessage × BleLink :=
  if link.state ≠ .connected then (.err .notConnected, link)
  else
    match link.inbox with
    | [] => (.pending, link)
    | bytes :: inbox =>
      match rmp.fromSlice bytes with
      | none => (.err .brokenPipe, { link with inbox := inbox })
      | some msg => (.ok msg, { link with inbox := inbox })

end BleLink

structure BlePeripheral extends BleLink
  deriving DecidableEq

namespace BlePeripheral

def new (remotePeer : PeerIdentity) : BlePeripheral := ⟨.new remotePeer⟩

def startAdvertising (p : BlePeripheral) : Except TransportError Unit × BlePeripheral :=
  (.ok (), { p with state := .connected })

def send (rmp : RmpSerde) (p : BlePeripheral) (msg : ProtocolMessage) : Awaited Unit :=
  p.toBleLink.send rmp msg

def recv (rmp : RmpSerde) (p : BlePeripheral) : Awaited ProtocolMessage × BlePeripheral :=
  let (answer, link) := p.toBleLink.recv rmp
  (answer, ⟨link⟩)

end BlePeripheral

structure BleCentral extends BleLink where
  localPeer : PeerIdentity
  deriving DecidableEq

namespace BleCentral

def new (remotePeer : PeerIdentity) : BleCentral :=
  ⟨.new remotePeer, PeerIdentity.new (List.Vector.replicate 32 0)⟩

/-- The first message is a handshake. -/
def scanAndConnect (rmp : RmpSerde) (c : BleCentral) : Except TransportError Unit × BleCentral :=
  let c := { c with state := .connected }
  match rmp.toVec (.handshake c.localPeer.pubkey) with
  | none => (.error .brokenPipe, c)
  | some _ => (.ok (), c)

def connect (rmp : RmpSerde) (c : BleCentral) : Except TransportError Unit × BleCentral :=
  c.scanAndConnect rmp

def send (rmp : RmpSerde) (c : BleCentral) (msg : ProtocolMessage) : Awaited Unit :=
  c.toBleLink.send rmp msg

def recv (rmp : RmpSerde) (c : BleCentral) : Awaited ProtocolMessage × BleCentral :=
  let (answer, link) := c.toBleLink.recv rmp
  (answer, { c with toBleLink := link })

end BleCentral

abbrev BleConnection := BlePeripheral ⊕ BleCentral

def BleConnection.link : BleConnection → BleLink
  | .inl p => p.toBleLink
  | .inr c => c.toBleLink

variable {World Addr : Type}

/-- Nothing outside decides what a call comes to. -/
def bleApi (rmp : RmpSerde) : Connection BleConnection World where
  remotePeer conn := conn.link.remotePeer
  transportType _ := .ble
  send
    | .inl p, msg, world => (p.send rmp msg, .inl p, world)
    | .inr c, msg, world => (c.send rmp msg, .inr c, world)
  recv
    | .inl p, world =>
      let (answer, p) := p.recv rmp
      (answer, .inl p, world)
    | .inr c, world =>
      let (answer, c) := c.recv rmp
      (answer, .inr c, world)
  connectBle peer world :=
    match (BleCentral.new peer).connect rmp with
    | (.error e, _) => (.error e, world)
    | (.ok (), c) => (.ok (.inr c), world)

/-! ### All connections of a node -/

abbrev NodeConnection := AnyConnection BleConnection

namespace NodeConnection

def state : NodeConnection → ConnectionState
  | .inl (_, c) => c.state
  | .inr b => b.link.state

/-- It is connected, with a stream if it needs one. -/
def Ready : NodeConnection → Prop
  | .inl (_, c) => c.state = .connected ∧ c.stream.isSome
  | .inr b => b.link.state = .connected

theorem Ready.state_eq {conn : NodeConnection} (h : Ready conn) : state conn = .connected := by
  match conn, h with
  | .inl _, h => exact h.1
  | .inr _, h => exact h

end NodeConnection

/-- What each `TcpStream::connect` to come finds at an address. -/
abbrev Dials (Addr : Type) := ℕ → Addr → Option TcpStream

def WifiDirectConnection.connectTo (addr : Addr) (dials : Dials Addr) :
    Except TransportError WifiDirectConnection × Dials Addr :=
  match dials 0 addr with
  | none => (.error .connectionRefused, fun k => dials (k + 1))
  | some stream => (.ok (.fromStream stream), fun k => dials (k + 1))

/-- What the calls of a node depend on. -/
abbrev NodeWorld (Addr : Type) := WifiWorld × Dials Addr

/-- What `connect` comes to: the connection is connected, unless its handshake cannot be written. -/
theorem connectBle_bleApi (rmp : RmpSerde) (peer : PeerIdentity) (world : World) :
    (bleApi rmp).connectBle peer world =
      (match rmp.toVec (.handshake (List.Vector.replicate 32 0)) with
        | none => .error .brokenPipe
        | some _ => .ok (.inr { BleCentral.new peer with state := .connected }), world) := by
  unfold bleApi BleCentral.connect BleCentral.scanAndConnect
  dsimp only [BleCentral.new, PeerIdentity.new]
  cases rmp.toVec (.handshake (List.Vector.replicate 32 0)) <;> rfl

def nodeRadio (Addr : Type) (rmp : RmpSerde) : Radio NodeConnection (NodeWorld Addr) Addr where
  toConnection := wifiApi rmp (bleApi rmp)
  connectWifi peer addr := fun (wifi, dials) =>
    match WifiDirectConnection.connectTo addr dials with
    | (.error e, dials) => (.error e, wifi, dials)
    | (.ok c, dials) => (.ok (.inl (peer, c)), wifi, dials)
  ble_of_connectBle := by
    rintro peer world conn world' hopened
    obtain ⟨b, rfl⟩ := connectBle_eq_inr hopened
    rfl
  wifiDirect_of_connectWifi := by
    rintro peer addr ⟨wifi, dials⟩ conn world' hopened
    dsimp only at hopened
    split at hopened <;> cases hopened
    rfl

/-! ### Connections that are ready -/

section Ready

open NodeConnection

variable (rmp : RmpSerde)

/-- What BLE is dialed for is ready, with the peer that it was dialed for. -/
theorem ready_of_connectBle (peer : PeerIdentity) (world : NodeWorld Addr) :
    match ((nodeRadio Addr rmp).connectBle peer world).1 with
    | .ok conn => Ready conn ∧ (nodeRadio Addr rmp).remotePeer conn = peer
    | .error e => e = .brokenPipe := by
  obtain ⟨wifi, dials⟩ := world
  unfold nodeRadio wifiApi
  dsimp only
  rw [connectBle_bleApi]
  cases rmp.toVec (.handshake (List.Vector.replicate 32 0)) with
  | none => rfl
  | some bytes => exact ⟨rfl, rfl⟩

theorem ready_of_connectWifi {peer : PeerIdentity} {addr : Addr} {world world' : NodeWorld Addr}
    {conn : NodeConnection}
    (hopened : (nodeRadio Addr rmp).connectWifi peer addr world = (.ok conn, world')) :
    Ready conn ∧ (nodeRadio Addr rmp).remotePeer conn = peer := by
  obtain ⟨wifi, dials⟩ := world
  unfold nodeRadio WifiDirectConnection.connectTo at hopened
  dsimp only at hopened
  cases hdial : dials 0 addr with
  | none =>
    rw [hdial] at hopened
    cases hopened
  | some stream =>
    rw [hdial] at hopened
    cases hopened
    exact ⟨⟨rfl, rfl⟩, rfl⟩

theorem send_link_ne {link : BleLink} (hlink : link.state = .connected) (msg : ProtocolMessage) :
    link.send rmp msg ≠ .err .notConnected := by
  unfold BleLink.send
  rw [if_neg (fun hne => hne hlink)]
  split <;> simp

theorem sendUntil_ne {c : WifiDirectConnection} (hstate : c.state = .connected)
    (hstream : c.stream.isSome) (messageId : UInt32) (msg : ProtocolMessage) (cut : Option Cut) :
    (c.sendUntil rmp messageId msg cut).1 ≠ .err .notConnected ∧
      (c.sendUntil rmp messageId msg cut).2.1.state = .connected ∧
      (c.sendUntil rmp messageId msg cut).2.1.stream.isSome := by
  obtain ⟨stream, hstream⟩ := Option.isSome_iff_exists.1 hstream
  unfold WifiDirectConnection.sendUntil
  rw [if_neg (fun hne => hne hstate)]
  cases rmp.toVec msg with
  | none => exact ⟨by simp, hstate, by rw [hstream]; rfl⟩
  | some bytes =>
    rw [hstream]
    dsimp only
    have hsent := sentUntil_sendFramesUntil stream (c.chunker.chunk messageId bytes) cut
    refine ⟨?_, hstate, rfl⟩
    rcases hsent.outgoing with hbroken | ⟨hok, -⟩ | ⟨hpending, -⟩
    · simp [hbroken]
    · simp [hok]
    · simp [hpending]

/-- A `send` on a connection that is ready does not fail for want of a connection, and leaves it
ready. -/
theorem send_of_ready {conn : NodeConnection} (hready : Ready conn) (msg : ProtocolMessage)
    (world : NodeWorld Addr) :
    ((nodeRadio Addr rmp).send conn msg world).1 ≠ .err .notConnected ∧
      Ready ((nodeRadio Addr rmp).send conn msg world).2.1 := by
  obtain ⟨wifi, dials⟩ := world
  match conn, hready with
  | .inl (peer, c), hready =>
    exact sendUntil_ne rmp hready.1 hready.2 (wifi.messageIds 0) msg wifi.timeout
  | .inr (.inl p), hready => exact ⟨send_link_ne rmp hready msg, hready⟩
  | .inr (.inr c), hready => exact ⟨send_link_ne rmp hready msg, hready⟩

end Ready

end StellarConduit
