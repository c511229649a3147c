import StellarConduit.Peer.Peer
import StellarConduit.Transport.Reassembler

/-!
# Connections to peers

`transport/errors.rs` and the trait of `transport/connection.rs`.

* `Awaited`: what a call comes to that may have to wait for its peer;
* `Connection`: the calls that a node makes on its connections, and the one by which it opens a
  connection over BLE.
-/

namespace StellarConduit

inductive TransportError
  | notConnected
  | connectionRefused
  | timeout
  | brokenPipe
  | payloadTooLarge
  | encryptionError
  deriving DecidableEq

inductive ConnectionState
  | disconnected
  | connecting
  | connected
  | disconnecting
  | failed (error : TransportError)
  deriving DecidableEq

inductive TransportType
  | ble
  | wifiDirect
  deriving DecidableEq

/-- What a call that may have to wait for its peer comes to. -/
inductive Awaited (α : Type)
  | ok (a : α)
  | err (error : TransportError)
  | panic (panic : Panic)
  | pending
  deriving DecidableEq

namespace Awaited

variable {α β : Type}

def map (f : α → β) : Awaited α → Awaited β
  | .ok a => .ok (f a)
  | .err e => .err e
  | .panic p => .panic p
  | .pending => .pending

@[simp] theorem map_eq_ok_iff {f : α → β} {a : Awaited α} {b : β} :
    a.map f = .ok b ↔ ∃ x, a = .ok x ∧ f x = b := by
  cases a <;> simp [map]

@[simp] theorem map_eq_err_iff {f : α → β} {a : Awaited α} {e : TransportError} :
    a.map f = .err e ↔ a = .err e := by
  cases a <;> simp [map]

@[simp] theorem map_eq_pending_iff {f : α → β} {a : Awaited α} :
    a.map f = .pending ↔ a = .pending := by
  cases a <;> simp [map]

end Awaited

/-- The trait `Connection`, on connections of type `Conn`.  A value of type `World` decides what a
call comes to, with the connection: it stands for the peer, the radio, random numbers and clocks.
A call that comes to `Awaited.pending` is dropped while it waits. -/
structure Connection (Conn World : Type) where
  remotePeer : Conn → PeerIdentity
  transportType : Conn → TransportType
  send : Conn → ProtocolMessage → World → Awaited Unit × Conn × World
  recv : Conn → World → Awaited ProtocolMessage × Conn × World
  /-- `BleCentral::new` and its `connect` -/
  connectBle : PeerIdentity → World → Except TransportError Conn × World

end StellarConduit
