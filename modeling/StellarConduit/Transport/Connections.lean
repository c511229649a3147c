import StellarConduit.Lib.HashMap
import StellarConduit.Message.Types

/-!
# The connections of a node

The part of `TransportManager` (`transport/unified.rs`) that holds the connections, over any
type of connections, and the counter that mirrors their number.
-/

namespace StellarConduit

open Verif

/-- A `fetch_sub` on the counter. -/
structure Subtraction where
  /-- what `fetch_sub` finds, and returns -/
  found : UInt64
  /-- how many connections are left -/
  left : ℕ
  deriving DecidableEq

structure ConnectionTable (Conn : Type) where
  activeConnections : HashMap (Bytes 32) Conn
  /-- A 64-bit `AtomicUsize`, on which `fetch_sub` wraps. -/
  peerCount : UInt64
  /-- Every `fetch_sub` so far.  The code throws away what it returns. -/
  subtractions : List Subtraction

namespace ConnectionTable

variable {Conn : Type}

def new : ConnectionTable Conn where
  activeConnections := ∅
  peerCount := 0
  subtractions := []

/-- `active_connections.len()` -/
def len (t : ConnectionTable Conn) : ℕ := t.activeConnections.keys.length

/-- `disconnect_peer`: the answer says whether there was a connection. -/
def disconnectPeer (t : ConnectionTable Conn) (pubkey : Bytes 32) : Bool × ConnectionTable Conn :=
  match t.activeConnections.lookup pubkey with
  | some _ =>
    let activeConnections := t.activeConnections.erase pubkey
    (true,
      { activeConnections := activeConnections
        peerCount := t.peerCount - 1
        subtractions := t.subtractions ++ [⟨t.peerCount, activeConnections.keys.length⟩] })
  | none => (false, t)

/-- A new connection, which counts unless it replaces one. -/
def insert (t : ConnectionTable Conn) (pubkey : Bytes 32) (conn : Conn) : ConnectionTable Conn where
  activeConnections := t.activeConnections.insert pubkey conn
  peerCount :=
    if (t.activeConnections.lookup pubkey).isNone then t.peerCount + 1 else t.peerCount
  subtractions := t.subtractions

/-- `get_mut`, with the change that is made through the reference. -/
def set (t : ConnectionTable Conn) (pubkey : Bytes 32) (conn : Conn) : ConnectionTable Conn :=
  { t with activeConnections := t.activeConnections.insert pubkey conn }

/-- All connections are drained, and zero is stored. -/
def clear (t : ConnectionTable Conn) : ConnectionTable Conn :=
  { t with activeConnections := ∅, peerCount := 0 }

@[simp] theorem lookup_insert_self (t : ConnectionTable Conn) (pubkey : Bytes 32) (conn : Conn) :
    (t.insert pubkey conn).activeConnections.lookup pubkey = some conn :=
  AList.lookup_insert _

@[simp] theorem lookup_insert_ne (t : ConnectionTable Conn) {pubkey other : Bytes 32}
    (h : other ≠ pubkey) (conn : Conn) :
    (t.insert pubkey conn).activeConnections.lookup other = t.activeConnections.lookup other :=
  AList.lookup_insert_ne h

@[simp] theorem lookup_set_self (t : ConnectionTable Conn) (pubkey : Bytes 32) (conn : Conn) :
    (t.set pubkey conn).activeConnections.lookup pubkey = some conn :=
  AList.lookup_insert _

@[simp] theorem lookup_set_ne (t : ConnectionTable Conn) {pubkey other : Bytes 32}
    (h : other ≠ pubkey) (conn : Conn) :
    (t.set pubkey conn).activeConnections.lookup other = t.activeConnections.lookup other :=
  AList.lookup_insert_ne h

@[simp] theorem lookup_disconnectPeer_self (t : ConnectionTable Conn) (pubkey : Bytes 32) :
    (t.disconnectPeer pubkey).2.activeConnections.lookup pubkey = none := by
  unfold disconnectPeer
  cases h : t.activeConnections.lookup pubkey <;> simp [h]

@[simp] theorem lookup_disconnectPeer_ne (t : ConnectionTable Conn) {pubkey other : Bytes 32}
    (h : other ≠ pubkey) :
    (t.disconnectPeer pubkey).2.activeConnections.lookup other =
      t.activeConnections.lookup other := by
  unfold disconnectPeer
  cases t.activeConnections.lookup pubkey <;> simp [h]

end ConnectionTable

end StellarConduit
