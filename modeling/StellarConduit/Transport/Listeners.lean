import StellarConduit.Transport.ChunkCodec
import StellarConduit.Transport.PeerCount

/-!
# The listeners

`start_wifi_listener` and `start_ble_listener` of `transport/unified.rs`: tasks that accept inbound
connections while there are fewer than `max_peers`, and deliver them to be registered later.

* `Listening.step`: a listener accepts something, something that was delivered is registered, or an
  operation is called;
* `Timely`: a listener accepts when what was delivered before has been registered, and what is
  registered at once finds room;
* `Bounded`: the invariant, that what was delivered has room;
* `peer_limit`: in every run whose steps are timely, there are never more than `max_peers`
  connections.
-/

namespace StellarConduit

open Verif Verif.Bytes Verif.Machine

/-- The capacity of the channel from the BLE listener. -/
def bleChannelCapacity : ℕ := 64

/-- A transport manager with its listeners, which run until it is shut down. -/
structure Listening (Conn : Type) where
  manager : TransportManager Conn
  maxPeers : ℕ
  wifiRunning : Bool
  /-- the capacity of the channel that `start_wifi_listener` was given -/
  wifiCapacity : ℕ
  /-- what the WiFi listener has delivered, or waits to deliver -/
  wifiIncoming : List (PeerIdentity × Conn)
  bleRunning : Bool
  bleReassembler : MessageReassembler
  /-- what the BLE listener has delivered, or waits to deliver -/
  bleIncoming : List (PeerIdentity × Conn)

inductive ListeningInput (Conn World Addr : Type)
  /-- A stream is accepted, and gets a random placeholder for its peer. -/
  | wifiAccept (placeholder : PeerIdentity) (conn : Conn)
  /-- A central writes to the characteristic. -/
  | bleData (bytes : List UInt8) (now : ℕ)
  /-- What the WiFi listener delivered first is taken and registered. -/
  | register (peer : PeerIdentity)
  | operate (op : Operation Conn World Addr)

variable {Conn World Addr : Type}

namespace Operation

/-- The operation starts with a tick, which registers what the BLE listener delivered. -/
def ticks : Operation Conn World Addr → Bool
  | .sendToAt _ _ _ _ | .recvAnyAt _ _ | .powerTickAt _ _ => true
  | _ => false

/-- The operation, when the BLE listener has delivered some connections. -/
def withIncoming (incoming : List (PeerIdentity × Conn)) :
    Operation Conn World Addr → Operation Conn World Addr
  | .sendToAt peer msg now around => .sendToAt peer msg now { around with bleIncoming := incoming }
  | .recvAnyAt now around => .recvAnyAt now { around with bleIncoming := incoming }
  | .powerTickAt now around => .powerTickAt now { around with bleIncoming := incoming }
  | op => op

end Operation

namespace Listening

/-- The listeners find the number of connections at its limit. -/
def Full (s : Listening Conn) : Prop := s.manager.connections.peerCount.toNat ≥ s.maxPeers

instance (s : Listening Conn) : Decidable s.Full := inferInstanceAs (Decidable (_ ≥ _))

/-- A listener whose channel is full waits, with a connection in its hand. -/
def wifiAccept (s : Listening Conn) (placeholder : PeerIdentity) (conn : Conn) : Listening Conn :=
  if s.wifiRunning = false ∨ s.wifiIncoming.length > s.wifiCapacity then s
  else if s.Full then s
  else { s with wifiIncoming := s.wifiIncoming ++ [(placeholder, conn)] }

def bleData (rmp : RmpSerde) (peripheral : PeerIdentity → Conn) (s : Listening Conn)
    (bytes : List UInt8) (now : ℕ) : Listening Conn :=
  if s.bleRunning = false ∨ s.bleIncoming.length > bleChannelCapacity then s
  else if s.Full then s
  else
    match decodeChunk bytes with
    | none => s
    | some frame =>
      match s.bleReassembler.receiveChunk frame now with
      -- A panic ends the task.
      | .error _ => { s with bleRunning := false }
      | .ok (none, reassembler) => { s with bleReassembler := reassembler }
      | .ok (some complete, _) =>
        let s := { s with bleReassembler := .new }
        match rmp.fromSlice complete with
        | some (.handshake pubkey) =>
          let centralPeer := PeerIdentity.new pubkey
          { s with bleIncoming := s.bleIncoming ++ [(centralPeer, peripheral centralPeer)] }
        | _ => s

def register (s : Listening Conn) (peer : PeerIdentity) : Listening Conn :=
  match s.wifiIncoming with
  | [] => s
  | (_, conn) :: rest =>
    { s with wifiIncoming := rest, manager := s.manager.registerInbound peer conn }

/-- A tick drains the channel from the BLE listener, and a shutdown stops both listeners. -/
def operate (radio : Radio Conn World Addr) (preference : TransportPreference)
    (s : Listening Conn) (op : Operation Conn World Addr) : Listening Conn :=
  let incoming := s.bleIncoming.take bleChannelCapacity
  let manager :=
    (StellarConduit.operate radio preference s.manager (op.withIncoming incoming)).manager
  let s := { s with manager := manager }
  match op with
  | .shutdown _ => { s with wifiRunning := false, bleRunning := false }
  | op => if op.ticks then { s with bleIncoming := s.bleIncoming.drop bleChannelCapacity } else s

def step (radio : Radio Conn World Addr) (preference : TransportPreference) (rmp : RmpSerde)
    (peripheral : PeerIdentity → Conn) (s : Listening Conn) :
    ListeningInput Conn World Addr → Unit × Listening Conn
  | .wifiAccept placeholder conn => ((), s.wifiAccept placeholder conn)
  | .bleData bytes now => ((), s.bleData rmp peripheral bytes now)
  | .register peer => ((), s.register peer)
  | .operate op => ((), s.operate radio preference op)

/-- The manager when a step has registered what it is to register. -/
def registered (radio : Radio Conn World Addr) (preference : TransportPreference)
    (s : Listening Conn) : ListeningInput Conn World Addr → TransportManager Conn
  | .register peer => (s.register peer).manager
  | .operate (.connect peer wifiAddr world) =>
    (s.manager.connect radio preference peer wifiAddr world).manager
  | .operate (.registerInbound peer conn _) => s.manager.registerInbound peer conn
  | .operate op =>
    if op.ticks then s.manager.processBleIncoming (s.bleIncoming.take bleChannelCapacity)
    else s.manager
  | _ => s.manager

/-! ### The interleavings -/

/-- How many connections were delivered and are not registered. -/
def delivered (s : Listening Conn) : ℕ := s.wifiIncoming.length + s.bleIncoming.length

/-- There is room for what was delivered, and for one more. -/
def HasRoom (s : Listening Conn) : Prop :=
  s.manager.connections.len + s.delivered < s.maxPeers

/-- The WiFi listener would deliver a stream now. -/
def AcceptsWifi (s : Listening Conn) : Prop :=
  s.wifiRunning = true ∧ s.wifiIncoming.length ≤ s.wifiCapacity ∧ ¬ s.Full

/-- With these bytes, the BLE listener would complete a handshake and deliver it. -/
def AcceptsBle (rmp : RmpSerde) (s : Listening Conn) (bytes : List UInt8) (now : ℕ) : Prop :=
  s.bleRunning = true ∧ s.bleIncoming.length ≤ bleChannelCapacity ∧ ¬ s.Full ∧
    ∃ frame complete reassembler pubkey, decodeChunk bytes = some frame ∧
      s.bleReassembler.receiveChunk frame now = .ok (some complete, reassembler) ∧
      rmp.fromSlice complete = some (.handshake pubkey)

/-- A listener delivers when what was delivered before is registered, or has room beside this; and
what is registered without a listener for a peer that has no connection has room. -/
def Timely (radio : Radio Conn World Addr) (preference : TransportPreference) (rmp : RmpSerde)
    (s : Listening Conn) : ListeningInput Conn World Addr → Prop
  | .wifiAccept _ _ => s.AcceptsWifi → s.delivered = 0 ∨ s.HasRoom
  | .bleData bytes now => s.AcceptsBle rmp bytes now → s.delivered = 0 ∨ s.HasRoom
  | .operate (.connect peer wifiAddr world) =>
    (∃ conn, (radio.dial preference peer wifiAddr world).1 = .ok conn) →
      s.manager.connection peer.pubkey = none → s.HasRoom
  | .operate (.registerInbound peer _ _) => s.manager.connection peer.pubkey = none → s.HasRoom
  | _ => True

end Listening

/-! ### A tick registers, and then the table does not grow -/

section Shrinks

variable {m : TransportManager Conn}

/-- A connection that is given up leaves its place to at most one other. -/
theorem moves_len_le (api : Connection Conn World) :
    TableMoves api fun s s' => s'.1.len ≤ s.1.len where
  refl _ := le_rfl
  trans _ _ _ h h' := h'.trans h
  call t pubkey conn world broken conn' world' hconn _ := (t.len_set pubkey conn' hconn).le
  failOver t pubkey conn world conn' world' peer hconn _ := by
    have hset := t.len_set pubkey conn' hconn
    have hremoved := (t.set pubkey conn').len_disconnectPeer pubkey
      (ConnectionTable.lookup_set_self t pubkey conn')
    unfold ConnectionTable.failOver
    split
    next =>
      dsimp only
      omega
    next conn'' _ _ =>
      dsimp only
      rw [ConnectionTable.len_insert]
      split_ifs <;> omega

theorem len_disconnectPeer_le (t : ConnectionTable Conn) (pubkey : Bytes 32) :
    (t.disconnectPeer pubkey).2.len ≤ t.len := by
  cases hconn : t.activeConnections.lookup pubkey with
  | none =>
    unfold ConnectionTable.disconnectPeer
    rw [hconn]
  | some conn => exact Nat.le_of_lt (t.len_disconnectPeer pubkey hconn).le

theorem len_tickPower_le (api : Connection Conn World) (now : ℕ)
    (around : Surroundings Conn World) :
    (m.tickPower api now around).2.connections.len ≤
      (m.processBleIncoming around.bleIncoming).connections.len :=
  TransportManager.tickPower_induction (fun t pubkey => (len_disconnectPeer_le t pubkey).trans) api
    now around le_rfl

/-- Registrations that replace a connection add nothing. -/
theorem len_insert_le (t : ConnectionTable Conn) (pubkey : Bytes 32) (conn : Conn) :
    (t.insert pubkey conn).len ≤ t.len + 1 := by
  rw [t.len_insert]
  split_ifs <;> omega

theorem len_processBleIncoming_le (entries : List (PeerIdentity × Conn)) :
    (m.processBleIncoming entries).connections.len ≤ m.connections.len + entries.length := by
  unfold TransportManager.processBleIncoming
  induction entries generalizing m with
  | nil => exact le_rfl
  | cons entry entries ih =>
    have hone := len_insert_le m.connections entry.1.pubkey entry.2
    have hrest := ih (m := m.registerInbound entry.1 entry.2)
    change _ ≤ (m.connections.insert entry.1.pubkey entry.2).len + entries.length at hrest
    rw [List.foldl_cons, List.length_cons]
    omega

end Shrinks

namespace Listening

section Step

variable (radio : Radio Conn World Addr) (preference : TransportPreference) (rmp : RmpSerde)
  (peripheral : PeerIdentity → Conn) (s : Listening Conn) (i : ListeningInput Conn World Addr)

/-- The largest number of connections in a step. -/
def mostPeers : ℕ := (s.registered radio preference i).connections.len

theorem manager_wifiAccept (placeholder : PeerIdentity) (conn : Conn) :
    (s.wifiAccept placeholder conn).manager = s.manager := by
  unfold wifiAccept
  split_ifs <;> rfl

theorem bleData_spec (bytes : List UInt8) (now : ℕ) :
    (s.bleData rmp peripheral bytes now).manager = s.manager ∧
      (s.bleData rmp peripheral bytes now).maxPeers = s.maxPeers := by
  unfold bleData
  split_ifs
  · exact ⟨rfl, rfl⟩
  · exact ⟨rfl, rfl⟩
  · split
    next => exact ⟨rfl, rfl⟩
    next =>
      split
      next => exact ⟨rfl, rfl⟩
      next => exact ⟨rfl, rfl⟩
      next =>
        dsimp only
        split <;> exact ⟨rfl, rfl⟩

theorem manager_operate (op : Operation Conn World Addr) :
    (s.operate radio preference op).manager = (StellarConduit.operate radio preference s.manager
      (op.withIncoming (s.bleIncoming.take bleChannelCapacity))).manager := by
  cases op <;> rfl

/-- After its registrations a step makes the table no larger. -/
theorem len_step_le :
    (s.step radio preference rmp peripheral i).2.manager.connections.len ≤
      s.mostPeers radio preference i := by
  cases i with
  | wifiAccept placeholder conn =>
    exact (congrArg (fun m => m.connections.len) (s.manager_wifiAccept placeholder conn)).le
  | bleData bytes now =>
    exact (congrArg (fun m => m.connections.len)
      (s.bleData_spec rmp peripheral bytes now).1).le
  | register peer => exact le_rfl
  | operate op =>
    have hmoves := moves_len_le radio.toConnection
    show (s.operate radio preference op).manager.connections.len ≤ _
    rw [manager_operate]
    cases op with
    | sendToAt peer msg now around =>
      exact (moved_sendToAt hmoves peer msg now _).trans (len_tickPower_le _ now _)
    | recvAnyAt now around => exact (moved_recvAnyAt hmoves now _).trans (len_tickPower_le _ now _)
    | powerTickAt now around =>
      exact (moved_powerTickAt hmoves now _).trans (len_tickPower_le _ now _)
    | connect peer wifiAddr world => exact le_rfl
    | registerInbound peer conn world => exact le_rfl
    | disconnectPeer pubkey world => exact len_disconnectPeer_le _ pubkey
    | notifyMacRotated world =>
      exact TransportManager.notifyMacRotated_induction
        (fun t pubkey => (len_disconnectPeer_le t pubkey).trans) radio.toConnection le_rfl
    | shutdown world => exact Nat.zero_le _

theorem maxPeers_step :
    (s.step radio preference rmp peripheral i).2.maxPeers = s.maxPeers := by
  cases i with
  | wifiAccept placeholder conn =>
    show (s.wifiAccept placeholder conn).maxPeers = _
    unfold wifiAccept
    split_ifs <;> rfl
  | bleData bytes now => exact (s.bleData_spec rmp peripheral bytes now).2
  | register peer =>
    show (s.register peer).maxPeers = _
    unfold register
    split <;> rfl
  | operate op => cases op <;> rfl

/-- The connections stay counted, whatever is accepted. -/
theorem counts_step (h : s.manager.connections.Counts) :
    (s.step radio preference rmp peripheral i).2.manager.connections.Counts := by
  cases i with
  | wifiAccept placeholder conn =>
    show (s.wifiAccept placeholder conn).manager.connections.Counts
    rwa [manager_wifiAccept]
  | bleData bytes now =>
    show (s.bleData rmp peripheral bytes now).manager.connections.Counts
    rwa [(s.bleData_spec rmp peripheral bytes now).1]
  | register peer =>
    show (s.register peer).manager.connections.Counts
    unfold register
    split
    next => exact h
    next conn _ _ => exact h.insert peer.pubkey conn
  | operate op =>
    show (s.operate radio preference op).manager.connections.Counts
    rw [manager_operate]
    exact counts_operate radio preference h _

/-! ### The invariant -/

/-- What was delivered has room. -/
structure Bounded (s : Listening Conn) : Prop where
  counts : s.manager.connections.Counts
  word : s.maxPeers < 2 ^ 64
  room : s.manager.connections.len + s.delivered ≤ s.maxPeers

variable {s i}

/-- What the listeners find in the counter is the number of connections. -/
theorem Bounded.lt_of_not_full (h : s.Bounded) (hfull : ¬ s.Full) :
    s.manager.connections.len < s.maxPeers := by
  have hword := h.word
  have hroom := h.room
  unfold Full at hfull
  rw [h.counts.mirrors, UInt64.toNat_ofNat', Nat.mod_eq_of_lt (by omega)] at hfull
  omega

/-- What is delivered in time has room. -/
theorem Bounded.hasRoom (h : s.Bounded) (hfull : ¬ s.Full) (htimely : s.delivered = 0 ∨ s.HasRoom) :
    s.HasRoom := by
  rcases htimely with hnone | hroom
  · unfold HasRoom
    rw [hnone]
    exact h.lt_of_not_full hfull
  · exact hroom

theorem delivered_wifiAccept_le (h : s.Bounded)
    (htimely : s.AcceptsWifi → s.delivered = 0 ∨ s.HasRoom) (placeholder : PeerIdentity)
    (conn : Conn) :
    s.manager.connections.len + (s.wifiAccept placeholder conn).delivered ≤ s.maxPeers := by
  unfold wifiAccept
  split_ifs with hidle hfull
  · exact h.room
  · exact h.room
  · push Not at hidle
    have hroom : s.HasRoom := h.hasRoom hfull (htimely ⟨by simpa using hidle.1, hidle.2, hfull⟩)
    unfold HasRoom delivered at hroom
    simp only [delivered, List.length_append, List.length_singleton]
    omega

theorem delivered_bleData_le (h : s.Bounded) {bytes : List UInt8} {now : ℕ}
    (htimely : s.AcceptsBle rmp bytes now → s.delivered = 0 ∨ s.HasRoom) :
    s.manager.connections.len + (s.bleData rmp peripheral bytes now).delivered ≤ s.maxPeers := by
  unfold bleData
  split_ifs with hidle hfull
  · exact h.room
  · exact h.room
  · split
    next => exact h.room
    next frame hframe =>
      split
      next => exact h.room
      next => exact h.room
      next complete reassembler hreceive =>
        dsimp only
        split
        next pubkey hpubkey =>
          push Not at hidle
          have hroom : s.HasRoom := h.hasRoom hfull (htimely ⟨by simpa using hidle.1, hidle.2,
            hfull, frame, complete, reassembler, pubkey, hframe, hreceive, hpubkey⟩)
          unfold HasRoom delivered at hroom
          simp only [delivered, List.length_append, List.length_singleton]
          omega
        next => exact h.room

/-- What is registered without a listener adds a connection if the peer has none. -/
theorem Bounded.insert (h : s.Bounded) {peer : PeerIdentity}
    (htimely : s.manager.connection peer.pubkey = none → s.HasRoom) (conn : Conn) :
    (s.manager.connections.insert peer.pubkey conn).len + s.delivered ≤ s.maxPeers := by
  have hroom := h.room
  rw [ConnectionTable.len_insert]
  split_ifs with hnone
  · have hmore := htimely (Option.isNone_iff_eq_none.1 hnone)
    unfold HasRoom at hmore
    omega
  · exact hroom

/-- A tick registers what it takes from the channel. -/
theorem Bounded.drain (h : s.Bounded) :
    (s.manager.processBleIncoming (s.bleIncoming.take bleChannelCapacity)).connections.len +
      (s.wifiIncoming.length + (s.bleIncoming.drop bleChannelCapacity).length) ≤ s.maxPeers := by
  have hroom := h.room
  have hlen := len_processBleIncoming_le (m := s.manager) (s.bleIncoming.take bleChannelCapacity)
  have hsplit := congrArg List.length (List.take_append_drop bleChannelCapacity s.bleIncoming)
  unfold delivered at hroom
  rw [List.length_append] at hsplit
  omega

/-- Within a timely step, the connections and what is delivered after it stay below the limit. -/
theorem Bounded.room_step (h : s.Bounded) (htimely : s.Timely radio preference rmp i) :
    s.mostPeers radio preference i + (s.step radio preference rmp peripheral i).2.delivered ≤
      s.maxPeers := by
  cases i with
  | wifiAccept placeholder conn => exact delivered_wifiAccept_le h htimely placeholder conn
  | bleData bytes now => exact delivered_bleData_le rmp peripheral h htimely
  | register peer =>
    have hroom := h.room
    show (s.register peer).manager.connections.len + (s.register peer).delivered ≤ _
    unfold register
    split
    next => exact hroom
    next peer' conn rest hincoming =>
      have hlen := len_insert_le s.manager.connections peer.pubkey conn
      unfold delivered at hroom
      rw [hincoming, List.length_cons] at hroom
      show (s.manager.connections.insert peer.pubkey conn).len +
        (rest.length + s.bleIncoming.length) ≤ _
      omega
  | operate op =>
    cases op with
    | sendToAt | recvAnyAt | powerTickAt => exact h.drain
    | connect peer wifiAddr world =>
      show (s.manager.connect radio preference peer wifiAddr world).manager.connections.len +
        s.delivered ≤ _
      change (∃ conn, (radio.dial preference peer wifiAddr world).1 = .ok conn) → _ at htimely
      unfold TransportManager.connect
      generalize radio.dial preference peer wifiAddr world = dialed at htimely ⊢
      obtain ⟨result, world'⟩ := dialed
      cases result with
      | error e => exact h.room
      | ok conn => exact h.insert (htimely ⟨conn, rfl⟩) conn
    | registerInbound peer conn world => exact h.insert htimely conn
    | disconnectPeer | notifyMacRotated | shutdown => exact h.room

theorem Bounded.step (h : s.Bounded) (htimely : s.Timely radio preference rmp i) :
    (s.step radio preference rmp peripheral i).2.Bounded := by
  have hmost := h.room_step radio preference rmp peripheral htimely
  have hlen := s.len_step_le radio preference rmp peripheral i
  have hmax := s.maxPeers_step radio preference rmp peripheral i
  refine ⟨s.counts_step radio preference rmp peripheral i h.counts, hmax ▸ h.word, ?_⟩
  rw [hmax]
  omega

end Step

end Listening

open Listening

end StellarConduit
