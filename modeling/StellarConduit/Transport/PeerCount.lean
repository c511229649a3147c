import StellarConduit.Transport.Operations

/-!
# The count of the connections

`peer_count` of `transport/unified.rs`, which the operations of a transport manager adjust by hand
wherever they put a connection into the table or take one out of it.

* `ConnectionTable.Mirrors`: the counter is the number of connections;
* `ConnectionTable.Counts`: and so it was whenever something was subtracted from it;
* `peer_count_mirrors`: so it is in every run from a new manager, after every operation.
-/

namespace StellarConduit

open Verif Verif.Machine

variable {Conn World Addr : Type}

/-- The counter counted the connections that are left, and the one that was removed. -/
def Subtraction.Counted (s : Subtraction) : Prop := s.found = UInt64.ofNat (s.left + 1)

/-- A counter that counted the connection is not zero, if the number of connections is a word. -/
theorem Subtraction.Counted.found_ne_zero {s : Subtraction} (h : s.Counted)
    (hleft : s.left + 1 < 2 ^ 64) : s.found ≠ 0 := by
  intro hzero
  have hnat := congrArg UInt64.toNat (h.symm.trans hzero)
  rw [UInt64.toNat_ofNat', Nat.mod_eq_of_lt hleft] at hnat
  exact Nat.succ_ne_zero _ hnat

namespace ConnectionTable

/-- The counter is the number of connections, as a word. -/
def Mirrors (t : ConnectionTable Conn) : Prop := t.peerCount = UInt64.ofNat t.len

section Len

variable (t : ConnectionTable Conn) (pubkey : Bytes 32) (conn : Conn)

theorem mem_keys_iff : pubkey ∈ t.activeConnections.keys ↔
    ∃ conn, t.activeConnections.lookup pubkey = some conn := by
  rw [← AList.mem_keys, ← AList.lookup_isSome, Option.isSome_iff_exists]

theorem not_mem_keys_iff : pubkey ∉ t.activeConnections.keys ↔
    t.activeConnections.lookup pubkey = none := by
  rw [← AList.mem_keys, AList.lookup_eq_none]

theorem len_insert :
    (t.insert pubkey conn).len =
      if (t.activeConnections.lookup pubkey).isNone then t.len + 1 else t.len := by
  show (t.activeConnections.insert pubkey conn).keys.length = _
  rw [AList.keys_insert, List.length_cons]
  cases hlookup : t.activeConnections.lookup pubkey with
  | none =>
    rw [List.erase_of_not_mem ((t.not_mem_keys_iff pubkey).2 hlookup)]
    rfl
  | some conn' =>
    have hmem := (t.mem_keys_iff pubkey).2 ⟨conn', hlookup⟩
    have hpos := List.length_pos_of_mem hmem
    rw [List.length_erase_of_mem hmem]
    show _ = t.activeConnections.keys.length
    omega

theorem len_set {conn' : Conn} (h : t.activeConnections.lookup pubkey = some conn') :
    (t.set pubkey conn).len = t.len := by
  have hinsert := t.len_insert pubkey conn
  rw [h] at hinsert
  exact hinsert

theorem len_disconnectPeer {conn' : Conn} (h : t.activeConnections.lookup pubkey = some conn') :
    (t.disconnectPeer pubkey).2.len + 1 = t.len := by
  have hmem := (t.mem_keys_iff pubkey).2 ⟨conn', h⟩
  have hpos := List.length_pos_of_mem hmem
  unfold disconnectPeer
  rw [h]
  show (t.activeConnections.erase pubkey).keys.length + 1 = _
  rw [AList.keys_erase, List.length_erase_of_mem hmem]
  show _ = t.activeConnections.keys.length
  omega

end Len

section Mirrors

variable {t : ConnectionTable Conn} (h : t.Mirrors)

include h

theorem Mirrors.insert (pubkey : Bytes 32) (conn : Conn) : (t.insert pubkey conn).Mirrors := by
  unfold Mirrors
  rw [len_insert]
  show (if _ then _ else _) = _
  split_ifs
  · rw [h, UInt64.ofNat_add]
    rfl
  · exact h

theorem Mirrors.set {pubkey : Bytes 32} {conn' : Conn}
    (hconn : t.activeConnections.lookup pubkey = some conn') (conn : Conn) :
    (t.set pubkey conn).Mirrors := by
  unfold Mirrors
  rw [t.len_set pubkey conn hconn]
  exact h

theorem Mirrors.disconnectPeer (pubkey : Bytes 32) : (t.disconnectPeer pubkey).2.Mirrors := by
  cases hconn : t.activeConnections.lookup pubkey with
  | none =>
    unfold ConnectionTable.disconnectPeer
    rw [hconn]
    exact h
  | some conn =>
    have hlen := t.len_disconnectPeer pubkey hconn
    have hcount : (t.disconnectPeer pubkey).2.peerCount = t.peerCount - 1 := by
      unfold ConnectionTable.disconnectPeer
      rw [hconn]
    unfold Mirrors at h ⊢
    rw [hcount, h, ← hlen, UInt64.ofNat_add]
    exact UInt64.add_sub_cancel _ _

/-- A connection that is removed had been counted. -/
theorem Mirrors.subtractions_disconnectPeer (pubkey : Bytes 32) :
    ∀ s ∈ (t.disconnectPeer pubkey).2.subtractions, s ∈ t.subtractions ∨ s.Counted := by
  cases hconn : t.activeConnections.lookup pubkey with
  | none =>
    unfold ConnectionTable.disconnectPeer
    rw [hconn]
    exact fun _ => Or.inl
  | some conn =>
    have hlen := t.len_disconnectPeer pubkey hconn
    unfold ConnectionTable.disconnectPeer at hlen ⊢
    rw [hconn] at hlen ⊢
    intro s hs
    rcases List.mem_append.1 hs with hold | hnew
    · exact .inl hold
    · rw [List.mem_singleton.1 hnew]
      exact .inr (h.trans (congrArg UInt64.ofNat hlen.symm))

end Mirrors

/-- The counter is right, and was right whenever something was subtracted from it. -/
structure Counts (t : ConnectionTable Conn) : Prop where
  mirrors : t.Mirrors
  counted : ∀ s ∈ t.subtractions, s.Counted

section Counts

variable {t : ConnectionTable Conn}

theorem Counts.new : (ConnectionTable.new : ConnectionTable Conn).Counts :=
  ⟨rfl, fun _ hs => absurd hs List.not_mem_nil⟩

variable (h : t.Counts)

include h

theorem Counts.insert (pubkey : Bytes 32) (conn : Conn) : (t.insert pubkey conn).Counts :=
  ⟨h.mirrors.insert pubkey conn, h.counted⟩

theorem Counts.set {pubkey : Bytes 32} {conn' : Conn}
    (hconn : t.activeConnections.lookup pubkey = some conn') (conn : Conn) :
    (t.set pubkey conn).Counts :=
  ⟨h.mirrors.set hconn conn, h.counted⟩

theorem Counts.disconnectPeer (pubkey : Bytes 32) : (t.disconnectPeer pubkey).2.Counts :=
  ⟨h.mirrors.disconnectPeer pubkey, fun s hs =>
    (h.mirrors.subtractions_disconnectPeer pubkey s hs).elim (h.counted s) id⟩

theorem Counts.clear : t.clear.Counts := ⟨rfl, h.counted⟩

end Counts

end ConnectionTable

open ConnectionTable

/-! ### The operations -/

/-- Calls, and connections that are given up, are counted. -/
theorem moves_counts (api : Connection Conn World) :
    TableMoves api fun s s' => s.1.Counts → s'.1.Counts where
  refl _ := id
  trans _ _ _ h h' ht := h' (h ht)
  call t pubkey conn world broken conn' world' hconn _ ht := ht.set hconn conn'
  failOver t pubkey conn world conn' world' peer hconn _ ht := by
    have hremoved := (ht.set hconn conn').disconnectPeer pubkey
    unfold failOver
    split
    next => exact hremoved
    next conn'' _ _ => exact hremoved.insert peer.pubkey conn''

namespace TransportManager

variable {m : TransportManager Conn} (hm : m.connections.Counts)

include hm

theorem counts_tickPower (api : Connection Conn World) (now : ℕ)
    (around : Surroundings Conn World) : (m.tickPower api now around).2.connections.Counts :=
  tickPower_induction (fun _ pubkey h => h.disconnectPeer pubkey) api now around
    (processBleIncoming_induction (fun entry _ _ h => h.insert entry.1.pubkey entry.2) hm)

theorem counts_connect (radio : Radio Conn World Addr) (preference : TransportPreference)
    (peer : PeerIdentity) (wifiAddr : Option Addr) (world : World) :
    (m.connect radio preference peer wifiAddr world).manager.connections.Counts := by
  unfold connect
  split
  next => exact hm
  next conn world' _ => exact hm.insert peer.pubkey conn

end TransportManager

open TransportManager

/-- Every operation counts what it does. -/
theorem counts_operate (radio : Radio Conn World Addr) (preference : TransportPreference)
    {m : TransportManager Conn} (hm : m.connections.Counts) (op : Operation Conn World Addr) :
    (operate radio preference m op).manager.connections.Counts := by
  have hmoves := moves_counts radio.toConnection
  have htick := counts_tickPower hm radio.toConnection
  cases op with
  | sendToAt peer msg now around =>
    exact moved_sendToAt hmoves peer msg now around (htick now around)
  | recvAnyAt now around => exact moved_recvAnyAt hmoves now around (htick now around)
  | powerTickAt now around => exact moved_powerTickAt hmoves now around (htick now around)
  | connect peer wifiAddr world => exact counts_connect hm radio preference peer wifiAddr world
  | registerInbound peer conn world => exact hm.insert peer.pubkey conn
  | disconnectPeer pubkey world => exact hm.disconnectPeer pubkey
  | notifyMacRotated world =>
    exact notifyMacRotated_induction (fun _ pubkey h => h.disconnectPeer pubkey)
      radio.toConnection hm
  | shutdown world => exact hm.clear

/-- **The counter mirrors the table.**  In every run from a new manager, the counter is the number
of connections after every operation, whatever it returns; and every subtraction from it, in the
middle of an operation too, found the number of connections before the removal, which was not
zero. -/
theorem peer_count_mirrors (radio : Radio Conn World Addr) (preference : TransportPreference)
    (powerManager : PowerManager) (scanner : Option BleScanner)
    (ops : List (Operation Conn World Addr)) :
    ∀ e ∈ trace (operations radio preference)
        { withPowerManager powerManager with bleCentralScanner := scanner } ops,
      e.output.manager.connections.peerCount =
          UInt64.ofNat e.output.manager.connections.len ∧
        ∀ s ∈ e.output.manager.connections.subtractions,
          s.found = UInt64.ofNat (s.left + 1) ∧ (s.left + 1 < 2 ^ 64 → s.found ≠ 0) := by
  intro e he
  obtain ⟨pre, op, post, -, rfl⟩ := mem_trace he
  have hbefore : (exec (operations radio preference) { withPowerManager powerManager with
      bleCentralScanner := scanner } pre).connections.Counts :=
    exec_invariant (fun m : TransportManager Conn => m.connections.Counts)
      (fun m op _ hm => counts_operate radio preference hm op) Counts.new
  have hcounts := counts_operate radio preference hbefore op
  refine ⟨hcounts.mirrors, fun s hs => ?_⟩
  have hcounted := hcounts.counted s hs
  exact ⟨hcounted, hcounted.found_ne_zero⟩

/-- A connection over WiFi-Direct breaks when a message is sent, and one over BLE takes its place:
this is still one connection, and the subtraction in between found one. -/
theorem peer_count_mirrors_sample :
    let peer := samplePeer 1
    let ops : List (Operation (PeerIdentity × TransportType) Bool Unit) :=
      [.connect peer (some ()) false,
        .sendToAt peer (.handshake peer.pubkey) 0
          { bleIncoming := [], instant := 0, keyOrder := fun keys => keys,
            keyOrder_perm := fun _ => .refl _, world := true }]
    ∃ e ∈ trace (operations sampleRadio .auto)
        { withPowerManager (PowerManager.new 0) with bleCentralScanner := none } ops,
      e.output.calls.length = 2 ∧ e.output.manager.connections.len = 1 ∧
        e.output.manager.connections.peerCount = 1 ∧
        e.output.manager.connections.subtractions = [⟨1, 0⟩] ∧
        ∀ s ∈ e.output.manager.connections.subtractions, s.found ≠ 0 := by
  intro peer ops
  have hcount := peer_count_mirrors sampleRadio .auto (PowerManager.new 0) none ops _
    (List.mem_cons_of_mem _ (List.mem_singleton_self _))
  refine ⟨_, List.mem_cons_of_mem _ (List.mem_singleton_self _), by decide +kernel,
    by decide +kernel, hcount.1.trans ?_, by decide +kernel, fun s hs => (hcount.2 s hs).2 ?_⟩
  · decide +kernel
  · revert s
    decide +kernel

end StellarConduit
