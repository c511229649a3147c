import Mathlib.Data.List.Induction
import StellarConduit.Peer.Peer
import StellarConduit.Persistence.Db

/-!
# The table of peers

`save_peer` and `load_all_peers` of `persistence/db.rs`.  A row of the table `peers` is the list of
its columns, in the order of its definition; `load_all_peers` reads them by their positions.

* `readPeer_peerRow`: what is read of a row that was written;
* `saveAll_eq`, `loadAllPeers_eq`: what is loaded after any list of calls;
* `roundTrips_iff`: when that is what was saved last of every peer.
-/

namespace StellarConduit

open Verif

/-- What a column holds. -/
inductive SqlValue
  | integer (n : Int64)
  | blob (bytes : List UInt8)

def SqlValue.type : SqlValue → String
  | .integer _ => "Integer"
  | .blob _ => "Blob"

/-- The columns of the table `peers`. -/
def peerColumns : List String :=
  ["pubkey", "reputation", "last_seen_sec", "is_banned", "supported_transports", "is_relay_node",
    "bytes_sent", "bytes_received"]

/-! ### Columns

How the database library reads and writes integers of other types, and what it says if one is out
of range. -/

namespace SqlRow

/-- `row.get`, of a column of some type. -/
def get {α : Type} (row : List SqlValue) (i : ℕ) (read : SqlValue → Option (Except DbError α)) :
    Except DbError α :=
  match row[i]? with
  | none => .error (.connectionError s!"Invalid column index: {i}")
  | some value =>
    match read value with
    | some result => result
    | none =>
      let name := peerColumns.getD i ""
      let type := value.type
      .error (.connectionError s!"Invalid column type {type} at index: {i}, name: {name}")

def outOfRange (i : ℕ) (n : Int64) : DbError :=
  .connectionError s!"Integer {n} out of range at index {i}"

def getBlob (row : List SqlValue) (i : ℕ) : Except DbError (List UInt8) :=
  get row i fun
    | .blob bytes => some (.ok bytes)
    | .integer _ => none

/-- An integer that has to be in the range of the type that is asked for. -/
def getInteger {α : Type} (row : List SqlValue) (i : ℕ) (ofInt64 : Int64 → Option α) :
    Except DbError α :=
  get row i fun
    | .integer n =>
      some (match ofInt64 n with
        | some a => .ok a
        | none => .error (outOfRange i n))
    | .blob _ => none

def getI64 (row : List SqlValue) (i : ℕ) : Except DbError Int64 := getInteger row i some

def getBool (row : List SqlValue) (i : ℕ) : Except DbError Bool :=
  getInteger row i fun n => some (decide (n ≠ 0))

def u32OfInt64 (n : Int64) : Option UInt32 :=
  if 0 ≤ n.toInt ∧ n.toInt < 2 ^ 32 then some (UInt32.ofNat n.toInt.toNat) else none

def getU32 (row : List SqlValue) (i : ℕ) : Except DbError UInt32 := getInteger row i u32OfInt64

def u64OfInt64 (n : Int64) : Option UInt64 := if 0 ≤ n.toInt then some n.toUInt64 else none

def getU64 (row : List SqlValue) (i : ℕ) : Except DbError UInt64 := getInteger row i u64OfInt64

theorem getInteger_of_get {α : Type} {row : List SqlValue} {i : ℕ} {n : Int64}
    (hrow : row[i]? = some (.integer n)) {ofInt64 : Int64 → Option α} {a : α}
    (ha : ofInt64 n = some a) : getInteger row i ofInt64 = .ok a := by
  unfold getInteger get
  rw [hrow]
  dsimp only
  rw [ha]

end SqlRow

def sqlBool (b : Bool) : SqlValue := .integer (if b then 1 else 0)

def sqlU32 (n : UInt32) : SqlValue := .integer n.toUInt64.toInt64

/-- The table `peers`, by its primary key. -/
structure PeerTable where
  rows : HashMap (Bytes 32) (List SqlValue)

namespace PeerTable

/-- The row that `save_peer` writes. -/
def peerRow (peer : Peer) : List SqlValue :=
  [.blob peer.identity.pubkey.toList, sqlU32 peer.reputation,
    .integer peer.lastSeenUnixSec.toInt64, sqlBool peer.isBanned,
    sqlU32 peer.supportedTransports.toUInt32, sqlBool peer.isRelayNode,
    .integer peer.bytesSent.toInt64, .integer peer.bytesReceived.toInt64]

/-- `save_peer`: insert the row of the peer, or overwrite its columns.  Of the 64-bit numbers,
`last_seen_unix_sec` is not cast, and has to be in the range of the column. -/
def savePeer (table : PeerTable) (peer : Peer) (fault : Option DbError) :
    Except DbError PeerTable :=
  match fault with
  | some e => .error e
  | none =>
    if peer.lastSeenUnixSec.toNat < 2 ^ 63 then
      .ok { table with rows := table.rows.insert peer.identity.pubkey (peerRow peer) }
    else
      .error (.connectionError "out of range integral type conversion attempted")

/-- `pubkey.copy_from_slice`, if there are 32 bytes. -/
def copyFromSlice (pubkeyVec : List UInt8) : Bytes 32 :=
  if h : pubkeyVec.length = 32 then ⟨pubkeyVec, h⟩ else List.Vector.replicate 32 0

/-- The closure of `load_all_peers`, which reads one row. -/
def readPeer (row : List SqlValue) : Except DbError Peer := do
  let pubkeyVec ← SqlRow.getBlob row 0
  let pubkey := copyFromSlice pubkeyVec
  let transports ← SqlRow.getU32 row 4
  let sent ← SqlRow.getI64 row 6
  let recvd ← SqlRow.getI64 row 7
  let reputation ← SqlRow.getU32 row 1
  let lastSeen ← SqlRow.getU64 row 2
  let isBanned ← SqlRow.getBool row 3
  let isRelayNode ← SqlRow.getBool row 5
  return { Peer.new pubkey with
    reputation := reputation
    lastSeenUnixSec := lastSeen
    isBanned := isBanned
    supportedTransports := transports.toUInt8
    isRelayNode := isRelayNode
    bytesSent := sent.toUInt64
    bytesReceived := recvd.toUInt64 }

def loadAllPeers (table : PeerTable) (fault : Option DbError) : Except DbError (List Peer) :=
  match fault with
  | some e => .error e
  | none => table.rows.entries.mapM fun entry => readPeer entry.2

/-! ### One row -/

/-- What is left of a peer in its row: not the expiry of its ban, and not its name. -/
def restored (peer : Peer) : Peer :=
  { peer with
    identity := PeerIdentity.new peer.identity.pubkey
    banExpiresAtUnixSec := 0 }

theorem u32OfInt64_toInt64 (n : UInt32) : SqlRow.u32OfInt64 n.toUInt64.toInt64 = some n := by
  have hlt := n.toNat_lt
  have hint : n.toUInt64.toInt64.toInt = n.toNat := by
    rw [toInt_toInt64]
    · rw [UInt32.toNat_toUInt64]
    · rw [UInt32.toNat_toUInt64]
      omega
  unfold SqlRow.u32OfInt64
  rw [hint, if_pos ⟨Int.natCast_nonneg _, by omega⟩, Int.toNat_natCast, UInt32.ofNat_toNat]

theorem u64OfInt64_toInt64 {n : UInt64} (h : n.toNat < 2 ^ 63) :
    SqlRow.u64OfInt64 n.toInt64 = some n := by
  unfold SqlRow.u64OfInt64
  rw [toInt_toInt64 h, if_pos (Int.natCast_nonneg _)]
  rfl

theorem getBool_sqlBool {row : List SqlValue} {i : ℕ} {b : Bool} (h : row[i]? = some (sqlBool b)) :
    SqlRow.getBool row i = .ok b := by
  refine SqlRow.getInteger_of_get h ?_
  cases b <;> decide

theorem copyFromSlice_toList (pubkey : Bytes 32) : copyFromSlice pubkey.toList = pubkey := by
  unfold copyFromSlice
  have hlength : pubkey.toList.length = 32 := pubkey.2
  exact dif_pos hlength

/-- **A row.**  All columns are read back as they were written. -/
theorem readPeer_peerRow {peer : Peer} (h : peer.lastSeenUnixSec.toNat < 2 ^ 63) :
    readPeer (peerRow peer) = .ok (restored peer) := by
  have hpubkey : SqlRow.getBlob (peerRow peer) 0 = .ok peer.identity.pubkey.toList := rfl
  have hreputation : SqlRow.getU32 (peerRow peer) 1 = .ok peer.reputation :=
    SqlRow.getInteger_of_get rfl (u32OfInt64_toInt64 _)
  have hlastSeen : SqlRow.getU64 (peerRow peer) 2 = .ok peer.lastSeenUnixSec :=
    SqlRow.getInteger_of_get rfl (u64OfInt64_toInt64 h)
  have hbanned : SqlRow.getBool (peerRow peer) 3 = .ok peer.isBanned := getBool_sqlBool rfl
  have htransports : SqlRow.getU32 (peerRow peer) 4 = .ok peer.supportedTransports.toUInt32 :=
    SqlRow.getInteger_of_get rfl (u32OfInt64_toInt64 _)
  have hrelay : SqlRow.getBool (peerRow peer) 5 = .ok peer.isRelayNode := getBool_sqlBool rfl
  have hsent : SqlRow.getI64 (peerRow peer) 6 = .ok peer.bytesSent.toInt64 := rfl
  have hrecvd : SqlRow.getI64 (peerRow peer) 7 = .ok peer.bytesReceived.toInt64 := rfl
  unfold readPeer
  rw [hpubkey, htransports, hreputation, hlastSeen, hbanned, hrelay, hsent, hrecvd]
  simp only [bind, Except.bind, copyFromSlice_toList, pure, Except.pure]
  simp [restored, Peer.new]

/-! ### The table -/

/-- The peer that was saved last under a key. -/
def lastSaved (saves : List Peer) (pubkey : Bytes 32) : Option Peer :=
  saves.reverse.find? fun peer => decide (peer.identity.pubkey = pubkey)

theorem lastSaved_concat (saves : List Peer) (peer : Peer) (pubkey : Bytes 32) :
    lastSaved (saves ++ [peer]) pubkey =
      if peer.identity.pubkey = pubkey then some peer else lastSaved saves pubkey := by
  unfold lastSaved
  rw [List.reverse_append, List.reverse_singleton, List.singleton_append, List.find?_cons]
  by_cases h : peer.identity.pubkey = pubkey <;> simp [h]

theorem lastSaved_pubkey {saves : List Peer} {pubkey : Bytes 32} {peer : Peer}
    (h : lastSaved saves pubkey = some peer) : peer ∈ saves ∧ peer.identity.pubkey = pubkey := by
  have hmem := List.mem_of_find?_eq_some h
  have hkey := List.find?_some (p := fun peer : Peer => decide (peer.identity.pubkey = pubkey)) h
  exact ⟨List.mem_reverse.1 hmem, of_decide_eq_true hkey⟩

theorem lastSaved_isSome_iff {saves : List Peer} {pubkey : Bytes 32} :
    (lastSaved saves pubkey).isSome ↔ ∃ peer ∈ saves, peer.identity.pubkey = pubkey := by
  unfold lastSaved
  simp

/-- A list of calls of `save_peer`, none of which meets a fault. -/
def saveAll (table : PeerTable) (saves : List Peer) : Except DbError PeerTable :=
  saves.foldlM (fun table peer => table.savePeer peer none) table

/-- The table holds the row of the peer that was saved last under each key. -/
theorem saveAll_eq {saves : List Peer}
    (hfit : ∀ peer ∈ saves, peer.lastSeenUnixSec.toNat < 2 ^ 63) :
    ∃ table, saveAll ⟨∅⟩ saves = .ok table ∧
      ∀ pubkey, table.rows.lookup pubkey = (lastSaved saves pubkey).map peerRow := by
  induction saves using List.reverseRecOn with
  | nil => exact ⟨⟨∅⟩, rfl, fun _ => rfl⟩
  | append_singleton saves peer ih =>
    obtain ⟨table, hsave, hrows⟩ := ih fun p hp => hfit p (List.mem_append_left _ hp)
    have hpeer := hfit peer (List.mem_append_right _ (List.mem_singleton_self peer))
    refine ⟨⟨table.rows.insert peer.identity.pubkey (peerRow peer)⟩, ?_, fun pubkey => ?_⟩
    · unfold saveAll at hsave ⊢
      rw [List.foldlM_append, hsave]
      show (table.savePeer peer none >>= fun table => .ok table) = _
      rw [savePeer, if_pos hpeer]
      rfl
    · rw [lastSaved_concat]
      by_cases hkey : pubkey = peer.identity.pubkey
      · subst hkey
        rw [AList.lookup_insert, if_pos rfl, Option.map_some]
      · rw [AList.lookup_insert_ne hkey, hrows, if_neg (Ne.symm hkey)]

theorem mapM_eq_ok_map {α β ε : Type} {f : α → Except ε β} {g : α → β} {l : List α}
    (h : ∀ a ∈ l, f a = .ok (g a)) : l.mapM f = .ok (l.map g) := by
  induction l with
  | nil => rfl
  | cons a l ih =>
    rw [List.forall_mem_cons] at h
    rw [List.mapM_cons, h.1, ih h.2]
    rfl

/-- What is loaded of a key that was saved. -/
def loadedPeer (saves : List Peer) (pubkey : Bytes 32) : Peer :=
  restored ((lastSaved saves pubkey).getD (Peer.new pubkey))

theorem loadedPeer_of_mem {saves : List Peer} {pubkey : Bytes 32} {last : Peer}
    (h : last ∈ lastSaved saves pubkey) : loadedPeer saves pubkey = restored last := by
  rw [loadedPeer, Option.mem_def.1 h, Option.getD_some]

/-- **What is loaded** after the calls: of every key that was saved, what its row holds of the peer
that was saved last. -/
theorem loadAllPeers_eq {saves : List Peer}
    (hfit : ∀ peer ∈ saves, peer.lastSeenUnixSec.toNat < 2 ^ 63) :
    ∃ table loaded, saveAll ⟨∅⟩ saves = .ok table ∧ table.loadAllPeers none = .ok loaded ∧
      (loaded.map fun peer => peer.identity.pubkey).Nodup ∧
      ∀ peer, peer ∈ loaded ↔ ∃ pubkey, ∃ last ∈ lastSaved saves pubkey, peer = restored last := by
  obtain ⟨table, hsave, hrows⟩ := saveAll_eq hfit
  have hentry : ∀ entry ∈ table.rows.entries, ∃ last ∈ lastSaved saves entry.1,
      entry.2 = peerRow last := by
    rintro ⟨pubkey, row⟩ hmem
    have hlookup := AList.mem_lookup_iff.2 hmem
    rw [hrows, Option.mem_def, Option.map_eq_some_iff] at hlookup
    obtain ⟨last, hlast, hrow⟩ := hlookup
    exact ⟨last, hlast, hrow.symm⟩
  -- A time below `2 ^ 63` keeps its value as an SQL integer, so every row can be read.
  have hread : ∀ entry ∈ table.rows.entries,
      readPeer entry.2 = .ok (loadedPeer saves entry.1) := by
    intro entry hmem
    obtain ⟨last, hlast, hrow⟩ := hentry entry hmem
    rw [hrow, readPeer_peerRow (hfit last (lastSaved_pubkey hlast).1), loadedPeer_of_mem hlast]
  refine ⟨table, table.rows.entries.map fun entry => loadedPeer saves entry.1, hsave,
    mapM_eq_ok_map hread, ?_, fun peer => ?_⟩
  · have hkeys : (table.rows.entries.map fun entry => loadedPeer saves entry.1).map
        (fun peer => peer.identity.pubkey) = table.rows.entries.map Sigma.fst := by
      rw [List.map_map]
      refine List.map_congr_left fun entry hmem => ?_
      obtain ⟨last, hlast, -⟩ := hentry entry hmem
      show (loadedPeer saves entry.1).identity.pubkey = entry.1
      rw [loadedPeer_of_mem hlast]
      exact (lastSaved_pubkey hlast).2
    rw [hkeys]
    exact table.rows.nodupKeys
  · rw [List.mem_map]
    constructor
    · rintro ⟨entry, hmem, rfl⟩
      obtain ⟨last, hlast, -⟩ := hentry entry hmem
      exact ⟨entry.1, last, hlast, loadedPeer_of_mem hlast⟩
    · rintro ⟨pubkey, last, hlast, rfl⟩
      have hlookup : table.rows.lookup pubkey = some (peerRow last) := by
        rw [hrows, Option.mem_def.1 hlast, Option.map_some]
      exact ⟨⟨pubkey, peerRow last⟩, AList.mem_lookup_iff.1 hlookup, loadedPeer_of_mem hlast⟩

/-- A peer has no expiry of a ban, and the name that its key gives it. -/
def Unabridged (peer : Peer) : Prop :=
  peer.banExpiresAtUnixSec = 0 ∧ peer.identity.displayId = hexDisplay peer.identity.pubkey.toList

theorem restored_eq_iff (peer : Peer) : restored peer = peer ↔ Unabridged peer := by
  obtain ⟨⟨pubkey, displayId⟩, _, _, expiry, _⟩ := peer
  simp only [restored, PeerIdentity.new, Unabridged, Peer.mk.injEq, PeerIdentity.mk.injEq,
    true_and, and_true]
  rw [and_comm, eq_comm (b := expiry), eq_comm (b := displayId)]

/-- **Round trips.**  The calls succeed, and exactly one peer is loaded of every key that was saved.
Those that are loaded are the peers that were saved last, in every field, if and only if the peers
that were saved last have no expiry of a ban, and the names that their keys give them. -/
theorem roundTrips_iff {saves : List Peer}
    (hfit : ∀ peer ∈ saves, peer.lastSeenUnixSec.toNat < 2 ^ 63) :
    ∃ table loaded, saveAll ⟨∅⟩ saves = .ok table ∧ table.loadAllPeers none = .ok loaded ∧
      (loaded.map fun peer => peer.identity.pubkey).Nodup ∧
      (∀ pubkey, pubkey ∈ loaded.map (fun peer => peer.identity.pubkey) ↔
        pubkey ∈ saves.map fun peer => peer.identity.pubkey) ∧
      ((∀ peer, peer ∈ loaded ↔ lastSaved saves peer.identity.pubkey = some peer) ↔
        ∀ pubkey, ∀ last ∈ lastSaved saves pubkey, Unabridged last) := by
  obtain ⟨table, loaded, hsave, hload, hnodup, hmem⟩ := loadAllPeers_eq hfit
  refine ⟨table, loaded, hsave, hload, hnodup, fun pubkey => ?_, ?_, ?_⟩
  · constructor
    · intro h
      obtain ⟨peer, hpeer, rfl⟩ := List.mem_map.1 h
      obtain ⟨pubkey, last, hlast, rfl⟩ := (hmem peer).1 hpeer
      exact List.mem_map.2 ⟨last, (lastSaved_pubkey hlast).1, rfl⟩
    · intro h
      obtain ⟨peer, hpeer, hkey⟩ := List.mem_map.1 h
      obtain ⟨last, hlast⟩ :=
        Option.isSome_iff_exists.1 (lastSaved_isSome_iff.2 ⟨peer, hpeer, hkey⟩)
      have hrestored := (hmem (restored last)).2 ⟨pubkey, last, hlast, rfl⟩
      exact List.mem_map.2 ⟨restored last, hrestored, (lastSaved_pubkey hlast).2⟩
  · intro hall pubkey last hlast
    -- What is loaded under the key is the restored peer, and it is the saved one.
    have hrestored := (hall (restored last)).1 ((hmem _).2 ⟨pubkey, last, hlast, rfl⟩)
    have hkey : (restored last).identity.pubkey = pubkey := (lastSaved_pubkey hlast).2
    rw [hkey, Option.mem_def.1 hlast, Option.some_inj] at hrestored
    exact (restored_eq_iff last).1 hrestored.symm
  · intro hsame peer
    rw [hmem]
    constructor
    · rintro ⟨pubkey, last, hlast, rfl⟩
      have heq := (restored_eq_iff last).2 (hsame pubkey last hlast)
      rw [heq, (lastSaved_pubkey hlast).2]
      exact hlast
    · intro hlast
      exact ⟨_, peer, hlast, ((restored_eq_iff peer).2 (hsame _ peer hlast)).symm⟩

/-- A relay that was heard of, has sent `2 ^ 63` bytes, and is banned for good. -/
def sampleRelay : Peer :=
  { Peer.new (List.Vector.replicate 32 42) with
    reputation := 0
    lastSeenUnixSec := 1672531200
    isBanned := true
    supportedTransports := 3
    isRelayNode := true
    bytesSent := 9223372036854775808
    bytesReceived := 512 }

/-- Two new peers are saved, and then the first one again, when it has become a relay. -/
theorem roundTrips_iff_sample :
    let newcomer := Peer.new (List.Vector.replicate 32 42)
    let other := Peer.new (List.Vector.replicate 32 43)
    let saves := [newcomer, other, sampleRelay]
    ∃ table loaded, saveAll ⟨∅⟩ saves = .ok table ∧ table.loadAllPeers none = .ok loaded ∧
      (loaded.map fun peer => peer.identity.pubkey).Nodup ∧
      (∀ peer, peer ∈ loaded ↔ lastSaved saves peer.identity.pubkey = some peer) ∧
      sampleRelay ∈ loaded ∧ other ∈ loaded ∧ newcomer ∉ loaded := by
  intro newcomer other saves
  have hfit : ∀ peer ∈ saves, peer.lastSeenUnixSec.toNat < 2 ^ 63 := by decide +kernel
  have hunabridged : ∀ peer ∈ saves, Unabridged peer := by
    simp only [saves, List.forall_mem_cons]
    exact ⟨⟨rfl, rfl⟩, ⟨rfl, rfl⟩, ⟨rfl, rfl⟩, List.forall_mem_nil _⟩
  obtain ⟨table, loaded, hsave, hload, hnodup, -, hiff⟩ := roundTrips_iff hfit
  have hlast := hiff.2 fun pubkey last hlast => hunabridged last (lastSaved_pubkey hlast).1
  refine ⟨table, loaded, hsave, hload, hnodup, hlast, ?_, ?_, fun hold => ?_⟩
  · exact (hlast sampleRelay).2 rfl
  · exact (hlast other).2 rfl
  · -- What was saved last under the key is banned.
    have hbanned := congrArg (Option.map Peer.isBanned) ((hlast newcomer).1 hold)
    exact absurd hbanned (by decide +kernel)

/-- A peer that is banned until some second. -/
def sampleBanned : Peer := (Peer.new (List.Vector.replicate 32 42)).ban 86400 1672531200

/-- A banned peer is loaded as banned, and without the expiry of its ban. -/
theorem expiry_lost :
    ∃ table loaded, saveAll ⟨∅⟩ [sampleBanned] = .ok table ∧
      table.loadAllPeers none = .ok loaded ∧
      ¬ (∀ peer, peer ∈ loaded ↔ lastSaved [sampleBanned] peer.identity.pubkey = some peer) ∧
      loaded.map (fun peer => (peer.isBanned, peer.banExpiresAtUnixSec)) = [(true, 0)] := by
  have hread : readPeer (peerRow sampleBanned) = .ok (restored sampleBanned) :=
    readPeer_peerRow (by decide)
  refine ⟨⟨(∅ : HashMap _ _).insert _ (peerRow sampleBanned)⟩, [restored sampleBanned], rfl,
    mapM_eq_ok_map (g := fun _ => restored sampleBanned) ?_, fun hall => ?_, rfl⟩
  · simpa using hread
  · have hsaved := (hall (restored sampleBanned)).1 (List.mem_singleton_self _)
    have hexpiry := congrArg (Option.map Peer.banExpiresAtUnixSec) hsaved
    exact absurd hexpiry (by decide +kernel)

end PeerTable

end StellarConduit
