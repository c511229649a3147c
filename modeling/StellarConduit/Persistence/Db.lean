import StellarConduit.Lib.HashMap
import StellarConduit.Message.Types

/-!
# The database

`persistence/db.rs`: the table `banned_peers` of the SQLite database.  A call fails when its
connection does; the fault is an argument.  Times are stored as 64-bit signed integers.
-/

namespace StellarConduit

open Verif

inductive DbError
  | connectionError (reason : String)
  | sqliteError (reason : String)
  | serializationError (reason : String)
  | deserializationError (reason : String)
  | invalidPubkey
  | invalidMessageId
  | invalidRelayProof (reason : String)
  deriving DecidableEq

structure BannedPeerRow where
  bannedAt : Int64
  expiresAt : Int64
  reason : String
  deriving DecidableEq

structure PersistedBan where
  pubkey : Bytes 32
  expiresAt : UInt64
  reason : String
  deriving DecidableEq

/-- A time before 2⁶³ keeps its value in a column. -/
theorem toInt_toInt64 {a : UInt64} (h : a.toNat < 2 ^ 63) : a.toInt64.toInt = a.toNat := by
  show a.toBitVec.toInt = a.toNat
  rw [BitVec.toInt_eq_toNat_of_lt]
  · rfl
  · show 2 * a.toNat < 2 ^ 64
    omega

structure MeshDatabase where
  bannedPeers : HashMap (Bytes 32) BannedPeerRow

namespace MeshDatabase

/-- `save_ban`: insert the row of the peer, or overwrite it. -/
def saveBan (db : MeshDatabase) (pubkey : Bytes 32) (expiresAt : UInt64) (reason : String)
    (bannedAt : UInt64) (fault : Option DbError) : Except DbError MeshDatabase :=
  match fault with
  | some e => .error e
  | none =>
    let row := ⟨bannedAt.toInt64, expiresAt.toInt64, reason⟩
    .ok { db with bannedPeers := db.bannedPeers.insert pubkey row }

/-- `remove_ban`: delete the row of the peer. -/
def removeBan (db : MeshDatabase) (pubkey : Bytes 32) (fault : Option DbError) :
    Except DbError MeshDatabase :=
  match fault with
  | some e => .error e
  | none => .ok { db with bannedPeers := db.bannedPeers.erase pubkey }

/-- `load_active_bans`: the rows that expire after `now`, compared as signed numbers. -/
def loadActiveBans (db : MeshDatabase) (now : UInt64) (fault : Option DbError) :
    Except DbError (List PersistedBan) :=
  match fault with
  | some e => .error e
  | none =>
    .ok (db.bannedPeers.entries.filterMap fun e =>
      if e.2.expiresAt > now.toInt64 then some ⟨e.1, e.2.expiresAt.toUInt64, e.2.reason⟩
      else none)

variable {db : MeshDatabase} {now : UInt64} {fault : Option DbError} {bans : List PersistedBan}

theorem mem_loadActiveBans (h : db.loadActiveBans now fault = .ok bans) {ban : PersistedBan} :
    ban ∈ bans ↔ ∃ row, db.bannedPeers.lookup ban.pubkey = some row ∧
      row.expiresAt > now.toInt64 ∧ ban.expiresAt = row.expiresAt.toUInt64 ∧
        ban.reason = row.reason := by
  cases fault with
  | some e => cases h
  | none =>
    cases h
    rw [List.mem_filterMap]
    constructor
    · rintro ⟨⟨pubkey, row⟩, hmem, hban⟩
      obtain ⟨hactive, hsome⟩ := Option.ite_none_right_eq_some.1 hban
      cases hsome
      exact ⟨row, AList.mem_lookup_iff.2 hmem, hactive, rfl, rfl⟩
    · rintro ⟨row, hrow, hactive, hexpires, hreason⟩
      refine ⟨⟨ban.pubkey, row⟩, AList.mem_lookup_iff.1 hrow, ?_⟩
      rw [if_pos hactive, ← hexpires, ← hreason]

/-- No peer is read twice. -/
theorem nodup_loadActiveBans (h : db.loadActiveBans now fault = .ok bans) :
    (bans.map PersistedBan.pubkey).Nodup := by
  cases fault with
  | some e => cases h
  | none =>
    cases h
    refine List.Nodup.sublist ?_ db.bannedPeers.nodupKeys
    induction db.bannedPeers.entries with
    | nil => exact List.Sublist.refl _
    | cons e entries ih =>
      rw [List.filterMap_cons]
      split_ifs
      · exact ih.cons_cons e.1
      · exact ih.cons e.1

end MeshDatabase

end StellarConduit
