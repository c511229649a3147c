import StellarConduit.Discovery.PeerList
import StellarConduit.Persistence.Db

/-!
# Banning a peer

`security/peer_ban.rs`: a ban in memory and, if there is a database, on disk, and the bans that
are read back at startup.  Each reading of the wall clock is an argument of its own.
-/

namespace StellarConduit

/-- The readings of the wall clock by `ban_and_persist`, and the fault of its database call. -/
structure BanReadings where
  /-- for `expires_at` -/
  expires : UInt64
  /-- in `insert_or_update` -/
  seen : UInt64
  /-- in `Peer::ban` -/
  ban : UInt64
  /-- in `save_ban` -/
  saved : UInt64
  fault : Option DbError

/-- `ban_and_persist`; a ban that cannot be persisted is logged. -/
def banAndPersist (peerList : PeerList) (db : Option MeshDatabase) (pubkey : Bytes 32)
    (durationSec : UInt64) (reason : String) (readings : BanReadings) :
    PeerList × Option MeshDatabase :=
  let expiresAt := readings.expires + durationSec
  let peerList :=
    if (peerList.getPeer pubkey).isNone then
      (peerList.insertOrUpdate pubkey 0 readings.seen).2
    else peerList
  let peerList := (peerList.banPeer pubkey durationSec readings.ban).2
  match db with
  | none => (peerList, none)
  | some db =>
    match db.saveBan pubkey expiresAt reason readings.saved readings.fault with
    | .ok db => (peerList, some db)
    | .error _ => (peerList, some db)

section BanAndPersist

variable (peerList : PeerList) (db : Option MeshDatabase) (pubkey : Bytes 32)
  (durationSec : UInt64) (reason : String) (readings : BanReadings)

theorem fst_banAndPersist :
    (banAndPersist peerList db pubkey durationSec reason readings).1 =
      ((if (peerList.getPeer pubkey).isNone then
          (peerList.insertOrUpdate pubkey 0 readings.seen).2
        else peerList).banPeer pubkey durationSec readings.ban).2 := by
  unfold banAndPersist
  cases db with
  | none => rfl
  | some db => dsimp only; split <;> rfl

/-- The banned peer is in the list, also when it was not before. -/
theorem getPeer_banAndPersist_self :
    (banAndPersist peerList db pubkey durationSec reason readings).1.getPeer pubkey =
      some (((peerList.getPeer pubkey).getD
        { Peer.new pubkey with lastSeenUnixSec := readings.seen }).ban
          durationSec readings.ban) := by
  rw [fst_banAndPersist, PeerList.banPeer, PeerList.getPeer_modifyPeer_self]
  cases h : peerList.getPeer pubkey <;> simp [h]

theorem getPeer_banAndPersist_ne {other : Bytes 32} (hne : other ≠ pubkey) :
    (banAndPersist peerList db pubkey durationSec reason readings).1.getPeer other =
      peerList.getPeer other := by
  rw [fst_banAndPersist, PeerList.banPeer, PeerList.getPeer_modifyPeer_ne _ hne]
  cases h : peerList.getPeer pubkey <;> simp [hne]

theorem PeerList.Keyed.banAndPersist {peerList : PeerList} (h : peerList.Keyed) :
    (StellarConduit.banAndPersist peerList db pubkey durationSec reason readings).1.Keyed := by
  rw [fst_banAndPersist]
  refine PeerList.Keyed.modifyPeer ?_ pubkey fun _ => rfl
  split_ifs
  · exact h.insertOrUpdate pubkey 0 _
  · exact h

/-- The row of the ban is written unless the database fails. -/
theorem bannedPeers_banAndPersist_self :
    ((banAndPersist peerList db pubkey durationSec reason readings).2.map fun db =>
        db.bannedPeers.lookup pubkey) =
      db.map fun db =>
        if readings.fault.isSome then db.bannedPeers.lookup pubkey
        else some ⟨readings.saved.toInt64, (readings.expires + durationSec).toInt64, reason⟩ := by
  unfold banAndPersist MeshDatabase.saveBan
  cases db with
  | none => rfl
  | some db => cases readings.fault <;> simp

theorem bannedPeers_banAndPersist_ne {other : Bytes 32} (hne : other ≠ pubkey) :
    ((banAndPersist peerList db pubkey durationSec reason readings).2.map fun db =>
        db.bannedPeers.lookup other) = db.map fun db => db.bannedPeers.lookup other := by
  unfold banAndPersist MeshDatabase.saveBan
  cases db with
  | none => rfl
  | some db => cases readings.fault <;> simp [hne]

end BanAndPersist

/-- The readings of the wall clock by `restore_bans_from_db`, and the fault of its database
call. -/
structure RestoreReadings where
  /-- in `load_active_bans` -/
  load : UInt64
  /-- for the time that remains -/
  now : UInt64
  /-- in `insert_or_update`, of each peer -/
  seen : Bytes 32 → UInt64
  /-- in `Peer::ban`, of each peer -/
  ban : Bytes 32 → UInt64
  fault : Option DbError

/-- All readings of a restart within one second. -/
def RestoreReadings.at (t : UInt64) : RestoreReadings := ⟨t, t, fun _ => t, fun _ => t, none⟩

/-- One round of the loop of `restore_bans_from_db`. -/
def restoreBan (readings : RestoreReadings) (peerList : PeerList) (ban : PersistedBan) : PeerList :=
  if ban.expiresAt > readings.now then
    let remainingSecs := ban.expiresAt - readings.now
    let peerList :=
      if (peerList.getPeer ban.pubkey).isNone then
        (peerList.insertOrUpdate ban.pubkey 0 (readings.seen ban.pubkey)).2
      else peerList
    (peerList.banPeer ban.pubkey remainingSecs (readings.ban ban.pubkey)).2
  else peerList

/-- `restore_bans_from_db`: the answer is the number of rows read. -/
def restoreBansFromDb (peerList : PeerList) (db : MeshDatabase) (readings : RestoreReadings) :
    Except DbError ℕ × PeerList :=
  match db.loadActiveBans readings.load readings.fault with
  | .error e => (.error e, peerList)
  | .ok activeBans => (.ok activeBans.length, activeBans.foldl (restoreBan readings) peerList)

section Restore

variable (readings : RestoreReadings) (peerList : PeerList)

/-- A ban that has not expired is put in place, also of a peer that was not listed. -/
theorem getPeer_restoreBan_self {ban : PersistedBan} (h : ban.expiresAt > readings.now) :
    (restoreBan readings peerList ban).getPeer ban.pubkey =
      some (((peerList.getPeer ban.pubkey).getD { Peer.new ban.pubkey with
        lastSeenUnixSec := readings.seen ban.pubkey }).ban
          (ban.expiresAt - readings.now) (readings.ban ban.pubkey)) := by
  unfold restoreBan
  rw [if_pos h]
  dsimp only [PeerList.banPeer]
  rw [PeerList.getPeer_modifyPeer_self]
  cases hpeer : peerList.getPeer ban.pubkey <;> simp [hpeer]

theorem getPeer_restoreBan_ne {ban : PersistedBan} {other : Bytes 32} (hne : other ≠ ban.pubkey) :
    (restoreBan readings peerList ban).getPeer other = peerList.getPeer other := by
  unfold restoreBan
  by_cases h : ban.expiresAt > readings.now
  · rw [if_pos h]
    dsimp only [PeerList.banPeer]
    rw [PeerList.getPeer_modifyPeer_ne _ hne]
    cases hpeer : peerList.getPeer ban.pubkey <;> simp [hne]
  · rw [if_neg h]

theorem getPeer_foldl_restoreBan_of_notMem {bans : List PersistedBan} {P : Bytes 32}
    (h : P ∉ bans.map PersistedBan.pubkey) :
    (bans.foldl (restoreBan readings) peerList).getPeer P = peerList.getPeer P := by
  induction bans generalizing peerList with
  | nil => rfl
  | cons ban bans ih =>
    rw [List.map_cons, List.mem_cons, not_or] at h
    rw [List.foldl_cons, ih _ h.2, getPeer_restoreBan_ne readings peerList h.1]

/-- The loop leaves a peer as the one round on its ban leaves it. -/
theorem getPeer_foldl_restoreBan {bans : List PersistedBan}
    (hnodup : (bans.map PersistedBan.pubkey).Nodup) {ban : PersistedBan} (hmem : ban ∈ bans) :
    (bans.foldl (restoreBan readings) peerList).getPeer ban.pubkey =
      (restoreBan readings peerList ban).getPeer ban.pubkey := by
  induction bans generalizing peerList with
  | nil => simp at hmem
  | cons head bans ih =>
    rw [List.map_cons, List.nodup_cons] at hnodup
    rw [List.foldl_cons]
    rcases List.mem_cons.1 hmem with rfl | hmem
    · exact getPeer_foldl_restoreBan_of_notMem readings _ hnodup.1
    · have hne : ban.pubkey ≠ head.pubkey := by
        intro heq
        exact hnodup.1 (heq ▸ List.mem_map_of_mem hmem)
      have hsame := getPeer_restoreBan_ne readings peerList hne
      rw [ih _ hnodup.2 hmem]
      by_cases h : ban.expiresAt > readings.now
      · rw [getPeer_restoreBan_self readings _ h, getPeer_restoreBan_self readings _ h, hsame]
      · unfold restoreBan
        rw [if_neg h, if_neg h]
        exact hsame

end Restore

end StellarConduit
