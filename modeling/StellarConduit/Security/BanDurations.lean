import StellarConduit.Security.Restart

/-!
# Bans of any duration

The second at which a ban ends is `now + duration_sec`, an unsigned number of 64 bits; the sum is
not checked, and is stored as a signed number.  Here all clocks read the same second.

* `HeldInMemory`: what a ban is to be in the peer list;
* `ExpiryFits`: the sum is no larger than the numbers in which it is kept;
* `ban_holds_iff`: a ban holds in memory and on disk exactly when its expiry fits.
-/

namespace StellarConduit

open Verif Verif.Machine

/-- All readings within one second, and a database that works. -/
def BanReadings.at (t : UInt64) : BanReadings := ⟨t, t, t, t, none⟩

/-- A ban that was just made holds in memory: the additions by which its end was computed did not
overflow, the peer is banned until a second that is not past, and a sweep within this second leaves
it banned, unless it was banned for no time. -/
structure HeldInMemory (peerList : PeerList) (pubkey : Bytes 32) (durationSec now : UInt64) :
    Prop where
  additions : now.toNat + durationSec.toNat < 2 ^ 64
  banned : ∃ e, BannedUntil peerList pubkey e ∧ now.toNat ≤ e
  swept : 0 < durationSec → (peerList.checkBanExpirations fun _ => now).2.isPeerBanned pubkey

/-- The end of the ban fits into 64 bits, and is not a negative number in the table if the present
is none. -/
def ExpiryFits (durationSec now : UInt64) : Prop :=
  now.toNat + durationSec.toNat < 2 ^ 64 ∧
    (now.toNat < 2 ^ 63 → now.toNat + durationSec.toNat < 2 ^ 63)

instance (durationSec now : UInt64) : Decidable (ExpiryFits durationSec now) :=
  inferInstanceAs (Decidable (_ ∧ (_ → _)))

/-! ### Sums and signs -/

theorem toNat_add_of_lt {a b : UInt64} (h : a.toNat + b.toNat < 2 ^ 64) :
    (a + b).toNat = a.toNat + b.toNat := by
  rw [UInt64.toNat_add, Nat.mod_eq_of_lt h]

/-- A later time is a greater number in a column unless it alone is a negative one. -/
theorem toInt64_lt_iff_of_lt {a b : UInt64} (h : a < b) :
    a.toInt64 < b.toInt64 ↔ (a.toNat < 2 ^ 63 → b.toNat < 2 ^ 63) := by
  have toInt_eq : ∀ c : UInt64, c.toInt64.toInt =
      if c.toNat < 2 ^ 63 then (c.toNat : ℤ) else c.toNat - 2 ^ 64 := by
    intro c
    show c.toBitVec.toInt = _
    rw [BitVec.toInt_eq_toNat_cond]
    have hbits : c.toBitVec.toNat = c.toNat := rfl
    rw [hbits]
    split_ifs <;> omega
  have hb := b.toNat_lt
  rw [UInt64.lt_iff_toNat_lt] at h
  rw [Int64.lt_iff_toInt_lt, toInt_eq, toInt_eq]
  split_ifs <;> omega

section Durations

variable (s : BanStore) (pubkey : Bytes 32) (durationSec : UInt64) (reason : String) (now : UInt64)

/-- The list and the table after the ban. -/
def BanStore.afterBan : BanStore :=
  (s.step (.banAndPersist pubkey durationSec reason (.at now))).2

/-! ### What a ban writes -/

theorem getPeer_afterBan :
    (s.afterBan pubkey durationSec reason now).peerList.getPeer pubkey =
      some (((s.peerList.getPeer pubkey).getD
        { Peer.new pubkey with lastSeenUnixSec := now }).ban durationSec now) :=
  getPeer_banAndPersist_self s.peerList (some s.db) pubkey durationSec reason (.at now)

theorem lookup_afterBan :
    (s.afterBan pubkey durationSec reason now).db.bannedPeers.lookup pubkey =
      some ⟨now.toInt64, (now + durationSec).toInt64, reason⟩ := by
  have hrow := bannedPeers_banAndPersist_self s.peerList (some s.db) pubkey durationSec reason
    (.at now)
  obtain ⟨db, hdb, hlookup⟩ := Option.map_eq_some_iff.1 hrow
  show ((banAndPersist s.peerList (some s.db) pubkey durationSec reason (.at now)).2.getD
    s.db).bannedPeers.lookup pubkey = _
  rw [hdb, Option.getD_some, hlookup]
  rfl

theorem bannedUntil_afterBan :
    BannedUntil (s.afterBan pubkey durationSec reason now).peerList pubkey
      (now + durationSec).toNat :=
  ⟨_, getPeer_afterBan s pubkey durationSec reason now, rfl, rfl⟩

/-! ### Memory -/

/-- In memory, a ban holds when the sum is none of more than 64 bits. -/
theorem heldInMemory_iff :
    HeldInMemory (s.afterBan pubkey durationSec reason now).peerList pubkey durationSec now ↔
      now.toNat + durationSec.toNat < 2 ^ 64 := by
  refine ⟨fun h => h.additions, fun hadd => ⟨hadd, ?_, fun hpos => ?_⟩⟩
  · refine ⟨_, bannedUntil_afterBan s pubkey durationSec reason now, ?_⟩
    rw [toNat_add_of_lt hadd]
    exact Nat.le_add_right _ _
  · have hlt : now < now + durationSec := by
      rw [UInt64.lt_iff_toNat_lt] at hpos ⊢
      rw [toNat_add_of_lt hadd]
      have hzero : (0 : UInt64).toNat = 0 := rfl
      omega
    unfold PeerList.isPeerBanned
    rw [PeerList.getPeer_checkBanExpirations, getPeer_afterBan, Option.map_some]
    dsimp only
    rw [Peer.checkBanExpiration_of_lt (by exact hlt)]
    rfl

/-! ### Disk -/

/-- A restart within the same second restores a ban, with its end, when the ban is for some time and
its expiry fits. -/
theorem restored_iff (expirySeconds : UInt64) :
    BannedUntil ((s.afterBan pubkey durationSec reason now).restart expirySeconds now) pubkey
        (now.toNat + durationSec.toNat) ↔
      0 < durationSec ∧ ExpiryFits durationSec now := by
  rw [bannedUntil_restart_iff_row, lookup_afterBan]
  have hpos : 0 < durationSec ↔ 0 < durationSec.toNat := UInt64.lt_iff_toNat_lt
  have hnow := now.toNat_lt
  constructor
  · rintro ⟨_, ⟨⟩, hactive, hlt, hend⟩
    have hsum : (now + durationSec).toNat = now.toNat + durationSec.toNat := hend
    have hlt' : now < now + durationSec := hlt
    have hbound := (now + durationSec).toNat_lt
    have hsigned := (toInt64_lt_iff_of_lt hlt').1 hactive
    rw [UInt64.lt_iff_toNat_lt] at hlt'
    rw [hsum] at hsigned hlt' hbound
    exact ⟨hpos.2 (by omega), hbound, hsigned⟩
  · rintro ⟨hdur, hadd, hsigned⟩
    have hsum := toNat_add_of_lt hadd
    have hlt : now < now + durationSec := by
      rw [UInt64.lt_iff_toNat_lt, hsum]
      have := hpos.1 hdur
      omega
    refine ⟨_, rfl, (toInt64_lt_iff_of_lt hlt).2 (hsum ▸ hsigned), hlt, hsum⟩

/-- **Bans of any duration.**  A ban for some time holds in memory, and is restored by a restart
within the same second, if and only if its expiry fits.  A ban for no time holds in memory, and is
not restored. -/
theorem ban_holds_iff (expirySeconds : UInt64) :
    let after := s.afterBan pubkey durationSec reason now
    let held := HeldInMemory after.peerList pubkey durationSec now
    let restored := BannedUntil (after.restart expirySeconds now) pubkey
      (now.toNat + durationSec.toNat)
    (held ∧ (0 < durationSec → restored) ↔ ExpiryFits durationSec now) ∧
      (held ∧ restored ↔ 0 < durationSec ∧ ExpiryFits durationSec now) := by
  intro after held restored
  have hheld : held ↔ now.toNat + durationSec.toNat < 2 ^ 64 :=
    heldInMemory_iff s pubkey durationSec reason now
  have hrestored : restored ↔ 0 < durationSec ∧ ExpiryFits durationSec now :=
    restored_iff s pubkey durationSec reason now expirySeconds
  rw [hheld, hrestored]
  refine ⟨⟨?_, fun h => ⟨h.1, fun hpos => ⟨hpos, h⟩⟩⟩, ⟨And.right, fun h => ⟨h.2.1, h⟩⟩⟩
  rintro ⟨hadd, hrest⟩
  by_cases hpos : 0 < durationSec
  · exact (hrest hpos).2
  · have hzero : durationSec.toNat = 0 := by
      rw [UInt64.lt_iff_toNat_lt] at hpos
      exact Nat.eq_zero_of_not_pos hpos
    refine ⟨hadd, fun hnow => ?_⟩
    rw [hzero]
    exact hnow

end Durations

/-- A ban for as long as a number can say overflows; one for half as long is not restored. -/
theorem long_bans_sample :
    let now : UInt64 := 1672531200
    let after (durationSec : UInt64) :=
      (BanStore.new 300).afterBan sampleKey durationSec "permanent" now
    let restored (durationSec : UInt64) :=
      BannedUntil ((after durationSec).restart 300 now) sampleKey
        (now.toNat + durationSec.toNat)
    let longest : UInt64 := 18446744073709551615
    let half : UInt64 := 9223372036854775808
    ¬ HeldInMemory (after longest).peerList sampleKey longest now ∧
      HeldInMemory (after half).peerList sampleKey half now ∧ ¬ restored half := by
  intro now after restored longest half
  refine ⟨fun h => ?_, ?_, fun h => ?_⟩
  · exact absurd ((heldInMemory_iff _ _ _ _ _).1 h) (by decide +kernel)
  · exact (heldInMemory_iff _ _ _ _ _).2 (by decide +kernel)
  · exact absurd ((restored_iff _ _ _ _ _ _).1 h).2 (by decide +kernel)

end StellarConduit
