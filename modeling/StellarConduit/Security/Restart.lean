import StellarConduit.Discovery.Bans
import StellarConduit.Security.PeerBan

/-!
# Bans across a restart

A ban is kept twice: in the peer list and in the table `banned_peers`.  The calls on bans, in any
order, write the one or both, and a restart reads the peer list back from the table.

* `BanStore.step`: the calls, as a machine over the list and a database whose writes succeed;
* `Mirror`: the table says of each ban with an expiry what the list says;
* `mirror_step`: a step keeps the mirror if it is `InStep`;
* `restart_equivalent`: then a restart at any second brings back the bans that end after it.
-/

namespace StellarConduit

open Verif Verif.Machine

structure BanStore where
  peerList : PeerList
  db : MeshDatabase

inductive BanInput
  | banAndPersist (pubkey : Bytes 32) (durationSec : UInt64) (reason : String)
      (readings : BanReadings)
  | unbanPeer (pubkey : Bytes 32)
  | applyPenalty (pubkey : Bytes 32) (reason : PenaltyReason)
  /-- `check_ban_expirations`, and `remove_ban` for each peer it returns -/
  | sweep (now : Bytes 32 → UInt64)
  | insertOrUpdate (pubkey : Bytes 32) (signalStrength : UInt8) (now : UInt64)

namespace MeshDatabase

/-- `remove_ban` of several peers; the deletions succeed. -/
def removeBans (db : MeshDatabase) (peers : List PeerIdentity) : MeshDatabase :=
  peers.foldl
    (fun db peer =>
      match db.removeBan peer.pubkey none with
      | .ok db => db
      | .error _ => db)
    db

theorem lookup_removeBans (db : MeshDatabase) (peers : List PeerIdentity) (P : Bytes 32) :
    (db.removeBans peers).bannedPeers.lookup P =
      if ∃ peer ∈ peers, peer.pubkey = P then none else db.bannedPeers.lookup P := by
  induction peers generalizing db with
  | nil => simp [removeBans]
  | cons peer peers ih =>
    have hcons : db.removeBans (peer :: peers) =
        MeshDatabase.removeBans { db with bannedPeers := db.bannedPeers.erase peer.pubkey } peers :=
      rfl
    rw [hcons, ih]
    by_cases hP : peer.pubkey = P
    · subst hP
      simp
    · simp [hP, AList.lookup_erase_ne (Ne.symm hP)]

end MeshDatabase

namespace BanStore

/-- A node that knows nobody. -/
def new (expirySeconds : UInt64) : BanStore := ⟨.new expirySeconds, ⟨∅⟩⟩

def step (s : BanStore) : BanInput → Unit × BanStore
  | .banAndPersist pubkey durationSec reason readings =>
    let (peerList, db) := StellarConduit.banAndPersist s.peerList (some s.db) pubkey durationSec
      reason { readings with fault := none }
    ((), ⟨peerList, db.getD s.db⟩)
  | .unbanPeer pubkey => ((), { s with peerList := (s.peerList.unbanPeer pubkey).2 })
  | .applyPenalty pubkey reason =>
    ((), { s with peerList := s.peerList.modifyPeer pubkey (StellarConduit.applyPenalty · reason) })
  | .sweep now =>
    let (unbanned, peerList) := s.peerList.checkBanExpirations now
    ((), ⟨peerList, s.db.removeBans unbanned⟩)
  | .insertOrUpdate pubkey signalStrength now =>
    ((), { s with peerList := (s.peerList.insertOrUpdate pubkey signalStrength now).2 })

/-- The peer list after a restart at the second `t`. -/
def restart (s : BanStore) (expirySeconds t : UInt64) : PeerList :=
  (restoreBansFromDb (.new expirySeconds) s.db (.at t)).2

/-- After a restart at the second `t`, the peers that are banned, and until when, are those that
were banned before until a second after `t`. -/
def RestartEquivalent (s : BanStore) (t : UInt64) : Prop :=
  ∀ expirySeconds P e,
    BannedUntil (s.restart expirySeconds t) P e ↔ BannedUntil s.peerList P e ∧ t.toNat < e

end BanStore

/-! ### Signed times -/

theorem toInt64_lt_iff {a b : UInt64} (ha : a.toNat < 2 ^ 63) (hb : b.toNat < 2 ^ 63) :
    a.toInt64 < b.toInt64 ↔ a < b := by
  rw [Int64.lt_iff_toInt_lt, toInt_toInt64 ha, toInt_toInt64 hb, UInt64.lt_iff_toNat_lt]
  omega

/-! ### The mirror -/

/-- The second at which the ban of a peer ends; zero without a ban. -/
def banEnd : Option Peer → ℕ
  | some peer => if peer.isBanned then peer.banExpiresAtUnixSec.toNat else 0
  | none => 0

/-- The second that the table has for the end of a ban; zero without a row. -/
def rowEnd : Option BannedPeerRow → ℕ
  | some row => row.expiresAt.toUInt64.toNat
  | none => 0

theorem bannedUntil_iff_banEnd {pl : PeerList} {P : Bytes 32} {e : ℕ} (he : 0 < e) :
    BannedUntil pl P e ↔ banEnd (pl.getPeer P) = e := by
  unfold BannedUntil banEnd
  cases pl.getPeer P with
  | none => simp [he.ne]
  | some peer => cases hbanned : peer.isBanned <;> simp [hbanned, he.ne]

/-- Of one peer, the table says what the list says. -/
structure Agrees (peer : Option Peer) (row : Option BannedPeerRow) : Prop where
  /-- A peer that is not banned has no expiry. -/
  lifted : ∀ p ∈ peer, p.isBanned = false → p.banExpiresAtUnixSec = 0
  same : banEnd peer = rowEnd row
  /-- The time is no negative number in the table. -/
  signed : rowEnd row < 2 ^ 63

/-- The table says of every peer what the list says. -/
structure Mirror (s : BanStore) : Prop where
  keyed : s.peerList.Keyed
  agrees : ∀ P, Agrees (s.peerList.getPeer P) (s.db.bannedPeers.lookup P)

/-- A ban reads the same second for the list and for the table, and ends at a second that fits
into 63 bits; a peer that is unbanned has no ban, or one without an end. -/
def InStep (e : Event BanStore BanInput Unit) : Prop :=
  match e.input with
  | .banAndPersist _ durationSec _ readings =>
    readings.ban = readings.expires ∧ (readings.expires + durationSec).toNat < 2 ^ 63
  | .unbanPeer pubkey => banEnd (e.before.peerList.getPeer pubkey) = 0
  | _ => True

theorem mirror_new (expirySeconds : UInt64) : Mirror (.new expirySeconds) where
  keyed := PeerList.keyed_new expirySeconds
  agrees _ := ⟨by rintro p ⟨⟩, rfl, Nat.two_pow_pos 63⟩

namespace Agrees

variable {peer : Option Peer} {row : Option BannedPeerRow}

theorem applyPenalty (h : Agrees peer row) (reason : PenaltyReason) :
    Agrees (peer.map (StellarConduit.applyPenalty · reason)) row := by
  cases peer with
  | none => exact h
  | some p =>
    obtain ⟨hlifted, hsame, hsigned⟩ := h
    have hexpiry : (StellarConduit.applyPenalty p reason).banExpiresAtUnixSec =
        p.banExpiresAtUnixSec := rfl
    cases hbanned : p.isBanned with
    | true =>
      have hbanned' : (StellarConduit.applyPenalty p reason).isBanned = true := by
        show (if _ then true else p.isBanned) = true
        rw [hbanned, ite_self]
      refine ⟨?_, ?_, hsigned⟩
      · rintro _ ⟨⟩ hnot
        rw [hbanned'] at hnot
        cases hnot
      · rw [← hsame]
        simp [banEnd, hbanned, hbanned', hexpiry]
    | false =>
      -- A ban by reputation has no end.
      have hzero : p.banExpiresAtUnixSec = 0 := hlifted p rfl hbanned
      refine ⟨?_, ?_, hsigned⟩
      · rintro _ ⟨⟩ -
        rw [hexpiry, hzero]
      · rw [← hsame]
        simp [banEnd, hbanned, hexpiry, hzero]

theorem seen (h : Agrees peer row) (pubkey : Bytes 32) (now : UInt64) :
    Agrees (some { peer.getD (Peer.new pubkey) with lastSeenUnixSec := now }) row := by
  cases peer with
  | none => exact ⟨by rintro _ ⟨⟩ -; rfl, h.same, h.signed⟩
  | some p => exact ⟨by rintro _ ⟨⟩; exact h.lifted p rfl, h.same, h.signed⟩

theorem unban (h : Agrees peer row) (hend : banEnd peer = 0) :
    Agrees (peer.map fun p => { p with isBanned := false, banExpiresAtUnixSec := 0 }) row := by
  refine ⟨?_, ?_, h.signed⟩
  · intro p hp _
    obtain ⟨q, -, rfl⟩ := Option.map_eq_some_iff.1 hp
    rfl
  · rw [← h.same, hend]
    cases peer <;> rfl

/-- A sweep lifts a ban in the list and in the table. -/
theorem sweep (h : Agrees peer row) (now : UInt64) :
    Agrees (peer.map fun p => (p.checkBanExpiration now).2)
      (if ∃ p ∈ peer, (p.checkBanExpiration now).1 = true then none else row) := by
  cases peer with
  | none => simpa using h
  | some p =>
    cases hbanned : p.isBanned with
    | false => simpa [Peer.checkBanExpiration_of_not_banned hbanned] using h
    | true =>
      rcases Nat.lt_or_ge now.toNat p.banExpiresAtUnixSec.toNat with hlt | hle
      · rw [← UInt64.lt_iff_toNat_lt] at hlt
        simpa [Peer.checkBanExpiration_of_lt hlt] using h
      · have hle' : p.banExpiresAtUnixSec ≤ now := UInt64.le_iff_toNat_le.2 hle
        rw [Option.map_some, Peer.checkBanExpiration_of_le hbanned hle']
        rw [if_pos ⟨p, rfl, by rw [Peer.checkBanExpiration_of_le hbanned hle']⟩]
        exact ⟨by rintro _ ⟨⟩ -; rfl, rfl, by decide⟩

end Agrees

/-- Changing one record keeps the mirror if it keeps the agreement there. -/
theorem Mirror.modifyPeer {s : BanStore} (h : Mirror s) (pubkey : Bytes 32) {f : Peer → Peer}
    (hf : ∀ peer, (f peer).identity = peer.identity)
    (hagrees : Agrees ((s.peerList.getPeer pubkey).map f) (s.db.bannedPeers.lookup pubkey)) :
    Mirror { s with peerList := s.peerList.modifyPeer pubkey f } := by
  refine ⟨h.keyed.modifyPeer pubkey hf, fun P => ?_⟩
  show Agrees ((s.peerList.modifyPeer pubkey f).getPeer P) _
  by_cases hP : P = pubkey
  · subst hP
    rw [PeerList.getPeer_modifyPeer_self]
    exact hagrees
  · rw [PeerList.getPeer_modifyPeer_ne _ hP]
    exact h.agrees P

theorem Mirror.banAndPersist {s : BanStore} (h : Mirror s) (pubkey : Bytes 32)
    (durationSec : UInt64) (reason : String) {readings : BanReadings}
    (hclock : readings.ban = readings.expires)
    (hend : (readings.expires + durationSec).toNat < 2 ^ 63) :
    Mirror (s.step (.banAndPersist pubkey durationSec reason readings)).2 := by
  let readings' := { readings with fault := none }
  have hlist := getPeer_banAndPersist_self s.peerList (some s.db) pubkey durationSec reason
    readings'
  have hrow := bannedPeers_banAndPersist_self s.peerList (some s.db) pubkey durationSec reason
    readings'
  refine ⟨?_, fun P => ?_⟩
  · exact h.keyed.banAndPersist (some s.db) pubkey durationSec reason readings'
  · show Agrees
      ((StellarConduit.banAndPersist s.peerList (some s.db) pubkey durationSec reason
        readings').1.getPeer P)
      (((StellarConduit.banAndPersist s.peerList (some s.db) pubkey durationSec reason
        readings').2.getD s.db).bannedPeers.lookup P)
    by_cases hP : P = pubkey
    · subst hP
      obtain ⟨db, hdb, hlookup⟩ := Option.map_eq_some_iff.1 hrow
      -- Both expiries are computed from the clock; they agree if it reads the same twice.
      have hsum : readings.ban + durationSec = readings.expires + durationSec := by rw [hclock]
      rw [hlist, hdb, Option.getD_some, hlookup]
      refine ⟨?_, congrArg UInt64.toNat hsum, hend⟩
      rintro _ ⟨⟩ hnot
      cases hnot
    · have hother := bannedPeers_banAndPersist_ne s.peerList (some s.db) pubkey durationSec
        reason readings' hP
      obtain ⟨db, hdb, hlookup⟩ := Option.map_eq_some_iff.1 hother
      rw [getPeer_banAndPersist_ne _ _ _ _ _ _ hP, hdb, Option.getD_some, hlookup]
      exact h.agrees P

/-- The table forgets the bans that the sweep has lifted in the list. -/
theorem Mirror.sweep {s : BanStore} (h : Mirror s) (now : Bytes 32 → UInt64) :
    Mirror (s.step (.sweep now)).2 := by
  refine ⟨h.keyed.checkBanExpirations now, fun P => ?_⟩
  show Agrees ((s.peerList.checkBanExpirations now).2.getPeer P)
    ((s.db.removeBans (s.peerList.checkBanExpirations now).1).bannedPeers.lookup P)
  rw [PeerList.getPeer_checkBanExpirations, MeshDatabase.lookup_removeBans]
  simp only [h.keyed.exists_mem_checkBanExpirations]
  exact (h.agrees P).sweep (now P)

/-- **A step keeps the mirror** if it is in step. -/
theorem mirror_step {s : BanStore} (h : Mirror s) {i : BanInput}
    (hstep : InStep ⟨s, i, (s.step i).1⟩) : Mirror (s.step i).2 := by
  cases i with
  | banAndPersist pubkey durationSec reason readings =>
    exact h.banAndPersist pubkey durationSec reason hstep.1 hstep.2
  | unbanPeer pubkey =>
    exact h.modifyPeer pubkey (fun _ => rfl) ((h.agrees pubkey).unban hstep)
  | applyPenalty pubkey reason =>
    exact h.modifyPeer pubkey (fun _ => rfl) ((h.agrees pubkey).applyPenalty reason)
  | sweep now => exact h.sweep now
  | insertOrUpdate pubkey signalStrength now =>
    refine ⟨h.keyed.insertOrUpdate pubkey signalStrength now, fun P => ?_⟩
    show Agrees ((s.peerList.insertOrUpdate pubkey signalStrength now).2.getPeer P) _
    by_cases hP : P = pubkey
    · subst hP
      rw [PeerList.getPeer_insertOrUpdate_self]
      exact (h.agrees P).seen P now
    · rw [PeerList.getPeer_insertOrUpdate_ne _ hP]
      exact h.agrees P

theorem mirror_exec {s : BanStore} (h : Mirror s) {is : List BanInput}
    (hsteps : ∀ e ∈ trace BanStore.step s is, InStep e) : Mirror (exec BanStore.step s is) := by
  obtain ⟨-, hlast⟩ := trace_invariant Mirror (fun _ _ hi hs => mirror_step hs hi) hsteps h
  exact hlast

/-! ### The restart -/

/-- A restart brings back the ban in a row if the row ends after it, as a signed number and as an
unsigned one. -/
theorem bannedUntil_restart_iff_row (s : BanStore) (P : Bytes 32) (expirySeconds t : UInt64)
    (e : ℕ) :
    BannedUntil (s.restart expirySeconds t) P e ↔
      ∃ row ∈ s.db.bannedPeers.lookup P, t.toInt64 < row.expiresAt ∧
        t < row.expiresAt.toUInt64 ∧ row.expiresAt.toUInt64.toNat = e := by
  obtain ⟨bans, hbans⟩ : ∃ bans, s.db.loadActiveBans t none = .ok bans := ⟨_, rfl⟩
  have hrestart : s.restart expirySeconds t =
      bans.foldl (restoreBan (.at t)) (.new expirySeconds) := by
    unfold BanStore.restart restoreBansFromDb
    dsimp only [RestoreReadings.at]
    rw [hbans]
  have hnobody : ¬ BannedUntil (.new expirySeconds) P e := by
    rintro ⟨peer, hpeer, -⟩
    cases hpeer
  rw [hrestart]
  by_cases hmem : P ∈ bans.map PersistedBan.pubkey
  · obtain ⟨ban, hban, rfl⟩ := List.mem_map.1 hmem
    obtain ⟨row, hrow, hactive, hexpires, -⟩ := (MeshDatabase.mem_loadActiveBans hbans).1 hban
    unfold BannedUntil
    rw [getPeer_foldl_restoreBan _ _ (MeshDatabase.nodup_loadActiveBans hbans) hban, hrow]
    -- The rows are compared as signed numbers, the bans as unsigned ones; both must be late.
    by_cases hlate : ban.expiresAt > t
    · have hsum : t + (ban.expiresAt - t) = row.expiresAt.toUInt64 := by
        rw [UInt64.add_comm, UInt64.sub_add_cancel, hexpires]
      rw [getPeer_restoreBan_self (.at t) _ hlate]
      constructor
      · rintro ⟨_, ⟨⟩, -, he⟩
        have he' : (t + (ban.expiresAt - t)).toNat = e := he
        rw [hsum] at he'
        exact ⟨row, rfl, hactive, hexpires ▸ hlate, he'⟩
      · rintro ⟨_, ⟨⟩, -, -, he⟩
        refine ⟨_, rfl, rfl, ?_⟩
        show (t + (ban.expiresAt - t)).toNat = e
        rw [hsum, he]
    · have hround : restoreBan (.at t) (.new expirySeconds) ban = .new expirySeconds := if_neg hlate
      rw [hround]
      refine iff_of_false hnobody ?_
      rintro ⟨_, ⟨⟩, -, hlt, -⟩
      exact hlate (hexpires ▸ hlt)
  · unfold BannedUntil
    rw [getPeer_foldl_restoreBan_of_notMem _ _ hmem]
    refine iff_of_false hnobody ?_
    rintro ⟨row, hrow, hactive, -, -⟩
    have hban : ⟨P, row.expiresAt.toUInt64, row.reason⟩ ∈ bans :=
      (MeshDatabase.mem_loadActiveBans hbans).2 ⟨row, hrow, hactive, rfl, rfl⟩
    exact hmem (List.mem_map.2 ⟨_, hban, rfl⟩)

/-- A restart brings back the bans in the table that end after it. -/
theorem bannedUntil_restart_iff {s : BanStore} {P : Bytes 32}
    (hsigned : rowEnd (s.db.bannedPeers.lookup P) < 2 ^ 63) (expirySeconds t : UInt64) (e : ℕ) :
    BannedUntil (s.restart expirySeconds t) P e ↔
      t.toNat < e ∧ rowEnd (s.db.bannedPeers.lookup P) = e := by
  rw [bannedUntil_restart_iff_row]
  cases hrow : s.db.bannedPeers.lookup P with
  | none =>
    refine iff_of_false (by simp) ?_
    rintro ⟨hlt, hend⟩
    have hzero : 0 = e := hend
    omega
  | some row =>
    rw [hrow] at hsigned
    have hsigned' : row.expiresAt.toUInt64.toNat < 2 ^ 63 := hsigned
    show _ ↔ t.toNat < e ∧ row.expiresAt.toUInt64.toNat = e
    constructor
    · rintro ⟨_, ⟨⟩, -, hlt, hend⟩
      rw [UInt64.lt_iff_toNat_lt] at hlt
      exact ⟨by omega, hend⟩
    · rintro ⟨hlt, hend⟩
      -- Neither the time in the row nor `t` is a negative number.
      have hlt' : t < row.expiresAt.toUInt64 := UInt64.lt_iff_toNat_lt.2 (by omega)
      have hactive := (toInt64_lt_iff (a := t) (by omega) hsigned').2 hlt'
      rw [Int64.toInt64_toUInt64] at hactive
      exact ⟨row, rfl, hactive, hlt', hend⟩

/-- **A restart keeps the bans.**  After any calls that are in step, a restart at any second `t`
brings back the bans that end after `t`, with their ends, and no others. -/
theorem restart_equivalent (expirySeconds : UInt64) (is : List BanInput)
    (hsteps : ∀ e ∈ trace BanStore.step (.new expirySeconds) is, InStep e) (t : UInt64) :
    (exec BanStore.step (.new expirySeconds) is).RestartEquivalent t := by
  have hmirror := mirror_exec (mirror_new expirySeconds) hsteps
  intro expirySeconds' P e
  obtain ⟨-, hsame, hsigned⟩ := hmirror.agrees P
  rw [bannedUntil_restart_iff hsigned, ← hsame, and_comm]
  refine and_congr_left fun hlt => ?_
  rw [bannedUntil_iff_banEnd (by omega)]

/-- A call that bans the holder of the sample key for a day, all within one second. -/
def sampleBan : BanInput :=
  .banAndPersist sampleKey 86400 "repeated invalid signatures"
    ⟨1672531200, 1672531200, 1672531200, 1672531200, none⟩

/-- A ban and a sweep in its last hour. -/
theorem restart_equivalent_sample :
    BannedUntil (BanStore.restart (exec BanStore.step (.new 300)
      [sampleBan, .sweep fun _ => 1672614000]) 300 1672614000) sampleKey 1672617600 := by
  refine ((restart_equivalent 300 [sampleBan, .sweep fun _ => 1672614000] ?_ 1672614000)
    300 sampleKey 1672617600).2 ⟨?_, by decide⟩
  · simp only [trace_cons, trace_nil, List.forall_mem_cons]
    exact ⟨⟨rfl, by decide⟩, trivial, by simp⟩
  · rw [bannedUntil_iff_banEnd (by decide)]
    decide +kernel

/-- A peer that was unbanned is banned again by a restart before the end of its ban. -/
theorem not_restartEquivalent_of_unban {s : BanStore} (h : Mirror s) {P : Bytes 32} {e : ℕ}
    (hban : BannedUntil s.peerList P e) {t : UInt64} (ht : t.toNat < e) :
    ¬ (s.step (.unbanPeer P)).2.RestartEquivalent t := by
  intro hequiv
  obtain ⟨-, hsame, hsigned⟩ := h.agrees P
  have hend := (bannedUntil_iff_banEnd (by omega)).1 hban
  have hrestored : BannedUntil ((s.step (.unbanPeer P)).2.restart 0 t) P e :=
    (bannedUntil_restart_iff hsigned 0 t e).2 ⟨ht, hsame.symm.trans hend⟩
  obtain ⟨⟨peer, hpeer, hbanned, -⟩, -⟩ := (hequiv 0 P e).1 hrestored
  have hpeer' : (s.peerList.modifyPeer P _).getPeer P = some peer := hpeer
  rw [PeerList.getPeer_modifyPeer_self] at hpeer'
  obtain ⟨_, -, rfl⟩ := Option.map_eq_some_iff.1 hpeer'
  cases hbanned

/-- The failing input: a ban for a day, which is lifted by hand. -/
theorem unbanned_restored_sample :
    ¬ (exec BanStore.step (.new 300)
      [sampleBan, .unbanPeer sampleKey]).RestartEquivalent 1672531300 := by
  have hmirror : Mirror (exec BanStore.step (.new 300) [sampleBan]) := by
    refine mirror_exec (mirror_new 300) ?_
    simp only [trace_cons, trace_nil, List.forall_mem_cons]
    exact ⟨⟨rfl, by decide⟩, by simp⟩
  have hban : BannedUntil (exec BanStore.step (.new 300) [sampleBan]).peerList sampleKey
      1672617600 := by
    rw [bannedUntil_iff_banEnd (by decide)]
    decide +kernel
  exact not_restartEquivalent_of_unban hmirror hban (by decide)

end StellarConduit
