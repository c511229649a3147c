import StellarConduit.Discovery.PeerList
import StellarConduit.Lib.Machine
import StellarConduit.Message.Crypto

/-!
# Bans in the peer list

The calls on a `PeerList`, in any order, and how long a ban lasts under them.  A ban is a part of
the record of its peer, and `prune_stale_peers` removes records without looking at the ban.

* `PeerList.step`: the calls, as a machine; `PeerList.keyed_exec`: records carry their keys;
* `BannedUntil`: the record of a peer says that it is banned until some second;
* `bannedUntil_step`, `bannedUntil_exec`: what keeps a ban in place;
* `ban_lasts_iff`: a ban lasts its full time exactly when no sweep of stale peers meets its peer.
-/

namespace StellarConduit

open Verif.Machine

inductive PeerListInput
  | insertOrUpdate (pubkey : Bytes 32) (signalStrength : UInt8) (now : UInt64)
  | pruneStalePeers (now : UInt64)
  | checkBanExpirations (now : Bytes 32 → UInt64)
  | setLastSeen (pubkey : Bytes 32) (ts : UInt64)
  | banPeer (pubkey : Bytes 32) (durationSec now : UInt64)
  | unbanPeer (pubkey : Bytes 32)
  /-- `apply_penalty` and `apply_reward` through `get_peer_mut` -/
  | applyPenalty (pubkey : Bytes 32) (reason : PenaltyReason)
  | applyReward (pubkey : Bytes 32) (reason : RewardReason)

inductive PeerListOutput
  | event (event : DiscoveryEvent)
  | lost (events : List DiscoveryEvent)
  | unbanned (peers : List PeerIdentity)
  | found (found : Bool)
  | done

def PeerList.step (pl : PeerList) : PeerListInput → PeerListOutput × PeerList
  | .insertOrUpdate pubkey signalStrength now =>
    let (event, pl) := pl.insertOrUpdate pubkey signalStrength now
    (.event event, pl)
  | .pruneStalePeers now =>
    let (events, pl) := pl.pruneStalePeers now
    (.lost events, pl)
  | .checkBanExpirations now =>
    let (peers, pl) := pl.checkBanExpirations now
    (.unbanned peers, pl)
  | .setLastSeen pubkey ts => (.done, pl.setLastSeen pubkey ts)
  | .banPeer pubkey durationSec now =>
    let (found, pl) := pl.banPeer pubkey durationSec now
    (.found found, pl)
  | .unbanPeer pubkey =>
    let (found, pl) := pl.unbanPeer pubkey
    (.found found, pl)
  | .applyPenalty pubkey reason => (.done, pl.modifyPeer pubkey (applyPenalty · reason))
  | .applyReward pubkey reason => (.done, pl.modifyPeer pubkey (applyReward · reason))

abbrev PeerListEvent := Event PeerList PeerListInput PeerListOutput

theorem PeerList.Keyed.step {pl : PeerList} (h : pl.Keyed) (i : PeerListInput) :
    (pl.step i).2.Keyed := by
  cases i with
  | insertOrUpdate pubkey signalStrength now => exact h.insertOrUpdate pubkey signalStrength now
  | pruneStalePeers now =>
    intro pubkey peer hpeer
    have hkept := (pl.getPeer_pruneStalePeers now pubkey).symm.trans hpeer
    exact h pubkey peer (Option.filter_eq_some_iff.1 hkept).1
  | checkBanExpirations now => exact h.checkBanExpirations now
  | setLastSeen pubkey ts => exact h.modifyPeer pubkey fun _ => rfl
  | banPeer pubkey durationSec now => exact h.modifyPeer pubkey fun _ => rfl
  | unbanPeer pubkey => exact h.modifyPeer pubkey fun _ => rfl
  | applyPenalty pubkey reason => exact h.modifyPeer pubkey fun _ => rfl
  | applyReward pubkey reason => exact h.modifyPeer pubkey fun _ => rfl

/-- Every record carries its key, whatever calls were made. -/
theorem PeerList.keyed_exec (expirySeconds : UInt64) (inputs : List PeerListInput) :
    (exec PeerList.step (PeerList.new expirySeconds) inputs).Keyed :=
  exec_invariant PeerList.Keyed (fun _ i _ h => h.step i) (PeerList.keyed_new expirySeconds)

/-- The call unbans the peer or bans it again. -/
def Rebans (P : Bytes 32) : PeerListInput → Prop
  | .banPeer pubkey _ _ => pubkey = P
  | .unbanPeer pubkey => pubkey = P
  | _ => False

/-- If the call looks at the expiration of bans, it looks at the peer's before the second `e`. -/
def LooksBefore (P : Bytes 32) (e : ℕ) : PeerListInput → Prop
  | .checkBanExpirations now => (now P).toNat < e
  | _ => True

/-- The second of a sweep of stale peers. -/
def pruningTime : PeerListInput → Option UInt64
  | .pruneStalePeers now => some now
  | _ => none

/-- The call removes the record of the peer, which it finds stale. -/
def PrunesStale (P : Bytes 32) (e : PeerListEvent) : Prop :=
  ∃ now ∈ pruningTime e.input, ∃ peer ∈ e.before.getPeer P, e.before.isStale now peer = true

instance (P : Bytes 32) : DecidablePred (PrunesStale P) := fun e =>
  inferInstanceAs (Decidable (∃ now ∈ pruningTime e.input, ∃ peer ∈ e.before.getPeer P, _))

/-- The peer is on the list, banned until the second `e`. -/
def BannedUntil (pl : PeerList) (P : Bytes 32) (e : ℕ) : Prop :=
  ∃ peer, pl.getPeer P = some peer ∧ peer.isBanned = true ∧ peer.banExpiresAtUnixSec.toNat = e

section Steps

variable {pl : PeerList} {P : Bytes 32} {e : ℕ}

theorem BannedUntil.isPeerBanned (h : BannedUntil pl P e) : pl.isPeerBanned P = true := by
  obtain ⟨peer, hpeer, hbanned, -⟩ := h
  unfold PeerList.isPeerBanned
  rw [hpeer]
  exact hbanned

/-- A change of another record, or one that leaves the ban alone, keeps it. -/
theorem BannedUntil.modifyPeer (h : BannedUntil pl P e) {pubkey : Bytes 32} {f : Peer → Peer}
    (hf : pubkey = P → ∀ peer, peer.isBanned = true → (f peer).isBanned = true ∧
      (f peer).banExpiresAtUnixSec = peer.banExpiresAtUnixSec) :
    BannedUntil (pl.modifyPeer pubkey f) P e := by
  obtain ⟨peer, hpeer, hbanned, he⟩ := h
  by_cases hP : pubkey = P
  · obtain ⟨hbanned', he'⟩ := hf hP peer hbanned
    subst hP
    exact ⟨f peer, by simp [hpeer], hbanned', by rw [he', he]⟩
  · exact ⟨peer, by rw [PeerList.getPeer_modifyPeer_ne pl (Ne.symm hP), hpeer], hbanned, he⟩

/-- **A step keeps a ban** that it does not lift, unless it prunes the record. -/
theorem bannedUntil_step (h : BannedUntil pl P e) {i : PeerListInput} (hrebans : ¬ Rebans P i)
    (hlooks : LooksBefore P e i) (hprune : ¬ PrunesStale P ⟨pl, i, (pl.step i).1⟩) :
    BannedUntil (pl.step i).2 P e := by
  cases i with
  | insertOrUpdate pubkey signalStrength now =>
    obtain ⟨peer, hpeer, hbanned, he⟩ := h
    show BannedUntil (pl.insertOrUpdate pubkey signalStrength now).2 P e
    by_cases hP : P = pubkey
    · subst hP
      refine ⟨_, PeerList.getPeer_insertOrUpdate_self pl P signalStrength now, ?_⟩
      rw [hpeer]
      exact ⟨hbanned, he⟩
    · exact ⟨peer, (PeerList.getPeer_insertOrUpdate_ne pl hP _ _).trans hpeer, hbanned, he⟩
  | pruneStalePeers now =>
    obtain ⟨peer, hpeer, hbanned, he⟩ := h
    -- A sweep would forget the ban with the record, but this record is fresh.
    have hfresh : pl.isStale now peer = false := by
      rw [← Bool.not_eq_true]
      exact fun hstale => hprune ⟨now, rfl, peer, hpeer, hstale⟩
    refine ⟨peer, ?_, hbanned, he⟩
    show (pl.pruneStalePeers now).2.getPeer P = some peer
    rw [PeerList.getPeer_pruneStalePeers, hpeer, Option.filter_some, hfresh]
    rfl
  | checkBanExpirations now =>
    obtain ⟨peer, hpeer, hbanned, he⟩ := h
    have hlt : now P < peer.banExpiresAtUnixSec := by
      rw [UInt64.lt_iff_toNat_lt, he]
      exact hlooks
    refine ⟨peer, ?_, hbanned, he⟩
    show (pl.checkBanExpirations now).2.getPeer P = some peer
    rw [PeerList.getPeer_checkBanExpirations, hpeer, Option.map_some,
      Peer.checkBanExpiration_of_lt hlt]
  | setLastSeen pubkey ts => exact h.modifyPeer fun _ peer hbanned => ⟨hbanned, rfl⟩
  | banPeer pubkey durationSec now => exact h.modifyPeer fun hP => absurd hP hrebans
  | unbanPeer pubkey => exact h.modifyPeer fun hP => absurd hP hrebans
  | applyPenalty pubkey reason =>
    -- A penalty sets the flag or leaves it, and has no part in the expiry.
    refine h.modifyPeer fun _ peer hbanned => ⟨?_, rfl⟩
    show (if _ then true else peer.isBanned) = true
    rw [hbanned]
    exact ite_self true
  | applyReward pubkey reason => exact h.modifyPeer fun _ peer hbanned => ⟨hbanned, rfl⟩

/-- A pruned peer is not banned. -/
theorem not_isPeerBanned_of_prunesStale {i : PeerListInput} {o : PeerListOutput}
    (h : PrunesStale P ⟨pl, i, o⟩) : (pl.step i).2.isPeerBanned P = false := by
  obtain ⟨now, hnow, peer, hpeer, hstale⟩ := h
  cases i <;> cases hnow
  show (pl.pruneStalePeers now).2.isPeerBanned P = false
  have hpeer' : pl.getPeer P = some peer := hpeer
  have hstale' : pl.isStale now peer = true := hstale
  rw [PeerList.isPeerBanned, PeerList.getPeer_pruneStalePeers, hpeer', Option.filter_some, hstale']
  rfl

end Steps

/-! ### Runs -/

/-- **A run keeps a ban** that it does not lift, unless it prunes the record. -/
theorem bannedUntil_exec {pl : PeerList} {P : Bytes 32} {e : ℕ} (h : BannedUntil pl P e)
    {is : List PeerListInput} (hrebans : ∀ i ∈ is, ¬ Rebans P i)
    (hlooks : ∀ i ∈ is, LooksBefore P e i)
    (hprune : ∀ ev ∈ trace PeerList.step pl is, ¬ PrunesStale P ev) :
    BannedUntil (exec PeerList.step pl is) P e := by
  have hcalls : ∀ ev ∈ trace PeerList.step pl is,
      ¬ Rebans P ev.input ∧ LooksBefore P e ev.input ∧ ¬ PrunesStale P ev := by
    intro ev hev
    have hi : ev.input ∈ is := map_input_trace PeerList.step pl is ▸ List.mem_map_of_mem hev
    exact ⟨hrebans _ hi, hlooks _ hi, hprune ev hev⟩
  obtain ⟨-, hlast⟩ := trace_invariant (BannedUntil · P e)
    (fun _ _ ⟨hreban, hlook, hpruned⟩ hs => bannedUntil_step hs hreban hlook hpruned) hcalls h
  exact hlast

/-- **How long a ban lasts.**  A listed peer is banned at the second `t` for `d` seconds.  Calls
follow that neither unban it nor ban it again, and that look at the expiration of its ban before
`t + d`.  The peer is banned after each of them if and only if no sweep of stale peers finds it
stale. -/
theorem ban_lasts_iff (pl : PeerList) (P : Bytes 32) (t d : UInt64)
    (hlisted : (pl.getPeer P).isSome) (hfits : t.toNat + d.toNat < UInt64.size)
    (is : List PeerListInput) (hrebans : ∀ i ∈ is, ¬ Rebans P i)
    (hlooks : ∀ i ∈ is, LooksBefore P (t.toNat + d.toNat) i) :
    (∀ pre post, is = pre ++ post →
      (exec PeerList.step (pl.banPeer P d t).2 pre).isPeerBanned P = true) ↔
      ∀ e ∈ trace PeerList.step (pl.banPeer P d t).2 is, ¬ PrunesStale P e := by
  have hbanned : BannedUntil (pl.banPeer P d t).2 P (t.toNat + d.toNat) := by
    obtain ⟨peer, hpeer⟩ := Option.isSome_iff_exists.1 hlisted
    refine ⟨peer.ban d t, ?_, rfl, ?_⟩
    · rw [PeerList.banPeer, PeerList.getPeer_modifyPeer_self, hpeer]
      rfl
    · show (t + d).toNat = _
      rw [UInt64.toNat_add, Nat.mod_eq_of_lt hfits]
  constructor
  · intro hall e he hstale
    obtain ⟨pre, i, post, hsplit, rfl⟩ := mem_trace he
    have hafter := hall (pre ++ [i]) post (by rw [hsplit]; simp)
    rw [exec_append] at hafter
    exact absurd hafter (by
      rw [exec_cons, exec_nil, not_isPeerBanned_of_prunesStale hstale]
      exact Bool.false_ne_true)
  · rintro hnone pre post rfl
    rw [trace_append] at hnone
    exact (bannedUntil_exec hbanned (fun i hi => hrebans i (List.mem_append_left post hi))
      (fun i hi => hlooks i (List.mem_append_left post hi))
      fun e he => hnone e (List.mem_append_left _ he)).isPeerBanned

/-- The list of the daemon, which has just seen the holder of the sample key. -/
def sampleSeen : PeerList := ((PeerList.new 300).insertOrUpdate sampleKey 7 1672531200).2

/-- A peer that is seen again in time stays banned. -/
theorem ban_lasts_sample :
    (exec PeerList.step (sampleSeen.banPeer sampleKey 86400 1672531200).2
      [.insertOrUpdate sampleKey 7 1672531400, .pruneStalePeers 1672531600,
        .checkBanExpirations fun _ => 1672531600]).isPeerBanned sampleKey = true := by
  refine (ban_lasts_iff sampleSeen sampleKey 1672531200 86400 (by decide +kernel)
    (by decide) _ ?_ ?_).2 ?_ _ [] (List.append_nil _).symm
  · simp [Rebans]
  · simp [LooksBefore]
  · decide +kernel

/-- A banned peer that is not seen for five minutes is forgotten, and is no longer banned when it
is discovered again. -/
theorem ban_forgotten_sample :
    (exec PeerList.step (sampleSeen.banPeer sampleKey 86400 1672531200).2
        [.pruneStalePeers 1672531501]).isPeerBanned sampleKey = false ∧
      (exec PeerList.step (sampleSeen.banPeer sampleKey 86400 1672531200).2
        [.pruneStalePeers 1672531501,
          .insertOrUpdate sampleKey 7 1672531502]).isPeerBanned sampleKey = false := by
  decide +kernel

end StellarConduit
