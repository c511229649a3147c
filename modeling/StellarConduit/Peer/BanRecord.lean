import Mathlib.Data.List.Induction
import StellarConduit.Discovery.Bans
import StellarConduit.Lib.Machine

/-!
# The ban record of one peer

A ban is on record twice in a `Peer`: in `is_banned`, and in `ban_expires_at_unix_sec`, which is 0
if the peer is not banned.  This file runs the operations that touch the record of one peer, and
says which of them keep the two in agreement.

* `Peer.step`: the operations, as a machine; `PeerListInput.getPeer_step`: they are what the calls
  on a peer list do to its records;
* `Peer.Consistent`: the reputation is in its range and the two entries agree;
* `consistent_step_iff`: which operations keep this;
* `consistent_iff`: when a run keeps it, and lifts no ban before its expiry.
-/

namespace StellarConduit

open Verif.Machine

inductive PeerInput
  | ban (durationSec now : UInt64)
  | unban
  | applyPenalty (reason : PenaltyReason)
  | applyReward (reason : RewardReason)
  | checkBanExpiration (now : UInt64)

namespace Peer

/-- The answer is that of `check_ban_expiration`: it says whether a ban was lifted. -/
def step (peer : Peer) : PeerInput → Bool × Peer
  | .ban durationSec now => (false, peer.ban durationSec now)
  | .unban => (false, { peer with isBanned := false, banExpiresAtUnixSec := 0 })
  | .applyPenalty reason => (false, StellarConduit.applyPenalty peer reason)
  | .applyReward reason => (false, StellarConduit.applyReward peer reason)
  | .checkBanExpiration now => peer.checkBanExpiration now

end Peer

/-- What a call on a peer list does to the record of one peer. -/
def PeerListInput.peerInput? (P : Bytes 32) : PeerListInput → Option PeerInput
  | .checkBanExpirations now => some (.checkBanExpiration (now P))
  | .banPeer pubkey durationSec now => if P = pubkey then some (.ban durationSec now) else none
  | .unbanPeer pubkey => if P = pubkey then some .unban else none
  | .applyPenalty pubkey reason => if P = pubkey then some (.applyPenalty reason) else none
  | .applyReward pubkey reason => if P = pubkey then some (.applyReward reason) else none
  | _ => none

theorem getPeer_modifyPeer_of_if {pl : PeerList} {P pubkey : Bytes 32} {i j : PeerInput}
    (h : (if P = pubkey then some i else none) = some j) {f : Peer → Peer}
    (hf : ∀ peer, f peer = (peer.step i).2) :
    (pl.modifyPeer pubkey f).getPeer P = (pl.getPeer P).map fun peer => (peer.step j).2 := by
  split_ifs at h with hP
  cases h
  subst hP
  rw [PeerList.getPeer_modifyPeer_self]
  exact congrArg (fun g => (pl.getPeer P).map g) (funext hf)

/-- The calls on a peer list do to its records what the operations on a peer do. -/
theorem PeerListInput.getPeer_step {pl : PeerList} {P : Bytes 32} {i : PeerListInput}
    {j : PeerInput} (h : i.peerInput? P = some j) :
    (pl.step i).2.getPeer P = (pl.getPeer P).map fun peer => (peer.step j).2 := by
  cases i with
  | checkBanExpirations now =>
    cases h
    exact PeerList.getPeer_checkBanExpirations pl now P
  | banPeer pubkey durationSec now => exact getPeer_modifyPeer_of_if h fun _ => rfl
  | unbanPeer pubkey => exact getPeer_modifyPeer_of_if h fun _ => rfl
  | applyPenalty pubkey reason => exact getPeer_modifyPeer_of_if h fun _ => rfl
  | applyReward pubkey reason => exact getPeer_modifyPeer_of_if h fun _ => rfl
  | insertOrUpdate => cases h
  | pruneStalePeers => cases h
  | setLastSeen => cases h

/-! ### One operation -/

namespace Peer

/-- The reputation is in its range, and the peer is banned if and only if it has an expiry. -/
def Consistent (peer : Peer) : Prop :=
  peer.reputation ≤ 100 ∧ (peer.isBanned = true ↔ peer.banExpiresAtUnixSec ≠ 0)

instance (peer : Peer) : Decidable peer.Consistent := inferInstanceAs (Decidable (_ ∧ _))

/-- The operation bans a peer with an expiry, if it bans one that is not banned: a ban does not
expire at 0, and a penalty does not bring the reputation of a peer that is not banned to 0. -/
def BansWithExpiry (peer : Peer) : PeerInput → Prop
  | .ban durationSec now => now + durationSec ≠ 0
  | .applyPenalty reason => peer.isBanned = true ∨ ¬ peer.reputation ≤ reason.points
  | _ => True

instance (peer : Peer) (i : PeerInput) : Decidable (peer.BansWithExpiry i) := by
  cases i <;> unfold BansWithExpiry <;> infer_instance

theorem consistent_new (pubkey : Bytes 32) : (Peer.new pubkey).Consistent := by
  constructor
  · show (100 : UInt32) ≤ 100
    decide
  · simp [Peer.new]

/-- **Which operations keep the record consistent.** -/
theorem consistent_step_iff {peer : Peer} (h : peer.Consistent) (i : PeerInput) :
    (peer.step i).2.Consistent ↔ peer.BansWithExpiry i := by
  obtain ⟨hrange, hagree⟩ := h
  cases i with
  | ban durationSec now => simp [step, Peer.ban, Consistent, BansWithExpiry, hrange]
  | unban => simp [step, Consistent, BansWithExpiry, hrange]
  | applyPenalty reason =>
    have hle := saturatingSub_le peer.reputation reason.points
    have hrange' : saturatingSub peer.reputation reason.points ≤ 100 := UInt32.le_trans hle hrange
    simp only [step, StellarConduit.applyPenalty, Consistent, BansWithExpiry, hrange', true_and,
      saturatingSub_eq_zero_iff]
    -- Only the penalty that takes the last points bans, and it sets no expiry.
    by_cases hzero : peer.reputation ≤ reason.points
    · simp [hzero, hagree]
    · simp [hzero, hagree]
  | applyReward reason =>
    have hrange' : min (peer.reputation + reason.points) 100 ≤ 100 := by
      show (if _ then _ else _) ≤ (100 : UInt32)
      split_ifs with hle
      · exact hle
      · exact UInt32.le_refl 100
    simp [step, StellarConduit.applyReward, Consistent, BansWithExpiry, hrange', hagree]
  | checkBanExpiration now =>
    simp only [step, BansWithExpiry, iff_true]
    unfold Peer.checkBanExpiration
    split_ifs
    · exact ⟨hrange, hagree⟩
    · exact ⟨hrange, by simp⟩
    · exact ⟨hrange, hagree⟩

/-! ### Runs -/

/-- The ban operations of a run, as the expiry that each of them sets. -/
def expiriesSet (inputs : List PeerInput) : List UInt64 :=
  inputs.filterMap fun
    | .ban durationSec now => some (now + durationSec)
    | _ => none

/-- An expiry on record was set by a ban. -/
theorem expiry_mem (pubkey : Bytes 32) (inputs : List PeerInput) :
    (exec step (Peer.new pubkey) inputs).banExpiresAtUnixSec ≠ 0 →
      (exec step (Peer.new pubkey) inputs).banExpiresAtUnixSec ∈ expiriesSet inputs := by
  induction inputs using List.reverseRecOn with
  | nil => simp [Peer.new]
  | append_singleton inputs i ih =>
    rw [exec_concat]
    have hset : expiriesSet (inputs ++ [i]) = expiriesSet inputs ++ expiriesSet [i] :=
      List.filterMap_append
    rw [hset, List.mem_append]
    generalize exec step (Peer.new pubkey) inputs = peer at ih ⊢
    intro h
    cases i with
    | ban durationSec now => exact .inr (List.mem_singleton_self _)
    | unban => exact absurd rfl h
    | applyPenalty reason => exact .inl (ih h)
    | applyReward reason => exact .inl (ih h)
    | checkBanExpiration now =>
      simp only [step, Peer.checkBanExpiration] at h ⊢
      split_ifs at h ⊢
      · exact .inl (ih h)
      · exact absurd rfl h
      · exact .inl (ih h)

/-- A check that lifts a ban does so at its expiry or later, and the peer was banned. -/
theorem checkBanExpiration_lifts {peer : Peer} {now : UInt64}
    (h : (peer.checkBanExpiration now).1 = true) :
    peer.isBanned = true ∧ peer.banExpiresAtUnixSec ≤ now := by
  unfold Peer.checkBanExpiration at h
  split_ifs at h with hbanned hle
  exact ⟨by simpa using hbanned, hle⟩

/-- Whenever a check lifts a ban, it is at an expiry on record that some ban before has set, or
later. -/
def LiftsAfterExpiry (pubkey : Bytes 32) (inputs : List PeerInput) : Prop :=
  ∀ pre now post, inputs = pre ++ .checkBanExpiration now :: post →
    ((exec step (Peer.new pubkey) pre).step (.checkBanExpiration now)).1 = true →
      ∃ expiry ∈ expiriesSet pre,
        (exec step (Peer.new pubkey) pre).banExpiresAtUnixSec = expiry ∧ expiry ≤ now

/-- **Runs.**  The record of a peer is consistent all along a run, and every ban that is lifted was
set and has expired, if and only if every operation that bans the peer gives it an expiry. -/
theorem consistent_iff (pubkey : Bytes 32) (inputs : List PeerInput) :
    ((∀ pre, pre <+: inputs → (exec step (Peer.new pubkey) pre).Consistent) ∧
        LiftsAfterExpiry pubkey inputs) ↔
      ∀ e ∈ trace step (Peer.new pubkey) inputs, e.before.BansWithExpiry e.input := by
  constructor
  · rintro ⟨hconsistent, -⟩ e he
    obtain ⟨pre, i, post, rfl, rfl⟩ := mem_trace he
    have hbefore := hconsistent pre (List.prefix_append pre (i :: post))
    have hafter := hconsistent (pre ++ [i]) ⟨post, by rw [List.append_assoc]; rfl⟩
    rw [exec_concat] at hafter
    exact (consistent_step_iff hbefore i).1 hafter
  · intro hbans
    have hconsistent : ∀ pre, pre <+: inputs →
        (exec step (Peer.new pubkey) pre).Consistent := by
      rintro pre ⟨post, rfl⟩
      have hpre : ∀ e ∈ trace step (Peer.new pubkey) pre, e.before.BansWithExpiry e.input := by
        rw [trace_append] at hbans
        exact fun e he => hbans e (List.mem_append_left _ he)
      exact (trace_invariant Consistent (fun peer i hi h => (consistent_step_iff h i).2 hi) hpre
        (consistent_new pubkey)).2
    refine ⟨hconsistent, fun pre now post hsplit hlift => ?_⟩
    obtain ⟨hbanned, hle⟩ := checkBanExpiration_lifts hlift
    have hexpiry := (hconsistent pre ⟨_, hsplit.symm⟩).2.1 hbanned
    exact ⟨_, expiry_mem pubkey pre hexpiry, rfl, hle⟩

/-- Five messages with bad signatures, and the sweep after them. -/
def forgedFive : List PeerInput :=
  List.replicate 5 (.applyPenalty .invalidSignature) ++ [.checkBanExpiration 1672531200]

/-- The penalty that brings the reputation to 0 bans the peer without an expiry, and the next sweep
lifts a ban that no ban operation has set. -/
theorem penalty_bans_without_expiry :
    ¬ ((∀ pre, pre <+: forgedFive →
          (exec step (Peer.new (List.Vector.replicate 32 1)) pre).Consistent) ∧
        LiftsAfterExpiry (List.Vector.replicate 32 1) forgedFive) ∧
      (exec step (Peer.new (List.Vector.replicate 32 1))
        (forgedFive.take 5)).isBanned = true ∧
      (exec step (Peer.new (List.Vector.replicate 32 1))
        (forgedFive.take 5)).banExpiresAtUnixSec = 0 ∧
      (exec step (Peer.new (List.Vector.replicate 32 1)) forgedFive).isBanned = false := by
  have hbanned : (exec step (Peer.new (List.Vector.replicate 32 1))
      (forgedFive.take 5)).isBanned = true := by decide +kernel
  have hexpiry : (exec step (Peer.new (List.Vector.replicate 32 1))
      (forgedFive.take 5)).banExpiresAtUnixSec = 0 := by decide +kernel
  refine ⟨fun h => ?_, hbanned, hexpiry, by decide +kernel⟩
  exact (h.1 _ (List.take_prefix 5 forgedFive)).2.1 hbanned hexpiry

end Peer

end StellarConduit
