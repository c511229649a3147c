import StellarConduit.Message.Types

/-!
# Peers

`peer/identity.rs`, `peer/peer_node.rs` and `peer/reputation.rs`: a peer's identity, what a
node remembers of it, and the rewards and penalties on its reputation.  Clock readings are
arguments.
-/

namespace StellarConduit

/-! ### `identity.rs` -/

def hexDigit (n : ℕ) : Char := "0123456789abcdef".toList.getD n '0'

/-- `format!("{:02x}")` of every byte, put together. -/
def hexDisplay (bytes : List UInt8) : String :=
  String.ofList (bytes.flatMap fun b => [hexDigit (b.toNat / 16), hexDigit (b.toNat % 16)])

structure PeerIdentity where
  pubkey : Bytes 32
  displayId : String
  deriving DecidableEq

def PeerIdentity.new (pubkey : Bytes 32) : PeerIdentity where
  pubkey := pubkey
  displayId := hexDisplay pubkey.toList

/-! ### `peer_node.rs` -/

structure Peer where
  identity : PeerIdentity
  reputation : UInt32
  isBanned : Bool
  banExpiresAtUnixSec : UInt64
  lastSeenUnixSec : UInt64
  supportedTransports : UInt8
  isRelayNode : Bool
  bytesSent : UInt64
  bytesReceived : UInt64
  deriving DecidableEq

namespace Peer

def new (pubkey : Bytes 32) : Peer where
  identity := PeerIdentity.new pubkey
  reputation := 100
  isBanned := false
  banExpiresAtUnixSec := 0
  lastSeenUnixSec := 0
  supportedTransports := 0
  isRelayNode := false
  bytesSent := 0
  bytesReceived := 0

def ban (peer : Peer) (durationSec now : UInt64) : Peer :=
  { peer with isBanned := true, banExpiresAtUnixSec := now + durationSec }

/-- `check_ban_expiration`: the answer says whether the ban was lifted. -/
def checkBanExpiration (peer : Peer) (now : UInt64) : Bool × Peer :=
  if !peer.isBanned then (false, peer)
  else if now ≥ peer.banExpiresAtUnixSec then
    (true, { peer with isBanned := false, banExpiresAtUnixSec := 0 })
  else (false, peer)

@[simp] theorem identity_checkBanExpiration (peer : Peer) (now : UInt64) :
    (peer.checkBanExpiration now).2.identity = peer.identity := by
  unfold checkBanExpiration
  split_ifs <;> rfl

theorem checkBanExpiration_of_lt {peer : Peer} {now : UInt64}
    (h : now < peer.banExpiresAtUnixSec) : peer.checkBanExpiration now = (false, peer) := by
  unfold checkBanExpiration
  rw [if_neg (UInt64.not_le.2 h)]
  exact ite_self _

theorem checkBanExpiration_of_le {peer : Peer} {now : UInt64} (hbanned : peer.isBanned = true)
    (h : peer.banExpiresAtUnixSec ≤ now) :
    peer.checkBanExpiration now =
      (true, { peer with isBanned := false, banExpiresAtUnixSec := 0 }) := by
  unfold checkBanExpiration
  rw [hbanned, if_neg (by simp), if_pos h]

theorem checkBanExpiration_of_not_banned {peer : Peer} (h : peer.isBanned = false)
    (now : UInt64) : peer.checkBanExpiration now = (false, peer) := by
  unfold checkBanExpiration
  rw [h]
  rfl

end Peer

/-! ### `reputation.rs` -/

inductive PenaltyReason
  | invalidSignature
  | duplicateMessageFlood
  | connectionDropped

inductive RewardReason
  | successfullyRoutedTx
  | validNewGossipEnvelope

def PenaltyReason.points : PenaltyReason → UInt32
  | .invalidSignature => 20
  | .duplicateMessageFlood => 10
  | .connectionDropped => 2

def RewardReason.points : RewardReason → UInt32
  | .successfullyRoutedTx => 5
  | .validNewGossipEnvelope => 2

/-- `u32::saturating_sub` -/
def saturatingSub (a b : UInt32) : UInt32 := if b ≤ a then a - b else 0

theorem saturatingSub_eq_zero_iff (a b : UInt32) : saturatingSub a b = 0 ↔ a ≤ b := by
  unfold saturatingSub
  split_ifs with h
  · rw [← UInt32.toNat_inj, UInt32.toNat_sub_of_le _ _ h, UInt32.le_iff_toNat_le]
    rw [UInt32.le_iff_toNat_le] at h
    change a.toNat - b.toNat = 0 ↔ _
    omega
  · rw [UInt32.le_iff_toNat_le] at h ⊢
    simp only [true_iff]
    omega

theorem saturatingSub_le (a b : UInt32) : saturatingSub a b ≤ a := by
  unfold saturatingSub
  split_ifs with h
  · rw [UInt32.le_iff_toNat_le, UInt32.toNat_sub_of_le _ _ h]
    exact Nat.sub_le _ _
  · rw [UInt32.le_iff_toNat_le]
    exact Nat.zero_le _

/-- Take the penalty off the reputation; at zero the peer is banned. -/
def applyPenalty (peer : Peer) (reason : PenaltyReason) : Peer :=
  let reputation := saturatingSub peer.reputation reason.points
  { peer with
    reputation := reputation
    isBanned := if reputation = 0 then true else peer.isBanned }

/-- Add the reward to the reputation, at most 100. -/
def applyReward (peer : Peer) (reason : RewardReason) : Peer :=
  { peer with reputation := min (peer.reputation + reason.points) 100 }

end StellarConduit
