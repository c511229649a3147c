import StellarConduit.Lib.HashMap
import StellarConduit.Peer.Peer

/-!
# The strike tracker

`gossip/strike_tracker.rs`: the signature failures of each peer inside a sliding window of
ten minutes.  Instants and durations are in nanoseconds; `now` is the instant a call reads
off the monotonic clock, and the duration since a later instant is zero.
-/

namespace StellarConduit

open Verif

structure StrikeTracker where
  failures : HashMap (Bytes 32) (List ℕ)
  windowDuration : ℕ
  maxStrikes : ℕ

namespace StrikeTracker

def new : StrikeTracker where
  failures := ∅
  windowDuration := 10 * 60 * 1000000000
  maxStrikes := 3

/-- The failures that are still inside the window. -/
def inWindow (t : StrikeTracker) (now : ℕ) (failures : List ℕ) : List ℕ :=
  failures.filter fun timestamp => decide (now - timestamp ≤ t.windowDuration)

/-- `record_failure`: the answer says whether the peer has exceeded its strikes. -/
def recordFailure (t : StrikeTracker) (peer : PeerIdentity) (now : ℕ) : Bool × StrikeTracker :=
  let failures := (t.failures.lookup peer.pubkey).getD []
  let failures := t.inWindow now failures ++ [now]
  (decide (failures.length > t.maxStrikes),
    { t with failures := t.failures.insert peer.pubkey failures })

def clearPeer (t : StrikeTracker) (peer : PeerIdentity) : StrikeTracker :=
  { t with failures := t.failures.erase peer.pubkey }

def getStrikeCount (t : StrikeTracker) (peer : PeerIdentity) (now : ℕ) : ℕ :=
  ((t.failures.lookup peer.pubkey).map fun failures => (t.inWindow now failures).length).getD 0

/-- `cleanup`; a peer that has no failure left is forgotten. -/
def cleanup (t : StrikeTracker) (now : ℕ) : StrikeTracker :=
  { t with
    failures := t.failures.filterMap fun _ failures =>
      let failures := t.inWindow now failures
      if failures.isEmpty then none else some failures }

@[simp] theorem lookup_recordFailure_self (t : StrikeTracker) (peer : PeerIdentity) (now : ℕ) :
    (t.recordFailure peer now).2.failures.lookup peer.pubkey =
      some (t.inWindow now ((t.failures.lookup peer.pubkey).getD []) ++ [now]) :=
  AList.lookup_insert _

@[simp] theorem lookup_recordFailure_ne (t : StrikeTracker) {peer : PeerIdentity}
    {other : Bytes 32} (h : other ≠ peer.pubkey) (now : ℕ) :
    (t.recordFailure peer now).2.failures.lookup other = t.failures.lookup other :=
  AList.lookup_insert_ne h

@[simp] theorem lookup_clearPeer_self (t : StrikeTracker) (peer : PeerIdentity) :
    (t.clearPeer peer).failures.lookup peer.pubkey = none :=
  AList.lookup_erase _ _

@[simp] theorem lookup_clearPeer_ne (t : StrikeTracker) {peer : PeerIdentity}
    {other : Bytes 32} (h : other ≠ peer.pubkey) :
    (t.clearPeer peer).failures.lookup other = t.failures.lookup other :=
  AList.lookup_erase_ne h

theorem getStrikeCount_eq (t : StrikeTracker) (peer : PeerIdentity) (now : ℕ) :
    t.getStrikeCount peer now =
      (t.inWindow now ((t.failures.lookup peer.pubkey).getD [])).length := by
  unfold getStrikeCount
  cases t.failures.lookup peer.pubkey <;> rfl

/-- A failure bans a peer exactly when its strikes in the window were used up. -/
theorem recordFailure_fst (t : StrikeTracker) (peer : PeerIdentity) (now : ℕ) :
    (t.recordFailure peer now).1 = decide (t.maxStrikes ≤ t.getStrikeCount peer now) := by
  rw [getStrikeCount_eq]
  unfold recordFailure
  dsimp only
  refine decide_eq_decide.2 ?_
  rw [List.length_append, List.length_singleton]
  omega

end StrikeTracker

end StellarConduit
