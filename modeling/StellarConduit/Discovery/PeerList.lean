import StellarConduit.Lib.HashMap
import StellarConduit.Peer.Peer

/-!
# The peer list

`discovery/peer_list.rs`: what a node remembers of each peer.  Clock readings are arguments,
in seconds since the epoch.
-/

namespace StellarConduit

open Verif

inductive DiscoveryEvent
  | peerDiscovered (peer : PeerIdentity)
  | peerUpdated (peer : PeerIdentity) (signalStrength : UInt8)
  | peerLost (peer : PeerIdentity)
  deriving DecidableEq

structure PeerList where
  peers : HashMap (Bytes 32) Peer
  expirySeconds : UInt64

namespace PeerList

def new (expirySeconds : UInt64) : PeerList where
  peers := ∅
  expirySeconds := expirySeconds

def getPeer (pl : PeerList) (pubkey : Bytes 32) : Option Peer := pl.peers.lookup pubkey

/-- `get_peer_mut`, with the change that is made through the reference. -/
def modifyPeer (pl : PeerList) (pubkey : Bytes 32) (f : Peer → Peer) : PeerList :=
  { pl with peers := HashMap.modify pubkey f pl.peers }

def insertOrUpdate (pl : PeerList) (pubkey : Bytes 32) (signalStrength : UInt8) (now : UInt64) :
    DiscoveryEvent × PeerList :=
  match pl.peers.lookup pubkey with
  | some peer =>
    let peer := { peer with lastSeenUnixSec := now }
    (.peerUpdated peer.identity signalStrength,
      { pl with peers := pl.peers.insert pubkey peer })
  | none =>
    let peer := { Peer.new pubkey with lastSeenUnixSec := now }
    (.peerDiscovered peer.identity, { pl with peers := pl.peers.insert pubkey peer })

/-- `ban_peer`: the answer says whether the peer was found. -/
def banPeer (pl : PeerList) (pubkey : Bytes 32) (durationSec now : UInt64) : Bool × PeerList :=
  ((pl.getPeer pubkey).isSome, pl.modifyPeer pubkey fun peer => peer.ban durationSec now)

/-- The time since the peer was last seen is beyond the expiry window; an earlier `now` counts
as the same second. -/
def isStale (pl : PeerList) (now : UInt64) (peer : Peer) : Bool :=
  decide (pl.expirySeconds.toNat < now.toNat - peer.lastSeenUnixSec.toNat)

def getActivePeers (pl : PeerList) (now : UInt64) : List Peer :=
  (pl.peers.entries.map Sigma.snd).filter fun peer => !pl.isStale now peer

def pruneStalePeers (pl : PeerList) (now : UInt64) : List DiscoveryEvent × PeerList :=
  (((pl.peers.entries.map Sigma.snd).filter (pl.isStale now)).map fun peer =>
      .peerLost peer.identity,
    { pl with peers := HashMap.retain (fun _ peer => !pl.isStale now peer) pl.peers })

def setLastSeen (pl : PeerList) (pubkey : Bytes 32) (ts : UInt64) : PeerList :=
  pl.modifyPeer pubkey fun peer => { peer with lastSeenUnixSec := ts }

def isPeerBanned (pl : PeerList) (pubkey : Bytes 32) : Bool :=
  ((pl.getPeer pubkey).map Peer.isBanned).getD false

/-- `unban_peer`: the answer says whether the peer was found. -/
def unbanPeer (pl : PeerList) (pubkey : Bytes 32) : Bool × PeerList :=
  ((pl.getPeer pubkey).isSome,
    pl.modifyPeer pubkey fun peer => { peer with isBanned := false, banExpiresAtUnixSec := 0 })

/-- `check_ban_expirations`: the peers whose bans were lifted.  Each peer reads the clock on its
own; `now` is what it reads. -/
def checkBanExpirations (pl : PeerList) (now : Bytes 32 → UInt64) : List PeerIdentity × PeerList :=
  (pl.peers.entries.filterMap fun e =>
      if (e.2.checkBanExpiration (now e.1)).1 then some e.2.identity else none,
    { pl with
      peers := HashMap.filterMap
        (fun pubkey peer => some (peer.checkBanExpiration (now pubkey)).2) pl.peers })

@[simp] theorem getPeer_modifyPeer_self (pl : PeerList) (pubkey : Bytes 32) (f : Peer → Peer) :
    (pl.modifyPeer pubkey f).getPeer pubkey = (pl.getPeer pubkey).map f :=
  HashMap.lookup_modify_self pubkey f pl.peers

@[simp] theorem getPeer_modifyPeer_ne (pl : PeerList) {pubkey other : Bytes 32}
    (h : other ≠ pubkey) (f : Peer → Peer) :
    (pl.modifyPeer pubkey f).getPeer other = pl.getPeer other :=
  HashMap.lookup_modify_ne h f pl.peers

@[simp] theorem getPeer_insertOrUpdate_self (pl : PeerList) (pubkey : Bytes 32)
    (signalStrength : UInt8) (now : UInt64) :
    (pl.insertOrUpdate pubkey signalStrength now).2.getPeer pubkey =
      some { (pl.getPeer pubkey).getD (Peer.new pubkey) with lastSeenUnixSec := now } := by
  unfold insertOrUpdate getPeer
  cases pl.peers.lookup pubkey <;> simp

@[simp] theorem getPeer_insertOrUpdate_ne (pl : PeerList) {pubkey other : Bytes 32}
    (h : other ≠ pubkey) (signalStrength : UInt8) (now : UInt64) :
    (pl.insertOrUpdate pubkey signalStrength now).2.getPeer other = pl.getPeer other := by
  unfold insertOrUpdate getPeer
  cases pl.peers.lookup pubkey <;> simp [h]

@[simp] theorem getPeer_pruneStalePeers (pl : PeerList) (now : UInt64) (pubkey : Bytes 32) :
    (pl.pruneStalePeers now).2.getPeer pubkey =
      (pl.getPeer pubkey).filter fun peer => !pl.isStale now peer :=
  HashMap.lookup_retain _ pl.peers pubkey

@[simp] theorem getPeer_checkBanExpirations (pl : PeerList) (now : Bytes 32 → UInt64)
    (pubkey : Bytes 32) :
    (pl.checkBanExpirations now).2.getPeer pubkey =
      (pl.getPeer pubkey).map fun peer => (peer.checkBanExpiration (now pubkey)).2 := by
  refine (HashMap.lookup_filterMap _ pl.peers pubkey).trans ?_
  exact Option.map_eq_bind.symm

/-- The peers that a sweep names are those whose bans it lifted. -/
theorem mem_checkBanExpirations {pl : PeerList} {now : Bytes 32 → UInt64} {p : PeerIdentity} :
    p ∈ (pl.checkBanExpirations now).1 ↔
      ∃ pubkey peer, pl.getPeer pubkey = some peer ∧
        (peer.checkBanExpiration (now pubkey)).1 = true ∧ peer.identity = p := by
  unfold checkBanExpirations
  rw [List.mem_filterMap]
  constructor
  · rintro ⟨⟨pubkey, peer⟩, hmem, hp⟩
    obtain ⟨hlifted, hp⟩ := Option.ite_none_right_eq_some.1 hp
    exact ⟨pubkey, peer, AList.mem_lookup_iff.2 hmem, hlifted, Option.some.inj hp⟩
  · rintro ⟨pubkey, peer, hpeer, hlifted, rfl⟩
    exact ⟨⟨pubkey, peer⟩, AList.mem_lookup_iff.1 hpeer, if_pos hlifted⟩

/-- The record of a peer carries the key under which it is listed. -/
def Keyed (pl : PeerList) : Prop :=
  ∀ pubkey peer, pl.getPeer pubkey = some peer → peer.identity.pubkey = pubkey

/-- A sweep names a peer if and only if it lifts the ban in the record of that key. -/
theorem Keyed.exists_mem_checkBanExpirations {pl : PeerList} (h : pl.Keyed)
    {now : Bytes 32 → UInt64} {pubkey : Bytes 32} :
    (∃ p ∈ (pl.checkBanExpirations now).1, p.pubkey = pubkey) ↔
      ∃ peer ∈ pl.getPeer pubkey, (peer.checkBanExpiration (now pubkey)).1 = true := by
  constructor
  · rintro ⟨_, hmem, rfl⟩
    obtain ⟨pubkey, peer, hpeer, hlifted, rfl⟩ := mem_checkBanExpirations.1 hmem
    rw [h _ _ hpeer]
    exact ⟨peer, hpeer, hlifted⟩
  · rintro ⟨peer, hpeer, hlifted⟩
    exact ⟨peer.identity, mem_checkBanExpirations.2 ⟨pubkey, peer, hpeer, hlifted, rfl⟩,
      h _ _ hpeer⟩

theorem keyed_new (expirySeconds : UInt64) : (PeerList.new expirySeconds).Keyed := by
  intro pubkey peer h
  cases h

theorem Keyed.modifyPeer {pl : PeerList} (h : pl.Keyed) (pubkey : Bytes 32) {f : Peer → Peer}
    (hf : ∀ peer, (f peer).identity = peer.identity) : (pl.modifyPeer pubkey f).Keyed := by
  intro other peer hpeer
  by_cases hother : other = pubkey
  · subst hother
    rw [getPeer_modifyPeer_self] at hpeer
    obtain ⟨before, hbefore, rfl⟩ := Option.map_eq_some_iff.1 hpeer
    rw [hf]
    exact h _ _ hbefore
  · rw [getPeer_modifyPeer_ne pl hother] at hpeer
    exact h _ _ hpeer

theorem Keyed.insertOrUpdate {pl : PeerList} (h : pl.Keyed) (pubkey : Bytes 32)
    (signalStrength : UInt8) (now : UInt64) :
    (pl.insertOrUpdate pubkey signalStrength now).2.Keyed := by
  intro other peer hpeer
  by_cases hother : other = pubkey
  · subst hother
    rw [getPeer_insertOrUpdate_self] at hpeer
    cases hbefore : pl.getPeer other with
    | none =>
      rw [hbefore] at hpeer
      cases hpeer
      rfl
    | some before =>
      rw [hbefore] at hpeer
      cases hpeer
      exact h other before hbefore
  · rw [getPeer_insertOrUpdate_ne pl hother] at hpeer
    exact h _ _ hpeer

theorem Keyed.checkBanExpirations {pl : PeerList} (h : pl.Keyed) (now : Bytes 32 → UInt64) :
    (pl.checkBanExpirations now).2.Keyed := by
  intro pubkey peer hpeer
  rw [getPeer_checkBanExpirations] at hpeer
  obtain ⟨before, hbefore, rfl⟩ := Option.map_eq_some_iff.1 hpeer
  rw [Peer.identity_checkBanExpiration]
  exact h _ _ hbefore

end PeerList

end StellarConduit
