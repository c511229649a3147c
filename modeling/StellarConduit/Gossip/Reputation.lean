import StellarConduit.Gossip.Network

/-!
# The reputation of origins

What `execute_fanout_round` of `gossip/protocol.rs` does to the records of the peers, over runs of a
network: an envelope that `check_and_add` reports as seen is booked as a flood of duplicates against
its origin, whoever sent the copy.

* `Penalized`: what a number of such penalties does to a record;
* `Network.reported`: how often a step reports an envelope of an origin as seen;
* `penalizes_reported`: the records change by these penalties, and not otherwise;
* `honest_penalized_sample`: so an origin that signs its envelopes and sends them once can be
  penalized.
-/

namespace StellarConduit

open Verif.Machine

/-! ### Penalties -/

/-- What so many penalties for a flood of duplicates do: ten points each, down to zero, where the
peer is banned. -/
structure Penalized (peer peer' : Peer) (k : ℕ) : Prop where
  reputation : peer'.reputation.toNat = peer.reputation.toNat - 10 * k
  isBanned : peer'.isBanned = true ↔
    peer.isBanned = true ∨ 0 < k ∧ peer.reputation.toNat ≤ 10 * k
  others : { peer' with reputation := peer.reputation, isBanned := peer.isBanned } = peer

theorem toNat_saturatingSub (a b : UInt32) : (saturatingSub a b).toNat = a.toNat - b.toNat := by
  unfold saturatingSub
  split_ifs with h
  · exact UInt32.toNat_sub_of_le _ _ h
  · have hlt : a.toNat < b.toNat := UInt32.lt_iff_toNat_lt.1 (UInt32.not_le.1 h)
    rw [Nat.sub_eq_zero_of_le hlt.le]
    rfl

theorem penalized_iterate (peer : Peer) (k : ℕ) :
    Penalized peer ((applyPenalty · .duplicateMessageFlood)^[k] peer) k := by
  induction k with
  | zero => exact ⟨by simp, by simp, rfl⟩
  | succ k ih =>
    rw [Function.iterate_succ_apply']
    generalize (applyPenalty · .duplicateMessageFlood)^[k] peer = peer' at ih
    have hreputation : (applyPenalty peer' .duplicateMessageFlood).reputation.toNat =
        peer.reputation.toNat - 10 * (k + 1) := by
      have hpoints : PenaltyReason.duplicateMessageFlood.points.toNat = 10 := rfl
      unfold applyPenalty
      dsimp only
      rw [toNat_saturatingSub, ih.reputation, hpoints]
      omega
    refine ⟨hreputation, ?_, ?_⟩
    -- The penalty that takes the last points bans, and a ban from before stays.
    · have hzero : (applyPenalty peer' .duplicateMessageFlood).isBanned = true ↔
          (applyPenalty peer' .duplicateMessageFlood).reputation.toNat = 0 ∨
            peer'.isBanned = true := by
        unfold applyPenalty
        dsimp only
        split_ifs with h
        · simp [h]
        · have hne : ¬ (saturatingSub peer'.reputation
              PenaltyReason.duplicateMessageFlood.points).toNat = 0 :=
            fun hzero => h (UInt32.toNat_inj.1 hzero)
          simp [hne]
      rw [hzero, hreputation, ih.isBanned]
      constructor
      · rintro (h | h | h)
        · exact Or.inr ⟨by omega, by omega⟩
        · exact Or.inl h
        · exact Or.inr ⟨by omega, by omega⟩
      · rintro (h | h)
        · exact Or.inr (Or.inl h)
        · exact Or.inl (by omega)
    · exact ih.others

/-- Changes of one record after the other. -/
theorem getPeer_foldl_modifyPeer (f : Peer → Peer) (origins : List (Bytes 32)) (pl : PeerList)
    (key : Bytes 32) :
    (origins.foldl (fun pl origin => pl.modifyPeer origin f) pl).getPeer key =
      (pl.getPeer key).map f^[origins.count key] := by
  induction origins generalizing pl with
  | nil => simp
  | cons origin origins ih =>
    rw [List.foldl_cons, ih]
    by_cases heq : origin = key
    · subst heq
      rw [PeerList.getPeer_modifyPeer_self, List.count_cons_self, Option.map_map,
        Function.iterate_succ]
    · rw [PeerList.getPeer_modifyPeer_ne pl (Ne.symm heq), List.count_cons_of_ne heq]

/-! ### Runs of a network -/

section Runs

variable {β : Type}

theorem peerList_call (n : Network β) (q : Bytes 32) (i : GossipInput) (p : Bytes 32) :
    ((n.call q i).node p).peerList = (n.node p).peerList := by
  by_cases hp : p = q
  · subst hp
    simp [Network.call, Network.setNode]
  · simp [Network.call, Network.setNode, hp]

theorem peerList_receive (n : Network β) (packet : Packet) (p : Bytes 32) :
    ((n.receive packet).2.node p).peerList = (n.node p).peerList := by
  unfold Network.receive
  split
  next => exact peerList_call n _ _ p
  next => rfl
  next => exact peerList_call n _ _ p
  next => rfl

variable [Bloom β (Bytes 32)]

/-- How many envelopes of the origin a step reports to the node as seen. -/
def reported (n : Network β) (i : NetworkInput) (p origin : Bytes 32) : ℕ :=
  match i with
  | .fanoutRound q _ round =>
    if p = q then
      (duplicateOrigins (n.node p).bloom ((n.node p).batch round)).count origin
    else 0
  | _ => 0

/-- A step changes a record by the penalties for what it reports. -/
theorem getPeer_step (n : Network β) (i : NetworkInput) (p origin : Bytes 32) :
    ((n.step i).2.node p).peerList.getPeer origin =
      ((n.node p).peerList.getPeer origin).map
        (applyPenalty · .duplicateMessageFlood)^[reported n i p origin] := by
  have hsame : ∀ {m : Network β} {k : ℕ}, (m.node p).peerList = (n.node p).peerList → k = 0 →
      (m.node p).peerList.getPeer origin = ((n.node p).peerList.getPeer origin).map
        (applyPenalty · .duplicateMessageFlood)^[k] := by
    rintro m k hpeers rfl
    rw [hpeers]
    simp
  -- Only a round of the node itself gives penalties; the other events keep its peer list.
  cases i with
  | originate q env => exact hsame (peerList_call n q _ p) rfl
  | fanoutRound q fanoutCalc round =>
    by_cases hp : p = q
    · subst hp
      have hnode : (n.step (.fanoutRound p fanoutCalc round)).2.node p =
          (executeFanoutRound fanoutCalc (n.node p) round).2 := by
        simp [Network.step, Network.send, Network.setNode]
      rw [hnode, peerList_executeFanoutRound, getPeer_foldl_modifyPeer, reported, if_pos rfl]
    · refine hsame ?_ (if_neg hp)
      simp [Network.step, Network.send, Network.setNode, hp]
  | pull q peer => exact hsame rfl rfl
  | processPacedRecoveryBatch q batchSize => exact hsame (peerList_call n q _ p) rfl
  | deliver packet accepted =>
    refine hsame ?_ rfl
    unfold Network.step
    dsimp only
    split_ifs
    · exact peerList_receive _ packet p
    · rfl
    · rfl

/-- The step changes the records by the penalties for what it reports. -/
def PenalizesReported (e : NetworkEvent β) : Prop :=
  ∀ p origin,
    ((e.before.step e.input).2.node p).peerList.getPeer origin = none ∧
        (e.before.node p).peerList.getPeer origin = none ∨
      ∃ peer peer', (e.before.node p).peerList.getPeer origin = some peer ∧
        ((e.before.step e.input).2.node p).peerList.getPeer origin = some peer' ∧
        Penalized peer peer' (reported e.before e.input p origin)

/-- **Duplicates are booked against their origin.**  In every run, a step takes ten points off the
record that a node has of an origin for each envelope of this origin that it reports to the node as
seen, and leaves the records as they are otherwise. -/
theorem penalizes_reported (n : Network β) (is : List NetworkInput) :
    ∀ e ∈ trace Network.step n is, PenalizesReported e := by
  intro e _ p origin
  have hrecord := getPeer_step e.before e.input p origin
  cases hpeer : (e.before.node p).peerList.getPeer origin with
  | none =>
    rw [hpeer] at hrecord
    exact Or.inl ⟨hrecord, rfl⟩
  | some peer =>
    rw [hpeer] at hrecord
    exact Or.inr ⟨peer, _, rfl, hrecord, penalized_iterate peer _⟩

end Runs

/-- Every envelope is originated by the node that it names as its origin, which signed it. -/
def Honest (C : Crypto) (is : List NetworkInput) : Prop :=
  ∀ p env, .originate p env ∈ is → env.originPubkey = p ∧ verifySignature C env = .ok true

/-- No record gets worse in a fanout round. -/
def SparesOrigins {β : Type} [Bloom β (Bytes 32)] (e : NetworkEvent β) : Prop :=
  ∀ p fanoutCalc i, e.input = .fanoutRound p fanoutCalc i →
    ∀ origin peer, (e.before.node p).peerList.getPeer origin = some peer →
      ∃ peer', ((e.before.step e.input).2.node p).peerList.getPeer origin = some peer' ∧
        peer.reputation ≤ peer'.reputation

/-- A node pulls an envelope from its origin. -/
def pullsOnce : List NetworkInput :=
  [.pull otherKey sampleKey, .deliver ⟨otherKey, sampleKey, .syncRequest ⟨[]⟩⟩ true,
    .deliver ⟨sampleKey, otherKey, .syncResponse ⟨[(sampleSigned 1 0).envelope]⟩⟩ true]

def forwards : NetworkInput := .fanoutRound otherKey FanoutCalculator.new sampleReadings

/-- It forwards the envelope, and pulls it again. -/
def pullsTwice : List NetworkInput :=
  .originate sampleKey (sampleSigned 1 0).envelope :: pullsOnce ++ forwards :: pullsOnce

/-- The second round reports the envelope as seen. -/
theorem penalizes_reported_sample :
    PenalizesReported ⟨exec Network.step sampleNetwork pullsTwice, forwards,
      ((exec Network.step sampleNetwork pullsTwice).step forwards).1⟩ :=
  penalizes_reported sampleNetwork (pullsTwice ++ [forwards]) _
    (event_mem_trace pullsTwice forwards [])

/-- The origin has signed its envelope and sent it to who asked, and is penalized when the node is
about to forward the second copy. -/
theorem honest_penalized_sample :
    Honest Crypto.transparent (pullsTwice ++ [forwards]) ∧
      ¬ ∀ e ∈ trace Network.step sampleNetwork (pullsTwice ++ [forwards]), SparesOrigins e := by
  constructor
  · intro p env hinput
    simp only [pullsTwice, pullsOnce, forwards, List.cons_append, List.nil_append, List.mem_cons,
      reduceCtorEq, List.not_mem_nil, or_false, NetworkInput.originate.injEq] at hinput
    obtain ⟨rfl, rfl⟩ := hinput
    exact ⟨by decide +kernel, by decide +kernel⟩
  · intro h
    have hspares := h _ (event_mem_trace pullsTwice forwards [])
    have hbefore : (((exec Network.step sampleNetwork pullsTwice).node
        otherKey).peerList.getPeer sampleKey).map Peer.reputation = some 100 := by decide +kernel
    have hafter : ((((exec Network.step sampleNetwork pullsTwice).step forwards).2.node
        otherKey).peerList.getPeer sampleKey).map Peer.reputation = some 90 := by decide +kernel
    generalize exec Network.step sampleNetwork pullsTwice = n at hspares hbefore hafter
    obtain ⟨peer, hpeer, hreputation⟩ := Option.map_eq_some_iff.1 hbefore
    obtain ⟨peer', hpeer', hle⟩ := hspares otherKey _ _ rfl sampleKey peer hpeer
    obtain ⟨peer'', hpeer'', hreputation'⟩ := Option.map_eq_some_iff.1 hafter
    obtain rfl : peer' = peer'' := Option.some.inj (hpeer'.symm.trans hpeer'')
    rw [hreputation, hreputation'] at hle
    exact absurd hle (by decide)

end StellarConduit
