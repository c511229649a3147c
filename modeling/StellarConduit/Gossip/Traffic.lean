import Mathlib.Algebra.Order.BigOperators.Group.Finset
import StellarConduit.Gossip.Accounting
import StellarConduit.Gossip.Dissemination

/-!
# How often a message is pushed

A node that has pushed a message does not push it again, whatever is lost, delayed or pulled.  So a
message is never pushed twice over a link, and the traffic for it is bounded by the nodes that
forward it.

* `Network.links`: the links over which the message was pushed in a run;
* `offeredIn_eq`: a round pushes it over no link, or over one to each recipient;
* `Sparing`: what every node keeps in mind;
* `pushed_sparingly`: no link twice, and no more than six links from a node.
-/

namespace StellarConduit

open Verif.Machine

variable {β : Type} {id : Bytes 32}

/-! ### Recipients -/

theorem PeerList.Keyed.nodup_pubkeys {pl : PeerList} (h : pl.Keyed) (now : UInt64) :
    ((pl.eligiblePeers now).map PeerIdentity.pubkey).Nodup := by
  have hlisted : ∀ identity ∈ pl.eligiblePeers now,
      ∃ peer, pl.getPeer identity.pubkey = some peer ∧ peer.identity = identity := by
    intro identity hidentity
    obtain ⟨peer, hpeer, rfl⟩ := List.mem_map.1 hidentity
    obtain ⟨e, he, rfl⟩ := List.mem_map.1 (List.mem_filter.1 (List.mem_filter.1 hpeer).1).1
    have hget : pl.getPeer e.1 = some e.2 := AList.mem_lookup_iff.2 he
    refine ⟨e.2, ?_, rfl⟩
    rw [h e.1 e.2 hget]
    exact hget
  refine List.Nodup.map_on (fun a ha b hb heq => ?_) (h.nodup_eligiblePeers now)
  obtain ⟨peer, hpeer, rfl⟩ := hlisted a ha
  obtain ⟨other, hother, rfl⟩ := hlisted b hb
  rw [heq, hother] at hpeer
  rw [Option.some.inj hpeer]

theorem RoundState.nodup_pubkeys_recipients {s : RoundState β} (h : s.peerList.Keyed)
    (fanoutCalc : FanoutCalculator) (i : RoundInput) :
    ((s.recipients fanoutCalc i).map PeerIdentity.pubkey).Nodup := by
  obtain ⟨l, hperm, hsub⟩ := s.subperm_recipients i fanoutCalc
  exact (hperm.map _).nodup_iff.1 ((h.nodup_pubkeys i.activeAt).sublist (hsub.map _))

variable [Bloom β (Bytes 32)]

theorem keyed_executeFanoutRound {s : RoundState β} (h : s.peerList.Keyed)
    (fanoutCalc : FanoutCalculator) (i : RoundInput) :
    (executeFanoutRound fanoutCalc s i).2.peerList.Keyed := by
  have hall : ∀ (origins : List (Bytes 32)) (pl : PeerList), pl.Keyed →
      (origins.foldl (fun pl origin =>
        pl.modifyPeer origin (applyPenalty · .duplicateMessageFlood)) pl).Keyed := by
    intro origins
    induction origins with
    | nil => exact fun _ hpl => hpl
    | cons origin origins ih => exact fun pl hpl => ih _ (hpl.modifyPeer origin fun _ => rfl)
  rw [peerList_executeFanoutRound]
  exact hall _ _ h

namespace Network

/-! ### Links -/

/-- The link over which the packet carries a copy of the message. -/
def link? (id : Bytes 32) (packet : Packet) : Option (Bytes 32 × Bytes 32) :=
  match packet.message with
  | .transaction env => if env.messageId = id then some (packet.sender, packet.receiver) else none
  | _ => none

/-- The links over which the message was pushed in the run. -/
def links (id : Bytes 32) (n : Network β) (is : List NetworkInput) : List (Bytes 32 × Bytes 32) :=
  ((trace step n is).flatMap Event.output).filterMap (link? id)

variable {n : Network β} {is : List NetworkInput}

theorem links_concat (i : NetworkInput) : links id n (is ++ [i]) =
    links id n is ++ ((exec step n is).step i).1.filterMap (link? id) := by
  unfold links
  rw [trace_append, List.flatMap_append, List.filterMap_append]
  simp

omit [Bloom β (Bytes 32)] in
theorem forwarder?_eq (packet : Packet) :
    forwarder? id packet = (link? id packet).map Prod.fst := by
  obtain ⟨sender, receiver, message⟩ := packet
  cases message with
  | transaction env =>
    show _ = Option.map Prod.fst (if _ then _ else _)
    split_ifs with hid
    · exact if_pos hid
    · exact if_neg hid
  | _ => rfl

theorem forwarders_eq : forwarders id n is = ((links id n is).map Prod.fst).toFinset := by
  unfold forwarders links
  rw [List.map_filterMap]
  exact congrArg List.toFinset (List.filterMap_congr fun packet _ => forwarder?_eq packet)

/-- Outside of rounds nothing is pushed. -/
theorem links_step_of_ne_round {i : NetworkInput}
    (hround : ∀ p fanoutCalc round, i ≠ .fanoutRound p fanoutCalc round) :
    (n.step i).1.filterMap (link? id) = [] := by
  refine List.filterMap_eq_nil_iff.2 fun packet hpacket => ?_
  by_contra hlink
  obtain ⟨link, hlink⟩ := Option.ne_none_iff_exists'.1 hlink
  have hp : forwarder? id packet = some link.1 := by rw [forwarder?_eq, hlink]; rfl
  have hoffers := mem_filterMap_forwarder?.1 (List.mem_filterMap.2 ⟨packet, hpacket, hp⟩)
  obtain ⟨fanoutCalc, round, hi⟩ := exists_round_of_offers hoffers
  exact hround link.1 fanoutCalc round hi

theorem links_round (p : Bytes 32) (fanoutCalc : FanoutCalculator) (i : RoundInput) :
    (n.step (.fanoutRound p fanoutCalc i)).1.filterMap (link? id) =
      (offeredIn id ((n.node p).recipients fanoutCalc i) (n.node p).bloom
        ((n.node p).batch i)).map fun q => (p, q) := by
  unfold offeredIn
  rw [← calls_executeFanoutRound, List.map_filterMap]
  show List.filterMap _ (List.map _ _) = _
  rw [List.filterMap_map]
  refine List.filterMap_congr fun call _ => ?_
  obtain ⟨peer, message⟩ := call
  cases message with
  | transaction env =>
    show (if _ then _ else _) = Option.map _ (if _ then _ else _)
    split_ifs <;> rfl
  | _ => rfl

/-! ### Runs -/

/-- What the nodes keep in mind, so that no link and not too many links are used. -/
structure Sparing (id : Bytes 32) (n : Network β) (is : List NetworkInput) : Prop where
  capacity : ∀ p, ((exec step n is).node p).bloom.capacity = 10000
  keyed : ∀ p, ((exec step n is).node p).peerList.Keyed
  remembers : ∀ p, ∃ ids, Remembers ((exec step n is).node p).bloom ids ∧
    ids.length ≤ n.handled is p
  knows : ∀ p ∈ (links id n is).map Prod.fst,
    Knows id ((exec step n is).node p).bloom (n.handled is p)
  nodup : (links id n is).Nodup
  count : ∀ p, ((links id n is).map Prod.fst).count p ≤ 6

theorem sparing_nil (hnew : ∀ p, (n.node p).bloom = .new 10000 0.01)
    (hkeyed : ∀ p, (n.node p).peerList.Keyed) : Sparing id n [] where
  capacity p := by
    show (n.node p).bloom.capacity = 10000
    rw [hnew p]
    rfl
  keyed := hkeyed
  remembers p := by
    show ∃ ids, Remembers (n.node p).bloom ids ∧ ids.length ≤ 0
    rw [hnew p]
    exact ⟨[], .new 10000 0.01, Nat.le_refl 0⟩
  knows p hp := absurd hp List.not_mem_nil
  nodup := List.nodup_nil
  count p := Nat.zero_le 6

/-- A step that is no round leaves it as it is. -/
theorem Sparing.concat_of_ne_round {i : NetworkInput} (h : Sparing id n is)
    (hround : ∀ p fanoutCalc round, i ≠ .fanoutRound p fanoutCalc round) :
    Sparing id n (is ++ [i]) := by
  have hlinks : links id n (is ++ [i]) = links id n is := by
    rw [links_concat, links_step_of_ne_round hround, List.append_nil]
  have hhandled : ∀ p, n.handled (is ++ [i]) p = n.handled is p := handled_of_ne_round hround
  have hnode : ∀ p, ∃ state,
      (exec step n (is ++ [i])).node p = { (exec step n is).node p with state := state } := by
    rw [exec_concat]
    exact node_step_of_ne_round hround
  refine ⟨fun p => ?_, fun p => ?_, fun p => ?_, fun p hp => ?_, ?_, fun p => ?_⟩
  · obtain ⟨state, hstate⟩ := hnode p
    rw [hstate]
    exact h.capacity p
  · obtain ⟨state, hstate⟩ := hnode p
    rw [hstate]
    exact h.keyed p
  · obtain ⟨state, hstate⟩ := hnode p
    rw [hstate, hhandled]
    exact h.remembers p
  · obtain ⟨state, hstate⟩ := hnode p
    rw [hlinks] at hp
    rw [hstate, hhandled]
    exact h.knows p hp
  · rw [hlinks]
    exact h.nodup
  · rw [hlinks]
    exact h.count p

variable [LawfulBloom β]

/-- A node that has pushed the message pushes it no more; any other one pushes it to nobody, or once
to each of its recipients. -/
theorem Sparing.links_round (h : Sparing id n is) {p : Bytes 32} (fanoutCalc : FanoutCalculator)
    {i : RoundInput}
    (hcount : n.handled is p + (((exec step n is).node p).batch i).length ≤ 10000) :
    ((exec step n is).step (.fanoutRound p fanoutCalc i)).1.filterMap (link? id) = [] ∨
      p ∉ (links id n is).map Prod.fst ∧
      ((exec step n is).step (.fanoutRound p fanoutCalc i)).1.filterMap (link? id) =
        (((exec step n is).node p).recipients fanoutCalc i).map
          (fun peer => (p, peer.pubkey)) ∧
      Knows id (executeFanoutRound fanoutCalc ((exec step n is).node p) i).2.bloom
        (n.handled is p + (((exec step n is).node p).batch i).length) := by
  have hpos : 1 ≤ ((exec step n is).node p).bloom.capacity := by rw [h.capacity]; decide
  rw [Network.links_round]
  by_cases hp : p ∈ (links id n is).map Prod.fst
  · refine .inl ?_
    rw [offeredIn_of_knows (h.knows p hp) hpos (by rwa [h.capacity])]
    rfl
  · obtain ⟨ids, hremembers, hlength⟩ := h.remembers p
    have hroom : ids.length + (((exec step n is).node p).batch i).length ≤
        ((exec step n is).node p).bloom.capacity := by
      rw [h.capacity]
      omega
    rcases offeredIn_eq _ hremembers hpos hroom with
      hnone | ⟨hall, ids', hremembers', hlength', hid⟩
    · refine .inl ?_
      rw [hnone]
      rfl
    · refine .inr ⟨hp, ?_, ids', ?_, by omega, hid⟩
      · rw [hall, List.map_map]
        rfl
      · rwa [bloom_executeFanoutRound]

/-- A round keeps it, too. -/
theorem Sparing.concat_round (h : Sparing id n is) {p : Bytes 32} {i : RoundInput}
    (hcount : n.handled (is ++ [.fanoutRound p .new i]) p ≤ 10000) :
    Sparing id n (is ++ [.fanoutRound p .new i]) := by
  rw [handled_round, if_pos rfl] at hcount
  have hpos : 1 ≤ ((exec step n is).node p).bloom.capacity := by rw [h.capacity]; decide
  have hround := h.links_round .new hcount
  have hother : ∀ {q}, q ≠ p →
      (exec step n (is ++ [.fanoutRound p .new i])).node q = (exec step n is).node q ∧
        n.handled (is ++ [.fanoutRound p .new i]) q = n.handled is q := by
    intro q hq
    rw [exec_concat, node_round, if_neg hq, handled_round, if_neg (Ne.symm hq)]
    exact ⟨rfl, rfl⟩
  have hself : (exec step n (is ++ [.fanoutRound p .new i])).node p =
      (executeFanoutRound .new ((exec step n is).node p) i).2 ∧
        n.handled (is ++ [.fanoutRound p .new i]) p =
          n.handled is p + (((exec step n is).node p).batch i).length := by
    rw [exec_concat, node_round, if_pos rfl, handled_round, if_pos rfl]
    exact ⟨rfl, rfl⟩
  refine ⟨fun q => ?_, fun q => ?_, fun q => ?_, fun q hq => ?_, ?_, fun q => ?_⟩
  · by_cases hq : q = p
    · subst hq
      rw [hself.1, bloom_executeFanoutRound, capacity_afterBatch]
      exact h.capacity q
    · rw [(hother hq).1]
      exact h.capacity q
  · by_cases hq : q = p
    · subst hq
      rw [hself.1]
      exact keyed_executeFanoutRound (h.keyed q) .new i
    · rw [(hother hq).1]
      exact h.keyed q
  · by_cases hq : q = p
    · subst hq
      obtain ⟨ids, hremembers, hlength⟩ := h.remembers q
      obtain ⟨new, hafter, hnew⟩ := hremembers.afterBatch hpos _
      rw [hself.1, hself.2, bloom_executeFanoutRound]
      refine ⟨new ++ ids, hafter, ?_⟩
      rw [List.length_append]
      omega
    · rw [(hother hq).1, (hother hq).2]
      exact h.remembers q
  · rw [links_concat, List.map_append] at hq
    by_cases hqp : q = p
    · subst hqp
      rw [hself.1, hself.2]
      rcases hround with hnone | ⟨-, -, hknows⟩
      · rw [hnone, List.map_nil, List.append_nil] at hq
        rw [bloom_executeFanoutRound]
        exact (h.knows q hq).afterBatch hpos _
      · exact hknows
    · rw [(hother hqp).1, (hother hqp).2]
      refine h.knows q ((List.mem_append.1 hq).resolve_right fun hmem => ?_)
      rcases hround with hnone | ⟨-, hall, -⟩
      · rw [hnone] at hmem
        cases hmem
      · rw [hall, List.map_map] at hmem
        obtain ⟨peer, -, rfl⟩ := List.mem_map.1 hmem
        exact hqp rfl
  · rw [links_concat]
    rcases hround with hnone | ⟨hp, hall, -⟩
    · rw [hnone, List.append_nil]
      exact h.nodup
    · have hnew : ((((exec step n is).node p).recipients .new i).map
          fun peer => (p, peer.pubkey)).Nodup := by
        have hkeys := RoundState.nodup_pubkeys_recipients (h.keyed p) .new i
        have hpair : Function.Injective fun q : Bytes 32 => (p, q) := fun _ _ heq =>
          (Prod.mk.inj heq).2
        rw [← List.nodup_map_iff hpair, List.map_map] at hkeys
        exact hkeys
      rw [hall]
      refine List.nodup_append.2 ⟨h.nodup, hnew, fun a ha b hb heq => hp ?_⟩
      obtain ⟨peer, -, rfl⟩ := List.mem_map.1 hb
      exact List.mem_map.2 ⟨a, ha, by rw [heq]⟩
  · rw [links_concat, List.map_append, List.count_append]
    rcases hround with hnone | ⟨hp, hall, -⟩
    · rw [hnone]
      exact h.count q
    · rw [hall, List.map_map]
      by_cases hq : q = p
      · subst hq
        have hfew := (((exec step n is).node q).length_recipients_bounds i).2
        have hle := List.count_le_length (a := q)
          (l := (((exec step n is).node q).recipients .new i).map
            (Prod.fst ∘ fun peer => (q, peer.pubkey)))
        rw [List.length_map] at hle
        rw [List.count_eq_zero_of_not_mem hp]
        omega
      · have hnone : q ∉ (((exec step n is).node p).recipients .new i).map
            (Prod.fst ∘ fun peer => (p, peer.pubkey)) := by
          intro hmem
          obtain ⟨peer, -, rfl⟩ := List.mem_map.1 hmem
          exact hq rfl
        rw [List.count_eq_zero_of_not_mem hnone]
        exact h.count q

/-- So it is after every run. -/
theorem sparing_run (hnew : ∀ p, (n.node p).bloom = .new 10000 0.01)
    (hkeyed : ∀ p, (n.node p).peerList.Keyed)
    (hcalc : ∀ p fanoutCalc i, .fanoutRound p fanoutCalc i ∈ is → fanoutCalc = .new)
    (hcount : ∀ p, n.handled is p ≤ 10000) : Sparing id n is := by
  induction is using List.reverseRecOn with
  | nil => exact sparing_nil hnew hkeyed
  | append_singleton is i ih =>
    have hbefore := ih (fun p fanoutCalc i hi => hcalc p fanoutCalc i (List.mem_append_left _ hi))
      fun p => by
        have hle := hcount p
        rw [handled_concat] at hle
        omega
    cases i with
    | fanoutRound p fanoutCalc round =>
      obtain rfl := hcalc p fanoutCalc round (by simp)
      exact hbefore.concat_round (hcount p)
    | _ => exact hbefore.concat_of_ne_round (by simp)

/-- **Nodes push sparingly.**  In every run of nodes with fresh filters, whatever is lost, delayed,
reordered or pulled, a message is pushed at most once over each link and over at most six links by
each node, so over at most six for every node that forwards it, as long as no node has handled more
than 10000 envelopes. -/
theorem pushed_sparingly (hnew : ∀ p, (n.node p).bloom = .new 10000 0.01)
    (hkeyed : ∀ p, (n.node p).peerList.Keyed)
    (hcalc : ∀ p fanoutCalc i, .fanoutRound p fanoutCalc i ∈ is → fanoutCalc = .new)
    (hcount : ∀ p, n.handled is p ≤ 10000) :
    (links id n is).Nodup ∧ (∀ p, ((links id n is).map Prod.fst).count p ≤ 6) ∧
      (links id n is).length ≤ 6 * (forwarders id n is).card := by
  have hsparing : Sparing id n is := sparing_run hnew hkeyed hcalc hcount
  refine ⟨hsparing.nodup, hsparing.count, ?_⟩
  let senders := (links id n is).map Prod.fst
  calc (links id n is).length = senders.length := (List.length_map _).symm
    _ = ∑ p ∈ senders.toFinset, senders.count p :=
      (List.sum_toFinset_count_eq_length senders).symm
    _ ≤ senders.toFinset.card * 6 :=
      Finset.sum_le_card_nsmul _ _ _ fun p _ => hsparing.count p
    _ = 6 * (forwarders id n is).card := by rw [forwarders_eq, Nat.mul_comm]

end Network

/-- The flood takes two links. -/
theorem pushed_sparingly_sample :
    let links := Network.links (sampleSigned 1 0).envelope.messageId sampleNetwork floodRun
    links = [(otherKey, sampleKey), (sampleKey, sampleKey)] ∧ links.Nodup ∧
      (∀ p, (links.map Prod.fst).count p ≤ 6) ∧ links.length ≤
        6 * (sampleNetwork.forwarders (sampleSigned 1 0).envelope.messageId floodRun).card := by
  intro links
  refine ⟨by decide +kernel, Network.pushed_sparingly (fun _ => rfl) (fun _ => ?_)
    (fun p fanoutCalc i hi => ?_) fun p => ?_⟩
  · exact (PeerList.keyed_new 300).insertOrUpdate sampleKey 0 1672531200
  · simp only [floodRun, List.mem_cons, List.not_mem_nil, NetworkInput.fanoutRound.injEq,
      reduceCtorEq, false_or, or_false, or_self] at hi
    rcases hi with ⟨-, rfl, -⟩ | ⟨-, rfl, -⟩ <;> rfl
  · exact (sampleNetwork.handled_le floodRun p).trans (by decide)

end StellarConduit
