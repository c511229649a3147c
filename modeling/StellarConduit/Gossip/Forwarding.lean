import StellarConduit.Gossip.Suppression

/-!
# What a node forwards

A node asks its filter before it forwards a message.  While the filter is not overrun and has no
false positive on the message, it tells whether the node has forwarded it.

* `Knows`: the filter has inserted the id;
* `round_of_knows`, `round_of_unseen`, `round_of_none`: what a round does with the copies of the
  message;
* `Tracks`: what the filter of a node tells about the message;
* `Tracks.round`: a round keeps this, and pushes the message exactly when it takes a copy and the
  node has not forwarded it before;
* `offeredIn_eq`: a batch offers the message to all recipients of the round, each once, or to
  nobody.
-/

namespace StellarConduit

open Verif.Machine

variable {β : Type} [Bloom β (Bytes 32)] {id : Bytes 32}

/-- The filter has inserted the id, and no more than `k` ids. -/
def Knows (id : Bytes 32) (f : SlidingBloomFilter β) (k : ℕ) : Prop :=
  ∃ ids, Remembers f ids ∧ ids.length ≤ k ∧ id ∈ ids

theorem Knows.check {f : SlidingBloomFilter β} {k : ℕ} (h : Knows id f k) (hk : k ≤ f.capacity) :
    f.check id = true := by
  obtain ⟨ids, hremembers, hlength, hid⟩ := h
  apply hremembers.check
  rwa [List.take_of_length_le (hlength.trans hk)]

theorem capacity_afterBatch (f : SlidingBloomFilter β) (batch : List TransactionEnvelope) :
    (f.afterBatch batch).capacity = f.capacity := by
  rw [afterBatch_eq_exec]
  exact f.capacity_exec _

variable [LawfulBloom β]

theorem Remembers.afterBatch {f : SlidingBloomFilter β} {ids : List (Bytes 32)}
    (h : Remembers f ids) (hcapacity : 1 ≤ f.capacity) (batch : List TransactionEnvelope) :
    ∃ new, Remembers (f.afterBatch batch) (new ++ ids) ∧ new.length ≤ batch.length := by
  refine ⟨_, afterBatch_eq_exec f batch ▸ remembers_run h hcapacity _, ?_⟩
  rw [List.length_reverse]
  exact (length_insertedIds_le f _).trans (List.length_map _).le

theorem Knows.afterBatch {f : SlidingBloomFilter β} {k : ℕ} (h : Knows id f k)
    (hcapacity : 1 ≤ f.capacity) (batch : List TransactionEnvelope) :
    Knows id (f.afterBatch batch) (k + batch.length) := by
  obtain ⟨ids, hremembers, hlength, hid⟩ := h
  obtain ⟨new, hafter, hnew⟩ := hremembers.afterBatch hcapacity batch
  refine ⟨new ++ ids, hafter, ?_, List.mem_append_right _ hid⟩
  rw [List.length_append]
  omega

omit [Bloom β (Bytes 32)] [LawfulBloom β] in
theorem mem_offers {recipients : List PeerIdentity} {env : TransactionEnvelope} {seen : Bool}
    {call : SendCall} : call ∈ offers recipients env seen ↔ seen = false ∧ env.ttlHops ≠ 0 ∧
      call.peer ∈ recipients ∧ call.message = .transaction env.outbound := by
  unfold offers
  split_ifs with hdrop
  · refine iff_of_false List.not_mem_nil fun ⟨hseen, httl, _⟩ => ?_
    rcases hdrop with hdrop | hdrop
    · rw [hseen] at hdrop
      cases hdrop
    · exact httl hdrop
  · push Not at hdrop
    rw [List.mem_map]
    constructor
    · rintro ⟨peer, hpeer, rfl⟩
      exact ⟨Bool.eq_false_iff.2 hdrop.1, hdrop.2, hpeer, rfl⟩
    · rintro ⟨-, -, hpeer, hmessage⟩
      exact ⟨call.peer, hpeer, by rw [← hmessage]⟩

/-- A filter that knows the id reports every copy as seen. -/
theorem seen_of_knows {f : SlidingBloomFilter β} {k : ℕ} (h : Knows id f k)
    (hcapacity : 1 ≤ f.capacity) {batch : List TransactionEnvelope}
    (hk : k + batch.length ≤ f.capacity) {v : TransactionEnvelope × Bool}
    (hv : v ∈ verdicts f batch) (hid : v.1.messageId = id) : v.2 = true := by
  obtain ⟨pre, post, rfl, hseen⟩ := mem_verdicts hv
  have hlength : (pre ++ v.1 :: post).length = pre.length + (post.length + 1) := List.length_append
  have hcheck := (h.afterBatch hcapacity pre).check (by rw [capacity_afterBatch]; omega)
  rwa [hid, hcheck] at hseen

variable {s : RoundState β} {i : RoundInput} {k : ℕ} (fanoutCalc : FanoutCalculator)

omit [LawfulBloom β] in
/-- What a round offers was waiting in its batch, and not reported as seen. -/
theorem exists_verdict {call : SendCall} (hcall : call ∈ (executeFanoutRound fanoutCalc s i).1)
    {env : TransactionEnvelope} (hmessage : call.message = .transaction env) :
    ∃ waiting, (waiting, false) ∈ verdicts s.bloom (s.batch i) ∧ waiting.ttlHops ≠ 0 ∧
      env = waiting.outbound := by
  rw [calls_executeFanoutRound] at hcall
  obtain ⟨v, hv, hoffer⟩ := List.mem_flatMap.1 hcall
  obtain ⟨hseen, httl, -, hcopy⟩ := mem_offers.1 hoffer
  refine ⟨v.1, ?_, httl, ProtocolMessage.transaction.inj (hmessage.symm.trans hcopy)⟩
  rw [← hseen]
  exact hv

/-- A node that has forwarded the message does not offer it again. -/
theorem round_of_knows (h : Knows id s.bloom k) (hcapacity : 1 ≤ s.bloom.capacity)
    (hk : k + (s.batch i).length ≤ s.bloom.capacity) :
    Knows id (executeFanoutRound fanoutCalc s i).2.bloom (k + (s.batch i).length) ∧
      ∀ call ∈ (executeFanoutRound fanoutCalc s i).1, ∀ env, call.message = .transaction env →
        env.messageId ≠ id := by
  refine ⟨bloom_executeFanoutRound fanoutCalc s i ▸ h.afterBatch hcapacity _,
    fun call hcall env hmessage hid => ?_⟩
  obtain ⟨waiting, hverdict, -, rfl⟩ := exists_verdict fanoutCalc hcall hmessage
  cases seen_of_knows h hcapacity hk hverdict hid

/-- A node that has not forwarded the message offers the first copy that a round takes to all its
recipients, and no other one. -/
theorem round_of_unseen (hfilter : NoFalsePositive β id) (hunseen : s.bloom.check id = false)
    {ids : List (Bytes 32)} (hremembers : Remembers s.bloom ids) (hids : ids.length ≤ k)
    (hcapacity : 1 ≤ s.bloom.capacity) (hk : k + (s.batch i).length ≤ s.bloom.capacity)
    (hlive : ∀ env ∈ s.batch i, env.messageId = id → env.ttlHops ≠ 0)
    (hcopy : ∃ env ∈ s.batch i, env.messageId = id) :
    Knows id (executeFanoutRound fanoutCalc s i).2.bloom (k + (s.batch i).length) ∧
      ∃ env ∈ s.batch i, env.messageId = id ∧
        (∀ peer ∈ s.recipients fanoutCalc i,
          ⟨peer, .transaction env.outbound⟩ ∈ (executeFanoutRound fanoutCalc s i).1) ∧
        ∀ call ∈ (executeFanoutRound fanoutCalc s i).1, ∀ env', call.message = .transaction env' →
          env'.messageId = id → env' = env.outbound := by
  obtain ⟨pre, env, post, hbatch, hid, hpre⟩ := exists_first_copy hcopy
  have hlength : (s.batch i).length = pre.length + (post.length + 1) := by
    rw [hbatch, List.length_append, List.length_cons]
  -- The filter does not know the id when the turn of the first copy comes, and then inserts it.
  have hturn : (s.bloom.afterBatch pre).check id = false := hfilter.check_afterBatch hunseen hpre
  have hinsert : ((s.bloom.afterBatch pre).checkAndAdd env.messageId) =
      (false, (s.bloom.afterBatch pre).insert id) := by
    rw [SlidingBloomFilter.checkAndAdd_eq, hid, hturn]
    rfl
  obtain ⟨new, hafter, hnew⟩ := hremembers.afterBatch hcapacity pre
  have hknows : Knows id ((s.bloom.afterBatch pre).insert id) (k + pre.length + 1) := by
    refine ⟨id :: (new ++ ids), hafter.insert (by rwa [capacity_afterBatch]) id, ?_,
      List.mem_cons_self⟩
    rw [List.length_cons, List.length_append]
    omega
  have hcapacity' : ((s.bloom.afterBatch pre).insert id).capacity = s.bloom.capacity := by
    rw [SlidingBloomFilter.capacity_insert, capacity_afterBatch]
  have hverdicts : verdicts s.bloom (s.batch i) = verdicts s.bloom pre ++
      (env, false) :: verdicts ((s.bloom.afterBatch pre).insert id) post := by
    rw [hbatch, verdicts_append, verdicts, hinsert]
  refine ⟨?_, env, by rw [hbatch]; simp, hid, fun peer hpeer => ?_,
    fun call hcall env' hmessage hid' => ?_⟩
  · have hrest := hknows.afterBatch (by rwa [hcapacity']) post
    have hcount : k + (s.batch i).length = k + pre.length + 1 + post.length := by omega
    rw [bloom_executeFanoutRound, hcount, hbatch, afterBatch_append]
    show Knows id (((s.bloom.afterBatch pre).checkAndAdd env.messageId).2.afterBatch post) _
    rw [hinsert]
    exact hrest
  · have hmem : env ∈ s.batch i := by
      rw [hbatch]
      simp
    rw [calls_executeFanoutRound, hverdicts, List.mem_flatMap]
    exact ⟨(env, false), by simp, mem_offers.2 ⟨rfl, hlive env hmem hid, hpeer, rfl⟩⟩
  · obtain ⟨waiting, hverdict, -, rfl⟩ := exists_verdict fanoutCalc hcall hmessage
    rw [hverdicts] at hverdict
    rcases List.mem_append.1 hverdict with hbefore | hverdict
    · obtain ⟨before, after, hsplit, -⟩ := mem_verdicts hbefore
      exact absurd hid' (hpre waiting (by rw [hsplit]; simp))
    · rcases List.mem_cons.1 hverdict with heq | hlater
      · cases heq
        rfl
      · cases seen_of_knows hknows (by rwa [hcapacity']) (by omega) hlater hid'

/-- A round that takes no copy offers none. -/
theorem round_of_none (hfilter : NoFalsePositive β id) (hunseen : s.bloom.check id = false)
    {ids : List (Bytes 32)} (hremembers : Remembers s.bloom ids) (hids : ids.length ≤ k)
    (hcapacity : 1 ≤ s.bloom.capacity) (hnone : ∀ env ∈ s.batch i, env.messageId ≠ id) :
    (executeFanoutRound fanoutCalc s i).2.bloom.check id = false ∧
      (∃ ids, Remembers (executeFanoutRound fanoutCalc s i).2.bloom ids ∧
        ids.length ≤ k + (s.batch i).length) ∧
      ∀ call ∈ (executeFanoutRound fanoutCalc s i).1, ∀ env, call.message = .transaction env →
        env.messageId ≠ id := by
  obtain ⟨new, hafter, hnew⟩ := hremembers.afterBatch hcapacity (s.batch i)
  rw [bloom_executeFanoutRound]
  refine ⟨hfilter.check_afterBatch hunseen hnone, ⟨new ++ ids, hafter, ?_⟩,
    fun call hcall env hmessage => ?_⟩
  · rw [List.length_append]
    omega
  · obtain ⟨waiting, hverdict, -, rfl⟩ := exists_verdict fanoutCalc hcall hmessage
    obtain ⟨pre, post, hbatch, -⟩ := mem_verdicts hverdict
    exact hnone waiting (by rw [hbatch]; simp)

/-- One of the calls offers a copy of the message. -/
def Pushes (id : Bytes 32) (calls : List SendCall) : Prop :=
  ∃ call ∈ calls, ∃ env, call.message = .transaction env ∧ env.messageId = id

/-- What the filter of a node tells about the message: whether the node has forwarded it. -/
structure Tracks (id : Bytes 32) (forwarded : Prop) (f : SlidingBloomFilter β) (k : ℕ) : Prop where
  capacity : f.capacity = 10000
  unseen : ¬ forwarded → f.check id = false ∧ ∃ ids, Remembers f ids ∧ ids.length ≤ k
  knows : forwarded → Knows id f k

/-- What a round makes of the message, at a node that takes no copy without hops. -/
theorem Tracks.round {forwarded : Prop} (h : Tracks id forwarded s.bloom k)
    (hfilter : NoFalsePositive β id) (hk : k + (s.batch i).length ≤ 10000)
    (hlive : ¬ forwarded → ∀ env ∈ s.batch i, env.messageId = id → env.ttlHops ≠ 0) :
    (Pushes id (executeFanoutRound fanoutCalc s i).1 ↔
      ¬ forwarded ∧ ∃ env ∈ s.batch i, env.messageId = id) ∧
    Tracks id (forwarded ∨ Pushes id (executeFanoutRound fanoutCalc s i).1)
      (executeFanoutRound fanoutCalc s i).2.bloom (k + (s.batch i).length) := by
  have hpos : 1 ≤ s.bloom.capacity := by rw [h.capacity]; decide
  have hk' : k + (s.batch i).length ≤ s.bloom.capacity := by rwa [h.capacity]
  have hcapacity : (executeFanoutRound fanoutCalc s i).2.bloom.capacity = 10000 := by
    rw [bloom_executeFanoutRound, capacity_afterBatch, h.capacity]
  by_cases hforwarded : forwarded
  · obtain ⟨hknows, hnone⟩ := round_of_knows fanoutCalc (h.knows hforwarded) hpos hk'
    refine ⟨iff_of_false ?_ fun hnot => hnot.1 hforwarded, hcapacity,
      fun hnot => absurd (Or.inl hforwarded) hnot, fun _ => hknows⟩
    rintro ⟨call, hcall, env, hmessage, hid⟩
    exact hnone call hcall env hmessage hid
  obtain ⟨hcheck, ids, hremembers, hids⟩ := h.unseen hforwarded
  by_cases hcopy : ∃ env ∈ s.batch i, env.messageId = id
  · obtain ⟨hknows, env, henv, hid, hoffered, -⟩ := round_of_unseen fanoutCalc hfilter hcheck
      hremembers hids hpos hk' (hlive hforwarded) hcopy
    obtain ⟨pre, post, hbatch⟩ := List.append_of_mem henv
    obtain ⟨peer, hpeer⟩ := List.exists_mem_of_ne_nil _
      (s.recipients_ne_nil fanoutCalc i (RoundState.eligiblePeers_ne_nil hbatch))
    have hpushes : Pushes id (executeFanoutRound fanoutCalc s i).1 :=
      ⟨_, hoffered peer hpeer, _, rfl, hid⟩
    exact ⟨iff_of_true hpushes ⟨hforwarded, hcopy⟩, hcapacity,
      fun hnot => absurd (Or.inr hpushes) hnot, fun _ => hknows⟩
  · obtain ⟨hcheck', hremembers', hnone⟩ := round_of_none fanoutCalc hfilter hcheck hremembers hids
      hpos (fun env henv hid => hcopy ⟨env, henv, hid⟩)
    have hpushes : ¬ Pushes id (executeFanoutRound fanoutCalc s i).1 := by
      rintro ⟨call, hcall, env, hmessage, hid⟩
      exact hnone call hcall env hmessage hid
    exact ⟨iff_of_false hpushes fun hnot => hcopy hnot.2, hcapacity,
      fun _ => ⟨hcheck', hremembers'⟩, fun hyes => absurd hyes (not_or.2 ⟨hforwarded, hpushes⟩)⟩

/-- A node that pushes the message pushes one copy, with a hop less, to all its recipients. -/
theorem Tracks.pushed {forwarded : Prop} (h : Tracks id forwarded s.bloom k)
    (hfilter : NoFalsePositive β id) (hk : k + (s.batch i).length ≤ 10000)
    (hlive : ¬ forwarded → ∀ env ∈ s.batch i, env.messageId = id → env.ttlHops ≠ 0)
    (hpushes : Pushes id (executeFanoutRound fanoutCalc s i).1) :
    ∃ env ∈ s.batch i, env.messageId = id ∧
      (∀ peer ∈ s.recipients fanoutCalc i,
        ⟨peer, .transaction env.outbound⟩ ∈ (executeFanoutRound fanoutCalc s i).1) ∧
      ∀ call ∈ (executeFanoutRound fanoutCalc s i).1, ∀ env', call.message = .transaction env' →
        env'.messageId = id → env' = env.outbound := by
  obtain ⟨hforwarded, hcopy⟩ := (h.round fanoutCalc hfilter hk hlive).1.1 hpushes
  obtain ⟨hcheck, ids, hremembers, hids⟩ := h.unseen hforwarded
  exact (round_of_unseen fanoutCalc hfilter hcheck hremembers hids (by rw [h.capacity]; decide)
    (by rwa [h.capacity]) (hlive hforwarded) hcopy).2

/-! ### To whom -/

/-- The peer to which a call offers a copy of the message. -/
def offeredTo? (id : Bytes 32) (call : SendCall) : Option (Bytes 32) :=
  match call.message with
  | .transaction env => if env.messageId = id then some call.peer.pubkey else none
  | _ => none

omit [Bloom β (Bytes 32)] [LawfulBloom β] in
theorem filterMap_offers (recipients : List PeerIdentity) (env : TransactionEnvelope)
    (seen : Bool) : (offers recipients env seen).filterMap (offeredTo? id) =
      if seen = false ∧ env.ttlHops ≠ 0 ∧ env.messageId = id then
        recipients.map PeerIdentity.pubkey
      else [] := by
  unfold offers
  by_cases hdrop : seen = true ∨ env.ttlHops = 0
  · rw [if_pos hdrop, if_neg]
    · rfl
    · rintro ⟨hseen, httl, -⟩
      rcases hdrop with hdrop | hdrop
      · rw [hseen] at hdrop
        cases hdrop
      · exact httl hdrop
  · rw [if_neg hdrop, List.filterMap_map]
    push Not at hdrop
    by_cases hid : env.messageId = id
    · rw [if_pos ⟨Bool.eq_false_iff.2 hdrop.1, hdrop.2, hid⟩, ← List.filterMap_eq_map]
      refine List.filterMap_congr fun peer _ => if_pos hid
    · rw [if_neg fun h => hid h.2.2, List.filterMap_eq_nil_iff]
      exact fun peer _ => if_neg hid

/-- The peers to which copies of the message in a batch are offered. -/
def offeredIn (id : Bytes 32) (recipients : List PeerIdentity) (f : SlidingBloomFilter β)
    (batch : List TransactionEnvelope) : List (Bytes 32) :=
  ((verdicts f batch).flatMap fun v => offers recipients v.1 v.2).filterMap (offeredTo? id)

omit [LawfulBloom β] in
theorem offeredIn_cons (recipients : List PeerIdentity) (f : SlidingBloomFilter β)
    (env : TransactionEnvelope) (batch : List TransactionEnvelope) :
    offeredIn id recipients f (env :: batch) =
      (if (f.checkAndAdd env.messageId).1 = false ∧ env.ttlHops ≠ 0 ∧ env.messageId = id then
        recipients.map PeerIdentity.pubkey else []) ++
      offeredIn id recipients (f.checkAndAdd env.messageId).2 batch := by
  rw [← filterMap_offers]
  exact List.filterMap_append

/-- A node whose filter knows the id offers nothing. -/
theorem offeredIn_of_knows {recipients : List PeerIdentity} {f : SlidingBloomFilter β} {k : ℕ}
    (h : Knows id f k) (hcapacity : 1 ≤ f.capacity) {batch : List TransactionEnvelope}
    (hk : k + batch.length ≤ f.capacity) : offeredIn id recipients f batch = [] := by
  refine List.filterMap_eq_nil_iff.2 fun call hcall => ?_
  obtain ⟨v, hv, hoffer⟩ := List.mem_flatMap.1 hcall
  obtain ⟨hseen, -, -, hmessage⟩ := mem_offers.1 hoffer
  unfold offeredTo?
  rw [hmessage]
  refine if_neg fun hid => ?_
  rw [seen_of_knows h hcapacity hk hv hid] at hseen
  cases hseen

/-- A batch offers the message to nobody, or to all recipients; the filter knows the id then. -/
theorem offeredIn_eq (recipients : List PeerIdentity) {f : SlidingBloomFilter β}
    {ids : List (Bytes 32)} (h : Remembers f ids) (hcapacity : 1 ≤ f.capacity)
    {batch : List TransactionEnvelope} (hk : ids.length + batch.length ≤ f.capacity) :
    offeredIn id recipients f batch = [] ∨
      offeredIn id recipients f batch = recipients.map PeerIdentity.pubkey ∧
        Knows id (f.afterBatch batch) (ids.length + batch.length) := by
  induction batch generalizing f ids with
  | nil => exact .inl rfl
  | cons env batch ih =>
    rw [List.length_cons] at hk ⊢
    rw [offeredIn_cons]
    show _ ∨ _ ∧ Knows id ((f.checkAndAdd env.messageId).2.afterBatch batch) _
    cases hcheck : f.check env.messageId with
    | true =>
      have hadd : f.checkAndAdd env.messageId = (true, f) := by
        rw [SlidingBloomFilter.checkAndAdd_eq, hcheck, if_pos rfl]
      rw [hadd, if_neg fun hyes => Bool.noConfusion hyes.1, List.nil_append]
      refine (ih h hcapacity (by omega)).imp_right fun ⟨hoffered, hknows⟩ => ⟨hoffered, ?_⟩
      obtain ⟨ids', hremembers, hlength, hid⟩ := hknows
      exact ⟨ids', hremembers, by omega, hid⟩
    | false =>
      have hadd : f.checkAndAdd env.messageId = (false, f.insert env.messageId) := by
        rw [SlidingBloomFilter.checkAndAdd_eq, hcheck, if_neg Bool.false_ne_true]
      have hinsert := h.insert hcapacity env.messageId
      have hsame : (f.insert env.messageId).capacity = f.capacity := f.capacity_insert _
      rw [hadd]
      by_cases hcopy : env.ttlHops ≠ 0 ∧ env.messageId = id
      · have hknows : Knows id (f.insert env.messageId) (ids.length + 1) :=
          ⟨_, hinsert, (List.length_cons).le, hcopy.2 ▸ List.mem_cons_self⟩
        have hrest := hknows.afterBatch (by rwa [hsame]) batch
        have hcount : ids.length + (batch.length + 1) = ids.length + 1 + batch.length := by omega
        rw [if_pos ⟨rfl, hcopy⟩, offeredIn_of_knows hknows (by rwa [hsame])
          (by rw [hsame]; omega), List.append_nil, hcount]
        exact .inr ⟨rfl, hrest⟩
      · have hrest := ih hinsert (by rwa [hsame]) (by rw [List.length_cons, hsame]; omega)
        have hcount : ids.length + (batch.length + 1) =
            (env.messageId :: ids).length + batch.length := by
          rw [List.length_cons]
          omega
        rw [if_neg fun hyes => hcopy hyes.2, List.nil_append, hcount]
        exact hrest

end StellarConduit
