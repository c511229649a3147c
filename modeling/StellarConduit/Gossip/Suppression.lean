import StellarConduit.Gossip.Verdicts

/-!
# Expired copies

Copies of one message differ in the hops that they have left.  A round asks the Bloom filter before
it looks at these, so that a copy without hops can make the others look like duplicates.

* `RoundState.step`: a node to which envelopes are added and that executes rounds;
* `exists_offer_of_unseen`: the first copy that a round takes is offered, if it has hops left;
* `live_copy_forwarded`: a live copy is forwarded, if no expired one waits when a round takes the
  first copy;
* `no_offer_of_expired`: and if one waits, that round offers no copy.
-/

namespace StellarConduit

open Verif Verif.Machine

variable {β : Type}

/-- There is no false positive on one key: it is found only if it was set. -/
structure NoFalsePositive (β : Type) {K : Type} [Bloom β K] (key : K) : Prop where
  check_new : ∀ capacity fpRate, Bloom.check (Bloom.newForFpRate capacity fpRate : β) key = false
  check_set : ∀ (f : β) (k : K), k ≠ key → Bloom.check f key = false →
    Bloom.check (Bloom.set f k) key = false

theorem ExactFilter.noFalsePositive {K : Type} [DecidableEq K] (key : K) :
    NoFalsePositive (ExactFilter K) key where
  check_new _ _ := decide_eq_false List.not_mem_nil
  check_set f k hk h := by
    refine decide_eq_false fun hmem => ?_
    rcases List.mem_cons.1 hmem with rfl | hmem
    · exact hk rfl
    · exact of_decide_eq_false h hmem

namespace NoFalsePositive

variable {K : Type} [Bloom β K] {key : K}

theorem check_checkAndAdd (h : NoFalsePositive β key) {f : SlidingBloomFilter β}
    (hunseen : f.check key = false) {k : K} (hk : k ≠ key) :
    (f.checkAndAdd k).2.check key = false := by
  rw [f.checkAndAdd_eq]
  dsimp only
  split_ifs
  · exact hunseen
  · rw [SlidingBloomFilter.check, Bool.or_eq_false_iff] at hunseen ⊢
    unfold SlidingBloomFilter.insert SlidingBloomFilter.rotateIfFull
    split_ifs
    · exact ⟨h.check_set _ k hk (h.check_new _ _), hunseen.1⟩
    · exact ⟨h.check_set _ k hk hunseen.1, hunseen.2⟩

end NoFalsePositive

/-! ### Nodes that push -/

/-- What happens to a node: an envelope enters its queue, or it executes a round. -/
inductive PushInput
  | addEnvelope (env : TransactionEnvelope)
  | fanoutRound (i : RoundInput)

section Copies

variable [Bloom β (Bytes 32)]

def RoundState.step (fanoutCalc : FanoutCalculator) (s : RoundState β) :
    PushInput → List SendCall × RoundState β
  | .addEnvelope env => ([], { s with state := (s.state.addEnvelope env).2 })
  | .fanoutRound i => executeFanoutRound fanoutCalc s i

/-- The filter does not know an id that no envelope of the batch has. -/
theorem NoFalsePositive.check_afterBatch {messageId : Bytes 32}
    (h : NoFalsePositive β messageId) {bloom : SlidingBloomFilter β}
    (hunseen : bloom.check messageId = false) {batch : List TransactionEnvelope}
    (hbatch : ∀ env ∈ batch, env.messageId ≠ messageId) :
    (bloom.afterBatch batch).check messageId = false := by
  induction batch generalizing bloom with
  | nil => exact hunseen
  | cons env batch ih =>
    exact ih (h.check_checkAndAdd hunseen (hbatch env List.mem_cons_self))
      fun env' henv' => hbatch env' (List.mem_cons_of_mem _ henv')

/-- The batch has a first envelope with the id. -/
theorem exists_first_copy {messageId : Bytes 32} {batch : List TransactionEnvelope}
    (h : ∃ env ∈ batch, env.messageId = messageId) :
    ∃ pre env post, batch = pre ++ env :: post ∧ env.messageId = messageId ∧
      ∀ env' ∈ pre, env'.messageId ≠ messageId := by
  have hsome : (batch.find? fun env => decide (env.messageId = messageId)).isSome := by
    rw [List.find?_isSome]
    simpa using h
  obtain ⟨env, henv⟩ := Option.isSome_iff_exists.1 hsome
  obtain ⟨hid, pre, post, hbatch, hpre⟩ := List.find?_eq_some_iff_append.1 henv
  exact ⟨pre, env, post, hbatch, of_decide_eq_true hid, by simpa using hpre⟩

variable (fanoutCalc : FanoutCalculator) {s : RoundState β} {i : RoundInput}

/-- An envelope that the filter does not know when its turn comes is offered, if it has hops
left. -/
theorem exists_offer_of_unseen {pre post : List TransactionEnvelope} {env : TransactionEnvelope}
    (hbatch : s.batch i = pre ++ env :: post)
    (hunseen : (s.bloom.afterBatch pre).check env.messageId = false) (httl : env.ttlHops ≠ 0) :
    ∃ call ∈ (executeFanoutRound fanoutCalc s i).1, call.message = .transaction env.outbound := by
  have hpeers := RoundState.eligiblePeers_ne_nil hbatch
  obtain ⟨peer, hpeer⟩ := List.exists_mem_of_ne_nil _ (s.recipients_ne_nil fanoutCalc i hpeers)
  refine ⟨⟨peer, .transaction env.outbound⟩, ?_, rfl⟩
  rw [calls_executeFanoutRound, hbatch, verdicts_append, List.mem_flatMap]
  refine ⟨(env, false), List.mem_append_right _ ?_, ?_⟩
  · rw [verdicts, SlidingBloomFilter.checkAndAdd_eq, hunseen]
    exact List.mem_cons_self
  · rw [offers, if_neg (by simpa using httl)]
    exact List.mem_map_of_mem hpeer

/-! ### The first copy -/

/-- The same message, but for the hops that are left. -/
def SameMessage (a b : TransactionEnvelope) : Prop :=
  { a with ttlHops := 0 } = { b with ttlHops := 0 }

/-- A round takes an envelope with the id: there is an eligible peer, and fewer envelopes than the
round takes are more urgent than it, or as urgent and earlier. -/
def Takes (messageId : Bytes 32) (s : RoundState β) (i : RoundInput) : Prop :=
  s.peerList.eligiblePeers i.activeAt ≠ [] ∧
    ∃ env, env.messageId = messageId ∧
      ∃ pre post, s.state.activeQueue.normal.messages = pre ++ .transaction env :: post ∧
        pre.countP (fun msg => decide
            (MessagePriority.urgencyScore i.drainedAt (.transaction env) ≤
              MessagePriority.urgencyScore i.drainedAt msg)) +
          post.countP (fun msg => decide
            (MessagePriority.urgencyScore i.drainedAt (.transaction env) <
              MessagePriority.urgencyScore i.drainedAt msg)) < fanoutBatchSize

omit [Bloom β (Bytes 32)] in
theorem takes_iff (messageId : Bytes 32) (s : RoundState β) (i : RoundInput) :
    Takes messageId s i ↔ ∃ env ∈ s.batch i, env.messageId = messageId := by
  unfold Takes RoundState.batch
  by_cases hpeers : s.peerList.eligiblePeers i.activeAt = []
  · simp [hpeers]
  · rw [if_neg hpeers]
    simp only [s.state.activeQueue.mem_drainBatch_iff (by decide : fanoutBatchSize ≠ 0)]
    constructor
    · rintro ⟨-, env, hid, hplace⟩
      exact ⟨env, hplace, hid⟩
    · rintro ⟨env, hplace, hid⟩
      exact ⟨hpeers, env, hid, hplace⟩

/-- Every envelope with the id that waits has hops left. -/
def NoneExpired (messageId : Bytes 32) (s : RoundState β) : Prop :=
  ∀ env ∈ s.state.activeQueue.iterEnvelopes, env.messageId = messageId → env.ttlHops ≠ 0

/-- Every envelope with the id that waits is a copy of the message. -/
def OnlyCopies (message : TransactionEnvelope) (s : RoundState β) : Prop :=
  ∀ env ∈ s.state.activeQueue.iterEnvelopes, env.messageId = message.messageId →
    SameMessage message env

/-- A copy of the message that has hops left is offered. -/
def ForwardsLive (message : TransactionEnvelope) (calls : List SendCall) : Prop :=
  ∃ call ∈ calls, ∃ env, SameMessage message env ∧ env.ttlHops ≠ 0 ∧
    call.message = .transaction env.outbound

variable {fanoutCalc}

/-- The first round that takes a copy forwards it, when no expired copy waits. -/
theorem forwardsLive_round {message : TransactionEnvelope}
    (hfilter : NoFalsePositive β message.messageId)
    (hunseen : s.bloom.check message.messageId = false) (hcopies : OnlyCopies message s)
    (hlive : NoneExpired message.messageId s) (htakes : Takes message.messageId s i) :
    ForwardsLive message (executeFanoutRound fanoutCalc s i).1 := by
  obtain ⟨pre, env, post, hbatch, hid, hpre⟩ := exists_first_copy ((takes_iff _ _ _).1 htakes)
  have hwaits : env ∈ s.state.activeQueue.iterEnvelopes := by
    apply (batch_append_iterEnvelopes fanoutCalc s i).subset
    rw [hbatch]
    simp
  have hturn : (s.bloom.afterBatch pre).check env.messageId = false := by
    rw [hid]
    exact hfilter.check_afterBatch hunseen hpre
  obtain ⟨call, hcall, hmessage⟩ :=
    exists_offer_of_unseen fanoutCalc hbatch hturn (hlive env hwaits hid)
  exact ⟨call, hcall, env, hcopies env hwaits hid, hlive env hwaits hid, hmessage⟩

omit [Bloom β (Bytes 32)] in
/-- Of two copies, the one without hops is the more urgent. -/
theorem urgencyScore_lt_of_expired {message live expired : TransactionEnvelope}
    (hlive : SameMessage message live) (hexpired : SameMessage message expired)
    (hpos : live.ttlHops ≠ 0) (hzero : expired.ttlHops = 0) (now : UInt64) :
    MessagePriority.urgencyScore now (.transaction live) <
      MessagePriority.urgencyScore now (.transaction expired) := by
  have hsame : { live with ttlHops := 0 } = { expired with ttlHops := 0 } :=
    hlive.symm.trans hexpired
  have htimestamp := congrArg TransactionEnvelope.timestamp hsame
  dsimp only at htimestamp
  have hlt : 0 < live.ttlHops.toNat := by
    rw [Nat.pos_iff_ne_zero]
    exact fun h => hpos (UInt8.toNat_inj.1 h)
  unfold MessagePriority.urgencyScore
  dsimp only
  rw [htimestamp, hzero]
  have hnat : (0 : UInt8).toNat = 0 := rfl
  omega

/-- When an expired copy waits, a round that takes a copy takes an expired one first. -/
theorem first_copy_expired {message expired : TransactionEnvelope} (hcopies : OnlyCopies message s)
    (hwaits : expired ∈ s.state.activeQueue.iterEnvelopes)
    (hid : expired.messageId = message.messageId) (hzero : expired.ttlHops = 0)
    {pre post : List TransactionEnvelope} {env : TransactionEnvelope}
    (hbatch : s.batch i = pre ++ env :: post) (hidenv : env.messageId = message.messageId)
    (hpre : ∀ env' ∈ pre, env'.messageId ≠ message.messageId) : env.ttlHops = 0 := by
  by_contra hpos
  let q := s.state.activeQueue
  have hcopy : SameMessage message env := by
    refine hcopies env ?_ hidenv
    apply (batch_append_iterEnvelopes FanoutCalculator.new s i).subset
    rw [hbatch]
    simp
  have hpeers := RoundState.eligiblePeers_ne_nil hbatch
  rw [RoundState.batch, if_neg hpeers] at hbatch
  -- The batch, and behind it what is left, with descending urgency.
  have hnormal : ∀ msg ∈ (q.drainBatch fanoutBatchSize i.drainedAt).1,
      MessagePriority.forMessage msg = .normal := by
    intro msg hmsg
    apply q.normal.priority_eq
    rw [← mem_sortByKey (MessagePriority.urgencyScore i.drainedAt)]
    show msg ∈ q.byUrgency i.drainedAt
    rw [← q.drainBatch_append (by decide : fanoutBatchSize ≠ 0)]
    exact List.mem_append_left _ hmsg
  have hsorted := pairwise_sortByKey (MessagePriority.urgencyScore i.drainedAt) q.normal.messages
  have hmem : ProtocolMessage.transaction expired ∈ q.byUrgency i.drainedAt := by
    rw [q.iterEnvelopes_eq, mem_envelopes] at hwaits
    exact (mem_sortByKey _).2 hwaits
  change (q.byUrgency i.drainedAt).Pairwise _ at hsorted
  rw [← q.drainBatch_append (by decide : fanoutBatchSize ≠ 0), ← map_envelopes hnormal, hbatch,
    List.map_append, List.map_cons, List.append_assoc, List.cons_append] at hsorted hmem
  have hless := urgencyScore_lt_of_expired hcopy (hcopies expired hwaits hid) hpos hzero i.drainedAt
  rcases List.mem_append.1 hmem with hmem | hmem
  · obtain ⟨env', henv', heq⟩ := List.mem_map.1 hmem
    cases heq
    exact hpre _ henv' hid
  · rcases List.mem_cons.1 hmem with heq | hmem
    · cases heq
      exact hpos hzero
    · have hcons := (List.pairwise_append.1 hsorted).2.1
      have hle := (List.pairwise_cons.1 hcons).1 _ hmem
      omega

/-- **An expired copy suppresses the others.**  If an expired copy waits when a round takes the
first copies, then that round offers none, provided that the filter has no false negatives and a
window no shorter than a batch. -/
theorem no_offer_of_expired [LawfulBloom β] {message expired : TransactionEnvelope}
    (hcapacity : fanoutBatchSize ≤ s.bloom.capacity)
    (hfilter : NoFalsePositive β message.messageId)
    (hunseen : s.bloom.check message.messageId = false) (hcopies : OnlyCopies message s)
    (hwaits : expired ∈ s.state.activeQueue.iterEnvelopes)
    (hid : expired.messageId = message.messageId) (hzero : expired.ttlHops = 0) :
    ¬ ForwardsLive message (executeFanoutRound fanoutCalc s i).1 := by
  rintro ⟨call, hcall, env, hcopy, -, hmessage⟩
  rw [calls_executeFanoutRound, List.mem_flatMap] at hcall
  obtain ⟨⟨sent, seen⟩, hverdict, hoffer⟩ := hcall
  unfold offers at hoffer
  split_ifs at hoffer with hsilent
  · simp at hoffer
  rw [not_or, Bool.not_eq_true] at hsilent
  obtain ⟨peer, -, rfl⟩ := List.mem_map.1 hoffer
  -- The offered envelope is a copy, which the filter did not know when its turn came.
  have hidsent : sent.messageId = message.messageId := by
    have houtbound := congrArg TransactionEnvelope.messageId
      (ProtocolMessage.transaction.inj hmessage)
    have hid := congrArg TransactionEnvelope.messageId hcopy
    exact houtbound.trans hid.symm
  obtain ⟨before, behind, hsplit, hseen⟩ := mem_verdicts hverdict
  rw [hsilent.1] at hseen
  dsimp only at hsplit hseen
  by_cases hfirst : ∀ env' ∈ before, env'.messageId ≠ message.messageId
  · exact hsilent.2 (first_copy_expired hcopies hwaits hid hzero hsplit hidsent hfirst)
  · -- A copy went before it, after which the filter knows the id.
    push Not at hfirst
    obtain ⟨pre, first, mid, rfl, hidfirst, hpre⟩ := exists_first_copy hfirst
    have hturn : (s.bloom.afterBatch pre).check first.messageId = false := by
      rw [hidfirst]
      exact hfilter.check_afterBatch hunseen hpre
    have hlength : mid.length < (s.bloom.afterBatch pre).capacity := by
      have hle := s.length_batch_le i
      rw [hsplit] at hle
      rw [afterBatch_eq_exec, SlidingBloomFilter.capacity_exec]
      simp only [List.length_append, List.length_cons] at hle
      omega
    have hknown := check_afterBatch hturn hlength
    rw [← afterBatch_append, hidfirst, ← hidsent, ← hseen] at hknown
    cases hknown

/-- What enters the queue with the id of the message is a copy of it. -/
def EntersAsCopy (message : TransactionEnvelope) (i : PushInput) : Prop :=
  ∀ env, i = .addEnvelope env → env.messageId = message.messageId → SameMessage message env

/-- A step that takes no copy leaves the id unknown and only copies in the queue. -/
theorem unseen_step {message : TransactionEnvelope} (hfilter : NoFalsePositive β message.messageId)
    (hunseen : s.bloom.check message.messageId = false) (hcopies : OnlyCopies message s)
    {i : PushInput} (henters : EntersAsCopy message i)
    (hnone : ∀ round, i = .fanoutRound round → ¬ Takes message.messageId s round) :
    (s.step fanoutCalc i).2.bloom.check message.messageId = false ∧
      OnlyCopies message (s.step fanoutCalc i).2 := by
  cases i with
  | addEnvelope env =>
    refine ⟨hunseen, fun env' henv' hid => ?_⟩
    have hall : env' ∈ s.state.activeQueue.iterEnvelopes ++ [env] := by
      rw [← s.state.overflow_addEnvelopes [env]]
      exact List.mem_append_right _ henv'
    rcases List.mem_append.1 hall with hold | hnew
    · exact hcopies env' hold hid
    · rw [List.mem_singleton.1 hnew] at hid ⊢
      exact henters env rfl hid
  | fanoutRound round =>
    constructor
    · show (executeFanoutRound fanoutCalc s round).2.bloom.check message.messageId = false
      rw [bloom_executeFanoutRound]
      refine hfilter.check_afterBatch hunseen fun env henv hid => ?_
      exact hnone round rfl ((takes_iff _ _ _).2 ⟨env, henv, hid⟩)
    · intro env henv hid
      exact hcopies env (iterEnvelopes_executeFanoutRound_subset fanoutCalc s round henv) hid

/-- When a round takes the first copy, no expired one waits. -/
def NoneExpiredAtFirst (messageId : Bytes 32)
    (e : Event (RoundState β) PushInput (List SendCall)) : Prop :=
  ∀ i, e.input = .fanoutRound i → e.before.bloom.check messageId = false →
    Takes messageId e.before i → NoneExpired messageId e.before

/-- **A live copy is forwarded.**  Copies of a message whose id the filter does not know enter the
queue in any order and are taken by rounds.  If no expired copy waits when a round takes the first
one, a live copy is forwarded. -/
theorem live_copy_forwarded (fanoutCalc : FanoutCalculator) (message : TransactionEnvelope)
    (hfilter : NoFalsePositive β message.messageId) (s : RoundState β)
    (hunseen : s.bloom.check message.messageId = false) (hcopies : OnlyCopies message s)
    (is : List PushInput) (henters : ∀ i ∈ is, EntersAsCopy message i)
    (hcond : ∀ e ∈ trace (RoundState.step fanoutCalc) s is,
      NoneExpiredAtFirst message.messageId e)
    (htakes : ∃ e ∈ trace (RoundState.step fanoutCalc) s is, ∃ i,
      e.input = .fanoutRound i ∧ Takes message.messageId e.before i) :
    ∃ e ∈ trace (RoundState.step fanoutCalc) s is, ForwardsLive message e.output := by
  induction is generalizing s with
  | nil => simp at htakes
  | cons i is ih =>
    rw [trace_cons] at hcond htakes ⊢
    rw [List.forall_mem_cons] at hcond henters
    by_cases hfirst : ∃ round, i = .fanoutRound round ∧ Takes message.messageId s round
    · obtain ⟨round, rfl, htaken⟩ := hfirst
      refine ⟨_, List.mem_cons_self, forwardsLive_round hfilter hunseen hcopies ?_ htaken⟩
      exact hcond.1 round rfl hunseen htaken
    · obtain ⟨hunseen', hcopies'⟩ :
          (s.step fanoutCalc i).2.bloom.check message.messageId = false ∧
            OnlyCopies message (s.step fanoutCalc i).2 :=
        unseen_step hfilter hunseen hcopies henters.1 fun round hround htaken =>
          hfirst ⟨round, hround, htaken⟩
      obtain ⟨e, he, round, hround, htaken⟩ := htakes
      have hrest : e ∈ trace (RoundState.step fanoutCalc) (s.step fanoutCalc i).2 is := by
        rcases List.mem_cons.1 he with rfl | he
        · exact absurd ⟨round, hround, htaken⟩ hfirst
        · exact he
      obtain ⟨e', he', hforwards⟩ :=
        ih _ hunseen' hcopies' henters.2 hcond.2 ⟨e, hrest, round, hround, htaken⟩
      exact ⟨e', List.mem_cons_of_mem _ he', hforwards⟩

end Copies

/-- An expired and a live copy of an envelope enter the queue of a node that knows one peer, and a
round takes both. -/
def sampleCopies : List PushInput :=
  [.addEnvelope { (sampleForged 0).envelope with ttlHops := 0 },
    .addEnvelope (sampleForged 0).envelope, .fanoutRound sampleReadings]

/-- A live copy is taken by the first round, an expired one that enters after it by the second. -/
def sampleLateCopy : List PushInput :=
  [.addEnvelope (sampleForged 0).envelope, .fanoutRound sampleReadings,
    .addEnvelope { (sampleForged 0).envelope with ttlHops := 0 }, .fanoutRound sampleReadings]

/-- The live copy is forwarded: the expired one waits only when the filter knows the message. -/
theorem live_copy_forwarded_sample :
    ∃ e ∈ trace (RoundState.step FanoutCalculator.new) sampleRound sampleLateCopy,
      ForwardsLive (sampleForged 0).envelope e.output := by
  refine live_copy_forwarded FanoutCalculator.new (sampleForged 0).envelope
    (ExactFilter.noFalsePositive _) sampleRound (by decide +kernel)
    (fun env henv => absurd henv List.not_mem_nil) sampleLateCopy ?_ ?_ ?_
  · have hcopies : ∀ env : TransactionEnvelope, .addEnvelope env ∈ sampleLateCopy →
        env = (sampleForged 0).envelope ∨
          env = { (sampleForged 0).envelope with ttlHops := 0 } := by
      intro env henv
      simpa [sampleLateCopy] using henv
    rintro _ hi env rfl _
    rcases hcopies env hi with rfl | rfl <;> rfl
  · intro e he i hinput hunseen _
    rcases List.mem_cons.1 he with rfl | he
    · cases hinput
    rcases List.mem_cons.1 he with rfl | he
    · unfold NoneExpired
      decide +kernel
    rcases List.mem_cons.1 he with rfl | he
    · cases hinput
    · obtain rfl := List.mem_singleton.1 he
      exact absurd hunseen (by decide +kernel)
  · refine ⟨_, List.mem_cons_of_mem _ List.mem_cons_self, sampleReadings, rfl, ?_⟩
    rw [takes_iff]
    decide +kernel

/-- The failing input: both copies are taken, and none is forwarded. -/
theorem suppressed_sample :
    NoFalsePositive (ExactFilter (Bytes 32)) (sampleForged 0).envelope.messageId ∧
      sampleRound.bloom.check (sampleForged 0).envelope.messageId = false ∧
      sampleRound.state.activeQueue.iterEnvelopes = [] ∧
      (∀ i ∈ sampleCopies, EntersAsCopy (sampleForged 0).envelope i) ∧
      (sampleForged 0).envelope.ttlHops ≠ 0 ∧
      (exec (RoundState.step FanoutCalculator.new) sampleRound
        sampleCopies).state.activeQueue.iterEnvelopes = [] ∧
      ¬ ∃ e ∈ trace (RoundState.step FanoutCalculator.new) sampleRound sampleCopies,
        ForwardsLive (sampleForged 0).envelope e.output := by
  refine ⟨ExactFilter.noFalsePositive _, by decide +kernel, by decide +kernel, ?_, by decide,
    by decide +kernel, ?_⟩
  · intro i hi env hinput _
    rcases List.mem_cons.1 hi with rfl | hi
    · cases hinput
      rfl
    rcases List.mem_cons.1 hi with rfl | hi
    · cases hinput
      rfl
    · obtain rfl := List.mem_singleton.1 hi
      cases hinput
  · have hsilent : ∀ e ∈ trace (RoundState.step FanoutCalculator.new) sampleRound sampleCopies,
        e.output = [] := by
      intro e he
      rcases List.mem_cons.1 he with rfl | he
      · rfl
      rcases List.mem_cons.1 he with rfl | he
      · rfl
      · obtain rfl := List.mem_singleton.1 he
        decide +kernel
    rintro ⟨e, he, call, hcall, -⟩
    rw [hsilent e he] at hcall
    cases hcall

end StellarConduit
