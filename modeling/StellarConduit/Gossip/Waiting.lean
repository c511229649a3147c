import StellarConduit.Gossip.Accounting
import StellarConduit.Gossip.Suppression

/-!
# How long an envelope waits

Rounds take the most urgent envelopes first, so that an envelope can be overtaken by others, those
that come later included.  But a round that leaves an envelope behind takes a full batch of others,
and none of these waits again.

* `length_batch_of_mem`: a round that leaves an envelope behind takes a full batch;
* `waiting_trace`: in a run without overflow, what waited and came is what was taken and waits;
* `taken_in_time`: an envelope is taken before the rounds have taken all that waited and came.
-/

namespace StellarConduit

open Verif Verif.Machine

variable {β : Type} [Bloom β (Bytes 32)] {s : RoundState β}

/-- How many envelopes wait. -/
def RoundState.waiting (s : RoundState β) : ℕ := s.state.activeQueue.iterEnvelopes.length

/-- The steps of a node that pushes. -/
abbrev PushEvent (β : Type) := Event (RoundState β) PushInput (List SendCall)

namespace PushEvent

/-- How many envelopes come with the step. -/
def came (e : PushEvent β) : ℕ :=
  match e.input with
  | .addEnvelope _ => 1
  | .fanoutRound _ => 0

/-- The envelopes that the step takes off the queue. -/
def taken (e : PushEvent β) : List TransactionEnvelope :=
  match e.input with
  | .addEnvelope _ => []
  | .fanoutRound i => e.before.batch i

/-- How many envelopes go with the step. -/
def went (e : PushEvent β) : ℕ := e.taken.length

/-- The step is a round that finds an eligible peer. -/
def finds (e : PushEvent β) : Bool :=
  match e.input with
  | .addEnvelope _ => false
  | .fanoutRound i => !(e.before.peerList.eligiblePeers i.activeAt).isEmpty

/-- No envelope comes to a full queue. -/
def Fits (e : PushEvent β) : Prop :=
  ∀ env, e.input = .addEnvelope env → e.before.waiting < normalCapacity

end PushEvent

theorem waiting_executeFanoutRound (fanoutCalc : FanoutCalculator) (s : RoundState β)
    (i : RoundInput) :
    (s.batch i).length + (executeFanoutRound fanoutCalc s i).2.waiting = s.waiting := by
  have hperm := (batch_append_iterEnvelopes fanoutCalc s i).length_eq
  rwa [List.length_append] at hperm

omit [Bloom β (Bytes 32)] in
/-- A round that finds an eligible peer takes a full batch, or all that waits. -/
theorem length_batch {i : RoundInput} (hpeers : s.peerList.eligiblePeers i.activeAt ≠ []) :
    (s.batch i).length = min fanoutBatchSize s.waiting := by
  have hbatch := congrArg List.length (RoundState.map_batch s i hpeers)
  rw [List.length_map, s.state.activeQueue.drainBatch_eq_take, List.length_take,
    PriorityQueue.length_byUrgency, ← PriorityQueue.length_iterEnvelopes] at hbatch
  exact hbatch

/-- A round that finds an eligible peer and leaves an envelope behind takes a full batch. -/
theorem length_batch_of_mem {fanoutCalc : FanoutCalculator} {i : RoundInput}
    (hpeers : s.peerList.eligiblePeers i.activeAt ≠ []) {env : TransactionEnvelope}
    (h : env ∈ (executeFanoutRound fanoutCalc s i).2.state.activeQueue.iterEnvelopes) :
    (s.batch i).length = fanoutBatchSize := by
  have hleft : 0 < (executeFanoutRound fanoutCalc s i).2.waiting := List.length_pos_of_mem h
  have hall := waiting_executeFanoutRound fanoutCalc s i
  have htaken := length_batch hpeers
  omega

theorem waiting_step (fanoutCalc : FanoutCalculator) {e : PushEvent β} (hfits : e.Fits) :
    e.before.waiting + e.came =
      (e.before.step fanoutCalc e.input).2.waiting + e.went := by
  obtain ⟨s, input, calls⟩ := e
  cases input with
  | addEnvelope env =>
    have hpush : (s.state.addEnvelope env).2.activeQueue.iterEnvelopes =
        s.state.activeQueue.iterEnvelopes ++ [env] := by
      rw [GossipState.activeQueue_addEnvelope]
      exact s.state.activeQueue.iterEnvelopes_push_of_fits env (hfits env rfl)
    have hlength := congrArg List.length hpush
    rw [List.length_append, List.length_singleton] at hlength
    exact hlength.symm
  | fanoutRound i =>
    have hround := waiting_executeFanoutRound fanoutCalc s i
    show s.waiting + 0 = (executeFanoutRound fanoutCalc s i).2.waiting + (s.batch i).length
    omega

/-- What waited and came is what was taken and what waits. -/
theorem waiting_trace (fanoutCalc : FanoutCalculator) {is : List PushInput}
    (hfits : ∀ e ∈ trace (RoundState.step fanoutCalc) s is, PushEvent.Fits e) :
    s.waiting + ((trace (RoundState.step fanoutCalc) s is).map PushEvent.came).sum =
      (exec (RoundState.step fanoutCalc) s is).waiting +
        ((trace (RoundState.step fanoutCalc) s is).map PushEvent.went).sum :=
  balance_trace fun e he => waiting_step fanoutCalc (hfits e he)

/-- An envelope waits until it is taken. -/
theorem waits_step {fanoutCalc : FanoutCalculator} {env : TransactionEnvelope} {input : PushInput}
    (hfits : PushEvent.Fits ⟨s, input, (s.step fanoutCalc input).1⟩)
    (hleft : env ∉ PushEvent.taken ⟨s, input, (s.step fanoutCalc input).1⟩)
    (h : env ∈ s.state.activeQueue.iterEnvelopes) :
    env ∈ (s.step fanoutCalc input).2.state.activeQueue.iterEnvelopes := by
  cases input with
  | addEnvelope env' =>
    show env ∈ (s.state.addEnvelope env').2.activeQueue.iterEnvelopes
    rw [GossipState.activeQueue_addEnvelope,
      s.state.activeQueue.iterEnvelopes_push_of_fits env' (hfits env' rfl)]
    exact List.mem_append_left _ h
  | fanoutRound i =>
    have hboth := (batch_append_iterEnvelopes fanoutCalc s i).mem_iff.2 h
    exact (List.mem_append.1 hboth).resolve_left hleft

omit [Bloom β (Bytes 32)] in
/-- Batches that are full when a peer is found are as long as all of them together. -/
theorem le_taken {events : List (PushEvent β)}
    (h : ∀ e ∈ events, e.finds = true → fanoutBatchSize ≤ e.went) :
    fanoutBatchSize * events.countP PushEvent.finds ≤ (events.map PushEvent.went).sum := by
  induction events with
  | nil => exact Nat.zero_le _
  | cons e events ih =>
    rw [List.forall_mem_cons] at h
    rw [List.countP_cons, List.map_cons, List.sum_cons, Nat.mul_add, Nat.add_comm]
    refine Nat.add_le_add ?_ (ih h.2)
    split_ifs with hfinds
    · exact h.1 hfinds
    · exact Nat.zero_le _

/-- **Taken in time.**  While the queue does not overflow, an envelope that waits is taken by a
round, whatever comes after it and however urgent it is, as soon as the rounds that find an
eligible peer could have taken everything that waited and came, in batches of thirty-two. -/
theorem taken_in_time (fanoutCalc : FanoutCalculator) (s : RoundState β)
    (env : TransactionEnvelope) (hwaits : env ∈ s.state.activeQueue.iterEnvelopes)
    (is : List PushInput)
    (hfits : ∀ e ∈ trace (RoundState.step fanoutCalc) s is, PushEvent.Fits e)
    (hrounds : s.waiting + ((trace (RoundState.step fanoutCalc) s is).map PushEvent.came).sum ≤
      fanoutBatchSize * (trace (RoundState.step fanoutCalc) s is).countP PushEvent.finds) :
    ∃ e ∈ trace (RoundState.step fanoutCalc) s is, ∃ i,
      e.input = .fanoutRound i ∧ env ∈ e.before.batch i := by
  by_contra hnever
  have hleft : ∀ e ∈ trace (RoundState.step fanoutCalc) s is,
      PushEvent.Fits e ∧ env ∉ PushEvent.taken e := by
    rintro ⟨before, input, calls⟩ he
    refine ⟨hfits _ he, fun htaken => ?_⟩
    cases input with
    | addEnvelope env' => cases htaken
    | fanoutRound i => exact hnever ⟨_, he, i, rfl, htaken⟩
  obtain ⟨hbefore, hlast⟩ :
      (∀ e ∈ trace (RoundState.step fanoutCalc) s is,
        env ∈ e.before.state.activeQueue.iterEnvelopes) ∧
        env ∈ (exec (RoundState.step fanoutCalc) s is).state.activeQueue.iterEnvelopes := by
    refine trace_invariant (fun s => env ∈ s.state.activeQueue.iterEnvelopes) ?_ hleft hwaits
    intro s input hcond h
    exact waits_step hcond.1 hcond.2 h
  -- Every round that finds a peer leaves the envelope behind, so that it takes a full batch.
  have hfull : fanoutBatchSize * (trace (RoundState.step fanoutCalc) s is).countP PushEvent.finds ≤
      ((trace (RoundState.step fanoutCalc) s is).map PushEvent.went).sum := by
    apply le_taken
    rintro ⟨before, input, calls⟩ he hfinds
    cases input with
    | addEnvelope env' => cases hfinds
    | fanoutRound i =>
      have hpeers : before.peerList.eligiblePeers i.activeAt ≠ [] := by
        intro hnil
        simp [PushEvent.finds, hnil] at hfinds
      have hafter := (List.mem_append.1
        ((batch_append_iterEnvelopes fanoutCalc before i).mem_iff.2
          (hbefore _ he))).resolve_left (hleft _ he).2
      exact (length_batch_of_mem hpeers hafter).ge
  have hstill : 0 < (exec (RoundState.step fanoutCalc) s is).waiting :=
    List.length_pos_of_mem hlast
  have hbalance := waiting_trace fanoutCalc hfits
  omega

/-- An envelope waits, a more urgent one comes, and one round takes both. -/
theorem taken_in_time_sample :
    let waiting : RoundState (ExactFilter (Bytes 32)) :=
      { sampleRound with state := (GossipState.new.addEnvelope (sampleForged 0).envelope).2 }
    ∃ e ∈ trace (RoundState.step FanoutCalculator.new) waiting
      [.addEnvelope { sampleTagged 1 with ttlHops := 15 }, .fanoutRound sampleReadings],
      ∃ i, e.input = .fanoutRound i ∧ (sampleForged 0).envelope ∈ e.before.batch i := by
  intro waiting
  refine taken_in_time FanoutCalculator.new waiting (sampleForged 0).envelope ?_ _ ?_ ?_
  · exact GossipState.mem_addEnvelope _ _
  · intro e he env hinput
    rcases List.mem_cons.1 he with rfl | he
    · decide +kernel
    · obtain rfl := List.mem_singleton.1 he
      cases hinput
  · decide +kernel

end StellarConduit
