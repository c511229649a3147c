import StellarConduit.Gossip.Verdicts
import StellarConduit.Transport.Connection

/-!
# Rounds and their sends

What becomes of an envelope of a round whose sends all fail.  A round logs the outcome of a send
and does nothing else with it, so that it is the same round for every transport.

* `executeFanoutRoundOver`: a round over a transport, with the outcomes of its sends;
* `recoverable_iff`: an envelope of the batch that nobody accepted can be forwarded later exactly
  when a copy of it was left in the queue.
-/

namespace StellarConduit

open Verif.Machine

/-- What a call of `send_to` comes to under the timeout of the round. -/
inductive SendOutcome
  | sent
  | failed (e : TransportError)
  | timedOut
  deriving DecidableEq

/-- The sends of a round so far, and the transport after them. -/
structure Sends (W : Type) where
  attempts : List (SendCall × SendOutcome)
  world : W

section Sending

variable {W : Type} (sendTo : W → SendCall → SendOutcome × W)

def Sends.attempt (acc : Sends W) (call : SendCall) : Sends W :=
  let (outcome, world) := sendTo acc.world call
  ⟨acc.attempts ++ [(call, outcome)], world⟩

/-- The sends are made in the order of the calls, whatever they come to. -/
theorem calls_foldl_attempt (calls : List SendCall) (acc : Sends W) :
    (calls.foldl (Sends.attempt sendTo) acc).attempts.map Prod.fst =
      acc.attempts.map Prod.fst ++ calls := by
  induction calls generalizing acc with
  | nil => simp
  | cons call calls ih =>
    rw [List.foldl_cons, ih]
    simp [Sends.attempt]

/-- A recipient accepted the envelope. -/
def Sends.Accepted (sends : Sends W) (outbound : TransactionEnvelope) : Prop :=
  ∃ peer, (⟨peer, .transaction outbound⟩, .sent) ∈ sends.attempts

variable {β : Type} [Bloom β (Bytes 32)]

/-- A round over a transport. -/
def executeFanoutRoundOver (fanoutCalc : FanoutCalculator) (s : RoundState β) (w : W)
    (i : RoundInput) : Sends W × RoundState β :=
  let (calls, s) := executeFanoutRound fanoutCalc s i
  (calls.foldl (Sends.attempt sendTo) ⟨[], w⟩, s)

variable (fanoutCalc : FanoutCalculator) (s : RoundState β) (w : W) (i : RoundInput)

theorem attempts_executeFanoutRoundOver :
    (executeFanoutRoundOver sendTo fanoutCalc s w i).1.attempts.map Prod.fst =
      (executeFanoutRound fanoutCalc s i).1 :=
  (calls_foldl_attempt sendTo _ _).trans (List.nil_append _)

/-- The state after the round is the same for every transport. -/
theorem executeFanoutRoundOver_snd :
    (executeFanoutRoundOver sendTo fanoutCalc s w i).2 = (executeFanoutRound fanoutCalc s i).2 :=
  rfl

end Sending

section Loss

variable {β : Type} [Bloom β (Bytes 32)]

/-- The envelope can still be forwarded: it waits in the queue, or it would not be suppressed if
it were added again. -/
def Recoverable (s : RoundState β) (env : TransactionEnvelope) : Prop :=
  env ∈ s.state.activeQueue.iterEnvelopes ∨ s.bloom.check env.messageId = false

variable [LawfulBloom β]

/-- **A failed round.**  Let an envelope of the batch have hops left and not be reported as seen,
and let the window of the filter be no shorter than a batch.  Over every transport of which no
recipient accepts the envelope, it was offered to each recipient, and it can be forwarded later
exactly when a copy of it was left in the queue. -/
theorem recoverable_iff (fanoutCalc : FanoutCalculator) (s : RoundState β) (i : RoundInput)
    (hcapacity : fanoutBatchSize ≤ s.bloom.capacity) {pre post : List TransactionEnvelope}
    {env : TransactionEnvelope} (hbatch : s.batch i = pre ++ env :: post)
    (hunseen : (s.bloom.afterBatch pre).check env.messageId = false) (httl : env.ttlHops ≠ 0)
    {W : Type} (sendTo : W → SendCall → SendOutcome × W) (w : W) :
    ¬ (executeFanoutRoundOver sendTo fanoutCalc s w i).1.Accepted env.outbound →
      ((s.recipients fanoutCalc i).map fun peer => ⟨peer, .transaction env.outbound⟩) <:+:
          (executeFanoutRoundOver sendTo fanoutCalc s w i).1.attempts.map Prod.fst ∧
        (Recoverable (executeFanoutRoundOver sendTo fanoutCalc s w i).2 env ↔
          (s.batch i).count env < s.state.activeQueue.iterEnvelopes.count env) := by
  intro _
  rw [attempts_executeFanoutRoundOver, executeFanoutRoundOver_snd]
  constructor
  · rw [calls_executeFanoutRound, hbatch, verdicts_append, List.flatMap_append]
    have hverdict : verdicts (s.bloom.afterBatch pre) (env :: post) =
        (env, false) :: verdicts ((s.bloom.afterBatch pre).checkAndAdd env.messageId).2 post := by
      rw [← hunseen, verdicts, SlidingBloomFilter.checkAndAdd_eq]
    rw [hverdict, List.flatMap_cons]
    have hoffers : offers (s.recipients fanoutCalc i) env false =
        (s.recipients fanoutCalc i).map fun peer => ⟨peer, .transaction env.outbound⟩ :=
      if_neg (by simpa using httl)
    rw [hoffers]
    exact ⟨_, _, List.append_assoc _ _ _⟩
  -- The filter has seen the message, so only a further copy in the queue can be sent.
  · have hseen : (executeFanoutRound fanoutCalc s i).2.bloom.check env.messageId = true := by
      have hlength : post.length < (s.bloom.afterBatch pre).capacity := by
        have hle := s.length_batch_le i
        rw [hbatch, List.length_append, List.length_cons] at hle
        rw [afterBatch_eq_exec, SlidingBloomFilter.capacity_exec]
        omega
      rw [bloom_executeFanoutRound, hbatch, afterBatch_append]
      exact check_afterBatch hunseen hlength
    have hcount := (batch_append_iterEnvelopes fanoutCalc s i).count_eq env
    rw [List.count_append] at hcount
    show _ ∨ (executeFanoutRound fanoutCalc s i).2.bloom.check env.messageId = false ↔ _
    rw [hseen, ← List.count_pos_iff]
    constructor
    · rintro (hpos | hfalse)
      · omega
      · cases hfalse
    · intro hlt
      exact Or.inl (by omega)

end Loss

/-- A node that knows one peer, and holds one envelope with ten hops left. -/
def sampleWaiting : RoundState (ExactFilter (Bytes 32)) :=
  { sampleRound with state := (GossipState.new.addEnvelope (sampleForged 0).envelope).2 }

/-- A transport whose sends all time out. -/
def sampleSilent (w : Unit) (_ : SendCall) : SendOutcome × Unit := (.timedOut, w)

/-- The only send times out. -/
theorem not_accepted_sample :
    ¬ (executeFanoutRoundOver sampleSilent FanoutCalculator.new sampleWaiting ()
      sampleReadings).1.Accepted (sampleForged 0).envelope.outbound := by
  have hall : ∀ a ∈ (executeFanoutRoundOver sampleSilent FanoutCalculator.new sampleWaiting ()
      sampleReadings).1.attempts, a.2 ≠ .sent := by decide +kernel
  rintro ⟨peer, hmem⟩
  exact hall _ hmem rfl

/-- No copy is left in the queue. -/
theorem recoverable_iff_sample :
    ¬ Recoverable (executeFanoutRoundOver sampleSilent FanoutCalculator.new sampleWaiting ()
      sampleReadings).2 (sampleForged 0).envelope := by
  have hbatch : sampleWaiting.batch sampleReadings = [] ++ (sampleForged 0).envelope :: [] := by
    decide +kernel
  obtain ⟨-, hrecoverable⟩ := recoverable_iff FanoutCalculator.new sampleWaiting sampleReadings
    (by decide) hbatch (by decide +kernel) (by decide) sampleSilent () not_accepted_sample
  rw [hrecoverable]
  decide +kernel

/-- The envelope that timed out is lost: it is not in the queue any more, and it is suppressed. -/
theorem lost_sample :
    (sampleForged 0).envelope ∈ sampleWaiting.batch sampleReadings ∧
      (sampleForged 0).envelope.ttlHops ≠ 0 ∧
      sampleWaiting.bloom.check (sampleForged 0).envelope.messageId = false ∧
      ¬ (executeFanoutRoundOver sampleSilent FanoutCalculator.new sampleWaiting ()
        sampleReadings).1.Accepted (sampleForged 0).envelope.outbound ∧
      ¬ Recoverable (executeFanoutRoundOver sampleSilent FanoutCalculator.new sampleWaiting ()
        sampleReadings).2 (sampleForged 0).envelope := by
  refine ⟨by decide +kernel, by decide, by decide +kernel, not_accepted_sample, ?_⟩
  unfold Recoverable
  decide +kernel

end StellarConduit
