import Mathlib.Data.ENat.Lattice
import Mathlib.Tactic.IntervalCases
import StellarConduit.Relay.Node

/-!
# Retries and their pauses

`submit_with_retry` of `relay/mod.rs` with all that it computes: the number of the attempt, and the
pause before the next one.  Arithmetic on numbers and durations that overflows is a panic.  The
floating-point factors of the configuration stand for what is computed with them.

* `Paced.submitLoop`, `Paced.submitWithRetry`: the retry loop;
* `Paced.submitLoop_eq`: without a panic it is the loop without pauses;
* `StopsAt.eq_min`: the attempt at which the loop stops;
* `Paced.submitWithRetry_exact`: how often the client is called, and what is counted and returned.
-/

namespace StellarConduit

open Verif

/-- `Duration::MAX`, in nanoseconds -/
def maxDuration : ℕ := (2 ^ 64 - 1) * 1000000000 + 999999999

/-- How a retry panics. -/
inductive RetryPanic
  | attemptOverflow
  | addDurations
  | mulDuration
  deriving DecidableEq

/-- What the retry loop comes to. -/
structure Retried where
  outcome : Except RetryPanic (Except RpcError String)
  metrics : Metrics
  calls : List RpcCall

namespace Paced

structure RetryConfig where
  maxAttempts : UInt32
  /-- in nanoseconds, as `maxBackoff` -/
  initialBackoff : ℕ
  /-- `mul_f64` by the multiplier, which panics if the product is no duration -/
  mulF64 : ℕ → Option ℕ
  maxBackoff : ℕ
  /-- the jitter in milliseconds that is drawn for a backoff after an attempt -/
  jitterMs : ℕ → ℕ → UInt64

theorem toNat_add_one {attempt : UInt32} (h : attempt.toNat + 1 < 2 ^ 32) :
    (attempt + 1).toNat = attempt.toNat + 1 := by
  rw [UInt32.toNat_add]
  exact Nat.mod_eq_of_lt h

theorem toNat_add_one_lt {attempt limit : UInt32} (h : attempt.toNat + 1 < 2 ^ 32)
    (hgo : ¬ attempt + 1 ≥ limit) : attempt.toNat + 1 < limit.toNat := by
  rw [← toNat_add_one h]
  exact Nat.lt_of_not_ge fun hle => hgo (UInt32.le_iff_toNat_le.2 hle)

def submitLoop (config : RetryConfig) (rpc : Rpc) (txXdr : String) (attempt : UInt32)
    (backoff : ℕ) (metrics : Metrics) : Retried :=
  if attempt.toNat + 1 < 2 ^ 32 then
    let next := attempt + 1
    let answer := rpc.submitTransaction next.toNat
    let call := RpcCall.submitTransaction txXdr answer
    match answer with
    | .ok hash => ⟨.ok (.ok hash), metrics, [call]⟩
    | .error (.transactionRejected reason) =>
      ⟨.ok (.error (.transactionRejected reason)), metrics, [call]⟩
    | .error e =>
      if next ≥ config.maxAttempts then ⟨.ok (.error e), metrics, [call]⟩
      else
        let metrics := { metrics with relaySubmissionRetries := metrics.relaySubmissionRetries + 1 }
        let sleep := backoff + (config.jitterMs backoff next.toNat).toNat * 1000000
        if sleep > maxDuration then ⟨.error .addDurations, metrics, [call]⟩
        else
          match config.mulF64 backoff with
          | none => ⟨.error .mulDuration, metrics, [call]⟩
          | some product =>
            let rest := submitLoop config rpc txXdr next (min product config.maxBackoff) metrics
            { rest with calls := call :: rest.calls }
  else ⟨.error .attemptOverflow, metrics, []⟩
termination_by config.maxAttempts.toNat - attempt.toNat
decreasing_by
  have hnext : (attempt + 1).toNat = attempt.toNat + 1 := toNat_add_one ‹_›
  have hleft := toNat_add_one_lt ‹_› ‹¬ attempt + 1 ≥ config.maxAttempts›
  omega

def submitWithRetry (config : RetryConfig) (rpc : Rpc) (txXdr : String) (metrics : Metrics) :
    Retried :=
  submitLoop config rpc txXdr 0 config.initialBackoff metrics

/-- The backoff after so many retries, if no multiplication has panicked. -/
def RetryConfig.backoffAt (config : RetryConfig) : ℕ → Option ℕ
  | 0 => some config.initialBackoff
  | k + 1 => (config.backoffAt k).bind fun backoff =>
    (config.mulF64 backoff).map (min · config.maxBackoff)

/-- The multiplications of the backoff stay within the range of durations. -/
def RetryConfig.Multiplies (config : RetryConfig) : Prop :=
  ∀ k, k + 1 < config.maxAttempts.toNat → (config.backoffAt (k + 1)).isSome

/-- With their jitter, the backoffs stay within the range of durations. -/
def RetryConfig.Sleeps (config : RetryConfig) : Prop :=
  ∀ k, k + 1 < config.maxAttempts.toNat → ∀ backoff ∈ config.backoffAt k,
    backoff + (config.jitterMs backoff (k + 1)).toNat * 1000000 ≤ maxDuration

end Paced

/-! ### The attempt at which the loop stops -/

/-- The loop stops at such an answer, whatever attempts are left. -/
def IsFinal (answer : Except RpcError String) : Prop :=
  ∀ e, answer = .error e → e.isTransient = false

/-- The position of the first final answer, if there is one. -/
noncomputable def firstFinal (rpc : Rpc) : ℕ∞ :=
  sInf {i | ∃ n : ℕ, 1 ≤ n ∧ IsFinal (rpc.submitTransaction n) ∧ i = n}

theorem StopsAt.eq_min {maxAttempts : UInt32} {rpc : Rpc} {n : ℕ}
    (h : StopsAt maxAttempts rpc n) :
    (n : ℕ∞) = min (firstFinal rpc) (max 1 maxAttempts.toNat : ℕ) := by
  have hbefore : (n : ℕ∞) ≤ firstFinal rpc := by
    refine le_sInf ?_
    rintro _ ⟨i, hi, hfinal, rfl⟩
    rw [Nat.cast_le]
    by_contra hlt
    obtain ⟨e, he, htransient⟩ := h.transient i hi (by omega)
    rw [hfinal e he] at htransient
    cases htransient
  refine le_antisymm (le_min hbefore (Nat.cast_le.2 h.le)) ?_
  by_cases hfinal : IsFinal (rpc.submitTransaction n)
  · exact (min_le_left _ _).trans (sInf_le ⟨n, h.pos, hfinal, rfl⟩)
  · unfold IsFinal at hfinal
    push Not at hfinal
    obtain ⟨e, he, htransient⟩ := hfinal
    have hlimit := h.final e he (by simpa using htransient)
    have hpos := h.pos
    exact (min_le_right _ _).trans (Nat.cast_le.2 (by omega))

/-- A retry is counted for every call but the first. -/
theorem submitLoop_metrics (maxAttempts : UInt32) (rpc : Rpc) (txXdr : String) (attempt : ℕ)
    (metrics : Metrics) :
    ∃ retries : ℕ, (submitLoop maxAttempts rpc txXdr attempt metrics).2.2.length = retries + 1 ∧
      (submitLoop maxAttempts rpc txXdr attempt metrics).2.1 = { metrics with
        relaySubmissionRetries := metrics.relaySubmissionRetries + UInt64.ofNat retries } := by
  fun_induction submitLoop maxAttempts rpc txXdr attempt metrics with
  | case1 attempt metrics answer call hash hanswer => exact ⟨0, rfl, by simp⟩
  | case2 attempt metrics answer call reason hanswer => exact ⟨0, rfl, by simp⟩
  | case3 attempt metrics answer call e hne hanswer hstop => exact ⟨0, rfl, by simp⟩
  | case4 attempt metrics answer call e hne hanswer hgo result metrics' calls heq ih =>
    obtain ⟨retries, hlength, hmetrics⟩ := ih
    rw [heq] at hlength hmetrics
    refine ⟨retries + 1, congrArg (· + 1) hlength, hmetrics.trans ?_⟩
    rw [UInt64.ofNat_add, UInt64.add_assoc, UInt64.add_comm 1]
    rfl

namespace Paced

/-! ### Without a panic -/

/-- While there are attempts left, the loop is the one without pauses. -/
theorem submitLoop_eq {config : RetryConfig} (hmul : config.Multiplies) (hsleep : config.Sleeps)
    (rpc : Rpc) (txXdr : String) (attempt : UInt32) (backoff : ℕ) (metrics : Metrics)
    (hattempt : attempt.toNat < max 1 config.maxAttempts.toNat)
    (hbackoff : config.backoffAt attempt.toNat = some backoff) :
    submitLoop config rpc txXdr attempt backoff metrics =
      let r := StellarConduit.submitLoop config.maxAttempts rpc txXdr attempt.toNat metrics
      ⟨.ok r.1, r.2.1, r.2.2⟩ := by
  have hmax := config.maxAttempts.toNat_lt
  have first : ∀ {attempt : UInt32}, attempt.toNat + 1 < 2 ^ 32 →
      rpc.submitTransaction (attempt.toNat + 1) = rpc.submitTransaction (attempt + 1).toNat :=
    fun hfits => by rw [toNat_add_one hfits]
  fun_induction submitLoop config rpc txXdr attempt backoff metrics with
  | case1 attempt backoff metrics hfits next answer call hash hanswer =>
    have hfirst := (first hfits).trans hanswer
    rw [StellarConduit.submitLoop]
    simp only [hfirst, call, hanswer]
  | case2 attempt backoff metrics hfits next answer call reason hanswer =>
    have hfirst := (first hfits).trans hanswer
    rw [StellarConduit.submitLoop]
    simp only [hfirst, call, hanswer]
  | case3 attempt backoff metrics hfits next answer call e hne hanswer hlast =>
    have hfirst := (first hfits).trans hanswer
    have hstop : attempt.toNat + 1 ≥ config.maxAttempts.toNat :=
      toNat_add_one hfits ▸ UInt32.le_iff_toNat_le.1 hlast
    rw [StellarConduit.submitLoop]
    simp only [hfirst, call, hanswer, hstop, if_true]
  | case4 attempt backoff metrics hfits next answer call e hne hanswer hgo metrics' sleep hlong =>
    have hleft : attempt.toNat + 1 < config.maxAttempts.toNat := toNat_add_one_lt hfits hgo
    -- The sleep would be too long for a duration, which `Sleeps` rules out.
    exact absurd (toNat_add_one hfits ▸ hlong) (hsleep _ hleft backoff hbackoff).not_gt
  | case5 attempt backoff metrics hfits next answer call e hne hanswer hgo metrics' sleep hshort
      hpanic =>
    have hleft : attempt.toNat + 1 < config.maxAttempts.toNat := toNat_add_one_lt hfits hgo
    -- The product would overflow, which `Multiplies` rules out.
    have hsome := hmul _ hleft
    rw [RetryConfig.backoffAt, hbackoff, Option.bind_some, hpanic] at hsome
    cases hsome
  | case6 attempt backoff metrics hfits next answer call e hne hanswer hgo metrics' sleep hshort
      product hproduct rest ih =>
    have hleft : attempt.toNat + 1 < config.maxAttempts.toNat := toNat_add_one_lt hfits hgo
    have hfirst := (first hfits).trans hanswer
    have hnext : next.toNat = attempt.toNat + 1 := toNat_add_one hfits
    have hrest := ih (by omega)
      (by rw [hnext, RetryConfig.backoffAt, hbackoff, Option.bind_some, hproduct]; rfl)
    rw [hnext] at hrest
    rw [StellarConduit.submitLoop]
    simp only [hfirst, call, hanswer, hleft.not_ge, if_false]
    rw [show rest = _ from hrest]
  | case7 attempt backoff metrics hfits => omega

/-- **How often the client is called.**  If the multiplications of the backoff and its sums with the
jitter stay within the range of durations, `submit_with_retry` calls up to the first final answer or
the last attempt, whatever comes first, and at least once.  It returns the answer to the last call,
which is the only one that may be a rejection, and counts a retry for every call but the first. -/
theorem submitWithRetry_exact {config : RetryConfig} (hmul : config.Multiplies)
    (hsleep : config.Sleeps) (rpc : Rpc) (txXdr : String) (metrics : Metrics) :
    let r := submitWithRetry config rpc txXdr metrics
    let n := r.calls.length
    (n : ℕ∞) = min (firstFinal rpc) (max 1 config.maxAttempts.toNat : ℕ) ∧
      r.calls = (List.range' 1 n).map (fun i =>
        RpcCall.submitTransaction txXdr (rpc.submitTransaction i)) ∧
      r.outcome = .ok (rpc.submitTransaction n) ∧
      (∀ i reason, 1 ≤ i → rpc.submitTransaction i = .error (.transactionRejected reason) →
        n ≤ i) ∧
      r.metrics = { metrics with
        relaySubmissionRetries := metrics.relaySubmissionRetries + UInt64.ofNat (n - 1) } := by
  intro r n
  -- No sleep and no product panics, so the loop is the one without a clock.
  have hr : r = _ := submitLoop_eq hmul hsleep rpc txXdr 0 config.initialBackoff metrics
    (show 0 < max 1 _ by omega) rfl
  obtain ⟨m, -, hstops, hanswer, hcalls⟩ :=
    submitLoop_spec config.maxAttempts rpc txXdr 0 metrics (by omega) (by omega)
  obtain ⟨retries, hlength, hmetrics⟩ :=
    submitLoop_metrics config.maxAttempts rpc txXdr 0 metrics
  have hn : n = m := by
    show r.calls.length = m
    rw [hr]
    show (StellarConduit.submitLoop config.maxAttempts rpc txXdr 0 metrics).2.2.length = m
    rw [hcalls, List.length_map, List.length_range', Nat.sub_zero]
  have hretries : n - 1 = retries := by
    show r.calls.length - 1 = retries
    rw [hr]
    exact Nat.sub_eq_of_eq_add hlength
  refine ⟨hn ▸ hstops.eq_min, ?_, ?_, ?_, ?_⟩
  · rw [hn, hr]
    exact hcalls
  · rw [hn, hr]
    exact congrArg Except.ok hanswer
  · intro i reason hi hrejected
    by_contra hlt
    obtain ⟨e, he, htransient⟩ := hstops.transient i hi (by omega)
    rw [hrejected] at he
    cases he
    cases htransient
  · rw [hretries, hr]
    exact hmetrics

/-- The defaults, without jitter. -/
def RetryConfig.sample : RetryConfig where
  maxAttempts := 5
  initialBackoff := 500000000
  mulF64 backoff := if 2 * backoff ≤ maxDuration then some (2 * backoff) else none
  maxBackoff := 30000000000
  jitterMs _ _ := 0

/-- The network is down at first, and then the transaction is rejected. -/
def rejectingRpc : Rpc where
  submitTransaction n :=
    if n = 1 then .error (.network "connection refused")
    else .error (.transactionRejected "tx_bad_seq")
  getLedgerSequence := .error (.timeout 1000)
  getLedgerHash := .error (.timeout 1000)

theorem RetryConfig.sample_multiplies : RetryConfig.sample.Multiplies := by
  intro k hk
  have hk : k < 4 := Nat.lt_of_succ_lt_succ hk
  interval_cases k <;> rfl

theorem RetryConfig.sample_sleeps : RetryConfig.sample.Sleeps := by
  intro k hk backoff hbackoff
  have hk : k < 4 := Nat.lt_of_succ_lt_succ hk
  interval_cases k <;>
  · obtain rfl := Option.some.inj hbackoff
    decide

/-- With the defaults, the rejection is the answer to the last call. -/
theorem submitWithRetry_exact_sample :
    let r := submitWithRetry RetryConfig.sample rejectingRpc "AAAA" Metrics.new
    let n := r.calls.length
    n = 2 ∧ (n : ℕ∞) = min (firstFinal rejectingRpc) 5 ∧
      r.outcome = .ok (.error (.transactionRejected "tx_bad_seq")) ∧
      r.metrics = { Metrics.new with relaySubmissionRetries := 1 } := by
  intro r n
  have hn : n = 2 := by decide +kernel
  obtain ⟨hmin, -, houtcome, -, hmetrics⟩ := submitWithRetry_exact RetryConfig.sample_multiplies
    RetryConfig.sample_sleeps rejectingRpc "AAAA" Metrics.new
  refine ⟨hn, hmin, houtcome.trans ?_, hmetrics.trans ?_⟩
  · rw [show r.calls.length = 2 from hn]
    rfl
  · rw [show r.calls.length = 2 from hn]
    rfl

/-! ### A pause that is too long -/

/-- The first backoff is the longest duration, the multiplier is one half, and the jitter is what
a product that is too large for it is cast to. -/
def RetryConfig.longest : RetryConfig where
  maxAttempts := 2
  initialBackoff := maxDuration
  mulF64 _ := some (2 ^ 63 * 1000000000)
  maxBackoff := maxDuration
  jitterMs _ _ := UInt64.ofNat (2 ^ 64 - 1)

/-- The first retry panics, although the multiplication would not. -/
theorem longest_panics :
    let r := submitWithRetry RetryConfig.longest rejectingRpc "AAAA" Metrics.new
    RetryConfig.longest.Multiplies ∧ r.outcome = .error .addDurations ∧
      (r.calls.length : ℕ∞) ≠ min (firstFinal rejectingRpc) (max 1 2 : ℕ) := by
  intro r
  have hmul : RetryConfig.longest.Multiplies := by
    intro k hk
    obtain rfl : k = 0 := by
      have : k + 1 < 2 := hk
      omega
    rfl
  have hfinal : ((2 : ℕ) : ℕ∞) ≤ firstFinal rejectingRpc := by
    refine le_sInf ?_
    rintro _ ⟨i, hi, hfinal, rfl⟩
    rw [Nat.cast_le]
    rcases Nat.eq_or_lt_of_le hi with rfl | hlt
    · have hdown : RpcError.isTransient (.network "connection refused") = false := hfinal _ rfl
      cases hdown
    · exact hlt
  have hr : r.outcome = .error .addDurations ∧ r.calls.length = 1 := by decide +kernel
  refine ⟨hmul, hr.1, ?_⟩
  rw [hr.2, show max 1 2 = 2 from rfl, min_eq_right hfinal, Ne, Nat.cast_inj]
  decide

end Paced

end StellarConduit
