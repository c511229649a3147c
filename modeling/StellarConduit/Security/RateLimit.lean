import StellarConduit.Lib.HashMap
import StellarConduit.Lib.Machine
import StellarConduit.Lib.Windows
import StellarConduit.Message.Types
import StellarConduit.Metrics

/-!
# The rate limiter

`security/rate_limit.rs`: at most so many messages of a peer in a window.  Instants are in
milliseconds; `now` is the instant that a call reads off the clock.

* `RateLimiter.checkAndRecord`: the call, and `RateLimiter.step`, the calls as a machine;
* `allowedAt_trace`: the calls of a peer that are allowed are the first `capacity` of each of the
  windows that its calls fall into;
* `rate_limit_iff`: when no interval of the length of a window holds more than `capacity` of them.
-/

namespace StellarConduit

open Verif Verif.Machine

structure PeerBucket where
  count : ℕ
  windowStartMs : ℕ

structure RateLimiter where
  capacity : ℕ
  windowMs : ℕ
  buckets : HashMap (Bytes 32) PeerBucket
  metrics : RateMetrics

/-- A call for a peer, and the instant that it reads off the clock. -/
structure RateInput where
  now : ℕ
  peer : Bytes 32

namespace RateLimiter

def new (capacity windowMs : ℕ) (metrics : RateMetrics) : RateLimiter where
  capacity := capacity
  windowMs := windowMs
  buckets := ∅
  metrics := metrics

/-- `check_and_record`: whether the message is allowed. -/
def checkAndRecord (rl : RateLimiter) (peer : Bytes 32) (now : ℕ) : Bool × RateLimiter :=
  let (bucket, buckets) := rl.buckets.orInsert peer ⟨0, now⟩
  let bucket := if now - bucket.windowStartMs ≥ rl.windowMs then ⟨0, now⟩ else bucket
  if bucket.count ≥ rl.capacity then
    (false, { rl with
      buckets := buckets.insert peer bucket
      metrics.messagesRateLimited := rl.metrics.messagesRateLimited + 1
      metrics.peerViolationsRecorded := rl.metrics.peerViolationsRecorded + 1 })
  else
    (true, { rl with
      buckets := buckets.insert peer { bucket with count := bucket.count + 1 } })

def step (rl : RateLimiter) (i : RateInput) : Bool × RateLimiter := rl.checkAndRecord i.peer i.now

/-- The bucket of a peer when a call comes to count: a new one, or an old one that may be reset. -/
def bucketAt (rl : RateLimiter) (peer : Bytes 32) (now : ℕ) : PeerBucket :=
  let bucket := (rl.buckets.lookup peer).getD ⟨0, now⟩
  if now - bucket.windowStartMs ≥ rl.windowMs then ⟨0, now⟩ else bucket

section Call

variable (rl : RateLimiter) (peer : Bytes 32) (now : ℕ)

theorem orInsert_fst (bucket : PeerBucket) :
    (rl.buckets.orInsert peer bucket).1 = (rl.buckets.lookup peer).getD bucket := by
  unfold HashMap.orInsert
  cases rl.buckets.lookup peer <;> rfl

/-- A call is counted unless the bucket is full. -/
theorem checkAndRecord_cases :
    ((rl.bucketAt peer now).count < rl.capacity ∧
      rl.checkAndRecord peer now = (true, { rl with
        buckets := (rl.buckets.orInsert peer ⟨0, now⟩).2.insert peer
          { rl.bucketAt peer now with count := (rl.bucketAt peer now).count + 1 } })) ∨
    (rl.capacity ≤ (rl.bucketAt peer now).count ∧
      rl.checkAndRecord peer now = (false, { rl with
        buckets := (rl.buckets.orInsert peer ⟨0, now⟩).2.insert peer (rl.bucketAt peer now)
        metrics.messagesRateLimited := rl.metrics.messagesRateLimited + 1
        metrics.peerViolationsRecorded := rl.metrics.peerViolationsRecorded + 1 })) := by
  have hbucket : (if now - ((rl.buckets.orInsert peer ⟨0, now⟩).1).windowStartMs ≥ rl.windowMs
      then ⟨0, now⟩ else (rl.buckets.orInsert peer ⟨0, now⟩).1) = rl.bucketAt peer now := by
    rw [orInsert_fst]
    rfl
  unfold checkAndRecord
  dsimp only
  rw [hbucket]
  split_ifs with hfull
  · exact .inr ⟨hfull, rfl⟩
  · exact .inl ⟨Nat.not_le.1 hfull, rfl⟩

theorem capacity_checkAndRecord : (rl.checkAndRecord peer now).2.capacity = rl.capacity := by
  obtain ⟨-, heq⟩ | ⟨-, heq⟩ := rl.checkAndRecord_cases peer now <;> rw [heq]

theorem windowMs_checkAndRecord : (rl.checkAndRecord peer now).2.windowMs = rl.windowMs := by
  obtain ⟨-, heq⟩ | ⟨-, heq⟩ := rl.checkAndRecord_cases peer now <;> rw [heq]

/-- A call for a peer leaves the buckets of the others as they are. -/
theorem lookup_checkAndRecord_ne {other : Bytes 32} (h : other ≠ peer) :
    (rl.checkAndRecord peer now).2.buckets.lookup other = rl.buckets.lookup other := by
  obtain ⟨-, heq⟩ | ⟨-, heq⟩ := rl.checkAndRecord_cases peer now <;>
    rw [heq] <;>
    exact (AList.lookup_insert_ne h).trans (HashMap.lookup_orInsert_ne h _ _)

/-- Every message that is not allowed is counted by both counters. -/
theorem metrics_checkAndRecord :
    (rl.checkAndRecord peer now).2.metrics = if (rl.checkAndRecord peer now).1 then rl.metrics else
      ⟨rl.metrics.messagesRateLimited + 1, rl.metrics.peerViolationsRecorded + 1⟩ := by
  obtain ⟨-, heq⟩ | ⟨-, heq⟩ := rl.checkAndRecord_cases peer now <;> rw [heq] <;> rfl

end Call

/-- The calls for a peer that are to be allowed, out of those that come at certain instants. -/
def admittedAt (rl : RateLimiter) (peer : Bytes 32) (ts : List ℕ) : List ℕ :=
  match rl.buckets.lookup peer with
  | none => admitted rl.windowMs rl.capacity ts
  | some bucket => admittedFrom rl.windowMs rl.capacity bucket.count bucket.windowStartMs ts

section Admitted

variable {rl : RateLimiter}

/-- The bucket says of the calls to come what the windows say. -/
theorem admittedAt_cons (hpos : 0 < rl.windowMs) (peer : Bytes 32) (now : ℕ) (ts : List ℕ) :
    rl.admittedAt peer (now :: ts) = if (rl.bucketAt peer now).count < rl.capacity then
        now :: admittedFrom rl.windowMs rl.capacity ((rl.bucketAt peer now).count + 1)
          (rl.bucketAt peer now).windowStartMs ts
      else admittedFrom rl.windowMs rl.capacity (rl.bucketAt peer now).count
        (rl.bucketAt peer now).windowStartMs ts := by
  unfold admittedAt bucketAt
  cases rl.buckets.lookup peer with
  | none =>
    have hreset : ¬now - now ≥ rl.windowMs := by omega
    simp only [Option.getD_none, if_neg hreset]
    exact admitted_cons now ts
  | some bucket =>
    simp only [Option.getD_some]
    by_cases hover : bucket.windowStartMs + rl.windowMs ≤ now
    · have hreset : now - bucket.windowStartMs ≥ rl.windowMs := by omega
      rw [if_pos hreset, admittedFrom_cons_of_le hover]
      exact admitted_cons now ts
    · have hreset : ¬now - bucket.windowStartMs ≥ rl.windowMs := by omega
      rw [if_neg hreset]
      exact admittedFrom_cons_of_lt (Nat.not_le.1 hover) ts

/-- A call for the peer is allowed when its instant is among those that are to be. -/
theorem admittedAt_self (hpos : 0 < rl.windowMs) (peer : Bytes 32) (now : ℕ) (ts : List ℕ) :
    rl.admittedAt peer (now :: ts) =
      (if (rl.checkAndRecord peer now).1 then [now] else []) ++
        (rl.checkAndRecord peer now).2.admittedAt peer ts := by
  rw [admittedAt_cons hpos]
  obtain ⟨hcount, heq⟩ | ⟨hfull, heq⟩ := rl.checkAndRecord_cases peer now
  · rw [heq, if_pos hcount]
    unfold admittedAt
    dsimp only
    rw [AList.lookup_insert]
    rfl
  · rw [heq, if_neg (Nat.not_lt.2 hfull)]
    unfold admittedAt
    dsimp only
    rw [AList.lookup_insert]
    rfl

theorem admittedAt_ne {peer other : Bytes 32} (h : other ≠ peer) (now : ℕ) (ts : List ℕ) :
    (rl.checkAndRecord peer now).2.admittedAt other ts = rl.admittedAt other ts := by
  unfold admittedAt
  rw [lookup_checkAndRecord_ne rl peer now h, capacity_checkAndRecord, windowMs_checkAndRecord]

end Admitted

end RateLimiter

/-! ### Runs -/

abbrev RateEvent := Event RateLimiter RateInput Bool

/-- The instants of the calls for a peer. -/
def callsOf (peer : Bytes 32) (is : List RateInput) : List ℕ :=
  (is.filter fun i => decide (i.peer = peer)).map RateInput.now

/-- The instants of the calls for a peer that were allowed. -/
def allowedOf (peer : Bytes 32) (es : List RateEvent) : List ℕ :=
  (es.filter fun e => decide (e.input.peer = peer ∧ e.output = true)).map fun e => e.input.now

/-- The calls of a run that are allowed are those that the windows admit. -/
theorem allowedOf_trace {rl : RateLimiter} (hpos : 0 < rl.windowMs) (peer : Bytes 32)
    (is : List RateInput) :
    allowedOf peer (trace RateLimiter.step rl is) = rl.admittedAt peer (callsOf peer is) := by
  induction is generalizing rl with
  | nil =>
    show [] = rl.admittedAt peer []
    unfold RateLimiter.admittedAt
    cases rl.buckets.lookup peer with
    | none => rfl
    | some bucket => simp [admittedFrom, windowsFrom]
  | cons i is ih =>
    have hnext : 0 < (RateLimiter.step rl i).2.windowMs := by
      rw [RateLimiter.step, RateLimiter.windowMs_checkAndRecord]
      exact hpos
    have hrest := ih hnext
    unfold allowedOf callsOf at hrest ⊢
    rw [trace_cons]
    -- Only calls for the peer itself touch its bucket.
    by_cases hpeer : i.peer = peer
    · subst hpeer
      rw [List.filter_cons_of_pos (a := i) (by simp), List.map_cons,
        RateLimiter.admittedAt_self hpos]
      change _ = (if (RateLimiter.step rl i).1 then [i.now] else []) ++
        (RateLimiter.step rl i).2.admittedAt i.peer _
      cases hallowed : (RateLimiter.step rl i).1 with
      | true =>
        rw [List.filter_cons_of_pos (by simp), List.map_cons, hrest]
        rfl
      | false =>
        rw [List.filter_cons_of_neg (by simp), hrest]
        rfl
    · rw [List.filter_cons_of_neg (a := i) (by simpa using hpeer),
        List.filter_cons_of_neg (by simpa using fun h => absurd h hpeer), hrest]
      exact RateLimiter.admittedAt_ne (Ne.symm hpeer) i.now _

/-- How many calls for a peer were allowed in an interval. -/
def allowedWithin (peer : Bytes 32) (s length : ℕ) (es : List RateEvent) : ℕ :=
  es.countP fun e => decide (e.input.peer = peer ∧ e.output = true ∧
    s ≤ e.input.now ∧ e.input.now < s + length)

theorem allowedWithin_eq (peer : Bytes 32) (s length : ℕ) (es : List RateEvent) :
    allowedWithin peer s length es =
      (allowedOf peer es).countP fun t => decide (s ≤ t ∧ t < s + length) := by
  unfold allowedWithin allowedOf
  rw [List.countP_map, List.countP_filter]
  apply List.countP_congr
  intro e _
  simp only [decide_eq_true_eq, Function.comp_apply, Bool.and_eq_true]
  tauto

theorem pairwise_callsOf (peer : Bytes 32) {is : List RateInput}
    (hsorted : is.Pairwise fun i j => i.now ≤ j.now) : (callsOf peer is).Pairwise (· ≤ ·) :=
  List.pairwise_map.2 (hsorted.filter _)

/-- **When the limit of a window is the limit of every interval of its length.**  A limiter that
starts without buckets allows at most `capacity` calls of a peer in every such interval when, of
the first `capacity` calls in any two consecutive windows of the peer, each comes a window's length
after the one `capacity` places before it. -/
theorem rate_limit_iff (capacity : ℕ) {windowMs : ℕ} (hpos : 0 < windowMs) (metrics : RateMetrics)
    {is : List RateInput} (hsorted : is.Pairwise fun i j => i.now ≤ j.now) :
    (∀ peer s, allowedWithin peer s windowMs
        (trace RateLimiter.step (.new capacity windowMs metrics) is) ≤ capacity) ↔
      ∀ peer, (windows windowMs (callsOf peer is)).IsChain fun g g' =>
        Spaced windowMs capacity (g.take capacity ++ g'.take capacity) := by
  refine forall_congr' fun peer => ?_
  rw [← countP_admitted_le_iff (pairwise_callsOf peer hsorted)]
  refine forall_congr' fun s => ?_
  rw [allowedWithin_eq, allowedOf_trace hpos]
  rfl

/-- Two calls of a peer in a window of ten: four calls that come five apart keep the limit. -/
theorem rate_limit_iff_sample :
    let calls : List RateInput := [0, 5, 10, 15].map fun now => ⟨now, List.Vector.replicate 32 1⟩
    outputs RateLimiter.step (.new 2 10 .new) calls = [true, true, true, true] ∧
      ∀ peer s, allowedWithin peer s 10 (trace RateLimiter.step (.new 2 10 .new) calls) ≤ 2 := by
  intro calls
  refine ⟨by decide +kernel, (rate_limit_iff 2 (by decide) .new (by decide +kernel)).2 ?_⟩
  intro peer
  by_cases hpeer : peer = List.Vector.replicate 32 1
  · subst hpeer
    decide +kernel
  · have hnone : callsOf peer calls = [] := by
      rw [callsOf, List.filter_eq_nil_iff.2, List.map_nil]
      intro i hi hof
      obtain ⟨now, -, rfl⟩ := List.mem_map.1 hi
      exact hpeer (of_decide_eq_true hof).symm
    rw [hnone]
    exact List.IsChain.nil

/-- Four calls, of which three come within ten of each other, are all allowed: the second call is
at the end of the first window, and the third one opens the next. -/
theorem exceeds_capacity_sample :
    let peer : Bytes 32 := List.Vector.replicate 32 1
    let calls : List RateInput := [0, 9, 10, 11].map fun now => ⟨now, peer⟩
    calls.Pairwise (fun i j => i.now ≤ j.now) ∧
      2 < allowedWithin peer 9 10 (trace RateLimiter.step (.new 2 10 .new) calls) := by
  decide +kernel

end StellarConduit
