import StellarConduit.Gossip.QueueRuns
import StellarConduit.Gossip.State

/-!
# The order of arrival

When the Normal tier overflows, `push` drops the message at its front.  An observer numbers the
messages as they are pushed, and so knows which one that is.

* `Arrivals.follow`: the observer;
* `KeepsOrder`: a `drain_batch` leaves the messages in the order of their arrival;
* `drops_oldest`: in a run whose batches keep the order, an overflow drops the message that was
  pushed first.
-/

namespace StellarConduit

open Verif Verif.Machine MessagePriority

namespace PriorityQueue

variable (q : PriorityQueue)

theorem push_of_normal {msg : ProtocolMessage} (h : forMessage msg = .normal) :
    (q.push msg).1 = (if Exceeded .normal (q.normal.messages ++ [msg]).length then
        (q.normal.messages ++ [msg]).head? else none) ∧
      (q.push msg).2.normal.messages =
        if Exceeded .normal (q.normal.messages ++ [msg]).length then
          (q.normal.messages ++ [msg]).tail else q.normal.messages ++ [msg] := by
  have hpush : q.push msg =
      ((q.normal.pushBack msg h).1, { q with normal := (q.normal.pushBack msg h).2 }) := by
    unfold push
    split
    next h' => rw [h] at h'; cases h'
    next => rfl
    next h' => rw [h] at h'; cases h'
  rw [hpush]
  show (q.normal.pushBack msg h).1 = _ ∧ (q.normal.pushBack msg h).2.messages = _
  unfold Tier.pushBack
  split_ifs
  · exact ⟨rfl, rfl⟩
  · exact ⟨rfl, rfl⟩

theorem normal_push_of_ne {msg : ProtocolMessage} (h : forMessage msg ≠ .normal) :
    (q.push msg).2.normal = q.normal := by
  unfold push
  split
  next => rfl
  next h' => exact absurd h' h
  next => rfl

theorem normal_pop : q.pop.2.normal.messages =
    if q.high.messages = [] then q.normal.messages.tail else q.normal.messages := by
  obtain ⟨hpop, hempty⟩ | ⟨p, msg, -, htier, hother, habove⟩ := q.pop_cases
  · have hnormal : q.normal.messages = [] := hempty .normal
    rw [hpop, hnormal]
    simp
  · cases p with
    | high =>
      have hne : q.high.messages ≠ [] := by
        show q.tier .high ≠ []
        rw [htier]
        simp
      rw [if_neg hne]
      exact hother .normal (by decide)
    | normal =>
      have hhigh : q.high.messages = [] := habove .high (by decide)
      have hnormal : q.normal.messages = msg :: q.pop.2.normal.messages := htier
      rw [if_pos hhigh, hnormal, List.tail_cons]
    | low =>
      have hhigh : q.high.messages = [] := habove .high (by decide)
      have hnormal : q.normal.messages = [] := habove .normal (by decide)
      have hafter : q.pop.2.normal.messages = q.normal.messages := hother .normal (by decide)
      rw [if_pos hhigh, hafter, hnormal, List.tail_nil]

end PriorityQueue

/-! ### The observer -/

/-- The messages of the Normal tier with their numbers, and the number of the next one. -/
structure Arrivals where
  waiting : List (ℕ × ProtocolMessage)
  pushes : ℕ

namespace Arrivals

def new : Arrivals := ⟨[], 0⟩

/-- The observer numbers what comes to the Normal tier, and does to the numbered messages what
the queue does to the messages. -/
def follow (a : Arrivals) (q : PriorityQueue) : QueueInput → Arrivals
  | .push msg =>
    if forMessage msg = .normal then
      let waiting := a.waiting ++ [(a.pushes, msg)]
      { waiting := if Exceeded .normal waiting.length then waiting.tail else waiting
        pushes := a.pushes + 1 }
    else { a with pushes := a.pushes + 1 }
  | .pop => { a with waiting := if q.high.messages = [] then a.waiting.tail else a.waiting }
  | .drainBatch batchSize now =>
    { a with
      waiting :=
        if batchSize = 0 then a.waiting
        else (sortByKey (fun entry => urgencyScore now entry.2) a.waiting).drop batchSize }

end Arrivals

/-- A queue and its observer. -/
abbrev ObservedQueue := PriorityQueue × Arrivals

abbrev observedStep : ObservedQueue → QueueInput → QueueOutput × ObservedQueue :=
  observed PriorityQueue.step Arrivals.follow

/-- The observer has the messages of the tier before him. -/
def Follows (s : ObservedQueue) : Prop := s.2.waiting.map Prod.snd = s.1.normal.messages

theorem follows_step (s : ObservedQueue) (i : QueueInput) (h : Follows s) :
    Follows (observedStep s i).2 := by
  obtain ⟨q, a⟩ := s
  change a.waiting.map Prod.snd = q.normal.messages at h
  cases i with
  | push msg =>
    show (Arrivals.follow a q (.push msg)).waiting.map Prod.snd = (q.push msg).2.normal.messages
    unfold Arrivals.follow
    by_cases hmsg : forMessage msg = .normal
    -- Both lists have the same length, so they overflow together and drop their first element.
    · have hlength : (a.waiting ++ [(a.pushes, msg)]).length =
          (q.normal.messages ++ [msg]).length := by
        rw [← h]
        simp
      rw [(q.push_of_normal hmsg).2, ← hlength, ← h]
      simp only [hmsg, if_true]
      split_ifs
      · rw [List.map_tail, List.map_append]
        rfl
      · rw [List.map_append]
        rfl
    · simp only [hmsg, if_false]
      rw [q.normal_push_of_ne hmsg, h]
  | pop =>
    show (Arrivals.follow a q .pop).waiting.map Prod.snd = q.pop.2.normal.messages
    rw [q.normal_pop, ← h]
    unfold Arrivals.follow
    split_ifs
    · exact List.map_tail
    · rfl
  | drainBatch batchSize now =>
    show (if batchSize = 0 then a.waiting
      else (sortByKey (fun entry => urgencyScore now entry.2) a.waiting).drop batchSize).map
        Prod.snd = (q.drainBatch batchSize now).2.normal.messages
    rw [q.normal_drainBatch]
    split_ifs
    · exact h
    · rw [List.map_drop, map_sortByKey, h]
      rfl

/-! ### The oldest message -/

/-- A batch keeps the order of the tier: a message that it leaves, since as many others are more
urgent or as urgent and earlier, is no more urgent than those before it. -/
def KeepsOrder (q : PriorityQueue) (batchSize : ℕ) (now : UInt64) : Prop :=
  batchSize = 0 ∨ ∀ pre msg post, q.normal.messages = pre ++ msg :: post →
    batchSize ≤ pre.countP (fun m => decide (urgencyScore now msg ≤ urgencyScore now m)) +
      post.countP (fun m => decide (urgencyScore now msg < urgencyScore now m)) →
    ∀ earlier ∈ pre, urgencyScore now msg ≤ urgencyScore now earlier

/-- Every batch of the run keeps the order. -/
def BatchKeepsOrder (e : Event ObservedQueue QueueInput QueueOutput) : Prop :=
  ∀ batchSize now, e.input = .drainBatch batchSize now → KeepsOrder e.before.1 batchSize now

/-- If the push overflows the Normal tier, it returns the message of the tier that was pushed
first. -/
def DropsOldest (e : Event ObservedQueue QueueInput QueueOutput) : Prop :=
  ∀ msg dropped, e.input = .push msg → forMessage msg = .normal →
    (e.before.1.push msg).1 = some dropped →
      ∃ t, (t, dropped) ∈ e.before.2.waiting ++ [(e.before.2.pushes, msg)] ∧
        ∀ entry ∈ e.before.2.waiting ++ [(e.before.2.pushes, msg)], t ≤ entry.1

/-- The messages wait in the order of their numbers. -/
structure InOrder (s : ObservedQueue) : Prop where
  follows : Follows s
  sorted : s.2.waiting.Pairwise fun a b => a.1 < b.1
  numbered : ∀ entry ∈ s.2.waiting, entry.1 < s.2.pushes

/-- With the message that comes, they are still in order. -/
theorem InOrder.sorted_append {s : ObservedQueue} (h : InOrder s) (msg : ProtocolMessage) :
    (s.2.waiting ++ [(s.2.pushes, msg)]).Pairwise fun a b => a.1 < b.1 := by
  refine List.pairwise_append.2 ⟨h.sorted, List.pairwise_singleton _ _, fun a ha b hb => ?_⟩
  rw [List.mem_singleton.1 hb]
  exact h.numbered a ha

theorem InOrder.numbered_append {s : ObservedQueue} (h : InOrder s) (msg : ProtocolMessage) :
    ∀ entry ∈ s.2.waiting ++ [(s.2.pushes, msg)], entry.1 < s.2.pushes + 1 := by
  intro entry hentry
  rcases List.mem_append.1 hentry with hentry | hentry
  · exact Nat.lt_succ_of_lt (h.numbered entry hentry)
  · rw [List.mem_singleton.1 hentry]
    exact Nat.lt_succ_self _

/-- A batch that keeps the order leaves the messages in the order of their numbers. -/
theorem InOrder.sorted_drop {s : ObservedQueue} (h : InOrder s) {batchSize : ℕ} {now : UInt64}
    (hsize : batchSize ≠ 0) (hkeeps : KeepsOrder s.1 batchSize now) :
    ((sortByKey (fun entry => urgencyScore now entry.2) s.2.waiting).drop batchSize).Pairwise
      fun a b => a.1 < b.1 := by
  have hstable := (pairwise_sortByKey_of_pairwise
    (fun entry : ℕ × ProtocolMessage => urgencyScore now entry.2) h.sorted).sublist
      (List.drop_sublist batchSize _)
  refine hstable.imp_of_mem fun {a b} ha hb hab => ?_
  by_contra hlt
  have hless : urgencyScore now b.2 < urgencyScore now a.2 := by
    rcases hab with hless | ⟨-, hlt'⟩
    · exact hless
    · exact absurd hlt' hlt
  -- The number of `b` is no greater, so that `b` waits before `a`.
  obtain ⟨pre, post, hsplit, hcount⟩ := mem_drop_sortByKey_iff.1 ha
  have hsorted := h.sorted
  have hmem : b ∈ s.2.waiting := (mem_sortByKey _).1 (List.mem_of_mem_drop hb)
  rw [hsplit] at hsorted hmem
  have hpre : b ∈ pre := by
    rcases List.mem_append.1 hmem with hpre | hrest
    · exact hpre
    · rcases List.mem_cons.1 hrest with rfl | hpost
      · omega
      · have hcons := (List.pairwise_append.1 hsorted).2.1
        exact absurd ((List.pairwise_cons.1 hcons).1 b hpost) hlt
  have hmessages : s.1.normal.messages =
      pre.map Prod.snd ++ a.2 :: post.map Prod.snd := by
    have hfollows := h.follows
    unfold Follows at hfollows
    rw [← hfollows, hsplit]
    simp
  have hle := hkeeps.resolve_left hsize _ _ _ hmessages
    (by rwa [List.countP_map, List.countP_map]) b.2 (List.mem_map_of_mem hpre)
  omega

theorem InOrder.new : InOrder (.new, .new) where
  follows := rfl
  sorted := List.Pairwise.nil
  numbered := by simp [Arrivals.new]

/-- Every call keeps the messages in order, if a batch does. -/
theorem InOrder.step {s : ObservedQueue} {i : QueueInput} (h : InOrder s)
    (hkeeps : BatchKeepsOrder ⟨s, i, (observedStep s i).1⟩) : InOrder (observedStep s i).2 := by
  have hfollows := follows_step s i h.follows
  cases i with
  | push msg =>
    by_cases hmsg : forMessage msg = .normal
    · have hafter : (observedStep s (.push msg)).2.2 =
          { waiting := if Exceeded .normal (s.2.waiting ++ [(s.2.pushes, msg)]).length then
              (s.2.waiting ++ [(s.2.pushes, msg)]).tail else s.2.waiting ++ [(s.2.pushes, msg)]
            pushes := s.2.pushes + 1 } := if_pos hmsg
      -- What waits after the push is the old tier with the message behind it, or its tail.
      have hsublist : List.Sublist (observedStep s (.push msg)).2.2.waiting
          (s.2.waiting ++ [(s.2.pushes, msg)]) := by
        rw [hafter]
        dsimp only
        split_ifs
        · exact List.tail_sublist _
        · exact List.Sublist.refl _
      refine ⟨hfollows, (h.sorted_append msg).sublist hsublist, fun entry hentry => ?_⟩
      have hlt := h.numbered_append msg entry (hsublist.subset hentry)
      rwa [hafter]
    · have hafter : (observedStep s (.push msg)).2.2 = { s.2 with pushes := s.2.pushes + 1 } :=
        if_neg hmsg
      refine ⟨hfollows, ?_, ?_⟩
      · rw [hafter]
        exact h.sorted
      · rw [hafter]
        exact fun entry hentry => Nat.lt_succ_of_lt (h.numbered entry hentry)
  | pop =>
    have hafter : (observedStep s .pop).2.2.waiting =
        if s.1.high.messages = [] then s.2.waiting.tail else s.2.waiting := rfl
    have hsublist : List.Sublist (observedStep s .pop).2.2.waiting s.2.waiting := by
      rw [hafter]
      split_ifs
      · exact List.tail_sublist _
      · exact List.Sublist.refl _
    exact ⟨hfollows, h.sorted.sublist hsublist,
      fun entry hentry => h.numbered entry (hsublist.subset hentry)⟩
  | drainBatch batchSize now =>
    have hafter : (observedStep s (.drainBatch batchSize now)).2.2.waiting =
        if batchSize = 0 then s.2.waiting
        else (sortByKey (fun entry => urgencyScore now entry.2) s.2.waiting).drop batchSize := rfl
    refine ⟨hfollows, ?_, ?_⟩
    · rw [hafter]
      split_ifs with hsize
      · exact h.sorted
      · exact h.sorted_drop hsize (hkeeps batchSize now rfl)
    · rw [hafter]
      split_ifs
      · exact h.numbered
      · intro entry hentry
        exact h.numbered entry ((mem_sortByKey _).1 (List.mem_of_mem_drop hentry))

/-- While the messages are in order, an overflow drops the oldest one. -/
theorem InOrder.dropsOldest {s : ObservedQueue} (h : InOrder s) (i : QueueInput) :
    DropsOldest ⟨s, i, (observedStep s i).1⟩ := by
  intro msg dropped hinput hmsg hdropped
  dsimp only at hdropped
  rw [(s.1.push_of_normal hmsg).1] at hdropped
  split_ifs at hdropped
  have hheld : (s.2.waiting ++ [(s.2.pushes, msg)]).map Prod.snd =
      s.1.normal.messages ++ [msg] := by
    have hfollows := h.follows
    unfold Follows at hfollows
    rw [List.map_append, hfollows]
    rfl
  have hsorted := h.sorted_append msg
  rw [← hheld, List.head?_map] at hdropped
  dsimp only
  cases hlist : s.2.waiting ++ [(s.2.pushes, msg)] with
  | nil => simp at hlist
  | cons first rest =>
    rw [hlist] at hdropped hsorted
    obtain rfl : first.2 = dropped := Option.some.inj hdropped
    refine ⟨first.1, List.mem_cons_self, fun entry hentry => ?_⟩
    rcases List.mem_cons.1 hentry with rfl | hentry
    · exact Nat.le_refl _
    · exact Nat.le_of_lt ((List.pairwise_cons.1 hsorted).1 entry hentry)

/-- **An overflow drops the oldest message**, in every run whose batches keep the order. -/
theorem drops_oldest (is : List QueueInput)
    (h : ∀ e ∈ trace observedStep (.new, .new) is, BatchKeepsOrder e) :
    ∀ e ∈ trace observedStep (.new, .new) is, DropsOldest e := by
  obtain ⟨hbefore, -⟩ := trace_invariant InOrder (fun s i hkeeps hs => hs.step hkeeps) h InOrder.new
  intro e he
  obtain ⟨pre, i, post, -, rfl⟩ := mem_trace he
  exact (hbefore _ he).dropsOldest i

/-- Messages that fit are numbered one after the other, and wait behind the others. -/
theorem exec_pushes (s : ObservedQueue) (msgs : List ProtocolMessage)
    (hnormal : ∀ msg ∈ msgs, forMessage msg = .normal)
    (hfits : s.2.waiting.length + msgs.length ≤ normalCapacity) :
    (exec observedStep s (msgs.map .push)).2.waiting =
        s.2.waiting ++ (msgs.zipIdx s.2.pushes).map Prod.swap ∧
      (exec observedStep s (msgs.map .push)).2.pushes = s.2.pushes + msgs.length := by
  induction msgs generalizing s with
  | nil => simp
  | cons msg msgs ih =>
    rw [List.length_cons] at hfits
    have hmsg := hnormal msg List.mem_cons_self
    have hroom : ¬ Exceeded .normal (s.2.waiting ++ [(s.2.pushes, msg)]).length := by
      rw [exceeded_normal_iff, List.length_append, List.length_singleton]
      omega
    have hafter : (observedStep s (.push msg)).2.2 =
        { waiting := s.2.waiting ++ [(s.2.pushes, msg)], pushes := s.2.pushes + 1 } := by
      show (if forMessage msg = .normal then _ else _) = _
      rw [if_pos hmsg, if_neg hroom]
    have hrest := ih (observedStep s (.push msg)).2
      (fun m hm => hnormal m (List.mem_cons_of_mem _ hm)) (by
        rw [hafter, List.length_append, List.length_singleton]
        omega)
    rw [hafter] at hrest
    rw [List.map_cons, exec_cons, hrest.1, hrest.2]
    refine ⟨by simp [List.zipIdx_cons], by simp; omega⟩

/-- The messages of the samples: ten hops left, and fewer. -/
def sampleHops (tag ttl : UInt8) : ProtocolMessage :=
  .transaction { sampleTagged tag with ttlHops := ttl }

/-- A batch finds one message, and the tier fills up after it. -/
def fillingRun : List QueueInput :=
  .push (sampleHops 0 10) :: .drainBatch 1 0 :: (List.replicate 10000 (sampleHops 1 10)).map .push

/-- The next push drops the first message that was pushed after the batch. -/
theorem drops_oldest_sample :
    DropsOldest ⟨exec observedStep (.new, .new) fillingRun, .push (sampleHops 1 10),
      (observedStep (exec observedStep (.new, .new) fillingRun) (.push (sampleHops 1 10))).1⟩ := by
  refine drops_oldest (fillingRun ++ [.push (sampleHops 1 10)])
    (fun e he batchSize now hinput => ?_) _
    (event_mem_trace fillingRun (QueueInput.push (sampleHops 1 10)) [])
  rw [fillingRun, List.cons_append, List.cons_append, trace_cons, trace_cons] at he
  rcases List.mem_cons.1 he with rfl | he
  · cases hinput
  rcases List.mem_cons.1 he with rfl | he
  · -- Nothing waits before the only message.
    refine Or.inr fun pre msg post hsplit _ earlier hearlier => ?_
    have hone : (observedStep (.new, .new) (.push (sampleHops 0 10))).2.1.normal.messages =
        [sampleHops 0 10] := by decide +kernel
    rw [hone] at hsplit
    cases pre with
    | nil => simp at hearlier
    | cons first pre => simp at hsplit
  · obtain ⟨pre, i, post, hsplit, rfl⟩ := mem_trace he
    have hi : i ∈ (List.replicate 10000 (sampleHops 1 10)).map QueueInput.push ++
        [.push (sampleHops 1 10)] := by
      rw [hsplit]
      simp
    have hpush : ∃ msg, i = .push msg := by
      rcases List.mem_append.1 hi with hi | hi
      · obtain ⟨msg, -, rfl⟩ := List.mem_map.1 hi
        exact ⟨msg, rfl⟩
      · exact ⟨_, List.mem_singleton.1 hi⟩
    obtain ⟨msg, rfl⟩ := hpush
    cases hinput

/-- The failing input: a batch puts the message that was pushed second before the first one, and
then the tier overflows. -/
theorem drops_urgent_sample :
    ¬ ∀ e ∈ trace observedStep (.new, .new) ([.push (sampleHops 0 10), .push (sampleHops 1 2),
      .push (sampleHops 2 1), .drainBatch 1 0] ++
        (List.replicate 9998 (sampleHops 3 10)).map .push ++ [.push (sampleHops 3 10)]),
      DropsOldest e := by
  intro h
  have hcount : (List.replicate 9998 (sampleHops 3 10)).length = 9998 := List.length_replicate
  have hnormal : ∀ msg ∈ List.replicate 9998 (sampleHops 3 10), forMessage msg = .normal := by
    intro msg hmsg
    rw [List.eq_of_mem_replicate hmsg]
    rfl
  generalize List.replicate 9998 (sampleHops 3 10) = fillers at h hcount hnormal
  let drained := exec observedStep (.new, .new) [.push (sampleHops 0 10), .push (sampleHops 1 2),
    .push (sampleHops 2 1), .drainBatch 1 0]
  let full := exec observedStep drained (fillers.map .push)
  have hdrained : drained.2.waiting = [(1, sampleHops 1 2), (0, sampleHops 0 10)] ∧
      drained.2.pushes = 3 := by decide +kernel
  obtain ⟨hwaiting, hpushes⟩ := exec_pushes drained fillers hnormal
    (by rw [hdrained.1, hcount]; simp [normalCapacity])
  change full.2.waiting = _ at hwaiting
  change full.2.pushes = _ at hpushes
  rw [hdrained.1, hdrained.2] at hwaiting
  rw [hdrained.2, hcount] at hpushes
  have hfollows : Follows full := by
    refine exec_invariant Follows (fun s i _ => follows_step s i) ?_
    exact exec_invariant Follows (fun s i _ => follows_step s i) rfl
  unfold Follows at hfollows
  have hlast : DropsOldest ⟨full, .push (sampleHops 3 10),
      (observedStep full (.push (sampleHops 3 10))).1⟩ := by
    have hfull := h _ (event_mem_trace (_ ++ _) (QueueInput.push (sampleHops 3 10)) [])
    rwa [exec_append] at hfull
  clear_value full
  have hlength : (full.1.normal.messages ++ [sampleHops 3 10]).length = 10001 := by
    have hfull : full.1.normal.messages.length = 2 + 9998 := by
      rw [← hfollows, hwaiting, List.length_map, List.length_append, List.length_map,
        List.length_zipIdx, hcount]
      rfl
    rw [List.length_append, hfull, List.length_singleton]
  have hdropped : (full.1.push (sampleHops 3 10)).1 = some (sampleHops 1 2) := by
    have hexceeded : Exceeded .normal (full.1.normal.messages ++ [sampleHops 3 10]).length := by
      rw [hlength, exceeded_normal_iff, normalCapacity]
      omega
    rw [(full.1.push_of_normal rfl).1, if_pos hexceeded, ← hfollows, hwaiting]
    simp
  obtain ⟨t, hmem, hle⟩ := hlast (sampleHops 3 10) (sampleHops 1 2) rfl rfl hdropped
  dsimp only at hmem hle
  rw [hwaiting, hpushes] at hmem hle
  -- The message with the number zero still waits, and it is another one.
  have hzero : t = 0 := by
    have := hle (0, sampleHops 0 10)
      (List.mem_append_left _ (List.mem_append_left _ (List.mem_cons_of_mem _ List.mem_cons_self)))
    omega
  subst hzero
  rcases List.mem_append.1 hmem with hmem | hmem
  · rcases List.mem_append.1 hmem with hmem | hmem
    · exact absurd hmem (by decide)
    · obtain ⟨⟨msg, k⟩, hk, hswap⟩ := List.mem_map.1 hmem
      have hk3 := List.le_snd_of_mem_zipIdx hk
      cases hswap
      exact absurd hk3 (by decide)
  · have hnumber := congrArg Prod.fst (List.mem_singleton.1 hmem)
    dsimp only at hnumber
    omega

end StellarConduit
