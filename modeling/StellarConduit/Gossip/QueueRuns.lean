import Mathlib.Algebra.Order.BigOperators.Group.List
import Mathlib.Data.Multiset.OrderedMonoid
import Mathlib.Tactic.Abel
import StellarConduit.Gossip.Queue
import StellarConduit.Lib.Machine

/-!
# Runs of the priority queue

The calls on a `PriorityQueue` of `gossip/queue.rs`, as a machine.

* `PriorityQueue.step`: a call of `push`, `pop` or `drain_batch`;
* `ledger_queue`: every message is booked; `queue_integrity` is what holds over a run from the
  empty queue.
-/

namespace StellarConduit

open Verif Verif.Machine MessagePriority

inductive QueueInput
  | push (msg : ProtocolMessage)
  | pop
  | drainBatch (batchSize : ℕ) (now : UInt64)

inductive QueueOutput
  | pushed (dropped : Option ProtocolMessage)
  | popped (msg : Option ProtocolMessage)
  | drained (batch : List ProtocolMessage)

/-- The order that `MessagePriority` derives from the order of its constructors. -/
def MessagePriority.rank : MessagePriority → ℕ
  | .high => 0
  | .normal => 1
  | .low => 2

namespace PriorityQueue

def step (q : PriorityQueue) : QueueInput → QueueOutput × PriorityQueue
  | .push msg => let (dropped, q) := q.push msg; (.pushed dropped, q)
  | .pop => let (msg, q) := q.pop; (.popped msg, q)
  | .drainBatch batchSize now =>
    let (batch, q) := q.drainBatch batchSize now
    (.drained batch, q)

/-- The messages of a tier. -/
def tier (q : PriorityQueue) : MessagePriority → List ProtocolMessage
  | .high => q.high.messages
  | .normal => q.normal.messages
  | .low => q.low.messages

/-- The messages of all tiers. -/
def held (q : PriorityQueue) : Multiset ProtocolMessage :=
  ↑q.high.messages + ↑q.normal.messages + ↑q.low.messages

theorem forMessage_of_mem_tier {q : PriorityQueue} {p : MessagePriority} {msg : ProtocolMessage}
    (h : msg ∈ q.tier p) : forMessage msg = p := by
  cases p with
  | high => exact q.high.priority_eq msg h
  | normal => exact q.normal.priority_eq msg h
  | low => exact q.low.priority_eq msg h

/-- A tier holds no more than its capacity. -/
theorem not_exceeded_tier (q : PriorityQueue) (p : MessagePriority) :
    ¬ p.Exceeded (q.tier p).length := by
  cases p with
  | high => exact q.high.fits
  | normal => exact q.normal.fits
  | low => exact q.low.fits

/-! ### The operations -/

theorem held_push (q : PriorityQueue) (msg : ProtocolMessage) :
    q.held + {msg} = (q.push msg).2.held + ↑(q.push msg).1.toList := by
  have hbook : ∀ {p : MessagePriority} (t : Tier p) (h : forMessage msg = p),
      (↑t.messages + {msg} : Multiset ProtocolMessage) =
        ↑(t.pushBack msg h).2.messages + ↑(t.pushBack msg h).1.toList := by
    intro p t h
    have hconserves := congrArg Multiset.ofList (t.pushBack_conserves msg h)
    rw [← Multiset.coe_add, ← Multiset.coe_add, Multiset.coe_singleton] at hconserves
    rw [← hconserves, add_comm]
  unfold push held
  split
  next h =>
    calc
      _ = (↑q.high.messages + {msg} : Multiset _) + ↑q.normal.messages + ↑q.low.messages := by abel
      _ = _ := by rw [hbook q.high h]
      _ = _ := by abel
  next h =>
    calc
      _ = ↑q.high.messages + (↑q.normal.messages + {msg} : Multiset _) + ↑q.low.messages := by abel
      _ = _ := by rw [hbook q.normal h]
      _ = _ := by abel
  next h =>
    calc
      _ = ↑q.high.messages + ↑q.normal.messages + (↑q.low.messages + {msg} : Multiset _) := by abel
      _ = _ := by rw [hbook q.low h]
      _ = _ := by abel

/-- A `pop` takes the first message of the first tier that holds one. -/
theorem pop_cases (q : PriorityQueue) :
    (q.pop = (none, q) ∧ ∀ p, q.tier p = []) ∨
      ∃ p msg, q.pop.1 = some msg ∧ q.tier p = msg :: q.pop.2.tier p ∧
        (∀ p', p' ≠ p → q.pop.2.tier p' = q.tier p') ∧ ∀ p', p'.rank < p.rank → q.tier p' = [] := by
  have hsome : ∀ {p : MessagePriority} {t t' : Tier p} {msg : ProtocolMessage},
      t.popFront = (some msg, t') → t.messages = msg :: t'.messages := by
    intro p t t' msg h
    have hconserves := t.popFront_conserves
    rw [h] at hconserves
    exact hconserves.symm
  have hnone : ∀ {p : MessagePriority} {t t' : Tier p},
      t.popFront = (none, t') → t.messages = [] := by
    intro p t t' h
    exact List.head?_eq_none_iff.1 (congrArg Prod.fst h)
  -- The tiers are tried in their order, so those before the one that answers are empty.
  unfold pop
  split
  next msg high hhigh =>
    refine Or.inr ⟨.high, msg, rfl, hsome hhigh, fun p' hp' => ?_, fun p' hp' => ?_⟩
    · cases p' <;> first | rfl | exact absurd rfl hp'
    · cases p' <;> simp [rank] at hp'
  next hhigh =>
    split
    next msg normal hnormal =>
      refine Or.inr ⟨.normal, msg, rfl, hsome hnormal, fun p' hp' => ?_, fun p' hp' => ?_⟩
      · cases p' <;> first | rfl | exact absurd rfl hp'
      · cases p' <;> simp [rank] at hp'
        exact hnone hhigh
    next hnormal =>
      split
      next msg low hlow =>
        refine Or.inr ⟨.low, msg, rfl, hsome hlow, fun p' hp' => ?_, fun p' hp' => ?_⟩
        · cases p' <;> first | rfl | exact absurd rfl hp'
        · cases p' <;> simp [rank] at hp'
          · exact hnone hhigh
          · exact hnone hnormal
      next hlow =>
        refine Or.inl ⟨rfl, fun p => ?_⟩
        cases p
        · exact hnone hhigh
        · exact hnone hnormal
        · exact hnone hlow

theorem held_pop (q : PriorityQueue) : q.held = q.pop.2.held + ↑q.pop.1.toList := by
  obtain ⟨hpop, -⟩ | ⟨p, msg, hmsg, htier, hother, -⟩ := q.pop_cases
  · rw [hpop]
    exact (add_zero _).symm
  · rw [hmsg, Option.toList_some, Multiset.coe_singleton]
    have hheld : ∀ q : PriorityQueue,
        q.held = ↑(q.tier .high) + ↑(q.tier .normal) + ↑(q.tier .low) := fun _ => rfl
    rw [hheld q, hheld q.pop.2]
    cases p with
    | high =>
      rw [htier, hother .normal (by decide), hother .low (by decide), ← Multiset.cons_coe,
        ← Multiset.singleton_add]
      abel
    | normal =>
      rw [htier, hother .high (by decide), hother .low (by decide), ← Multiset.cons_coe,
        ← Multiset.singleton_add]
      abel
    | low =>
      rw [htier, hother .high (by decide), hother .normal (by decide), ← Multiset.cons_coe,
        ← Multiset.singleton_add]
      abel

/-- A batch is taken off the Normal tier, and the other tiers are left as they are. -/
theorem drainBatch_spec (q : PriorityQueue) (batchSize : ℕ) (now : UInt64) :
    ((q.drainBatch batchSize now).1 ++ (q.drainBatch batchSize now).2.normal.messages).Perm
        q.normal.messages ∧
      (q.drainBatch batchSize now).2.high = q.high ∧
      (q.drainBatch batchSize now).2.low = q.low := by
  by_cases hsize : batchSize = 0
  · rw [drainBatch, if_pos hsize]
    exact ⟨List.Perm.refl _, rfl, rfl⟩
  · rw [q.drainBatch_append hsize, drainBatch, if_neg hsize]
    exact ⟨sortByKey_perm _ _, rfl, rfl⟩

theorem held_drainBatch (q : PriorityQueue) (batchSize : ℕ) (now : UInt64) :
    q.held = (q.drainBatch batchSize now).2.held + ↑(q.drainBatch batchSize now).1 := by
  obtain ⟨hnormal, hhigh, hlow⟩ := q.drainBatch_spec batchSize now
  rw [held, held, hhigh, hlow, ← Multiset.coe_eq_coe.2 hnormal, ← Multiset.coe_add]
  abel

end PriorityQueue

/-! ### Runs -/

/-- The messages that a call pushes. -/
def pushedBy : QueueInput → Multiset ProtocolMessage
  | .push msg => {msg}
  | _ => 0

/-- The messages that a `pop` returns. -/
def poppedBy : QueueOutput → Multiset ProtocolMessage
  | .popped msg => ↑msg.toList
  | _ => 0

/-- The messages that a `drain_batch` returns. -/
def drainedBy : QueueOutput → Multiset ProtocolMessage
  | .drained batch => ↑batch
  | _ => 0

/-- The messages that a `push` returns as dropped. -/
def droppedBy : QueueOutput → Multiset ProtocolMessage
  | .pushed dropped => ↑dropped.toList
  | _ => 0

/-- **The book of the queue.**  What is pushed is held, popped, drained or dropped. -/
theorem ledger_queue :
    Ledger PriorityQueue.step PriorityQueue.held (fun e => pushedBy e.input)
      fun e => poppedBy e.output + drainedBy e.output + droppedBy e.output := by
  intro q i
  cases i with
  | push msg =>
    show q.held + {msg} = (q.push msg).2.held + (0 + 0 + ↑(q.push msg).1.toList)
    rw [q.held_push msg, add_zero, zero_add]
  | pop =>
    show q.held + 0 = q.pop.2.held + (↑q.pop.1.toList + 0 + 0)
    rw [add_zero, add_zero, add_zero]
    exact q.held_pop
  | drainBatch batchSize now =>
    show q.held + 0 = (q.drainBatch batchSize now).2.held +
      (0 + ↑(q.drainBatch batchSize now).1 + 0)
    rw [add_zero, zero_add, add_zero]
    exact q.held_drainBatch batchSize now

/-- The answer of a `pop` is a message of the highest tier that is not empty. -/
def FromHighestTier (q : PriorityQueue) : Option ProtocolMessage → Prop
  | none => ∀ p, q.tier p = []
  | some msg => msg ∈ q.tier (forMessage msg) ∧
      ∀ p : MessagePriority, p.rank < (forMessage msg).rank → q.tier p = []

theorem fromHighestTier_pop (q : PriorityQueue) : FromHighestTier q q.pop.1 := by
  obtain ⟨hpop, hempty⟩ | ⟨p, msg, hmsg, htier, -, habove⟩ := q.pop_cases
  · rw [hpop]
    exact hempty
  · have hmem : msg ∈ q.tier p := by
      rw [htier]
      exact List.mem_cons_self
    have hp : forMessage msg = p := PriorityQueue.forMessage_of_mem_tier hmem
    rw [hmsg]
    show msg ∈ q.tier (forMessage msg) ∧ _
    rw [hp]
    exact ⟨hmem, habove⟩

/-- **Integrity.**  After any calls on the empty queue every message is in its tier and the tiers
fit, every `pop` took a message of the highest tier, every `drain_batch` touched the Normal tier
only, and no message was lost or doubled. -/
theorem queue_integrity (is : List QueueInput) :
    let q := exec PriorityQueue.step .new is
    let events := trace PriorityQueue.step .new is
    (∀ p, ∀ msg ∈ q.tier p, forMessage msg = p) ∧
      (q.tier .normal).length ≤ 10000 ∧ (q.tier .low).length ≤ 500 ∧
      (∀ e ∈ events, e.input = .pop →
        ∃ msg, e.output = .popped msg ∧ FromHighestTier e.before msg) ∧
      (∀ e ∈ events, ∀ batchSize now, e.input = .drainBatch batchSize now →
        let after := (e.before.step e.input).2
        ∃ batch, e.output = .drained batch ∧
          (batch ++ after.tier .normal).Perm (e.before.tier .normal) ∧
          after.high = e.before.high ∧ after.low = e.before.low) ∧
      (is.map pushedBy).sum = q.held + (events.map fun e => poppedBy e.output).sum +
        (events.map fun e => drainedBy e.output).sum +
        (events.map fun e => droppedBy e.output).sum := by
  intro q events
  refine ⟨fun p msg hmsg => PriorityQueue.forMessage_of_mem_tier hmsg, ?_, ?_, ?_, ?_, ?_⟩
  · have hfits := q.not_exceeded_tier .normal
    rw [exceeded_normal_iff] at hfits
    exact Nat.not_lt.1 hfits
  · by_contra hlt
    exact q.not_exceeded_tier .low ⟨lowCapacity, rfl, Nat.not_le.1 hlt⟩
  · rintro e he hinput
    obtain ⟨pre, i, post, -, rfl⟩ := mem_trace he
    cases hinput
    exact ⟨_, rfl, fromHighestTier_pop _⟩
  · rintro e he batchSize now hinput
    obtain ⟨pre, i, post, -, rfl⟩ := mem_trace he
    cases hinput
    exact ⟨_, rfl, PriorityQueue.drainBatch_spec _ batchSize now⟩
  · have hbook := ledger_queue.exec PriorityQueue.new is
    have hnew : PriorityQueue.new.held = 0 := rfl
    rw [hnew, zero_add, map_of_input_trace, List.sum_map_add, List.sum_map_add] at hbook
    rw [hbook, ← add_assoc, ← add_assoc]

end StellarConduit
