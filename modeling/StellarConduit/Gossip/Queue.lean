import StellarConduit.Lib.StableSort
import StellarConduit.Message.Types

/-!
# The priority queue

`gossip/queue.rs`: messages wait in three tiers.  A tier holds messages of its own priority
only, and the Normal and Low tiers have a capacity; beyond it the oldest message is dropped.
Both facts are fields of a `Tier`.

* `push`, `pop`, `drainBatch`: the operations; a `drainBatch` takes the most urgent messages of
  the Normal tier, by the clock reading `now`;
* `iterEnvelopes`: the envelopes that wait, all of them in the Normal tier;
* `iterEnvelopes_push`, `iterEnvelopes_drainBatch`: what the operations do to them.
-/

namespace StellarConduit

open Verif

def normalCapacity : ℕ := 10000

def lowCapacity : ℕ := 500

inductive MessagePriority
  | high
  | normal
  | low
  deriving DecidableEq

namespace MessagePriority

def forTopologyUpdate (hopsToRelay : UInt8) : MessagePriority :=
  if hopsToRelay > 5 then .low else .high

def forMessage : ProtocolMessage → MessagePriority
  | .topologyUpdate update => forTopologyUpdate update.hopsToRelay
  | .syncRequest _ | .syncResponse _ => .high
  | .transaction _ => .normal
  | .handshake _ => .low

/-- The urgency of a message at the second `now`; the subtractions stop at zero. -/
def urgencyScore (now : UInt64) : ProtocolMessage → ℕ
  | .transaction env =>
    let ttlUrgency := 16 - env.ttlHops.toNat
    let ageSecs := now.toNat - env.timestamp.toNat
    let ageUrgency := min (ageSecs / 60) 10
    ttlUrgency + ageUrgency
  | _ => 0

/-- The capacity of a tier, if it has one. -/
def capacity : MessagePriority → Option ℕ
  | .high => none
  | .normal => some normalCapacity
  | .low => some lowCapacity

/-- So many messages are too many for a tier. -/
def Exceeded (p : MessagePriority) (length : ℕ) : Prop := ∃ c ∈ p.capacity, c < length

instance (p : MessagePriority) (length : ℕ) : Decidable (p.Exceeded length) :=
  inferInstanceAs (Decidable (∃ c ∈ p.capacity, c < length))

theorem Exceeded.mono {p : MessagePriority} {n m : ℕ} (h : p.Exceeded n) (hle : n ≤ m) :
    p.Exceeded m := by
  obtain ⟨c, hc, hlt⟩ := h
  exact ⟨c, hc, by omega⟩

@[simp] theorem exceeded_normal_iff {n : ℕ} :
    MessagePriority.Exceeded .normal n ↔ normalCapacity < n := by
  constructor
  · rintro ⟨c, hc, hlt⟩
    cases hc
    exact hlt
  · exact fun h => ⟨_, rfl, h⟩

end MessagePriority

open MessagePriority

/-- The messages of one priority, oldest first. -/
structure Tier (priority : MessagePriority) where
  messages : List ProtocolMessage
  priority_eq : ∀ msg ∈ messages, forMessage msg = priority
  fits : ¬ priority.Exceeded messages.length
  deriving DecidableEq

namespace Tier

variable {priority : MessagePriority}

def new : Tier priority where
  messages := []
  priority_eq := by simp
  fits := by
    rintro ⟨c, -, hlt⟩
    simp at hlt

/-- The first of a list, and the others. -/
theorem head_append_tail (l : List ProtocolMessage) : l.head?.toList ++ l.tail = l := by
  cases l <;> rfl

/-- A tier that holds some of the messages of another one. -/
def shrink (t : Tier priority) (messages : List ProtocolMessage)
    (h : messages.Subperm t.messages) : Tier priority where
  messages := messages
  priority_eq msg hmsg := t.priority_eq msg (h.subset hmsg)
  fits hexceeded := t.fits (hexceeded.mono h.length_le)

/-- `push_back`; a message over the capacity pushes the oldest one out. -/
def pushBack (t : Tier priority) (msg : ProtocolMessage) (h : forMessage msg = priority) :
    Option ProtocolMessage × Tier priority :=
  have hpriority : ∀ m ∈ t.messages ++ [msg], forMessage m = priority := by
    intro m hm
    rcases List.mem_append.1 hm with hm | hm
    · exact t.priority_eq m hm
    · rw [List.mem_singleton.1 hm, h]
  if hexceeded : priority.Exceeded (t.messages ++ [msg]).length then
    ((t.messages ++ [msg]).head?,
      { messages := (t.messages ++ [msg]).tail
        priority_eq := fun m hm => hpriority m (List.mem_of_mem_tail hm)
        fits := by
          have hlength : (t.messages ++ [msg]).tail.length = t.messages.length := by simp
          rw [hlength]
          exact t.fits })
  else (none, ⟨t.messages ++ [msg], hpriority, hexceeded⟩)

def popFront (t : Tier priority) : Option ProtocolMessage × Tier priority :=
  (t.messages.head?, t.shrink t.messages.tail (List.tail_sublist _).subperm)

/-- What is pushed out and what is kept is what was there and what came. -/
theorem pushBack_conserves (t : Tier priority) (msg : ProtocolMessage)
    (h : forMessage msg = priority) :
    (t.pushBack msg h).1.toList ++ (t.pushBack msg h).2.messages = t.messages ++ [msg] := by
  unfold pushBack
  split_ifs with hexceeded
  · exact head_append_tail _
  · rfl

theorem popFront_conserves (t : Tier priority) :
    t.popFront.1.toList ++ t.popFront.2.messages = t.messages :=
  head_append_tail _

/-- Nothing is pushed out while there is room. -/
theorem pushBack_of_fits (t : Tier priority) {msg : ProtocolMessage}
    (h : forMessage msg = priority) (hfits : ¬ priority.Exceeded (t.messages.length + 1)) :
    (t.pushBack msg h).1 = none := by
  unfold pushBack
  rw [dif_neg (by simpa using hfits)]

end Tier

structure PriorityQueue where
  high : Tier .high
  normal : Tier .normal
  low : Tier .low
  deriving DecidableEq

namespace PriorityQueue

def new : PriorityQueue := ⟨.new, .new, .new⟩

/-- The answer is the message that was pushed out, if there is one. -/
def push (q : PriorityQueue) (msg : ProtocolMessage) : Option ProtocolMessage × PriorityQueue :=
  match h : forMessage msg with
  | .high =>
    let (dropped, high) := q.high.pushBack msg h
    (dropped, { q with high := high })
  | .normal =>
    let (dropped, normal) := q.normal.pushBack msg h
    (dropped, { q with normal := normal })
  | .low =>
    let (dropped, low) := q.low.pushBack msg h
    (dropped, { q with low := low })

def pop (q : PriorityQueue) : Option ProtocolMessage × PriorityQueue :=
  match q.high.popFront with
  | (some msg, high) => (some msg, { q with high := high })
  | (none, _) =>
    match q.normal.popFront with
    | (some msg, normal) => (some msg, { q with normal := normal })
    | (none, _) =>
      match q.low.popFront with
      | (some msg, low) => (some msg, { q with low := low })
      | (none, _) => (none, q)

/-- The messages of the Normal tier, the most urgent first. -/
def byUrgency (q : PriorityQueue) (now : UInt64) : List ProtocolMessage :=
  sortByKey (urgencyScore now) q.normal.messages

/-- `drain_batch`; what is not taken stays in the order of its urgency. -/
def drainBatch (q : PriorityQueue) (batchSize : ℕ) (now : UInt64) :
    List ProtocolMessage × PriorityQueue :=
  if batchSize = 0 then ([], q)
  else
    let allNormal := q.byUrgency now
    let n := min batchSize allNormal.length
    have hrest : (allNormal.drop n).Subperm q.normal.messages :=
      (List.drop_sublist n allNormal).subperm.trans (sortByKey_perm _ _).subperm
    (allNormal.take n, { q with normal := q.normal.shrink (allNormal.drop n) hrest })

def len (q : PriorityQueue) : ℕ :=
  q.high.messages.length + q.normal.messages.length + q.low.messages.length

def isEmpty (q : PriorityQueue) : Bool := q.len == 0

end PriorityQueue

/-- The envelope of a transaction. -/
def ProtocolMessage.envelope? : ProtocolMessage → Option TransactionEnvelope
  | .transaction env => some env
  | _ => none

/-- The envelopes among messages. -/
def envelopes (messages : List ProtocolMessage) : List TransactionEnvelope :=
  messages.filterMap ProtocolMessage.envelope?

@[simp] theorem envelopes_append (ms ms' : List ProtocolMessage) :
    envelopes (ms ++ ms') = envelopes ms ++ envelopes ms' :=
  List.filterMap_append

@[simp] theorem mem_envelopes {ms : List ProtocolMessage} {env : TransactionEnvelope} :
    env ∈ envelopes ms ↔ .transaction env ∈ ms := by
  unfold envelopes
  rw [List.mem_filterMap]
  constructor
  · rintro ⟨msg, hmsg, henv⟩
    cases msg <;> cases henv
    exact hmsg
  · exact fun h => ⟨_, h, rfl⟩

/-- A message of Normal priority is a transaction. -/
theorem forMessage_eq_normal_iff {msg : ProtocolMessage} :
    forMessage msg = .normal ↔ ∃ env, msg = .transaction env := by
  cases msg with
  | transaction env => exact iff_of_true rfl ⟨env, rfl⟩
  | topologyUpdate update =>
    refine iff_of_false ?_ (by simp)
    show forTopologyUpdate update.hopsToRelay ≠ .normal
    unfold forTopologyUpdate
    split_ifs <;> simp
  | syncRequest request => simp [forMessage]
  | syncResponse response => simp [forMessage]
  | handshake pubkey => simp [forMessage]

/-- A tier of another priority holds no envelope. -/
theorem Tier.envelopes_eq_nil {priority : MessagePriority} (t : Tier priority)
    (h : priority ≠ .normal) : envelopes t.messages = [] := by
  rw [List.eq_nil_iff_forall_not_mem]
  intro env henv
  exact h (t.priority_eq _ (mem_envelopes.1 henv)).symm

/-- Messages of Normal priority are their envelopes and nothing else. -/
theorem map_envelopes {ms : List ProtocolMessage} (h : ∀ msg ∈ ms, forMessage msg = .normal) :
    (envelopes ms).map .transaction = ms := by
  induction ms with
  | nil => rfl
  | cons msg ms ih =>
    obtain ⟨env, rfl⟩ := forMessage_eq_normal_iff.1 (h msg List.mem_cons_self)
    have hrest := ih fun m hm => h m (List.mem_cons_of_mem _ hm)
    exact congrArg (ProtocolMessage.transaction env :: ·) hrest

/-- A push to a tier of another priority neither brings nor drops an envelope. -/
theorem Tier.envelopes_pushBack_eq_nil {priority : MessagePriority} (t : Tier priority)
    {msg : ProtocolMessage} (h : forMessage msg = priority) (hpriority : priority ≠ .normal) :
    envelopes (t.pushBack msg h).1.toList = [] ∧ envelopes [msg] = [] := by
  have hconserves := congrArg envelopes (t.pushBack_conserves msg h)
  rw [envelopes_append, envelopes_append, Tier.envelopes_eq_nil _ hpriority,
    Tier.envelopes_eq_nil _ hpriority, List.append_nil, List.nil_append] at hconserves
  have hmsg : envelopes [msg] = [] := by
    cases msg <;> first | rfl | exact absurd h.symm hpriority
  exact ⟨hconserves.trans hmsg, hmsg⟩

namespace PriorityQueue

def iterEnvelopes (q : PriorityQueue) : List TransactionEnvelope :=
  envelopes (q.high.messages ++ q.normal.messages ++ q.low.messages)

/-- Only the Normal tier holds envelopes. -/
theorem iterEnvelopes_eq (q : PriorityQueue) : q.iterEnvelopes = envelopes q.normal.messages := by
  rw [iterEnvelopes, envelopes_append, envelopes_append, q.high.envelopes_eq_nil (by decide),
    q.low.envelopes_eq_nil (by decide), List.nil_append, List.append_nil]

theorem length_iterEnvelopes (q : PriorityQueue) :
    q.iterEnvelopes.length = q.normal.messages.length := by
  rw [iterEnvelopes_eq, ← List.length_map (f := ProtocolMessage.transaction),
    map_envelopes q.normal.priority_eq]

/-- What a push drops and what it leaves is what was there and what came. -/
theorem iterEnvelopes_push (q : PriorityQueue) (msg : ProtocolMessage) :
    envelopes (q.push msg).1.toList ++ (q.push msg).2.iterEnvelopes =
      q.iterEnvelopes ++ envelopes [msg] := by
  rw [iterEnvelopes_eq, iterEnvelopes_eq]
  unfold push
  split
  next h =>
    obtain ⟨hdropped, hmsg⟩ := q.high.envelopes_pushBack_eq_nil h (by decide)
    rw [hdropped, hmsg, List.nil_append, List.append_nil]
  next h =>
    dsimp only
    rw [← envelopes_append, q.normal.pushBack_conserves msg h, envelopes_append]
  next h =>
    obtain ⟨hdropped, hmsg⟩ := q.low.envelopes_pushBack_eq_nil h (by decide)
    rw [hdropped, hmsg, List.nil_append, List.append_nil]

/-- While there is room, an envelope comes last. -/
theorem iterEnvelopes_push_of_fits (q : PriorityQueue) (env : TransactionEnvelope)
    (h : q.iterEnvelopes.length < normalCapacity) :
    (q.push (.transaction env)).2.iterEnvelopes = q.iterEnvelopes ++ [env] := by
  have hfits : ¬ MessagePriority.Exceeded .normal (q.normal.messages.length + 1) := by
    rw [length_iterEnvelopes] at h
    rw [exceeded_normal_iff]
    omega
  have hnone : (q.push (.transaction env)).1 = none :=
    q.normal.pushBack_of_fits (rfl : forMessage (.transaction env) = .normal) hfits
  have hpush := q.iterEnvelopes_push (.transaction env)
  rwa [hnone] at hpush

/-- The Normal tier keeps the envelope that was pushed last. -/
theorem mem_normal_push (q : PriorityQueue) (env : TransactionEnvelope) :
    .transaction env ∈ (q.push (.transaction env)).2.normal.messages := by
  show _ ∈ (q.normal.pushBack (.transaction env) rfl).2.messages
  unfold Tier.pushBack
  split_ifs with hexceeded
  · -- A tier that is over its capacity held another message before.
    show _ ∈ (q.normal.messages ++ [ProtocolMessage.transaction env]).tail
    cases hmessages : q.normal.messages with
    | nil =>
      rw [hmessages, MessagePriority.exceeded_normal_iff] at hexceeded
      simp [normalCapacity] at hexceeded
    | cons msg messages =>
      exact List.mem_append_right messages List.mem_cons_self
  · exact List.mem_append_right _ List.mem_cons_self

theorem iterEnvelopes_pop (q : PriorityQueue) :
    envelopes q.pop.1.toList ++ q.pop.2.iterEnvelopes = q.iterEnvelopes := by
  rw [iterEnvelopes_eq, iterEnvelopes_eq]
  have hhigh := congrArg envelopes q.high.popFront_conserves
  have hnormal := congrArg envelopes q.normal.popFront_conserves
  have hlow := congrArg envelopes q.low.popFront_conserves
  rw [envelopes_append, Tier.envelopes_eq_nil _ (by decide),
    Tier.envelopes_eq_nil _ (by decide), List.append_nil] at hhigh hlow
  rw [envelopes_append] at hnormal
  unfold pop
  split
  next msg high hpop =>
    rw [hpop] at hhigh
    rw [hhigh, List.nil_append]
  next =>
    split
    next msg normal hpop =>
      rw [hpop] at hnormal
      exact hnormal
    next =>
      split
      next msg low hpop =>
        rw [hpop] at hlow
        rw [hlow, List.nil_append]
      next => rfl

/-- A batch and what it leaves are the tier, the most urgent first. -/
theorem drainBatch_append (q : PriorityQueue) {batchSize : ℕ} (h : batchSize ≠ 0)
    (now : UInt64) :
    (q.drainBatch batchSize now).1 ++ (q.drainBatch batchSize now).2.normal.messages =
      q.byUrgency now := by
  unfold drainBatch
  rw [if_neg h]
  exact List.take_append_drop _ _

/-- What a batch leaves in the tier. -/
theorem normal_drainBatch (q : PriorityQueue) (batchSize : ℕ) (now : UInt64) :
    (q.drainBatch batchSize now).2.normal.messages =
      if batchSize = 0 then q.normal.messages else (q.byUrgency now).drop batchSize := by
  unfold drainBatch
  split_ifs
  · rfl
  · show (q.byUrgency now).drop (min batchSize (q.byUrgency now).length) = _
    rcases Nat.le_total batchSize (q.byUrgency now).length with hle | hle
    · rw [Nat.min_eq_left hle]
    · rw [Nat.min_eq_right hle, List.drop_length, List.drop_eq_nil_of_le hle]

/-- A batch and what it leaves are what was there. -/
theorem iterEnvelopes_drainBatch (q : PriorityQueue) (batchSize : ℕ) (now : UInt64) :
    (envelopes (q.drainBatch batchSize now).1 ++
      (q.drainBatch batchSize now).2.iterEnvelopes).Perm q.iterEnvelopes := by
  rw [iterEnvelopes_eq, iterEnvelopes_eq, ← envelopes_append]
  refine List.Perm.filterMap _ ?_
  by_cases h : batchSize = 0
  · rw [drainBatch, if_pos h]
    exact List.Perm.refl _
  · rw [q.drainBatch_append h]
    exact sortByKey_perm _ _

theorem length_drainBatch_le (q : PriorityQueue) (batchSize : ℕ) (now : UInt64) :
    (q.drainBatch batchSize now).1.length ≤ batchSize := by
  unfold drainBatch
  split_ifs
  · exact Nat.zero_le _
  · refine (List.length_take_le _ _).trans ?_
    exact Nat.min_le_left _ _

/-- **Who is taken by a batch.**  An envelope is in a batch exactly when, of one of its places in
the tier, fewer envelopes than are taken are more urgent, or as urgent and earlier. -/
theorem mem_drainBatch_iff (q : PriorityQueue) {batchSize : ℕ} (h : batchSize ≠ 0) (now : UInt64)
    (env : TransactionEnvelope) :
    env ∈ envelopes (q.drainBatch batchSize now).1 ↔
      ∃ pre post, q.normal.messages = pre ++ .transaction env :: post ∧
        pre.countP (fun msg =>
            decide (urgencyScore now (.transaction env) ≤ urgencyScore now msg)) +
          post.countP (fun msg =>
            decide (urgencyScore now (.transaction env) < urgencyScore now msg)) < batchSize := by
  rw [mem_envelopes, ← mem_take_sortByKey_iff]
  unfold drainBatch
  rw [if_neg h]
  show _ ∈ (q.byUrgency now).take (min batchSize (q.byUrgency now).length) ↔ _
  rcases Nat.le_total batchSize (q.byUrgency now).length with hle | hle
  · rw [Nat.min_eq_left hle]
    rfl
  · rw [Nat.min_eq_right hle, List.take_length]
    show _ ↔ _ ∈ (q.byUrgency now).take batchSize
    rw [List.take_of_length_le hle]

/-- **Who is left by a batch.**  An envelope waits on after a batch exactly when, of one of its
places in the tier, as many envelopes as are taken are more urgent, or as urgent and earlier. -/
theorem mem_iterEnvelopes_drainBatch_iff (q : PriorityQueue) {batchSize : ℕ} (h : batchSize ≠ 0)
    (now : UInt64) (env : TransactionEnvelope) :
    env ∈ (q.drainBatch batchSize now).2.iterEnvelopes ↔
      ∃ pre post, q.normal.messages = pre ++ .transaction env :: post ∧
        batchSize ≤
          pre.countP (fun msg =>
            decide (urgencyScore now (.transaction env) ≤ urgencyScore now msg)) +
          post.countP fun msg =>
            decide (urgencyScore now (.transaction env) < urgencyScore now msg) := by
  rw [iterEnvelopes_eq, mem_envelopes, ← mem_drop_sortByKey_iff]
  unfold drainBatch
  rw [if_neg h]
  show _ ∈ (q.byUrgency now).drop (min batchSize (q.byUrgency now).length) ↔ _
  rcases Nat.le_total batchSize (q.byUrgency now).length with hle | hle
  · rw [Nat.min_eq_left hle]
    rfl
  · rw [Nat.min_eq_right hle, List.drop_length]
    show _ ↔ _ ∈ (q.byUrgency now).drop batchSize
    rw [List.drop_eq_nil_of_le hle]

end PriorityQueue

end StellarConduit
