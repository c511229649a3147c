import Mathlib.Data.List.Basic
import Mathlib.Tactic.Common

/-!
# Broadcast channels

A channel that keeps the last values sent, as one of its receivers finds it.  A receiver that falls
behind is told once how many values it missed, and goes on with the oldest one that is still there.

* `Receiver E`: the values that wait for the receiver, at most as many as the channel has slots;
* `Receiver.publish`, `Receiver.recv`: a value is sent, and received;
* `unread_publishAll`: of all that is sent the last values wait;
* `Receiver.outcome consume c`: what a consumer in the state `c` will have made of all that waits;
  `outcome_recv`: a receipt does not change it, so that it is where a drained receiver stands.
-/

namespace Verif

variable {E C : Type*}

/-- What a receiver finds in a channel. -/
structure Receiver (E : Type*) where
  slots : ℕ
  /-- the values that wait, the oldest first -/
  unread : List E
  /-- how many values were overwritten since the last receipt -/
  missed : ℕ
  fits : unread.length ≤ slots

inductive Received (E : Type*)
  | empty
  | lagged (missed : ℕ)
  | value (event : E)

namespace Receiver

def subscribe (slots : ℕ) : Receiver E := ⟨slots, [], 0, Nat.zero_le slots⟩

/-- A value that finds no free slot overwrites the oldest one. -/
def publish (r : Receiver E) (event : E) : Receiver E where
  slots := r.slots
  unread := (r.unread ++ [event]).drop (r.unread.length + 1 - r.slots)
  missed := r.missed + (r.unread.length + 1 - r.slots)
  fits := by
    rw [List.length_drop, List.length_append, List.length_singleton]
    omega

/-- A receiver that missed values is told so first. -/
def recv (r : Receiver E) : Received E × Receiver E :=
  if r.missed ≠ 0 then
    (.lagged r.missed, { r with missed := 0 })
  else
    match r.unread.head? with
    | none => (.empty, r)
    | some event =>
      (.value event, { r with
        unread := r.unread.tail
        fits := by
          rw [List.length_tail]
          exact Nat.le_trans (Nat.sub_le _ 1) r.fits })

def publishAll (r : Receiver E) (events : List E) : Receiver E := events.foldl publish r

/-- Nothing waits, not even the news that values were missed. -/
def Drained (r : Receiver E) : Prop := r.unread = [] ∧ r.missed = 0

instance [DecidableEq E] (r : Receiver E) : Decidable r.Drained :=
  inferInstanceAs (Decidable (_ ∧ _))

/-! ### Sending -/

@[simp] theorem slots_publishAll (r : Receiver E) (events : List E) :
    (r.publishAll events).slots = r.slots := by
  induction events generalizing r with
  | nil => rfl
  | cons event events ih => exact ih (r.publish event)

/-- Of the values that waited and those that are sent, the last ones wait. -/
theorem unread_publishAll (r : Receiver E) (events : List E) :
    (r.publishAll events).unread =
      (r.unread ++ events).drop (r.unread.length + events.length - r.slots) := by
  induction events generalizing r with
  | nil =>
    have hfits := r.fits
    rw [List.append_nil, List.length_nil, Nat.add_zero, Nat.sub_eq_zero_of_le hfits, List.drop_zero]
    rfl
  | cons event events ih =>
    have hlength := congrArg List.length (rfl : (r.publish event).unread = _)
    have hfits := r.fits
    have hout : r.unread.length + 1 - r.slots ≤ (r.unread ++ [event]).length := by
      simp
    show ((r.publish event).publishAll events).unread = _
    rw [ih, hlength, publish, ← List.drop_append_of_le_length hout, List.drop_drop,
      List.append_assoc, List.singleton_append, List.length_drop, List.length_append,
      List.length_singleton, List.length_cons]
    refine congrArg (fun n => List.drop n _) ?_
    dsimp only
    omega

theorem missed_publishAll (r : Receiver E) (events : List E) :
    (r.publishAll events).missed =
      r.missed + (r.unread.length + events.length - r.slots) := by
  induction events generalizing r with
  | nil =>
    have hfits := r.fits
    show r.missed = _
    rw [List.length_nil, Nat.add_zero, Nat.sub_eq_zero_of_le hfits, Nat.add_zero]
  | cons event events ih =>
    have hlength := congrArg List.length (rfl : (r.publish event).unread = _)
    have hfits := r.fits
    show ((r.publish event).publishAll events).missed = _
    rw [ih, hlength, publish, List.length_drop, List.length_append, List.length_singleton,
      List.length_cons]
    dsimp only
    omega

/-- As long as no value is overwritten, all that is sent waits. -/
theorem unread_publishAll_of_missed {r : Receiver E} {events : List E}
    (h : (r.publishAll events).missed = 0) :
    (r.publishAll events).unread = r.unread ++ events := by
  rw [missed_publishAll] at h
  have hzero : r.unread.length + events.length - r.slots = 0 := by omega
  rw [unread_publishAll, hzero, List.drop_zero]

/-- Values that are sent keep those before them in the channel only while there are slots. -/
theorem mem_unread_publishAll_of_forall_not {r : Receiver E} {events : List E} {P : E → Prop}
    (h : ∀ event ∈ events, ¬ P event) :
    (∃ event ∈ (r.publishAll events).unread, P event) ↔
      ∃ event ∈ r.unread.drop (r.unread.length + events.length - r.slots), P event := by
  rw [unread_publishAll, List.drop_append]
  constructor
  · rintro ⟨event, hmem, hP⟩
    rcases List.mem_append.1 hmem with hbefore | hsent
    · exact ⟨event, hbefore, hP⟩
    · exact absurd hP (h event (List.mem_of_mem_drop hsent))
  · rintro ⟨event, hmem, hP⟩
    exact ⟨event, List.mem_append_left _ hmem, hP⟩

/-! ### Receiving -/

/-- The three things a receiver can be told. -/
theorem recv_cases (r : Receiver E) :
    (r.Drained ∧ r.recv = (.empty, r)) ∨
    (r.missed ≠ 0 ∧ r.recv = (.lagged r.missed, { r with missed := 0 })) ∨
    (r.missed = 0 ∧ ∃ event, r.recv.1 = .value event ∧ r.unread = event :: r.recv.2.unread ∧
      r.recv.2.missed = 0) := by
  unfold recv
  by_cases hmissed : r.missed ≠ 0
  · exact .inr (.inl ⟨hmissed, if_pos hmissed⟩)
  · rw [if_neg hmissed]
    have hzero : r.missed = 0 := by omega
    cases hhead : r.unread.head? with
    | none =>
      have hnil := List.head?_eq_none_iff.1 hhead
      exact .inl ⟨⟨hnil, hzero⟩, rfl⟩
    | some event =>
      refine .inr (.inr ⟨hzero, event, rfl, ?_, hzero⟩)
      exact (List.cons_head?_tail (Option.mem_def.2 hhead)).symm

/-- How often the receiver has to be asked until it is drained. -/
def pending (r : Receiver E) : ℕ := r.unread.length + if r.missed = 0 then 0 else 1

theorem pending_eq_zero_iff (r : Receiver E) : r.pending = 0 ↔ r.Drained := by
  unfold pending Drained
  split_ifs with hmissed <;> simp [hmissed]

theorem pending_recv (r : Receiver E) : r.recv.2.pending = r.pending - 1 := by
  rcases r.recv_cases with ⟨hdrained, heq⟩ | ⟨hmissed, heq⟩ | ⟨hmissed, event, -, hunread, hnone⟩
  · rw [heq, (pending_eq_zero_iff r).2 hdrained]
  · rw [heq]
    simp [pending, hmissed]
  · simp [pending, hmissed, hunread, hnone]

theorem pending_le (r : Receiver E) : r.pending ≤ r.slots + 1 := by
  have hfits := r.fits
  unfold pending
  split_ifs <;> omega

/-! ### Consuming -/

/-- Where a consumer gets to by consuming all that waits. -/
def outcome (consume : C → E → C) (c : C) (r : Receiver E) : C := r.unread.foldl consume c

theorem outcome_of_drained (consume : C → E → C) (c : C) {r : Receiver E} (h : r.Drained) :
    r.outcome consume c = c := by
  rw [outcome, h.1]
  rfl

/-- The consumer's state after it was told something. -/
def consumeReceived (consume : C → E → C) (c : C) : Received E → C
  | .value event => consume c event
  | _ => c

/-- A consumer gets where it gets, however much it has consumed. -/
theorem outcome_recv (consume : C → E → C) (c : C) (r : Receiver E) :
    r.recv.2.outcome consume (consumeReceived consume c r.recv.1) = r.outcome consume c := by
  rcases r.recv_cases with ⟨-, heq⟩ | ⟨-, heq⟩ | ⟨-, event, hvalue, hunread, -⟩
  · rw [heq]
    rfl
  · rw [heq]
    rfl
  · rw [outcome, outcome, hvalue, hunread]
    rfl

/-- A consumer that drops elements of a list keeps those that nothing drops. -/
theorem outcome_filter {A : Type*} (keeps : E → A → Bool) (l : List A) (r : Receiver E) :
    r.outcome (fun l event => l.filter (keeps event)) l =
      l.filter fun a => r.unread.all fun event => keeps event a := by
  unfold outcome
  induction r.unread generalizing l with
  | nil => simp
  | cons event events ih =>
    rw [List.foldl_cons, ih, List.filter_filter]
    apply List.filter_congr
    intro a _
    rw [List.all_cons, Bool.and_comm]

end Receiver

end Verif
