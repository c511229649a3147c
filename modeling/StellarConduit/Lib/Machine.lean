import Mathlib.Algebra.BigOperators.Group.List.Basic
import Mathlib.Data.List.Basic
import Mathlib.Tactic.Common

/-!
# Runs of a deterministic machine

A machine is a step function `step : S → I → O × S`.  This file collects what holds of
its runs over a list of inputs, for any `S`, `I` and `O`.

* `exec step s is` is the last state, `trace step s is` the list of its events: the state
  before a step, the input, and the output;
* `exec_invariant`, `trace_invariant`: what the steps preserve, always or under a condition,
  holds of the last state, and before every step;
* `pairwise_trace`: what holds between any two steps holds along the run;
* `refines`: two machines in lock step give the same outputs; `exec_component`: a component of the
  state runs on inputs of its own;
* `observed step observe`: the machine with an observer, who keeps a state of his own;
* `Projection step step' R rel`: the machine `step'` is the part of `step` that the inputs
  `rel` concern; then a run is related to the run of the part over the `rel`-inputs alone
  (`Projection.exec_filter`), and the outputs for these inputs are the part's
  (`Projection.outputs_filter`);
* `Queue step put got R`: the machine is a queue, whose steps put elements in and take them
  out; along a run, what was put in is what was taken out and what is still there
  (`Queue.exec`, and `queue_trace` for a run whose own steps are those of a queue; `fifo_trace` for
  steps that put in and take out any number of elements);
* `Ledger step stock credit debit`: what a step adds to the stock or takes out of it is on
  record; then so it is for a run (`Ledger.exec`, and `balance_trace` for a run whose own steps
  are on record).
-/

namespace Verif.Machine

variable {S I O : Type*}

/-- One step of a run: the state it starts from, its input and its output. -/
structure Event (S I O : Type*) where
  before : S
  input : I
  output : O

/-- The state after a list of inputs. -/
def exec (step : S → I → O × S) (s : S) : List I → S
  | [] => s
  | i :: is => exec step (step s i).2 is

/-- The events of a run, in order. -/
def trace (step : S → I → O × S) (s : S) : List I → List (Event S I O)
  | [] => []
  | i :: is => ⟨s, i, (step s i).1⟩ :: trace step (step s i).2 is

/-- The outputs of a run, in order. -/
def outputs (step : S → I → O × S) (s : S) (is : List I) : List O :=
  (trace step s is).map Event.output

section Basic

variable (step : S → I → O × S) (s : S)

@[simp] theorem exec_nil : exec step s [] = s := rfl

@[simp] theorem exec_cons (i : I) (is : List I) :
    exec step s (i :: is) = exec step (step s i).2 is := rfl

@[simp] theorem trace_nil : trace step s [] = [] := rfl

@[simp] theorem trace_cons (i : I) (is : List I) :
    trace step s (i :: is) = ⟨s, i, (step s i).1⟩ :: trace step (step s i).2 is := rfl

@[simp] theorem outputs_nil : outputs step s [] = [] := rfl

@[simp] theorem outputs_cons (i : I) (is : List I) :
    outputs step s (i :: is) = (step s i).1 :: outputs step (step s i).2 is := rfl

theorem exec_append (is js : List I) :
    exec step s (is ++ js) = exec step (exec step s is) js := by
  induction is generalizing s with
  | nil => rfl
  | cons i is ih => exact ih _

theorem exec_concat (is : List I) (i : I) :
    exec step s (is ++ [i]) = (step (exec step s is) i).2 := by
  rw [exec_append]
  rfl

theorem trace_append (is js : List I) :
    trace step s (is ++ js) = trace step s is ++ trace step (exec step s is) js := by
  induction is generalizing s with
  | nil => rfl
  | cons i is ih => simp only [List.cons_append, trace_cons, exec_cons, ih]

theorem map_input_trace (is : List I) : (trace step s is).map Event.input = is := by
  induction is generalizing s with
  | nil => rfl
  | cons i is ih => rw [trace_cons, List.map_cons, ih]

theorem map_of_input_trace {W : Type*} (f : I → W) (is : List I) :
    (trace step s is).map (fun e => f e.input) = is.map f := by
  conv_rhs => rw [← map_input_trace step s is]
  rw [List.map_map]
  rfl

end Basic

variable {step : S → I → O × S} {s : S}

/-- An event of a run sits between the inputs before it and those after it. -/
theorem mem_trace {is : List I} {e : Event S I O} (h : e ∈ trace step s is) :
    ∃ pre i post, is = pre ++ i :: post ∧
      e = ⟨exec step s pre, i, (step (exec step s pre) i).1⟩ := by
  induction is generalizing s with
  | nil => simp at h
  | cons i is ih =>
    rcases List.mem_cons.1 h with rfl | h
    · exact ⟨[], i, is, rfl, rfl⟩
    · obtain ⟨pre, j, post, hsplit, he⟩ := ih h
      exact ⟨i :: pre, j, post, by rw [hsplit]; rfl, he⟩

/-- Every split of the inputs is at an event of the run. -/
theorem event_mem_trace (pre : List I) (i : I) (post : List I) :
    ⟨exec step s pre, i, (step (exec step s pre) i).1⟩ ∈ trace step s (pre ++ i :: post) := by
  rw [trace_append, trace_cons]
  exact List.mem_append_right _ List.mem_cons_self

/-- A relation holds along a run, from earlier to later events, when it holds between every
two of its steps. -/
theorem pairwise_trace {P : Event S I O → Event S I O → Prop} {is : List I}
    (h : ∀ pre i mid j post, is = pre ++ i :: (mid ++ j :: post) →
      P ⟨exec step s pre, i, (step (exec step s pre) i).1⟩
        ⟨exec step s (pre ++ i :: mid), j, (step (exec step s (pre ++ i :: mid)) j).1⟩) :
    (trace step s is).Pairwise P := by
  induction is generalizing s with
  | nil => exact List.Pairwise.nil
  | cons i is ih =>
    refine List.Pairwise.cons (fun e he => ?_) (ih fun pre j mid k post hsplit => ?_)
    · obtain ⟨mid, j, post, hsplit, rfl⟩ := mem_trace he
      exact h [] i mid j post (by rw [hsplit]; rfl)
    · exact h (i :: pre) j mid k post (by rw [hsplit]; rfl)

/-- What the steps preserve holds of the last state. -/
theorem exec_invariant (Inv : S → Prop) {is : List I}
    (hstep : ∀ s, ∀ i ∈ is, Inv s → Inv (step s i).2) (hs : Inv s) : Inv (exec step s is) := by
  induction is generalizing s with
  | nil => exact hs
  | cons i is ih =>
    exact ih (fun s j hj => hstep s j (List.mem_cons_of_mem i hj))
      (hstep s i List.mem_cons_self hs)

/-- What the steps preserve under a condition holds along every run that meets it. -/
theorem trace_invariant (Inv : S → Prop) {Cond : Event S I O → Prop} {is : List I}
    (hstep : ∀ s i, Cond ⟨s, i, (step s i).1⟩ → Inv s → Inv (step s i).2)
    (hcond : ∀ e ∈ trace step s is, Cond e) (hs : Inv s) :
    (∀ e ∈ trace step s is, Inv e.before) ∧ Inv (exec step s is) := by
  induction is generalizing s with
  | nil => exact ⟨by simp, hs⟩
  | cons i is ih =>
    rw [trace_cons, List.forall_mem_cons] at hcond ⊢
    obtain ⟨hbefore, hlast⟩ := ih hcond.2 (hstep s i hcond.1 hs)
    exact ⟨⟨hs, hbefore⟩, hlast⟩

/-! ### Observers -/

/-- The machine with an observer beside it, who follows the steps and does not change them. -/
def observed {G : Type*} (step : S → I → O × S) (observe : G → S → I → G) (s : S × G) (i : I) :
    O × S × G :=
  ((step s.1 i).1, (step s.1 i).2, observe s.2 s.1 i)

/-! ### Refinement -/

variable {T : Type*} {step' : T → I → O × T}

/-- Two machines whose steps give the same outputs in related states, and lead to related states
again, give the same outputs in all runs. -/
theorem refines {R : S → T → Prop}
    (hstep : ∀ s t i, R s t → (step s i).1 = (step' t i).1 ∧ R (step s i).2 (step' t i).2)
    {t : T} (h : R s t) (is : List I) :
    outputs step s is = outputs step' t is ∧ R (exec step s is) (exec step' t is) := by
  induction is generalizing s t with
  | nil => exact ⟨rfl, h⟩
  | cons i is ih =>
    obtain ⟨hout, hnext⟩ := hstep s t i h
    obtain ⟨houts, hlast⟩ := ih hnext
    exact ⟨by rw [outputs_cons, outputs_cons, hout, houts], hlast⟩

/-- A component of the state that every step takes through a list of inputs of its own. -/
theorem exec_component {J P : Type*} {step'' : T → J → P × T} {component : S → T}
    {inputs : I → List J}
    (h : ∀ s i, component (step s i).2 = exec step'' (component s) (inputs i)) (s : S)
    (is : List I) :
    component (exec step s is) = exec step'' (component s) (is.flatMap inputs) := by
  induction is generalizing s with
  | nil => rfl
  | cons i is ih => rw [exec_cons, ih, h, List.flatMap_cons, exec_append]

/-! ### Projections -/

/-- `step'` is the part of `step` that the inputs `rel` concern: an input outside `rel` is
invisible to `R`, and an input inside `rel` gives related states the same output and related
states again. -/
structure Projection (step : S → I → O × S) (step' : T → I → O × T) (R : S → T → Prop)
    (rel : I → Prop) : Prop where
  skip : ∀ s t i, ¬ rel i → R s t → R (step s i).2 t
  sync : ∀ s t i, rel i → R s t → (step s i).1 = (step' t i).1 ∧ R (step s i).2 (step' t i).2

namespace Projection

variable {R : S → T → Prop} {rel : I → Prop} [DecidablePred rel] {t : T}

/-- A run is related to the run of the part over the inputs that concern it. -/
theorem exec_filter (hR : Projection step step' R rel) (h : R s t) (is : List I) :
    R (exec step s is) (exec step' t (is.filter fun i => decide (rel i))) := by
  induction is generalizing s t with
  | nil => exact h
  | cons i is ih =>
    by_cases hi : rel i
    · rw [List.filter_cons_of_pos (by simpa using hi)]
      exact ih (hR.sync s t i hi h).2
    · rw [List.filter_cons_of_neg (by simpa using hi)]
      exact ih (hR.skip s t i hi h)

/-- The inputs that concern the part get the outputs that it gives them. -/
theorem outputs_filter (hR : Projection step step' R rel) (h : R s t) (is : List I) :
    ((trace step s is).filter fun e => decide (rel e.input)).map Event.output =
      outputs step' t (is.filter fun i => decide (rel i)) := by
  induction is generalizing s t with
  | nil => rfl
  | cons i is ih =>
    by_cases hi : rel i
    · obtain ⟨hout, hnext⟩ := hR.sync s t i hi h
      rw [trace_cons, List.filter_cons_of_pos (by simpa using hi),
        List.filter_cons_of_pos (by simpa using hi), List.map_cons, outputs_cons, ih hnext, hout]
    · rw [trace_cons, List.filter_cons_of_neg (by simpa using hi),
        List.filter_cons_of_neg (by simpa using hi), ih (hR.skip s t i hi h)]

end Projection

/-- Two machines with the same outputs on a run have the same outputs for any inputs of it. -/
theorem filter_outputs_congr {rel : I → Prop} [DecidablePred rel] {t : T} {is : List I}
    (h : outputs step s is = outputs step' t is) :
    ((trace step s is).filter fun e => decide (rel e.input)).map Event.output =
      ((trace step' t is).filter fun e => decide (rel e.input)).map Event.output := by
  induction is generalizing s t with
  | nil => rfl
  | cons i is ih =>
    rw [outputs_cons, outputs_cons, List.cons.injEq] at h
    rw [trace_cons, trace_cons]
    by_cases hi : rel i
    · rw [List.filter_cons_of_pos (by simpa using hi), List.filter_cons_of_pos (by simpa using hi),
        List.map_cons, List.map_cons, ih h.2, h.1]
    · rw [List.filter_cons_of_neg (by simpa using hi), List.filter_cons_of_neg (by simpa using hi),
        ih h.2]

/-! ### Queues -/

variable {M : Type*}

/-- The machine is a queue: `R` relates a state to the elements in it, and an event may `put`
an element in at the back and take the one that it `got` out at the front. -/
structure Queue (step : S → I → O × S) (put got : Event S I O → Option M)
    (R : S → List M → Prop) : Prop where
  step : ∀ s q i, R s q → ∃ q', R (step s i).2 q' ∧
    q ++ (put ⟨s, i, (step s i).1⟩).toList = (got ⟨s, i, (step s i).1⟩).toList ++ q'

/-- If every step of a run treats the queue as a queue, then what was in it and what was put in is
what was taken out and what is still there. -/
theorem queue_trace {put got : Event S I O → Option M} {R : S → List M → Prop} {is : List I}
    (hstep : ∀ e ∈ trace step s is, ∀ q, R e.before q → ∃ q', R (step e.before e.input).2 q' ∧
      q ++ (put e).toList = (got e).toList ++ q') {q : List M} (h : R s q) :
    ∃ q', R (exec step s is) q' ∧
      q ++ (trace step s is).filterMap put = (trace step s is).filterMap got ++ q' := by
  induction is generalizing s q with
  | nil => exact ⟨q, h, by simp⟩
  | cons i is ih =>
    rw [trace_cons, List.forall_mem_cons] at hstep
    obtain ⟨q₁, h₁, heq₁⟩ := hstep.1 q h
    obtain ⟨q₂, h₂, heq₂⟩ := ih hstep.2 h₁
    refine ⟨q₂, h₂, ?_⟩
    rw [List.filterMap_eq_flatMap_toList, List.filterMap_eq_flatMap_toList] at heq₂ ⊢
    rw [trace_cons, List.flatMap_cons, List.flatMap_cons, List.append_assoc, ← heq₂,
      ← List.append_assoc, heq₁, List.append_assoc]

/-- What was in the queue and what was put in is what was taken out and what is still there. -/
theorem Queue.exec {put got : Event S I O → Option M} {R : S → List M → Prop}
    (hR : Queue step put got R) {q : List M} (h : R s q) (is : List I) :
    ∃ q', R (exec step s is) q' ∧
      q ++ (trace step s is).filterMap put = (trace step s is).filterMap got ++ q' := by
  refine queue_trace (fun e he q hq => ?_) h
  obtain ⟨pre, i, post, -, rfl⟩ := mem_trace he
  exact hR.step _ q i hq

/-- If every step of a run puts a list behind what is held, and takes one off its front, then what
was held and what was put in is what was taken out and what is still held. -/
theorem fifo_trace (held : S → List M) {put got : Event S I O → List M} {is : List I}
    (hstep : ∀ e ∈ trace step s is,
      held e.before ++ put e = got e ++ held (step e.before e.input).2) :
    held s ++ (trace step s is).flatMap put =
      (trace step s is).flatMap got ++ held (exec step s is) := by
  induction is generalizing s with
  | nil => simp
  | cons i is ih =>
    rw [trace_cons, List.forall_mem_cons] at hstep
    rw [trace_cons, List.flatMap_cons, List.flatMap_cons, ← List.append_assoc, hstep.1,
      List.append_assoc, ih hstep.2, List.append_assoc]
    rfl

/-! ### Deliveries -/

section Deliveries

variable {W : Type*} {made given : Event S I O → List W} {events : List (Event S I O)}

theorem length_flatMap_le (h : ∀ e ∈ events, given e = made e ∨ given e = []) :
    (events.flatMap given).length ≤ (events.flatMap made).length := by
  induction events with
  | nil => exact Nat.le_refl 0
  | cons e events ih =>
    rw [List.forall_mem_cons] at h
    have hrest := ih h.2
    simp only [List.flatMap_cons, List.length_append]
    rcases h.1 with hsame | hnone
    · rw [hsame]
      omega
    · rw [hnone, List.length_nil]
      omega

/-- If every step gives what it has made or nothing, and in all as much is given as is made, then
every step gives what it has made. -/
theorem given_eq_made [DecidableEq W] (h : ∀ e ∈ events, given e = made e ∨ given e = [])
    (hcount : ∀ w, (events.flatMap made).count w ≤ (events.flatMap given).count w) :
    ∀ e ∈ events, given e = made e := by
  have hlength : (events.flatMap made).length ≤ (events.flatMap given).length :=
    (List.subperm_ext_iff.2 fun w _ => hcount w).length_le
  clear hcount
  induction events with
  | nil => simp
  | cons e events ih =>
    rw [List.forall_mem_cons] at h ⊢
    have hrest := length_flatMap_le h.2
    simp only [List.flatMap_cons, List.length_append] at hlength
    rcases h.1 with hsame | hnone
    · rw [hsame] at hlength
      exact ⟨hsame, ih h.2 (by omega)⟩
    · rw [hnone, List.length_nil] at hlength
      have hmade : made e = [] := List.length_eq_zero_iff.1 (by omega)
      exact ⟨hnone.trans hmade.symm, ih h.2 (by omega)⟩

end Deliveries

/-! ### Ledgers -/

variable {W : Type*} [AddCommMonoid W]

/-- Each step books what it adds to the stock as a credit and what it takes out as a debit. -/
def Ledger (step : S → I → O × S) (stock : S → W) (credit debit : Event S I O → W) : Prop :=
  ∀ s i, stock s + credit ⟨s, i, (step s i).1⟩ =
    stock (step s i).2 + debit ⟨s, i, (step s i).1⟩

/-- If every step of a run is booked, the stock at its end and all debits are the stock at its start
and all credits. -/
theorem balance_trace {stock : S → W} {credit debit : Event S I O → W} {is : List I}
    (h : ∀ e ∈ trace step s is, stock e.before + credit e =
      stock (step e.before e.input).2 + debit e) :
    stock s + ((trace step s is).map credit).sum =
      stock (exec step s is) + ((trace step s is).map debit).sum := by
  induction is generalizing s with
  | nil => rfl
  | cons i is ih =>
    rw [trace_cons, List.forall_mem_cons] at h
    rw [trace_cons, exec_cons, List.map_cons, List.map_cons, List.sum_cons, List.sum_cons,
      ← add_assoc, h.1, add_right_comm, ih h.2, add_assoc, add_comm (List.sum _)]

/-- The stock at the end of a run and all debits are the stock at its start and all credits. -/
theorem Ledger.exec {stock : S → W} {credit debit : Event S I O → W}
    (h : Ledger step stock credit debit) (s : S) (is : List I) :
    stock s + ((trace step s is).map credit).sum =
      stock (exec step s is) + ((trace step s is).map debit).sum := by
  apply balance_trace
  intro e he
  obtain ⟨pre, i, post, -, rfl⟩ := mem_trace he
  exact h _ i

end Verif.Machine
