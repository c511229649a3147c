import Mathlib.Data.List.Induction
import StellarConduit.Lib.Machine

/-!
# What was written last

`lastOf f l` is what `f` finds last in a list.  A part of the state of a machine is a register if
it holds what was written last, and a cell if it may also lose it.

* `lastOf_concat`, `lastOf_eq_some_iff`;
* `Register.exec`: in a run, a register holds what was written last, or what it held before;
* `Cell.exec_iff`: in a run, a cell holds what was written last, unless it has been dropped since;
  `Cell.exec_iff_of_empty`, if it is written only when it is empty.
-/

namespace Verif

section LastOf

variable {α β : Type*} (f : α → Option β)

/-- What `f` finds last. -/
def lastOf (l : List α) : Option β := l.reverse.findSome? f

@[simp] theorem lastOf_nil : lastOf f [] = none := rfl

theorem lastOf_concat (l : List α) (a : α) : lastOf f (l ++ [a]) = (f a).or (lastOf f l) := by
  unfold lastOf
  rw [List.reverse_append, List.findSome?_append]
  cases h : f a <;> simp [h]

/-- It is found at some place, and nothing is found after it. -/
theorem lastOf_eq_some_iff {l : List α} {b : β} :
    lastOf f l = some b ↔
      ∃ before a after, l = before ++ a :: after ∧ f a = some b ∧ ∀ c ∈ after, f c = none := by
  unfold lastOf
  rw [List.findSome?_eq_some_iff]
  constructor
  · rintro ⟨after, a, before, hsplit, ha, hafter⟩
    refine ⟨before.reverse, a, after.reverse, ?_, ha, fun c hc => hafter c (List.mem_reverse.1 hc)⟩
    rw [← l.reverse_reverse, hsplit]
    simp
  · rintro ⟨before, a, after, rfl, ha, hafter⟩
    exact ⟨after.reverse, a, before.reverse, by simp, ha,
      fun c hc => hafter c (List.mem_reverse.1 hc)⟩

end LastOf

namespace Machine

variable {S I O V : Type*} {step : S → I → O × S} {read : S → Option V}
  {write : Event S I O → Option V}

/-- A step writes to the register, or leaves it as it is. -/
structure Register (step : S → I → O × S) (read : S → Option V) (write : Event S I O → Option V) :
    Prop where
  step : ∀ s i, read (step s i).2 = (write ⟨s, i, (step s i).1⟩).or (read s)

/-- In a run, a register holds what was written last, or what it held before. -/
theorem Register.exec (h : Register step read write) (s : S) (is : List I) :
    read (exec step s is) = (lastOf write (trace step s is)).or (read s) := by
  induction is using List.reverseRecOn with
  | nil => rfl
  | append_singleton is i ih =>
    rw [exec_concat, h.step, ih, trace_append, trace_cons, trace_nil, lastOf_concat,
      Option.or_assoc]

/-- A step writes to the cell, or leaves in it what it does not drop. -/
structure Cell (step : S → I → O × S) (read : S → Option V) (write : Event S I O → Option V)
    (drops : Event S I O → V → Prop) : Prop where
  step : ∀ s i v, read (step s i).2 = some v ↔ write ⟨s, i, (step s i).1⟩ = some v ∨
    write ⟨s, i, (step s i).1⟩ = none ∧ read s = some v ∧ ¬ drops ⟨s, i, (step s i).1⟩ v

variable {drops : Event S I O → V → Prop}

/-- In a run from an empty cell, the cell holds what was written last and not dropped since. -/
theorem Cell.exec_iff (h : Cell step read write drops) {s : S} (hs : read s = none) (is : List I)
    {v : V} :
    read (exec step s is) = some v ↔
      ∃ before e after, trace step s is = before ++ e :: after ∧ write e = some v ∧
        ∀ e' ∈ after, write e' = none ∧ ¬ drops e' v := by
  induction is using List.reverseRecOn with
  | nil =>
    rw [exec_nil, hs, trace_nil]
    simp
  | append_singleton is i ih =>
    rw [exec_concat, h.step, ih, trace_append, trace_cons, trace_nil]
    generalize Event.mk (Machine.exec step s is) i (step (Machine.exec step s is) i).1 = last
    constructor
    · rintro (hwrite | ⟨hnone, ⟨before, e, after, hsplit, hwrite, hafter⟩, hkept⟩)
      · exact ⟨_, _, [], rfl, hwrite, by simp⟩
      · refine ⟨before, e, after ++ [last], ?_, hwrite, ?_⟩
        · rw [hsplit, List.append_assoc, List.cons_append]
        · rw [List.forall_mem_append, List.forall_mem_singleton]
          exact ⟨hafter, hnone, hkept⟩
    · rintro ⟨before, e, after, hsplit, hwrite, hafter⟩
      -- The last event is the write itself, or it comes after it and has spared the value.
      rcases List.eq_nil_or_concat after with rfl | ⟨after, _, rfl⟩
      · obtain ⟨-, he⟩ := List.append_inj' hsplit rfl
        rw [List.singleton_inj] at he
        exact Or.inl (he ▸ hwrite)
      · rw [List.concat_eq_append] at hsplit hafter
        rw [← List.cons_append, ← List.append_assoc] at hsplit
        obtain ⟨hinit, hlast⟩ := List.append_inj' hsplit rfl
        rw [List.singleton_inj] at hlast
        rw [List.forall_mem_append, List.forall_mem_singleton] at hafter
        subst hlast
        exact Or.inr ⟨hafter.2.1, ⟨before, e, after, hinit, hwrite, hafter.1⟩, hafter.2.2⟩

/-- A cell that is written only when it is empty holds what was written, until it is dropped. -/
theorem Cell.exec_iff_of_empty (h : Cell step read write drops)
    (hempty : ∀ e, (write e).isSome → read e.before = none) {s : S} (hs : read s = none)
    (is : List I) {v : V} :
    read (exec step s is) = some v ↔
      ∃ pre i post, is = pre ++ i :: post ∧
        write ⟨exec step s pre, i, (step (exec step s pre) i).1⟩ = some v ∧
          ∀ e ∈ trace step (exec step s (pre ++ [i])) post, ¬ drops e v := by
  induction is using List.reverseRecOn with
  | nil =>
    rw [exec_nil, hs]
    simp
  | append_singleton is j ih =>
    rw [exec_concat, h.step, ih]
    constructor
    · rintro (hwrite | ⟨-, ⟨pre, i, post, rfl, hwrite, hpost⟩, hkept⟩)
      · exact ⟨is, j, [], rfl, hwrite, by simp⟩
      · refine ⟨pre, i, post ++ [j], by simp, hwrite, ?_⟩
        rw [trace_append, trace_cons, trace_nil, List.forall_mem_append, List.forall_mem_singleton,
          ← exec_append, List.append_assoc]
        exact ⟨hpost, hkept⟩
    · rintro ⟨pre, i, post, hsplit, hwrite, hpost⟩
      rcases List.eq_nil_or_concat post with rfl | ⟨post, k, rfl⟩
      · obtain ⟨rfl, hi⟩ := List.append_inj' hsplit rfl
        rw [List.singleton_inj] at hi
        exact Or.inl (hi ▸ hwrite)
      · rw [List.concat_eq_append] at hsplit hpost
        rw [← List.cons_append, ← List.append_assoc] at hsplit
        obtain ⟨rfl, hk⟩ := List.append_inj' hsplit rfl
        rw [List.singleton_inj] at hk
        subst hk
        rw [trace_append, trace_cons, trace_nil, List.forall_mem_append, List.forall_mem_singleton,
          ← exec_append, List.append_assoc] at hpost
        have hheld : read (exec step s (pre ++ i :: post)) = some v :=
          ih.2 ⟨pre, i, post, rfl, hwrite, hpost.1⟩
        have hnone : write ⟨exec step s (pre ++ i :: post), j,
            (step (exec step s (pre ++ i :: post)) j).1⟩ = none := by
          by_contra hsome
          have hread := hempty _ (Option.isSome_iff_ne_none.2 hsome)
          rw [hheld] at hread
          cases hread
        exact Or.inr ⟨hnone, ⟨pre, i, post, rfl, hwrite, hpost.1⟩, hpost.2⟩

end Machine

end Verif
