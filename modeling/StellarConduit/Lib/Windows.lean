import Mathlib.Data.List.Chain
import Mathlib.Tactic.Common

/-!
# Fixed windows and sliding windows

A counter that is reset once a window of length `W` is over admits the first `cap` instants of each
of its windows.  This file compares it with the bound of a sliding window: at most `cap` instants in
any interval of length `W`.

* `Spaced W cap ts`: each instant comes at least `W` after the one `cap` places before it;
* `countP_interval_le_iff`: for instants in order this is the bound of the sliding window;
* `windows W ts`: the windows that instants fall into, where a window opens with the first instant
  at least `W` after the one before opened; `admitted W cap ts`: the first `cap` of each;
* `countP_admitted_le_iff`: the counter keeps the bound of the sliding window when what it admits in
  any two consecutive windows is spaced.
-/

namespace Verif

/-! ### The bound of a sliding window -/

/-- Each instant comes at least `W` after the one `cap` places before it. -/
def Spaced (W cap : ℕ) (ts : List ℕ) : Prop :=
  ∀ j t t', ts[j]? = some t → ts[j + cap]? = some t' → t + W ≤ t'

section Spaced

variable {W cap : ℕ}

theorem spaced_iff_zip {ts : List ℕ} :
    Spaced W cap ts ↔ ∀ p ∈ ts.zip (ts.drop cap), p.1 + W ≤ p.2 := by
  constructor
  · rintro h ⟨t, t'⟩ hp
    obtain ⟨j, hj⟩ := List.getElem?_of_mem hp
    obtain ⟨hfirst, hlater⟩ := List.getElem?_zip_eq_some.1 hj
    rw [List.getElem?_drop, Nat.add_comm] at hlater
    exact h j t t' hfirst hlater
  · intro h j t t' hj hj'
    refine h (t, t') (List.mem_of_getElem? (i := j) ?_)
    rw [List.getElem?_zip_eq_some, List.getElem?_drop, Nat.add_comm]
    exact ⟨hj, hj'⟩

instance (ts : List ℕ) : Decidable (Spaced W cap ts) :=
  decidable_of_iff _ spaced_iff_zip.symm

theorem spaced_of_length_le {ts : List ℕ} (h : ts.length ≤ cap) : Spaced W cap ts := by
  intro j t t' _ hlater
  obtain ⟨hlt, -⟩ := List.getElem?_eq_some_iff.1 hlater
  omega

theorem Spaced.tail {t : ℕ} {ts : List ℕ} (h : Spaced W cap (t :: ts)) : Spaced W cap ts := by
  intro j u u' hu hu'
  refine h (j + 1) u u' hu ?_
  rwa [Nat.add_right_comm]

/-- Three lists in a row are spaced when neighbours are and the outer ones are a window apart. -/
theorem spaced_append_append_iff {a b c : List ℕ} (hfar : ∀ t ∈ a, ∀ t' ∈ c, t + W ≤ t') :
    Spaced W cap (a ++ (b ++ c)) ↔ Spaced W cap (a ++ b) ∧ Spaced W cap (b ++ c) := by
  constructor
  · intro h
    refine ⟨fun j t t' hj hj' => h j t t' ?_ ?_, fun j t t' hj hj' => h (a.length + j) t t' ?_ ?_⟩
    · obtain ⟨hlt, -⟩ := List.getElem?_eq_some_iff.1 hj
      rwa [← List.append_assoc, List.getElem?_append_left hlt]
    · obtain ⟨hlt, -⟩ := List.getElem?_eq_some_iff.1 hj'
      rwa [← List.append_assoc, List.getElem?_append_left hlt]
    · rwa [List.getElem?_append_right (Nat.le_add_right _ _), Nat.add_sub_cancel_left]
    · rwa [Nat.add_assoc, List.getElem?_append_right (Nat.le_add_right _ _),
        Nat.add_sub_cancel_left]
  · rintro ⟨hleft, hright⟩ j t t' hj hj'
    rcases Nat.lt_or_ge j a.length with hlt | hge
    · rcases Nat.lt_or_ge (j + cap) (a ++ b).length with hnear | hout
      · refine hleft j t t' ?_ ?_
        · rw [List.getElem?_append_left hlt] at hj ⊢
          exact hj
        · rwa [← List.append_assoc, List.getElem?_append_left hnear] at hj'
      · rw [List.getElem?_append_left hlt] at hj
        rw [← List.append_assoc, List.getElem?_append_right hout] at hj'
        exact hfar t (List.mem_of_getElem? hj) t' (List.mem_of_getElem? hj')
    · rw [List.getElem?_append_right hge] at hj
      rw [List.getElem?_append_right (by omega), Nat.sub_add_comm hge] at hj'
      exact hright _ t t' hj hj'

theorem le_of_getElem?_le {ts : List ℕ} (hsorted : ts.Pairwise (· ≤ ·)) {j k t u : ℕ}
    (hle : j ≤ k) (hj : ts[j]? = some t) (hk : ts[k]? = some u) : t ≤ u := by
  obtain ⟨hjlt, rfl⟩ := List.getElem?_eq_some_iff.1 hj
  obtain ⟨hklt, rfl⟩ := List.getElem?_eq_some_iff.1 hk
  rcases Nat.eq_or_lt_of_le hle with rfl | hlt
  · exact le_rfl
  · exact List.pairwise_iff_getElem.1 hsorted j k hjlt hklt hlt

/-- Instants in order are spaced when no interval of length `W` holds more than `cap` of them. -/
theorem countP_interval_le_iff {ts : List ℕ} (hsorted : ts.Pairwise (· ≤ ·)) :
    (∀ s, ts.countP (fun t => decide (s ≤ t ∧ t < s + W)) ≤ cap) ↔ Spaced W cap ts := by
  constructor
  · intro h j t t' hj hj'
    by_contra hclose
    -- The instants from one to the other lie in the interval that starts with the first of them.
    have hinside : ∀ u ∈ (ts.drop j).take (cap + 1), t ≤ u ∧ u < t + W := by
      intro u hu
      obtain ⟨k, hk⟩ := List.getElem?_of_mem hu
      rw [List.getElem?_take] at hk
      split_ifs at hk with hlt
      rw [List.getElem?_drop] at hk
      have hfirst := le_of_getElem?_le hsorted (Nat.le_add_right j k) hj hk
      have hlast := le_of_getElem?_le hsorted (by omega) hk hj'
      omega
    obtain ⟨hlt, -⟩ := List.getElem?_eq_some_iff.1 hj'
    have hcount := ((List.take_sublist (cap + 1) _).trans (List.drop_sublist j ts)).countP_le
      (p := fun u => decide (t ≤ u ∧ u < t + W))
    rw [List.countP_eq_length.2 (by simpa using hinside), List.length_take, List.length_drop]
      at hcount
    have hbound := h t
    omega
  · intro h s
    induction ts with
    | nil => exact Nat.zero_le _
    | cons t ts ih =>
      by_cases hbefore : t < s
      · rw [List.countP_cons_of_neg (p := fun t => decide (s ≤ t ∧ t < s + W))
          (by simp only [decide_eq_true_eq]; omega)]
        exact ih hsorted.of_cons h.tail
      · -- All that comes `cap` places later lies behind the interval.
        have hrest : ((t :: ts).drop cap).countP (fun t => decide (s ≤ t ∧ t < s + W)) = 0 := by
          rw [List.countP_eq_zero]
          intro u hu
          obtain ⟨k, hk⟩ := List.getElem?_of_mem hu
          rw [List.getElem?_drop, Nat.add_comm] at hk
          obtain ⟨hlt, -⟩ := List.getElem?_eq_some_iff.1 hk
          have hstart := le_of_getElem?_le hsorted (Nat.zero_le k) rfl
            (List.getElem?_eq_getElem (show k < (t :: ts).length by omega))
          have hspaced := h k _ u (List.getElem?_eq_getElem (by omega)) hk
          simp
          omega
        calc (t :: ts).countP _
          _ = ((t :: ts).take cap).countP _ + ((t :: ts).drop cap).countP _ := by
            rw [← List.countP_append, List.take_append_drop]
          _ ≤ ((t :: ts).take cap).length + 0 := by
            rw [hrest]
            exact Nat.add_le_add_right List.countP_le_length 0
          _ ≤ cap := by
            rw [List.length_take]
            omega

end Spaced

/-! ### Windows -/

/-- The instants that still fall into the window that opened at `start`, and the later windows. -/
def windowsFrom (W : ℕ) : ℕ → List ℕ → List ℕ × List (List ℕ)
  | _, [] => ([], [])
  | start, t :: ts =>
    if start + W ≤ t then
      let (window, later) := windowsFrom W t ts
      ([], (t :: window) :: later)
    else
      let (window, later) := windowsFrom W start ts
      (t :: window, later)

/-- The windows of instants: the first one opens with the first instant. -/
def windows (W : ℕ) : List ℕ → List (List ℕ)
  | [] => []
  | t :: ts => (t :: (windowsFrom W t ts).1) :: (windowsFrom W t ts).2

/-- What is admitted after `count` instants of a window that opened at `start`. -/
def admittedFrom (W cap count start : ℕ) (ts : List ℕ) : List ℕ :=
  (windowsFrom W start ts).1.take (cap - count) ++
    (windowsFrom W start ts).2.flatMap (List.take cap)

/-- The first `cap` instants of every window. -/
def admitted (W cap : ℕ) (ts : List ℕ) : List ℕ := (windows W ts).flatMap (List.take cap)

section Windows

variable {W cap : ℕ}

/-- A counter that is reset at `t` starts over. -/
theorem admittedFrom_cons_of_le {count start t : ℕ} (h : start + W ≤ t) (ts : List ℕ) :
    admittedFrom W cap count start (t :: ts) = admitted W cap (t :: ts) := by
  unfold admittedFrom admitted
  rw [windowsFrom, if_pos h, windows, List.take_nil, List.nil_append]

/-- A counter that is not reset admits an instant when it has not reached its capacity. -/
theorem admittedFrom_cons_of_lt {count start t : ℕ} (h : t < start + W) (ts : List ℕ) :
    admittedFrom W cap count start (t :: ts) =
      if count < cap then t :: admittedFrom W cap (count + 1) start ts
      else admittedFrom W cap count start ts := by
  unfold admittedFrom
  rw [windowsFrom, if_neg (Nat.not_le.2 h)]
  split_ifs with hcount
  · have hone : cap - count = cap - (count + 1) + 1 := by omega
    rw [hone, List.take_succ_cons, List.cons_append]
  · have hnone : cap - count = 0 := by omega
    rw [hnone, List.take_zero, List.take_zero]

theorem admitted_cons (t : ℕ) (ts : List ℕ) :
    admitted W cap (t :: ts) =
      if 0 < cap then t :: admittedFrom W cap 1 t ts else admittedFrom W cap 0 t ts := by
  unfold admitted admittedFrom
  rw [windows, List.flatMap_cons]
  split_ifs with hcap
  · obtain ⟨n, rfl⟩ : ∃ n, cap = n + 1 := ⟨cap - 1, by omega⟩
    rw [List.take_succ_cons, Nat.add_sub_cancel, List.cons_append]
  · obtain rfl : cap = 0 := by omega
    rw [List.take_zero, List.take_zero]

/-- Every instant is in a window. -/
theorem flatten_windowsFrom (start : ℕ) (ts : List ℕ) :
    (windowsFrom W start ts).1 ++ (windowsFrom W start ts).2.flatten = ts := by
  induction ts generalizing start with
  | nil => rfl
  | cons t ts ih =>
    rw [windowsFrom]
    split_ifs
    · exact congrArg (t :: ·) (ih t)
    · exact congrArg (t :: ·) (ih start)

theorem flatten_windows (ts : List ℕ) : (windows W ts).flatten = ts := by
  cases ts with
  | nil => rfl
  | cons t ts => exact congrArg (t :: ·) (flatten_windowsFrom t ts)

/-- What comes in a later window comes after the current one is over. -/
theorem later_windowsFrom (start : ℕ) {ts : List ℕ} (hsorted : ts.Pairwise (· ≤ ·)) :
    ∀ t ∈ (windowsFrom W start ts).2.flatten, start + W ≤ t := by
  induction ts generalizing start with
  | nil => simp [windowsFrom]
  | cons t ts ih =>
    rw [windowsFrom]
    split_ifs with h
    · intro u hu
      have hrest : u ∈ (windowsFrom W t ts).1 ++ (windowsFrom W t ts).2.flatten ∨ u = t := by
        simpa [or_comm, or_assoc] using hu
      rw [flatten_windowsFrom] at hrest
      rcases hrest with hmem | rfl
      · exact h.trans (List.rel_of_pairwise_cons hsorted hmem)
      · exact h
    · exact ih start hsorted.of_cons

/-- Two windows with another one between them are a window's length apart. -/
def Apart (W : ℕ) : List (List ℕ) → Prop
  | [] => True
  | [_] => True
  | window :: next :: later =>
    (∀ t ∈ window, ∀ t' ∈ later.flatten, t + W ≤ t') ∧ Apart W (next :: later)

theorem apart_windowsFrom (start : ℕ) (pre : List ℕ) {ts : List ℕ}
    (hpre : ∀ u ∈ pre, ∀ t ∈ ts, u ≤ t) (hsorted : ts.Pairwise (· ≤ ·)) :
    Apart W ((pre ++ (windowsFrom W start ts).1) :: (windowsFrom W start ts).2) := by
  induction ts generalizing start pre with
  | nil => trivial
  | cons t ts ih =>
    rw [windowsFrom]
    split_ifs
    · refine ⟨?_, ih t [t] ?_ hsorted.of_cons⟩
      · intro u hu t' ht'
        rw [List.append_nil] at hu
        have hle := hpre u hu t List.mem_cons_self
        have hlater := later_windowsFrom (W := W) t hsorted.of_cons t' ht'
        omega
      · intro u hu t' ht'
        obtain rfl := List.mem_singleton.1 hu
        exact List.rel_of_pairwise_cons hsorted ht'
    · have hnext := ih start (pre ++ [t]) ?_ hsorted.of_cons
      · rwa [List.append_assoc, List.singleton_append] at hnext
      · intro u hu t' ht'
        rcases List.mem_append.1 hu with hbefore | hlast
        · exact hpre u hbefore t' (List.mem_cons_of_mem t ht')
        · obtain rfl := List.mem_singleton.1 hlast
          exact List.rel_of_pairwise_cons hsorted ht'

theorem apart_windows {ts : List ℕ} (hsorted : ts.Pairwise (· ≤ ·)) : Apart W (windows W ts) := by
  cases ts with
  | nil => trivial
  | cons t ts =>
    refine apart_windowsFrom t [t] ?_ hsorted.of_cons
    intro u hu t' ht'
    obtain rfl := List.mem_singleton.1 hu
    exact List.rel_of_pairwise_cons hsorted ht'

/-- The first instants of windows that are apart are spaced when those of neighbours are. -/
theorem spaced_flatMap_take_iff {gs : List (List ℕ)} (h : Apart W gs) :
    Spaced W cap (gs.flatMap (List.take cap)) ↔
      gs.IsChain fun g g' => Spaced W cap (g.take cap ++ g'.take cap) := by
  induction gs with
  | nil => exact iff_of_true (spaced_of_length_le (Nat.zero_le _)) List.IsChain.nil
  | cons g gs ih =>
    cases gs with
    | nil =>
      refine iff_of_true (spaced_of_length_le ?_) (List.IsChain.singleton g)
      rw [List.flatMap_singleton, List.length_take]
      exact Nat.min_le_left _ _
    | cons g' gs =>
      obtain ⟨hfar, hrest⟩ := h
      have houter : ∀ t ∈ g.take cap, ∀ t' ∈ gs.flatMap (List.take cap), t + W ≤ t' := by
        intro t ht t' ht'
        obtain ⟨g'', hg'', hmem⟩ := List.mem_flatMap.1 ht'
        exact hfar t (List.mem_of_mem_take ht) t'
          (List.mem_flatten_of_mem hg'' (List.mem_of_mem_take hmem))
      rw [List.isChain_cons_cons, ← ih hrest, List.flatMap_cons, List.flatMap_cons,
        spaced_append_append_iff houter]

theorem admitted_sublist (ts : List ℕ) : (admitted W cap ts).Sublist ts := by
  have hflatten : ∀ gs : List (List ℕ), (gs.flatMap (List.take cap)).Sublist gs.flatten := by
    intro gs
    induction gs with
    | nil => exact List.Sublist.slnil
    | cons g gs ih =>
      rw [List.flatMap_cons, List.flatten_cons]
      exact (List.take_sublist cap g).append ih
  have h := hflatten (windows W ts)
  rwa [flatten_windows] at h

/-- A counter that is reset keeps the bound of a sliding window when the first instants of any two
consecutive windows are spaced. -/
theorem countP_admitted_le_iff {ts : List ℕ} (hsorted : ts.Pairwise (· ≤ ·)) :
    (∀ s, (admitted W cap ts).countP (fun t => decide (s ≤ t ∧ t < s + W)) ≤ cap) ↔
      (windows W ts).IsChain fun g g' => Spaced W cap (g.take cap ++ g'.take cap) :=
  (countP_interval_le_iff (hsorted.sublist (admitted_sublist ts))).trans
    (spaced_flatMap_take_iff (apart_windows hsorted))

end Windows

end Verif
