import Mathlib.Data.List.Induction
import Mathlib.Logic.Function.Basic
import Mathlib.Order.Bounds.Basic
import Mathlib.Tactic.Common

/-!
# Assembling a list from fragments

A fragment is a payload together with the position it belongs at.  Writing fragments one
after the other into an empty array leaves, at each position, what the last fragment
covering it carries (`written`); the array is filled when every position was written
(`Filled`).

Two facts about fragments that come from one list `m`:

* if every fragment is a slice of `m`, whatever was written agrees with `m`
  (`written_of_slices`), so a filled array is `m` (`eq_of_filled_of_slices`);
* if the fragments are taken from a tiling of `m` into non-empty pieces, in any order and
  with any repetitions, the array is filled exactly when every piece has been written
  (`filled_iff_of_tiling`).
-/

namespace Verif.Fragments

variable {α : Type*}

/-- A payload and the position it belongs at. -/
structure Fragment (α : Type*) where
  offset : ℕ
  payload : List α

/-- What a fragment carries for position `i`. -/
def Fragment.at? (f : Fragment α) (i : ℕ) : Option α :=
  if f.offset ≤ i then f.payload[i - f.offset]? else none

theorem Fragment.at?_isSome_iff (f : Fragment α) (i : ℕ) :
    (f.at? i).isSome ↔ f.offset ≤ i ∧ i < f.offset + f.payload.length := by
  unfold Fragment.at?
  split_ifs with h
  · rw [Option.isSome_iff_ne_none, ne_eq, List.getElem?_eq_none_iff]
    omega
  · simp [h]

/-- What has been written at position `i` by the fragments `fs`, the last one winning. -/
def written (fs : List (Fragment α)) (i : ℕ) : Option α :=
  fs.foldl (fun cell f => (f.at? i).or cell) none

@[simp] theorem written_nil (i : ℕ) : written ([] : List (Fragment α)) i = none := rfl

theorem written_concat (fs : List (Fragment α)) (f : Fragment α) (i : ℕ) :
    written (fs ++ [f]) i = (f.at? i).or (written fs i) := by
  rw [written, List.foldl_append]
  rfl

/-- A written value comes from one of the fragments. -/
theorem exists_of_written {fs : List (Fragment α)} {i : ℕ} {x : α} (h : written fs i = some x) :
    ∃ f ∈ fs, f.at? i = some x := by
  induction fs using List.reverseRecOn with
  | nil => simp at h
  | append_singleton fs f ih =>
    rw [written_concat] at h
    cases hf : f.at? i with
    | some y =>
      rw [hf, Option.some_or] at h
      exact ⟨f, by simp, h ▸ hf⟩
    | none =>
      rw [hf, Option.none_or] at h
      obtain ⟨g, hg, hgi⟩ := ih h
      exact ⟨g, List.mem_append_left _ hg, hgi⟩

theorem written_isSome_iff {fs : List (Fragment α)} {i : ℕ} :
    (written fs i).isSome ↔ ∃ f ∈ fs, (f.at? i).isSome := by
  induction fs using List.reverseRecOn with
  | nil => simp
  | append_singleton fs f ih =>
    rw [written_concat, Option.isSome_or, Bool.or_eq_true, ih]
    simp only [List.mem_append, List.mem_singleton]
    constructor
    · rintro (h | ⟨g, hg, h⟩)
      · exact ⟨f, Or.inr rfl, h⟩
      · exact ⟨g, Or.inl hg, h⟩
    · rintro ⟨g, hg | rfl, h⟩
      · exact Or.inr ⟨g, hg, h⟩
      · exact Or.inl h

/-- Every position below `n` has been written. -/
def Filled (n : ℕ) (fs : List (Fragment α)) : Prop := ∀ i < n, (written fs i).isSome

instance (n : ℕ) (fs : List (Fragment α)) : Decidable (Filled n fs) :=
  inferInstanceAs (Decidable (∀ i < n, _))

/-! ### Arrays -/

/-- A fragment written from its first element on. -/
theorem at?_cons_or (o : ℕ) (x : α) (p : List α) (cells : ℕ → Option α) (i : ℕ) :
    (Fragment.at? ⟨o, x :: p⟩ i).or (cells i) =
      (Fragment.at? ⟨o + 1, p⟩ i).or (Function.update cells o (some x) i) := by
  unfold Fragment.at?
  rcases Nat.lt_trichotomy i o with hlt | rfl | hgt
  · have hne : i ≠ o := by omega
    rw [if_neg (by simpa using hlt), if_neg (by simp only; omega), Function.update_of_ne hne]
  · rw [if_pos (Nat.le_refl i), if_neg (by simp), Function.update_self, Nat.sub_self]
    rfl
  · have hne : i ≠ o := by omega
    have hsub : i - o = i - (o + 1) + 1 := by omega
    rw [if_pos (by simp only; omega), if_pos (by simp only; omega), Function.update_of_ne hne, hsub,
      List.getElem?_cons_succ]

/-- Setting an element of an array that shows `n` cells through `g`. -/
theorem set_map_range {β γ : Type*} (g : γ → β) (cells : ℕ → γ) (n i : ℕ) (c : γ) :
    ((List.range n).map fun j => g (cells j)).set i (g c) =
      (List.range n).map fun j => g (Function.update cells i c j) := by
  apply List.ext_getElem?
  intro j
  rw [List.getElem?_set]
  by_cases hij : i = j
  · subst hij
    by_cases hlt : i < n <;> simp [hlt]
  · have hji : j ≠ i := fun h => hij h.symm
    rw [if_neg hij]
    by_cases hlt : j < n <;> simp [hlt, hji]

/-! ### Slices -/

/-- `f` carries a piece of `m`, at the position it has in `m`. -/
def IsSlice (m : List α) (f : Fragment α) : Prop := ∀ i x, f.at? i = some x → m[i]? = some x

theorem written_of_slices {m : List α} {fs : List (Fragment α)} (h : ∀ f ∈ fs, IsSlice m f)
    {i : ℕ} {x : α} (hi : written fs i = some x) : m[i]? = some x := by
  obtain ⟨f, hf, hfi⟩ := exists_of_written hi
  exact h f hf i x hfi

/-- A filled array of slices of `m` holds `m`. -/
theorem eq_of_filled_of_slices {m l : List α} {fs : List (Fragment α)}
    (h : ∀ f ∈ fs, IsSlice m f) (hlen : l.length = m.length) (hfill : Filled m.length fs)
    (hl : ∀ i < m.length, l[i]? = written fs i) : l = m := by
  apply List.ext_getElem?
  intro i
  by_cases hi : i < m.length
  · obtain ⟨x, hx⟩ := Option.isSome_iff_exists.1 (hfill i hi)
    rw [hl i hi, hx, written_of_slices h hx]
  · rw [List.getElem?_eq_none (by omega), List.getElem?_eq_none (by omega)]

/-! ### Tilings -/

/-- `gs` cuts `m` into consecutive non-empty pieces, the first at position `o`. -/
inductive Tiling : ℕ → List α → List (Fragment α) → Prop
  | nil (o : ℕ) : Tiling o [] []
  | cons {o : ℕ} {p m : List α} {gs : List (Fragment α)} (hp : p ≠ [])
      (h : Tiling (o + p.length) m gs) : Tiling o (p ++ m) (⟨o, p⟩ :: gs)

namespace Tiling

variable {o : ℕ} {m : List α} {gs : List (Fragment α)}

theorem offset_le (h : Tiling o m gs) : ∀ g ∈ gs, o ≤ g.offset := by
  induction h with
  | nil => simp
  | cons hp h ih =>
    intro g hg
    rcases List.mem_cons.1 hg with rfl | hg
    · exact Nat.le_refl _
    · exact Nat.le_trans (Nat.le_add_right _ _) (ih g hg)

theorem payload_ne_nil (h : Tiling o m gs) : ∀ g ∈ gs, g.payload ≠ [] := by
  induction h with
  | nil => simp
  | cons hp h ih =>
    intro g hg
    rcases List.mem_cons.1 hg with rfl | hg
    · exact hp
    · exact ih g hg

/-- No piece occurs twice. -/
theorem nodup (h : Tiling o m gs) : gs.Nodup := by
  induction h with
  | nil => exact List.nodup_nil
  | cons hp h ih =>
    refine List.nodup_cons.2 ⟨fun hmem => ?_, ih⟩
    have hle := h.offset_le _ hmem
    have hpos := List.length_pos_iff.2 hp
    simp only at hle
    omega

/-- The pieces put together are the list. -/
theorem flatMap_payload (h : Tiling o m gs) : gs.flatMap Fragment.payload = m := by
  induction h with
  | nil => rfl
  | cons hp h ih => rw [List.flatMap_cons, ih]

/-- A piece starts where the pieces before it end. -/
theorem offset_eq (h : Tiling o m gs) {pre post : List (Fragment α)} {g : Fragment α}
    (hsplit : gs = pre ++ g :: post) : g.offset = o + (pre.flatMap Fragment.payload).length := by
  induction h generalizing pre with
  | nil => simp at hsplit
  | cons hp h ih =>
    cases pre with
    | nil =>
      cases hsplit
      rfl
    | cons g' pre =>
      obtain ⟨rfl, hrest⟩ := List.cons.inj hsplit
      rw [ih hrest, List.flatMap_cons, List.length_append, Nat.add_assoc]

/-- What a piece carries for a position is what the list has there. -/
theorem getElem?_of_at? (h : Tiling o m gs) {g : Fragment α} (hg : g ∈ gs) {i : ℕ} {x : α}
    (hi : g.at? i = some x) : m[i - o]? = some x := by
  induction h with
  | nil => simp at hg
  | @cons o p m gs hp h ih =>
    rcases List.mem_cons.1 hg with rfl | hg
    · have hlt := (Fragment.at?_isSome_iff _ _).1 (Option.isSome_iff_exists.2 ⟨x, hi⟩)
      simp only at hlt
      rw [List.getElem?_append_left (by omega)]
      simpa [Fragment.at?, hlt.1] using hi
    · have hle := h.offset_le g hg
      have hlt := (Fragment.at?_isSome_iff _ _).1 (Option.isSome_iff_exists.2 ⟨x, hi⟩)
      rw [List.getElem?_append_right (by omega), ← ih hg]
      congr 1
      omega

/-- Every position of the list is in one of the pieces. -/
theorem exists_at? (h : Tiling o m gs) {i : ℕ} (hlo : o ≤ i) (hhi : i < o + m.length) :
    ∃ g ∈ gs, (g.at? i).isSome := by
  induction h with
  | nil => simp at hhi; omega
  | @cons o p m gs hp h ih =>
    by_cases hi : i < o + p.length
    · exact ⟨⟨o, p⟩, List.mem_cons_self, (Fragment.at?_isSome_iff _ _).2 ⟨hlo, hi⟩⟩
    · rw [List.length_append] at hhi
      obtain ⟨g, hg, hgi⟩ := ih (by omega) (by omega)
      exact ⟨g, List.mem_cons_of_mem _ hg, hgi⟩

/-- No position is in two of the pieces. -/
theorem eq_of_at? (h : Tiling o m gs) {f g : Fragment α} (hf : f ∈ gs) (hg : g ∈ gs) {i : ℕ}
    (hfi : (f.at? i).isSome) (hgi : (g.at? i).isSome) : f = g := by
  induction h with
  | nil => simp at hf
  | @cons o p m gs hp h ih =>
    have hf' := (Fragment.at?_isSome_iff _ _).1 hfi
    have hg' := (Fragment.at?_isSome_iff _ _).1 hgi
    rcases List.mem_cons.1 hf with rfl | hf <;> rcases List.mem_cons.1 hg with rfl | hg
    · rfl
    · have := h.offset_le g hg
      simp only at hf'
      omega
    · have := h.offset_le f hf
      simp only at hg'
      omega
    · exact ih hf hg

theorem isSlice (h : Tiling 0 m gs) : ∀ g ∈ gs, IsSlice m g := fun _ hg _ _ hi =>
  h.getElem?_of_at? hg hi

end Tiling

/-- **Pieces in any order.**  Fragments taken from a tiling of `m`, in any order and with
any repetitions, fill the array exactly when every piece is among them. -/
theorem filled_iff_of_tiling {m : List α} {gs fs : List (Fragment α)} (h : Tiling 0 m gs)
    (hfs : ∀ f ∈ fs, f ∈ gs) : Filled m.length fs ↔ ∀ g ∈ gs, g ∈ fs := by
  constructor
  · intro hfill g hg
    -- The first position of `g` is written, and only by `g` itself.
    have hpos : 0 < g.payload.length := List.length_pos_iff.2 (h.payload_ne_nil g hg)
    have hgi : (g.at? g.offset).isSome := (Fragment.at?_isSome_iff _ _).2 ⟨Nat.le_refl _, by omega⟩
    obtain ⟨x, hx⟩ := Option.isSome_iff_exists.1 hgi
    have hlt : g.offset < m.length := (List.getElem?_eq_some_iff.1 (h.getElem?_of_at? hg hx)).1
    obtain ⟨f, hf, hfi⟩ := written_isSome_iff.1 (hfill g.offset hlt)
    exact h.eq_of_at? (hfs f hf) hg hfi hgi ▸ hf
  · intro hall i hi
    obtain ⟨g, hg, hgi⟩ := h.exists_at? (Nat.zero_le i) (by omega)
    exact written_isSome_iff.2 ⟨g, hall g hg, hgi⟩

/-! ### The number of pieces -/

/-- The numbers of pieces of at most `size` elements that a list can be cut into. -/
def pieceCounts (size : ℕ) (m : List α) : Set ℕ :=
  {n | ∃ ps : List (List α), ps.length = n ∧ ps.flatten = m ∧ ∀ p ∈ ps, p.length ≤ size}

theorem length_flatten_le {size : ℕ} {ps : List (List α)} (h : ∀ p ∈ ps, p.length ≤ size) :
    ps.flatten.length ≤ ps.length * size := by
  induction ps with
  | nil => exact Nat.zero_le _
  | cons p ps ih =>
    obtain ⟨hp, hps⟩ := List.forall_mem_cons.1 h
    have hrest := ih hps
    rw [List.flatten_cons, List.length_append, List.length_cons, Nat.add_mul, Nat.one_mul]
    omega

/-- **As few as possible.**  A cut has the least number of pieces if with one piece less they would
not hold the list. -/
theorem isLeast_pieceCounts {size : ℕ} {m : List α} {ps : List (List α)} (hflatten : ps.flatten = m)
    (hsize : ∀ p ∈ ps, p.length ≤ size) (hfew : ps.length * size < m.length + size) :
    IsLeast (pieceCounts size m) ps.length := by
  refine ⟨⟨ps, rfl, hflatten, hsize⟩, ?_⟩
  rintro n ⟨qs, rfl, rfl, hqs⟩
  have hholds := length_flatten_le hqs
  have hlt : ps.length * size < (qs.length + 1) * size := by
    rw [Nat.add_mul, Nat.one_mul]
    omega
  exact Nat.le_of_lt_succ (Nat.lt_of_mul_lt_mul_right hlt)

end Verif.Fragments
