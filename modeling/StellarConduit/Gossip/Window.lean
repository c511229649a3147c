import Mathlib.Data.List.Basic
import StellarConduit.Gossip.Bloom
import StellarConduit.Lib.Machine

/-!
# The window of a sliding Bloom filter

How long a `SlidingBloomFilter` of `gossip/bloom.rs` remembers an id.  Of the underlying filters
only `LawfulBloom` is assumed: they may report what was never set, but they do report what was.

* `Remembers f ids`: the filter after the insertions `ids`, the last one first.  The current
  filter has the first `insert_count` of them, and the previous one the `capacity` behind;
* `remembers_run`: so it is after every run of `check`, `add` and `check_and_add`;
* `dedup_window`: the last `capacity` ids that were inserted are reported as seen, so that an id
  is inserted again only after as many others.
-/

namespace StellarConduit

open Verif.Machine

/-- There are no false negatives: a key that is set is found, whatever is set afterwards. -/
class LawfulBloom (β : Type) {K : Type} [Bloom β K] : Prop where
  check_set_self : ∀ (f : β) (k : K), Bloom.check (Bloom.set f k) k = true
  check_set : ∀ (f : β) (k k' : K), Bloom.check f k = true → Bloom.check (Bloom.set f k') k = true

instance {K : Type} [DecidableEq K] : LawfulBloom (ExactFilter K) where
  check_set_self _ _ := decide_eq_true List.mem_cons_self
  check_set _ _ k' h := decide_eq_true (List.mem_cons_of_mem k' (of_decide_eq_true h))

inductive FilterInput (K : Type)
  | check (messageId : K)
  | add (messageId : K)
  | checkAndAdd (messageId : K)

/-- What a call returns; an `add` returns nothing. -/
inductive FilterOutput
  | seen (answer : Bool)
  | added
  deriving DecidableEq

namespace SlidingBloomFilter

variable {β K : Type} [Bloom β K]

def step (f : SlidingBloomFilter β) : FilterInput K → FilterOutput × SlidingBloomFilter β
  | .check messageId => (.seen (f.check messageId), f)
  | .add messageId => (.added, f.add messageId)
  | .checkAndAdd messageId =>
    let (seen, f) := f.checkAndAdd messageId
    (.seen seen, f)

/-- What `add` and `check_and_add` do with an id that is not reported as seen. -/
def insert (f : SlidingBloomFilter β) (messageId : K) : SlidingBloomFilter β :=
  let f := f.rotateIfFull
  { f with
    current := Bloom.set f.current messageId
    insertCount := f.insertCount + 1 }

theorem add_eq (f : SlidingBloomFilter β) (messageId : K) :
    f.add messageId = if f.check messageId then f else f.insert messageId := by
  unfold add
  cases f.check messageId <;> rfl

theorem checkAndAdd_eq (f : SlidingBloomFilter β) (messageId : K) :
    f.checkAndAdd messageId =
      (f.check messageId, if f.check messageId then f else f.insert messageId) := by
  unfold checkAndAdd
  cases f.check messageId <;> rfl

/-- An id that `check_and_add` does not report as seen is inserted. -/
theorem checkAndAdd_of_eq_false {f : SlidingBloomFilter β} {messageId : K}
    (h : (f.checkAndAdd messageId).1 = false) :
    f.check messageId = false ∧ (f.checkAndAdd messageId).2 = f.insert messageId := by
  rw [checkAndAdd_eq] at h ⊢
  dsimp only at h ⊢
  rw [h]
  exact ⟨rfl, rfl⟩

@[simp] theorem capacity_insert (f : SlidingBloomFilter β) (messageId : K) :
    (f.insert messageId).capacity = f.capacity := by
  unfold insert rotateIfFull
  split_ifs <;> rfl

end SlidingBloomFilter

section Window

variable {β K : Type} [Bloom β K]

abbrev FilterEvent (β K : Type) := Event (SlidingBloomFilter β) (FilterInput K) FilterOutput

/-- The id that a call inserts. -/
def insertedBy (e : FilterEvent β K) : Option K :=
  match e.input with
  | .check _ => none
  | .add messageId | .checkAndAdd messageId =>
    if e.before.check messageId then none else some messageId

/-- The ids that a run inserts, in order. -/
def insertedIds (f : SlidingBloomFilter β) (is : List (FilterInput K)) : List K :=
  (trace SlidingBloomFilter.step f is).filterMap insertedBy

theorem length_insertedIds_le (f : SlidingBloomFilter β) (is : List (FilterInput K)) :
    (insertedIds f is).length ≤ is.length := by
  conv_rhs => rw [← map_input_trace SlidingBloomFilter.step f is, List.length_map]
  exact List.length_filterMap_le _ _

/-- The filter after the insertions `ids`, the last one first. -/
structure Remembers (f : SlidingBloomFilter β) (ids : List K) : Prop where
  insertCount_le : f.insertCount ≤ f.capacity
  current : ∀ id ∈ ids.take f.insertCount, Bloom.check f.current id = true
  previous : ∀ id ∈ (ids.drop f.insertCount).take f.capacity, Bloom.check f.previous id = true

/-- What was inserted last, within the capacity, is reported as seen. -/
theorem Remembers.check {f : SlidingBloomFilter β} {ids : List K} (h : Remembers f ids) {id : K}
    (hid : id ∈ ids.take f.capacity) : f.check id = true := by
  rw [SlidingBloomFilter.check, Bool.or_eq_true]
  rw [← Nat.add_sub_cancel' h.insertCount_le, List.take_add] at hid
  rcases List.mem_append.1 hid with hid | hid
  · exact Or.inl (h.current id hid)
  · exact Or.inr (h.previous id (List.take_subset_take_left _ (Nat.sub_le _ _) hid))

/-- An id that is not reported as seen is not among the last insertions. -/
theorem not_mem_take_of_check {f : SlidingBloomFilter β} {ids : List K} (h : Remembers f ids)
    {id : K} (hid : f.check id = false) : id ∉ ids.take f.capacity := by
  intro hmem
  rw [h.check hmem] at hid
  cases hid

theorem Remembers.new (capacity : ℕ) (fpRate : Float) :
    Remembers (SlidingBloomFilter.new capacity fpRate : SlidingBloomFilter β) ([] : List K) where
  insertCount_le := Nat.zero_le _
  current := by simp
  previous := by simp

variable [LawfulBloom β]

/-- An insertion moves the window by one. -/
theorem Remembers.insert {f : SlidingBloomFilter β} {ids : List K} (h : Remembers f ids)
    (hcapacity : 1 ≤ f.capacity) (id : K) : Remembers (f.insert id) (id :: ids) := by
  unfold SlidingBloomFilter.insert SlidingBloomFilter.rotateIfFull
  split_ifs with hfull
  · -- The current filter becomes the previous one, with as many ids as the capacity.
    have hcount : f.insertCount = f.capacity := Nat.le_antisymm h.insertCount_le hfull
    refine ⟨hcapacity, fun id' hid' => ?_, fun id' hid' => ?_⟩
    · obtain rfl : id' = id := by simpa using hid'
      exact LawfulBloom.check_set_self _ _
    · apply h.current
      rw [hcount]
      simpa using hid'
  · refine ⟨Nat.lt_of_not_ge hfull, fun id' hid' => ?_, fun id' hid' => ?_⟩
    · dsimp only at hid' ⊢
      rw [List.take_succ_cons] at hid'
      rcases List.mem_cons.1 hid' with rfl | hid'
      · exact LawfulBloom.check_set_self _ _
      · exact LawfulBloom.check_set _ _ _ (h.current id' hid')
    · exact h.previous id' hid'

/-- What is inserted is remembered, whatever was inserted before. -/
theorem Remembers.of_insert {f : SlidingBloomFilter β} (hcapacity : 1 ≤ f.capacity) (id : K) :
    Remembers (f.insert id) [id] := by
  have hpos : 1 ≤ (f.insert id).insertCount := Nat.le_add_left 1 _
  refine ⟨?_, fun id' hid' => ?_, fun id' hid' => ?_⟩
  · unfold SlidingBloomFilter.insert SlidingBloomFilter.rotateIfFull
    split_ifs with hfull
    · exact hcapacity
    · exact Nat.lt_of_not_ge hfull
  · obtain rfl := List.mem_singleton.1 (List.mem_of_mem_take hid')
    exact LawfulBloom.check_set_self _ _
  · rw [List.drop_eq_nil_of_le (by simpa using hpos)] at hid'
    simp at hid'

/-- Every call keeps the window. -/
theorem Remembers.step {f : SlidingBloomFilter β} {ids : List K} (h : Remembers f ids)
    (hcapacity : 1 ≤ f.capacity) (i : FilterInput K) :
    Remembers (f.step i).2 ((insertedBy ⟨f, i, (f.step i).1⟩).toList ++ ids) := by
  have hadd : ∀ id, Remembers (if f.check id then f else f.insert id)
      ((if f.check id then none else some id).toList ++ ids) := by
    intro id
    split_ifs
    · exact h
    · exact h.insert hcapacity id
  cases i with
  | check id => exact h
  | add id =>
    show Remembers (f.add id) _
    rw [f.add_eq id]
    exact hadd id
  | checkAndAdd id =>
    show Remembers (f.checkAndAdd id).2 _
    rw [f.checkAndAdd_eq id]
    exact hadd id

omit [LawfulBloom β] in
@[simp] theorem SlidingBloomFilter.capacity_step (f : SlidingBloomFilter β) (i : FilterInput K) :
    (f.step i).2.capacity = f.capacity := by
  cases i with
  | check id => rfl
  | add id =>
    show (f.add id).capacity = f.capacity
    rw [f.add_eq id]
    split_ifs <;> simp
  | checkAndAdd id =>
    show (f.checkAndAdd id).2.capacity = f.capacity
    rw [f.checkAndAdd_eq id]
    dsimp only
    split_ifs <;> simp

omit [LawfulBloom β] in
theorem SlidingBloomFilter.capacity_exec (f : SlidingBloomFilter β) (is : List (FilterInput K)) :
    (exec SlidingBloomFilter.step f is).capacity = f.capacity :=
  exec_invariant (fun f' : SlidingBloomFilter β => f'.capacity = f.capacity)
    (fun f' i _ h => (f'.capacity_step i).trans h) rfl

/-- After a run the filter remembers what the run inserted, and what was inserted before. -/
theorem remembers_run {f : SlidingBloomFilter β} {ids : List K} (h : Remembers f ids)
    (hcapacity : 1 ≤ f.capacity) (is : List (FilterInput K)) :
    Remembers (exec SlidingBloomFilter.step f is) ((insertedIds f is).reverse ++ ids) := by
  induction is generalizing f ids with
  | nil => exact h
  | cons i is ih =>
    have hrest := ih (h.step hcapacity i) (by rwa [f.capacity_step])
    have hids : (insertedIds f (i :: is)).reverse ++ ids =
        (insertedIds (f.step i).2 is).reverse ++
          ((insertedBy ⟨f, i, (f.step i).1⟩).toList ++ ids) := by
      unfold insertedIds
      rw [trace_cons, List.filterMap_cons]
      cases insertedBy ⟨f, i, (f.step i).1⟩ <;> simp
    rw [hids]
    exact hrest

/-- After an id was inserted, it is not reported as seen only after as many insertions of other
ids as the capacity. -/
theorem capacity_le_of_check [DecidableEq K] {f : SlidingBloomFilter β} {ids : List K}
    (h : Remembers f ids) (hcapacity : 1 ≤ f.capacity) {id : K} (hid : id ∈ ids.take 1)
    (mid : List (FilterInput K))
    (hunseen : (exec SlidingBloomFilter.step f mid).check id = false) :
    f.capacity ≤ (insertedIds f mid).countP fun other => decide (other ≠ id) := by
  have hnot := not_mem_take_of_check (remembers_run h hcapacity mid) hunseen
  rw [f.capacity_exec mid, List.take_append, List.mem_append, not_or] at hnot
  -- The id is in the window, unless the insertions of the run fill it.
  have hlength : f.capacity ≤ (insertedIds f mid).reverse.length := by
    by_contra hlt
    refine hnot.2 (List.take_subset_take_left _ ?_ hid)
    omega
  calc f.capacity
      = ((insertedIds f mid).reverse.take f.capacity).length := by
        rw [List.length_take, Nat.min_eq_left hlength]
    _ = ((insertedIds f mid).reverse.take f.capacity).countP fun other => decide (other ≠ id) := by
        refine (List.countP_eq_length.2 fun other hother => ?_).symm
        rw [decide_eq_true_iff]
        rintro rfl
        exact hnot.1 hother
    _ ≤ (insertedIds f mid).reverse.countP fun other => decide (other ≠ id) :=
        (List.take_sublist _ _).countP_le
    _ = (insertedIds f mid).countP fun other => decide (other ≠ id) :=
        List.countP_reverse

/-- **The window.**  After every run on a new filter no more than `capacity` ids are counted, the
last `capacity` ids that were inserted are reported as seen, and between two calls of
`check_and_add` that return `false` for one id, at least `capacity` other ids are inserted. -/
theorem dedup_window [DecidableEq K] {capacity : ℕ} (hcapacity : 1 ≤ capacity) (fpRate : Float)
    (is : List (FilterInput K)) :
    let new : SlidingBloomFilter β := .new capacity fpRate
    (exec SlidingBloomFilter.step new is).insertCount ≤ capacity ∧
      (∀ id ∈ (insertedIds new is).reverse.take capacity,
        (exec SlidingBloomFilter.step new is).check id = true) ∧
      ∀ pre id mid post, is = pre ++ .checkAndAdd id :: (mid ++ .checkAndAdd id :: post) →
        let before := exec SlidingBloomFilter.step new pre
        let after := (before.checkAndAdd id).2
        (before.checkAndAdd id).1 = false →
          ((exec SlidingBloomFilter.step after mid).checkAndAdd id).1 = false →
            capacity ≤ (insertedIds after mid).countP fun other => decide (other ≠ id) := by
  intro new
  have hnew : Remembers new ([] : List K) := Remembers.new capacity fpRate
  have hrun := fun is => remembers_run hnew hcapacity is
  have hexec : ∀ is, (exec SlidingBloomFilter.step new is).capacity = capacity :=
    fun is => new.capacity_exec is
  refine ⟨?_, fun id hid => ?_, ?_⟩
  · exact hexec is ▸ (hrun is).insertCount_le
  · apply (hrun is).check
    rwa [hexec, List.append_nil]
  · intro pre id mid post _ before after hfirst hsecond
    have hbefore : before.capacity = capacity := hexec pre
    have hafter : after = before.insert id := (SlidingBloomFilter.checkAndAdd_of_eq_false hfirst).2
    have hremembers := (hrun pre).insert (hbefore.symm ▸ hcapacity) id
    rw [hafter] at hsecond ⊢
    -- The id was inserted first and is not found at the end: a whole window lies between.
    have hle := capacity_le_of_check hremembers
      (by rw [before.capacity_insert, hbefore]; exact hcapacity) List.mem_cons_self mid
      (SlidingBloomFilter.checkAndAdd_of_eq_false hsecond).1
    rwa [before.capacity_insert, hbefore] at hle

end Window

/-- An id is inserted twice, with two others between. -/
theorem dedup_window_sample :
    let new : SlidingBloomFilter (ExactFilter ℕ) := .new 1 0.01
    let after := (new.checkAndAdd 1).2
    ((exec SlidingBloomFilter.step after [.checkAndAdd 2, .add 3]).checkAndAdd 1).1 = false ∧
      1 ≤ (insertedIds after [.checkAndAdd 2, .add 3]).countP fun other => decide (other ≠ 1) := by
  intro new after
  have hunseen : ((exec SlidingBloomFilter.step after [.checkAndAdd 2, .add 3]).checkAndAdd 1).1 =
      false := by decide +kernel
  obtain ⟨-, -, hwindow⟩ := dedup_window (β := ExactFilter ℕ) (Nat.le_refl 1) 0.01
    [.checkAndAdd 1, .checkAndAdd 2, .add 3, .checkAndAdd 1]
  exact ⟨hunseen, hwindow [] 1 [.checkAndAdd 2, .add 3] [] rfl (by decide +kernel) hunseen⟩

end StellarConduit
