import Mathlib.Data.Finset.Sort
import Mathlib.Data.List.Sort

/-!
# Stable sorting by a key

`sortByKey key l` is `l` with the greatest keys first, and with elements of the same key in the
order they have in `l`.

* `StablySorted r key l sorted`: what a stable sort comes to, without the algorithm;
* `pairwise_sortByKey_of_pairwise`: elements of the same key stay in their order;
* `sortByKey_append_cons`: what stands before and behind an element once it is sorted;
* `mem_take_sortByKey_iff`, `mem_drop_sortByKey_iff`: an element is among the first `n`, or not,
  according to the number of elements that go before it, being greater or being equal and earlier;
* `sortAscending key l` has the least keys first, in any linear order; `filter_sortAscending`: it is
  stable; `pairwise_sortAscending_iff`: what holds between the elements of the sorted list;
* `sortSet key s` are the elements of a finite set in the order of keys that tell them apart;
  `pairwise_sortSet`: the keys ascend strictly.
-/

namespace Verif

variable {α : Type*}

/-! ### What a stable sort is -/

section StablySorted

variable {β : Type*} [DecidableEq β] (r : β → β → Prop) (key : α → β) (l : List α)

/-- `sorted` has the elements of `l` with their keys in the order `r`, and elements of the same key
as they stand in `l`. -/
structure StablySorted (sorted : List α) : Prop where
  perm : sorted.Perm l
  pairwise : sorted.Pairwise fun a b => r (key a) (key b)
  ties : ∀ k, sorted.filter (fun a => decide (key a = k)) = l.filter fun a => decide (key a = k)

/-- Insertion sort is stable: elements of the same key are a sorted sublist. -/
theorem stablySorted_insertionSort [DecidableRel r] [Std.Total r] [IsTrans β r] :
    StablySorted r key l (l.insertionSort fun a b => r (key a) (key b)) := by
  have : Std.Total fun a b => r (key a) (key b) := ⟨fun a b => Std.Total.total (key a) (key b)⟩
  have : IsTrans α fun a b => r (key a) (key b) := ⟨fun _ _ _ h h' => IsTrans.trans _ _ _ h h'⟩
  refine ⟨List.perm_insertionSort _ l, List.pairwise_insertionSort _ l, fun k => ?_⟩
  have hkeys : (l.filter fun a => decide (key a = k)).Pairwise fun a b => r (key a) (key b) := by
    refine List.pairwise_of_forall_mem_list fun a ha b hb => ?_
    have hak := of_decide_eq_true (List.mem_filter.1 ha).2
    have hbk := of_decide_eq_true (List.mem_filter.1 hb).2
    rw [hak, hbk]
    exact (Std.Total.total k k).elim id id
  have hsub := List.sublist_insertionSort hkeys List.filter_sublist
  have hfilter := hsub.filter fun a => decide (key a = k)
  rw [List.filter_filter] at hfilter
  simp only [Bool.and_self] at hfilter
  exact (hfilter.eq_of_length ((List.perm_insertionSort _ l).filter _).length_eq.symm).symm

end StablySorted

/-! ### Descending keys -/

variable (key : α → ℕ)

/-- Sort by descending keys, keeping the order of equal keys. -/
def sortByKey (l : List α) : List α := l.insertionSort fun a b => key b ≤ key a

theorem stablySorted_sortByKey (l : List α) :
    StablySorted (fun k k' => k' ≤ k) key l (sortByKey key l) :=
  stablySorted_insertionSort (fun k k' => k' ≤ k) key l

theorem sortByKey_perm (l : List α) : (sortByKey key l).Perm l :=
  (stablySorted_sortByKey key l).perm

@[simp] theorem mem_sortByKey {l : List α} {a : α} : a ∈ sortByKey key l ↔ a ∈ l :=
  (sortByKey_perm key l).mem_iff

theorem sortByKey_cons (a : α) (l : List α) :
    sortByKey key (a :: l) =
      (sortByKey key l).takeWhile (fun b => decide (key a < key b)) ++
        a :: (sortByKey key l).dropWhile fun b => decide (key a < key b) := by
  unfold sortByKey
  rw [List.insertionSort_cons, List.orderedInsert_eq_take_drop]
  simp only [Nat.not_le]

/-- A list may be sorted before or after it is mapped. -/
theorem map_sortByKey {β : Type*} (f : β → α) (l : List β) :
    (sortByKey (fun b => key (f b)) l).map f = sortByKey key (l.map f) := by
  unfold sortByKey
  exact List.map_insertionSort _ _ f l fun a _ b _ => Iff.rfl

theorem pairwise_sortByKey (l : List α) : (sortByKey key l).Pairwise fun a b => key b ≤ key a :=
  (stablySorted_sortByKey key l).pairwise

/-- Of a list with descending keys, the elements above a bound come first. -/
theorem takeWhile_eq_filter_of_pairwise {key : α → ℕ} {l : List α}
    (h : l.Pairwise fun a b => key b ≤ key a) (n : ℕ) :
    l.takeWhile (fun b => decide (n < key b)) = l.filter (fun b => decide (n < key b)) ∧
      l.dropWhile (fun b => decide (n < key b)) = l.filter fun b => decide (key b ≤ n) := by
  induction l with
  | nil => exact ⟨rfl, rfl⟩
  | cons b l ih =>
    obtain ⟨hb, hl⟩ := List.pairwise_cons.1 h
    by_cases hn : n < key b
    · obtain ⟨htake, hdrop⟩ := ih hl
      have hle : ¬ key b ≤ n := by omega
      simp [hn, hle, htake, hdrop]
    -- From the first small key on, no key is large.
    · have hall : ∀ c ∈ b :: l, key c ≤ n := by
        intro c hc
        rcases List.mem_cons.1 hc with rfl | hc
        · omega
        · have := hb c hc
          omega
      have hnone : (b :: l).filter (fun c => decide (n < key c)) = [] := by
        rw [List.filter_eq_nil_iff]
        intro c hc
        have := hall c hc
        simpa using this
      have hfull : (b :: l).filter (fun c => decide (key c ≤ n)) = b :: l := by
        rw [List.filter_eq_self]
        intro c hc
        simpa using hall c hc
      rw [hnone, hfull]
      simp [hn]

/-- Elements of the same key stay in their order. -/
theorem pairwise_sortByKey_of_pairwise {r : α → α → Prop} {l : List α} (h : l.Pairwise r) :
    (sortByKey key l).Pairwise fun a b => key b < key a ∨ key a = key b ∧ r a b := by
  induction l with
  | nil => exact List.Pairwise.nil
  | cons a l ih =>
    obtain ⟨ha, hl⟩ := List.pairwise_cons.1 h
    have hsorted := ih hl
    obtain ⟨htake, hdrop⟩ := takeWhile_eq_filter_of_pairwise (pairwise_sortByKey key l) (key a)
    rw [sortByKey_cons, htake, hdrop]
    refine List.pairwise_append.2 ⟨hsorted.filter _, List.pairwise_cons.2 ⟨fun c hc => ?_,
      hsorted.filter _⟩, fun b hb c hc => Or.inl ?_⟩
    · obtain ⟨hmem, hle⟩ := List.mem_filter.1 hc
      have hle := of_decide_eq_true hle
      rcases Nat.lt_or_eq_of_le hle with hlt | heq
      · exact Or.inl hlt
      · exact Or.inr ⟨heq.symm, ha c ((mem_sortByKey key).1 hmem)⟩
    · have hab := of_decide_eq_true (List.mem_filter.1 hb).2
      rcases List.mem_cons.1 hc with rfl | hc
      · exact hab
      · have hca := of_decide_eq_true (List.mem_filter.1 hc).2
        omega

section OrderedInsert

variable {r : α → α → Prop} [DecidableRel r]

/-- An element that may stand before `x` is inserted before `x`. -/
theorem orderedInsert_append_cons {a x : α} (h : r a x) (before behind : List α) :
    (before ++ x :: behind).orderedInsert r a = before.orderedInsert r a ++ x :: behind := by
  induction before with
  | nil => simp [List.orderedInsert, h]
  | cons b before ih =>
    by_cases hb : r a b
    · simp [List.orderedInsert, hb]
    · simp [List.orderedInsert, hb, ih]

/-- An element that may stand before none of `before` is inserted behind them. -/
theorem orderedInsert_append {a : α} {before : List α} (h : ∀ b ∈ before, ¬ r a b)
    (behind : List α) :
    (before ++ behind).orderedInsert r a = before ++ behind.orderedInsert r a := by
  induction before with
  | nil => rfl
  | cons b before ih =>
    have hb := h b List.mem_cons_self
    have hrest := ih fun c hc => h c (List.mem_cons_of_mem b hc)
    simp [hb, hrest]

end OrderedInsert

/-- **Where an element comes to stand.**  Before it are the greater ones, and of the equal ones
those that were before it. -/
theorem sortByKey_append_cons (pre : List α) (x : α) (post : List α) :
    ∃ before behind, sortByKey key (pre ++ x :: post) = before ++ x :: behind ∧
      before.Perm (pre.filter (fun b => decide (key x ≤ key b)) ++
        post.filter fun b => decide (key x < key b)) ∧
      behind.Perm (pre.filter (fun b => decide (key b < key x)) ++
        post.filter fun b => decide (key b ≤ key x)) := by
  induction pre with
  | nil =>
    obtain ⟨htake, hdrop⟩ := takeWhile_eq_filter_of_pairwise (pairwise_sortByKey key post) (key x)
    refine ⟨_, _, sortByKey_cons key x post, ?_, ?_⟩
    · rw [htake]
      exact (sortByKey_perm key post).filter _
    · rw [hdrop]
      exact (sortByKey_perm key post).filter _
  | cons a pre ih =>
    obtain ⟨before, behind, hsort, hbefore, hbehind⟩ := ih
    have hinsert : sortByKey key (a :: (pre ++ x :: post)) =
        (before ++ x :: behind).orderedInsert (fun a b => key b ≤ key a) a := by
      rw [← hsort]
      rfl
    rw [List.cons_append, hinsert]
    -- An element of the same key that stood before `x` goes before it: the sort is stable.
    by_cases hax : key x ≤ key a
    · have hneg : ¬ key a < key x := by omega
      refine ⟨before.orderedInsert (fun a b => key b ≤ key a) a, behind,
        orderedInsert_append_cons (r := fun a b => key b ≤ key a) hax before behind, ?_, ?_⟩
      · rw [List.filter_cons_of_pos (by simpa using hax), List.cons_append]
        exact (List.perm_orderedInsert _ a before).trans (hbefore.cons a)
      · rw [List.filter_cons_of_neg (by simpa using hneg)]
        exact hbehind
    · have hpos : key a < key x := by omega
      have hfar : ∀ b ∈ before ++ [x], ¬ key b ≤ key a := by
        intro b hb
        have hxb : key x ≤ key b := by
          rcases List.mem_append.1 hb with hb | hb
          · rcases List.mem_append.1 (hbefore.mem_iff.1 hb) with hb | hb
            · simpa using (List.mem_filter.1 hb).2
            · exact Nat.le_of_lt (by simpa using (List.mem_filter.1 hb).2)
          · rw [List.mem_singleton.1 hb]
        omega
      refine ⟨before, behind.orderedInsert (fun a b => key b ≤ key a) a, ?_, ?_, ?_⟩
      · have h := orderedInsert_append (r := fun a b => key b ≤ key a) hfar behind
        rwa [List.append_assoc, List.append_assoc] at h
      · rw [List.filter_cons_of_neg (by simpa using hax)]
        exact hbefore
      · rw [List.filter_cons_of_pos (by simpa using hpos), List.cons_append]
        exact (List.perm_orderedInsert _ a behind).trans (hbehind.cons a)

/-- An element of a list has a last place in it. -/
theorem exists_last_place {l : List α} {x : α} (h : x ∈ l) :
    ∃ pre post, l = pre ++ x :: post ∧ x ∉ post := by
  obtain ⟨as, bs, hsplit, hnot⟩ := List.eq_append_cons_of_mem (List.mem_reverse.2 h)
  refine ⟨bs.reverse, as.reverse, ?_, by simpa using hnot⟩
  rw [← List.reverse_reverse l, hsplit]
  simp

theorem length_before {x : α} {pre post before : List α}
    (h : before.Perm (pre.filter (fun b => decide (key x ≤ key b)) ++
      post.filter fun b => decide (key x < key b))) :
    before.length = pre.countP (fun b => decide (key x ≤ key b)) +
      post.countP fun b => decide (key x < key b) := by
  rw [h.length_eq, List.length_append, List.countP_eq_length_filter,
    List.countP_eq_length_filter]

variable {key} in
/-- **Who is taken.**  An element is among the first `n` exactly when, of one of its places in the
list, fewer than `n` elements are greater, or equal and earlier. -/
theorem mem_take_sortByKey_iff {l : List α} {x : α} {n : ℕ} :
    x ∈ (sortByKey key l).take n ↔
      ∃ pre post, l = pre ++ x :: post ∧
        pre.countP (fun b => decide (key x ≤ key b)) +
          post.countP (fun b => decide (key x < key b)) < n := by
  constructor
  · intro h
    obtain ⟨pre, post, rfl, hfirst⟩ :=
      List.eq_append_cons_of_mem ((mem_sortByKey key).1 (List.mem_of_mem_take h))
    obtain ⟨before, behind, hsort, hbefore, -⟩ := sortByKey_append_cons key pre x post
    have hnot : x ∉ before := by
      rw [hbefore.mem_iff]
      simp [hfirst]
    refine ⟨pre, post, rfl, ?_⟩
    rw [← length_before key hbefore]
    by_contra hle
    rw [hsort, List.take_append_of_le_length (Nat.not_lt.1 hle)] at h
    exact hnot (List.mem_of_mem_take h)
  · rintro ⟨pre, post, rfl, hn⟩
    obtain ⟨before, behind, hsort, hbefore, -⟩ := sortByKey_append_cons key pre x post
    rw [← length_before key hbefore] at hn
    obtain ⟨d, rfl⟩ : ∃ d, n = before.length + (d + 1) := ⟨n - before.length - 1, by omega⟩
    rw [hsort, List.take_append, List.take_of_length_le (by omega), Nat.add_sub_cancel_left]
    exact List.mem_append_right _ List.mem_cons_self

variable {key} in
/-- **Who is left.**  An element is behind the first `n` exactly when, of one of its places in
the list, `n` elements are greater, or equal and earlier. -/
theorem mem_drop_sortByKey_iff {l : List α} {x : α} {n : ℕ} :
    x ∈ (sortByKey key l).drop n ↔
      ∃ pre post, l = pre ++ x :: post ∧
        n ≤ pre.countP (fun b => decide (key x ≤ key b)) +
          post.countP fun b => decide (key x < key b) := by
  constructor
  · intro h
    obtain ⟨pre, post, rfl, hlast⟩ :=
      exists_last_place ((mem_sortByKey key).1 (List.mem_of_mem_drop h))
    obtain ⟨before, behind, hsort, hbefore, hbehind⟩ :=
      sortByKey_append_cons key pre x post
    have hnot : x ∉ behind := by
      rw [hbehind.mem_iff]
      simp [hlast]
    refine ⟨pre, post, rfl, ?_⟩
    rw [← length_before key hbefore]
    by_contra hlt
    -- Behind more than what stands before it, there is only `behind`.
    obtain ⟨d, rfl⟩ : ∃ d, n = before.length + (d + 1) := ⟨n - before.length - 1, by omega⟩
    rw [hsort, List.drop_append, List.drop_eq_nil_of_le (by omega), Nat.add_sub_cancel_left] at h
    exact hnot (List.mem_of_mem_drop h)
  · rintro ⟨pre, post, rfl, hn⟩
    obtain ⟨before, behind, hsort, hbefore, -⟩ := sortByKey_append_cons key pre x post
    rw [← length_before key hbefore] at hn
    rw [hsort, List.drop_append_of_le_length hn]
    simp

/-- A list that has the greatest keys first is left as it is. -/
theorem sortByKey_of_pairwise {l : List α} (h : l.Pairwise fun a b => key b ≤ key a) :
    sortByKey key l = l :=
  h.insertionSort_eq

/-! ### Ascending keys in any order -/

section Ascending

variable {β : Type*} [LinearOrder β] (key : α → β)

/-- Sort by ascending keys, keeping the order of equal keys. -/
def sortAscending (l : List α) : List α := l.insertionSort fun a b => key a ≤ key b

theorem stablySorted_sortAscending (l : List α) :
    StablySorted (fun k k' => k ≤ k') key l (sortAscending key l) :=
  stablySorted_insertionSort (fun k k' => k ≤ k') key l

theorem sortAscending_perm (l : List α) : (sortAscending key l).Perm l :=
  (stablySorted_sortAscending key l).perm

theorem pairwise_sortAscending (l : List α) :
    (sortAscending key l).Pairwise fun a b => key a ≤ key b :=
  (stablySorted_sortAscending key l).pairwise

/-- Elements of the same key stay in their order. -/
theorem filter_sortAscending (l : List α) (k : β) :
    (sortAscending key l).filter (fun a => decide (key a = k)) =
      l.filter fun a => decide (key a = k) :=
  (stablySorted_sortAscending key l).ties k

/-- The first element is least. -/
theorem mem_and_le_of_head?_sortAscending {l : List α} {a : α}
    (h : (sortAscending key l).head? = some a) : a ∈ l ∧ ∀ b ∈ l, key a ≤ key b := by
  obtain ⟨rest, hsplit⟩ := List.head?_eq_some_iff.1 h
  have hperm := sortAscending_perm key l
  have hsorted := pairwise_sortAscending key l
  rw [hsplit] at hperm hsorted
  refine ⟨hperm.subset List.mem_cons_self, fun b hb => ?_⟩
  rcases List.mem_cons.1 (hperm.mem_iff.2 hb) with rfl | hb
  · exact le_rfl
  · exact (List.pairwise_cons.1 hsorted).1 b hb

variable {key} in
/-- What holds between the elements once one more is put into a list with ascending keys. -/
theorem pairwise_orderedInsert_iff {R : α → α → Prop} {a : α} {l : List α}
    (h : l.Pairwise fun a b => key a ≤ key b) :
    (l.orderedInsert (fun a b => key a ≤ key b) a).Pairwise R ↔
      (∀ b ∈ l, if key a ≤ key b then R a b else R b a) ∧ l.Pairwise R := by
  induction l with
  | nil => simp
  | cons b l ih =>
    obtain ⟨hb, hl⟩ := List.pairwise_cons.1 h
    by_cases hab : key a ≤ key b
    · have hall : ∀ c ∈ b :: l, key a ≤ key c := by
        intro c hc
        rcases List.mem_cons.1 hc with rfl | hc
        · exact hab
        · exact hab.trans (hb c hc)
      rw [List.orderedInsert, if_pos hab, List.pairwise_cons]
      refine and_congr_left fun _ => forall₂_congr fun c hc => ?_
      rw [if_pos (hall c hc)]
    · rw [List.orderedInsert, if_neg hab, List.pairwise_cons, ih hl, List.pairwise_cons,
        List.forall_mem_cons, if_neg hab]
      have hmem : (∀ c ∈ l.orderedInsert (fun a b => key a ≤ key b) a, R b c) ↔
          R b a ∧ ∀ c ∈ l, R b c := by
        simp only [List.mem_orderedInsert, forall_eq_or_imp]
      rw [hmem]
      constructor
      · rintro ⟨⟨hba, hbl⟩, hal, hlR⟩
        exact ⟨⟨hba, hal⟩, hbl, hlR⟩
      · rintro ⟨⟨hba, hal⟩, hbl, hlR⟩
        exact ⟨⟨hba, hbl⟩, hal, hlR⟩

/-- **Pairs of a sorted list.**  What holds between the elements of the sorted list is what holds
between those of the list, once the greater keys stand behind the others. -/
theorem pairwise_sortAscending_iff {R : α → α → Prop} (l : List α) :
    (sortAscending key l).Pairwise R ↔
      l.Pairwise fun a b => if key a ≤ key b then R a b else R b a := by
  induction l with
  | nil => simp [sortAscending]
  | cons a l ih =>
    have hinsert : sortAscending key (a :: l) =
        (sortAscending key l).orderedInsert (fun a b => key a ≤ key b) a := rfl
    rw [hinsert, pairwise_orderedInsert_iff (pairwise_sortAscending key l), ih, List.pairwise_cons]
    refine and_congr_left fun _ => ?_
    simp only [(sortAscending_perm key l).mem_iff]

theorem sortAscending_congr {key' : α → β} {l : List α} (h : ∀ a ∈ l, key a = key' a) :
    sortAscending key l = sortAscending key' l := by
  have hmap := List.map_insertionSort (fun a b => key a ≤ key b) (fun a b => key' a ≤ key' b) id l
    fun a ha b hb => by rw [h a ha, h b hb]; exact Iff.rfl
  rwa [List.map_id, List.map_id] at hmap

end Ascending

/-! ### Sets in ascending order -/

section SortSet

variable {β : Type*} [LinearOrder β] (key : α ↪ β)

/-- The order of the keys. -/
def KeyLe (a b : α) : Prop := key a ≤ key b

instance : DecidableRel (KeyLe key) := fun a b => inferInstanceAs (Decidable (key a ≤ key b))

instance : IsTrans α (KeyLe key) :=
  ⟨fun _ _ _ hab hbc => le_trans (show key _ ≤ key _ from hab) hbc⟩

instance : Std.Antisymm (KeyLe key) := ⟨fun _ _ hab hba => key.injective (le_antisymm hab hba)⟩

instance : Std.Total (KeyLe key) := ⟨fun a b => le_total (key a) (key b)⟩

/-- The elements of a set in the order of their keys. -/
def sortSet (s : Finset α) : List α := s.sort (KeyLe key)

@[simp] theorem mem_sortSet {s : Finset α} {a : α} : a ∈ sortSet key s ↔ a ∈ s :=
  Finset.mem_sort (KeyLe key)

theorem nodup_sortSet (s : Finset α) : (sortSet key s).Nodup := s.sort_nodup (KeyLe key)

theorem pairwise_sortSet (s : Finset α) : (sortSet key s).Pairwise fun a b => key a < key b := by
  refine ((s.pairwise_sort (KeyLe key)).and (nodup_sortSet key s)).imp ?_
  rintro a b ⟨hle, hne⟩
  exact lt_of_le_of_ne hle fun heq => hne (key.injective heq)

@[simp] theorem sortSet_empty : sortSet key ∅ = [] := Finset.sort_empty (KeyLe key)

@[simp] theorem sortSet_singleton (a : α) : sortSet key {a} = [a] :=
  Finset.sort_singleton (KeyLe key) a

end SortSet

end Verif
