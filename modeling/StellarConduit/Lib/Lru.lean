import Mathlib.Data.List.Dedup
import Mathlib.Data.Finset.Card

/-!
# Least-recently-used caches

`LruCache σ K V` is the interface of a cache with states `σ`: create, look up, put, and the
entries in the order of their last use.  `LawfulLruCache` is what such a cache documents:
a successful lookup or a put moves the entry to the front, and a put into a full cache
drops the entry at the back.  `LruMap` adds that entries can be taken out.

The order of use is a function of the keys alone: after the uses `ks` the keys stand in the
order `recency ks`, each at its last use.  `mem_take_recency` reads membership off the
history: `k` is among the `c` most recent keys exactly when fewer than `c` keys were used
since its last use (`UsedWithin`).

A cache has one entry for a key (`nodup_keys_put` and the others), and taking out the keys of some
entries leaves the other entries as they are (`iter_popAll_keys`).

`ListLru` is the cache that stores its entries as a list; it is lawful.
-/

namespace Verif

/-- The interface of a least-recently-used cache. -/
class LruCache (σ : Type) (K V : outParam Type) where
  new : ℕ → σ
  get : σ → K → Option V × σ
  put : σ → K → V → σ
  cap : σ → ℕ
  /-- The entries, the most recently used first. -/
  iter : σ → List (K × V)

/-- The interface of a cache from which entries can be taken out. -/
class LruMap (σ : Type) (K V : outParam Type) extends LruCache σ K V where
  pop : σ → K → Option V × σ
  clear : σ → σ

/-- What a least-recently-used cache documents. -/
class LawfulLruCache (σ : Type) (K V : outParam Type) [DecidableEq K] [LruCache σ K V] :
    Prop where
  cap_new (n : ℕ) : LruCache.cap (LruCache.new n : σ) = n
  iter_new (n : ℕ) : LruCache.iter (LruCache.new n : σ) = []
  get_fst (c : σ) (k : K) : (LruCache.get c k).1 = (LruCache.iter c).lookup k
  cap_get (c : σ) (k : K) : LruCache.cap (LruCache.get c k).2 = LruCache.cap c
  iter_get (c : σ) (k : K) : LruCache.iter (LruCache.get c k).2 =
    match (LruCache.iter c).lookup k with
    | some v => (k, v) :: (LruCache.iter c).filter (fun e => e.1 ≠ k)
    | none => LruCache.iter c
  cap_put (c : σ) (k : K) (v : V) : LruCache.cap (LruCache.put c k v) = LruCache.cap c
  iter_put (c : σ) (k : K) (v : V) : LruCache.iter (LruCache.put c k v) =
    ((k, v) :: (LruCache.iter c).filter (fun e => e.1 ≠ k)).take (LruCache.cap c)

/-- What a least-recently-used cache documents from which entries can be taken out. -/
class LawfulLruMap (σ : Type) (K V : outParam Type) [DecidableEq K] [LruMap σ K V] : Prop
    extends LawfulLruCache σ K V where
  pop_fst (c : σ) (k : K) : (LruMap.pop c k).1 = (LruCache.iter c).lookup k
  cap_pop (c : σ) (k : K) : LruCache.cap (LruMap.pop c k).2 = LruCache.cap c
  iter_pop (c : σ) (k : K) :
    LruCache.iter (LruMap.pop c k).2 = (LruCache.iter c).filter fun e => e.1 ≠ k
  cap_clear (c : σ) : LruCache.cap (LruMap.clear c) = LruCache.cap c
  iter_clear (c : σ) : LruCache.iter (LruMap.clear c) = []

namespace Lru

variable {K V : Type}

/-! ### The order of use -/

/-- A key of a history has a last use. -/
theorem exists_last_use {ks : List K} {k : K} (h : k ∈ ks) :
    ∃ pre post, ks = pre ++ k :: post ∧ k ∉ post := by
  obtain ⟨as, bs, hsplit, hnot⟩ := List.eq_append_cons_of_mem (List.mem_reverse.2 h)
  refine ⟨bs.reverse, as.reverse, ?_, fun hmem => hnot (List.mem_reverse.1 hmem)⟩
  rw [← List.reverse_reverse ks, hsplit]
  simp

/-- What follows the last use of a key follows each of its uses. -/
theorem suffix_of_last_use {pre pre' post post' : List K} {k : K}
    (h : pre ++ k :: post = pre' ++ k :: post') (hk : k ∉ post') : post' <:+ post := by
  have h₁ : k :: post <:+ pre' ++ k :: post' := h ▸ List.suffix_append pre (k :: post)
  have h₂ : post' <:+ pre' ++ k :: post' := ⟨pre' ++ [k], by simp⟩
  rcases List.suffix_or_suffix_of_suffix h₁ h₂ with hle | hle
  · exact absurd (hle.subset List.mem_cons_self) hk
  · rcases List.suffix_cons_iff.1 hle with heq | hle
    · exact absurd (heq ▸ List.mem_cons_self) hk
    · exact hle

variable [DecidableEq K]

/-- The keys of a history of uses, the most recently used first. -/
def recency (ks : List K) : List K := ks.dedup.reverse

@[simp] theorem recency_nil : recency ([] : List K) = [] := rfl

@[simp] theorem mem_recency {ks : List K} {k : K} : k ∈ recency ks ↔ k ∈ ks := by
  rw [recency, List.mem_reverse, List.mem_dedup]

theorem nodup_recency (ks : List K) : (recency ks).Nodup :=
  List.nodup_reverse.2 ks.nodup_dedup

theorem length_recency (ks : List K) : (recency ks).length = ks.toFinset.card := by
  rw [recency, List.length_reverse, List.card_toFinset]

theorem dedup_concat (ks : List K) (k : K) :
    (ks ++ [k]).dedup = ks.dedup.filter (· ≠ k) ++ [k] := by
  induction ks with
  | nil => simp
  | cons x ks ih =>
    rw [List.cons_append, List.dedup_cons, List.dedup_cons, ih]
    by_cases hx : x = k
    · subst hx
      by_cases hmem : x ∈ ks <;> simp [hmem]
    · by_cases hmem : x ∈ ks <;> simp [hx, hmem]

/-- A use moves its key to the front. -/
theorem recency_concat (ks : List K) (k : K) :
    recency (ks ++ [k]) = k :: (recency ks).filter (· ≠ k) := by
  rw [recency, dedup_concat, List.reverse_append, recency, List.filter_reverse]
  rfl

/-- In the order of use, a key comes right after the keys used since its last use. -/
theorem recency_append_cons (pre : List K) {k : K} {post : List K} (hk : k ∉ post) :
    ∃ rest, recency (pre ++ k :: post) = recency post ++ k :: rest := by
  obtain ⟨front, hfront⟩ := List.suffix_union_right pre (k :: post).dedup
  refine ⟨front.reverse, ?_⟩
  rw [recency, List.dedup_append, ← hfront, List.dedup_cons_of_notMem hk, List.reverse_append,
    List.reverse_cons, List.append_assoc]
  rfl

/-- The history `ks` has a use of `k` that fewer than `c` keys followed. -/
def UsedWithin (c : ℕ) (ks : List K) (k : K) : Prop :=
  ∃ pre post, ks = pre ++ k :: post ∧ post.toFinset.card < c

/-- **Membership in a cache of size `c`, read off the history.**  A key is among the `c`
most recent ones exactly when fewer than `c` keys were used since one of its uses. -/
theorem mem_take_recency {ks : List K} {k : K} {c : ℕ} :
    k ∈ (recency ks).take c ↔ UsedWithin c ks k := by
  -- Split at its last use, a key stands behind the distinct keys used since.
  have last : ∀ pre post : List K, k ∉ post →
      (k ∈ (recency (pre ++ k :: post)).take c ↔ post.toFinset.card < c) := by
    intro pre post hk
    obtain ⟨rest, hrest⟩ := recency_append_cons pre hk
    have hnot : k ∉ (recency post).take c := fun hmem =>
      hk (mem_recency.1 (List.mem_of_mem_take hmem))
    rw [hrest, List.take_append, List.mem_append, or_iff_right hnot, length_recency]
    constructor
    · intro hmem
      by_contra hle
      rw [show c - post.toFinset.card = 0 by omega] at hmem
      simp at hmem
    · intro hlt
      rw [show c - post.toFinset.card = (c - post.toFinset.card - 1) + 1 by omega]
      exact List.mem_cons_self
  constructor
  · intro hmem
    obtain ⟨pre, post, rfl, hk⟩ := exists_last_use (mem_recency.1 (List.mem_of_mem_take hmem))
    exact ⟨pre, post, rfl, (last pre post hk).1 hmem⟩
  · rintro ⟨pre, post, hsplit, hlt⟩
    have hks : k ∈ ks := hsplit ▸ List.mem_append_right pre List.mem_cons_self
    obtain ⟨pre', post', hlast, hk⟩ := exists_last_use hks
    have hsub : post'.toFinset ⊆ post.toFinset := fun x hx =>
      List.mem_toFinset.2
        ((suffix_of_last_use (hsplit.symm.trans hlast) hk).subset (List.mem_toFinset.1 hx))
    rw [hlast]
    exact (last pre' post' hk).2 (lt_of_le_of_lt (Finset.card_le_card hsub) hlt)

instance (c : ℕ) (ks : List K) (k : K) : Decidable (UsedWithin c ks k) :=
  decidable_of_iff _ mem_take_recency

/-- In a history of fewer than `c` keys, every use counts. -/
theorem usedWithin_iff_mem {c : ℕ} {ks : List K} {k : K} (h : ks.toFinset.card < c) :
    UsedWithin c ks k ↔ k ∈ ks := by
  constructor
  · rintro ⟨pre, post, rfl, -⟩
    exact List.mem_append_right pre List.mem_cons_self
  · intro hmem
    obtain ⟨pre, post, rfl, -⟩ := exists_last_use hmem
    refine ⟨pre, post, rfl, lt_of_le_of_lt (Finset.card_le_card fun x hx => ?_) h⟩
    simp only [List.mem_toFinset] at hx ⊢
    exact List.mem_append_right pre (List.mem_cons_of_mem k hx)

/-! ### The keys of a cache -/

theorem take_filter_take {l : List K} (hl : l.Nodup) (k : K) (c : ℕ) :
    ((l.take (c + 1)).filter (· ≠ k)).take c = (l.filter (· ≠ k)).take c := by
  induction l generalizing c with
  | nil => simp
  | cons x l ih =>
    obtain ⟨hx, hl⟩ := List.nodup_cons.1 hl
    rw [List.take_succ_cons]
    by_cases hxk : x = k
    · subst hxk
      have hall : ∀ l' : List K, x ∉ l' → l'.filter (· ≠ x) = l' := fun l' hl' =>
        List.filter_eq_self.2 fun y hy => by
          simpa using fun h : y = x => hl' (h ▸ hy)
      rw [List.filter_cons_of_neg (by simp), List.filter_cons_of_neg (by simp),
        hall _ fun h => hx (List.mem_of_mem_take h), hall _ hx, List.take_take, Nat.min_self]
    · rw [List.filter_cons_of_pos (by simpa using hxk),
        List.filter_cons_of_pos (by simpa using hxk)]
      cases c with
      | zero => rfl
      | succ c => rw [List.take_succ_cons, List.take_succ_cons, ih hl c]

/-- Cutting the order of use to `c` keys before a use does not change its first `c` keys
after it. -/
theorem take_cons_filter_take {l : List K} (hl : l.Nodup) (k : K) (c : ℕ) :
    (k :: (l.take c).filter (· ≠ k)).take c = (k :: l.filter (· ≠ k)).take c := by
  cases c with
  | zero => rfl
  | succ c => rw [List.take_succ_cons, List.take_succ_cons, take_filter_take hl]

/-! ### Lookups in a list of entries -/

theorem lookup_eq_none_iff (l : List (K × V)) (k : K) :
    l.lookup k = none ↔ k ∉ l.map Prod.fst := by
  rw [List.lookup_eq_none_iff]
  simp only [List.mem_map, not_exists, not_and, bne_iff_ne, ne_eq]
  exact ⟨fun h e he heq => h e he heq.symm, fun h e he heq => h e he heq.symm⟩

theorem map_fst_filter_ne (l : List (K × V)) (k : K) :
    (l.filter fun e => e.1 ≠ k).map Prod.fst = (l.map Prod.fst).filter (· ≠ k) := by
  rw [List.filter_map]
  rfl

/-! ### Lawful caches -/

section Cache

variable {σ : Type} [LruCache σ K V]

/-- The keys of a cache, the most recently used first. -/
def keys (c : σ) : List K := (LruCache.iter c).map Prod.fst

/-- The keys of `c` are the most recent keys of the history `ks`, as many as fit. -/
def Follows (c : σ) (ks : List K) : Prop :=
  keys c = (recency ks).take (LruCache.cap c)

theorem Follows.mem_keys_iff {c : σ} {ks : List K} (h : Follows c ks) (k : K) :
    k ∈ keys c ↔ UsedWithin (LruCache.cap c) ks k := by
  rw [h]
  exact mem_take_recency

variable [LawfulLruCache σ K V]

theorem get_eq_none_iff (c : σ) (k : K) : (LruCache.get c k).1 = none ↔ k ∉ keys c := by
  rw [LawfulLruCache.get_fst]
  exact lookup_eq_none_iff _ k

theorem keys_get_of_mem {c : σ} {k : K} (h : k ∈ keys c) :
    keys (LruCache.get c k).2 = k :: (keys c).filter (· ≠ k) := by
  have hsome : (LruCache.iter c).lookup k ≠ none := fun hnone =>
    (lookup_eq_none_iff _ k).1 hnone h
  obtain ⟨v, hv⟩ := Option.ne_none_iff_exists'.1 hsome
  rw [keys, LawfulLruCache.iter_get, hv, List.map_cons, map_fst_filter_ne]
  rfl

theorem iter_get_of_notMem {c : σ} {k : K} (h : k ∉ keys c) :
    LruCache.iter (LruCache.get c k).2 = LruCache.iter c := by
  rw [LawfulLruCache.iter_get, (lookup_eq_none_iff _ k).2 h]

theorem keys_put (c : σ) (k : K) (v : V) :
    keys (LruCache.put c k v) = (k :: (keys c).filter (· ≠ k)).take (LruCache.cap c) := by
  rw [keys, LawfulLruCache.iter_put, List.map_take, List.map_cons, map_fst_filter_ne]
  rfl

/-! ### Caches that follow a history -/

theorem follows_new (n : ℕ) : Follows (LruCache.new n : σ) ([] : List K) := by
  rw [Follows, keys, LawfulLruCache.iter_new, recency_nil, List.take_nil, List.map_nil]

/-- A successful lookup is a use of its key. -/
theorem Follows.get {c : σ} {ks : List K} (h : Follows c ks) {k : K} (hk : k ∈ keys c) :
    Follows (LruCache.get c k).2 (ks ++ [k]) := by
  have hnodup : (keys c).Nodup := h ▸ (nodup_recency ks).sublist (List.take_sublist _ _)
  have hlen : (k :: (keys c).filter (· ≠ k)).length ≤ LruCache.cap c := by
    have hlt : ((keys c).filter (· ≠ k)).length < (keys c).length :=
      List.length_filter_lt_length_iff_exists.2 ⟨k, hk, by simp⟩
    have hcap : (keys c).length ≤ LruCache.cap c := by
      rw [h]
      exact List.length_take_le _ _
    rw [List.length_cons]
    omega
  rw [Follows, keys_get_of_mem hk, LawfulLruCache.cap_get, recency_concat,
    ← take_cons_filter_take (nodup_recency ks), ← h, List.take_of_length_le hlen]

/-- An unsuccessful lookup is not a use. -/
theorem Follows.get_of_notMem {c : σ} {ks : List K} (h : Follows c ks) {k : K}
    (hk : k ∉ keys c) : Follows (LruCache.get c k).2 ks := by
  rw [Follows, keys, iter_get_of_notMem hk, LawfulLruCache.cap_get]
  exact h

/-- A put is a use of its key. -/
theorem Follows.put {c : σ} {ks : List K} (h : Follows c ks) (k : K) (v : V) :
    Follows (LruCache.put c k v) (ks ++ [k]) := by
  rw [Follows, keys_put, LawfulLruCache.cap_put, recency_concat,
    ← take_cons_filter_take (nodup_recency ks), ← h]

/-! ### The entries of a cache -/

theorem mem_iter_of_get {c : σ} {k : K} {v : V} (h : (LruCache.get c k).1 = some v) :
    (k, v) ∈ LruCache.iter c := by
  rw [LawfulLruCache.get_fst, List.lookup_eq_some_iff] at h
  obtain ⟨pre, post, hsplit, -⟩ := h
  rw [hsplit]
  exact List.mem_append_right pre List.mem_cons_self

/-- A lookup brings no entry. -/
theorem mem_iter_of_mem_get {c : σ} {k : K} {e : K × V}
    (h : e ∈ LruCache.iter (LruCache.get c k).2) : e ∈ LruCache.iter c := by
  rw [LawfulLruCache.iter_get] at h
  split at h
  next v hv =>
    rcases List.mem_cons.1 h with rfl | h
    · exact mem_iter_of_get (by rw [LawfulLruCache.get_fst, hv])
    · exact List.mem_of_mem_filter h
  next => exact h

/-- A put brings its entry, and keeps entries of other keys only. -/
theorem mem_iter_of_mem_put {c : σ} {k : K} {v : V} {e : K × V}
    (h : e ∈ LruCache.iter (LruCache.put c k v)) :
    e = (k, v) ∨ e ∈ LruCache.iter c ∧ e.1 ≠ k := by
  rw [LawfulLruCache.iter_put] at h
  rcases List.mem_cons.1 (List.mem_of_mem_take h) with rfl | h
  · exact Or.inl rfl
  · exact Or.inr (by simpa using List.mem_filter.1 h)

theorem nodup_keys_new (n : ℕ) : (keys (LruCache.new n : σ)).Nodup := by
  rw [keys, LawfulLruCache.iter_new]
  exact List.nodup_nil

theorem nodup_cons_filter {l : List K} (h : l.Nodup) (k : K) : (k :: l.filter (· ≠ k)).Nodup :=
  List.nodup_cons.2 ⟨fun hmem => by simpa using List.of_mem_filter hmem, h.filter _⟩

theorem nodup_keys_get {c : σ} (h : (keys c).Nodup) (k : K) :
    (keys (LruCache.get c k).2).Nodup := by
  by_cases hk : k ∈ keys c
  · rw [keys_get_of_mem hk]
    exact nodup_cons_filter h k
  · rwa [keys, iter_get_of_notMem hk]

theorem nodup_keys_put {c : σ} (h : (keys c).Nodup) (k : K) (v : V) :
    (keys (LruCache.put c k v)).Nodup := by
  rw [keys_put]
  exact (nodup_cons_filter h k).sublist (List.take_sublist _ _)

end Cache

/-! ### Entries that are taken out -/

section Map

variable {σ : Type} [LruMap σ K V]

/-- Take out the entries of some keys, one by one. -/
def popAll (c : σ) (ks : List K) : σ := ks.foldl (fun c k => (LruMap.pop c k).2) c

variable [LawfulLruMap σ K V]

theorem iter_popAll (c : σ) (ks : List K) :
    LruCache.iter (popAll c ks) = (LruCache.iter c).filter fun e => e.1 ∉ ks := by
  induction ks generalizing c with
  | nil => simp [popAll]
  | cons k ks ih =>
    have hrest := ih (LruMap.pop c k).2
    rw [LawfulLruMap.iter_pop, List.filter_filter] at hrest
    show LruCache.iter (popAll (LruMap.pop c k).2 ks) = _
    rw [hrest]
    apply List.filter_congr
    intro e _
    rw [← Bool.decide_and, decide_eq_decide, List.mem_cons, not_or, and_comm]

/-- Where a key has one entry, the keys of some entries are taken out with these entries alone. -/
theorem filter_notMem_keys {l : List (K × V)} (h : (l.map Prod.fst).Nodup) (p : K × V → Bool) :
    l.filter (fun e => e.1 ∉ (l.filter p).map Prod.fst) = l.filter fun e => !p e := by
  apply List.filter_congr
  intro e he
  have hiff : e.1 ∈ (l.filter p).map Prod.fst ↔ p e = true := by
    constructor
    · intro hmem
      obtain ⟨e', he', hkey⟩ := List.mem_map.1 hmem
      obtain ⟨he', hp⟩ := List.mem_filter.1 he'
      rwa [← List.inj_on_of_nodup_map h he' he hkey]
    · exact fun hp => List.mem_map_of_mem (List.mem_filter.2 ⟨he, hp⟩)
  cases hp : p e <;> simp [hiff, hp]

theorem iter_popAll_keys {c : σ} (h : (keys c).Nodup) (p : K × V → Bool) :
    LruCache.iter (popAll c (((LruCache.iter c).filter p).map Prod.fst)) =
      (LruCache.iter c).filter fun e => !p e := by
  rw [iter_popAll]
  exact filter_notMem_keys h p

theorem nodup_keys_pop {c : σ} (h : (keys c).Nodup) (k : K) : (keys (LruMap.pop c k).2).Nodup := by
  rw [keys, LawfulLruMap.iter_pop, map_fst_filter_ne]
  exact h.filter _

theorem nodup_keys_clear (c : σ) : (keys (LruMap.clear c)).Nodup := by
  rw [keys, LawfulLruMap.iter_clear]
  exact List.nodup_nil

end Map

end Lru

/-! ### A cache that stores its entries as a list -/

/-- A capacity and the entries, the most recently used first. -/
structure ListLru (K V : Type) where
  cap : ℕ
  entries : List (K × V)

namespace ListLru

variable {K V : Type} [DecidableEq K]

instance : LruCache (ListLru K V) K V where
  new n := ⟨n, []⟩
  get c k :=
    match c.entries.lookup k with
    | some v => (some v, ⟨c.cap, (k, v) :: c.entries.filter fun e => e.1 ≠ k⟩)
    | none => (none, c)
  put c k v := ⟨c.cap, ((k, v) :: c.entries.filter fun e => e.1 ≠ k).take c.cap⟩
  cap := ListLru.cap
  iter := ListLru.entries

instance : LawfulLruCache (ListLru K V) K V where
  cap_new _ := rfl
  iter_new _ := rfl
  get_fst c k := by simp only [LruCache.get, LruCache.iter]; cases c.entries.lookup k <;> rfl
  cap_get c k := by simp only [LruCache.get, LruCache.cap]; cases c.entries.lookup k <;> rfl
  iter_get c k := by simp only [LruCache.get, LruCache.iter]; cases c.entries.lookup k <;> rfl
  cap_put _ _ _ := rfl
  iter_put _ _ _ := rfl

instance : LruMap (ListLru K V) K V where
  pop c k := (c.entries.lookup k, ⟨c.cap, c.entries.filter fun e => e.1 ≠ k⟩)
  clear c := ⟨c.cap, []⟩

instance : LawfulLruMap (ListLru K V) K V where
  pop_fst _ _ := rfl
  cap_pop _ _ := rfl
  iter_pop _ _ := rfl
  cap_clear _ := rfl
  iter_clear _ := rfl

end ListLru

end Verif
