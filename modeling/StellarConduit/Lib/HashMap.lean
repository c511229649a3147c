import Mathlib.Data.List.AList

/-!
# Finite maps

A hash map is one of Mathlib's association lists with distinct keys.  Lookup, insertion
and removal are `AList.lookup`, `AList.insert` and `AList.erase`; this file adds the
operations that visit every entry, and one lookup lemma for each.  A map with rewritten values
(`mapValues`) is changed as the map itself is.
-/

namespace Verif

/-- A finite map from `K` to `V`. -/
abbrev HashMap (K V : Type*) := AList fun _ : K => V

namespace HashMap

variable {K V : Type*}

/-- The entries left after `f` has rebuilt or dropped each of them. -/
def filterMapEntries (f : K → V → Option V) : List (Σ _ : K, V) → List (Σ _ : K, V)
  | [] => []
  | ⟨k, v⟩ :: l =>
    match f k v with
    | some v' => ⟨k, v'⟩ :: filterMapEntries f l
    | none => filterMapEntries f l

theorem keys_filterMapEntries (f : K → V → Option V) (l : List (Σ _ : K, V)) :
    (filterMapEntries f l).keys.Sublist l.keys := by
  induction l with
  | nil => exact List.Sublist.refl _
  | cons e l ih =>
    obtain ⟨k, v⟩ := e
    unfold filterMapEntries
    cases f k v with
    | none => exact ih.cons k
    | some v' => exact ih.cons_cons k

/-- Rebuild every entry with `f`, dropping those sent to `none`. -/
def filterMap (f : K → V → Option V) (m : HashMap K V) : HashMap K V where
  entries := filterMapEntries f m.entries
  nodupKeys := List.Nodup.sublist (keys_filterMapEntries f m.entries) m.nodupKeys

/-- Keep the entries that satisfy `p`. -/
def retain (p : K → V → Bool) (m : HashMap K V) : HashMap K V :=
  filterMap (fun k v => if p k v then some v else none) m

/-- Rewrite every value with `f`. -/
def mapValues {W : Type*} (f : V → W) (m : HashMap K V) : HashMap K W where
  entries := m.entries.map fun e => ⟨e.1, f e.2⟩
  nodupKeys := by
    have hkeys : (m.entries.map fun e => (⟨e.1, f e.2⟩ : Σ _ : K, W)).keys = m.entries.keys := by
      rw [List.keys, List.map_map]
      rfl
    rw [List.NodupKeys, hkeys]
    exact m.nodupKeys

theorem entries_retain (p : K → V → Bool) (m : HashMap K V) :
    (retain p m).entries = m.entries.filter fun e => p e.1 e.2 := by
  show filterMapEntries _ m.entries = _
  induction m.entries with
  | nil => rfl
  | cons e l ih =>
    unfold filterMapEntries
    cases hp : p e.1 e.2 <;> simp [hp, ih]

theorem mapValues_retain {W : Type*} {f : V → W} {p : K → V → Bool} {q : K → W → Bool}
    (h : ∀ k v, q k (f v) = p k v) (m : HashMap K V) :
    mapValues f (retain p m) = retain q (mapValues f m) := by
  apply AList.ext
  rw [entries_retain]
  show (retain p m).entries.map _ = (m.entries.map _).filter _
  rw [entries_retain, List.filter_map]
  refine congrArg (List.map _) (List.filter_congr fun e _ => ?_)
  exact (h e.1 e.2).symm

variable [DecidableEq K]

/-- Change the value at `k`, if there is one. -/
def modify (k : K) (f : V → V) (m : HashMap K V) : HashMap K V :=
  match m.lookup k with
  | some v => m.insert k (f v)
  | none => m

/-- The value at `k`, which is set to `v` if there is none, and the map afterwards. -/
def orInsert (k : K) (v : V) (m : HashMap K V) : V × HashMap K V :=
  match m.lookup k with
  | some w => (w, m)
  | none => (v, m.insert k v)

theorem dlookup_filterMapEntries (f : K → V → Option V) {l : List (Σ _ : K, V)}
    (hl : l.NodupKeys) (k : K) :
    (filterMapEntries f l).dlookup k = (l.dlookup k).bind (f k) := by
  induction l with
  | nil => rfl
  | cons e l ih =>
    obtain ⟨k', v⟩ := e
    obtain ⟨hnot, hl'⟩ := List.nodupKeys_cons.1 hl
    unfold filterMapEntries
    by_cases hk : k = k'
    · subst hk
      have hnone : l.dlookup k = none := List.dlookup_eq_none.2 hnot
      cases hv : f k v with
      | none => rw [ih hl', hnone, List.dlookup_cons_eq, Option.bind_some, hv]; rfl
      | some v' => rw [List.dlookup_cons_eq, List.dlookup_cons_eq, Option.bind_some, hv]
    · rw [List.dlookup_cons_ne l ⟨k', v⟩ hk]
      cases f k' v with
      | none => exact ih hl'
      | some v' => exact (List.dlookup_cons_ne _ ⟨k', v'⟩ hk).trans (ih hl')

theorem lookup_filterMap (f : K → V → Option V) (m : HashMap K V) (k : K) :
    (filterMap f m).lookup k = (m.lookup k).bind (f k) :=
  dlookup_filterMapEntries f m.nodupKeys k

@[simp] theorem lookup_retain (p : K → V → Bool) (m : HashMap K V) (k : K) :
    (retain p m).lookup k = (m.lookup k).filter (p k) := by
  rw [retain, lookup_filterMap]
  cases m.lookup k <;> rfl

@[simp] theorem lookup_modify_self (k : K) (f : V → V) (m : HashMap K V) :
    (modify k f m).lookup k = (m.lookup k).map f := by
  unfold modify
  cases h : m.lookup k <;> simp [h]

@[simp] theorem lookup_modify_ne {k k' : K} (h : k' ≠ k) (f : V → V) (m : HashMap K V) :
    (modify k f m).lookup k' = m.lookup k' := by
  unfold modify
  cases m.lookup k with
  | none => rfl
  | some v => exact AList.lookup_insert_ne h

theorem orInsert_fst (k : K) (v : V) (m : HashMap K V) :
    (orInsert k v m).1 = (m.lookup k).getD v := by
  unfold orInsert
  cases m.lookup k with
  | none => rfl
  | some w => rfl

theorem lookup_orInsert (k : K) (v : V) (m : HashMap K V) :
    (orInsert k v m).2.lookup k = some (orInsert k v m).1 := by
  unfold orInsert
  cases hk : m.lookup k with
  | none => exact AList.lookup_insert m
  | some w => exact hk

@[simp] theorem lookup_orInsert_ne {k k' : K} (h : k' ≠ k) (v : V) (m : HashMap K V) :
    (orInsert k v m).2.lookup k' = m.lookup k' := by
  unfold orInsert
  cases m.lookup k with
  | none => exact AList.lookup_insert_ne h
  | some w => rfl

/-! ### Rewritten values -/

section MapValues

variable {W : Type*} (f : V → W) (m : HashMap K V)

@[simp] theorem lookup_mapValues (k : K) : (mapValues f m).lookup k = (m.lookup k).map f := by
  show (m.entries.map fun e => (⟨e.1, f e.2⟩ : Σ _ : K, W)).dlookup k = (m.entries.dlookup k).map f
  induction m.entries with
  | nil => rfl
  | cons e l ih =>
    obtain ⟨k', v⟩ := e
    rw [List.map_cons]
    by_cases hk : k = k'
    · subst hk
      rw [List.dlookup_cons_eq, List.dlookup_cons_eq, Option.map_some]
    · rw [List.dlookup_cons_ne _ (⟨k', f v⟩ : Σ _ : K, W) hk,
        List.dlookup_cons_ne _ (⟨k', v⟩ : Σ _ : K, V) hk, ih]

theorem mapValues_orInsert (k : K) (v : V) :
    mapValues f (orInsert k v m).2 = (orInsert k (f v) (mapValues f m)).2 := by
  unfold orInsert
  rw [lookup_mapValues]
  cases hk : m.lookup k with
  | some w => rfl
  | none =>
    have hnot : k ∉ m := AList.lookup_eq_none.1 hk
    have hnot' : k ∉ mapValues f m := by
      rw [← AList.lookup_eq_none, lookup_mapValues, hk, Option.map_none]
    have hentries := AList.entries_insert_of_notMem (b := v) hnot
    apply AList.ext
    refine (congrArg (List.map fun e => (⟨e.1, f e.2⟩ : Σ _ : K, W)) hentries).trans ?_
    exact (AList.entries_insert_of_notMem hnot').symm

theorem mapValues_erase (k : K) : mapValues f (m.erase k) = (mapValues f m).erase k := by
  apply AList.ext
  show (m.entries.kerase k).map _ = (m.entries.map _).kerase k
  induction m.entries with
  | nil => rfl
  | cons e l ih =>
    by_cases hk : k = e.1
    · rw [List.kerase_cons_eq hk, List.map_cons]
      exact (List.kerase_cons_eq (s := (⟨e.1, f e.2⟩ : Σ _ : K, W)) hk).symm
    · rw [List.kerase_cons_ne hk, List.map_cons, List.map_cons, ih]
      exact (List.kerase_cons_ne (s := (⟨e.1, f e.2⟩ : Σ _ : K, W)) hk).symm

end MapValues

/-- Several keys are removed, one after the other. -/
theorem lookup_foldl_erase (m : HashMap K V) (keys : List K) (k : K) :
    (keys.foldl (fun m k => m.erase k) m).lookup k = if k ∈ keys then none else m.lookup k := by
  induction keys generalizing m with
  | nil => simp
  | cons first keys ih =>
    rw [List.foldl_cons, ih]
    by_cases hfirst : k = first
    · subst hfirst
      simp
    · simp [hfirst, AList.lookup_erase_ne hfirst]

end HashMap

end Verif
