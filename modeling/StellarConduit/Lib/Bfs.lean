import Mathlib.Data.ENat.Lattice
import Mathlib.Data.Finset.Card
import Mathlib.Tactic.Common

/-!
# Breadth-first search

Search from one node of a directed graph that is given by the successors `next v` of each node.

* `Walk next u n v`: a walk of `n` steps leads from `u` to `v`; `distance next u v` is the least
  number of steps, `⊤` if no walk leads there;
* `Search`, `Search.discover`, `Search.expand`: the queue and the visited nodes of a search;
* `visits next fuel s`: the nodes that are taken off the queue with their depths, until it is empty;
* `visits_start`: over a finite set of nodes that no step leaves, as much fuel as there are nodes is
  enough, each node is visited at most once, at its distance, and all that can be reached are;
* `nearest next cost u`: the least length of a walk from `u` and the cost of its end, together; if
  each node names a nearest successor, whoever follows them walks such a way
  (`LeastPick.descends`).
-/

namespace Verif.Bfs

variable {V : Type*}

/-! ### Walks -/

/-- A walk of so many steps leads from `u` to a node. -/
inductive Walk (next : V → List V) (u : V) : ℕ → V → Prop
  | refl : Walk next u 0 u
  | tail {n : ℕ} {v w : V} : Walk next u n v → w ∈ next v → Walk next u (n + 1) w

/-- The length of a shortest walk. -/
noncomputable def distance (next : V → List V) (u v : V) : ℕ∞ :=
  ⨅ (n : ℕ) (_ : Walk next u n v), (n : ℕ∞)

variable {next : V → List V}

theorem distance_le {u v : V} {n : ℕ} (h : Walk next u n v) : distance next u v ≤ n :=
  iInf₂_le n h

theorem le_distance_iff {u v : V} {m : ℕ∞} :
    m ≤ distance next u v ↔ ∀ n, Walk next u n v → m ≤ n := le_iInf₂_iff

/-- A node has a distance if and only if some walk leads to it. -/
theorem distance_ne_top_iff {u v : V} : distance next u v ≠ ⊤ ↔ ∃ n, Walk next u n v := by
  constructor
  · intro h
    by_contra hnone
    refine h (top_le_iff.1 (le_distance_iff.2 fun n hwalk => ?_))
    exact absurd ⟨n, hwalk⟩ hnone
  · rintro ⟨n, hwalk⟩ htop
    have hle := distance_le hwalk
    rw [htop] at hle
    exact ENat.natCast_ne_top n (top_le_iff.1 hle)

/-- A walk stays in any set of nodes that no step leaves. -/
theorem mem_of_walk {nodes : Finset V} (hclosed : ∀ v ∈ nodes, ∀ w ∈ next v, w ∈ nodes)
    {u v : V} {n : ℕ} (hu : u ∈ nodes) (h : Walk next u n v) : v ∈ nodes := by
  induction h with
  | refl => exact hu
  | tail _ hmem ih => exact hclosed _ ih _ hmem

theorem Walk.mono {next' : V → List V} (hmem : ∀ v w, w ∈ next v → w ∈ next' v) {u v : V} {n : ℕ}
    (h : Walk next u n v) : Walk next' u n v := by
  induction h with
  | refl => exact .refl
  | tail _ hstep ih => exact .tail ih (hmem _ _ hstep)

/-- A step in front of a walk. -/
theorem Walk.head {u v w : V} {n : ℕ} (hmem : v ∈ next u) (h : Walk next v n w) :
    Walk next u (n + 1) w := by
  induction h with
  | refl => exact .tail .refl hmem
  | tail _ hstep ih => exact .tail ih hstep

/-- A walk begins with a step. -/
theorem Walk.exists_head {u w : V} {n : ℕ} (h : Walk next u (n + 1) w) :
    ∃ v ∈ next u, Walk next v n w := by
  induction n generalizing w with
  | zero =>
    obtain _ | ⟨hnone, hstep⟩ := h
    cases hnone
    exact ⟨w, hstep, .refl⟩
  | succ n ih =>
    obtain _ | ⟨hwalk, hstep⟩ := h
    obtain ⟨v, hv, hrest⟩ := ih hwalk
    exact ⟨v, hv, .tail hrest hstep⟩

/-! ### Going down -/

section Nearest

variable {cost : V → ℕ∞} {u : V}

/-- The least length of a walk, and the cost of the node at its end. -/
noncomputable def nearest (next : V → List V) (cost : V → ℕ∞) (u : V) : ℕ∞ :=
  ⨅ v, distance next u v + cost v

theorem nearest_le {n : ℕ} {v : V} (h : Walk next u n v) : nearest next cost u ≤ n + cost v :=
  (iInf_le _ v).trans (add_le_add_left (distance_le h) _)

theorem nearest_le_cost : nearest next cost u ≤ cost u := by
  have hle : nearest next cost u ≤ (0 : ℕ) + cost u := nearest_le .refl
  simpa using hle

theorem exists_walk_of_distance {v : V} (h : distance next u v ≠ ⊤) :
    ∃ n, Walk next u n v ∧ distance next u v = n := by
  classical
  have hwalk := distance_ne_top_iff.1 h
  refine ⟨Nat.find hwalk, Nat.find_spec hwalk, ?_⟩
  refine le_antisymm (distance_le (Nat.find_spec hwalk)) (le_distance_iff.2 fun n hn => ?_)
  exact Nat.cast_le.2 (Nat.find_min' hwalk hn)

theorem exists_walk_of_nearest (h : nearest next cost u ≠ ⊤) :
    ∃ n v, Walk next u n v ∧ nearest next cost u = n + cost v := by
  have : Nonempty V := ⟨u⟩
  obtain ⟨v, hv⟩ := ENat.exists_eq_iInf fun v => distance next u v + cost v
  have hreached : distance next u v ≠ ⊤ := by
    intro htop
    refine h ?_
    unfold nearest
    rw [← hv, htop, top_add]
  obtain ⟨n, hwalk, hdistance⟩ := exists_walk_of_distance hreached
  refine ⟨n, v, hwalk, ?_⟩
  rw [← hdistance]
  exact hv.symm

theorem nearest_le_of_mem {v : V} (hv : v ∈ next u) :
    nearest next cost u ≤ nearest next cost v + 1 := by
  rcases eq_or_ne (nearest next cost v) ⊤ with htop | hfinite
  · rw [htop, top_add]
    exact le_top
  · obtain ⟨n, w, hwalk, hnearest⟩ := exists_walk_of_nearest hfinite
    rw [hnearest, add_right_comm]
    exact_mod_cast nearest_le (hwalk.head hv)

theorem le_nearest_iff {m : ℕ∞} :
    m ≤ nearest next cost u ↔ ∀ n v, Walk next u n v → m ≤ n + cost v := by
  constructor
  · exact fun h n v hwalk => h.trans (nearest_le hwalk)
  · intro h
    rcases eq_or_ne (nearest next cost u) ⊤ with htop | hfinite
    · rw [htop]
      exact le_top
    · obtain ⟨n, v, hwalk, hnearest⟩ := exists_walk_of_nearest hfinite
      rw [hnearest]
      exact h n v hwalk

/-- A node has the least cost itself, or one of its successors is nearer by one. -/
theorem nearest_cases (u : V) :
    nearest next cost u = cost u ∨
      ∃ v ∈ next u, nearest next cost u = nearest next cost v + 1 := by
  rcases eq_or_ne (nearest next cost u) ⊤ with htop | hfinite
  · exact .inl (htop.trans (top_le_iff.1 (htop.symm.trans_le nearest_le_cost)).symm)
  obtain ⟨n, w, hwalk, hnearest⟩ := exists_walk_of_nearest hfinite
  cases n with
  | zero =>
    cases hwalk
    exact .inl (by simpa using hnearest)
  | succ n =>
    obtain ⟨v, hv, hrest⟩ := hwalk.exists_head
    refine .inr ⟨v, hv, (nearest_le_of_mem hv).antisymm ?_⟩
    rw [hnearest, Nat.cast_succ, add_right_comm]
    exact add_le_add_left (nearest_le hrest) 1

/-- Every one of the nodes that has successors names a nearest one. -/
structure LeastPick (next : V → List V) (cost : V → ℕ∞) (pick : V → Option V) (nodes : Set V) :
    Prop where
  closed : ∀ {u v}, u ∈ nodes → v ∈ next u → v ∈ nodes
  mem : ∀ {u v}, u ∈ nodes → pick u = some v → v ∈ next u
  least : ∀ {u v w}, u ∈ nodes → pick u = some v → w ∈ next u →
    nearest next cost v ≤ nearest next cost w
  names : ∀ {u w}, u ∈ nodes → w ∈ next u → pick u ≠ none

variable {pick : V → Option V}

/-- The nodes `path` lead from `u` to `v` in `n` steps, each nearer than the one before. -/
structure Descends (next : V → List V) (cost : V → ℕ∞) (pick : V → Option V) (u : V) (n : ℕ)
    (v : V) (path : List V) : Prop where
  head : path.head? = some u
  last : path.getLast? = some v
  length : path.length = n + 1
  steps : path.IsChain fun a b => pick a = some b
  nearer : path.Pairwise fun a b => nearest next cost b < nearest next cost a
  cost : nearest next cost u = n + cost v

theorem Descends.cons {n e : ℕ} {v w : V} {path : List V}
    (h : Descends next cost pick w n v path) (hpick : pick u = some w)
    (hw : nearest next cost w = e) (hone : nearest next cost u = nearest next cost w + 1) :
    Descends next cost pick u (n + 1) v (u :: path) := by
  obtain ⟨rest, rfl⟩ := List.head?_eq_some_iff.1 h.head
  have hlt : nearest next cost w < nearest next cost u := by
    rw [hone, hw]
    exact_mod_cast Nat.lt_succ_self e
  refine ⟨rfl, ?_, by rw [List.length_cons, h.length],
    List.isChain_cons_cons.2 ⟨hpick, h.steps⟩, List.pairwise_cons.2 ⟨?_, h.nearer⟩, ?_⟩
  · rw [List.getLast?_cons_cons]
    exact h.last
  · intro x hx
    rcases List.mem_cons.1 hx with rfl | hx
    · exact hlt
    · exact ((List.pairwise_cons.1 h.nearer).1 x hx).trans hlt
  · rw [hone, h.cost, Nat.cast_succ, add_right_comm]

/-- **Going down.**  Whoever follows nearest successors walks to a node of the least cost, the
length of the walk included. -/
theorem LeastPick.descends {nodes : Set V} (h : LeastPick next cost pick nodes) (hu : u ∈ nodes)
    {d : ℕ} (hd : nearest next cost u = d) :
    ∃ n v path, Descends next cost pick u n v path := by
  induction d using Nat.strong_induction_on generalizing u with
  | _ d ih =>
    rcases nearest_cases u with hcost | ⟨v, hv, hstep⟩
    · exact ⟨0, u, [u], rfl, rfl, rfl, List.isChain_singleton u, List.pairwise_singleton _ u, by
        rw [hcost, Nat.cast_zero, zero_add]⟩
    -- What is named is as near as `v`, so that it is nearer than `u` by one.
    obtain ⟨w, hpick⟩ := Option.ne_none_iff_exists'.1 (h.names hu hv)
    have hone : nearest next cost u = nearest next cost w + 1 := by
      refine (nearest_le_of_mem (h.mem hu hpick)).antisymm ?_
      rw [hstep]
      exact add_le_add_left (h.least hu hpick hv) 1
    have hfinite : nearest next cost w ≠ ⊤ := by
      intro htop
      rw [hone, htop, top_add] at hd
      cases hd
    obtain ⟨e, he⟩ := ENat.ne_top_iff_exists.1 hfinite
    have hlt : e < d := by
      rw [hone, ← he] at hd
      have hsucc : e + 1 = d := by exact_mod_cast hd
      omega
    obtain ⟨n, x, path, hrest⟩ := ih e hlt (h.closed hu (h.mem hu hpick)) he.symm
    exact ⟨n + 1, x, u :: path, hrest.cons hpick he.symm hone⟩

end Nearest

/-! ### The search -/

variable [DecidableEq V]

/-- The nodes that wait, each with its depth, and those that were ever put into the queue. -/
structure Search (V : Type*) where
  queue : List (V × ℕ)
  visited : Finset V

namespace Search

def start (u : V) : Search V := ⟨[(u, 0)], {u}⟩

/-- A node that was not visited yet is put into the queue. -/
def discover (depth : ℕ) (s : Search V) (v : V) : Search V :=
  if v ∈ s.visited then s else ⟨s.queue ++ [(v, depth)], insert v s.visited⟩

/-- The successors of a node are discovered one after the other. -/
def expand (next : V → List V) (s : Search V) (v : V) (depth : ℕ) : Search V :=
  (next v).foldl (discover (depth + 1)) s

end Search

/-- What is taken off the queue until it is empty; `none` if the fuel does not last. -/
def visits (next : V → List V) : ℕ → Search V → Option (List (V × ℕ))
  | fuel, s =>
    match s.queue with
    | [] => some []
    | (v, depth) :: queue =>
      match fuel with
      | 0 => none
      | fuel + 1 =>
        (visits next fuel (Search.expand next ⟨queue, s.visited⟩ v depth)).map ((v, depth) :: ·)

namespace Search

/-- What a row of nodes adds to the queue: those not visited yet, each once. -/
theorem foldl_discover (depth : ℕ) (s : Search V) (row : List V) :
    ∃ new : List V, new.Nodup ∧ (∀ v ∈ new, v ∈ row ∧ v ∉ s.visited) ∧
      (∀ v ∈ row, v ∈ s.visited ∨ v ∈ new) ∧
      (row.foldl (discover depth) s).queue = s.queue ++ (new.map fun v => (v, depth)) ∧
      (row.foldl (discover depth) s).visited = s.visited ∪ new.toFinset := by
  induction row generalizing s with
  | nil => exact ⟨[], by simp⟩
  | cons v row ih =>
    rw [List.foldl_cons]
    by_cases hv : v ∈ s.visited
    · obtain ⟨new, hnodup, hnew, hrow, hqueue, hvisited⟩ := ih s
      rw [discover, if_pos hv]
      refine ⟨new, hnodup, fun w hw => ⟨List.mem_cons_of_mem v (hnew w hw).1, (hnew w hw).2⟩, ?_,
        hqueue, hvisited⟩
      intro w hw
      rcases List.mem_cons.1 hw with rfl | hw
      · exact .inl hv
      · exact hrow w hw
    -- The vertex is new; the rest of the row is discovered after it.
    · rw [discover, if_neg hv]
      obtain ⟨new, hnodup, hnew, hrow, hqueue, hvisited⟩ :=
        ih ⟨s.queue ++ [(v, depth)], insert v s.visited⟩
      refine ⟨v :: new, ?_, ?_, ?_, ?_, ?_⟩
      · refine List.nodup_cons.2 ⟨fun hmem => (hnew v hmem).2 ?_, hnodup⟩
        exact Finset.mem_insert_self v _
      · intro w hw
        rcases List.mem_cons.1 hw with rfl | hw
        · exact ⟨List.mem_cons_self, hv⟩
        · obtain ⟨hrow, hnot⟩ := hnew w hw
          exact ⟨List.mem_cons_of_mem v hrow, fun h => hnot (Finset.mem_insert_of_mem h)⟩
      · intro w hw
        rcases List.mem_cons.1 hw with rfl | hw
        · exact .inr List.mem_cons_self
        · rcases hrow w hw with h | h
          · rcases Finset.mem_insert.1 h with rfl | h
            · exact .inr List.mem_cons_self
            · exact .inl h
          · exact .inr (List.mem_cons_of_mem v h)
      · rw [hqueue, List.map_cons, List.append_assoc]
        rfl
      · rw [hvisited, List.toFinset_cons, Finset.insert_union, Finset.union_insert]

end Search

/-- What holds of a search from `u` after the nodes `done` were taken off the queue. -/
structure Invariant (next : V → List V) (u : V) (done : List (V × ℕ)) (s : Search V) : Prop where
  /-- every node was put into the queue once -/
  nodup : ((done ++ s.queue).map Prod.fst).Nodup
  visited : s.visited = ((done ++ s.queue).map Prod.fst).toFinset
  start : (u, 0) ∈ done ++ s.queue
  walk : ∀ item ∈ done ++ s.queue, Walk next u item.2 item.1
  /-- the queue is in the order of the depths -/
  sorted : s.queue.Pairwise fun item item' => item.2 ≤ item'.2
  /-- of two depths, one of them waiting, it is the lesser by one at most -/
  level : ∀ item ∈ done ++ s.queue, ∀ waiting ∈ s.queue, item.2 ≤ waiting.2 + 1
  /-- what a node that was taken off leads to has been found -/
  closed : ∀ item ∈ done, ∀ v ∈ next item.1, ∃ depth ≤ item.2 + 1, (v, depth) ∈ done ++ s.queue

theorem invariant_start (u : V) : Invariant next u [] (Search.start u) where
  nodup := List.nodup_singleton u
  visited := rfl
  start := List.mem_singleton_self _
  walk := by
    intro item hitem
    rw [List.mem_singleton.1 hitem]
    exact .refl
  sorted := List.pairwise_singleton _ _
  level := by
    intro item hitem waiting hwaiting
    rw [List.mem_singleton.1 hitem]
    exact Nat.zero_le _
  closed := by simp

/-- **One round.**  The front of the queue is taken off, and what it leads to is discovered. -/
theorem Invariant.expand {u v : V} {depth : ℕ} {done queue : List (V × ℕ)} {visited : Finset V}
    (h : Invariant next u done ⟨(v, depth) :: queue, visited⟩) :
    Invariant next u (done ++ [(v, depth)])
      (Search.expand next ⟨queue, visited⟩ v depth) := by
  obtain ⟨new, hnodup, hnew, hrow, hqueue, hvisited⟩ :=
    Search.foldl_discover (depth + 1) ⟨queue, visited⟩ (next v)
  -- The items are those there were, and the new ones behind them.
  have hall : done ++ [(v, depth)] ++ (Search.expand next ⟨queue, visited⟩ v depth).queue =
      (done ++ (v, depth) :: queue) ++ new.map fun w => (w, depth + 1) := by
    rw [Search.expand, hqueue]
    simp
  have hfst : (new.map fun w => (w, depth + 1)).map Prod.fst = new := by
    rw [List.map_map]
    exact List.map_id new
  have hfront : (v, depth) ∈ done ++ (v, depth) :: queue :=
    List.mem_append_right _ List.mem_cons_self
  constructor
  case nodup =>
    rw [hall, List.map_append, hfst]
    refine List.Nodup.append h.nodup hnodup fun w hold hmem => (hnew w hmem).2 ?_
    rw [h.visited]
    exact List.mem_toFinset.2 hold
  case visited =>
    rw [hall, List.map_append, hfst, List.toFinset_append, ← h.visited]
    exact hvisited
  case start =>
    rw [hall]
    exact List.mem_append_left _ h.start
  case walk =>
    rw [hall]
    intro item hitem
    rcases List.mem_append.1 hitem with hold | hitem
    · exact h.walk item hold
    · obtain ⟨w, hw, rfl⟩ := List.mem_map.1 hitem
      exact .tail (h.walk _ hfront) (hnew w hw).1
  case sorted =>
    rw [Search.expand, hqueue]
    refine List.pairwise_append.2 ⟨(List.pairwise_cons.1 h.sorted).2, ?_, ?_⟩
    · rw [List.pairwise_map]
      exact List.pairwise_of_forall fun _ _ => Nat.le_refl _
    · intro item hitem item' hitem'
      obtain ⟨w, -, rfl⟩ := List.mem_map.1 hitem'
      exact h.level item (List.mem_append_right _ (List.mem_cons_of_mem _ hitem)) _
        List.mem_cons_self
  case level =>
    rw [hall]
    -- Nothing is deeper than the new items, and nothing that waits is higher than the front.
    have hdeep : ∀ item ∈ (done ++ (v, depth) :: queue) ++ new.map fun w => (w, depth + 1),
        item.2 ≤ depth + 1 := by
      intro item hitem
      rcases List.mem_append.1 hitem with hold | hitem
      · exact h.level item hold _ List.mem_cons_self
      · obtain ⟨w, -, rfl⟩ := List.mem_map.1 hitem
        exact Nat.le_refl _
    intro item hitem waiting hwaiting
    have hle := hdeep item hitem
    rw [Search.expand, hqueue] at hwaiting
    rcases List.mem_append.1 hwaiting with hwaiting | hwaiting
    · have hfirst := (List.pairwise_cons.1 h.sorted).1 waiting hwaiting
      dsimp only at hfirst
      omega
    · obtain ⟨w, -, rfl⟩ := List.mem_map.1 hwaiting
      dsimp only
      omega
  case closed =>
    rw [hall]
    intro item hitem w hw
    rcases List.mem_append.1 hitem with hitem | hitem
    · obtain ⟨d, hd, hmem⟩ := h.closed item hitem w hw
      exact ⟨d, hd, List.mem_append_left _ hmem⟩
    · rw [List.mem_singleton.1 hitem] at hw ⊢
      rcases hrow w hw with hold | hmem
      · change w ∈ visited at hold
        rw [show visited = _ from h.visited, List.mem_toFinset] at hold
        obtain ⟨⟨w, d⟩, hmem, rfl⟩ := List.mem_map.1 hold
        exact ⟨d, h.level _ hmem _ List.mem_cons_self, List.mem_append_left _ hmem⟩
      · exact ⟨depth + 1, Nat.le_refl _,
          List.mem_append_right _ (List.mem_map.2 ⟨w, hmem, rfl⟩)⟩

/-- With an empty queue, every walk leads to a node that was taken off no deeper. -/
theorem Invariant.exists_of_walk {u v : V} {done : List (V × ℕ)} {visited : Finset V} {n : ℕ}
    (h : Invariant next u done ⟨[], visited⟩) (hwalk : Walk next u n v) :
    ∃ depth ≤ n, (v, depth) ∈ done := by
  have hdone : done ++ (⟨[], visited⟩ : Search V).queue = done := List.append_nil done
  induction hwalk with
  | refl => exact ⟨0, Nat.le_refl 0, hdone ▸ h.start⟩
  | tail hwalk hmem ih =>
    obtain ⟨depth, hle, hitem⟩ := ih
    obtain ⟨depth', hle', hitem'⟩ := h.closed _ hitem _ hmem
    rw [hdone] at hitem'
    exact ⟨depth', hle'.trans (Nat.succ_le_succ hle), hitem'⟩

/-- With an empty queue, the nodes taken off are the nodes that can be reached, at their
distances. -/
theorem Invariant.mem_done_iff {u v : V} {done : List (V × ℕ)} {visited : Finset V} {depth : ℕ}
    (h : Invariant next u done ⟨[], visited⟩) :
    (v, depth) ∈ done ↔ distance next u v = depth := by
  have hdone : done ++ (⟨[], visited⟩ : Search V).queue = done := List.append_nil done
  have hnodup : (done.map Prod.fst).Nodup := hdone ▸ h.nodup
  -- A node that was taken off has no shorter walk, since it was taken off only once.
  have hexact : ∀ d, (v, d) ∈ done → distance next u v = d := by
    intro d hmem
    refine le_antisymm (distance_le (h.walk (v, d) (hdone.symm ▸ hmem))) ?_
    rw [le_distance_iff]
    intro n hwalk
    obtain ⟨d', hle, hmem'⟩ := h.exists_of_walk hwalk
    have heq : (v, d) = (v, d') := List.inj_on_of_nodup_map hnodup hmem hmem' rfl
    rw [Prod.mk.injEq] at heq
    exact_mod_cast heq.2.le.trans hle
  constructor
  · exact hexact depth
  · intro hdistance
    have hreach : distance next u v ≠ ⊤ := by
      rw [hdistance]
      exact ENat.natCast_ne_top depth
    obtain ⟨n, hwalk⟩ := distance_ne_top_iff.1 hreach
    obtain ⟨d, -, hmem⟩ := h.exists_of_walk hwalk
    have heq : (d : ℕ∞) = depth := (hexact d hmem).symm.trans hdistance
    rwa [← ENat.natCast_inj.1 heq]

section Universe

variable {nodes : Finset V}

/-- While something waits, fewer nodes were taken off than there are. -/
theorem Invariant.length_lt (hclosed : ∀ v ∈ nodes, ∀ w ∈ next v, w ∈ nodes) {u : V}
    (hu : u ∈ nodes) {done : List (V × ℕ)} {s : Search V} (h : Invariant next u done s)
    (hqueue : s.queue ≠ []) : done.length < nodes.card := by
  have hsub : ((done ++ s.queue).map Prod.fst).toFinset ⊆ nodes := by
    intro v hv
    obtain ⟨item, hitem, rfl⟩ := List.mem_map.1 (List.mem_toFinset.1 hv)
    exact mem_of_walk hclosed hu (h.walk item hitem)
  have hcard := Finset.card_le_card hsub
  rw [List.toFinset_card_of_nodup h.nodup, List.length_map, List.length_append] at hcard
  have hpos := List.length_pos_iff.2 hqueue
  omega

/-- **Termination.**  Fuel for the nodes that are left brings the search to an empty queue. -/
theorem Invariant.visits (hclosed : ∀ v ∈ nodes, ∀ w ∈ next v, w ∈ nodes) {u : V}
    (hu : u ∈ nodes) {fuel : ℕ} {done : List (V × ℕ)} {s : Search V}
    (h : Invariant next u done s) (hfuel : nodes.card ≤ fuel + done.length) :
    ∃ items visited, Bfs.visits next fuel s = some items ∧
      Invariant next u (done ++ items) ⟨[], visited⟩ := by
  induction fuel generalizing done s with
  | zero =>
    obtain ⟨queue, visited⟩ := s
    cases queue with
    | nil => exact ⟨[], visited, rfl, by rwa [List.append_nil]⟩
    | cons item queue =>
      have := h.length_lt hclosed hu (List.cons_ne_nil item queue)
      omega
  | succ fuel ih =>
    obtain ⟨queue, visited⟩ := s
    cases queue with
    | nil => exact ⟨[], visited, rfl, by rwa [List.append_nil]⟩
    | cons item queue =>
      obtain ⟨v, depth⟩ := item
      have hfuel' : nodes.card ≤ fuel + (done ++ [(v, depth)]).length := by
        rw [List.length_append, List.length_singleton]
        omega
      obtain ⟨items, visited', hvisits, hlast⟩ := ih h.expand hfuel'
      refine ⟨(v, depth) :: items, visited', ?_, ?_⟩
      · show (Bfs.visits next fuel _).map _ = _
        rw [hvisits]
        rfl
      · rwa [List.append_assoc] at hlast

/-- **Breadth-first search.**  It visits the nodes that can be reached, each at its distance. -/
theorem visits_start (hclosed : ∀ v ∈ nodes, ∀ w ∈ next v, w ∈ nodes) {u : V} (hu : u ∈ nodes)
    {fuel : ℕ} (hfuel : nodes.card ≤ fuel) :
    ∃ items, visits next fuel (Search.start u) = some items ∧
      ∀ v depth, (v, depth) ∈ items ↔ distance next u v = depth := by
  obtain ⟨items, visited, hvisits, hinvariant⟩ :=
    (invariant_start u).visits hclosed hu hfuel
  exact ⟨items, hvisits, fun v depth => hinvariant.mem_done_iff⟩

end Universe

end Verif.Bfs
