import Mathlib.Data.List.Induction
import StellarConduit.Lib.Machine
import StellarConduit.Router.Table

/-!
# Runs of the routing table

The calls on a `RoutingTable` of `router/table.rs`, as a machine.

* `Current calls dest hops`: the calls inserted `hops` for `dest` and nothing else since, and did
  not drop that route;
* `iter_invalidate`: `invalidate` takes out the routes to a peer and through it, and leaves the
  others as they are, in the order of their last use;
* `serves_current`: after any calls a route that the table serves is current.
-/

namespace StellarConduit

open Verif Verif.Machine

inductive RoutingCall
  | lookup (dest : Bytes 32)
  | insert (dest : Bytes 32) (nextHops : List PeerIdentity)
  | refresh (entries : List (Bytes 32 × List PeerIdentity))
  | invalidate (peer : Bytes 32)
  | clear

/-- The route leads to the peer or through it. -/
def Uses (peer : Bytes 32) (route : Bytes 32 × List PeerIdentity) : Prop :=
  route.1 = peer ∨ ∃ hop ∈ route.2, hop.pubkey = peer

instance (peer : Bytes 32) (route : Bytes 32 × List PeerIdentity) : Decidable (Uses peer route) :=
  inferInstanceAs (Decidable (route.1 = peer ∨ ∃ hop ∈ route.2, hop.pubkey = peer))

namespace RoutingCall

/-- What a call inserts for a destination: a `refresh` inserts its entries one by one. -/
def inserts (dest : Bytes 32) : RoutingCall → Option (List PeerIdentity)
  | .insert dest' nextHops => if dest' = dest then some nextHops else none
  | .refresh entries => ((entries.filter fun e => decide (e.1 = dest)).getLast?).map Prod.snd
  | _ => none

/-- The last entry for a destination counts. -/
theorem inserts_refresh_concat (dest : Bytes 32) (entries : List (Bytes 32 × List PeerIdentity))
    (entry : Bytes 32 × List PeerIdentity) :
    (refresh (entries ++ [entry])).inserts dest =
      if entry.1 = dest then some entry.2 else (refresh entries).inserts dest := by
  simp only [inserts, List.filter_append]
  split_ifs with h
  · rw [List.filter_cons_of_pos (by simpa using h)]
    simp
  · rw [List.filter_cons_of_neg (by simpa using h), List.filter_nil, List.append_nil]

/-- The call takes out the route. -/
def Drops (route : Bytes 32 × List PeerIdentity) : RoutingCall → Prop
  | .invalidate peer => Uses peer route
  | .clear => True
  | _ => False

end RoutingCall

/-- The last call that inserted a route to `dest` inserted `hops`, and no later call drops it. -/
def Current (calls : List RoutingCall) (dest : Bytes 32) (hops : List PeerIdentity) : Prop :=
  ∃ earlier call later, calls = earlier ++ call :: later ∧ call.inserts dest = some hops ∧
    ∀ call' ∈ later, call'.inserts dest = none ∧ ¬ call'.Drops (dest, hops)

theorem current_of_inserts (calls : List RoutingCall) {call : RoutingCall} {dest : Bytes 32}
    {hops : List PeerIdentity} (h : call.inserts dest = some hops) :
    Current (calls ++ [call]) dest hops :=
  ⟨calls, call, [], rfl, h, by simp⟩

theorem Current.concat {calls : List RoutingCall} {call : RoutingCall} {dest : Bytes 32}
    {hops : List PeerIdentity} (h : Current calls dest hops) (hinserts : call.inserts dest = none)
    (hdrops : ¬ call.Drops (dest, hops)) : Current (calls ++ [call]) dest hops := by
  obtain ⟨earlier, inserting, later, rfl, hinserting, hlater⟩ := h
  refine ⟨earlier, inserting, later ++ [call], by simp, hinserting, fun call' hcall' => ?_⟩
  rcases List.mem_append.1 hcall' with hcall' | hcall'
  · exact hlater call' hcall'
  · rw [List.mem_singleton.1 hcall']
    exact ⟨hinserts, hdrops⟩

inductive RoutingOutput
  | found (nextHops : Option (List PeerIdentity))
  | done
  deriving DecidableEq

namespace RoutingTable

variable {σ : Type} [LruMap σ (Bytes 32) (List PeerIdentity)]

def step (t : RoutingTable σ) : RoutingCall → RoutingOutput × RoutingTable σ
  | .lookup dest =>
    let (nextHops, t) := t.lookup dest
    (.found nextHops, t)
  | .insert dest nextHops => (.done, t.insert dest nextHops)
  | .refresh entries => (.done, t.refresh entries)
  | .invalidate peer => (.done, t.invalidate peer)
  | .clear => (.done, t.clear)

/-- The routes of a table, the most recently used first. -/
def routes (t : RoutingTable σ) : List (Bytes 32 × List PeerIdentity) := LruCache.iter t.cache

/-- The table is what some calls make of a new one. -/
def Reached (t : RoutingTable σ) : Prop :=
  ∃ capacity metrics calls, exec step (new capacity metrics) calls = t

/-! ### The calls -/

theorem lookup_eq (t : RoutingTable σ) (dest : Bytes 32) :
    (t.lookup dest).1 = (LruCache.get t.cache dest).1 ∧
      (t.lookup dest).2.cache = (LruCache.get t.cache dest).2 := by
  unfold lookup
  split <;> simp_all

variable [LawfulLruMap σ (Bytes 32) (List PeerIdentity)]

/-- One destination has one route. -/
def Distinct (t : RoutingTable σ) : Prop := (t.routes.map Prod.fst).Nodup

/-- `refresh` inserts its entries, each after those before it. -/
theorem mem_refresh {c : σ} {entries : List (Bytes 32 × List PeerIdentity)}
    {route : Bytes 32 × List PeerIdentity}
    (h : route ∈ LruCache.iter (entries.foldl (fun c e => LruCache.put c e.1 e.2) c)) :
    (RoutingCall.refresh entries).inserts route.1 = some route.2 ∨
      route ∈ LruCache.iter c ∧ (RoutingCall.refresh entries).inserts route.1 = none := by
  induction entries using List.reverseRecOn with
  | nil => exact Or.inr ⟨h, rfl⟩
  | append_singleton entries e ih =>
    rw [List.foldl_append] at h
    rw [RoutingCall.inserts_refresh_concat]
    rcases Lru.mem_iter_of_mem_put h with rfl | ⟨h, hne⟩
    · exact Or.inl (if_pos rfl)
    · rw [if_neg (Ne.symm hne)]
      exact ih h

theorem distinct_refresh {c : σ} (h : (Lru.keys c).Nodup)
    (entries : List (Bytes 32 × List PeerIdentity)) :
    (Lru.keys (entries.foldl (fun c e => LruCache.put c e.1 e.2) c)).Nodup := by
  induction entries generalizing c with
  | nil => exact h
  | cons e entries ih => exact ih (Lru.nodup_keys_put h e.1 e.2)

/-- **`invalidate` is exact.**  It takes out the routes to the peer and through it; the other routes
stay, with their hops, in the order of their last use. -/
theorem iter_invalidate {t : RoutingTable σ} (h : t.Distinct) (peer : Bytes 32) :
    (t.invalidate peer).routes = t.routes.filter fun route => decide (¬ Uses peer route) := by
  have hpopped : LruCache.iter (LruMap.pop t.cache peer).2 =
      (LruCache.iter t.cache).filter fun e => e.1 ≠ peer := LawfulLruMap.iter_pop t.cache peer
  have hrest := Lru.iter_popAll_keys (Lru.nodup_keys_pop h peer)
    fun entry => entry.2.any fun hop => decide (hop.pubkey = peer)
  show LruCache.iter (Lru.popAll (LruMap.pop t.cache peer).2 _) = _
  rw [hrest, hpopped, List.filter_filter]
  apply List.filter_congr
  intro route _
  rw [Bool.eq_iff_iff]
  simp [Uses, and_comm]

theorem routes_clear (t : RoutingTable σ) : t.clear.routes = [] := LawfulLruMap.iter_clear t.cache

theorem distinct_invalidate {t : RoutingTable σ} (h : t.Distinct) (peer : Bytes 32) :
    (t.invalidate peer).Distinct := by
  rw [Distinct, iter_invalidate h]
  exact h.sublist (List.filter_sublist.map Prod.fst)

theorem distinct_step {t : RoutingTable σ} (h : t.Distinct) (call : RoutingCall) :
    (t.step call).2.Distinct := by
  cases call with
  | lookup dest =>
    show (Lru.keys (t.lookup dest).2.cache).Nodup
    rw [(t.lookup_eq dest).2]
    exact Lru.nodup_keys_get h dest
  | insert dest nextHops => exact Lru.nodup_keys_put h dest nextHops
  | refresh entries => exact distinct_refresh h entries
  | invalidate peer => exact distinct_invalidate h peer
  | clear => exact Lru.nodup_keys_clear t.cache

theorem distinct_exec (capacity : ℕ) (metrics : RoutingMetrics) (calls : List RoutingCall) :
    (exec step (new capacity metrics : RoutingTable σ) calls).Distinct :=
  exec_invariant Distinct (fun _ call _ h => distinct_step h call) (Lru.nodup_keys_new _)

theorem Reached.distinct {t : RoutingTable σ} (h : t.Reached) : t.Distinct := by
  obtain ⟨capacity, metrics, calls, rfl⟩ := h
  exact distinct_exec capacity metrics calls

/-! ### Runs -/

/-- A route is current after a call, or it was in the table before and the call is no concern of
it. -/
theorem current_step {t : RoutingTable σ} (hdistinct : t.Distinct) {calls : List RoutingCall}
    (hcurrent : ∀ route ∈ t.routes, Current calls route.1 route.2) (call : RoutingCall) :
    ∀ route ∈ (t.step call).2.routes, Current (calls ++ [call]) route.1 route.2 := by
  intro route hroute
  cases call with
  | lookup dest =>
    change route ∈ LruCache.iter (t.lookup dest).2.cache at hroute
    rw [(t.lookup_eq dest).2] at hroute
    exact (hcurrent route (Lru.mem_iter_of_mem_get hroute)).concat rfl not_false
  | insert dest nextHops =>
    rcases Lru.mem_iter_of_mem_put hroute with rfl | ⟨hroute, hne⟩
    · exact current_of_inserts calls (if_pos rfl)
    · exact (hcurrent route hroute).concat (if_neg (Ne.symm hne)) not_false
  | refresh entries =>
    rcases mem_refresh hroute with hinserts | ⟨hroute, hnone⟩
    · exact current_of_inserts calls hinserts
    · exact (hcurrent route hroute).concat hnone not_false
  | invalidate peer =>
    change route ∈ (t.invalidate peer).routes at hroute
    rw [iter_invalidate hdistinct] at hroute
    obtain ⟨hroute, huses⟩ := List.mem_filter.1 hroute
    have hnot : ¬ Uses peer route := by simpa using huses
    exact (hcurrent route hroute).concat rfl hnot
  | clear =>
    change route ∈ t.clear.routes at hroute
    rw [routes_clear] at hroute
    exact absurd hroute List.not_mem_nil

theorem current_exec (capacity : ℕ) (metrics : RoutingMetrics) (calls : List RoutingCall) :
    ∀ route ∈ (exec step (new capacity metrics : RoutingTable σ) calls).routes,
      Current calls route.1 route.2 := by
  induction calls using List.reverseRecOn with
  | nil =>
    intro route hroute
    change route ∈ LruCache.iter (LruCache.new _ : σ) at hroute
    rw [LawfulLruCache.iter_new] at hroute
    exact absurd hroute List.not_mem_nil
  | append_singleton calls call ih =>
    rw [exec_concat]
    exact current_step (distinct_exec capacity metrics calls) ih call

end RoutingTable

open RoutingTable

/-- **No dropped route is served.**  After any calls on a new table, a route that it serves is the
one inserted last, and no call has dropped it since; and `invalidate` takes out the routes to the
peer and through it alone, and leaves the others in their order. -/
theorem serves_current {σ : Type} [LruMap σ (Bytes 32) (List PeerIdentity)]
    [LawfulLruMap σ (Bytes 32) (List PeerIdentity)] (capacity : ℕ) (metrics : RoutingMetrics)
    (calls : List RoutingCall) :
    let t := exec step (new capacity metrics : RoutingTable σ) calls
    (∀ dest hops, (t.lookup dest).1 = some hops → Current calls dest hops) ∧
      ∀ peer, (t.invalidate peer).routes =
        t.routes.filter fun route => decide (¬ Uses peer route) := by
  intro t
  refine ⟨fun dest hops hfound => ?_, fun peer => ?_⟩
  · rw [(t.lookup_eq dest).1] at hfound
    exact current_exec capacity metrics calls (dest, hops) (Lru.mem_iter_of_get hfound)
  · exact iter_invalidate (distinct_exec capacity metrics calls) peer

/-- A table of two routes: the second route to a destination is the one that is current. -/
theorem serves_current_sample :
    let peer : UInt8 → Bytes 32 := fun byte => List.Vector.replicate 32 byte
    let calls : List RoutingCall := [.insert (peer 1) [PeerIdentity.new (peer 5)],
      .refresh [(peer 2, [PeerIdentity.new (peer 6)]), (peer 1, [PeerIdentity.new (peer 7)])],
      .invalidate (peer 6)]
    Current calls (peer 1) [PeerIdentity.new (peer 7)] := by
  intro peer calls
  exact (serves_current (σ := ListLru (Bytes 32) (List PeerIdentity)) 2 RoutingMetrics.new
    calls).1 (peer 1) _ (by decide +kernel)

end StellarConduit
