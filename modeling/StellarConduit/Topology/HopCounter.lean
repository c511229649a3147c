import StellarConduit.Lib.HashMap
import StellarConduit.Lib.Machine
import StellarConduit.Topology.Events

/-!
# The hop counter

`HopCounter` of `topology/hop_counter.rs`: what every peer last said of its distance to a relay,
255 hops standing for none, and a subscriber who learns from the bus whether some relay can be
reached.

* `reachable_updateDistance`: one call, and what it publishes;
* `RelayWatch.upToDate_iff`: the subscriber, once it has received what waits for it, knows whether
  some peer has a distance below 255.
-/

namespace StellarConduit

open Verif
open Verif.Machine (exec trace exec_concat event_mem_trace)

structure HopCounter where
  peerDistances : HashMap (Bytes 32) UInt8

namespace HopCounter

def new : HopCounter := ⟨∅⟩

/-- Some peer has a distance below 255. -/
def HasAnyFinite (hc : HopCounter) : Prop :=
  ∃ peer, ∃ hops ∈ hc.peerDistances.lookup peer, hops < 255

/-- `values().any(|&h| h < 255)` -/
def hasAnyFinite (hc : HopCounter) : Bool :=
  hc.peerDistances.entries.any fun entry => decide (entry.2 < 255)

theorem hasAnyFinite_iff (hc : HopCounter) : hc.hasAnyFinite = true ↔ hc.HasAnyFinite := by
  unfold hasAnyFinite HasAnyFinite
  rw [List.any_eq_true]
  constructor
  · rintro ⟨⟨peer, hops⟩, hentry, hfinite⟩
    exact ⟨peer, hops, AList.mem_lookup_iff.2 hentry, of_decide_eq_true hfinite⟩
  · rintro ⟨peer, hops, hlookup, hfinite⟩
    exact ⟨⟨peer, hops⟩, AList.mem_lookup_iff.1 hlookup, decide_eq_true hfinite⟩

instance (hc : HopCounter) : Decidable hc.HasAnyFinite :=
  decidable_of_iff _ hc.hasAnyFinite_iff

def updateDistance (hc : HopCounter) (peer : Bytes 32) (hops : UInt8)
    (eventBus : Option TopologyEventBus) : HopCounter × Option TopologyEventBus :=
  let oldHops := (hc.peerDistances.lookup peer).getD 255
  let hc : HopCounter := { hc with peerDistances := hc.peerDistances.insert peer hops }
  let eventBus := eventBus.map fun bus =>
    let bus :=
      if oldHops = 255 ∧ hops < 255 then bus.publish (.relayReachabilityGained peer hops) else bus
    if oldHops < 255 ∧ hops = 255 then
      if hc.hasAnyFinite then bus else bus.publish .relayReachabilityLost
    else
      bus
  (hc, eventBus)

/-- The counter that a call leaves behind. -/
def setDistance (hc : HopCounter) (peer : Bytes 32) (hops : UInt8) : HopCounter :=
  { hc with peerDistances := hc.peerDistances.insert peer hops }

/-- What a call publishes. -/
def updateEvents (hc : HopCounter) (peer : Bytes 32) (hops : UInt8) : List TopologyEvent :=
  let oldHops := (hc.peerDistances.lookup peer).getD 255
  (if oldHops = 255 ∧ hops < 255 then [.relayReachabilityGained peer hops] else []) ++
    if oldHops < 255 ∧ hops = 255 ∧ ¬ (hc.setDistance peer hops).HasAnyFinite then
      [.relayReachabilityLost]
    else
      []

theorem lt_255_of_ne {hops : UInt8} (h : hops ≠ 255) : hops < 255 := by
  have := hops.toNat_lt
  rw [UInt8.lt_iff_toNat_lt]
  have hne : hops.toNat ≠ 255 := fun heq => h (UInt8.toNat_inj.1 heq)
  change hops.toNat < 255
  omega

section Update

variable (hc : HopCounter) (peer : Bytes 32) (hops : UInt8)

theorem updateDistance_some (bus : TopologyEventBus) :
    hc.updateDistance peer hops (some bus) =
      (hc.setDistance peer hops, some (bus.publishAll (hc.updateEvents peer hops))) := by
  unfold updateDistance updateEvents
  dsimp only [Option.map_some]
  change (hc.setDistance peer hops, _) = _
  refine congrArg (fun bus => (hc.setDistance peer hops, some bus)) ?_
  change (if _ then if (hc.setDistance peer hops).hasAnyFinite then _ else _ else _) = _
  rw [Receiver.publishAll, List.foldl_append]
  simp only [hasAnyFinite_iff, ← and_assoc, ite_and, ite_not]
  split_ifs <;> rfl

theorem hasAnyFinite_setDistance_of_lt (h : hops < 255) :
    (hc.setDistance peer hops).HasAnyFinite :=
  ⟨peer, hops, AList.lookup_insert hc.peerDistances, h⟩

/-- Where a peer had no finite distance and gets none, nothing changes. -/
theorem hasAnyFinite_setDistance_of_eq (hold : (hc.peerDistances.lookup peer).getD 255 = 255)
    (h : hops = 255) : (hc.setDistance peer hops).HasAnyFinite ↔ hc.HasAnyFinite := by
  subst h
  unfold HasAnyFinite setDistance
  refine exists_congr fun other => ?_
  by_cases hother : other = peer
  · subst hother
    rw [AList.lookup_insert]
    cases hlookup : hc.peerDistances.lookup other with
    | none => simp
    | some old =>
      rw [hlookup, Option.getD_some] at hold
      simp [hold]
  · rw [AList.lookup_insert_ne hother]

theorem hasAnyFinite_of_old (hold : (hc.peerDistances.lookup peer).getD 255 < 255) :
    hc.HasAnyFinite := by
  cases hlookup : hc.peerDistances.lookup peer with
  | none => simp [hlookup] at hold
  | some old =>
    rw [hlookup, Option.getD_some] at hold
    exact ⟨peer, old, hlookup, hold⟩

end Update

end HopCounter

/-- What a subscriber to the reachability of relays makes of an event. -/
def followReachability (reachable : Bool) : TopologyEvent → Bool
  | .relayReachabilityGained _ _ => true
  | .relayReachabilityLost => false
  | _ => reachable

/-- **One call.**  A subscriber who knew whether a relay can be reached knows it again once it has
received what the call publishes. -/
theorem HopCounter.reachable_updateDistance (hc : HopCounter) (peer : Bytes 32) (hops : UInt8)
    {reachable : Bool} (h : reachable = true ↔ hc.HasAnyFinite) :
    (hc.updateEvents peer hops).foldl followReachability reachable = true ↔
      (hc.setDistance peer hops).HasAnyFinite := by
  unfold updateEvents
  dsimp only
  -- The distance becomes finite or 255, from a finite one or from 255.
  by_cases hnew : hops < 255
  · have hne : hops ≠ 255 := by
      rintro rfl
      exact absurd hnew (by decide)
    have hfinite := hc.hasAnyFinite_setDistance_of_lt peer hops hnew
    by_cases hold : (hc.peerDistances.lookup peer).getD 255 = 255
    · rw [if_pos ⟨hold, hnew⟩, if_neg fun hlost => hne hlost.2.1]
      exact iff_of_true rfl hfinite
    · have hreachable : reachable = true :=
        h.2 (hc.hasAnyFinite_of_old peer (lt_255_of_ne hold))
      rw [if_neg fun hgained => hold hgained.1, if_neg fun hlost => hne hlost.2.1]
      exact iff_of_true hreachable hfinite
  · have heq : hops = 255 := by
      by_contra hne
      exact hnew (lt_255_of_ne hne)
    by_cases hold : (hc.peerDistances.lookup peer).getD 255 = 255
    · have hsame := hc.hasAnyFinite_setDistance_of_eq peer hops hold heq
      have hold' : ¬ (hc.peerDistances.lookup peer).getD 255 < 255 := by
        rw [hold]
        decide
      rw [if_neg fun hgained => hnew hgained.2, if_neg fun hlost => hold' hlost.1]
      exact h.trans hsame.symm
    · have hlt : (hc.peerDistances.lookup peer).getD 255 < 255 :=
        lt_255_of_ne hold
      have hreachable : reachable = true := h.2 (hc.hasAnyFinite_of_old peer hlt)
      rw [if_neg fun hgained => hold hgained.1]
      by_cases hfinite : (hc.setDistance peer hops).HasAnyFinite
      · rw [if_neg fun hlost => hlost.2.2 hfinite]
        exact iff_of_true hreachable hfinite
      · rw [if_pos ⟨hlt, heq, hfinite⟩]
        exact iff_of_false Bool.false_ne_true hfinite

/-! ### A subscriber -/

/-- A hop counter, its bus as a subscriber finds it, and what the subscriber believes. -/
structure RelayWatch where
  hopCounter : HopCounter
  bus : TopologyEventBus
  reachable : Bool

inductive RelayWatchInput
  | updateDistance (peer : Bytes 32) (hops : UInt8)
  /-- the subscriber asks the bus for the next event -/
  | recv

namespace RelayWatch

/-- A new counter, and a subscriber who has been told nothing. -/
def start (slots : ℕ) : RelayWatch := ⟨HopCounter.new, .subscribe slots, false⟩

def step (w : RelayWatch) : RelayWatchInput → Option (Received TopologyEvent) × RelayWatch
  | .updateDistance peer hops =>
    let (hopCounter, eventBus) := w.hopCounter.updateDistance peer hops (some w.bus)
    (none, { w with hopCounter := hopCounter, bus := eventBus.getD w.bus })
  | .recv =>
    let (received, bus) := w.bus.recv
    (some received, { w with
      bus := bus
      reachable := Receiver.consumeReceived followReachability w.reachable received })

/-- What the subscriber believes once it has received what waits for it. -/
def upToDate (w : RelayWatch) : Bool := w.bus.outcome followReachability w.reachable

/-- The bus has overwritten no event. -/
def Lossless (slots : ℕ) (inputs : List RelayWatchInput) : Prop :=
  ∀ e ∈ trace step (start slots) inputs, (step e.before e.input).2.bus.missed = 0

/-- A step that overwrites nothing keeps the subscriber up to date. -/
theorem upToDate_step_iff {w : RelayWatch} {i : RelayWatchInput}
    (hlossless : (w.step i).2.bus.missed = 0) (h : w.upToDate = true ↔ w.hopCounter.HasAnyFinite) :
    (w.step i).2.upToDate = true ↔ (w.step i).2.hopCounter.HasAnyFinite := by
  cases i with
  | updateDistance peer hops =>
    simp only [step, HopCounter.updateDistance_some, Option.getD_some] at hlossless ⊢
    unfold upToDate Receiver.outcome at h ⊢
    dsimp only
    rw [Receiver.unread_publishAll_of_missed hlossless, List.foldl_append]
    exact w.hopCounter.reachable_updateDistance peer hops h
  | recv =>
    have hsame := w.bus.outcome_recv followReachability w.reachable
    unfold upToDate at h ⊢
    simpa only [step, hsame] using h

theorem upToDate_start (slots : ℕ) :
    (start slots).upToDate = true ↔ (start slots).hopCounter.HasAnyFinite := by
  constructor
  · intro h
    cases h
  · rintro ⟨peer, hops, hlookup, -⟩
    cases hlookup

/-- **Faithful events.**  At every point of a run in which the bus overwrites no event, what the
subscriber believes once it has received what waits for it, and what it believes if nothing waits,
is that a relay can be reached exactly when some peer has a distance below 255. -/
theorem upToDate_iff {slots : ℕ} {inputs : List RelayWatchInput}
    (hlossless : Lossless slots inputs) {pre : List RelayWatchInput} (hpre : pre <+: inputs) :
    ((exec step (start slots) pre).upToDate = true ↔
        (exec step (start slots) pre).hopCounter.HasAnyFinite) ∧
      ((exec step (start slots) pre).bus.Drained →
        ((exec step (start slots) pre).reachable = true ↔
          (exec step (start slots) pre).hopCounter.HasAnyFinite)) := by
  obtain ⟨post, rfl⟩ := hpre
  have hpart : ∀ e ∈ trace step (start slots) pre, (step e.before e.input).2.bus.missed = 0 := by
    intro e he
    apply hlossless
    rw [Verif.Machine.trace_append]
    exact List.mem_append_left _ he
  obtain ⟨-, hup⟩ := Verif.Machine.trace_invariant
    (fun w : RelayWatch => w.upToDate = true ↔ w.hopCounter.HasAnyFinite)
    (fun w i hmissed h => upToDate_step_iff hmissed h) hpart (upToDate_start slots)
  refine ⟨hup, fun hdrained => ?_⟩
  rw [← hup, upToDate, Receiver.outcome_of_drained followReachability _ hdrained]

/-- Two peers get near a relay and lose it, one after the other. -/
def sampleInputs (first second : Bytes 32) : List RelayWatchInput :=
  [.updateDistance first 3, .recv, .updateDistance second 0, .recv, .updateDistance first 255,
    .updateDistance second 255, .recv]

theorem upToDate_iff_sample :
    let first : Bytes 32 := List.Vector.replicate 32 1
    let second : Bytes 32 := List.Vector.replicate 32 2
    (exec step (start 4) (sampleInputs first second)).upToDate = true ↔
      (exec step (start 4) (sampleInputs first second)).hopCounter.HasAnyFinite := by
  have hlossless : Lossless 4
      (sampleInputs (List.Vector.replicate 32 1) (List.Vector.replicate 32 2)) := by
    unfold Lossless
    decide +kernel
  exact (upToDate_iff hlossless (List.prefix_refl _)).1

end RelayWatch

end StellarConduit
