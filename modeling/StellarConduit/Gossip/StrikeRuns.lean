import Mathlib.Data.List.Induction
import StellarConduit.Gossip.StrikeTracker
import StellarConduit.Lib.Machine

/-!
# Runs of the strike tracker

The calls on a `StrikeTracker` of `gossip/strike_tracker.rs`, as a machine, and what they stand for.

* `StrikeTracker.step`: a call at an instant;
* `failuresOf`, `strikes`: all failures of a peer since it was last cleared, and those of them that
  are inside the window;
* `specStep`: the machine that keeps every call and counts;
* `strikes_eq_spec`: at instants that do not go back, the tracker answers as this machine does, and
  the answers for a peer do not depend on the calls that do not name it.
-/

namespace StellarConduit

open Verif Verif.Machine

inductive StrikeCall
  | recordFailure (peer : PeerIdentity)
  | clearPeer (peer : PeerIdentity)
  | getStrikeCount (peer : PeerIdentity)
  | cleanup

/-- A call, and the instant that it reads off the clock. -/
structure StrikeInput where
  now : ℕ
  call : StrikeCall

inductive StrikeOutput
  | recorded (banned : Bool)
  | counted (strikes : ℕ)
  | done
  deriving DecidableEq

namespace StrikeTracker

/-- A tracker with any window and any number of strikes. -/
def empty (windowDuration maxStrikes : ℕ) : StrikeTracker where
  failures := ∅
  windowDuration := windowDuration
  maxStrikes := maxStrikes

theorem new_eq_empty : new = empty (10 * 60 * 1000000000) 3 := rfl

def step (t : StrikeTracker) (i : StrikeInput) : StrikeOutput × StrikeTracker :=
  match i.call with
  | .recordFailure peer =>
    let (banned, t) := t.recordFailure peer i.now
    (.recorded banned, t)
  | .clearPeer peer => (.done, t.clearPeer peer)
  | .getStrikeCount peer => (.counted (t.getStrikeCount peer i.now), t)
  | .cleanup => (.done, t.cleanup i.now)

end StrikeTracker

/-- The peer that a call names. -/
def StrikeCall.pubkey : StrikeCall → Option (Bytes 32)
  | .recordFailure peer => some peer.pubkey
  | .clearPeer peer => some peer.pubkey
  | .getStrikeCount peer => some peer.pubkey
  | .cleanup => none

/-! ### What the calls stand for -/

/-- What a call adds to the failures of a peer, or takes away. -/
def noteFailure (pubkey : Bytes 32) (failures : List ℕ) (i : StrikeInput) : List ℕ :=
  match i.call with
  | .recordFailure peer => if peer.pubkey = pubkey then failures ++ [i.now] else failures
  | .clearPeer peer => if peer.pubkey = pubkey then [] else failures
  | _ => failures

/-- The instants of the failures of a peer since it was last cleared. -/
def failuresOf (pubkey : Bytes 32) (history : List StrikeInput) : List ℕ :=
  history.foldl (noteFailure pubkey) []

/-- The number of these failures within the window before `now`. -/
def strikes (windowDuration : ℕ) (pubkey : Bytes 32) (now : ℕ) (history : List StrikeInput) : ℕ :=
  (failuresOf pubkey history).countP fun failure => decide (now - failure ≤ windowDuration)

/-- The machine that keeps every call. -/
def specStep (windowDuration maxStrikes : ℕ) (history : List StrikeInput) (i : StrikeInput) :
    StrikeOutput × List StrikeInput :=
  let answer : StrikeOutput :=
    match i.call with
    | .recordFailure peer =>
      .recorded (decide (strikes windowDuration peer.pubkey i.now (history ++ [i]) > maxStrikes))
    | .getStrikeCount peer => .counted (strikes windowDuration peer.pubkey i.now history)
    | _ => .done
  (answer, history ++ [i])

/-- The call names the peer. -/
def Names (pubkey : Bytes 32) (i : StrikeInput) : Prop := i.call.pubkey = some pubkey

instance (pubkey : Bytes 32) : DecidablePred (Names pubkey) :=
  fun i => inferInstanceAs (Decidable (i.call.pubkey = some pubkey))

theorem failuresOf_concat (pubkey : Bytes 32) (history : List StrikeInput) (i : StrikeInput) :
    failuresOf pubkey (history ++ [i]) = noteFailure pubkey (failuresOf pubkey history) i := by
  rw [failuresOf, List.foldl_append]
  rfl

theorem noteFailure_of_not_names {pubkey : Bytes 32} {i : StrikeInput} (h : ¬ Names pubkey i)
    (failures : List ℕ) : noteFailure pubkey failures i = failures := by
  obtain ⟨now, call⟩ := i
  cases call with
  | recordFailure peer => exact if_neg fun heq => h (congrArg some heq)
  | clearPeer peer => exact if_neg fun heq => h (congrArg some heq)
  | getStrikeCount peer => rfl
  | cleanup => rfl

/-! ### The tracker follows its history -/

namespace StrikeTracker

/-- The failures that a tracker has of a peer. -/
def stored (t : StrikeTracker) (pubkey : Bytes 32) : List ℕ := (t.failures.lookup pubkey).getD []

/-- What lies outside the window at one instant lies outside it later. -/
theorem inWindow_inWindow (t : StrikeTracker) {now later : ℕ} (h : now ≤ later)
    (failures : List ℕ) :
    t.inWindow later (t.inWindow now failures) = t.inWindow later failures := by
  unfold inWindow
  rw [List.filter_filter]
  apply List.filter_congr
  intro failure _
  rw [← Bool.decide_and, decide_eq_decide]
  omega

theorem inWindow_append (t : StrikeTracker) (now : ℕ) (failures failures' : List ℕ) :
    t.inWindow now (failures ++ failures') = t.inWindow now failures ++ t.inWindow now failures' :=
  List.filter_append _ _

theorem stored_recordFailure (t : StrikeTracker) (peer : PeerIdentity) (now : ℕ)
    (pubkey : Bytes 32) :
    (t.recordFailure peer now).2.stored pubkey =
      if peer.pubkey = pubkey then t.inWindow now (t.stored pubkey) ++ [now]
      else t.stored pubkey := by
  unfold stored
  split_ifs with h
  · subst h
    rw [lookup_recordFailure_self]
    rfl
  · rw [lookup_recordFailure_ne _ (Ne.symm h)]

theorem stored_clearPeer (t : StrikeTracker) (peer : PeerIdentity) (pubkey : Bytes 32) :
    (t.clearPeer peer).stored pubkey = if peer.pubkey = pubkey then [] else t.stored pubkey := by
  unfold stored
  split_ifs with h
  · subst h
    rw [lookup_clearPeer_self]
    rfl
  · rw [lookup_clearPeer_ne _ (Ne.symm h)]

theorem stored_cleanup (t : StrikeTracker) (now : ℕ) (pubkey : Bytes 32) :
    (t.cleanup now).stored pubkey = t.inWindow now (t.stored pubkey) := by
  unfold stored cleanup
  rw [HashMap.lookup_filterMap]
  cases t.failures.lookup pubkey with
  | none => rfl
  | some failures =>
    show (if (t.inWindow now failures).isEmpty then none
      else some (t.inWindow now failures)).getD [] = t.inWindow now failures
    split_ifs with hempty
    · exact (List.isEmpty_iff.1 hempty).symm
    · rfl

/-- At every later instant the tracker has those failures of the history inside the window. -/
structure Follows (windowDuration maxStrikes : ℕ) (t : StrikeTracker)
    (history : List StrikeInput) : Prop where
  windowDuration_eq : t.windowDuration = windowDuration
  maxStrikes_eq : t.maxStrikes = maxStrikes
  stored_eq : ∀ pubkey later, (∀ i ∈ history, i.now ≤ later) →
    t.inWindow later (t.stored pubkey) = t.inWindow later (failuresOf pubkey history)

section Step

variable {windowDuration maxStrikes : ℕ} {t : StrikeTracker} {history : List StrikeInput}

theorem Follows.strikes_eq (h : Follows windowDuration maxStrikes t history) {now : ℕ}
    (hnow : ∀ i ∈ history, i.now ≤ now) (pubkey : Bytes 32) :
    (t.inWindow now (t.stored pubkey)).length = strikes windowDuration pubkey now history := by
  rw [h.stored_eq pubkey now hnow, inWindow, ← List.countP_eq_length_filter, h.windowDuration_eq]
  rfl

/-- The calls that name a peer find what the history says of it. -/
theorem Follows.step_fst (h : Follows windowDuration maxStrikes t history) {i : StrikeInput}
    (hnow : ∀ j ∈ history, j.now ≤ i.now) :
    (t.step i).1 = (specStep windowDuration maxStrikes history i).1 := by
  obtain ⟨now, call⟩ := i
  cases call with
  | recordFailure peer =>
    have hone : strikes windowDuration peer.pubkey now (history ++ [⟨now, .recordFailure peer⟩]) =
        strikes windowDuration peer.pubkey now history + 1 := by
      unfold strikes
      rw [failuresOf_concat]
      show ((if peer.pubkey = peer.pubkey then failuresOf peer.pubkey history ++ [now]
        else failuresOf peer.pubkey history)).countP _ = _
      rw [if_pos rfl, List.countP_append]
      simp
    show StrikeOutput.recorded (t.recordFailure peer now).1 = .recorded _
    rw [recordFailure_fst, getStrikeCount_eq, hone, h.maxStrikes_eq]
    -- The tracker's answer is about the strikes before this one, the specification counts it in.
    refine congrArg StrikeOutput.recorded (decide_eq_decide.2 ?_)
    have hstrikes := h.strikes_eq hnow peer.pubkey
    unfold stored at hstrikes
    rw [hstrikes]
    dsimp only
    omega
  | clearPeer peer => rfl
  | getStrikeCount peer =>
    show StrikeOutput.counted (t.getStrikeCount peer now) = .counted _
    rw [getStrikeCount_eq]
    exact congrArg StrikeOutput.counted (h.strikes_eq hnow peer.pubkey)
  | cleanup => rfl

theorem Follows.step_snd (h : Follows windowDuration maxStrikes t history) {i : StrikeInput}
    (hnow : ∀ j ∈ history, j.now ≤ i.now) :
    Follows windowDuration maxStrikes (t.step i).2 (history ++ [i]) := by
  obtain ⟨now, call⟩ := i
  -- An instant after all calls is after `now`, and after all calls before.
  have hlater : ∀ {later : ℕ}, (∀ j ∈ history ++ [⟨now, call⟩], j.now ≤ later) →
      now ≤ later ∧ ∀ j ∈ history, j.now ≤ later := fun hall =>
    ⟨hall _ (List.mem_append_right _ (List.mem_singleton_self _)),
      fun j hj => hall j (List.mem_append_left _ hj)⟩
  cases call with
  | recordFailure peer =>
    refine ⟨h.windowDuration_eq, h.maxStrikes_eq, fun pubkey later hall => ?_⟩
    obtain ⟨hle, hbefore⟩ := hlater hall
    have hold := h.stored_eq pubkey later hbefore
    show t.inWindow later ((t.recordFailure peer now).2.stored pubkey) =
      t.inWindow later (failuresOf pubkey (history ++ [⟨now, .recordFailure peer⟩]))
    rw [stored_recordFailure, failuresOf_concat]
    show _ = t.inWindow later (if peer.pubkey = pubkey then failuresOf pubkey history ++ [now]
      else failuresOf pubkey history)
    split_ifs
    · rw [inWindow_append, inWindow_append, inWindow_inWindow t hle, hold]
    · exact hold
  | clearPeer peer =>
    refine ⟨h.windowDuration_eq, h.maxStrikes_eq, fun pubkey later hall => ?_⟩
    have hold := h.stored_eq pubkey later (hlater hall).2
    show t.inWindow later ((t.clearPeer peer).stored pubkey) =
      t.inWindow later (failuresOf pubkey (history ++ [⟨now, .clearPeer peer⟩]))
    rw [stored_clearPeer, failuresOf_concat]
    show _ = t.inWindow later (if peer.pubkey = pubkey then [] else failuresOf pubkey history)
    split_ifs
    · rfl
    · exact hold
  | getStrikeCount peer =>
    refine ⟨h.windowDuration_eq, h.maxStrikes_eq, fun pubkey later hall => ?_⟩
    have hold := h.stored_eq pubkey later (hlater hall).2
    rw [failuresOf_concat]
    exact hold
  | cleanup =>
    refine ⟨h.windowDuration_eq, h.maxStrikes_eq, fun pubkey later hall => ?_⟩
    obtain ⟨hle, hbefore⟩ := hlater hall
    show t.inWindow later ((t.cleanup now).stored pubkey) =
      t.inWindow later (failuresOf pubkey (history ++ [⟨now, .cleanup⟩]))
    rw [stored_cleanup, inWindow_inWindow t hle, failuresOf_concat]
    exact h.stored_eq pubkey later hbefore

end Step

/-- The tracker follows its history over a run. -/
theorem follows_exec (windowDuration maxStrikes : ℕ) {is : List StrikeInput}
    (hsorted : is.Pairwise fun i j => i.now ≤ j.now) :
    Follows windowDuration maxStrikes (exec step (empty windowDuration maxStrikes) is) is := by
  induction is using List.reverseRecOn with
  | nil => exact ⟨rfl, rfl, fun _ _ _ => rfl⟩
  | append_singleton is i ih =>
    obtain ⟨hsorted, -, hlast⟩ := List.pairwise_append.1 hsorted
    rw [exec_concat]
    exact (ih hsorted).step_snd fun j hj => hlast j hj i (List.mem_singleton_self i)

end StrikeTracker

/-! ### The answers -/

theorem exec_specStep (windowDuration maxStrikes : ℕ) (history is : List StrikeInput) :
    exec (specStep windowDuration maxStrikes) history is = history ++ is := by
  induction is generalizing history with
  | nil => exact (List.append_nil history).symm
  | cons i is ih =>
    rw [exec_cons, ih]
    exact List.append_assoc history [i] is

theorem outputs_eq_spec (windowDuration maxStrikes : ℕ) {is : List StrikeInput}
    (hsorted : is.Pairwise fun i j => i.now ≤ j.now) :
    outputs StrikeTracker.step (.empty windowDuration maxStrikes) is =
      outputs (specStep windowDuration maxStrikes) [] is := by
  induction is using List.reverseRecOn with
  | nil => rfl
  | append_singleton is i ih =>
    obtain ⟨hsorted, -, hlast⟩ := List.pairwise_append.1 hsorted
    have hfollows := StrikeTracker.follows_exec windowDuration maxStrikes hsorted
    have hstep := hfollows.step_fst fun j hj => hlast j hj i (List.mem_singleton_self i)
    simp only [outputs, trace_append, trace_cons, trace_nil, List.map_append, List.map_cons,
      List.map_nil]
    rw [hstep, exec_specStep, List.nil_append]
    exact congrArg (· ++ _) (ih hsorted)

/-- A call that does not name the peer leaves its history as it is. -/
theorem projection_specStep (windowDuration maxStrikes : ℕ) (pubkey : Bytes 32) :
    Projection (specStep windowDuration maxStrikes) (specStep windowDuration maxStrikes)
      (fun history part => failuresOf pubkey history = failuresOf pubkey part) (Names pubkey) where
  skip history part i hi h := by
    show failuresOf pubkey (history ++ [i]) = failuresOf pubkey part
    rw [failuresOf_concat, noteFailure_of_not_names hi, h]
  sync history part i hi h := by
    have hnext : failuresOf pubkey (history ++ [i]) = failuresOf pubkey (part ++ [i]) := by
      rw [failuresOf_concat, failuresOf_concat, h]
    refine ⟨?_, hnext⟩
    obtain ⟨now, call⟩ := i
    cases call with
    | recordFailure peer =>
      obtain rfl : peer.pubkey = pubkey := Option.some.inj hi
      show StrikeOutput.recorded (decide (strikes _ peer.pubkey now _ > _)) = .recorded _
      rw [strikes, hnext]
      rfl
    | clearPeer peer => rfl
    | getStrikeCount peer =>
      obtain rfl : peer.pubkey = pubkey := Option.some.inj hi
      show StrikeOutput.counted (strikes _ peer.pubkey now _) = .counted _
      rw [strikes, h]
      rfl
    | cleanup => cases hi

/-- **Strikes are counted as specified.**  At instants that do not go back, the tracker answers as
the machine that keeps every call and counts, and the answers for a peer are those of the calls that
name it alone. -/
theorem strikes_eq_spec (windowDuration maxStrikes : ℕ) {is : List StrikeInput}
    (hsorted : is.Pairwise fun i j => i.now ≤ j.now) :
    outputs StrikeTracker.step (.empty windowDuration maxStrikes) is =
        outputs (specStep windowDuration maxStrikes) [] is ∧
      ∀ pubkey : Bytes 32,
        ((trace StrikeTracker.step (.empty windowDuration maxStrikes) is).filter
            fun e => decide (Names pubkey e.input)).map Event.output =
          outputs StrikeTracker.step (.empty windowDuration maxStrikes)
            (is.filter fun i => decide (Names pubkey i)) := by
  have hspec := outputs_eq_spec windowDuration maxStrikes hsorted
  refine ⟨hspec, fun pubkey => ?_⟩
  rw [outputs_eq_spec windowDuration maxStrikes (hsorted.filter _)]
  exact (filter_outputs_congr hspec).trans
    ((projection_specStep windowDuration maxStrikes pubkey).outputs_filter rfl is)

/-- A window of ten and one strike: the second failure at the edge of the window bans, the third
one outside of it does not. -/
theorem strikes_eq_spec_sample :
    let peer := PeerIdentity.new (List.Vector.replicate 32 1)
    let other := PeerIdentity.new (List.Vector.replicate 32 2)
    let calls : List StrikeInput := [⟨0, .recordFailure peer⟩, ⟨3, .recordFailure other⟩,
      ⟨10, .recordFailure peer⟩, ⟨12, .cleanup⟩, ⟨21, .recordFailure peer⟩, ⟨21, .clearPeer peer⟩,
      ⟨21, .getStrikeCount peer⟩]
    outputs StrikeTracker.step (.empty 10 1) calls = [.recorded false, .recorded false,
      .recorded true, .done, .recorded false, .done, .counted 0] := by
  intro peer other calls
  have hsorted : calls.Pairwise fun i j => i.now ≤ j.now := by decide +kernel
  rw [(strikes_eq_spec 10 1 hsorted).1]
  decide +kernel

end StellarConduit
