import Mathlib.Data.List.Induction
import StellarConduit.Security.Restart

/-!
# A ban and a sweep at the same time

`ban_and_persist` bans a peer under the lock of the peer list and saves the ban in the database
afterwards.  The sweep of the gossip loop lifts the expired bans under the lock, and removes them
from the database afterwards, one after the other.  Both give way to other tasks in between, so that
their steps can come in many orders.

* `BanRace.step`: the steps of both, as far as they are enabled;
* `run_ban_save`, `run_sweep`: the steps of one of them alone are `ban_and_persist`, and the sweep;
* `run_invariant`: what the list and the table say of the peer, by the order of the steps so far;
* `agree_iff`: the orders after which they say the same.
-/

namespace StellarConduit

open Verif

/-- The call of `ban_and_persist`, and the readings of the clock by it and by the sweep. -/
structure RaceCall where
  pubkey : Bytes 32
  durationSec : UInt64
  reason : String
  readings : BanReadings
  /-- of the sweep, for each peer -/
  now : Bytes 32 → UInt64

inductive RaceAction
  /-- the sweep holds the lock -/
  | check
  /-- the sweep removes the next row -/
  | remove (pubkey : Bytes 32)
  /-- `ban_and_persist` holds the lock -/
  | ban
  /-- `ban_and_persist` saves the row -/
  | save
  deriving DecidableEq

/-- What the two tasks share, and how far each of them is. -/
structure BanRace where
  peerList : PeerList
  db : MeshDatabase
  /-- the peers whose rows are still to be removed, once the sweep has held the lock -/
  removals : Option (List PeerIdentity)
  banned : Bool
  saved : Bool

namespace BanRace

def start (s : BanStore) : BanRace := ⟨s.peerList, s.db, none, false, false⟩

/-- Both tasks are done. -/
def Finished (s : BanRace) : Prop := s.removals = some [] ∧ s.saved = true

instance (s : BanRace) : Decidable s.Finished := inferInstanceAs (Decidable (_ ∧ _))

/-- The part of `ban_and_persist` under the lock. -/
def banUnderLock (peerList : PeerList) (call : RaceCall) : PeerList :=
  let peerList :=
    if (peerList.getPeer call.pubkey).isNone then
      (peerList.insertOrUpdate call.pubkey 0 call.readings.seen).2
    else peerList
  (peerList.banPeer call.pubkey call.durationSec call.readings.ban).2

/-- The next step of a task, if it is this one; the calls of the database succeed. -/
def step (call : RaceCall) (s : BanRace) : RaceAction → Option BanRace
  | .check =>
    match s.removals with
    | some _ => none
    | none =>
      let (unbanned, peerList) := s.peerList.checkBanExpirations call.now
      some { s with peerList := peerList, removals := some unbanned }
  | .remove pubkey =>
    match s.removals with
    | some (peer :: peers) =>
      if peer.pubkey = pubkey then
        match s.db.removeBan peer.pubkey none with
        | .ok db => some { s with db := db, removals := some peers }
        | .error _ => some { s with removals := some peers }
      else none
    | _ => none
  | .ban =>
    if s.banned then none
    else some { s with peerList := banUnderLock s.peerList call, banned := true }
  | .save =>
    if s.banned ∧ ¬ s.saved then
      let expiresAt := call.readings.expires + call.durationSec
      match s.db.saveBan call.pubkey expiresAt call.reason call.readings.saved none with
      | .ok db => some { s with db := db, saved := true }
      | .error _ => some { s with saved := true }
    else none

/-- The steps of the two tasks in some order. -/
def run (call : RaceCall) (s : BanRace) (actions : List RaceAction) : Option BanRace :=
  actions.foldlM (step call) s

theorem run_concat (call : RaceCall) (s : BanRace) (actions : List RaceAction)
    (action : RaceAction) :
    run call s (actions ++ [action]) = (run call s actions).bind fun t => step call t action := by
  unfold run
  rw [List.foldlM_append]
  cases List.foldlM (step call) s actions with
  | none => rfl
  | some t => exact Option.bind_fun_some (step call t action)

/-! ### One task alone -/

/-- The steps of `ban_and_persist` alone are the whole call. -/
theorem run_ban_save (call : RaceCall) (s : BanStore) :
    (run call (start s) [.ban, .save]).map (fun t => (t.peerList, some t.db)) =
      some (banAndPersist s.peerList (some s.db) call.pubkey call.durationSec call.reason
        { call.readings with fault := none }) := by
  unfold banAndPersist
  rfl

theorem run_removes (call : RaceCall) (s : BanRace) (peers : List PeerIdentity)
    (h : s.removals = some peers) :
    run call s (peers.map fun peer => .remove peer.pubkey) =
      some { s with db := s.db.removeBans peers, removals := some [] } := by
  induction peers generalizing s with
  | nil =>
    rw [← h]
    rfl
  | cons peer peers ih =>
    have hstep : step call s (.remove peer.pubkey) =
        some { s with
          db := { s.db with bannedPeers := s.db.bannedPeers.erase peer.pubkey }
          removals := some peers } := by
      unfold step
      dsimp only
      rw [h]
      dsimp only
      rw [if_pos rfl]
      rfl
    show (step call s (.remove peer.pubkey)).bind (fun t => run call t _) = _
    rw [hstep, Option.bind_some, ih _ rfl]
    rfl

/-- The steps of the sweep alone are the whole sweep. -/
theorem run_sweep (call : RaceCall) (s : BanStore) :
    (run call (start s) (.check :: (s.peerList.checkBanExpirations call.now).1.map
        fun peer => .remove peer.pubkey)).map (fun t => (⟨t.peerList, t.db⟩ : BanStore)) =
      some (s.step (.sweep call.now)).2 := by
  have hremoves := run_removes call
    { start s with
      peerList := (s.peerList.checkBanExpirations call.now).2
      removals := some (s.peerList.checkBanExpirations call.now).1 } _ rfl
  exact congrArg (Option.map fun t : BanRace => (⟨t.peerList, t.db⟩ : BanStore)) hremoves

/-! ### What is said of the peer -/

/-- The expiry of the ban that the list has of a peer. -/
def memory (s : BanRace) (P : Bytes 32) : Option UInt64 :=
  (s.peerList.getPeer P).bind fun peer =>
    if peer.isBanned then some peer.banExpiresAtUnixSec else none

/-- The expiry in the row that the table has of a peer. -/
def disk (s : BanRace) (P : Bytes 32) : Option UInt64 :=
  (s.db.bannedPeers.lookup P).map fun row => row.expiresAt.toUInt64

/-- The peer is banned until some second if and only if there is a row that says so. -/
def Agree (s : BanRace) (P : Bytes 32) : Prop := ∀ e, s.memory P = some e ↔ s.disk P = some e

theorem agree_iff_eq (s : BanRace) (P : Bytes 32) : s.Agree P ↔ s.memory P = s.disk P := by
  constructor
  · intro h
    exact Option.ext h
  · intro h e
    rw [h]

/-- The row of the peer is still to be removed by the sweep. -/
def Pending (s : BanRace) (P : Bytes 32) : Prop :=
  ∃ peers, s.removals = some peers ∧ ∃ peer ∈ peers, peer.pubkey = P

theorem pair_sublist_concat_iff {α : Type*} {a b x : α} {l : List α} :
    [a, b].Sublist (l ++ [x]) ↔ [a, b].Sublist l ∨ a ∈ l ∧ b = x := by
  constructor
  · intro h
    obtain ⟨l₁, l₂, hsplit, h₁, h₂⟩ := List.sublist_append_iff.1 h
    cases l₁ with
    | nil =>
      rw [List.nil_append] at hsplit
      rw [← hsplit] at h₂
      exact absurd h₂.length_le (by simp)
    | cons c l₁ =>
      rw [List.cons_append, List.cons.injEq] at hsplit
      obtain ⟨rfl, hsplit⟩ := hsplit
      cases l₁ with
      | nil =>
        rw [List.nil_append] at hsplit
        rw [← hsplit, List.singleton_sublist, List.mem_singleton] at h₂
        exact .inr ⟨List.singleton_sublist.1 h₁, h₂⟩
      | cons d l₁ =>
        rw [List.cons_append, List.cons.injEq] at hsplit
        obtain ⟨rfl, hsplit⟩ := hsplit
        rw [(List.append_eq_nil_iff.1 hsplit.symm).1] at h₁
        exact .inl h₁
  · rintro (h | ⟨ha, rfl⟩)
    · exact h.trans (List.sublist_append_left l [x])
    · exact (List.singleton_sublist.2 ha).append (List.Sublist.refl [b])

theorem pair_sublist_concat_of_ne {α : Type*} {a b x : α} {l : List α} (h : b ≠ x) :
    [a, b].Sublist (l ++ [x]) ↔ [a, b].Sublist l := by
  rw [pair_sublist_concat_iff]
  simp [h]

/-- Nothing has come after what happens for the first time. -/
theorem not_pair_sublist_concat {α : Type*} {a b : α} {l : List α} (ha : a ∉ l) (h : b ≠ a) :
    ¬ [a, b].Sublist (l ++ [a]) := by
  rw [pair_sublist_concat_of_ne h]
  exact fun hsub => ha (hsub.subset (by simp))

/-- The sweep came after the new ban and lifted it. -/
def LiftsNewBan (call : RaceCall) (actions : List RaceAction) (s : BanRace) : Prop :=
  [RaceAction.ban, .check].Sublist actions ∧
    (s.Pending call.pubkey ∨ RaceAction.remove call.pubkey ∈ actions)

/-- What holds after some steps from a list whose records carry their keys. -/
structure Invariant (call : RaceCall) (actions : List RaceAction) (s : BanRace) : Prop where
  keyed : s.peerList.Keyed
  checked : s.removals.isSome = true ↔ RaceAction.check ∈ actions
  banned : s.banned = true ↔ RaceAction.ban ∈ actions
  saved : s.saved = true ↔ RaceAction.save ∈ actions
  order : RaceAction.save ∈ actions → RaceAction.ban ∈ actions
  removed : RaceAction.remove call.pubkey ∈ actions → RaceAction.check ∈ actions
  lifted : RaceAction.ban ∈ actions → LiftsNewBan call actions s →
    s.memory call.pubkey = none
  kept : RaceAction.ban ∈ actions → ¬ LiftsNewBan call actions s →
    s.memory call.pubkey = some (call.readings.ban + call.durationSec)
  /-- The new row is in the table unless it was removed after it was saved. -/
  disk : RaceAction.save ∈ actions →
    s.disk call.pubkey =
      if [RaceAction.save, .remove call.pubkey].Sublist actions then none
      else some (call.readings.expires + call.durationSec)

section Steps

variable {call : RaceCall} {actions : List RaceAction} {s : BanRace}

theorem invariant_start (call : RaceCall) {s : BanStore} (h : s.peerList.Keyed) :
    Invariant call [] (start s) where
  keyed := h
  checked := by simp [start]
  banned := by simp [start]
  saved := by simp [start]
  order := by simp
  removed := by simp
  lifted := by simp
  kept := by simp
  disk := by simp

/-- The part under the lock is all that the call does to the list. -/
theorem banUnderLock_eq (peerList : PeerList) (call : RaceCall) :
    banUnderLock peerList call =
      (banAndPersist peerList none call.pubkey call.durationSec call.reason call.readings).1 :=
  rfl

theorem memory_banUnderLock (call : RaceCall) (s : BanRace) (banned : Bool) :
    BanRace.memory { s with peerList := banUnderLock s.peerList call, banned := banned }
      call.pubkey = some (call.readings.ban + call.durationSec) := by
  unfold memory
  rw [banUnderLock_eq, getPeer_banAndPersist_self]
  rfl

/-- The sweep lifts the ban that is in force, or leaves it. -/
theorem memory_checkBanExpirations (s : BanRace) (P : Bytes 32) (now : Bytes 32 → UInt64)
    (removals : Option (List PeerIdentity)) {e : UInt64} (h : s.memory P = some e) :
    BanRace.memory
        { s with peerList := (s.peerList.checkBanExpirations now).2, removals := removals } P =
      if ∃ peer ∈ s.peerList.getPeer P, (peer.checkBanExpiration (now P)).1 = true then none
      else some e := by
  unfold memory at h ⊢
  dsimp only
  rw [PeerList.getPeer_checkBanExpirations]
  cases hpeer : s.peerList.getPeer P with
  | none => simp [hpeer] at h
  | some peer =>
    rw [hpeer, Option.bind_some] at h
    obtain ⟨hbanned, hexpiry⟩ := Option.ite_none_right_eq_some.1 h
    rcases Nat.lt_or_ge (now P).toNat peer.banExpiresAtUnixSec.toNat with hlt | hle
    · rw [← UInt64.lt_iff_toNat_lt] at hlt
      simpa [Peer.checkBanExpiration_of_lt hlt, hbanned] using hexpiry
    · have hle' : peer.banExpiresAtUnixSec ≤ now P := UInt64.le_iff_toNat_le.2 hle
      simp [Peer.checkBanExpiration_of_le hbanned hle']

/-- The sweep holds the lock. -/
theorem Invariant.check (h : Invariant call actions s) (hnew : s.removals = none) :
    Invariant call (actions ++ [.check])
      { s with
        peerList := (s.peerList.checkBanExpirations call.now).2
        removals := some (s.peerList.checkBanExpirations call.now).1 } := by
  have hcheck : RaceAction.check ∉ actions := by
    rw [← h.checked, hnew]
    exact Bool.false_ne_true
  have hremove : RaceAction.remove call.pubkey ∉ actions := fun hmem => hcheck (h.removed hmem)
  have hnosub : ¬ [RaceAction.ban, .check].Sublist actions := fun hsub =>
    hcheck (hsub.subset (by simp))
  -- A check lifts the new ban exactly if the ban is there and has expired.
  have hlifts : LiftsNewBan call (actions ++ [.check])
      { s with
        peerList := (s.peerList.checkBanExpirations call.now).2
        removals := some (s.peerList.checkBanExpirations call.now).1 } ↔
      RaceAction.ban ∈ actions ∧ ∃ peer ∈ s.peerList.getPeer call.pubkey,
        (peer.checkBanExpiration (call.now call.pubkey)).1 = true := by
    rw [← h.keyed.exists_mem_checkBanExpirations]
    unfold LiftsNewBan Pending
    rw [pair_sublist_concat_iff]
    simp [hnosub, hremove]
  have hmemory : RaceAction.ban ∈ actions →
      s.memory call.pubkey = some (call.readings.ban + call.durationSec) :=
    fun hban => h.kept hban fun hlifts => hnosub hlifts.1
  constructor
  case keyed => exact h.keyed.checkBanExpirations call.now
  case checked => simp
  case banned => simpa using h.banned
  case saved => simpa using h.saved
  case order => simpa using h.order
  case removed => simp
  case lifted =>
    intro hban hlift
    obtain ⟨hban, hexpired⟩ := hlifts.1 hlift
    rw [memory_checkBanExpirations s call.pubkey call.now _ (hmemory hban), if_pos hexpired]
  case kept =>
    intro hban hlift
    have hban' : RaceAction.ban ∈ actions := by simpa using hban
    rw [memory_checkBanExpirations s call.pubkey call.now _ (hmemory hban'),
      if_neg fun hexpired => hlift (hlifts.2 ⟨hban', hexpired⟩)]
  case disk =>
    intro hsave
    have hsame := pair_sublist_concat_of_ne (a := RaceAction.save) (l := actions)
      (show RaceAction.remove call.pubkey ≠ .check from RaceAction.noConfusion)
    simp only [hsame]
    exact h.disk (by simpa using hsave)

/-- The sweep removes a row. -/
theorem Invariant.remove (h : Invariant call actions s) {peer : PeerIdentity}
    {peers : List PeerIdentity} (hpeers : s.removals = some (peer :: peers)) :
    Invariant call (actions ++ [.remove peer.pubkey])
      { s with
        db := { s.db with bannedPeers := s.db.bannedPeers.erase peer.pubkey }
        removals := some peers } := by
  have hcheck : RaceAction.check ∈ actions := h.checked.1 (by rw [hpeers]; rfl)
  have hlifts : LiftsNewBan call (actions ++ [.remove peer.pubkey])
      { s with
        db := { s.db with bannedPeers := s.db.bannedPeers.erase peer.pubkey }
        removals := some peers } ↔ LiftsNewBan call actions s := by
    unfold LiftsNewBan Pending
    rw [pair_sublist_concat_iff]
    simp [hpeers]
    grind
  constructor
  case keyed => exact h.keyed
  case checked => simp [hcheck]
  case banned => simpa using h.banned
  case saved => simpa using h.saved
  case order => simpa using h.order
  case removed => simp [hcheck]
  case lifted =>
    intro hban hlift
    exact h.lifted (by simpa using hban) (hlifts.1 hlift)
  case kept =>
    intro hban hlift
    exact h.kept (by simpa using hban) fun hl => hlift (hlifts.2 hl)
  case disk =>
    intro hsave
    have hsave' : RaceAction.save ∈ actions := by simpa using hsave
    -- The sweep removes the row of the new ban, or that of another peer.
    by_cases hpubkey : peer.pubkey = call.pubkey
    · have hlast : [RaceAction.save, .remove call.pubkey].Sublist
          (actions ++ [.remove peer.pubkey]) :=
        pair_sublist_concat_iff.2 (.inr ⟨hsave', by rw [hpubkey]⟩)
      rw [if_pos hlast]
      simp [BanRace.disk, hpubkey]
    · have hother : RaceAction.remove call.pubkey ≠ .remove peer.pubkey := fun heq =>
        hpubkey (RaceAction.remove.inj heq).symm
      simp only [pair_sublist_concat_of_ne hother, BanRace.disk,
        AList.lookup_erase_ne (Ne.symm hpubkey)]
      exact h.disk hsave'

/-- The ban is put in place. -/
theorem Invariant.ban (h : Invariant call actions s) (hnew : s.banned = false) :
    Invariant call (actions ++ [.ban])
      { s with peerList := banUnderLock s.peerList call, banned := true } := by
  have hban : RaceAction.ban ∉ actions := by
    rw [← h.banned, hnew]
    exact Bool.false_ne_true
  have hnosub : ¬ [RaceAction.ban, .check].Sublist (actions ++ [.ban]) :=
    not_pair_sublist_concat hban RaceAction.noConfusion
  constructor
  case keyed =>
    exact h.keyed.banAndPersist none call.pubkey call.durationSec call.reason call.readings
  case checked => simpa using h.checked
  case banned => simp
  case saved => simpa using h.saved
  case order => simp
  case removed => simpa using h.removed
  case lifted => exact fun _ hlift => absurd hlift.1 hnosub
  case kept => exact fun _ _ => memory_banUnderLock call s true
  case disk =>
    intro hsave
    have hsame := pair_sublist_concat_of_ne (a := RaceAction.save) (l := actions)
      (show RaceAction.remove call.pubkey ≠ .ban from RaceAction.noConfusion)
    simp only [hsame]
    exact h.disk (by simpa using hsave)

/-- The row is saved. -/
theorem Invariant.save (h : Invariant call actions s) (hbanned : s.banned = true)
    (hnew : s.saved = false) :
    Invariant call (actions ++ [.save])
      { s with
        db := { s.db with
          bannedPeers := s.db.bannedPeers.insert call.pubkey
            ⟨call.readings.saved.toInt64,
              (call.readings.expires + call.durationSec).toInt64, call.reason⟩ }
        saved := true } := by
  have hsave : RaceAction.save ∉ actions := by
    rw [← h.saved, hnew]
    exact Bool.false_ne_true
  -- The row is written now, so no removal has come after it.
  have hnosub : ¬ [RaceAction.save, .remove call.pubkey].Sublist (actions ++ [.save]) :=
    not_pair_sublist_concat hsave RaceAction.noConfusion
  have hlifts : LiftsNewBan call (actions ++ [.save])
      { s with
        db := { s.db with
          bannedPeers := s.db.bannedPeers.insert call.pubkey
            ⟨call.readings.saved.toInt64,
              (call.readings.expires + call.durationSec).toInt64, call.reason⟩ }
        saved := true } ↔ LiftsNewBan call actions s := by
    unfold LiftsNewBan Pending
    rw [pair_sublist_concat_iff]
    simp
  constructor
  case keyed => exact h.keyed
  case checked => simpa using h.checked
  case banned => simpa using h.banned
  case saved => simp
  case order => simp [h.banned.1 hbanned]
  case removed => simpa using h.removed
  case lifted =>
    intro hban hlift
    exact h.lifted (by simpa using hban) (hlifts.1 hlift)
  case kept =>
    intro hban hlift
    exact h.kept (by simpa using hban) fun hl => hlift (hlifts.2 hl)
  case disk =>
    intro _
    rw [if_neg hnosub]
    simp [BanRace.disk]

/-- **One step** of either task. -/
theorem Invariant.step (h : Invariant call actions s) {action : RaceAction} {t : BanRace}
    (hstep : BanRace.step call s action = some t) : Invariant call (actions ++ [action]) t := by
  cases action with
  | check =>
    unfold BanRace.step at hstep
    cases hremovals : s.removals with
    | some peers => simp [hremovals] at hstep
    | none =>
      rw [hremovals] at hstep
      cases hstep
      exact h.check hremovals
  | remove pubkey =>
    unfold BanRace.step at hstep
    cases hremovals : s.removals with
    | none => simp [hremovals] at hstep
    | some peers =>
      cases peers with
      | nil => simp [hremovals] at hstep
      | cons peer peers =>
        rw [hremovals] at hstep
        dsimp only at hstep
        by_cases hpubkey : peer.pubkey = pubkey
        · subst hpubkey
          rw [if_pos rfl] at hstep
          cases hstep
          exact h.remove hremovals
        · rw [if_neg hpubkey] at hstep
          cases hstep
  | ban =>
    obtain ⟨hbanned, hstep⟩ := Option.ite_none_left_eq_some.1 hstep
    cases hstep
    exact h.ban (Bool.eq_false_iff.2 hbanned)
  | save =>
    obtain ⟨⟨hbanned, hsaved⟩, hstep⟩ := Option.ite_none_right_eq_some.1 hstep
    cases hstep
    exact h.save hbanned (Bool.eq_false_iff.2 hsaved)

end Steps

/-- **What holds after some steps** of the two tasks, in any order. -/
theorem run_invariant {call : RaceCall} {s : BanStore} (hkeyed : s.peerList.Keyed)
    {actions : List RaceAction} {t : BanRace} (hrun : run call (start s) actions = some t) :
    Invariant call actions t := by
  induction actions using List.reverseRecOn generalizing t with
  | nil =>
    cases hrun
    exact invariant_start call hkeyed
  | append_singleton actions action ih =>
    rw [run_concat, Option.bind_eq_some_iff] at hrun
    obtain ⟨u, hu, hstep⟩ := hrun
    exact (ih hu).step hstep

/-- The sweep finds the new ban, and lifts it. -/
def SweepsNewBan (call : RaceCall) (actions : List RaceAction) : Prop :=
  [RaceAction.ban, .check].Sublist actions ∧ RaceAction.remove call.pubkey ∈ actions

instance (call : RaceCall) (actions : List RaceAction) : Decidable (SweepsNewBan call actions) :=
  inferInstanceAs (Decidable (_ ∧ _))

/-- The order of the steps is safe.  If the sweep removes the row of the peer, it does so after the
row was saved exactly if it has seen the new ban; and unless it lifts the new ban, the expiry that
is saved is that of the list. -/
def InOrder (call : RaceCall) (actions : List RaceAction) : Prop :=
  (RaceAction.remove call.pubkey ∈ actions →
    ([RaceAction.ban, .check].Sublist actions ↔
      [RaceAction.save, .remove call.pubkey].Sublist actions)) ∧
  (¬ SweepsNewBan call actions →
    call.readings.ban + call.durationSec = call.readings.expires + call.durationSec)

instance (call : RaceCall) (actions : List RaceAction) : Decidable (InOrder call actions) :=
  inferInstanceAs (Decidable (_ ∧ _))

/-- **Agreement.**  When both tasks are done, in whatever order their steps came, the list and the
table agree on the peer if and only if the steps were in order. -/
theorem agree_iff {call : RaceCall} {s : BanStore} (hkeyed : s.peerList.Keyed)
    {actions : List RaceAction} {t : BanRace} (hrun : run call (start s) actions = some t)
    (hfinished : t.Finished) : t.Agree call.pubkey ↔ InOrder call actions := by
  have h := run_invariant hkeyed hrun
  have hsave : RaceAction.save ∈ actions := h.saved.1 hfinished.2
  have hpending : ¬ t.Pending call.pubkey := by
    rintro ⟨peers, hpeers, peer, hpeer, -⟩
    rw [hfinished.1, Option.some_inj] at hpeers
    subst hpeers
    cases hpeer
  have hlifts : LiftsNewBan call actions t ↔ SweepsNewBan call actions := by
    unfold LiftsNewBan SweepsNewBan
    rw [or_iff_right hpending]
  have hban : RaceAction.ban ∈ actions := h.order hsave
  have hremove : [RaceAction.save, .remove call.pubkey].Sublist actions →
      RaceAction.remove call.pubkey ∈ actions := fun hsub => hsub.subset (by simp)
  rw [agree_iff_eq, h.disk hsave]
  unfold InOrder
  by_cases hsweep : SweepsNewBan call actions
  · rw [h.lifted hban (hlifts.2 hsweep)]
    obtain ⟨hafter, hremoved⟩ := id hsweep
    simp [hsweep, hafter, hremoved]
  · rw [h.kept hban fun hl => hsweep (hlifts.1 hl)]
    -- The sweep removes no row, or it has not seen the new ban.
    have hnot : RaceAction.remove call.pubkey ∈ actions →
        ¬ [RaceAction.ban, .check].Sublist actions := fun hremoved hafter =>
      hsweep ⟨hafter, hremoved⟩
    by_cases hgone : [RaceAction.save, .remove call.pubkey].Sublist actions
    · simp [hgone, hremove hgone, hnot (hremove hgone)]
    · rw [if_neg hgone, Option.some_inj]
      simp only [hgone, iff_false, hsweep, not_false_eq_true, forall_const]
      exact (and_iff_right hnot).symm

/-- A ban for a day, at the second at which another ban for a day is over. -/
def sampleCall : RaceCall where
  pubkey := sampleKey
  durationSec := 86400
  reason := "repeated invalid signatures"
  readings := ⟨1672617600, 1672617600, 1672617600, 1672617600, none⟩
  now := fun _ => 1672617600

def sampleExpired : BanStore := ((BanStore.new 300).step sampleBan).2

theorem keyed_sampleExpired : sampleExpired.peerList.Keyed :=
  (mirror_step (mirror_new 300) (i := sampleBan) ⟨rfl, by decide⟩).keyed

def sampleSafe : List RaceAction := [.check, .ban, .remove sampleKey, .save]

theorem isSome_run_sampleSafe :
    (run sampleCall (start sampleExpired) sampleSafe).isSome = true := by
  decide +kernel

/-- The sweep is over before the row is saved. -/
theorem agree_iff_sample :
    ∃ t, run sampleCall (start sampleExpired) sampleSafe = some t ∧ t.Agree sampleKey := by
  have hrun := (Option.some_get isSome_run_sampleSafe).symm
  have hfinished : ((run sampleCall (start sampleExpired) sampleSafe).get
      isSome_run_sampleSafe).Finished := by decide +kernel
  exact ⟨_, hrun, (agree_iff keyed_sampleExpired hrun hfinished).2 (by decide +kernel)⟩

def sampleLate : List RaceAction := [.check, .ban, .save, .remove sampleKey]

theorem isSome_run_sampleLate :
    (run sampleCall (start sampleExpired) sampleLate).isSome = true := by
  decide +kernel

/-- The sweep finds that the first ban is over, and removes the row after it was saved again. -/
theorem row_lost :
    ∃ t, run sampleCall (start sampleExpired) sampleLate = some t ∧ t.Finished ∧
      ¬ t.Agree sampleKey ∧ t.memory sampleKey = some 1672704000 ∧ t.disk sampleKey = none := by
  refine ⟨_, (Option.some_get isSome_run_sampleLate).symm, by decide +kernel, ?_,
    by decide +kernel, by decide +kernel⟩
  rw [agree_iff_eq]
  decide +kernel

end BanRace

end StellarConduit
