import StellarConduit.Message.Types

/-!
# The power manager

`transport/power.rs`: after five minutes without activity a node goes to a synchronized low-power
mode, in which its interfaces are awake for the first half second of every five seconds.  Times
are in nanoseconds.

* `tick`, `recordIncomingTransaction`, `recordOutboundTransaction`, `setState`;
* `Tick`: all that a tick can do;
* `Armed`: a transaction waits, and the next tick in an awake window wakes the network
  (`Armed.wakes`);
* `Asleep`: the interfaces sleep, or the next idle check puts them to sleep;
* `GoesToSleep`: the next tick emits the sleep flag, which it does once
  (`not_goesToSleep_tick`).
-/

namespace StellarConduit

/-- `Duration::as_millis` -/
def asMillis (duration : ℕ) : ℕ := duration / 1000000

def idleSleepTimeout : ℕ := 5 * 60 * 1000000000

def synchronizedWakeInterval : ℕ := 5 * 1000000000

def synchronizedWakeWindow : ℕ := 500 * 1000000

inductive PowerState
  | active
  | lowPower
  | deepSleep
  deriving DecidableEq

inductive PowerMode
  | highPower
  | synchronizedLowPower
  deriving DecidableEq

structure InterfacePowerState where
  bleEnabled : Bool
  wifiEnabled : Bool
  deriving DecidableEq

def InterfacePowerState.awake : InterfacePowerState := ⟨true, true⟩

def InterfacePowerState.sleeping : InterfacePowerState := ⟨false, false⟩

structure PowerDecision where
  interfaceState : InterfacePowerState
  topologyFlags : List TopologyFlag
  wakeNetwork : Bool
  deriving DecidableEq

structure PowerManager where
  state : PowerState
  mode : PowerMode
  lastIncomingActivityAt : ℕ
  pendingOutboundTransaction : Bool
  sleepFlagEmitted : Bool
  nowMs : ℕ
  deriving DecidableEq

def isAwakeWindow (now : ℕ) : Bool :=
  decide (asMillis now % asMillis synchronizedWakeInterval < asMillis synchronizedWakeWindow)

/-- `next_awake_barrier`; `as u64` drops the high bits. -/
def nextAwakeBarrier (now : ℕ) : ℕ :=
  let intervalMs := asMillis synchronizedWakeInterval
  let currentMs := asMillis now
  let nextMs := (currentMs / intervalMs + 1) * intervalMs
  (UInt64.ofNat nextMs).toNat * 1000000

namespace PowerManager

def new (now : ℕ) : PowerManager where
  state := .active
  mode := .highPower
  lastIncomingActivityAt := now
  pendingOutboundTransaction := false
  sleepFlagEmitted := false
  nowMs := asMillis now

def setState (p : PowerManager) (state : PowerState) : Option TopologyUpdate × PowerManager :=
  let mode := match state with
    | .active => .highPower
    | .lowPower | .deepSleep => .synchronizedLowPower
  let p := { p with state := state, mode := mode }
  let update (flags : List TopologyFlag) : TopologyUpdate :=
    { originPubkey := List.Vector.replicate 32 0
      directlyConnectedPeers := []
      hopsToRelay := 0
      topologyFlags := flags }
  match state with
  | .active => (none, p)
  | .lowPower => (some (update [.lowPowerMode]), p)
  | .deepSleep => (some (update [.deepSleepPending]), p)

def interfaceState (p : PowerManager) (now : ℕ) : InterfacePowerState :=
  if p.mode = .highPower ∨ isAwakeWindow now then .awake else .sleeping

/-- The idle check of a tick. -/
def idled (p : PowerManager) (now : ℕ) : PowerManager :=
  let p := { p with nowMs := asMillis now }
  -- `saturating_sub`: a time before the last activity counts as no idle time.
  let idleFor := now - p.lastIncomingActivityAt
  if idleFor ≥ idleSleepTimeout ∧ p.mode = .highPower then
    { p with mode := .synchronizedLowPower, state := .lowPower }
  else p

def tick (p : PowerManager) (now : ℕ) : PowerDecision × PowerManager :=
  let p := p.idled now
  let (topologyFlags, p) :=
    if p.mode = .synchronizedLowPower ∧ p.sleepFlagEmitted = false then
      ([TopologyFlag.goToSleep], { p with sleepFlagEmitted := true })
    else ([], p)
  let wakeNetwork :=
    decide (p.mode = .synchronizedLowPower) && p.pendingOutboundTransaction && isAwakeWindow now
  let p :=
    if wakeNetwork then
      { p with
        mode := .highPower
        state := .active
        pendingOutboundTransaction := false
        lastIncomingActivityAt := now
        sleepFlagEmitted := false }
    else p
  (⟨p.interfaceState now, topologyFlags, wakeNetwork⟩, p)

def recordIncomingTransaction (p : PowerManager) (now : ℕ) : PowerDecision × PowerManager :=
  { p with
    lastIncomingActivityAt := now
    pendingOutboundTransaction := false
    sleepFlagEmitted := false
    mode := .highPower
    state := .active }.tick now

def recordOutboundTransaction (p : PowerManager) (now : ℕ) : PowerDecision × PowerManager :=
  let (decision, p) := p.tick now
  if p.mode = .synchronizedLowPower ∧ isAwakeWindow now = false then
    ({ decision with interfaceState := .sleeping }, { p with pendingOutboundTransaction := true })
  else
    ({ decision with interfaceState := .awake },
      { p with
        lastIncomingActivityAt := now
        sleepFlagEmitted := false
        mode := .highPower
        state := .active })

/-! ### What a tick does -/

/-- The tick wakes the network, or it leaves the mode that the idle check gives. -/
inductive Tick (p : PowerManager) (now : ℕ) : PowerDecision × PowerManager → Prop
  | wakes (decision : PowerDecision) (p' : PowerManager) (hwake : decision.wakeNetwork = true)
      (hmode : p'.mode = .highPower) (hpending : p.pendingOutboundTransaction = true)
      (hawake : isAwakeWindow now = true) (hidled : (p.idled now).mode = .synchronizedLowPower) :
      Tick p now (decision, p')
  | stays (decision : PowerDecision) (p' : PowerManager) (hwake : decision.wakeNetwork = false)
      (hmode : p'.mode = (p.idled now).mode)
      (hpending : p'.pendingOutboundTransaction = p.pendingOutboundTransaction)
      (hasleep : (p.idled now).mode = .synchronizedLowPower →
        p.pendingOutboundTransaction = true → isAwakeWindow now = false)
      (hinterface : decision.interfaceState = p'.interfaceState now) :
      Tick p now (decision, p')

@[simp] theorem pendingOutboundTransaction_idled (p : PowerManager) (now : ℕ) :
    (p.idled now).pendingOutboundTransaction = p.pendingOutboundTransaction := by
  unfold idled
  dsimp only
  split_ifs <;> rfl

/-- The idle check does not wake the node. -/
theorem mode_idled {p : PowerManager} (h : p.mode = .synchronizedLowPower) (now : ℕ) :
    (p.idled now).mode = .synchronizedLowPower := by
  unfold idled
  dsimp only
  split_ifs
  · rfl
  · exact h

theorem tick_tick (p : PowerManager) (now : ℕ) : Tick p now (p.tick now) := by
  unfold tick
  dsimp only
  split_ifs with hflag hwake hwake
  · simp only [Bool.and_eq_true, decide_eq_true_eq, pendingOutboundTransaction_idled] at hwake
    obtain ⟨⟨hmode, hpending⟩, hawake⟩ := hwake
    exact .wakes _ _ (by simp [hmode, hpending, hawake]) rfl hpending hawake hmode
  · refine .stays _ _ (by simpa using hwake) rfl (pendingOutboundTransaction_idled p now) ?_ rfl
    simpa using hwake
  · simp only [Bool.and_eq_true, decide_eq_true_eq, pendingOutboundTransaction_idled] at hwake
    obtain ⟨⟨hmode, hpending⟩, hawake⟩ := hwake
    exact .wakes _ _ (by simp [hmode, hpending, hawake]) rfl hpending hawake hmode
  · refine .stays _ _ (by simpa using hwake) rfl (pendingOutboundTransaction_idled p now) ?_ rfl
    simpa using hwake

/-! ### Transactions that wait -/

/-- A transaction waits for an awake window. -/
structure Armed (p : PowerManager) : Prop where
  mode : p.mode = .synchronizedLowPower
  pending : p.pendingOutboundTransaction = true

/-- The next tick in an awake window wakes the network. -/
theorem Armed.wakes {p : PowerManager} (h : p.Armed) {now : ℕ} (hawake : isAwakeWindow now) :
    (p.tick now).1.wakeNetwork = true := by
  have htick := p.tick_tick now
  generalize p.tick now = out at htick
  cases htick with
  | wakes decision p' hwake => exact hwake
  | stays decision p' _ _ _ hasleep =>
    rw [hasleep (mode_idled h.mode now) h.pending] at hawake
    cases hawake

/-- A tick outside the awake windows, which wakes nothing, leaves the transaction waiting. -/
theorem Armed.tick {p : PowerManager} (h : p.Armed) {now : ℕ}
    (hwake : (p.tick now).1.wakeNetwork = false) :
    (p.tick now).2.Armed ∧ isAwakeWindow now = false ∧
      (p.tick now).1.interfaceState = .sleeping := by
  have htick := p.tick_tick now
  generalize p.tick now = out at htick hwake
  cases htick with
  | wakes decision p' hwake' =>
    rw [hwake'] at hwake
    cases hwake
  | stays decision p' _ hmode hpending hasleep hinterface =>
    have hlow := mode_idled h.mode now
    have hasleep' := hasleep hlow h.pending
    refine ⟨⟨hmode.trans hlow, hpending.trans h.pending⟩, hasleep', ?_⟩
    rw [hinterface, interfaceState, hmode, hlow, hasleep']
    simp

/-- A transaction that is recorded while the interfaces sleep waits. -/
theorem armed_recordOutboundTransaction {p : PowerManager}
    (hmode : p.mode = .synchronizedLowPower) {now : ℕ} (hasleep : isAwakeWindow now = false) :
    (p.recordOutboundTransaction now).2.Armed := by
  have hlow : (p.tick now).2.mode = .synchronizedLowPower := by
    have htick := p.tick_tick now
    generalize p.tick now = out at htick
    cases htick with
    | wakes decision p' _ _ _ hawake =>
      rw [hasleep] at hawake
      cases hawake
    | stays decision p' _ hmode' => exact hmode'.trans (mode_idled hmode now)
  unfold recordOutboundTransaction
  dsimp only
  rw [if_pos ⟨hlow, hasleep⟩]
  exact ⟨hlow, rfl⟩

/-! ### Sleep -/

theorem interfaceState_eq_sleeping_iff (p : PowerManager) (now : ℕ) :
    p.interfaceState now = .sleeping ↔
      p.mode = .synchronizedLowPower ∧ isAwakeWindow now = false := by
  unfold interfaceState
  cases p.mode <;> cases isAwakeWindow now <;> decide

/-- Outside the awake windows, the node sleeps already or has been idle for long enough. -/
def Asleep (p : PowerManager) (now : ℕ) : Prop :=
  isAwakeWindow now = false ∧
    (p.mode = .synchronizedLowPower ∨ idleSleepTimeout ≤ now - p.lastIncomingActivityAt)

theorem mode_idled_iff (p : PowerManager) (now : ℕ) :
    (p.idled now).mode = .synchronizedLowPower ↔
      p.mode = .synchronizedLowPower ∨ idleSleepTimeout ≤ now - p.lastIncomingActivityAt := by
  unfold idled
  dsimp only
  split_ifs with hidle
  · exact iff_of_true rfl (Or.inr hidle.1)
  · refine ⟨Or.inl, fun h => ?_⟩
    rcases h with hmode | hlong
    · exact hmode
    · cases hmode : p.mode with
      | highPower => exact absurd ⟨hlong, hmode⟩ hidle
      | synchronizedLowPower => rfl

@[simp] theorem lastIncomingActivityAt_idled (p : PowerManager) (now : ℕ) :
    (p.idled now).lastIncomingActivityAt = p.lastIncomingActivityAt := by
  unfold idled
  dsimp only
  split_ifs <;> rfl

/-- Outside the awake windows, a tick does the idle check and wakes nothing. -/
theorem tick_of_not_isAwakeWindow (p : PowerManager) {now : ℕ} (h : isAwakeWindow now = false) :
    (p.tick now).1.wakeNetwork = false ∧ (p.tick now).2.mode = (p.idled now).mode ∧
      (p.tick now).2.lastIncomingActivityAt = p.lastIncomingActivityAt := by
  unfold tick
  simp only [h, Bool.and_false, Bool.false_eq_true, if_false, true_and]
  split_ifs <;> exact ⟨rfl, lastIncomingActivityAt_idled p now⟩

/-- The tick reports the interfaces as it leaves them. -/
theorem interfaceState_fst_tick (p : PowerManager) (now : ℕ) :
    (p.tick now).1.interfaceState = (p.tick now).2.interfaceState now := by
  unfold tick
  rfl

/-- A tick leaves the interfaces asleep when they are, or have been idle for long enough. -/
theorem interfaceState_tick_iff (p : PowerManager) (now : ℕ) :
    (p.tick now).2.interfaceState now = .sleeping ↔ p.Asleep now := by
  rw [interfaceState_eq_sleeping_iff, Asleep, and_comm]
  refine and_congr_right fun hasleep => ?_
  rw [(p.tick_of_not_isAwakeWindow hasleep).2.1, mode_idled_iff]

/-- A second tick at the same time finds what the first one found. -/
theorem asleep_tick_iff (p : PowerManager) (now : ℕ) :
    (p.tick now).2.Asleep now ↔ p.Asleep now := by
  refine and_congr_right fun hasleep => ?_
  obtain ⟨-, hmode, hlast⟩ := p.tick_of_not_isAwakeWindow hasleep
  rw [hmode, hlast, mode_idled_iff, or_assoc, or_self]

/-- What is sent while the interfaces sleep does not wake them. -/
theorem interfaceState_recordOutboundTransaction_iff (p : PowerManager) (now : ℕ) :
    (p.recordOutboundTransaction now).2.interfaceState now = .sleeping ↔ p.Asleep now := by
  rw [← interfaceState_tick_iff, interfaceState_eq_sleeping_iff, interfaceState_eq_sleeping_iff]
  unfold recordOutboundTransaction
  dsimp only
  split_ifs with hasleep
  · exact Iff.rfl
  · exact iff_of_false (fun h => by cases h.1) hasleep

/-- How a tick that wakes the network leaves the node. -/
theorem tick_of_wakeNetwork {p : PowerManager} {now : ℕ}
    (h : (p.tick now).1.wakeNetwork = true) :
    (p.tick now).2.mode = .highPower ∧ (p.tick now).2.state = .active ∧
      (p.tick now).2.lastIncomingActivityAt = now ∧
      (p.tick now).2.pendingOutboundTransaction = false := by
  unfold tick at h ⊢
  dsimp only at h ⊢
  split_ifs at h ⊢ <;> exact ⟨rfl, rfl, rfl, rfl⟩

/-- A tick that wakes the network enables the interfaces. -/
theorem interfaceState_of_wakeNetwork {p : PowerManager} {now : ℕ}
    (h : (p.tick now).1.wakeNetwork = true) : (p.tick now).2.interfaceState now = .awake :=
  if_pos (Or.inl (tick_of_wakeNetwork h).1)

/-! ### The sleep flag -/

/-- The next tick tells the others that the node goes to sleep. -/
def GoesToSleep (p : PowerManager) (now : ℕ) : Prop :=
  p.sleepFlagEmitted = false ∧
    (p.mode = .synchronizedLowPower ∨ idleSleepTimeout ≤ now - p.lastIncomingActivityAt)

instance (p : PowerManager) (now : ℕ) : Decidable (p.GoesToSleep now) :=
  inferInstanceAs (Decidable (_ ∧ _))

@[simp] theorem sleepFlagEmitted_idled (p : PowerManager) (now : ℕ) :
    (p.idled now).sleepFlagEmitted = p.sleepFlagEmitted := by
  unfold idled
  dsimp only
  split_ifs <;> rfl

theorem topologyFlags_tick (p : PowerManager) (now : ℕ) :
    (p.tick now).1.topologyFlags = if p.GoesToSleep now then [.goToSleep] else [] := by
  have hsleeps : (p.idled now).mode = .synchronizedLowPower ∧ p.sleepFlagEmitted = false ↔
      p.GoesToSleep now := by
    rw [mode_idled_iff, and_comm]
    rfl
  unfold tick
  simp only [sleepFlagEmitted_idled, hsleeps]
  by_cases h : p.GoesToSleep now <;> simp [h]

/-- The flag is emitted once: a second tick at the same time does not repeat it. -/
theorem not_goesToSleep_tick (p : PowerManager) (now : ℕ) : ¬ (p.tick now).2.GoesToSleep now := by
  have hidled := p.mode_idled_iff now
  unfold tick GoesToSleep
  dsimp only
  split_ifs with hflag hwake hwake
  · simp [idleSleepTimeout]
  · simp
  · simp [idleSleepTimeout]
  · rintro ⟨hemitted, hsleeps⟩
    rw [lastIncomingActivityAt_idled] at hsleeps
    refine hflag ⟨?_, hemitted⟩
    rcases hsleeps with hmode | hlong
    · exact hmode
    · exact hidled.2 (Or.inr hlong)

theorem topologyFlags_recordOutboundTransaction (p : PowerManager) (now : ℕ) :
    (p.recordOutboundTransaction now).1.topologyFlags = (p.tick now).1.topologyFlags := by
  unfold recordOutboundTransaction
  dsimp only
  split_ifs <;> rfl

theorem topologyFlags_recordIncomingTransaction (p : PowerManager) (now : ℕ) :
    (p.recordIncomingTransaction now).1.topologyFlags = [] := by
  unfold recordIncomingTransaction
  rw [topologyFlags_tick, if_neg]
  simp [GoesToSleep, idleSleepTimeout]

end PowerManager

end StellarConduit
