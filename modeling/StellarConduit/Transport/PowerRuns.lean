import StellarConduit.Lib.Machine
import StellarConduit.Transport.Power

/-!
# Runs of the power manager

The calls on a `PowerManager` of `transport/power.rs`, in any order.

* `PowerManager.step`: a tick, a transaction that is recorded, or a state that is set;
* `Latched`: in the low-power mode the sleep flag has been emitted;
* `one_sleep_flag_iff`: when every tick that puts the node to sleep says so;
* `wakes_at_barrier`: a transaction that waits wakes the network at the next barrier.
-/

namespace StellarConduit

open Verif.Machine

inductive PowerCall
  | tick (now : ℕ)
  | recordIncomingTransaction (now : ℕ)
  | recordOutboundTransaction (now : ℕ)
  | setState (state : PowerState)

inductive PowerAnswer
  | decided (decision : PowerDecision)
  | updated (update : Option TopologyUpdate)

namespace PowerManager

def step (p : PowerManager) : PowerCall → PowerAnswer × PowerManager
  | .tick now => let (decision, p) := p.tick now; (.decided decision, p)
  | .recordIncomingTransaction now =>
    let (decision, p) := p.recordIncomingTransaction now
    (.decided decision, p)
  | .recordOutboundTransaction now =>
    let (decision, p) := p.recordOutboundTransaction now
    (.decided decision, p)
  | .setState state => let (update, p) := p.setState state; (.updated update, p)

@[simp] theorem snd_step_tick (p : PowerManager) (now : ℕ) :
    (p.step (.tick now)).2 = (p.tick now).2 := by
  dsimp only [step]

@[simp] theorem snd_step_recordOutboundTransaction (p : PowerManager) (now : ℕ) :
    (p.step (.recordOutboundTransaction now)).2 = (p.recordOutboundTransaction now).2 := by
  dsimp only [step]

/-- A transaction has come in, and no tick was made for it yet. -/
def onIncoming (p : PowerManager) (now : ℕ) : PowerManager :=
  { p with
    lastIncomingActivityAt := now
    pendingOutboundTransaction := false
    sleepFlagEmitted := false
    mode := .highPower
    state := .active }

theorem recordIncomingTransaction_eq (p : PowerManager) (now : ℕ) :
    p.recordIncomingTransaction now = (p.onIncoming now).tick now := rfl

@[simp] theorem snd_step_recordIncomingTransaction (p : PowerManager) (now : ℕ) :
    (p.step (.recordIncomingTransaction now)).2 = ((p.onIncoming now).tick now).2 := by
  dsimp only [step]
  rw [recordIncomingTransaction_eq]

end PowerManager

abbrev PowerEvent := Event PowerManager PowerCall PowerAnswer

/-- The tick that a call makes: the manager it starts from, and its time. -/
def PowerCall.tickOf (p : PowerManager) : PowerCall → Option (PowerManager × ℕ)
  | .tick now => some (p, now)
  | .recordIncomingTransaction now => some (p.onIncoming now, now)
  | .recordOutboundTransaction now => some (p, now)
  | .setState _ => none

/-- A call after other ones. -/
def PowerManager.eventAfter (p : PowerManager) (pre : List PowerCall) (c : PowerCall) :
    PowerEvent :=
  ⟨exec step p pre, c, (step (exec step p pre) c).1⟩

/-- The answer tells the others that the node goes to sleep. -/
def Reports (e : PowerEvent) : Prop :=
  ∃ decision, e.output = .decided decision ∧ .goToSleep ∈ decision.topologyFlags

/-- The tick of the call moves the mode. -/
def FallsAsleep (e : PowerEvent) : Prop :=
  ∃ p now, e.input.tickOf e.before = some (p, now) ∧ p.mode = .highPower ∧
    (p.tick now).2.mode = .synchronizedLowPower

/-- The tick of the call finds a node that has been idle for long enough, with nothing to wake up
for, but the sleep flag counts as emitted. -/
def Muted (e : PowerEvent) : Prop :=
  ∃ p now, e.input.tickOf e.before = some (p, now) ∧ p.mode = .highPower ∧
    idleSleepTimeout ≤ now - p.lastIncomingActivityAt ∧
    ¬ (p.pendingOutboundTransaction = true ∧ isAwakeWindow now = true) ∧
    p.sleepFlagEmitted = true

namespace PowerManager

/-! ### One call -/

/-- A tick ends in the low-power mode when the idle check gives it, and nothing wakes the node. -/
theorem mode_tick_iff (p : PowerManager) (now : ℕ) :
    (p.tick now).2.mode = .synchronizedLowPower ↔
      (p.mode = .synchronizedLowPower ∨ idleSleepTimeout ≤ now - p.lastIncomingActivityAt) ∧
        ¬ (p.pendingOutboundTransaction = true ∧ isAwakeWindow now = true) := by
  have htick := p.tick_tick now
  rw [← mode_idled_iff]
  generalize p.tick now = out at htick
  cases htick with
  | wakes decision p' _ hmode hpending hawake =>
    simp [hmode, hpending, hawake]
  | stays decision p' _ hmode _ hasleep =>
    show p'.mode = _ ↔ _
    rw [hmode]
    constructor
    · intro hlow
      refine ⟨hlow, ?_⟩
      rintro ⟨hpending, hawake⟩
      rw [hasleep hlow hpending] at hawake
      cases hawake
    · exact And.left

theorem goToSleep_mem_tick_iff (p : PowerManager) (now : ℕ) :
    .goToSleep ∈ (p.tick now).1.topologyFlags ↔ p.GoesToSleep now := by
  rw [topologyFlags_tick]
  split_ifs with h <;> simp [h]

/-- A call reports what its tick reports. -/
theorem reports_iff (p : PowerManager) (c : PowerCall) :
    Reports ⟨p, c, (p.step c).1⟩ ↔ ∃ p' now, c.tickOf p = some (p', now) ∧ p'.GoesToSleep now := by
  cases c with
  | tick now =>
    simp [Reports, step, PowerCall.tickOf, goToSleep_mem_tick_iff]
  | recordIncomingTransaction now =>
    simp [Reports, step, PowerCall.tickOf, recordIncomingTransaction_eq, goToSleep_mem_tick_iff]
  | recordOutboundTransaction now =>
    simp [Reports, step, PowerCall.tickOf, topologyFlags_recordOutboundTransaction,
      goToSleep_mem_tick_iff]
  | setState state => simp [Reports, step, PowerCall.tickOf]

/-! ### The sleep flag over a run -/

/-- In the low-power mode the sleep flag has been emitted. -/
def Latched (p : PowerManager) : Prop :=
  p.sleepFlagEmitted = true ∨ p.mode = .highPower

theorem latched_tick (p : PowerManager) (now : ℕ) : (p.tick now).2.Latched := by
  unfold tick Latched
  dsimp only
  split_ifs with hflag hwake hwake
  · exact .inr rfl
  · exact .inl rfl
  · exact .inr rfl
  · -- No flag is emitted: it was before, or the node is not asleep.
    cases hmode : (p.idled now).mode with
    | highPower => exact .inr rfl
    | synchronizedLowPower =>
      refine .inl ?_
      by_contra hnot
      exact hflag ⟨hmode, by simpa using hnot⟩

/-- A call that makes a tick leaves the flag emitted if the node sleeps then. -/
theorem latched_step_of_tickOf {p p' : PowerManager} {c : PowerCall} {now : ℕ}
    (h : c.tickOf p = some (p', now)) : (p.step c).2.Latched := by
  cases c with
  | tick now =>
    rw [snd_step_tick]
    exact p.latched_tick now
  | recordIncomingTransaction now =>
    rw [snd_step_recordIncomingTransaction]
    exact (p.onIncoming now).latched_tick now
  | recordOutboundTransaction now =>
    have htick := p.latched_tick now
    rw [snd_step_recordOutboundTransaction]
    unfold recordOutboundTransaction
    dsimp only
    split_ifs
    · exact htick
    · exact .inr rfl
  | setState state => cases h

/-- Once the flag is emitted, it is until the node is awake. -/
theorem latched_step {p : PowerManager} (h : p.sleepFlagEmitted = true) (c : PowerCall) :
    (p.step c).2.Latched := by
  cases hc : c.tickOf p with
  | some tick => exact latched_step_of_tickOf hc
  | none =>
    cases c with
    | setState state =>
      refine .inl ?_
      show (p.setState state).2.sleepFlagEmitted = true
      cases state <;> exact h
    | tick now => cases hc
    | recordIncomingTransaction now => cases hc
    | recordOutboundTransaction now => cases hc

/-- While the node is not awake, the flag stays emitted. -/
theorem sleepFlagEmitted_exec {p : PowerManager} (h : p.Latched) {calls : List PowerCall}
    (hasleep : ∀ mid post, calls = mid ++ post → (exec step p mid).mode ≠ .highPower) :
    (exec step p calls).sleepFlagEmitted = true := by
  have hemitted : p.sleepFlagEmitted = true := h.resolve_right (hasleep [] calls rfl)
  induction calls generalizing p with
  | nil => exact hemitted
  | cons c calls ih =>
    have hnext := latched_step hemitted c
    have hrest : ∀ mid post, calls = mid ++ post →
        (exec step (p.step c).2 mid).mode ≠ .highPower := by
      intro mid post hsplit
      exact hasleep (c :: mid) post (by rw [hsplit]; rfl)
    exact ih hnext hrest (hnext.resolve_right (hrest [] calls rfl))

/-- A report is made when the flag has not been emitted, and leaves it emitted. -/
theorem latched_of_reports {p : PowerManager} {c : PowerCall}
    (h : Reports ⟨p, c, (p.step c).1⟩) : p.sleepFlagEmitted = false ∧ (p.step c).2.Latched := by
  obtain ⟨p', now, htick, hflag, hidle⟩ := (p.reports_iff c).1 h
  refine ⟨?_, latched_step_of_tickOf htick⟩
  cases c with
  | tick now =>
    cases htick
    exact hflag
  | recordIncomingTransaction now =>
    -- The node has just been active.
    cases htick
    simp [onIncoming, idleSleepTimeout] at hidle
  | recordOutboundTransaction now =>
    cases htick
    exact hflag
  | setState state => cases htick

/-- **No second report.**  Between two reports the node is awake. -/
theorem awake_between_reports (p : PowerManager) {pre mid : List PowerCall} {c c' : PowerCall}
    (h : Reports (p.eventAfter pre c)) (h' : Reports (p.eventAfter (pre ++ c :: mid) c')) :
    ∃ mid' mid'', mid = mid' ++ mid'' ∧
      (exec step p (pre ++ c :: mid')).mode = .highPower := by
  obtain ⟨-, hlatched⟩ := latched_of_reports h
  obtain ⟨hflag, -⟩ := latched_of_reports h'
  by_contra hnone
  push Not at hnone
  have hasleep : ∀ mid' mid'', mid = mid' ++ mid'' →
      (exec step (step (exec step p pre) c).2 mid').mode ≠ .highPower := by
    intro mid' mid'' hsplit
    have hmode := hnone mid' mid'' hsplit
    rwa [exec_append] at hmode
  have hemitted := sleepFlagEmitted_exec hlatched hasleep
  have hrun : exec step p (pre ++ c :: mid) = exec step (step (exec step p pre) c).2 mid :=
    exec_append step p pre (c :: mid)
  rw [hrun, hemitted] at hflag
  cases hflag

/-- A tick that moves the mode reports it unless the flag counts as emitted already. -/
theorem reports_iff_not_muted {p : PowerManager} {c : PowerCall}
    (h : FallsAsleep ⟨p, c, (p.step c).1⟩) :
    Reports ⟨p, c, (p.step c).1⟩ ↔ ¬ Muted ⟨p, c, (p.step c).1⟩ := by
  obtain ⟨p', now, htick, hmode, hlow⟩ := h
  obtain ⟨hasleep, hquiet⟩ := (p'.mode_tick_iff now).1 hlow
  have hidle : idleSleepTimeout ≤ now - p'.lastIncomingActivityAt := by
    rcases hasleep with hlow | hidle
    · rw [hmode] at hlow
      cases hlow
    · exact hidle
  rw [reports_iff]
  constructor
  · rintro ⟨q, t, htick', hflag, -⟩ ⟨q', t', htick'', -, -, -, hmuted⟩
    rw [htick'] at htick''
    cases htick''
    rw [hflag] at hmuted
    cases hmuted
  · intro hnot
    refine ⟨p', now, htick, ?_, .inr hidle⟩
    by_contra hflag
    exact hnot ⟨p', now, htick, hmode, hidle, hquiet, by simpa using hflag⟩

theorem fallsAsleep_of_muted {e : PowerEvent} (h : Muted e) : FallsAsleep e := by
  obtain ⟨p, now, htick, hmode, hidle, hquiet, -⟩ := h
  exact ⟨p, now, htick, hmode, (p.mode_tick_iff now).2 ⟨.inr hidle, hquiet⟩⟩

/-- Where the flag has been emitted, the node sleeps. -/
def Told (p : PowerManager) : Prop := p.sleepFlagEmitted = true → p.mode = .synchronizedLowPower

theorem told_tick {p : PowerManager} (h : p.Told) (now : ℕ) : (p.tick now).2.Told := by
  unfold tick Told
  dsimp only
  split_ifs with hflag hwake hwake
  · exact False.elim
  · exact fun _ => hflag.1
  · exact False.elim
  · intro hemitted
    rw [sleepFlagEmitted_idled] at hemitted
    exact mode_idled (h hemitted) now

/-- Only `set_state` can leave the flag emitted when the node is awake. -/
theorem told_step {p : PowerManager} (h : p.Told) {c : PowerCall} (hc : c ≠ .setState .active) :
    (p.step c).2.Told := by
  cases c with
  | tick now =>
    rw [snd_step_tick]
    exact told_tick h now
  | recordIncomingTransaction now =>
    rw [snd_step_recordIncomingTransaction]
    exact told_tick (fun hfalse => absurd hfalse Bool.false_ne_true) now
  | recordOutboundTransaction now =>
    have htick := told_tick h now
    rw [snd_step_recordOutboundTransaction]
    unfold recordOutboundTransaction
    dsimp only
    split_ifs
    · exact htick
    · exact fun hfalse => absurd hfalse Bool.false_ne_true
  | setState state =>
    cases state with
    | active => exact absurd rfl hc
    | lowPower => exact fun _ => rfl
    | deepSleep => exact fun _ => rfl

/-- **What mutes a tick.**  Without `set_state(Active)` no tick of a run is muted. -/
theorem not_muted_of_calls {start : ℕ} {pre : List PowerCall}
    (h : ∀ c ∈ pre, c ≠ .setState .active) (c : PowerCall) :
    ¬ Muted ((PowerManager.new start).eventAfter pre c) := by
  have htold : (exec step (PowerManager.new start) pre).Told :=
    exec_invariant Told (fun p c hc hp => told_step hp (h c hc))
      fun hfalse => absurd hfalse Bool.false_ne_true
  rintro ⟨p, now, htick, hmode, -, -, hflag⟩
  cases c with
  | tick now =>
    cases htick
    cases (htold hflag).symm.trans hmode
  | recordIncomingTransaction now =>
    cases htick
    cases hflag
  | recordOutboundTransaction now =>
    cases htick
    cases (htold hflag).symm.trans hmode
  | setState state => cases htick

end PowerManager

open PowerManager

/-- **One report for each sleep.**  In a run of calls every tick that puts the node to sleep reports
it, and between two reports the node is awake, if and only if no tick that puts it to sleep finds
the sleep flag emitted. -/
theorem one_sleep_flag_iff (p : PowerManager) (calls : List PowerCall) :
    ((∀ pre c post, calls = pre ++ c :: post →
        FallsAsleep (p.eventAfter pre c) → Reports (p.eventAfter pre c)) ∧
      ∀ pre c mid c' post, calls = pre ++ c :: (mid ++ c' :: post) →
        Reports (p.eventAfter pre c) → Reports (p.eventAfter (pre ++ c :: mid) c') →
        ∃ mid' mid'', mid = mid' ++ mid'' ∧
          (exec step p (pre ++ c :: mid')).mode = .highPower) ↔
      ∀ pre c post, calls = pre ++ c :: post → ¬ Muted (p.eventAfter pre c) := by
  constructor
  · rintro ⟨hreports, -⟩ pre c post hsplit hmuted
    have hfalls := fallsAsleep_of_muted hmuted
    exact (reports_iff_not_muted hfalls).1 (hreports pre c post hsplit hfalls) hmuted
  · intro hnever
    constructor
    · intro pre c post hsplit hfalls
      exact (reports_iff_not_muted hfalls).2 (hnever pre c post hsplit)
    · intro pre c mid c' post _ h h'
      exact p.awake_between_reports h h'

/-- The node goes to sleep, is set active by hand, and goes to sleep again without telling. -/
theorem silent_sleep_sample :
    let calls := [.tick 300000000000, .setState .active]
    let e := (PowerManager.new 0).eventAfter calls (.tick 301000000000)
    FallsAsleep e ∧ ¬ Reports e := by
  intro calls e
  have hfalls : FallsAsleep e := ⟨_, _, rfl, by decide +kernel, by decide +kernel⟩
  refine ⟨hfalls, ?_⟩
  rintro ⟨decision, houtput, hflag⟩
  cases houtput
  exact absurd hflag (by decide +kernel)

/-! ### Waiting for the barrier -/

/-- A call while a transaction waits. -/
inductive WaitingCall
  | tick (now : ℕ)
  | recordOutboundTransaction (now : ℕ)

def WaitingCall.time : WaitingCall → ℕ
  | .tick now => now
  | .recordOutboundTransaction now => now

namespace PowerManager

def waitingStep (p : PowerManager) : WaitingCall → PowerDecision × PowerManager
  | .tick now => p.tick now
  | .recordOutboundTransaction now => p.recordOutboundTransaction now

/-- An answer with sleeping interfaces leaves the transaction waiting. -/
theorem armed_of_sleeping {p : PowerManager} {now : ℕ}
    (h : (p.recordOutboundTransaction now).1.interfaceState = .sleeping) :
    (p.recordOutboundTransaction now).2.Armed ∧ isAwakeWindow now = false := by
  unfold recordOutboundTransaction at h ⊢
  dsimp only at h ⊢
  split_ifs at h ⊢ with hasleep
  · exact ⟨⟨hasleep.1, rfl⟩, hasleep.2⟩
  · cases h

theorem wakeNetwork_recordOutboundTransaction (p : PowerManager) (now : ℕ) :
    (p.recordOutboundTransaction now).1.wakeNetwork = (p.tick now).1.wakeNetwork := by
  unfold recordOutboundTransaction
  dsimp only
  split_ifs <;> rfl

/-- Outside the awake windows a call wakes nothing, and the transaction waits on. -/
theorem Armed.keepsWaiting {p : PowerManager} (h : p.Armed) {c : WaitingCall}
    (hasleep : isAwakeWindow c.time = false) :
    (p.waitingStep c).1.wakeNetwork = false ∧ (p.waitingStep c).2.Armed := by
  unfold waitingStep
  cases c with
  | tick now =>
    obtain ⟨hwake, -⟩ := p.tick_of_not_isAwakeWindow hasleep
    exact ⟨hwake, (h.tick hwake).1⟩
  | recordOutboundTransaction now =>
    obtain ⟨hwake, -⟩ := p.tick_of_not_isAwakeWindow hasleep
    exact ⟨(p.wakeNetwork_recordOutboundTransaction now).trans hwake,
      armed_recordOutboundTransaction h.mode hasleep⟩

/-- The network is awake: the call says so, and so are the node and its interfaces. -/
structure WokenUp (out : PowerDecision × PowerManager) : Prop where
  wakeNetwork : out.1.wakeNetwork = true
  mode : out.2.mode = .highPower
  state : out.2.state = .active
  interfaceState : out.1.interfaceState = .awake

theorem wokenUp_tick {p : PowerManager} {now : ℕ} (h : (p.tick now).1.wakeNetwork = true) :
    WokenUp (p.tick now) := by
  obtain ⟨hmode, hstate, -, -⟩ := tick_of_wakeNetwork h
  have hinterface := (p.interfaceState_fst_tick now).trans (interfaceState_of_wakeNetwork h)
  exact ⟨h, hmode, hstate, hinterface⟩

/-- The first call in an awake window wakes the network. -/
theorem Armed.wokenUp {p : PowerManager} (h : p.Armed) {c : WaitingCall}
    (hawake : isAwakeWindow c.time = true) : WokenUp (p.waitingStep c) := by
  cases c with
  | tick now => exact wokenUp_tick (h.wakes hawake)
  | recordOutboundTransaction now =>
    have hnow : isAwakeWindow now = true := hawake
    have hwoken := wokenUp_tick (h.wakes hnow)
    show WokenUp (p.recordOutboundTransaction now)
    have hmode : ¬ ((p.tick now).2.mode = .synchronizedLowPower ∧ isAwakeWindow now = false) := by
      rw [hwoken.mode]
      simp
    refine ⟨(p.wakeNetwork_recordOutboundTransaction now).trans hwoken.wakeNetwork, ?_, ?_, ?_⟩
    all_goals
      unfold PowerManager.recordOutboundTransaction
      dsimp only
      rw [if_neg hmode]

end PowerManager

/-! ### The barrier -/

section Barrier

variable {t : ℕ}

theorem nextAwakeBarrier_eq (h : asMillis t < 2 ^ 64 - 5000) :
    nextAwakeBarrier t = (asMillis t / 5000 + 1) * 5000 * 1000000 := by
  have hfits : (asMillis t / 5000 + 1) * 5000 < 2 ^ 64 := by omega
  show (UInt64.ofNat ((asMillis t / 5000 + 1) * 5000)).toNat * 1000000 = _
  rw [UInt64.toNat_ofNat', Nat.mod_eq_of_lt hfits]

/-- The barrier is a multiple of five seconds, and the next one. -/
theorem nextAwakeBarrier_spec (h : asMillis t < 2 ^ 64 - 5000) :
    nextAwakeBarrier t % synchronizedWakeInterval = 0 ∧ t < nextAwakeBarrier t ∧
      nextAwakeBarrier t ≤ t + synchronizedWakeInterval := by
  rw [nextAwakeBarrier_eq h]
  unfold asMillis synchronizedWakeInterval
  omega

theorem isAwakeWindow_iff (now : ℕ) : isAwakeWindow now = true ↔ asMillis now % 5000 < 500 :=
  decide_eq_true_iff

/-- After a time outside the awake windows, there is none before the barrier. -/
theorem not_isAwakeWindow_of_lt (h : asMillis t < 2 ^ 64 - 5000) (hasleep : isAwakeWindow t = false)
    {now : ℕ} (hle : t ≤ now) (hlt : now < nextAwakeBarrier t) : isAwakeWindow now = false := by
  rw [← Bool.not_eq_true, isAwakeWindow_iff] at hasleep ⊢
  rw [nextAwakeBarrier_eq h] at hlt
  unfold asMillis at hasleep hlt ⊢
  omega

/-- At the barrier an awake window begins. -/
theorem isAwakeWindow_of_barrier (h : asMillis t < 2 ^ 64 - 5000) {now : ℕ}
    (hle : nextAwakeBarrier t ≤ now) (hlt : now < nextAwakeBarrier t + synchronizedWakeWindow) :
    isAwakeWindow now = true := by
  rw [isAwakeWindow_iff]
  rw [nextAwakeBarrier_eq h] at hle hlt
  unfold synchronizedWakeWindow at hlt
  unfold asMillis at hle hlt ⊢
  omega

/-- Until the barrier the transaction waits on. -/
theorem armed_exec {p : PowerManager} (h : p.Armed) (hfits : asMillis t < 2 ^ 64 - 5000)
    (hasleep : isAwakeWindow t = false) {calls : List WaitingCall}
    (hcalls : ∀ c ∈ calls, t ≤ c.time ∧ c.time < nextAwakeBarrier t) :
    (exec waitingStep p calls).Armed := by
  refine exec_invariant Armed (fun p c hc harmed => ?_) h
  obtain ⟨hle, hlt⟩ := hcalls c hc
  exact (harmed.keepsWaiting (not_isAwakeWindow_of_lt hfits hasleep hle hlt)).2

end Barrier

/-- Calls at non-decreasing times come no earlier than those before them. -/
theorem time_le_of_pairwise {t : ℕ} {pre post : List WaitingCall} {c : WaitingCall}
    (h : (t :: (pre ++ c :: post).map WaitingCall.time).Pairwise (· ≤ ·)) :
    (∀ c' ∈ pre, t ≤ c'.time ∧ c'.time ≤ c.time) ∧ t ≤ c.time := by
  rw [List.map_append, List.map_cons, List.pairwise_cons, List.pairwise_append] at h
  obtain ⟨hstart, -, -, hbefore⟩ := h
  refine ⟨fun c' hc' => ?_, ?_⟩
  · have hmem := List.mem_map_of_mem (f := WaitingCall.time) hc'
    exact ⟨hstart _ (List.mem_append_left _ hmem), hbefore _ hmem _ List.mem_cons_self⟩
  · exact hstart _ (List.mem_append_right _ List.mem_cons_self)

/-- **A transaction that waits.**  Let the answer to an outbound transaction at `t` be that the
interfaces sleep. Whatever ticks and outbound transactions follow, none before the next barrier
wakes the network, and the first one in the awake window that begins there does. The barrier is the
first multiple of five seconds after `t`, and there is no awake window before it. -/
theorem wakes_at_barrier (p : PowerManager) (t : ℕ) (hfits : asMillis t < 2 ^ 64 - 5000)
    (hsleeping : (p.recordOutboundTransaction t).1.interfaceState = .sleeping)
    (calls : List WaitingCall) (htimes : (t :: calls.map WaitingCall.time).Pairwise (· ≤ ·)) :
    let barrier := nextAwakeBarrier t
    let waiting := (p.recordOutboundTransaction t).2
    (∀ e ∈ trace waitingStep waiting calls, e.input.time < barrier →
        e.output.wakeNetwork = false) ∧
      (∀ pre c post, calls = pre ++ c :: post →
        barrier ≤ c.time → c.time < barrier + synchronizedWakeWindow →
        (∀ c' ∈ pre, ¬ (barrier ≤ c'.time ∧ c'.time < barrier + synchronizedWakeWindow)) →
        WokenUp ((exec waitingStep waiting pre).waitingStep c)) ∧
      barrier % synchronizedWakeInterval = 0 ∧ t < barrier ∧
      barrier ≤ t + synchronizedWakeInterval ∧
      ∀ now, t ≤ now → now < barrier → isAwakeWindow now = false := by
  intro barrier waiting
  obtain ⟨harmed, hasleep⟩ := armed_of_sleeping hsleeping
  obtain ⟨hmultiple, hlater, hnext⟩ := nextAwakeBarrier_spec hfits
  refine ⟨?_, ?_, hmultiple, hlater, hnext, fun now => not_isAwakeWindow_of_lt hfits hasleep⟩
  · intro e he hlt
    obtain ⟨pre, c, post, rfl, rfl⟩ := mem_trace he
    obtain ⟨hpre, hc⟩ := time_le_of_pairwise htimes
    -- Up to the barrier the manager stays armed, whatever is called.
    have hwaits : (exec waitingStep waiting pre).Armed := by
      refine armed_exec harmed hfits hasleep fun c' hc' => ?_
      exact ⟨(hpre c' hc').1, (hpre c' hc').2.trans_lt hlt⟩
    exact (hwaits.keepsWaiting (not_isAwakeWindow_of_lt hfits hasleep hc hlt)).1
  · rintro pre c post rfl hle hlt hfirst
    obtain ⟨hpre, -⟩ := time_le_of_pairwise htimes
    have hwaits : (exec waitingStep waiting pre).Armed := by
      refine armed_exec harmed hfits hasleep fun c' hc' => ?_
      obtain ⟨hstart, hbefore⟩ := hpre c' hc'
      refine ⟨hstart, ?_⟩
      by_contra hge
      exact hfirst c' hc' ⟨Nat.not_lt.1 hge, hbefore.trans_lt hlt⟩
    exact hwaits.wokenUp (isAwakeWindow_of_barrier hfits hle hlt)

/-- A node that went to sleep after five minutes. -/
def sampleSlept : PowerManager := ((PowerManager.new 0).tick 300000000000).2

/-- A transaction at 301 seconds waits over a tick, and the tick at 305 seconds wakes the
network. -/
theorem wakes_at_barrier_sample :
    let waiting := (sampleSlept.recordOutboundTransaction 301000000000).2
    WokenUp ((exec waitingStep waiting [.tick 302000000000]).waitingStep
      (.tick 305000000000)) := by
  intro waiting
  have hrun := wakes_at_barrier sampleSlept 301000000000 (by decide +kernel) (by decide +kernel)
    [.tick 302000000000, .tick 305000000000] (by decide +kernel)
  refine hrun.2.1 [.tick 302000000000] _ [] rfl (by decide +kernel) (by decide +kernel) ?_
  decide +kernel

/-- When a second transaction is recorded at the barrier, it wakes the network, and the first `tick`
in the awake window does not report it any more. -/
theorem late_tick_sample :
    let waiting := (sampleSlept.recordOutboundTransaction 301000000000).2
    (sampleSlept.recordOutboundTransaction 301000000000).1.interfaceState = .sleeping ∧
      nextAwakeBarrier 301000000000 = 305000000000 ∧
      ((exec waitingStep waiting [.recordOutboundTransaction 305000000000]).waitingStep
        (.tick 305001000000)).1.wakeNetwork = false := by
  decide +kernel

end StellarConduit
