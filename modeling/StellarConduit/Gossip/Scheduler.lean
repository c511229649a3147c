import StellarConduit.Transport.DutyCycle

/-!
# When gossip rounds are executed

`gossip/round.rs`, and the iterations of `run_gossip_loop`: its `select!` sleeps for an interval, or
handles whatever comes first.  The sleep starts anew in every iteration, and nothing in the loop
records activity.

* `GossipScheduler`: the scheduler, with instants in nanoseconds;
* `LoopClock.step`: one iteration of the loop, with what it reads;
* `Timely`: the readings of an iteration are in order, and no sleep is too short;
* `rounds_exec`: when rounds are executed.
-/

namespace StellarConduit

open Verif.Machine

structure GossipScheduler where
  lastRoundTime : ℕ
  lastActiveMsgTime : ℕ
  /-- Whether a power manager is attached. -/
  powerManager : Bool

namespace GossipScheduler

def activeRoundInterval : ℕ := 500 * 1000000

def idleRoundInterval : ℕ := 5000 * 1000000

def idleTimeout : ℕ := 30 * 1000000000

def new (now : ℕ) : GossipScheduler := ⟨now, now, false⟩

def withPowerManager (now : ℕ) : GossipScheduler := ⟨now, now, true⟩

def roundExecuted (s : GossipScheduler) (now : ℕ) : GossipScheduler :=
  { s with lastRoundTime := now }

def isIdle (s : GossipScheduler) (now : ℕ) : Bool :=
  decide (idleTimeout ≤ now - s.lastActiveMsgTime)

/-- `current_interval`; `guard` is what the lock of the power manager gives, if it is attached. -/
def currentInterval (s : GossipScheduler) (now : ℕ) (guard : Option PowerManager) : ℕ :=
  match if s.powerManager then guard else none with
  | some p => p.recommendedRoundInterval
  | none => if s.isIdle now then idleRoundInterval else activeRoundInterval

/-- `is_time_for_round`, which reads the clock twice. -/
def isTimeForRound (s : GossipScheduler) (now intervalNow : ℕ) (guard : Option PowerManager) :
    Bool :=
  decide (s.currentInterval intervalNow guard ≤ now - s.lastRoundTime)

/-- How long `select!` sleeps. -/
def sleepTime (s : GossipScheduler) (now : ℕ) : ℕ :=
  if s.isIdle now then idleRoundInterval else activeRoundInterval

end GossipScheduler

/-- An iteration in which the sleep is over first, with the clock readings of the iteration. -/
structure SleepReadings where
  /-- by `is_idle`, for the length of the sleep -/
  idleAt : ℕ
  sleepFrom : ℕ
  wokenAt : ℕ
  checkedAt : ℕ
  intervalAt : ℕ
  guard : Option PowerManager
  executedAt : ℕ

inductive LoopIteration
  | slept (readings : SleepReadings)
  /-- Another arm of `select!` is handled, until this instant. -/
  | handled (doneAt : ℕ)

structure LoopClock where
  scheduler : GossipScheduler
  now : ℕ

namespace LoopClock

/-- One iteration; the answer says whether a round was executed. -/
def step (c : LoopClock) : LoopIteration → Bool × LoopClock
  | .slept r =>
    if c.scheduler.isTimeForRound r.checkedAt r.intervalAt r.guard then
      (true, ⟨c.scheduler.roundExecuted r.executedAt, r.executedAt⟩)
    else (false, ⟨c.scheduler, r.intervalAt⟩)
  | .handled doneAt => (false, ⟨c.scheduler, doneAt⟩)

abbrev LoopEvent := Event LoopClock LoopIteration Bool

/-- The readings are in order, and the sleep lasts as long as it should. -/
def Timely (e : LoopEvent) : Prop :=
  match e.input with
  | .slept r =>
    e.before.now ≤ r.idleAt ∧ r.idleAt ≤ r.sleepFrom ∧
      r.sleepFrom + e.before.scheduler.sleepTime r.idleAt ≤ r.wokenAt ∧
        r.wokenAt ≤ r.checkedAt ∧ r.checkedAt ≤ r.intervalAt ∧ r.intervalAt ≤ r.executedAt
  | .handled doneAt => e.before.now ≤ doneAt

instance : DecidablePred Timely := fun e =>
  match e with
  | ⟨_, .slept _, _⟩ => inferInstanceAs (Decidable (_ ≤ _ ∧ _ ≤ _ ∧ _ ≤ _ ∧ _ ≤ _ ∧ _ ≤ _ ∧ _ ≤ _))
  | ⟨_, .handled _, _⟩ => inferInstanceAs (Decidable (_ ≤ _))

/-- A round is executed in the iteration. -/
def Executes (e : LoopEvent) (r : SleepReadings) : Prop := e.input = .slept r ∧ e.output = true

/-! ### One iteration -/

/-- Time has passed, and rounds may have been executed; no activity has been recorded. -/
structure Later (c c' : LoopClock) : Prop where
  now_le : c.now ≤ c'.now
  lastRoundTime_le : c.scheduler.lastRoundTime ≤ c'.scheduler.lastRoundTime
  lastActiveMsgTime_eq : c'.scheduler.lastActiveMsgTime = c.scheduler.lastActiveMsgTime
  powerManager_eq : c'.scheduler.powerManager = c.scheduler.powerManager
  settled : c'.scheduler.lastRoundTime ≤ c'.now

theorem Later.refl {c : LoopClock} (h : c.scheduler.lastRoundTime ≤ c.now) : Later c c :=
  ⟨Nat.le_refl _, Nat.le_refl _, rfl, rfl, h⟩

theorem Later.step {c c' : LoopClock} (h : Later c c') {i : LoopIteration}
    (htimely : Timely ⟨c', i, (c'.step i).1⟩) : Later c (c'.step i).2 := by
  obtain ⟨hnow, hround, hactive, hpower, hsettled⟩ := h
  cases i with
  | handled doneAt =>
    have hdone : c'.now ≤ doneAt := htimely
    exact ⟨hnow.trans hdone, hround, hactive, hpower, hsettled.trans hdone⟩
  | slept r =>
    obtain ⟨hidle, hfrom, hwoken, hchecked, hinterval, hexecuted⟩ := htimely
    dsimp only at hidle hwoken
    unfold LoopClock.step
    dsimp only
    split_ifs
    · exact ⟨by dsimp only; omega, by show _ ≤ r.executedAt; omega, hactive, hpower, Nat.le_refl _⟩
    · exact ⟨by dsimp only; omega, hround, hactive, hpower, by dsimp only; omega⟩

/-- The lengths of sleeps and intervals depend on what does not change. -/
theorem Later.sleepTime_eq {c c' : LoopClock} (h : Later c c') (now : ℕ) :
    c'.scheduler.sleepTime now = c.scheduler.sleepTime now := by
  unfold GossipScheduler.sleepTime GossipScheduler.isIdle
  rw [h.lastActiveMsgTime_eq]

theorem Later.currentInterval_eq {c c' : LoopClock} (h : Later c c') (now : ℕ)
    (guard : Option PowerManager) :
    c'.scheduler.currentInterval now guard = c.scheduler.currentInterval now guard := by
  unfold GossipScheduler.currentInterval GossipScheduler.isIdle
  rw [h.lastActiveMsgTime_eq, h.powerManager_eq]

theorem later_exec {c c' : LoopClock} (h : Later c c') {is : List LoopIteration}
    (htimely : ∀ e ∈ trace step c' is, Timely e) :
    (∀ e ∈ trace step c' is, Later c e.before) ∧ Later c (exec step c' is) :=
  trace_invariant (Later c) (fun _ _ htimely h => h.step htimely) htimely h

/-- A round that is executed comes after its sleep, and after its interval. -/
theorem of_executes {c : LoopClock} {i : LoopIteration} {r : SleepReadings}
    (htimely : Timely ⟨c, i, (c.step i).1⟩) (h : Executes ⟨c, i, (c.step i).1⟩ r) :
    c.now + c.scheduler.sleepTime r.idleAt ≤ r.checkedAt ∧
      c.scheduler.currentInterval r.intervalAt r.guard ≤
        r.checkedAt - c.scheduler.lastRoundTime ∧
      (c.step i).2.scheduler.lastRoundTime = r.executedAt := by
  obtain ⟨hinput, houtput⟩ := h
  dsimp only at hinput houtput
  subst hinput
  obtain ⟨hidle, hfrom, hwoken, hchecked, -⟩ := htimely
  dsimp only at hidle hwoken
  unfold step at houtput ⊢
  dsimp only at houtput ⊢
  split_ifs at houtput ⊢ with htime
  · exact ⟨by omega, of_decide_eq_true htime, rfl⟩

/-- Without a power manager, a sleep that nothing interrupts is followed by a round, unless the
node becomes idle meanwhile. -/
theorem executes_of_slept {c : LoopClock} (h : c.scheduler.lastRoundTime ≤ c.now)
    {r : SleepReadings} (htimely : Timely ⟨c, .slept r, (c.step (.slept r)).1⟩)
    (hpower : c.scheduler.powerManager = false)
    (hidle : c.scheduler.isIdle r.idleAt = c.scheduler.isIdle r.intervalAt) :
    (c.step (.slept r)).1 = true := by
  obtain ⟨hread, hfrom, hwoken, hchecked, -⟩ := htimely
  dsimp only at hread hwoken
  have hinterval : c.scheduler.currentInterval r.intervalAt r.guard =
      c.scheduler.sleepTime r.idleAt := by
    unfold GossipScheduler.currentInterval GossipScheduler.sleepTime
    rw [hpower, hidle]
    rfl
  have htime : c.scheduler.isTimeForRound r.checkedAt r.intervalAt r.guard = true := by
    unfold GossipScheduler.isTimeForRound
    rw [hinterval]
    exact decide_eq_true (by omega)
  unfold step
  dsimp only
  rw [if_pos htime]

/-! ### Runs -/

/-- **Rounds.**  In every run of the loop, between all that it has handled and a round there is a
pause as long as its sleep, and between two rounds there is the interval that is current; both are
those of a scheduler that never records activity.  Without a power manager, every sleep that nothing
interrupts is followed by a round, unless the node becomes idle meanwhile. -/
theorem rounds_exec {c : LoopClock} (h : c.scheduler.lastRoundTime ≤ c.now)
    {is : List LoopIteration} (htimely : ∀ e ∈ trace step c is, Timely e) :
    ((trace step c is).Pairwise fun e e' => ∀ r', Executes e' r' →
        (step e.before e.input).2.now + c.scheduler.sleepTime r'.idleAt ≤ r'.checkedAt ∧
          ∀ r, Executes e r →
            r.executedAt + c.scheduler.currentInterval r'.intervalAt r'.guard ≤ r'.checkedAt) ∧
      ∀ e ∈ trace step c is, ∀ r, e.input = .slept r → c.scheduler.powerManager = false →
        c.scheduler.isIdle r.idleAt = c.scheduler.isIdle r.intervalAt → e.output = true := by
  obtain ⟨hlater, -⟩ := later_exec (Later.refl h) htimely
  constructor
  · refine pairwise_trace fun pre i mid j post hsplit r' hround' => ?_
    subst hsplit
    rw [trace_append, trace_cons, trace_append, trace_cons, List.forall_mem_append,
      List.forall_mem_cons, List.forall_mem_append, List.forall_mem_cons] at htimely hlater
    rw [exec_append, exec_cons] at hround'
    set s := exec step c pre
    -- From the end of the earlier iteration on, time passes and rounds only become later.
    have hfirst : Later c (step s i).2 := hlater.2.1.step htimely.2.1
    have hbetween : Later (step s i).2 (exec step (step s i).2 mid) :=
      (later_exec (Later.refl hfirst.settled) htimely.2.2.1).2
    have hbefore : Later c (exec step (step s i).2 mid) := hlater.2.2.2.1
    obtain ⟨hsleep, hinterval, -⟩ := of_executes htimely.2.2.2.1 hround'
    rw [hbefore.sleepTime_eq] at hsleep
    rw [hbefore.currentInterval_eq] at hinterval
    have hnow := hbetween.now_le
    refine ⟨by dsimp only; omega, fun r hround => ?_⟩
    obtain ⟨-, -, hexecuted⟩ := of_executes htimely.2.1 hround
    have hround := hbetween.lastRoundTime_le
    have hsettled := hbefore.settled
    omega
  · rintro e he r hinput hpower hidle
    have hbefore := hlater e he
    obtain ⟨pre, i, post, -, rfl⟩ := mem_trace he
    dsimp only at hinput hbefore
    subst hinput
    refine executes_of_slept hbefore.settled (htimely _ he)
      (hbefore.powerManager_eq.trans hpower) ?_
    unfold GossipScheduler.isIdle at hidle ⊢
    rw [hbefore.lastActiveMsgTime_eq, hidle]

/-- Two rounds of an active node, and what the loop handles in between: the sleep starts anew. -/
theorem rounds_exec_sample :
    let slept (start : ℕ) : LoopIteration :=
      .slept ⟨start, start, start + 500000000, start + 500000000, start + 500000000, none,
        start + 600000000⟩
    let c : LoopClock := ⟨.new 0, 0⟩
    let is := [slept 0, .handled 1000000000, slept 1000000000]
    ((trace step c is).map Event.output = [true, false, true]) ∧
      (trace step c is).Pairwise fun e e' => ∀ r', Executes e' r' →
        (step e.before e.input).2.now + c.scheduler.sleepTime r'.idleAt ≤ r'.checkedAt := by
  intro slept c is
  have hstart : c.scheduler.lastRoundTime ≤ c.now := by decide
  have htimely : ∀ e ∈ trace step c is, Timely e := by decide +kernel
  have hrounds := (rounds_exec hstart htimely).1
  exact ⟨by decide +kernel, hrounds.imp fun h r' hround => (h r' hround).1⟩

end LoopClock

end StellarConduit
