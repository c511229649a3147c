import Mathlib.Order.Interval.Finset.Nat
import Mathlib.Data.Nat.Periodic
import StellarConduit.Transport.PowerRuns

/-!
# Duty cycles

`recommended_round_interval`, `should_advertise_ble` and `advance_clock` of `transport/power.rs`,
among the other calls on a `PowerManager`.  The coarse power state decides them, and the mode
decides which interfaces are awake.

* `clockedStep`: all calls, as a machine;
* `InSync`: the mode is the one that belongs to the state;
* `advertises_awake`: in every run, advertising keeps to its share of time and to the awake windows.
-/

namespace StellarConduit

open Verif.Machine

namespace PowerManager

def recommendedRoundInterval (p : PowerManager) : ℕ :=
  match p.state with
  | .active => 500 * 1000000
  | .lowPower => 5000 * 1000000
  | .deepSleep => 60000 * 1000000

def lowPowerBleOnMs : ℕ := 200

def lowPowerBlePeriodMs : ℕ := 10000

def deepSleepBleOnMs : ℕ := 200

def deepSleepBlePeriodMs : ℕ := 60000

def shouldAdvertiseBle (p : PowerManager) : Bool :=
  match p.state with
  | .active => true
  | .lowPower => decide (p.nowMs % lowPowerBlePeriodMs < lowPowerBleOnMs)
  | .deepSleep => decide (p.nowMs % deepSleepBlePeriodMs < deepSleepBleOnMs)

def advanceClock (p : PowerManager) (nowMs : ℕ) : PowerManager := { p with nowMs := nowMs }

end PowerManager

/-- A call, or a reading of the clock. -/
inductive ClockedCall
  | call (call : PowerCall)
  | advanceClock (nowMs : ℕ)

namespace PowerManager

def clockedStep (p : PowerManager) : ClockedCall → Option PowerAnswer × PowerManager
  | .call call => (some (p.step call).1, (p.step call).2)
  | .advanceClock nowMs => (none, p.advanceClock nowMs)

/-! ### Mode and state -/

/-- The mode is the one that belongs to the state. -/
def InSync (p : PowerManager) : Prop := p.mode = .highPower ↔ p.state = .active

theorem inSync_new (now : ℕ) : (PowerManager.new now).InSync := ⟨fun _ => rfl, fun _ => rfl⟩

theorem inSync_setState (p : PowerManager) (state : PowerState) : (p.setState state).2.InSync := by
  cases state with
  | active => exact ⟨fun _ => rfl, fun _ => rfl⟩
  | lowPower => exact ⟨nofun, nofun⟩
  | deepSleep => exact ⟨nofun, nofun⟩

theorem InSync.idled {p : PowerManager} (h : p.InSync) (now : ℕ) : (p.idled now).InSync := by
  unfold PowerManager.idled
  dsimp only
  split_ifs
  · exact ⟨nofun, nofun⟩
  · exact h

theorem InSync.tick {p : PowerManager} (h : p.InSync) (now : ℕ) : (p.tick now).2.InSync := by
  have hidled := h.idled now
  unfold PowerManager.tick
  dsimp only
  split_ifs
  · exact ⟨fun _ => rfl, fun _ => rfl⟩
  · exact hidled
  · exact ⟨fun _ => rfl, fun _ => rfl⟩
  · exact hidled

theorem InSync.recordOutboundTransaction {p : PowerManager} (h : p.InSync) (now : ℕ) :
    (p.recordOutboundTransaction now).2.InSync := by
  have htick := h.tick now
  unfold PowerManager.recordOutboundTransaction
  dsimp only
  split_ifs
  · exact htick
  · exact ⟨fun _ => rfl, fun _ => rfl⟩

theorem InSync.clockedStep {p : PowerManager} (h : p.InSync) (call : ClockedCall) :
    (p.clockedStep call).2.InSync := by
  rcases call with (now | now | now | state) | nowMs
  · show (p.step (.tick now)).2.InSync
    rw [snd_step_tick]
    exact h.tick now
  · show (p.step (.recordIncomingTransaction now)).2.InSync
    rw [snd_step_recordIncomingTransaction]
    exact InSync.tick ⟨fun _ => rfl, fun _ => rfl⟩ now
  · show (p.step (.recordOutboundTransaction now)).2.InSync
    rw [snd_step_recordOutboundTransaction]
    exact h.recordOutboundTransaction now
  · exact inSync_setState p state
  · exact h

theorem inSync_exec (start : ℕ) (calls : List ClockedCall) :
    (exec clockedStep (PowerManager.new start) calls).InSync :=
  exec_invariant InSync (fun _ call _ h => h.clockedStep call) (inSync_new start)

/-! ### Shares of time -/

/-- In any period, as many instants are on as the share says. -/
theorem card_on (t on period : ℕ) (h : on ≤ period) :
    ((Finset.Ico t (t + period)).filter fun ms => ms % period < on).card = on := by
  have hperiodic : Function.Periodic (fun ms => ms % period < on) period := by
    intro ms
    dsimp only
    rw [Nat.add_mod_right]
  rw [Nat.filter_Ico_card_eq_of_periodic t period _ hperiodic, Nat.count_eq_card_filter_range]
  have hrange : (Finset.range period).filter (fun ms => ms % period < on) = Finset.range on := by
    ext ms
    rw [Finset.mem_filter, Finset.mem_range, Finset.mem_range]
    constructor
    · rintro ⟨hlt, hon⟩
      rwa [Nat.mod_eq_of_lt hlt] at hon
    · intro hon
      have hlt := hon.trans_le h
      exact ⟨hlt, by rwa [Nat.mod_eq_of_lt hlt]⟩
  rw [hrange, Finset.card_range]

/-- The part of a period in which the radio advertises lies in an awake window. -/
theorem isAwakeWindow_of_on {now on period : ℕ} (hperiod : 5000 ∣ period) (hon : on ≤ 500)
    (h : asMillis now % period < on) : isAwakeWindow now = true := by
  have hmod : asMillis now % 5000 = asMillis now % period % 5000 :=
    (Nat.mod_mod_of_dvd _ hperiod).symm
  have hle := Nat.mod_le (asMillis now % period) 5000
  have hawake : asMillis now % 5000 < 500 := by omega
  exact decide_eq_true hawake

theorem awake_of_shouldAdvertiseBle {p : PowerManager} (h : p.InSync) {now : ℕ}
    (hnow : asMillis now = p.nowMs) (hadvertise : p.shouldAdvertiseBle = true) :
    p.interfaceState now = .awake := by
  refine if_pos ?_
  unfold shouldAdvertiseBle at hadvertise
  rw [← hnow] at hadvertise
  cases hstate : p.state with
  | active => exact Or.inl (h.2 hstate)
  | lowPower =>
    rw [hstate] at hadvertise
    exact Or.inr (isAwakeWindow_of_on (by decide) (by decide) (of_decide_eq_true hadvertise))
  | deepSleep =>
    rw [hstate] at hadvertise
    exact Or.inr (isAwakeWindow_of_on (by decide) (by decide) (of_decide_eq_true hadvertise))

/-- **Advertising.**  In every run, at the instant of its clock a manager advertises only while its
interfaces are awake; gossip rounds are slowed down exactly while it is in the low-power mode; and
of any ten seconds in low power, or any minute in deep sleep, it advertises 200 milliseconds. -/
theorem advertises_awake (start : ℕ) (calls : List ClockedCall) :
    let p := exec clockedStep (PowerManager.new start) calls
    let advertised (t period : ℕ) : ℕ :=
      ((Finset.Ico t (t + period)).filter fun ms => (p.advanceClock ms).shouldAdvertiseBle).card
    (∀ now, asMillis now = p.nowMs → p.shouldAdvertiseBle = true →
        p.interfaceState now = .awake) ∧
      (p.mode = .synchronizedLowPower ↔ 5000 * 1000000 ≤ p.recommendedRoundInterval) ∧
      (p.state = .lowPower → ∀ t, advertised t 10000 = 200) ∧
      (p.state = .deepSleep → ∀ t, advertised t 60000 = 200) := by
  intro p advertised
  have hsync : p.InSync := inSync_exec start calls
  refine ⟨fun now hnow h => awake_of_shouldAdvertiseBle hsync hnow h, ?_, fun hstate t => ?_,
    fun hstate t => ?_⟩
  · have hmode : p.mode = .synchronizedLowPower ↔ ¬ p.state = .active := by
      have hawake : p.mode = .highPower ↔ p.state = .active := hsync
      rw [← hawake]
      cases p.mode <;> simp
    rw [hmode]
    unfold recommendedRoundInterval
    cases p.state <;> simp
  · have hon := card_on t 200 10000 (by decide)
    simpa [advertised, advanceClock, shouldAdvertiseBle, hstate, lowPowerBlePeriodMs,
      lowPowerBleOnMs] using hon
  · have hon := card_on t 200 60000 (by decide)
    simpa [advertised, advanceClock, shouldAdvertiseBle, hstate, deepSleepBlePeriodMs,
      deepSleepBleOnMs] using hon

end PowerManager

end StellarConduit
