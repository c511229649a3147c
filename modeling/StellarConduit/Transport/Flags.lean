import StellarConduit.Transport.Silence

/-!
# Power flags

A tick of the power manager emits the flag `GoToSleep` once, and a change of the BLE address
comes with the flag `MacRotated`.  All operations tick, and only `power_tick` returns the flags of
its tick, if it returns at all.

* `produced`: the flags that come up during an operation, with those of the ticks in
  `record_outbound_transaction` and `record_incoming_transaction` (which are none, as
  `produced_eq` shows);
* `returned`: the flags in the `PowerTickOutcome` that an operation returns;
* `answer_powerTickAt_iff`: `power_tick` returns exactly when the messages that it flushes are
  accepted;
* `flags_reach_iff`: when the flags of a run reach the callers of `power_tick`.
-/

namespace StellarConduit

open Verif.Machine

variable {Conn World Addr : Type}

namespace TransportManager

section Flags

variable (api : Connection Conn World) (now : ℕ)

/-- The flags of the tick itself. -/
def producedTick (m : TransportManager Conn) (around : Surroundings Conn World) :
    List TopologyFlag :=
  (m.tickPower api now around).1.topologyFlags

/-- In the loop of `recv_any_at`. -/
def producedPoll (m : TransportManager Conn) (world : World) :
    List (Bytes 32) → List TopologyFlag
  | [] => []
  | pubkey :: keys =>
    match m.connection pubkey with
    | none => m.producedPoll world keys
    | some conn =>
      let peer := api.remotePeer conn
      let (answer, conn', world) := api.recv conn world
      let m := m.setConnection pubkey conn'
      match answer with
      | .ok msg =>
        if msg.isTransaction then
          (m.powerManager.recordIncomingTransaction now).1.topologyFlags
        else []
      | .panic _ => []
      | .err .brokenPipe =>
        let fallback := bleFallback api (m.remove pubkey) peer world
        fallback.manager.producedPoll fallback.world keys
      | _ => m.producedPoll world keys

/-- In `send_to_at`, after the tick. -/
def producedRecord (tick : Ran Conn World PowerTickOutcome) : List TopologyFlag :=
  match tick.answer with
  | .ok _ => (tick.manager.powerManager.recordOutboundTransaction now).1.topologyFlags
  | _ => []

/-- In `recv_any_at`, after the tick. -/
def producedReceive (around : Surroundings Conn World) (tick : Ran Conn World PowerTickOutcome) :
    List TopologyFlag :=
  match tick.answer with
  | .ok outcome =>
    if outcome.interfaceState.bleEnabled = false ∧
        outcome.interfaceState.wifiEnabled = false then []
    else
      tick.manager.producedPoll api now tick.world
        (around.keyOrder tick.manager.connections.activeConnections.keys)
  | _ => []

end Flags

/-- The flags that come up during an operation. -/
def produced (api : Connection Conn World) (m : TransportManager Conn) :
    Operation Conn World Addr → List TopologyFlag
  | .sendToAt _ _ now around =>
    m.producedTick api now around ++ producedRecord now (m.powerTickAt api now around)
  | .recvAnyAt now around =>
    m.producedTick api now around ++
      producedReceive api now around (m.powerTickAt api now around)
  | .powerTickAt now around => m.producedTick api now around
  | _ => []

/-- The flags in the outcome that an operation returns. -/
def returned (api : Connection Conn World) (m : TransportManager Conn) :
    Operation Conn World Addr → List TopologyFlag
  | .powerTickAt now around =>
    match (m.powerTickAt api now around).answer with
    | .ok outcome => outcome.topologyFlags
    | _ => []
  | _ => []

/-! ### Which flags come up -/

section Produced

variable (api : Connection Conn World) (now : ℕ) (m : TransportManager Conn)

instance (instant : ℕ) : Decidable (m.RotationDue instant) :=
  match h : m.bleCentralScanner with
  | none => isFalse fun ⟨_, hscanner, _⟩ => by rw [h] at hscanner; cases hscanner
  | some scanner =>
    if hdue : scanner.rotationInterval ≤ instant - scanner.lastRotation then
      isTrue ⟨scanner, h, hdue⟩
    else isFalse fun ⟨_, hscanner, hdue'⟩ => by
      rw [h] at hscanner
      cases hscanner
      exact hdue hdue'

theorem producedTick_eq (around : Surroundings Conn World) :
    m.producedTick api now around =
      (if m.powerManager.GoesToSleep now then [.goToSleep] else []) ++
        if m.RotationDue around.instant then [.macRotated] else [] := by
  obtain ⟨hpower, -, hscanner⟩ := m.processBleIncoming_spec around.bleIncoming
  unfold producedTick tickPower
  dsimp only
  rw [hpower, hscanner, ← PowerManager.topologyFlags_tick]
  cases hble : m.bleCentralScanner with
  | none =>
    have hnot : ¬ m.RotationDue around.instant := by
      rintro ⟨scanner, hscanner, -⟩
      rw [hble] at hscanner
      cases hscanner
    rw [if_neg hnot, List.append_nil]
  | some scanner =>
    have hdue : m.RotationDue around.instant ↔
        scanner.rotationInterval ≤ around.instant - scanner.lastRotation := by
      simp [RotationDue, hble]
    unfold BleScanner.rotateMacIfDue
    by_cases h : scanner.rotationInterval ≤ around.instant - scanner.lastRotation
    · simp [hdue, h]
    · simp [hdue, h]

/-- The transactions that polling records produce no flag. -/
theorem producedPoll_eq_nil (world : World) (keys : List (Bytes 32)) :
    m.producedPoll api now world keys = [] := by
  induction keys generalizing m world with
  | nil => rfl
  | cons pubkey keys ih =>
    unfold producedPoll
    split
    next => exact ih m world
    next conn _ =>
      dsimp only
      split
      next =>
        split_ifs
        · exact PowerManager.topologyFlags_recordIncomingTransaction _ now
        · rfl
      next => rfl
      next => exact ih _ _
      next => exact ih _ _

end Produced

/-- Only the tick of an operation produces flags. -/
theorem produced_eq (api : Connection Conn World) (m : TransportManager Conn)
    (op : Operation Conn World Addr) :
    m.produced api op =
      match op with
      | .sendToAt _ _ now around => m.producedTick api now around
      | .recvAnyAt now around => m.producedTick api now around
      | .powerTickAt now around => m.producedTick api now around
      | _ => [] := by
  cases op with
  | sendToAt peer msg now around =>
    have hnone : producedRecord now (m.powerTickAt api now around) = [] := by
      have hpower : (m.powerTickAt api now around).manager.powerManager =
          (m.powerManager.tick now).2 := powerManager_powerTickAt api around
      unfold producedRecord
      rw [hpower]
      split
      next =>
        rw [PowerManager.topologyFlags_recordOutboundTransaction, PowerManager.topologyFlags_tick,
          if_neg (m.powerManager.not_goesToSleep_tick now)]
      next => rfl
    exact (congrArg _ hnone).trans (List.append_nil _)
  | recvAnyAt now around =>
    have hnone : producedReceive api now around (m.powerTickAt api now around) = [] := by
      unfold producedReceive
      split
      next =>
        split_ifs
        · rfl
        · exact producedPoll_eq_nil api now _ _ _
      next => rfl
    exact (congrArg _ hnone).trans (List.append_nil _)
  | powerTickAt | connect | registerInbound | disconnectPeer | notifyMacRotated | shutdown => rfl

/-! ### Which flags are returned -/

section Returned

variable (api : Connection Conn World) (now : ℕ) (m : TransportManager Conn)
  (around : Surroundings Conn World)

/-- `power_tick` returns exactly when the messages that it flushes are accepted. -/
theorem answer_powerTickAt_iff :
    (∃ outcome, (m.powerTickAt api now around).answer = .ok outcome) ↔
      m.FlushAccepted api now around := by
  obtain ⟨hwake, -, -, hpending⟩ := m.tickPower_spec api now around
  unfold powerTickAt FlushAccepted
  dsimp only
  rw [← hwake, ← hpending]
  split_ifs with hwakes
  · constructor
    · rintro ⟨outcome, hanswer⟩ -
      obtain ⟨flushed, hflush, -⟩ := Awaited.map_eq_ok_iff.1 hanswer
      exact allAccepted_of_flush api hflush
    · intro haccepted
      obtain ⟨hflush, -⟩ := flush_of_allAccepted api (haccepted hwakes)
      exact ⟨_, Awaited.map_eq_ok_iff.2 ⟨_, hflush, rfl⟩⟩
  · exact iff_of_true ⟨_, rfl⟩ fun h => absurd h hwakes

theorem topologyFlags_of_answer {outcome : PowerTickOutcome}
    (h : (m.powerTickAt api now around).answer = .ok outcome) :
    outcome.topologyFlags = m.producedTick api now around := by
  unfold powerTickAt at h
  obtain ⟨flushed, -, rfl⟩ := Awaited.map_eq_ok_iff.1 h
  rfl

end Returned

/-- The flags of the operation reach the caller: it produces none, or it is a `power_tick` whose
flush is accepted. -/
def FlagsReach (api : Connection Conn World) (m : TransportManager Conn) :
    Operation Conn World Addr → Prop
  | .sendToAt _ _ now around =>
    ¬ m.powerManager.GoesToSleep now ∧ ¬ m.RotationDue around.instant
  | .recvAnyAt now around =>
    ¬ m.powerManager.GoesToSleep now ∧ ¬ m.RotationDue around.instant
  | .powerTickAt now around =>
    m.powerManager.GoesToSleep now ∨ m.RotationDue around.instant →
      m.FlushAccepted api now around
  | _ => True

theorem producedTick_eq_nil_iff (api : Connection Conn World) (now : ℕ)
    (m : TransportManager Conn) (around : Surroundings Conn World) :
    m.producedTick api now around = [] ↔
      ¬ m.powerManager.GoesToSleep now ∧ ¬ m.RotationDue around.instant := by
  rw [producedTick_eq, List.append_eq_nil_iff]
  by_cases hsleeps : m.powerManager.GoesToSleep now <;>
    by_cases hdue : m.RotationDue around.instant <;> simp [hsleeps, hdue]

section Steps

variable (api : Connection Conn World) (m : TransportManager Conn)
  (op : Operation Conn World Addr)

/-- An operation returns the flags that it produces, or none. -/
theorem returned_eq_or :
    m.returned api op = m.produced api op ∨ m.returned api op = [] := by
  rw [produced_eq]
  cases op with
  | powerTickAt now around =>
    unfold returned
    dsimp only
    split
    next outcome hanswer => exact Or.inl (topologyFlags_of_answer api now m around hanswer)
    next => exact Or.inr rfl
  | sendToAt | recvAnyAt | connect | registerInbound | disconnectPeer | notifyMacRotated
  | shutdown => exact Or.inr rfl

theorem returned_eq_iff : m.returned api op = m.produced api op ↔ m.FlagsReach api op := by
  rw [produced_eq]
  cases op with
  | sendToAt peer msg now around =>
    exact eq_comm.trans (producedTick_eq_nil_iff api now m around)
  | recvAnyAt now around => exact eq_comm.trans (producedTick_eq_nil_iff api now m around)
  | powerTickAt now around =>
    have hnil := producedTick_eq_nil_iff api now m around
    unfold returned FlagsReach
    dsimp only
    rw [← answer_powerTickAt_iff]
    split
    next outcome hanswer =>
      exact iff_of_true (topologyFlags_of_answer api now m around hanswer)
        fun _ => ⟨outcome, hanswer⟩
    next hnot =>
      have hnone : ¬ ∃ outcome, (m.powerTickAt api now around).answer = .ok outcome :=
        fun ⟨outcome, hanswer⟩ => hnot outcome hanswer
      rw [eq_comm, hnil, ← not_or]
      exact (imp_iff_not hnone).symm
  | connect | registerInbound | disconnectPeer | notifyMacRotated | shutdown =>
    exact iff_of_true rfl trivial

end Steps

end TransportManager

open TransportManager

/-- Each flag is returned to a caller of `power_tick` as often as it is produced. -/
def AllReturned (api : Connection Conn World)
    (events : List (Event (TransportManager Conn) (Operation Conn World Addr)
      (Ran Conn World Unit))) : Prop :=
  ∀ flag, (events.flatMap fun e => e.before.produced api e.input).count flag ≤
    (events.flatMap fun e => e.before.returned api e.input).count flag

/-- **When the flags reach the callers.**  In a run, all flags are returned exactly when the
operations that go to sleep or change the address are calls of `power_tick`, and what these flush is
accepted. -/
theorem flags_reach_iff (radio : Radio Conn World Addr) (preference : TransportPreference)
    (m : TransportManager Conn) (ops : List (Operation Conn World Addr)) :
    AllReturned radio.toConnection (trace (operations radio preference) m ops) ↔
      ∀ e ∈ trace (operations radio preference) m ops,
        e.before.FlagsReach radio.toConnection e.input := by
  constructor
  · intro hcount e he
    rw [← returned_eq_iff]
    exact given_eq_made (fun e _ => returned_eq_or radio.toConnection e.before e.input) hcount e he
  · intro hreach flag
    refine le_of_eq (congrArg (List.count flag) ?_)
    exact List.flatMap_congr fun e he => ((returned_eq_iff _ _ _).2 (hreach e he)).symm

/-- `recv_any` finds that the node has been idle for five minutes; the flag of its tick is not seen
by the calls of `power_tick` before and after it. -/
theorem sleep_flag_lost :
    let around : Surroundings (PeerIdentity × TransportType) Bool :=
      { bleIncoming := [], instant := 0, keyOrder := fun keys => keys,
        keyOrder_perm := fun _ => .refl _, world := false }
    let ops : List (Operation (PeerIdentity × TransportType) Bool Unit) :=
      [.powerTickAt 0 around, .recvAnyAt sleepingAt around, .powerTickAt sleepingAt around,
        .powerTickAt awakeAt around]
    let events := trace (operations sampleRadio .auto) (withPowerManager (PowerManager.new 0)) ops
    (events.flatMap fun e => e.before.produced sampleRadio.toConnection e.input) = [.goToSleep] ∧
      (events.flatMap fun e => e.before.returned sampleRadio.toConnection e.input) = [] ∧
      ¬ AllReturned sampleRadio.toConnection events := by
  intro around ops events
  have hproduced : (events.flatMap fun e =>
      e.before.produced sampleRadio.toConnection e.input) = [.goToSleep] := by decide +kernel
  have hreturned : (events.flatMap fun e =>
      e.before.returned sampleRadio.toConnection e.input) = [] := by decide +kernel
  refine ⟨hproduced, hreturned, fun h => ?_⟩
  have hcount := h .goToSleep
  rw [hproduced, hreturned] at hcount
  exact absurd hcount (by decide)

end StellarConduit
