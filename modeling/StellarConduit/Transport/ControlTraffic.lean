import StellarConduit.Transport.Flags
import StellarConduit.Transport.PowerRuns

/-!
# Control traffic and the idle time

`send_to` records an outbound transaction for a message of any kind.  `recv_any` records an incoming
one for transactions only.

* `PowerMoved`: what an operation does to the power manager;
* `Postpones`: the operation begins the idle time anew;
* `idle_exec_iff`: the node has been idle for long enough when the last operation that postpones its
  sleep is long enough ago;
* `control_traffic_iff`: when control traffic does not keep a node awake and does not pretend that a
  transaction waits.
-/

namespace StellarConduit

open Verif.Machine

variable {Conn World Addr : Type}

namespace PowerManager

/-- The node sleeps, or has been idle for long enough. -/
def Idle (p : PowerManager) (now : ℕ) : Prop :=
  p.mode = .synchronizedLowPower ∨ idleSleepTimeout ≤ now - p.lastIncomingActivityAt

instance (p : PowerManager) (now : ℕ) : Decidable (p.Idle now) :=
  inferInstanceAs (Decidable (_ ∨ _))

instance (p : PowerManager) (now : ℕ) : Decidable (p.Asleep now) :=
  inferInstanceAs (Decidable (_ ∧ _))

/-- A tick wakes an idle node for a transaction. -/
def Wakes (p : PowerManager) (now : ℕ) : Prop :=
  p.Idle now ∧ p.pendingOutboundTransaction = true ∧ isAwakeWindow now = true

instance (p : PowerManager) (now : ℕ) : Decidable (p.Wakes now) :=
  inferInstanceAs (Decidable (_ ∧ _))

/-- Something is recorded as activity. -/
structure ActiveAt (p : PowerManager) (now : ℕ) : Prop where
  mode : p.mode = .highPower
  lastIncomingActivityAt : p.lastIncomingActivityAt = now

theorem Idle.mono {p : PowerManager} {t now : ℕ} (h : p.Idle t) (hle : t ≤ now) : p.Idle now := by
  rcases h with hmode | hlong
  · exact .inl hmode
  · exact .inr (hlong.trans (Nat.sub_le_sub_right hle _))

/-- After an activity the node is idle five minutes later. -/
theorem ActiveAt.idle_iff {p : PowerManager} {t : ℕ} (h : p.ActiveAt t) (now : ℕ) :
    p.Idle now ↔ t + idleSleepTimeout ≤ now := by
  unfold Idle
  rw [h.mode, h.lastIncomingActivityAt]
  unfold idleSleepTimeout
  simp only [reduceCtorEq, false_or]
  omega

section Tick

variable {p : PowerManager} {now : ℕ}

theorem wakeNetwork_tick_iff : (p.tick now).1.wakeNetwork = true ↔ p.Wakes now := by
  have htick := p.tick_tick now
  unfold Wakes Idle
  rw [← mode_idled_iff]
  generalize p.tick now = out at htick
  cases htick with
  | wakes decision p' hwake _ hpending hawake hidled =>
    exact iff_of_true hwake ⟨hidled, hpending, hawake⟩
  | stays decision p' hwake _ _ hasleep =>
    refine iff_of_false (by simp [hwake]) ?_
    rintro ⟨hidled, hpending, hawake⟩
    rw [hasleep hidled hpending] at hawake
    cases hawake

theorem activeAt_tick (h : p.Wakes now) :
    (p.tick now).2.ActiveAt now ∧ (p.tick now).2.pendingOutboundTransaction = false := by
  obtain ⟨hmode, -, hlast, hpending⟩ := tick_of_wakeNetwork (wakeNetwork_tick_iff.2 h)
  exact ⟨⟨hmode, hlast⟩, hpending⟩

/-- A tick that does not wake the node does the idle check. -/
theorem tick_of_not_wakes (h : ¬ p.Wakes now) :
    ((p.tick now).2.mode = .synchronizedLowPower ↔ p.Idle now) ∧
      (p.tick now).2.lastIncomingActivityAt = p.lastIncomingActivityAt ∧
      (p.tick now).2.pendingOutboundTransaction = p.pendingOutboundTransaction := by
  have hwake := mt wakeNetwork_tick_iff.1 h
  refine ⟨?_, ?_⟩
  · rw [mode_tick_iff]
    exact ⟨And.left, fun hidle => ⟨hidle, fun hawake => h ⟨hidle, hawake⟩⟩⟩
  · unfold tick at hwake ⊢
    dsimp only at hwake ⊢
    split_ifs at hwake ⊢
    all_goals exact ⟨lastIncomingActivityAt_idled p now, pendingOutboundTransaction_idled p now⟩

theorem idle_tick_of_not_wakes {t : ℕ} (h : ¬ p.Wakes t) (hle : t ≤ now) :
    (p.tick t).2.Idle now ↔ p.Idle now := by
  obtain ⟨hmode, hlast, -⟩ := tick_of_not_wakes h
  unfold Idle
  rw [hmode, hlast]
  constructor
  · rintro (hidle | hlong)
    · exact hidle.mono hle
    · exact .inr hlong
  · rintro (hlow | hlong)
    · exact .inl (.inl hlow)
    · exact .inr hlong

theorem not_wakes_of_asleep (h : p.Asleep now) : ¬ p.Wakes now := by
  rintro ⟨-, -, hawake⟩
  rw [h.1] at hawake
  cases hawake

/-- While the interfaces sleep, an outbound transaction waits. -/
theorem recordOutboundTransaction_of_asleep (h : p.Asleep now) :
    (p.recordOutboundTransaction now).2 =
      { (p.tick now).2 with pendingOutboundTransaction := true } := by
  have hsleeping := (p.interfaceState_tick_iff now).2 h
  rw [interfaceState_eq_sleeping_iff] at hsleeping
  unfold recordOutboundTransaction
  dsimp only
  rw [if_pos hsleeping]

/-- The flag that is set then has no part in the idle time. -/
theorem idle_recordOutboundTransaction {t : ℕ} (h : p.Asleep t) (hle : t ≤ now) :
    (p.recordOutboundTransaction t).2.Idle now ↔ p.Idle now := by
  have hflag : ∀ q : PowerManager,
      { q with pendingOutboundTransaction := true }.Idle now ↔ q.Idle now := fun q => Iff.rfl
  rw [recordOutboundTransaction_of_asleep h, hflag]
  exact idle_tick_of_not_wakes (not_wakes_of_asleep h) hle

/-- While they are awake, it is activity. -/
theorem recordOutboundTransaction_of_not_asleep (h : ¬ p.Asleep now) :
    (p.recordOutboundTransaction now).2.ActiveAt now ∧
      (p.recordOutboundTransaction now).2.pendingOutboundTransaction =
        (p.tick now).2.pendingOutboundTransaction := by
  have hawake := mt (p.interfaceState_tick_iff now).1 h
  rw [interfaceState_eq_sleeping_iff] at hawake
  unfold recordOutboundTransaction
  dsimp only
  rw [if_neg hawake]
  exact ⟨⟨rfl, rfl⟩, rfl⟩

theorem lastIncomingActivityAt_tick_le {start : ℕ} (h : p.lastIncomingActivityAt ≤ start)
    (hnow : now ≤ start) : (p.tick now).2.lastIncomingActivityAt ≤ start := by
  by_cases hwakes : p.Wakes now
  · rw [(activeAt_tick hwakes).1.lastIncomingActivityAt]
    exact hnow
  · rw [(tick_of_not_wakes hwakes).2.1]
    exact h

theorem lastIncomingActivityAt_recordOutboundTransaction_le {start : ℕ}
    (h : p.lastIncomingActivityAt ≤ start) (hnow : now ≤ start) :
    (p.recordOutboundTransaction now).2.lastIncomingActivityAt ≤ start := by
  by_cases hasleep : p.Asleep now
  · rw [recordOutboundTransaction_of_asleep hasleep]
    exact lastIncomingActivityAt_tick_le h hnow
  · rw [(recordOutboundTransaction_of_not_asleep hasleep).1.lastIncomingActivityAt]
    exact hnow

end Tick

end PowerManager

/-- A transaction is sent, or received. -/
def ConnectionCall.carriesTransaction : ConnectionCall Conn → Bool
  | .send _ msg _ _ => msg.isTransaction
  | .recv _ _ (.ok msg) => msg.isTransaction
  | .recv _ _ _ => false

def Operation.time : Operation Conn World Addr → Option ℕ
  | .sendToAt _ _ now _ => some now
  | .recvAnyAt now _ => some now
  | .powerTickAt now _ => some now
  | _ => none

abbrev OperationEvent (Conn World Addr : Type) :=
  Event (TransportManager Conn) (Operation Conn World Addr) (Ran Conn World Unit)

/-- `send_to` is called for a transaction. -/
def Operation.submitsTransaction : Operation Conn World Addr → Bool
  | .sendToAt _ msg _ _ => msg.isTransaction
  | _ => false

/-- No transaction is sent or received. -/
structure Quiet (e : OperationEvent Conn World Addr) : Prop where
  input : e.input.submitsTransaction = false
  calls : ∀ call ∈ e.output.calls, call.carriesTransaction = false

instance (e : OperationEvent Conn World Addr) : Decidable (Quiet e) :=
  decidable_of_iff (e.input.submitsTransaction = false ∧
      ∀ call ∈ e.output.calls, call.carriesTransaction = false)
    ⟨fun h => ⟨h.1, h.2⟩, fun h => ⟨h.input, h.calls⟩⟩

namespace TransportManager

/-! ### What operations do to the power manager -/

section PowerManager

variable (api : Connection Conn World) (m : TransportManager Conn) (now : ℕ)

/-- The tick is followed by the record of an outbound transaction, unless what it sends fails. -/
theorem powerManager_sendToAt (peer : PeerIdentity) (msg : ProtocolMessage)
    (around : Surroundings Conn World) :
    (m.sendToAt api peer msg now around).manager.powerManager =
        ((m.powerManager.tick now).2.recordOutboundTransaction now).2 ∨
      m.powerManager.Wakes now ∧
        (m.sendToAt api peer msg now around).manager.powerManager =
          (m.powerManager.tick now).2 := by
  have hpower : (m.powerTickAt api now around).manager.powerManager =
      (m.powerManager.tick now).2 := powerManager_powerTickAt api around
  have hanswer := answer_powerTickAt_iff api now m around
  unfold sendToAt Ran.bind
  generalize m.powerTickAt api now around = tick at hpower hanswer ⊢
  by_cases haccepted : m.FlushAccepted api now around
  · obtain ⟨outcome, houtcome⟩ := hanswer.2 haccepted
    refine .inl ?_
    rw [houtcome, ← hpower]
    dsimp only
    split_ifs
    · rfl
    · exact (sent_sendNow api { tick.manager with
        powerManager := (tick.manager.powerManager.recordOutboundTransaction now).2 }
        peer msg tick.world).powerManager
  · have hfails := mt hanswer.1 haccepted
    refine .inr ⟨?_, ?_⟩
    · rw [← PowerManager.wakeNetwork_tick_iff]
      by_contra hwake
      exact haccepted fun h => absurd h hwake
    · split
      next outcome houtcome => exact absurd ⟨outcome, houtcome⟩ hfails
      all_goals exact hpower

/-- A transaction that is received is recorded, and nothing else. -/
inductive Recorded {α : Type} (p : PowerManager) (now : ℕ) (r : Ran Conn World α) : Prop
  | nothing (hpower : r.manager.powerManager = p)
  | transaction (call : ConnectionCall Conn) (hcall : call ∈ r.calls)
      (hcarries : call.carriesTransaction = true)
      (hpower : r.manager.powerManager = (p.recordIncomingTransaction now).2)

theorem Recorded.after {α : Type} {p : PowerManager} {now : ℕ} {r : Ran Conn World α}
    (h : Recorded p now r) (call : ConnectionCall Conn) : Recorded p now (r.after call) := by
  cases h with
  | nothing hpower => exact .nothing hpower
  | transaction call' hcall hcarries hpower =>
    exact .transaction call' (List.mem_cons_of_mem call hcall) hcarries hpower

theorem Recorded.map {α β : Type} {p : PowerManager} {now : ℕ} {r : Ran Conn World α}
    (h : Recorded p now r) (f : α → β) : Recorded p now (r.map f) := by
  cases h with
  | nothing hpower => exact .nothing hpower
  | transaction call hcall hcarries hpower => exact .transaction call hcall hcarries hpower

theorem Recorded.of_quiet {α : Type} {p : PowerManager} {now : ℕ} {r : Ran Conn World α}
    (h : Recorded p now r) (hquiet : ∀ call ∈ r.calls, call.carriesTransaction = false) :
    r.manager.powerManager = p := by
  cases h with
  | nothing hpower => exact hpower
  | transaction call hcall hcarries =>
    rw [hquiet call hcall] at hcarries
    cases hcarries

theorem recorded_pollKeys (world : World) (keys : List (Bytes 32)) :
    Recorded m.powerManager now (m.pollKeys api now world keys) := by
  induction keys generalizing m world with
  | nil => exact .nothing rfl
  | cons pubkey keys ih =>
    unfold pollKeys
    split
    next => exact ih m world
    next conn _ =>
      dsimp only
      split
      next msg hanswer =>
        split_ifs with htransaction
        · refine .transaction _ List.mem_cons_self ?_ rfl
          rw [hanswer]
          exact htransaction
        · exact .nothing rfl
      next => exact .nothing rfl
      next =>
        -- A broken connection is replaced or given up, and the turn passes to the next one.
        refine Recorded.after ?_ _
        have hfallback := ih (bleFallback api
          ((m.setConnection pubkey (api.recv conn world).2.1).remove pubkey) (api.remotePeer conn)
          (api.recv conn world).2.2).manager (bleFallback api
          ((m.setConnection pubkey (api.recv conn world).2.1).remove pubkey) (api.remotePeer conn)
          (api.recv conn world).2.2).world
        rwa [(bleFallback_spec api _ _ _).1] at hfallback
      next => exact (ih (m.setConnection pubkey (api.recv conn world).2.1) _).after _

theorem recorded_recvAnyAt (around : Surroundings Conn World) :
    Recorded (m.powerManager.tick now).2 now (m.recvAnyAt api now around) := by
  have hpower : (m.powerTickAt api now around).manager.powerManager =
      (m.powerManager.tick now).2 := powerManager_powerTickAt api around
  rw [← hpower]
  unfold recvAnyAt Ran.bind
  dsimp only
  generalize m.powerTickAt api now around = tick
  cases hanswer : tick.answer with
  | ok outcome =>
    dsimp only
    split_ifs
    · exact .nothing rfl
    · have hpolled := recorded_pollKeys api tick.manager now tick.world
        (around.keyOrder tick.manager.connections.activeConnections.keys)
      cases hpolled with
      | nothing hpower => exact .nothing hpower
      | transaction call hcall hcarries hpower =>
        exact .transaction call (List.mem_append_right _ hcall) hcarries hpower
  | err | panic | pending => exact .nothing rfl

end PowerManager

/-! ### The idle time -/

/-- The operation begins the idle time anew: a message is sent while the interfaces are awake, or a
tick wakes the node. -/
def Postpones (m : TransportManager Conn) : Operation Conn World Addr → Prop
  | .sendToAt _ _ now _ => ¬ m.powerManager.Asleep now
  | .recvAnyAt now _ => m.powerManager.Wakes now
  | .powerTickAt now _ => m.powerManager.Wakes now
  | _ => False

instance (m : TransportManager Conn) :
    DecidablePred fun op : Operation Conn World Addr => m.Postpones op
  | .sendToAt _ _ now _ => inferInstanceAs (Decidable (¬ m.powerManager.Asleep now))
  | .recvAnyAt now _ => inferInstanceAs (Decidable (m.powerManager.Wakes now))
  | .powerTickAt now _ => inferInstanceAs (Decidable (m.powerManager.Wakes now))
  | .connect _ _ _ => isFalse not_false
  | .registerInbound _ _ _ => isFalse not_false
  | .disconnectPeer _ _ => isFalse not_false
  | .notifyMacRotated _ => isFalse not_false
  | .shutdown _ => isFalse not_false

section Steps

variable (radio : Radio Conn World Addr) (preference : TransportPreference)
  {m : TransportManager Conn} {op : Operation Conn World Addr}

/-- What an operation does to the power manager. -/
inductive PowerMoved (m : TransportManager Conn) (r : Ran Conn World Unit) :
    Operation Conn World Addr → Prop
  | sent (peer : PeerIdentity) (msg : ProtocolMessage) (now : ℕ)
      (around : Surroundings Conn World)
      (hpower : r.manager.powerManager =
        ((m.powerManager.tick now).2.recordOutboundTransaction now).2) :
      PowerMoved m r (.sendToAt peer msg now around)
  | failed (peer : PeerIdentity) (msg : ProtocolMessage) (now : ℕ)
      (around : Surroundings Conn World) (hwakes : m.powerManager.Wakes now)
      (hpower : r.manager.powerManager = (m.powerManager.tick now).2) :
      PowerMoved m r (.sendToAt peer msg now around)
  | polled (now : ℕ) (around : Surroundings Conn World)
      (hrecorded : Recorded (m.powerManager.tick now).2 now r) :
      PowerMoved m r (.recvAnyAt now around)
  | ticked (now : ℕ) (around : Surroundings Conn World)
      (hpower : r.manager.powerManager = (m.powerManager.tick now).2) :
      PowerMoved m r (.powerTickAt now around)
  | rested (op : Operation Conn World Addr) (htime : op.time = none)
      (hpower : r.manager.powerManager = m.powerManager) : PowerMoved m r op

theorem powerMoved_operate (m : TransportManager Conn) (op : Operation Conn World Addr) :
    PowerMoved m (operate radio preference m op) op := by
  cases op with
  | sendToAt peer msg now around =>
    rcases powerManager_sendToAt radio.toConnection m now peer msg around with
      hpower | ⟨hwakes, hpower⟩
    · exact .sent peer msg now around hpower
    · exact .failed peer msg now around hwakes hpower
  | recvAnyAt now around =>
    exact .polled now around ((recorded_recvAnyAt radio.toConnection m now around).map _)
  | powerTickAt now around =>
    exact .ticked now around (powerManager_powerTickAt radio.toConnection around)
  | connect peer wifiAddr world =>
    refine .rested _ rfl ?_
    show (m.connect radio preference peer wifiAddr world).manager.powerManager = _
    unfold connect
    split <;> rfl
  | notifyMacRotated world =>
    exact .rested _ rfl (m.notifyMacRotated_spec radio.toConnection).1
  | registerInbound | disconnectPeer | shutdown => exact .rested _ rfl rfl

theorem activeAt_operate (hquiet : Quiet ⟨m, op, operate radio preference m op⟩)
    (hpostpones : m.Postpones op) {t : ℕ} (ht : op.time = some t) :
    (operate radio preference m op).manager.powerManager.ActiveAt t := by
  have hmoved := powerMoved_operate radio preference m op
  generalize operate radio preference m op = r at hmoved hquiet ⊢
  cases hmoved with
  | sent peer msg now around hpower =>
    cases ht
    rw [hpower]
    exact (PowerManager.recordOutboundTransaction_of_not_asleep
      (mt (m.powerManager.asleep_tick_iff t).1 hpostpones)).1
  | failed peer msg now around hwakes hpower =>
    cases ht
    rw [hpower]
    exact (PowerManager.activeAt_tick hwakes).1
  | polled now around hrecorded =>
    cases ht
    rw [hrecorded.of_quiet hquiet.calls]
    exact (PowerManager.activeAt_tick hpostpones).1
  | ticked now around hpower =>
    cases ht
    rw [hpower]
    exact (PowerManager.activeAt_tick hpostpones).1
  | rested op htime =>
    rw [ht] at htime
    cases htime

/-- An operation that does not postpone sleep leaves the idle time as it is. -/
theorem idle_operate_iff (hquiet : Quiet ⟨m, op, operate radio preference m op⟩)
    (hnot : ¬ m.Postpones op) {now : ℕ} (hnow : ∀ t ∈ op.time, t ≤ now) :
    (operate radio preference m op).manager.powerManager.Idle now ↔ m.powerManager.Idle now := by
  have hmoved := powerMoved_operate radio preference m op
  generalize operate radio preference m op = r at hmoved hquiet ⊢
  cases hmoved with
  | sent peer msg t around hpower =>
    have hasleep : m.powerManager.Asleep t := not_not.1 hnot
    have hle : t ≤ now := hnow t rfl
    rw [hpower, PowerManager.idle_recordOutboundTransaction
      ((m.powerManager.asleep_tick_iff t).2 hasleep) hle]
    exact PowerManager.idle_tick_of_not_wakes (PowerManager.not_wakes_of_asleep hasleep) hle
  | failed peer msg t around hwakes =>
    exact absurd hwakes (PowerManager.not_wakes_of_asleep (not_not.1 hnot))
  | polled t around hrecorded =>
    rw [hrecorded.of_quiet hquiet.calls]
    exact PowerManager.idle_tick_of_not_wakes hnot (hnow t rfl)
  | ticked t around hpower =>
    rw [hpower]
    exact PowerManager.idle_tick_of_not_wakes hnot (hnow t rfl)
  | rested op _ hpower => rw [hpower]

/-- Activity comes no later than the operations. -/
theorem lastIncomingActivityAt_operate_le {start : ℕ}
    (hm : m.powerManager.lastIncomingActivityAt ≤ start) (hop : ∀ t ∈ op.time, t ≤ start) :
    (operate radio preference m op).manager.powerManager.lastIncomingActivityAt ≤ start := by
  have hmoved := powerMoved_operate radio preference m op
  generalize operate radio preference m op = r at hmoved ⊢
  cases hmoved with
  | sent peer msg t around hpower =>
    rw [hpower]
    exact PowerManager.lastIncomingActivityAt_recordOutboundTransaction_le
      (PowerManager.lastIncomingActivityAt_tick_le hm (hop t rfl)) (hop t rfl)
  | failed peer msg t around _ hpower =>
    rw [hpower]
    exact PowerManager.lastIncomingActivityAt_tick_le hm (hop t rfl)
  | polled t around hrecorded =>
    cases hrecorded with
    | nothing hpower =>
      rw [hpower]
      exact PowerManager.lastIncomingActivityAt_tick_le hm (hop t rfl)
    | transaction call _ _ hpower =>
      rw [hpower, PowerManager.recordIncomingTransaction_eq]
      exact PowerManager.lastIncomingActivityAt_tick_le (hop t rfl) (hop t rfl)
  | ticked t around hpower =>
    rw [hpower]
    exact PowerManager.lastIncomingActivityAt_tick_le hm (hop t rfl)
  | rested op _ hpower =>
    rw [hpower]
    exact hm

end Steps

theorem time_of_postpones {m : TransportManager Conn} {op : Operation Conn World Addr}
    (h : m.Postpones op) : ∃ t, op.time = some t := by
  cases op with
  | sendToAt | recvAnyAt | powerTickAt => exact ⟨_, rfl⟩
  | connect | registerInbound | disconnectPeer | notifyMacRotated | shutdown => exact h.elim

/-! ### Runs -/

/-- The steps that postpone sleep. -/
def postponing (events : List (OperationEvent Conn World Addr)) :
    List (OperationEvent Conn World Addr) :=
  events.filter fun e => decide (e.before.Postpones e.input)

/-- The last of them, if there is one, is long enough ago. -/
def LongAgo (events : List (OperationEvent Conn World Addr)) (now : ℕ) : Prop :=
  ∀ e ∈ (postponing events).getLast?, ∀ t ∈ e.input.time, t + idleSleepTimeout ≤ now

instance (events : List (OperationEvent Conn World Addr)) (now : ℕ) :
    Decidable (LongAgo events now) :=
  inferInstanceAs (Decidable (∀ e ∈ (postponing events).getLast?, ∀ t ∈ e.input.time, _))

theorem longAgo_concat_iff {events : List (OperationEvent Conn World Addr)}
    {e : OperationEvent Conn World Addr} {t now : ℕ} (h : e.before.Postpones e.input)
    (ht : e.input.time = some t) :
    LongAgo (events ++ [e]) now ↔ t + idleSleepTimeout ≤ now := by
  have hlast : postponing (events ++ [e]) = postponing events ++ [e] := by simp [postponing, h]
  rw [LongAgo, hlast]
  simp [ht]

theorem longAgo_concat_of_not {events : List (OperationEvent Conn World Addr)}
    {e : OperationEvent Conn World Addr} (h : ¬ e.before.Postpones e.input) (now : ℕ) :
    LongAgo (events ++ [e]) now ↔ LongAgo events now := by
  have hnone : postponing (events ++ [e]) = postponing events := by simp [postponing, h]
  rw [LongAgo, hnone, LongAgo]

section Runs

variable (radio : Radio Conn World Addr) (preference : TransportPreference)
  {m : TransportManager Conn}

/-- Only what postpones sleep counts for the idle time: induction from the end of the run. -/
theorem idle_exec_iff {now : ℕ} (hm : m.powerManager.Idle now)
    {ops : List (Operation Conn World Addr)} (htimes : ∀ op ∈ ops, ∀ t ∈ op.time, t ≤ now)
    (hquiet : ∀ e ∈ trace (operations radio preference) m ops, Quiet e) :
    (exec (operations radio preference) m ops).powerManager.Idle now ↔
      LongAgo (trace (operations radio preference) m ops) now := by
  induction ops using List.reverseRecOn with
  | nil => exact iff_of_true hm fun e he => by cases he
  | append_singleton ops op ih =>
    rw [trace_append, List.forall_mem_append] at hquiet
    rw [List.forall_mem_append] at htimes
    have hlast := hquiet.2 _ (List.mem_singleton_self _)
    have hbefore := ih htimes.1 hquiet.1
    rw [exec_concat, trace_append]
    by_cases hpostpones : (exec (operations radio preference) m ops).Postpones op
    · obtain ⟨t, ht⟩ := time_of_postpones hpostpones
      rw [trace_cons, trace_nil, longAgo_concat_iff hpostpones ht]
      exact (activeAt_operate radio preference hlast hpostpones ht).idle_iff now
    · rw [trace_cons, trace_nil, longAgo_concat_of_not hpostpones, ← hbefore]
      exact idle_operate_iff radio preference hlast hpostpones
        (htimes.2 op (List.mem_singleton_self op))

end Runs

/-! ### The flag -/

/-- A control message that is sent sets the flag of a transaction that waits. -/
def SetsFlag (e : OperationEvent Conn World Addr) : Prop :=
  match e.input with
  | .sendToAt _ msg _ _ => msg.isTransaction = false ∧
      e.before.powerManager.pendingOutboundTransaction = false ∧
      e.output.manager.powerManager.pendingOutboundTransaction = true
  | _ => False

/-- A control message is sent while the node sleeps, and no transaction waits. -/
def SendsAsleep (m : TransportManager Conn) : Operation Conn World Addr → Prop
  | .sendToAt _ msg now _ => msg.isTransaction = false ∧
      m.powerManager.pendingOutboundTransaction = false ∧ m.powerManager.Asleep now
  | _ => False

instance (m : TransportManager Conn) :
    DecidablePred fun op : Operation Conn World Addr => m.SendsAsleep op
  | .sendToAt _ msg now _ => inferInstanceAs (Decidable (msg.isTransaction = false ∧
      m.powerManager.pendingOutboundTransaction = false ∧ m.powerManager.Asleep now))
  | .recvAnyAt _ _ => isFalse not_false
  | .powerTickAt _ _ => isFalse not_false
  | .connect _ _ _ => isFalse not_false
  | .registerInbound _ _ _ => isFalse not_false
  | .disconnectPeer _ _ => isFalse not_false
  | .notifyMacRotated _ => isFalse not_false
  | .shutdown _ => isFalse not_false

theorem pendingOutboundTransaction_sendToAt_iff (api : Connection Conn World)
    (m : TransportManager Conn) (peer : PeerIdentity) (msg : ProtocolMessage) (now : ℕ)
    (around : Surroundings Conn World) (hnone : m.powerManager.pendingOutboundTransaction = false) :
    (m.sendToAt api peer msg now around).manager.powerManager.pendingOutboundTransaction = true ↔
      m.powerManager.Asleep now := by
  have hwakes : ¬ m.powerManager.Wakes now := by
    rintro ⟨-, hpending, -⟩
    rw [hnone] at hpending
    cases hpending
  rcases powerManager_sendToAt api m now peer msg around with hpower | hfails
  · rw [hpower, ← m.powerManager.asleep_tick_iff]
    have hticked := (PowerManager.tick_of_not_wakes hwakes).2.2.trans hnone
    generalize (m.powerManager.tick now).2 = p at hticked
    by_cases hasleep : p.Asleep now
    · rw [PowerManager.recordOutboundTransaction_of_asleep hasleep]
      exact iff_of_true rfl hasleep
    · have hwakes' : ¬ p.Wakes now := by
        rintro ⟨-, hpending, -⟩
        rw [hticked] at hpending
        cases hpending
      rw [(PowerManager.recordOutboundTransaction_of_not_asleep hasleep).2,
        (PowerManager.tick_of_not_wakes hwakes').2.2, hticked]
      exact iff_of_false Bool.false_ne_true hasleep
  · exact absurd hfails.1 hwakes

theorem setsFlag_iff (radio : Radio Conn World Addr) (preference : TransportPreference)
    (m : TransportManager Conn) (op : Operation Conn World Addr) :
    SetsFlag ⟨m, op, operate radio preference m op⟩ ↔ m.SendsAsleep op := by
  cases op with
  | sendToAt peer msg now around =>
    refine and_congr_right fun _ => and_congr_right fun hnone => ?_
    exact pendingOutboundTransaction_sendToAt_iff radio.toConnection m peer msg now around hnone
  | recvAnyAt | powerTickAt | connect | registerInbound | disconnectPeer | notifyMacRotated
  | shutdown => exact Iff.rfl

end TransportManager

open TransportManager

/-- **When control traffic lets a node sleep.**  Let no transaction be sent or received during an
interval as long as the idle time.  The first tick after it leaves the node asleep, and no control
message of the run sets the flag of a transaction that waits, exactly when the last step of the
interval that postpones sleep is long enough before that tick, which finds nothing to wake up for,
and no control message is sent while the node sleeps and no transaction waits. -/
theorem control_traffic_iff (radio : Radio Conn World Addr) (preference : TransportPreference)
    (m : TransportManager Conn) (start now : ℕ) (before during : List (Operation Conn World Addr))
    (hstart : m.powerManager.lastIncomingActivityAt ≤ start)
    (hbefore : ∀ op ∈ before, ∀ t ∈ op.time, t ≤ start)
    (hduring : ∀ op ∈ during, ∀ t ∈ op.time, t < start + idleSleepTimeout)
    (hquiet : ∀ e ∈ trace (operations radio preference)
      (exec (operations radio preference) m before) during, Quiet e)
    (hnow : start + idleSleepTimeout ≤ now) (around : Surroundings Conn World) :
    let slept := exec (operations radio preference) m (before ++ during)
    let events := trace (operations radio preference) m (before ++ during)
    ((slept.powerTickAt radio.toConnection now around).manager.powerManager.mode =
        .synchronizedLowPower ∧ ∀ e ∈ events, ¬ SetsFlag e) ↔
      LongAgo (trace (operations radio preference)
          (exec (operations radio preference) m before) during) now ∧
        ¬ (slept.powerManager.pendingOutboundTransaction = true ∧ isAwakeWindow now = true) ∧
        ∀ e ∈ events, ¬ e.before.SendsAsleep e.input := by
  intro slept events
  have hlast : (exec (operations radio preference) m
      before).powerManager.lastIncomingActivityAt ≤ start :=
    exec_invariant (fun m : TransportManager Conn =>
        m.powerManager.lastIncomingActivityAt ≤ start)
      (fun m op hop hm => lastIncomingActivityAt_operate_le radio preference hm (hbefore op hop))
      hstart
  -- The operations before `start` are too old to count.
  have hidle : slept.powerManager.Idle now ↔
      LongAgo (trace (operations radio preference)
        (exec (operations radio preference) m before) during) now := by
    show (exec (operations radio preference) m (before ++ during)).powerManager.Idle now ↔ _
    rw [exec_append]
    refine idle_exec_iff radio preference (.inr ?_) (fun op hop t ht => ?_) hquiet
    · omega
    · exact ((hduring op hop t ht).trans_le hnow).le
  have hflags : (∀ e ∈ events, ¬ SetsFlag e) ↔ ∀ e ∈ events, ¬ e.before.SendsAsleep e.input := by
    refine forall₂_congr fun e he => not_congr ?_
    obtain ⟨pre, op, post, -, rfl⟩ := mem_trace he
    exact setsFlag_iff radio preference _ op
  rw [powerManager_powerTickAt, PowerManager.mode_tick_iff, hflags, ← hidle, and_assoc]
  exact Iff.rfl

/-- Nothing happens outside of the manager, and no connection breaks. -/
def sampleAround : Surroundings (PeerIdentity × TransportType) Bool :=
  { (Surroundings.quiet : Surroundings (PeerIdentity × TransportType) Unit) with world := false }

/-- A handshake is sent to a connected peer. -/
def handshakeAt (t : ℕ) : List (Operation (PeerIdentity × TransportType) Bool Unit) :=
  [.registerInbound (samplePeer 1) (samplePeer 1, .ble) false,
    .sendToAt (samplePeer 1) (.handshake (samplePeer 1).pubkey) t sampleAround]

/-- A handshake at the beginning of the five minutes does not keep the node awake. -/
theorem control_traffic_sample :
    let m := withPowerManager (PowerManager.new 0)
    let slept := exec (operations sampleRadio .auto) m (handshakeAt 0)
    (slept.powerTickAt sampleRadio.toConnection 300000000000
        sampleAround).manager.powerManager.mode = .synchronizedLowPower ∧
      ∀ e ∈ trace (operations sampleRadio .auto) m (handshakeAt 0), ¬ SetsFlag e := by
  have hiff := control_traffic_iff sampleRadio .auto (withPowerManager (PowerManager.new 0)) 0
    300000000000 [] (handshakeAt 0) (by decide) (by simp) (by decide +kernel) (by decide +kernel)
    (by decide) sampleAround
  rw [List.nil_append] at hiff
  apply hiff.2
  refine ⟨?_, ?_, ?_⟩
  · decide +kernel
  · decide +kernel
  · decide +kernel

/-- One that is sent after a hundred seconds does, and one that is sent while the node sleeps
pretends that a transaction waits. -/
theorem control_keeps_awake_sample :
    let m := withPowerManager (PowerManager.new 0)
    let slept := exec (operations sampleRadio .auto) m (handshakeAt 100000000000)
    (∀ e ∈ trace (operations sampleRadio .auto) m (handshakeAt 100000000000), Quiet e) ∧
      (slept.powerTickAt sampleRadio.toConnection 300000000000
        sampleAround).manager.powerManager.mode = .highPower ∧
      ∃ e ∈ trace (operations sampleRadio .auto) m (handshakeAt sleepingAt), SetsFlag e := by
  intro m slept
  refine ⟨by decide +kernel, by decide +kernel, _,
    List.mem_cons_of_mem _ (List.mem_singleton_self _), ?_⟩
  exact ⟨rfl, by decide +kernel, by decide +kernel⟩

end StellarConduit
