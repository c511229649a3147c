import StellarConduit.Transport.Logging
import StellarConduit.Transport.Silence

/-!
# The preference for a transport

`TransportPreference` of `transport/unified.rs` is asked when a connection is opened, but not when
one that broke is replaced.

* `SendUnreplaced`, `FlushUnreplaced`, `PollUnreplaced`: of the connections of a table, none breaks
  under these calls while one over BLE can be opened in its place;
* `Unreplaced`: so it is in an operation, judged by the manager before it and by its surroundings;
* `wifi_only_iff`: under the preference for WiFi-Direct alone, no connection over BLE is opened in a
  run if and only if each of its operations is such.
-/

namespace StellarConduit

open Verif.Machine

variable {Conn World Addr : Type}

/-! ### Connections that are not replaced -/

section Unreplaced

variable (api : Connection Conn World) (next : ConnectionTable Conn → World → Prop)

/-- The connection to the peer does not break while one over BLE can be opened in its place.  If it
accepts the message, then `next` holds of what this leaves. -/
def SendUnreplaced (t : ConnectionTable Conn) (world : World) (pending : PendingMessage) : Prop :=
  match t.activeConnections.lookup pending.peer.pubkey with
  | none => True
  | some conn =>
    match api.send conn pending.message world with
    | (.ok (), conn', world) => next (t.set pending.peer.pubkey conn') world
    | (.err .brokenPipe, _, world) => (api.connectBle pending.peer world).1.toOption = none
    | _ => True

/-- The messages are sent one after the other, until one is not accepted. -/
def FlushUnreplaced (t : ConnectionTable Conn) (world : World) : List PendingMessage → Prop
  | [] => next t world
  | pending :: rest =>
    SendUnreplaced api (fun t world => FlushUnreplaced t world rest) t world pending

/-- The peers are polled one after the other, until one of them has a message.  No connection breaks
while one over BLE can be opened in its place. -/
def PollUnreplaced (t : ConnectionTable Conn) (world : World) : List (Bytes 32) → Prop
  | [] => True
  | pubkey :: keys =>
    match t.activeConnections.lookup pubkey with
    | none => PollUnreplaced t world keys
    | some conn =>
      match api.recv conn world with
      | (.ok _, _, _) => True
      | (.panic _, _, _) => True
      | (.err .brokenPipe, conn', world) =>
        let dialed := api.connectBle (api.remotePeer conn) world
        dialed.1.toOption = none ∧
          PollUnreplaced ((t.set pubkey conn').disconnectPeer pubkey).2 dialed.2 keys
      | (_, conn', world) => PollUnreplaced (t.set pubkey conn') world keys

namespace TransportManager

variable (m : TransportManager Conn) (now : ℕ) (around : Surroundings Conn World)

/-- A tick sends what waits if it wakes the network. -/
def TickUnreplaced : Prop :=
  let t := (m.tickPower api now around).2.connections
  if (m.powerManager.tick now).1.wakeNetwork then
    FlushUnreplaced api next t around.world m.pendingMessages
  else next t around.world

/-- A message is sent after the tick, unless it is a transaction and BLE sleeps. -/
def SendToUnreplaced (peer : PeerIdentity) (msg : ProtocolMessage) : Prop :=
  let powerManager := (m.powerManager.tick now).2
  m.TickUnreplaced api (fun t world =>
    (msg.isTransaction ∧ powerManager.mode = .synchronizedLowPower ∧
        (powerManager.interfaceState now).bleEnabled = false) ∨
      SendUnreplaced api (fun _ _ => True) t world ⟨peer, msg⟩) now around

/-- The connections are polled after the tick, unless both interfaces sleep. -/
def RecvAnyUnreplaced : Prop :=
  let interfaceState := (m.powerManager.tick now).1.interfaceState
  m.TickUnreplaced api (fun t world =>
    (interfaceState.bleEnabled = false ∧ interfaceState.wifiEnabled = false) ∨
      PollUnreplaced api t world (around.keyOrder t.activeConnections.keys)) now around

/-- In the operation, no connection breaks while one over BLE can be opened in its place. -/
def Unreplaced : Operation Conn World Addr → Prop
  | .sendToAt peer msg now around => m.SendToUnreplaced api now around peer msg
  | .recvAnyAt now around => m.RecvAnyUnreplaced api now around
  | .powerTickAt now around => m.TickUnreplaced api (fun _ _ => True) now around
  | _ => True

end TransportManager

end Unreplaced

/-! ### What is opened -/

/-- No connection over BLE is opened. -/
def OpensNoBle (transportType : Conn → TransportType) (log : List (RadioEvent Conn)) : Prop :=
  ∀ event ∈ log, ∀ conn ∈ event.opened, transportType conn ≠ .ble

section Opens

variable {radio : Radio Conn World Addr}

theorem opensNoBle_append {transportType : Conn → TransportType}
    {log log' : List (RadioEvent Conn)} :
    OpensNoBle transportType (log ++ log') ↔
      OpensNoBle transportType log ∧ OpensNoBle transportType log' :=
  List.forall_mem_append

theorem opensNoBle_called (transportType : Conn → TransportType) (broke : Bool) :
    OpensNoBle transportType [.called broke] := by
  intro event hevent conn hconn
  rw [List.mem_singleton.1 hevent] at hconn
  cases hconn

/-- What BLE opens is a connection over BLE. -/
theorem opensNoBle_dialed_iff (peer : PeerIdentity) (world : World) :
    OpensNoBle radio.transportType [.dialed .ble (radio.connectBle peer world).1.toOption] ↔
      (radio.connectBle peer world).1.toOption = none := by
  constructor
  · intro hopens
    by_contra hsome
    obtain ⟨conn, hconn⟩ := Option.ne_none_iff_exists'.1 hsome
    refine hopens _ (List.mem_singleton_self _) conn hconn ?_
    exact forall_toOption (radio.ble_of_connectBle peer world) conn hconn
  · intro hnone event hevent conn hconn
    rw [List.mem_singleton.1 hevent, hnone] at hconn
    cases hconn

/-- What came of dialing BLE is in the log. -/
theorem of_logged_connectBle {peer : PeerIdentity} {world world' : LoggedWorld Conn World}
    {result : Except TransportError Conn}
    (h : radio.logged.connectBle peer world = (result, world')) :
    (radio.connectBle peer world.1).1 = result ∧
      world'.2 = world.2 ++ [.dialed .ble (radio.connectBle peer world.1).1.toOption] :=
  ⟨congrArg Prod.fst h, congrArg (fun dialed => dialed.2.2) h.symm⟩

/-- What was opened stays in the log. -/
theorem moves_opensNoBle (radio : Radio Conn World Addr) :
    TableMoves radio.logged.toConnection fun s s' =>
      OpensNoBle radio.transportType s'.2.2 → OpensNoBle radio.transportType s.2.2 where
  refl _ := id
  trans _ _ _ h h' hlast := h (h' hlast)
  call t pubkey conn world broken conn' world' _ hcalled hlast := by
    rw [log_of_called hcalled] at hlast
    exact (opensNoBle_append.1 hlast).1
  failOver t pubkey conn world conn' world' peer _ hcalled hlast := by
    have hlog : (t.set pubkey conn' |>.failOver radio.logged.toConnection pubkey peer
        world').2.2 = world'.2 ++ [.dialed .ble (radio.connectBle peer world'.1).1.toOption] := by
      unfold ConnectionTable.failOver
      split
      next hfailed => exact (of_logged_connectBle hfailed).2
      next hreplaced => exact (of_logged_connectBle hreplaced).2
    rw [hlog, log_of_called hcalled, List.append_assoc] at hlast
    exact (opensNoBle_append.1 hlast).1

variable {m : TransportManager Conn} {world : World} {log : List (RadioEvent Conn)}
  {next : ConnectionTable Conn → World → Prop} {α : Type}

/-- The operation opens no connection over BLE, and if it succeeds, then `next` holds of what it
leaves. -/
def Ran.Unreplaced (transportType : Conn → TransportType)
    (next : ConnectionTable Conn → World → Prop) (r : Ran Conn (LoggedWorld Conn World) α) : Prop :=
  OpensNoBle transportType r.world.2 ∧
    ∀ a, r.answer = .ok a → next r.manager.connections r.world.1

open TransportManager

theorem logged_send {conn conn' : Conn} {msg : ProtocolMessage} {world' : World}
    {answer : Awaited Unit} (h : radio.send conn msg world = (answer, conn', world')) :
    radio.logged.send conn msg (world, log) =
      (answer, conn', (world', log ++ [.called (decide (answer = .err .brokenPipe))])) := by
  simp only [Radio.logged, h]

theorem logged_recv {conn conn' : Conn} {world' : World} {answer : Awaited ProtocolMessage}
    (h : radio.recv conn world = (answer, conn', world')) :
    radio.logged.recv conn (world, log) =
      (answer, conn', (world', log ++ [.called (decide (answer = .err .brokenPipe))])) := by
  simp only [Radio.logged, h]

theorem logged_connectBle {peer : PeerIdentity} {result : Except TransportError Conn}
    {world' : World} (h : radio.connectBle peer world = (result, world')) :
    radio.logged.connectBle peer (world, log) =
      (result, (world', log ++ [.dialed .ble result.toOption])) := by
  simp only [Radio.logged, h]

theorem unreplaced_sendNow_iff (hlog : OpensNoBle radio.transportType log)
    (pending : PendingMessage) :
    (m.sendNow radio.logged.toConnection pending.peer pending.message (world, log)).Unreplaced
        radio.transportType next ↔
      SendUnreplaced radio.toConnection next m.connections world pending := by
  have hcalled (broke : Bool) : OpensNoBle radio.transportType (log ++ [.called broke]) :=
    opensNoBle_append.2 ⟨hlog, opensNoBle_called _ _⟩
  have hdialed (peer : PeerIdentity) (world' : World) :
      OpensNoBle radio.transportType (log ++ [.called true] ++
        [.dialed .ble (radio.connectBle peer world').1.toOption]) ↔
        (radio.connectBle peer world').1.toOption = none := by
    rw [opensNoBle_append, opensNoBle_dialed_iff, and_iff_right (hcalled true)]
  refine sendNow_cases (P := fun r => r.Unreplaced radio.transportType next ↔
    SendUnreplaced radio.toConnection next m.connections world pending) radio.logged.toConnection m
    pending.peer pending.message (world, log) ?_ ?_ ?_ ?_
  · intro hconn
    change m.connections.activeConnections.lookup _ = _ at hconn
    unfold SendUnreplaced
    rw [hconn]
    exact iff_of_true ⟨hlog, fun _ h => by cases h⟩ trivial
  · intro conn hconn hkept
    change m.connections.activeConnections.lookup _ = _ at hconn
    rcases hsend : radio.send conn pending.message world with ⟨answer, conn', world'⟩
    rw [logged_send hsend] at hkept
    unfold SendUnreplaced
    rw [sendOn_of_send _ (logged_send hsend), hconn]
    dsimp only
    rw [hsend]
    cases answer with
    | ok a => exact ⟨fun h => h.2 a rfl, fun h => ⟨hcalled _, fun _ _ => h⟩⟩
    | err e =>
      cases e with
      | brokenPipe => exact absurd rfl hkept
      | _ => exact iff_of_true ⟨hcalled _, fun _ h => by cases h⟩ trivial
    | panic p => exact iff_of_true ⟨hcalled _, fun _ h => by cases h⟩ trivial
    | pending => exact iff_of_true ⟨hcalled _, fun _ h => by cases h⟩ trivial
  · intro conn e world' hconn hbroken hfailed
    change m.connections.activeConnections.lookup _ = _ at hconn
    rcases hsend : radio.send conn pending.message world with ⟨answer, conn', world''⟩
    rw [logged_send hsend] at hbroken hfailed
    obtain rfl : answer = .err .brokenPipe := hbroken
    unfold SendUnreplaced
    rw [hconn]
    dsimp only
    rw [hsend]
    dsimp only
    obtain ⟨hresult, hlast⟩ := of_logged_connectBle hfailed
    have hnone : (radio.connectBle pending.peer world'').1.toOption = none := by
      rw [hresult]
      rfl
    refine iff_of_true ⟨?_, fun _ h => by cases h⟩ hnone
    show OpensNoBle _ world'.2
    rw [hlast]
    exact (hdialed _ _).2 hnone
  · intro conn conn' world' hconn hbroken hreplaced
    change m.connections.activeConnections.lookup _ = _ at hconn
    rcases hsend : radio.send conn pending.message world with ⟨answer, conn'', world''⟩
    rw [logged_send hsend] at hbroken hreplaced
    obtain rfl : answer = .err .brokenPipe := hbroken
    unfold SendUnreplaced
    rw [hconn]
    dsimp only
    rw [hsend]
    dsimp only
    obtain ⟨hresult, hlast⟩ := of_logged_connectBle hreplaced
    have hsome : (radio.connectBle pending.peer world'').1.toOption ≠ none := by
      rw [hresult]
      exact Option.some_ne_none conn'
    refine iff_of_false (fun h => ?_) hsome
    -- The new connection has been opened when it is asked.
    have hopens := h.1
    change OpensNoBle _ (world'.2 ++ [.called _]) at hopens
    rw [opensNoBle_append, hlast] at hopens
    exact hsome ((hdialed _ _).1 hopens.1)

theorem opensNoBle_sendNow_iff (peer : PeerIdentity) (msg : ProtocolMessage) :
    OpensNoBle radio.transportType
        (m.sendNow radio.logged.toConnection peer msg (world, log)).world.2 ↔
      OpensNoBle radio.transportType log ∧
        SendUnreplaced radio.toConnection (fun _ _ => True) m.connections world ⟨peer, msg⟩ := by
  have hgrows : OpensNoBle radio.transportType
      (m.sendNow radio.logged.toConnection peer msg (world, log)).world.2 →
        OpensNoBle radio.transportType log := moved_sendNow (moves_opensNoBle radio) peer msg
  rw [← and_iff_right_of_imp hgrows]
  refine and_congr_right fun hlog => ?_
  rw [← unreplaced_sendNow_iff hlog]
  exact (and_iff_left fun _ _ => trivial).symm

theorem unreplaced_flush_iff (hlog : OpensNoBle radio.transportType log)
    (pendings : List PendingMessage) :
    (m.flush radio.logged.toConnection (world, log) pendings).Unreplaced radio.transportType next ↔
      FlushUnreplaced radio.toConnection next m.connections world pendings := by
  induction pendings generalizing m world log with
  | nil => exact ⟨fun h => h.2 0 rfl, fun h => ⟨hlog, fun _ _ => h⟩⟩
  | cons pending rest ih =>
    unfold flush FlushUnreplaced
    rw [← unreplaced_sendNow_iff (m := { m with pendingMessages := rest }) hlog]
    generalize sendNow radio.logged.toConnection _ pending.peer pending.message (world, log) = sent
    obtain ⟨answer, m', ⟨world', log'⟩, calls⟩ := sent
    cases answer with
    | ok a =>
      have hgrows : OpensNoBle radio.transportType
          (m'.flush radio.logged.toConnection (world', log') rest).world.2 →
            OpensNoBle radio.transportType log' := moved_flush (moves_opensNoBle radio) rest
      constructor
      · intro h
        have hlog' : OpensNoBle radio.transportType log' := hgrows h.1
        refine ⟨hlog', fun _ _ => (ih hlog').1 ⟨h.1, fun n hn => h.2 (n + 1) ?_⟩⟩
        exact Awaited.map_eq_ok_iff.2 ⟨n, hn, rfl⟩
      · rintro ⟨hlog', hrest⟩
        have hflush := (ih hlog').2 (hrest a rfl)
        refine ⟨hflush.1, fun n hn => ?_⟩
        obtain ⟨n', hn', -⟩ := Awaited.map_eq_ok_iff.1 hn
        exact hflush.2 n' hn'
    | err | panic | pending =>
      exact and_congr_right fun _ => iff_of_true (by rintro _ ⟨⟩) (by rintro _ ⟨⟩)

theorem Ran.unreplaced_map {β : Type} {transportType : Conn → TransportType} {f : α → β}
    {r : Ran Conn (LoggedWorld Conn World) α} :
    (r.map f).Unreplaced transportType next ↔ r.Unreplaced transportType next := by
  refine and_congr_right fun _ => ⟨fun h a ha => ?_, fun h b hb => ?_⟩
  · exact h (f a) (Awaited.map_eq_ok_iff.2 ⟨a, ha, rfl⟩)
  · obtain ⟨a, ha, -⟩ := Awaited.map_eq_ok_iff.1 hb
    exact h a ha

theorem tickPower_logged (now : ℕ) (around : Surroundings Conn World) :
    m.tickPower radio.logged.toConnection now around.logged =
      m.tickPower radio.toConnection now around :=
  project_tickPower (projects_logged radio) m now around.logged

theorem unreplaced_powerTickAt_iff (now : ℕ) (around : Surroundings Conn World) :
    (m.powerTickAt radio.logged.toConnection now around.logged).Unreplaced radio.transportType
        next ↔ m.TickUnreplaced radio.toConnection next now around := by
  obtain ⟨hwake, -, -, hpending⟩ := m.tickPower_spec radio.toConnection now around
  have hnil : OpensNoBle radio.transportType [] := List.forall_mem_nil _
  unfold powerTickAt TickUnreplaced
  dsimp only
  rw [Ran.unreplaced_map, tickPower_logged, ← hwake, ← hpending]
  split_ifs
  · exact unreplaced_flush_iff hnil _
  · exact ⟨fun h => h.2 _ rfl, fun h => ⟨hnil, fun _ _ => h⟩⟩

theorem opensNoBle_pollKeys_of_log (hlog : OpensNoBle radio.transportType log) (now : ℕ)
    (keys : List (Bytes 32)) :
    OpensNoBle radio.transportType
        (m.pollKeys radio.logged.toConnection now (world, log) keys).world.2 ↔
      PollUnreplaced radio.toConnection m.connections world keys := by
  induction keys generalizing m world log with
  | nil => exact iff_of_true hlog trivial
  | cons pubkey keys ih =>
    unfold pollKeys PollUnreplaced connection
    cases m.connections.activeConnections.lookup pubkey with
    | none => exact ih hlog
    | some conn =>
      have hcalled (broke : Bool) : OpensNoBle radio.transportType (log ++ [.called broke]) :=
        opensNoBle_append.2 ⟨hlog, opensNoBle_called _ _⟩
      rcases hrecv : radio.recv conn world with ⟨answer, conn', world'⟩
      have hlogged : radio.logged.toConnection.recv conn (world, log) = _ := logged_recv hrecv
      simp only [hlogged]
      rw [hrecv]
      dsimp only [Ran.after]
      cases answer with
      | ok msg => exact iff_of_true (hcalled _) trivial
      | panic p => exact iff_of_true (hcalled _) trivial
      | pending => exact ih (m := m.setConnection pubkey conn') (hcalled _)
      | err e =>
        cases e with
        | brokenPipe =>
          dsimp only
          -- What was opened is in the log when the next peer is polled.
          have hopens : OpensNoBle radio.transportType (log ++ [.called true] ++
              [.dialed .ble (radio.connectBle (radio.remotePeer conn) world').1.toOption]) ↔
                (radio.connectBle (radio.remotePeer conn) world').1.toOption = none := by
            rw [opensNoBle_append, opensNoBle_dialed_iff, and_iff_right (hcalled true)]
          rcases hdialed : radio.connectBle (radio.remotePeer conn) world' with ⟨result, world''⟩
          rw [hdialed] at hopens
          have hlogged' : radio.logged.toConnection.connectBle (radio.logged.remotePeer conn)
              (world', log ++ [.called (decide ((.err .brokenPipe : Awaited ProtocolMessage) =
                .err .brokenPipe))]) = _ := logged_connectBle hdialed
          unfold bleFallback
          rw [hlogged']
          cases result with
          | error e =>
            exact (ih (m := (m.setConnection pubkey conn').remove pubkey) (hopens.2 rfl)).trans
              (and_iff_right rfl).symm
          | ok conn'' =>
            refine iff_of_false (fun h => ?_) fun h => by cases h.1
            cases hopens.1 (moved_pollKeys (moves_opensNoBle radio) now keys h)
        | _ => exact ih (m := m.setConnection pubkey conn') (hcalled _)

theorem opensNoBle_pollKeys_iff (now : ℕ) (keys : List (Bytes 32)) :
    OpensNoBle radio.transportType
        (m.pollKeys radio.logged.toConnection now (world, log) keys).world.2 ↔
      OpensNoBle radio.transportType log ∧
        PollUnreplaced radio.toConnection m.connections world keys := by
  have hgrows : OpensNoBle radio.transportType
      (m.pollKeys radio.logged.toConnection now (world, log) keys).world.2 →
        OpensNoBle radio.transportType log := moved_pollKeys (moves_opensNoBle radio) now keys
  rw [← and_iff_right_of_imp hgrows]
  exact and_congr_right fun hlog => opensNoBle_pollKeys_of_log hlog now keys

theorem opensNoBle_sendToAt_iff (peer : PeerIdentity) (msg : ProtocolMessage) (now : ℕ)
    (around : Surroundings Conn World) :
    OpensNoBle radio.transportType
        (m.sendToAt radio.logged.toConnection peer msg now around.logged).world.2 ↔
      m.SendToUnreplaced radio.toConnection now around peer msg := by
  have hpower : (m.powerTickAt radio.logged.toConnection now around.logged).manager.powerManager =
      (m.powerManager.tick now).2 := powerManager_powerTickAt _ _
  unfold SendToUnreplaced sendToAt
  dsimp only
  rw [← unreplaced_powerTickAt_iff, ← hpower]
  generalize m.powerTickAt radio.logged.toConnection now around.logged = tick
  obtain ⟨answer, m', ⟨world, log⟩, calls⟩ := tick
  cases answer with
  | ok outcome =>
    dsimp only [Ran.bind]
    split_ifs with hdeferred
    · exact ⟨fun h => ⟨h, fun _ _ => .inl hdeferred⟩, And.left⟩
    · rw [opensNoBle_sendNow_iff]
      refine and_congr_right fun _ => ⟨fun h _ _ => .inr h, fun h => ?_⟩
      exact (h outcome rfl).resolve_left hdeferred
  | err | panic | pending => exact (and_iff_left (by rintro _ ⟨⟩)).symm

/-- The tick says how the interfaces are. -/
theorem interfaceState_of_powerTickAt (api : Connection Conn World) (now : ℕ)
    (around : Surroundings Conn World) (outcome : PowerTickOutcome)
    (h : (m.powerTickAt api now around).answer = .ok outcome) :
    outcome.interfaceState = (m.powerManager.tick now).1.interfaceState := by
  obtain ⟨-, hinterface, -⟩ := m.tickPower_spec api now around
  obtain ⟨n, -, rfl⟩ := Awaited.map_eq_ok_iff.1 h
  exact hinterface

theorem opensNoBle_recvAnyAt_iff (now : ℕ) (around : Surroundings Conn World) :
    OpensNoBle radio.transportType
        (m.recvAnyAt radio.logged.toConnection now around.logged).world.2 ↔
      m.RecvAnyUnreplaced radio.toConnection now around := by
  have hinterface := interfaceState_of_powerTickAt (m := m) radio.logged.toConnection now
    around.logged
  unfold RecvAnyUnreplaced recvAnyAt
  dsimp only
  rw [← unreplaced_powerTickAt_iff]
  generalize m.powerTickAt radio.logged.toConnection now around.logged = tick at hinterface
  obtain ⟨answer, m', ⟨world, log⟩, calls⟩ := tick
  cases answer with
  | ok outcome =>
    rw [← hinterface outcome rfl]
    dsimp only [Ran.bind]
    split_ifs with hoff
    · exact ⟨fun h => ⟨h, fun _ _ => .inl hoff⟩, And.left⟩
    · rw [opensNoBle_pollKeys_iff]
      refine and_congr_right fun _ => ⟨fun h _ _ => .inr h, fun h => ?_⟩
      exact (h outcome rfl).resolve_left hoff
  | err | panic | pending => exact (and_iff_left (by rintro _ ⟨⟩)).symm

/-- Under the preference for WiFi-Direct, BLE is not dialed to connect. -/
theorem opensNoBle_dial (radio : Radio Conn World Addr) (peer : PeerIdentity)
    (wifiAddr : Option Addr) (world : World) :
    OpensNoBle radio.transportType
      (radio.logged.dial .wifiOnly peer wifiAddr (world, [])).2.2 := by
  cases wifiAddr with
  | none => exact List.forall_mem_nil _
  | some addr =>
    intro event hevent conn hconn hble
    obtain rfl := List.mem_singleton.1 hevent
    have hwifi := forall_toOption (radio.wifiDirect_of_connectWifi peer addr world) conn hconn
    rw [hble] at hwifi
    cases hwifi

theorem opensNoBle_radioLog_iff (op : Operation Conn World Addr) :
    OpensNoBle radio.transportType (radioLog radio .wifiOnly m op) ↔
      m.Unreplaced radio.toConnection op := by
  have hnil : OpensNoBle radio.transportType [] := List.forall_mem_nil _
  unfold radioLog operateLogged
  cases op with
  | sendToAt peer msg now around => exact opensNoBle_sendToAt_iff peer msg now around
  | recvAnyAt now around => exact opensNoBle_recvAnyAt_iff now around
  | powerTickAt now around =>
    show _ ↔ m.TickUnreplaced radio.toConnection (fun _ _ => True) now around
    rw [← unreplaced_powerTickAt_iff]
    exact (and_iff_left fun _ _ => trivial).symm
  | connect peer wifiAddr world =>
    have hdialed := opensNoBle_dial radio peer wifiAddr world
    refine iff_of_true ?_ trivial
    show OpensNoBle _ (m.connect radio.logged .wifiOnly peer wifiAddr (world, [])).world.2
    unfold connect
    generalize radio.logged.dial .wifiOnly peer wifiAddr (world, []) = dialed at hdialed ⊢
    obtain ⟨result, world'⟩ := dialed
    cases result with
    | error e => exact hdialed
    | ok conn => exact hdialed
  | registerInbound | disconnectPeer | notifyMacRotated | shutdown => exact iff_of_true hnil trivial

end Opens

/-- **When the preference for WiFi-Direct is respected.**  In a run under this preference, the
manager opens no connection over BLE if and only if in no operation a connection breaks, under a
message or a poll, while one over BLE can be opened in its place. -/
theorem wifi_only_iff (radio : Radio Conn World Addr) (m : TransportManager Conn)
    (ops : List (Operation Conn World Addr)) :
    (∀ e ∈ trace (operations radio .wifiOnly) m ops,
        ∀ event ∈ radioLog radio .wifiOnly e.before e.input, ∀ conn ∈ event.opened,
          radio.transportType conn ≠ .ble) ↔
      ∀ e ∈ trace (operations radio .wifiOnly) m ops,
        e.before.Unreplaced radio.toConnection e.input :=
  forall₂_congr fun e _ => opensNoBle_radioLog_iff e.input

/-- A connection over WiFi-Direct is opened, breaks when a message is sent, and one over BLE takes
its place. -/
theorem opens_ble_sample :
    let peer := TransportManager.samplePeer 1
    let ops : List (Operation (PeerIdentity × TransportType) Bool Unit) :=
      [.connect peer (some ()) false,
        .sendToAt peer (.handshake peer.pubkey) 0
          { bleIncoming := [], instant := 0, keyOrder := fun keys => keys,
            keyOrder_perm := fun _ => .refl _, world := true }]
    ∃ e ∈ trace (operations sampleRadio .wifiOnly)
        (TransportManager.withPowerManager (PowerManager.new 0)) ops,
      ∃ event ∈ radioLog sampleRadio .wifiOnly e.before e.input, ∃ conn ∈ event.opened,
        sampleRadio.transportType conn = .ble := by
  intro peer ops
  refine ⟨_, List.mem_cons_of_mem _ (List.mem_singleton_self _),
    .dialed .ble (some (peer, .ble)), ?_, (peer, .ble), rfl, rfl⟩
  decide +kernel

end StellarConduit
