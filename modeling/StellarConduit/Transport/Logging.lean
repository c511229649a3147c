import StellarConduit.Transport.Operations

/-!
# A radio that keeps a log

To say what an operation asks of the radio, and in which order, the world keeps a log beside it.

* `Radio.logged`: the radio that also notes what it is asked, and how it answers;
* `Projects`: one radio is another one with something beside the world; then so are its operations
  (`project_operate`), and the logged radio's are those of the radio (`project_operate_logged`);
* `radioLog`: what an operation asks of the radio;
* `HoldsOfLogs.radioLog`: a property of such logs that follows from what they are made of.
-/

namespace StellarConduit

open Verif.Machine

/-- What a radio was asked, and how it answered. -/
inductive RadioEvent (Conn : Type)
  /-- a call on a connection, which it broke or not -/
  | called (broke : Bool)
  /-- an attempt to open a connection -/
  | dialed (transport : TransportType) (conn : Option Conn)
  deriving DecidableEq

/-- The connection that was opened. -/
def RadioEvent.opened {Conn : Type} : RadioEvent Conn → Option Conn
  | .called _ => none
  | .dialed _ conn => conn

variable {Conn World World' Addr : Type}

abbrev LoggedWorld (Conn World : Type) := World × List (RadioEvent Conn)

def Radio.logged (radio : Radio Conn World Addr) : Radio Conn (LoggedWorld Conn World) Addr where
  remotePeer := radio.remotePeer
  transportType := radio.transportType
  send conn msg := fun (world, log) =>
    let (answer, conn, world) := radio.send conn msg world
    (answer, conn, world, log ++ [.called (decide (answer = .err .brokenPipe))])
  recv conn := fun (world, log) =>
    let (answer, conn, world) := radio.recv conn world
    (answer, conn, world, log ++ [.called (decide (answer = .err .brokenPipe))])
  connectBle peer := fun (world, log) =>
    let (result, world) := radio.connectBle peer world
    (result, world, log ++ [.dialed .ble result.toOption])
  connectWifi peer addr := fun (world, log) =>
    let (result, world) := radio.connectWifi peer addr world
    (result, world, log ++ [.dialed .wifiDirect result.toOption])
  ble_of_connectBle := by
    rintro peer ⟨world, log⟩ conn world' heq
    have hopened : (radio.connectBle peer world).1 = .ok conn := (Prod.mk.inj heq).1
    exact radio.ble_of_connectBle peer world conn _ (Prod.ext hopened rfl)
  wifiDirect_of_connectWifi := by
    rintro peer addr ⟨world, log⟩ conn world' heq
    have hopened : (radio.connectWifi peer addr world).1 = .ok conn := (Prod.mk.inj heq).1
    exact radio.wifiDirect_of_connectWifi peer addr world conn _ (Prod.ext hopened rfl)

/-! ### Radios with something beside the world -/

/-- The radio is another one, with something beside the world that `proj` forgets. -/
structure Projects (radio' : Radio Conn World' Addr) (radio : Radio Conn World Addr)
    (proj : World' → World) : Prop where
  remotePeer : radio'.remotePeer = radio.remotePeer
  transportType : radio'.transportType = radio.transportType
  send : ∀ conn msg world, radio.send conn msg (proj world) =
    ((radio'.send conn msg world).1, (radio'.send conn msg world).2.1,
      proj (radio'.send conn msg world).2.2)
  recv : ∀ conn world, radio.recv conn (proj world) =
    ((radio'.recv conn world).1, (radio'.recv conn world).2.1, proj (radio'.recv conn world).2.2)
  connectBle : ∀ peer world, radio.connectBle peer (proj world) =
    ((radio'.connectBle peer world).1, proj (radio'.connectBle peer world).2)
  connectWifi : ∀ peer addr world, radio.connectWifi peer addr (proj world) =
    ((radio'.connectWifi peer addr world).1, proj (radio'.connectWifi peer addr world).2)

theorem projects_logged (radio : Radio Conn World Addr) : Projects radio.logged radio Prod.fst :=
  ⟨rfl, rfl, fun _ _ _ => rfl, fun _ _ => rfl, fun _ _ => rfl, fun _ _ _ => rfl⟩

def Ran.project {α : Type} (proj : World' → World) (r : Ran Conn World' α) : Ran Conn World α :=
  ⟨r.answer, r.manager, proj r.world, r.calls⟩

def Surroundings.project (proj : World' → World) (around : Surroundings Conn World') :
    Surroundings Conn World where
  bleIncoming := around.bleIncoming
  instant := around.instant
  keyOrder := around.keyOrder
  keyOrder_perm := around.keyOrder_perm
  world := proj around.world

def Operation.project (proj : World' → World) :
    Operation Conn World' Addr → Operation Conn World Addr
  | .sendToAt peer msg now around => .sendToAt peer msg now (around.project proj)
  | .recvAnyAt now around => .recvAnyAt now (around.project proj)
  | .powerTickAt now around => .powerTickAt now (around.project proj)
  | .connect peer wifiAddr world => .connect peer wifiAddr (proj world)
  | .registerInbound peer conn world => .registerInbound peer conn (proj world)
  | .disconnectPeer pubkey world => .disconnectPeer pubkey (proj world)
  | .notifyMacRotated world => .notifyMacRotated (proj world)
  | .shutdown world => .shutdown (proj world)

section Project

open TransportManager

variable {radio' : Radio Conn World' Addr} {radio : Radio Conn World Addr} {proj : World' → World}
  {α β : Type}

theorem project_bind {r : Ran Conn World' α}
    {f : α → TransportManager Conn → World' → Ran Conn World' β}
    {g : α → TransportManager Conn → World → Ran Conn World β}
    (h : ∀ a m world, (f a m world).project proj = g a m (proj world)) :
    (r.bind f).project proj = (r.project proj).bind g := by
  obtain ⟨answer, m, world, calls⟩ := r
  cases answer with
  | ok a =>
    show Ran.project proj _ =
      { g a m (proj world) with calls := calls ++ (g a m (proj world)).calls }
    rw [← h]
    rfl
  | err e => rfl
  | panic p => rfl
  | pending => rfl

variable (h : Projects radio' radio proj) (m : TransportManager Conn)

include h

theorem project_sendOn (peer : PeerIdentity) (msg : ProtocolMessage) (conn : Conn)
    (world : World') :
    (m.sendOn radio'.toConnection peer msg conn world).project proj =
      m.sendOn radio.toConnection peer msg conn (proj world) := by
  unfold sendOn
  rw [h.send]
  rfl

theorem project_bleFallback (peer : PeerIdentity) (world : World') :
    (m.bleFallback radio'.toConnection peer world).project proj =
      m.bleFallback radio.toConnection peer (proj world) := by
  unfold bleFallback
  rw [h.connectBle]
  rcases radio'.connectBle peer world with ⟨result, world'⟩
  cases result <;> rfl

theorem project_sendNow (peer : PeerIdentity) (msg : ProtocolMessage) (world : World') :
    (m.sendNow radio'.toConnection peer msg world).project proj =
      m.sendNow radio.toConnection peer msg (proj world) := by
  unfold sendNow
  split
  next => rfl
  next conn _ =>
    dsimp only
    have hsent := project_sendOn h m peer msg conn world
    rw [← hsent]
    generalize m.sendOn radio'.toConnection peer msg conn world = sent
    show Ran.project proj (if _ then _ else _) = if sent.answer = .err .brokenPipe then _ else _
    split_ifs
    · show ((Ran.project proj _).after _ : Ran Conn World Unit) = _
      refine congrArg (Ran.after _) ?_
      have hfallback := project_bleFallback h (sent.manager.remove peer.pubkey) peer sent.world
      rw [show (sent.project proj).manager = sent.manager from rfl,
        show (sent.project proj).world = proj sent.world from rfl, ← hfallback]
      refine project_bind fun _ m world => ?_
      split
      next conn' _ => exact project_sendOn h m peer msg conn' world
      next => rfl
    · rfl

theorem project_flush (world : World') (pendings : List PendingMessage) :
    (m.flush radio'.toConnection world pendings).project proj =
      m.flush radio.toConnection (proj world) pendings := by
  induction pendings generalizing m world with
  | nil => rfl
  | cons pending rest ih =>
    unfold flush
    rw [← project_sendNow h]
    refine project_bind fun _ m world => ?_
    exact congrArg (Ran.map _) (ih m world)

theorem project_tickPower (now : ℕ) (around : Surroundings Conn World') :
    m.tickPower radio'.toConnection now around =
      m.tickPower radio.toConnection now (around.project proj) := by
  unfold tickPower notifyMacRotated
  rw [h.transportType]
  rfl

theorem project_powerTickAt (now : ℕ) (around : Surroundings Conn World') :
    (m.powerTickAt radio'.toConnection now around).project proj =
      m.powerTickAt radio.toConnection now (around.project proj) := by
  unfold powerTickAt
  rw [project_tickPower h]
  dsimp only
  refine congrArg (Ran.map _) (?_ : Ran.project proj _ = _)
  split_ifs
  · exact project_flush h _ _ _
  · rfl

theorem project_sendToAt (peer : PeerIdentity) (msg : ProtocolMessage) (now : ℕ)
    (around : Surroundings Conn World') :
    (m.sendToAt radio'.toConnection peer msg now around).project proj =
      m.sendToAt radio.toConnection peer msg now (around.project proj) := by
  unfold sendToAt
  rw [← project_powerTickAt h]
  refine project_bind fun _ m world => ?_
  dsimp only
  split_ifs
  · rfl
  · exact project_sendNow h _ peer msg world

theorem project_pollKeys (now : ℕ) (world : World') (keys : List (Bytes 32)) :
    (m.pollKeys radio'.toConnection now world keys).project proj =
      m.pollKeys radio.toConnection now (proj world) keys := by
  induction keys generalizing m world with
  | nil => rfl
  | cons pubkey keys ih =>
    unfold pollKeys
    split
    next => exact ih m world
    next conn _ =>
      rw [h.recv, h.remotePeer]
      rcases radio'.recv conn world with ⟨answer, conn', world'⟩
      dsimp only
      refine congrArg (Ran.after _) (?_ : Ran.project proj _ = _)
      split
      next => rfl
      next => rfl
      next =>
        rw [← project_bleFallback h]
        exact ih _ _
      next => exact ih _ _

theorem project_recvAnyAt (now : ℕ) (around : Surroundings Conn World') :
    (m.recvAnyAt radio'.toConnection now around).project proj =
      m.recvAnyAt radio.toConnection now (around.project proj) := by
  unfold recvAnyAt
  rw [← project_powerTickAt h]
  generalize m.powerTickAt radio'.toConnection now around = tick
  obtain ⟨answer, m', world, calls⟩ := tick
  cases answer with
  | err e => rfl
  | panic p => rfl
  | pending => rfl
  | ok outcome =>
    refine project_bind (r := ⟨.ok outcome, m', world, calls⟩) fun outcome m world => ?_
    split_ifs
    · rfl
    · exact project_pollKeys h m now world _

theorem project_dial (preference : TransportPreference) (peer : PeerIdentity)
    (wifiAddr : Option Addr) (world : World') :
    radio.dial preference peer wifiAddr (proj world) =
      ((radio'.dial preference peer wifiAddr world).1,
        proj (radio'.dial preference peer wifiAddr world).2) := by
  unfold Radio.dial
  cases preference with
  | wifiOnly =>
    cases wifiAddr with
    | none => rfl
    | some addr => exact h.connectWifi peer addr world
  | bleOnly => exact h.connectBle peer world
  | auto =>
    cases wifiAddr with
    | none => exact h.connectBle peer world
    | some addr =>
      dsimp only
      rw [h.connectWifi]
      rcases radio'.connectWifi peer addr world with ⟨result, world'⟩
      cases result with
      | ok conn => rfl
      | error e => cases e <;> first | rfl | exact h.connectBle peer world'

/-- Operations do the same, whatever is beside the world. -/
theorem project_operate (preference : TransportPreference) (op : Operation Conn World' Addr) :
    (operate radio' preference m op).project proj =
      operate radio preference m (op.project proj) := by
  cases op with
  | sendToAt peer msg now around => exact project_sendToAt h m peer msg now around
  | recvAnyAt now around => exact congrArg (Ran.map _) (project_recvAnyAt h m now around)
  | powerTickAt now around => exact congrArg (Ran.map _) (project_powerTickAt h m now around)
  | connect peer wifiAddr world =>
    show (m.connect radio' preference peer wifiAddr world).project proj =
      m.connect radio preference peer wifiAddr (proj world)
    unfold connect
    rw [project_dial h]
    rcases radio'.dial preference peer wifiAddr world with ⟨result, world'⟩
    cases result <;> rfl
  | registerInbound peer conn world => rfl
  | disconnectPeer pubkey world => rfl
  | notifyMacRotated world =>
    show Ran.project proj _ = _
    unfold operate notifyMacRotated
    rw [h.transportType]
    rfl
  | shutdown world => rfl

end Project

/-! ### The log of an operation -/

/-- Nothing is in the log. -/
def Surroundings.logged (around : Surroundings Conn World) :
    Surroundings Conn (LoggedWorld Conn World) where
  bleIncoming := around.bleIncoming
  instant := around.instant
  keyOrder := around.keyOrder
  keyOrder_perm := around.keyOrder_perm
  world := (around.world, [])

def Operation.logged : Operation Conn World Addr → Operation Conn (LoggedWorld Conn World) Addr
  | .sendToAt peer msg now around => .sendToAt peer msg now around.logged
  | .recvAnyAt now around => .recvAnyAt now around.logged
  | .powerTickAt now around => .powerTickAt now around.logged
  | .connect peer wifiAddr world => .connect peer wifiAddr (world, [])
  | .registerInbound peer conn world => .registerInbound peer conn (world, [])
  | .disconnectPeer pubkey world => .disconnectPeer pubkey (world, [])
  | .notifyMacRotated world => .notifyMacRotated (world, [])
  | .shutdown world => .shutdown (world, [])

/-- The operation, with the log of what it asks of the radio. -/
def operateLogged (radio : Radio Conn World Addr) (preference : TransportPreference)
    (m : TransportManager Conn) (op : Operation Conn World Addr) :
    Ran Conn (LoggedWorld Conn World) Unit :=
  operate radio.logged preference m op.logged

/-- But for its log, this is the operation. -/
theorem project_operate_logged (radio : Radio Conn World Addr) (preference : TransportPreference)
    (m : TransportManager Conn) (op : Operation Conn World Addr) :
    (operateLogged radio preference m op).project Prod.fst = operate radio preference m op := by
  have h := project_operate (projects_logged radio) m preference op.logged
  cases op <;> exact h

/-- What an operation asks of the radio. -/
def radioLog (radio : Radio Conn World Addr) (preference : TransportPreference)
    (m : TransportManager Conn) (op : Operation Conn World Addr) : List (RadioEvent Conn) :=
  (operateLogged radio preference m op).world.2

/-! ### What holds of logs -/

theorem log_of_called {radio : Radio Conn World Addr} {conn conn' : Conn}
    {world world' : LoggedWorld Conn World} {broken : Bool}
    (h : Called radio.logged.toConnection conn world broken conn' world') :
    world'.2 = world.2 ++ [.called broken] := by
  cases h <;> rfl

/-- A property of what operations under a preference ask: it holds of each call, of a connection
that breaks and is replaced, and of what is dialed to connect. -/
structure HoldsOfLogs (radio : Radio Conn World Addr) (preference : TransportPreference)
    (Q : List (RadioEvent Conn) → Prop) : Prop where
  nil : Q []
  append : ∀ log log', Q log → Q log' → Q (log ++ log')
  called : ∀ broke, Q [.called broke]
  fallback : ∀ peer world,
    Q [.called true, .dialed .ble (radio.connectBle peer world).1.toOption]
  dial : ∀ peer wifiAddr world, Q (radio.logged.dial preference peer wifiAddr (world, [])).2.2

namespace HoldsOfLogs

variable {radio : Radio Conn World Addr} {preference : TransportPreference}
  {Q : List (RadioEvent Conn) → Prop} (h : HoldsOfLogs radio preference Q)

include h

theorem moves : TableMoves radio.logged.toConnection fun s s' =>
    ∃ log, s'.2.2 = s.2.2 ++ log ∧ Q log where
  refl s := ⟨[], (List.append_nil _).symm, h.nil⟩
  trans s s' s'' hlog hlog' := by
    obtain ⟨log, heq, hQ⟩ := hlog
    obtain ⟨log', heq', hQ'⟩ := hlog'
    refine ⟨log ++ log', ?_, h.append log log' hQ hQ'⟩
    rw [heq', heq, List.append_assoc]
  call t pubkey conn world broken conn' world' _ hcalled :=
    ⟨[.called broken], log_of_called hcalled, h.called broken⟩
  failOver t pubkey conn world conn' world' peer _ hcalled := by
    refine ⟨_, ?_, h.fallback peer world'.1⟩
    have hdialed : (radio.logged.connectBle peer world').2.2 =
        world'.2 ++ [.dialed .ble (radio.connectBle peer world'.1).1.toOption] := rfl
    rw [log_of_called hcalled, List.append_assoc] at hdialed
    unfold ConnectionTable.failOver
    split
    next heq =>
      rw [heq] at hdialed
      exact hdialed
    next heq =>
      rw [heq] at hdialed
      exact hdialed

/-- Then it holds of what any operation asks. -/
theorem radioLog (m : TransportManager Conn) (op : Operation Conn World Addr) :
    Q (radioLog radio preference m op) := by
  unfold StellarConduit.radioLog operateLogged
  cases op with
  | sendToAt peer msg now around =>
    obtain ⟨log, hlog, hQ⟩ := moved_sendToAt h.moves (m := m) peer msg now around.logged
    exact hlog ▸ hQ
  | recvAnyAt now around =>
    obtain ⟨log, hlog, hQ⟩ := moved_recvAnyAt h.moves (m := m) now around.logged
    exact hlog ▸ hQ
  | powerTickAt now around =>
    obtain ⟨log, hlog, hQ⟩ := moved_powerTickAt h.moves (m := m) now around.logged
    exact hlog ▸ hQ
  | connect peer wifiAddr world =>
    have hdialed := h.dial peer wifiAddr world
    show Q (m.connect radio.logged preference peer wifiAddr (world, [])).world.2
    unfold TransportManager.connect
    generalize radio.logged.dial preference peer wifiAddr (world, []) = dialed at hdialed ⊢
    obtain ⟨result, world'⟩ := dialed
    cases result with
    | error e => exact hdialed
    | ok conn => exact hdialed
  | registerInbound | disconnectPeer | notifyMacRotated | shutdown => exact h.nil

end HoldsOfLogs

/-- To connect, BLE or WiFi-Direct is dialed, or one after the other. -/
theorem mem_log_dial {radio : Radio Conn World Addr} {preference : TransportPreference}
    {peer : PeerIdentity} {wifiAddr : Option Addr} {world : World} {event : RadioEvent Conn}
    (hevent : event ∈ (radio.logged.dial preference peer wifiAddr (world, [])).2.2) :
    (∃ world', event = .dialed .ble (radio.connectBle peer world').1.toOption) ∨
      ∃ addr world', event =
        .dialed .wifiDirect (radio.connectWifi peer addr world').1.toOption := by
  have hble : ∀ world, (radio.logged.connectBle peer world).2.2 =
      world.2 ++ [.dialed .ble (radio.connectBle peer world.1).1.toOption] := fun _ => rfl
  have hwifi : ∀ addr, (radio.logged.connectWifi peer addr (world, [])).2.2 =
      [.dialed .wifiDirect (radio.connectWifi peer addr world).1.toOption] := fun _ => rfl
  -- Only BLE is dialed.
  have hbleOnly : event ∈ (radio.logged.connectBle peer (world, [])).2.2 →
      ∃ world', event = .dialed .ble (radio.connectBle peer world').1.toOption := by
    rw [hble]
    exact fun h => ⟨world, List.mem_singleton.1 h⟩
  unfold Radio.dial at hevent
  cases preference with
  | wifiOnly =>
    cases wifiAddr with
    | none => exact absurd hevent List.not_mem_nil
    | some addr => exact Or.inr ⟨addr, world, List.mem_singleton.1 hevent⟩
  | bleOnly => exact Or.inl (hbleOnly hevent)
  | auto =>
    cases wifiAddr with
    | none => exact Or.inl (hbleOnly hevent)
    | some addr =>
      have hlog := hwifi addr
      dsimp only at hevent
      generalize radio.logged.connectWifi peer addr (world, []) = dialed at hlog hevent
      have hfirst : event ∈ dialed.2.2 →
          ∃ addr world', event =
            .dialed .wifiDirect (radio.connectWifi peer addr world').1.toOption := by
        rw [hlog]
        exact fun h => ⟨addr, world, List.mem_singleton.1 h⟩
      -- BLE is dialed after WiFi-Direct was refused.
      have hsecond : event ∈ (radio.logged.connectBle peer dialed.2).2.2 →
          (∃ world', event = .dialed .ble (radio.connectBle peer world').1.toOption) ∨
            ∃ addr world', event =
              .dialed .wifiDirect (radio.connectWifi peer addr world').1.toOption := by
        rw [hble, List.mem_append]
        rintro (h | h)
        · exact Or.inr (hfirst h)
        · exact Or.inl ⟨_, List.mem_singleton.1 h⟩
      split at hevent
      next => exact hsecond hevent
      next => exact hsecond hevent
      next => exact Or.inr (hfirst hevent)
/-- What is known of an attempt that succeeds is known of the connection that it opened. -/
theorem forall_toOption {Q : Conn → Prop} {dialed : Except TransportError Conn × World}
    (h : ∀ conn world', dialed = (.ok conn, world') → Q conn) :
    ∀ conn ∈ dialed.1.toOption, Q conn := by
  intro conn hconn
  obtain ⟨result, world'⟩ := dialed
  cases result with
  | error e => cases hconn
  | ok conn' =>
    cases hconn
    exact h conn world' rfl

end StellarConduit
