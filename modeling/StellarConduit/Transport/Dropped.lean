import StellarConduit.Transport.Manager
import StellarConduit.Transport.Wifi

/-!
# Calls that are dropped while they wait

The manager calls `recv` under a timeout of one millisecond, and the gossip loop calls `send_to`
under a timeout of half a second.  When a timeout fires, the call is dropped where it waits, and the
connection stays: a `write_all` has written a part of its data, and a `read_exact` has taken what
had arrived.

* `sendUntil`, `recvFor`: `send` and `recv` of a WiFi-Direct connection under a timeout;
* `wifiApi`: connections over WiFi-Direct or BLE, as a manager holds them;
* `sendUntil_spec`: a `send` that is dropped has written some frames and a part of the next one.
-/

namespace StellarConduit

open Verif.Bytes

/-! ### WiFi-Direct connections -/

/-- Where a timeout fires: so many frames have been written, and so many bytes of the next one. -/
structure Cut where
  frames : ℕ
  bytes : ℕ
  deriving DecidableEq

/-- The loop of `send` under a timeout, if it fires, and the frames that it then has left. -/
def sendFramesUntil (stream : TcpStream) :
    List ChunkFrame → Option Cut → Awaited Unit × TcpStream × Option Cut
  | [], cut => (.ok (), stream, cut)
  | f :: _, some ⟨0, bytes⟩ =>
    match stream.writeAll ((frame 4 f.encode).take bytes) with
    | (false, stream) => (.err .brokenPipe, stream, some ⟨0, bytes⟩)
    | (true, stream) => (.pending, stream, some ⟨0, bytes⟩)
  | f :: fs, cut =>
    match stream.writeFrame f.encode with
    | (.error e, stream) => (.err e, stream, cut)
    | (.ok (), stream) =>
      sendFramesUntil stream fs (cut.map fun cut => { cut with frames := cut.frames - 1 })

namespace WifiDirectConnection

/-- `send` under a timeout. -/
def sendUntil (rmp : RmpSerde) (c : WifiDirectConnection) (messageId : UInt32)
    (msg : ProtocolMessage) (cut : Option Cut) :
    Awaited Unit × WifiDirectConnection × Option Cut :=
  if c.state ≠ .connected then (.err .notConnected, c, cut)
  else
    match rmp.toVec msg with
    | none => (.err .brokenPipe, c, cut)
    | some bytes =>
      let frames := c.chunker.chunk messageId bytes
      match c.stream with
      | none => (.err .notConnected, c, cut)
      | some stream =>
        let (result, stream, cut) := sendFramesUntil stream frames cut
        (result, { c with stream := some stream }, cut)

/-- `recv` under a timeout, which fires if it has to wait.  The read that is dropped, of a length or
of a payload behind its length, has taken all the bytes that had arrived. -/
def recvFor (rmp : RmpSerde) (c : WifiDirectConnection) (clock : ℕ → ℕ) :
    Awaited ProtocolMessage × WifiDirectConnection :=
  match c.recv rmp clock with
  | (.pending, c) =>
    (.pending, { c with stream := c.stream.map fun stream => { stream with incoming := [] } })
  | done => done

end WifiDirectConnection

/-- What calls on WiFi-Direct connections depend on: the random message ids to come, the instants
that each `recv` reads, and the timeout of the operation, if it fires. -/
structure WifiWorld where
  messageIds : ℕ → UInt32
  clocks : ℕ → ℕ → ℕ
  timeout : Option Cut

/-- A connection over WiFi-Direct, with its peer, or over BLE. -/
abbrev AnyConnection (Ble : Type) := (PeerIdentity × WifiDirectConnection) ⊕ Ble

section Api

variable {Ble World : Type}

/-- Connections over WiFi-Direct or BLE. -/
def wifiApi (rmp : RmpSerde) (ble : Connection Ble World) :
    Connection (AnyConnection Ble) (WifiWorld × World) where
  remotePeer
    | .inl (peer, _) => peer
    | .inr b => ble.remotePeer b
  transportType
    | .inl _ => .wifiDirect
    | .inr b => ble.transportType b
  send
    | .inl (peer, c), msg, (wifi, world) =>
      let (answer, c, timeout) := c.sendUntil rmp (wifi.messageIds 0) msg wifi.timeout
      (answer, .inl (peer, c),
        { wifi with messageIds := fun k => wifi.messageIds (k + 1), timeout := timeout }, world)
    | .inr b, msg, (wifi, world) =>
      let (answer, b, world) := ble.send b msg world
      (answer, .inr b, wifi, world)
  recv
    | .inl (peer, c), (wifi, world) =>
      let (answer, c) := c.recvFor rmp (wifi.clocks 0)
      (answer, .inl (peer, c), { wifi with clocks := fun k => wifi.clocks (k + 1) }, world)
    | .inr b, (wifi, world) =>
      let (answer, b, world) := ble.recv b world
      (answer, .inr b, wifi, world)
  connectBle peer := fun (wifi, world) =>
    match ble.connectBle peer world with
    | (.error e, world) => (.error e, wifi, world)
    | (.ok b, world) => (.ok (.inr b), wifi, world)

/-- What an operation finds outside of a manager with both kinds of connections: centrals connect
over BLE. -/
def Surroundings.withWifi (around : Surroundings Ble World) (wifi : WifiWorld) :
    Surroundings (AnyConnection Ble) (WifiWorld × World) where
  bleIncoming := around.bleIncoming.map fun entry => (entry.1, .inr entry.2)
  instant := around.instant
  keyOrder := around.keyOrder
  keyOrder_perm := around.keyOrder_perm
  world := (wifi, around.world)

end Api

/-- A node without a radio for BLE. -/
def noBle : Connection Empty Unit where
  remotePeer := Empty.elim
  transportType := Empty.elim
  send conn _ _ := conn.elim
  recv conn _ := conn.elim
  connectBle _ world := (.error .connectionRefused, world)

theorem mem_bleIncoming_withWifi {Ble World : Type} {around : Surroundings Ble World}
    {wifi : WifiWorld} {entry : PeerIdentity × AnyConnection Ble}
    (h : entry ∈ (around.withWifi wifi).bleIncoming) : ∃ b, entry.2 = .inr b := by
  obtain ⟨e, -, rfl⟩ := List.mem_map.1 h
  exact ⟨e.2, rfl⟩

theorem connectBle_eq_inr {Ble World : Type} {rmp : RmpSerde} {ble : Connection Ble World}
    {peer : PeerIdentity} {conn : AnyConnection Ble} {world world' : WifiWorld × World}
    (h : (wifiApi rmp ble).connectBle peer world = (.ok conn, world')) : ∃ b, conn = .inr b := by
  obtain ⟨wifi, world⟩ := world
  simp only [wifiApi] at h
  split at h
  next => cases h
  next b _ _ =>
    cases h
    exact ⟨b, rfl⟩

/-! ### Sends that are dropped -/

/-- What a write does to a stream: it appends its data, or the stream breaks. -/
theorem writeAll_spec {stream stream' : TcpStream} {data : List UInt8} {written : Bool}
    (h : stream.writeAll data = (written, stream')) :
    (written = true → stream'.outgoing = stream.outgoing ++ data) ∧
      stream'.incoming = stream.incoming ∧ stream'.ended = stream.ended := by
  unfold TcpStream.writeAll at h
  split at h
  next =>
    cases h
    exact ⟨fun _ => rfl, rfl, rfl⟩
  next n _ =>
    obtain ⟨rfl, rfl⟩ := Prod.mk.inj h
    refine ⟨fun hwritten => ?_, rfl, rfl⟩
    have hle : data.length ≤ n := of_decide_eq_true hwritten
    show stream.outgoing ++ data.take n = _
    rw [List.take_of_length_le hle]

theorem writeFrame_spec {stream stream' : TcpStream} {data : List UInt8}
    {result : Except TransportError Unit} (h : stream.writeFrame data = (result, stream')) :
    (result = .error .brokenPipe ∨
        result = .ok () ∧ stream'.outgoing = stream.outgoing ++ frame 4 data) ∧
      stream'.incoming = stream.incoming ∧ stream'.ended = stream.ended := by
  unfold TcpStream.writeFrame at h
  split at h
  next stream₁ hlen =>
    cases h
    exact ⟨Or.inl rfl, (writeAll_spec hlen).2⟩
  next stream₁ hlen =>
    obtain ⟨hout₁, hin₁, hend₁⟩ := writeAll_spec hlen
    split at h
    next stream₂ hdata =>
      cases h
      obtain ⟨-, hin₂, hend₂⟩ := writeAll_spec hdata
      exact ⟨Or.inl rfl, hin₂.trans hin₁, hend₂.trans hend₁⟩
    next stream₂ hdata =>
      cases h
      obtain ⟨hout₂, hin₂, hend₂⟩ := writeAll_spec hdata
      refine ⟨Or.inr ⟨rfl, ?_⟩, hin₂.trans hin₁, hend₂.trans hend₁⟩
      rw [hout₂ rfl, hout₁ rfl, List.append_assoc]
      rfl

/-- What `send` under a timeout writes: all frames, or, when it is dropped, some frames and a part
of the next one. -/
structure SentUntil (stream : TcpStream) (frames : List ChunkFrame) (cut : Option Cut)
    (answer : Awaited Unit) (stream' : TcpStream) (cut' : Option Cut) : Prop where
  outgoing : answer = .err .brokenPipe ∨
    answer = .ok () ∧ stream'.outgoing = stream.outgoing ++ wire frames ∨
    answer = .pending ∧ ∃ pre f post, frames = pre ++ f :: post ∧ ∃ fired ∈ cut,
      stream'.outgoing = stream.outgoing ++ wire pre ++ (frame 4 f.encode).take fired.bytes
  incoming : stream'.incoming = stream.incoming
  ended : stream'.ended = stream.ended
  cut : ∀ left ∈ cut', ∃ fired ∈ cut, left.bytes = fired.bytes

theorem sentUntil_sendFramesUntil (stream : TcpStream) (frames : List ChunkFrame)
    (cut : Option Cut) :
    SentUntil stream frames cut (sendFramesUntil stream frames cut).1
      (sendFramesUntil stream frames cut).2.1 (sendFramesUntil stream frames cut).2.2 := by
  fun_induction sendFramesUntil stream frames cut with
  | case1 stream cut =>
    refine ⟨Or.inr (Or.inl ⟨rfl, ?_⟩), rfl, rfl, fun left hleft => ⟨left, hleft, rfl⟩⟩
    simp [wire]
  | case2 stream f fs bytes stream' hwrite =>
    obtain ⟨-, hin, hend⟩ := writeAll_spec hwrite
    exact ⟨Or.inl rfl, hin, hend, fun left hleft => ⟨left, hleft, rfl⟩⟩
  | case3 stream f fs bytes stream' hwrite =>
    obtain ⟨hout, hin, hend⟩ := writeAll_spec hwrite
    refine ⟨Or.inr (Or.inr ⟨rfl, [], f, fs, rfl, ⟨0, bytes⟩, rfl, ?_⟩), hin, hend,
      fun left hleft => ⟨left, hleft, rfl⟩⟩
    simpa [wire] using hout rfl
  | case4 stream f fs cut hcut e stream' hwrite =>
    obtain ⟨herror | ⟨hok, -⟩, hin, hend⟩ := writeFrame_spec hwrite
    · cases herror
      exact ⟨Or.inl rfl, hin, hend, fun left hleft => ⟨left, hleft, rfl⟩⟩
    · cases hok
  | case5 stream f fs cut hcut stream' hwrite ih =>
    obtain ⟨herror | ⟨-, hout⟩, hin, hend⟩ := writeFrame_spec hwrite
    · cases herror
    -- The cut counts the frames that are still to come, and keeps its number of bytes.
    have hbytes : ∀ left ∈ cut.map (fun cut => { cut with frames := cut.frames - 1 }),
        ∃ fired ∈ cut, left.bytes = fired.bytes := by
      intro left hleft
      obtain ⟨fired, hfired, rfl⟩ := Option.mem_map.1 hleft
      exact ⟨fired, hfired, rfl⟩
    obtain ⟨hout', hin', hend', hcut'⟩ := ih
    refine ⟨?_, hin'.trans hin, hend'.trans hend, fun left hleft => ?_⟩
    · rcases hout' with hbroken | ⟨hok, hout'⟩ | ⟨hpending, pre, g, post, rfl, left, hleft, hout'⟩
      · exact Or.inl hbroken
      · refine Or.inr (Or.inl ⟨hok, ?_⟩)
        rw [hout', hout, List.append_assoc]
        rfl
      · obtain ⟨fired, hfired, hbytes⟩ := hbytes left hleft
        refine Or.inr (Or.inr ⟨hpending, f :: pre, g, post, rfl, fired, hfired, ?_⟩)
        rw [hout', hout, hbytes, List.append_assoc stream.outgoing]
        rfl
    · obtain ⟨left', hleft', hbytes'⟩ := hcut' left hleft
      obtain ⟨fired, hfired, hbytes''⟩ := hbytes left' hleft'
      exact ⟨fired, hfired, hbytes'.trans hbytes''⟩

/-- `send` under a timeout fails at once, or it writes the frames of the message. -/
theorem sendUntil_spec (rmp : RmpSerde) (c : WifiDirectConnection) (messageId : UInt32)
    (msg : ProtocolMessage) (cut : Option Cut) :
    (∃ e, c.sendUntil rmp messageId msg cut = (.err e, c, cut)) ∨
      ∃ stream stream' bytes answer cut', c.stream = some stream ∧
        c.sendUntil rmp messageId msg cut = (answer, { c with stream := some stream' }, cut') ∧
        SentUntil stream (c.chunker.chunk messageId bytes) cut answer stream' cut' := by
  unfold WifiDirectConnection.sendUntil
  split_ifs with hstate
  · exact Or.inl ⟨_, rfl⟩
  · split
    next => exact Or.inl ⟨_, rfl⟩
    next bytes _ =>
      dsimp only
      split
      next => exact Or.inl ⟨_, rfl⟩
      next stream hstream =>
        exact Or.inr ⟨stream, _, bytes, _, _, hstream, rfl, sentUntil_sendFramesUntil stream _ cut⟩

end StellarConduit
