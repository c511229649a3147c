import StellarConduit.Gossip.Round
import StellarConduit.Transport.Dropped
import StellarConduit.Transport.Preservation
import StellarConduit.Transport.WifiLink

/-!
# Framing under send timeouts

A fanout round calls `send_to` under a timeout of half a second.  A connection whose `send` was
dropped stays registered, and the next `send` writes on where the last one was dropped.

* `FanoutState`: a node in the middle of a round; each step is one call of `send_to`, or another
  send on the same manager;
* `Framed`, `PartlyFramed`: what was written to a stream are whole frames, or whole frames and a
  part of one;
* `keeps_framing`: when timeouts fire between two frames only, every stream stays framed.
-/

namespace StellarConduit

open Verif.Bytes Verif.Machine TransportManager

/-- The bytes are complete frames of chunks, each behind its length. -/
def Framed (bytes : List UInt8) : Prop :=
  ∃ frames : List ChunkFrame, (∀ f ∈ frames, f.WellFormed) ∧ bytes = wire frames

/-- The bytes are complete frames of chunks, and after them the first bytes of a frame. -/
def PartlyFramed (bytes : List UInt8) : Prop :=
  ∃ (frames : List ChunkFrame) (f : ChunkFrame) (n : ℕ), (∀ g ∈ frames, g.WellFormed) ∧
    f.WellFormed ∧ bytes = wire frames ++ (frame 4 f.encode).take n

theorem framed_nil : Framed [] := ⟨[], by simp, rfl⟩

theorem Framed.partly {bytes : List UInt8} (h : Framed bytes) : PartlyFramed bytes := by
  obtain ⟨frames, hwf, rfl⟩ := h
  exact ⟨frames, ⟨0, 1, 0, 0, []⟩, 0, hwf, by decide, by simp⟩

theorem Framed.append {bytes : List UInt8} (h : Framed bytes) {frames : List ChunkFrame}
    (hframes : ∀ f ∈ frames, f.WellFormed) : Framed (bytes ++ wire frames) := by
  obtain ⟨before, hbefore, rfl⟩ := h
  exact ⟨before ++ frames, List.forall_mem_append.2 ⟨hbefore, hframes⟩, (wire_append _ _).symm⟩

/-- The length of a chunk is in front. -/
theorem PartlyFramed.length_le {bytes : List UInt8} (h : PartlyFramed bytes)
    (hfour : 4 ≤ bytes.length) : ofLeBytes (bytes.take 4) ≤ 14 + maxMessageSizeBytes := by
  have hlength : ∀ (f : ChunkFrame) (rest : List UInt8), f.WellFormed →
      ofLeBytes ((frame 4 f.encode ++ rest).take 4) ≤ 14 + maxMessageSizeBytes := by
    intro f rest hf
    have hencode := f.length_encode
    have hle : f.totalLength.toNat ≤ 1048576 := hf.le
    have hstop := hf.stop
    rw [frame, List.append_assoc, List.take_left' (length_leBytes 4 _),
      ofLeBytes_leBytes_of_lt (by omega), hencode]
    show 14 + f.payload.length ≤ 14 + 1048576
    omega
  obtain ⟨frames, f, n, hframes, hf, rfl⟩ := h
  cases frames with
  | nil =>
    have hn : 4 ≤ n := by
      simp only [wire, List.flatMap_nil, List.nil_append, List.length_take] at hfour
      omega
    have htake := hlength f [] hf
    rw [List.append_nil] at htake
    simpa [wire, List.take_take, hn] using htake
  | cons g gs =>
    have htake := hlength g (wire gs ++ (frame 4 f.encode).take n) (hframes g List.mem_cons_self)
    rwa [← List.append_assoc] at htake

/-! ### Connections -/

section Connections

variable {Ble World : Type}

/-- What was written to the stream of a WiFi-Direct connection satisfies `P`. -/
def Written (P : List UInt8 → Prop) : AnyConnection Ble → Prop
  | .inl (_, c) =>
    c.chunker = ⟨wifiTcpMtu⟩ ∧ ∀ stream, c.stream = some stream → P stream.outgoing
  | .inr _ => True

theorem Written.imp {P P' : List UInt8 → Prop} (hP : ∀ bytes, P bytes → P' bytes)
    {conn : AnyConnection Ble} (h : Written P conn) : Written P' conn := by
  rcases conn with ⟨peer, c⟩ | b
  · exact ⟨h.1, fun stream hstream => hP _ (h.2 stream hstream)⟩
  · trivial

/-- The timeout, if it fires, fires between two frames. -/
def WifiWorld.BetweenFrames (wifi : WifiWorld) : Prop := ∀ cut ∈ wifi.timeout, cut.bytes = 0

/-- What a `send` leaves of a connection to which whole frames were written. -/
theorem written_send (rmp : RmpSerde) (ble : Connection Ble World) {conn : AnyConnection Ble}
    (h : Written Framed conn) (msg : ProtocolMessage) (world : WifiWorld × World) :
    let r := (wifiApi rmp ble).send conn msg world
    (r.1 ≠ .err .brokenPipe → Written PartlyFramed r.2.1 ∧
      (r.1 ≠ .pending ∨ world.1.BetweenFrames → Written Framed r.2.1)) ∧
      (world.1.BetweenFrames → r.2.2.1.BetweenFrames) := by
  intro r
  obtain ⟨wifi, world⟩ := world
  rcases conn with ⟨peer, c⟩ | b
  · rcases sendUntil_spec rmp c (wifi.messageIds 0) msg wifi.timeout with
      ⟨e, hsend⟩ | ⟨stream, stream', bytes, answer, cut, hstream, hsend, hsent⟩
    · have hr : r = (.err e, .inl (peer, c),
          { wifi with messageIds := fun k => wifi.messageIds (k + 1) }, world) := by
        simp only [r, wifiApi, hsend]
      rw [hr]
      exact ⟨fun _ => ⟨h.imp fun _ => Framed.partly, fun _ => h⟩, fun hbetween => hbetween⟩
    · have hr : r = (answer, .inl (peer, { c with stream := some stream' }),
          { wifi with messageIds := fun k => wifi.messageIds (k + 1), timeout := cut }, world) := by
        simp only [r, wifiApi, hsend]
      rw [hr]
      obtain ⟨hchunker, hbefore⟩ := h
      have hframed := hbefore stream hstream
      have hwritten : ∀ {P : List UInt8 → Prop}, P stream'.outgoing →
          Written P (Sum.inl (peer, { c with stream := some stream' }) : AnyConnection Ble) :=
        fun hP => ⟨hchunker, fun s hs => Option.some.inj hs ▸ hP⟩
      have hwf : ∀ f ∈ c.chunker.chunk (wifi.messageIds 0) bytes, f.WellFormed := by
        rw [hchunker]
        exact MessageChunker.wellFormed_chunk (by decide)
      have hbetween (hcut : wifi.BetweenFrames) : ∀ left ∈ cut, left.bytes = 0 := by
        intro left hleft
        obtain ⟨fired, hfired, hbytes⟩ := hsent.cut left hleft
        exact hbytes.trans (hcut fired hfired)
      refine ⟨fun hbroken => ?_, hbetween⟩
      rcases hsent.outgoing with hbroken' | ⟨hok, hout⟩ |
        ⟨hpending, pre, f, post, hsplit, fired, hfired, hout⟩
      · exact absurd hbroken' hbroken
      · have hwhole : Framed stream'.outgoing := hout ▸ hframed.append hwf
        exact ⟨hwritten hwhole.partly, fun _ => hwritten hwhole⟩
      · rw [hsplit, List.forall_mem_append, List.forall_mem_cons] at hwf
        obtain ⟨hpre, hf, -⟩ := hwf
        obtain ⟨frames, hframes, hbytes⟩ := hframed.append hpre
        rw [hbytes] at hout
        refine ⟨hwritten ⟨frames, f, fired.bytes, hframes, hf, hout⟩, fun hor => hwritten ?_⟩
        -- The part of the frame is empty.
        rcases hor with hnot | hcut
        · exact absurd hpending hnot
        · rw [hcut fired hfired, List.take_zero, List.append_nil] at hout
          exact ⟨frames, hframes, hout⟩
  · have hinr : ∃ b', r.2.1 = .inr b' ∧ r.2.2.1 = wifi := ⟨_, rfl, rfl⟩
    obtain ⟨b', hb, hwifi⟩ := hinr
    rw [hb, hwifi]
    exact ⟨fun _ => ⟨trivial, fun _ => trivial⟩, fun hbetween => hbetween⟩

theorem written_connectBle (rmp : RmpSerde) (ble : Connection Ble World) (P : List UInt8 → Prop)
    {peer : PeerIdentity} {conn : AnyConnection Ble} {world world' : WifiWorld × World}
    (h : (wifiApi rmp ble).connectBle peer world = (.ok conn, world')) :
    Written P conn ∧ ∀ msg world, Written P ((wifiApi rmp ble).send conn msg world).2.1 := by
  obtain ⟨b, rfl⟩ := connectBle_eq_inr h
  exact ⟨trivial, fun _ _ => trivial⟩

theorem fst_connectBle (rmp : RmpSerde) (ble : Connection Ble World) (peer : PeerIdentity)
    (world : WifiWorld × World) : ((wifiApi rmp ble).connectBle peer world).2.1 = world.1 := by
  obtain ⟨wifi, world⟩ := world
  simp only [wifiApi]
  split <;> rfl

/-- One dropped `send` leaves a part of a frame. -/
theorem preserves_framed (rmp : RmpSerde) (ble : Connection Ble World) :
    Preserves (wifiApi rmp ble) (fun _ => True) (fun _ => Written Framed)
      (fun _ => Written PartlyFramed) where
  partly _ _ h := h.imp fun _ => Framed.partly
  send _ conn msg world h _ := by
    obtain ⟨hsend, -⟩ := written_send rmp ble h msg world
    exact ⟨fun hbroken => ⟨(hsend hbroken).1, fun hpending => (hsend hbroken).2 (Or.inl hpending)⟩,
      trivial⟩
  world _ _ _ := trivial
  ble _ _ _ _ h := written_connectBle rmp ble _ h

/-- Sends that are dropped between two frames leave whole frames. -/
theorem preserves_framed_betweenFrames (rmp : RmpSerde) (ble : Connection Ble World) :
    Preserves (wifiApi rmp ble) (fun world => world.1.BetweenFrames) (fun _ => Written Framed)
      (fun _ => Written Framed) where
  partly _ _ h := h
  send _ conn msg world h hbetween := by
    obtain ⟨hsend, hworld⟩ := written_send rmp ble h msg world
    exact ⟨fun hbroken => ⟨(hsend hbroken).2 (Or.inr hbetween),
      fun _ => (hsend hbroken).2 (Or.inr hbetween)⟩, hworld hbetween⟩
  world peer world hbetween := by rwa [fst_connectBle]
  ble _ _ _ _ h := written_connectBle rmp ble _ h

end Connections

/-! ### Rounds, call by call -/

/-- A node that executes rounds: the calls of `send_to` that the round in progress has still to
make, and the manager that serves them. -/
structure FanoutState (β Ble : Type) where
  round : RoundState β
  agenda : List SendCall
  manager : TransportManager (AnyConnection Ble)

inductive FanoutInput (Ble World : Type)
  /-- A round starts, unless one is in progress. -/
  | executeFanoutRound (i : RoundInput)
  /-- The round makes its next call, under its timeout. -/
  | next (now : ℕ) (around : Surroundings Ble World) (wifi : WifiWorld)
  /-- Another message is sent. -/
  | sendTo (peer : PeerIdentity) (msg : ProtocolMessage) (now : ℕ)
    (around : Surroundings Ble World) (wifi : WifiWorld)
  /-- A WiFi-Direct connection to a peer is registered, which breaks after so many bytes, if it
  does. -/
  | register (peer : PeerIdentity) (breaksAfter : Option ℕ)

namespace FanoutState

variable {β Ble World : Type} [Bloom β (Bytes 32)]

def new (round : RoundState β) (powerManager : PowerManager) : FanoutState β Ble where
  round := round
  agenda := []
  manager := withPowerManager powerManager

def sendTo (rmp : RmpSerde) (ble : Connection Ble World) (s : FanoutState β Ble)
    (call : SendCall) (now : ℕ) (around : Surroundings Ble World) (wifi : WifiWorld) :
    FanoutState β Ble :=
  let sent := s.manager.sendToAt (wifiApi rmp ble) call.peer call.message now (around.withWifi wifi)
  { s with manager := sent.manager }

def step (rmp : RmpSerde) (ble : Connection Ble World) (s : FanoutState β Ble) :
    FanoutInput Ble World → Unit × FanoutState β Ble
  | .executeFanoutRound i =>
    if s.agenda = [] then
      let (calls, round) := StellarConduit.executeFanoutRound FanoutCalculator.new s.round i
      ((), { s with round := round, agenda := calls })
    else ((), s)
  | .next now around wifi =>
    match s.agenda with
    | [] => ((), s)
    | call :: agenda => ((), { s with agenda := agenda }.sendTo rmp ble call now around wifi)
  | .sendTo peer msg now around wifi => ((), s.sendTo rmp ble ⟨peer, msg⟩ now around wifi)
  | .register peer breaksAfter =>
    let c := WifiDirectConnection.fromStream { TcpStream.opened with breaksAfter := breaksAfter }
    ((), { s with manager := s.manager.registerInbound peer (.inl (peer, c)) })

/-- What was written to each stream of a registered connection satisfies `P`. -/
def AllWritten (P : List UInt8 → Prop) (s : FanoutState β Ble) : Prop :=
  s.manager.Everywhere fun _ => Written P

end FanoutState

/-- The timeout of the step, if it fires, fires between two frames. -/
def FanoutInput.BetweenFrames {Ble World : Type} : FanoutInput Ble World → Prop
  | .next _ _ wifi => wifi.BetweenFrames
  | .sendTo _ _ _ _ wifi => wifi.BetweenFrames
  | _ => True

namespace FanoutState

variable {β Ble World : Type} [Bloom β (Bytes 32)] (rmp : RmpSerde) (ble : Connection Ble World)

theorem written_bleIncoming (P : List UInt8 → Prop) (around : Surroundings Ble World)
    (wifi : WifiWorld) : ∀ entry ∈ (around.withWifi wifi).bleIncoming, Written P entry.2 := by
  intro entry hentry
  obtain ⟨b, hb⟩ := mem_bleIncoming_withWifi hentry
  rw [hb]
  trivial

theorem allWritten_register {P : List UInt8 → Prop} (hnil : P []) {s : FanoutState β Ble}
    (h : s.AllWritten P) (peer : PeerIdentity) (breaksAfter : Option ℕ) :
    (s.step rmp ble (.register peer breaksAfter)).2.AllWritten P := by
  refine Everywhere.registerInbound h ⟨rfl, fun stream hstream => ?_⟩
  cases hstream
  exact hnil

omit [Bloom β (Bytes 32)] in
/-- Only the manager writes. -/
theorem AllWritten.congr {P : List UInt8 → Prop} {s s' : FanoutState β Ble} (h : s.AllWritten P)
    (hs : s'.manager = s.manager) : s'.AllWritten P := by
  unfold AllWritten at h ⊢
  rwa [hs]

theorem manager_executeFanoutRound (s : FanoutState β Ble) (i : RoundInput) :
    (s.step rmp ble (.executeFanoutRound i)).2.manager = s.manager := by
  unfold step
  dsimp only
  split_ifs <;> rfl

/-- What a send leaves of whole frames, the step that makes it leaves of them. -/
theorem allWritten_step {P : List UInt8 → Prop} (hP : ∀ bytes, Framed bytes → P bytes)
    {i : FanoutInput Ble World}
    (hsend : ∀ s : FanoutState β Ble, s.AllWritten Framed → ∀ call now around wifi,
      i = .next now around wifi ∨ i = .sendTo call.peer call.message now around wifi →
        (s.sendTo rmp ble call now around wifi).AllWritten P)
    {s : FanoutState β Ble} (h : s.AllWritten Framed) : (s.step rmp ble i).2.AllWritten P := by
  have hwhole : s.AllWritten P := h.imp fun _ _ => Written.imp hP
  cases i with
  | executeFanoutRound i => exact hwhole.congr (manager_executeFanoutRound rmp ble s i)
  | next now around wifi =>
    simp only [step]
    split
    next => exact hwhole
    next call agenda _ => exact hsend _ (h.congr rfl) call now around wifi (Or.inl rfl)
  | sendTo peer msg now around wifi =>
    exact hsend s h ⟨peer, msg⟩ now around wifi (Or.inr rfl)
  | register peer breaksAfter =>
    exact allWritten_register rmp ble (hP _ framed_nil) hwhole peer breaksAfter

/-- A step whose timeout fires between two frames keeps every stream framed. -/
theorem framed_step {s : FanoutState β Ble} {i : FanoutInput Ble World} (hi : i.BetweenFrames)
    (h : s.AllWritten Framed) : (s.step rmp ble i).2.AllWritten Framed := by
  refine allWritten_step rmp ble (fun _ => id) (fun s hs call now around wifi heq => ?_) h
  have hwifi : wifi.BetweenFrames := by
    rcases heq with rfl | rfl <;> exact hi
  exact (keeps_sendToAt (preserves_framed_betweenFrames rmp ble) hs now hwifi
    (written_bleIncoming Framed around wifi) call.peer call.message).partly

/-- A step leaves at most a part of a frame after the whole ones. -/
theorem partlyFramed_step {s : FanoutState β Ble} (i : FanoutInput Ble World)
    (h : s.AllWritten Framed) : (s.step rmp ble i).2.AllWritten PartlyFramed := by
  refine allWritten_step rmp ble (fun _ => Framed.partly)
    (fun s hs call now around wifi _ => ?_) h
  exact (keeps_sendToAt (preserves_framed rmp ble) hs now trivial
    (written_bleIncoming Framed around wifi) call.peer call.message).partly

/-- After a run, in which no `send` is in progress any more, whole frames were written to every
stream of a registered connection; and while another step is in progress, whole frames and then a
part of one. -/
structure KeepsFraming (s : FanoutState β Ble) (is : List (FanoutInput Ble World)) : Prop where
  framed : (exec (step rmp ble) s is).AllWritten Framed
  partly : ∀ i, ((exec (step rmp ble) s is).step rmp ble i).2.AllWritten PartlyFramed

/-- **Timeouts keep the streams framed**, in every run in which they fire between two frames. -/
theorem keeps_framing (round : RoundState β) (powerManager : PowerManager)
    (is : List (FanoutInput Ble World)) (hcuts : ∀ i ∈ is, i.BetweenFrames) :
    KeepsFraming rmp ble (new round powerManager) is := by
  have hnew : (new round powerManager : FanoutState β Ble).AllWritten Framed := by
    intro pubkey conn hconn
    cases hconn
  have hframed : (exec (step rmp ble) (new round powerManager) is).AllWritten Framed :=
    exec_invariant (fun s : FanoutState β Ble => s.AllWritten Framed)
      (fun s i hi hs => framed_step rmp ble (hcuts i hi) hs) hnew
  exact ⟨hframed, fun i => partlyFramed_step rmp ble i hframed⟩

/-! ### A timeout in the middle of a frame -/

/-- An envelope that takes two frames. -/
def largeEnvelope : TransactionEnvelope :=
  { (sampleForged 0).envelope with txXdr := String.ofList (List.replicate 1400 'A') }

/-- A node that holds one envelope. -/
def sampleFanout (env : TransactionEnvelope) : FanoutState (ExactFilter (Bytes 32)) Empty :=
  new { sampleRound with state := (sampleRound.state.addEnvelope env).2 } (PowerManager.new 0)

/-- The node forwards the envelope to its peer, under a timeout. -/
def forwardingRun (timeout : Option Cut) : List (FanoutInput Empty Unit) :=
  [.register (PeerIdentity.new sampleKey) none, .executeFanoutRound sampleReadings,
    .next 0 .quiet ⟨fun _ => 7, fun _ _ => 0, timeout⟩]

/-- The bytes that were written to the peer. -/
def sampleWritten (s : FanoutState (ExactFilter (Bytes 32)) Empty) : Option (List UInt8) :=
  match s.manager.connection sampleKey with
  | some (.inl (_, c)) => c.stream.map TcpStream.outgoing
  | _ => none

theorem of_sampleWritten {P : List UInt8 → Prop}
    {s : FanoutState (ExactFilter (Bytes 32)) Empty} (h : s.AllWritten P) {bytes : List UInt8}
    (hbytes : sampleWritten s = some bytes) : P bytes := by
  unfold sampleWritten at hbytes
  split at hbytes
  next peer c hconn =>
    obtain ⟨stream, hstream, rfl⟩ := Option.map_eq_some_iff.1 hbytes
    obtain ⟨-, hwritten⟩ := h sampleKey _ hconn
    exact hwritten stream hstream
  next => cases hbytes

/-- The timeout fires when the first of two frames has been written. -/
theorem keeps_framing_sample :
    KeepsFraming rmpSerde noBle (sampleFanout largeEnvelope) (forwardingRun (some ⟨1, 0⟩)) ∧
      (sampleWritten (exec (step rmpSerde noBle) (sampleFanout largeEnvelope)
        (forwardingRun (some ⟨1, 0⟩)))).map List.length = some (4 + wifiTcpMtu) := by
  refine ⟨keeps_framing rmpSerde noBle _ _ _ fun i hi => ?_, by decide +kernel⟩
  simp only [forwardingRun, List.mem_cons, List.not_mem_nil, or_false] at hi
  rcases hi with rfl | rfl | rfl
  · trivial
  · trivial
  · intro cut hcut
    cases hcut
    rfl

/-- The timeout fires after three bytes of the length.  The next message follows them. -/
theorem not_keepsFraming_sample :
    let env := (sampleForged 0).envelope
    let outbound : ProtocolMessage := .transaction { env with ttlHops := 9 }
    let later : FanoutInput Empty Unit :=
      .sendTo (PeerIdentity.new sampleKey) outbound 0 .quiet ⟨fun _ => 8, fun _ _ => 0, none⟩
    let s := exec (step rmpSerde noBle) (sampleFanout env) (forwardingRun (some ⟨0, 3⟩) ++ [later])
    ¬ KeepsFraming rmpSerde noBle (sampleFanout env) (forwardingRun (some ⟨0, 3⟩)) ∧
      sampleWritten s = some ([176, 0, 0] ++ [176, 0, 0, 0, 8, 0, 0, 0, 162, 0, 0, 0, 0, 0, 0, 0] ++
        [162, 0] ++ outbound.toBytes) ∧
      ¬ s.AllWritten PartlyFramed := by
  intro env outbound later s
  have hbytes : sampleWritten s = some ([176, 0, 0] ++ [176, 0, 0, 0, 8, 0, 0, 0, 162, 0, 0, 0, 0,
      0, 0, 0] ++ [162, 0] ++ outbound.toBytes) := by
    decide +kernel
  have hnot : ¬ s.AllWritten PartlyFramed := by
    intro h
    have hpartly := of_sampleWritten h hbytes
    exact absurd (hpartly.length_le (by decide +kernel)) (by decide +kernel)
  refine ⟨fun h => hnot ?_, hbytes, hnot⟩
  have hstep := h.partly later
  rwa [← exec_nil (step rmpSerde noBle) (step _ _ _ later).2, ← exec_cons, ← exec_append] at hstep

end FanoutState

end StellarConduit
