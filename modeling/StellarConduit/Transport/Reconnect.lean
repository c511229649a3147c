import Mathlib.Tactic.IntervalCases
import StellarConduit.Transport.Ble
import StellarConduit.Transport.WifiLink

/-!
# Reconnecting over WiFi-Direct

`connect` and `disconnect` of `WifiDirectConnection`.  A connection that was opened to an address
can be opened again, with growing delays between the attempts, and it keeps its reassembler: the
parts of a message that was cut off stay there.

* `WifiDirectEnd`: a connection with the address that it can be opened to again;
* `reconnectLoop_spec`: which dial succeeds, and how long the attempts before it have slept;
* `Session`: a peer that sends and an end that receives, over one stream after another, as a
  machine;
* `reconnect_delivers`: what is received over each stream is what was sent over it, up to where the
  stream ended.
-/

namespace StellarConduit

open Verif Verif.Bytes Verif.Machine

/-! ### Connecting -/

/-- `RECONNECT_BASE_DELAY_MS` -/
def reconnectBaseDelayMs : ℕ := 100

/-- `MAX_RECONNECT_ATTEMPTS` -/
def maxReconnectAttempts : ℕ := 5

/-- A connection, and the address it was opened to, if it was not accepted. -/
structure WifiDirectEnd (Addr : Type) where
  connection : WifiDirectConnection
  addr : Option Addr

/-- The loop of `reconnect`: the stream that a dial has opened, and the delays slept before each
dial. -/
def reconnectLoop (dial : ℕ → Option TcpStream) : ℕ → ℕ → Option TcpStream × List ℕ
  | 0, _ => (none, [])
  | attempts + 1, delayMs =>
    match dial 0 with
    | some stream => (some stream, [delayMs])
    | none =>
      let (stream, slept) := reconnectLoop (fun k => dial (k + 1)) attempts (delayMs * 2)
      (stream, delayMs :: slept)

namespace WifiDirectEnd

variable {Addr : Type}

/-- `reconnect`, with the milliseconds that it sleeps -/
def reconnect (c : WifiDirectEnd Addr) (dials : Dials Addr) :
    Except TransportError Unit × List ℕ × WifiDirectEnd Addr :=
  match c.addr with
  | none => (.error .notConnected, [], c)
  | some addr =>
    match reconnectLoop (fun k => dials k addr) maxReconnectAttempts reconnectBaseDelayMs with
    | (some stream, slept) =>
      (.ok (), slept,
        { c with connection := { c.connection with stream := some stream, state := .connected } })
    | (none, slept) =>
      (.error .connectionRefused, slept,
        { c with connection := { c.connection with state := .disconnected } })

def connect (c : WifiDirectEnd Addr) (dials : Dials Addr) :
    Except TransportError Unit × List ℕ × WifiDirectEnd Addr :=
  if c.connection.state = .connected then (.ok (), [], c) else c.reconnect dials

def disconnect (c : WifiDirectEnd Addr) : Except TransportError Unit × WifiDirectEnd Addr :=
  (.ok (), { c with connection := { c.connection with stream := none, state := .disconnected } })

end WifiDirectEnd

/-- The first dial that succeeds opens the stream.  Before each dial the delay has doubled. -/
theorem reconnectLoop_spec (dial : ℕ → Option TcpStream) (attempts delayMs : ℕ) :
    ∃ dialed ≤ attempts,
      (reconnectLoop dial attempts delayMs).2 = (List.range dialed).map (fun k => delayMs * 2 ^ k) ∧
        ((∃ k, dialed = k + 1 ∧ (∀ j < k, dial j = none) ∧ (dial k).isSome ∧
            (reconnectLoop dial attempts delayMs).1 = dial k) ∨
          (dialed = attempts ∧ (∀ j < attempts, dial j = none) ∧
            (reconnectLoop dial attempts delayMs).1 = none)) := by
  induction attempts generalizing dial delayMs with
  | zero => exact ⟨0, Nat.le_refl 0, rfl, .inr ⟨rfl, by simp, rfl⟩⟩
  | succ attempts ih =>
    unfold reconnectLoop
    cases hdial : dial 0 with
    | some stream =>
      refine ⟨1, by omega, by simp, .inl ⟨0, rfl, by simp, ?_, ?_⟩⟩
      · rw [hdial]
        rfl
      · rw [hdial]
    | none =>
      obtain ⟨dialed, hle, hslept, hcases⟩ := ih (fun k => dial (k + 1)) (delayMs * 2)
      have hnone : ∀ {n : ℕ}, (∀ j < n, dial (j + 1) = none) → ∀ j < n + 1, dial j = none := by
        intro n h j hj
        cases j with
        | zero => exact hdial
        | succ j => exact h j (Nat.lt_of_succ_lt_succ hj)
      refine ⟨dialed + 1, by omega, ?_, ?_⟩
      · dsimp only
        rw [hslept, List.range_succ_eq_map, List.map_cons, List.map_map, Nat.pow_zero, Nat.mul_one]
        refine congrArg _ (List.map_congr_left fun k _ => ?_)
        rw [Function.comp_apply, Nat.succ_eq_add_one, Nat.pow_succ]
        ring
      · rcases hcases with ⟨k, rfl, hbefore, hsome, hstream⟩ | ⟨rfl, hall, hstream⟩
        · exact .inl ⟨k + 1, rfl, hnone hbefore, hsome, hstream⟩
        · exact .inr ⟨rfl, hnone hall, hstream⟩

theorem sum_map_two_pow (delayMs dialed : ℕ) :
    ((List.range dialed).map fun k => delayMs * 2 ^ k).sum = delayMs * (2 ^ dialed - 1) := by
  induction dialed with
  | zero => simp
  | succ n ih =>
    have hpos : 0 < 2 ^ n := Nat.two_pow_pos n
    rw [List.range_succ, List.map_append, List.sum_append, ih, List.map_singleton,
      List.sum_singleton, ← Nat.mul_add, Nat.pow_succ]
    congr 1
    omega

namespace WifiDirectEnd

variable {Addr : Type}

/-- **The back-off.**  A call sleeps for at most 3.1 seconds. -/
theorem sum_slept_connect_le (c : WifiDirectEnd Addr) (dials : Dials Addr) :
    (c.connect dials).2.1.sum ≤ 3100 := by
  have hloop : ∀ dial, (reconnectLoop dial maxReconnectAttempts reconnectBaseDelayMs).2.sum ≤
      3100 := by
    intro dial
    obtain ⟨dialed, hle, hslept, -⟩ :=
      reconnectLoop_spec dial maxReconnectAttempts reconnectBaseDelayMs
    have hpow : 2 ^ dialed ≤ 2 ^ 5 := Nat.pow_le_pow_right (by decide) hle
    rw [hslept, sum_map_two_pow]
    unfold reconnectBaseDelayMs
    omega
  unfold connect reconnect
  split
  · exact Nat.zero_le _
  · split
    · exact Nat.zero_le _
    next addr haddr =>
      have hsum := hloop fun k => dials k addr
      split <;> rename_i heq <;> rw [heq] at hsum <;> exact hsum

/-- A connection that is not open is opened by one of five dials to its address, if it has one and
one of them succeeds. -/
theorem connect_of_disconnected {c : WifiDirectEnd Addr}
    (hstate : c.connection.state = .disconnected) (dials : Dials Addr) :
    (∃ addr ∈ c.addr, ∃ k < maxReconnectAttempts, ∃ stream slept, dials k addr = some stream ∧
        c.connect dials = (.ok (), slept, { c with
          connection := { c.connection with stream := some stream, state := .connected } })) ∨
      ∃ error slept, c.connect dials = (.error error, slept, c) := by
  obtain ⟨connection, addr⟩ := c
  have hclosed : { connection with state := .disconnected } = connection := by
    rw [← hstate]
  unfold connect reconnect
  rw [if_neg (by rw [hstate]; simp)]
  cases addr with
  | none => exact .inr ⟨_, _, rfl⟩
  | some addr =>
    obtain ⟨dialed, hle, -, hcases⟩ := reconnectLoop_spec (fun k => dials k addr)
      maxReconnectAttempts reconnectBaseDelayMs
    dsimp only
    rcases hloop : reconnectLoop (fun k => dials k addr) maxReconnectAttempts
      reconnectBaseDelayMs with ⟨stream, slept⟩
    rw [hloop] at hcases
    rcases hcases with ⟨k, rfl, -, hsome, hstream⟩ | ⟨-, -, hnone⟩
    · obtain ⟨opened, hopened⟩ := Option.isSome_iff_exists.1 hsome
      dsimp only at hstream
      rw [hstream, hopened]
      exact .inl ⟨addr, rfl, k, hle, opened, slept, hopened, rfl⟩
    · dsimp only at hnone
      rw [hnone]
      dsimp only
      rw [hclosed]
      exact .inr ⟨_, _, rfl⟩

end WifiDirectEnd

/-! ### What is left of an earlier stream -/

/-- The reassemblers hold the same parts of messages, but for those under the stale ids. -/
def AgreeOff (stale : List UInt32) (r r' : MessageReassembler) : Prop :=
  ∀ id ∉ stale, r.buffers.lookup id = r'.buffers.lookup id

/-- What a reassembler does with a frame depends on the buffer of its id alone. -/
theorem receiveChunk_congr {r r₀ r₀' : MessageReassembler} {f : ChunkFrame} {now : ℕ}
    {message : Option (List UInt8)}
    (h : r.buffers.lookup f.messageId = r₀.buffers.lookup f.messageId)
    (hreceive : r₀.receiveChunk f now = .ok (message, r₀')) :
    ∃ r', r.receiveChunk f now = .ok (message, r') ∧
      r'.buffers.lookup f.messageId = r₀'.buffers.lookup f.messageId := by
  rw [MessageReassembler.receiveChunk_eq] at hreceive ⊢
  split_ifs at hreceive ⊢ with hwf
  · unfold MessageReassembler.receiveWellFormed at hreceive ⊢
    have hbuffer : (HashMap.orInsert f.messageId (.new f.totalLength.toNat now) r.buffers).1 =
        (HashMap.orInsert f.messageId (.new f.totalLength.toNat now) r₀.buffers).1 := by
      rw [HashMap.orInsert_fst, HashMap.orInsert_fst, h]
    have hlookup : (HashMap.orInsert f.messageId (.new f.totalLength.toNat now)
        r.buffers).2.lookup f.messageId = (HashMap.orInsert f.messageId
          (.new f.totalLength.toNat now) r₀.buffers).2.lookup f.messageId := by
      rw [HashMap.lookup_orInsert, HashMap.lookup_orInsert, hbuffer]
    dsimp only at hreceive ⊢
    rw [hbuffer]
    split_ifs at hreceive ⊢ with htotal
    · cases hreceive
      exact ⟨_, rfl, hlookup⟩
    · split at hreceive
      · cases hreceive
      next buffer _ =>
        split_ifs at hreceive ⊢
        · cases hreceive
          refine ⟨_, rfl, ?_⟩
          dsimp only
          rw [AList.lookup_erase, AList.lookup_erase]
        · cases hreceive
          refine ⟨_, rfl, ?_⟩
          dsimp only
          rw [AList.lookup_insert, AList.lookup_insert]
  · cases hreceive
    exact ⟨r, rfl, h⟩

theorem AgreeOff.receiveChunk {stale : List UInt32} {r r₀ r₀' : MessageReassembler}
    {f : ChunkFrame} {now : ℕ} {message : Option (List UInt8)} (h : AgreeOff stale r r₀)
    (hf : f.messageId ∉ stale) (hreceive : r₀.receiveChunk f now = .ok (message, r₀')) :
    ∃ r', r.receiveChunk f now = .ok (message, r') ∧ AgreeOff stale r' r₀' := by
  obtain ⟨r', hreceive', hlookup⟩ := receiveChunk_congr (h f.messageId hf) hreceive
  refine ⟨r', hreceive', fun id hid => ?_⟩
  by_cases heq : id = f.messageId
  · rw [heq]
    exact hlookup
  · rw [MessageReassembler.lookup_receiveChunk_ne hreceive' heq,
      MessageReassembler.lookup_receiveChunk_ne hreceive heq]
    exact h id hid

/-- The bytes on their way will be received as the messages of the queue; there may be parts of
other messages in the reassembler, under stale ids. -/
def CarriesOff (rmp : RmpSerde) (stale : List UInt32) (bytes : List UInt8) (r : MessageReassembler)
    (queue : List ProtocolMessage) : Prop :=
  ∃ frames r₀, bytes = wire frames ∧ (∀ f ∈ frames, f.WellFormed ∧ f.messageId ∉ stale) ∧
    AgreeOff stale r r₀ ∧ Yields rmp r₀ queue frames

theorem carriesOff_nil (rmp : RmpSerde) {stale : List UInt32} {r : MessageReassembler}
    (h : AgreeOff stale r .new) : CarriesOff rmp stale [] r [] :=
  ⟨[], .new, rfl, by simp, h, rfl, fun _ => rfl⟩

/-- A message that is sent is put on its way. -/
theorem CarriesOff.send {rmp : RmpSerde} {stale : List UInt32} {bytes : List UInt8}
    {r : MessageReassembler} {queue : List ProtocolMessage}
    (h : CarriesOff rmp stale bytes r queue) {id : UInt32} (hid : id ∉ stale)
    {msg : ProtocolMessage} {serialized : List UInt8} (hne : serialized ≠ [])
    (hle : serialized.length ≤ maxMessageSizeBytes) (hmsg : rmp.fromSlice serialized = some msg) :
    CarriesOff rmp stale (bytes ++ wire (MessageChunker.chunk ⟨wifiTcpMtu⟩ id serialized)) r
      (queue ++ [msg]) := by
  obtain ⟨frames, r₀, rfl, hwf, hagree, hyields⟩ := h
  have hmtu : chunkFrameHeaderSize < (MessageChunker.mk wifiTcpMtu).mtu := by decide
  refine ⟨frames ++ MessageChunker.chunk ⟨wifiTcpMtu⟩ id serialized, r₀,
    (wire_append _ _).symm, fun f hf => ?_, hagree,
    hyields.append fun r' hidle => yields_chunk hne hle hmtu hmsg hidle⟩
  rcases List.mem_append.1 hf with hf | hf
  · exact hwf f hf
  · obtain ⟨hwf', heq, -⟩ := MessageChunker.wellFormed_of_mem_chunk hne hmtu hle hf
    rw [heq]
    exact ⟨hwf', hid⟩

/-! ### Receiving over a stream that may end -/

theorem TcpStream.readExact_ended (s : TcpStream) {n : ℕ} (hended : s.ended = true)
    (h : s.incoming.length < n) :
    s.readExact n = (.err .brokenPipe, { s with incoming := [] }) := by
  unfold readExact
  rw [if_neg (by omega), if_pos hended]

/-- A read takes the first frame, or it finds only a part of it. -/
theorem readFrame_cases {stream : TcpStream} {later : List UInt8} {frames : List ChunkFrame}
    (hwf : ∀ f ∈ frames, f.WellFormed) (hwire : stream.incoming ++ later = wire frames) :
    (stream.ended = false ∧ stream.readFrame = (.pending, stream) ∧ (later = [] → frames = [])) ∨
      (stream.ended = true ∧
        stream.readFrame = (.err .brokenPipe, { stream with incoming := [] })) ∨
      ∃ f fs bytes, frames = f :: fs ∧
        stream.readFrame = (.ok f.encode, { stream with incoming := bytes }) ∧
          bytes ++ later = wire fs := by
  by_cases hended : stream.ended = true
  · cases frames with
    | nil =>
      obtain ⟨hincoming, -⟩ := List.append_eq_nil_iff.1 hwire
      refine .inr (.inl ⟨hended, ?_⟩)
      unfold TcpStream.readFrame
      rw [TcpStream.readExact_ended stream hended (by rw [hincoming]; decide)]
    | cons f fs =>
      have hf := hwf f List.mem_cons_self
      obtain ⟨hpos, hle⟩ := length_encode_le hf
      rcases arrived_frame (w := 4) hwire with
        ⟨hshort, -⟩ | ⟨part, hincoming, hshort, -⟩ | ⟨bytes, hincoming, hrest⟩
      · refine .inr (.inl ⟨hended, ?_⟩)
        unfold TcpStream.readFrame
        rw [TcpStream.readExact_ended stream hended hshort]
      · refine .inr (.inl ⟨hended, ?_⟩)
        unfold TcpStream.readFrame
        rw [TcpStream.readExact_append stream hincoming (length_leBytes 4 _)]
        dsimp only
        rw [ofLeBytes_leBytes_of_lt (by omega), if_neg (by omega),
          TcpStream.readExact_ended { stream with incoming := part } hended hshort]
      · exact .inr (.inr ⟨f, fs, bytes, rfl, readFrame_of_frame hf hincoming, hrest⟩)
  · have hopen : stream.ended = false := Bool.eq_false_iff.2 hended
    cases frames with
    | nil =>
      obtain ⟨hincoming, -⟩ := List.append_eq_nil_iff.1 hwire
      exact .inl ⟨hopen, readFrame_nil hopen hincoming, fun _ => rfl⟩
    | cons f fs =>
      rcases readFrame_spec hopen (hwf f List.mem_cons_self) hwire with ⟨hread, hlater⟩ | ⟨bytes, h⟩
      · exact .inl ⟨hopen, hread, fun hnil => absurd hnil hlater⟩
      · exact .inr (.inr ⟨f, fs, bytes, rfl, h⟩)

theorem recvLoop_of_err {rmp : RmpSerde} {clock : ℕ → ℕ} {stream stream' : TcpStream}
    {r : MessageReassembler} {e : TransportError} (hread : stream.readFrame = (.err e, stream')) :
    recvLoop rmp clock stream r = (.err e, stream', r) := by
  unfold recvLoop
  split <;> rename_i heq <;> rw [hread] at heq <;> cases heq
  rfl

/-- Of the messages on their way `recv` returns the first one, or it waits, or it finds that the
stream has ended. -/
theorem recvLoop_carriesOff {rmp : RmpSerde} {stale : List UInt32} {stream : TcpStream}
    {later : List UInt8} {r : MessageReassembler} {queue : List ProtocolMessage}
    (h : CarriesOff rmp stale (stream.incoming ++ later) r queue) (clock : ℕ → ℕ) :
    ∃ out bytes r' queue' later',
      recvLoop rmp clock stream r = (out, { stream with incoming := bytes }, r') ∧
      CarriesOff rmp stale (bytes ++ later') r' queue' ∧ (stream.ended = false → later' = later) ∧
      ((∃ msg, out = .ok msg ∧ queue = msg :: queue') ∨
        (queue = queue' ∧ out = .pending ∧ stream.ended = false ∧ (later = [] → queue = [])) ∨
        (queue = queue' ∧ out = .err .brokenPipe ∧ stream.ended = true)) := by
  obtain ⟨frames, r₀, hwire, hwf, hagree, hyields⟩ := h
  -- One round of the loop takes one frame off the wire.
  induction frames generalizing clock stream r r₀ queue with
  | nil =>
    rcases readFrame_cases (by simp) hwire with
      ⟨hopen, hread, -⟩ | ⟨hended, hread⟩ | ⟨_, _, _, h, -⟩
    · exact ⟨_, stream.incoming, r, queue, later, recvLoop_of_pending hread,
        ⟨[], r₀, hwire, hwf, hagree, hyields⟩, fun _ => rfl,
        .inr (.inl ⟨rfl, rfl, hopen, fun _ => hyields.1⟩)⟩
    · exact ⟨_, [], r, queue, stream.incoming ++ later, recvLoop_of_err hread,
        ⟨[], r₀, hwire, hwf, hagree, hyields⟩,
        fun hopen => absurd (hopen.symm.trans hended) (by simp),
        .inr (.inr ⟨rfl, rfl, hended⟩)⟩
    · cases h
  | cons f fs ih =>
    have hwf' : ∀ g ∈ f :: fs, g.WellFormed := fun g hg => (hwf g hg).1
    rcases readFrame_cases hwf' hwire with
      ⟨hopen, hread, hlater⟩ | ⟨hended, hread⟩ | ⟨_, _, bytes, h, hread, hrest⟩
    · exact ⟨_, stream.incoming, r, queue, later, recvLoop_of_pending hread,
        ⟨f :: fs, r₀, hwire, hwf, hagree, hyields⟩, fun _ => rfl,
        .inr (.inl ⟨rfl, rfl, hopen, fun hnil => by cases hlater hnil⟩)⟩
    · exact ⟨_, [], r, queue, stream.incoming ++ later, recvLoop_of_err hread,
        ⟨f :: fs, r₀, hwire, hwf, hagree, hyields⟩,
        fun hopen => absurd (hopen.symm.trans hended) (by simp), .inr (.inr ⟨rfl, rfl, hended⟩)⟩
    · cases h
      have hfs : ∀ g ∈ fs, g.WellFormed ∧ g.messageId ∉ stale :=
        fun g hg => hwf g (List.mem_cons_of_mem f hg)
      obtain ⟨message, r₀', hreceive₀, hyields'⟩ := hyields (clock 0)
      obtain ⟨r', hreceive, hagree'⟩ :=
        hagree.receiveChunk (hwf f List.mem_cons_self).2 hreceive₀
      rw [recvLoop_of_frame hread, hreceive]
      cases message with
      | none => exact ih _ r₀' hrest hfs hagree' hyields'
      | some assembled =>
        obtain ⟨msg, queue', hmsg, hqueue, hyields''⟩ := hyields'
        dsimp only
        rw [hmsg]
        exact ⟨_, bytes, r', queue', later, rfl, ⟨fs, r₀', hrest, hfs, hagree', hyields''⟩,
          fun _ => rfl, .inl ⟨msg, rfl, hqueue⟩⟩

/-! ### One stream after another -/

/-- A peer that sends, and an end that receives and can be opened to the peer again. -/
structure Session (Addr : Type) where
  sender : WifiDirectConnection
  receiver : WifiDirectEnd Addr

inductive SessionInput
  /-- The peer sends, bytes arrive, or the end receives. -/
  | link (i : LinkInput)
  /-- The stream ends.  What is on its way is lost, and the peer can still write so many bytes. -/
  | cut (breaksAfter : ℕ)
  | disconnect
  /-- The peer accepts some of the dials. -/
  | connect (accepts : ℕ → Bool)

inductive SessionOutput
  | link (output : LinkOutput)
  | cut
  | disconnected (result : Except TransportError Unit)
  | connected (result : Except TransportError Unit) (slept : List ℕ)

abbrev SessionStep (Addr : Type) := Event (Session Addr) SessionInput SessionOutput

namespace Session

variable {Addr : Type}

/-- Two ends of a stream that was just opened. -/
def opened (addr : Option Addr) : Session Addr := ⟨.fromStream .opened, ⟨.fromStream .opened, addr⟩⟩

def link (s : Session Addr) : Link := ⟨s.sender, s.receiver.connection⟩

def setLink (s : Session Addr) (l : Link) : Session Addr :=
  ⟨l.sender, { s.receiver with connection := l.receiver }⟩

/-- Nothing arrives any more. -/
def ended (s : Session Addr) : Bool := s.receiver.connection.stream.any TcpStream.ended

def cut (s : Session Addr) (breaksAfter : ℕ) : Session Addr where
  sender :=
    { s.sender with
      stream := s.sender.stream.map fun stream =>
        { stream with outgoing := [], breaksAfter := some breaksAfter } }
  receiver :=
    { s.receiver with
      connection :=
        { s.receiver.connection with
          stream := s.receiver.connection.stream.map fun stream => { stream with ended := true } } }

def step (rmp : RmpSerde) (s : Session Addr) : SessionInput → SessionOutput × Session Addr
  | .link (.arrive n) => (.link .arrived, if s.ended then s else s.setLink (s.link.arrive n))
  | .link i =>
    let (output, l) := s.link.step rmp i
    (.link output, s.setLink l)
  | .cut breaksAfter => (.cut, s.cut breaksAfter)
  | .disconnect =>
    let (result, receiver) := s.receiver.disconnect
    (.disconnected result, { s with receiver := receiver })
  | .connect accepts =>
    let (result, slept, receiver) :=
      s.receiver.connect fun k _ => if accepts k then some .opened else none
    -- The peer wraps the stream that it has accepted.
    let sender :=
      if s.receiver.connection.state ≠ .connected ∧ result.isOk then .fromStream .opened
      else s.sender
    (.connected result slept, ⟨sender, receiver⟩)

end Session

/-- The stream is opened again. -/
def SessionStep.reopens {Addr : Type} (e : SessionStep Addr) : Bool :=
  match e.output with
  | .connected (.ok ()) _ => decide (e.before.receiver.connection.state ≠ .connected)
  | _ => false

/-- The message that a `recv` returned. -/
def SessionStep.received {Addr : Type} (e : SessionStep Addr) : Option ProtocolMessage :=
  match e.output with
  | .link (.received (.ok msg)) => some msg
  | _ => none

/-- The message that the peer was asked to send. -/
def SessionInput.sent : SessionInput → Option ProtocolMessage
  | .link i => sentMessage i
  | _ => none

namespace Session

variable {Addr : Type}

/-- The message ids of which the reassembler has a part when the stream is opened again. -/
def leftoverAfter (stale : List UInt32) (e : SessionStep Addr) : List UInt32 :=
  if e.reopens then e.before.receiver.connection.reassembler.buffers.keys else stale

/-- The message ids of which a part was left over when the stream was last opened again. -/
def leftover (rmp : RmpSerde) (s : Session Addr) (is : List SessionInput) : List UInt32 :=
  (trace (step rmp) s is).foldl leftoverAfter []

/-- No message is sent under an id of which a part is left over from an earlier stream. -/
def Fresh (rmp : RmpSerde) (s : Session Addr) (is : List SessionInput) : Prop :=
  ∀ pre id msg post, is = pre ++ .link (.send id msg) :: post → id ∉ leftover rmp s pre

/-- The end receives over a stream that is open, and which carries the messages of the queue. -/
inductive Live (rmp : RmpSerde) (stale : List UInt32) :
    Session Addr → List ProtocolMessage → Prop
  | intro {u t : TcpStream} {r : MessageReassembler} {addr : Option Addr}
    {queue : List ProtocolMessage} (hu : u.breaksAfter = none) (ht : t.ended = false)
    (h : CarriesOff rmp stale (t.incoming ++ u.outgoing) r queue) :
    Live rmp stale ⟨.fromStream u, ⟨{ WifiDirectConnection.fromStream t with reassembler := r },
      addr⟩⟩ queue

/-- What the end can still receive, before the stream is opened again. -/
inductive Flow (rmp : RmpSerde) (stale : List UInt32) :
    Session Addr → List ProtocolMessage → Prop
  | live {s : Session Addr} {queue : List ProtocolMessage} (h : Live rmp stale s queue) :
    Flow rmp stale s queue
  | ended {sender : WifiDirectConnection} {t : TcpStream} {r : MessageReassembler}
    {addr : Option Addr} {later : List UInt8} {queue : List ProtocolMessage}
    (ht : t.ended = true) (h : CarriesOff rmp stale (t.incoming ++ later) r queue) :
    Flow rmp stale ⟨sender, ⟨{ WifiDirectConnection.fromStream t with reassembler := r }, addr⟩⟩
      queue
  | closed {sender : WifiDirectConnection} {r : MessageReassembler} {addr : Option Addr} :
    Flow rmp stale ⟨sender, ⟨⟨.disconnected, none, ⟨wifiTcpMtu⟩, r⟩, addr⟩⟩ []

variable {rmp : RmpSerde} {stale : List UInt32} {s : Session Addr} {queue : List ProtocolMessage}

/-- What `recv` comes to, on a stream that is open or has ended. -/
theorem recv_fromStream {t : TcpStream} {r : MessageReassembler} {clock : ℕ → ℕ}
    {out : Awaited ProtocolMessage} {bytes : List UInt8} {r' : MessageReassembler}
    (hloop : recvLoop rmp clock t r = (out, { t with incoming := bytes }, r')) :
    WifiDirectConnection.recv rmp { WifiDirectConnection.fromStream t with reassembler := r }
        clock =
      (out, { WifiDirectConnection.fromStream { t with incoming := bytes } with
        reassembler := r' }) := by
  unfold WifiDirectConnection.recv
  rw [if_neg (fun h => h rfl)]
  dsimp only [WifiDirectConnection.fromStream]
  rw [hloop]

theorem fits_iff {msg : ProtocolMessage} {bytes : List UInt8}
    (hbytes : rmp.toVec msg = some bytes) :
    Fits rmp msg ↔ bytes ≠ [] ∧ bytes.length ≤ maxMessageSizeBytes := by
  unfold Fits
  rw [hbytes]
  simp

/-- A message that the peer sends is put on its way, if it fits. -/
theorem Live.send (hrmp : rmp.RoundTrips) (h : Live rmp stale s queue) {id : UInt32}
    (hid : id ∉ stale) (msg : ProtocolMessage) :
    Live rmp stale (s.step rmp (.link (.send id msg))).2
      (queue ++ ((some msg).filter (Fits rmp)).toList) := by
  obtain @⟨u, t, r, addr, queue, hu, ht, h⟩ := h
  unfold step link
  dsimp only
  rw [step_send hu]
  cases hbytes : rmp.toVec msg with
  | none =>
    have hfits : ¬ Fits rmp msg := by
      rintro ⟨bytes, hmem, -⟩
      rw [hbytes] at hmem
      cases hmem
    rw [Option.filter_some, if_neg (by simpa using hfits), Option.toList_none, List.append_nil]
    exact .intro hu ht h
  | some bytes =>
    by_cases hfits : Fits rmp msg
    · obtain ⟨hne, hle⟩ := (fits_iff hbytes).1 hfits
      rw [Option.filter_some, if_pos (by simpa using hfits), Option.toList_some]
      refine .intro hu ht ?_
      rw [← List.append_assoc]
      exact h.send hid hne hle (hrmp msg bytes hbytes)
    · -- `chunk` gives no frames, so the loop of `send` writes nothing.
      have hnil : MessageChunker.chunk ⟨wifiTcpMtu⟩ id bytes = [] := by
        refine (MessageChunker.chunk_eq_nil_iff (by decide)).2 ?_
        rw [fits_iff hbytes] at hfits
        by_contra hnot
        push Not at hnot
        exact hfits hnot
      rw [Option.filter_some, if_neg (by simpa using hfits), Option.toList_none, List.append_nil]
      refine .intro hu ht ?_
      rw [hnil, show wire [] = [] from rfl, List.append_nil]
      exact h

theorem Live.arrive (h : Live rmp stale s queue) (n : ℕ) :
    Live rmp stale (s.step rmp (.link (.arrive n))).2 queue := by
  obtain @⟨u, t, r, addr, queue, hu, ht, h⟩ := h
  show Live rmp stale (if t.ended = true then _ else _) queue
  rw [ht, if_neg Bool.false_ne_true]
  refine .intro (u := { u with outgoing := u.outgoing.drop n })
    (t := { t with incoming := t.incoming ++ u.outgoing.take n }) hu ht ?_
  rw [List.append_assoc, List.take_append_drop]
  exact h

/-- `recv` returns the first message, or it waits; if nothing is on its way, there is none. -/
theorem Live.recv (h : Live rmp stale s queue) (clock : ℕ → ℕ) :
    ∃ out queue', (s.step rmp (.link (.recv clock))).1 = .link (.received out) ∧
      Live rmp stale (s.step rmp (.link (.recv clock))).2 queue' ∧
      ((∃ msg, out = .ok msg ∧ queue = msg :: queue') ∨
        (out = .pending ∧ queue = queue' ∧ (s.link.inFlight = 0 → queue = []))) := by
  obtain @⟨u, t, r, addr, queue, hu, ht, h⟩ := h
  obtain ⟨out, bytes, r', queue', later', hloop, hcarries, hlater, hout⟩ :=
    recvLoop_carriesOff h clock
  obtain rfl := hlater ht
  unfold step link Link.step
  dsimp only
  rw [recv_fromStream hloop]
  refine ⟨out, queue', rfl, .intro hu ht hcarries, ?_⟩
  rcases hout with hok | ⟨hqueue, hpending, -, hnil⟩ | ⟨-, -, hended⟩
  · exact .inl hok
  · exact .inr ⟨hpending, hqueue, fun hzero => hnil (List.eq_nil_of_length_eq_zero hzero)⟩
  · rw [ht] at hended
    cases hended

/-- On a stream that is open nothing is lost. -/
theorem Live.step (hrmp : rmp.RoundTrips) (h : Live rmp stale s queue) (i : LinkInput)
    (hi : ∀ id msg, i = .send id msg → id ∉ stale) :
    ∃ queue', Live rmp stale (s.step rmp (.link i)).2 queue' ∧
      queue ++ ((sentMessage i).filter (Fits rmp)).toList =
        (SessionStep.received ⟨s, .link i, (s.step rmp (.link i)).1⟩).toList ++ queue' := by
  cases i with
  | send id msg => exact ⟨_, h.send hrmp (hi id msg rfl) msg, rfl⟩
  | arrive n => exact ⟨queue, h.arrive n, List.append_nil queue⟩
  | recv clock =>
    obtain ⟨out, queue', hout, hlive, hcases⟩ := h.recv clock
    refine ⟨queue', hlive, ?_⟩
    rw [hout]
    rcases hcases with ⟨msg, rfl, rfl⟩ | ⟨rfl, rfl, -⟩
    · exact List.append_nil _
    · exact List.append_nil _

/-- What is received over a stream was on its way, and what is put on its way was sent. -/
theorem Flow.link (hrmp : rmp.RoundTrips) (h : Flow rmp stale s queue) (i : LinkInput)
    (hi : ∀ id msg, i = .send id msg → id ∉ stale) :
    ∃ queue', Flow rmp stale (s.step rmp (.link i)).2 queue' ∧
      ((SessionStep.received ⟨s, .link i, (s.step rmp (.link i)).1⟩).toList ++ queue').Sublist
        (queue ++ (sentMessage i).toList) := by
  cases h with
  | live h =>
    obtain ⟨queue', hlive, heq⟩ := h.step hrmp i hi
    refine ⟨queue', .live hlive, ?_⟩
    rw [← heq]
    refine List.Sublist.append_left ?_ queue
    cases sentMessage i with
    | none => exact List.Sublist.refl _
    | some msg =>
      rw [Option.filter_some]
      split_ifs
      · exact List.Sublist.refl _
      · exact List.nil_sublist _
  | @ended sender t r addr later queue ht h =>
    cases i with
    | send id msg => exact ⟨queue, .ended ht h, List.sublist_append_left _ _⟩
    | arrive n =>
      refine ⟨queue, ?_, List.sublist_append_left _ _⟩
      show Flow rmp stale (if t.ended = true then _ else _) queue
      rw [if_pos ht]
      exact .ended ht h
    | recv clock =>
      obtain ⟨out, bytes, r', queue', later', hloop, hcarries, -, hout⟩ :=
        recvLoop_carriesOff h clock
      unfold step Session.link Link.step
      dsimp only
      rw [recv_fromStream hloop]
      refine ⟨queue', .ended (t := { t with incoming := bytes }) ht hcarries, ?_⟩
      rw [show (sentMessage (.recv clock)).toList = [] from rfl, List.append_nil]
      rcases hout with ⟨msg, rfl, rfl⟩ | ⟨rfl, rfl, -⟩ | ⟨rfl, rfl, -⟩
      · exact List.Sublist.refl _
      · exact List.Sublist.refl _
      · exact List.Sublist.refl _
  | @closed sender r addr =>
    cases i with
    | send id msg => exact ⟨[], .closed, List.nil_sublist _⟩
    | arrive n =>
      refine ⟨[], ?_, List.nil_sublist _⟩
      show Flow rmp stale (setLink _ (Link.arrive ⟨sender, _⟩ n)) []
      unfold Link.arrive
      cases sender.stream <;> exact .closed
    | recv clock => exact ⟨[], .closed, List.nil_sublist _⟩

theorem Flow.cut (h : Flow rmp stale s queue) (breaksAfter : ℕ) :
    Flow rmp stale (s.cut breaksAfter) queue := by
  cases h with
  | live h =>
    obtain @⟨u, t, r, addr, queue, -, -, h⟩ := h
    exact .ended (t := { t with ended := true }) rfl h
  | @ended sender t r addr later queue ht h => exact .ended (t := { t with ended := true }) rfl h
  | closed => exact .closed

theorem Flow.disconnect (h : Flow rmp stale s queue) :
    Flow rmp stale (s.step rmp .disconnect).2 [] := by
  cases h with
  | live h =>
    obtain ⟨-, -, -⟩ := h
    exact .closed
  | ended => exact .closed
  | closed => exact .closed

/-- A stream that is opened again carries nothing, and what the reassembler has a part of is
stale. -/
theorem Flow.connect (h : Flow rmp stale s queue) (accepts : ℕ → Bool) :
    let e : SessionStep Addr := ⟨s, .connect accepts, (s.step rmp (.connect accepts)).1⟩
    Flow rmp (leftoverAfter stale e) (s.step rmp (.connect accepts)).2 queue ∧
      (e.reopens = true →
        Live rmp (leftoverAfter stale e) (s.step rmp (.connect accepts)).2 []) := by
  cases h with
  | live h =>
    obtain @⟨u, t, r, addr, queue, hu, ht, h⟩ := h
    exact ⟨.live (.intro hu ht h), fun hopens => by cases hopens⟩
  | @ended sender t r addr later queue ht h => exact ⟨.ended ht h, fun hopens => by cases hopens⟩
  | @closed sender r addr =>
    intro e
    rcases WifiDirectEnd.connect_of_disconnected
      (c := ⟨⟨.disconnected, none, ⟨wifiTcpMtu⟩, r⟩, addr⟩) rfl
      (fun k _ => if accepts k then some .opened else none) with
        ⟨_, _, k, _, stream, slept, haccepts, hconnect⟩ | ⟨error, slept, hconnect⟩
    · obtain rfl : stream = .opened := by
        split_ifs at haccepts
        exact (Option.some.inj haccepts).symm
      have hagree : AgreeOff r.buffers.keys r .new := fun id hid => AList.lookup_eq_none.2 hid
      have hlive : Live rmp r.buffers.keys (Session.step rmp
          ⟨sender, ⟨⟨.disconnected, none, ⟨wifiTcpMtu⟩, r⟩, addr⟩⟩ (.connect accepts)).2 [] := by
        unfold step
        dsimp only
        rw [hconnect]
        exact .intro (u := .opened) (t := .opened) rfl rfl (carriesOff_nil rmp hagree)
      have hreopens : e.reopens = true := by
        show SessionStep.reopens ⟨_, _, (step rmp _ _).1⟩ = true
        unfold step
        dsimp only
        rw [hconnect]
        rfl
      have hstale : leftoverAfter stale e = r.buffers.keys := if_pos hreopens
      rw [hstale]
      exact ⟨.live hlive, fun _ => hlive⟩
    · have hreopens : e.reopens = false := by
        show SessionStep.reopens ⟨_, _, (step rmp _ _).1⟩ = false
        unfold step
        dsimp only
        rw [hconnect]
        rfl
      have hstale : leftoverAfter stale e = stale := if_neg (by rw [hreopens]; simp)
      rw [hstale, hreopens]
      refine ⟨?_, fun hopens => by cases hopens⟩
      unfold step
      dsimp only
      rw [hconnect]
      exact .closed

theorem reopens_link (s : Session Addr) (i : LinkInput) :
    SessionStep.reopens ⟨s, .link i, (s.step rmp (.link i)).1⟩ = false := by
  cases i <;> rfl

theorem leftover_concat (s : Session Addr) (is : List SessionInput) (i : SessionInput) :
    leftover rmp s (is ++ [i]) = leftoverAfter (leftover rmp s is)
      ⟨exec (step rmp) s is, i, ((exec (step rmp) s is).step rmp i).1⟩ := by
  unfold leftover
  rw [trace_append, List.foldl_append]
  rfl

theorem leftover_map_link (s : Session Addr) (is : List SessionInput) (life : List LinkInput) :
    leftover rmp s (is ++ life.map .link) = leftover rmp s is := by
  induction life using List.reverseRecOn with
  | nil => rw [List.map_nil, List.append_nil]
  | append_singleton life i ih =>
    rw [List.map_append, ← List.append_assoc, List.map_singleton, leftover_concat, ih]
    exact if_neg (by rw [reopens_link]; exact Bool.false_ne_true)

/-- What is received is a part of what was on its way and what was sent. -/
theorem Flow.step (hrmp : rmp.RoundTrips) (h : Flow rmp stale s queue) (i : SessionInput)
    (hi : ∀ id msg, i = .link (.send id msg) → id ∉ stale) :
    let e : SessionStep Addr := ⟨s, i, (s.step rmp i).1⟩
    ∃ queue', Flow rmp (leftoverAfter stale e) (s.step rmp i).2 queue' ∧
      (e.received.toList ++ queue').Sublist (queue ++ i.sent.toList) := by
  intro e
  cases i with
  | link i =>
    have hstale : leftoverAfter stale e = stale :=
      if_neg (by rw [reopens_link]; exact Bool.false_ne_true)
    rw [hstale]
    exact h.link hrmp i fun id msg hsend => hi id msg (by rw [hsend])
  | cut breaksAfter => exact ⟨queue, h.cut breaksAfter, List.sublist_append_left _ _⟩
  | disconnect => exact ⟨[], h.disconnect, List.nil_sublist _⟩
  | connect accepts => exact ⟨queue, (h.connect accepts).1, List.sublist_append_left _ _⟩

/-- What is received was sent, in this order. -/
theorem exists_flow (hrmp : rmp.RoundTrips) (addr : Option Addr) {is : List SessionInput}
    (hfresh : Fresh rmp (opened addr) is) :
    ∃ queue, Flow rmp (leftover rmp (opened addr) is) (exec (step rmp) (opened addr) is) queue ∧
      ((trace (step rmp) (opened addr) is).filterMap SessionStep.received ++ queue).Sublist
        (is.filterMap SessionInput.sent) := by
  induction is using List.reverseRecOn with
  | nil =>
    exact ⟨[], .live (.intro (u := .opened) (t := .opened) rfl rfl
      (carriesOff_nil rmp fun _ _ => rfl)), List.Sublist.refl _⟩
  | append_singleton is i ih =>
    obtain ⟨queue, hflow, hsub⟩ := ih fun pre id msg post hsplit =>
      hfresh pre id msg (post ++ [i]) (by rw [hsplit, List.append_assoc, List.cons_append])
    obtain ⟨queue', hflow', hsub'⟩ := hflow.step hrmp i fun id msg hsend =>
      hfresh is id msg [] (by rw [hsend])
    refine ⟨queue', ?_, ?_⟩
    · rw [leftover_concat, exec_concat]
      exact hflow'
    · rw [trace_append, List.filterMap_append, List.filterMap_append, List.append_assoc]
      refine (hsub'.append_left _).trans ?_
      rw [← List.append_assoc]
      exact hsub.append_right _

/-- A run that has just begun or has just opened the stream again has an open stream, and nothing
is on its way. -/
theorem live_of_reopens (hrmp : rmp.RoundTrips) (addr : Option Addr) {is : List SessionInput}
    (hfresh : Fresh rmp (opened addr) is)
    (hreopens : ∀ e ∈ (trace (step rmp) (opened addr) is).getLast?,
        SessionStep.reopens e = true) :
    Live rmp (leftover rmp (opened addr) is) (exec (step rmp) (opened addr) is) [] := by
  cases is using List.reverseRecOn with
  | nil => exact .intro (u := .opened) (t := .opened) rfl rfl (carriesOff_nil rmp fun _ _ => rfl)
  | append_singleton is i =>
    have hbefore : Fresh rmp (opened addr) is := fun pre id msg post hsplit =>
      hfresh pre id msg (post ++ [i]) (by rw [hsplit, List.append_assoc, List.cons_append])
    obtain ⟨queue, hflow, -⟩ := exists_flow hrmp addr hbefore
    rw [trace_append, trace_cons, trace_nil, List.getLast?_concat] at hreopens
    have hlast := hreopens _ rfl
    rw [leftover_concat, exec_concat]
    cases i with
    | link i =>
      rw [reopens_link] at hlast
      cases hlast
    | cut breaksAfter => cases hlast
    | disconnect => cases hlast
    | connect accepts => exact (hflow.connect accepts).2 hlast

/-- While the stream is open, what fits is received or still on its way. -/
theorem Live.exec (hrmp : rmp.RoundTrips) (h : Live rmp stale s queue) {life : List LinkInput}
    (hlife : ∀ id msg, .send id msg ∈ life → id ∉ stale) :
    ∃ queue', Live rmp stale (exec (Session.step rmp) s (life.map .link)) queue' ∧
      queue ++ (life.filterMap sentMessage).filter (Fits rmp) =
        (trace (Session.step rmp) s (life.map .link)).filterMap SessionStep.received ++ queue' := by
  have hstep : ∀ e ∈ trace (Session.step rmp) s (life.map .link), ∀ queue,
      Live rmp stale e.before queue →
      ∃ queue', Live rmp stale (e.before.step rmp e.input).2 queue' ∧
        queue ++ (e.input.sent.filter (Fits rmp)).toList =
          (SessionStep.received e).toList ++ queue' := by
    intro e he queue hlive
    obtain ⟨pre, i, post, hsplit, rfl⟩ := mem_trace he
    have hmem : i ∈ life.map .link := by
      rw [hsplit]
      simp
    obtain ⟨j, hj, rfl⟩ := List.mem_map.1 hmem
    exact hlive.step hrmp j fun id msg hsend => hlife id msg (hsend ▸ hj)
  obtain ⟨queue', hlive, heq⟩ := queue_trace hstep h
  refine ⟨queue', hlive, ?_⟩
  have hput : (trace (Session.step rmp) s (life.map .link)).filterMap
      (fun e => e.input.sent.filter (Fits rmp)) =
        (life.map .link).filterMap fun i : SessionInput => i.sent.filter (Fits rmp) := by
    conv_rhs => rw [← map_input_trace (Session.step rmp) s (life.map .link), List.filterMap_map]
    rfl
  rw [← heq, hput, List.filterMap_map, List.filter_filterMap]
  rfl

end Session

/-- **Reconnecting.**  A peer sends over one stream after another; each of them may end, and the end
that receives may disconnect and connect again, at any time.  The messages received are among those
sent, each at most once and in their order.  Over each stream, those that fit are received in their
order, up to where the stream is left.  This holds if no message is sent under an id of which the
reassembler has a part from an earlier stream. -/
theorem reconnect_delivers {Addr : Type} {rmp : RmpSerde} (hrmp : rmp.RoundTrips)
    (addr : Option Addr) (is : List SessionInput) (hfresh : Session.Fresh rmp (.opened addr) is) :
    ((trace (Session.step rmp) (.opened addr) is).filterMap SessionStep.received).Sublist
        (is.filterMap SessionInput.sent) ∧
      ∀ pre (life : List LinkInput) post, is = pre ++ (life.map .link ++ post) →
        (∀ e ∈ (trace (Session.step rmp) (.opened addr) pre).getLast?,
          SessionStep.reopens e = true) →
        let s := exec (Session.step rmp) (.opened addr) pre
        let s' := exec (Session.step rmp) s (life.map .link)
        ∃ waiting, (life.filterMap sentMessage).filter (Fits rmp) =
            (trace (Session.step rmp) s (life.map .link)).filterMap SessionStep.received ++
              waiting ∧
          (s'.link.inFlight = 0 → ∀ clock, (s'.step rmp (.link (.recv clock))).1 =
            .link (.received (match waiting with
              | [] => .pending
              | msg :: _ => .ok msg))) := by
  refine ⟨?_, fun pre life post hsplit hreopens => ?_⟩
  · obtain ⟨queue, -, hsub⟩ := Session.exists_flow hrmp addr hfresh
    exact (List.sublist_append_left _ queue).trans hsub
  · have hpre : Session.Fresh rmp (.opened addr) pre := fun pre' id msg post' h =>
      hfresh pre' id msg (post' ++ (life.map .link ++ post)) (by
        rw [hsplit, h, List.append_assoc, List.cons_append])
    have hlife : ∀ id msg, .send id msg ∈ life →
        id ∉ Session.leftover rmp (.opened addr) pre := by
      intro id msg hmem
      obtain ⟨before, after, rfl⟩ := List.append_of_mem hmem
      have hnot := hfresh (pre ++ before.map .link) id msg (after.map .link ++ post) (by
        rw [hsplit, List.map_append, List.map_cons]
        simp only [List.append_assoc, List.cons_append])
      rwa [Session.leftover_map_link] at hnot
    obtain ⟨waiting, hlive, heq⟩ :=
      (Session.live_of_reopens hrmp addr hpre hreopens).exec hrmp hlife
    refine ⟨waiting, heq, fun hzero clock => ?_⟩
    obtain ⟨out, queue', hout, -, hcases⟩ := hlive.recv clock
    rw [hout]
    rcases hcases with ⟨msg, rfl, rfl⟩ | ⟨rfl, -, hnil⟩
    · rfl
    · rw [hnil hzero]

/-- The stream is left with a handshake on its way.  The second dial to the peer succeeds, and the
peer sends the handshake again. -/
theorem reconnect_delivers_sample :
    let rmp := soleRmp blankHandshake blankHandshakeBytes
    let pre : List SessionInput :=
      [.link (.send 7 blankHandshake), .disconnect, .connect fun k => decide (k = 1)]
    let life : List LinkInput := [.send 7 blankHandshake, .arrive 100, .recv fun _ => 0]
    let s := exec (Session.step rmp) (.opened (some 0)) pre
    ∃ waiting, (life.filterMap sentMessage).filter (Fits rmp) =
      (trace (Session.step rmp) s (life.map .link)).filterMap SessionStep.received ++ waiting := by
  intro rmp pre life s
  have hrmp : rmp.RoundTrips := roundTrips_soleRmp _ _
  have hfresh : Session.Fresh rmp (.opened (some 0)) (pre ++ (life.map .link ++ [])) := by
    intro before id msg after hsplit
    have hbefore := congrArg (List.take before.length) hsplit
    have hlength : 6 = before.length + (after.length + 1) := by
      rw [← List.length_cons, ← List.length_append, ← hsplit]
      rfl
    rw [List.take_left] at hbefore
    have hlt : before.length < 6 := by omega
    have hnil : Session.leftover rmp (.opened (some 0)) before = [] := by
      rw [← hbefore]
      interval_cases before.length <;> rfl
    rw [hnil]
    exact List.not_mem_nil
  obtain ⟨waiting, heq, -⟩ := (reconnect_delivers hrmp (some 0) (pre ++ (life.map .link ++ []))
    hfresh).2 pre life [] rfl fun e he => by
      obtain rfl := Option.some.inj he
      rfl
  exact ⟨waiting, heq⟩

end StellarConduit
