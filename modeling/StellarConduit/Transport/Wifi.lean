import StellarConduit.Lib.Bytes
import StellarConduit.Message.Encoding
import StellarConduit.Transport.Connection
import StellarConduit.Transport.Reassembly

/-!
# WiFi-Direct connections

`WifiDirectConnection` of `transport/wifi_transport.rs`: a message is serialized, cut into
chunks, and written to a TCP stream, each chunk behind its length.

* `TcpStream`: what one end of a stream sees; a read that the arrived bytes cannot satisfy
  waits (`Awaited.pending`) and leaves them where they are, so polling it again continues it;
* `send`, `recv`: the serializer is a parameter, and so are the random message id of a `send`
  and the instants that a `recv` reads off the clock;
* `Carries`: what the bytes on their way will be received as.
-/

namespace StellarConduit

open Verif.Bytes

def wifiTcpMtu : ℕ := 1448

/-- `rmp_serde::to_vec` and `rmp_serde::from_slice`. -/
structure RmpSerde where
  toVec : ProtocolMessage → Option (List UInt8)
  fromSlice : List UInt8 → Option ProtocolMessage

/-- What was serialized is read back. -/
def RmpSerde.RoundTrips (rmp : RmpSerde) : Prop :=
  ∀ msg bytes, rmp.toVec msg = some bytes → rmp.fromSlice bytes = some msg

/-- What was serialized, and is not too long to be sent, is read back. -/
def RmpSerde.ReadsBack (rmp : RmpSerde) : Prop :=
  ∀ msg bytes, rmp.toVec msg = some bytes → bytes.length ≤ maxMessageSizeBytes →
    rmp.fromSlice bytes = some msg

theorem RmpSerde.RoundTrips.readsBack {rmp : RmpSerde} (h : rmp.RoundTrips) : rmp.ReadsBack :=
  fun msg bytes hbytes _ => h msg bytes hbytes

/-- `rmp_serde`: writing to a vector does not fail. -/
def rmpSerde : RmpSerde where
  toVec msg := some msg.toBytes
  fromSlice bytes := (ProtocolMessage.fromBytes bytes).toOption

theorem readsBack_rmpSerde : rmpSerde.ReadsBack := by
  intro msg bytes hbytes hle
  obtain rfl := Option.some.inj hbytes
  have hlt : msg.toBytes.length < 2 ^ 32 := hle.trans_lt (by decide)
  have hdecoded := ProtocolMessage.fromBytes_toBytes_append
    (ProtocolMessage.fits_of_length_toBytes hlt) []
  rw [List.append_nil] at hdecoded
  show (ProtocolMessage.fromBytes msg.toBytes).toOption = some msg
  rw [hdecoded]
  rfl

/-! ### Streams -/

/-- One end of a TCP stream. -/
structure TcpStream where
  /-- The bytes that have arrived and were not read. -/
  incoming : List UInt8
  /-- The bytes that were written and have not arrived at the other end. -/
  outgoing : List UInt8
  /-- Nothing arrives after `incoming`. -/
  ended : Bool
  /-- How many more bytes can be written before the connection breaks, if it does. -/
  breaksAfter : Option ℕ

namespace TcpStream

/-- A stream that was just opened and stays open. -/
def opened : TcpStream := ⟨[], [], false, none⟩

/-- `write_all`; a stream that breaks takes a part of the data. -/
def writeAll (s : TcpStream) (data : List UInt8) : Bool × TcpStream :=
  match s.breaksAfter with
  | none => (true, { s with outgoing := s.outgoing ++ data })
  | some n =>
    (decide (data.length ≤ n),
      { s with
        outgoing := s.outgoing ++ data.take n
        breaksAfter := some (n - data.length) })

def readExact (s : TcpStream) (n : ℕ) : Awaited (List UInt8) × TcpStream :=
  if n ≤ s.incoming.length then
    (.ok (s.incoming.take n), { s with incoming := s.incoming.drop n })
  else if s.ended then (.err .brokenPipe, { s with incoming := [] })
  else (.pending, s)

def writeFrame (s : TcpStream) (data : List UInt8) : Except TransportError Unit × TcpStream :=
  match s.writeAll (leBytes 4 data.length) with
  | (false, s) => (.error .brokenPipe, s)
  | (true, s) =>
    match s.writeAll data with
    | (false, s) => (.error .brokenPipe, s)
    | (true, s) => (.ok (), s)

def readFrame (s : TcpStream) : Awaited (List UInt8) × TcpStream :=
  match s.readExact 4 with
  | (.ok lenBuf, s') =>
    let len := ofLeBytes lenBuf
    if len = 0 ∨ len > 4 * 1024 * 1024 then (.err .payloadTooLarge, s')
    else
      match s'.readExact len with
      -- The length stays with the payload that is waited for.
      | (.pending, _) => (.pending, s)
      | (buf, s'') => (buf, s'')
  | (out, s') => (out, s')

theorem readExact_append (s : TcpStream) {data rest : List UInt8} {n : ℕ}
    (h : s.incoming = data ++ rest) (hn : data.length = n) :
    s.readExact n = (.ok data, { s with incoming := rest }) := by
  subst hn
  unfold readExact
  rw [if_pos (by rw [h, List.length_append]; omega), h, List.take_left, List.drop_left]

theorem readExact_short (s : TcpStream) {n : ℕ} (hopen : s.ended = false)
    (h : s.incoming.length < n) : s.readExact n = (.pending, s) := by
  unfold readExact
  rw [if_neg (by omega), hopen]
  exact if_neg Bool.false_ne_true

theorem readExact_of_ok {s s' : TcpStream} {n : ℕ} {buf : List UInt8}
    (h : s.readExact n = (.ok buf, s')) :
    s.incoming = buf ++ s'.incoming ∧ buf.length = n := by
  unfold readExact at h
  split_ifs at h with hle hended
  · cases h
    exact ⟨(List.take_append_drop n s.incoming).symm, List.length_take_of_le hle⟩
  · cases h
  · cases h

theorem length_incoming_of_readFrame {s s' : TcpStream} {raw : List UInt8}
    (h : s.readFrame = (.ok raw, s')) : s'.incoming.length < s.incoming.length := by
  unfold readFrame at h
  split at h
  next lenBuf s₁ hlen =>
    obtain ⟨hsplit, hfour⟩ := readExact_of_ok hlen
    dsimp only at h
    split_ifs at h with hsize
    · cases h
    · split at h
      · cases h
      next buf s₂ _ hbuf =>
        cases h
        obtain ⟨hsplit', -⟩ := readExact_of_ok hbuf
        rw [hsplit, hsplit', List.length_append, List.length_append]
        omega
  next out s₁ hnot hlen =>
    cases h
    exact absurd rfl (hnot raw)

end TcpStream

/-! ### Chunks on the wire -/

/-- The bytes that `send` writes for a chunk. -/
def ChunkFrame.encode (frame : ChunkFrame) : List UInt8 :=
  leBytes 4 frame.messageId.toNat ++ leBytes 4 frame.totalLength.toNat ++
    leBytes 4 frame.offset.toNat ++ leBytes 2 frame.payloadSize.toNat ++ frame.payload

/-- The chunk that `recv` reads off a frame. -/
def ChunkFrame.decode (raw : List UInt8) : Except TransportError ChunkFrame :=
  if raw.length < 14 then .error .brokenPipe
  else
    .ok
      { messageId := UInt32.ofNat (ofLeBytes (raw.extract 0 4))
        totalLength := UInt32.ofNat (ofLeBytes (raw.extract 4 8))
        offset := UInt32.ofNat (ofLeBytes (raw.extract 8 12))
        payloadSize := UInt16.ofNat (ofLeBytes (raw.extract 12 14))
        payload := raw.drop 14 }

namespace ChunkFrame

theorem length_encode (frame : ChunkFrame) : frame.encode.length = 14 + frame.payload.length := by
  simp [encode]
  omega

/-- **Chunks survive the wire.** -/
theorem decode_encode (frame : ChunkFrame) : decode frame.encode = .ok frame := by
  have hid : frame.encode.extract 0 4 = leBytes 4 frame.messageId.toNat := by
    simp [encode]
  have htotal : frame.encode.extract 4 8 = leBytes 4 frame.totalLength.toNat := by
    simp [encode]
  have hoffset : frame.encode.extract 8 12 = leBytes 4 frame.offset.toNat := by
    simpa [encode] using
      extract_append (leBytes 4 frame.messageId.toNat ++ leBytes 4 frame.totalLength.toNat)
        (leBytes 4 frame.offset.toNat) _
  have hsize : frame.encode.extract 12 14 = leBytes 2 frame.payloadSize.toNat := by
    simpa [encode] using
      extract_append (leBytes 4 frame.messageId.toNat ++ leBytes 4 frame.totalLength.toNat ++
        leBytes 4 frame.offset.toNat) (leBytes 2 frame.payloadSize.toNat) _
  have hpayload : frame.encode.drop 14 = frame.payload := List.drop_left' (by simp)
  have hlen := frame.length_encode
  unfold decode
  rw [if_neg (by omega), hid, htotal, hoffset, hsize, hpayload,
    ofLeBytes_leBytes_of_lt frame.messageId.toNat_lt,
    ofLeBytes_leBytes_of_lt frame.totalLength.toNat_lt,
    ofLeBytes_leBytes_of_lt frame.offset.toNat_lt,
    ofLeBytes_leBytes_of_lt frame.payloadSize.toNat_lt]
  simp

end ChunkFrame

/-! ### Connections -/

/-- The part of a connection that `send` and `recv` use. -/
structure WifiDirectConnection where
  state : ConnectionState
  stream : Option TcpStream
  chunker : MessageChunker
  reassembler : MessageReassembler

/-- The loop of `send`. -/
def sendFrames (stream : TcpStream) : List ChunkFrame → Except TransportError Unit × TcpStream
  | [] => (.ok (), stream)
  | frame :: frames =>
    match stream.writeFrame frame.encode with
    | (.error e, stream) => (.error e, stream)
    | (.ok (), stream) => sendFrames stream frames

/-- The loop of `recv`; `clock k` is the instant at which chunk `k` is handed on. -/
def recvLoop (rmp : RmpSerde) (clock : ℕ → ℕ) (stream : TcpStream)
    (reassembler : MessageReassembler) :
    Awaited ProtocolMessage × TcpStream × MessageReassembler :=
  match _ : stream.readFrame with
  | (.ok raw, stream') =>
    match ChunkFrame.decode raw with
    | .error e => (.err e, stream', reassembler)
    | .ok chunk =>
      match reassembler.receiveChunk chunk (clock 0) with
      | .error panic => (.panic panic, stream', reassembler)
      | .ok (none, reassembler') =>
        recvLoop rmp (fun k => clock (k + 1)) stream' reassembler'
      | .ok (some assembledBytes, reassembler') =>
        match rmp.fromSlice assembledBytes with
        | none => (.err .brokenPipe, stream', reassembler')
        | some msg => (.ok msg, stream', reassembler')
  | (.err e, stream') => (.err e, stream', reassembler)
  | (.panic p, stream') => (.panic p, stream', reassembler)
  | (.pending, stream') => (.pending, stream', reassembler)
termination_by stream.incoming.length
decreasing_by exact stream.length_incoming_of_readFrame ‹_›

namespace WifiDirectConnection

/-- `from_stream`; `connect_to` and `accept_from` make the same connection. -/
def fromStream (stream : TcpStream) : WifiDirectConnection where
  state := .connected
  stream := some stream
  chunker := ⟨wifiTcpMtu⟩
  reassembler := .new

def send (rmp : RmpSerde) (c : WifiDirectConnection) (messageId : UInt32)
    (msg : ProtocolMessage) : Except TransportError Unit × WifiDirectConnection :=
  if c.state ≠ .connected then (.error .notConnected, c)
  else
    match rmp.toVec msg with
    | none => (.error .brokenPipe, c)
    | some bytes =>
      let frames := c.chunker.chunk messageId bytes
      match c.stream with
      | none => (.error .notConnected, c)
      | some stream =>
        let (result, stream) := sendFrames stream frames
        (result, { c with stream := some stream })

def recv (rmp : RmpSerde) (c : WifiDirectConnection) (clock : ℕ → ℕ) :
    Awaited ProtocolMessage × WifiDirectConnection :=
  if c.state ≠ .connected then (.err .notConnected, c)
  else
    match c.stream with
    | none => (.err .notConnected, c)
    | some stream =>
      let (out, stream, reassembler) := recvLoop rmp clock stream c.reassembler
      (out, { c with stream := some stream, reassembler := reassembler })

end WifiDirectConnection

/-- The bytes of chunks on the wire. -/
def wire (frames : List ChunkFrame) : List UInt8 := frames.flatMap fun f => frame 4 f.encode

theorem wire_append (fs gs : List ChunkFrame) : wire (fs ++ gs) = wire fs ++ wire gs :=
  List.flatMap_append

/-! ### Sending -/

/-- Writes that succeed append the frames. -/
theorem sendFrames_eq (stream : TcpStream) (hstream : stream.breaksAfter = none)
    (frames : List ChunkFrame) :
    sendFrames stream frames =
      (.ok (), { stream with outgoing := stream.outgoing ++ wire frames }) := by
  induction frames generalizing stream with
  | nil => simp [sendFrames, wire]
  | cons f fs ih =>
    have hwrite : stream.writeFrame f.encode =
        (.ok (), { stream with outgoing := stream.outgoing ++ frame 4 f.encode }) := by
      simp [TcpStream.writeFrame, TcpStream.writeAll, hstream, frame]
    rw [sendFrames, hwrite]
    dsimp only
    rw [ih { stream with outgoing := stream.outgoing ++ frame 4 f.encode } hstream]
    simp [wire]

/-- On a stream that does not break, a message that can be serialized is sent. -/
theorem send_fromStream {rmp : RmpSerde} {stream : TcpStream}
    (hstream : stream.breaksAfter = none) (messageId : UInt32) (msg : ProtocolMessage) :
    (WifiDirectConnection.fromStream stream).send rmp messageId msg =
      match rmp.toVec msg with
      | none => (.error .brokenPipe, .fromStream stream)
      | some bytes =>
        (.ok (), .fromStream
          { stream with
            outgoing := stream.outgoing ++
              wire (MessageChunker.chunk ⟨wifiTcpMtu⟩ messageId bytes) }) := by
  unfold WifiDirectConnection.send
  rw [if_neg (fun h => h rfl)]
  cases rmp.toVec msg with
  | none => rfl
  | some bytes =>
    simp only [WifiDirectConnection.fromStream, sendFrames_eq stream hstream]

/-! ### Receiving -/

theorem length_encode_le {f : ChunkFrame} (hf : f.WellFormed) :
    f.encode.length ≠ 0 ∧ f.encode.length ≤ 4 * 1024 * 1024 := by
  have hlen := f.length_encode
  have hle : f.totalLength.toNat ≤ 1048576 := hf.le
  have hstop := hf.stop
  omega

/-- A chunk that has arrived is read. -/
theorem readFrame_of_frame {stream : TcpStream} {f : ChunkFrame} (hf : f.WellFormed)
    {rest : List UInt8} (hincoming : stream.incoming = frame 4 f.encode ++ rest) :
    stream.readFrame = (.ok f.encode, { stream with incoming := rest }) := by
  obtain ⟨hpos, hle⟩ := length_encode_le hf
  unfold TcpStream.readFrame
  rw [frame, List.append_assoc] at hincoming
  rw [TcpStream.readExact_append stream hincoming (length_leBytes 4 _)]
  dsimp only
  rw [ofLeBytes_leBytes_of_lt (by omega), if_neg (by omega),
    TcpStream.readExact_append { stream with incoming := f.encode ++ rest } rfl rfl]

/-- A chunk that has arrived is read; of a chunk that has not, nothing. -/
theorem readFrame_spec {stream : TcpStream} (hopen : stream.ended = false)
    {later : List UInt8} {f : ChunkFrame} {fs : List ChunkFrame} (hf : f.WellFormed)
    (hwire : stream.incoming ++ later = wire (f :: fs)) :
    (stream.readFrame = (.pending, stream) ∧ later ≠ []) ∨
      ∃ bytes, stream.readFrame = (.ok f.encode, { stream with incoming := bytes }) ∧
        bytes ++ later = wire fs := by
  obtain ⟨hpos, hle⟩ := length_encode_le hf
  rcases arrived_frame (w := 4) hwire with
    ⟨hshort, hlater⟩ | ⟨part, hincoming, hshort, hlater⟩ | ⟨bytes, hincoming, hrest⟩
  · unfold TcpStream.readFrame
    rw [TcpStream.readExact_short stream hopen hshort]
    exact Or.inl ⟨rfl, hlater⟩
  · unfold TcpStream.readFrame
    rw [TcpStream.readExact_append stream hincoming (length_leBytes 4 _)]
    dsimp only
    rw [ofLeBytes_leBytes_of_lt (by omega), if_neg (by omega),
      TcpStream.readExact_short { stream with incoming := part } hopen hshort]
    exact Or.inl ⟨rfl, hlater⟩
  · exact Or.inr ⟨bytes, readFrame_of_frame hf hincoming, hrest⟩

theorem readFrame_nil {stream : TcpStream} (hopen : stream.ended = false)
    (hnil : stream.incoming = []) : stream.readFrame = (.pending, stream) := by
  unfold TcpStream.readFrame
  rw [TcpStream.readExact_short stream hopen (by rw [hnil]; decide)]

/-- The reassembler holds no buffer. -/
def MessageReassembler.Idle (r : MessageReassembler) : Prop := ∀ id, r.buffers.lookup id = none

/-- Fed with the frames, the reassembler hands out the messages of the queue, the last of
them with the last frame. -/
def Yields (rmp : RmpSerde) (r : MessageReassembler) (queue : List ProtocolMessage) :
    List ChunkFrame → Prop
  | [] => queue = [] ∧ r.Idle
  | f :: fs => ∀ now, ∃ message r', r.receiveChunk f now = .ok (message, r') ∧
      match message with
      | none => Yields rmp r' queue fs
      | some bytes => ∃ msg queue', rmp.fromSlice bytes = some msg ∧ queue = msg :: queue' ∧
          Yields rmp r' queue' fs

theorem Yields.append {rmp : RmpSerde} {r : MessageReassembler}
    {queue queue' : List ProtocolMessage} {fs gs : List ChunkFrame} (h : Yields rmp r queue fs)
    (h' : ∀ r', r'.Idle → Yields rmp r' queue' gs) : Yields rmp r (queue ++ queue') (fs ++ gs) := by
  induction fs generalizing r queue with
  | nil =>
    obtain ⟨rfl, hidle⟩ := h
    exact h' r hidle
  | cons f fs ih =>
    intro now
    obtain ⟨message, r', hreceive, hrest⟩ := h now
    refine ⟨message, r', hreceive, ?_⟩
    cases message with
    | none => exact ih hrest
    | some bytes =>
      obtain ⟨msg, queue'', hmsg, rfl, hrest⟩ := hrest
      exact ⟨msg, queue'' ++ queue', hmsg, rfl, ih hrest⟩

section Message

variable {rmp : RmpSerde} {c : MessageChunker} {id : UInt32} {m : List UInt8}
  {msg : ProtocolMessage} (hne : m ≠ []) (hle : m.length ≤ maxMessageSizeBytes)
  (hmtu : chunkFrameHeaderSize < c.mtu)

include hne hle hmtu

/-- No frame of a message occurs twice. -/
theorem nodup_chunk : (c.chunk id m).Nodup :=
  (MessageChunker.tiling_chunk id hne hmtu hle).nodup.of_map _

/-- The frames of a message that are left yield it. -/
theorem yields_rest (hmsg : rmp.fromSlice m = some msg) {pre post : List ChunkFrame}
    (hsplit : c.chunk id m = pre ++ post) (hpost : post ≠ []) {r : MessageReassembler}
    {slot : Option Assembly} (hslot : r.buffers.lookup id = slot.map Assembly.buffer)
    (hholds : Holds m.length pre slot)
    (hother : ∀ other, other ≠ id → r.buffers.lookup other = none) :
    Yields rmp r [msg] post := by
  induction post generalizing pre r slot with
  | nil => exact absurd rfl hpost
  | cons f post ih =>
    intro now
    have hf : f ∈ c.chunk id m := by
      rw [hsplit]
      simp
    obtain ⟨-, hid, -⟩ := MessageChunker.wellFormed_of_mem_chunk hne hmtu hle hf
    subst hid
    have hpre : ∀ g ∈ pre, g ∈ c.chunk f.messageId m := fun g hg => by
      rw [hsplit]
      exact List.mem_append_left _ hg
    obtain ⟨hanswer, hholds'⟩ := collect_frame hne hle hmtu hholds hf hpre now
    obtain ⟨message, r', hreceive, hmessage, hslot'⟩ :=
      MessageReassembler.receiveChunk_spec hslot now
    have hother' : ∀ other, other ≠ f.messageId → r'.buffers.lookup other = none :=
      fun other h => (MessageReassembler.lookup_receiveChunk_ne hreceive h).trans (hother other h)
    refine ⟨message, r', hreceive, ?_⟩
    rw [hanswer] at hmessage
    cases post with
    | nil =>
      -- The last frame completes the message, and its buffer is gone.
      have hcompletes : Completes (c.chunk f.messageId m) pre f := by
        intro g hg
        rwa [← hsplit]
      rw [if_pos hcompletes] at hmessage hholds'
      cases hmessage
      refine ⟨msg, [], hmsg, rfl, rfl, fun id => ?_⟩
      by_cases hid : id = f.messageId
      · rw [hid, hslot', Option.map_eq_none_iff]
        exact hholds'.empty.2 rfl
      · exact hother' id hid
    | cons g post =>
      have hincomplete : ¬ Completes (c.chunk f.messageId m) pre f := by
        intro hall
        have hsplit' : c.chunk f.messageId m = (pre ++ [f]) ++ g :: post := by
          rw [hsplit, List.append_assoc]
          rfl
        have hnodup : ((pre ++ [f]) ++ g :: post).Nodup := hsplit' ▸ nodup_chunk hne hle hmtu
        have hg : g ∈ pre ++ [f] := hall g (by rw [hsplit']; simp)
        exact List.disjoint_of_nodup_append hnodup hg List.mem_cons_self
      rw [if_neg hincomplete] at hmessage hholds'
      cases hmessage
      exact ih (by rw [hsplit]; simp) (by simp) hslot' hholds' hother'

/-- **Frames in order.**  The frames of a message yield it. -/
theorem yields_chunk (hmsg : rmp.fromSlice m = some msg) {r : MessageReassembler} (hr : r.Idle) :
    Yields rmp r [msg] (c.chunk id m) := by
  have hnil : c.chunk id m ≠ [] := by
    rw [ne_eq, MessageChunker.chunk_eq_nil_iff hmtu]
    rintro (h | h)
    · exact hne h
    · omega
  have hholds : Holds m.length [] none := ⟨rfl, by simp, by simp⟩
  exact yields_rest hne hle hmtu hmsg rfl hnil (hr id) hholds fun other _ => hr other

end Message

/-- The bytes on their way to a reassembler will be received as the messages of the queue. -/
def Carries (rmp : RmpSerde) (bytes : List UInt8) (r : MessageReassembler)
    (queue : List ProtocolMessage) : Prop :=
  ∃ frames, bytes = wire frames ∧ (∀ f ∈ frames, f.WellFormed) ∧ Yields rmp r queue frames

section RecvLoop

variable {rmp : RmpSerde} {clock : ℕ → ℕ} {stream stream' : TcpStream} {r r' : MessageReassembler}

theorem recvLoop_of_pending (hread : stream.readFrame = (.pending, stream')) :
    recvLoop rmp clock stream r = (.pending, stream', r) := by
  unfold recvLoop
  split <;> rename_i heq <;> rw [hread] at heq <;> cases heq
  rfl

theorem recvLoop_of_frame {f : ChunkFrame} (hread : stream.readFrame = (.ok f.encode, stream')) :
    recvLoop rmp clock stream r =
      match r.receiveChunk f (clock 0) with
      | .error panic => (.panic panic, stream', r)
      | .ok (none, r') => recvLoop rmp (fun k => clock (k + 1)) stream' r'
      | .ok (some bytes, r') =>
        match rmp.fromSlice bytes with
        | none => (.err .brokenPipe, stream', r')
        | some msg => (.ok msg, stream', r') := by
  rw [recvLoop]
  split <;> rename_i heq <;> rw [hread] at heq <;> cases heq
  rw [ChunkFrame.decode_encode]

end RecvLoop

/-- **Receiving.**  Of the messages on their way, `recv` returns the first one, or it waits;
it does not wait when everything has arrived and there is a message.  What follows stays on
its way. -/
theorem recvLoop_spec {rmp : RmpSerde} {stream : TcpStream} {later : List UInt8}
    {r : MessageReassembler} {queue : List ProtocolMessage} (hopen : stream.ended = false)
    (h : Carries rmp (stream.incoming ++ later) r queue) (clock : ℕ → ℕ) :
    ∃ out bytes r' queue', recvLoop rmp clock stream r =
        (out, { stream with incoming := bytes }, r') ∧ Carries rmp (bytes ++ later) r' queue' ∧
      ((∃ msg, out = .ok msg ∧ queue = msg :: queue') ∨
        (out = .pending ∧ queue = queue' ∧ (later = [] → queue = []))) := by
  obtain ⟨frames, hwire, hwf, hyields⟩ := h
  -- One round of the loop takes one frame off the wire.
  induction frames generalizing clock stream r queue with
  | nil =>
    obtain ⟨hincoming, -⟩ := List.append_eq_nil_iff.1 hwire
    refine ⟨_, stream.incoming, r, queue, recvLoop_of_pending (readFrame_nil hopen hincoming),
      ⟨[], hwire, hwf, hyields⟩, Or.inr ⟨rfl, rfl, fun _ => hyields.1⟩⟩
  | cons f fs ih =>
    rcases readFrame_spec hopen (hwf f List.mem_cons_self) hwire with
      ⟨hread, hlater⟩ | ⟨bytes, hread, hrest⟩
    · exact ⟨_, stream.incoming, r, queue, recvLoop_of_pending hread,
        ⟨f :: fs, hwire, hwf, hyields⟩, Or.inr ⟨rfl, rfl, fun h => absurd h hlater⟩⟩
    · have hwf' : ∀ g ∈ fs, g.WellFormed := fun g hg => hwf g (List.mem_cons_of_mem f hg)
      obtain ⟨message, r', hreceive, hyields'⟩ := hyields (clock 0)
      rw [recvLoop_of_frame hread, hreceive]
      cases message with
      | none =>
        have hopen' : TcpStream.ended { stream with incoming := bytes } = false := hopen
        exact ih hopen' _ hrest hwf' hyields'
      | some assembled =>
        obtain ⟨msg, queue', hmsg, hqueue, hyields''⟩ := hyields'
        dsimp only
        rw [hmsg]
        exact ⟨_, bytes, r', queue', rfl, ⟨fs, hrest, hwf', hyields''⟩,
          Or.inl ⟨msg, rfl, hqueue⟩⟩

end StellarConduit
