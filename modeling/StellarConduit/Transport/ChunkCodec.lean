import StellarConduit.Transport.Wifi

/-!
# The chunk format

`encode_chunk` and `decode_chunk` of `transport/ble_transport.rs` are the chunk codec of the BLE
connections; WiFi-Direct connections write and read the fields of a chunk on their own.

* `chunk_tiles`: the frames of a message tile it, fit the MTU, and are as few as possible;
* `decodeChunk_encodeChunk`, `encodeChunk_of_decodeChunk`: the codec loses nothing;
* `one_chunk_format`: both transports have one format; `receiveWifi` and `receiveBle` are what they
  do with the bytes of a frame.
-/

namespace StellarConduit

open Verif.Bytes Verif.Fragments

def encodeChunk (frame : ChunkFrame) : List UInt8 :=
  let buf := leBytes 4 frame.messageId.toNat
  let buf := buf ++ leBytes 4 frame.totalLength.toNat
  let buf := buf ++ leBytes 4 frame.offset.toNat
  let buf := buf ++ leBytes 2 frame.payloadSize.toNat
  buf ++ frame.payload

def decodeChunk (data : List UInt8) : Option ChunkFrame :=
  if data.length < 14 then none
  else
    let messageId := UInt32.ofNat (ofLeBytes (data.extract 0 4))
    let totalLength := UInt32.ofNat (ofLeBytes (data.extract 4 8))
    let offset := UInt32.ofNat (ofLeBytes (data.extract 8 12))
    let payloadSize := UInt16.ofNat (ofLeBytes (data.extract 12 14))
    let payload := data.drop 14
    if payload.length ≠ payloadSize.toNat then none
    else some ⟨messageId, totalLength, offset, payloadSize, payload⟩

/-- The two encoders write the same bytes. -/
theorem encode_eq_encodeChunk (frame : ChunkFrame) : frame.encode = encodeChunk frame := rfl

/-! ### The frames of a message -/

namespace MessageChunker

/-- The most bytes that a frame can carry. -/
def payloadCapacity (c : MessageChunker) : ℕ := min (c.mtu - chunkFrameHeaderSize) 65535

/-- With one frame less, the loop would not have covered the rest of the message. -/
theorem length_chunkLoop_mul_lt {payloadCapacity : ℕ} {hcap : 0 < payloadCapacity}
    {messageId : UInt32} {messageBytes : List UInt8} (offset : ℕ) :
    (chunkLoop payloadCapacity hcap messageId messageBytes offset).length * payloadCapacity <
      messageBytes.length - offset + payloadCapacity := by
  fun_induction chunkLoop payloadCapacity hcap messageId messageBytes offset with
  | case1 offset hlt stop payload frame ih =>
    rw [List.length_cons, Nat.add_mul, Nat.one_mul]
    rcases Nat.le_total (offset + payloadCapacity) messageBytes.length with hfull | hlast
    · have hstop : stop = offset + payloadCapacity := Nat.min_eq_left hfull
      omega
    · -- The last frame: nothing is left behind it.
      have hstop : stop = messageBytes.length := Nat.min_eq_right hlast
      rw [hstop, Nat.sub_self, Nat.zero_add] at ih
      have hnone := Nat.lt_one_iff.1 (Nat.lt_of_mul_lt_mul_right (ih.trans_eq
        (Nat.one_mul payloadCapacity).symm))
      rw [← hstop] at hnone
      rw [hnone]
      omega
  | case2 offset hge =>
    rw [List.length_nil, Nat.zero_mul]
    omega

/-- No frame carries more than its capacity. -/
theorem length_payload_of_mem_chunkLoop {payloadCapacity : ℕ} {hcap : 0 < payloadCapacity}
    {messageId : UInt32} {messageBytes : List UInt8} (offset : ℕ) {f : ChunkFrame}
    (hf : f ∈ chunkLoop payloadCapacity hcap messageId messageBytes offset) :
    f.payload.length ≤ payloadCapacity := by
  fun_induction chunkLoop payloadCapacity hcap messageId messageBytes offset with
  | case1 offset hlt stop payload frame ih =>
    rcases List.mem_cons.1 hf with rfl | hf
    · have hstop : offset < stop ∧ stop ≤ messageBytes.length := by omega
      have hlen : payload.length = stop - offset :=
        (drop_eq_extract_append hstop.1 hstop.2).2
      show payload.length ≤ _
      omega
    · exact ih hf
  | case2 => cases hf

variable {c : MessageChunker} {messageBytes : List UInt8}

theorem chunk_eq (messageId : UInt32) (hne : messageBytes ≠ []) (hmtu : 14 < c.mtu)
    (hle : messageBytes.length ≤ maxMessageSizeBytes) :
    ∃ hcap, c.chunk messageId messageBytes =
      chunkLoop c.payloadCapacity hcap messageId messageBytes 0 := by
  have hcap : c.payloadCapacity ≠ 0 := by
    unfold payloadCapacity chunkFrameHeaderSize
    omega
  refine ⟨Nat.pos_of_ne_zero hcap, ?_⟩
  unfold chunk
  rw [if_neg hne]
  refine (if_neg (Nat.not_le.2 hmtu)).trans ?_
  rw [if_neg (Nat.not_lt.2 hle)]
  exact dif_neg hcap

theorem length_payload_le (messageId : UInt32) (hne : messageBytes ≠ []) (hmtu : 14 < c.mtu)
    (hle : messageBytes.length ≤ maxMessageSizeBytes) :
    ∀ f ∈ c.chunk messageId messageBytes, f.payload.length ≤ c.payloadCapacity := by
  obtain ⟨hcap, hchunk⟩ := chunk_eq messageId hne hmtu hle
  rw [hchunk]
  intro f hf
  exact length_payload_of_mem_chunkLoop 0 hf

/-- The payloads put together are the message. -/
theorem flatMap_payload_chunk (messageId : UInt32) (hne : messageBytes ≠ []) (hmtu : 14 < c.mtu)
    (hle : messageBytes.length ≤ maxMessageSizeBytes) :
    (c.chunk messageId messageBytes).flatMap ChunkFrame.payload = messageBytes := by
  have hfragments := (tiling_chunk messageId hne hmtu hle).flatMap_payload
  rwa [List.flatMap_map] at hfragments

/-- A frame starts where the payloads before it end. -/
theorem offset_eq_of_chunk (messageId : UInt32) (hne : messageBytes ≠ []) (hmtu : 14 < c.mtu)
    (hle : messageBytes.length ≤ maxMessageSizeBytes) {pre post : List ChunkFrame}
    {f : ChunkFrame} (hsplit : c.chunk messageId messageBytes = pre ++ f :: post) :
    f.offset.toNat = (pre.flatMap ChunkFrame.payload).length := by
  have hmapped : (c.chunk messageId messageBytes).map ChunkFrame.fragment =
      pre.map ChunkFrame.fragment ++ f.fragment :: post.map ChunkFrame.fragment := by
    rw [hsplit, List.map_append, List.map_cons]
  have hstart := (tiling_chunk messageId hne hmtu hle).offset_eq hmapped
  rw [Nat.zero_add, List.flatMap_map] at hstart
  exact hstart

/-- No other way to cut the message takes fewer payloads. -/
theorem isLeast_length_chunk (messageId : UInt32) (hne : messageBytes ≠ []) (hmtu : 14 < c.mtu)
    (hle : messageBytes.length ≤ maxMessageSizeBytes) :
    IsLeast (pieceCounts c.payloadCapacity messageBytes)
      (c.chunk messageId messageBytes).length := by
  have hfew : (c.chunk messageId messageBytes).length * c.payloadCapacity <
      messageBytes.length - 0 + c.payloadCapacity := by
    obtain ⟨hcap, hchunk⟩ := chunk_eq messageId hne hmtu hle
    rw [hchunk]
    exact length_chunkLoop_mul_lt 0
  have hall : ∀ p ∈ (c.chunk messageId messageBytes).map ChunkFrame.payload,
      p.length ≤ c.payloadCapacity := by
    intro p hp
    obtain ⟨f, hf, rfl⟩ := List.mem_map.1 hp
    exact length_payload_le messageId hne hmtu hle f hf
  have hleast := isLeast_pieceCounts (flatMap_payload_chunk messageId hne hmtu hle) hall
    (by rwa [List.length_map])
  rwa [List.length_map] at hleast

end MessageChunker

open MessageChunker

/-- **Chunking tiles the message.**  A frame starts where the payloads before it end, and the
payloads put together are the message. Each frame carries a part of it, says how much and how long
the message is, and fits the MTU. There is no way to cut the message into fewer payloads. -/
theorem chunk_tiles (c : MessageChunker) (messageId : UInt32) (messageBytes : List UInt8)
    (hne : messageBytes ≠ []) (hle : messageBytes.length ≤ maxMessageSizeBytes)
    (hmtu : 14 < c.mtu) :
    let frames := c.chunk messageId messageBytes
    (∀ pre f post, frames = pre ++ f :: post →
        f.offset.toNat = (pre.flatMap ChunkFrame.payload).length ∧
          (post = [] → f.offset.toNat + f.payload.length = messageBytes.length)) ∧
      frames.flatMap ChunkFrame.payload = messageBytes ∧
      (∀ f ∈ frames, f.payload ≠ [] ∧ f.payloadSize.toNat = f.payload.length ∧
        f.totalLength.toNat = messageBytes.length ∧ (encodeChunk f).length ≤ c.mtu) ∧
      IsLeast (pieceCounts c.payloadCapacity messageBytes) frames.length := by
  intro frames
  have htiling := tiling_chunk messageId hne hmtu hle
  have hpayloads : frames.flatMap ChunkFrame.payload = messageBytes :=
    flatMap_payload_chunk messageId hne hmtu hle
  refine ⟨?_, hpayloads, ?_, isLeast_length_chunk messageId hne hmtu hle⟩
  · intro pre f post hsplit
    have hoffset := offset_eq_of_chunk messageId hne hmtu hle hsplit
    refine ⟨hoffset, ?_⟩
    rintro rfl
    rw [hoffset, ← hpayloads, hsplit, List.flatMap_append, List.length_append,
      List.flatMap_cons, List.flatMap_nil, List.append_nil]
  · intro f hf
    obtain ⟨hwell, -, htotal⟩ := wellFormed_of_mem_chunk hne hmtu hle hf
    have hcap := length_payload_le messageId hne hmtu hle f hf
    refine ⟨htiling.payload_ne_nil f.fragment (List.mem_map_of_mem hf), hwell.size, htotal, ?_⟩
    rw [← encode_eq_encodeChunk, f.length_encode]
    unfold payloadCapacity chunkFrameHeaderSize at hcap
    omega

/-- A message of 20 bytes in frames of at most 15 bytes takes 20 frames. -/
theorem chunk_tiles_sample :
    let frames := (MessageChunker.mk 15).chunk 7 (List.replicate 20 1)
    frames.flatMap ChunkFrame.payload = List.replicate 20 1 ∧
      IsLeast (pieceCounts 1 (List.replicate 20 (1 : UInt8))) frames.length := by
  obtain ⟨-, hpayloads, -, hleast⟩ := chunk_tiles ⟨15⟩ 7 (List.replicate 20 1) (by simp)
    (by rw [List.length_replicate]; decide) (by decide)
  exact ⟨hpayloads, hleast⟩

/-! ### One format -/

/-- Four bytes are those of the word they are read as. -/
theorem leBytes_ofNat32 {bs : List UInt8} (h : bs.length = 4) :
    leBytes 4 (UInt32.ofNat (ofLeBytes bs)).toNat = bs := by
  have hlt := ofLeBytes_lt bs
  rw [h] at hlt
  rw [UInt32.toNat_ofNat', Nat.mod_eq_of_lt (by omega), ← h]
  exact leBytes_ofLeBytes bs

theorem leBytes_ofNat16 {bs : List UInt8} (h : bs.length = 2) :
    leBytes 2 (UInt16.ofNat (ofLeBytes bs)).toNat = bs := by
  have hlt := ofLeBytes_lt bs
  rw [h] at hlt
  rw [UInt16.toNat_ofNat', Nat.mod_eq_of_lt (by omega), ← h]
  exact leBytes_ofLeBytes bs

/-- What WiFi-Direct connections read is what the codec reads, which also checks the size. -/
theorem decodeChunk_eq {data : List UInt8} (h : 14 ≤ data.length) :
    ∃ f, ChunkFrame.decode data = .ok f ∧ encodeChunk f = data ∧
      decodeChunk data = if f.payloadSize.toNat = f.payload.length then some f else none := by
  have hshort : ¬ data.length < 14 := Nat.not_lt.2 h
  refine ⟨_, if_neg hshort, ?_, ?_⟩
  · have hfour : ∀ start, start + 4 ≤ data.length →
        (data.extract start (start + 4)).length = 4 := by
      intro start hstart
      rw [List.extract_eq_take_drop, List.length_take, List.length_drop]
      omega
    have htwo : (data.extract 12 (12 + 2)).length = 2 := by
      rw [List.extract_eq_take_drop, List.length_take, List.length_drop]
      omega
    unfold encodeChunk
    dsimp only
    rw [leBytes_ofNat32 (hfour 0 (by omega)), leBytes_ofNat32 (hfour 4 (by omega)),
      leBytes_ofNat32 (hfour 8 (by omega)), leBytes_ofNat16 htwo]
    -- The data is its header, field by field, and the payload behind it.
    conv_rhs =>
      rw [← List.drop_zero (l := data), drop_eq_extract_append_drop data 0 4,
        drop_eq_extract_append_drop data (0 + 4) 4, drop_eq_extract_append_drop data (0 + 4 + 4) 4,
        drop_eq_extract_append_drop data (0 + 4 + 4 + 4) 2]
    simp only [List.append_assoc]
  · unfold decodeChunk
    rw [if_neg hshort]
    dsimp only
    by_cases hsize : (data.drop 14).length = (UInt16.ofNat (ofLeBytes (data.extract 12 14))).toNat
    · rw [if_neg (not_not_intro hsize), if_pos hsize.symm]
    · rw [if_pos hsize, if_neg fun heq => hsize heq.symm]

theorem decodeChunk_encodeChunk {f : ChunkFrame} (h : f.payloadSize.toNat = f.payload.length) :
    decodeChunk (encodeChunk f) = some f := by
  have hlength : 14 ≤ (encodeChunk f).length := by
    rw [← encode_eq_encodeChunk, f.length_encode]
    exact Nat.le_add_right _ _
  obtain ⟨f', hdecode, -, hcodec⟩ := decodeChunk_eq hlength
  rw [← encode_eq_encodeChunk, f.decode_encode] at hdecode
  cases hdecode
  rw [hcodec, if_pos h]

theorem encodeChunk_of_decodeChunk {data : List UInt8} {f : ChunkFrame}
    (h : decodeChunk data = some f) : encodeChunk f = data := by
  have hlength : 14 ≤ data.length := by
    by_contra hshort
    rw [decodeChunk, if_pos (Nat.not_le.1 hshort)] at h
    cases h
  obtain ⟨f', -, hencode, hcodec⟩ := decodeChunk_eq hlength
  rw [hcodec] at h
  split_ifs at h
  cases h
  exact hencode

namespace MessageReassembler

/-- A WiFi-Direct connection hands the bytes of a frame on. -/
def receiveWifi (r : MessageReassembler) (raw : List UInt8) (now : ℕ) :
    Except Panic (Option (List UInt8) × MessageReassembler) :=
  match ChunkFrame.decode raw with
  | .error _ => .ok (none, r)
  | .ok chunk => r.receiveChunk chunk now

/-- A BLE connection hands the bytes of a frame on. -/
def receiveBle (r : MessageReassembler) (data : List UInt8) (now : ℕ) :
    Except Panic (Option (List UInt8) × MessageReassembler) :=
  match decodeChunk data with
  | none => .ok (none, r)
  | some frame => r.receiveChunk frame now

/-- The reassembler rejects what the codec would have rejected. -/
theorem receiveWifi_eq_receiveBle (r : MessageReassembler) {data : List UInt8}
    (h : 14 ≤ data.length) (now : ℕ) : r.receiveWifi data now = r.receiveBle data now := by
  obtain ⟨f, hdecode, -, hcodec⟩ := decodeChunk_eq h
  unfold receiveWifi receiveBle
  rw [hdecode, hcodec]
  by_cases hsize : f.payloadSize.toNat = f.payload.length
  · rw [if_pos hsize]
  · rw [if_neg hsize]
    show r.receiveChunk f now = _
    rw [receiveChunk_eq, if_neg fun hwell => hsize hwell.size]

end MessageReassembler

/-- A stream that breaks takes the first bytes of a frame. -/
theorem TcpStream.writeFrame_of_breaksAfter (stream : TcpStream) {n : ℕ}
    (hstream : stream.breaksAfter = some n) (data : List UInt8) :
    stream.writeFrame data =
      (if (frame 4 data).length ≤ n then .ok () else .error .brokenPipe,
        { stream with
          outgoing := stream.outgoing ++ (frame 4 data).take n
          breaksAfter := some (n - (frame 4 data).length) }) := by
  have hlen : (frame 4 data).length = 4 + data.length := by
    rw [frame, List.length_append, length_leBytes]
  unfold writeFrame writeAll
  simp only [hstream, length_leBytes, hlen]
  by_cases hfour : 4 ≤ n
  · have htake : (frame 4 data).take n = leBytes 4 data.length ++ data.take (n - 4) := by
      rw [frame, List.take_append, length_leBytes,
        List.take_of_length_le (by rwa [length_leBytes])]
    rw [htake, List.take_of_length_le (by rwa [length_leBytes]), decide_eq_true hfour]
    dsimp only
    rw [List.append_assoc, Nat.sub_sub]
    by_cases hall : data.length ≤ n - 4
    · rw [decide_eq_true hall, if_pos (by omega)]
    · rw [decide_eq_false hall, if_neg (by omega)]
  · have htake : (frame 4 data).take n = (leBytes 4 data.length).take n :=
      List.take_append_of_le_length (by rw [length_leBytes]; omega)
    rw [htake, decide_eq_false hfour, if_neg (by omega)]
    dsimp only
    congr 3
    omega

/-- The loop of `send` on a stream that breaks. -/
theorem sendFrames_of_breaksAfter (stream : TcpStream) {n : ℕ}
    (hstream : stream.breaksAfter = some n) (frames : List ChunkFrame) :
    sendFrames stream frames =
      (if (wire frames).length ≤ n then .ok () else .error .brokenPipe,
        { stream with
          outgoing := stream.outgoing ++ (wire frames).take n
          breaksAfter := some (n - (wire frames).length) }) := by
  induction frames generalizing stream n with
  | nil => simp [sendFrames, wire, ← hstream]
  | cons f fs ih =>
    have hwire : wire (f :: fs) = frame 4 f.encode ++ wire fs := rfl
    rw [sendFrames, stream.writeFrame_of_breaksAfter hstream, hwire, List.length_append]
    by_cases hfirst : (frame 4 f.encode).length ≤ n
    · rw [if_pos hfirst]
      dsimp only
      rw [ih _ rfl]
      dsimp only
      rw [List.take_append, List.append_assoc, Nat.sub_sub]
      congr 1
      exact if_congr (by omega) rfl rfl
    · -- The first frame is cut, and none is written after it.
      rw [if_neg hfirst, if_neg (by omega)]
      dsimp only
      rw [List.take_append_of_le_length (by omega)]
      congr 3
      omega

/-- **One format.**  A chunk that carries its size is decoded from its encoding, and what is decoded
encodes to the bytes it came from. A WiFi-Direct connection writes the encodings of its frames, each
behind its length, and of these bytes the first ones when its stream breaks; and it hands bytes on
to a reassembler as a BLE connection does, whatever they are. -/
theorem one_chunk_format :
    (∀ f : ChunkFrame, f.payloadSize.toNat = f.payload.length →
        decodeChunk (encodeChunk f) = some f) ∧
      (∀ data f, decodeChunk data = some f → encodeChunk f = data) ∧
      (∀ (rmp : RmpSerde) (c : WifiDirectConnection) (messageId : UInt32) (msg : ProtocolMessage)
        (bytes : List UInt8) (stream : TcpStream), c.state = .connected →
        rmp.toVec msg = some bytes → c.stream = some stream →
        let written := (c.chunker.chunk messageId bytes).flatMap fun f => frame 4 (encodeChunk f)
        (stream.breaksAfter = none →
          c.send rmp messageId msg =
            (.ok (),
              { c with stream := some { stream with outgoing := stream.outgoing ++ written } })) ∧
          ∀ n, stream.breaksAfter = some n →
            c.send rmp messageId msg =
              (if written.length ≤ n then .ok () else .error .brokenPipe,
                { c with
                  stream := some
                    { stream with
                      outgoing := stream.outgoing ++ written.take n
                      breaksAfter := some (n - written.length) } })) ∧
      ∀ (r : MessageReassembler) (data : List UInt8) (now : ℕ), 14 ≤ data.length →
        r.receiveWifi data now = r.receiveBle data now := by
  refine ⟨fun f => decodeChunk_encodeChunk, fun data f => encodeChunk_of_decodeChunk, ?_, ?_⟩
  · intro rmp c messageId msg bytes stream hstate hbytes hstream written
    have hsend : c.send rmp messageId msg =
        ((sendFrames stream (c.chunker.chunk messageId bytes)).1,
          { c with stream := some (sendFrames stream (c.chunker.chunk messageId bytes)).2 }) := by
      unfold WifiDirectConnection.send
      rw [if_neg (not_not_intro hstate), hbytes, hstream]
    refine ⟨fun hopen => ?_, fun n hbreaks => ?_⟩
    · rw [hsend, sendFrames_eq stream hopen]
      rfl
    · rw [hsend, sendFrames_of_breaksAfter stream hbreaks]
      rfl
  · intro r data now hlength
    exact r.receiveWifi_eq_receiveBle hlength now

/-- A chunk of three bytes, the frame of a handshake, and the bytes of a chunk that says it has
more. -/
theorem one_chunk_format_sample :
    let handshake : ProtocolMessage := .handshake (List.Vector.replicate 32 1)
    decodeChunk (encodeChunk ⟨7, 3, 0, 3, [1, 2, 3]⟩) = some ⟨7, 3, 0, 3, [1, 2, 3]⟩ ∧
      ((WifiDirectConnection.fromStream .opened).send rmpSerde 7 handshake).2.stream.map
          TcpStream.outgoing =
        some ([61, 0, 0, 0] ++ [7, 0, 0, 0] ++ [47, 0, 0, 0] ++ [0, 0, 0, 0] ++ [47, 0] ++
          handshake.toBytes) ∧
      MessageReassembler.new.receiveWifi (encodeChunk ⟨7, 3, 0, 9, [1, 2, 3]⟩) 0 =
        MessageReassembler.new.receiveBle (encodeChunk ⟨7, 3, 0, 9, [1, 2, 3]⟩) 0 := by
  intro handshake
  obtain ⟨hround, -, hwrite, hreceive⟩ := one_chunk_format
  refine ⟨hround _ rfl, ?_, hreceive _ _ 0 (by decide)⟩
  rw [(hwrite rmpSerde (.fromStream .opened) 7 handshake handshake.toBytes .opened rfl rfl rfl).1
    rfl]
  decide +kernel

end StellarConduit
