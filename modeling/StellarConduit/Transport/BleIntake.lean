import StellarConduit.Transport.Ble
import StellarConduit.Transport.ChunkCodec
import StellarConduit.Transport.Polling
import StellarConduit.Transport.Reassembly

/-!
# Messages over BLE

`ingest_chunk_bytes` of `BlePeripheral` and `ingest_notification_bytes` of `BleCentral`, of
`transport/ble_transport.rs`: chunks that come in are reassembled, and a message that is complete is
put into the inbox of its connection, from which `recv` takes it.

* `BleEnd.step`: the calls on one end of a connection, as a machine;
* `completions`: the messages that the chunks have completed, one after another, and
  `mem_completions_iff`, which ones these are;
* `ble_delivers`: the chunks of any messages come in, in any order, any number of times and among
  malformed data.  What is received and what is waiting are the messages that were completed, except
  for those that found the inbox full.
-/

namespace StellarConduit

open Verif Verif.Machine

/-- `BLE_ATT_MTU` -/
def bleAttMtu : ℕ := 244

/-- The capacity of the channel between the two ends of an inbox. -/
def inboxCapacity : ℕ := 64

namespace BleLink

/-- The chunks of a message, as `send` encodes them. -/
def chunks (rmp : RmpSerde) (messageId : UInt32) (msg : ProtocolMessage) : List ChunkFrame :=
  match rmp.toVec msg with
  | none => []
  | some bytes => (MessageChunker.mk bleAttMtu).chunk messageId bytes

/-- The body of `ingest_chunk_bytes` and of `ingest_notification_bytes`.  A message waits for room
in the inbox, and is lost when the call is dropped meanwhile. -/
def ingest (link : BleLink) (reassembler : MessageReassembler) (data : List UInt8) (now : ℕ) :
    Awaited Unit × BleLink × MessageReassembler :=
  match decodeChunk data with
  | none => (.err .brokenPipe, link, reassembler)
  | some frame =>
    match reassembler.receiveChunk frame now with
    | .error panic => (.panic panic, link, reassembler)
    | .ok (none, reassembler) => (.ok (), link, reassembler)
    | .ok (some bytes, reassembler) =>
      if link.inbox.length < inboxCapacity then
        (.ok (), { link with inbox := link.inbox ++ [bytes] }, reassembler)
      else (.pending, link, reassembler)

end BleLink

namespace BlePeripheral

/-- The reassembler of a peripheral stands beside it. -/
def ingestChunkBytes (p : BlePeripheral) (reassembler : MessageReassembler) (data : List UInt8)
    (now : ℕ) : Awaited Unit × BlePeripheral × MessageReassembler :=
  let (answer, link, reassembler) := p.toBleLink.ingest reassembler data now
  (answer, ⟨link⟩, reassembler)

def disconnect (p : BlePeripheral) : Except TransportError Unit × BlePeripheral :=
  (.ok (), { p with state := .disconnected })

end BlePeripheral

namespace BleCentral

def ingestNotificationBytes (c : BleCentral) (reassembler : MessageReassembler)
    (data : List UInt8) (now : ℕ) : Awaited Unit × BleCentral × MessageReassembler :=
  let (answer, link, reassembler) := c.toBleLink.ingest reassembler data now
  (answer, { c with toBleLink := link }, reassembler)

def disconnect (c : BleCentral) : Except TransportError Unit × BleCentral :=
  (.ok (), { c with state := .disconnected })

end BleCentral

/-! ### One end of a connection -/

/-- A connection, with the reassembler of the chunks that come in on it. -/
structure BleEnd where
  connection : BleConnection
  reassembler : MessageReassembler

inductive BleCall
  | ingest (data : List UInt8) (now : ℕ)
  | recv
  | send (msg : ProtocolMessage)
  | connect
  | disconnect

inductive BleAnswer
  | ingested (answer : Awaited Unit)
  | received (answer : Awaited ProtocolMessage)
  | sent (answer : Awaited Unit)
  | switched (answer : Except TransportError Unit)

namespace BleEnd

/-- The messages that are waiting to be received. -/
def inbox (s : BleEnd) : List (List UInt8) := s.connection.link.inbox

def step (rmp : RmpSerde) (s : BleEnd) : BleCall → BleAnswer × BleEnd
  | .ingest data now =>
    match s.connection with
    | .inl p =>
      let (answer, p, reassembler) := p.ingestChunkBytes s.reassembler data now
      (.ingested answer, ⟨.inl p, reassembler⟩)
    | .inr c =>
      let (answer, c, reassembler) := c.ingestNotificationBytes s.reassembler data now
      (.ingested answer, ⟨.inr c, reassembler⟩)
  | .recv =>
    let (answer, connection, ()) := (bleApi rmp).recv s.connection ()
    (.received answer, { s with connection := connection })
  | .send msg =>
    let (answer, connection, ()) := (bleApi rmp).send s.connection msg ()
    (.sent answer, { s with connection := connection })
  | .connect =>
    match s.connection with
    | .inl p =>
      let (answer, p) := p.startAdvertising
      (.switched answer, { s with connection := .inl p })
    | .inr c =>
      let (answer, c) := c.connect rmp
      (.switched answer, { s with connection := .inr c })
  | .disconnect =>
    match s.connection with
    | .inl p =>
      let (answer, p) := p.disconnect
      (.switched answer, { s with connection := .inl p })
    | .inr c =>
      let (answer, c) := c.disconnect
      (.switched answer, { s with connection := .inr c })

variable (rmp : RmpSerde) (s : BleEnd)

/-! ### What one call does -/

theorem step_ingest (data : List UInt8) (now : ℕ) :
    let out := s.connection.link.ingest s.reassembler data now
    (s.step rmp (.ingest data now)).1 = .ingested out.1 ∧
      (s.step rmp (.ingest data now)).2.inbox = out.2.1.inbox ∧
      (s.step rmp (.ingest data now)).2.reassembler = out.2.2 := by
  obtain ⟨connection, reassembler⟩ := s
  cases connection <;> exact ⟨rfl, rfl, rfl⟩

theorem step_recv :
    let out := s.connection.link.recv rmp
    (s.step rmp .recv).1 = .received out.1 ∧ (s.step rmp .recv).2.inbox = out.2.inbox ∧
      (s.step rmp .recv).2.reassembler = s.reassembler := by
  obtain ⟨connection, reassembler⟩ := s
  cases connection <;> exact ⟨rfl, rfl, rfl⟩

/-- The other calls leave the inbox and the reassembler alone, and receive nothing. -/
theorem step_other (call : BleCall) (hingest : ∀ data now, call ≠ .ingest data now)
    (hrecv : call ≠ .recv) :
    (s.step rmp call).2.inbox = s.inbox ∧ (s.step rmp call).2.reassembler = s.reassembler ∧
      ((∃ answer, (s.step rmp call).1 = .sent answer) ∨
        ∃ answer, (s.step rmp call).1 = .switched answer) := by
  obtain ⟨connection, reassembler⟩ := s
  cases call with
  | ingest data now => exact absurd rfl (hingest data now)
  | recv => exact absurd rfl hrecv
  | send msg => cases connection <;> exact ⟨rfl, rfl, .inl ⟨_, rfl⟩⟩
  | disconnect => cases connection <;> exact ⟨rfl, rfl, .inr ⟨_, rfl⟩⟩
  | connect =>
    cases connection with
    | inl p => exact ⟨rfl, rfl, .inr ⟨_, rfl⟩⟩
    | inr c =>
      unfold step BleCentral.connect BleCentral.scanAndConnect
      dsimp only
      cases rmp.toVec (.handshake c.localPeer.pubkey) <;> exact ⟨rfl, rfl, .inr ⟨_, rfl⟩⟩

end BleEnd

/-- What a call hands on to the reassembler. -/
def BleCall.chunkInputs : BleCall → List ReassemblerInput
  | .ingest data now => ((decodeChunk data).map fun frame => .chunk frame now).toList
  | _ => []

/-- What a list of calls hands on to the reassembler. -/
def chunkInputs (calls : List BleCall) : List ReassemblerInput := calls.flatMap BleCall.chunkInputs

/-- The reassembler takes the chunks that come in, and nothing else. -/
theorem BleEnd.reassembler_exec (rmp : RmpSerde) (s : BleEnd) (calls : List BleCall) :
    (exec (BleEnd.step rmp) s calls).reassembler =
      exec MessageReassembler.step s.reassembler (chunkInputs calls) := by
  refine exec_component (fun s call => ?_) s calls
  cases call with
  | ingest data now =>
    rw [(s.step_ingest rmp data now).2.2]
    unfold BleLink.ingest BleCall.chunkInputs
    dsimp only
    cases decodeChunk data with
    | none => rfl
    | some frame =>
      show _ = (s.reassembler.step (.chunk frame now)).2
      unfold MessageReassembler.step
      dsimp only
      cases hreceive : s.reassembler.receiveChunk frame now with
      | error panic => rfl
      | ok out =>
        obtain ⟨message, reassembler⟩ := out
        cases message with
        | none => rfl
        | some bytes =>
          dsimp only
          split_ifs <;> rfl
  | recv => exact (s.step_recv rmp).2.2
  | send | connect | disconnect => exact (s.step_other rmp _ (by simp) (by simp)).2.1

/-! ### Completed messages -/

/-- The chunks of an id that have come in. -/
def arrivals (id : UInt32) (calls : List BleCall) : List ChunkFrame :=
  deliveries id (chunkInputs calls)

theorem mem_chunkInputs {calls : List BleCall} {i : ReassemblerInput}
    (h : i ∈ chunkInputs calls) :
    ∃ data now frame, .ingest data now ∈ calls ∧ decodeChunk data = some frame ∧
      i = .chunk frame now := by
  obtain ⟨call, hcall, hi⟩ := List.mem_flatMap.1 h
  cases call with
  | ingest data now =>
    obtain ⟨frame, hdecode, rfl⟩ := Option.map_eq_some_iff.1 (Option.mem_toList.1 hi)
    exact ⟨data, now, frame, hcall, hdecode, rfl⟩
  | recv | send | connect | disconnect => cases hi

theorem mem_arrivals {id : UInt32} {calls : List BleCall} {frame : ChunkFrame}
    (h : frame ∈ arrivals id calls) :
    ∃ data now, .ingest data now ∈ calls ∧ decodeChunk data = some frame ∧
      frame.messageId = id := by
  obtain ⟨i, hi, hframe⟩ := List.mem_filterMap.1 h
  obtain ⟨data, now, arrived, hcall, hdecode, rfl⟩ := mem_chunkInputs hi
  dsimp only at hframe
  split_ifs at hframe with hid
  obtain rfl := Option.some.inj hframe
  exact ⟨data, now, hcall, hdecode, hid⟩

theorem arrivals_concat (id : UInt32) (calls : List BleCall) (call : BleCall) :
    arrivals id (calls ++ [call]) = arrivals id calls ++ arrivals id [call] := by
  unfold arrivals chunkInputs
  rw [List.flatMap_append, deliveries_append]

theorem arrivals_ingest {data : List UInt8} {frame : ChunkFrame}
    (hdecode : decodeChunk data = some frame) (now : ℕ) :
    chunkInputs [.ingest data now] = [.chunk frame now] ∧
      arrivals frame.messageId [.ingest data now] = [frame] := by
  have hinputs : chunkInputs [.ingest data now] = [.chunk frame now] := by
    unfold chunkInputs
    rw [List.flatMap_singleton, BleCall.chunkInputs, hdecode]
    rfl
  refine ⟨hinputs, ?_⟩
  rw [arrivals, hinputs]
  exact deliveries_chunk_self frame now

section Completions

variable (rmp : RmpSerde) (outbox : HashMap UInt32 ProtocolMessage)

/-- The message that a call completes, after the calls before it. -/
def BleCall.completes (before : List BleCall) : BleCall → Option ProtocolMessage
  | .ingest data _ =>
    (decodeChunk data).bind fun frame =>
      (outbox.lookup frame.messageId).filter fun msg =>
        let frames := BleLink.chunks rmp frame.messageId msg
        decide (Completes frames (pending frames (arrivals frame.messageId before)) frame)
  | _ => none

/-- The messages that the calls complete, after the calls before them. -/
def completionsFrom (before : List BleCall) : List BleCall → List ProtocolMessage
  | [] => []
  | call :: calls =>
    (call.completes rmp outbox before).toList ++ completionsFrom (before ++ [call]) calls

/-- The messages that the calls complete, one after another. -/
def completions (calls : List BleCall) : List ProtocolMessage := completionsFrom rmp outbox [] calls

theorem completionsFrom_concat (before calls : List BleCall) (call : BleCall) :
    completionsFrom rmp outbox before (calls ++ [call]) =
      completionsFrom rmp outbox before calls ++
        (call.completes rmp outbox (before ++ calls)).toList := by
  induction calls generalizing before with
  | nil =>
    rw [List.append_nil]
    exact List.append_nil _
  | cons first calls ih =>
    rw [List.cons_append, completionsFrom, ih, completionsFrom, List.append_assoc,
      List.append_assoc, List.singleton_append]

theorem completions_concat (calls : List BleCall) (call : BleCall) :
    completions rmp outbox (calls ++ [call]) =
      completions rmp outbox calls ++ (call.completes rmp outbox calls).toList :=
  completionsFrom_concat rmp outbox [] calls call

variable {rmp outbox}

theorem completes_eq_some_iff {before : List BleCall} {call : BleCall} {msg : ProtocolMessage} :
    call.completes rmp outbox before = some msg ↔
      ∃ data now frame, call = .ingest data now ∧ decodeChunk data = some frame ∧
        outbox.lookup frame.messageId = some msg ∧
        Completes (BleLink.chunks rmp frame.messageId msg)
          (pending (BleLink.chunks rmp frame.messageId msg) (arrivals frame.messageId before))
          frame := by
  cases call with
  | ingest data now =>
    unfold BleCall.completes
    dsimp only
    rw [Option.bind_eq_some_iff]
    constructor
    · rintro ⟨frame, hdecode, hfilter⟩
      obtain ⟨hlookup, hcompletes⟩ := Option.filter_eq_some_iff.1 hfilter
      exact ⟨data, now, frame, rfl, hdecode, hlookup, of_decide_eq_true hcompletes⟩
    · rintro ⟨data, now, frame, ⟨rfl, rfl⟩, hdecode, hlookup, hcompletes⟩
      exact ⟨frame, hdecode, Option.filter_eq_some_iff.2 ⟨hlookup, decide_eq_true hcompletes⟩⟩
  | recv | send | connect | disconnect => simp [BleCall.completes]

/-- **Which messages are completed.**  Those all of whose chunks have come in. -/
theorem mem_completions_iff (hne : ∀ id, ∀ msg ∈ outbox.lookup id, BleLink.chunks rmp id msg ≠ [])
    {calls : List BleCall} {msg : ProtocolMessage} :
    msg ∈ completions rmp outbox calls ↔
      ∃ id, outbox.lookup id = some msg ∧
        ∀ frame ∈ BleLink.chunks rmp id msg, frame ∈ arrivals id calls := by
  induction calls using List.reverseRecOn with
  | nil =>
    constructor
    · intro h
      cases h
    · rintro ⟨id, hlookup, hall⟩
      exact absurd (List.eq_nil_iff_forall_not_mem.2 fun frame hframe =>
        List.not_mem_nil (hall frame hframe)) (hne id msg hlookup)
  | append_singleton calls call ih =>
    rw [completions_concat, List.mem_append, ih, Option.mem_toList, completes_eq_some_iff]
    constructor
    · rintro (⟨id, hlookup, hall⟩ | ⟨data, now, frame, rfl, hdecode, hlookup, hcompletes⟩)
      · refine ⟨id, hlookup, fun frame hframe => ?_⟩
        rw [arrivals_concat]
        exact List.mem_append_left _ (hall frame hframe)
      · refine ⟨frame.messageId, hlookup, fun f hf => ?_⟩
        rw [arrivals_concat, (arrivals_ingest hdecode _).2]
        rcases List.mem_append.1 (hcompletes f hf) with hpending | hlast
        · exact List.mem_append_left _ (pending_subset _ _ hpending)
        · exact List.mem_append_right _ hlast
    · rintro ⟨id, hlookup, hall⟩
      by_cases hbefore : ∀ frame ∈ BleLink.chunks rmp id msg, frame ∈ arrivals id calls
      · exact .inl ⟨id, hlookup, hbefore⟩
      · -- The call brings the last chunk that was missing.
        right
        have hmissing := hbefore
        push Not at hmissing
        obtain ⟨missing, hchunk, hnew⟩ := hmissing
        have hlast := hall missing hchunk
        rw [arrivals_concat] at hlast
        obtain ⟨data, now, hcall, hdecode, rfl⟩ :=
          mem_arrivals ((List.mem_append.1 hlast).resolve_left hnew)
        obtain rfl := List.mem_singleton.1 hcall
        refine ⟨data, now, missing, rfl, hdecode, hlookup, ?_⟩
        rw [pending_of_incomplete hbefore]
        intro f hf
        have harrived := hall f hf
        rwa [arrivals_concat, (arrivals_ingest hdecode now).2] at harrived

end Completions

/-! ### What is received -/

section Ingest

variable (link : BleLink) {reassembler : MessageReassembler} {data : List UInt8}
  {frame : ChunkFrame} {now : ℕ} (hdecode : decodeChunk data = some frame)

include hdecode

theorem ingest_of_incomplete (hanswer : (reassembler.step (.chunk frame now)).1 = .ok none) :
    (link.ingest reassembler data now).1 = .ok () ∧
      (link.ingest reassembler data now).2.1.inbox = link.inbox := by
  unfold MessageReassembler.step at hanswer
  dsimp only at hanswer
  unfold BleLink.ingest
  rw [hdecode]
  dsimp only
  cases hreceive : reassembler.receiveChunk frame now with
  | error panic =>
    rw [hreceive] at hanswer
    cases hanswer
  | ok out =>
    rw [hreceive] at hanswer
    obtain ⟨message, after⟩ := out
    obtain rfl : message = none := Except.ok.inj hanswer
    exact ⟨rfl, rfl⟩

theorem ingest_of_complete {bytes : List UInt8}
    (hanswer : (reassembler.step (.chunk frame now)).1 = .ok (some bytes)) :
    if link.inbox.length < inboxCapacity then
      (link.ingest reassembler data now).1 = .ok () ∧
        (link.ingest reassembler data now).2.1.inbox = link.inbox ++ [bytes]
    else (link.ingest reassembler data now).1 = .pending ∧
      (link.ingest reassembler data now).2.1.inbox = link.inbox := by
  unfold MessageReassembler.step at hanswer
  dsimp only at hanswer
  unfold BleLink.ingest
  rw [hdecode]
  dsimp only
  cases hreceive : reassembler.receiveChunk frame now with
  | error panic =>
    rw [hreceive] at hanswer
    cases hanswer
  | ok out =>
    rw [hreceive] at hanswer
    obtain ⟨message, after⟩ := out
    obtain rfl : message = some bytes := Except.ok.inj hanswer
    dsimp only
    split_ifs <;> exact ⟨rfl, rfl⟩

end Ingest

/-- The message that a call has received. -/
def receivedOver (e : Event BleEnd BleCall BleAnswer) : Option ProtocolMessage :=
  match e.output with
  | .received (.ok msg) => some msg
  | _ => none

/-- The messages that a run has received. -/
def receivedIn (rmp : RmpSerde) (s : BleEnd) (calls : List BleCall) : List ProtocolMessage :=
  (trace (BleEnd.step rmp) s calls).filterMap receivedOver

/-- What comes in are chunks of the messages in the outbox, and malformed data. -/
def ChunksOf (rmp : RmpSerde) (outbox : HashMap UInt32 ProtocolMessage) (calls : List BleCall) :
    Prop :=
  ∀ data now frame, .ingest data now ∈ calls → decodeChunk data = some frame →
    ∃ msg ∈ outbox.lookup frame.messageId, frame ∈ BleLink.chunks rmp frame.messageId msg

section Delivery

variable {rmp : RmpSerde} {outbox : HashMap UInt32 ProtocolMessage}
  (hfits : ∀ id, ∀ msg ∈ outbox.lookup id, Fits rmp msg)

include hfits

theorem chunks_ne_nil : ∀ id, ∀ msg ∈ outbox.lookup id, BleLink.chunks rmp id msg ≠ [] := by
  intro id msg hmsg
  obtain ⟨bytes, hbytes, hne, hle⟩ := hfits id msg hmsg
  unfold BleLink.chunks
  rw [Option.mem_def.1 hbytes]
  intro hnil
  rcases (MessageChunker.chunk_eq_nil_iff (by decide)).1 hnil with hempty | hlong
  · exact hne hempty
  · omega

/-- **One chunk.**  The reassembler answers with the message that it completes. -/
theorem answer_chunk {calls : List BleCall} {data : List UInt8} {now : ℕ} {frame : ChunkFrame}
    (hchunks : ChunksOf rmp outbox (calls ++ [.ingest data now]))
    (hdecode : decodeChunk data = some frame) :
    ((exec MessageReassembler.step .new (chunkInputs calls)).step (.chunk frame now)).1 =
      .ok ((BleCall.completes rmp outbox calls (.ingest data now)).bind rmp.toVec) := by
  obtain ⟨msg, hlookup, hframe⟩ := hchunks data now frame (by simp) hdecode
  obtain ⟨bytes, hbytes, hne, hle⟩ := hfits frame.messageId msg hlookup
  have hframes : BleLink.chunks rmp frame.messageId msg =
      (MessageChunker.mk bleAttMtu).chunk frame.messageId bytes := by
    unfold BleLink.chunks
    rw [Option.mem_def.1 hbytes]
  have hinputs : chunkInputs (calls ++ [.ingest data now]) =
      chunkInputs calls ++ [.chunk frame now] := by
    rw [← (arrivals_ingest hdecode now).1]
    exact List.flatMap_append
  -- Among what has come in, the chunks of this id are those of the message.
  have hdelivered : ∀ f ∈ deliveries frame.messageId (chunkInputs (calls ++ [.ingest data now])),
      f ∈ (MessageChunker.mk bleAttMtu).chunk frame.messageId bytes := by
    intro f hf
    obtain ⟨data', now', hcall, hdecode', hid⟩ := mem_arrivals hf
    obtain ⟨msg', hlookup', hf'⟩ := hchunks data' now' f hcall hdecode'
    rw [hid, Option.mem_def.1 hlookup] at hlookup'
    obtain rfl := Option.some.inj hlookup'
    rwa [hid, hframes] at hf'
  have htimely : Timely frame.messageId .new (chunkInputs (calls ++ [.ingest data now])) := by
    intro pre timeoutMs now' post hsplit
    obtain ⟨_, _, _, -, -, hcleanup⟩ := mem_chunkInputs
      (hsplit ▸ List.mem_append_right pre List.mem_cons_self)
    cases hcleanup
  obtain ⟨slot, hslot, hholds⟩ := exists_holds hne hle (c := ⟨bleAttMtu⟩) (by decide)
    (r := .new) rfl hdelivered htimely (chunkInputs calls) (hinputs ▸ List.prefix_append _ _)
  have hpending : ∀ f ∈ pending ((MessageChunker.mk bleAttMtu).chunk frame.messageId bytes)
      (deliveries frame.messageId (chunkInputs calls)),
      f ∈ (MessageChunker.mk bleAttMtu).chunk frame.messageId bytes := by
    intro f hf
    refine hdelivered f ?_
    rw [hinputs, deliveries_append]
    exact List.mem_append_left _ (pending_subset _ _ hf)
  rw [(MessageReassembler.step_spec hslot (i := .chunk frame now) rfl).1,
    (collect_frame hne hle (by decide) hholds (hframes ▸ hframe) hpending now).1, ← hframes]
  unfold BleCall.completes arrivals
  dsimp only
  rw [hdecode, Option.bind_some, Option.mem_def.1 hlookup, Option.filter_some]
  simp only [decide_eq_true_eq]
  split_ifs
  · exact congrArg Except.ok (Option.mem_def.1 hbytes).symm
  · rfl

end Delivery

/-- The messages that wait in the inbox, and what was received before them, in order. -/
structure Delivered (rmp : RmpSerde) (outbox : HashMap UInt32 ProtocolMessage) (s : BleEnd)
    (calls : List BleCall) (waiting : List ProtocolMessage) : Prop where
  inbox_eq : (exec (BleEnd.step rmp) s calls).inbox.map some = waiting.map rmp.toVec
  length_le : waiting.length ≤ inboxCapacity
  sublist : (receivedIn rmp s calls ++ waiting).Sublist (completions rmp outbox calls)
  eq : (∀ e ∈ trace (BleEnd.step rmp) s calls, e.output ≠ .ingested .pending) →
    receivedIn rmp s calls ++ waiting = completions rmp outbox calls
  full : ∀ e ∈ trace (BleEnd.step rmp) s calls, e.output = .ingested .pending →
    e.before.inbox.length = inboxCapacity

namespace Delivered

variable {rmp : RmpSerde} {outbox : HashMap UInt32 ProtocolMessage} {s : BleEnd}
  {calls : List BleCall} {waiting : List ProtocolMessage}

theorem length_inbox (h : Delivered rmp outbox s calls waiting) :
    (exec (BleEnd.step rmp) s calls).inbox.length = waiting.length := by
  have hlength := congrArg List.length h.inbox_eq
  rwa [List.length_map, List.length_map] at hlength

theorem receivedIn_concat (rmp : RmpSerde) (s : BleEnd) (calls : List BleCall) (call : BleCall) :
    receivedIn rmp s (calls ++ [call]) = receivedIn rmp s calls ++
      (receivedOver ⟨exec (BleEnd.step rmp) s calls, call,
        ((exec (BleEnd.step rmp) s calls).step rmp call).1⟩).toList := by
  unfold receivedIn
  rw [trace_append, List.filterMap_append, trace_cons, trace_nil]
  congr 1

/-- One more call.  The inbox takes what the call completes, unless it is full and the call is left
waiting. -/
theorem step (h : Delivered rmp outbox s calls waiting) {call : BleCall}
    {waiting' : List ProtocolMessage} (stored : List ProtocolMessage)
    (hinbox : ((exec (BleEnd.step rmp) s calls).step rmp call).2.inbox.map some =
      waiting'.map rmp.toVec)
    (hlength : waiting'.length ≤ inboxCapacity)
    (hqueue : waiting ++ stored =
      (receivedOver ⟨exec (BleEnd.step rmp) s calls, call,
        ((exec (BleEnd.step rmp) s calls).step rmp call).1⟩).toList ++ waiting')
    (hstored : ((exec (BleEnd.step rmp) s calls).step rmp call).1 ≠ .ingested .pending ∧
        stored = (call.completes rmp outbox calls).toList ∨
      ((exec (BleEnd.step rmp) s calls).step rmp call).1 = .ingested .pending ∧
        stored = [] ∧ waiting.length = inboxCapacity) :
    Delivered rmp outbox s (calls ++ [call]) waiting' := by
  have hreceived : receivedIn rmp s (calls ++ [call]) ++ waiting' =
      (receivedIn rmp s calls ++ waiting) ++ stored := by
    rw [receivedIn_concat, List.append_assoc, ← hqueue, List.append_assoc]
  have hlast : trace (BleEnd.step rmp) s (calls ++ [call]) = trace (BleEnd.step rmp) s calls ++
      [⟨exec (BleEnd.step rmp) s calls, call,
        ((exec (BleEnd.step rmp) s calls).step rmp call).1⟩] := trace_append _ _ _ _
  refine ⟨?_, hlength, ?_, fun hnone => ?_, fun e he hpending => ?_⟩
  · rw [exec_concat]
    exact hinbox
  · rw [hreceived, completions_concat]
    refine h.sublist.append ?_
    rcases hstored with ⟨-, rfl⟩ | ⟨-, rfl, -⟩
    · exact List.Sublist.refl _
    · exact List.nil_sublist _
  · rw [hlast, List.forall_mem_append] at hnone
    have hdone := hnone.2 _ List.mem_cons_self
    rcases hstored with ⟨-, rfl⟩ | ⟨hpending, -⟩
    · rw [hreceived, completions_concat, h.eq hnone.1]
    · exact absurd hpending hdone
  · rw [hlast] at he
    rcases List.mem_append.1 he with he | he
    · exact h.full e he hpending
    · obtain rfl := List.mem_singleton.1 he
      rcases hstored with ⟨hdone, -⟩ | ⟨-, -, hfull⟩
      · exact absurd hpending hdone
      · exact h.length_inbox.trans hfull

end Delivered

section Runs

variable {rmp : RmpSerde} {outbox : HashMap UInt32 ProtocolMessage} {s : BleEnd}
  {calls : List BleCall} {waiting : List ProtocolMessage}

/-- Data comes in. -/
theorem Delivered.ingest (hfits : ∀ id, ∀ msg ∈ outbox.lookup id, Fits rmp msg)
    (hs : s.reassembler = .new) {data : List UInt8} {now : ℕ}
    (hchunks : ChunksOf rmp outbox (calls ++ [.ingest data now]))
    (h : Delivered rmp outbox s calls waiting) :
    ∃ waiting', Delivered rmp outbox s (calls ++ [.ingest data now]) waiting' := by
  obtain ⟨hanswer, hinbox, -⟩ := (exec (BleEnd.step rmp) s calls).step_ingest rmp data now
  cases hdecode : decodeChunk data with
  | none =>
    have hnone : BleCall.completes rmp outbox calls (.ingest data now) = none := by
      unfold BleCall.completes
      dsimp only
      rw [hdecode]
      rfl
    unfold BleLink.ingest at hanswer hinbox
    rw [hdecode] at hanswer hinbox
    refine ⟨waiting, h.step [] ?_ h.length_le ?_ (.inl ⟨?_, ?_⟩)⟩
    · rw [hinbox]
      exact h.inbox_eq
    · rw [hanswer, List.append_nil]
      rfl
    · rw [hanswer]
      simp
    · rw [hnone]
      rfl
  | some frame =>
    have hchunk := answer_chunk hfits hchunks hdecode
    rw [← hs, ← BleEnd.reassembler_exec rmp s calls] at hchunk
    cases hcompletes : BleCall.completes rmp outbox calls (.ingest data now) with
    | none =>
      rw [hcompletes] at hchunk
      have hingest := ingest_of_incomplete
        (exec (BleEnd.step rmp) s calls).connection.link hdecode hchunk
      refine ⟨waiting, h.step [] ?_ h.length_le ?_ (.inl ⟨?_, ?_⟩)⟩
      · rw [hinbox, hingest.2]
        exact h.inbox_eq
      · rw [hanswer, hingest.1, List.append_nil]
        rfl
      · rw [hanswer, hingest.1]
        simp
      · rw [hcompletes]
        rfl
    | some msg =>
      obtain ⟨_, _, _, _, -, hlookup, -⟩ := completes_eq_some_iff.1 hcompletes
      obtain ⟨bytes, hbytes, -⟩ := hfits _ msg hlookup
      rw [hcompletes, Option.bind_some, Option.mem_def.1 hbytes] at hchunk
      have hingest := ingest_of_complete
        (exec (BleEnd.step rmp) s calls).connection.link hdecode hchunk
      have hlength := h.length_inbox
      unfold BleEnd.inbox at hlength
      rw [hlength] at hingest
      split_ifs at hingest with hroom
      · -- The message goes to the back of the inbox.
        refine ⟨waiting ++ [msg], h.step [msg] ?_ ?_ ?_ (.inl ⟨?_, ?_⟩)⟩
        · rw [hinbox, hingest.2, List.map_append, List.map_append, ← h.inbox_eq]
          exact congrArg _ (congrArg (fun b => [b]) (Option.mem_def.1 hbytes).symm)
        · rw [List.length_append]
          exact hroom
        · rw [hanswer, hingest.1]
          rfl
        · rw [hanswer, hingest.1]
          simp
        · rw [hcompletes]
          rfl
      · -- There is no room, and the call is left waiting.
        refine ⟨waiting, h.step [] ?_ h.length_le ?_ (.inr ⟨?_, rfl, ?_⟩)⟩
        · rw [hinbox, hingest.2]
          exact h.inbox_eq
        · rw [hanswer, hingest.1, List.append_nil]
          rfl
        · rw [hanswer, hingest.1]
        · exact Nat.le_antisymm h.length_le (Nat.le_of_not_lt hroom)

/-- A message is taken out of the inbox, if the end is connected and there is one. -/
theorem Delivered.recv (h : Delivered rmp outbox s calls waiting)
    (hread : ∀ msg ∈ waiting, ∀ bytes ∈ rmp.toVec msg, rmp.fromSlice bytes = some msg) :
    ∃ waiting', Delivered rmp outbox s (calls ++ [.recv]) waiting' := by
  obtain ⟨hanswer, hinbox, -⟩ := (exec (BleEnd.step rmp) s calls).step_recv rmp
  have heq := h.inbox_eq
  unfold BleEnd.inbox at heq
  unfold BleLink.recv at hanswer hinbox
  by_cases hstate : (exec (BleEnd.step rmp) s calls).connection.link.state ≠ .connected
  · rw [if_pos hstate] at hanswer hinbox
    refine ⟨waiting, h.step [] ?_ h.length_le ?_ (.inl ⟨?_, rfl⟩)⟩
    · rw [hinbox]
      exact heq
    · rw [hanswer, List.append_nil]
      rfl
    · rw [hanswer]
      simp
  · rw [if_neg hstate] at hanswer hinbox
    match hlist : (exec (BleEnd.step rmp) s calls).connection.link.inbox, waiting, heq, hread with
    | [], [], _, _ =>
      rw [hlist] at hanswer hinbox
      refine ⟨[], h.step [] ?_ h.length_le ?_ (.inl ⟨?_, rfl⟩)⟩
      · rw [hinbox, hlist]
        rfl
      · rw [hanswer]
        rfl
      · rw [hanswer]
        simp
    | bytes :: inbox, msg :: waiting, heq, hread =>
      rw [List.map_cons, List.map_cons, List.cons.injEq] at heq
      rw [hlist] at hanswer hinbox
      have hmsg := hread msg List.mem_cons_self bytes heq.1.symm
      dsimp only at hanswer hinbox
      rw [hmsg] at hanswer hinbox
      refine ⟨waiting, h.step [] ?_ ?_ ?_ (.inl ⟨?_, rfl⟩)⟩
      · rw [hinbox]
        exact heq.2
      · exact Nat.le_of_succ_le h.length_le
      · rw [hanswer, List.append_nil]
        rfl
      · rw [hanswer]
        simp

theorem exists_delivered (hfits : ∀ id, ∀ msg ∈ outbox.lookup id, Fits rmp msg)
    (hread : ∀ id, ∀ msg ∈ outbox.lookup id, ∀ bytes ∈ rmp.toVec msg,
      rmp.fromSlice bytes = some msg)
    (hs : s.reassembler = .new)
    (hinbox : s.inbox = []) (hchunks : ChunksOf rmp outbox calls) :
    ∃ waiting, Delivered rmp outbox s calls waiting := by
  induction calls using List.reverseRecOn with
  | nil =>
    refine ⟨[], ?_, Nat.zero_le _, List.Sublist.refl _, fun _ => rfl, fun e he => by cases he⟩
    rw [exec_nil, hinbox]
    rfl
  | append_singleton calls call ih =>
    obtain ⟨waiting, h⟩ := ih fun data now frame hcall =>
      hchunks data now frame (List.mem_append_left _ hcall)
    have hother := (exec (BleEnd.step rmp) s calls).step_other rmp call
    cases call with
    | ingest data now => exact h.ingest hfits hs hchunks
    | recv =>
      refine h.recv fun msg hmsg => ?_
      have hcompleted := h.sublist.subset (List.mem_append_right _ hmsg)
      obtain ⟨id, hlookup, -⟩ := (mem_completions_iff (chunks_ne_nil hfits)).1 hcompleted
      exact hread id msg hlookup
    | send | connect | disconnect =>
      obtain ⟨hinbox', -, hanswers⟩ := hother (by simp) (by simp)
      refine ⟨waiting, h.step [] (hinbox' ▸ h.inbox_eq) h.length_le ?_
        (.inl ⟨?_, rfl⟩)⟩
      · rw [List.append_nil]
        rcases hanswers with ⟨answer, hanswer⟩ | ⟨answer, hanswer⟩ <;> rw [hanswer] <;> rfl
      · rcases hanswers with ⟨answer, hanswer⟩ | ⟨answer, hanswer⟩ <;> rw [hanswer] <;> simp

end Runs

/-- **What is received was sent.**  Chunks of any messages come in on one end of a connection, in
any order, any number of times, among malformed data and other calls.  The messages that are
received and those that are still in the inbox are, in order, among the messages that were
completed; these are the ones all of whose chunks came in.  A message is lost only when 64 others
wait in the inbox, and its `ingest` is then left waiting. -/
theorem ble_delivers (rmp : RmpSerde) (outbox : HashMap UInt32 ProtocolMessage)
    (hfits : ∀ id, ∀ msg ∈ outbox.lookup id, Fits rmp msg)
    (hread : ∀ id, ∀ msg ∈ outbox.lookup id, ∀ bytes ∈ rmp.toVec msg,
      rmp.fromSlice bytes = some msg)
    (connection : BleConnection) (hinbox : connection.link.inbox = []) (calls : List BleCall)
    (hchunks : ChunksOf rmp outbox calls) :
    let s : BleEnd := ⟨connection, .new⟩
    let completed := completions rmp outbox calls
    (∀ msg, msg ∈ completed ↔ ∃ id, outbox.lookup id = some msg ∧
      ∀ frame ∈ BleLink.chunks rmp id msg, frame ∈ arrivals id calls) ∧
    ∃ waiting, (exec (BleEnd.step rmp) s calls).inbox.map some = waiting.map rmp.toVec ∧
      (receivedIn rmp s calls ++ waiting).Sublist completed ∧
      ((∀ e ∈ trace (BleEnd.step rmp) s calls, e.output ≠ .ingested .pending) →
        receivedIn rmp s calls ++ waiting = completed) ∧
      ∀ e ∈ trace (BleEnd.step rmp) s calls, e.output = .ingested .pending →
        e.before.inbox.length = inboxCapacity := by
  intro s completed
  obtain ⟨waiting, h⟩ := exists_delivered hfits hread (s := s) rfl hinbox hchunks
  exact ⟨fun msg => mem_completions_iff (chunks_ne_nil hfits), waiting, h.inbox_eq, h.sublist, h.eq,
    h.full⟩

/-- The only chunk of a handshake. -/
def handshakeChunk : ChunkFrame := ⟨7, 47, 0, 47, blankHandshakeBytes⟩

/-- A peripheral starts advertising and receives a handshake, after data that is malformed. -/
def advertisingRun : List BleCall :=
  [.connect, .ingest [1, 2] 0, .ingest (encodeChunk handshakeChunk) 1, .recv]

theorem ble_delivers_sample :
    let rmp := soleRmp blankHandshake blankHandshakeBytes
    let outbox : HashMap UInt32 ProtocolMessage := AList.insert 7 blankHandshake ∅
    let s : BleEnd := ⟨.inl (.new sampleRemote), .new⟩
    receivedIn rmp s advertisingRun = [blankHandshake] ∧
      blankHandshake ∈ completions rmp outbox advertisingRun := by
  intro rmp outbox s
  have hreceived : receivedIn rmp s advertisingRun = [blankHandshake] := by decide +kernel
  have hsole : ∀ id, ∀ msg ∈ outbox.lookup id, id = 7 ∧ msg = blankHandshake := by
    intro id msg hmsg
    by_cases hid : id = 7
    · subst hid
      exact ⟨rfl, (Option.some.inj hmsg).symm⟩
    · rw [AList.lookup_insert_ne hid] at hmsg
      cases hmsg
  have hfits : ∀ id, ∀ msg ∈ outbox.lookup id, Fits rmp msg := by
    intro id msg hmsg
    obtain ⟨-, rfl⟩ := hsole id msg hmsg
    exact ⟨blankHandshakeBytes, rfl, by decide, by decide⟩
  have hread : ∀ id, ∀ msg ∈ outbox.lookup id, ∀ bytes ∈ rmp.toVec msg,
      rmp.fromSlice bytes = some msg :=
    fun id msg _ bytes hbytes => roundTrips_soleRmp _ _ msg bytes hbytes
  have hchunks : ChunksOf rmp outbox advertisingRun := by
    intro data now frame hcall hdecode
    simp only [advertisingRun, List.mem_cons, BleCall.ingest.injEq, reduceCtorEq, List.not_mem_nil,
      or_false, false_or] at hcall
    rcases hcall with ⟨rfl, -⟩ | ⟨rfl, -⟩
    · cases hdecode
    · rw [decodeChunk_encodeChunk rfl] at hdecode
      obtain rfl := Option.some.inj hdecode
      refine ⟨blankHandshake, rfl, ?_⟩
      decide +kernel
  obtain ⟨-, waiting, -, hsublist, -⟩ := ble_delivers rmp outbox hfits hread
    (.inl (.new sampleRemote)) rfl advertisingRun hchunks
  refine ⟨hreceived, hsublist.subset (List.mem_append_left _ ?_)⟩
  rw [hreceived]
  exact List.mem_singleton_self _

end StellarConduit
