import StellarConduit.Transport.Wifi

/-!
# Two ends of a WiFi-Direct connection

`Link` is one direction of a TCP stream between two connections, as a machine: one end sends,
written bytes arrive at the other end in their order and in portions of any size, and the
other end receives; all this in any order.

* `queue_link`: the link is a queue of messages.  A message whose serialization is empty or
  exceeds `maxMessageSizeBytes` is not put into it, though its `send` succeeds;
* `delivers_iff_fits`: what was sent is received exactly when every serialization fits.
-/

namespace StellarConduit

open Verif.Machine

/-- The two ends of a stream. -/
structure Link where
  sender : WifiDirectConnection
  receiver : WifiDirectConnection

inductive LinkInput
  | send (messageId : UInt32) (msg : ProtocolMessage)
  /-- The next bytes on their way arrive. -/
  | arrive (n : ℕ)
  | recv (clock : ℕ → ℕ)

inductive LinkOutput
  | sent (result : Except TransportError Unit)
  | arrived
  | received (out : Awaited ProtocolMessage)

namespace Link

/-- Two connections over a stream that was just opened. -/
def opened : Link := ⟨.fromStream .opened, .fromStream .opened⟩

/-- TCP delivers the written bytes in order. -/
def arrive (l : Link) (n : ℕ) : Link :=
  match l.sender.stream, l.receiver.stream with
  | some s, some t =>
    { sender := { l.sender with stream := some { s with outgoing := s.outgoing.drop n } }
      receiver :=
        { l.receiver with
          stream := some { t with incoming := t.incoming ++ s.outgoing.take n } } }
  | _, _ => l

def step (rmp : RmpSerde) (l : Link) : LinkInput → LinkOutput × Link
  | .send messageId msg =>
    let (result, sender) := l.sender.send rmp messageId msg
    (.sent result, { l with sender := sender })
  | .arrive n => (.arrived, l.arrive n)
  | .recv clock =>
    let (out, receiver) := l.receiver.recv rmp clock
    (.received out, { l with receiver := receiver })

/-- The number of bytes that were written and have not arrived. -/
def inFlight (l : Link) : ℕ :=
  match l.sender.stream with
  | some s => s.outgoing.length
  | none => 0

end Link

/-- The serialization of the message is not empty, and is at most 1 MiB long. -/
def Fits (rmp : RmpSerde) (msg : ProtocolMessage) : Prop :=
  ∃ bytes ∈ rmp.toVec msg, bytes ≠ [] ∧ bytes.length ≤ maxMessageSizeBytes

instance (rmp : RmpSerde) (msg : ProtocolMessage) : Decidable (Fits rmp msg) :=
  inferInstanceAs (Decidable (∃ bytes ∈ rmp.toVec msg, _))

abbrev LinkEvent := Event Link LinkInput LinkOutput

/-- The message that a `send` was asked to send. -/
def sentMessage : LinkInput → Option ProtocolMessage
  | .send _ msg => some msg
  | _ => none

/-- The message that a `recv` returned. -/
def receivedMessage (e : LinkEvent) : Option ProtocolMessage :=
  match e.output with
  | .received (.ok msg) => some msg
  | _ => none

/-- The message that a successful `send` put on its way. -/
def putMessage (rmp : RmpSerde) (e : LinkEvent) : Option ProtocolMessage :=
  match e.input, e.output with
  | .send _ msg, .sent (.ok ()) => if Fits rmp msg then some msg else none
  | _, _ => none

/-- The link is open, and carries the messages of the queue. -/
def Link.Carries (rmp : RmpSerde) (l : Link) (queue : List ProtocolMessage) : Prop :=
  ∃ (s t : TcpStream) (r : MessageReassembler),
    l = ⟨.fromStream s, { WifiDirectConnection.fromStream t with reassembler := r }⟩ ∧
      s.breaksAfter = none ∧ t.ended = false ∧
      StellarConduit.Carries rmp (t.incoming ++ s.outgoing) r queue

/-! ### Steps of the link -/

section Steps

variable {rmp : RmpSerde} {l : Link} {queue : List ProtocolMessage}

theorem step_send {s : TcpStream} (hs : s.breaksAfter = none) (receiver : WifiDirectConnection)
    (messageId : UInt32) (msg : ProtocolMessage) :
    Link.step rmp ⟨.fromStream s, receiver⟩ (.send messageId msg) =
      match rmp.toVec msg with
      | none => (.sent (.error .brokenPipe), ⟨.fromStream s, receiver⟩)
      | some bytes =>
        (.sent (.ok ()),
          ⟨.fromStream
            { s with
              outgoing := s.outgoing ++
                wire (MessageChunker.chunk ⟨wifiTcpMtu⟩ messageId bytes) },
            receiver⟩) := by
  rw [Link.step, send_fromStream hs]
  cases rmp.toVec msg <;> rfl

/-- A message that fits is put on its way; of one that does not, nothing is written. -/
theorem carries_send (hrmp : rmp.ReadsBack) (h : l.Carries rmp queue) (messageId : UInt32)
    (msg : ProtocolMessage) :
    (l.step rmp (.send messageId msg)).2.Carries rmp
      (queue ++ (putMessage rmp
        ⟨l, .send messageId msg, (l.step rmp (.send messageId msg)).1⟩).toList) := by
  obtain ⟨s, t, r, rfl, hs, ht, frames, hwire, hwf, hyields⟩ := h
  have hmtu : chunkFrameHeaderSize < (MessageChunker.mk wifiTcpMtu).mtu := by decide
  rw [step_send hs]
  cases hbytes : rmp.toVec msg with
  | none =>
    dsimp only [putMessage]
    rw [Option.toList_none, List.append_nil]
    exact ⟨s, t, r, rfl, hs, ht, frames, hwire, hwf, hyields⟩
  | some bytes =>
    dsimp only [putMessage]
    refine ⟨_, t, r, rfl, hs, ht,
      frames ++ MessageChunker.chunk ⟨wifiTcpMtu⟩ messageId bytes, ?_, ?_⟩
    · rw [wire_append, ← hwire, List.append_assoc]
    · by_cases hfits : bytes ≠ [] ∧ bytes.length ≤ maxMessageSizeBytes
      · obtain ⟨hne, hle⟩ := hfits
        have hfits' : Fits rmp msg := ⟨bytes, hbytes, hne, hle⟩
        rw [if_pos hfits', Option.toList_some]
        refine ⟨fun f hf => ?_, hyields.append fun r' hr' =>
          yields_chunk hne hle hmtu (hrmp msg bytes hbytes hle) hr'⟩
        rcases List.mem_append.1 hf with hf | hf
        · exact hwf f hf
        · exact (MessageChunker.wellFormed_of_mem_chunk hne hmtu hle hf).1
      · -- `chunk` gives no frames, so the loop of `send` writes nothing.
        have hfits' : ¬ Fits rmp msg := by
          rintro ⟨bytes', hbytes', hfits'⟩
          obtain rfl : bytes = bytes' := Option.some.inj (hbytes.symm.trans hbytes')
          exact hfits hfits'
        have hnil : MessageChunker.chunk ⟨wifiTcpMtu⟩ messageId bytes = [] := by
          refine (MessageChunker.chunk_eq_nil_iff hmtu).2 ?_
          by_contra hnot
          push Not at hnot
          exact hfits hnot
        rw [if_neg hfits', hnil, List.append_nil, Option.toList_none, List.append_nil]
        exact ⟨hwf, hyields⟩

theorem carries_arrive (h : l.Carries rmp queue) (n : ℕ) : (l.arrive n).Carries rmp queue := by
  obtain ⟨s, t, r, rfl, hs, ht, hcarries⟩ := h
  refine ⟨{ s with outgoing := s.outgoing.drop n },
    { t with incoming := t.incoming ++ s.outgoing.take n }, r, rfl, hs, ht, ?_⟩
  rw [List.append_assoc, List.take_append_drop]
  exact hcarries

/-- When all bytes on their way arrive, none are left. -/
theorem inFlight_arrive (h : l.Carries rmp queue) : (l.arrive l.inFlight).inFlight = 0 := by
  obtain ⟨s, t, r, rfl, -⟩ := h
  show (s.outgoing.drop s.outgoing.length).length = 0
  rw [List.drop_length, List.length_nil]

/-- `recv` returns the first message, or it waits. -/
theorem carries_recv (h : l.Carries rmp queue) (clock : ℕ → ℕ) :
    ∃ out queue', (l.step rmp (.recv clock)).1 = .received out ∧
      (l.step rmp (.recv clock)).2.Carries rmp queue' ∧
      (l.step rmp (.recv clock)).2.inFlight = l.inFlight ∧
      ((∃ msg, out = .ok msg ∧ queue = msg :: queue') ∨
        (out = .pending ∧ queue = queue' ∧ (l.inFlight = 0 → queue = []))) := by
  obtain ⟨s, t, r, rfl, hs, ht, hcarries⟩ := h
  obtain ⟨out, bytes, r', queue', hloop, hcarries', hout⟩ :=
    recvLoop_spec ht hcarries clock
  have hrecv : WifiDirectConnection.recv rmp
      { WifiDirectConnection.fromStream t with reassembler := r } clock =
        (out, { WifiDirectConnection.fromStream { t with incoming := bytes } with
          reassembler := r' }) := by
    unfold WifiDirectConnection.recv
    rw [if_neg (fun h => h rfl)]
    dsimp only [WifiDirectConnection.fromStream]
    rw [hloop]
  rw [Link.step, hrecv]
  refine ⟨out, queue', rfl, ⟨s, { t with incoming := bytes }, r', rfl, hs, ht, hcarries'⟩, rfl, ?_⟩
  rcases hout with hok | ⟨hpending, hqueue, hlater⟩
  · exact Or.inl hok
  · exact Or.inr ⟨hpending, hqueue, fun h => hlater (List.eq_nil_of_length_eq_zero h)⟩

/-- **The link is a queue.** -/
theorem queue_link (hrmp : rmp.RoundTrips) :
    Queue (Link.step rmp) (putMessage rmp) receivedMessage (Link.Carries rmp) where
  step l queue i h := by
    cases i with
    | send messageId msg =>
      refine ⟨_, carries_send hrmp.readsBack h messageId msg, ?_⟩
      rfl
    | arrive n =>
      exact ⟨queue, carries_arrive h n, by simp [putMessage, receivedMessage, Link.step]⟩
    | recv clock =>
      obtain ⟨out, queue', hout, hcarries, -, ⟨msg, rfl, rfl⟩ | ⟨rfl, rfl, -⟩⟩ :=
        carries_recv h clock
      · exact ⟨queue', hcarries, by simp [putMessage, receivedMessage, hout]⟩
      · exact ⟨queue, hcarries, by simp [putMessage, receivedMessage, hout]⟩

end Steps

/-! ### Runs of the link -/

section Runs

variable {rmp : RmpSerde}

theorem carries_opened : Link.opened.Carries rmp [] :=
  ⟨.opened, .opened, .new, rfl, rfl, rfl, [], rfl, by simp, rfl, fun _ => rfl⟩

/-- No `recv` fails. -/
theorem faultless (hrmp : rmp.RoundTrips) (is : List LinkInput) :
    ∀ e ∈ trace (Link.step rmp) .opened is, ∀ out, e.output = .received out →
      out = .pending ∨ ∃ msg, out = .ok msg := by
  intro e he out hout
  obtain ⟨pre, i, post, -, rfl⟩ := mem_trace he
  obtain ⟨queue, hcarries, -⟩ := (queue_link hrmp).exec carries_opened pre
  cases i with
  | send messageId msg => cases hout
  | arrive n => cases hout
  | recv clock =>
    obtain ⟨out', queue', hout', -, -, hcases⟩ := carries_recv hcarries clock
    obtain rfl : out' = out := LinkOutput.received.inj (hout'.symm.trans hout)
    rcases hcases with ⟨msg, hok, -⟩ | ⟨hpending, -⟩
    · exact Or.inr ⟨msg, hok⟩
    · exact Or.inl hpending

/-- A `send` succeeds when its message can be serialized, whether or not it fits. -/
theorem send_succeeds (hrmp : rmp.RoundTrips) {is : List LinkInput}
    (hser : ∀ msg ∈ is.filterMap sentMessage, (rmp.toVec msg).isSome) :
    ∀ e ∈ trace (Link.step rmp) .opened is, ∀ messageId msg,
      e.input = .send messageId msg → e.output = .sent (.ok ()) := by
  intro e he messageId msg hinput
  obtain ⟨pre, i, post, hsplit, rfl⟩ := mem_trace he
  obtain rfl : i = .send messageId msg := hinput
  obtain ⟨queue, ⟨s, t, r, hlink, hs, -⟩, -⟩ := (queue_link hrmp).exec carries_opened pre
  have hmem : msg ∈ is.filterMap sentMessage :=
    List.mem_filterMap.2 ⟨.send messageId msg, by rw [hsplit]; simp, rfl⟩
  obtain ⟨bytes, hbytes⟩ := Option.isSome_iff_exists.1 (hser msg hmem)
  dsimp only
  rw [hlink, step_send hs, hbytes]

/-- When everything has arrived, each `recv` returns the next message. -/
theorem received_drain {l : Link} {queue : List ProtocolMessage} (h : l.Carries rmp queue)
    (harrived : l.inFlight = 0) (clocks : List (ℕ → ℕ)) :
    (trace (Link.step rmp) l (clocks.map .recv)).filterMap receivedMessage =
      queue.take clocks.length := by
  induction clocks generalizing l queue with
  | nil => simp
  | cons clock clocks ih =>
    obtain ⟨out, queue', hout, hcarries, hinFlight, hcases⟩ := carries_recv h clock
    have hrest := ih hcarries (hinFlight.trans harrived)
    rw [List.map_cons, trace_cons, hout]
    rcases hcases with ⟨msg, rfl, rfl⟩ | ⟨rfl, rfl, hnil⟩
    · have hmsg : receivedMessage ⟨l, .recv clock, .received (.ok msg)⟩ = some msg := rfl
      rw [List.filterMap_cons_some hmsg, hrest]
      rfl
    · have hnone : receivedMessage ⟨l, .recv clock, .received .pending⟩ = none := rfl
      obtain rfl := hnil harrived
      rw [List.filterMap_cons_none hnone, hrest, List.take_nil, List.take_nil]

/-- If every `send` succeeds, the messages that fit are those put on their way. -/
theorem filterMap_putMessage {is : List LinkInput}
    (hok : ∀ e ∈ trace (Link.step rmp) .opened is, ∀ messageId msg,
      e.input = .send messageId msg → e.output = .sent (.ok ())) :
    (trace (Link.step rmp) .opened is).filterMap (putMessage rmp) =
      (is.filterMap sentMessage).filter (Fits rmp) := by
  have hput : ∀ e ∈ trace (Link.step rmp) .opened is, putMessage rmp e =
      (sentMessage e.input).filter (Fits rmp) := by
    rintro ⟨before, i, output⟩ he
    cases i with
    | send messageId msg =>
      have hout : output = .sent (.ok ()) := hok _ he messageId msg rfl
      subst hout
      by_cases hfits : Fits rmp msg <;> simp [putMessage, sentMessage, Option.filter, hfits]
    | arrive n => rfl
    | recv clock => rfl
  rw [List.filterMap_congr hput]
  nth_rewrite 2 [← map_input_trace (Link.step rmp) .opened is]
  rw [List.filterMap_map, List.filter_filterMap]
  rfl

/-- What was sent was received, in this order, and no `recv` failed. -/
structure Delivers (rmp : RmpSerde) (is : List LinkInput) : Prop where
  received : (trace (Link.step rmp) .opened is).filterMap receivedMessage =
    is.filterMap sentMessage
  faultless : ∀ e ∈ trace (Link.step rmp) .opened is, ∀ out, e.output = .received out →
    out = .pending ∨ ∃ msg, out = .ok msg

/-- Of the messages sent, those that fit are received. -/
theorem received_eq_filter (hrmp : rmp.RoundTrips) {is : List LinkInput}
    (hok : ∀ e ∈ trace (Link.step rmp) .opened is, ∀ messageId msg,
      e.input = .send messageId msg → e.output = .sent (.ok ()))
    (clocks : List (ℕ → ℕ)) (hclocks : (is.filterMap sentMessage).length ≤ clocks.length) :
    (trace (Link.step rmp) .opened (is ++ .arrive (exec (Link.step rmp) .opened is).inFlight ::
        clocks.map .recv)).filterMap receivedMessage =
      (is.filterMap sentMessage).filter (Fits rmp) := by
  obtain ⟨queue, hcarries, hqueue⟩ := (queue_link hrmp).exec carries_opened is
  rw [List.nil_append, filterMap_putMessage hok] at hqueue
  -- What has not been received yet is in the queue, and the calls at the end empty it.
  have hlength : queue.length ≤ clocks.length := by
    have hle := List.length_filter_le (fun msg => decide (Fits rmp msg))
      (is.filterMap sentMessage)
    rw [hqueue, List.length_append] at hle
    omega
  have hdrain := received_drain (carries_arrive hcarries _) (inFlight_arrive hcarries) clocks
  rw [List.take_of_length_le hlength] at hdrain
  rw [trace_append, List.filterMap_append, trace_cons, List.filterMap_cons_none rfl, hqueue]
  exact congrArg _ hdrain

/-- **What was sent is received exactly when it fits.**  On a link that was just opened, one
end sends, bytes arrive, and the other end receives, in any order, and every `send` succeeds.
Then everything on its way arrives, and there are as many calls of `recv` as there were
messages sent.  The messages received are those sent, in this order, if and only if the
serialization of each of them has between one byte and 1 MiB. -/
theorem delivers_iff_fits (hrmp : rmp.RoundTrips) (is : List LinkInput)
    (hok : ∀ e ∈ trace (Link.step rmp) .opened is, ∀ messageId msg,
      e.input = .send messageId msg → e.output = .sent (.ok ()))
    (clocks : List (ℕ → ℕ)) (hclocks : (is.filterMap sentMessage).length ≤ clocks.length) :
    Delivers rmp (is ++ .arrive (exec (Link.step rmp) .opened is).inFlight ::
        clocks.map .recv) ↔
      ∀ msg ∈ is.filterMap sentMessage, Fits rmp msg := by
  have hreceived := received_eq_filter hrmp hok clocks hclocks
  have hsent : (is ++ .arrive (exec (Link.step rmp) .opened is).inFlight ::
      clocks.map LinkInput.recv).filterMap sentMessage = is.filterMap sentMessage := by
    have hnone : (clocks.map LinkInput.recv).filterMap sentMessage = [] := by
      rw [List.filterMap_eq_nil_iff]
      intro i hi
      obtain ⟨clock, -, rfl⟩ := List.mem_map.1 hi
      rfl
    rw [List.filterMap_append, List.filterMap_cons_none rfl, hnone, List.append_nil]
  constructor
  · intro h msg hmsg
    have heq := hreceived.symm.trans (h.received.trans hsent)
    simpa using List.filter_eq_self.1 heq msg hmsg
  · intro hfits
    refine ⟨?_, faultless hrmp _⟩
    rw [hreceived, hsent, List.filter_eq_self]
    simpa using hfits

/-- A message that does not fit is lost, and its `send` succeeds. -/
theorem lost_of_not_fits (hrmp : rmp.RoundTrips) (messageId : UInt32) {msg : ProtocolMessage}
    (hser : (rmp.toVec msg).isSome) (hunfit : ¬ Fits rmp msg) (clock : ℕ → ℕ) :
    (∀ e ∈ trace (Link.step rmp) .opened [.send messageId msg], ∀ messageId msg,
      e.input = .send messageId msg → e.output = .sent (.ok ())) ∧
    ¬ Delivers rmp ([.send messageId msg] ++
      .arrive (exec (Link.step rmp) .opened [.send messageId msg]).inFlight ::
        [clock].map .recv) := by
  have hser' : ∀ msg' ∈ [LinkInput.send messageId msg].filterMap sentMessage,
      (rmp.toVec msg').isSome := fun msg' hmsg' => by rwa [List.mem_singleton.1 hmsg']
  have hok := send_succeeds hrmp hser'
  refine ⟨hok, fun h => ?_⟩
  have hreceived := (received_eq_filter hrmp hok [clock] (Nat.le_refl 1)).symm.trans h.received
  have hfits := List.filter_eq_self.1 hreceived msg (List.mem_singleton_self msg)
  exact hunfit (of_decide_eq_true hfits)

end Runs

/-! ### A handshake and a large response -/

/-- A serializer that knows a single message. -/
def soleRmp (msg : ProtocolMessage) (bytes : List UInt8) : RmpSerde where
  toVec msg' := if msg' = msg then some bytes else none
  fromSlice bytes' := if bytes' = bytes then some msg else none

theorem toVec_soleRmp (msg : ProtocolMessage) (bytes : List UInt8) :
    (soleRmp msg bytes).toVec msg = some bytes :=
  if_pos rfl

theorem roundTrips_soleRmp (msg : ProtocolMessage) (bytes : List UInt8) :
    (soleRmp msg bytes).RoundTrips := by
  intro msg' bytes' h
  obtain ⟨rfl, hbytes⟩ := Option.ite_none_right_eq_some.1 h
  obtain rfl := Option.some.inj hbytes
  exact if_pos rfl

def blankHandshake : ProtocolMessage := .handshake (List.Vector.replicate 32 0)

/-- The MessagePack form `\x7b"Handshake": [[0, ..]]\x7d`. -/
def blankHandshakeBytes : List UInt8 :=
  [0x81, 0xa9, 72, 97, 110, 100, 115, 104, 97, 107, 101, 0x91, 0xdc, 0, 32] ++ List.replicate 32 0

/-- The first of two handshakes is polled for when only a part of it has arrived. -/
theorem delivers_handshakes :
    let rmp := soleRmp blankHandshake blankHandshakeBytes
    let is : List LinkInput :=
      [.send 7 blankHandshake, .arrive 20, .recv fun _ => 0, .send 7 blankHandshake]
    Delivers rmp (is ++ .arrive (exec (Link.step rmp) .opened is).inFlight ::
      [fun _ => 1, fun _ => 2].map .recv) := by
  intro rmp is
  have hrmp : rmp.RoundTrips := roundTrips_soleRmp _ _
  have hvec : rmp.toVec blankHandshake = some blankHandshakeBytes := toVec_soleRmp _ _
  have hmsgs : ∀ msg ∈ is.filterMap sentMessage, msg = blankHandshake := by simp [is, sentMessage]
  refine (delivers_iff_fits hrmp is (send_succeeds hrmp fun msg hmsg => ?_)
    [fun _ => 1, fun _ => 2] (by decide)).2 fun msg hmsg => ?_
  · rw [hmsgs msg hmsg, hvec]
    rfl
  · rw [hmsgs msg hmsg]
    exact ⟨_, hvec, by decide, by decide⟩

def blankEnvelope : TransactionEnvelope where
  messageId := List.Vector.replicate 32 0
  originPubkey := List.Vector.replicate 32 0
  txXdr := ""
  ttlHops := 0
  timestamp := 0
  signature := List.Vector.replicate 64 0

/-- An array of six elements in MessagePack. -/
def blankEnvelopeBytes : List UInt8 :=
  [0x96, 0xdc, 0, 32] ++ List.replicate 32 0 ++ [0xdc, 0, 32] ++ List.replicate 32 0 ++
    [0xa0, 0, 0, 0xdc, 0, 64] ++ List.replicate 64 0

/-- A response with 8192 envelopes. -/
def largeResponse : ProtocolMessage := .syncResponse ⟨List.replicate 8192 blankEnvelope⟩

/-- The MessagePack form `\x7b"SyncResponse": [[[..], ..]]\x7d`. -/
def largeResponseBytes : List UInt8 :=
  [0x81, 0xac, 83, 121, 110, 99, 82, 101, 115, 112, 111, 110, 115, 101, 0x91, 0xdc, 32, 0] ++
    (List.replicate 8192 blankEnvelopeBytes).flatten

theorem length_largeResponseBytes : largeResponseBytes.length = 18 + 8192 * 141 := by
  have henvelope : blankEnvelopeBytes.length = 141 := by simp [blankEnvelopeBytes]
  rw [largeResponseBytes, List.length_append, List.length_flatten, List.map_replicate,
    List.sum_replicate_nat, henvelope]
  rfl

/-- The `send` of a large response succeeds, and the response is not received. -/
theorem largeResponse_lost :
    let rmp := soleRmp largeResponse largeResponseBytes
    let is : List LinkInput := [.send 7 largeResponse]
    rmp.RoundTrips ∧
      (∀ e ∈ trace (Link.step rmp) .opened is, ∀ messageId msg,
        e.input = .send messageId msg → e.output = .sent (.ok ())) ∧
      ¬ Delivers rmp (is ++ .arrive (exec (Link.step rmp) .opened is).inFlight ::
        [fun _ => 1].map .recv) := by
  have hvec := toVec_soleRmp largeResponse largeResponseBytes
  have hunfit : ¬ Fits (soleRmp largeResponse largeResponseBytes) largeResponse := by
    rintro ⟨bytes, hbytes, -, hle⟩
    obtain rfl : largeResponseBytes = bytes := Option.some.inj (hvec.symm.trans hbytes)
    rw [length_largeResponseBytes] at hle
    exact absurd hle (by decide)
  exact ⟨roundTrips_soleRmp _ _,
    lost_of_not_fits (roundTrips_soleRmp _ _) 7 (Option.isSome_of_eq_some hvec) hunfit _⟩

end StellarConduit
