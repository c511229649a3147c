import StellarConduit.Gossip.Loop
import StellarConduit.Transport.Preservation

/-!
# An exchange over the transport

The anti-entropy arm of `run_gossip_loop` (`gossip/protocol.rs`) down to the connections: the
request goes out with `send_to`, and the answer of `recv_any` is awaited for ten seconds.

* `recvAnyWithin`: `recv_any` under a timeout, which drops it where it waits;
* `LoopState.exchange`: the arm;
* `taken`: the messages that calls took off connections;
* `merged_or_ignored`: an exchange takes at most one message, which it merges if it is a response
  of the peer that was asked, and ignores otherwise.
-/

namespace StellarConduit

variable {Conn World : Type}

namespace TransportManager

section Within

variable (api : Connection Conn World) (expired : World → Bool)

/-- The loop of `recv_any_at` over the peers, until the time is over. -/
def pollKeysWithin (now : ℕ) (m : TransportManager Conn) (world : World) :
    List (Bytes 32) → Ran Conn World (Option (PeerIdentity × ProtocolMessage))
  | [] => ⟨.ok none, m, world, []⟩
  | pubkey :: keys =>
    if expired world then ⟨.pending, m, world, []⟩
    else
      (pollKeys api now m world [pubkey]).bind fun received m world =>
        match received with
        | some received => ⟨.ok (some received), m, world, []⟩
        | none => pollKeysWithin now m world keys

/-- `recv_any_at` under a timeout. -/
def recvAnyWithin (m : TransportManager Conn) (now : ℕ) (around : Surroundings Conn World) :
    Ran Conn World (Option (PeerIdentity × ProtocolMessage)) :=
  let tick := m.powerTickAt api now around
  match tick.answer with
  | .err _ => ⟨.ok none, tick.manager, tick.world, tick.calls⟩
  | _ =>
    tick.bind fun outcome m world =>
      if outcome.interfaceState.bleEnabled = false ∧
          outcome.interfaceState.wifiEnabled = false then
        ⟨.ok none, m, world, []⟩
      else
        pollKeysWithin api expired now m world
          (around.keyOrder m.connections.activeConnections.keys)

end Within

/-- The peers are polled one after the other. -/
theorem pollKeys_cons (api : Connection Conn World) (now : ℕ) (m : TransportManager Conn)
    (world : World) (pubkey : Bytes 32) (keys : List (Bytes 32)) :
    pollKeys api now m world (pubkey :: keys) =
      (pollKeys api now m world [pubkey]).bind fun received m world =>
        match received with
        | some received => ⟨.ok (some received), m, world, []⟩
        | none => pollKeys api now m world keys := by
  cases hconn : m.connection pubkey with
  | none => simp [pollKeys, hconn, Ran.bind]
  | some conn =>
    rcases hrecv : api.recv conn world with ⟨answer, conn', world'⟩
    simp only [pollKeys, hconn, hrecv]
    cases answer with
    | ok msg => rfl
    | err e => cases e <;> rfl
    | panic p => rfl
    | pending => rfl

theorem pollKeysWithin_never (api : Connection Conn World) (now : ℕ) (m : TransportManager Conn)
    (world : World) (keys : List (Bytes 32)) :
    pollKeysWithin api (fun _ => false) now m world keys = pollKeys api now m world keys := by
  induction keys generalizing m world with
  | nil => rfl
  | cons pubkey keys ih =>
    rw [pollKeys_cons]
    unfold pollKeysWithin
    simp only [Bool.false_eq_true, if_false, ih]

/-- If the time is never over, then `recv_any` runs to its end. -/
theorem recvAnyWithin_never (api : Connection Conn World) (m : TransportManager Conn) (now : ℕ)
    (around : Surroundings Conn World) :
    m.recvAnyWithin api (fun _ => false) now around = m.recvAnyAt api now around := by
  have hpoll : pollKeysWithin api (fun _ => false) now = pollKeys api now := by
    funext m world keys
    exact pollKeysWithin_never api now m world keys
  unfold recvAnyWithin
  rw [hpoll]
  rfl

end TransportManager

open TransportManager

/-! ### The arm -/

/-- What an exchange depends on besides the connections.  The world of `receiveAround` is not
read: the time goes on from where the sending ended. -/
structure ExchangeInput (Conn World : Type) where
  activeAt : UInt64
  choice : RandomChoice PeerIdentity
  sendAt : ℕ
  sendAround : Surroundings Conn World
  receiveAt : ℕ
  receiveAround : Surroundings Conn World

/-- The anti-entropy turn, once it is known what the transport does. -/
def ExchangeInput.pull (i : ExchangeInput Conn World) (sendResult : Except TransportError Unit)
    (received : Option (PeerIdentity × ProtocolMessage)) : AntiEntropyInput where
  activeAt := i.activeAt
  choice := i.choice
  sendResult := sendResult
  received := received

/-- The same surroundings in another world. -/
def Surroundings.withWorld (around : Surroundings Conn World) (world : World) :
    Surroundings Conn World :=
  { around with world := world }

/-- A timeout: what is still awaited is given up. -/
def Awaited.timeout {α : Type} : Awaited (Option α) → Awaited (Option α)
  | .pending => .ok none
  | answer => answer

namespace LoopState

variable {β : Type}

/-- The request was sent. -/
def requestSent (s : LoopState β) : LoopState β :=
  { s with metrics := { s.metrics with syncRequestsSent := s.metrics.syncRequestsSent + 1 } }

/-- The peer that is asked. -/
def askedPeer (s : LoopState β) (i : ExchangeInput Conn World) : Option PeerIdentity :=
  s.pickPeer (i.pull (.ok ()) none)

/-- The anti-entropy arm.  `expired start world` says that the ten seconds that began in the world
`start` are over in `world`. -/
def exchange (api : Connection Conn World) (expired : World → World → Bool) (s : LoopState β)
    (m : TransportManager Conn) (i : ExchangeInput Conn World) : Ran Conn World (LoopState β) :=
  match s.askedPeer i with
  | none => ⟨.ok s, m, i.sendAround.world, []⟩
  | some peer =>
    let sent := m.sendToAt api peer (.syncRequest s.state.generateSyncRequest) i.sendAt i.sendAround
    match sent.answer with
    | .err e =>
      ⟨.ok (s.antiEntropy (i.pull (.error e) none)).2, sent.manager, sent.world, sent.calls⟩
    | _ =>
      sent.bind fun _ m world =>
        let polled := m.recvAnyWithin api (expired world) i.receiveAt
          (i.receiveAround.withWorld world)
        { polled with
          answer := polled.answer.timeout.map fun received =>
            (s.antiEntropy (i.pull (.ok ()) received)).2 }

/-- What the arm does with what it received. -/
theorem antiEntropy_pull {s : LoopState β} {i : ExchangeInput Conn World} {peer : PeerIdentity}
    (h : s.askedPeer i = some peer) (received : Option (PeerIdentity × ProtocolMessage)) :
    (∃ resp, received = some (peer, .syncResponse resp) ∧
        (s.antiEntropy (i.pull (.ok ()) received)).2 = s.requestSent.mergeResponse resp) ∨
      (∀ resp, received ≠ some (peer, .syncResponse resp)) ∧
        (s.antiEntropy (i.pull (.ok ()) received)).2 = s.requestSent := by
  have hpeer : s.pickPeer (i.pull (.ok ()) received) = some peer := h
  unfold antiEntropy
  rw [hpeer]
  simp only [ExchangeInput.pull]
  split
  next fromPeer resp =>
    split_ifs with hfrom
    · subst hfrom
      exact Or.inl ⟨resp, rfl, rfl⟩
    · refine Or.inr ⟨fun resp' heq => ?_, rfl⟩
      cases heq
      exact hfrom rfl
  next hnot => exact Or.inr ⟨fun resp heq => hnot peer resp heq, rfl⟩

end LoopState

/-! ### What is taken off the connections -/

/-- The messages that calls of `recv` returned, with the peers they came from. -/
def taken (api : Connection Conn World) (calls : List (ConnectionCall Conn)) :
    List (PeerIdentity × ProtocolMessage) :=
  calls.filterMap fun
    | .recv _ conn (.ok msg) => some (api.remotePeer conn, msg)
    | _ => none

/-- The message that was received. -/
def Awaited.message {α : Type} : Awaited (Option α) → Option α
  | .ok received => received
  | _ => none

section Taken

variable (api : Connection Conn World)

@[simp] theorem taken_append (calls calls' : List (ConnectionCall Conn)) :
    taken api (calls ++ calls') = taken api calls ++ taken api calls' :=
  List.filterMap_append

theorem taken_of_sends {calls : List (ConnectionCall Conn)}
    (h : ∀ call ∈ calls, ∃ peer msg conn answer, call = .send peer msg conn answer) :
    taken api calls = [] := by
  refine List.filterMap_eq_nil_iff.2 fun call hcall => ?_
  obtain ⟨peer, msg, conn, answer, rfl⟩ := h call hcall
  rfl

/-- Connections of any kind stay what they are. -/
theorem preserves_true : Preserves api (fun _ => True) (fun _ _ => True) (fun _ _ => True) where
  partly _ _ _ := trivial
  send _ _ _ _ _ _ := ⟨fun _ => ⟨trivial, fun _ => trivial⟩, trivial⟩
  world _ _ _ := trivial
  ble _ _ _ _ _ := ⟨trivial, fun _ _ => trivial⟩

variable (m : TransportManager Conn) (now : ℕ)

theorem taken_powerTickAt (around : Surroundings Conn World) :
    taken api (m.powerTickAt api now around).calls = [] :=
  taken_of_sends api (keeps_powerTickAt (preserves_true api) (fun _ _ _ => trivial) now trivial
    fun _ _ => trivial).sends

theorem taken_sendToAt (peer : PeerIdentity) (msg : ProtocolMessage)
    (around : Surroundings Conn World) :
    taken api (m.sendToAt api peer msg now around).calls = [] :=
  taken_of_sends api (keeps_sendToAt (preserves_true api) (fun _ _ _ => trivial) now trivial
    (fun _ _ => trivial) peer msg).sends

/-- One poll takes what it returns. -/
theorem taken_pollKeys_singleton (world : World) (pubkey : Bytes 32) :
    taken api (pollKeys api now m world [pubkey]).calls =
      (pollKeys api now m world [pubkey]).answer.message.toList := by
  cases hconn : m.connection pubkey with
  | none => simp [pollKeys, hconn, taken, Awaited.message]
  | some conn =>
    rcases hrecv : api.recv conn world with ⟨answer, conn', world'⟩
    simp only [pollKeys, hconn, hrecv]
    cases answer with
    | ok msg => rfl
    | err e => cases e <;> rfl
    | panic p => rfl
    | pending => rfl

theorem taken_pollKeysWithin (expired : World → Bool) (world : World) (keys : List (Bytes 32)) :
    taken api (pollKeysWithin api expired now m world keys).calls =
      (pollKeysWithin api expired now m world keys).answer.message.toList := by
  induction keys generalizing m world with
  | nil => rfl
  | cons pubkey keys ih =>
    have hfirst := taken_pollKeys_singleton api m now world pubkey
    unfold pollKeysWithin
    split_ifs
    · rfl
    · generalize pollKeys api now m world [pubkey] = polled at hfirst ⊢
      unfold Ran.bind
      split
      next received hanswer =>
        rw [hanswer] at hfirst
        cases received with
        | some received =>
          dsimp only
          rw [List.append_nil]
          exact hfirst
        | none =>
          dsimp only
          rw [taken_append, hfirst, ih]
          rfl
      all_goals
        next hanswer =>
          rw [hanswer] at hfirst
          exact hfirst

theorem taken_recvAnyWithin (expired : World → Bool) (around : Surroundings Conn World) :
    taken api (m.recvAnyWithin api expired now around).calls =
      (m.recvAnyWithin api expired now around).answer.message.toList := by
  have htick := taken_powerTickAt api m now around
  unfold recvAnyWithin
  generalize m.powerTickAt api now around = tick at htick
  dsimp only
  split
  next => exact htick
  next hnot =>
    unfold Ran.bind
    split
    next outcome hanswer =>
      dsimp only
      rw [taken_append, htick, List.nil_append]
      split_ifs
      · rfl
      · exact taken_pollKeysWithin api tick.manager now expired tick.world _
    next e hanswer => exact absurd hanswer (hnot e)
    next => exact htick
    next => exact htick

end Taken

/-! ### Merged or ignored -/

/-- What becomes of a message that an exchange with the peer takes off a connection: a response of
the peer is merged, and any other message is ignored. -/
def MergedOrIgnored {β : Type} (s : LoopState β) (peer : PeerIdentity)
    (message : PeerIdentity × ProtocolMessage) (answer : Awaited (LoopState β)) : Prop :=
  (∃ resp, message = (peer, .syncResponse resp) ∧
      answer = .ok (s.requestSent.mergeResponse resp)) ∨
    (∀ resp, message ≠ (peer, .syncResponse resp)) ∧ answer = .ok s.requestSent

theorem mergedOrIgnored_pull {β : Type} {s : LoopState β} {i : ExchangeInput Conn World}
    {peer : PeerIdentity} (h : s.askedPeer i = some peer)
    (message : PeerIdentity × ProtocolMessage) :
    MergedOrIgnored s peer message (.ok (s.antiEntropy (i.pull (.ok ()) (some message))).2) := by
  rcases LoopState.antiEntropy_pull h (some message) with
    ⟨resp, hresp, hmerged⟩ | ⟨hother, hignored⟩
  · exact Or.inl ⟨resp, Option.some.inj hresp, by rw [hmerged]⟩
  · exact Or.inr ⟨fun resp heq => hother resp (congrArg some heq), by rw [hignored]⟩

/-- **One message, merged or ignored.**  An exchange takes at most one message off the connections,
whichever connections speak and in whichever order.  It merges the response of the peer that was
asked.  If it takes another message, then it leaves the state of the loop as if nothing had come. -/
theorem merged_or_ignored {β : Type} (api : Connection Conn World)
    (expired : World → World → Bool) (s : LoopState β) (m : TransportManager Conn)
    (i : ExchangeInput Conn World) :
    (taken api (s.exchange api expired m i).calls).length ≤ 1 ∧
      ∀ message ∈ taken api (s.exchange api expired m i).calls,
        ∃ peer, s.askedPeer i = some peer ∧
          MergedOrIgnored s peer message (s.exchange api expired m i).answer := by
  unfold LoopState.exchange
  split
  next => exact ⟨Nat.zero_le _, fun _ h => absurd h List.not_mem_nil⟩
  next peer hpeer =>
    have hsends := taken_sendToAt api m i.sendAt peer (.syncRequest s.state.generateSyncRequest)
      i.sendAround
    generalize m.sendToAt api peer (.syncRequest s.state.generateSyncRequest) i.sendAt
      i.sendAround = sent at hsends
    dsimp only
    -- The request itself takes no message from a connection.
    have hnone : (taken api sent.calls).length ≤ 1 ∧ ∀ (answer : Awaited (LoopState β)),
        ∀ message ∈ taken api sent.calls, ∃ peer, s.askedPeer i = some peer ∧
          MergedOrIgnored s peer message answer := by
      rw [hsends]
      exact ⟨Nat.zero_le _, fun _ _ h => absurd h List.not_mem_nil⟩
    split
    next => exact ⟨hnone.1, hnone.2 _⟩
    next =>
      unfold Ran.bind
      split
      next _ hanswer =>
        have hpolled := taken_recvAnyWithin api sent.manager i.receiveAt (expired sent.world)
          (i.receiveAround.withWorld sent.world)
        dsimp only
        generalize sent.manager.recvAnyWithin api (expired sent.world) i.receiveAt
          (i.receiveAround.withWorld sent.world) = polled at hpolled ⊢
        rw [taken_append, hsends, List.nil_append, hpolled]
        refine ⟨by cases polled.answer.message <;> simp, fun message hmessage => ?_⟩
        have hok : polled.answer = .ok (some message) := by
          have hsome : polled.answer.message = some message := by simpa using hmessage
          unfold Awaited.message at hsome
          split at hsome
          next received hreceived => rw [hreceived, hsome]
          next => cases hsome
        refine ⟨peer, hpeer, ?_⟩
        rw [hok]
        exact mergedOrIgnored_pull hpeer message
      all_goals exact ⟨hnone.1, hnone.2 _⟩

/-! ### A message that is discarded -/

/-- A peer, and the messages that wait in the connection to it. -/
abbrev Mailbox := PeerIdentity × List ProtocolMessage

/-- Connections that accept everything, and no radio. -/
def mailboxApi : Connection Mailbox Unit where
  remotePeer := Prod.fst
  transportType _ := .wifiDirect
  send conn _ world := (.ok (), conn, world)
  recv conn world :=
    match conn with
    | (peer, msg :: rest) => (.ok msg, (peer, rest), world)
    | (peer, []) => (.pending, (peer, []), world)
  connectBle _ world := (.error .connectionRefused, world)

/-- A manager with one connection. -/
def sampleMailboxes (inbox : List ProtocolMessage) : TransportManager Mailbox :=
  (TransportManager.withPowerManager (PowerManager.new 0)).registerInbound
    (PeerIdentity.new sampleKey) (PeerIdentity.new sampleKey, inbox)

def sampleExchange : ExchangeInput Mailbox Unit where
  activeAt := 1672531200
  choice := RandomChoice.first
  sendAt := 0
  sendAround := .quiet
  receiveAt := 0
  receiveAround := .quiet

/-- A transaction is taken off the connection, and then the node has it nowhere: not in its queue or
its backlog, among the pending messages or on a connection. -/
theorem discarded_sample :
    let env := (sampleSigned 1 0).envelope
    let r := sampleLoop.exchange mailboxApi (fun _ _ => false)
      (sampleMailboxes [.transaction env]) sampleExchange
    taken mailboxApi r.calls = [(PeerIdentity.new sampleKey, .transaction env)] ∧
      r.answer.map (fun s => s.state) = .ok GossipState.new ∧ r.manager.pendingMessages = [] ∧
      r.manager.connections.activeConnections.entries.map (fun e => e.2.2) = [[]] := by
  decide +kernel

end StellarConduit
