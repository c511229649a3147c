import StellarConduit.Transport.Deferred

/-!
# The order of deferred messages

Transactions that are sent while the interfaces sleep wait for a tick that wakes the network; those
that are sent while they are awake do not wait.

* `submitted`, `delivered`: the transactions that a step answers for, and those that connections
  accept in it;
* `ordered_step`: what waits is a queue;
* `delivered_in_order`: transactions are accepted in the order in which they were submitted.
-/

namespace StellarConduit

open Verif.Machine

namespace TransportManager

variable {Conn World : Type}

/-- The transaction for which `send_to_at` answered `Ok`. -/
def submitted (e : ManagerEvent Conn World) : List PendingMessage :=
  match e.input with
  | .sendToAt peer msg _ _ =>
    if msg.isTransaction ∧ e.output.answer = .ok () then [⟨peer, msg⟩] else []
  | _ => []

def transactions (messages : List PendingMessage) : List PendingMessage :=
  messages.filter fun pending => pending.message.isTransaction

/-- The transactions that connections accepted during a step. -/
def delivered (e : ManagerEvent Conn World) : List PendingMessage :=
  transactions (accepted e.output.calls)

theorem transactions_append (messages messages' : List PendingMessage) :
    transactions (messages ++ messages') = transactions messages ++ transactions messages' :=
  List.filter_append messages messages'

/-- Only transactions wait. -/
def OnlyTransactions (m : TransportManager Conn) : Prop :=
  transactions m.pendingMessages = m.pendingMessages

/-- A step takes the transactions that it delivers off the front of the queue, and puts the one that
it answers for at its back. -/
structure Ordered (m : TransportManager Conn) (submitted delivered : List PendingMessage)
    (m' : TransportManager Conn) : Prop where
  only : m'.OnlyTransactions
  queue : m.pendingMessages ++ submitted = delivered ++ m'.pendingMessages

section Steps

variable (api : Connection Conn World) {m : TransportManager Conn} {now : ℕ}
  {around : Surroundings Conn World}

theorem Ticked.ordered {r : Ran Conn World PowerTickOutcome} (h : m.Ticked now r)
    (hm : m.OnlyTransactions) : m.Ordered [] (transactions (accepted r.calls)) r.manager := by
  have hboth : transactions (accepted r.calls) ++ transactions r.manager.pendingMessages =
      accepted r.calls ++ r.manager.pendingMessages := by
    rw [← transactions_append, h.booked]
    exact hm
  have hlength : (transactions (accepted r.calls)).length ≤ (accepted r.calls).length :=
    List.length_filter_le _ _
  have hlength' : (transactions r.manager.pendingMessages).length ≤
      r.manager.pendingMessages.length := List.length_filter_le _ _
  have hsum := congrArg List.length hboth
  rw [List.length_append, List.length_append] at hsum
  obtain ⟨haccepted, honly⟩ := List.append_inj hboth (by omega)
  refine ⟨honly, ?_⟩
  rw [haccepted, List.append_nil, h.booked]

/-- After its tick, `send_to_at` puts a transaction behind those that wait, or sends its message; a
transaction is sent only when no other one waits. -/
theorem exists_tick_of_sendToAt (hm : m.Waiting) (hflush : m.FlushAccepted api now around)
    (peer : PeerIdentity) (msg : ProtocolMessage) :
    ∃ r : Ran Conn World PowerTickOutcome, m.Ticked now r ∧
      let r' := m.sendToAt api peer msg now around
      (msg.isTransaction ∧ r'.answer = .ok () ∧ accepted r'.calls = accepted r.calls ∧
          r'.manager.pendingMessages = r.manager.pendingMessages ++ [⟨peer, msg⟩]) ∨
        (msg.isTransaction → r.manager.pendingMessages = []) ∧
          accepted r'.calls =
            accepted r.calls ++ (if r'.answer = .ok () then [⟨peer, msg⟩] else []) ∧
          r'.manager.pendingMessages = r.manager.pendingMessages := by
  have htick := ticked_powerTickAt api hm hflush
  refine ⟨m.powerTickAt api now around, htick, ?_⟩
  unfold sendToAt Ran.bind
  generalize m.powerTickAt api now around = r at htick
  obtain ⟨outcome, hanswer, -⟩ := htick.answer
  rw [hanswer]
  dsimp only
  by_cases hdefer : msg.isTransaction ∧ r.manager.powerManager.mode = .synchronizedLowPower ∧
      (r.manager.powerManager.interfaceState now).bleEnabled = false
  · simp only [if_pos hdefer]
    exact .inl ⟨hdefer.1, trivial, by rw [List.append_nil], trivial⟩
  · simp only [if_neg hdefer]
    have hsent := sent_sendNow api
      { r.manager with powerManager := (r.manager.powerManager.recordOutboundTransaction now).2 }
      peer msg r.world
    refine .inr ⟨fun htransaction => ?_, ?_, hsent.pendingMessages⟩
    · -- Another transaction would wait for the interfaces, and so this one would wait, too.
      by_contra hwaits
      have hmode := (htick.waiting hwaits).mode
      refine hdefer ⟨htransaction, hmode, ?_⟩
      rw [PowerManager.interfaceState, hmode, htick.asleep hwaits]
      rfl
    · rw [accepted_append, hsent.accepted]

theorem ordered_sendToAt (hm : m.Waiting) (honly : m.OnlyTransactions)
    (hflush : m.FlushAccepted api now around) (peer : PeerIdentity) (msg : ProtocolMessage) :
    m.Ordered
      (if msg.isTransaction ∧ (m.sendToAt api peer msg now around).answer = .ok () then
        [⟨peer, msg⟩] else [])
      (transactions (accepted (m.sendToAt api peer msg now around).calls))
      (m.sendToAt api peer msg now around).manager := by
  obtain ⟨r, htick, hsent⟩ := exists_tick_of_sendToAt api hm hflush peer msg
  obtain ⟨hkept, hqueue⟩ := htick.ordered honly
  generalize m.sendToAt api peer msg now around = r' at hsent
  rw [List.append_nil] at hqueue
  rcases hsent with ⟨htransaction, hok, haccepted, hpending⟩ | ⟨hnone, haccepted, hpending⟩
  · rw [if_pos ⟨htransaction, hok⟩, haccepted]
    refine ⟨?_, ?_⟩
    · unfold OnlyTransactions
      rw [hpending, transactions_append, hkept]
      simp [transactions, htransaction]
    · rw [hpending, ← List.append_assoc, ← hqueue]
  · rw [haccepted, transactions_append]
    refine ⟨?_, ?_⟩
    · unfold OnlyTransactions
      rw [hpending]
      exact hkept
    · rw [hpending]
      by_cases htransaction : msg.isTransaction = true
      · rw [hnone htransaction, List.append_nil] at hqueue ⊢
        rw [← hqueue]
        by_cases hok : r'.answer = .ok ()
        · simp [hok, htransaction, transactions]
        · simp [hok, transactions]
      · have hother : transactions (if r'.answer = .ok () then [⟨peer, msg⟩] else []) = [] := by
          split_ifs <;> simp [transactions, htransaction]
        rw [if_neg fun h => htransaction h.1, hother, List.append_nil, List.append_nil, hqueue]

/-- Polling sends nothing after the tick. -/
theorem recvAnyAt_spec (m : TransportManager Conn) (now : ℕ) (around : Surroundings Conn World) :
    (m.recvAnyAt api now around).manager.pendingMessages =
        (m.powerTickAt api now around).manager.pendingMessages ∧
      accepted (m.recvAnyAt api now around).calls =
        accepted (m.powerTickAt api now around).calls := by
  unfold recvAnyAt
  generalize m.powerTickAt api now around = r
  obtain ⟨answer, m', world, calls⟩ := r
  cases answer with
  | ok outcome =>
    dsimp only [Ran.bind]
    split_ifs
    · exact ⟨rfl, by rw [List.append_nil]⟩
    · obtain ⟨hpending, haccepted⟩ := pollKeys_spec api now m' world
        (around.keyOrder m'.connections.activeConnections.keys)
      exact ⟨hpending, by rw [accepted_append, haccepted, List.append_nil]⟩
  | err e => exact ⟨rfl, rfl⟩
  | panic p => exact ⟨rfl, rfl⟩
  | pending => exact ⟨rfl, rfl⟩

/-- What waits is a queue. -/
theorem ordered_step {i : ManagerInput Conn World} (hflush : m.FlushesAccepted api i)
    (hm : m.Waiting) (honly : m.OnlyTransactions) :
    m.Ordered (submitted ⟨m, i, (m.step api i).1⟩) (delivered ⟨m, i, (m.step api i).1⟩)
      (m.step api i).2 := by
  cases i with
  | sendToAt peer msg now around => exact ordered_sendToAt api hm honly hflush peer msg
  | recvAnyAt now around =>
    obtain ⟨hkept, hqueue⟩ := (ticked_powerTickAt api hm hflush).ordered honly
    obtain ⟨hpending, haccepted⟩ := m.recvAnyAt_spec api now around
    unfold delivered step
    dsimp only
    rw [haccepted]
    refine ⟨?_, ?_⟩
    · unfold OnlyTransactions
      rw [hpending]
      exact hkept
    · rw [hpending]
      exact hqueue
  | powerTickAt now around => exact (ticked_powerTickAt api hm hflush).ordered honly
  | disconnectPeer pubkey => exact ⟨honly, List.append_nil _⟩
  | notifyMacRotated =>
    obtain ⟨-, hpending⟩ := m.notifyMacRotated_spec api
    refine ⟨?_, ?_⟩
    · show transactions (m.notifyMacRotated api).pendingMessages =
        (m.notifyMacRotated api).pendingMessages
      rw [hpending]
      exact honly
    · show m.pendingMessages ++ [] = [] ++ (m.notifyMacRotated api).pendingMessages
      rw [hpending, List.append_nil, List.nil_append]
  | registerInbound peer conn => exact ⟨honly, List.append_nil _⟩
  | change pubkey f =>
    unfold step
    dsimp only
    split <;> exact ⟨honly, List.append_nil _⟩

end Steps

/-- **Transactions keep their order.**  In every run in which every flush is accepted, those that
connections accept, and behind them those that wait, are the ones for which `send_to_at` answered
`Ok`, in order, however they and other messages, polls, ticks, disconnects and rotations take
turns. -/
theorem delivered_in_order (api : Connection Conn World) (powerManager : PowerManager)
    (is : List (ManagerInput Conn World))
    (hflush : ∀ e ∈ trace (step api) (withPowerManager powerManager) is,
      e.before.FlushesAccepted api e.input) :
    (trace (step api) (withPowerManager powerManager) is).flatMap submitted =
      (trace (step api) (withPowerManager powerManager) is).flatMap delivered ++
        (exec (step api) (withPowerManager powerManager) is).pendingMessages := by
  obtain ⟨hbefore, -⟩ := trace_invariant (fun m => m.Waiting ∧ m.OnlyTransactions)
    (fun m i hflush hm => ⟨(booked_step api hflush hm.1).waiting,
      (ordered_step api hflush hm.1 hm.2).only⟩)
    hflush ⟨fun h => absurd rfl h, rfl⟩
  have hfifo : (withPowerManager powerManager : TransportManager Conn).pendingMessages ++
      (trace (step api) (withPowerManager powerManager) is).flatMap submitted =
      (trace (step api) (withPowerManager powerManager) is).flatMap delivered ++
        (exec (step api) (withPowerManager powerManager) is).pendingMessages := by
    refine fifo_trace pendingMessages fun e he => ?_
    obtain ⟨pre, i, post, -, rfl⟩ := mem_trace he
    obtain ⟨hwaiting, honly⟩ := hbefore _ he
    exact (ordered_step api (hflush _ he) hwaiting honly).queue
  exact hfifo

/-- Two messages are deferred, and sent in the awake window. -/
theorem delivered_in_order_sample :
    let first : PendingMessage := ⟨samplePeer 1, sampleTransaction⟩
    let second : PendingMessage := ⟨samplePeer 2, sampleTransaction⟩
    (trace (step sampleApi) (withPowerManager (PowerManager.new 0)) flushedRun).flatMap delivered =
      [first, second] := by
  intro first second
  have hflush : ∀ e ∈ trace (step sampleApi) (withPowerManager (PowerManager.new 0)) flushedRun,
      e.before.FlushesAccepted sampleApi e.input := by
    intro e he
    rcases List.mem_cons.1 he with rfl | he
    · trivial
    rcases List.mem_cons.1 he with rfl | he
    · trivial
    rcases List.mem_cons.1 he with rfl | he
    · exact fun hwake => absurd hwake (by decide +kernel)
    rcases List.mem_cons.1 he with rfl | he
    · exact fun hwake => absurd hwake (by decide +kernel)
    · obtain rfl := List.mem_singleton.1 he
      exact fun _ => ⟨⟨samplePeer 1, by decide +kernel, trivial⟩,
        ⟨samplePeer 2, by decide +kernel, trivial⟩, trivial⟩
  have hsubmitted : (trace (step sampleApi) (withPowerManager (PowerManager.new 0))
      flushedRun).flatMap submitted = [first, second] := by decide +kernel
  have hnone : (exec (step sampleApi) (withPowerManager (PowerManager.new 0))
      flushedRun).pendingMessages = [] := by decide +kernel
  have horder := delivered_in_order sampleApi (PowerManager.new 0) flushedRun hflush
  rw [hsubmitted, hnone, List.append_nil] at horder
  exact horder.symm

end TransportManager

end StellarConduit
