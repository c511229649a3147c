import Mathlib.Algebra.Order.BigOperators.Group.List
import Mathlib.Data.Multiset.OrderedMonoid
import Mathlib.Tactic.Abel
import StellarConduit.Lib.Machine
import StellarConduit.Transport.Manager

/-!
# Deferred messages

Transactions that are sent while the interfaces sleep wait in `pending_messages`.  A tick that wakes
the network takes them off the queue, one by one, and sends them.

* `step`: the operations on a transport manager, as a machine.  A connection may also change on its
  own, in any way;
* `AllAccepted`: every message of a flush is accepted in its turn;
* `keeps_deferred`: in a run in which this is so for every flush, a message for which `send_to_at`
  answered `Ok` was accepted by a connection or waits, and the next awake window flushes it.
-/

namespace StellarConduit

open Verif.Machine

namespace TransportManager

variable {Conn World : Type}

/-! ### What the operations leave alone -/

section Fields

variable (api : Connection Conn World) (m : TransportManager Conn)

theorem processBleIncoming_spec (entries : List (PeerIdentity × Conn)) :
    (m.processBleIncoming entries).powerManager = m.powerManager ∧
      (m.processBleIncoming entries).pendingMessages = m.pendingMessages ∧
      (m.processBleIncoming entries).bleCentralScanner = m.bleCentralScanner := by
  unfold processBleIncoming
  induction entries generalizing m with
  | nil => exact ⟨rfl, rfl, rfl⟩
  | cons entry entries ih => exact ih (m.registerInbound entry.1 entry.2)

theorem notifyMacRotated_spec :
    (m.notifyMacRotated api).powerManager = m.powerManager ∧
      (m.notifyMacRotated api).pendingMessages = m.pendingMessages := by
  unfold notifyMacRotated
  dsimp only
  generalize List.map Sigma.fst _ = pubkeys
  induction pubkeys generalizing m with
  | nil => exact ⟨rfl, rfl⟩
  | cons pubkey pubkeys ih => exact ih (m.remove pubkey)

theorem tickPower_spec (now : ℕ) (around : Surroundings Conn World) :
    (m.tickPower api now around).1.wakeNetwork = (m.powerManager.tick now).1.wakeNetwork ∧
      (m.tickPower api now around).1.interfaceState =
        (m.powerManager.tick now).1.interfaceState ∧
      (m.tickPower api now around).2.powerManager = (m.powerManager.tick now).2 ∧
      (m.tickPower api now around).2.pendingMessages = m.pendingMessages := by
  obtain ⟨hpower, hpending, -⟩ := m.processBleIncoming_spec around.bleIncoming
  unfold tickPower
  dsimp only
  rw [hpower]
  split
  next => exact ⟨rfl, rfl, rfl, hpending⟩
  next scanner _ =>
    split
    next => exact ⟨rfl, rfl, rfl, hpending⟩
    next scanner' _ =>
      refine ⟨rfl, rfl, ?_, ?_⟩
      · exact (notifyMacRotated_spec api _).1
      · exact (notifyMacRotated_spec api _).2.trans hpending

theorem bleFallback_spec (peer : PeerIdentity) (world : World) :
    (m.bleFallback api peer world).manager.powerManager = m.powerManager ∧
      (m.bleFallback api peer world).manager.pendingMessages = m.pendingMessages ∧
      (m.bleFallback api peer world).calls = [] := by
  unfold bleFallback
  split <;> exact ⟨rfl, rfl, rfl⟩

end Fields

/-! ### Accepted messages -/

/-- The messages that connections accepted. -/
def accepted (calls : List (ConnectionCall Conn)) : List PendingMessage :=
  calls.filterMap fun
    | .send peer msg _ (.ok ()) => some ⟨peer, msg⟩
    | _ => none

@[simp] theorem accepted_append (calls calls' : List (ConnectionCall Conn)) :
    accepted (calls ++ calls') = accepted calls ++ accepted calls' :=
  List.filterMap_append

theorem accepted_send (peer : PeerIdentity) (msg : ProtocolMessage) (conn : Conn)
    (answer : Awaited Unit) :
    accepted [.send peer msg conn answer] = if answer = .ok () then [⟨peer, msg⟩] else [] := by
  cases answer <;> rfl

/-- What a call of `send_now` comes to: the message is accepted once if it answers `Ok`, and not at
all otherwise, and only connections change. -/
structure Sent (m : TransportManager Conn) (peer : PeerIdentity) (msg : ProtocolMessage)
    (r : Ran Conn World Unit) : Prop where
  accepted : TransportManager.accepted r.calls = if r.answer = .ok () then [⟨peer, msg⟩] else []
  powerManager : r.manager.powerManager = m.powerManager
  pendingMessages : r.manager.pendingMessages = m.pendingMessages

section Sending

variable (api : Connection Conn World) (m : TransportManager Conn) (peer : PeerIdentity)
  (msg : ProtocolMessage) (world : World)

theorem sent_sendOn (conn : Conn) : m.Sent peer msg (m.sendOn api peer msg conn world) :=
  ⟨accepted_send _ _ _ _, rfl, rfl⟩

theorem sent_sendNow : m.Sent peer msg (m.sendNow api peer msg world) := by
  refine sendNow_cases (P := m.Sent peer msg) api m peer msg world (fun _ => ⟨rfl, rfl, rfl⟩)
    (fun conn _ _ => sent_sendOn api m peer msg world conn) (fun _ _ _ _ _ _ => ⟨rfl, rfl, rfl⟩) ?_
  -- The connection is replaced, and the new one is asked.
  intro conn conn' world' _ _ _
  generalize hregistered : ((m.sendOn api peer msg conn world).manager.remove
    peer.pubkey).registerInbound peer conn' = registered
  have hpower : registered.powerManager = m.powerManager := by rw [← hregistered]; rfl
  have hpending : registered.pendingMessages = m.pendingMessages := by rw [← hregistered]; rfl
  have h := sent_sendOn api registered peer msg world' conn'
  exact ⟨h.accepted, h.powerManager.trans hpower, h.pendingMessages.trans hpending⟩

end Sending

/-! ### Flushes that succeed -/

section Flushes

variable (api : Connection Conn World)

/-- The connection of the peer accepts the message, or it is broken, and the BLE connection by which
it is replaced accepts the message. -/
def Accepts (m : TransportManager Conn) (pending : PendingMessage) (world : World) : Prop :=
  ∃ conn, m.connection pending.peer.pubkey = some conn ∧
    match api.send conn pending.message world with
    | (.ok (), _, _) => True
    | (.err .brokenPipe, _, world) =>
      match api.connectBle pending.peer world with
      | (.ok conn, world) => (api.send conn pending.message world).1 = .ok ()
      | (.error _, _) => False
    | _ => False

/-- Each message is accepted in its turn. -/
def AllAccepted (m : TransportManager Conn) (world : World) : List PendingMessage → Prop
  | [] => True
  | pending :: rest =>
    let popped := { m with pendingMessages := rest }
    let sent := popped.sendNow api pending.peer pending.message world
    popped.Accepts api pending world ∧ sent.manager.AllAccepted sent.world rest

/-- If the tick wakes the network, then each message that waits is accepted in its turn. -/
def FlushAccepted (m : TransportManager Conn) (now : ℕ) (around : Surroundings Conn World) : Prop :=
  (m.powerManager.tick now).1.wakeNetwork = true →
    (m.tickPower api now around).2.AllAccepted api around.world m.pendingMessages

theorem sendOn_of_send {m : TransportManager Conn} {peer : PeerIdentity} {msg : ProtocolMessage}
    {conn conn' : Conn} {world world' : World} {answer : Awaited Unit}
    (h : api.send conn msg world = (answer, conn', world')) :
    m.sendOn api peer msg conn world =
      ⟨answer, m.setConnection peer.pubkey conn', world', [.send peer msg conn answer]⟩ := by
  unfold sendOn
  rw [h]

theorem sendNow_of_accepts {m : TransportManager Conn} {pending : PendingMessage} {world : World}
    (h : m.Accepts api pending world) :
    (m.sendNow api pending.peer pending.message world).answer = .ok () := by
  obtain ⟨conn, hconn, hsend⟩ := h
  unfold sendNow
  rw [hconn]
  split at hsend
  next heq => simp [sendOn_of_send api heq]
  next conn' world' heq =>
    split at hsend
    next conn'' world'' hble =>
      have hfallback : bleFallback api
          ((m.setConnection pending.peer.pubkey conn').remove pending.peer.pubkey) pending.peer
          world' = ⟨.ok (), ((m.setConnection pending.peer.pubkey conn').remove
            pending.peer.pubkey).registerInbound pending.peer conn'', world'', []⟩ := by
        unfold bleFallback
        rw [hble]
      have hlookup : connection
          (((m.setConnection pending.peer.pubkey conn').remove pending.peer.pubkey).registerInbound
            pending.peer conn'') pending.peer.pubkey = some conn'' :=
        ConnectionTable.lookup_insert_self _ _ _
      simp only [sendOn_of_send api heq, if_true, hfallback, Ran.bind, Ran.after, hlookup]
      exact hsend
    next => cases hsend
  next => cases hsend

/-- A flush in which each message is accepted empties the queue. -/
theorem flush_of_allAccepted {m : TransportManager Conn} {world : World}
    {pendings : List PendingMessage} (h : m.AllAccepted api world pendings) :
    (m.flush api world pendings).answer = .ok pendings.length ∧
      accepted (m.flush api world pendings).calls = pendings ∧
      (m.flush api world pendings).manager.pendingMessages = [] := by
  induction pendings generalizing m world with
  | nil => exact ⟨rfl, rfl, rfl⟩
  | cons pending rest ih =>
    obtain ⟨haccepts, hrest⟩ := h
    have hanswer := sendNow_of_accepts api haccepts
    have hsent := sent_sendNow api { m with pendingMessages := rest } pending.peer
      pending.message world
    obtain ⟨hflush, haccepted, hnil⟩ := ih hrest
    have hfirst := hsent.accepted
    rw [if_pos hanswer] at hfirst
    unfold flush Ran.bind
    rw [hanswer]
    dsimp only [Ran.map]
    refine ⟨?_, ?_, hnil⟩
    · rw [hflush]
      rfl
    · rw [accepted_append, hfirst, haccepted]
      rfl

/-- `send_now` answers `Ok` only for a message that is accepted. -/
theorem accepts_of_sendNow {m : TransportManager Conn} {pending : PendingMessage} {world : World}
    (h : (m.sendNow api pending.peer pending.message world).answer = .ok ()) :
    m.Accepts api pending world := by
  revert h
  refine sendNow_cases (P := fun r => r.answer = .ok () → m.Accepts api pending world) api m
    pending.peer pending.message world ?_ ?_ ?_ ?_
  · rintro - ⟨⟩
  · intro conn hconn _ hok
    refine ⟨conn, hconn, ?_⟩
    change (api.send conn pending.message world).1 = .ok () at hok
    generalize api.send conn pending.message world = sent at hok
    obtain ⟨answer, conn', world'⟩ := sent
    obtain rfl : answer = .ok () := hok
    trivial
  · rintro conn e world' - - - ⟨⟩
  · -- The connection is replaced, and the new one is asked.
    intro conn conn' world' hconn hbroken hble hok
    refine ⟨conn, hconn, ?_⟩
    generalize api.send conn pending.message world = sent at hbroken hble
    obtain ⟨answer, conn'', world''⟩ := sent
    obtain rfl : answer = .err .brokenPipe := hbroken
    dsimp only at hble ⊢
    rw [hble]
    exact hok

/-- A flush answers `Ok` only when each message is accepted in its turn. -/
theorem allAccepted_of_flush {m : TransportManager Conn} {world : World}
    {pendings : List PendingMessage} {flushed : ℕ}
    (h : (m.flush api world pendings).answer = .ok flushed) :
    m.AllAccepted api world pendings := by
  induction pendings generalizing m world flushed with
  | nil => trivial
  | cons pending rest ih =>
    unfold flush Ran.bind at h
    split at h
    next hanswer =>
      refine ⟨accepts_of_sendNow api hanswer, ?_⟩
      obtain ⟨n, hrest, -⟩ := Awaited.map_eq_ok_iff.1 h
      exact ih hrest
    all_goals cases h

end Flushes

/-! ### Messages that wait -/

/-- The next awake window wakes the network, if messages wait. -/
def Waiting (m : TransportManager Conn) : Prop := m.pendingMessages ≠ [] → m.powerManager.Armed

/-- A tick accepts messages that waited and leaves the others, and if it leaves any, then the
interfaces sleep. -/
structure Ticked (m : TransportManager Conn) (now : ℕ) (r : Ran Conn World PowerTickOutcome) :
    Prop where
  booked : accepted r.calls ++ r.manager.pendingMessages = m.pendingMessages
  waiting : r.manager.Waiting
  asleep : r.manager.pendingMessages ≠ [] → isAwakeWindow now = false
  answer : ∃ outcome, r.answer = .ok outcome ∧
    (r.manager.pendingMessages ≠ [] → outcome.interfaceState = .sleeping)

section Steps

variable (api : Connection Conn World) {m : TransportManager Conn} {now : ℕ}
  {around : Surroundings Conn World}

theorem ticked_powerTickAt (hm : m.Waiting) (hflush : m.FlushAccepted api now around) :
    m.Ticked now (m.powerTickAt api now around) := by
  obtain ⟨hwake, hinterface, hpower, hpending⟩ := m.tickPower_spec api now around
  unfold powerTickAt
  dsimp only
  rw [hwake]
  split_ifs with hwakes
  · obtain ⟨hanswer, haccepted, hnil⟩ := flush_of_allAccepted api (hflush hwakes)
    rw [hpending]
    refine ⟨?_, fun h => absurd hnil h, fun h => absurd hnil h, ?_⟩
    · simp only [Ran.map, haccepted, hnil, List.append_nil]
    · exact ⟨_, by rw [Ran.map, hanswer]; rfl, fun h => absurd hnil h⟩
  · have hstays : m.pendingMessages ≠ [] → (m.powerManager.tick now).2.Armed ∧
        isAwakeWindow now = false ∧ (m.powerManager.tick now).1.interfaceState = .sleeping :=
      fun h => (hm h).tick (by simpa using hwakes)
    refine ⟨hpending, fun h => ?_, fun h => ?_, _, rfl, fun h => ?_⟩
    · rw [Ran.map] at h ⊢
      rw [hpower]
      exact (hstays (hpending ▸ h)).1
    · exact (hstays (hpending ▸ h)).2.1
    · exact hinterface.trans (hstays (hpending ▸ h)).2.2

/-- What an operation books: it answered for `answered`, and everything that waited or was answered
for is accepted or waits. -/
structure Booked (m : TransportManager Conn) (answered : Multiset PendingMessage)
    (calls : List (ConnectionCall Conn)) (m' : TransportManager Conn) : Prop where
  waiting : m'.Waiting
  booked : (m.pendingMessages : Multiset PendingMessage) + answered =
    m'.pendingMessages + accepted calls

theorem Ticked.booked' {r : Ran Conn World PowerTickOutcome} (h : m.Ticked now r) :
    m.Booked 0 r.calls r.manager := by
  refine ⟨h.waiting, ?_⟩
  rw [add_zero, ← h.booked, ← Multiset.coe_add, add_comm]

theorem booked_sendToAt (hm : m.Waiting) (hflush : m.FlushAccepted api now around)
    (peer : PeerIdentity) (msg : ProtocolMessage) :
    m.Booked (if (m.sendToAt api peer msg now around).answer = .ok () then {⟨peer, msg⟩} else 0)
      (m.sendToAt api peer msg now around).calls
      (m.sendToAt api peer msg now around).manager := by
  have htick := ticked_powerTickAt api hm hflush
  unfold sendToAt Ran.bind
  generalize m.powerTickAt api now around = r at htick
  obtain ⟨outcome, hanswer, -⟩ := htick.answer
  rw [hanswer]
  dsimp only
  split_ifs with hdefer hok hok
  · -- The message waits with the others.
    obtain ⟨-, hmode, hble⟩ := hdefer
    have hasleep : isAwakeWindow now = false := by
      by_contra hawake
      rw [PowerManager.interfaceState, if_pos (Or.inr (by simpa using hawake))] at hble
      cases hble
    refine ⟨fun _ => PowerManager.armed_recordOutboundTransaction hmode hasleep, ?_⟩
    rw [← htick.booked, List.append_nil, ← Multiset.coe_add, ← Multiset.coe_add,
      Multiset.coe_singleton]
    abel
  · exact absurd rfl hok
  all_goals
    -- The message is sent now; if others wait, then the node goes on sleeping.
    have hsent := sent_sendNow api
      { r.manager with powerManager := (r.manager.powerManager.recordOutboundTransaction now).2 }
      peer msg r.world
    have hbooked := htick.booked'.booked
    refine ⟨fun h => ?_, ?_⟩
    · rw [hsent.pendingMessages] at h
      rw [hsent.powerManager]
      exact PowerManager.armed_recordOutboundTransaction (htick.waiting h).mode (htick.asleep h)
    · rw [accepted_append, hsent.accepted, hsent.pendingMessages, ← Multiset.coe_add]
      simp only [add_zero] at hbooked
      rw [hbooked]
      simp only [hok, if_true, if_false, Multiset.coe_singleton, Multiset.coe_nil]
      abel

/-- Polling takes nothing off the queue. -/
theorem pollKeys_spec (now : ℕ) (m : TransportManager Conn) (world : World)
    (keys : List (Bytes 32)) :
    (m.pollKeys api now world keys).manager.pendingMessages = m.pendingMessages ∧
      accepted (m.pollKeys api now world keys).calls = [] := by
  constructor
  · induction keys generalizing m world with
    | nil => rfl
    | cons pubkey keys ih =>
      unfold pollKeys
      split
      next => exact ih m world
      next conn _ =>
        dsimp only [Ran.after]
        split
        · split_ifs <;> rfl
        · rfl
        · rw [ih, (bleFallback_spec api _ _ _).2.1]
          rfl
        · exact ih _ _
  · refine List.filterMap_eq_nil_iff.2 fun call hcall => ?_
    obtain ⟨_, _, _, rfl⟩ := exists_recv_of_mem_pollKeys hcall
    rfl

theorem booked_recvAnyAt (hm : m.Waiting) (hflush : m.FlushAccepted api now around) :
    m.Booked 0 (m.recvAnyAt api now around).calls (m.recvAnyAt api now around).manager := by
  have htick := ticked_powerTickAt api hm hflush
  unfold recvAnyAt
  dsimp only
  generalize m.powerTickAt api now around = r at htick
  obtain ⟨outcome, hanswer, hsleeping⟩ := htick.answer
  rw [hanswer]
  dsimp only
  rw [Ran.bind, hanswer]
  dsimp only
  split_ifs with hoff
  · rw [List.append_nil]
    exact htick.booked'
  · -- An interface is awake, so that no message waits.
    have hnil : r.manager.pendingMessages = [] := by
      by_contra h
      rw [hsleeping h] at hoff
      exact hoff ⟨rfl, rfl⟩
    obtain ⟨hpending, haccepted⟩ := pollKeys_spec api now r.manager r.world
      (around.keyOrder r.manager.connections.activeConnections.keys)
    have hbooked := htick.booked'.booked
    refine ⟨fun h => absurd (hpending.trans hnil) h, ?_⟩
    rw [accepted_append, haccepted, List.append_nil, hpending]
    exact hbooked

end Steps

/-! ### Runs -/

/-- The operations on a manager. -/
inductive ManagerInput (Conn World : Type)
  | sendToAt (peer : PeerIdentity) (msg : ProtocolMessage) (now : ℕ)
    (around : Surroundings Conn World)
  | recvAnyAt (now : ℕ) (around : Surroundings Conn World)
  | powerTickAt (now : ℕ) (around : Surroundings Conn World)
  | disconnectPeer (pubkey : Bytes 32)
  | notifyMacRotated
  | registerInbound (peer : PeerIdentity) (conn : Conn)
  /-- A connection changes on its own; it may fail. -/
  | change (pubkey : Bytes 32) (f : Conn → Conn)

structure ManagerOutput (Conn : Type) where
  answer : Awaited Unit
  calls : List (ConnectionCall Conn)

def step (api : Connection Conn World) (m : TransportManager Conn) :
    ManagerInput Conn World → ManagerOutput Conn × TransportManager Conn
  | .sendToAt peer msg now around =>
    let r := m.sendToAt api peer msg now around
    (⟨r.answer, r.calls⟩, r.manager)
  | .recvAnyAt now around =>
    let r := m.recvAnyAt api now around
    (⟨r.answer.map fun _ => (), r.calls⟩, r.manager)
  | .powerTickAt now around =>
    let r := m.powerTickAt api now around
    (⟨r.answer.map fun _ => (), r.calls⟩, r.manager)
  | .disconnectPeer pubkey => (⟨.ok (), []⟩, m.remove pubkey)
  | .notifyMacRotated => (⟨.ok (), []⟩, m.notifyMacRotated api)
  | .registerInbound peer conn => (⟨.ok (), []⟩, m.registerInbound peer conn)
  | .change pubkey f =>
    (⟨.ok (), []⟩,
      match m.connection pubkey with
      | some conn => m.setConnection pubkey (f conn)
      | none => m)

abbrev ManagerEvent (Conn World : Type) :=
  Event (TransportManager Conn) (ManagerInput Conn World) (ManagerOutput Conn)

/-- The message for which `send_to_at` answered `Ok`. -/
def answered (e : ManagerEvent Conn World) : Multiset PendingMessage :=
  match e.input with
  | .sendToAt peer msg _ _ => if e.output.answer = .ok () then {⟨peer, msg⟩} else 0
  | _ => 0

/-- The messages that connections accepted during a step. -/
def acceptedAt (e : ManagerEvent Conn World) : Multiset PendingMessage := accepted e.output.calls

/-- The messages that wait. -/
def stock (m : TransportManager Conn) : Multiset PendingMessage := m.pendingMessages

/-- If the operation flushes, then each message that waits is accepted in its turn. -/
def FlushesAccepted (api : Connection Conn World) (m : TransportManager Conn) :
    ManagerInput Conn World → Prop
  | .sendToAt _ _ now around => m.FlushAccepted api now around
  | .recvAnyAt now around => m.FlushAccepted api now around
  | .powerTickAt now around => m.FlushAccepted api now around
  | _ => True

theorem booked_step (api : Connection Conn World) {m : TransportManager Conn}
    {i : ManagerInput Conn World} (hflush : m.FlushesAccepted api i) (hm : m.Waiting) :
    m.Booked (answered ⟨m, i, (m.step api i).1⟩) (m.step api i).1.calls (m.step api i).2 := by
  cases i with
  | sendToAt peer msg now around => exact booked_sendToAt api hm hflush peer msg
  | recvAnyAt now around => exact booked_recvAnyAt api hm hflush
  | powerTickAt now around => exact (ticked_powerTickAt api hm hflush).booked'
  | disconnectPeer pubkey => exact ⟨hm, rfl⟩
  | notifyMacRotated =>
    obtain ⟨hpower, hpending⟩ := m.notifyMacRotated_spec api
    refine ⟨?_, ?_⟩
    · unfold Waiting
      simp only [step, hpower, hpending]
      exact hm
    · simp only [step, hpending]
      rfl
  | registerInbound peer conn => exact ⟨hm, rfl⟩
  | change pubkey f =>
    simp only [step]
    split <;> exact ⟨hm, rfl⟩

/-- What waited and was answered for is what waits and was accepted. -/
theorem booked_exec (api : Connection Conn World) {m : TransportManager Conn} (hm : m.Waiting)
    {is : List (ManagerInput Conn World)}
    (hflush : ∀ e ∈ trace (step api) m is, e.before.FlushesAccepted api e.input) :
    (exec (step api) m is).Waiting ∧
      m.stock + ((trace (step api) m is).map answered).sum =
        (exec (step api) m is).stock + ((trace (step api) m is).map acceptedAt).sum := by
  obtain ⟨hbefore, hlast⟩ := trace_invariant Waiting
    (fun m i hflush hm => (booked_step api hflush hm).waiting) hflush hm
  refine ⟨hlast, ?_⟩
  apply balance_trace
  intro e he
  obtain ⟨pre, i, post, -, rfl⟩ := mem_trace he
  exact (booked_step api (hflush _ he) (hbefore _ he)).booked

/-- Along a run, every message for which `send_to_at` answered `Ok` was accepted by a connection or
waits, no more often than it was answered for; and while messages wait, the next tick in an awake
window flushes them. -/
structure KeepsDeferred (api : Connection Conn World) (m : TransportManager Conn)
    (is : List (ManagerInput Conn World)) : Prop where
  kept : ((trace (step api) m is).map answered).sum =
    (exec (step api) m is).stock + ((trace (step api) m is).map acceptedAt).sum
  armed : (exec (step api) m is).pendingMessages ≠ [] → (exec (step api) m is).powerManager.Armed
  flushed : (exec (step api) m is).pendingMessages ≠ [] → ∀ now, isAwakeWindow now →
    ((exec (step api) m is).powerManager.tick now).1.wakeNetwork = true

/-- **No deferred message is lost**, in every run in which every flush is accepted. -/
theorem keeps_deferred (api : Connection Conn World) (powerManager : PowerManager)
    (is : List (ManagerInput Conn World))
    (hflush : ∀ e ∈ trace (step api) (withPowerManager powerManager) is,
      e.before.FlushesAccepted api e.input) :
    KeepsDeferred api (withPowerManager powerManager) is := by
  obtain ⟨hlast, hbooked⟩ := booked_exec api (fun h => absurd rfl h) hflush
  refine ⟨?_, hlast, fun h now hawake => (hlast h).wakes hawake⟩
  simpa [stock, withPowerManager] using hbooked

/-! ### A sleeping node -/

/-- Connections that accept everything and receive nothing, and no radio. -/
def sampleApi : Connection PeerIdentity Unit where
  remotePeer := id
  transportType _ := .wifiDirect
  send conn _ world := (.ok (), conn, world)
  recv conn world := (.pending, conn, world)
  connectBle _ world := (.error .connectionRefused, world)

def samplePeer (byte : UInt8) : PeerIdentity := PeerIdentity.new (List.Vector.replicate 32 byte)

def sampleTransaction : ProtocolMessage :=
  .transaction
    { messageId := List.Vector.replicate 32 9
      originPubkey := List.Vector.replicate 32 0
      txXdr := ""
      ttlHops := 10
      timestamp := 0
      signature := List.Vector.replicate 64 0 }

/-- Five minutes and one second, when the node sleeps. -/
def sleepingAt : ℕ := 301 * 1000000000

/-- Five minutes and five seconds, in an awake window. -/
def awakeAt : ℕ := 305 * 1000000000

/-- Two messages are deferred, and flushed. -/
def flushedRun : List (ManagerInput PeerIdentity Unit) :=
  [.registerInbound (samplePeer 1) (samplePeer 1), .registerInbound (samplePeer 2) (samplePeer 2),
    .sendToAt (samplePeer 1) sampleTransaction sleepingAt .quiet,
    .sendToAt (samplePeer 2) sampleTransaction sleepingAt .quiet,
    .powerTickAt awakeAt .quiet]

theorem keeps_deferred_sample :
    KeepsDeferred sampleApi (withPowerManager (PowerManager.new 0)) flushedRun := by
  apply keeps_deferred
  intro e he
  simp only [flushedRun, trace_cons, trace_nil, List.mem_cons, List.not_mem_nil, or_false] at he
  rcases he with rfl | rfl | rfl | rfl | rfl
  · trivial
  · trivial
  · intro hwake
    exact absurd hwake (by decide +kernel)
  · intro hwake
    exact absurd hwake (by decide +kernel)
  · intro _
    refine ⟨⟨samplePeer 1, by decide +kernel, trivial⟩, ⟨samplePeer 2, by decide +kernel, trivial⟩,
      trivial⟩

/-- The first peer disconnects before the awake window. -/
def lostRun : List (ManagerInput PeerIdentity Unit) :=
  [.registerInbound (samplePeer 1) (samplePeer 1), .registerInbound (samplePeer 2) (samplePeer 2),
    .sendToAt (samplePeer 1) sampleTransaction sleepingAt .quiet,
    .sendToAt (samplePeer 2) sampleTransaction sleepingAt .quiet,
    .disconnectPeer (samplePeer 1).pubkey,
    .powerTickAt awakeAt .quiet]

/-- The message to the peer that is gone is lost, and the other one waits while the node thinks
that none does. -/
theorem not_keepsDeferred_sample :
    let m := exec (step sampleApi) (withPowerManager (PowerManager.new 0)) lostRun
    ¬ KeepsDeferred sampleApi (withPowerManager (PowerManager.new 0)) lostRun ∧
      m.pendingMessages = [⟨samplePeer 2, sampleTransaction⟩] ∧
      ((trace (step sampleApi) (withPowerManager (PowerManager.new 0)) lostRun).map
        acceptedAt).sum = 0 ∧
      m.powerManager.mode = .highPower ∧ m.powerManager.pendingOutboundTransaction = false := by
  intro m
  have hpending : m.pendingMessages = [⟨samplePeer 2, sampleTransaction⟩] := by decide +kernel
  have hmode : m.powerManager.mode = .highPower := by decide +kernel
  refine ⟨fun h => ?_, hpending, by decide +kernel, hmode, by decide +kernel⟩
  have harmed := (h.armed (by rw [hpending]; simp)).mode
  rw [hmode] at harmed
  cases harmed

end TransportManager

end StellarConduit
