import StellarConduit.Gossip.Exchange
import StellarConduit.Transport.Preservation

/-!
# Waiting for the response

How long the anti-entropy arm of `run_gossip_loop` (`gossip/protocol.rs`) waits for the response of
the peer that it asked, over connections with a clock.  `recv_any` calls `recv` once on each
connection, for a millisecond, and then returns.

* `timedApi`: connections on which something happens at a given time, in nanoseconds;
* `turnAt`: when the turn of a connection comes;
* `Awaits`: the peer answers before the ten seconds are over, and nobody else says anything;
* `handled_iff`: then the response is handled exactly when it is readable a millisecond after the
  turn of its connection has come.
-/

namespace StellarConduit

open TransportManager

/-! ### Connections with a clock -/

structure TimedConnection where
  peer : PeerIdentity
  transport : TransportType
  /-- What `recv` comes to, and when; it waits forever on a connection without an event. -/
  event : Option (ℕ × Except TransportError ProtocolMessage)
  /-- What `send` comes to, and how long it takes. -/
  sending : Awaited Unit × ℕ
  deriving DecidableEq

structure TimedWorld where
  clock : ℕ
  /-- What connecting to a peer over BLE comes to, and how long it takes. -/
  ble : PeerIdentity → Except TransportError TimedConnection × ℕ

/-- The timeout of `recv` in `recv_any_at`: one millisecond. -/
def pollTimeout : ℕ := 1000000

/-- The timeout of `recv_any` in the anti-entropy arm: ten seconds. -/
def pullTimeout : ℕ := 10 * 1000000000

def TimedWorld.pass (w : TimedWorld) (duration : ℕ) : TimedWorld :=
  { w with clock := w.clock + duration }

/-- The ten seconds are over. -/
def pullExpired (start w : TimedWorld) : Bool := decide (start.clock + pullTimeout < w.clock)

def timedApi : Connection TimedConnection TimedWorld where
  remotePeer := TimedConnection.peer
  transportType := TimedConnection.transport
  send conn _ w := (conn.sending.1, conn, w.pass conn.sending.2)
  recv conn w :=
    match conn.event with
    | none => (.pending, conn, w.pass pollTimeout)
    | some (t, result) =>
      if t ≤ w.clock + pollTimeout then
        (match result with
          | .ok msg => .ok msg
          | .error e => .err e,
          { conn with event := none }, { w with clock := max w.clock t })
      else (.pending, conn, w.pass pollTimeout)
  connectBle peer w := ((w.ble peer).1, w.pass (w.ble peer).2)

/-- No message arrives on the connection. -/
def TimedConnection.Silent (c : TimedConnection) : Prop :=
  ∀ t msg, c.event ≠ some (t, .ok msg)

/-- When the turn of a silent connection is over. -/
def TimedConnection.passedAt (c : TimedConnection) (w : TimedWorld) : ℕ :=
  match c.event with
  | none => w.clock + pollTimeout
  | some (t, result) =>
    if t ≤ w.clock + pollTimeout then
      match result with
      | .error .brokenPipe => max w.clock t + (w.ble c.peer).2
      | _ => max w.clock t
    else w.clock + pollTimeout

/-- When the turn of the key is over, if the connection at it is silent. -/
def passedAt (m : TransportManager TimedConnection) (key : Bytes 32) (w : TimedWorld) : ℕ :=
  match m.connection key with
  | none => w.clock
  | some c => c.passedAt w

/-- When the turn of `pubkey` comes, if the connections before it are silent. -/
def turnAt (m : TransportManager TimedConnection) (pubkey : Bytes 32) (w : TimedWorld) :
    List (Bytes 32) → ℕ
  | [] => w.clock
  | key :: keys =>
    if key = pubkey then w.clock
    else turnAt m pubkey { w with clock := passedAt m key w } keys

/-- A connection at the key is held under the key of its peer, and no message arrives on it. -/
def SilentAt (m : TransportManager TimedConnection) (key : Bytes 32) : Prop :=
  ∀ c, m.connection key = some c → c.peer.pubkey = key ∧ c.Silent

/-! ### Polling with a clock -/

theorem pollKeys_silent {m : TransportManager TimedConnection} {key : Bytes 32}
    {c : TimedConnection} (hconn : m.connection key = some c) (hkey : c.peer.pubkey = key)
    (hsilent : c.Silent) (now : ℕ) (w : TimedWorld) :
    (pollKeys timedApi now m w [key]).answer = .ok none ∧
      (pollKeys timedApi now m w [key]).world = { w with clock := c.passedAt w } ∧
      ∀ other ≠ key, (pollKeys timedApi now m w [key]).manager.connection other =
        m.connection other := by
  have hother : ∀ (m' : TransportManager TimedConnection) (c' : TimedConnection),
      (∀ other ≠ key, m'.connection other = m.connection other) →
        ∀ other ≠ key, (m'.setConnection key c').connection other = m.connection other := by
    intro m' c' h other hne
    rw [connection_setConnection_ne m' hne]
    exact h other hne
  cases hevent : c.event with
  | none =>
    simp only [pollKeys, hconn, timedApi, hevent, Ran.after, TimedConnection.passedAt]
    exact ⟨trivial, rfl, hother m c fun _ _ => rfl⟩
  | some event =>
    obtain ⟨t, result⟩ := event
    by_cases ht : t ≤ w.clock + pollTimeout
    · cases result with
      | ok msg => exact absurd hevent (hsilent t msg)
      | error e =>
        have hset := hother m { c with event := none } fun _ _ => rfl
        cases e with
        | brokenPipe =>
          -- The connection is replaced at its own key.
          have hremoved : ∀ other ≠ key, ((m.setConnection key { c with event := none }).remove
              key).connection other = m.connection other := by
            intro other hne
            rw [connection_remove_ne _ hne]
            exact hset other hne
          rcases hble : w.ble c.peer with ⟨result, duration⟩
          simp only [pollKeys, hconn, timedApi, hevent, if_pos ht, Ran.after,
            TimedConnection.passedAt, bleFallback, hble]
          cases result with
          | error e => exact ⟨trivial, rfl, hremoved⟩
          | ok conn =>
            refine ⟨trivial, rfl, fun other hne => ?_⟩
            rw [← hremoved other hne]
            exact connection_registerInbound_ne _ (by rwa [hkey]) _
        | _ =>
          simp only [pollKeys, hconn, timedApi, hevent, if_pos ht, Ran.after,
            TimedConnection.passedAt]
          exact ⟨trivial, trivial, hset⟩
    · simp only [pollKeys, hconn, timedApi, hevent, if_neg ht, Ran.after,
        TimedConnection.passedAt]
      exact ⟨trivial, rfl, hother m c fun _ _ => rfl⟩

/-- The turn of a silent connection takes its time, and leaves the other connections alone. -/
theorem pollKeys_of_silentAt {m : TransportManager TimedConnection} {key : Bytes 32}
    (h : SilentAt m key) (now : ℕ) (w : TimedWorld) :
    (pollKeys timedApi now m w [key]).answer = .ok none ∧
      (pollKeys timedApi now m w [key]).world = { w with clock := passedAt m key w } ∧
      ∀ other ≠ key, (pollKeys timedApi now m w [key]).manager.connection other =
        m.connection other := by
  cases hconn : m.connection key with
  | none =>
    simp only [pollKeys, hconn, passedAt]
    exact ⟨trivial, trivial, fun _ _ => trivial⟩
  | some c =>
    obtain ⟨hkey, hsilent⟩ := h c hconn
    have hpassed : passedAt m key w = c.passedAt w := by rw [passedAt, hconn]
    rw [hpassed]
    exact pollKeys_silent hconn hkey hsilent now w

/-- While only silent connections are polled, nothing is received. -/
theorem timeout_pollKeysWithin {m : TransportManager TimedConnection} (expired : TimedWorld → Bool)
    (now : ℕ) (w : TimedWorld) {keys : List (Bytes 32)} (hnodup : keys.Nodup)
    (h : ∀ key ∈ keys, SilentAt m key) :
    (pollKeysWithin timedApi expired now m w keys).answer.timeout = .ok none := by
  induction keys generalizing m w with
  | nil => rfl
  | cons key keys ih =>
    obtain ⟨hkey, hkeys⟩ := List.nodup_cons.1 hnodup
    obtain ⟨hanswer, -, hothers⟩ := pollKeys_of_silentAt (h key List.mem_cons_self) now w
    unfold pollKeysWithin
    split_ifs
    · rfl
    · unfold Ran.bind
      rw [hanswer]
      refine ih _ hkeys fun other hother c hconn => ?_
      rw [hothers other (fun heq => hkey (heq ▸ hother))] at hconn
      exact h other (List.mem_cons_of_mem _ hother) c hconn

theorem clock_le_passedAt (m : TransportManager TimedConnection) (key : Bytes 32)
    (w : TimedWorld) : w.clock ≤ passedAt m key w := by
  unfold passedAt
  split
  next => exact le_rfl
  next c _ =>
    unfold TimedConnection.passedAt
    split
    next => omega
    next t result _ =>
      split_ifs
      · split <;> omega
      · omega

theorem clock_le_turnAt (m : TransportManager TimedConnection) (pubkey : Bytes 32)
    (w : TimedWorld) (keys : List (Bytes 32)) : w.clock ≤ turnAt m pubkey w keys := by
  induction keys generalizing w with
  | nil => exact le_rfl
  | cons key keys ih =>
    unfold turnAt
    split_ifs
    · exact le_rfl
    · exact (clock_le_passedAt m key w).trans (ih { w with clock := passedAt m key w })

/-- Only the connections whose turn is still to come count. -/
theorem turnAt_congr {m m' : TransportManager TimedConnection} {pubkey : Bytes 32}
    {w : TimedWorld} {keys : List (Bytes 32)}
    (h : ∀ key ∈ keys, m'.connection key = m.connection key) :
    turnAt m' pubkey w keys = turnAt m pubkey w keys := by
  induction keys generalizing w with
  | nil => rfl
  | cons key keys ih =>
    unfold turnAt
    rw [ih fun other hother => h other (List.mem_cons_of_mem _ hother)]
    unfold passedAt
    rw [h key List.mem_cons_self]

/-- **One turn.**  If a message is to arrive on one connection and none on the others, then it is
received exactly when it is readable at the end of the turn of its connection, which lasts a
millisecond, and this turn comes in time. -/
theorem timeout_pollKeysWithin_of_message {m : TransportManager TimedConnection}
    {pubkey : Bytes 32} {c : TimedConnection} (hconn : m.connection pubkey = some c) {t : ℕ}
    {msg : ProtocolMessage} (hevent : c.event = some (t, .ok msg)) (now : ℕ) (start w : TimedWorld)
    {keys : List (Bytes 32)} (hnodup : keys.Nodup) (hmem : pubkey ∈ keys)
    (hsilent : ∀ key ∈ keys, key ≠ pubkey → SilentAt m key) :
    (pollKeysWithin timedApi (pullExpired start) now m w keys).answer.timeout =
      if turnAt m pubkey w keys ≤ start.clock + pullTimeout ∧
          t ≤ turnAt m pubkey w keys + pollTimeout then .ok (some (c.peer, msg))
      else .ok none := by
  induction keys generalizing m w with
  | nil => exact absurd hmem List.not_mem_nil
  | cons key keys ih =>
    obtain ⟨hkey, hkeys⟩ := List.nodup_cons.1 hnodup
    unfold pollKeysWithin
    by_cases hexpired : pullExpired start w = true
    · -- The time is over, and the turn has not come.
      have hlate := clock_le_turnAt m pubkey w (key :: keys)
      have hover : start.clock + pullTimeout < w.clock := of_decide_eq_true hexpired
      rw [if_pos hexpired, if_neg (by omega)]
      rfl
    · have hover : w.clock ≤ start.clock + pullTimeout := by
        simpa [pullExpired] using hexpired
      rw [if_neg hexpired]
      by_cases heq : key = pubkey
      · subst heq
        have hturn : turnAt m key w (key :: keys) = w.clock := if_pos rfl
        rw [hturn]
        by_cases ht : t ≤ w.clock + pollTimeout
        · rw [if_pos ⟨hover, ht⟩]
          simp only [pollKeys, hconn, timedApi, hevent, if_pos ht, Ran.after, Ran.bind]
          rfl
        · rw [if_neg fun h => ht h.2]
          simp only [pollKeys, hconn, timedApi, hevent, if_neg ht, Ran.after, Ran.bind]
          refine timeout_pollKeysWithin _ now _ hkeys fun other hother c' hconn' => ?_
          have hne : other ≠ key := fun heq => hkey (heq ▸ hother)
          rw [connection_setConnection_ne m hne] at hconn'
          exact hsilent other (List.mem_cons_of_mem _ hother) hne c' hconn'
      · have hturn : turnAt m pubkey w (key :: keys) =
            turnAt m pubkey { w with clock := passedAt m key w } keys := if_neg heq
        obtain ⟨hanswer, hworld, hothers⟩ :=
          pollKeys_of_silentAt (hsilent key List.mem_cons_self heq) now w
        unfold Ran.bind
        rw [hanswer, hturn]
        dsimp only
        rw [hworld]
        generalize (pollKeys timedApi now m w [key]).manager = m' at hothers ⊢
        have hrest : ∀ other ∈ keys, m'.connection other = m.connection other :=
          fun other hother => hothers other fun heq => hkey (heq ▸ hother)
        rw [← turnAt_congr hrest]
        refine ih ((hothers pubkey (Ne.symm heq)).trans hconn) _ hkeys
          ((List.mem_cons.1 hmem).resolve_left (Ne.symm heq)) fun other hother hne c' hconn' => ?_
        rw [hrest other hother] at hconn'
        exact hsilent other (List.mem_cons_of_mem _ hother) hne c' hconn'

/-! ### The response of the peer that was asked -/

section Response

variable {β : Type} (s : LoopState β) (m : TransportManager TimedConnection)
  (i : ExchangeInput TimedConnection TimedWorld) (peer : PeerIdentity) (resp : SyncResponse) (t : ℕ)

/-- The sending of the request to the peer. -/
def requesting : Ran TimedConnection TimedWorld Unit :=
  m.sendToAt timedApi peer (.syncRequest s.state.generateSyncRequest) i.sendAt i.sendAround

/-- The tick with which `recv_any` begins. -/
def listening : Ran TimedConnection TimedWorld PowerTickOutcome :=
  (requesting s m i peer).manager.powerTickAt timedApi i.receiveAt
    (i.receiveAround.withWorld (requesting s m i peer).world)

/-- The order in which the connections are polled. -/
def pollOrder : List (Bytes 32) :=
  i.receiveAround.keyOrder
    (listening s m i peer).manager.connections.activeConnections.keys

/-- When the turn of the peer comes. -/
def responseTurn : ℕ :=
  turnAt (listening s m i peer).manager peer.pubkey (listening s m i peer).world
    (pollOrder s m i peer)

/-- The request is sent to the peer, whose response is readable on its connection at the time `t`,
before the ten seconds are over, and no other message arrives. -/
structure Awaits : Prop where
  asked : s.askedPeer i = some peer
  sent : (requesting s m i peer).answer = .ok ()
  connection : ∃ c, (listening s m i peer).manager.connection peer.pubkey = some c ∧
    c.peer = peer ∧ c.event = some (t, .ok (.syncResponse resp))
  inTime : t ≤ (requesting s m i peer).world.clock + pullTimeout
  quiet : ∀ key ≠ peer.pubkey, SilentAt (listening s m i peer).manager key

/-- What `recv_any` comes to. -/
def receiving : Awaited (Option (PeerIdentity × ProtocolMessage)) :=
  ((requesting s m i peer).manager.recvAnyWithin timedApi
    (pullExpired (requesting s m i peer).world) i.receiveAt
    (i.receiveAround.withWorld (requesting s m i peer).world)).answer

/-- The response is handled. -/
def Handled : Prop :=
  (s.exchange timedApi pullExpired m i).answer = .ok (s.requestSent.mergeResponse resp)

/-- The interfaces are awake, and the turn of the peer comes in time and at most a millisecond
before its response is readable. -/
structure PolledInTime : Prop where
  awake : ∃ outcome, (listening s m i peer).answer = .ok outcome ∧
    ¬ (outcome.interfaceState.bleEnabled = false ∧ outcome.interfaceState.wifiEnabled = false)
  turn : responseTurn s m i peer ≤ (requesting s m i peer).world.clock + pullTimeout
  readable : t ≤ responseTurn s m i peer + pollTimeout

variable {s m i peer resp t}

/-- A response that is handled is counted. -/
theorem requestSent_ne_mergeResponse : s.requestSent ≠ s.requestSent.mergeResponse resp := by
  intro h
  have hcount := congrArg (fun s => s.metrics.syncResponsesReceived) h
  dsimp only [LoopState.mergeResponse] at hcount
  generalize s.requestSent.metrics.syncResponsesReceived = n at hcount
  exact absurd hcount (by simp)

/-- If the interfaces are awake, then the connections are polled in their order. -/
theorem timeout_receiving (h : Awaits s m i peer resp t) {outcome : PowerTickOutcome}
    (hanswer : (listening s m i peer).answer = .ok outcome)
    (hawake : ¬ (outcome.interfaceState.bleEnabled = false ∧
      outcome.interfaceState.wifiEnabled = false)) :
    (receiving s m i peer).timeout =
      if responseTurn s m i peer ≤ (requesting s m i peer).world.clock + pullTimeout ∧
          t ≤ responseTurn s m i peer + pollTimeout then .ok (some (peer, .syncResponse resp))
      else .ok none := by
  obtain ⟨c, hconn, hc, hevent⟩ := h.connection
  have hperm := i.receiveAround.keyOrder_perm
    (listening s m i peer).manager.connections.activeConnections.keys
  have hmem : peer.pubkey ∈ pollOrder s m i peer := by
    apply hperm.mem_iff.2
    rw [← AList.mem_keys, ← AList.lookup_isSome]
    exact Option.isSome_iff_exists.2 ⟨c, hconn⟩
  have hpolled := timeout_pollKeysWithin_of_message hconn hevent i.receiveAt
    (requesting s m i peer).world (listening s m i peer).world
    (hperm.nodup_iff.2 (AList.keys_nodup _)) hmem fun key _ hne => h.quiet key hne
  rw [hc] at hpolled
  unfold responseTurn pollOrder
  rw [← hpolled]
  unfold receiving recvAnyWithin
  unfold listening at hanswer
  simp only [hanswer, Ran.bind, if_neg hawake]
  rfl

/-- If the interfaces sleep or the tick fails, then nothing is received. -/
theorem timeout_receiving_of_asleep
    (h : ∀ outcome, (listening s m i peer).answer = .ok outcome →
      outcome.interfaceState.bleEnabled = false ∧ outcome.interfaceState.wifiEnabled = false)
    (received : PeerIdentity × ProtocolMessage) :
    (receiving s m i peer).timeout ≠ .ok (some received) := by
  unfold listening at h
  unfold receiving recvAnyWithin
  generalize powerTickAt timedApi _ _ _ = tick at h ⊢
  obtain ⟨answer, manager, world, calls⟩ := tick
  cases answer with
  | ok outcome =>
    simp only [Ran.bind, if_pos (h outcome rfl)]
    simp [Awaited.timeout]
  | _ =>
    intro heq
    cases heq

/-- The response is received exactly when its connection is polled in time. -/
theorem receiving_of_awaits (h : Awaits s m i peer resp t) :
    (receiving s m i peer).timeout = .ok (some (peer, .syncResponse resp)) ∧
        PolledInTime s m i peer t ∨
      (∀ received, (receiving s m i peer).timeout ≠ .ok (some received)) ∧
        ¬ PolledInTime s m i peer t := by
  by_cases hawake : ∃ outcome, (listening s m i peer).answer = .ok outcome ∧
      ¬ (outcome.interfaceState.bleEnabled = false ∧ outcome.interfaceState.wifiEnabled = false)
  · obtain ⟨outcome, hanswer, hon⟩ := hawake
    rw [timeout_receiving h hanswer hon]
    split_ifs with htime
    · exact Or.inl ⟨rfl, ⟨outcome, hanswer, hon⟩, htime.1, htime.2⟩
    · exact Or.inr ⟨by simp, fun hpolled => htime ⟨hpolled.turn, hpolled.readable⟩⟩
  · refine Or.inr ⟨timeout_receiving_of_asleep fun outcome hanswer => ?_,
      fun hpolled => hawake hpolled.awake⟩
    by_contra hon
    exact hawake ⟨outcome, hanswer, hon⟩

/-- **The wait is one pass.**  If the response of the peer that was asked becomes readable before
the ten seconds are over, and no other message arrives, then it is handled if and only if the
interfaces are awake, the turn of its connection comes within the ten seconds, and it is readable
before the millisecond of this turn is over. -/
theorem handled_iff (h : Awaits s m i peer resp t) :
    Handled s m i resp ↔ PolledInTime s m i peer t := by
  have hsent := h.sent
  have hexchange : (s.exchange timedApi pullExpired m i).answer =
      (receiving s m i peer).timeout.map fun received =>
        (s.antiEntropy (i.pull (.ok ()) received)).2 := by
    unfold LoopState.exchange receiving
    rw [h.asked]
    unfold requesting at hsent ⊢
    simp only [hsent, Ran.bind]
  unfold Handled
  rw [hexchange, Awaited.map_eq_ok_iff]
  rcases receiving_of_awaits h with ⟨hreceived, hpolled⟩ | ⟨hmissed, hnot⟩
  · refine iff_of_true ⟨_, hreceived, ?_⟩ hpolled
    rcases LoopState.antiEntropy_pull h.asked (some (peer, .syncResponse resp)) with
      ⟨resp', heq, hmerged⟩ | ⟨hother, -⟩
    · cases heq
      exact hmerged
    · exact absurd rfl (hother resp)
  · refine iff_of_false ?_ hnot
    rintro ⟨received, hreceived, hstate⟩
    rcases LoopState.antiEntropy_pull h.asked received with ⟨resp', rfl, -⟩ | ⟨-, hignored⟩
    · exact hmissed _ hreceived
    · rw [hignored] at hstate
      exact requestSent_ne_mergeResponse hstate

end Response

/-- Nothing happens outside of the manager, and no radio is there. -/
def timedSurroundings : Surroundings TimedConnection TimedWorld where
  bleIncoming := []
  instant := 0
  keyOrder keys := keys
  keyOrder_perm _ := List.Perm.refl _
  world := ⟨0, fun _ => (.error .connectionRefused, 0)⟩

def timedExchange : ExchangeInput TimedConnection TimedWorld where
  activeAt := 1672531200
  choice := RandomChoice.first
  sendAt := 0
  sendAround := timedSurroundings
  receiveAt := 0
  receiveAround := timedSurroundings

/-- A connection on which an empty response is readable at the given time. -/
def respondsAt (t : ℕ) : TimedConnection where
  peer := PeerIdentity.new sampleKey
  transport := .wifiDirect
  event := some (t, .ok (.syncResponse ⟨[]⟩))
  sending := (.ok (), 0)

/-- A manager with that connection. -/
def timedManager (t : ℕ) : TransportManager TimedConnection :=
  (TransportManager.withPowerManager (PowerManager.new 0)).registerInbound
    (PeerIdentity.new sampleKey) (respondsAt t)

theorem awaits_timedManager {t : ℕ} (ht : t ≤ pullTimeout)
    (hsent : (requesting sampleLoop (timedManager t) timedExchange
      (PeerIdentity.new sampleKey)).answer = .ok ())
    (hentries : (listening sampleLoop (timedManager t) timedExchange
      (PeerIdentity.new sampleKey)).manager.connections.activeConnections.entries =
        [⟨sampleKey, respondsAt t⟩]) :
    Awaits sampleLoop (timedManager t) timedExchange (PeerIdentity.new sampleKey) ⟨[]⟩ t where
  asked := by decide +kernel
  sent := hsent
  connection := by
    refine ⟨respondsAt t, ?_, rfl, rfl⟩
    unfold connection AList.lookup
    rw [hentries]
    exact List.dlookup_cons_eq _ _ _
  inTime := ht.trans (Nat.le_add_left _ _)
  quiet key hne c hconn := by
    have hmem : key ∈ (listening sampleLoop (timedManager t) timedExchange
        (PeerIdentity.new sampleKey)).manager.connections.activeConnections.keys := by
      rw [← AList.mem_keys, ← AList.lookup_isSome]
      exact Option.isSome_iff_exists.2 ⟨c, hconn⟩
    unfold AList.keys at hmem
    rw [hentries] at hmem
    exact absurd (List.mem_singleton.1 hmem) hne

/-- A response that is there at once is handled. -/
theorem handled_iff_sample : Handled sampleLoop (timedManager 0) timedExchange ⟨[]⟩ := by
  have hawaits := awaits_timedManager (Nat.zero_le _) (by decide +kernel) (by decide +kernel)
  have hawake : (listening sampleLoop (timedManager 0) timedExchange
      (PeerIdentity.new sampleKey)).answer.map PowerTickOutcome.interfaceState = .ok .awake := by
    decide +kernel
  obtain ⟨outcome, hanswer, hstate⟩ := Awaited.map_eq_ok_iff.1 hawake
  refine (handled_iff hawaits).2 ⟨⟨outcome, hanswer, by simp [hstate, InterfacePowerState.awake]⟩,
    by decide +kernel, Nat.zero_le _⟩

/-- A response that is readable five milliseconds after the request is not handled, and the arm
returns without it. -/
theorem missed_sample :
    Awaits sampleLoop (timedManager 5000000) timedExchange (PeerIdentity.new sampleKey) ⟨[]⟩
        5000000 ∧
      ¬ Handled sampleLoop (timedManager 5000000) timedExchange ⟨[]⟩ := by
  have hearly : 5000000 ≤ pullTimeout := by
    unfold pullTimeout
    omega
  refine ⟨awaits_timedManager hearly (by decide +kernel) (by decide +kernel), fun h => ?_⟩
  have hcount : (sampleLoop.exchange timedApi pullExpired (timedManager 5000000)
      timedExchange).answer.map (fun s => s.metrics.syncResponsesReceived) = .ok 0 := by
    decide +kernel
  rw [show (sampleLoop.exchange timedApi pullExpired (timedManager 5000000)
    timedExchange).answer = _ from h] at hcount
  exact absurd hcount (by decide +kernel)

end StellarConduit
