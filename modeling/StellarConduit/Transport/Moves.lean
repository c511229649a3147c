import StellarConduit.Transport.Manager

/-!
# How operations move a table of connections

An operation of a transport manager changes its table, after the registrations at its start, by
calls on connections, and by giving up connections that break.

* `TableMoves api R`: the relation `R`, between a table with a world and a later one, holds of each
  such change, and is reflexive and transitive;
* `moved_powerTickAt`, `moved_sendToAt`, `moved_recvAnyAt`: then it holds of the operations.
-/

namespace StellarConduit

variable {Conn World : Type}

/-- A call on a connection: whether the connection breaks, and what the call leaves. -/
inductive Called (api : Connection Conn World) (conn : Conn) (world : World) :
    Bool → Conn → World → Prop
  | send (msg : ProtocolMessage) :
    Called api conn world (decide ((api.send conn msg world).1 = .err .brokenPipe))
      (api.send conn msg world).2.1 (api.send conn msg world).2.2
  | recv :
    Called api conn world (decide ((api.recv conn world).1 = .err .brokenPipe))
      (api.recv conn world).2.1 (api.recv conn world).2.2

/-- A connection is given up, and one over BLE takes its place if it can be opened. -/
def ConnectionTable.failOver (api : Connection Conn World) (t : ConnectionTable Conn)
    (pubkey : Bytes 32) (peer : PeerIdentity) (world : World) : ConnectionTable Conn × World :=
  let t := (t.disconnectPeer pubkey).2
  match api.connectBle peer world with
  | (.error _, world) => (t, world)
  | (.ok conn, world) => (t.insert peer.pubkey conn, world)

/-- A relation that holds of whatever calls do to a table. -/
structure TableMoves (api : Connection Conn World)
    (R : ConnectionTable Conn × World → ConnectionTable Conn × World → Prop) : Prop where
  refl : ∀ s, R s s
  trans : ∀ s s' s'', R s s' → R s' s'' → R s s''
  call : ∀ t pubkey conn world broken conn' world',
    t.activeConnections.lookup pubkey = some conn → Called api conn world broken conn' world' →
      R (t, world) (t.set pubkey conn', world')
  failOver : ∀ t pubkey conn world conn' world' peer,
    t.activeConnections.lookup pubkey = some conn → Called api conn world true conn' world' →
      R (t, world) ((t.set pubkey conn').failOver api pubkey peer world')

/-- The table and the world that an operation leaves. -/
def Ran.site {α : Type} (r : Ran Conn World α) : ConnectionTable Conn × World :=
  (r.manager.connections, r.world)

@[simp] theorem Ran.site_map {α β : Type} (f : α → β) (r : Ran Conn World α) :
    (r.map f).site = r.site := rfl

@[simp] theorem Ran.site_after {α : Type} (call : ConnectionCall Conn) (r : Ran Conn World α) :
    (r.after call).site = r.site := rfl

section Moved

open TransportManager

variable {api : Connection Conn World}
  {R : ConnectionTable Conn × World → ConnectionTable Conn × World → Prop} (h : TableMoves api R)
  {α β : Type} {m : TransportManager Conn} {world : World}

include h

theorem moved_bind {s : ConnectionTable Conn × World} {r : Ran Conn World α}
    {f : α → TransportManager Conn → World → Ran Conn World β} (hr : R s r.site)
    (hf : ∀ a, R r.site (f a r.manager r.world).site) : R s (r.bind f).site := by
  unfold Ran.bind
  split
  next a _ => exact h.trans _ _ _ hr (hf a)
  next => exact hr
  next => exact hr
  next => exact hr

theorem moved_sendOn {peer : PeerIdentity} {msg : ProtocolMessage} {conn : Conn}
    (hconn : m.connection peer.pubkey = some conn) :
    R (m.connections, world) (m.sendOn api peer msg conn world).site :=
  h.call _ _ conn world _ _ _ hconn (.send msg)

/-- Giving up a connection that broke is a move, however the operation goes on. -/
theorem moved_bleFallback {pubkey : Bytes 32} {conn conn' : Conn} {world' : World}
    (hconn : m.connection pubkey = some conn) (hcalled : Called api conn world true conn' world')
    (peer : PeerIdentity) :
    R (m.connections, world)
      (((m.setConnection pubkey conn').remove pubkey).bleFallback api peer world').site := by
  have hmove := h.failOver _ pubkey conn world conn' world' peer hconn hcalled
  unfold ConnectionTable.failOver at hmove
  unfold bleFallback
  generalize api.connectBle peer world' = dialed at hmove ⊢
  obtain ⟨result, world''⟩ := dialed
  cases result with
  | error e => exact hmove
  | ok conn'' => exact hmove

theorem moved_sendNow (peer : PeerIdentity) (msg : ProtocolMessage) :
    R (m.connections, world) (m.sendNow api peer msg world).site := by
  unfold sendNow
  split
  next => exact h.refl _
  next conn hconn =>
    dsimp only
    split_ifs with hbroken
    · have hcalled : Called api conn world true (api.send conn msg world).2.1
          (api.send conn msg world).2.2 := by
        have hsend : Called api conn world _ _ _ := .send msg
        rwa [decide_eq_true (by exact hbroken)] at hsend
      refine moved_bind h (moved_bleFallback h hconn hcalled peer) fun _ => ?_
      split
      next conn' hconn' => exact moved_sendOn h hconn'
      next => exact h.refl _
    · exact moved_sendOn h hconn

theorem moved_flush (pendings : List PendingMessage) :
    R (m.connections, world) (m.flush api world pendings).site := by
  induction pendings generalizing m world with
  | nil => exact h.refl _
  | cons pending rest ih =>
    unfold flush
    refine moved_bind h ?_ fun _ => ih
    exact moved_sendNow h (m := { m with pendingMessages := rest }) pending.peer pending.message

/-- A tick moves the table from where its registrations leave it. -/
theorem moved_powerTickAt (now : ℕ) (around : Surroundings Conn World) :
    R ((m.tickPower api now around).2.connections, around.world)
      (m.powerTickAt api now around).site := by
  unfold powerTickAt
  dsimp only
  rw [Ran.site_map]
  split_ifs
  · exact moved_flush h _
  · exact h.refl _

theorem moved_sendToAt (peer : PeerIdentity) (msg : ProtocolMessage) (now : ℕ)
    (around : Surroundings Conn World) :
    R ((m.tickPower api now around).2.connections, around.world)
      (m.sendToAt api peer msg now around).site := by
  unfold sendToAt
  refine moved_bind h (moved_powerTickAt h now around) fun _ => ?_
  generalize m.powerTickAt api now around = r
  dsimp only
  split_ifs
  · exact h.refl _
  · exact moved_sendNow h (m := { r.manager with powerManager :=
      (r.manager.powerManager.recordOutboundTransaction now).2 }) peer msg

theorem moved_pollKeys (now : ℕ) (keys : List (Bytes 32)) :
    R (m.connections, world) (m.pollKeys api now world keys).site := by
  induction keys generalizing m world with
  | nil => exact h.refl _
  | cons pubkey keys ih =>
    unfold pollKeys
    split
    next => exact ih
    next conn hconn =>
      have hcalled : Called api conn world _ _ _ := .recv
      have hmove := h.call _ pubkey conn world _ _ _ hconn hcalled
      dsimp only
      rw [Ran.site_after]
      split
      next => split_ifs <;> exact hmove
      next => exact hmove
      next hbroken =>
        rw [decide_eq_true hbroken] at hcalled
        exact h.trans _ _ _ (moved_bleFallback h hconn hcalled (api.remotePeer conn)) ih
      next => exact h.trans _ _ _ hmove (ih (m := m.setConnection pubkey _))

theorem moved_recvAnyAt (now : ℕ) (around : Surroundings Conn World) :
    R ((m.tickPower api now around).2.connections, around.world)
      (m.recvAnyAt api now around).site := by
  have htick := moved_powerTickAt h (m := m) now around
  unfold recvAnyAt
  dsimp only
  split
  next => exact htick
  next =>
    refine moved_bind h htick fun outcome => ?_
    split_ifs
    · exact h.refl _
    · exact moved_pollKeys h now _

end Moved

end StellarConduit
