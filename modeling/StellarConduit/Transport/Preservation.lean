import StellarConduit.Transport.Manager

/-!
# What operations preserve of the connections

An operation of a transport manager changes a connection only through the calls on it.  So what
these calls preserve holds of every connection after the operation, too.

* `Everywhere Q`: `Q` holds of every connection, at its key;
* `Preserves api W Whole Partly`: a `send` on a connection that is `Whole` leaves it `Whole`, or,
  when it is dropped while it waits, `Partly`;
* `keeps_powerTickAt`, `keeps_sendToAt`: then so do the operations, of which at most one call is
  dropped.
-/

namespace StellarConduit

namespace TransportManager

variable {Conn World : Type}

/-- Every connection satisfies `Q`, at its key. -/
def Everywhere (Q : Bytes 32 → Conn → Prop) (m : TransportManager Conn) : Prop :=
  ∀ pubkey conn, m.connection pubkey = some conn → Q pubkey conn

section Everywhere

variable {Q Q' : Bytes 32 → Conn → Prop} {m : TransportManager Conn}

theorem Everywhere.imp (h : m.Everywhere Q) (hQ : ∀ pubkey conn, Q pubkey conn → Q' pubkey conn) :
    m.Everywhere Q' :=
  fun pubkey conn hconn => hQ pubkey conn (h pubkey conn hconn)

/-- Only the connections count. -/
theorem Everywhere.congr {m' : TransportManager Conn} (h : m.Everywhere Q)
    (hm : m'.connections = m.connections) : m'.Everywhere Q := by
  intro pubkey conn hconn
  apply h pubkey conn
  unfold connection at hconn ⊢
  rwa [hm] at hconn

theorem connection_remove_self (m : TransportManager Conn) (pubkey : Bytes 32) :
    (m.remove pubkey).connection pubkey = none :=
  ConnectionTable.lookup_disconnectPeer_self _ _

theorem connection_remove_ne (m : TransportManager Conn) {pubkey other : Bytes 32}
    (h : other ≠ pubkey) : (m.remove pubkey).connection other = m.connection other :=
  ConnectionTable.lookup_disconnectPeer_ne _ h

@[simp] theorem connection_registerInbound_self (m : TransportManager Conn) (peer : PeerIdentity)
    (conn : Conn) : (m.registerInbound peer conn).connection peer.pubkey = some conn :=
  ConnectionTable.lookup_insert_self _ _ _

theorem connection_registerInbound_ne (m : TransportManager Conn) {peer : PeerIdentity}
    {other : Bytes 32} (h : other ≠ peer.pubkey) (conn : Conn) :
    (m.registerInbound peer conn).connection other = m.connection other :=
  ConnectionTable.lookup_insert_ne _ h _

@[simp] theorem connection_setConnection_self (m : TransportManager Conn) (pubkey : Bytes 32)
    (conn : Conn) : (m.setConnection pubkey conn).connection pubkey = some conn :=
  ConnectionTable.lookup_set_self _ _ _

theorem connection_setConnection_ne (m : TransportManager Conn) {pubkey other : Bytes 32}
    (h : other ≠ pubkey) (conn : Conn) :
    (m.setConnection pubkey conn).connection other = m.connection other :=
  ConnectionTable.lookup_set_ne _ h _

theorem Everywhere.remove (h : m.Everywhere Q) (pubkey : Bytes 32) :
    (m.remove pubkey).Everywhere Q := by
  intro other conn hconn
  by_cases hother : other = pubkey
  · subst hother
    rw [connection_remove_self] at hconn
    cases hconn
  · rw [connection_remove_ne m hother] at hconn
    exact h other conn hconn

/-- Changing one connection keeps `Q` of the others. -/
theorem Everywhere.setConnection (h : m.Everywhere Q) {pubkey : Bytes 32} {conn : Conn}
    (hconn : Q pubkey conn) : (m.setConnection pubkey conn).Everywhere Q := by
  intro other conn' hconn'
  by_cases hother : other = pubkey
  · subst hother
    rw [connection_setConnection_self] at hconn'
    cases hconn'
    exact hconn
  · rw [connection_setConnection_ne m hother] at hconn'
    exact h other conn' hconn'

theorem Everywhere.registerInbound (h : m.Everywhere Q) {peer : PeerIdentity} {conn : Conn}
    (hconn : Q peer.pubkey conn) : (m.registerInbound peer conn).Everywhere Q := by
  intro other conn' hconn'
  by_cases hother : other = peer.pubkey
  · subst hother
    rw [connection_registerInbound_self] at hconn'
    cases hconn'
    exact hconn
  · rw [connection_registerInbound_ne m hother] at hconn'
    exact h other conn' hconn'

theorem Everywhere.tickPower (h : m.Everywhere Q) (api : Connection Conn World) (now : ℕ)
    (around : Surroundings Conn World)
    (hincoming : ∀ entry ∈ around.bleIncoming, Q entry.1.pubkey entry.2) :
    (m.tickPower api now around).2.Everywhere Q := by
  have hremove : ∀ (t : ConnectionTable Conn) pubkey, Everywhere Q { m with connections := t } →
      Everywhere Q { m with connections := (t.disconnectPeer pubkey).2 } :=
    fun t pubkey ht => ht.remove pubkey
  have hinsert : ∀ entry ∈ around.bleIncoming, ∀ t : ConnectionTable Conn,
      Everywhere Q { m with connections := t } →
        Everywhere Q { m with connections := t.insert entry.1.pubkey entry.2 } :=
    fun entry hentry t ht => ht.registerInbound (hincoming entry hentry)
  exact tickPower_induction (m := m) hremove api now around (processBleIncoming_induction hinsert h)

end Everywhere

end TransportManager

open TransportManager

variable {Conn World : Type}

/-- What calls on connections do to connections that are `Whole`, in a world that satisfies `W`. -/
structure Preserves (api : Connection Conn World) (W : World → Prop)
    (Whole Partly : Bytes 32 → Conn → Prop) : Prop where
  partly : ∀ pubkey conn, Whole pubkey conn → Partly pubkey conn
  /-- A connection that breaks need not stay whole, since it is given up. -/
  send : ∀ pubkey conn msg world, Whole pubkey conn → W world →
    ((api.send conn msg world).1 ≠ .err .brokenPipe →
      Partly pubkey (api.send conn msg world).2.1 ∧
        ((api.send conn msg world).1 ≠ .pending → Whole pubkey (api.send conn msg world).2.1)) ∧
      W (api.send conn msg world).2.2
  world : ∀ peer world, W world → W (api.connectBle peer world).2
  /-- A BLE connection is whole, also when it breaks at the first `send`. -/
  ble : ∀ peer world conn world', api.connectBle peer world = (.ok conn, world') →
    Whole peer.pubkey conn ∧ ∀ msg world, Whole peer.pubkey (api.send conn msg world).2.1

/-- What an operation leaves: every connection is `Whole`, or, if a call was dropped, `Partly`.  All
its calls are of `send`. -/
structure Ran.Keeps {α : Type} (W : World → Prop) (Whole Partly : Bytes 32 → Conn → Prop)
    (r : Ran Conn World α) : Prop where
  whole : r.answer ≠ .pending → r.manager.Everywhere Whole
  partly : r.manager.Everywhere Partly
  world : W r.world
  sends : ∀ call ∈ r.calls, ∃ peer msg conn answer, call = .send peer msg conn answer

section Keeps

variable {α β : Type} {W : World → Prop} {Whole Partly : Bytes 32 → Conn → Prop}

/-- What leaves every connection whole. -/
theorem Ran.keeps_of_whole {r : Ran Conn World α}
    (hpartly : ∀ pubkey conn, Whole pubkey conn → Partly pubkey conn)
    (h : r.manager.Everywhere Whole) (hworld : W r.world)
    (hsends : ∀ call ∈ r.calls, ∃ peer msg conn answer, call = .send peer msg conn answer) :
    r.Keeps W Whole Partly :=
  ⟨fun _ => h, h.imp hpartly, hworld, hsends⟩

theorem Ran.Keeps.bind {r : Ran Conn World α}
    {f : α → TransportManager Conn → World → Ran Conn World β} (h : r.Keeps W Whole Partly)
    (hf : ∀ a, r.answer = .ok a → r.manager.Everywhere Whole →
      (f a r.manager r.world).Keeps W Whole Partly) : (r.bind f).Keeps W Whole Partly := by
  unfold Ran.bind
  split
  next a hanswer =>
    have hnext := hf a hanswer (h.whole (by simp [hanswer]))
    refine ⟨hnext.whole, hnext.partly, hnext.world, fun call hcall => ?_⟩
    rcases List.mem_append.1 hcall with hcall | hcall
    · exact h.sends call hcall
    · exact hnext.sends call hcall
  next hanswer => exact ⟨fun _ => h.whole (by simp [hanswer]), h.partly, h.world, h.sends⟩
  next hanswer => exact ⟨fun _ => h.whole (by simp [hanswer]), h.partly, h.world, h.sends⟩
  next => exact ⟨fun hpending => absurd rfl hpending, h.partly, h.world, h.sends⟩

theorem Ran.Keeps.map {r : Ran Conn World α} (h : r.Keeps W Whole Partly) (f : α → β) :
    (r.map f).Keeps W Whole Partly := by
  refine ⟨fun hpending => h.whole ?_, h.partly, h.world, h.sends⟩
  simpa [Ran.map] using hpending

variable {api : Connection Conn World} (hapi : Preserves api W Whole Partly)
  {m : TransportManager Conn}

include hapi

theorem keeps_sendNow (hm : m.Everywhere Whole) {world : World} (hworld : W world)
    (peer : PeerIdentity) (msg : ProtocolMessage) :
    (m.sendNow api peer msg world).Keeps W Whole Partly := by
  have hone : ∀ (conn : Conn) (answer : Awaited Unit),
      ∀ call ∈ [ConnectionCall.send peer msg conn answer], ∃ peer msg conn answer,
        call = .send peer msg conn answer :=
    fun conn answer call hcall => ⟨peer, msg, conn, answer, List.mem_singleton.1 hcall⟩
  have hsend := fun conn hconn => hapi.send peer.pubkey conn msg world (hm peer.pubkey conn hconn)
    hworld
  -- The connection that breaks is given up.
  have hremoved : ∀ conn, ((m.sendOn api peer msg conn world).manager.remove
      peer.pubkey).Everywhere Whole := by
    intro conn other conn' hconn'
    by_cases hother : other = peer.pubkey
    · subst hother
      rw [connection_remove_self] at hconn'
      cases hconn'
    · rw [connection_remove_ne _ hother] at hconn'
      refine hm other conn' ?_
      rwa [sendOn, connection_setConnection_ne m hother] at hconn'
  refine sendNow_cases (P := fun r => r.Keeps W Whole Partly) api m peer msg world
    (fun _ => Ran.keeps_of_whole hapi.partly hm hworld (by simp)) ?_ ?_ ?_
  · intro conn hconn hkept
    obtain ⟨hstays, hworld'⟩ := hsend conn hconn
    obtain ⟨hpartly, hwhole⟩ := hstays hkept
    refine ⟨fun hpending => hm.setConnection (hwhole hpending), ?_, hworld', hone conn _⟩
    exact (hm.imp hapi.partly).setConnection hpartly
  · intro conn e world' hconn _ hdialed
    have hworld' := hapi.world peer _ (hsend conn hconn).2
    rw [hdialed] at hworld'
    exact Ran.keeps_of_whole hapi.partly (hremoved conn) hworld' (hone conn _)
  · -- One over BLE takes its place, and is asked in its turn.
    intro conn conn' world' hconn _ hdialed
    have hworld' := hapi.world peer _ (hsend conn hconn).2
    rw [hdialed] at hworld'
    obtain ⟨hwhole, hstays⟩ := hapi.ble peer _ conn' world' hdialed
    have hregistered := (hremoved conn).registerInbound hwhole
    refine Ran.keeps_of_whole hapi.partly (hregistered.setConnection (hstays msg world')) ?_ ?_
    · exact (hapi.send peer.pubkey conn' msg world' hwhole hworld').2
    · exact List.forall_mem_cons.2 ⟨⟨peer, msg, conn, _, rfl⟩, hone conn' _⟩

theorem keeps_flush (hm : m.Everywhere Whole) {world : World} (hworld : W world)
    (pendings : List PendingMessage) : (m.flush api world pendings).Keeps W Whole Partly := by
  induction pendings generalizing m world with
  | nil => exact Ran.keeps_of_whole hapi.partly (hm.congr rfl) hworld (by simp [flush])
  | cons pending rest ih =>
    have hsent := keeps_sendNow hapi (m := { m with pendingMessages := rest }) (hm.congr rfl) hworld
      pending.peer pending.message
    unfold flush
    exact hsent.bind fun _ _ hwhole => (ih hwhole hsent.world).map _

theorem keeps_powerTickAt (hm : m.Everywhere Whole) (now : ℕ) {around : Surroundings Conn World}
    (hworld : W around.world)
    (hincoming : ∀ entry ∈ around.bleIncoming, Whole entry.1.pubkey entry.2) :
    (m.powerTickAt api now around).Keeps W Whole Partly := by
  have htick := hm.tickPower api now around hincoming
  unfold powerTickAt
  dsimp only
  apply Ran.Keeps.map
  split_ifs
  · exact keeps_flush hapi htick hworld _
  · exact Ran.keeps_of_whole hapi.partly htick hworld (by simp)

theorem keeps_sendToAt (hm : m.Everywhere Whole) (now : ℕ) {around : Surroundings Conn World}
    (hworld : W around.world)
    (hincoming : ∀ entry ∈ around.bleIncoming, Whole entry.1.pubkey entry.2) (peer : PeerIdentity)
    (msg : ProtocolMessage) : (m.sendToAt api peer msg now around).Keeps W Whole Partly := by
  have htick := keeps_powerTickAt hapi hm now hworld hincoming
  unfold sendToAt
  generalize m.powerTickAt api now around = r at htick
  refine htick.bind fun outcome _ hwhole => ?_
  dsimp only
  split_ifs
  · exact Ran.keeps_of_whole hapi.partly (hwhole.congr rfl) htick.world (by simp)
  · refine keeps_sendNow hapi ?_ htick.world peer msg
    exact hwhole.congr rfl

end Keeps

end StellarConduit
