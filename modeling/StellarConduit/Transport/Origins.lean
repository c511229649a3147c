import StellarConduit.Transport.Logging
import StellarConduit.Transport.Preservation

/-!
# Where connections come from

Every connection in the table of a manager was put there, and calls have been made on it since.

* `Descends`: what calls make of a connection;
* `ComesFrom`: every connection of a table descends from one of the given ones, under its key;
* `comesFrom_operate`: after an operation, every connection comes from one that was there before, or
  was handed in with the operation, or that is in its log as opened for the peer.
-/

namespace StellarConduit

open TransportManager

section Origins

variable {Conn World Addr : Type}

/-- What calls made of a connection. -/
inductive Descends (api : Connection Conn World) (conn : Conn) : Conn → Prop
  | refl : Descends api conn conn
  | send {conn' : Conn} (h : Descends api conn conn') (msg : ProtocolMessage) (world : World) :
    Descends api conn (api.send conn' msg world).2.1
  | recv {conn' : Conn} (h : Descends api conn conn') (world : World) :
    Descends api conn (api.recv conn' world).2.1

theorem Descends.trans {api : Connection Conn World} {conn conn' conn'' : Conn}
    (h : Descends api conn conn') (h' : Descends api conn' conn'') : Descends api conn conn'' := by
  induction h' with
  | refl => exact h
  | send _ msg world ih => exact ih.send msg world
  | recv _ world ih => exact ih.recv world

theorem Descends.called {radio : Radio Conn World Addr} {conn conn' : Conn}
    {world world' : LoggedWorld Conn World} {broken : Bool}
    (h : Called radio.logged.toConnection conn world broken conn' world') :
    Descends radio.toConnection conn conn' := by
  cases h with
  | send msg => exact Descends.refl.send msg world.1
  | recv => exact Descends.refl.recv world.1

/-- Giving up a connection leaves the others. -/
theorem ConnectionTable.lookup_of_disconnectPeer {t : ConnectionTable Conn}
    {pubkey other : Bytes 32} {conn : Conn}
    (h : (t.disconnectPeer pubkey).2.activeConnections.lookup other = some conn) :
    other ≠ pubkey ∧ t.activeConnections.lookup other = some conn := by
  by_cases hkey : other = pubkey
  · subst hkey
    rw [lookup_disconnectPeer_self] at h
    cases h
  · exact ⟨hkey, (t.lookup_disconnectPeer_ne hkey).symm.trans h⟩

/-- Every connection of a table comes from one of `sources`, under its key. -/
def ConnectionTable.ComesFrom (api : Connection Conn World) (t : ConnectionTable Conn)
    (sources : Bytes 32 → Conn → Prop) : Prop :=
  ∀ pubkey conn', t.activeConnections.lookup pubkey = some conn' →
    ∃ conn, sources pubkey conn ∧ Descends api conn conn'

/-- What was in a table before comes from there. -/
theorem ConnectionTable.comesFrom_of_lookup {api : Connection Conn World} {t : ConnectionTable Conn}
    {sources : Bytes 32 → Conn → Prop}
    (h : ∀ pubkey conn, t.activeConnections.lookup pubkey = some conn → sources pubkey conn) :
    t.ComesFrom api sources :=
  fun pubkey conn hconn => ⟨conn, h pubkey conn hconn, .refl⟩

theorem ConnectionTable.comesFrom_insert {api : Connection Conn World} {t : ConnectionTable Conn}
    {sources : Bytes 32 → Conn → Prop} {pubkey : Bytes 32} {conn : Conn}
    (h : ∀ pubkey conn, t.activeConnections.lookup pubkey = some conn → sources pubkey conn)
    (hconn : sources pubkey conn) : (t.insert pubkey conn).ComesFrom api sources := by
  refine comesFrom_of_lookup fun other conn' hother => ?_
  by_cases hkey : other = pubkey
  · subst hkey
    obtain rfl : conn = conn' := Option.some.inj ((t.lookup_insert_self _ _).symm.trans hother)
    exact hconn
  · exact h other conn' ((t.lookup_insert_ne hkey conn).symm.trans hother)

/-- What is in the log of a radio was opened, for the peer that it has. -/
def OpenedIn (radio : Radio Conn World Addr) (log : List (RadioEvent Conn)) (pubkey : Bytes 32)
    (conn : Conn) : Prop :=
  conn ∈ log.filterMap RadioEvent.opened ∧ (radio.remotePeer conn).pubkey = pubkey

theorem openedIn_append {radio : Radio Conn World Addr} {log log' : List (RadioEvent Conn)}
    {pubkey : Bytes 32} {conn : Conn} :
    OpenedIn radio (log ++ log') pubkey conn ↔
      OpenedIn radio log pubkey conn ∨ OpenedIn radio log' pubkey conn := by
  unfold OpenedIn
  rw [List.filterMap_append, List.mem_append, or_and_right]

/-- An attempt that succeeds is in the log, with the connection that it opened. -/
theorem openedIn_dialed {radio : Radio Conn World Addr} {dialed : Except TransportError Conn}
    {peer : PeerIdentity} {conn : Conn}
    (hpeer : ∀ conn ∈ dialed.toOption, radio.remotePeer conn = peer) (hopened : dialed = .ok conn)
    (log : List (RadioEvent Conn)) (transport : TransportType) :
    OpenedIn radio (log ++ [.dialed transport dialed.toOption]) peer.pubkey conn := by
  subst hopened
  refine ⟨List.mem_filterMap.2 ⟨_, List.mem_append_right _ (List.mem_singleton_self _), rfl⟩, ?_⟩
  exact congrArg PeerIdentity.pubkey (hpeer conn rfl)

/-- The radio gives every connection the peer for which it was opened. -/
structure Radio.NamesPeers (radio : Radio Conn World Addr) : Prop where
  connectBle : ∀ peer world, ∀ conn ∈ (radio.connectBle peer world).1.toOption,
    radio.remotePeer conn = peer
  connectWifi : ∀ peer addr world, ∀ conn ∈ (radio.connectWifi peer addr world).1.toOption,
    radio.remotePeer conn = peer

variable {radio : Radio Conn World Addr} (hnames : radio.NamesPeers)

include hnames

/-- Calls, and connections that are given up, put only what they open into a table. -/
theorem moves_comesFrom : TableMoves radio.logged.toConnection fun s s' =>
      ∃ log, s'.2.2 = s.2.2 ++ log ∧
        s'.1.ComesFrom radio.toConnection fun pubkey conn =>
          s.1.activeConnections.lookup pubkey = some conn ∨ OpenedIn radio log pubkey conn where
  refl s := ⟨[], (List.append_nil _).symm, fun _ conn hconn => ⟨conn, Or.inl hconn, .refl⟩⟩
  trans s s' s'' h h' := by
    obtain ⟨log, hlog, hfrom⟩ := h
    obtain ⟨log', hlog', hfrom'⟩ := h'
    refine ⟨log ++ log', by rw [hlog', hlog, List.append_assoc], fun pubkey conn'' hconn'' => ?_⟩
    obtain ⟨conn', hsource', hdescends'⟩ := hfrom' pubkey conn'' hconn''
    rcases hsource' with hconn' | hopened
    · obtain ⟨conn, hsource, hdescends⟩ := hfrom pubkey conn' hconn'
      exact ⟨conn, hsource.imp id fun hopened => openedIn_append.2 (Or.inl hopened),
        hdescends.trans hdescends'⟩
    · exact ⟨conn', Or.inr (openedIn_append.2 (Or.inr hopened)), hdescends'⟩
  call t pubkey conn world broken conn' world' hconn hcalled := by
    refine ⟨[.called broken], log_of_called hcalled, fun other conn'' hother => ?_⟩
    by_cases hkey : other = pubkey
    · subst hkey
      obtain rfl : conn' = conn'' := Option.some.inj ((t.lookup_set_self _ _).symm.trans hother)
      exact ⟨conn, Or.inl hconn, .called hcalled⟩
    · exact ⟨conn'', Or.inl ((t.lookup_set_ne hkey conn').symm.trans hother), .refl⟩
  failOver t pubkey conn world conn' world' peer hconn hcalled := by
    have hgiven : ∀ other conn'', ((t.set pubkey conn').disconnectPeer
        pubkey).2.activeConnections.lookup other = some conn'' →
          t.activeConnections.lookup other = some conn'' := by
      intro other conn'' hother
      obtain ⟨hne, hset⟩ := ConnectionTable.lookup_of_disconnectPeer hother
      exact (t.lookup_set_ne hne conn').symm.trans hset
    have hlog := log_of_called hcalled
    unfold ConnectionTable.failOver
    generalize ((t.set pubkey conn').disconnectPeer pubkey).2 = given at hgiven
    dsimp only
    have hdialed : radio.logged.connectBle peer world' = ((radio.connectBle peer world'.1).1,
        (radio.connectBle peer world'.1).2,
        world'.2 ++ [.dialed .ble (radio.connectBle peer world'.1).1.toOption]) := rfl
    rw [hdialed]
    rcases hopened : radio.connectBle peer world'.1 with ⟨result, world''⟩
    dsimp only
    refine ⟨[.called true, .dialed .ble result.toOption], ?_⟩
    -- The table that is left keeps what it had; what is opened for the peer is in the log.
    have hkept : ∀ log other conn'', given.activeConnections.lookup other = some conn'' →
        t.activeConnections.lookup other = some conn'' ∨ OpenedIn radio log other conn'' :=
      fun log other conn'' hother => Or.inl (hgiven other conn'' hother)
    cases result with
    | error e =>
      exact ⟨by rw [hlog, List.append_assoc]; rfl, ConnectionTable.comesFrom_of_lookup (hkept _)⟩
    | ok opened =>
      have hpeer := hnames.connectBle peer world'.1
      rw [hopened] at hpeer
      exact ⟨by rw [hlog, List.append_assoc]; rfl, ConnectionTable.comesFrom_insert (hkept _)
        (Or.inr (openedIn_dialed hpeer rfl [.called true] .ble))⟩

omit hnames in
/-- A connection that is there after a tick was there before, or was delivered to the tick. -/
theorem lookup_tickPower {api : Connection Conn World} {m : TransportManager Conn} {now : ℕ}
    {around : Surroundings Conn World} {pubkey : Bytes 32} {conn : Conn}
    (hconn : (m.tickPower api now around).2.connections.activeConnections.lookup pubkey =
      some conn) :
    m.connection pubkey = some conn ∨
      ∃ entry ∈ around.bleIncoming, entry.1.pubkey = pubkey ∧ entry.2 = conn := by
  let Known : ConnectionTable Conn → Prop := fun t => ∀ pubkey conn,
    t.activeConnections.lookup pubkey = some conn → m.connection pubkey = some conn ∨
      ∃ entry ∈ around.bleIncoming, entry.1.pubkey = pubkey ∧ entry.2 = conn
  have hinsert : ∀ entry ∈ around.bleIncoming, ∀ t, Known t →
      Known (t.insert entry.1.pubkey entry.2) := by
    intro entry hentry t ht other conn hother
    by_cases hkey : other = entry.1.pubkey
    · subst hkey
      rw [t.lookup_insert_self] at hother
      exact Or.inr ⟨entry, hentry, rfl, Option.some.inj hother⟩
    · exact ht other conn ((t.lookup_insert_ne hkey entry.2).symm.trans hother)
  have hremove : ∀ t pubkey, Known t → Known (t.disconnectPeer pubkey).2 :=
    fun t pubkey ht other conn hother =>
      ht other conn (ConnectionTable.lookup_of_disconnectPeer hother).2
  have hregistered : Known (m.processBleIncoming around.bleIncoming).connections :=
    processBleIncoming_induction hinsert fun _ _ hconn => Or.inl hconn
  exact tickPower_induction hremove api now around hregistered pubkey conn hconn

/-- What an operation is handed to register: what a listener delivered, or its argument. -/
def Operation.handedIn : Operation Conn World Addr → List (PeerIdentity × Conn)
  | .sendToAt _ _ _ around | .recvAnyAt _ around | .powerTickAt _ around => around.bleIncoming
  | .registerInbound peer conn _ => [(peer, conn)]
  | _ => []

omit hnames in
/-- So every operation that starts with a tick leaves connections that come from before, from what
the tick was handed, or from what it opens. -/
theorem comesFrom_of_moved {α : Type} {m : TransportManager Conn} {now : ℕ}
    {around : Surroundings Conn World} {r : Ran Conn (LoggedWorld Conn World) α}
    (hmoved : ∃ log, r.site.2.2 = [] ++ log ∧
      r.site.1.ComesFrom radio.toConnection fun pubkey conn =>
        (m.tickPower radio.logged.toConnection now
            around.logged).2.connections.activeConnections.lookup pubkey = some conn ∨
          OpenedIn radio log pubkey conn) :
    r.manager.connections.ComesFrom radio.toConnection fun pubkey conn =>
      m.connection pubkey = some conn ∨
        (∃ entry ∈ around.bleIncoming, entry.1.pubkey = pubkey ∧ entry.2 = conn) ∨
          OpenedIn radio r.world.2 pubkey conn := by
  obtain ⟨log, hlog, hfrom⟩ := hmoved
  rw [List.nil_append] at hlog
  intro pubkey conn' hconn'
  obtain ⟨conn, hsource, hdescends⟩ := hfrom pubkey conn' hconn'
  refine ⟨conn, ?_, hdescends⟩
  rcases hsource with hticked | hopened
  · exact (lookup_tickPower hticked).imp id Or.inl
  · exact Or.inr (Or.inr (hlog ▸ hopened))

theorem openedIn_connectBle {peer : PeerIdentity} {world : LoggedWorld Conn World} {conn : Conn}
    (hopened : (radio.logged.connectBle peer world).1 = .ok conn) :
    OpenedIn radio (radio.logged.connectBle peer world).2.2 peer.pubkey conn :=
  openedIn_dialed (hnames.connectBle peer world.1) hopened world.2 .ble

theorem openedIn_connectWifi {peer : PeerIdentity} {addr : Addr} {world : LoggedWorld Conn World}
    {conn : Conn} (hopened : (radio.logged.connectWifi peer addr world).1 = .ok conn) :
    OpenedIn radio (radio.logged.connectWifi peer addr world).2.2 peer.pubkey conn :=
  openedIn_dialed (hnames.connectWifi peer addr world.1) hopened world.2 .wifiDirect

/-- The connection that is dialed for `connect` is in the log. -/
theorem openedIn_dial {preference : TransportPreference} {peer : PeerIdentity}
    {wifiAddr : Option Addr} {world : LoggedWorld Conn World} {conn : Conn}
    (hopened : (radio.logged.dial preference peer wifiAddr world).1 = .ok conn) :
    OpenedIn radio (radio.logged.dial preference peer wifiAddr world).2.2 peer.pubkey conn := by
  unfold Radio.dial at hopened ⊢
  cases preference with
  | wifiOnly =>
    cases wifiAddr with
    | none => cases hopened
    | some addr => exact openedIn_connectWifi hnames hopened
  | bleOnly => exact openedIn_connectBle hnames hopened
  | auto =>
    cases wifiAddr with
    | none => exact openedIn_connectBle hnames hopened
    | some addr =>
      have hwifi : (radio.logged.connectWifi peer addr world).1 = .ok conn →
          OpenedIn radio (radio.logged.connectWifi peer addr world).2.2 peer.pubkey conn :=
        openedIn_connectWifi hnames
      dsimp only at hopened ⊢
      generalize radio.logged.connectWifi peer addr world = dialed at hwifi hopened ⊢
      obtain ⟨result, world'⟩ := dialed
      cases result with
      | ok conn' => exact hwifi hopened
      | error e =>
        cases e with
        | connectionRefused | timeout => exact openedIn_connectBle hnames hopened
        | notConnected | brokenPipe | payloadTooLarge | encryptionError => cases hopened

/-! ### The operations -/

/-- **Where the connections of a manager come from.**  After any operation, they were there before,
or were handed in with it, or were opened in it. -/
theorem comesFrom_operate (preference : TransportPreference) (m : TransportManager Conn)
    (op : Operation Conn World Addr) :
    (operate radio preference m op).manager.connections.ComesFrom radio.toConnection
      fun pubkey conn =>
        m.connection pubkey = some conn ∨
          (∃ entry ∈ op.handedIn, entry.1.pubkey = pubkey ∧ entry.2 = conn) ∨
            OpenedIn radio (radioLog radio preference m op) pubkey conn := by
  have hmoves := moves_comesFrom hnames
  rw [← project_operate_logged]
  unfold radioLog operateLogged
  cases op with
  | sendToAt peer msg now around =>
    exact comesFrom_of_moved (moved_sendToAt hmoves peer msg now around.logged)
  | recvAnyAt now around => exact comesFrom_of_moved (moved_recvAnyAt hmoves now around.logged)
  | powerTickAt now around => exact comesFrom_of_moved (moved_powerTickAt hmoves now around.logged)
  | connect peer wifiAddr world =>
    have hopened : ∀ conn, (radio.logged.dial preference peer wifiAddr (world, [])).1 = .ok conn →
        OpenedIn radio (radio.logged.dial preference peer wifiAddr (world, [])).2.2 peer.pubkey
          conn := fun conn => openedIn_dial hnames
    show (m.connect radio.logged preference peer wifiAddr
      (world, [])).manager.connections.ComesFrom radio.toConnection fun pubkey conn =>
        m.connection pubkey = some conn ∨ _ ∨ OpenedIn radio
          (m.connect radio.logged preference peer wifiAddr (world, [])).world.2 pubkey conn
    unfold connect
    generalize radio.logged.dial preference peer wifiAddr (world, []) = dialed at hopened ⊢
    obtain ⟨result, world'⟩ := dialed
    cases result with
    | error e => exact ConnectionTable.comesFrom_of_lookup fun _ _ hconn => Or.inl hconn
    | ok conn =>
      exact ConnectionTable.comesFrom_insert (fun _ _ hconn => Or.inl hconn)
        (Or.inr (Or.inr (hopened conn rfl)))
  | registerInbound peer conn world =>
    exact ConnectionTable.comesFrom_insert (fun _ _ hconn => Or.inl hconn)
      (Or.inr (Or.inl ⟨(peer, conn), List.mem_singleton_self _, rfl, rfl⟩))
  | disconnectPeer pubkey world =>
    exact ConnectionTable.comesFrom_of_lookup fun _ _ hconn =>
      Or.inl (ConnectionTable.lookup_of_disconnectPeer hconn).2
  | notifyMacRotated world =>
    refine ConnectionTable.comesFrom_of_lookup fun pubkey conn hconn => Or.inl ?_
    revert pubkey conn
    exact notifyMacRotated_induction (P := fun t => ∀ pubkey conn,
      t.activeConnections.lookup pubkey = some conn → m.connection pubkey = some conn)
      (fun t pubkey ht other conn hother =>
        ht other conn (ConnectionTable.lookup_of_disconnectPeer hother).2) _
      fun _ _ hconn => hconn
  | shutdown world =>
    exact ConnectionTable.comesFrom_of_lookup fun _ _ hconn => by cases hconn

end Origins

end StellarConduit
