import StellarConduit.Transport.Dropped
import StellarConduit.Transport.Preservation
import StellarConduit.Transport.WifiLink

/-!
# Polling for messages

`recv_any_at` calls `recv` on each connection under a timeout of one millisecond.  A call that is
dropped has taken the bytes of the frame that had begun to arrive.

* `PollState`: a peer and the manager that holds a WiFi-Direct connection to it, as a machine: the
  peer sends, written bytes arrive in portions of any size, and the manager polls;
* `Settled`: a `recv` on the connection leaves no part of a frame behind;
* `loss_free`: if every `recv` finds the connection settled, the polls return what was written.
-/

namespace StellarConduit

open Verif.Bytes Verif.Machine TransportManager

/-! ### A dropped `recv` -/

/-- Fed with the frames, the reassembler hands out a message. -/
def HandsOut (clock : ℕ → ℕ) (r : MessageReassembler) : List ChunkFrame → Prop
  | [] => False
  | f :: fs =>
    match r.receiveChunk f (clock 0) with
    | .ok (none, r') => HandsOut (fun k => clock (k + 1)) r' fs
    | .ok (some _, _) => True
    | .error _ => False

/-- The bytes that have arrived and were not read are whole frames, or their whole frames complete
a message. -/
def WifiDirectConnection.Settled (c : WifiDirectConnection) : Prop :=
  ∀ stream ∈ c.stream, ∃ (frames : List ChunkFrame) (rest : List UInt8),
    stream.incoming = wire frames ++ rest ∧ (∀ f ∈ frames, f.WellFormed) ∧
      (rest = [] ∨ ∀ clock, HandsOut clock c.reassembler frames)

/-- A loop that waits has read everything. -/
theorem recvLoop_settled {rmp : RmpSerde} {clock : ℕ → ℕ} {stream : TcpStream}
    {r : MessageReassembler} (hopen : stream.ended = false) {frames : List ChunkFrame}
    {rest : List UInt8} (hincoming : stream.incoming = wire frames ++ rest)
    (hwf : ∀ f ∈ frames, f.WellFormed) (hrest : rest = [] ∨ HandsOut clock r frames)
    (hpending : (recvLoop rmp clock stream r).1 = .pending) :
    (recvLoop rmp clock stream r).2.1.incoming = [] := by
  induction frames generalizing clock stream r with
  | nil =>
    rcases hrest with rfl | hfalse
    · have hnil : stream.incoming = [] := hincoming
      rw [recvLoop_of_pending (readFrame_nil hopen hnil)]
      exact hnil
    · exact hfalse.elim
  | cons f fs ih =>
    have hsplit : stream.incoming = frame 4 f.encode ++ (wire fs ++ rest) := by
      rw [hincoming, ← List.append_assoc]
      rfl
    have hread := readFrame_of_frame (hwf f List.mem_cons_self) hsplit
    have hwf' : ∀ g ∈ fs, g.WellFormed := fun g hg => hwf g (List.mem_cons_of_mem f hg)
    simp only [HandsOut] at hrest
    rw [recvLoop_of_frame hread] at hpending ⊢
    -- A frame that completes a message ends the loop, so the loop that waits has read them all.
    rcases hreceive : r.receiveChunk f (clock 0) with panic | ⟨message, r'⟩
    · rw [hreceive] at hpending
      cases hpending
    · rw [hreceive] at hrest hpending
      cases message with
      | none =>
        have hopen' : TcpStream.ended { stream with incoming := wire fs ++ rest } = false := hopen
        exact ih hopen' rfl hwf' hrest hpending
      | some bytes =>
        dsimp only at hpending
        split at hpending <;> cases hpending

/-- A `recv` of a settled connection that is dropped has taken nothing. -/
theorem recvFor_of_settled {rmp : RmpSerde} {c : WifiDirectConnection} (hsettled : c.Settled)
    (hopen : ∀ stream ∈ c.stream, stream.ended = false) (clock : ℕ → ℕ) :
    c.recvFor rmp clock = c.recv rmp clock := by
  unfold WifiDirectConnection.recvFor
  split
  next c' hrecv =>
    rw [hrecv]
    unfold WifiDirectConnection.recv at hrecv
    split_ifs at hrecv with hstate
    · cases hrecv
    · cases hstream : c.stream with
      | none =>
        rw [hstream] at hrecv
        cases hrecv
      | some stream =>
        rw [hstream] at hrecv
        obtain ⟨frames, rest, hincoming, hwf, hrest⟩ := hsettled stream hstream
        have hnil : (recvLoop rmp clock stream c.reassembler).1 = .pending →
            (recvLoop rmp clock stream c.reassembler).2.1.incoming = [] :=
          recvLoop_settled (hopen stream hstream) hincoming hwf (hrest.imp_right fun h => h clock)
        rcases hloop : recvLoop rmp clock stream c.reassembler with ⟨out, stream', r'⟩
        dsimp only at hrecv
        rw [hloop] at hnil hrecv
        cases hrecv
        have hincoming' : stream'.incoming = [] := hnil rfl
        simp only [Option.map_some]
        rw [← hincoming']
  next => rfl

/-! ### The machine -/

/-- A peer, and the manager that holds a connection to it. -/
structure PollState (Ble : Type) where
  sender : WifiDirectConnection
  manager : TransportManager (AnyConnection Ble)

inductive PollInput (Ble World : Type)
  /-- The peer sends a message. -/
  | send (messageId : UInt32) (msg : ProtocolMessage)
  /-- The next bytes on their way arrive. -/
  | arrive (n : ℕ)
  | recvAnyAt (now : ℕ) (around : Surroundings Ble World) (wifi : WifiWorld)

inductive PollOutput (Ble : Type)
  | sent (result : Except TransportError Unit)
  | arrived
  | polled (answer : Awaited (Option (PeerIdentity × ProtocolMessage)))
    (calls : List (ConnectionCall (AnyConnection Ble)))

namespace PollState

variable {Ble World : Type}

/-- The manager registers a WiFi-Direct connection to the peer, over a stream that was just opened,
which breaks after so many bytes were written to it, if it does. -/
def registered (manager : TransportManager (AnyConnection Ble)) (peer : PeerIdentity)
    (breaksAfter : Option ℕ) : PollState Ble where
  sender := .fromStream .opened
  manager :=
    let c := WifiDirectConnection.fromStream { TcpStream.opened with breaksAfter := breaksAfter }
    manager.registerInbound peer (.inl (peer, c))

/-- While the connection is there, TCP delivers the written bytes in order. -/
def arrive (peer : PeerIdentity) (s : PollState Ble) (n : ℕ) : PollState Ble :=
  match s.manager.connection peer.pubkey with
  | some (.inl (remote, c)) =>
    let l := Link.arrive ⟨s.sender, c⟩ n
    ⟨l.sender, s.manager.setConnection peer.pubkey (.inl (remote, l.receiver))⟩
  | _ => s

def step (rmp : RmpSerde) (ble : Connection Ble World) (peer : PeerIdentity) (s : PollState Ble) :
    PollInput Ble World → PollOutput Ble × PollState Ble
  | .send messageId msg =>
    let (result, sender) := s.sender.send rmp messageId msg
    (.sent result, { s with sender := sender })
  | .arrive n => (.arrived, s.arrive peer n)
  | .recvAnyAt now around wifi =>
    let polled := s.manager.recvAnyAt (wifiApi rmp ble) now (around.withWifi wifi)
    (.polled polled.answer polled.calls, { s with manager := polled.manager })

end PollState

abbrev PollEvent (Ble World : Type) := Event (PollState Ble) (PollInput Ble World) (PollOutput Ble)

section Events

variable {Ble World : Type}

/-- The message that a successful `send` wrote. -/
def writtenMessage (rmp : RmpSerde) (e : PollEvent Ble World) : Option ProtocolMessage :=
  match e.input, e.output with
  | .send _ msg, .sent (.ok ()) => if Fits rmp msg then some msg else none
  | _, _ => none

/-- The call is a `recv` on the WiFi-Direct connection to the peer. -/
def ConnectionCall.polls (pubkey : Bytes 32) : ConnectionCall (AnyConnection Ble) → Bool
  | .recv key (.inl _) _ => decide (key = pubkey)
  | _ => false

/-- The message that an operation returned, if it came from the WiFi-Direct connection to the peer,
on which the last call was made then. -/
def returnedFrom (pubkey : Bytes 32)
    (answer : Awaited (Option (PeerIdentity × ProtocolMessage)))
    (calls : List (ConnectionCall (AnyConnection Ble))) : Option ProtocolMessage :=
  match answer with
  | .ok (some (_, msg)) => if calls.getLast?.any (·.polls pubkey) then some msg else none
  | _ => none

/-- The message that a poll returned, if it came from the WiFi-Direct connection to the peer. -/
def polledMessage (pubkey : Bytes 32) (e : PollEvent Ble World) : Option ProtocolMessage :=
  match e.output with
  | .polled answer calls => returnedFrom pubkey answer calls
  | _ => none

/-- Each `recv` on the connection to the peer finds it settled. -/
def FindsSettled (pubkey : Bytes 32) (e : PollEvent Ble World) : Prop :=
  ∀ answer calls, e.output = .polled answer calls → ∀ call ∈ calls, ∀ remote c received,
    call = .recv pubkey (.inl (remote, c)) received → c.Settled

end Events

/-! ### What is on its way to the connection -/

section Carries

variable {Ble World : Type} {rmp : RmpSerde} {ble : Connection Ble World}
  {sender : WifiDirectConnection} {pubkey : Bytes 32} {queue : List ProtocolMessage}

/-- The WiFi-Direct connection to the peer will receive the messages of the queue. -/
def CarriesTo (rmp : RmpSerde) (sender : WifiDirectConnection) (pubkey : Bytes 32)
    (queue : List ProtocolMessage) (key : Bytes 32) : AnyConnection Ble → Prop
  | .inl (_, c) => key = pubkey → Link.Carries rmp ⟨sender, c⟩ queue
  | .inr _ => True

/-- Writing on a stream does not change what it carries. -/
theorem Link.Carries.write {c : WifiDirectConnection} (h : Link.Carries rmp ⟨sender, c⟩ queue)
    {stream stream' : TcpStream} (hstream : c.stream = some stream)
    (hincoming : stream'.incoming = stream.incoming) (hended : stream'.ended = stream.ended) :
    Link.Carries rmp ⟨sender, { c with stream := some stream' }⟩ queue := by
  obtain ⟨s, t, r, hlink, hs, ht, hcarries⟩ := h
  obtain ⟨rfl, rfl⟩ := Link.mk.inj hlink
  obtain rfl : t = stream := Option.some.inj hstream
  refine ⟨s, stream', r, rfl, hs, hended.trans ht, ?_⟩
  rwa [hincoming]

theorem preserves_carriesTo :
    Preserves (wifiApi rmp ble) (fun _ => True) (CarriesTo rmp sender pubkey queue)
      (CarriesTo rmp sender pubkey queue) where
  partly _ _ h := h
  send key conn msg world h _ := by
    have hsent : CarriesTo rmp sender pubkey queue key
        ((wifiApi rmp ble).send conn msg world).2.1 := by
      obtain ⟨wifi, world⟩ := world
      rcases conn with ⟨remote, c⟩ | b
      · rcases sendUntil_spec rmp c (wifi.messageIds 0) msg wifi.timeout with
          ⟨e, hsend⟩ | ⟨stream, stream', bytes, answer, cut, hstream, hsend, hsent⟩
        · simpa only [wifiApi, hsend] using h
        · simp only [wifiApi, hsend]
          exact fun hkey => (h hkey).write hstream hsent.incoming hsent.ended
      · trivial
    exact ⟨fun _ => ⟨hsent, fun _ => hsent⟩, trivial⟩
  world _ _ _ := trivial
  ble peer world conn world' h := by
    obtain ⟨b, rfl⟩ := connectBle_eq_inr h
    exact ⟨trivial, fun _ _ => trivial⟩

theorem carries_recvFor {c : WifiDirectConnection} (h : Link.Carries rmp ⟨sender, c⟩ queue)
    (hsettled : c.Settled) (clock : ℕ → ℕ) :
    ∃ queue', Link.Carries rmp ⟨sender, (c.recvFor rmp clock).2⟩ queue' ∧
      ((∃ msg, (c.recvFor rmp clock).1 = .ok msg ∧ queue = msg :: queue') ∨
        (c.recvFor rmp clock).1 = .pending ∧ queue = queue') := by
  have hopen : ∀ stream ∈ c.stream, stream.ended = false := by
    obtain ⟨s, t, r, hlink, -, ht, -⟩ := h
    obtain ⟨-, rfl⟩ := Link.mk.inj hlink
    intro stream hstream
    cases hstream
    exact ht
  rw [recvFor_of_settled hsettled hopen]
  obtain ⟨out, queue', hout, hcarries, -, hcases⟩ := carries_recv h clock
  obtain rfl : (c.recv rmp clock).1 = out := LinkOutput.received.inj hout
  refine ⟨queue', hcarries, hcases.imp_right fun ⟨hpending, hqueue, _⟩ => ⟨hpending, hqueue⟩⟩

/-! ### One poll -/

/-- What an operation on a manager, to whose connection the messages of the queue are on their way,
did with them. -/
structure Polled (rmp : RmpSerde) (sender : WifiDirectConnection) (pubkey : Bytes 32)
    (queue : List ProtocolMessage)
    (r : Ran (AnyConnection Ble) (WifiWorld × World) (Option (PeerIdentity × ProtocolMessage))) :
    Prop where
  carries : ∃ queue', r.manager.Everywhere (CarriesTo rmp sender pubkey queue') ∧
    queue = (returnedFrom pubkey r.answer r.calls).toList ++ queue'
  faultless : ∀ call ∈ r.calls, ∀ remote c received,
    call = .recv pubkey (.inl (remote, c)) received →
      received = .pending ∨ ∃ msg, received = .ok msg

/-- Earlier calls do not count. -/
theorem returnedFrom_append {answer : Awaited (Option (PeerIdentity × ProtocolMessage))}
    {calls : List (ConnectionCall (AnyConnection Ble))} (h : calls = [] → answer = .ok none)
    (before : List (ConnectionCall (AnyConnection Ble))) :
    returnedFrom pubkey answer (before ++ calls) = returnedFrom pubkey answer calls := by
  by_cases hnil : calls = []
  · rw [h hnil]
    rfl
  · unfold returnedFrom
    rw [List.getLast?_append_of_ne_nil before hnil]

/-- A poll without calls returns nothing. -/
theorem answer_pollKeys {Conn World : Type} {api : Connection Conn World} {now : ℕ}
    {m : TransportManager Conn} {world : World} {keys : List (Bytes 32)}
    (h : (pollKeys api now m world keys).calls = []) :
    (pollKeys api now m world keys).answer = .ok none := by
  induction keys with
  | nil => rfl
  | cons key keys ih =>
    unfold pollKeys at h ⊢
    split at h
    next => exact ih h
    next => cases h

theorem Polled.after
    {r : Ran (AnyConnection Ble) (WifiWorld × World) (Option (PeerIdentity × ProtocolMessage))}
    (h : Polled rmp sender pubkey queue r) (hnil : r.calls = [] → r.answer = .ok none)
    {call : ConnectionCall (AnyConnection Ble)}
    (hcall : ∀ remote c received, call = .recv pubkey (.inl (remote, c)) received →
      received = .pending ∨ ∃ msg, received = .ok msg) :
    Polled rmp sender pubkey queue (r.after call) := by
  obtain ⟨queue', hcarries, hqueue⟩ := h.carries
  refine ⟨⟨queue', hcarries, ?_⟩, List.forall_mem_cons.2 ⟨hcall, h.faultless⟩⟩
  rwa [← returnedFrom_append hnil [call]] at hqueue

/-- One `recv`: it is on another connection, or it takes the first message of the queue, or it is
dropped. -/
theorem carriesTo_recv {key : Bytes 32} {conn conn' : AnyConnection Ble}
    {world world' : WifiWorld × World} {answer : Awaited ProtocolMessage}
    (hrecv : (wifiApi rmp ble).recv conn world = (answer, conn', world'))
    (h : CarriesTo rmp sender pubkey queue key conn)
    (hsettled : ∀ remote c, key = pubkey → conn = .inl (remote, c) → c.Settled) :
    (ConnectionCall.recv key conn answer).polls pubkey = false ∧
        CarriesTo rmp sender pubkey queue key conn' ∨
      (ConnectionCall.recv key conn answer).polls pubkey = true ∧ key = pubkey ∧
        ∃ queue', CarriesTo rmp sender pubkey queue' pubkey conn' ∧
          ((∃ msg, answer = .ok msg ∧ queue = msg :: queue') ∨
            answer = .pending ∧ queue = queue') := by
  obtain ⟨wifi, world⟩ := world
  rcases conn with ⟨remote, c⟩ | b
  · simp only [wifiApi, Prod.mk.injEq] at hrecv
    obtain ⟨rfl, rfl, -⟩ := hrecv
    by_cases hkey : key = pubkey
    · subst hkey
      obtain ⟨queue', hcarries, hcases⟩ :=
        carries_recvFor (h rfl) (hsettled remote c rfl rfl) (wifi.clocks 0)
      exact Or.inr ⟨decide_eq_true rfl, rfl, queue', fun _ => hcarries, hcases⟩
    · exact Or.inl ⟨decide_eq_false hkey, fun heq => absurd heq hkey⟩
  · simp only [wifiApi, Prod.mk.injEq] at hrecv
    obtain ⟨-, rfl, -⟩ := hrecv
    exact Or.inl ⟨rfl, trivial⟩

/-- Only the connection to the peer counts. -/
theorem everywhere_setConnection (m : TransportManager (AnyConnection Ble))
    {conn : AnyConnection Ble} (h : CarriesTo rmp sender pubkey queue pubkey conn) :
    (m.setConnection pubkey conn).Everywhere (CarriesTo rmp sender pubkey queue) := by
  intro other conn' hconn'
  by_cases hother : other = pubkey
  · subst hother
    rw [connection_setConnection_self] at hconn'
    cases hconn'
    exact h
  · rcases conn' with ⟨remote, c⟩ | b
    · exact fun heq => absurd heq hother
    · trivial

theorem everywhere_bleFallback {m : TransportManager (AnyConnection Ble)}
    (hm : m.Everywhere (CarriesTo rmp sender pubkey queue)) (peer : PeerIdentity)
    (world : WifiWorld × World) :
    (bleFallback (wifiApi rmp ble) m peer world).manager.Everywhere
      (CarriesTo rmp sender pubkey queue) := by
  unfold bleFallback
  split
  next => exact hm
  next conn _ hconnect =>
    obtain ⟨b, rfl⟩ := connectBle_eq_inr hconnect
    exact hm.registerInbound trivial

theorem polled_pollKeys {m : TransportManager (AnyConnection Ble)}
    (hm : m.Everywhere (CarriesTo rmp sender pubkey queue)) (now : ℕ) (world : WifiWorld × World)
    (keys : List (Bytes 32))
    (hsettled : ∀ call ∈ (pollKeys (wifiApi rmp ble) now m world keys).calls,
      ∀ remote c received, call = .recv pubkey (.inl (remote, c)) received → c.Settled) :
    Polled rmp sender pubkey queue (pollKeys (wifiApi rmp ble) now m world keys) := by
  induction keys generalizing m world queue with
  | nil => exact ⟨⟨queue, hm, rfl⟩, by simp [pollKeys]⟩
  | cons key keys ih =>
    cases hconn : m.connection key with
    | none =>
      simp only [pollKeys, hconn] at hsettled ⊢
      exact ih hm world hsettled
    | some conn =>
      rcases hrecv : (wifiApi rmp ble).recv conn world with ⟨answer, conn', world'⟩
      simp only [pollKeys, hconn, hrecv] at hsettled ⊢
      have hfirst : ∀ remote c, key = pubkey → conn = .inl (remote, c) → c.Settled := by
        rintro remote c rfl rfl
        exact hsettled _ List.mem_cons_self remote c answer rfl
      have hrest := fun call hcall => hsettled call (List.mem_cons_of_mem _ hcall)
      rcases carriesTo_recv hrecv (hm key conn hconn) hfirst with
        ⟨hpolls, hconn'⟩ | ⟨hpolls, rfl, queue', hconn', ⟨msg, rfl, rfl⟩ | ⟨rfl, rfl⟩⟩
      · -- The connection is another one, and whatever comes of it, the queue stays.
        have hset := hm.setConnection hconn'
        have hcall : ∀ remote c received, ConnectionCall.recv key conn answer =
            .recv pubkey (.inl (remote, c)) received →
              received = .pending ∨ ∃ msg, received = .ok msg := by
          intro remote c received heq
          rw [heq] at hpolls
          simp [ConnectionCall.polls] at hpolls
        cases answer with
        | ok msg =>
          refine ⟨⟨queue, hset.congr (by dsimp only [Ran.after]; split_ifs <;> rfl), ?_⟩,
            List.forall_mem_cons.2 ⟨hcall, by simp⟩⟩
          simp [Ran.after, returnedFrom, hpolls]
        | err e =>
          cases e with
          | brokenPipe =>
            exact (ih (everywhere_bleFallback (hset.remove key) _ _) _ hrest).after
              answer_pollKeys hcall
          | _ => exact (ih hset world' hrest).after answer_pollKeys hcall
        | panic p => exact ⟨⟨queue, hset, rfl⟩, List.forall_mem_cons.2 ⟨hcall, by simp⟩⟩
        | pending => exact (ih hset world' hrest).after answer_pollKeys hcall
      · have hset := everywhere_setConnection m hconn'
        refine ⟨⟨queue', hset.congr (by dsimp only [Ran.after]; split_ifs <;> rfl), ?_⟩,
          List.forall_mem_cons.2 ⟨?_, by simp⟩⟩
        · simp [Ran.after, returnedFrom, hpolls]
        · intro remote c received heq
          cases heq
          exact Or.inr ⟨msg, rfl⟩
      · refine (ih (everywhere_setConnection m hconn') world' hrest).after answer_pollKeys ?_
        intro remote c received heq
        cases heq
        exact Or.inl rfl

theorem polled_recvAnyAt {m : TransportManager (AnyConnection Ble)}
    (hm : m.Everywhere (CarriesTo rmp sender pubkey queue)) (now : ℕ)
    (around : Surroundings Ble World) (wifi : WifiWorld)
    (hsettled : ∀ call ∈ (m.recvAnyAt (wifiApi rmp ble) now (around.withWifi wifi)).calls,
      ∀ remote c received, call = .recv pubkey (.inl (remote, c)) received → c.Settled) :
    Polled rmp sender pubkey queue
      (m.recvAnyAt (wifiApi rmp ble) now (around.withWifi wifi)) := by
  have hincoming : ∀ entry ∈ (around.withWifi wifi).bleIncoming,
      CarriesTo rmp sender pubkey queue entry.1.pubkey entry.2 := by
    intro entry hentry
    obtain ⟨b, hb⟩ := mem_bleIncoming_withWifi hentry
    rw [hb]
    trivial
  have htick : (m.powerTickAt (wifiApi rmp ble) now (around.withWifi wifi)).Keeps (fun _ => True)
      (CarriesTo rmp sender pubkey queue) (CarriesTo rmp sender pubkey queue) :=
    keeps_powerTickAt preserves_carriesTo hm now trivial hincoming
  unfold recvAnyAt at hsettled ⊢
  generalize m.powerTickAt (wifiApi rmp ble) now (around.withWifi wifi) = tick at htick hsettled ⊢
  -- All calls of the tick are of `send`.
  have hsends : ∀ call ∈ tick.calls, ∀ remote c received,
      call = .recv pubkey (.inl (remote, c)) received → received = .pending ∨
        ∃ msg, received = .ok msg := by
    intro call hcall remote c received heq
    obtain ⟨peer, msg, conn, answer, rfl⟩ := htick.sends call hcall
    cases heq
  dsimp only at hsettled ⊢
  split
  next => exact ⟨⟨queue, htick.partly, rfl⟩, hsends⟩
  next hnot =>
    unfold Ran.bind at hsettled ⊢
    cases hanswer : tick.answer with
    | err e => exact absurd hanswer (hnot e)
    | panic p => exact ⟨⟨queue, htick.partly, rfl⟩, hsends⟩
    | pending => exact ⟨⟨queue, htick.partly, rfl⟩, hsends⟩
    | ok outcome =>
      simp only [hanswer] at hsettled ⊢
      have hwhole := htick.whole (by simp [hanswer])
      split_ifs at hsettled ⊢ with hoff
      · refine ⟨⟨queue, hwhole, rfl⟩, ?_⟩
        simpa using hsends
      · have hpolled := polled_pollKeys hwhole now tick.world _ fun call hcall =>
          hsettled call (List.mem_append_right _ hcall)
        obtain ⟨queue', hcarries, hqueue⟩ := hpolled.carries
        refine ⟨⟨queue', hcarries, ?_⟩, List.forall_mem_append.2 ⟨hsends, hpolled.faultless⟩⟩
        rwa [returnedFrom_append answer_pollKeys]

end Carries

/-! ### Runs -/

section Runs

variable {Ble World : Type} {rmp : RmpSerde} {ble : Connection Ble World} {peer : PeerIdentity}

/-- The messages of the queue were written, and are on their way to the connection, if it is still
there. -/
structure PollState.Carries (rmp : RmpSerde) (peer : PeerIdentity) (s : PollState Ble)
    (queue : List ProtocolMessage) : Prop where
  sender : ∃ stream, s.sender = .fromStream stream ∧ stream.breaksAfter = none
  connection : s.manager.Everywhere (CarriesTo rmp s.sender peer.pubkey queue)

theorem carries_registered (manager : TransportManager (AnyConnection Ble)) (peer : PeerIdentity)
    (breaksAfter : Option ℕ) :
    (PollState.registered manager peer breaksAfter).Carries rmp peer [] := by
  refine ⟨⟨.opened, rfl, rfl⟩, fun key conn hconn => ?_⟩
  rcases conn with ⟨remote, c⟩ | b
  · rintro rfl
    rw [PollState.registered, connection_registerInbound_self] at hconn
    cases hconn
    exact ⟨.opened, _, .new, rfl, rfl, rfl, [], rfl, by simp, rfl, fun _ => rfl⟩
  · trivial

theorem carries_pollArrive {s : PollState Ble} {queue : List ProtocolMessage}
    (h : s.Carries rmp peer queue) (n : ℕ) : (s.arrive peer n).Carries rmp peer queue := by
  unfold PollState.arrive
  split
  next remote c hconn =>
    have hlink : Link.Carries rmp ⟨s.sender, c⟩ queue := h.connection peer.pubkey _ hconn rfl
    have harrived := carries_arrive hlink n
    refine ⟨?_, everywhere_setConnection s.manager fun _ => harrived⟩
    obtain ⟨stream, _, _, heq, hstream, -⟩ := harrived
    exact ⟨stream, congrArg Link.sender heq, hstream⟩
  next => exact h

/-- A step puts the message that it wrote into the queue, and takes out the one that it polled. -/
theorem carries_pollStep (hrmp : rmp.ReadsBack) {e : PollEvent Ble World}
    (he : e.output = (e.before.step rmp ble peer e.input).1)
    (hsettled : FindsSettled peer.pubkey e) {queue : List ProtocolMessage}
    (h : e.before.Carries rmp peer queue) :
    ∃ queue', (e.before.step rmp ble peer e.input).2.Carries rmp peer queue' ∧
      queue ++ (writtenMessage rmp e).toList =
        (polledMessage peer.pubkey e).toList ++ queue' := by
  obtain ⟨s, i, output⟩ := e
  dsimp only at he h ⊢
  subst he
  cases i with
  | send messageId msg =>
    refine ⟨_, ⟨?_, fun key conn hconn => ?_⟩, rfl⟩
    · obtain ⟨stream, hsender, hstream⟩ := h.sender
      simp only [PollState.step, hsender, send_fromStream hstream]
      -- A message that cannot be encoded is not written, and leaves the stream open.
      cases rmp.toVec msg with
      | none => exact ⟨stream, rfl, hstream⟩
      | some bytes => exact ⟨_, rfl, hstream⟩
    · rcases conn with ⟨remote, c⟩ | b
      · intro hkey
        have hsent := carries_send hrmp (h.connection key _ hconn hkey) messageId msg
        simp only [Link.step, PollState.step] at hsent ⊢
        generalize s.sender.send rmp messageId msg = sent at hsent ⊢
        rcases sent with ⟨⟨e⟩ | ⟨⟩, sender⟩
        · exact hsent
        · exact hsent
      · trivial
  | arrive n =>
    exact ⟨queue, carries_pollArrive h n, by simp [writtenMessage, polledMessage, PollState.step]⟩
  | recvAnyAt now around wifi =>
    have hpolled := polled_recvAnyAt h.connection now around wifi (hsettled _ _ rfl)
    obtain ⟨queue', hcarries, hqueue⟩ := hpolled.carries
    refine ⟨queue', ⟨h.sender, hcarries⟩, ?_⟩
    simpa [writtenMessage, polledMessage, PollState.step] using hqueue

/-- The connection is still there, and what was written has arrived and was read. -/
def PollState.Drained (peer : PeerIdentity) (s : PollState Ble) : Prop :=
  ∃ remote c, s.manager.connection peer.pubkey = some (.inl (remote, c)) ∧
    Link.inFlight ⟨s.sender, c⟩ = 0 ∧ ∀ stream ∈ c.stream, stream.incoming = []

theorem wire_eq_nil {frames : List ChunkFrame} (h : wire frames = []) : frames = [] := by
  cases frames with
  | nil => rfl
  | cons f fs =>
    have hlen := congrArg List.length h
    simp [wire, frame] at hlen

/-- Nothing is on its way to a drained connection. -/
theorem PollState.Carries.eq_nil {s : PollState Ble} {queue : List ProtocolMessage}
    (h : s.Carries rmp peer queue) (hdrained : s.Drained peer) : queue = [] := by
  obtain ⟨remote, c, hconn, hinFlight, hincoming⟩ := hdrained
  obtain ⟨sent, t, r, hlink, -, -, frames, hwire, -, hyields⟩ :=
    h.connection peer.pubkey _ hconn rfl
  obtain ⟨hsender, rfl⟩ := Link.mk.inj hlink
  rw [hsender] at hinFlight
  have hout : sent.outgoing = [] := List.eq_nil_of_length_eq_zero hinFlight
  rw [hincoming t rfl, hout] at hwire
  rw [wire_eq_nil hwire.symm] at hyields
  exact hyields.1

/-- What the polls returned from the connection are the messages that were written, without the
last ones; all of them, when the connection is drained; and no `recv` on it failed. -/
structure LossFree (rmp : RmpSerde) (ble : Connection Ble World) (peer : PeerIdentity)
    (s : PollState Ble) (is : List (PollInput Ble World)) : Prop where
  inOrder : (trace (PollState.step rmp ble peer) s is).filterMap (polledMessage peer.pubkey) <+:
    (trace (PollState.step rmp ble peer) s is).filterMap (writtenMessage rmp)
  complete : (exec (PollState.step rmp ble peer) s is).Drained peer →
    (trace (PollState.step rmp ble peer) s is).filterMap (polledMessage peer.pubkey) =
      (trace (PollState.step rmp ble peer) s is).filterMap (writtenMessage rmp)
  faultless : ∀ e ∈ trace (PollState.step rmp ble peer) s is, ∀ answer calls,
    e.output = .polled answer calls → ∀ call ∈ calls, ∀ remote c received,
      call = .recv peer.pubkey (.inl (remote, c)) received →
        received = .pending ∨ ∃ msg, received = .ok msg

/-- **Polling is loss-free**, in every run in which each `recv` on the connection finds it
settled. -/
theorem loss_free (hrmp : rmp.ReadsBack) (manager : TransportManager (AnyConnection Ble))
    (breaksAfter : Option ℕ) (is : List (PollInput Ble World))
    (hsettled : ∀ e ∈ trace (PollState.step rmp ble peer)
      (PollState.registered manager peer breaksAfter) is, FindsSettled peer.pubkey e) :
    LossFree rmp ble peer (PollState.registered manager peer breaksAfter) is := by
  have hstart : (PollState.registered manager peer breaksAfter).Carries rmp peer [] :=
    carries_registered manager peer breaksAfter
  generalize PollState.registered manager peer breaksAfter = s at hsettled hstart ⊢
  have hstep : ∀ e ∈ trace (PollState.step rmp ble peer) s is, ∀ queue,
      e.before.Carries rmp peer queue → ∃ queue',
        (e.before.step rmp ble peer e.input).2.Carries rmp peer queue' ∧
          queue ++ (writtenMessage rmp e).toList =
            (polledMessage peer.pubkey e).toList ++ queue' := by
    intro e he queue hqueue
    refine carries_pollStep hrmp ?_ (hsettled e he) hqueue
    obtain ⟨pre, i, post, -, rfl⟩ := mem_trace he
    rfl
  -- Along the run, what was written is what was returned and the queue behind it.
  obtain ⟨queue, hlast, hqueue⟩ := queue_trace hstep hstart
  rw [List.nil_append] at hqueue
  refine ⟨⟨queue, hqueue.symm⟩, fun hdrained => ?_, ?_⟩
  · rw [hlast.eq_nil hdrained, List.append_nil] at hqueue
    exact hqueue.symm
  · intro e he answer calls houtput
    obtain ⟨hbefore, -⟩ := trace_invariant (fun s => ∃ queue, s.Carries rmp peer queue)
      (fun s i hcond ⟨queue, h⟩ =>
        let ⟨queue', h', _⟩ := carries_pollStep hrmp rfl hcond h
        ⟨queue', h'⟩) hsettled ⟨[], hstart⟩
    obtain ⟨queue, hcarries⟩ := hbefore e he
    have hcalls := hsettled e he answer calls houtput
    obtain ⟨pre, i, post, -, rfl⟩ := mem_trace he
    cases i with
    | send messageId msg => cases houtput
    | arrive n => cases houtput
    | recvAnyAt now around wifi =>
      cases houtput
      exact (polled_recvAnyAt hcarries.connection now around wifi hcalls).faultless

end Runs

/-! ### A poll in the middle of a frame -/

def sampleHandshake (byte : UInt8) : ProtocolMessage := .handshake (List.Vector.replicate 32 byte)

def sampleRemote : PeerIdentity := PeerIdentity.new (List.Vector.replicate 32 1)

/-- The manager polls in the first second. -/
def samplePoll : PollInput Empty Unit := .recvAnyAt 0 .quiet ⟨fun _ => 7, fun _ _ => 0, none⟩

/-- A manager that holds a connection to one peer. -/
def samplePolled : PollState Empty :=
  PollState.registered (withPowerManager (PowerManager.new 0)) sampleRemote none

/-- The unread bytes that each `recv` on a WiFi-Direct connection finds. -/
def unread (e : PollEvent Empty Unit) : List (List UInt8) :=
  match e.output with
  | .polled _ calls =>
    calls.filterMap fun
      | .recv _ (.inl (_, c)) _ => c.stream.map TcpStream.incoming
      | _ => none
  | _ => []

theorem findsSettled_of_unread (pubkey : Bytes 32) {e : PollEvent Empty Unit}
    (h : ∀ bytes ∈ unread e, ∃ frames, (∀ f ∈ frames, f.WellFormed) ∧ bytes = wire frames) :
    FindsSettled pubkey e := by
  intro answer calls houtput call hcall remote c received heq stream hstream
  have hmem : stream.incoming ∈ unread e := by
    unfold unread
    rw [houtput]
    refine List.mem_filterMap.2 ⟨call, hcall, ?_⟩
    rw [heq]
    exact Option.mem_map_of_mem _ hstream
  obtain ⟨frames, hwf, hbytes⟩ := h stream.incoming hmem
  exact ⟨frames, [], by rw [hbytes, List.append_nil], hwf, Or.inl rfl⟩

/-- The frame of a handshake, of 65 bytes, arrives at once. -/
def settledRun : List (PollInput Empty Unit) :=
  [.send 1 (sampleHandshake 1), samplePoll, .arrive 65, samplePoll, .send 2 (sampleHandshake 2)]

theorem loss_free_sample : LossFree rmpSerde noBle sampleRemote samplePolled settledRun := by
  apply loss_free readsBack_rmpSerde
  intro e he
  apply findsSettled_of_unread
  have hunread : (trace (PollState.step rmpSerde noBle sampleRemote) samplePolled
      settledRun).flatMap unread =
        [[], wire [⟨1, 47, 0, 47, (sampleHandshake 1).toBytes⟩]] := by decide +kernel
  intro bytes hbytes
  have hmem : bytes ∈ (trace (PollState.step rmpSerde noBle sampleRemote) samplePolled
      settledRun).flatMap unread := List.mem_flatMap.2 ⟨e, he, hbytes⟩
  rw [hunread, List.mem_pair] at hmem
  rcases hmem with rfl | rfl
  · exact ⟨[], by simp, rfl⟩
  · exact ⟨_, by decide, rfl⟩

/-- The frame arrives in two portions, and then another one. -/
def unsettledRun : List (PollInput Empty Unit) :=
  [.send 1 (sampleHandshake 1), .arrive 64, samplePoll, .arrive 1, samplePoll,
    .send 2 (sampleHandshake 2), .arrive 65, samplePoll]

/-- The first handshake is lost, and the second one is returned. -/
theorem not_lossFree_sample :
    let events := trace (PollState.step rmpSerde noBle sampleRemote) samplePolled unsettledRun
    rmpSerde.ReadsBack ∧
      events.filterMap (writtenMessage rmpSerde) = [sampleHandshake 1, sampleHandshake 2] ∧
      events.filterMap (polledMessage sampleRemote.pubkey) = [sampleHandshake 2] ∧
      ¬ LossFree rmpSerde noBle sampleRemote samplePolled unsettledRun := by
  intro events
  have hwritten : events.filterMap (writtenMessage rmpSerde) =
      [sampleHandshake 1, sampleHandshake 2] := by decide +kernel
  have hpolled : events.filterMap (polledMessage sampleRemote.pubkey) = [sampleHandshake 2] := by
    decide +kernel
  refine ⟨readsBack_rmpSerde, hwritten, hpolled, fun h => ?_⟩
  have hinOrder := h.inOrder
  rw [hwritten, hpolled] at hinOrder
  exact absurd hinOrder (by decide +kernel)

end StellarConduit
