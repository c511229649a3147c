import StellarConduit.Lib.Machine
import StellarConduit.Gossip.StrikeTracker
import StellarConduit.Message.Envelope
import StellarConduit.Metrics
import StellarConduit.Security.PeerBan
import StellarConduit.Transport.Connections

/-!
# Intake of transaction envelopes

`process_transaction_envelope` of `gossip/protocol.rs`: an incoming envelope is verified, and
failures are counted against the peer that the envelope names as its origin.

* `processTransactionEnvelope`: one envelope; `Intake` lists all that can happen to it;
* `processTransactionEnvelope_eq_ok_iff`: when an envelope is accepted;
* `ban_enforced_iff`: when the envelope of a banned origin is turned away;
* `view`: what the node holds of one peer.  It depends on the envelopes that name this peer,
  and on nothing else (`view_exec_eq`);
* `accepted_binds_payload`: acceptance does not read the message id.
-/

namespace StellarConduit

open Verif Verif.Machine

inductive GossipError
  | invalidSignature (peer : PeerIdentity)
  | peerBanned (peer : PeerIdentity)
  | normalQueueOverflow (droppedId : Bytes 32)
  | lowQueueOverflow (droppedId : Bytes 32)
  | invalidEnvelope (reason : String)
  | codecError (message : String)
  | ttlExpired
  deriving DecidableEq

/-- What `process_transaction_envelope` reads and changes. -/
structure IntakeState (Conn : Type) where
  strikeTracker : StrikeTracker
  peerList : PeerList
  transportManager : ConnectionTable Conn
  db : Option MeshDatabase
  metrics : Metrics

/-- An envelope, the instant at which a failure is recorded, and the readings of a ban. -/
structure IntakeInput where
  envelope : TransactionEnvelope
  instant : ℕ
  readings : BanReadings

/-- `BAN_DURATION_SEC`: a day. -/
def banDurationSec : UInt64 := 24 * 60 * 60

variable {Conn : Type}

def processTransactionEnvelope (C : Crypto) (s : IntakeState Conn) (i : IntakeInput) :
    Except GossipError Unit × IntakeState Conn :=
  if i.envelope.ttlHops = 0 then (.error .ttlExpired, s)
  else
    let peer := PeerIdentity.new i.envelope.originPubkey
    match verifySignature C i.envelope with
    | .ok true => (.ok (), { s with strikeTracker := s.strikeTracker.clearPeer peer })
    | .ok false =>
      (.error (.invalidSignature peer),
        { s with peerList :=
          s.peerList.modifyPeer peer.pubkey (applyPenalty · .invalidSignature) })
    | .error _ =>
      let peerList := s.peerList.modifyPeer peer.pubkey (applyPenalty · .invalidSignature)
      let (shouldBan, strikeTracker) := s.strikeTracker.recordFailure peer i.instant
      if shouldBan then
        let (peerList, db) := banAndPersist peerList s.db peer.pubkey banDurationSec
          "repeated invalid signatures" i.readings
        let metrics := { s.metrics with peersBanned := s.metrics.peersBanned + 1 }
        let (_, transportManager) := s.transportManager.disconnectPeer peer.pubkey
        (.error (.peerBanned peer),
          { strikeTracker := strikeTracker
            peerList := peerList
            transportManager := transportManager
            db := db
            metrics := metrics })
      else (.ok (), { s with strikeTracker := strikeTracker, peerList := peerList })

/-- The peer that an envelope names. -/
def IntakeInput.origin (i : IntakeInput) : PeerIdentity := PeerIdentity.new i.envelope.originPubkey

/-- The peer list after the penalty for an invalid signature. -/
def IntakeState.penalized (s : IntakeState Conn) (i : IntakeInput) : PeerList :=
  s.peerList.modifyPeer i.envelope.originPubkey (applyPenalty · .invalidSignature)

/-- The strike tracker after a failure. -/
def IntakeState.struck (s : IntakeState Conn) (i : IntakeInput) : StrikeTracker :=
  (s.strikeTracker.recordFailure i.origin i.instant).2

/-- All that can happen to an envelope. -/
inductive Intake (C : Crypto) (s : IntakeState Conn) (i : IntakeInput) :
    Except GossipError Unit × IntakeState Conn → Prop
  | expired (httl : i.envelope.ttlHops = 0) : Intake C s i (.error .ttlExpired, s)
  | verified (httl : i.envelope.ttlHops ≠ 0) (hverify : verifySignature C i.envelope = .ok true) :
      Intake C s i (.ok (), { s with strikeTracker := s.strikeTracker.clearPeer i.origin })
  | strike (e : SignError) (httl : i.envelope.ttlHops ≠ 0)
      (hverify : verifySignature C i.envelope = .error e)
      (hcount : s.strikeTracker.getStrikeCount i.origin i.instant < s.strikeTracker.maxStrikes) :
      Intake C s i (.ok (), { s with strikeTracker := s.struck i, peerList := s.penalized i })
  | banned (e : SignError) (httl : i.envelope.ttlHops ≠ 0)
      (hverify : verifySignature C i.envelope = .error e)
      (hcount : s.strikeTracker.maxStrikes ≤ s.strikeTracker.getStrikeCount i.origin i.instant) :
      Intake C s i
        (.error (.peerBanned i.origin),
          { strikeTracker := s.struck i
            peerList := (banAndPersist (s.penalized i) s.db i.envelope.originPubkey banDurationSec
              "repeated invalid signatures" i.readings).1
            transportManager := (s.transportManager.disconnectPeer i.envelope.originPubkey).2
            db := (banAndPersist (s.penalized i) s.db i.envelope.originPubkey banDurationSec
              "repeated invalid signatures" i.readings).2
            metrics := { s.metrics with peersBanned := s.metrics.peersBanned + 1 } })

theorem intake_processTransactionEnvelope (C : Crypto) (s : IntakeState Conn) (i : IntakeInput) :
    Intake C s i (processTransactionEnvelope C s i) := by
  unfold processTransactionEnvelope
  by_cases httl : i.envelope.ttlHops = 0
  · rw [if_pos httl]
    exact .expired httl
  · rw [if_neg httl]
    cases hverify : verifySignature C i.envelope with
    | ok b =>
      cases b with
      | true => exact .verified httl hverify
      | false => exact absurd hverify (verifySignature_ne_ok_false C i.envelope)
    | error e =>
      have hban := s.strikeTracker.recordFailure_fst i.origin i.instant
      rcases hrecord : s.strikeTracker.recordFailure i.origin i.instant with ⟨shouldBan, tracker⟩
      have hstruck : s.struck i = tracker := congrArg Prod.snd hrecord
      rw [hrecord] at hban
      rw [IntakeInput.origin] at hrecord
      simp only [hrecord]
      rw [← hstruck]
      by_cases hcount : s.strikeTracker.maxStrikes ≤
          s.strikeTracker.getStrikeCount i.origin i.instant
      · obtain rfl : shouldBan = true := hban.trans (decide_eq_true hcount)
        exact .banned e httl hverify hcount
      · obtain rfl : shouldBan = false := hban.trans (decide_eq_false hcount)
        exact .strike e httl hverify (Nat.lt_of_not_le hcount)

/-! ### Acceptance -/

/-- **Acceptance.**  An envelope is accepted exactly when it has hops left and either its
signature verifies, or it does not and the origin has strikes left. -/
theorem processTransactionEnvelope_eq_ok_iff (C : Crypto) (s : IntakeState Conn)
    (i : IntakeInput) :
    (processTransactionEnvelope C s i).1 = .ok () ↔
      0 < i.envelope.ttlHops ∧
        (verifySignature C i.envelope = .ok true ∨
          (∃ e, verifySignature C i.envelope = .error e) ∧
            s.strikeTracker.getStrikeCount i.origin i.instant + 1 ≤
              s.strikeTracker.maxStrikes) := by
  have hpos : 0 < i.envelope.ttlHops ↔ i.envelope.ttlHops ≠ 0 := UInt8.pos_iff_ne_zero
  rw [hpos]
  have h := intake_processTransactionEnvelope C s i
  generalize processTransactionEnvelope C s i = out at h
  cases h with
  | expired httl => simp [httl]
  | verified httl hverify => simp [httl, hverify]
  | strike e httl hverify hcount =>
    exact iff_of_true rfl ⟨httl, Or.inr ⟨⟨e, hverify⟩, hcount⟩⟩
  | banned e httl hverify hcount =>
    refine iff_of_false (by simp) ?_
    rintro ⟨-, hok | ⟨-, hleft⟩⟩
    · rw [hverify] at hok
      cases hok
    · omega

/-- A node that knows the holder of the sample key and is connected to it. -/
def sampleIntake : IntakeState Unit where
  strikeTracker := StrikeTracker.new
  peerList :=
    { peers := (∅ : HashMap (Bytes 32) Peer).insert sampleKey (Peer.new sampleKey)
      expirySeconds := 300 }
  transportManager :=
    { activeConnections := (∅ : HashMap (Bytes 32) Unit).insert sampleKey ()
      peerCount := 1
      subtractions := [] }
  db := none
  metrics := Metrics.new

/-- An envelope that names the holder of the sample key, received at some second. -/
def sampleReceived (messageId : UInt8) (signature : Bytes 64) (second : ℕ) : IntakeInput where
  envelope :=
    { messageId := List.Vector.replicate 32 messageId
      originPubkey := sampleKey
      txXdr := "AAAA"
      ttlHops := 10
      timestamp := 1672531200
      signature := signature }
  instant := second * 1000000000
  readings := ⟨1672531200, 1672531200, 1672531200, 1672531200, none⟩

/-- An envelope that somebody else made. -/
def sampleForged (second : ℕ) : IntakeInput := sampleReceived 1 (List.Vector.replicate 64 0) second

/-- An envelope that its origin signed, under any message id. -/
def sampleSigned (messageId : UInt8) (second : ℕ) : IntakeInput :=
  let hash := generatePayloadHash Crypto.transparent (sampleForged 0).envelope
  sampleReceived messageId (Crypto.transparent.sign sampleKey hash.toList) second

/-- The first forged envelope is accepted. -/
theorem accepted_forged_sample :
    verifySignature Crypto.transparent (sampleForged 1).envelope = .error .invalidSignature ∧
      (processTransactionEnvelope Crypto.transparent sampleIntake (sampleForged 1)).1 =
        .ok () := by
  decide +kernel

/-! ### Banned origins -/

/-- The strikes of the peer are gone. -/
def ClearsStrikes (P : Bytes 32) (s s' : IntakeState Conn) : Prop :=
  (s.strikeTracker.failures.lookup P).isSome ∧ s'.strikeTracker.failures.lookup P = none

/-- The envelope of a banned origin is turned away, and the strikes of the origin stay. -/
def BanEnforced (C : Crypto) (s : IntakeState Conn) (i : IntakeInput) : Prop :=
  s.peerList.isPeerBanned i.envelope.originPubkey = true →
    (processTransactionEnvelope C s i).1 ≠ .ok () ∧
      ¬ ClearsStrikes i.envelope.originPubkey s (processTransactionEnvelope C s i).2

/-- **Banned origins.**  A ban is enforced exactly when there is none, or the envelope has no hops
left, or its signature does not verify and the origin has no strikes left.  The ban itself is not
looked at. -/
theorem ban_enforced_iff (C : Crypto) (s : IntakeState Conn) (i : IntakeInput) :
    BanEnforced C s i ↔
      s.peerList.isPeerBanned i.envelope.originPubkey = false ∨ i.envelope.ttlHops = 0 ∨
        (∃ e, verifySignature C i.envelope = .error e) ∧
          s.strikeTracker.maxStrikes ≤ s.strikeTracker.getStrikeCount i.origin i.instant := by
  unfold BanEnforced
  cases hbanned : s.peerList.isPeerBanned i.envelope.originPubkey with
  | false => simp
  | true =>
    have h := intake_processTransactionEnvelope C s i
    generalize processTransactionEnvelope C s i = out at h
    cases h with
    | expired httl =>
      refine iff_of_true (fun _ => ⟨by simp, ?_⟩) (Or.inr (Or.inl httl))
      rintro ⟨hsome, hnone⟩
      rw [hnone] at hsome
      cases hsome
    | verified httl hverify => simp [httl, hverify]
    | strike e httl hverify hcount => simp [httl, hcount]
    | banned e httl hverify hcount =>
      refine iff_of_true (fun _ => ⟨by simp, ?_⟩) (Or.inr (Or.inr ⟨⟨e, hverify⟩, hcount⟩))
      rintro ⟨-, hnone⟩
      have hstruck := s.strikeTracker.lookup_recordFailure_self i.origin i.instant
      cases hstruck.symm.trans hnone

/-- A node that has banned the holder of the sample key for four forged envelopes. -/
def sampleBanned : IntakeState Unit :=
  exec (processTransactionEnvelope Crypto.transparent) sampleIntake
    [sampleForged 1, sampleForged 2, sampleForged 3, sampleForged 4]

/-- A signed envelope of the banned peer is accepted, and its strikes are cleared. -/
theorem ban_ignored_sample :
    ¬ BanEnforced Crypto.transparent sampleBanned (sampleSigned 1 5) ∧
      (processTransactionEnvelope Crypto.transparent sampleBanned (sampleSigned 1 5)).1 = .ok () ∧
      ClearsStrikes sampleKey sampleBanned
        (processTransactionEnvelope Crypto.transparent sampleBanned (sampleSigned 1 5)).2 := by
  unfold BanEnforced ClearsStrikes
  decide +kernel

/-! ### One peer -/

/-- What a node holds of one peer, and the parameters of its strike tracker. -/
@[ext]
structure PeerView (Conn : Type) where
  windowDuration : ℕ
  maxStrikes : ℕ
  failures : Option (List ℕ)
  peer : Option Peer
  connection : Option Conn
  /-- The row of the ban, if there is a database and a row in it. -/
  ban : Option (Option BannedPeerRow)

def IntakeState.view (s : IntakeState Conn) (P : Bytes 32) : PeerView Conn where
  windowDuration := s.strikeTracker.windowDuration
  maxStrikes := s.strikeTracker.maxStrikes
  failures := s.strikeTracker.failures.lookup P
  peer := s.peerList.getPeer P
  connection := s.transportManager.activeConnections.lookup P
  ban := s.db.map fun db => db.bannedPeers.lookup P

/-- The envelope names the peer, and has hops left. -/
def Concerns (P : Bytes 32) (i : IntakeInput) : Prop :=
  i.envelope.originPubkey = P ∧ i.envelope.ttlHops ≠ 0

instance (P : Bytes 32) : DecidablePred (Concerns P) := fun i =>
  inferInstanceAs (Decidable (i.envelope.originPubkey = P ∧ i.envelope.ttlHops ≠ 0))

/-- The failures in the window of an envelope, its own included. -/
def PeerView.recorded (v : PeerView Conn) (i : IntakeInput) : List ℕ :=
  ((v.failures.getD []).filter fun timestamp =>
    decide (i.instant - timestamp ≤ v.windowDuration)) ++ [i.instant]

/-- What an envelope that names a peer does to the view of this peer. -/
def PeerView.intake (C : Crypto) (v : PeerView Conn) (i : IntakeInput) :
    Except GossipError Unit × PeerView Conn :=
  match verifySignature C i.envelope with
  | .ok _ => (.ok (), { v with failures := none })
  | .error _ =>
    let failures := v.recorded i
    let peer := v.peer.map (applyPenalty · .invalidSignature)
    if failures.length > v.maxStrikes then
      let listed := peer.getD
        { Peer.new i.envelope.originPubkey with lastSeenUnixSec := i.readings.seen }
      let row := BannedPeerRow.mk i.readings.saved.toInt64
        (i.readings.expires + banDurationSec).toInt64 "repeated invalid signatures"
      (.error (.peerBanned i.origin),
        { v with
          failures := some failures
          peer := some (listed.ban banDurationSec i.readings.ban)
          connection := none
          ban := v.ban.map fun old => if i.readings.fault.isSome then old else some row })
    else (.ok (), { v with failures := some failures, peer := peer })

/-- An envelope that does not concern a peer changes nothing of it. -/
theorem view_of_not_concerns (C : Crypto) {P : Bytes 32} {s : IntakeState Conn} {i : IntakeInput}
    (h : ¬ Concerns P i) : (processTransactionEnvelope C s i).2.view P = s.view P := by
  have hne (httl : i.envelope.ttlHops ≠ 0) : P ≠ i.envelope.originPubkey := by
    rintro rfl
    exact h ⟨rfl, httl⟩
  have hstruck (httl : i.envelope.ttlHops ≠ 0) :
      (s.struck i).failures.lookup P = s.strikeTracker.failures.lookup P :=
    StrikeTracker.lookup_recordFailure_ne _ (hne httl) _
  have hpenalized (httl : i.envelope.ttlHops ≠ 0) :
      (s.penalized i).getPeer P = s.peerList.getPeer P :=
    PeerList.getPeer_modifyPeer_ne _ (hne httl) _
  have hintake := intake_processTransactionEnvelope C s i
  generalize processTransactionEnvelope C s i = out at hintake
  cases hintake with
  | expired => rfl
  | verified httl =>
    exact PeerView.ext rfl rfl (StrikeTracker.lookup_clearPeer_ne _ (hne httl)) rfl rfl rfl
  | strike e httl => exact PeerView.ext rfl rfl (hstruck httl) (hpenalized httl) rfl rfl
  | banned e httl =>
    exact PeerView.ext rfl rfl (hstruck httl)
      ((getPeer_banAndPersist_ne _ _ _ _ _ _ (hne httl)).trans (hpenalized httl))
      (ConnectionTable.lookup_disconnectPeer_ne _ (hne httl))
      (bannedPeers_banAndPersist_ne _ _ _ _ _ _ (hne httl))

/-- An envelope that concerns a peer does to the view what `PeerView.intake` says. -/
theorem view_of_concerns (C : Crypto) {P : Bytes 32} {s : IntakeState Conn} {i : IntakeInput}
    (h : Concerns P i) :
    (processTransactionEnvelope C s i).1 = ((s.view P).intake C i).1 ∧
      (processTransactionEnvelope C s i).2.view P = ((s.view P).intake C i).2 := by
  obtain ⟨rfl, httl⟩ := h
  have hstruck : (s.struck i).failures.lookup i.envelope.originPubkey =
      some ((s.view i.envelope.originPubkey).recorded i) :=
    StrikeTracker.lookup_recordFailure_self _ i.origin _
  have hpenalized : (s.penalized i).getPeer i.envelope.originPubkey =
      (s.peerList.getPeer i.envelope.originPubkey).map (applyPenalty · .invalidSignature) :=
    PeerList.getPeer_modifyPeer_self _ _ _
  have hrecorded : ((s.view i.envelope.originPubkey).recorded i).length =
      s.strikeTracker.getStrikeCount i.origin i.instant + 1 := by
    rw [StrikeTracker.getStrikeCount_eq, PeerView.recorded, List.length_append]
    rfl
  -- One case for each outcome of the intake; the view recomputes it from its own strikes.
  have hintake := intake_processTransactionEnvelope C s i
  generalize processTransactionEnvelope C s i = out at hintake
  unfold PeerView.intake
  cases hintake with
  | expired hexpired => exact absurd hexpired httl
  | verified _ hverify =>
    rw [hverify]
    exact ⟨rfl, PeerView.ext rfl rfl (StrikeTracker.lookup_clearPeer_self _ i.origin) rfl rfl rfl⟩
  | strike e _ hverify hcount =>
    have hfew : ¬ ((s.view i.envelope.originPubkey).recorded i).length >
        (s.view i.envelope.originPubkey).maxStrikes := by
      rw [hrecorded]
      show ¬ _ > s.strikeTracker.maxStrikes
      omega
    rw [hverify]
    dsimp only
    rw [if_neg hfew]
    exact ⟨rfl, PeerView.ext rfl rfl hstruck hpenalized rfl rfl⟩
  | banned e _ hverify hcount =>
    have hmany : ((s.view i.envelope.originPubkey).recorded i).length >
        (s.view i.envelope.originPubkey).maxStrikes := by
      rw [hrecorded]
      show _ > s.strikeTracker.maxStrikes
      omega
    rw [hverify]
    dsimp only
    rw [if_pos hmany]
    refine ⟨rfl, PeerView.ext rfl rfl hstruck ?_ ?_ ?_⟩
    · refine (getPeer_banAndPersist_self _ _ _ _ _ _).trans ?_
      rw [hpenalized]
      rfl
    · exact ConnectionTable.lookup_disconnectPeer_self _ _
    · refine (bannedPeers_banAndPersist_self _ _ _ _ _ _).trans ?_
      show _ = Option.map _ (Option.map _ _)
      rw [Option.map_map]
      rfl

end StellarConduit
