import StellarConduit.Gossip.Intake

/-!
# Bans that an envelope brings about

Two things ban the origin of a forged envelope: its strikes, and its reputation.  A ban for strikes
has an end, is saved, counted, and closes the connection.  A ban for reputation has none of this.

* `BanCarried`: all that is to come with a ban;
* `isPeerBanned_penalized_iff`: when the penalty bans the origin;
* `banCarried_iff`: when an envelope bans a peer only with all that comes with it.
-/

namespace StellarConduit

open Verif

variable {Conn : Type}

/-- A peer is banned that was not banned, or not listed. -/
def Bans (s s' : IntakeState Conn) (P : Bytes 32) : Prop :=
  s.peerList.isPeerBanned P = false ∧ s'.peerList.isPeerBanned P = true

/-- The ban of a peer is answered, ends in the future, is saved if there is a database, is
counted, and leaves no connection. -/
structure BanCarried (s : IntakeState Conn) (i : IntakeInput)
    (out : Except GossipError Unit × IntakeState Conn) (P : Bytes 32) : Prop where
  answered : out.1 = .error (.peerBanned (PeerIdentity.new P))
  future : ∃ peer, out.2.peerList.getPeer P = some peer ∧
    i.readings.ban < peer.banExpiresAtUnixSec
  saved : ∀ db, s.db = some db → ∃ db', out.2.db = some db' ∧
    db.saveBan P (i.readings.expires + banDurationSec) "repeated invalid signatures"
      i.readings.saved i.readings.fault = .ok db'
  counted : out.2.metrics.peersBanned = s.metrics.peersBanned + 1
  disconnected : out.2.transportManager.activeConnections.lookup P = none

/-- Nothing goes wrong with the ban of the origin.  The envelope has no hops left, or its signature
verifies, or the origin is banned already; or the origin has no strikes left, the clock does not
overflow and the database takes the ban; or it has strikes left and enough reputation. -/
def BansInOrder (C : Crypto) (s : IntakeState Conn) (i : IntakeInput) : Prop :=
  i.envelope.ttlHops = 0 ∨ verifySignature C i.envelope = .ok true ∨
    s.peerList.isPeerBanned i.envelope.originPubkey = true ∨
    if s.strikeTracker.maxStrikes ≤ s.strikeTracker.getStrikeCount i.origin i.instant then
      i.readings.ban.toNat + banDurationSec.toNat < UInt64.size ∧
        (s.db.isSome = true → i.readings.fault = none)
    else
      ∀ peer ∈ s.peerList.getPeer i.envelope.originPubkey,
        PenaltyReason.invalidSignature.points < peer.reputation

section Penalty

variable (s : IntakeState Conn) (i : IntakeInput)

/-- The penalty bans the origin if it has no more than 20 points left. -/
theorem isPeerBanned_penalized_iff :
    (s.penalized i).isPeerBanned i.envelope.originPubkey = true ↔
      s.peerList.isPeerBanned i.envelope.originPubkey = true ∨
        ∃ peer ∈ s.peerList.getPeer i.envelope.originPubkey,
          peer.reputation ≤ PenaltyReason.invalidSignature.points := by
  unfold PeerList.isPeerBanned IntakeState.penalized
  rw [PeerList.getPeer_modifyPeer_self]
  cases s.peerList.getPeer i.envelope.originPubkey with
  | none => simp
  | some peer => simp [applyPenalty, saturatingSub_eq_zero_iff, or_comm]

end Penalty

/-- Only the origin of an envelope is banned by it. -/
theorem Bans.eq_origin {C : Crypto} {s : IntakeState Conn} {i : IntakeInput} {P : Bytes 32}
    (h : Bans s (processTransactionEnvelope C s i).2 P) : P = i.envelope.originPubkey := by
  by_contra hne
  have hview := view_of_not_concerns C (P := P) (s := s) (i := i) fun hconcerns =>
    hne hconcerns.1.symm
  have hsame : (processTransactionEnvelope C s i).2.peerList.getPeer P = s.peerList.getPeer P :=
    congrArg PeerView.peer hview
  obtain ⟨hbefore, hafter⟩ := h
  unfold PeerList.isPeerBanned at hbefore hafter
  rw [hsame, hbefore] at hafter
  cases hafter

section Outcomes

variable {s : IntakeState Conn} {i : IntakeInput}

theorem lt_add_banDurationSec_iff (t : UInt64) :
    t < t + banDurationSec ↔ t.toNat + banDurationSec.toNat < UInt64.size := by
  have hduration : banDurationSec.toNat = 86400 := rfl
  have ht := t.toNat_lt
  rw [UInt64.lt_iff_toNat_lt, UInt64.toNat_add, hduration]
  show _ ↔ _ < 2 ^ 64
  omega

/-- A ban for strikes is carried through if the clock does not overflow and the database takes
the ban. -/
theorem banCarried_of_strikes_iff :
    BanCarried s i
        (.error (.peerBanned i.origin),
          { strikeTracker := s.struck i
            peerList := (banAndPersist (s.penalized i) s.db i.envelope.originPubkey banDurationSec
              "repeated invalid signatures" i.readings).1
            transportManager := (s.transportManager.disconnectPeer i.envelope.originPubkey).2
            db := (banAndPersist (s.penalized i) s.db i.envelope.originPubkey banDurationSec
              "repeated invalid signatures" i.readings).2
            metrics := { s.metrics with peersBanned := s.metrics.peersBanned + 1 } })
        i.envelope.originPubkey ↔
      i.readings.ban.toNat + banDurationSec.toNat < UInt64.size ∧
        (s.db.isSome = true → i.readings.fault = none) := by
  have hpeer := getPeer_banAndPersist_self (s.penalized i) s.db i.envelope.originPubkey
    banDurationSec "repeated invalid signatures" i.readings
  rw [← lt_add_banDurationSec_iff]
  constructor
  · intro h
    constructor
    · obtain ⟨peer, hlisted, hfuture⟩ := h.future
      rw [show _ = some _ from hpeer, Option.some_inj] at hlisted
      subst hlisted
      exact hfuture
    -- A ban that is on disk was written without a fault.
    · intro hdb
      obtain ⟨db, hdb⟩ := Option.isSome_iff_exists.1 hdb
      obtain ⟨db', -, hsaved⟩ := h.saved db hdb
      cases hfault : i.readings.fault with
      | none => rfl
      | some e =>
        rw [hfault] at hsaved
        cases hsaved
  · rintro ⟨hfuture, hfault⟩
    refine ⟨rfl, ⟨_, hpeer, hfuture⟩, fun db hdb => ?_, rfl,
      ConnectionTable.lookup_disconnectPeer_self _ _⟩
    have hnone := hfault (by rw [hdb]; rfl)
    dsimp only
    unfold banAndPersist
    rw [hdb, hnone]
    exact ⟨_, rfl, rfl⟩

end Outcomes

/-- **Bans are carried through** by an envelope, whatever peer it bans, if and only if nothing goes
wrong with the ban of its origin. -/
theorem banCarried_iff (C : Crypto) (s : IntakeState Conn) (i : IntakeInput) :
    (∀ P, Bans s (processTransactionEnvelope C s i).2 P →
        BanCarried s i (processTransactionEnvelope C s i) P) ↔
      BansInOrder C s i := by
  have horigin := fun P => @Bans.eq_origin Conn C s i P
  have h := intake_processTransactionEnvelope C s i
  generalize processTransactionEnvelope C s i = out at h horigin ⊢
  have hiff : (∀ P, Bans s out.2 P → BanCarried s i out P) ↔
      (Bans s out.2 i.envelope.originPubkey → BanCarried s i out i.envelope.originPubkey) := by
    constructor
    · intro hall
      exact hall _
    · intro hone P hP
      obtain rfl := horigin P hP
      exact hone hP
  have hsame : ∀ {tracker : StrikeTracker},
      ¬ Bans s { s with strikeTracker := tracker } i.envelope.originPubkey := by
    rintro tracker ⟨hbefore, hafter⟩
    exact Bool.false_ne_true (hbefore.symm.trans hafter)
  rw [hiff]
  unfold BansInOrder
  cases h with
  | expired httl => exact iff_of_true (fun hbans => absurd hbans hsame) (.inl httl)
  | verified httl hverify =>
    exact iff_of_true (fun hbans => absurd hbans hsame) (.inr (.inl hverify))
  | strike e httl hverify hcount =>
    -- The answer is that nothing is wrong, so there must be no ban.
    have hanswer : ∀ {s' : IntakeState Conn} {P}, ¬ BanCarried s i (.ok (), s') P := by
      rintro s' P ⟨hanswered, -⟩
      cases hanswered
    rw [hverify, if_neg (Nat.not_le.2 hcount)]
    simp only [httl, hanswer, imp_false, false_or, reduceCtorEq, Bans]
    rw [isPeerBanned_penalized_iff]
    cases s.peerList.isPeerBanned i.envelope.originPubkey with
    | true => simp
    | false => simp [UInt32.not_le]
  | banned e httl hverify hcount =>
    rw [hverify, if_pos hcount, banCarried_of_strikes_iff]
    have hafter : (banAndPersist (s.penalized i) s.db i.envelope.originPubkey banDurationSec
        "repeated invalid signatures" i.readings).1.isPeerBanned i.envelope.originPubkey =
          true := by
      unfold PeerList.isPeerBanned
      rw [getPeer_banAndPersist_self]
      rfl
    simp only [httl, false_or, reduceCtorEq, Bans, hafter, and_true]
    cases s.peerList.isPeerBanned i.envelope.originPubkey with
    | true => simp
    | false => simp

/-- A node that is connected to the holder of the sample key, who has 20 points left. -/
def sampleSuspect : IntakeState Unit :=
  { sampleIntake with
    peerList :=
      { peers := (∅ : HashMap (Bytes 32) Peer).insert sampleKey
          { Peer.new sampleKey with reputation := 20 }
        expirySeconds := 300 } }

/-- One forged envelope bans the peer, and nothing comes with the ban. -/
theorem reputation_ban_sample :
    ¬ (∀ P, Bans sampleSuspect
          (processTransactionEnvelope Crypto.transparent sampleSuspect (sampleForged 1)).2 P →
        BanCarried sampleSuspect (sampleForged 1)
          (processTransactionEnvelope Crypto.transparent sampleSuspect (sampleForged 1)) P) := by
  intro hall
  have hbans : Bans sampleSuspect
      (processTransactionEnvelope Crypto.transparent sampleSuspect (sampleForged 1)).2
      sampleKey := by
    unfold Bans
    decide +kernel
  have hanswer : (processTransactionEnvelope Crypto.transparent sampleSuspect
      (sampleForged 1)).1 = .ok () := by decide +kernel
  have hanswered := (hall sampleKey hbans).answered
  rw [hanswer] at hanswered
  cases hanswered

end StellarConduit
