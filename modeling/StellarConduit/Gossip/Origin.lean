import StellarConduit.Gossip.Intake

/-!
# What intake holds against a peer, and what it binds

Runs of `process_transaction_envelope` over envelopes from anybody.

* `view_exec`: what a node holds of one peer after a run is what `PeerView.intake` makes of
  the envelopes that name the peer, in their order;
* `view_exec_eq`: so two runs with the same such envelopes treat the peer alike.  A forged
  envelope names its victim, and counts (`framed_sample`);
* `accepted_binds_payload`: acceptance does not depend on the message id; a signature that
  verifies binds the origin, the timestamp and the transaction.
-/

namespace StellarConduit

open Verif Verif.Machine

variable {Conn : Type}

/-! ### Runs -/

/-- One peer of a node is a machine of its own. -/
theorem projection_view (C : Crypto) (P : Bytes 32) :
    Projection (processTransactionEnvelope C) (PeerView.intake C)
      (fun (s : IntakeState Conn) v => s.view P = v) (Concerns P) where
  skip _ _ _ hi h := (view_of_not_concerns C hi).trans h
  sync _ _ _ hi h := h ▸ view_of_concerns C hi

/-- **One peer.**  After a run, a node holds of a peer what the envelopes that name the peer
made of it. -/
theorem view_exec (C : Crypto) (P : Bytes 32) (s : IntakeState Conn) (is : List IntakeInput) :
    (exec (processTransactionEnvelope C) s is).view P =
      exec (PeerView.intake C) (s.view P) (is.filter fun i => decide (Concerns P i)) :=
  (projection_view C P).exec_filter rfl is

theorem getStrikeCount_view (s t : IntakeState Conn) {P : Bytes 32} (h : s.view P = t.view P)
    (now : ℕ) : s.strikeTracker.getStrikeCount (PeerIdentity.new P) now =
      t.strikeTracker.getStrikeCount (PeerIdentity.new P) now := by
  have hfailures : s.strikeTracker.failures.lookup P = t.strikeTracker.failures.lookup P :=
    congrArg PeerView.failures h
  have hwindow : s.strikeTracker.windowDuration = t.strikeTracker.windowDuration :=
    congrArg PeerView.windowDuration h
  unfold StrikeTracker.getStrikeCount StrikeTracker.inWindow
  rw [show (PeerIdentity.new P).pubkey = P from rfl, hfailures, hwindow]

/-- **Only the envelopes that name a peer count.**  Two runs, from states that agree on a
peer, over the same envelopes that name it and have hops left, end with the same strikes,
the same peer record, the same ban on disk and the same connection of this peer. -/
theorem view_exec_eq (C : Crypto) (P : Bytes 32) (s t : IntakeState Conn)
    (is js : List IntakeInput) (hstart : s.view P = t.view P)
    (hsame : is.filter (fun i => decide (Concerns P i)) =
      js.filter fun i => decide (Concerns P i)) :
    let s' := exec (processTransactionEnvelope C) s is
    let t' := exec (processTransactionEnvelope C) t js
    (∀ now, s'.strikeTracker.getStrikeCount (PeerIdentity.new P) now =
        t'.strikeTracker.getStrikeCount (PeerIdentity.new P) now) ∧
      s'.peerList.getPeer P = t'.peerList.getPeer P ∧
      (s'.db.map fun db => db.bannedPeers.lookup P) =
        (t'.db.map fun db => db.bannedPeers.lookup P) ∧
      s'.transportManager.activeConnections.lookup P =
        t'.transportManager.activeConnections.lookup P := by
  intro s' t'
  have hview : s'.view P = t'.view P := by
    rw [view_exec, view_exec, hstart, hsame]
  exact ⟨getStrikeCount_view s' t' hview, congrArg PeerView.peer hview,
    congrArg PeerView.ban hview, congrArg PeerView.connection hview⟩

/-- The envelopes whose signature is the origin's. -/
def SignedBy (C : Crypto) (P : Bytes 32) (i : IntakeInput) : Prop :=
  i.envelope.originPubkey = P ∧ verifySignature C i.envelope = .ok true

instance (C : Crypto) (P : Bytes 32) : DecidablePred (SignedBy C P) := fun i =>
  inferInstanceAs
    (Decidable (i.envelope.originPubkey = P ∧ verifySignature C i.envelope = .ok true))

/-- The two runs contain the same envelopes that name the peer: one that it signed and one
that is forged.  They differ in an envelope that names somebody else. -/
theorem view_exec_eq_sample :
    let other := { sampleForged 3 with
      envelope := { (sampleForged 3).envelope with originPubkey := zeroId } }
    let s' := exec (processTransactionEnvelope Crypto.transparent) sampleIntake
      [sampleSigned 1 1, other, sampleForged 2]
    let t' := exec (processTransactionEnvelope Crypto.transparent) sampleIntake
      [sampleSigned 1 1, sampleForged 2]
    (∀ now, s'.strikeTracker.getStrikeCount (PeerIdentity.new sampleKey) now =
        t'.strikeTracker.getStrikeCount (PeerIdentity.new sampleKey) now) ∧
      s'.peerList.getPeer sampleKey = t'.peerList.getPeer sampleKey ∧
      (s'.db.map fun db => db.bannedPeers.lookup sampleKey) =
        (t'.db.map fun db => db.bannedPeers.lookup sampleKey) ∧
      s'.transportManager.activeConnections.lookup sampleKey =
        t'.transportManager.activeConnections.lookup sampleKey := by
  intro other
  refine view_exec_eq Crypto.transparent sampleKey sampleIntake sampleIntake _ _ rfl ?_
  have hsigned : Concerns sampleKey (sampleSigned 1 1) := ⟨rfl, by decide⟩
  have hforged : Concerns sampleKey (sampleForged 2) := ⟨rfl, by decide⟩
  have hother : ¬ Concerns sampleKey other := by
    rintro ⟨h, -⟩
    exact absurd h (by decide)
  simp [hsigned, hforged, hother]

/-- The peer signed nothing in either run.  Four forged envelopes give it four strikes, take
its reputation, ban it and close its connection. -/
theorem framed_sample :
    Crypto.transparent.Ideal ∧
      let forged := [sampleForged 1, sampleForged 2, sampleForged 3, sampleForged 4]
      let s' := exec (processTransactionEnvelope Crypto.transparent) sampleIntake []
      let t' := exec (processTransactionEnvelope Crypto.transparent) sampleIntake forged
      (∀ i ∈ forged, ¬ SignedBy Crypto.transparent sampleKey i) ∧
      s'.strikeTracker.getStrikeCount (PeerIdentity.new sampleKey) 4000000000 = 0 ∧
      t'.strikeTracker.getStrikeCount (PeerIdentity.new sampleKey) 4000000000 = 4 ∧
      ((s'.peerList.getPeer sampleKey).map fun p => (p.reputation, p.isBanned)) =
        some (100, false) ∧
      ((t'.peerList.getPeer sampleKey).map fun p => (p.reputation, p.isBanned)) =
        some (20, true) ∧
      s'.transportManager.activeConnections.lookup sampleKey = some () ∧
      t'.transportManager.activeConnections.lookup sampleKey = none := by
  exact ⟨Crypto.transparent_ideal, by decide +kernel⟩

/-! ### The message id -/

/-- The input with another message id. -/
def IntakeInput.withMessageId (i : IntakeInput) (messageId : Bytes 32) : IntakeInput :=
  { i with envelope := { i.envelope with messageId := messageId } }

/-- **What acceptance binds.**  The message id is not checked: with any other one, the
result and the effects are the same.  Two accepted envelopes that verify with the same
signature have the same origin, timestamp and transaction. -/
theorem accepted_binds_payload (C : Crypto) (s s' : IntakeState Conn) (i i' : IntakeInput) :
    (∀ messageId, processTransactionEnvelope C s (i.withMessageId messageId) =
        processTransactionEnvelope C s i) ∧
      (C.Ideal → C.CollisionFree
          [payloadInput i.envelope.originPubkey i.envelope.timestamp i.envelope.txXdr,
            payloadInput i'.envelope.originPubkey i'.envelope.timestamp i'.envelope.txXdr] →
        (processTransactionEnvelope C s i).1 = .ok () →
        verifySignature C i.envelope = .ok true →
        (processTransactionEnvelope C s' i').1 = .ok () →
        verifySignature C i'.envelope = .ok true →
        i.envelope.signature = i'.envelope.signature →
          i.envelope.originPubkey = i'.envelope.originPubkey ∧
            i.envelope.timestamp = i'.envelope.timestamp ∧
            i.envelope.txXdr = i'.envelope.txXdr) := by
  refine ⟨fun _ => rfl, fun hC hcol _ hverify _ hverify' hsig => ?_⟩
  obtain ⟨k, -, hk⟩ := (verifySignature_eq_ok_true_iff C _).1 hverify
  obtain ⟨k', -, hk'⟩ := (verifySignature_eq_ok_true_iff C _).1 hverify'
  rw [hsig] at hk
  obtain ⟨-, hhash⟩ := hC.eq_of_verify hk hk'
  exact payloadInput_injective (hcol _ (by simp) _ (by simp) hhash)

/-- The hypotheses hold of two copies of an envelope under different message ids. -/
theorem accepted_binds_payload_sample :
    (∀ messageId, processTransactionEnvelope Crypto.transparent sampleIntake
        ((sampleSigned 1 1).withMessageId messageId) =
      processTransactionEnvelope Crypto.transparent sampleIntake (sampleSigned 1 1)) ∧
      (sampleSigned 1 1).envelope.originPubkey = (sampleSigned 2 1).envelope.originPubkey ∧
      (sampleSigned 1 1).envelope.timestamp = (sampleSigned 2 1).envelope.timestamp ∧
      (sampleSigned 1 1).envelope.txXdr = (sampleSigned 2 1).envelope.txXdr := by
  obtain ⟨hsame, hbinds⟩ := accepted_binds_payload Crypto.transparent sampleIntake sampleIntake
    (sampleSigned 1 1) (sampleSigned 2 1)
  refine ⟨hsame, hbinds Crypto.transparent_ideal (by decide) ?_ ?_ ?_ ?_ ?_⟩
  · rfl
  · decide
  · rfl
  · decide
  · rfl

/-- A signed envelope is accepted under a message id that is not the hash of its fields. -/
theorem accepted_messageId_sample :
    (processTransactionEnvelope Crypto.transparent sampleIntake (sampleSigned 1 1)).1 = .ok () ∧
      verifySignature Crypto.transparent (sampleSigned 1 1).envelope = .ok true ∧
      (sampleSigned 1 1).envelope.messageId ≠
        computeMessageId Crypto.transparent (sampleSigned 1 1).envelope.originPubkey
          (sampleSigned 1 1).envelope.txXdr (sampleSigned 1 1).envelope.timestamp := by
  decide +kernel

end StellarConduit
