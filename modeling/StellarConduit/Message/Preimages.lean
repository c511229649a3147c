import StellarConduit.Message.RelayProof

/-!
# What the hashed and signed bytes determine

Three functions put fields together without writing their lengths:

* `computeMessageId` hashes the public key, the transaction and the timestamp;
* `generatePayloadHash` hashes the public key, the timestamp and the transaction;
* `proofMessageBytes` is the transaction id, the hash of the chain and the sequence number.

The transaction is the only part that has no fixed width.  It stands in the middle of the
first input and at the end of the second one, and the bytes determine it all the same
(`preimages_unambiguous`).  Hence valid envelopes have the same message id exactly when they
carry the same fields, up to a collision of the hash (`messageId_eq_iff`), and a signature
stands under one relay proof only, unless it is a signature of two messages
(`RelayChainProof.eq_or_two_signed`).
-/

namespace StellarConduit

/-- **Pre-images are unambiguous.**  For keys, transactions and timestamps of every value, the
bytes that are hashed for the message id determine the three fields, and so do the bytes that
are hashed for the signature.  The bytes that a relay proof signs determine the transaction
id, the hash of the chain and the sequence number. -/
theorem preimages_unambiguous :
    (Function.Injective fun p : Bytes 32 × String × UInt64 =>
        messageIdInput p.1 p.2.1 p.2.2) ∧
      (Function.Injective fun p : Bytes 32 × String × UInt64 =>
        payloadInput p.1 p.2.2 p.2.1) ∧
      Function.Injective fun p : Bytes 32 × Bytes 32 × UInt64 =>
        proofMessageBytes p.1 p.2.1 p.2.2 := by
  refine ⟨?_, ?_, ?_⟩
  · rintro ⟨k, xdr, ts⟩ ⟨k', xdr', ts'⟩ h
    obtain ⟨rfl, rfl, rfl⟩ := messageIdInput_injective h
    rfl
  · rintro ⟨k, xdr, ts⟩ ⟨k', xdr', ts'⟩ h
    obtain ⟨rfl, rfl, rfl⟩ := payloadInput_injective h
    rfl
  · rintro ⟨txId, chainHash, sequence⟩ ⟨txId', chainHash', sequence'⟩ h
    obtain ⟨rfl, rfl, rfl⟩ := proofMessageBytes_injective h
    rfl

/-! ### What an id and a signature stand for -/

variable {C : Crypto}

/-- Valid envelopes have one message id exactly when they carry the same fields, if the hash
tells their inputs apart. -/
theorem messageId_eq_iff {env env' : TransactionEnvelope}
    (hvalid : validateEnvelope C env = .ok ()) (hvalid' : validateEnvelope C env' = .ok ())
    (hcol : C.CollisionFree
      [messageIdInput env.originPubkey env.txXdr env.timestamp,
        messageIdInput env'.originPubkey env'.txXdr env'.timestamp]) :
    env.messageId = env'.messageId ↔
      env.originPubkey = env'.originPubkey ∧ env.txXdr = env'.txXdr ∧
        env.timestamp = env'.timestamp := by
  obtain ⟨-, -, -, -, hid⟩ := (validateEnvelope_eq_ok_iff C env).1 hvalid
  obtain ⟨-, -, -, -, hid'⟩ := (validateEnvelope_eq_ok_iff C env').1 hvalid'
  rw [hid, hid']
  constructor
  · intro hhash
    exact messageIdInput_injective (hcol _ (by simp) _ (by simp) hhash)
  · rintro ⟨hkey, hxdr, hts⟩
    rw [hkey, hxdr, hts]

/-- Two relay proofs that verify with one signature are the same proof for the same
transaction, or the signature is one of two different messages. -/
theorem RelayChainProof.eq_or_two_signed {proof proof' : RelayChainProof}
    {verifyingKey : C.VerifyingKey} {txId txId' : Bytes 32}
    (hsignature : proof.signature = proof'.signature)
    (h : proof.verify C verifyingKey txId = true)
    (h' : proof'.verify C verifyingKey txId' = true) :
    (txId = txId' ∧ proof = proof') ∨
      ∃ message message' : Bytes 72, message ≠ message' ∧
        C.verify verifyingKey message.toList proof.signature = true ∧
        C.verify verifyingKey message'.toList proof.signature = true := by
  obtain ⟨signature, chainHash, sequence⟩ := proof
  obtain ⟨signature', chainHash', sequence'⟩ := proof'
  obtain rfl : signature = signature' := hsignature
  by_cases hmessage : proofMessageBytes txId chainHash sequence =
      proofMessageBytes txId' chainHash' sequence'
  · obtain ⟨rfl, rfl, rfl⟩ := proofMessageBytes_injective hmessage
    exact Or.inl ⟨rfl, rfl⟩
  · exact Or.inr ⟨_, _, hmessage, h, h'⟩

end StellarConduit
