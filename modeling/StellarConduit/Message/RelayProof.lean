import StellarConduit.Message.Envelope

/-!
# Relay proofs

`message/relay_proof.rs`: a relay node signs the transaction id, the hash of the chain and
its sequence number; `verify` puts the same bytes together for the id it is given.
-/

namespace StellarConduit

structure RelayChainProof where
  signature : Bytes 64
  chainHash : Bytes 32
  sequence : UInt64
  deriving DecidableEq

/-- The 72 bytes a relay proof signs. -/
def proofMessageBytes (txId chainHash : Bytes 32) (sequence : UInt64) : Bytes 72 :=
  ⟨txId.toList ++ chainHash.toList ++ toBeBytes sequence, by simp⟩

/-- The bytes under a relay proof determine the signed fields. -/
theorem proofMessageBytes_injective {txId txId' chainHash chainHash' : Bytes 32}
    {sequence sequence' : UInt64}
    (h : proofMessageBytes txId chainHash sequence =
      proofMessageBytes txId' chainHash' sequence') :
    txId = txId' ∧ chainHash = chainHash' ∧ sequence = sequence' := by
  let hashes := (bytesField 32).append (bytesField 32)
  have hfields : ((txId, chainHash), sequence) = ((txId', chainHash'), sequence') :=
    (hashes.append beField).injective (congrArg List.Vector.toList h)
  obtain ⟨hhashes, hsequence⟩ := Prod.mk.inj hfields
  obtain ⟨htxId, hchainHash⟩ := Prod.mk.inj hhashes
  exact ⟨htxId, hchainHash, hsequence⟩

namespace RelayChainProof

def sign (C : Crypto) (signingKey : C.SigningKey) (txId chainHash : Bytes 32)
    (sequence : UInt64) : RelayChainProof :=
  let message := proofMessageBytes txId chainHash sequence
  { signature := C.sign signingKey message.toList
    chainHash := chainHash
    sequence := sequence }

def verify (C : Crypto) (proof : RelayChainProof) (verifyingKey : C.VerifyingKey)
    (txId : Bytes 32) : Bool :=
  let message := proofMessageBytes txId proof.chainHash proof.sequence
  C.verify verifyingKey message.toList proof.signature

/-- A proof verifies for the transaction id it was signed for. -/
theorem verify_sign {C : Crypto} (hC : C.VerifiesSigned) (signingKey : C.SigningKey)
    (txId chainHash : Bytes 32) (sequence : UInt64) :
    (sign C signingKey txId chainHash sequence).verify C (C.verifyingKey signingKey) txId =
      true :=
  hC signingKey _

end RelayChainProof

end StellarConduit
