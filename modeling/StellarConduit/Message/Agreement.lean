import StellarConduit.Message.Envelope

/-!
# Do created envelopes pass the checks?

An envelope is made in one of two ways: by `EnvelopeBuilder::build`, which signs the
message id, or along the documented path, which takes the payload hash as message id and
signs with `sign_envelope`.  It is checked in two ways: `validate_envelope` recomputes the
message id, `verify_signature` recomputes the payload hash.

Each way of making envelopes passes one of the checks.  Whether it passes the other one
depends on whether the two hash inputs are the same bytes, that is, whether the
transaction's bytes followed by the little-endian timestamp are the big-endian timestamp
followed by the transaction's bytes (`created_accepted_iff`).
-/

namespace StellarConduit

variable {C : Crypto}

/-- The envelope passes both checks. -/
def PassesChecks (C : Crypto) (env : TransactionEnvelope) : Prop :=
  validateEnvelope C env = .ok () ∧ verifySignature C env = .ok true

/-- The documented path: the payload hash is the message id, `sign_envelope` signs. -/
def documentedEnvelope (C : Crypto) (key : C.SigningKey) (txXdr : String) (ttlHops : UInt8)
    (timestamp : UInt64) : Except SignError TransactionEnvelope :=
  let originPubkey := C.pubkey key
  let payloadHash := C.sha256 (payloadInput originPubkey timestamp txXdr)
  signEnvelope C key
    { messageId := payloadHash
      originPubkey := originPubkey
      txXdr := txXdr
      ttlHops := ttlHops
      timestamp := timestamp
      signature := List.Vector.replicate 64 0 }

/-- The two hash inputs of an envelope with these fields are the same bytes. -/
def HashInputsAgree (txXdr : String) (timestamp : UInt64) : Prop :=
  utf8Bytes txXdr ++ toLeBytes timestamp = toBeBytes timestamp ++ utf8Bytes txXdr

instance (txXdr : String) (timestamp : UInt64) : Decidable (HashInputsAgree txXdr timestamp) :=
  inferInstanceAs (Decidable (_ = _))

/-- A palindromic timestamp and a transaction made of its bytes. -/
example : HashInputsAgree "AAAAAAAA" 0x4141414141414141 := by decide

theorem messageIdInput_eq_payloadInput_iff (k : Bytes 32) (txXdr : String) (ts : UInt64) :
    messageIdInput k txXdr ts = payloadInput k ts txXdr ↔ HashInputsAgree txXdr ts := by
  rw [messageIdInput, payloadInput, List.append_assoc, List.append_assoc,
    List.append_cancel_left_eq, HashInputsAgree]

theorem sha256_inputs_eq_iff {k : Bytes 32} {txXdr : String} {ts : UInt64}
    (hcol : C.CollisionFree [messageIdInput k txXdr ts, payloadInput k ts txXdr]) :
    C.sha256 (messageIdInput k txXdr ts) = C.sha256 (payloadInput k ts txXdr) ↔
      HashInputsAgree txXdr ts := by
  rw [← messageIdInput_eq_payloadInput_iff k]
  constructor
  · exact hcol _ (by simp) _ (by simp)
  · exact congrArg C.sha256

section Created

variable (hC : C.Ideal) (key : C.SigningKey)

include hC

/-- An envelope that carries the signer's key and a signature of `d` verifies exactly when
`d` is its payload hash. -/
theorem verifySignature_signed_iff (env : TransactionEnvelope) (d : Bytes 32)
    (hkey : env.originPubkey = C.pubkey key) (hsig : env.signature = C.sign key d.toList) :
    verifySignature C env = .ok true ↔ generatePayloadHash C env = d := by
  rw [verifySignature_eq_ok_true_iff, hkey, hsig, Crypto.pubkey, hC.fromBytes_toBytes]
  constructor
  · rintro ⟨k, hk, hverify⟩
    obtain rfl := Except.ok.inj hk
    exact (hC.verify_sign_iff key _ _).1 hverify
  · intro h
    exact ⟨_, rfl, (hC.verify_sign_iff key _ _).2 h⟩

/-- What the builder makes verifies exactly when the two hashes are the same. -/
theorem verifySignature_build_iff {b : EnvelopeBuilder} (hkey : b.originPubkey = C.pubkey key)
    (now : UInt64) :
    verifySignature C (b.build C key now) = .ok true ↔
      C.sha256 (messageIdInput b.originPubkey b.txXdr (b.timestamp.getD now)) =
        C.sha256 (payloadInput b.originPubkey (b.timestamp.getD now) b.txXdr) := by
  rw [verifySignature_signed_iff hC key (b.build C key now) _ hkey rfl]
  exact eq_comm

/-- What the documented path makes verifies. -/
theorem verifySignature_signEnvelope {env signed : TransactionEnvelope}
    (hkey : env.originPubkey = C.pubkey key) (h : signEnvelope C key env = .ok signed) :
    verifySignature C signed = .ok true := by
  obtain rfl := Except.ok.inj h
  let hash := generatePayloadHash C env
  let signed := { env with signature := C.sign key hash.toList }
  exact (verifySignature_signed_iff hC key signed hash hkey rfl).2 rfl

omit hC

/-- What the builder makes is valid. -/
theorem validateEnvelope_build {b : EnvelopeBuilder} {now : UInt64} (hxdr : b.txXdr ≠ "")
    (httl : b.ttlHops ≠ 0) (hts : b.timestamp.getD now ≠ 0)
    (hzero : computeMessageId C b.originPubkey b.txXdr (b.timestamp.getD now) ≠ zeroId) :
    validateEnvelope C (b.build C key now) = .ok () :=
  (validateEnvelope_eq_ok_iff C _).2 ⟨hzero, hxdr, httl, hts, rfl⟩

/-- What the documented path makes is valid exactly when the two hashes are the same. -/
theorem validateEnvelope_documented_iff {txXdr : String} {ttlHops : UInt8} {ts : UInt64}
    (hxdr : txXdr ≠ "") (httl : ttlHops ≠ 0) (hts : ts ≠ 0)
    (hzero : C.sha256 (payloadInput (C.pubkey key) ts txXdr) ≠ zeroId)
    {signed : TransactionEnvelope}
    (h : documentedEnvelope C key txXdr ttlHops ts = .ok signed) :
    validateEnvelope C signed = .ok () ↔
      C.sha256 (messageIdInput (C.pubkey key) txXdr ts) =
        C.sha256 (payloadInput (C.pubkey key) ts txXdr) := by
  obtain rfl := Except.ok.inj h
  rw [validateEnvelope_eq_ok_iff]
  constructor
  · rintro ⟨-, -, -, -, hid⟩
    exact hid.symm
  · intro hid
    exact ⟨hzero, hxdr, httl, hts, hid.symm⟩

end Created

/-- **Created envelopes pass the checks exactly when the hash inputs agree.**  For every
key, non-empty transaction, positive timestamp and positive hop count: both the builder's
envelope and the documented one pass both checks if and only if the two hash inputs are
the same bytes. -/
theorem created_accepted_iff (C : Crypto) (hC : C.Ideal) (key : C.SigningKey)
    (b : EnvelopeBuilder) (now : UInt64) (hkey : b.originPubkey = C.pubkey key)
    (hxdr : b.txXdr ≠ "") (hts : 1 ≤ b.timestamp.getD now) (httl : 1 ≤ b.ttlHops)
    (hcol : C.CollisionFree
      [messageIdInput b.originPubkey b.txXdr (b.timestamp.getD now),
        payloadInput b.originPubkey (b.timestamp.getD now) b.txXdr])
    (hid : computeMessageId C b.originPubkey b.txXdr (b.timestamp.getD now) ≠ zeroId)
    (hhash : C.sha256 (payloadInput b.originPubkey (b.timestamp.getD now) b.txXdr) ≠ zeroId) :
    (PassesChecks C (b.build C key now) ∧
      ∃ env, documentedEnvelope C key b.txXdr b.ttlHops (b.timestamp.getD now) = .ok env ∧
        PassesChecks C env) ↔
      HashInputsAgree b.txXdr (b.timestamp.getD now) := by
  have hts' : b.timestamp.getD now ≠ 0 := by
    intro h
    rw [h] at hts
    exact absurd hts (by decide)
  have httl' : b.ttlHops ≠ 0 := by
    intro h
    rw [h] at httl
    exact absurd httl (by decide)
  have hbuild : PassesChecks C (b.build C key now) ↔
      HashInputsAgree b.txXdr (b.timestamp.getD now) := by
    rw [← sha256_inputs_eq_iff hcol, ← verifySignature_build_iff hC key hkey now]
    exact and_iff_right (validateEnvelope_build key hxdr httl' hts' hid)
  constructor
  · rintro ⟨h, -⟩
    exact hbuild.1 h
  · intro hagree
    refine ⟨hbuild.2 hagree, _, rfl, ?_, ?_⟩
    · refine (validateEnvelope_documented_iff key hxdr httl' hts' (hkey ▸ hhash) rfl).2 ?_
      exact (sha256_inputs_eq_iff (hkey ▸ hcol)).2 hagree
    · exact verifySignature_signEnvelope hC key rfl rfl

/-! ### A transaction and a timestamp for which they do not agree -/

/-- A builder for the sample key, with a short transaction at second 1672531200. -/
def sampleBuilder : EnvelopeBuilder :=
  ((EnvelopeBuilder.new sampleKey "AAAA").ttl 10).withTimestamp 1672531200

/-- The hypotheses hold of the sample, so the equivalence applies to it. -/
theorem created_accepted_iff_sample :
    (PassesChecks Crypto.transparent (sampleBuilder.build Crypto.transparent sampleKey 0) ∧
      ∃ env, documentedEnvelope Crypto.transparent sampleKey sampleBuilder.txXdr
          sampleBuilder.ttlHops (sampleBuilder.timestamp.getD 0) = .ok env ∧
        PassesChecks Crypto.transparent env) ↔
      HashInputsAgree sampleBuilder.txXdr (sampleBuilder.timestamp.getD 0) :=
  created_accepted_iff Crypto.transparent Crypto.transparent_ideal sampleKey sampleBuilder 0 rfl
    (by decide) (by decide) (by decide) (by decide) (by decide) (by decide)

/-- Every hypothesis holds of the sample, but neither envelope passes both checks: the
signature of the builder's envelope is rejected, and the message id of the documented one. -/
theorem created_not_accepted_sample :
    Crypto.transparent.Ideal ∧
      Crypto.transparent.CollisionFree
        [messageIdInput sampleKey "AAAA" 1672531200, payloadInput sampleKey 1672531200 "AAAA"] ∧
      computeMessageId Crypto.transparent sampleKey "AAAA" 1672531200 ≠ zeroId ∧
      Crypto.transparent.sha256 (payloadInput sampleKey 1672531200 "AAAA") ≠ zeroId ∧
      validateEnvelope Crypto.transparent
        (sampleBuilder.build Crypto.transparent sampleKey 0) = .ok () ∧
      verifySignature Crypto.transparent
        (sampleBuilder.build Crypto.transparent sampleKey 0) = .error .invalidSignature ∧
      ¬ PassesChecks Crypto.transparent (sampleBuilder.build Crypto.transparent sampleKey 0) ∧
      ∃ env, documentedEnvelope Crypto.transparent sampleKey "AAAA" 10 1672531200 = .ok env ∧
        verifySignature Crypto.transparent env = .ok true ∧
        validateEnvelope Crypto.transparent env = .error .messageIdMismatch ∧
        ¬ PassesChecks Crypto.transparent env := by
  have hverify : verifySignature Crypto.transparent
      (sampleBuilder.build Crypto.transparent sampleKey 0) = .error .invalidSignature := by decide
  refine ⟨Crypto.transparent_ideal, by decide, by decide, by decide, by decide, hverify, ?_, ?_⟩
  · rintro ⟨-, h⟩
    rw [hverify] at h
    cases h
  · refine ⟨_, rfl, by decide, by decide, ?_⟩
    rintro ⟨h, -⟩
    exact absurd h (by decide)

end StellarConduit
