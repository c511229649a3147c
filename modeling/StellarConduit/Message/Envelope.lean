import StellarConduit.Message.Crypto

/-!
# Creating, validating and signing envelopes

`message/envelope.rs` and `message/signing.rs`.  Two hashes are taken of an envelope:
`computeMessageId` reads the public key, the transaction and the timestamp in
little-endian order; `generatePayloadHash` reads the public key, the timestamp in
big-endian order and the transaction.  The builder signs the first one, `signEnvelope` and
`verifySignature` use the second one.
-/

namespace StellarConduit

open Verif.Bytes

/-- `u64::to_le_bytes` -/
def toLeBytes (n : UInt64) : List UInt8 := leBytes 8 n.toNat

/-- `u64::to_be_bytes` -/
def toBeBytes (n : UInt64) : List UInt8 := beBytes 8 n.toNat

@[simp] theorem length_toBeBytes (n : UInt64) : (toBeBytes n).length = 8 := length_beBytes 8 _

theorem toLeBytes_injective : Function.Injective toLeBytes := fun n m h =>
  UInt64.toNat_inj.1 (leBytes_injective_of_lt n.toNat_lt m.toNat_lt h)

theorem toBeBytes_injective : Function.Injective toBeBytes := fun n m h =>
  UInt64.toNat_inj.1 (beBytes_injective_of_lt n.toNat_lt m.toNat_lt h)

/-- A `u64`, least significant byte first. -/
def leField : FixedField UInt64 8 where
  encode := toLeBytes
  length_encode n := length_leBytes 8 n.toNat
  injective := toLeBytes_injective

/-- A `u64`, most significant byte first. -/
def beField : FixedField UInt64 8 where
  encode := toBeBytes
  length_encode := length_toBeBytes
  injective := toBeBytes_injective

/-! ### `envelope.rs` -/

inductive EnvelopeError
  | zeroMessageId
  | emptyXdr
  | zeroTtl
  | zeroTimestamp
  | messageIdMismatch
  deriving DecidableEq

/-- What `compute_message_id` feeds to the hash. -/
def messageIdInput (originPubkey : Bytes 32) (txXdr : String) (timestamp : UInt64) :
    List UInt8 :=
  originPubkey.toList ++ utf8Bytes txXdr ++ toLeBytes timestamp

/-- The bytes under the message id determine the hashed fields.  The transaction stands
between two fields of fixed width. -/
theorem messageIdInput_injective {k k' : Bytes 32} {xdr xdr' : String} {ts ts' : UInt64}
    (h : messageIdInput k xdr ts = messageIdInput k' xdr' ts') :
    k = k' ∧ xdr = xdr' ∧ ts = ts' := by
  have hstart := (bytesField 32).append_injective utf8Bytes_injective
  have hfields : ((k, xdr), ts) = ((k', xdr'), ts') := leField.prepend_injective hstart h
  obtain ⟨hpair, hts⟩ := Prod.mk.inj hfields
  obtain ⟨hk, hxdr⟩ := Prod.mk.inj hpair
  exact ⟨hk, hxdr, hts⟩

def computeMessageId (C : Crypto) (originPubkey : Bytes 32) (txXdr : String)
    (timestamp : UInt64) : Bytes 32 :=
  C.sha256 (messageIdInput originPubkey txXdr timestamp)

/-- The array of 32 zeros. -/
def zeroId : Bytes 32 := List.Vector.replicate 32 0

def validateEnvelope (C : Crypto) (env : TransactionEnvelope) : Except EnvelopeError Unit :=
  if env.messageId = zeroId then .error .zeroMessageId
  else if env.txXdr = "" then .error .emptyXdr
  else if env.ttlHops = 0 then .error .zeroTtl
  else if env.timestamp = 0 then .error .zeroTimestamp
  else if env.messageId ≠ computeMessageId C env.originPubkey env.txXdr env.timestamp then
    .error .messageIdMismatch
  else .ok ()

theorem validateEnvelope_eq_ok_iff (C : Crypto) (env : TransactionEnvelope) :
    validateEnvelope C env = .ok () ↔
      env.messageId ≠ zeroId ∧ env.txXdr ≠ "" ∧ env.ttlHops ≠ 0 ∧ env.timestamp ≠ 0 ∧
        env.messageId = computeMessageId C env.originPubkey env.txXdr env.timestamp := by
  unfold validateEnvelope
  split_ifs with h₁ h₂ h₃ h₄ h₅ <;> simp_all

structure EnvelopeBuilder where
  originPubkey : Bytes 32
  txXdr : String
  ttlHops : UInt8
  timestamp : Option UInt64
  deriving DecidableEq

namespace EnvelopeBuilder

def new (originPubkey : Bytes 32) (txXdr : String) : EnvelopeBuilder where
  originPubkey := originPubkey
  txXdr := txXdr
  ttlHops := 10
  timestamp := none

def ttl (b : EnvelopeBuilder) (hops : UInt8) : EnvelopeBuilder := { b with ttlHops := hops }

def withTimestamp (b : EnvelopeBuilder) (ts : UInt64) : EnvelopeBuilder :=
  { b with timestamp := some ts }

/-- `build`; `now` is the clock, read when no timestamp was set. -/
def build (b : EnvelopeBuilder) (C : Crypto) (signingKey : C.SigningKey) (now : UInt64) :
    TransactionEnvelope :=
  let timestamp := b.timestamp.getD now
  let messageId := computeMessageId C b.originPubkey b.txXdr timestamp
  { messageId := messageId
    originPubkey := b.originPubkey
    txXdr := b.txXdr
    ttlHops := b.ttlHops
    timestamp := timestamp
    signature := C.sign signingKey messageId.toList }

end EnvelopeBuilder

/-! ### `signing.rs` -/

inductive SignError
  | invalidSignature
  | malformedPublicKey (reason : String)
  deriving DecidableEq

/-- What `generate_payload_hash` feeds to the hash. -/
def payloadInput (originPubkey : Bytes 32) (timestamp : UInt64) (txXdr : String) :
    List UInt8 :=
  originPubkey.toList ++ toBeBytes timestamp ++ utf8Bytes txXdr

def generatePayloadHash (C : Crypto) (env : TransactionEnvelope) : Bytes 32 :=
  C.sha256 (payloadInput env.originPubkey env.timestamp env.txXdr)

def signEnvelope (C : Crypto) (keypair : C.SigningKey) (env : TransactionEnvelope) :
    Except SignError TransactionEnvelope :=
  let hash := generatePayloadHash C env
  .ok { env with signature := C.sign keypair hash.toList }

def verifySignature (C : Crypto) (env : TransactionEnvelope) : Except SignError Bool :=
  match C.fromBytes env.originPubkey with
  | .error e => .error (.malformedPublicKey e)
  | .ok verifyingKey =>
    let hash := generatePayloadHash C env
    if C.verify verifyingKey hash.toList env.signature then .ok true
    else .error .invalidSignature

theorem verifySignature_eq_ok_true_iff (C : Crypto) (env : TransactionEnvelope) :
    verifySignature C env = .ok true ↔
      ∃ k, C.fromBytes env.originPubkey = .ok k ∧
        C.verify k (generatePayloadHash C env).toList env.signature = true := by
  unfold verifySignature
  cases C.fromBytes env.originPubkey with
  | error e => simp
  | ok k => by_cases h : C.verify k (generatePayloadHash C env).toList env.signature <;> simp [h]

/-- `verify_signature` never answers `Ok(false)`. -/
theorem verifySignature_ne_ok_false (C : Crypto) (env : TransactionEnvelope) :
    verifySignature C env ≠ .ok false := by
  unfold verifySignature
  split
  · simp
  · dsimp only
    split_ifs <;> simp

/-- The bytes under the signature determine the signed fields. -/
theorem payloadInput_injective {k k' : Bytes 32} {ts ts' : UInt64} {xdr xdr' : String}
    (h : payloadInput k ts xdr = payloadInput k' ts' xdr') :
    k = k' ∧ ts = ts' ∧ xdr = xdr' := by
  let header := (bytesField 32).append beField
  have hfields : ((k, ts), xdr) = ((k', ts'), xdr') :=
    header.append_injective utf8Bytes_injective h
  obtain ⟨hheader, hxdr⟩ := Prod.mk.inj hfields
  obtain ⟨hk, hts⟩ := Prod.mk.inj hheader
  exact ⟨hk, hts, hxdr⟩

end StellarConduit
