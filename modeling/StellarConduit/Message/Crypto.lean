import StellarConduit.Message.Types

/-!
# Signatures and hashes

The functions of `ed25519_dalek` and `sha2` that the crate calls are parameters of the
model, collected in `Crypto`.  `Crypto.Ideal` says what an ideal signature scheme does, for
the 32-byte digests that envelopes sign; `Crypto.CollisionFree` says of finitely many
inputs that the hash tells them apart.

`Crypto.transparent` is a scheme whose signatures spell out the key and the digest: it is
ideal, and its operations compute.
-/

namespace StellarConduit

/-- The cryptographic functions the crate uses. -/
structure Crypto where
  SigningKey : Type
  VerifyingKey : Type
  /-- `SigningKey::verifying_key` -/
  verifyingKey : SigningKey → VerifyingKey
  /-- `VerifyingKey::to_bytes` -/
  toBytes : VerifyingKey → Bytes 32
  /-- `VerifyingKey::from_bytes`, which rejects bytes that are no key -/
  fromBytes : Bytes 32 → Except String VerifyingKey
  /-- `SigningKey::sign`, as bytes -/
  sign : SigningKey → List UInt8 → Bytes 64
  /-- `VerifyingKey::verify(..).is_ok()` -/
  verify : VerifyingKey → List UInt8 → Bytes 64 → Bool
  /-- `Sha256` over the concatenation of the updates -/
  sha256 : List UInt8 → Bytes 32

namespace Crypto

/-- The public key of a signing key, as the bytes that envelopes carry. -/
def pubkey (C : Crypto) (key : C.SigningKey) : Bytes 32 := C.toBytes (C.verifyingKey key)

/-- An ideal signature scheme: encoded keys decode to themselves, a signature verifies for
the key and the digest that made it, and a signature that verifies was made by that key
for that digest. -/
structure Ideal (C : Crypto) : Prop where
  fromBytes_toBytes : ∀ k, C.fromBytes (C.toBytes k) = .ok k
  toBytes_fromBytes : ∀ b k, C.fromBytes b = .ok k → C.toBytes k = b
  verify_sign : ∀ (key : C.SigningKey) (d : Bytes 32),
    C.verify (C.verifyingKey key) d.toList (C.sign key d.toList) = true
  signed_of_verify : ∀ (k : C.VerifyingKey) (d : Bytes 32) (s : Bytes 64),
    C.verify k d.toList s = true → ∃ key, C.verifyingKey key = k ∧ C.sign key d.toList = s
  sign_injective : ∀ (key key' : C.SigningKey) (d d' : Bytes 32),
    C.sign key d.toList = C.sign key' d'.toList →
      C.verifyingKey key = C.verifyingKey key' ∧ d = d'

/-- No two different inputs among `inputs` have the same hash. -/
def CollisionFree (C : Crypto) (inputs : List (List UInt8)) : Prop :=
  ∀ x ∈ inputs, ∀ y ∈ inputs, C.sha256 x = C.sha256 y → x = y

instance (C : Crypto) (inputs : List (List UInt8)) : Decidable (C.CollisionFree inputs) :=
  inferInstanceAs (Decidable (∀ x ∈ inputs, ∀ y ∈ inputs, _))

/-- Verification accepts what was signed, messages of every length included. -/
def VerifiesSigned (C : Crypto) : Prop :=
  ∀ (key : C.SigningKey) (m : List UInt8), C.verify (C.verifyingKey key) m (C.sign key m) = true

variable {C : Crypto}

/-- A signature verifies exactly for the digest that made it. -/
theorem Ideal.verify_sign_iff (hC : C.Ideal) (key : C.SigningKey) (d d' : Bytes 32) :
    C.verify (C.verifyingKey key) d.toList (C.sign key d'.toList) = true ↔ d = d' := by
  constructor
  · intro h
    obtain ⟨key', -, hsign⟩ := hC.signed_of_verify _ _ _ h
    exact (hC.sign_injective _ _ _ _ hsign).2
  · rintro rfl
    exact hC.verify_sign key d

/-- One signature verifies for at most one digest and one key. -/
theorem Ideal.eq_of_verify (hC : C.Ideal) {k k' : C.VerifyingKey} {d d' : Bytes 32} {s : Bytes 64}
    (h : C.verify k d.toList s = true) (h' : C.verify k' d'.toList s = true) :
    k = k' ∧ d = d' := by
  obtain ⟨key, rfl, hsign⟩ := hC.signed_of_verify _ _ _ h
  obtain ⟨key', rfl, hsign'⟩ := hC.signed_of_verify _ _ _ h'
  exact hC.sign_injective _ _ _ _ (hsign.trans hsign'.symm)

/-! ### A scheme that computes -/

/-- The first `n` bytes of a list, padded with `fill`. -/
def fit (n : ℕ) (fill : UInt8) (l : List UInt8) : Bytes n :=
  ⟨(l ++ List.replicate n fill).take n, by simp⟩

theorem fit_toList_of_length {n : ℕ} {fill : UInt8} {l : List UInt8} (h : l.length = n) :
    (fit n fill l).toList = l := by
  show (l ++ List.replicate n fill).take n = l
  rw [← h, List.take_left]

theorem fit_key_digest_injective {k k' d d' : Bytes 32}
    (h : fit 64 0 (k.toList ++ d.toList) = fit 64 0 (k'.toList ++ d'.toList)) :
    k = k' ∧ d = d' := by
  have hlen : ∀ a b : Bytes 32, (a.toList ++ b.toList).length = 64 := fun a b => by simp
  have hlist := congrArg List.Vector.toList h
  rw [fit_toList_of_length (hlen _ _), fit_toList_of_length (hlen _ _)] at hlist
  have hpair : (k, d) = (k', d') := ((bytesField 32).append (bytesField 32)).injective hlist
  exact Prod.mk.inj hpair

/-- Signatures that spell out the key and the digest, and a hash that keeps the bytes
after the public key. -/
def transparent : Crypto where
  SigningKey := Bytes 32
  VerifyingKey := Bytes 32
  verifyingKey key := key
  toBytes k := k
  fromBytes b := .ok b
  sign key m := fit 64 0 (key.toList ++ m)
  verify k m s := decide (s = fit 64 0 (k.toList ++ m))
  sha256 m := fit 32 1 (m.drop 32)

theorem transparent_ideal : transparent.Ideal where
  fromBytes_toBytes _ := rfl
  toBytes_fromBytes b k h := by cases h; rfl
  verify_sign key d := decide_eq_true rfl
  signed_of_verify k d s h := ⟨k, rfl, (of_decide_eq_true h).symm⟩
  sign_injective _ _ _ _ h := fit_key_digest_injective h

theorem transparent_verifiesSigned : transparent.VerifiesSigned :=
  fun _ _ => decide_eq_true rfl

end Crypto

/-- A key of the transparent scheme. -/
def sampleKey : Bytes 32 := List.Vector.replicate 32 7

end StellarConduit
