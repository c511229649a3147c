import StellarConduit.Message.Size

/-!
# Messages of an encrypted connection

`encrypt_message` and `frame_noise_message` of `security/encryption.rs`.  A Noise message is at most
65535 bytes long, with the 16 bytes of its tag, and travels behind its length in two bytes.

* `encryptMessage`, `frameNoiseMessage`;
* `size_check_sufficient_iff`: which of the messages that pass the size check are encrypted.
-/

namespace StellarConduit

open Verif.Bytes Verif.MessagePack

/-- `MAX_NOISE_MESSAGE_SIZE` -/
def maxNoiseMessageSize : ℕ := 65535

inductive EncryptionError
  | encryptionFailed (message : String)
  | invalidMessageSize (message : String)
  deriving DecidableEq

/-- `TransportState` of `snow`, the part that the crate calls -/
structure Noise (σ : Type) where
  /-- `write_message`, for a payload and a buffer of some length: what it writes -/
  writeMessage : σ → List UInt8 → ℕ → Except String (List UInt8) × σ

/-- A message is written with its tag, if it is no longer than a Noise message and the buffer. -/
structure Noise.Documented {σ : Type} (noise : Noise σ) : Prop where
  isOk_iff : ∀ s payload size, (noise.writeMessage s payload size).1.isOk = true ↔
    payload.length + 16 ≤ 65535 ∧ payload.length + 16 ≤ size
  length_eq : ∀ s payload size ciphertext,
    (noise.writeMessage s payload size).1 = .ok ciphertext → ciphertext.length = payload.length + 16

section Encryption

variable {σ : Type} {noise : Noise σ}

def encryptMessage (noise : Noise σ) (s : σ) (msg : ProtocolMessage) :
    Except EncryptionError (List UInt8) × σ :=
  let plaintext := msg.toBytes
  if plaintext.length > maxNoiseMessageSize then
    (.error (.invalidMessageSize
      s!"Message size {plaintext.length} exceeds max {maxNoiseMessageSize}"), s)
  else
    match noise.writeMessage s plaintext (plaintext.length + 16) with
    | (.ok ciphertext, s) => (.ok ciphertext, s)
    | (.error e, s) => (.error (.encryptionFailed s!"Encryption failed: {e}"), s)

def frameNoiseMessage (msg : List UInt8) : Except EncryptionError (List UInt8) :=
  if msg.length > maxNoiseMessageSize then
    .error (.invalidMessageSize
      s!"Frame message size {msg.length} exceeds max {maxNoiseMessageSize}")
  else .ok (beBytes 2 msg.length ++ msg)

/-- A Noise message is framed behind its length. -/
theorem frameNoiseMessage_of_le {msg : List UInt8} (h : msg.length ≤ maxNoiseMessageSize) :
    ∃ framed, frameNoiseMessage msg = .ok framed ∧
      ofLeBytes (framed.take 2).reverse = msg.length ∧ framed.drop 2 = msg := by
  have hheader : (beBytes 2 msg.length).length = 2 := length_beBytes 2 msg.length
  have hlt : msg.length < 256 ^ 2 := Nat.lt_succ_of_le h
  refine ⟨beBytes 2 msg.length ++ msg, if_neg (Nat.not_lt.2 h), ?_, List.drop_left' hheader⟩
  rw [List.take_left' hheader, beBytes, List.reverse_reverse, ofLeBytes_leBytes_of_lt hlt]

/-- What a message that passes the size check is encrypted to. -/
theorem encryptMessage_eq_ok_iff {s : σ} {msg : ProtocolMessage}
    (hcheck : msg.toBytes.length ≤ maxNoiseMessageSize) {ciphertext : List UInt8} :
    (encryptMessage noise s msg).1 = .ok ciphertext ↔
      (noise.writeMessage s msg.toBytes (msg.toBytes.length + 16)).1 = .ok ciphertext := by
  unfold encryptMessage
  dsimp only
  rw [if_neg (Nat.not_lt.2 hcheck)]
  rcases noise.writeMessage s msg.toBytes (msg.toBytes.length + 16) with ⟨_ | written, s'⟩
  · simp only [reduceCtorEq]
  · simp only [Except.ok.injEq]

/-- **The size check.**  Of the messages that pass the check, those are encrypted and framed that
leave room for the tag. -/
theorem size_check_sufficient_iff (h : noise.Documented) (s : σ) (msg : ProtocolMessage)
    (hcheck : msg.toBytes.length ≤ maxNoiseMessageSize) :
    (∃ ciphertext framed, (encryptMessage noise s msg).1 = .ok ciphertext ∧
      frameNoiseMessage ciphertext = .ok framed ∧
      ofLeBytes (framed.take 2).reverse = ciphertext.length ∧ framed.drop 2 = ciphertext) ↔
        msg.toBytes.length ≤ maxNoiseMessageSize - 16 := by
  have hwrites := h.isOk_iff s msg.toBytes (msg.toBytes.length + 16)
  constructor
  · rintro ⟨ciphertext, framed, hciphertext, -⟩
    rw [encryptMessage_eq_ok_iff hcheck] at hciphertext
    rw [hciphertext] at hwrites
    exact Nat.le_sub_of_add_le (hwrites.1 rfl).1
  · intro hroom
    have hfits : msg.toBytes.length + 16 ≤ 65535 := Nat.add_le_of_le_sub (by decide) hroom
    obtain ⟨ciphertext, hciphertext⟩ : ∃ ciphertext,
        (noise.writeMessage s msg.toBytes (msg.toBytes.length + 16)).1 = .ok ciphertext := by
      have hok := hwrites.2 ⟨hfits, Nat.le_refl _⟩
      cases hresult : (noise.writeMessage s msg.toBytes (msg.toBytes.length + 16)).1 with
      | ok ciphertext => exact ⟨ciphertext, rfl⟩
      | error e =>
        rw [hresult] at hok
        cases hok
    have hlength := h.length_eq s msg.toBytes _ ciphertext hciphertext
    obtain ⟨framed, hframed, hheader, hdata⟩ :=
      frameNoiseMessage_of_le (show ciphertext.length ≤ maxNoiseMessageSize by
        rw [hlength]
        exact hfits)
    exact ⟨ciphertext, framed, (encryptMessage_eq_ok_iff hcheck).2 hciphertext, hframed, hheader,
      hdata⟩

end Encryption

/-! ### At the limit -/

/-- A session whose tags are zeros, and which counts its messages. -/
def Noise.zeroTag : Noise ℕ where
  writeMessage n payload size :=
    if payload.length + 16 ≤ 65535 ∧ payload.length + 16 ≤ size then
      (.ok (payload ++ List.replicate 16 0), n + 1)
    else (.error "input error", n)

theorem Noise.zeroTag_documented : Noise.zeroTag.Documented where
  isOk_iff n payload size := by
    unfold zeroTag
    dsimp only
    split_ifs with h
    · exact iff_of_true rfl h
    · exact iff_of_false Bool.false_ne_true h
  length_eq n payload size ciphertext h := by
    unfold zeroTag at h
    dsimp only at h
    split_ifs at h
    cases h
    rw [List.length_append, List.length_replicate]

theorem encryptMessage_zeroTag {msg : ProtocolMessage}
    (hcheck : msg.toBytes.length ≤ maxNoiseMessageSize) (hlong : 65535 < msg.toBytes.length + 16) :
    (encryptMessage Noise.zeroTag 0 msg).1 =
      .error (.encryptionFailed "Encryption failed: input error") := by
  unfold encryptMessage Noise.zeroTag
  dsimp only
  rw [if_neg (Nat.not_lt.2 hcheck), if_neg fun h => absurd h.1 (Nat.not_le.2 hlong)]
  rfl

theorem length_toBytes_uniformEnvelope {length : ℕ} (h : length < 2 ^ 32) :
    (ProtocolMessage.transaction (uniformEnvelope length 1)).toBytes.length =
      157 + strHeaderSize length + length := by
  have hfits : (uniformEnvelope length 1).Fits := by
    rw [TransactionEnvelope.Fits, utf8ByteSize_txXdr]
    exact h
  rw [length_toBytes_transaction hfits, size_uniformEnvelope, if_neg (by decide)]
  omega

/-- The largest message that leaves room for the tag. -/
theorem size_check_sufficient_sample :
    let msg := ProtocolMessage.transaction (uniformEnvelope 65359 1)
    ∃ ciphertext framed, (encryptMessage Noise.zeroTag 0 msg).1 = .ok ciphertext ∧
      frameNoiseMessage ciphertext = .ok framed ∧
      ofLeBytes (framed.take 2).reverse = ciphertext.length ∧ framed.drop 2 = ciphertext := by
  intro msg
  have hlength : msg.toBytes.length = 65519 := length_toBytes_uniformEnvelope (by decide)
  exact (size_check_sufficient_iff Noise.zeroTag_documented 0 msg (by rw [hlength]; decide)).2
    (by rw [hlength]; decide)

/-- A message of one byte more passes the check and is not encrypted. -/
theorem size_check_insufficient :
    let msg := ProtocolMessage.transaction (uniformEnvelope 65360 1)
    msg.toBytes.length ≤ maxNoiseMessageSize ∧ (encryptMessage Noise.zeroTag 0 msg).1 =
      .error (.encryptionFailed "Encryption failed: input error") := by
  intro msg
  have hlength : msg.toBytes.length = 65520 := length_toBytes_uniformEnvelope (by decide)
  have hcheck : msg.toBytes.length ≤ maxNoiseMessageSize := by
    rw [hlength]
    decide
  exact ⟨hcheck, encryptMessage_zeroTag hcheck (by omega)⟩

end StellarConduit
