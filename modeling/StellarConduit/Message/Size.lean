import StellarConduit.Message.Encoding

/-!
# How large a message is

The length of a serialized transaction, byte by byte of its fields.  An array of bytes is written as
an array of numbers, so that a byte from 128 on takes two bytes.

* `TransactionEnvelope.size`, `length_toBytes_transaction`: the length of a serialized transaction;
* `within_budget_iff`: which transactions keep to a budget of less than 500 bytes.
-/

namespace StellarConduit

open Verif.MessagePack

/-- How many bytes of an array take two bytes when they are written. -/
def highBytes {n : ℕ} (bytes : Bytes n) : ℕ :=
  bytes.toList.countP fun byte => decide (128 ≤ byte.toNat)

theorem length_encode_byteArray {n : ℕ} (hn : n < 2 ^ 32) (bytes : Bytes n) :
    ((byteArray n hn).encode bytes).length =
      (writeLen .array n).length + n + highBytes bytes := by
  show (writeLen .array n ++ bytes.toList.flatMap Format.u8.encode).length = _
  rw [List.length_append, length_flatMap_u8, bytes.toList_length, ← Nat.add_assoc]
  rfl

namespace TransactionEnvelope

/-- The size of a serialized transaction: 151 bytes, one more for each byte from 128 on of the id,
the key and the signature, the string with its header, and two numbers. -/
def size (e : TransactionEnvelope) : ℕ :=
  151 + (highBytes e.messageId + highBytes e.originPubkey + highBytes e.signature) +
    (strHeaderSize e.txXdr.utf8ByteSize + e.txXdr.utf8ByteSize) +
    (uintSize e.ttlHops.toNat + uintSize e.timestamp.toNat)

end TransactionEnvelope

theorem length_toBytes_transaction {e : TransactionEnvelope} (h : e.Fits) :
    (ProtocolMessage.transaction e).toBytes.length = e.size := by
  have hname : (writeLen .map 1 ++ Format.str.encode "Transaction").length = 13 := by
    decide +kernel
  have hfields : (writeLen .array 6).length = 1 := rfl
  have hkey : (writeLen .array 32).length = 3 := rfl
  have hsignature : (TransactionEnvelope.signatureSerde.encode e.signature).length =
      3 + 64 + highBytes e.signature := length_encode_byteArray _ e.signature
  have httl : (Format.u8.encode e.ttlHops).length = uintSize e.ttlHops.toNat := length_writeUint _
  have htimestamp : (Format.u64.encode e.timestamp).length = uintSize e.timestamp.toNat :=
    length_writeUint _
  have henvelope := congrArg List.length (e.encode_append [])
  rw [List.append_nil, List.append_nil] at henvelope
  simp only [List.length_append, length_encode_byteArray, length_writeLen_str h, length_strBytes,
    hfields, hkey, hsignature, httl, htimestamp] at henvelope
  show (writeLen .map 1 ++ (Format.str.encode "Transaction" ++
    TransactionEnvelope.format.encode e)).length = _
  rw [← List.append_assoc, List.length_append, hname, henvelope, TransactionEnvelope.size]
  omega

/-- **The budget.**  A transaction of at most 300 bytes is serialized to less than 500 bytes exactly
if few enough of the bytes of its id, key and signature take two bytes. -/
theorem within_budget_iff (e : TransactionEnvelope) (hshort : e.txXdr.utf8ByteSize ≤ 300) :
    (ProtocolMessage.transaction e).toBytes.length < 500 ↔
      (highBytes e.messageId + highBytes e.originPubkey + highBytes e.signature) +
        (strHeaderSize e.txXdr.utf8ByteSize + e.txXdr.utf8ByteSize) +
          (uintSize e.ttlHops.toNat + uintSize e.timestamp.toNat) < 349 := by
  rw [length_toBytes_transaction (show _ < _ by omega), TransactionEnvelope.size]
  omega

/-- A transaction of so many bytes, with one byte throughout its id, its key and its signature. -/
def uniformEnvelope (length : ℕ) (byte : UInt8) : TransactionEnvelope where
  messageId := List.Vector.replicate 32 byte
  originPubkey := List.Vector.replicate 32 byte
  txXdr := String.ofList (List.replicate length 'A')
  ttlHops := 10
  timestamp := 1672531200
  signature := List.Vector.replicate 64 byte

theorem utf8ByteSize_txXdr (length : ℕ) (byte : UInt8) :
    (uniformEnvelope length byte).txXdr.utf8ByteSize = length := by
  show (String.ofList (List.replicate length 'A')).utf8ByteSize = length
  induction length with
  | zero => rfl
  | succ length ih =>
    have hchar : (String.ofList ['A']).utf8ByteSize = 1 := rfl
    rw [List.replicate_succ', String.ofList_append, String.utf8ByteSize_append, ih, hchar]

theorem highBytes_replicate (n : ℕ) (byte : UInt8) :
    highBytes (List.Vector.replicate n byte) = if 128 ≤ byte.toNat then n else 0 := by
  show (List.replicate n byte).countP _ = _
  rw [List.countP_replicate]
  simp only [decide_eq_true_eq]

/-- The size of such a transaction. -/
theorem size_uniformEnvelope (length : ℕ) (byte : UInt8) :
    (uniformEnvelope length byte).size =
      157 + (if 128 ≤ byte.toNat then 128 else 0) + (strHeaderSize length + length) := by
  have httl : uintSize (uniformEnvelope length byte).ttlHops.toNat = 1 := rfl
  have htimestamp : uintSize (uniformEnvelope length byte).timestamp.toNat = 5 := rfl
  unfold TransactionEnvelope.size
  rw [utf8ByteSize_txXdr, httl, htimestamp]
  unfold uniformEnvelope
  dsimp only
  rw [highBytes_replicate, highBytes_replicate]
  split_ifs <;> omega

/-- Bytes below 128 keep to the budget. -/
theorem within_budget_sample :
    (ProtocolMessage.transaction (uniformEnvelope 300 1)).toBytes.length < 500 := by
  have hsize := utf8ByteSize_txXdr 300 1
  refine (within_budget_iff (uniformEnvelope 300 1) hsize.le).2 ?_
  rw [hsize]
  decide +kernel

/-- Bytes from 128 on do not. -/
theorem over_budget_sample :
    let bytes := (ProtocolMessage.transaction (uniformEnvelope 300 200)).toBytes
    (uniformEnvelope 300 200).txXdr.utf8ByteSize ≤ 300 ∧ bytes.length = 588 ∧
      ¬ bytes.length < 500 := by
  intro bytes
  have hsize := utf8ByteSize_txXdr 300 200
  have hlength : bytes.length = 588 := by
    show (ProtocolMessage.transaction (uniformEnvelope 300 200)).toBytes.length = 588
    rw [length_toBytes_transaction (show _ < _ by omega), size_uniformEnvelope]
    rfl
  exact ⟨hsize.le, hlength, by omega⟩

end StellarConduit
