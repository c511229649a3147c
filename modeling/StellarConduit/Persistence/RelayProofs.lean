import StellarConduit.Lib.LastWrite
import StellarConduit.Message.RelayProof
import StellarConduit.Persistence.Db

/-!
# The table of relay proofs

`save_relay_proof` and `get_relay_proof` of `persistence/db.rs`.  A proof is stored under the id of
its transaction, its arrays as blobs and its sequence number as a signed integer; what is read is
checked again.

* `relayProof_relayProofRow`: a row that was written is read back;
* `RelayProofTable.Sound`: every row of the table was written from a proof;
* `getRelayProof_exec`: after any calls, the proof that was saved last is read.
-/

namespace StellarConduit

open Verif Verif.Machine

/-- A row of the table `relay_proofs`, without its key. -/
structure RelayProofRow where
  signature : List UInt8
  chainHash : List UInt8
  sequence : Int64
  deriving DecidableEq

def vecToArray (n : ℕ) (bytes : List UInt8) (label : String) : Except DbError (Bytes n) :=
  if h : bytes.length = n then .ok ⟨bytes, h⟩
  else .error (.invalidRelayProof s!"{label} must be {n} bytes, got {bytes.length}")

/-- `u64::try_from` -/
def sequenceOfInt64 (sequence : Int64) : Except DbError UInt64 :=
  if 0 ≤ sequence.toInt then .ok sequence.toUInt64
  else .error (.invalidRelayProof "sequence cannot be negative")

def relayProofRow (proof : RelayChainProof) : RelayProofRow :=
  ⟨proof.signature.toList, proof.chainHash.toList, proof.sequence.toInt64⟩

/-- The closure of `get_relay_proof` that puts a proof together. -/
def relayProof (row : RelayProofRow) : Except DbError RelayChainProof := do
  let signature ← vecToArray 64 row.signature "signature"
  let chainHash ← vecToArray 32 row.chainHash "chain_hash"
  let sequence ← sequenceOfInt64 row.sequence
  return ⟨signature, chainHash, sequence⟩

/-- The table `relay_proofs`, by its primary key. -/
structure RelayProofTable where
  rows : HashMap (Bytes 32) RelayProofRow

namespace RelayProofTable

/-- `save_relay_proof`: insert the row of the transaction, or overwrite it. -/
def saveRelayProof (table : RelayProofTable) (txId : Bytes 32) (proof : RelayChainProof)
    (fault : Option DbError) : Except DbError RelayProofTable :=
  -- `i64::try_from`
  if proof.sequence.toNat < 2 ^ 63 then
    match fault with
    | some e => .error e
    | none => .ok { table with rows := table.rows.insert txId (relayProofRow proof) }
  else .error (.invalidRelayProof "sequence exceeds SQLite INTEGER range")

def getRelayProof (table : RelayProofTable) (txId : Bytes 32) (fault : Option DbError) :
    Except DbError (Option RelayChainProof) :=
  match fault with
  | some e => .error e
  | none =>
    match table.rows.lookup txId with
    | none => .ok none
    | some row => (relayProof row).map some

end RelayProofTable

inductive RelayProofCall
  | save (txId : Bytes 32) (proof : RelayChainProof) (fault : Option DbError)
  | get (txId : Bytes 32) (fault : Option DbError)

inductive RelayProofAnswer
  | saved (result : Except DbError Unit)
  | got (result : Except DbError (Option RelayChainProof))

/-- The calls, as a machine over the table.  A call that fails leaves the table as it is. -/
def RelayProofTable.step (table : RelayProofTable) :
    RelayProofCall → RelayProofAnswer × RelayProofTable
  | .save txId proof fault =>
    match table.saveRelayProof txId proof fault with
    | .ok table => (.saved (.ok ()), table)
    | .error e => (.saved (.error e), table)
  | .get txId fault => (.got (table.getRelayProof txId fault), table)

/-- The proof that a successful save stored for a transaction. -/
def savedFor (txId : Bytes 32)
    (e : Event RelayProofTable RelayProofCall RelayProofAnswer) : Option RelayChainProof :=
  match e.input, e.output with
  | .save saved proof _, .saved (.ok ()) => if saved = txId then some proof else none
  | _, _ => none

/-! ### One row -/

theorem vecToArray_toList {n : ℕ} (bytes : Bytes n) (label : String) :
    vecToArray n bytes.toList label = .ok bytes := by
  unfold vecToArray
  exact dif_pos bytes.2

theorem sequenceOfInt64_toInt64 {sequence : UInt64} (h : sequence.toNat < 2 ^ 63) :
    sequenceOfInt64 sequence.toInt64 = .ok sequence := by
  unfold sequenceOfInt64
  rw [toInt_toInt64 h, if_pos (Int.natCast_nonneg _)]
  rfl

/-- A row that was written is read back. -/
theorem relayProof_relayProofRow {proof : RelayChainProof} (h : proof.sequence.toNat < 2 ^ 63) :
    relayProof (relayProofRow proof) = .ok proof := by
  unfold relayProof relayProofRow
  rw [vecToArray_toList, vecToArray_toList, sequenceOfInt64_toInt64 h]
  rfl

namespace RelayProofTable

/-! ### Runs -/

/-- Every row was written from a proof whose sequence number fits. -/
def Sound (table : RelayProofTable) : Prop :=
  ∀ txId, ∀ row ∈ table.rows.lookup txId, ∃ proof, relayProof row = .ok proof

theorem saveRelayProof_eq_ok {table table' : RelayProofTable} {txId : Bytes 32}
    {proof : RelayChainProof} {fault : Option DbError}
    (h : table.saveRelayProof txId proof fault = .ok table') :
    proof.sequence.toNat < 2 ^ 63 ∧
      table' = { table with rows := table.rows.insert txId (relayProofRow proof) } := by
  unfold saveRelayProof at h
  split_ifs at h with hfits
  cases fault with
  | some e => cases h
  | none =>
    cases h
    exact ⟨hfits, rfl⟩

theorem step_save (table : RelayProofTable) (txId : Bytes 32) (proof : RelayChainProof)
    (fault : Option DbError) :
    table.step (.save txId proof fault) =
      match table.saveRelayProof txId proof fault with
      | .ok table => (.saved (.ok ()), table)
      | .error e => (.saved (.error e), table) := rfl

theorem Sound.step {table : RelayProofTable} (h : table.Sound) (call : RelayProofCall) :
    (table.step call).2.Sound := by
  cases call with
  | get txId fault => exact h
  | save txId proof fault =>
    rw [step_save]
    cases hsave : table.saveRelayProof txId proof fault with
    | error e => exact h
    | ok table' =>
      obtain ⟨hfits, rfl⟩ := saveRelayProof_eq_ok hsave
      intro other row hrow
      by_cases hother : other = txId
      · subst hother
        rw [AList.lookup_insert] at hrow
        cases hrow
        exact ⟨proof, relayProof_relayProofRow hfits⟩
      · rw [AList.lookup_insert_ne hother] at hrow
        exact h other row hrow

/-- What is read of a transaction. -/
def readable (txId : Bytes 32) (table : RelayProofTable) : Option RelayChainProof :=
  (table.rows.lookup txId).bind fun row => (relayProof row).toOption

theorem Sound.getRelayProof {table : RelayProofTable} (h : table.Sound) (txId : Bytes 32) :
    table.getRelayProof txId none = .ok (table.readable txId) := by
  unfold RelayProofTable.getRelayProof readable
  cases hrow : table.rows.lookup txId with
  | none => rfl
  | some row =>
    obtain ⟨proof, hproof⟩ := h txId row hrow
    dsimp only [Option.bind_some]
    rw [hproof]
    rfl

/-- What is read of a transaction is what is saved for it. -/
theorem register_readable (txId : Bytes 32) :
    Register RelayProofTable.step (readable txId) (savedFor txId) where
  step table call := by
    cases call with
    | get other fault => rfl
    | save other proof fault =>
      rw [step_save]
      cases hsave : table.saveRelayProof other proof fault with
      | error e => rfl
      | ok table' =>
        obtain ⟨hfits, rfl⟩ := saveRelayProof_eq_ok hsave
        unfold readable savedFor
        dsimp only
        by_cases hother : other = txId
        · subst hother
          rw [AList.lookup_insert, if_pos rfl, Option.bind_some, relayProof_relayProofRow hfits]
          rfl
        · rw [AList.lookup_insert_ne (Ne.symm hother), if_neg hother, Option.none_or]

theorem sound_exec (calls : List RelayProofCall) : (exec step ⟨∅⟩ calls).Sound :=
  exec_invariant Sound (fun _ call _ h => h.step call) fun _ _ hrow => by cases hrow

/-- After any calls, the proof that was saved last for a transaction is read, if there is one. -/
theorem getRelayProof_exec (calls : List RelayProofCall) (txId : Bytes 32) :
    (exec step ⟨∅⟩ calls).getRelayProof txId none =
      .ok (lastOf (savedFor txId) (trace step ⟨∅⟩ calls)) := by
  rw [(sound_exec calls).getRelayProof, (register_readable txId).exec]
  exact congrArg Except.ok Option.or_none

/-- **A map of relay proofs.**  After any calls, what is read of a transaction is the proof that was
saved for it last, unchanged, or nothing if none was saved; a read fails only with its connection;
and a proof with a sequence number beyond the range of the column is an error, and changes
nothing. -/
theorem behaves_as_map (calls : List RelayProofCall) :
    let table := exec step ⟨∅⟩ calls
    (∀ txId, table.getRelayProof txId none =
        .ok (lastOf (savedFor txId) (trace step ⟨∅⟩ calls))) ∧
      (∀ txId fault e, table.getRelayProof txId fault = .error e → fault = some e) ∧
      ∀ txId proof fault, Int64.maxValue.toInt < proof.sequence.toNat →
        table.step (.save txId proof fault) =
          (.saved (.error (.invalidRelayProof "sequence exceeds SQLite INTEGER range")),
            table) := by
  intro table
  refine ⟨getRelayProof_exec calls, fun txId fault e herror => ?_, fun txId proof fault h => ?_⟩
  · cases fault with
    | some e' =>
      cases herror
      rfl
    | none =>
      rw [getRelayProof_exec] at herror
      cases herror
  · have hbeyond : ¬ proof.sequence.toNat < 2 ^ 63 := by
      have hmax : Int64.maxValue.toInt = 2 ^ 63 - 1 := by decide
      omega
    rw [step_save]
    unfold saveRelayProof
    rw [if_neg hbeyond]

/-- A proof with some sequence number. -/
def sampleProof (sequence : UInt64) : RelayChainProof :=
  ⟨List.Vector.replicate 64 1, List.Vector.replicate 32 2, sequence⟩

/-- Two proofs for one transaction, and then one whose sequence number is too large. -/
theorem behaves_as_map_sample :
    let txId : Bytes 32 := List.Vector.replicate 32 7
    let table := exec step ⟨∅⟩ [.save txId (sampleProof 1) none, .save txId (sampleProof 2) none]
    table.getRelayProof txId none = .ok (some (sampleProof 2)) ∧
      (table.step (.save txId (sampleProof 9223372036854775808) none)).2 = table := by
  intro txId table
  obtain ⟨hget, -, hbeyond⟩ := behaves_as_map
    [.save txId (sampleProof 1) none, .save txId (sampleProof 2) none]
  have hsame := congrArg Prod.snd (hbeyond txId (sampleProof 9223372036854775808) none
    (by decide +kernel))
  refine ⟨(hget txId).trans ?_, hsame⟩
  decide +kernel

end RelayProofTable

end StellarConduit
