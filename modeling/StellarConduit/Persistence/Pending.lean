import StellarConduit.Lib.LastWrite
import StellarConduit.Message.Size
import StellarConduit.Persistence.Peers

/-!
# The table of pending messages

`save_envelope`, `load_pending_envelopes`, `delete_envelope` and `delete_messages_older_than` of
`persistence/db.rs`.  An envelope is stored as the bytes of its message, and decoded when it is
loaded; a copy of a message that is there already is not stored.

* `PendingTable.step`: the calls, as a machine over the table;
* `PendingStore`: the envelopes themselves, each under its id, and the same calls on them;
* `answers_eq`: in all runs, the table answers as the store does;
* `loadPendingEnvelopes_exec`: which envelopes are loaded after a run.
-/

namespace StellarConduit

open Verif Verif.Machine Verif.MessagePack

/-- A row of the table `pending_messages`, without its key. -/
structure PendingRow where
  envelopeBytes : List UInt8
  ttlHops : UInt8
  timestampSec : Int64
  deriving DecidableEq

/-- The length of a blob has to be less than the largest C `int`. -/
def maxBlobLength : ℕ := 2147483647

def pendingRow (envelope : TransactionEnvelope) : PendingRow where
  envelopeBytes := (ProtocolMessage.transaction envelope).toBytes
  ttlHops := envelope.ttlHops
  timestampSec := envelope.timestamp.toInt64

/-- The closure of `load_pending_envelopes` that decodes a row. -/
def envelopeOfBytes (text : DecodeError → String) (bytes : List UInt8) :
    Except DbError TransactionEnvelope :=
  match ProtocolMessage.fromBytes bytes with
  | .error e => .error (.deserializationError (text e))
  | .ok (.transaction envelope) => .ok envelope
  | .ok _ => .error .invalidMessageId

/-- The table `pending_messages`, by its primary key. -/
structure PendingTable where
  rows : HashMap (Bytes 32) PendingRow

namespace PendingTable

/-- `save_envelope`: insert the row of the envelope, or do nothing if its id is there.  Its time
stamp is not cast, and has to be in the range of the column. -/
def saveEnvelope (table : PendingTable) (envelope : TransactionEnvelope)
    (fault : Option DbError) : Except DbError PendingTable :=
  let envBytes := (ProtocolMessage.transaction envelope).toBytes
  match fault with
  | some e => .error e
  | none =>
    if envBytes.length < maxBlobLength then
      if envelope.timestamp.toNat < 2 ^ 63 then
        let row := ⟨envBytes, envelope.ttlHops, envelope.timestamp.toInt64⟩
        .ok { table with rows := (HashMap.orInsert envelope.messageId row table.rows).2 }
      else .error (.connectionError "out of range integral type conversion attempted")
    else .error (.connectionError "string or blob too big")

def loadPendingEnvelopes (table : PendingTable) (text : DecodeError → String)
    (fault : Option DbError) : Except DbError (List TransactionEnvelope) :=
  match fault with
  | some e => .error e
  | none => table.rows.entries.mapM fun entry => envelopeOfBytes text entry.2.envelopeBytes

/-- `delete_envelope`: the answer is the number of rows that were deleted. -/
def deleteEnvelope (table : PendingTable) (messageId : Bytes 32) (fault : Option DbError) :
    Except DbError (ℕ × PendingTable) :=
  match fault with
  | some e => .error e
  | none =>
    .ok (if (table.rows.lookup messageId).isSome then 1 else 0,
      { table with rows := table.rows.erase messageId })

/-- `delete_messages_older_than`: times are compared as signed numbers. -/
def deleteMessagesOlderThan (table : PendingTable) (cutoffTs : UInt64)
    (fault : Option DbError) : Except DbError (ℕ × PendingTable) :=
  match fault with
  | some e => .error e
  | none =>
    let older (row : PendingRow) : Bool := decide (row.timestampSec < cutoffTs.toInt64)
    .ok (table.rows.entries.countP fun entry => older entry.2,
      { table with rows := HashMap.retain (fun _ row => !older row) table.rows })

end PendingTable

inductive PendingCall
  | saveEnvelope (envelope : TransactionEnvelope) (fault : Option DbError)
  | loadPendingEnvelopes (fault : Option DbError)
  | deleteEnvelope (messageId : Bytes 32) (fault : Option DbError)
  | deleteMessagesOlderThan (cutoffTs : UInt64) (fault : Option DbError)

inductive PendingAnswer
  | saved (result : Except DbError Unit)
  | loaded (result : Except DbError (List TransactionEnvelope))
  | deleted (result : Except DbError ℕ)

/-- The calls, as a machine over the table.  A call that fails leaves the table as it is. -/
def PendingTable.step (text : DecodeError → String) (table : PendingTable) :
    PendingCall → PendingAnswer × PendingTable
  | .saveEnvelope envelope fault =>
    match table.saveEnvelope envelope fault with
    | .ok table => (.saved (.ok ()), table)
    | .error e => (.saved (.error e), table)
  | .loadPendingEnvelopes fault => (.loaded (table.loadPendingEnvelopes text fault), table)
  | .deleteEnvelope messageId fault =>
    match table.deleteEnvelope messageId fault with
    | .ok (count, table) => (.deleted (.ok count), table)
    | .error e => (.deleted (.error e), table)
  | .deleteMessagesOlderThan cutoffTs fault =>
    match table.deleteMessagesOlderThan cutoffTs fault with
    | .ok (count, table) => (.deleted (.ok count), table)
    | .error e => (.deleted (.error e), table)

/-! ### Envelopes that can be stored -/

/-- The columns can hold the envelope. -/
structure Storable (envelope : TransactionEnvelope) : Prop where
  length_lt : (ProtocolMessage.transaction envelope).toBytes.length < maxBlobLength
  timestamp_lt : envelope.timestamp.toNat < 2 ^ 63

instance (envelope : TransactionEnvelope) : Decidable (Storable envelope) :=
  decidable_of_iff (_ ∧ _) ⟨fun h => ⟨h.1, h.2⟩, fun h => ⟨h.1, h.2⟩⟩

/-- The string of a transaction is not longer than its message. -/
theorem utf8ByteSize_le_length_toBytes (envelope : TransactionEnvelope) :
    envelope.txXdr.utf8ByteSize ≤ (ProtocolMessage.transaction envelope).toBytes.length := by
  have henvelope := congrArg List.length (envelope.encode_append [])
  rw [List.append_nil, List.append_nil] at henvelope
  simp only [List.length_append, length_strBytes] at henvelope
  show _ ≤ (writeLen .map 1 ++ (Format.str.encode "Transaction" ++
    TransactionEnvelope.format.encode envelope)).length
  rw [List.length_append, List.length_append, henvelope]
  omega

theorem Storable.fits {envelope : TransactionEnvelope} (h : Storable envelope) :
    envelope.Fits := by
  have hlength := h.length_lt
  have hstring := utf8ByteSize_le_length_toBytes envelope
  show envelope.txXdr.utf8ByteSize < 2 ^ 32
  unfold maxBlobLength at hlength
  omega

/-- A row that was written is decoded again. -/
theorem envelopeOfBytes_pendingRow (text : DecodeError → String) {envelope : TransactionEnvelope}
    (h : Storable envelope) :
    envelopeOfBytes text (pendingRow envelope).envelopeBytes = .ok envelope := by
  have hdecode : ProtocolMessage.fromBytes (ProtocolMessage.transaction envelope).toBytes =
      .ok (.transaction envelope) := (ProtocolMessage.roundTrip _).1.2 h.fits
  unfold envelopeOfBytes pendingRow
  dsimp only
  rw [hdecode]

/-! ### The store -/

/-- What the table is for: envelopes under their ids. -/
structure PendingStore where
  envelopes : HashMap (Bytes 32) TransactionEnvelope
  storable : ∀ id envelope, envelopes.lookup id = some envelope →
    envelope.messageId = id ∧ Storable envelope

namespace PendingStore

def empty : PendingStore := ⟨∅, fun _ _ h => by cases h⟩

/-- The first copy of a message is kept. -/
def add (store : PendingStore) (envelope : TransactionEnvelope) (h : Storable envelope) :
    PendingStore where
  envelopes := (HashMap.orInsert envelope.messageId envelope store.envelopes).2
  storable := by
    intro id held hheld
    by_cases hid : id = envelope.messageId
    · subst hid
      unfold HashMap.orInsert at hheld
      cases hbefore : store.envelopes.lookup envelope.messageId with
      | some first =>
        rw [hbefore] at hheld
        exact store.storable _ _ hheld
      | none =>
        rw [hbefore, AList.lookup_insert] at hheld
        cases hheld
        exact ⟨rfl, h⟩
    · rw [HashMap.lookup_orInsert_ne hid] at hheld
      exact store.storable _ _ hheld

def remove (store : PendingStore) (messageId : Bytes 32) : PendingStore where
  envelopes := store.envelopes.erase messageId
  storable := by
    intro id held hheld
    by_cases hid : id = messageId
    · subst hid
      rw [AList.lookup_erase] at hheld
      cases hheld
    · rw [AList.lookup_erase_ne hid] at hheld
      exact store.storable _ _ hheld

/-- The time stamp is before the cutoff, both as signed numbers. -/
def Older (cutoffTs : UInt64) (envelope : TransactionEnvelope) : Prop :=
  envelope.timestamp.toInt64 < cutoffTs.toInt64

instance (cutoffTs : UInt64) (envelope : TransactionEnvelope) :
    Decidable (Older cutoffTs envelope) := inferInstanceAs (Decidable (_ < _))

def removeOlder (store : PendingStore) (cutoffTs : UInt64) : PendingStore where
  envelopes := HashMap.retain (fun _ envelope => !decide (Older cutoffTs envelope)) store.envelopes
  storable := by
    intro id held hheld
    rw [HashMap.lookup_retain, Option.filter_eq_some_iff] at hheld
    exact store.storable _ _ hheld.1

/-- The calls on the store. -/
def step (store : PendingStore) : PendingCall → PendingAnswer × PendingStore
  | .saveEnvelope envelope none =>
    if h : Storable envelope then (.saved (.ok ()), store.add envelope h)
    else if (ProtocolMessage.transaction envelope).toBytes.length < maxBlobLength then
      (.saved (.error (.connectionError "out of range integral type conversion attempted")), store)
    else (.saved (.error (.connectionError "string or blob too big")), store)
  | .loadPendingEnvelopes none => (.loaded (.ok (store.envelopes.entries.map Sigma.snd)), store)
  | .deleteEnvelope messageId none =>
    (.deleted (.ok (if messageId ∈ store.envelopes then 1 else 0)), store.remove messageId)
  | .deleteMessagesOlderThan cutoffTs none =>
    (.deleted (.ok (store.envelopes.entries.countP fun e => decide (Older cutoffTs e.2))),
      store.removeOlder cutoffTs)
  | .saveEnvelope _ (some e) => (.saved (.error e), store)
  | .loadPendingEnvelopes (some e) => (.loaded (.error e), store)
  | .deleteEnvelope _ (some e) => (.deleted (.error e), store)
  | .deleteMessagesOlderThan _ (some e) => (.deleted (.error e), store)

end PendingStore

/-! ### The table and the store -/

section Refinement

variable {text : DecodeError → String} {table : PendingTable} {store : PendingStore}

/-- The rows are those of the envelopes. -/
def Represents (table : PendingTable) (store : PendingStore) : Prop :=
  table.rows = HashMap.mapValues pendingRow store.envelopes

theorem Represents.saveEnvelope (h : Represents table store) (envelope : TransactionEnvelope)
    (fault : Option DbError) :
    (table.step text (.saveEnvelope envelope fault)).1 =
        (store.step (.saveEnvelope envelope fault)).1 ∧
      Represents (table.step text (.saveEnvelope envelope fault)).2
        (store.step (.saveEnvelope envelope fault)).2 := by
  unfold PendingTable.step PendingTable.saveEnvelope
  cases fault with
  | some e => exact ⟨rfl, h⟩
  | none =>
    dsimp only [PendingStore.step]
    by_cases hlength : (ProtocolMessage.transaction envelope).toBytes.length < maxBlobLength
    · by_cases htimestamp : envelope.timestamp.toNat < 2 ^ 63
      · rw [if_pos hlength, if_pos htimestamp, dif_pos ⟨hlength, htimestamp⟩]
        refine ⟨rfl, ?_⟩
        show (HashMap.orInsert envelope.messageId (pendingRow envelope) table.rows).2 = _
        rw [h, ← HashMap.mapValues_orInsert]
        rfl
      · rw [if_pos hlength, if_neg htimestamp, dif_neg fun hs => htimestamp hs.timestamp_lt,
          if_pos hlength]
        exact ⟨rfl, h⟩
    · rw [if_neg hlength, dif_neg fun hs => hlength hs.length_lt, if_neg hlength]
      exact ⟨rfl, h⟩

theorem Represents.loadPendingEnvelopes (h : Represents table store) :
    table.loadPendingEnvelopes text none = .ok (store.envelopes.entries.map Sigma.snd) := by
  have hrow : ∀ entry ∈ store.envelopes.entries,
      envelopeOfBytes text (pendingRow entry.2).envelopeBytes = .ok entry.2 := by
    intro entry hentry
    have hstorable := store.storable entry.1 entry.2 (AList.mem_lookup_iff.2 hentry)
    exact envelopeOfBytes_pendingRow text hstorable.2
  have hload := PeerTable.mapM_eq_ok_map hrow
  unfold PendingTable.loadPendingEnvelopes
  rw [h]
  unfold HashMap.mapValues
  dsimp only
  rw [List.mapM_map, Function.comp_def]
  exact hload

/-- A call has the same answer on both, and leaves the rows those of the envelopes. -/
theorem Represents.step (h : Represents table store) (text : DecodeError → String)
    (call : PendingCall) :
    (table.step text call).1 = (store.step call).1 ∧
      Represents (table.step text call).2 (store.step call).2 := by
  cases call with
  | saveEnvelope envelope fault => exact h.saveEnvelope envelope fault
  | loadPendingEnvelopes fault =>
    cases fault with
    | some e => exact ⟨rfl, h⟩
    | none => exact ⟨congrArg PendingAnswer.loaded h.loadPendingEnvelopes, h⟩
  | deleteEnvelope messageId fault =>
    cases fault with
    | some e => exact ⟨rfl, h⟩
    | none =>
      have hsome : (table.rows.lookup messageId).isSome = true ↔
          messageId ∈ store.envelopes := by
        rw [h, HashMap.lookup_mapValues, Option.isSome_map, AList.lookup_isSome]
      refine ⟨?_, ?_⟩
      · show PendingAnswer.deleted (.ok (if _ then 1 else 0)) = _
        rw [if_congr hsome rfl rfl]
        rfl
      · show table.rows.erase messageId = _
        rw [h]
        exact (HashMap.mapValues_erase _ _ _).symm
  | deleteMessagesOlderThan cutoffTs fault =>
    cases fault with
    | some e => exact ⟨rfl, h⟩
    | none =>
      refine ⟨?_, ?_⟩
      · show PendingAnswer.deleted (.ok (table.rows.entries.countP _)) = _
        rw [h]
        show PendingAnswer.deleted (.ok ((store.envelopes.entries.map _).countP _)) = _
        rw [List.countP_map]
        rfl
      · show HashMap.retain _ table.rows = _
        rw [h]
        exact (HashMap.mapValues_retain (fun _ _ => rfl) _).symm

theorem represents_exec (text : DecodeError → String) (calls : List PendingCall) :
    Represents (exec (PendingTable.step text) ⟨∅⟩ calls) (exec PendingStore.step .empty calls) := by
  have hempty : Represents ⟨∅⟩ .empty := rfl
  exact (refines (fun _ _ call h => h.step text call) hempty calls).2

/-- **The table is a store of envelopes.**  In every run of the calls, all answers are those of a
finite map from ids to envelopes, which keeps the first copy of a message: all that is stored is
decoded again, and a load fails only with its connection. -/
theorem answers_eq (text : DecodeError → String) (calls : List PendingCall) :
    outputs (PendingTable.step text) ⟨∅⟩ calls = outputs PendingStore.step .empty calls := by
  have hempty : Represents ⟨∅⟩ .empty := rfl
  exact (refines (fun _ _ call h => h.step text call) hempty calls).1

end Refinement

/-! ### Runs -/

namespace PendingStore

variable (id : Bytes 32)

/-- The envelope that a call stores under an id: it can be stored, and there is none yet. -/
def stored (e : Event PendingStore PendingCall PendingAnswer) : Option TransactionEnvelope :=
  match e.input with
  | .saveEnvelope envelope none =>
    if Storable envelope ∧ envelope.messageId = id ∧ e.before.envelopes.lookup id = none then
      some envelope
    else none
  | _ => none

theorem stored_eq_some_iff {e : Event PendingStore PendingCall PendingAnswer}
    {envelope : TransactionEnvelope} :
    stored id e = some envelope ↔
      e.input = .saveEnvelope envelope none ∧ Storable envelope ∧ envelope.messageId = id ∧
        e.before.envelopes.lookup id = none := by
  unfold stored
  split
  · rename_i added hinput
    rw [hinput, Option.ite_none_right_eq_some]
    constructor
    · rintro ⟨hcond, hadded⟩
      obtain rfl := Option.some.inj hadded
      exact ⟨rfl, hcond⟩
    · rintro ⟨hcall, hcond⟩
      cases hcall
      exact ⟨hcond, rfl⟩
  · rename_i hother
    constructor
    · intro h
      cases h
    · rintro ⟨hcall, -⟩
      exact absurd hcall (hother envelope)

/-- A call that removes an envelope. -/
def Removes (envelope : TransactionEnvelope) : PendingCall → Prop
  | .deleteEnvelope messageId none => messageId = envelope.messageId
  | .deleteMessagesOlderThan cutoffTs none => Older cutoffTs envelope
  | _ => False

theorem lookup_add (store : PendingStore) (envelope : TransactionEnvelope)
    (h : Storable envelope) :
    (store.add envelope h).envelopes.lookup id =
      (store.envelopes.lookup id).or (if envelope.messageId = id then some envelope else none) := by
  show (HashMap.orInsert envelope.messageId envelope store.envelopes).2.lookup id = _
  by_cases hid : envelope.messageId = id
  · subst hid
    rw [if_pos rfl]
    unfold HashMap.orInsert
    cases hbefore : store.envelopes.lookup envelope.messageId with
    | some first => rw [hbefore, Option.some_or]
    | none => rw [AList.lookup_insert, Option.none_or]
  · rw [HashMap.lookup_orInsert_ne (Ne.symm hid), if_neg hid, Option.or_none]

/-- What is held under an id: the first copy, until it is removed. -/
theorem envelope_cell :
    Cell step (fun store => store.envelopes.lookup id) (stored id)
      fun e envelope => Removes envelope e.input where
  step store call envelope := by
    rcases call with ⟨added, _ | e⟩ | ⟨_ | e⟩ | ⟨messageId, _ | e⟩ | ⟨cutoffTs, _ | e⟩
    case saveEnvelope.none =>
      dsimp only [step, stored, Removes]
      by_cases hstorable : Storable added
      · rw [dif_pos hstorable, lookup_add]
        by_cases hid : added.messageId = id
        · cases hbefore : store.envelopes.lookup id <;> simp [hid, hstorable]
        · simp [hid]
      · rw [dif_neg hstorable]
        simp only [hstorable, false_and, if_false]
        split_ifs <;> simp
    case deleteEnvelope.none =>
      show (store.envelopes.erase messageId).lookup id = some envelope ↔
        none = some envelope ∨ none = none ∧ store.envelopes.lookup id = some envelope ∧
          ¬ messageId = envelope.messageId
      by_cases hid : id = messageId
      · subst hid
        rw [AList.lookup_erase]
        constructor
        · intro h
          cases h
        · rintro (h | ⟨-, hheld, hne⟩)
          · cases h
          · exact absurd (store.storable _ _ hheld).1.symm hne
      · rw [AList.lookup_erase_ne hid]
        constructor
        · intro hheld
          refine Or.inr ⟨rfl, hheld, fun hmessage => hid ?_⟩
          rw [hmessage, (store.storable _ _ hheld).1]
        · rintro (h | ⟨-, hheld, -⟩)
          · cases h
          · exact hheld
    case deleteMessagesOlderThan.none =>
      show (HashMap.retain _ store.envelopes).lookup id = some envelope ↔ _
      rw [HashMap.lookup_retain, Option.filter_eq_some_iff]
      simp [stored, Removes]
    all_goals simp [step, stored, Removes]

variable {id}

/-- The envelope was saved when it could be stored and no copy of it was there, and none of the
calls since has removed it. -/
def Kept (calls : List PendingCall) (envelope : TransactionEnvelope) : Prop :=
  ∃ pre post, calls = pre ++ .saveEnvelope envelope none :: post ∧ Storable envelope ∧
    envelope.messageId ∉ (exec step .empty pre).envelopes ∧
      ∀ call ∈ post, ¬ Removes envelope call

/-- After a run, an envelope is held if it has been kept. -/
theorem held_exec_iff (calls : List PendingCall) (envelope : TransactionEnvelope) :
    (exec step .empty calls).envelopes.lookup envelope.messageId = some envelope ↔
      Kept calls envelope := by
  have hempty : ∀ e, (stored envelope.messageId e).isSome →
      e.before.envelopes.lookup envelope.messageId = none := by
    intro e he
    obtain ⟨added, hadded⟩ := Option.isSome_iff_exists.1 he
    exact ((stored_eq_some_iff _).1 hadded).2.2.2
  rw [(envelope_cell envelope.messageId).exec_iff_of_empty hempty rfl]
  constructor
  · rintro ⟨pre, call, post, rfl, hstored, hpost⟩
    obtain ⟨rfl, hstorable, -, hnone⟩ := (stored_eq_some_iff _).1 hstored
    refine ⟨pre, post, rfl, hstorable, AList.lookup_eq_none.1 hnone, fun call hcall => ?_⟩
    rw [← map_input_trace step (exec step .empty (pre ++ [.saveEnvelope envelope none])) post]
      at hcall
    obtain ⟨e, he, rfl⟩ := List.mem_map.1 hcall
    exact hpost e he
  · rintro ⟨pre, post, rfl, hstorable, hnone, hpost⟩
    refine ⟨pre, _, post, rfl, (stored_eq_some_iff _).2
      ⟨rfl, hstorable, rfl, AList.lookup_eq_none.2 hnone⟩, fun e he => hpost e.input ?_⟩
    rw [← map_input_trace step (exec step .empty (pre ++ [.saveEnvelope envelope none])) post]
    exact List.mem_map_of_mem he

end PendingStore

/-- After any calls all messages can be loaded: those that have been kept. -/
theorem loadPendingEnvelopes_exec (text : DecodeError → String) (calls : List PendingCall) :
    ∃ list, (exec (PendingTable.step text) ⟨∅⟩ calls).loadPendingEnvelopes text none = .ok list ∧
      (list.map TransactionEnvelope.messageId).Nodup ∧
        ∀ envelope, envelope ∈ list ↔ PendingStore.Kept calls envelope := by
  have hrep := represents_exec text calls
  set store := exec PendingStore.step .empty calls
  refine ⟨_, hrep.loadPendingEnvelopes, ?_, fun envelope => ?_⟩
  · have hkeys : (store.envelopes.entries.map Sigma.snd).map TransactionEnvelope.messageId =
        store.envelopes.entries.map Sigma.fst := by
      rw [List.map_map]
      refine List.map_congr_left fun entry hentry => ?_
      exact (store.storable entry.1 entry.2 (AList.mem_lookup_iff.2 hentry)).1
    rw [hkeys]
    exact store.envelopes.nodupKeys
  · rw [← PendingStore.held_exec_iff, List.mem_map]
    constructor
    · rintro ⟨entry, hentry, rfl⟩
      have hlookup := AList.mem_lookup_iff.2 hentry
      rw [(store.storable _ _ hlookup).1]
      exact hlookup
    · intro hheld
      exact ⟨⟨envelope.messageId, envelope⟩, AList.mem_lookup_iff.1 hheld, rfl⟩

end StellarConduit
