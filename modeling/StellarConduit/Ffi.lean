import StellarConduit.Discovery.TxtRecords
import StellarConduit.Gossip.Intake
import StellarConduit.Gossip.StrikeRuns
import StellarConduit.Message.Agreement
import StellarConduit.Message.Encoding

/-!
# The interface for apps

`ffi.rs`: an app on a phone hands over a transaction and the seed of its key, and gets the bytes of
a signed message back, which it gives to the mesh.  A C string is the bytes before its terminating
zero, a null pointer is `none`, and memory is not modelled.  `SigningKey::from_bytes` and
`hex::decode` are parameters.

* `scCreateEnvelope_eq_some_iff`: which arguments make a message, and which message;
* `verifySignature_submitted_iff`: when the signature of the message verifies;
* `submissions_struck`: what nodes make of such messages, one after another.
-/

namespace StellarConduit

open Verif Verif.Machine Verif.MessagePack

section Create

variable (C : Crypto) (fromSeed : Bytes 32 → C.SigningKey)
  (hexDecode : List UInt8 → Except String (List UInt8))

/-- `sc_create_envelope`; `outLen` says whether the pointer for the length is not null. -/
def scCreateEnvelope (txXdr secretSeed : Option (List UInt8)) (outLen : Bool) (now : UInt64) :
    Option (List UInt8) :=
  match txXdr, secretSeed, outLen with
  | some txXdr, some secretSeed, true =>
    match ofStrBytes txXdr with
    | none => none
    | some txXdr =>
      match ofStrBytes secretSeed with
      | none => none
      | some secretSeedHex =>
        match hexDecode (strBytes secretSeedHex) with
        | .error _ => none
        | .ok b =>
          if h : b.length = 32 then
            let seedBytes := ⟨b, h⟩
            let signingKey := fromSeed seedBytes
            let originPubkey := C.pubkey signingKey
            let envelope := (EnvelopeBuilder.new originPubkey txXdr).build C signingKey now
            some (ProtocolMessage.transaction envelope).toBytes
          else none
  | _, _, _ => none

/-- The envelope that is made of a transaction and a seed. -/
def submission (txXdr : String) (seed : Bytes 32) (now : UInt64) : TransactionEnvelope :=
  (EnvelopeBuilder.new (C.pubkey (fromSeed seed)) txXdr).build C (fromSeed seed) now

variable {C fromSeed hexDecode}

/-- **Which arguments make a message.**  A message is made of a transaction and a seed in UTF-8, if
32 bytes are decoded from the seed. -/
theorem scCreateEnvelope_eq_some_iff {txXdr secretSeed : Option (List UInt8)} {outLen : Bool}
    {now : UInt64} {bytes : List UInt8} :
    scCreateEnvelope C fromSeed hexDecode txXdr secretSeed outLen now = some bytes ↔
      outLen = true ∧ ∃ (xdr digits : String) (seed : Bytes 32), txXdr = some (strBytes xdr) ∧
        secretSeed = some (strBytes digits) ∧ hexDecode (strBytes digits) = .ok seed.toList ∧
        bytes = (ProtocolMessage.transaction (submission C fromSeed xdr seed now)).toBytes := by
  constructor
  · intro h
    unfold scCreateEnvelope at h
    split at h
    · rename_i xdrBytes seedBytes
      split at h
      · cases h
      · rename_i xdr hxdr
        split at h
        · cases h
        · rename_i seedHex hseedHex
          split at h
          · cases h
          · rename_i b hdecode
            split_ifs at h with hlength
            refine ⟨rfl, xdr, seedHex, ⟨b, hlength⟩, ?_, ?_, hdecode, (Option.some.inj h).symm⟩
            · rw [strBytes_of_ofStrBytes hxdr]
            · rw [strBytes_of_ofStrBytes hseedHex]
    · cases h
  · rintro ⟨rfl, xdr, digits, seed, rfl, rfl, hdecode, rfl⟩
    unfold scCreateEnvelope
    dsimp only
    rw [ofStrBytes_strBytes, ofStrBytes_strBytes]
    dsimp only
    rw [hdecode]
    dsimp only
    rw [dif_pos seed.toList_length]
    rfl

end Create

/-! ### What the mesh makes of it -/

section Submitted

variable {C : Crypto} {fromSeed : Bytes 32 → C.SigningKey}
  {hexDecode : List UInt8 → Except String (List UInt8)}

/-- The envelope is read from a message that was made for an app. -/
def Submitted (C : Crypto) (fromSeed : Bytes 32 → C.SigningKey)
    (hexDecode : List UInt8 → Except String (List UInt8)) (envelope : TransactionEnvelope) : Prop :=
  ∃ txXdr secretSeed now bytes, txXdr.length < 2 ^ 32 ∧
    scCreateEnvelope C fromSeed hexDecode (some txXdr) secretSeed true now = some bytes ∧
    ProtocolMessage.fromBytes bytes = .ok (.transaction envelope)

/-- What is read back is what was made. -/
theorem Submitted.exists_submission {envelope : TransactionEnvelope}
    (h : Submitted C fromSeed hexDecode envelope) :
    ∃ xdr seed now, envelope = submission C fromSeed xdr seed now := by
  obtain ⟨txXdr, secretSeed, now, bytes, hlength, hcreate, hread⟩ := h
  obtain ⟨-, xdr, -, seed, hxdr, -, -, rfl⟩ := scCreateEnvelope_eq_some_iff.1 hcreate
  obtain rfl := Option.some.inj hxdr
  have hfits : (ProtocolMessage.transaction (submission C fromSeed xdr seed now)).Fits := hlength
  have hback := ProtocolMessage.fromBytes_toBytes_append hfits []
  rw [List.append_nil, hread] at hback
  exact ⟨xdr, seed, now, ProtocolMessage.transaction.inj (Except.ok.inj hback)⟩

/-- The two inputs to the hash that belong to an envelope. -/
def hashInputs (envelope : TransactionEnvelope) : List (List UInt8) :=
  [messageIdInput envelope.originPubkey envelope.txXdr envelope.timestamp,
    payloadInput envelope.originPubkey envelope.timestamp envelope.txXdr]

variable {envelope : TransactionEnvelope}

/-- **Does the signature verify?**  It does when the two inputs to the hash are the same bytes. -/
theorem verifySignature_submitted_iff (hC : C.Ideal) (h : Submitted C fromSeed hexDecode envelope)
    (hcol : C.CollisionFree (hashInputs envelope)) :
    verifySignature C envelope = .ok true ↔
      HashInputsAgree envelope.txXdr envelope.timestamp := by
  obtain ⟨xdr, seed, now, rfl⟩ := h.exists_submission
  rw [← sha256_inputs_eq_iff hcol]
  exact verifySignature_build_iff hC (fromSeed seed) (b := .new _ xdr) rfl now

/-- An envelope from an app that the mesh takes for a forgery. -/
structure Mistaken (C : Crypto) (fromSeed : Bytes 32 → C.SigningKey)
    (hexDecode : List UInt8 → Except String (List UInt8)) (envelope : TransactionEnvelope) :
    Prop where
  submitted : Submitted C fromSeed hexDecode envelope
  collisionFree : C.CollisionFree (hashInputs envelope)
  differ : ¬ HashInputsAgree envelope.txXdr envelope.timestamp

theorem Mistaken.not_expired (h : Mistaken C fromSeed hexDecode envelope) :
    envelope.ttlHops ≠ 0 := by
  obtain ⟨xdr, seed, now, rfl⟩ := h.submitted.exists_submission
  show (10 : UInt8) ≠ 0
  decide

theorem Mistaken.exists_error (hC : C.Ideal) (h : Mistaken C fromSeed hexDecode envelope) :
    ∃ e, verifySignature C envelope = .error e := by
  cases hverify : verifySignature C envelope with
  | error e => exact ⟨e, rfl⟩
  | ok b =>
    cases b with
    | true =>
      have hagree := (verifySignature_submitted_iff hC h.submitted h.collisionFree).1 hverify
      exact absurd hagree h.differ
    | false => exact absurd hverify (verifySignature_ne_ok_false C envelope)

end Submitted

/-! ### Strikes -/

section Strikes

variable {Conn : Type} {C : Crypto} {fromSeed : Bytes 32 → C.SigningKey}
  {hexDecode : List UInt8 → Except String (List UInt8)}

/-- A failure of the origin is recorded. -/
def IntakeInput.failure (i : IntakeInput) : StrikeInput := ⟨i.instant, .recordFailure i.origin⟩

/-- The two names the same origin, the first in the ten minutes before the second. -/
def IntakeInput.Strikes (j i : IntakeInput) : Prop :=
  j.envelope.originPubkey = i.envelope.originPubkey ∧
    i.instant - j.instant ≤ 10 * 60 * 1000000000

instance (j i : IntakeInput) : Decidable (j.Strikes i) := inferInstanceAs (Decidable (_ ∧ _))

/-- One envelope: a failure is recorded, and three strikes are allowed for. -/
theorem processTransactionEnvelope_mistaken (hC : C.Ideal) (s : IntakeState Conn) {i : IntakeInput}
    (h : Mistaken C fromSeed hexDecode i.envelope) :
    (processTransactionEnvelope C s i).2.strikeTracker = (s.strikeTracker.step i.failure).2 ∧
      (processTransactionEnvelope C s i).1 =
        if s.strikeTracker.getStrikeCount i.origin i.instant < s.strikeTracker.maxStrikes
        then .ok () else .error (.peerBanned i.origin) := by
  obtain ⟨e, he⟩ := h.exists_error hC
  have hintake := intake_processTransactionEnvelope C s i
  generalize processTransactionEnvelope C s i = out at hintake
  cases hintake with
  | expired httl => exact absurd httl h.not_expired
  | verified httl hverify =>
    rw [he] at hverify
    cases hverify
  | strike e httl hverify hcount => exact ⟨rfl, (if_pos hcount).symm⟩
  | banned e httl hverify hcount => exact ⟨rfl, (if_neg (Nat.not_lt.2 hcount)).symm⟩

theorem strikeTracker_exec (hC : C.Ideal) (s : IntakeState Conn) {is : List IntakeInput}
    (h : ∀ i ∈ is, Mistaken C fromSeed hexDecode i.envelope) :
    (exec (processTransactionEnvelope C) s is).strikeTracker =
      exec StrikeTracker.step s.strikeTracker (is.map IntakeInput.failure) := by
  induction is generalizing s with
  | nil => rfl
  | cons i is ih =>
    rw [List.forall_mem_cons] at h
    rw [exec_cons, ih _ h.2, (processTransactionEnvelope_mistaken hC s h.1).1]
    rfl

theorem failuresOf_map_failure (pubkey : Bytes 32) (is : List IntakeInput) :
    failuresOf pubkey (is.map IntakeInput.failure) =
      (is.filter fun i => i.envelope.originPubkey = pubkey).map IntakeInput.instant := by
  induction is using List.reverseRecOn with
  | nil => rfl
  | append_singleton is i ih =>
    rw [List.map_append, List.map_singleton, failuresOf_concat, ih, List.filter_append,
      List.map_append]
    show (if i.envelope.originPubkey = pubkey then _ else _) = _
    by_cases horigin : i.envelope.originPubkey = pubkey
    · rw [if_pos horigin, List.filter_singleton, decide_eq_true horigin]
      rfl
    · rw [if_neg horigin, List.filter_singleton, decide_eq_false horigin]
      exact (List.append_nil _).symm

/-- **Apps ban themselves.**  Envelopes that were made for apps come in at a node, at instants that
do not go back.  Unless the two inputs to the hash agree, each of them is a strike against its own
origin: three in ten minutes are let through, and every further one bans the origin. -/
theorem submissions_struck (C : Crypto) (hC : C.Ideal) (fromSeed : Bytes 32 → C.SigningKey)
    (hexDecode : List UInt8 → Except String (List UInt8)) (s : IntakeState Conn)
    (hs : s.strikeTracker = .new) (is : List IntakeInput)
    (hmistaken : ∀ i ∈ is, Mistaken C fromSeed hexDecode i.envelope)
    (hsorted : is.Pairwise fun j i => j.instant ≤ i.instant) (pre : List IntakeInput)
    (i : IntakeInput) (post : List IntakeInput) (hsplit : is = pre ++ i :: post) :
    (processTransactionEnvelope C (exec (processTransactionEnvelope C) s pre) i).1 =
      if pre.countP (fun j => decide (j.Strikes i)) < 3 then .ok ()
      else .error (.peerBanned i.origin) := by
  subst hsplit
  have hpre : ∀ j ∈ pre, Mistaken C fromSeed hexDecode j.envelope :=
    fun j hj => hmistaken j (List.mem_append_left _ hj)
  obtain ⟨hbefore, -, hlater⟩ := List.pairwise_append.1 hsorted
  rw [(processTransactionEnvelope_mistaken hC _ (hmistaken i (by simp))).2,
    strikeTracker_exec hC s hpre, hs, StrikeTracker.new_eq_empty]
  have hfollows := StrikeTracker.follows_exec (10 * 60 * 1000000000) 3
    (List.pairwise_map.2 hbefore : (pre.map IntakeInput.failure).Pairwise fun j i => j.now ≤ i.now)
  have hnow : ∀ j ∈ pre.map IntakeInput.failure, j.now ≤ i.instant := by
    intro j hj
    obtain ⟨k, hk, rfl⟩ := List.mem_map.1 hj
    exact hlater k hk i List.mem_cons_self
  have hcount := hfollows.strikes_eq hnow i.origin.pubkey
  rw [hfollows.maxStrikes_eq, StrikeTracker.getStrikeCount_eq]
  unfold StrikeTracker.stored at hcount
  rw [hcount]
  unfold strikes
  rw [failuresOf_map_failure, List.countP_map, List.countP_filter]
  have hstrikes : pre.countP (fun j => decide (i.instant - j.instant ≤ 10 * 60 * 1000000000) &&
      decide (j.envelope.originPubkey = i.envelope.originPubkey)) =
        pre.countP fun j => decide (j.Strikes i) := by
    refine List.countP_congr fun j _ => ?_
    rw [← Bool.decide_and, decide_eq_true_iff, decide_eq_true_iff]
    exact and_comm
  rw [← hstrikes]
  rfl

/-- What the holder of the sample key has sent at some second. -/
def sampleSubmission (second : ℕ) : IntakeInput where
  envelope := submission Crypto.transparent id "AAAA" sampleKey 1672531200
  instant := second * 1000000000
  readings := ⟨1672531200, 1672531200, 1672531200, 1672531200, none⟩

theorem mistaken_sampleSubmission (second : ℕ) :
    Mistaken Crypto.transparent id decodeData (sampleSubmission second).envelope where
  submitted := by
    have hdigits : strBytes (Hex.asciiText (Hex.encode sampleKey.toList)) =
        Hex.encode sampleKey.toList := Hex.toByteArray_asciiText (Hex.ascii_encode _)
    have hdecode : decodeData (strBytes (Hex.asciiText (Hex.encode sampleKey.toList))) =
        .ok sampleKey.toList := by
      rw [hdigits, decodesHex_decodeData.eq_ok_iff]
      exact Hex.decode_encode _
    refine ⟨strBytes "AAAA", _, 1672531200, _, by decide,
      scCreateEnvelope_eq_some_iff.2 ⟨rfl, "AAAA", _, sampleKey, rfl, rfl, hdecode, rfl⟩, ?_⟩
    have hfits : (ProtocolMessage.transaction (sampleSubmission second).envelope).Fits := by
      show "AAAA".utf8ByteSize < 2 ^ 32
      decide
    have hback := ProtocolMessage.fromBytes_toBytes_append hfits []
    rwa [List.append_nil] at hback
  collisionFree := by
    show Crypto.transparent.CollisionFree
      [messageIdInput sampleKey "AAAA" 1672531200, payloadInput sampleKey 1672531200 "AAAA"]
    decide
  differ := by
    show ¬ HashInputsAgree "AAAA" 1672531200
    decide

/-- The fourth transaction in four seconds. -/
theorem submissions_struck_sample :
    (processTransactionEnvelope Crypto.transparent
      (exec (processTransactionEnvelope Crypto.transparent) sampleIntake
        [sampleSubmission 1, sampleSubmission 2, sampleSubmission 3]) (sampleSubmission 4)).1 =
      .error (.peerBanned (PeerIdentity.new sampleKey)) := by
  have hmistaken : ∀ i ∈ [sampleSubmission 1, sampleSubmission 2, sampleSubmission 3,
      sampleSubmission 4], Mistaken Crypto.transparent id decodeData i.envelope := by
    simp [mistaken_sampleSubmission]
  have hstruck := submissions_struck Crypto.transparent Crypto.transparent_ideal id decodeData
    sampleIntake rfl _ hmistaken (by simp [sampleSubmission])
    [sampleSubmission 1, sampleSubmission 2, sampleSubmission 3] (sampleSubmission 4) [] rfl
  rw [if_neg] at hstruck
  · exact hstruck
  · have hall : ∀ j ∈ [sampleSubmission 1, sampleSubmission 2, sampleSubmission 3],
        decide (j.Strikes (sampleSubmission 4)) = true := by
      simp [IntakeInput.Strikes, sampleSubmission]
    rw [List.countP_eq_length.2 hall]
    decide

end Strikes

end StellarConduit
