import StellarConduit.Lib.MessagePack
import StellarConduit.Message.RelayProof
import StellarConduit.Message.Types

/-!
# The encoding of messages

`to_bytes` and `from_bytes` of `message/types.rs`: the MessagePack encoding of a message, by the
derived serializers and by the hand-written one of signatures.  A format lists the fields in the
order of the source.

* `TransactionEnvelope.format`, …, `ProtocolMessage.format`: the formats;
* `ProtocolMessage.format_fits_iff`: a message fits when its strings and lists have lengths of 32
  bits;
* `ProtocolMessage.toBytes_injective`: different messages are encoded differently;
* `ProtocolMessage.roundTrip`: the messages that are decoded again are those that fit.
-/

namespace StellarConduit

open Verif.MessagePack

/-- `[u8; n]`, and the signature of `signature_serde`: a tuple of `n` numbers. -/
def byteArray (n : ℕ) (hn : n < 2 ^ 32) : Format (Bytes n) := .tuple .u8 n hn

namespace TransactionEnvelope

/-- `signature_serde` -/
def signatureSerde : Format (Bytes 64) := byteArray 64 (by decide)

def fields : TransactionEnvelope ≃
    Bytes 32 × Bytes 32 × String × UInt8 × UInt64 × Bytes 64 × Unit where
  toFun e := (e.messageId, e.originPubkey, e.txXdr, e.ttlHops, e.timestamp, e.signature, ())
  invFun f :=
    { messageId := f.1
      originPubkey := f.2.1
      txXdr := f.2.2.1
      ttlHops := f.2.2.2.1
      timestamp := f.2.2.2.2.1
      signature := f.2.2.2.2.2.1 }

def format : Format TransactionEnvelope :=
  .struct
    (.cons (byteArray 32 (by decide)) <|
      .cons (byteArray 32 (by decide)) <|
      .cons .str <|
      .cons .u8 <|
      .cons .u64 <|
      .cons signatureSerde .nil)
    fields fun _ => show 6 < 2 ^ 32 by decide

end TransactionEnvelope

namespace TopologyFlag

def name : TopologyFlag → String
  | .goToSleep => "GoToSleep"
  | .lowPowerMode => "LowPowerMode"
  | .deepSleepPending => "DeepSleepPending"
  | .macRotated => "MacRotated"

def find : String → Option TopologyFlag
  | "GoToSleep" => some .goToSleep
  | "LowPowerMode" => some .lowPowerMode
  | "DeepSleepPending" => some .deepSleepPending
  | "MacRotated" => some .macRotated
  | _ => none

def format : Format TopologyFlag :=
  .units name find (fun flag => by cases flag <;> rfl) fun flag => by cases flag <;> decide

end TopologyFlag

namespace TopologyUpdate

def fields : TopologyUpdate ≃ Bytes 32 × List (Bytes 32) × UInt8 × List TopologyFlag where
  toFun u := (u.originPubkey, u.directlyConnectedPeers, u.hopsToRelay, u.topologyFlags)
  invFun f :=
    { originPubkey := f.1
      directlyConnectedPeers := f.2.1
      hopsToRelay := f.2.2.1
      topologyFlags := f.2.2.2 }

/-- The flags are skipped when there are none. -/
def format : Format TopologyUpdate :=
  .struct
    (.cons (byteArray 32 (by decide)) <|
      .cons (.list (byteArray 32 (by decide))) <|
      .cons .u8 <|
      .skipEmpty (.list TopologyFlag.format))
    fields fun f => by
      show (if f.2.2.2.isEmpty then 0 else 1) + 1 + 1 + 1 < 2 ^ 32
      split_ifs <;> decide

end TopologyUpdate

namespace SyncRequest

def fields : SyncRequest ≃ List (Bytes 4) × Unit where
  toFun r := (r.knownMessageIds, ())
  invFun f := { knownMessageIds := f.1 }

def format : Format SyncRequest :=
  .struct (.cons (.list (byteArray 4 (by decide))) .nil) fields fun _ => show 1 < 2 ^ 32 by decide

end SyncRequest

namespace SyncResponse

def fields : SyncResponse ≃ List TransactionEnvelope × Unit where
  toFun r := (r.missingEnvelopes, ())
  invFun f := { missingEnvelopes := f.1 }

def format : Format SyncResponse :=
  .struct (.cons (.list TransactionEnvelope.format) .nil) fields fun _ => show 1 < 2 ^ 32 by decide

end SyncResponse

/-- The data of the variant `Handshake`, which is a structure of one field. -/
def handshakeFormat : Format (Bytes 32) :=
  .struct (.cons (byteArray 32 (by decide)) .nil) (Equiv.prodPUnit _).symm
    fun _ => show 1 < 2 ^ 32 by decide

namespace ProtocolMessage

def variantName : ProtocolMessage → String
  | .transaction _ => "Transaction"
  | .topologyUpdate _ => "TopologyUpdate"
  | .syncRequest _ => "SyncRequest"
  | .syncResponse _ => "SyncResponse"
  | .handshake _ => "Handshake"

def payload : ProtocolMessage → List UInt8
  | .transaction envelope => TransactionEnvelope.format.encode envelope
  | .topologyUpdate update => TopologyUpdate.format.encode update
  | .syncRequest request => SyncRequest.format.encode request
  | .syncResponse response => SyncResponse.format.encode response
  | .handshake pubkey => handshakeFormat.encode pubkey

def variantDecoder : String → Option (Decoder ProtocolMessage)
  | "Transaction" => some (TransactionEnvelope.format.decode.map .transaction)
  | "TopologyUpdate" => some (TopologyUpdate.format.decode.map .topologyUpdate)
  | "SyncRequest" => some (SyncRequest.format.decode.map .syncRequest)
  | "SyncResponse" => some (SyncResponse.format.decode.map .syncResponse)
  | "Handshake" => some (handshakeFormat.decode.map .handshake)
  | _ => none

def PayloadFits : ProtocolMessage → Prop
  | .transaction envelope => TransactionEnvelope.format.Fits envelope
  | .topologyUpdate update => TopologyUpdate.format.Fits update
  | .syncRequest request => SyncRequest.format.Fits request
  | .syncResponse response => SyncResponse.format.Fits response
  | .handshake pubkey => handshakeFormat.Fits pubkey

theorem variantName_fits (m : ProtocolMessage) : m.variantName.utf8ByteSize < 2 ^ 32 := by
  cases m <;> dsimp only [variantName] <;> decide

theorem variantDecoder_variantName (m : ProtocolMessage) (rest : List UInt8)
    (h : m.PayloadFits) :
    ∃ d, variantDecoder m.variantName = some d ∧ d (m.payload ++ rest) = .ok (m, rest) := by
  cases m with
  | transaction envelope =>
    exact ⟨_, rfl, Decoder.map_of_ok (TransactionEnvelope.format.decode_encode _ rest h) _⟩
  | topologyUpdate update =>
    exact ⟨_, rfl, Decoder.map_of_ok (TopologyUpdate.format.decode_encode _ rest h) _⟩
  | syncRequest request =>
    exact ⟨_, rfl, Decoder.map_of_ok (SyncRequest.format.decode_encode _ rest h) _⟩
  | syncResponse response =>
    exact ⟨_, rfl, Decoder.map_of_ok (SyncResponse.format.decode_encode _ rest h) _⟩
  | handshake pubkey =>
    exact ⟨_, rfl, Decoder.map_of_ok (handshakeFormat.decode_encode _ rest h) _⟩

theorem payloadFits_of_variantDecoder (n : String) (d : Decoder ProtocolMessage)
    (bytes : List UInt8) (m : ProtocolMessage) (rest : List UInt8)
    (hd : variantDecoder n = some d) (h : d bytes = .ok (m, rest)) : m.PayloadFits := by
  unfold variantDecoder at hd
  split at hd
  all_goals
    cases hd
  all_goals
    obtain ⟨data, hdata, rfl⟩ := Decoder.exists_of_map h
  · exact TransactionEnvelope.format.fits_of_decode _ _ _ hdata
  · exact TopologyUpdate.format.fits_of_decode _ _ _ hdata
  · exact SyncRequest.format.fits_of_decode _ _ _ hdata
  · exact SyncResponse.format.fits_of_decode _ _ _ hdata
  · exact handshakeFormat.fits_of_decode _ _ _ hdata

def format : Format ProtocolMessage :=
  .tagged variantName payload variantDecoder PayloadFits variantName_fits
    variantDecoder_variantName payloadFits_of_variantDecoder

/-- Writing to a vector does not fail. -/
def toBytes (m : ProtocolMessage) : List UInt8 := format.encode m

example : toBytes (.syncRequest ⟨[List.Vector.replicate 4 200]⟩) =
    [0x81, 0xab] ++ strBytes "SyncRequest" ++
      [0x91, 0x91, 0x94, 0xcc, 200, 0xcc, 200, 0xcc, 200, 0xcc, 200] := by
  decide +kernel

/-- What follows the message is not looked at. -/
def fromBytes (data : List UInt8) : Except DecodeError ProtocolMessage :=
  (format.decode data).map Prod.fst

end ProtocolMessage

namespace RelayChainProof

def fields : RelayChainProof ≃ Bytes 64 × Bytes 32 × UInt64 × Unit where
  toFun p := (p.signature, p.chainHash, p.sequence, ())
  invFun f := { signature := f.1, chainHash := f.2.1, sequence := f.2.2.1 }

def format : Format RelayChainProof :=
  .struct
    (.cons (byteArray 64 (by decide)) <|
      .cons (byteArray 32 (by decide)) <|
      .cons .u64 .nil)
    fields fun _ => show 3 < 2 ^ 32 by decide

end RelayChainProof

/-! ### What fits -/

theorem byteArray_fits {n : ℕ} (hn : n < 2 ^ 32) (bytes : Bytes n) : (byteArray n hn).Fits bytes :=
  fun _ _ => trivial

/-- Relay proofs are always decoded again. -/
theorem RelayChainProof.decode_encode (p : RelayChainProof) (rest : List UInt8) :
    format.decode (format.encode p ++ rest) = .ok (p, rest) :=
  format.decode_encode p rest
    ⟨byteArray_fits _ _, byteArray_fits _ _, trivial, trivial⟩

/-- The transaction is not too long. -/
def TransactionEnvelope.Fits (e : TransactionEnvelope) : Prop := e.txXdr.utf8ByteSize < 2 ^ 32

theorem TransactionEnvelope.format_fits_iff (e : TransactionEnvelope) :
    format.Fits e ↔ e.Fits := by
  constructor
  · rintro ⟨-, -, hxdr, -⟩
    exact hxdr
  · intro hxdr
    exact ⟨byteArray_fits _ _, byteArray_fits _ _, hxdr, trivial, trivial, byteArray_fits _ _,
      trivial⟩

namespace ProtocolMessage

/-- The string of each envelope and all lists have lengths of 32 bits. -/
def Fits : ProtocolMessage → Prop
  | .transaction envelope => envelope.Fits
  | .topologyUpdate update =>
    update.directlyConnectedPeers.length < 2 ^ 32 ∧ update.topologyFlags.length < 2 ^ 32
  | .syncRequest request => request.knownMessageIds.length < 2 ^ 32
  | .syncResponse response =>
    response.missingEnvelopes.length < 2 ^ 32 ∧ ∀ e ∈ response.missingEnvelopes, e.Fits
  | .handshake _ => True

theorem format_fits_iff (m : ProtocolMessage) : format.Fits m ↔ m.Fits := by
  cases m with
  | transaction envelope => exact envelope.format_fits_iff
  | topologyUpdate update =>
    constructor
    · rintro ⟨-, hpeers, -, hflags⟩
      refine ⟨hpeers.1, ?_⟩
      by_cases hnil : update.topologyFlags = []
      · rw [hnil]
        decide
      · exact (hflags hnil).1
    · rintro ⟨hpeers, hflags⟩
      exact ⟨byteArray_fits _ _, ⟨hpeers, fun _ _ => byteArray_fits _ _⟩, trivial,
        fun _ => ⟨hflags, fun _ _ => trivial⟩⟩
  | syncRequest request =>
    constructor
    · rintro ⟨hids, -⟩
      exact hids.1
    · intro hids
      exact ⟨⟨hids, fun _ _ => byteArray_fits _ _⟩, trivial⟩
  | syncResponse response =>
    constructor
    · rintro ⟨henvelopes, -⟩
      exact ⟨henvelopes.1, fun e he => e.format_fits_iff.1 (henvelopes.2 e he)⟩
    · rintro ⟨hlength, henvelopes⟩
      exact ⟨⟨hlength, fun e he => e.format_fits_iff.2 (henvelopes e he)⟩, trivial⟩
  | handshake pubkey => exact iff_of_true ⟨byteArray_fits _ _, trivial⟩ trivial

end ProtocolMessage

/-! ### Different messages -/

theorem delimited_byteArray {n : ℕ} (hn : n < 2 ^ 32) : Delimited (byteArray n hn).encode :=
  (byteArray n hn).delimited (byteArray_fits hn)

namespace TransactionEnvelope

theorem encode_append (e : TransactionEnvelope) (rest : List UInt8) :
    format.encode e ++ rest =
      writeLen .array 6 ++ ((byteArray 32 (by decide)).encode e.messageId ++
        ((byteArray 32 (by decide)).encode e.originPubkey ++
          (writeLen .str e.txXdr.utf8ByteSize ++ (strBytes e.txXdr ++
            (Format.u8.encode e.ttlHops ++ (Format.u64.encode e.timestamp ++
              (signatureSerde.encode e.signature ++ rest))))))) := by
  show writeLen .array 6 ++ ((byteArray 32 (by decide)).encode e.messageId ++
    ((byteArray 32 (by decide)).encode e.originPubkey ++
      ((writeLen .str e.txXdr.utf8ByteSize ++ strBytes e.txXdr) ++
        (Format.u8.encode e.ttlHops ++ (Format.u64.encode e.timestamp ++
          (signatureSerde.encode e.signature ++ [])))))) ++ rest = _
  simp only [List.append_assoc, List.nil_append]

/-- The signature follows soon after the transaction. -/
theorem arrayFollows_txXdr (e : TransactionEnvelope) (rest : List UInt8) :
    ArrayFollows (Format.u8.encode e.ttlHops ++ (Format.u64.encode e.timestamp ++
      (signatureSerde.encode e.signature ++ rest))) := by
  have hlen : writeLen .array 64 = [0xdc, 0x00, 0x40] := by decide
  have hsignature : signatureSerde.encode e.signature =
      [0xdc, 0x00] ++ (0x40 :: e.signature.toList.flatMap Format.u8.encode) := by
    show writeLen .array 64 ++ _ = _
    rw [hlen]
    rfl
  refine ⟨Format.u8.encode e.ttlHops ++ Format.u64.encode e.timestamp,
    0x40 :: e.signature.toList.flatMap Format.u8.encode ++ rest, ?_, ?_⟩
  · rw [hsignature]
    simp only [List.append_assoc]
  · have httl := length_writeUint_le e.ttlHops.toNat
    have htimestamp := length_writeUint_le e.timestamp.toNat
    have hlength : (Format.u8.encode e.ttlHops ++ Format.u64.encode e.timestamp).length ≤ 18 := by
      rw [List.length_append]
      exact Nat.add_le_add httl htimestamp
    omega

/-- Envelopes show where they end, whatever the length of the transaction. -/
theorem delimited_format : Delimited format.encode := by
  intro e e' rest rest' h
  rw [encode_append, encode_append] at h
  obtain ⟨-, h⟩ := eq_of_writeLen_append .array h
  obtain ⟨hid, h⟩ := delimited_byteArray _ _ _ _ _ h
  obtain ⟨hpubkey, h⟩ := delimited_byteArray _ _ _ _ _ h
  obtain ⟨hlen, h⟩ := eq_of_writeLen_append .str h
  obtain ⟨hxdr, h⟩ := eq_of_strBytes_append hlen (e.arrayFollows_txXdr rest)
    (e'.arrayFollows_txXdr rest') h
  obtain ⟨httl, h⟩ := Format.u8.delimited (fun _ => trivial) _ _ _ _ h
  obtain ⟨htimestamp, h⟩ := Format.u64.delimited (fun _ => trivial) _ _ _ _ h
  obtain ⟨hsignature, h⟩ := delimited_byteArray _ _ _ _ _ h
  refine ⟨?_, h⟩
  cases e
  cases e'
  simp_all

end TransactionEnvelope

namespace TopologyUpdate

theorem encode_eq (u : TopologyUpdate) :
    format.encode u =
      writeLen .array (if u.topologyFlags.isEmpty then 3 else 4) ++
        ((byteArray 32 (by decide)).encode u.originPubkey ++
          (writeLen .array u.directlyConnectedPeers.length ++
            (u.directlyConnectedPeers.flatMap (byteArray 32 (by decide)).encode ++
              (Format.u8.encode u.hopsToRelay ++
                (if u.topologyFlags.isEmpty then []
                else (Format.list TopologyFlag.format).encode u.topologyFlags))))) := by
  have hcount : (if u.topologyFlags.isEmpty then 0 else 1) + 1 + 1 + 1 =
      if u.topologyFlags.isEmpty then 3 else 4 := by
    split_ifs <;> rfl
  rw [← hcount]
  show writeLen .array _ ++ ((byteArray 32 (by decide)).encode u.originPubkey ++
    ((writeLen .array u.directlyConnectedPeers.length ++
      u.directlyConnectedPeers.flatMap (byteArray 32 (by decide)).encode) ++ _)) = _
  rw [List.append_assoc (writeLen .array u.directlyConnectedPeers.length)]
  rfl

/-- A number of one byte is not the start of a peer. -/
theorem u8_encode_append_ne (hops : UInt8) (rest : List UInt8) (peer : Bytes 32)
    (t : List UInt8) :
    Format.u8.encode hops ++ rest ≠ (byteArray 32 (by decide)).encode peer ++ t := by
  have hlen : writeLen .array 32 = [0xdc, 0x00, 0x20] := by decide
  have hlt := hops.toNat_lt
  intro h
  have hpeer : (byteArray 32 (by decide)).encode peer ++ t =
      0xdc :: (0x00 :: 0x20 :: peer.toList.flatMap Format.u8.encode ++ t) := by
    show writeLen .array 32 ++ _ ++ t = _
    rw [hlen]
    rfl
  have hdecode := Format.u8.decode_encode hops rest trivial
  rw [h, hpeer] at hdecode
  cases hdecode

theorem encode_injective : Function.Injective format.encode := by
  intro u u' h
  rw [encode_eq, encode_eq] at h
  obtain ⟨hcount, h⟩ := eq_of_writeLen_append .array h
  have hempty : u.topologyFlags.isEmpty = u'.topologyFlags.isEmpty := by
    by_cases hu : u.topologyFlags.isEmpty <;> by_cases hu' : u'.topologyFlags.isEmpty <;>
      simp [hu, hu'] at hcount ⊢
  obtain ⟨hpubkey, h⟩ := delimited_byteArray _ _ _ _ _ h
  obtain ⟨-, h⟩ := eq_of_writeLen_append .array h
  obtain ⟨hpeers, h⟩ := (delimited_byteArray _).eq_of_flatMap_append
    (u8_encode_append_ne _ _) (u8_encode_append_ne _ _) h
  obtain ⟨hhops, h⟩ := Format.u8.delimited (fun _ => trivial) _ _ _ _ h
  have hflags : u.topologyFlags = u'.topologyFlags := by
    rw [← hempty] at h
    by_cases hnil : u.topologyFlags.isEmpty
    · have hnil' := hnil
      rw [hempty] at hnil'
      rw [List.isEmpty_iff.1 hnil, List.isEmpty_iff.1 hnil']
    · rw [if_neg hnil, if_neg hnil] at h
      exact Format.list_injective _ (TopologyFlag.format.delimited fun _ => trivial)
        (fun _ => writeLen_append_ne_nil .str _ _) h
  cases u
  cases u'
  simp_all

end TopologyUpdate

theorem SyncRequest.encode_injective : Function.Injective SyncRequest.format.encode := by
  intro r r' h
  obtain ⟨-, h⟩ := eq_of_writeLen_append .array h
  have hids := Format.list_injective _ (delimited_byteArray (n := 4) (by decide))
    (fun _ => writeLen_append_ne_nil .array _ _) (List.append_cancel_right h)
  exact SyncRequest.fields.injective (congrArg (·, ()) hids)

theorem SyncResponse.encode_injective : Function.Injective SyncResponse.format.encode := by
  intro r r' h
  obtain ⟨-, h⟩ := eq_of_writeLen_append .array h
  have henvelopes := Format.list_injective _ TransactionEnvelope.delimited_format
    (fun _ => writeLen_append_ne_nil .array _ _) (List.append_cancel_right h)
  exact SyncResponse.fields.injective (congrArg (·, ()) henvelopes)

namespace ProtocolMessage

/-- Different messages are encoded differently, whatever their lengths. -/
theorem toBytes_injective : Function.Injective toBytes := by
  intro m m' h
  obtain ⟨-, h⟩ := eq_of_writeLen_append .map h
  obtain ⟨hname, h⟩ := Format.str.eq_of_encode_append m.variantName_fits m'.variantName_fits h
  cases m with
  | transaction e =>
    cases m' with
    | transaction e' =>
      refine congrArg transaction (TransactionEnvelope.delimited_format e e' [] [] ?_).1
      exact congrArg (· ++ []) h
    | _ => simp [variantName] at hname
  | topologyUpdate u =>
    cases m' with
    | topologyUpdate u' => exact congrArg topologyUpdate (TopologyUpdate.encode_injective h)
    | _ => simp [variantName] at hname
  | syncRequest r =>
    cases m' with
    | syncRequest r' => exact congrArg syncRequest (SyncRequest.encode_injective h)
    | _ => simp [variantName] at hname
  | syncResponse r =>
    cases m' with
    | syncResponse r' => exact congrArg syncResponse (SyncResponse.encode_injective h)
    | _ => simp [variantName] at hname
  | handshake pubkey =>
    cases m' with
    | handshake pubkey' =>
      refine congrArg handshake ?_
      obtain ⟨-, h⟩ := eq_of_writeLen_append .array h
      exact (delimited_byteArray _ _ _ _ _ h).1
    | _ => simp [variantName] at hname

theorem fits_of_fromBytes {data : List UInt8} {m : ProtocolMessage}
    (h : fromBytes data = .ok m) : m.Fits := by
  unfold fromBytes at h
  rcases hdecode : format.decode data with e | ⟨m', rest⟩
  · rw [hdecode] at h
    cases h
  · rw [hdecode] at h
    obtain rfl : m' = m := Except.ok.inj h
    exact m'.format_fits_iff.1 (format.fits_of_decode _ _ _ hdecode)

/-- The bytes after a message are not looked at. -/
theorem fromBytes_toBytes_append {m : ProtocolMessage} (h : m.Fits) (rest : List UInt8) :
    fromBytes (toBytes m ++ rest) = .ok m := by
  unfold fromBytes toBytes
  rw [format.decode_encode m rest (m.format_fits_iff.2 h)]
  rfl

/-- **The encoding of messages.**  A message is decoded again exactly when its string and its lists
have lengths of 32 bits, and two different messages are encoded differently. -/
theorem roundTrip (m : ProtocolMessage) :
    (fromBytes (toBytes m) = .ok m ↔ m.Fits) ∧ ∀ m', m ≠ m' → toBytes m ≠ toBytes m' := by
  refine ⟨⟨fits_of_fromBytes, fun h => ?_⟩, fun m' hne h => hne (toBytes_injective h)⟩
  have hdecode := fromBytes_toBytes_append h []
  rwa [List.append_nil] at hdecode

/-- An update with a flag, and the same update without it. -/
theorem roundTrip_sample :
    let update (flags : List TopologyFlag) : ProtocolMessage :=
      .topologyUpdate ⟨List.Vector.replicate 32 7, [List.Vector.replicate 32 1], 2, flags⟩
    fromBytes (toBytes (update [.goToSleep])) = .ok (update [.goToSleep]) ∧
      toBytes (update [.goToSleep]) ≠ toBytes (update []) := by
  intro update
  have hroundTrip := roundTrip (update [.goToSleep])
  refine ⟨hroundTrip.1.2 ⟨by decide, by decide⟩, hroundTrip.2 _ ?_⟩
  decide

/-- The length of a list of `2 ^ 32` elements is written as 0. -/
theorem toBytes_of_length_mod {ids : List (Bytes 4)} (h : ids.length % 2 ^ 32 = 0) :
    toBytes (.syncRequest ⟨ids⟩) = toBytes (.syncRequest ⟨[]⟩) ++
      ids.flatMap (byteArray 4 (by decide)).encode := by
  have hlen : writeLen .array ids.length = writeLen .array 0 := by
    unfold writeLen
    rw [h, Nat.zero_mod]
  show writeLen .map 1 ++ (Format.str.encode "SyncRequest" ++ (writeLen .array 1 ++
      ((writeLen .array ids.length ++ ids.flatMap (byteArray 4 (by decide)).encode) ++ []))) =
    writeLen .map 1 ++ (Format.str.encode "SyncRequest" ++ (writeLen .array 1 ++
      ((writeLen .array 0 ++ []) ++ []))) ++ _
  rw [hlen]
  simp only [List.append_assoc, List.append_nil]

/-- A request for `2 ^ 32` messages is decoded as a request for none. -/
theorem decoded_as_empty {ids : List (Bytes 4)} (h : ids.length = 2 ^ 32) :
    fromBytes (toBytes (.syncRequest ⟨ids⟩)) = .ok (.syncRequest ⟨[]⟩) ∧
      fromBytes (toBytes (.syncRequest ⟨ids⟩)) ≠ .ok (.syncRequest ⟨ids⟩) := by
  constructor
  · rw [toBytes_of_length_mod (by rw [h, Nat.mod_self])]
    exact fromBytes_toBytes_append (m := .syncRequest ⟨[]⟩) (show 0 < 2 ^ 32 by decide) _
  · intro hdecoded
    have hfits : ids.length < 2 ^ 32 := fits_of_fromBytes hdecoded
    omega

theorem long_request_sample :
    fromBytes (toBytes (.syncRequest ⟨List.replicate (2 ^ 32) (List.Vector.replicate 4 0)⟩)) ≠
      .ok (.syncRequest ⟨List.replicate (2 ^ 32) (List.Vector.replicate 4 0)⟩) :=
  (decoded_as_empty List.length_replicate).2

end ProtocolMessage

/-! ### Short messages -/

theorem byteArray_encode_ne_nil {n : ℕ} (hn : n < 2 ^ 32) (bytes : Bytes n) :
    (byteArray n hn).encode bytes ≠ [] :=
  writeLen_append_ne_nil .array _ _

theorem TransactionEnvelope.utf8ByteSize_le (e : TransactionEnvelope) :
    e.txXdr.utf8ByteSize ≤ (format.encode e).length := by
  have hencode := congrArg List.length (e.encode_append [])
  simp only [List.append_nil, List.length_append, length_strBytes] at hencode
  omega

namespace ProtocolMessage

theorem length_payload_le (m : ProtocolMessage) : m.payload.length ≤ m.toBytes.length := by
  show _ ≤ (writeLen .map 1 ++ (Format.str.encode m.variantName ++ m.payload)).length
  rw [List.length_append, List.length_append]
  omega

/-- The string and the lists of a message are no longer than its encoding. -/
theorem fits_of_length_toBytes {m : ProtocolMessage} (h : m.toBytes.length < 2 ^ 32) : m.Fits := by
  have hpayload := m.length_payload_le.trans_lt h
  cases m with
  | transaction envelope => exact envelope.utf8ByteSize_le.trans_lt hpayload
  | topologyUpdate update =>
    have hpeers := length_le_length_flatMap _ (byteArray_encode_ne_nil (n := 32) (by decide))
      update.directlyConnectedPeers
    have hflags := length_le_length_flatMap TopologyFlag.format.encode
      (fun _ => writeLen_append_ne_nil .str _ _) update.topologyFlags
    have hencode := congrArg List.length update.encode_eq
    have hlist : ((Format.list TopologyFlag.format).encode update.topologyFlags).length =
        (writeLen .array update.topologyFlags.length).length +
          (update.topologyFlags.flatMap TopologyFlag.format.encode).length := List.length_append
    simp only [List.length_append] at hencode
    change (TopologyUpdate.format.encode update).length < _ at hpayload
    refine ⟨by omega, ?_⟩
    by_cases hnil : update.topologyFlags = []
    · rw [hnil]
      decide
    · have hne : ¬ update.topologyFlags.isEmpty := by rwa [List.isEmpty_iff]
      rw [if_neg hne, if_neg hne] at hencode
      omega
  | syncRequest request =>
    have hids := length_le_length_flatMap _ (byteArray_encode_ne_nil (n := 4) (by decide))
      request.knownMessageIds
    change (writeLen .array 1 ++ ((writeLen .array request.knownMessageIds.length ++
      request.knownMessageIds.flatMap (byteArray 4 (by decide)).encode) ++ [])).length < _
      at hpayload
    simp only [List.length_append] at hpayload
    show request.knownMessageIds.length < _
    omega
  | syncResponse response =>
    change (writeLen .array 1 ++ ((writeLen .array response.missingEnvelopes.length ++
      response.missingEnvelopes.flatMap TransactionEnvelope.format.encode) ++ [])).length < _
      at hpayload
    simp only [List.length_append] at hpayload
    have henvelopes := length_le_length_flatMap TransactionEnvelope.format.encode
      (fun _ => writeLen_append_ne_nil .array _ _) response.missingEnvelopes
    refine ⟨by omega, fun e he => ?_⟩
    have hxdr := e.utf8ByteSize_le
    have hlength := length_encode_le_of_mem TransactionEnvelope.format.encode he
    show e.txXdr.utf8ByteSize < _
    omega
  | handshake pubkey => trivial

end ProtocolMessage

end StellarConduit
