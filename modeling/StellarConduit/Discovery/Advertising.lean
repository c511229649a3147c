import StellarConduit.Discovery.TxtRecords
import StellarConduit.Peer.Peer

/-!
# What a node announces

The three advertisers, and what is read of their announcements: the payload of BLE advertisements
(`discovery/ble.rs`), and the services that `discovery/mdns.rs` and `discovery/wifi_direct.rs`
register.  The entries of a TXT record come from a hash map, and so do they in the record that is
resolved: their order is open.

* `BleAdvertisementPayload.encode`, `decode`;
* `Mdns.advertise`, `MdnsAdvertiser.start`, and `Mdns.parseResolvedService`;
* `announcements_read_back`: what each advertiser announces is read by each scanner, whatever the
  order of the entries; only `mdns.rs` reads a number of hops, and nothing reads `is_relay`.
-/

namespace StellarConduit

open Verif

/-! ### BLE -/

structure BleAdvertisementPayload where
  pubkey : Bytes 32
  caps : UInt8
  deriving DecidableEq

namespace BleAdvertisementPayload

def encode (p : BleAdvertisementPayload) : List UInt8 := p.pubkey.toList ++ [p.caps]

def decode (data : List UInt8) : Option BleAdvertisementPayload :=
  if h : data.length < 33 then none
  else
    some
      { pubkey := ⟨data.take 32, by rw [List.length_take]; omega⟩
        caps := data[32] }

def buildCaps (isRelay hasWifiDirect : Bool) : UInt8 :=
  let caps := 0
  let caps := if isRelay then caps ||| 0b00000001 else caps
  if hasWifiDirect then caps ||| 0b00000010 else caps

def isRelay (p : BleAdvertisementPayload) : Bool := decide (p.caps &&& 0b00000001 ≠ 0)

def hasWifiDirect (p : BleAdvertisementPayload) : Bool := decide (p.caps &&& 0b00000010 ≠ 0)

theorem isRelay_buildCaps (pubkey : Bytes 32) (relay wifiDirect : Bool) :
    isRelay ⟨pubkey, buildCaps relay wifiDirect⟩ = relay ∧
      hasWifiDirect ⟨pubkey, buildCaps relay wifiDirect⟩ = wifiDirect := by
  show decide (buildCaps relay wifiDirect &&& 0b00000001 ≠ 0) = relay ∧
    decide (buildCaps relay wifiDirect &&& 0b00000010 ≠ 0) = wifiDirect
  cases relay <;> cases wifiDirect <;> decide

/-- What follows the payload is not looked at. -/
theorem decode_encode_append (p : BleAdvertisementPayload) (rest : List UInt8) :
    decode (p.encode ++ rest) = some p := by
  have hlength : (p.encode ++ rest).length = 33 + rest.length := by
    rw [encode, List.length_append, List.length_append, p.pubkey.toList_length,
      List.length_singleton]
  unfold decode
  rw [dif_neg (by omega)]
  have hpubkey : (p.encode ++ rest).take 32 = p.pubkey.toList := by
    rw [encode, List.append_assoc, List.take_left' p.pubkey.toList_length]
  have hcaps : (p.encode ++ rest)[32]? = some p.caps := by
    rw [encode, List.append_assoc, List.getElem?_append_right (by rw [p.pubkey.toList_length]),
      p.pubkey.toList_length]
    rfl
  refine congrArg some ?_
  cases p with
  | mk pubkey caps =>
    refine congrArg₂ mk (Subtype.ext hpubkey) ?_
    exact (List.getElem?_eq_some_iff.1 hcaps).2

end BleAdvertisementPayload

structure BleAdvertiser where
  identity : PeerIdentity
  isRelay : Bool
  isRunning : Bool

namespace BleAdvertiser

def start (identity : PeerIdentity) (isRelay : Bool) : BleAdvertiser := ⟨identity, isRelay, true⟩

def stop (a : BleAdvertiser) : BleAdvertiser := { a with isRunning := false }

def buildPayload (a : BleAdvertiser) : BleAdvertisementPayload where
  pubkey := a.identity.pubkey
  caps := BleAdvertisementPayload.buildCaps a.isRelay false

end BleAdvertiser

/-! ### Services -/

/-- `MDNS_SERVICE_TYPE`, of both modules -/
def mdnsServiceType : String := "_stellarconduit._tcp.local."

/-- `hex::encode`: two digits for each byte, in lower case -/
structure EncodesHex (hexEncode : List UInt8 → String) : Prop where
  eq : ∀ bytes, hexEncode bytes = Hex.asciiText (Hex.encode bytes)

/-- `mdns_sd::ServiceInfo`; the addresses are in the order in which they are looked at. -/
structure ServiceInfo (Addr : Type) where
  serviceType : String
  serviceName : String
  hostName : String
  addresses : List Addr
  port : UInt16
  properties : List (String × String)

/-- `mdns_sd::TxtProperty::to_string`: the key and the value, with `=` in between -/
structure WritesEntries (txtEntry : String × String → String) : Prop where
  eq : ∀ key value, txtEntry (key, value) = key ++ "=" ++ value

section Services

variable {Addr : Type}

/-- `advertise`: the service that is registered.  It has the unspecified address. -/
def Mdns.advertise (hexEncode : List UInt8 → String) (unspecified : Addr)
    (localPubkey : Bytes 32) (port : UInt16) (hopsToRelay : UInt8) : ServiceInfo Addr :=
  let pubkeyHex := hexEncode localPubkey.toList
  let serviceName := hexEncode (localPubkey.toList.take 8)
  { serviceType := mdnsServiceType
    serviceName := serviceName
    hostName := s!"{serviceName}.local."
    addresses := [unspecified]
    port := port
    properties :=
      [("pubkey", pubkeyHex), ("hops", toString hopsToRelay.toNat), ("version", "1")] }

/-- `start`: the service that is registered, under the local address.  The display id of an identity
is ASCII, and longer than the part of it that is taken. -/
def MdnsAdvertiser.start (localhost : Addr) (port : UInt16) (identity : PeerIdentity)
    (isRelay : Bool) : ServiceInfo Addr :=
  let pubkeyHex := identity.displayId
  let isRelayStr := if isRelay then "1" else "0"
  let serviceName := s!"StellarConduit-{String.ofList (identity.displayId.toList.take 16)}"
  { serviceType := mdnsServiceType
    serviceName := serviceName
    hostName := s!"{serviceName}.local."
    addresses := [localhost]
    port := port
    properties := [("pubkey", pubkeyHex), ("is_relay", isRelayStr)] }

/-- The decimal digits that `str::parse` reads into a byte, after those that come to `value`. -/
def readDecimal (value : ℕ) : List UInt8 → Except String UInt8
  | [] => .ok (UInt8.ofNat value)
  | c :: rest =>
    if 48 ≤ c ∧ c ≤ 57 then
      if 10 * value + (c.toNat - 48) > 255 then .error "number too large to fit in target type"
      else readDecimal (10 * value + (c.toNat - 48)) rest
    else .error "invalid digit found in string"

/-- `str::parse::<u8>`, which allows for a sign `+` -/
def parseU8 : List UInt8 → Except String UInt8
  | [] => .error "cannot parse integer from empty string"
  | [c] => if c = 43 ∨ c = 45 then .error "invalid digit found in string" else readDecimal 0 [c]
  | c :: rest => if c = 43 then readDecimal 0 rest else readDecimal 0 (c :: rest)

def Mdns.parseHopsFromTxt (entries : List String) : Except DiscoveryError UInt8 :=
  match findTxtValue entries "hops" with
  | none => .ok 255
  | some s =>
    match parseU8 s with
    | .error e => .error (.invalidTxtRecord s!"Invalid hops value: {e}")
    | .ok hops => .ok hops

structure DiscoveredPeer (Addr : Type) where
  pubkey : Bytes 32
  address : Addr
  port : UInt16
  hopsToRelay : UInt8
  deriving DecidableEq

def Mdns.parseResolvedService (hexDecode : List UInt8 → Except String (List UInt8))
    (txtEntry : String × String → String) (localhost : Addr) (info : ServiceInfo Addr) :
    Except DiscoveryError (DiscoveredPeer Addr) :=
  let txt := info.properties.map txtEntry
  match Mdns.parsePubkeyFromTxt hexDecode txt with
  | .error e => .error e
  | .ok pubkey =>
    match Mdns.parseHopsFromTxt txt with
    | .error e => .error e
    | .ok hops => .ok ⟨pubkey, info.addresses.headD localhost, info.port, hops⟩

end Services

/-! ### What is read -/

theorem EncodesHex.utf8Bytes_eq {hexEncode : List UInt8 → String} (h : EncodesHex hexEncode)
    (bytes : List UInt8) : utf8Bytes (hexEncode bytes) = Hex.encode bytes := by
  rw [h.eq]
  exact Hex.toByteArray_asciiText (Hex.ascii_encode bytes)

/-- The display id of an identity is its key in the same digits. -/
theorem displayId_new (pubkey : Bytes 32) :
    (PeerIdentity.new pubkey).displayId = Hex.asciiText (Hex.encode pubkey.toList) := by
  have hdigit : ∀ d < 16, hexDigit d = Char.ofNat (Hex.digitOf d).toNat := by decide
  show hexDisplay pubkey.toList = _
  unfold hexDisplay Hex.asciiText Hex.encode
  rw [List.map_flatMap]
  refine congrArg String.ofList (List.flatMap_congr fun b _ => ?_)
  have hb := b.toNat_lt
  rw [hdigit _ (by omega), hdigit _ (by omega)]
  rfl

theorem utf8Bytes_append (s t : String) : utf8Bytes (s ++ t) = utf8Bytes s ++ utf8Bytes t := by
  unfold utf8Bytes
  rw [String.toByteArray_append]
  simp

/-- A byte in decimal is read back. -/
theorem parseU8_toString (n : UInt8) : parseU8 (utf8Bytes (toString n.toNat)) = .ok n := by
  have hall : ∀ n : Fin 256, parseU8 (utf8Bytes (toString n.val)) = .ok (UInt8.ofNat n) := by
    decide +kernel
  have hn := hall ⟨n.toNat, n.toNat_lt⟩
  rwa [UInt8.ofNat_toNat] at hn

/-- The entry of a key is found wherever it stands, if no other entry starts like it. -/
theorem findTxtValue_of_unique {entries : List String} {key entry : String} {value : List UInt8}
    (hentry : entry ∈ entries) (hvalue : utf8Bytes entry = utf8Bytes (key ++ "=") ++ value)
    (hunique : ∀ e ∈ entries, startsWith e (key ++ "=") = true → e = entry) :
    findTxtValue entries key = some value := by
  have hstarts : startsWith entry (key ++ "=") = true := startsWith_iff.2 ⟨value, hvalue⟩
  unfold findTxtValue
  dsimp only
  cases hfind : entries.find? fun entry => startsWith entry (key ++ "=") with
  | none => exact absurd hstarts (List.find?_eq_none.1 hfind entry hentry)
  | some found =>
    have hfound : startsWith found (key ++ "=") = true := by simpa using List.find?_some hfind
    obtain rfl := hunique found (List.mem_of_find?_eq_some hfind) hfound
    exact stripPrefix_eq_some_iff.2 hvalue

theorem findTxtValue_of_absent {entries : List String} {key : String}
    (h : ∀ e ∈ entries, startsWith e (key ++ "=") = false) : findTxtValue entries key = none := by
  unfold findTxtValue
  dsimp only
  rw [List.find?_eq_none.2 fun e he => by simp [h e he]]
  rfl

/-- Entries of other keys do not start like the entry of a key. -/
theorem WritesEntries.startsWith_ne {txtEntry : String × String → String}
    (h : WritesEntries txtEntry) {k v key : String} {a b : UInt8}
    (hk : (utf8Bytes k).head? = some a) (hkey : (utf8Bytes key).head? = some b) (hne : a ≠ b) :
    startsWith (txtEntry (k, v)) (key ++ "=") = false := by
  by_contra hstarts
  obtain ⟨value, hvalue⟩ := startsWith_iff.1 (Bool.of_not_eq_false hstarts)
  rw [h.eq] at hvalue
  have hhead := congrArg List.head? hvalue
  rw [utf8Bytes_append, utf8Bytes_append, utf8Bytes_append, List.append_assoc, List.append_assoc,
    List.head?_append, List.head?_append, List.head?_append, hk, hkey] at hhead
  exact hne (Option.some.inj hhead)

theorem WritesEntries.utf8Bytes_eq {txtEntry : String × String → String}
    (h : WritesEntries txtEntry) (key value : String) :
    utf8Bytes (txtEntry (key, value)) = utf8Bytes (key ++ "=") ++ utf8Bytes value := by
  rw [h.eq]
  exact utf8Bytes_append _ _

section ReadBack

variable {Addr : Type} {hexDecode : List UInt8 → Except String (List UInt8)}
  {hexEncode : List UInt8 → String} {txtEntry : String × String → String}

/-- Both parsers read the key, wherever its entry stands. -/
theorem parsePubkeyFromTxt_of_entry (h : DecodesHex hexDecode) {entries : List String}
    {pubkey : Bytes 32}
    (hvalue : findTxtValue entries "pubkey" = some (Hex.encode pubkey.toList)) :
    Mdns.parsePubkeyFromTxt hexDecode entries = .ok pubkey ∧
      MdnsScanner.parsePubkeyFromTxt entries = .ok pubkey := by
  have hfirst := findTxtValue_eq_some_iff.1 hvalue
  have hlength : (Hex.encode pubkey.toList).length = 64 := by
    rw [Hex.length_encode, pubkey.toList_length]
  have hdecode := Hex.decode_encode pubkey.toList
  exact ⟨(Mdns.parsePubkeyFromTxt_eq_ok_iff h).2 ⟨_, hfirst, hlength, hdecode⟩,
    MdnsScanner.parsePubkeyFromTxt_eq_ok_iff.2 ⟨_, hfirst, hlength, parsed_of_decode hdecode⟩⟩

/-- An advertisement of `mdns.rs`, in any order of its entries. -/
theorem read_advertise (h : DecodesHex hexDecode) (hencode : EncodesHex hexEncode)
    (hentry : WritesEntries txtEntry) (localhost unspecified : Addr)
    (pubkey : Bytes 32) (port : UInt16) (hops : UInt8) {info : ServiceInfo Addr}
    (hinfo : info.properties.Perm
      (Mdns.advertise hexEncode unspecified pubkey port hops).properties) :
    Mdns.parseResolvedService hexDecode txtEntry localhost info =
        .ok ⟨pubkey, info.addresses.headD localhost, info.port, hops⟩ ∧
      MdnsScanner.parsePubkeyFromTxt (info.properties.map txtEntry) = .ok pubkey := by
  have hmem : ∀ e, e ∈ info.properties.map txtEntry ↔
      e = txtEntry ("pubkey", hexEncode pubkey.toList) ∨
        e = txtEntry ("hops", toString hops.toNat) ∨ e = txtEntry ("version", "1") := by
    intro e
    rw [(hinfo.map txtEntry).mem_iff]
    simp [Mdns.advertise]
  have hpubkey : findTxtValue (info.properties.map txtEntry) "pubkey" =
      some (Hex.encode pubkey.toList) := by
    rw [← hencode.utf8Bytes_eq]
    refine findTxtValue_of_unique ((hmem _).2 (.inl rfl)) (hentry.utf8Bytes_eq _ _) ?_
    intro e he hstarts
    rcases (hmem e).1 he with rfl | rfl | rfl
    · rfl
    · rw [hentry.startsWith_ne (a := 104) (b := 112) rfl rfl (by decide)] at hstarts
      cases hstarts
    · rw [hentry.startsWith_ne (a := 118) (b := 112) rfl rfl (by decide)] at hstarts
      cases hstarts
  have hhops : findTxtValue (info.properties.map txtEntry) "hops" =
      some (utf8Bytes (toString hops.toNat)) := by
    refine findTxtValue_of_unique ((hmem _).2 (.inr (.inl rfl))) (hentry.utf8Bytes_eq _ _) ?_
    intro e he hstarts
    rcases (hmem e).1 he with rfl | rfl | rfl
    · rw [hentry.startsWith_ne (a := 112) (b := 104) rfl rfl (by decide)] at hstarts
      cases hstarts
    · rfl
    · rw [hentry.startsWith_ne (a := 118) (b := 104) rfl rfl (by decide)] at hstarts
      cases hstarts
  obtain ⟨hmdns, hscanner⟩ := parsePubkeyFromTxt_of_entry h hpubkey
  refine ⟨?_, hscanner⟩
  unfold Mdns.parseResolvedService Mdns.parseHopsFromTxt
  dsimp only
  rw [hmdns, hhops]
  dsimp only
  rw [parseU8_toString]

/-- An advertisement of `wifi_direct.rs`, in any order of its entries. -/
theorem read_start (h : DecodesHex hexDecode) (hentry : WritesEntries txtEntry)
    (localhost : Addr) (port : UInt16) (pubkey : Bytes 32) (isRelay : Bool)
    {info : ServiceInfo Addr}
    (hinfo : info.properties.Perm
      (MdnsAdvertiser.start localhost port (.new pubkey) isRelay).properties) :
    Mdns.parseResolvedService hexDecode txtEntry localhost info =
        .ok ⟨pubkey, info.addresses.headD localhost, info.port, 255⟩ ∧
      MdnsScanner.parsePubkeyFromTxt (info.properties.map txtEntry) = .ok pubkey := by
  have hmem : ∀ e, e ∈ info.properties.map txtEntry ↔
      e = txtEntry ("pubkey", Hex.asciiText (Hex.encode pubkey.toList)) ∨
        e = txtEntry ("is_relay", if isRelay then "1" else "0") := by
    intro e
    rw [(hinfo.map txtEntry).mem_iff]
    simp [MdnsAdvertiser.start, displayId_new]
  have hpubkey : findTxtValue (info.properties.map txtEntry) "pubkey" =
      some (Hex.encode pubkey.toList) := by
    have hdigits : utf8Bytes (Hex.asciiText (Hex.encode pubkey.toList)) =
        Hex.encode pubkey.toList := Hex.toByteArray_asciiText (Hex.ascii_encode _)
    rw [← hdigits]
    refine findTxtValue_of_unique ((hmem _).2 (.inl rfl)) (hentry.utf8Bytes_eq _ _) ?_
    intro e he hstarts
    rcases (hmem e).1 he with rfl | rfl
    · rfl
    · rw [hentry.startsWith_ne (a := 105) (b := 112) rfl rfl (by decide)] at hstarts
      cases hstarts
  have hhops : findTxtValue (info.properties.map txtEntry) "hops" = none := by
    apply findTxtValue_of_absent
    intro e he
    rcases (hmem e).1 he with rfl | rfl
    · exact hentry.startsWith_ne (a := 112) (b := 104) rfl rfl (by decide)
    · exact hentry.startsWith_ne (a := 105) (b := 104) rfl rfl (by decide)
  obtain ⟨hmdns, hscanner⟩ := parsePubkeyFromTxt_of_entry h hpubkey
  refine ⟨?_, hscanner⟩
  unfold Mdns.parseResolvedService Mdns.parseHopsFromTxt
  dsimp only
  rw [hmdns, hhops]

end ReadBack

/-- **Announcements are read back.**  Both scanners of services read the key of both kinds of
announcements, in any order of the entries; the number of hops is read of an announcement of
`mdns.rs`, and a node that `wifi_direct.rs` announces is 255 hops away, relay or not.  A BLE
advertisement is decoded to the key and the flag that went into it. -/
theorem announcements_read_back {Addr : Type} (hexDecode : List UInt8 → Except String (List UInt8))
    (hdecode : DecodesHex hexDecode) (hexEncode : List UInt8 → String)
    (hencode : EncodesHex hexEncode) (txtEntry : String × String → String)
    (hentry : WritesEntries txtEntry) (localhost unspecified : Addr) :
    (∀ (pubkey : Bytes 32) (port : UInt16) (hops : UInt8) (info : ServiceInfo Addr),
      info.properties.Perm (Mdns.advertise hexEncode unspecified pubkey port hops).properties →
        Mdns.parseResolvedService hexDecode txtEntry localhost info =
            .ok ⟨pubkey, info.addresses.headD localhost, info.port, hops⟩ ∧
          MdnsScanner.parsePubkeyFromTxt (info.properties.map txtEntry) = .ok pubkey) ∧
    (∀ (pubkey : Bytes 32) (port : UInt16) (isRelay : Bool) (info : ServiceInfo Addr),
      info.properties.Perm (MdnsAdvertiser.start localhost port (.new pubkey) isRelay).properties →
        Mdns.parseResolvedService hexDecode txtEntry localhost info =
            .ok ⟨pubkey, info.addresses.headD localhost, info.port, 255⟩ ∧
          MdnsScanner.parsePubkeyFromTxt (info.properties.map txtEntry) = .ok pubkey) ∧
    ∀ (identity : PeerIdentity) (isRelay : Bool) (rest : List UInt8),
      ∃ payload, BleAdvertisementPayload.decode
          ((BleAdvertiser.start identity isRelay).buildPayload.encode ++ rest) = some payload ∧
        payload.pubkey = identity.pubkey ∧ payload.isRelay = isRelay ∧
          payload.hasWifiDirect = false := by
  refine ⟨fun pubkey port hops info hinfo =>
      read_advertise hdecode hencode hentry localhost unspecified pubkey port hops hinfo,
    fun pubkey port isRelay info hinfo =>
      read_start hdecode hentry localhost port pubkey isRelay hinfo,
    fun identity isRelay rest => ?_⟩
  obtain ⟨hrelay, hwifiDirect⟩ :=
    BleAdvertisementPayload.isRelay_buildCaps identity.pubkey isRelay false
  exact ⟨_, BleAdvertisementPayload.decode_encode_append _ rest, rfl, hrelay, hwifiDirect⟩

/-- A relay three hops away, of which the entries have come in another order. -/
theorem announcements_read_back_sample :
    let hexEncode (bytes : List UInt8) : String := Hex.asciiText (Hex.encode bytes)
    let txtEntry (property : String × String) : String := property.1 ++ "=" ++ property.2
    let pubkey : Bytes 32 := List.Vector.replicate 32 0xab
    let sent := Mdns.advertise hexEncode () pubkey 8080 3
    let info := { sent with properties := sent.properties.reverse }
    Mdns.parseResolvedService decodeData txtEntry () info = .ok ⟨pubkey, (), 8080, 3⟩ ∧
      MdnsScanner.parsePubkeyFromTxt (info.properties.map txtEntry) = .ok pubkey := by
  intro hexEncode txtEntry pubkey sent info
  obtain ⟨hservices, -, -⟩ := announcements_read_back decodeData decodesHex_decodeData hexEncode
    ⟨fun _ => rfl⟩ txtEntry ⟨fun _ _ => rfl⟩ () ()
  exact hservices pubkey 8080 3 info (List.reverse_perm _)

end StellarConduit
