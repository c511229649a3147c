import StellarConduit.Lib.Hex
import StellarConduit.Message.Types

/-!
# Public keys in TXT records

The two functions of the name `parse_pubkey_from_txt`, in `discovery/mdns.rs` and in
`discovery/wifi_direct.rs`.  A string is its UTF-8 bytes.  The crate `hex` is a parameter.

* `Mdns.parsePubkeyFromTxt`, `MdnsScanner.parsePubkeyFromTxt`;
* `parseHexByte_eq_ok_iff`: which pairs of bytes `from_str_radix` takes for a byte: two digits, or a
  sign and a digit;
* `parsers_agree_iff`: the parsers agree unless there is a sign.
-/

namespace StellarConduit

open Verif

inductive DiscoveryError
  | invalidTxtRecord (message : String)
  deriving DecidableEq

/-- `str::starts_with` -/
def startsWith (entry start : String) : Bool := (utf8Bytes start).isPrefixOf (utf8Bytes entry)

/-- `str::strip_prefix` -/
def stripPrefix (entry start : String) : Option (List UInt8) :=
  if startsWith entry start then some ((utf8Bytes entry).drop (utf8Bytes start).length) else none

/-! ### `mdns.rs` -/

def findTxtValue (entries : List String) (key : String) : Option (List UInt8) :=
  let start := key ++ "="
  (entries.find? fun entry => startsWith entry start).bind fun entry => stripPrefix entry start

/-- `hex::decode`, of which the errors are left open -/
structure DecodesHex (hexDecode : List UInt8 → Except String (List UInt8)) : Prop where
  eq_ok_iff : ∀ data bytes, hexDecode data = .ok bytes ↔ Hex.decode data = some bytes

def Mdns.parsePubkeyFromTxt (hexDecode : List UInt8 → Except String (List UInt8))
    (entries : List String) : Except DiscoveryError (Bytes 32) :=
  match findTxtValue entries "pubkey" with
  | none => .error (.invalidTxtRecord "Missing pubkey TXT record")
  | some hexStr =>
    if hexStr.length ≠ 64 then
      .error (.invalidTxtRecord s!"Pubkey hex must be 64 characters, got {hexStr.length}")
    else
      match hexDecode hexStr with
      | .error e => .error (.invalidTxtRecord s!"Invalid hex pubkey: {e}")
      | .ok bytes =>
        if h : bytes.length = 32 then .ok ⟨bytes, h⟩
        else .error (.invalidTxtRecord "Pubkey must be exactly 32 bytes")

/-! ### `wifi_direct.rs` -/

/-- `Utf8Error` -/
structure Utf8Error where
  validUpTo : ℕ
  errorLen : Option ℕ
  deriving DecidableEq

def Utf8Error.message (e : Utf8Error) : String :=
  match e.errorLen with
  | some errorLen => s!"invalid utf-8 sequence of {errorLen} bytes from index {e.validUpTo}"
  | none => s!"incomplete utf-8 byte sequence from index {e.validUpTo}"

/-- A byte that continues a character. -/
def isContinuation (b : UInt8) : Bool := decide (0x80 ≤ b ∧ b ≤ 0xbf)

/-- The second bytes of characters of three bytes. -/
def isSecondOfThree (first b : UInt8) : Bool :=
  decide (0xe0 = first ∧ 0xa0 ≤ b ∧ b ≤ 0xbf ∨ 0xe1 ≤ first ∧ first ≤ 0xec ∧ 0x80 ≤ b ∧ b ≤ 0xbf ∨
    0xed = first ∧ 0x80 ≤ b ∧ b ≤ 0x9f ∨ 0xee ≤ first ∧ first ≤ 0xef ∧ 0x80 ≤ b ∧ b ≤ 0xbf)

/-- The second bytes of characters of four bytes. -/
def isSecondOfFour (first b : UInt8) : Bool :=
  decide (0xf0 = first ∧ 0x90 ≤ b ∧ b ≤ 0xbf ∨ 0xf1 ≤ first ∧ first ≤ 0xf3 ∧ 0x80 ≤ b ∧ b ≤ 0xbf ∨
    0xf4 = first ∧ 0x80 ≤ b ∧ b ≤ 0x8f)

/-- The error of `str::from_utf8`, if the bytes from some position on are not valid. -/
def utf8Error (pos : ℕ) : List UInt8 → Option Utf8Error
  | [] => none
  | first :: rest =>
    if first < 0x80 then utf8Error (pos + 1) rest
    else if 0xc2 ≤ first ∧ first ≤ 0xdf then
      match rest with
      | [] => some ⟨pos, none⟩
      | b₁ :: rest => if isContinuation b₁ then utf8Error (pos + 2) rest else some ⟨pos, some 1⟩
    else if 0xe0 ≤ first ∧ first ≤ 0xef then
      match rest with
      | [] => some ⟨pos, none⟩
      | [b₁] => some ⟨pos, if isSecondOfThree first b₁ then none else some 1⟩
      | b₁ :: b₂ :: rest =>
        if !isSecondOfThree first b₁ then some ⟨pos, some 1⟩
        else if isContinuation b₂ then utf8Error (pos + 3) rest
        else some ⟨pos, some 2⟩
    else if 0xf0 ≤ first ∧ first ≤ 0xf4 then
      match rest with
      | [] => some ⟨pos, none⟩
      | [b₁] => some ⟨pos, if isSecondOfFour first b₁ then none else some 1⟩
      | [b₁, b₂] =>
        some ⟨pos, if !isSecondOfFour first b₁ then some 1
          else if isContinuation b₂ then none else some 2⟩
      | b₁ :: b₂ :: b₃ :: rest =>
        if !isSecondOfFour first b₁ then some ⟨pos, some 1⟩
        else if !isContinuation b₂ then some ⟨pos, some 2⟩
        else if isContinuation b₃ then utf8Error (pos + 4) rest
        else some ⟨pos, some 3⟩
    else some ⟨pos, some 1⟩

/-- The digits that `from_str_radix` reads into a byte, after those that come to `value`. -/
def readDigits (value : ℕ) : List UInt8 → Except String UInt8
  | [] => .ok (UInt8.ofNat value)
  | c :: rest =>
    match Hex.digit c with
    | none => .error "invalid digit found in string"
    | some d =>
      if 16 * value + d > 255 then .error "number too large to fit in target type"
      else readDigits (16 * value + d) rest

/-- `u8::from_str_radix` for the radix 16, which allows for a sign `+` -/
def fromStrRadix16 : List UInt8 → Except String UInt8
  | [] => .error "cannot parse integer from empty string"
  | [c] =>
    if c = 43 ∨ c = 45 then .error "invalid digit found in string" else readDigits 0 [c]
  | c :: rest => if c = 43 then readDigits 0 rest else readDigits 0 (c :: rest)

def parseHexByte (chunk : List UInt8) : Except DiscoveryError UInt8 :=
  match utf8Error 0 chunk with
  | some e => .error (.invalidTxtRecord s!"Invalid hex string: {e.message}")
  | none =>
    match fromStrRadix16 chunk with
    | .error e => .error (.invalidTxtRecord s!"Invalid hex byte: {e}")
    | .ok b => .ok b

/-- `chunks(2)` -/
def pairs : List UInt8 → List (List UInt8)
  | [] => []
  | [c] => [[c]]
  | hi :: lo :: rest => [hi, lo] :: pairs rest

/-- The loop that fills the key, from position `i` on. -/
def fillPubkey (i : ℕ) (pubkey : Bytes 32) : List (List UInt8) → Except DiscoveryError (Bytes 32)
  | [] => .ok pubkey
  | chunk :: chunks =>
    if h : i < 32 then
      match parseHexByte chunk with
      | .error e => .error e
      | .ok b => fillPubkey (i + 1) (pubkey.set ⟨i, h⟩ b) chunks
    else .ok pubkey

def MdnsScanner.parsePubkeyFromTxt (txtProps : List String) : Except DiscoveryError (Bytes 32) :=
  match txtProps.find? fun prop => startsWith prop "pubkey=" with
  | none => .error (.invalidTxtRecord "Missing pubkey TXT record")
  | some prop =>
    match stripPrefix prop "pubkey=" with
    | none => .error (.invalidTxtRecord "Malformed pubkey TXT record")
    | some pubkeyStr =>
      if pubkeyStr.length ≠ 64 then
        .error (.invalidTxtRecord
          s!"Pubkey hex string must be 64 characters, got {pubkeyStr.length}")
      else fillPubkey 0 (List.Vector.replicate 32 0) (pairs pubkeyStr)

/-! ### The entry of the key -/

theorem startsWith_iff {entry start : String} :
    startsWith entry start = true ↔ ∃ value, utf8Bytes entry = utf8Bytes start ++ value := by
  unfold startsWith
  rw [List.isPrefixOf_iff_prefix]
  exact exists_congr fun value => eq_comm

theorem stripPrefix_eq_some_iff {entry start : String} {value : List UInt8} :
    stripPrefix entry start = some value ↔ utf8Bytes entry = utf8Bytes start ++ value := by
  unfold stripPrefix
  rw [Option.ite_none_right_eq_some, startsWith_iff]
  constructor
  · rintro ⟨⟨value', hentry⟩, hvalue⟩
    rw [hentry, List.drop_left, Option.some.injEq] at hvalue
    rw [hentry, hvalue]
  · intro hentry
    exact ⟨⟨value, hentry⟩, by rw [hentry, List.drop_left]⟩

/-- The first entry that starts with `pubkey=` goes on with `value`. -/
def FirstPubkey (entries : List String) (value : List UInt8) : Prop :=
  ∃ before entry after, entries = before ++ entry :: after ∧
    (∀ e ∈ before, startsWith e "pubkey=" = false) ∧
      utf8Bytes entry = utf8Bytes "pubkey=" ++ value

theorem findTxtValue_eq_some_iff {entries : List String} {value : List UInt8} :
    findTxtValue entries "pubkey" = some value ↔ FirstPubkey entries value := by
  have hkey : "pubkey" ++ "=" = "pubkey=" := by decide
  unfold findTxtValue FirstPubkey
  rw [hkey]
  dsimp only
  rw [Option.bind_eq_some_iff]
  constructor
  · rintro ⟨entry, hfind, hstrip⟩
    obtain ⟨-, before, after, hsplit, hbefore⟩ := List.find?_eq_some_iff_append.1 hfind
    refine ⟨before, entry, after, hsplit, fun e he => ?_, stripPrefix_eq_some_iff.1 hstrip⟩
    simpa using hbefore e he
  · rintro ⟨before, entry, after, hsplit, hbefore, hentry⟩
    refine ⟨entry, List.find?_eq_some_iff_append.2 ⟨startsWith_iff.2 ⟨value, hentry⟩, before, after,
      hsplit, fun e he => ?_⟩, stripPrefix_eq_some_iff.2 hentry⟩
    simpa using hbefore e he

/-- The parser of `wifi_direct.rs` looks at the same entry as the other. -/
theorem parsePubkeyFromTxt_eq (entries : List String) :
    MdnsScanner.parsePubkeyFromTxt entries =
      match findTxtValue entries "pubkey" with
      | none => .error (.invalidTxtRecord "Missing pubkey TXT record")
      | some pubkeyStr =>
        if pubkeyStr.length ≠ 64 then
          .error (.invalidTxtRecord
            s!"Pubkey hex string must be 64 characters, got {pubkeyStr.length}")
        else fillPubkey 0 (List.Vector.replicate 32 0) (pairs pubkeyStr) := by
  have hkey : "pubkey" ++ "=" = "pubkey=" := by decide
  unfold MdnsScanner.parsePubkeyFromTxt findTxtValue
  rw [hkey]
  dsimp only
  cases hfind : entries.find? fun prop => startsWith prop "pubkey=" with
  | none => rfl
  | some prop =>
    have hstarts : startsWith prop "pubkey=" = true := by simpa using List.find?_some hfind
    obtain ⟨value, hprop⟩ := startsWith_iff.1 hstarts
    dsimp only [Option.bind_some]
    rw [stripPrefix_eq_some_iff.2 hprop]

/-! ### The bytes of the key -/

/-- Digits are valid UTF-8. -/
theorem utf8Error_of_lt {bytes : List UInt8} (h : ∀ b ∈ bytes, b < 128) (pos : ℕ) :
    utf8Error pos bytes = none := by
  induction bytes generalizing pos with
  | nil => rfl
  | cons b bytes ih =>
    rw [List.forall_mem_cons] at h
    unfold utf8Error
    rw [if_pos h.1]
    exact ih h.2 (pos + 1)

theorem readDigits_cons_eq_ok_iff {value : ℕ} {c b : UInt8} {rest : List UInt8} :
    readDigits value (c :: rest) = .ok b ↔
      ∃ d, Hex.digit c = some d ∧ 16 * value + d ≤ 255 ∧
        readDigits (16 * value + d) rest = .ok b := by
  rw [readDigits]
  cases Hex.digit c with
  | none => simp
  | some d =>
    dsimp only
    split_ifs with hlarge
    · simp [Nat.not_le.2 hlarge]
    · simp [Nat.not_lt.1 hlarge]

theorem readDigits_one_eq_ok_iff {c b : UInt8} :
    readDigits 0 [c] = .ok b ↔ ∃ d, Hex.digit c = some d ∧ b = UInt8.ofNat d := by
  rw [readDigits_cons_eq_ok_iff]
  refine exists_congr fun d => and_congr_right fun hd => ?_
  have hlt := (Hex.digit_lt hd).1
  rw [Nat.mul_zero, Nat.zero_add, and_iff_right (by omega), readDigits, Except.ok.injEq, eq_comm]

theorem readDigits_two_eq_ok_iff {hi lo b : UInt8} :
    readDigits 0 [hi, lo] = .ok b ↔
      ∃ h l, Hex.digit hi = some h ∧ Hex.digit lo = some l ∧ b = UInt8.ofNat (16 * h + l) := by
  rw [readDigits_cons_eq_ok_iff]
  refine exists_congr fun h => ?_
  constructor
  · rintro ⟨hh, -, hrest⟩
    obtain ⟨l, hl, -, hb⟩ := readDigits_cons_eq_ok_iff.1 hrest
    rw [readDigits, Except.ok.injEq] at hb
    exact ⟨l, hh, hl, by rw [← hb, Nat.mul_zero, Nat.zero_add]⟩
  · rintro ⟨l, hh, hl, rfl⟩
    have hlt := (Hex.digit_lt hh).1
    have hlt' := (Hex.digit_lt hl).1
    refine ⟨hh, by omega, readDigits_cons_eq_ok_iff.2 ⟨l, hl, by omega, ?_⟩⟩
    rw [readDigits, Nat.mul_zero, Nat.zero_add]

theorem parseHexByte_eq_ok_iff_radix {chunk : List UInt8} {b : UInt8} :
    parseHexByte chunk = .ok b ↔ utf8Error 0 chunk = none ∧ fromStrRadix16 chunk = .ok b := by
  unfold parseHexByte
  cases utf8Error 0 chunk with
  | some e => simp
  | none => cases fromStrRadix16 chunk <;> simp

/-- **Bytes in the eyes of `from_str_radix`.**  Two digits, or a sign and a digit. -/
theorem parseHexByte_eq_ok_iff {hi lo b : UInt8} :
    parseHexByte [hi, lo] = .ok b ↔
      (∃ h l, Hex.digit hi = some h ∧ Hex.digit lo = some l ∧ b = UInt8.ofNat (16 * h + l)) ∨
        hi = 43 ∧ ∃ l, Hex.digit lo = some l ∧ b = UInt8.ofNat l := by
  have hsign : Hex.digit 43 = none := by decide
  have ascii : ∀ {hi lo : UInt8}, hi < 128 → lo < 128 → utf8Error 0 [hi, lo] = none := by
    intro hi lo hhi hlo
    refine utf8Error_of_lt ?_ 0
    rw [List.forall_mem_cons, List.forall_mem_singleton]
    exact ⟨hhi, hlo⟩
  have hradix : fromStrRadix16 [hi, lo] =
      if hi = 43 then readDigits 0 [lo] else readDigits 0 [hi, lo] := rfl
  -- The parser of integers takes a leading plus sign (43), which leaves one digit.
  rw [parseHexByte_eq_ok_iff_radix, hradix]
  split_ifs with hhi
  · subst hhi
    rw [readDigits_one_eq_ok_iff, hsign]
    constructor
    · rintro ⟨-, l, hl, rfl⟩
      exact Or.inr ⟨rfl, l, hl, rfl⟩
    · rintro (⟨_, _, hnone, -⟩ | ⟨-, l, hl, rfl⟩)
      · cases hnone
      · exact ⟨ascii (by decide) (Hex.digit_lt hl).2, l, hl, rfl⟩
  · rw [readDigits_two_eq_ok_iff]
    constructor
    · rintro ⟨-, hdigits⟩
      exact Or.inl hdigits
    · rintro (⟨h, l, hh, hl, rfl⟩ | ⟨hsigned, -⟩)
      · exact ⟨ascii (Hex.digit_lt hh).2 (Hex.digit_lt hl).2, h, l, hh, hl, rfl⟩
      · exact absurd hsigned hhi

/-- The chunks are taken for these bytes. -/
abbrev Parsed (chunks : List (List UInt8)) (bytes : List UInt8) : Prop :=
  List.Forall₂ (fun chunk b => parseHexByte chunk = .ok b) chunks bytes

/-- The loop fills the key with the bytes of the chunks. -/
theorem fillPubkey_eq_ok_iff {chunks : List (List UInt8)} {i : ℕ} {pubkey key : Bytes 32}
    (h : i + chunks.length = 32) :
    fillPubkey i pubkey chunks = .ok key ↔
      ∃ bytes, Parsed chunks bytes ∧ key.toList = pubkey.toList.take i ++ bytes := by
  induction chunks generalizing i pubkey with
  | nil =>
    obtain rfl : i = 32 := h
    have htake : pubkey.toList.take 32 = pubkey.toList :=
      List.take_of_length_le (by rw [pubkey.toList_length])
    rw [fillPubkey, Except.ok.injEq, htake]
    constructor
    · rintro rfl
      exact ⟨[], .nil, (List.append_nil _).symm⟩
    · rintro ⟨bytes, hparsed, hkey⟩
      cases hparsed
      rw [List.append_nil] at hkey
      exact (List.Vector.toList_injective hkey).symm
  | cons chunk chunks ih =>
    rw [List.length_cons] at h
    have hi : i < 32 := by omega
    rw [fillPubkey, dif_pos hi]
    cases hchunk : parseHexByte chunk with
    | error e =>
      constructor
      · intro herror
        cases herror
      · rintro ⟨bytes, hparsed, -⟩
        cases hparsed with
        | cons hfirst _ =>
          rw [hchunk] at hfirst
          cases hfirst
    | ok b =>
      -- The rest of the key is still to be written, so only the bytes up to `i` count.
      have htake : (pubkey.set ⟨i, hi⟩ b).toList.take (i + 1) = pubkey.toList.take i ++ [b] := by
        have hlength : i < (pubkey.toList.set i b).length := by
          rw [List.length_set, pubkey.toList_length]
          exact hi
        rw [List.Vector.toList_set, List.take_succ_eq_append_getElem hlength,
          List.take_set_of_le (Nat.le_refl i), List.getElem_set_self]
      dsimp only
      rw [ih (by omega), htake]
      constructor
      · rintro ⟨bytes, hparsed, hkey⟩
        exact ⟨b :: bytes, .cons hchunk hparsed, by rw [hkey]; simp⟩
      · rintro ⟨bytes, hparsed, hkey⟩
        cases hparsed with
        | cons hfirst hrest =>
          rw [hchunk] at hfirst
          cases hfirst
          exact ⟨_, hrest, by rw [hkey]; simp⟩

theorem length_pairs {value : List UInt8} {n : ℕ} (h : value.length = 2 * n) :
    (pairs value).length = n := by
  induction value using pairs.induct generalizing n with
  | case1 =>
    rw [List.length_nil] at h
    show 0 = n
    omega
  | case2 c =>
    rw [List.length_singleton] at h
    omega
  | case3 hi lo rest ih =>
    rw [List.length_cons, List.length_cons] at h
    rw [pairs, List.length_cons, ih (show rest.length = 2 * (n - 1) by omega)]
    omega

/-- Pairs of digits, of which the first may be a sign. -/
def SignedPairs : List UInt8 → Prop
  | [] => True
  | [_] => False
  | hi :: lo :: rest =>
    ((Hex.digit hi).isSome ∨ hi = 43) ∧ (Hex.digit lo).isSome ∧ SignedPairs rest

/-- What is decoded is parsed in the same way. -/
theorem parsed_of_decode {value bytes : List UInt8} (h : Hex.decode value = some bytes) :
    Parsed (pairs value) bytes := by
  induction value using pairs.induct generalizing bytes with
  | case1 =>
    cases h
    exact .nil
  | case2 c => cases h
  | case3 hi lo rest ih =>
    obtain ⟨x, y, tail, hx, hy, htail, rfl⟩ := Hex.decode_cons_cons_eq_some_iff.1 h
    exact .cons (parseHexByte_eq_ok_iff.2 (Or.inl ⟨x, y, hx, hy, rfl⟩)) (ih htail)

/-- What is parsed are pairs that may be signed. -/
theorem exists_parsed_iff {value : List UInt8} (heven : value.length % 2 = 0) :
    (∃ bytes, Parsed (pairs value) bytes) ↔ SignedPairs value := by
  induction value using pairs.induct with
  | case1 => exact iff_of_true ⟨[], .nil⟩ trivial
  | case2 c => cases heven
  | case3 hi lo rest ih =>
    rw [List.length_cons, List.length_cons, Nat.add_assoc, Nat.add_mod_right] at heven
    rw [SignedPairs, ← ih heven]
    constructor
    · rintro ⟨_, hparsed⟩
      cases hparsed with
      | cons hfirst hrest =>
        rcases parseHexByte_eq_ok_iff.1 hfirst with ⟨x, y, hx, hy, -⟩ | ⟨hsigned, y, hy, -⟩
        · exact ⟨Or.inl (by rw [hx]; rfl), by rw [hy]; rfl, _, hrest⟩
        · exact ⟨Or.inr hsigned, by rw [hy]; rfl, _, hrest⟩
    · rintro ⟨hfirst, hlo, bytes, hrest⟩
      obtain ⟨y, hy⟩ := Option.isSome_iff_exists.1 hlo
      rcases hfirst with hhi | hsigned
      · obtain ⟨x, hx⟩ := Option.isSome_iff_exists.1 hhi
        exact ⟨_, .cons (parseHexByte_eq_ok_iff.2 (Or.inl ⟨x, y, hx, hy, rfl⟩)) hrest⟩
      · exact ⟨_, .cons (parseHexByte_eq_ok_iff.2 (Or.inr ⟨hsigned, y, hy, rfl⟩)) hrest⟩

/-- Without a sign, pairs are digits. -/
theorem digits_of_signedPairs {value : List UInt8} (h : SignedPairs value) (hsign : 43 ∉ value) :
    ∀ c ∈ value, (Hex.digit c).isSome = true := by
  induction value using pairs.induct with
  | case1 => simp
  | case2 c => exact h.elim
  | case3 hi lo rest ih =>
    obtain ⟨hhi, hlo, hrest⟩ := h
    simp only [List.mem_cons, not_or] at hsign
    rw [List.forall_mem_cons, List.forall_mem_cons]
    exact ⟨hhi.resolve_right (Ne.symm hsign.1), hlo, ih hrest hsign.2.2⟩

/-! ### The two parsers -/

section Parsers

variable {entries : List String} {key : Bytes 32}
  {hexDecode : List UInt8 → Except String (List UInt8)}

theorem MdnsScanner.parsePubkeyFromTxt_eq_ok_iff :
    MdnsScanner.parsePubkeyFromTxt entries = .ok key ↔
      ∃ value, FirstPubkey entries value ∧ value.length = 64 ∧
        Parsed (pairs value) key.toList := by
  rw [parsePubkeyFromTxt_eq]
  simp only [← findTxtValue_eq_some_iff]
  cases findTxtValue entries "pubkey" with
  | none => simp
  | some value =>
    simp only [Option.some.injEq, exists_eq_left']
    split_ifs with hlength
    · simp [hlength]
    · have hlength := not_not.1 hlength
      rw [fillPubkey_eq_ok_iff (by rw [length_pairs (show value.length = 2 * 32 from hlength)]),
        and_iff_right hlength]
      simp only [List.take_zero, List.nil_append, exists_eq_right']

theorem Mdns.parsePubkeyFromTxt_eq_ok_iff (h : DecodesHex hexDecode) :
    Mdns.parsePubkeyFromTxt hexDecode entries = .ok key ↔
      ∃ value, FirstPubkey entries value ∧ value.length = 64 ∧
        Hex.decode value = some key.toList := by
  unfold Mdns.parsePubkeyFromTxt
  simp only [← findTxtValue_eq_some_iff, ← h.eq_ok_iff]
  cases findTxtValue entries "pubkey" with
  | none => simp
  | some value =>
    simp only [Option.some.injEq, exists_eq_left']
    split_ifs with hlength
    · simp [hlength]
    · rw [and_iff_right (not_not.1 hlength)]
      cases hexDecode value with
      | error e => simp
      | ok bytes =>
        dsimp only
        split_ifs with hbytes
        · constructor
          · intro hkey
            cases hkey
            rfl
          · intro hkey
            cases hkey
            rfl
        · constructor
          · intro hkey
            cases hkey
          · intro hkey
            cases hkey
            exact absurd key.toList_length hbytes

/-- The first entry that starts with `pubkey=` goes on with 64 digits. -/
def HasHexPubkey (entries : List String) : Prop :=
  ∃ value, FirstPubkey entries value ∧ value.length = 64 ∧
    ∀ c ∈ value, (Hex.digit c).isSome = true

/-- The first entry that starts with `pubkey=` goes on with 32 pairs of digits, in which a sign
stands for the first digit of a pair. -/
def HasSignedPubkey (entries : List String) : Prop :=
  ∃ value, FirstPubkey entries value ∧ value.length = 64 ∧ SignedPairs value ∧ 43 ∈ value

/-- The parsers return the same key, or an error each. -/
def ParsersAgree (hexDecode : List UInt8 → Except String (List UInt8)) (entries : List String) :
    Prop :=
  (∃ key, MdnsScanner.parsePubkeyFromTxt entries = .ok key ∧
      Mdns.parsePubkeyFromTxt hexDecode entries = .ok key) ∨
    ∃ e e', MdnsScanner.parsePubkeyFromTxt entries = .error e ∧
      Mdns.parsePubkeyFromTxt hexDecode entries = .error e'

theorem Mdns.exists_eq_ok_iff (h : DecodesHex hexDecode) :
    (∃ key, Mdns.parsePubkeyFromTxt hexDecode entries = .ok key) ↔ HasHexPubkey entries := by
  simp only [Mdns.parsePubkeyFromTxt_eq_ok_iff h]
  constructor
  · rintro ⟨key, value, hfirst, hlength, hdecode⟩
    exact ⟨value, hfirst, hlength, (Hex.decode_isSome_iff.1 (by rw [hdecode]; rfl)).2⟩
  · rintro ⟨value, hfirst, hlength, hdigits⟩
    obtain ⟨bytes, hdecode⟩ := Option.isSome_iff_exists.1
      (Hex.decode_isSome_iff.2 ⟨by rw [hlength], hdigits⟩)
    have hbytes : bytes.length = 32 := by
      have := Hex.length_of_decode hdecode
      omega
    exact ⟨⟨bytes, hbytes⟩, value, hfirst, hlength, hdecode⟩

theorem MdnsScanner.exists_eq_ok_iff :
    (∃ key, MdnsScanner.parsePubkeyFromTxt entries = .ok key) ↔
      ∃ value, FirstPubkey entries value ∧ value.length = 64 ∧ SignedPairs value := by
  simp only [MdnsScanner.parsePubkeyFromTxt_eq_ok_iff]
  constructor
  · rintro ⟨key, value, hfirst, hlength, hparsed⟩
    exact ⟨value, hfirst, hlength, (exists_parsed_iff (by rw [hlength])).1 ⟨_, hparsed⟩⟩
  · rintro ⟨value, hfirst, hlength, hpairs⟩
    obtain ⟨bytes, hparsed⟩ := (exists_parsed_iff (by rw [hlength])).2 hpairs
    have hbytes : bytes.length = 32 :=
      hparsed.length_eq.symm.trans (length_pairs (show value.length = 2 * 32 from hlength))
    exact ⟨⟨bytes, hbytes⟩, value, hfirst, hlength, hparsed⟩

theorem FirstPubkey.unique {value value' : List UInt8} (h : FirstPubkey entries value)
    (h' : FirstPubkey entries value') : value = value' :=
  Option.some.inj ((findTxtValue_eq_some_iff.2 h).symm.trans (findTxtValue_eq_some_iff.2 h'))

theorem exists_error_of_not_ok {ε α : Type} {r : Except ε α} (h : ¬ ∃ a, r = .ok a) :
    ∃ e, r = .error e := by
  cases r with
  | ok a => exact absurd ⟨a, rfl⟩ h
  | error e => exact ⟨e, rfl⟩

/-- **Two parsers of one record.**  The parsers agree, and accept 64 digits and nothing else, unless
the first entry of the key has a sign in it that the one parser takes for part of a number. -/
theorem parsers_agree_iff (h : DecodesHex hexDecode) (entries : List String) :
    (ParsersAgree hexDecode entries ∧
      ((∃ key, MdnsScanner.parsePubkeyFromTxt entries = .ok key) ↔ HasHexPubkey entries) ∧
      ((∃ key, Mdns.parsePubkeyFromTxt hexDecode entries = .ok key) ↔ HasHexPubkey entries)) ↔
        ¬ HasSignedPubkey entries := by
  constructor
  · rintro ⟨-, hwifi, -⟩ ⟨value, hfirst, hlength, hpairs, hsign⟩
    obtain ⟨value', hfirst', -, hdigits⟩ :=
      hwifi.1 (MdnsScanner.exists_eq_ok_iff.2 ⟨value, hfirst, hlength, hpairs⟩)
    obtain rfl := hfirst.unique hfirst'
    -- The scanner reads the signed pair, but a plus sign is no digit.
    have hdigit := hdigits 43 hsign
    cases hdigit
  · intro hunsigned
    have hwifi : (∃ key, MdnsScanner.parsePubkeyFromTxt entries = .ok key) →
        HasHexPubkey entries := by
      intro hok
      obtain ⟨value, hfirst, hlength, hpairs⟩ := MdnsScanner.exists_eq_ok_iff.1 hok
      refine ⟨value, hfirst, hlength, digits_of_signedPairs hpairs fun hsign => ?_⟩
      exact hunsigned ⟨value, hfirst, hlength, hpairs, hsign⟩
    -- The scanner reads what `hex` decodes in the same way.
    have hboth : ∀ key, Mdns.parsePubkeyFromTxt hexDecode entries = .ok key →
        MdnsScanner.parsePubkeyFromTxt entries = .ok key := by
      intro key hkey
      obtain ⟨value, hfirst, hlength, hdecode⟩ := (Mdns.parsePubkeyFromTxt_eq_ok_iff h).1 hkey
      exact MdnsScanner.parsePubkeyFromTxt_eq_ok_iff.2
        ⟨value, hfirst, hlength, parsed_of_decode hdecode⟩
    refine ⟨?_, ⟨hwifi, fun hhex => ?_⟩, Mdns.exists_eq_ok_iff h⟩
    · by_cases hok : ∃ key, Mdns.parsePubkeyFromTxt hexDecode entries = .ok key
      · obtain ⟨key, hkey⟩ := hok
        exact Or.inl ⟨key, hboth key hkey, hkey⟩
      · obtain ⟨e', he'⟩ := exists_error_of_not_ok hok
        obtain ⟨e, he⟩ := exists_error_of_not_ok fun hwifiOk =>
          hok ((Mdns.exists_eq_ok_iff h).2 (hwifi hwifiOk))
        exact Or.inr ⟨e, e', he, he'⟩
    · obtain ⟨key, hkey⟩ := (Mdns.exists_eq_ok_iff h).2 hhex
      exact ⟨key, hboth key hkey⟩

end Parsers

/-! ### Samples -/

/-- The digits of the crate's decoder, which names the first character that is none. -/
def decodeFrom (pos : ℕ) : List UInt8 → Except String (List UInt8)
  | hi :: lo :: rest =>
    match Hex.digit hi, Hex.digit lo with
    | none, _ => .error s!"Invalid character '{Char.ofNat hi.toNat}' at position {pos}"
    | _, none => .error s!"Invalid character '{Char.ofNat lo.toNat}' at position {pos + 1}"
    | some h, some l =>
      (decodeFrom (pos + 2) rest).map fun bytes => UInt8.ofNat (16 * h + l) :: bytes
  | _ => .ok []

def decodeData (data : List UInt8) : Except String (List UInt8) :=
  if data.length % 2 ≠ 0 then .error "Odd number of digits" else decodeFrom 0 data

theorem decodeFrom_eq_ok_iff {pos : ℕ} {data bytes : List UInt8} (heven : data.length % 2 = 0) :
    decodeFrom pos data = .ok bytes ↔ Hex.decode data = some bytes := by
  induction data using Hex.decode.induct generalizing pos bytes with
  | case1 => simp [decodeFrom, Hex.decode]
  | case2 c => cases heven
  | case3 hi lo rest ih =>
    rw [List.length_cons, List.length_cons, Nat.add_assoc, Nat.add_mod_right] at heven
    rw [decodeFrom, Hex.decode_cons_cons_eq_some_iff]
    cases Hex.digit hi with
    | none => simp
    | some h =>
      cases Hex.digit lo with
      | none => simp
      | some l =>
        have hrest : ∀ tail, decodeFrom (pos + 2) rest = .ok tail ↔
            Hex.decode rest = some tail := fun tail => ih heven
        cases hfrom : decodeFrom (pos + 2) rest with
        | error e => simp [hfrom, ← hrest, Except.map]
        | ok tail => simp [hfrom, ← hrest, Except.map, eq_comm]

theorem decodesHex_decodeData : DecodesHex decodeData where
  eq_ok_iff data bytes := by
    unfold decodeData
    split_ifs with hodd
    · simp only [false_iff]
      intro hdecode
      have := Hex.length_of_decode hdecode
      omega
    · exact decodeFrom_eq_ok_iff (not_not.1 hodd)

/-- A key in digits of both cases, behind another entry. -/
def hexEntries : List String :=
  ["is_relay=1", "pubkey=ABCDEF0123456789abcdef0123456789abcdef0123456789abcdef0123456789"]

/-- A key with a sign in each pair. -/
def signedEntries : List String :=
  ["pubkey=+f+f+f+f+f+f+f+f+f+f+f+f+f+f+f+f+f+f+f+f+f+f+f+f+f+f+f+f+f+f+f+f"]

/-- Digits of either case are no signs. -/
theorem parsers_agree_sample : ParsersAgree decodeData hexEntries := by
  refine ((parsers_agree_iff decodesHex_decodeData hexEntries).2 ?_).1
  rintro ⟨value, hfirst, -, -, hsign⟩
  rw [← findTxtValue_eq_some_iff] at hfirst
  have hvalue : ∀ value ∈ findTxtValue hexEntries "pubkey", 43 ∉ value := by decide +kernel
  exact hvalue value hfirst hsign

/-- Signs are taken for digits by one of the parsers. -/
theorem signed_key_sample :
    MdnsScanner.parsePubkeyFromTxt signedEntries = .ok (List.Vector.replicate 32 15) ∧
      Mdns.parsePubkeyFromTxt decodeData signedEntries =
        .error (.invalidTxtRecord "Invalid hex pubkey: Invalid character '+' at position 0") ∧
      ¬ ParsersAgree decodeData signedEntries := by
  have hwifi : MdnsScanner.parsePubkeyFromTxt signedEntries =
      .ok (List.Vector.replicate 32 15) := by
    decide +kernel
  have hmdns : Mdns.parsePubkeyFromTxt decodeData signedEntries =
      .error (.invalidTxtRecord "Invalid hex pubkey: Invalid character '+' at position 0") := by
    decide +kernel
  refine ⟨hwifi, hmdns, ?_⟩
  rintro (⟨key, -, hkey⟩ | ⟨e, e', he, -⟩)
  · rw [hmdns] at hkey
    cases hkey
  · rw [hwifi] at he
    cases he

end StellarConduit
