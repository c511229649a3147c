import Mathlib.Data.List.Chain
import Mathlib.Data.Vector.Basic
import Mathlib.Logic.Equiv.Defs
import StellarConduit.Lib.Bytes

/-!
# MessagePack

The binary format MessagePack, in the compact layout of `serde`: integers in their shortest form,
strings and arrays behind their length, structures as arrays of their fields, variants of an
enumeration by name.

A `Format` is an encoder together with a decoder for it.  The decoder takes a value off the front
of the bytes.  It finds every value that fits into the format, whatever follows
(`Format.decode_encode`), and no others (`Format.fits_of_decode`).  Lengths are written as 32-bit
numbers, so a list fits when it has less than `2 ^ 32` elements.

* `LenMarkers`, `readLen_writeLen`: the lengths of strings, arrays and maps;
* `Format.uint`, `Format.str`, `Format.list`, `Format.tuple`: the formats of values;
* `Fields`, `Format.struct`: a structure is the array of its fields.  A field that is skipped when
  it is empty can only be the last one, since its absence shows in the length alone;
* `Format.units`, `Format.tagged`: enumerations;
* `length_writeUint`, `length_encode_str`, `length_flatMap_u8`: how long encodings are;
* `Delimited`: encodings that show where they end, also those of values that do not fit
  (`Format.list_injective`, `eq_of_strBytes_append`).
-/

namespace Verif.MessagePack

open Verif.Bytes

inductive DecodeError
  | invalidMarkerRead
  | invalidDataRead
  | typeMismatch (marker : UInt8)
  | outOfRange
  | lengthMismatch (len : ℕ)
  | invalidLength
  | utf8
  | unknownVariant (name : String)
  deriving DecidableEq

/-! ### Decoders -/

/-- A decoder takes a value off the front of the bytes. -/
abbrev Decoder (α : Type) := List UInt8 → Except DecodeError (α × List UInt8)

namespace Decoder

variable {α β : Type}

def pure (a : α) : Decoder α := fun bytes => .ok (a, bytes)

def fail (e : DecodeError) : Decoder α := fun _ => .error e

def andThen (d : Decoder α) (f : α → Decoder β) : Decoder β := fun bytes =>
  match d bytes with
  | .error e => .error e
  | .ok (a, rest) => f a rest

def map (f : α → β) (d : Decoder α) : Decoder β := d.andThen fun a => pure (f a)

variable {d : Decoder α} {bytes rest : List UInt8} {a : α}

theorem andThen_of_ok (h : d bytes = .ok (a, rest)) (f : α → Decoder β) :
    d.andThen f bytes = f a rest := by
  rw [andThen, h]

theorem exists_of_andThen {f : α → Decoder β} {b : β} (h : d.andThen f bytes = .ok (b, rest)) :
    ∃ a rest', d bytes = .ok (a, rest') ∧ f a rest' = .ok (b, rest) := by
  rcases hd : d bytes with e | ⟨a, rest'⟩
  · rw [andThen, hd] at h
    cases h
  · rw [andThen_of_ok hd] at h
    exact ⟨a, rest', rfl, h⟩

theorem map_of_ok (h : d bytes = .ok (a, rest)) (f : α → β) :
    d.map f bytes = .ok (f a, rest) :=
  andThen_of_ok h _

theorem exists_of_map {f : α → β} {b : β} (h : d.map f bytes = .ok (b, rest)) :
    ∃ a, d bytes = .ok (a, rest) ∧ f a = b := by
  obtain ⟨a, rest', hd, hpure⟩ := exists_of_andThen h
  cases hpure
  exact ⟨a, hd, rfl⟩

/-- As many values as the length says. -/
def repeated (d : Decoder α) : ℕ → Decoder (List α)
  | 0 => pure []
  | n + 1 => d.andThen fun a => (d.repeated n).map (a :: ·)

end Decoder

def readBytes (n : ℕ) : Decoder (List UInt8) := fun bytes =>
  if bytes.length < n then .error .invalidDataRead else .ok (bytes.take n, bytes.drop n)

theorem readBytes_append (data rest : List UInt8) :
    readBytes data.length (data ++ rest) = .ok (data, rest) := by
  unfold readBytes
  rw [if_neg (by simp), List.take_left, List.drop_left]

theorem length_of_readBytes {n : ℕ} {bytes data rest : List UInt8}
    (h : readBytes n bytes = .ok (data, rest)) : data.length = n := by
  unfold readBytes at h
  split_ifs at h with hshort
  cases h
  rw [List.length_take]
  omega

/-- An unsigned number of `w` bytes, most significant first. -/
def readBe (w : ℕ) : Decoder ℕ := (readBytes w).map fun data => ofLeBytes data.reverse

theorem readBe_beBytes {w n : ℕ} (h : n < 256 ^ w) (rest : List UInt8) :
    readBe w (beBytes w n ++ rest) = .ok (n, rest) := by
  have hread := readBytes_append (beBytes w n) rest
  rw [length_beBytes] at hread
  rw [readBe, Decoder.map_of_ok hread, beBytes, List.reverse_reverse, ofLeBytes_leBytes_of_lt h]

theorem lt_of_readBe {w n : ℕ} {bytes rest : List UInt8} (h : readBe w bytes = .ok (n, rest)) :
    n < 256 ^ w := by
  obtain ⟨data, hdata, rfl⟩ := Decoder.exists_of_map h
  have hlt := ofLeBytes_lt data.reverse
  rwa [List.length_reverse, length_of_readBytes hdata] at hlt

/-! ### Lengths -/

/-- The markers in front of a length: those that carry a short length themselves, and those of
lengths of one byte (which not all types have), two and four bytes. -/
structure LenMarkers where
  base : ℕ
  fixed : ℕ
  byte : Option UInt8
  short : UInt8
  long : UInt8
  base_add_fixed_le : base + fixed ≤ 256
  outside : ∀ m ∈ byte.toList ++ [short, long], m.toNat < base ∨ base + fixed ≤ m.toNat
  nodup : (byte.toList ++ [short, long]).Nodup

namespace LenMarkers

def str : LenMarkers where
  base := 0xa0
  fixed := 32
  byte := some 0xd9
  short := 0xda
  long := 0xdb
  base_add_fixed_le := by decide
  outside := by decide +kernel
  nodup := by decide

def array : LenMarkers where
  base := 0x90
  fixed := 16
  byte := none
  short := 0xdc
  long := 0xdd
  base_add_fixed_le := by decide
  outside := by decide +kernel
  nodup := by decide

def map : LenMarkers where
  base := 0x80
  fixed := 16
  byte := none
  short := 0xde
  long := 0xdf
  base_add_fixed_le := by decide
  outside := by decide +kernel
  nodup := by decide

/-- How many bytes of length follow a marker. -/
def width (k : LenMarkers) (m : UInt8) : Option ℕ :=
  if k.byte = some m then some 1
  else if m = k.short then some 2
  else if m = k.long then some 4
  else none

theorem width_le {k : LenMarkers} {m : UInt8} {w : ℕ} (h : k.width m = some w) : w ≤ 4 := by
  unfold width at h
  split_ifs at h <;> cases h <;> decide

end LenMarkers

def writeWideLen (k : LenMarkers) (n : ℕ) : List UInt8 :=
  if n < 65536 then k.short :: beBytes 2 n else k.long :: beBytes 4 n

/-- The length in its shortest form, as a 32-bit number. -/
def writeLen (k : LenMarkers) (len : ℕ) : List UInt8 :=
  let n := len % 2 ^ 32
  if n < k.fixed then [UInt8.ofNat (k.base + n)]
  else
    match k.byte with
    | some m => if n < 256 then m :: beBytes 1 n else writeWideLen k n
    | none => writeWideLen k n

def readLen (k : LenMarkers) : Decoder ℕ
  | [] => .error .invalidMarkerRead
  | m :: rest =>
    if k.base ≤ m.toNat ∧ m.toNat < k.base + k.fixed then .ok (m.toNat - k.base, rest)
    else
      match k.width m with
      | some w => readBe w rest
      | none => .error (.typeMismatch m)

section Lengths

variable (k : LenMarkers)

theorem toNat_fixedMarker {n : ℕ} (h : n < k.fixed) :
    (UInt8.ofNat (k.base + n)).toNat = k.base + n := by
  have hle := k.base_add_fixed_le
  simp
  omega

theorem readLen_of_width {m : UInt8} {w n : ℕ} (hm : m ∈ k.byte.toList ++ [k.short, k.long])
    (hw : k.width m = some w) (hn : n < 256 ^ w) (rest : List UInt8) :
    readLen k ((m :: beBytes w n) ++ rest) = .ok (n, rest) := by
  have houtside := k.outside m hm
  rw [List.cons_append, readLen, if_neg (by omega), hw]
  exact readBe_beBytes hn rest

theorem width_short : k.width k.short = some 2 := by
  have hnodup := k.nodup
  unfold LenMarkers.width
  rw [if_neg, if_pos rfl]
  intro hbyte
  simp [hbyte] at hnodup

theorem width_long : k.width k.long = some 4 := by
  have hnodup := k.nodup
  unfold LenMarkers.width
  rw [if_neg, if_neg, if_pos rfl]
  · intro hshort
    have hne := (List.nodup_append.1 hnodup).2.1
    simp [hshort] at hne
  · intro hbyte
    simp [hbyte] at hnodup

theorem readLen_writeWideLen {n : ℕ} (hn : n < 2 ^ 32) (rest : List UInt8) :
    readLen k (writeWideLen k n ++ rest) = .ok (n, rest) := by
  unfold writeWideLen
  split_ifs with hshort
  · exact readLen_of_width k (by simp) (width_short k) hshort rest
  · exact readLen_of_width k (by simp) (width_long k) (by simpa using hn) rest

/-- A length is read back up to multiples of `2 ^ 32`. -/
theorem readLen_writeLen (len : ℕ) (rest : List UInt8) :
    readLen k (writeLen k len ++ rest) = .ok (len % 2 ^ 32, rest) := by
  have hlt : len % 2 ^ 32 < 2 ^ 32 := Nat.mod_lt _ (by decide)
  unfold writeLen
  generalize len % 2 ^ 32 = n at hlt
  dsimp only
  by_cases hfixed : n < k.fixed
  · rw [if_pos hfixed, List.singleton_append, readLen, toNat_fixedMarker k hfixed,
      if_pos (by omega), Nat.add_sub_cancel_left]
  · rw [if_neg hfixed]
    cases hbyte : k.byte with
    | none => exact readLen_writeWideLen k hlt rest
    | some m =>
      dsimp only
      split_ifs with hn
      · exact readLen_of_width k (by simp [hbyte]) (if_pos hbyte) hn rest
      · exact readLen_writeWideLen k hlt rest

theorem readLen_writeLen_of_lt {len : ℕ} (h : len < 2 ^ 32) (rest : List UInt8) :
    readLen k (writeLen k len ++ rest) = .ok (len, rest) := by
  rw [readLen_writeLen, Nat.mod_eq_of_lt h]

theorem lt_of_readLen {n : ℕ} {bytes rest : List UInt8} (h : readLen k bytes = .ok (n, rest)) :
    n < 2 ^ 32 := by
  cases bytes with
  | nil => cases h
  | cons m bytes =>
    have hm := m.toNat_lt
    rw [readLen] at h
    split_ifs at h with hfixed
    · cases h
      omega
    · split at h
      next w hw =>
        calc
          n < 256 ^ w := lt_of_readBe h
          _ ≤ 256 ^ 4 := Nat.pow_le_pow_right (by decide) (LenMarkers.width_le hw)
      next => cases h

/-- A length starts with one of its markers. -/
theorem exists_marker (len : ℕ) :
    ∃ m bytes, writeLen k len = m :: bytes ∧
      (k.base ≤ m.toNat ∧ m.toNat < k.base + k.fixed ∨
        m ∈ k.byte.toList ++ [k.short, k.long]) := by
  have hwide : ∀ n, ∃ m bytes, writeWideLen k n = m :: bytes ∧
      (k.base ≤ m.toNat ∧ m.toNat < k.base + k.fixed ∨
        m ∈ k.byte.toList ++ [k.short, k.long]) := by
    intro n
    unfold writeWideLen
    split_ifs
    · exact ⟨k.short, _, rfl, Or.inr (by simp)⟩
    · exact ⟨k.long, _, rfl, Or.inr (by simp)⟩
  -- The length is in the marker, in one byte, or in the two or four bytes of `hwide`.
  unfold writeLen
  generalize len % 2 ^ 32 = n
  dsimp only
  by_cases hfixed : n < k.fixed
  · have hmarker := toNat_fixedMarker k hfixed
    rw [if_pos hfixed]
    exact ⟨_, [], rfl, Or.inl (by omega)⟩
  · rw [if_neg hfixed]
    cases hbyte : k.byte with
    | none =>
      obtain ⟨m, bytes, heq, hm⟩ := hwide n
      exact ⟨m, bytes, heq, hbyte ▸ hm⟩
    | some b =>
      dsimp only
      split_ifs
      · exact ⟨b, _, rfl, Or.inr (by simp)⟩
      · obtain ⟨m, bytes, heq, hm⟩ := hwide n
        exact ⟨m, bytes, heq, hbyte ▸ hm⟩

theorem writeLen_append_ne_nil (len : ℕ) (bytes : List UInt8) :
    writeLen k len ++ bytes ≠ [] := by
  obtain ⟨m, bytes', heq, -⟩ := exists_marker k len
  rw [heq, List.cons_append]
  exact List.cons_ne_nil _ _

end Lengths

/-! ### Formats -/

/-- An encoder, and a decoder that finds the values that fit. -/
structure Format (α : Type) where
  encode : α → List UInt8
  decode : Decoder α
  Fits : α → Prop
  decode_encode : ∀ a rest, Fits a → decode (encode a ++ rest) = .ok (a, rest)
  fits_of_decode : ∀ bytes a rest, decode bytes = .ok (a, rest) → Fits a

/-! ### Integers -/

/-- The shortest form of a number below `2 ^ 64`. -/
def writeUint (n : ℕ) : List UInt8 :=
  if n < 128 then [UInt8.ofNat n]
  else if n < 256 then 0xcc :: beBytes 1 n
  else if n < 65536 then 0xcd :: beBytes 2 n
  else if n < 2 ^ 32 then 0xce :: beBytes 4 n
  else 0xcf :: beBytes 8 n

/-- How many bytes of an integer follow a marker, and whether it has a sign. -/
def intWidth : UInt8 → Option (Bool × ℕ)
  | 0xcc => some (false, 1)
  | 0xcd => some (false, 2)
  | 0xce => some (false, 4)
  | 0xcf => some (false, 8)
  | 0xd0 => some (true, 1)
  | 0xd1 => some (true, 2)
  | 0xd2 => some (true, 4)
  | 0xd3 => some (true, 8)
  | _ => none

/-- The number whose two's complement in `w` bytes is given. -/
def ofTwosComplement (w n : ℕ) : ℤ := if 2 * n < 256 ^ w then n else n - 256 ^ w

/-- An integer, in any of its forms. -/
def readInt : Decoder ℤ
  | [] => .error .invalidMarkerRead
  | m :: rest =>
    if m < 0x80 then .ok (m.toNat, rest)
    else if 0xe0 ≤ m then .ok (ofTwosComplement 1 m.toNat, rest)
    else
      match intWidth m with
      | some (true, w) => (readBe w).map (ofTwosComplement w) rest
      | some (false, w) => (readBe w).map Nat.cast rest
      | none => .error (.typeMismatch m)

theorem readInt_of_width {m : UInt8} {w n : ℕ} (hm : 0x80 ≤ m ∧ m < 0xe0)
    (hw : intWidth m = some (false, w)) (hn : n < 256 ^ w) (rest : List UInt8) :
    readInt ((m :: beBytes w n) ++ rest) = .ok ((n : ℤ), rest) := by
  rw [List.cons_append, readInt, if_neg (UInt8.not_lt.2 hm.1), if_neg (UInt8.not_le.2 hm.2), hw]
  exact Decoder.map_of_ok (readBe_beBytes hn rest) _

theorem readInt_writeUint {n : ℕ} (hn : n < 2 ^ 64) (rest : List UInt8) :
    readInt (writeUint n ++ rest) = .ok ((n : ℤ), rest) := by
  unfold writeUint
  split_ifs with h1 h2 h3 h4
  · have hmarker : (UInt8.ofNat n).toNat = n := by
      simp
      omega
    have hlt : UInt8.ofNat n < 0x80 := by
      rw [UInt8.lt_iff_toNat_lt, hmarker]
      exact h1
    rw [List.singleton_append, readInt, if_pos hlt, hmarker]
  · exact readInt_of_width (by decide) rfl h2 rest
  · exact readInt_of_width (by decide) rfl h3 rest
  · exact readInt_of_width (by decide) rfl h4 rest
  · exact readInt_of_width (by decide) rfl (by simpa using hn) rest

namespace Format

/-- The numbers of a type, which are those below a bound. -/
def uint {α : Type} (bound : ℕ) (toNat : α → ℕ) (ofNat : ℕ → α) (hbound : bound ≤ 2 ^ 64)
    (toNat_lt : ∀ a, toNat a < bound) (ofNat_toNat : ∀ a, ofNat (toNat a) = a) : Format α where
  encode a := writeUint (toNat a)
  decode := readInt.andThen fun n =>
    if 0 ≤ n ∧ n < bound then .pure (ofNat n.toNat) else .fail .outOfRange
  Fits _ := True
  decode_encode a rest _ := by
    have hlt := toNat_lt a
    rw [Decoder.andThen_of_ok (readInt_writeUint (by omega) rest),
      if_pos ⟨by omega, by exact_mod_cast hlt⟩, Int.toNat_natCast, ofNat_toNat]
    rfl
  fits_of_decode _ _ _ _ := trivial

def u8 : Format UInt8 :=
  uint (2 ^ 8) UInt8.toNat UInt8.ofNat (by decide) UInt8.toNat_lt fun _ => UInt8.ofNat_toNat

def u64 : Format UInt64 :=
  uint (2 ^ 64) UInt64.toNat UInt64.ofNat (by decide) UInt64.toNat_lt fun _ => UInt64.ofNat_toNat

end Format

/-! ### Strings -/

/-- The bytes of a string, which are its UTF-8 encoding. -/
def strBytes (s : String) : List UInt8 := s.toByteArray.data.toList

def ofStrBytes (data : List UInt8) : Option String := String.fromUTF8? ⟨data.toArray⟩

theorem length_strBytes (s : String) : (strBytes s).length = s.utf8ByteSize := rfl

theorem ofStrBytes_strBytes (s : String) : ofStrBytes (strBytes s) = some s := by
  unfold ofStrBytes strBytes String.fromUTF8?
  rw [Array.toArray_toList]
  exact dif_pos s.isValidUTF8

theorem strBytes_injective : Function.Injective strBytes := by
  intro s t h
  have hsome := ofStrBytes_strBytes s
  rw [h, ofStrBytes_strBytes] at hsome
  exact (Option.some.inj hsome).symm

theorem strBytes_of_ofStrBytes {data : List UInt8} {s : String} (h : ofStrBytes data = some s) :
    strBytes s = data := by
  unfold ofStrBytes String.fromUTF8? at h
  split_ifs at h with hvalid
  cases h
  rfl

namespace Format

def str : Format String where
  encode s := writeLen .str s.utf8ByteSize ++ strBytes s
  decode := (readLen .str).andThen fun len => (readBytes len).andThen fun data =>
    match ofStrBytes data with
    | some s => .pure s
    | none => .fail .utf8
  Fits s := s.utf8ByteSize < 2 ^ 32
  decode_encode s rest h := by
    rw [List.append_assoc, Decoder.andThen_of_ok (readLen_writeLen_of_lt .str h _),
      ← length_strBytes, Decoder.andThen_of_ok (readBytes_append _ _), ofStrBytes_strBytes]
    rfl
  fits_of_decode bytes s rest h := by
    obtain ⟨len, bytes', hlen, h⟩ := Decoder.exists_of_andThen h
    obtain ⟨data, rest', hdata, h⟩ := Decoder.exists_of_andThen h
    cases hs : ofStrBytes data with
    | some s' =>
      rw [hs] at h
      cases h
      rw [← length_strBytes, strBytes_of_ofStrBytes hs, length_of_readBytes hdata]
      exact lt_of_readLen .str hlen
    | none =>
      rw [hs] at h
      cases h

end Format

/-! ### Arrays -/

section Arrays

variable {α : Type} (f : Format α)

theorem repeated_flatMap {l : List α} (h : ∀ a ∈ l, f.Fits a) (rest : List UInt8) :
    f.decode.repeated l.length (l.flatMap f.encode ++ rest) = .ok (l, rest) := by
  induction l with
  | nil => rfl
  | cons a l ih =>
    rw [List.forall_mem_cons] at h
    rw [List.flatMap_cons, List.append_assoc, List.length_cons, Decoder.repeated,
      Decoder.andThen_of_ok (f.decode_encode a _ h.1), Decoder.map_of_ok (ih h.2)]

theorem of_repeated {n : ℕ} {bytes rest : List UInt8} {l : List α}
    (h : f.decode.repeated n bytes = .ok (l, rest)) : l.length = n ∧ ∀ a ∈ l, f.Fits a := by
  induction n generalizing bytes l with
  | zero =>
    cases h
    simp
  | succ n ih =>
    obtain ⟨a, bytes', ha, h⟩ := Decoder.exists_of_andThen h
    obtain ⟨l, hl, rfl⟩ := Decoder.exists_of_map h
    obtain ⟨hlength, hfits⟩ := ih hl
    exact ⟨congrArg (· + 1) hlength, List.forall_mem_cons.2 ⟨f.fits_of_decode _ _ _ ha, hfits⟩⟩

namespace Format

/-- Lists of any length. -/
def list : Format (List α) where
  encode l := writeLen .array l.length ++ l.flatMap f.encode
  decode := (readLen .array).andThen f.decode.repeated
  Fits l := l.length < 2 ^ 32 ∧ ∀ a ∈ l, f.Fits a
  decode_encode l rest h := by
    rw [List.append_assoc, Decoder.andThen_of_ok (readLen_writeLen_of_lt .array h.1 _)]
    exact repeated_flatMap f h.2 rest
  fits_of_decode bytes l rest h := by
    obtain ⟨len, bytes', hlen, h⟩ := Decoder.exists_of_andThen h
    obtain ⟨hlength, hfits⟩ := of_repeated f h
    exact ⟨hlength ▸ lt_of_readLen .array hlen, hfits⟩

/-- Arrays of `n` elements.  Missing and excess elements are errors. -/
def tuple (n : ℕ) (hn : n < 2 ^ 32) : Format (List.Vector α n) where
  encode v := writeLen .array n ++ v.toList.flatMap f.encode
  decode := (readLen .array).andThen fun len => (f.decode.repeated (min n len)).andThen fun l =>
    if h : l.length = n then
      if len = n then .pure ⟨l, h⟩ else .fail (.lengthMismatch n)
    else .fail .invalidLength
  Fits v := ∀ a ∈ v.toList, f.Fits a
  decode_encode v rest h := by
    have hlist := repeated_flatMap f h rest
    rw [v.toList_length] at hlist
    rw [List.append_assoc, Decoder.andThen_of_ok (readLen_writeLen_of_lt .array hn _),
      Nat.min_self, Decoder.andThen_of_ok hlist, dif_pos v.toList_length, if_pos rfl]
    rfl
  fits_of_decode bytes v rest h := by
    obtain ⟨len, bytes', hlen, h⟩ := Decoder.exists_of_andThen h
    obtain ⟨l, rest', hl, h⟩ := Decoder.exists_of_andThen h
    split_ifs at h
    · cases h
      exact (of_repeated f hl).2
    · cases h
    · cases h

end Format

end Arrays

/-! ### Structures -/

/-- The fields of a structure from some position on.  `count` is the number of fields that are
written. -/
structure Fields (α : Type) where
  count : α → ℕ
  encode : α → List UInt8
  /-- Read the fields of an array of which so many elements are left. -/
  decode : ℕ → Decoder (α × ℕ)
  Fits : α → Prop
  decode_encode : ∀ a rest, Fits a → decode (count a) (encode a ++ rest) = .ok ((a, 0), rest)
  fits_of_decode : ∀ left bytes a left' rest, decode left bytes = .ok ((a, left'), rest) → Fits a

namespace Fields

variable {α β : Type}

def nil : Fields Unit where
  count _ := 0
  encode _ := []
  decode left := .pure ((), left)
  Fits _ := True
  decode_encode _ _ _ := rfl
  fits_of_decode _ _ _ _ _ _ := trivial

/-- A field, and those after it. -/
def cons (f : Format α) (t : Fields β) : Fields (α × β) where
  count a := t.count a.2 + 1
  encode a := f.encode a.1 ++ t.encode a.2
  decode
    | 0 => .fail .invalidLength
    | left + 1 => f.decode.andThen fun a => (t.decode left).map fun b => ((a, b.1), b.2)
  Fits a := f.Fits a.1 ∧ t.Fits a.2
  decode_encode a rest h := by
    dsimp only
    rw [List.append_assoc, Decoder.andThen_of_ok (f.decode_encode a.1 _ h.1),
      Decoder.map_of_ok (t.decode_encode a.2 rest h.2)]
  fits_of_decode left bytes a left' rest h := by
    cases left with
    | zero => cases h
    | succ left =>
      obtain ⟨a₁, bytes', h₁, h⟩ := Decoder.exists_of_andThen h
      obtain ⟨⟨b, left'⟩, hb, hpair⟩ := Decoder.exists_of_map h
      cases hpair
      exact ⟨f.fits_of_decode _ _ _ h₁, t.fits_of_decode _ _ _ _ _ hb⟩

/-- A last field that is skipped when it is empty, and empty when it is missing. -/
def skipEmpty (f : Format (List α)) : Fields (List α) where
  count l := if l.isEmpty then 0 else 1
  encode l := if l.isEmpty then [] else f.encode l
  decode
    | 0 => .pure ([], 0)
    | left + 1 => f.decode.map fun l => (l, left)
  Fits l := l ≠ [] → f.Fits l
  decode_encode l rest h := by
    cases l with
    | nil => rfl
    | cons a l => exact Decoder.map_of_ok (f.decode_encode _ rest (h (List.cons_ne_nil a l))) _
  fits_of_decode left bytes l left' rest h := by
    cases left with
    | zero =>
      cases h
      exact fun hne => absurd rfl hne
    | succ left =>
      obtain ⟨l', hl, hpair⟩ := Decoder.exists_of_map h
      cases hpair
      exact fun _ => f.fits_of_decode _ _ _ hl

end Fields

namespace Format

variable {α β : Type}

/-- The array of the fields of a structure. -/
def struct (t : Fields β) (fields : α ≃ β) (hcount : ∀ b, t.count b < 2 ^ 32) : Format α where
  encode a := writeLen .array (t.count (fields a)) ++ t.encode (fields a)
  decode := (readLen .array).andThen fun len => (t.decode len).andThen fun b =>
    if b.2 = 0 then .pure (fields.symm b.1) else .fail (.lengthMismatch (len - b.2))
  Fits a := t.Fits (fields a)
  decode_encode a rest h := by
    rw [List.append_assoc, Decoder.andThen_of_ok (readLen_writeLen_of_lt .array (hcount _) _),
      Decoder.andThen_of_ok (t.decode_encode _ rest h), if_pos rfl, fields.symm_apply_apply]
    rfl
  fits_of_decode bytes a rest h := by
    obtain ⟨len, bytes', -, h⟩ := Decoder.exists_of_andThen h
    obtain ⟨⟨b, left⟩, rest', hb, h⟩ := Decoder.exists_of_andThen h
    split_ifs at h with hleft
    · cases h
      rw [fields.apply_symm_apply]
      exact t.fits_of_decode _ _ _ _ _ hb
    · cases h

end Format

/-! ### Enumerations -/

def readNil : Decoder Unit
  | [] => .error .invalidMarkerRead
  | m :: rest => if m = 0xc0 then .ok ((), rest) else .error (.typeMismatch m)

/-- A string is not taken for a map. -/
theorem readLen_map_writeLen_str (len : ℕ) (rest : List UInt8) :
    ∃ m, readLen .map (writeLen .str len ++ rest) = .error (.typeMismatch m) := by
  have hlisted : ∀ m ∈ LenMarkers.str.byte.toList ++ [LenMarkers.str.short, LenMarkers.str.long],
      0xa0 ≤ m.toNat ∧ LenMarkers.map.width m = none := by decide +kernel
  obtain ⟨m, bytes, heq, hm⟩ := exists_marker .str len
  have hmarker : 0xa0 ≤ m.toNat ∧ LenMarkers.map.width m = none := by
    rcases hm with ⟨hle, hlt⟩ | hm
    · have hlt' : m.toNat < 0xc0 := hlt
      have hne : ∀ m' : UInt8, 0xc0 ≤ m'.toNat → m ≠ m' := by
        rintro m' hm' rfl
        omega
      refine ⟨hle, ?_⟩
      unfold LenMarkers.width
      rw [if_neg (by simp [LenMarkers.map]), if_neg (hne _ (by decide)),
        if_neg (hne _ (by decide))]
    · exact hlisted m hm
  refine ⟨m, ?_⟩
  rw [heq, List.cons_append, readLen, if_neg, hmarker.2]
  simp only [LenMarkers.map]
  omega

namespace Format

variable {α : Type}

/-- An enumeration whose variants carry no data: their names.  The name may also come as the key of
a map with one entry. -/
def units (name : α → String) (find : String → Option α) (hfind : ∀ a, find (name a) = some a)
    (hname : ∀ a, (name a).utf8ByteSize < 2 ^ 32) : Format α where
  encode a := str.encode (name a)
  decode bytes :=
    let variant : Decoder α := str.decode.andThen fun name =>
      match find name with
      | some a => .pure a
      | none => .fail (.unknownVariant name)
    match readLen .map bytes with
    | .ok (1, rest) => (variant.andThen fun a => readNil.map fun _ => a) rest
    | .ok (len, _) => .error (.lengthMismatch len)
    | .error _ => variant bytes
  Fits _ := True
  decode_encode a rest _ := by
    obtain ⟨m, hm⟩ := readLen_map_writeLen_str (name a).utf8ByteSize (strBytes (name a) ++ rest)
    rw [← List.append_assoc] at hm
    have hstr := str.decode_encode (name a) rest (hname a)
    dsimp only
    rw [show readLen .map (str.encode (name a) ++ rest) =
      .error (.typeMismatch m) from hm]
    dsimp only
    rw [Decoder.andThen_of_ok hstr, hfind]
    rfl
  fits_of_decode _ _ _ _ := trivial

/-- The name of a variant that carries data, which follows. -/
def readVariant : Decoder String := fun bytes =>
  match readLen .map bytes with
  | .ok (1, rest) => str.decode rest
  | .ok (len, _) => .error (.lengthMismatch len)
  | .error e => .error e

theorem readVariant_append {name : String} (h : name.utf8ByteSize < 2 ^ 32) (rest : List UInt8) :
    readVariant (writeLen .map 1 ++ (str.encode name ++ rest)) = .ok (name, rest) := by
  unfold readVariant
  rw [readLen_writeLen_of_lt .map (by decide)]
  exact str.decode_encode name rest h

/-- An enumeration whose variants carry data: maps from the name of the variant to its data. -/
def tagged (name : α → String) (payload : α → List UInt8)
    (decoder : String → Option (Decoder α)) (Fits : α → Prop)
    (hname : ∀ a, (name a).utf8ByteSize < 2 ^ 32)
    (hdecoder : ∀ a rest, Fits a →
      ∃ d, decoder (name a) = some d ∧ d (payload a ++ rest) = .ok (a, rest))
    (hfits : ∀ n d bytes a rest, decoder n = some d → d bytes = .ok (a, rest) → Fits a) :
    Format α where
  encode a := writeLen .map 1 ++ (str.encode (name a) ++ payload a)
  decode := readVariant.andThen fun n =>
    match decoder n with
    | some d => d
    | none => .fail (.unknownVariant n)
  Fits := Fits
  decode_encode a rest h := by
    obtain ⟨d, hd, hpayload⟩ := hdecoder a rest h
    rw [List.append_assoc, List.append_assoc,
      Decoder.andThen_of_ok (readVariant_append (hname a) _), hd]
    exact hpayload
  fits_of_decode bytes a rest h := by
    obtain ⟨n, rest', -, h⟩ := Decoder.exists_of_andThen h
    cases hd : decoder n with
    | some d =>
      rw [hd] at h
      exact hfits n d _ a rest hd h
    | none =>
      rw [hd] at h
      cases h

end Format

/-! ### Encodings that show where they end -/

section Delimited

variable {α : Type}

/-- The encoding shows where it ends, whatever follows. -/
def Delimited (encode : α → List UInt8) : Prop :=
  ∀ a b rest rest', encode a ++ rest = encode b ++ rest' → a = b ∧ rest = rest'

theorem Format.eq_of_encode_append (f : Format α) {a b : α} (ha : f.Fits a) (hb : f.Fits b)
    {rest rest' : List UInt8} (h : f.encode a ++ rest = f.encode b ++ rest') :
    a = b ∧ rest = rest' := by
  have hdecode := f.decode_encode a rest ha
  rw [h, f.decode_encode b rest' hb] at hdecode
  cases hdecode
  exact ⟨rfl, rfl⟩

theorem Format.delimited (f : Format α) (h : ∀ a, f.Fits a) : Delimited f.encode :=
  fun a b _ _ heq => f.eq_of_encode_append (h a) (h b) heq

theorem eq_of_writeLen_append (k : LenMarkers) {len len' : ℕ} {rest rest' : List UInt8}
    (h : writeLen k len ++ rest = writeLen k len' ++ rest') :
    len % 2 ^ 32 = len' % 2 ^ 32 ∧ rest = rest' := by
  have hread := readLen_writeLen k len rest
  rw [h, readLen_writeLen] at hread
  obtain ⟨hlen, hrest⟩ := Prod.mk.inj (Except.ok.inj hread)
  exact ⟨hlen.symm, hrest.symm⟩

/-- Two lists of encodings agree, if what follows them is not such an encoding. -/
theorem Delimited.eq_of_flatMap_append {encode : α → List UInt8} (h : Delimited encode)
    {l l' : List α} {rest rest' : List UInt8} (hrest : ∀ a t, rest ≠ encode a ++ t)
    (hrest' : ∀ a t, rest' ≠ encode a ++ t)
    (heq : l.flatMap encode ++ rest = l'.flatMap encode ++ rest') : l = l' ∧ rest = rest' := by
  induction l generalizing l' with
  | nil =>
    cases l' with
    | nil => exact ⟨rfl, heq⟩
    | cons b l' =>
      rw [List.flatMap_cons, List.append_assoc] at heq
      exact absurd heq (hrest b _)
  | cons a l ih =>
    cases l' with
    | nil =>
      rw [List.flatMap_cons, List.append_assoc] at heq
      exact absurd heq.symm (hrest' a _)
    | cons b l' =>
      simp only [List.flatMap_cons, List.append_assoc] at heq
      obtain ⟨rfl, htail⟩ := h a b _ _ heq
      obtain ⟨rfl, hrests⟩ := ih htail
      exact ⟨rfl, hrests⟩

/-- A list at the end of the bytes is told from others of any length. -/
theorem Format.list_injective (f : Format α) (h : Delimited f.encode)
    (hne : ∀ a, f.encode a ≠ []) : Function.Injective f.list.encode := by
  intro l l' heq
  obtain ⟨-, hitems⟩ := eq_of_writeLen_append .array heq
  have hnil : ∀ a t, [] ≠ f.encode a ++ t := by
    intro a t hnil
    exact hne a (List.append_eq_nil_iff.1 hnil.symm).1
  refine (h.eq_of_flatMap_append hnil hnil ?_).1
  rw [hitems]

/-- A list has no more elements than bytes are written for them. -/
theorem length_le_length_flatMap (encode : α → List UInt8) (hne : ∀ a, encode a ≠ [])
    (l : List α) : l.length ≤ (l.flatMap encode).length := by
  induction l with
  | nil => exact Nat.zero_le _
  | cons a l ih =>
    have ha := List.length_pos_of_ne_nil (hne a)
    rw [List.flatMap_cons, List.length_append, List.length_cons]
    omega

theorem length_encode_le_of_mem (encode : α → List UInt8) {a : α} {l : List α}
    (h : a ∈ l) : (encode a).length ≤ (l.flatMap encode).length := by
  rw [List.flatMap_def]
  exact (List.sublist_flatten_of_mem (List.mem_map_of_mem h)).length_le

theorem length_writeUint_le (n : ℕ) : (writeUint n).length ≤ 9 := by
  unfold writeUint
  split_ifs <;> simp

end Delimited

/-! ### UTF-8 -/

/-- In a character of several bytes, a first byte is followed by one that continues it. -/
def Continues (x y : UInt8) : Prop := 0xc0 ≤ x.toNat → 0x80 ≤ y.toNat

theorem isChain_utf8EncodeChar (c : Char) :
    (String.utf8EncodeChar c).IsChain Continues ∧
      ∀ x ∈ (String.utf8EncodeChar c).getLast?, x.toNat < 0xc0 := by
  unfold String.utf8EncodeChar
  dsimp only
  generalize c.val.toNat = v
  split_ifs <;> simp [Continues] <;> omega

theorem isChain_strBytes (s : String) : (strBytes s).IsChain Continues := by
  have hchars : ∀ l : List Char, (l.flatMap String.utf8EncodeChar).IsChain Continues := by
    intro l
    induction l with
    | nil => exact List.IsChain.nil
    | cons c l ih =>
      obtain ⟨hchar, hlast⟩ := isChain_utf8EncodeChar c
      rw [List.flatMap_cons, List.isChain_append]
      refine ⟨hchar, ih, fun x hx y _ hlead => ?_⟩
      have hx' := hlast x hx
      omega
  have hbytes : strBytes s = s.toList.flatMap String.utf8EncodeChar := by
    rw [strBytes, ← String.utf8Encode_toList, List.utf8Encode]
    simp
  rw [hbytes]
  exact hchars _

/-- The length of an array of 16 to 255 elements does not occur in a string. -/
theorem strBytes_ne_append (s : String) (front tail : List UInt8) :
    strBytes s ≠ front ++ 0xdc :: 0x00 :: tail := by
  intro h
  have hchain := isChain_strBytes s
  rw [h] at hchain
  have hlead := (List.isChain_cons_cons.1 (List.isChain_append.1 hchain).2.1).1
  exact absurd (hlead (by decide)) (by decide)

/-- What follows a string has the length of an array soon. -/
def ArrayFollows (rest : List UInt8) : Prop :=
  ∃ front tail, rest = front ++ [0xdc, 0x00] ++ tail ∧ front.length + 2 < 2 ^ 32

theorem eq_nil_of_strBytes_append {s s' : String} {missing rest rest' : List UInt8}
    (hlen : s.utf8ByteSize % 2 ^ 32 = s'.utf8ByteSize % 2 ^ 32)
    (hs : strBytes s' = strBytes s ++ missing) (hrest : rest = missing ++ rest')
    (hfollows : ArrayFollows rest) : missing = [] := by
  have hsize := congrArg List.length hs
  rw [List.length_append, length_strBytes, length_strBytes] at hsize
  by_contra hne
  have hpos := List.length_pos_iff.2 hne
  -- Otherwise the missing bytes are so many that they have the length of the array in them.
  obtain ⟨front, tail, hfront, hshort⟩ := hfollows
  rw [hfront] at hrest
  rcases List.append_eq_append_iff.1 hrest with ⟨inside, hmissing, -⟩ | ⟨after, hbefore, -⟩
  · refine strBytes_ne_append s' (strBytes s ++ front) inside ?_
    rw [hs, hmissing]
    simp
  · have hlength := congrArg List.length hbefore
    simp only [List.length_append, List.length_cons, List.length_nil] at hlength
    omega

/-- A string of any length ends where it does, if the length of an array follows soon. -/
theorem eq_of_strBytes_append {s s' : String} {rest rest' : List UInt8}
    (hlen : s.utf8ByteSize % 2 ^ 32 = s'.utf8ByteSize % 2 ^ 32)
    (hrest : ArrayFollows rest) (hrest' : ArrayFollows rest')
    (h : strBytes s ++ rest = strBytes s' ++ rest') : s = s' ∧ rest = rest' := by
  rcases List.append_eq_append_iff.1 h with ⟨missing, hs, heq⟩ | ⟨missing, hs, heq⟩
  · obtain rfl := eq_nil_of_strBytes_append hlen hs heq hrest
    rw [List.append_nil] at hs
    exact ⟨strBytes_injective hs.symm, heq⟩
  · obtain rfl := eq_nil_of_strBytes_append hlen.symm hs heq hrest'
    rw [List.append_nil] at hs
    exact ⟨strBytes_injective hs, heq.symm⟩

/-! ### Sizes -/

/-- How many bytes an integer takes. -/
def uintSize (n : ℕ) : ℕ :=
  if n < 128 then 1 else if n < 256 then 2 else if n < 65536 then 3 else if n < 2 ^ 32 then 5 else 9

theorem length_writeUint (n : ℕ) : (writeUint n).length = uintSize n := by
  unfold writeUint uintSize
  split_ifs <;> simp

/-- How many bytes stand in front of a string. -/
def strHeaderSize (n : ℕ) : ℕ :=
  if n < 32 then 1 else if n < 256 then 2 else if n < 65536 then 3 else 5

theorem length_writeLen_str {n : ℕ} (h : n < 2 ^ 32) :
    (writeLen .str n).length = strHeaderSize n := by
  unfold writeLen writeWideLen strHeaderSize
  rw [Nat.mod_eq_of_lt h]
  dsimp only [LenMarkers.str]
  by_cases hfixed : n < 32
  · simp [hfixed]
  · by_cases hbyte : n < 256
    · simp [hfixed, hbyte]
    · by_cases hshort : n < 65536
      · simp [hfixed, hbyte, hshort]
      · simp [hfixed, hbyte, hshort]

/-- Bytes from 128 on take two bytes, the others one. -/
theorem length_flatMap_u8 (bytes : List UInt8) :
    (bytes.flatMap Format.u8.encode).length =
      bytes.length + bytes.countP fun byte => decide (128 ≤ byte.toNat) := by
  induction bytes with
  | nil => rfl
  | cons byte bytes ih =>
    have hbyte : (Format.u8.encode byte).length = uintSize byte.toNat := length_writeUint _
    have hlt := byte.toNat_lt
    rw [List.flatMap_cons, List.length_append, ih, hbyte, List.length_cons, List.countP_cons]
    unfold uintSize
    by_cases hhigh : 128 ≤ byte.toNat
    · rw [if_neg (by omega), if_pos (by omega), decide_eq_true hhigh, if_pos rfl]
      omega
    · rw [if_pos (by omega), decide_eq_false hhigh, if_neg (by decide)]
      omega

end Verif.MessagePack
