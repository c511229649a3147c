import Mathlib.Data.List.Basic
import Mathlib.Tactic.Common

/-!
# Hexadecimal strings

Bytes spelled in pairs of digits, of either case.

* `decode`, `decode_isSome_iff`: an even number of digits is decoded, and nothing else;
* `length_of_decode`: two digits for each byte;
* `encode`, `decode_encode`: small digits spell bytes that are decoded again;
* `asciiText`: bytes below 128 as a string, which all of these are.
-/

namespace Verif.Hex

/-- The value of a digit. -/
def digit (c : UInt8) : Option ℕ :=
  if 48 ≤ c ∧ c ≤ 57 then some (c.toNat - 48)
  else if 97 ≤ c ∧ c ≤ 102 then some (c.toNat - 87)
  else if 65 ≤ c ∧ c ≤ 70 then some (c.toNat - 55)
  else none

theorem digit_lt {c : UInt8} {d : ℕ} (h : digit c = some d) : d < 16 ∧ c < 128 := by
  unfold digit at h
  simp only [UInt8.le_iff_toNat_le, UInt8.lt_iff_toNat_lt] at h ⊢
  have h48 : (48 : UInt8).toNat = 48 := rfl
  split_ifs at h with h₁ h₂ h₃
  all_goals
    obtain rfl := Option.some.inj h
    simp at *
    omega

/-- The bytes that pairs of digits spell. -/
def decode : List UInt8 → Option (List UInt8)
  | [] => some []
  | [_] => none
  | hi :: lo :: rest =>
    (digit hi).bind fun h => (digit lo).bind fun l =>
      (decode rest).map fun bytes => UInt8.ofNat (16 * h + l) :: bytes

theorem decode_cons_cons_eq_some_iff {hi lo : UInt8} {rest bytes : List UInt8} :
    decode (hi :: lo :: rest) = some bytes ↔
      ∃ h l tail, digit hi = some h ∧ digit lo = some l ∧ decode rest = some tail ∧
        bytes = UInt8.ofNat (16 * h + l) :: tail := by
  rw [decode]
  cases digit hi <;> cases digit lo <;> cases decode rest <;> simp [eq_comm]

theorem length_of_decode {data bytes : List UInt8} (h : decode data = some bytes) :
    data.length = 2 * bytes.length := by
  induction data using decode.induct generalizing bytes with
  | case1 =>
    cases h
    rfl
  | case2 c => cases h
  | case3 hi lo rest ih =>
    obtain ⟨_, _, tail, -, -, htail, rfl⟩ := decode_cons_cons_eq_some_iff.1 h
    rw [List.length_cons, List.length_cons, List.length_cons, ih htail]
    omega

/-- What is decoded. -/
theorem decode_isSome_iff {data : List UInt8} :
    (decode data).isSome = true ↔ data.length % 2 = 0 ∧ ∀ c ∈ data, (digit c).isSome = true := by
  induction data using decode.induct with
  | case1 => simp [decode]
  | case2 c => simp [decode]
  | case3 hi lo rest ih =>
    rw [List.length_cons, List.length_cons, Nat.add_assoc, Nat.add_mod_right, List.forall_mem_cons,
      List.forall_mem_cons, decode]
    cases hhi : digit hi <;> cases hlo : digit lo <;> simp [ih]

/-! ### Spelling -/

/-- The digit of a value, in lower case. -/
def digitOf (d : ℕ) : UInt8 := if d < 10 then UInt8.ofNat (48 + d) else UInt8.ofNat (87 + d)

theorem digit_digitOf {d : ℕ} (h : d < 16) : digit (digitOf d) = some d := by
  have hall : ∀ d ∈ List.range 16, digit (digitOf d) = some d := by decide
  exact hall d (List.mem_range.2 h)

/-- The digits that spell bytes. -/
def encode (bytes : List UInt8) : List UInt8 :=
  bytes.flatMap fun b => [digitOf (b.toNat / 16), digitOf (b.toNat % 16)]

theorem length_encode (bytes : List UInt8) : (encode bytes).length = 2 * bytes.length := by
  induction bytes with
  | nil => rfl
  | cons b bytes ih =>
    show (encode bytes).length + 2 = 2 * (bytes.length + 1)
    omega

theorem decode_encode (bytes : List UInt8) : decode (encode bytes) = some bytes := by
  induction bytes with
  | nil => rfl
  | cons b bytes ih =>
    have hb := b.toNat_lt
    refine decode_cons_cons_eq_some_iff.2 ⟨b.toNat / 16, b.toNat % 16, bytes,
      digit_digitOf (by omega), digit_digitOf (by omega), ih, ?_⟩
    rw [Nat.div_add_mod, UInt8.ofNat_toNat]

/-! ### Text -/

/-- The string of bytes that are below 128. -/
def asciiText (bytes : List UInt8) : String :=
  String.ofList (bytes.map fun b => Char.ofNat b.toNat)

theorem utf8EncodeChar_ofNat {b : UInt8} (h : b < 128) :
    String.utf8EncodeChar (Char.ofNat b.toNat) = [b] := by
  have hall : ∀ n : Fin 128, String.utf8EncodeChar (Char.ofNat n) = [UInt8.ofNat n] := by
    decide +kernel
  have hb := hall ⟨b.toNat, UInt8.lt_iff_toNat_lt.1 h⟩
  rwa [UInt8.ofNat_toNat] at hb

theorem toByteArray_asciiText {bytes : List UInt8} (h : ∀ b ∈ bytes, b < 128) :
    (asciiText bytes).toByteArray.data.toList = bytes := by
  have hchars : (bytes.map fun b => Char.ofNat b.toNat).flatMap String.utf8EncodeChar = bytes := by
    induction bytes with
    | nil => rfl
    | cons b bytes ih =>
      rw [List.forall_mem_cons] at h
      rw [List.map_cons, List.flatMap_cons, utf8EncodeChar_ofNat h.1, ih h.2]
      rfl
  rw [asciiText, String.toByteArray_ofList, List.utf8Encode, hchars]
  simp

theorem ascii_of_decode {data bytes : List UInt8} (h : decode data = some bytes) :
    ∀ c ∈ data, c < 128 := by
  intro c hc
  obtain ⟨d, hd⟩ := Option.isSome_iff_exists.1 ((decode_isSome_iff.1 (by rw [h]; rfl)).2 c hc)
  exact (digit_lt hd).2

theorem ascii_encode (bytes : List UInt8) : ∀ c ∈ encode bytes, c < 128 :=
  ascii_of_decode (decode_encode bytes)

end Verif.Hex
