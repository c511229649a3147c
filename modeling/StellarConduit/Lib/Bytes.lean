import Mathlib.Data.Nat.ModEq
import Mathlib.Tactic.Ring

/-!
# Fixed-width byte encodings of naturals

`leBytes w n` are the `w` bytes of `n` with the least significant first, `beBytes w n` the
same bytes in the other order, and `ofLeBytes` reads the first form back.  Bits above
`8 * w` are dropped, as a cast to a `w`-byte word drops them.

`frame w data` is `data` behind its length.  `arrived_frame` says what a reader can find when
only a part of a stream that starts with a frame has arrived.

A `FixedField` writes every value in the same number of bytes.  Next to such a field a part of
any length can stand without a length of its own, before it or behind it, and the bytes still
determine both.
-/

namespace Verif.Bytes

/-- The `w` bytes of `n`, least significant first. -/
def leBytes : ℕ → ℕ → List UInt8
  | 0, _ => []
  | w + 1, n => UInt8.ofNat n :: leBytes w (n / 256)

/-- The `w` bytes of `n`, most significant first. -/
def beBytes (w n : ℕ) : List UInt8 := (leBytes w n).reverse

/-- The natural whose bytes, least significant first, are given. -/
def ofLeBytes : List UInt8 → ℕ
  | [] => 0
  | b :: bs => b.toNat + 256 * ofLeBytes bs

@[simp] theorem length_leBytes (w n : ℕ) : (leBytes w n).length = w := by
  induction w generalizing n with
  | zero => rfl
  | succ w ih => rw [leBytes, List.length_cons, ih]

@[simp] theorem length_beBytes (w n : ℕ) : (beBytes w n).length = w := by
  rw [beBytes, List.length_reverse, length_leBytes]

theorem ofLeBytes_leBytes (w n : ℕ) : ofLeBytes (leBytes w n) = n % 256 ^ w := by
  induction w generalizing n with
  | zero => simp [leBytes, ofLeBytes, Nat.mod_one]
  | succ w ih =>
    have hbyte : (UInt8.ofNat n).toNat = n % 256 := by simp
    rw [leBytes, ofLeBytes, ih, hbyte, pow_succ', Nat.mod_mul]

theorem ofLeBytes_leBytes_of_lt {w n : ℕ} (h : n < 256 ^ w) :
    ofLeBytes (leBytes w n) = n := by
  rw [ofLeBytes_leBytes, Nat.mod_eq_of_lt h]

theorem ofLeBytes_lt (bs : List UInt8) : ofLeBytes bs < 256 ^ bs.length := by
  induction bs with
  | nil => simp [ofLeBytes]
  | cons b bs ih =>
    have hb := b.toNat_lt
    rw [ofLeBytes, List.length_cons, pow_succ']
    omega

theorem leBytes_ofLeBytes (bs : List UInt8) : leBytes bs.length (ofLeBytes bs) = bs := by
  induction bs with
  | nil => rfl
  | cons b bs ih =>
    have hb := b.toNat_lt
    have hdiv : (b.toNat + 256 * ofLeBytes bs) / 256 = ofLeBytes bs := by omega
    have hbyte : UInt8.ofNat (b.toNat + 256 * ofLeBytes bs) = b := by
      rw [← UInt8.toNat_inj, UInt8.toNat_ofNat']
      omega
    rw [List.length_cons, ofLeBytes, leBytes, hdiv, ih, hbyte]

theorem leBytes_injective_of_lt {w n m : ℕ} (hn : n < 256 ^ w) (hm : m < 256 ^ w)
    (h : leBytes w n = leBytes w m) : n = m := by
  rw [← ofLeBytes_leBytes_of_lt hn, h, ofLeBytes_leBytes_of_lt hm]

theorem beBytes_injective_of_lt {w n m : ℕ} (hn : n < 256 ^ w) (hm : m < 256 ^ w)
    (h : beBytes w n = beBytes w m) : n = m :=
  leBytes_injective_of_lt hn hm (List.reverse_inj.1 h)

/-- A field between two other parts. -/
theorem extract_append (before field after : List UInt8) :
    (before ++ field ++ after).extract before.length (before.length + field.length) = field := by
  rw [List.extract_eq_take_drop, List.append_assoc, List.drop_left, Nat.add_sub_cancel_left,
    List.take_left]

/-- A list is a field, and what follows it. -/
theorem drop_eq_extract_append_drop (bs : List UInt8) (start width : ℕ) :
    bs.drop start = bs.extract start (start + width) ++ bs.drop (start + width) := by
  rw [List.extract_eq_take_drop, Nat.add_sub_cancel_left, ← List.drop_drop, List.take_append_drop]

/-! ### Fields of fixed width -/

/-- An encoding in `w` bytes that tells different values apart. -/
structure FixedField (α : Type*) (w : ℕ) where
  encode : α → List UInt8
  length_encode : ∀ a, (encode a).length = w
  injective : Function.Injective encode

namespace FixedField

variable {α β : Type*} {v w : ℕ}

/-- Behind a field of fixed width, a part of any length. -/
theorem append_injective (f : FixedField α w) {rest : β → List UInt8}
    (hrest : Function.Injective rest) :
    Function.Injective fun p : α × β => f.encode p.1 ++ rest p.2 := by
  intro p q h
  have hlength : (f.encode p.1).length = (f.encode q.1).length := by
    rw [f.length_encode, f.length_encode]
  obtain ⟨hfield, hpart⟩ := List.append_inj h hlength
  exact Prod.ext (f.injective hfield) (hrest hpart)

/-- Before a field of fixed width, a part of any length: the field is found from the end. -/
theorem prepend_injective (f : FixedField β w) {start : α → List UInt8}
    (hstart : Function.Injective start) :
    Function.Injective fun p : α × β => start p.1 ++ f.encode p.2 := by
  intro p q h
  have hlength : (f.encode p.2).length = (f.encode q.2).length := by
    rw [f.length_encode, f.length_encode]
  obtain ⟨hpart, hfield⟩ := List.append_inj' h hlength
  exact Prod.ext (hstart hpart) (f.injective hfield)

/-- One field behind the other. -/
def append (f : FixedField α v) (g : FixedField β w) : FixedField (α × β) (v + w) where
  encode p := f.encode p.1 ++ g.encode p.2
  length_encode p := by rw [List.length_append, f.length_encode, g.length_encode]
  injective := f.append_injective g.injective

end FixedField

/-! ### Length-prefixed frames -/

/-- The data behind its length, in `w` bytes. -/
def frame (w : ℕ) (data : List UInt8) : List UInt8 := leBytes w data.length ++ data

/-- Of a stream that starts with `data`, the first bytes have arrived: either the data is
among them, or the stream goes on. -/
theorem arrived_append {bytes later data rest : List UInt8} (h : bytes ++ later = data ++ rest) :
    (bytes.length < data.length ∧ later ≠ []) ∨
      ∃ bytes', bytes = data ++ bytes' ∧ bytes' ++ later = rest := by
  rcases List.append_eq_append_iff.1 h with ⟨missing, hdata, hlater⟩ | ⟨bytes', hbytes, hrest⟩
  · rcases missing with _ | ⟨b, missing⟩
    · exact Or.inr ⟨[], by simpa using hdata.symm, by simpa using hlater⟩
    · refine Or.inl ⟨?_, ?_⟩
      · rw [hdata, List.length_append, List.length_cons]
        omega
      · rw [hlater]
        simp
  · exact Or.inr ⟨bytes', hbytes, hrest.symm⟩

/-- Of a stream that starts with a frame, the first bytes have arrived: a part of the length,
the length and a part of the data, or the whole frame. -/
theorem arrived_frame {w : ℕ} {bytes later data rest : List UInt8}
    (h : bytes ++ later = frame w data ++ rest) :
    (bytes.length < w ∧ later ≠ []) ∨
      (∃ part, bytes = leBytes w data.length ++ part ∧ part.length < data.length ∧ later ≠ []) ∨
      ∃ bytes', bytes = frame w data ++ bytes' ∧ bytes' ++ later = rest := by
  rw [frame, List.append_assoc] at h
  rcases arrived_append h with ⟨hshort, hlater⟩ | ⟨part, hbytes, hpart⟩
  · rw [length_leBytes] at hshort
    exact Or.inl ⟨hshort, hlater⟩
  · rcases arrived_append hpart with ⟨hshort, hlater⟩ | ⟨bytes', rfl, hrest⟩
    · exact Or.inr (Or.inl ⟨part, hbytes, hshort, hlater⟩)
    · refine Or.inr (Or.inr ⟨bytes', ?_, hrest⟩)
      rw [hbytes, frame, List.append_assoc]

end Verif.Bytes
