import Mathlib.Data.List.Lex
import Mathlib.Order.Lattice
import Mathlib.Order.Monotone.Basic
import Mathlib.Tactic.SplitIfs
import Mathlib.Data.Char

/-!
# UTF-8 and the order of scalar values

`utf8` encodes a sequence of Unicode scalar values (`Char`) byte by byte, and `octets` reads a
byte string as the numbers a byte-wise comparison looks at. The one fact this module is for is
`octets_utf8_lt_iff`: comparing two encodings byte by byte is comparing the two sequences scalar
value by scalar value. Injectivity of the encoding is a corollary, and so is the absence of any
prefix relation between the encodings of two different characters.
-/

namespace Utf8

/-- The UTF-8 encoding of a sequence of scalar values. -/
def utf8 (s : List Char) : List UInt8 :=
  s.flatMap String.utf8EncodeChar

/-- The numbers a byte-wise comparison of a byte string looks at. -/
def octets (b : List UInt8) : List Nat :=
  b.map UInt8.toNat

@[simp] theorem utf8_nil : utf8 [] = [] := rfl

@[simp] theorem utf8_cons (c : Char) (s : List Char) :
    utf8 (c :: s) = String.utf8EncodeChar c ++ utf8 s := rfl

@[simp] theorem utf8_append (s t : List Char) : utf8 (s ++ t) = utf8 s ++ utf8 t := by
  simp [utf8]

@[simp] theorem octets_nil : octets [] = [] := rfl

@[simp] theorem octets_cons (b : UInt8) (l : List UInt8) :
    octets (b :: l) = b.toNat :: octets l := rfl

@[simp] theorem octets_append (a b : List UInt8) : octets (a ++ b) = octets a ++ octets b := by
  simp [octets]

/-! ## One character -/

/-- A scalar value is below `0x110000`. -/
theorem toNat_lt (c : Char) : c.toNat < 0x110000 := by
  rcases c.valid with h | h
  · exact Nat.lt_trans h (by decide)
  · exact h.2

/-- The octets of one character's encoding, by the range its scalar value is in. -/
theorem octets_utf8EncodeChar (c : Char) :
    octets (String.utf8EncodeChar c) =
      if c.toNat ≤ 0x7f then [c.toNat]
      else if c.toNat ≤ 0x7ff then [c.toNat / 64 + 0xc0, c.toNat % 64 + 0x80]
      else if c.toNat ≤ 0xffff then
        [c.toNat / 64 / 64 + 0xe0, c.toNat / 64 % 64 + 0x80, c.toNat % 64 + 0x80]
      else [c.toNat / 64 / 64 / 64 + 0xf0, c.toNat / 64 / 64 % 64 + 0x80,
        c.toNat / 64 % 64 + 0x80, c.toNat % 64 + 0x80] := by
  have hc := toNat_lt c
  unfold String.utf8EncodeChar
  change octets (if c.toNat ≤ 0x7f then _ else _) = _
  split
  · simp only [octets_cons, octets_nil, UInt8.toNat_ofNat', List.cons.injEq, and_true]
    change c.toNat % 256 = c.toNat
    omega
  change octets (if c.toNat ≤ 0x7ff then _ else _) = _
  split
  · simp only [octets_cons, octets_nil, UInt8.toNat_ofNat', List.cons.injEq, and_true]
    change (c.toNat / 64 % 32 + 192) % 256 = _ ∧ (c.toNat % 64 + 128) % 256 = _
    omega
  change octets (if c.toNat ≤ 0xffff then _ else _) = _
  split
  · simp only [octets_cons, octets_nil, UInt8.toNat_ofNat', List.cons.injEq, and_true]
    change (c.toNat / 4096 % 16 + 224) % 256 = _ ∧ (c.toNat / 64 % 64 + 128) % 256 = _ ∧
      (c.toNat % 64 + 128) % 256 = _
    omega
  · simp only [octets_cons, octets_nil, UInt8.toNat_ofNat', List.cons.injEq, and_true]
    change (c.toNat / 262144 % 8 + 240) % 256 = _ ∧ (c.toNat / 4096 % 64 + 128) % 256 = _ ∧
      (c.toNat / 64 % 64 + 128) % 256 = _ ∧ (c.toNat % 64 + 128) % 256 = _
    omega

/-- The encodings of two different characters already differ in order before either ends, so
whatever follows them leaves the comparison as it is. -/
theorem octets_utf8EncodeChar_lt {a b : Char} (h : a < b) (r r' : List Nat) :
    octets (String.utf8EncodeChar a) ++ r < octets (String.utf8EncodeChar b) ++ r' := by
  have hab : a.toNat < b.toNat := h
  have ha := toNat_lt a
  have hb := toNat_lt b
  rw [octets_utf8EncodeChar, octets_utf8EncodeChar]
  generalize a.toNat = m at *
  generalize b.toNat = n at *
  split_ifs <;> simp only [List.cons_append, List.nil_append, List.cons_lt_cons_iff] <;> grind

/-! ## Sequences -/

/-- Encoding preserves the order of sequences, strictly. -/
theorem octets_utf8_strictMono : StrictMono fun s : List Char => octets (utf8 s) := by
  intro s
  induction s with
  | nil =>
    intro t h
    cases t with
    | nil => exact absurd h (lt_irrefl _)
    | cons c t =>
      simp only [utf8_cons, octets_append, utf8_nil, octets_nil, octets_utf8EncodeChar]
      split_ifs <;> exact List.nil_lt_cons _ _
  | cons a s ih =>
    intro t h
    cases t with
    | nil => exact absurd h (List.not_lt_nil _)
    | cons b t =>
      simp only [utf8_cons, octets_append]
      rcases List.cons_lt_cons_iff.1 h with hab | ⟨rfl, hst⟩
      · exact octets_utf8EncodeChar_lt hab _ _
      · exact List.append_left_lt (ih hst)

/-- **Byte order is scalar order.** -/
theorem octets_utf8_le_iff {s t : List Char} : octets (utf8 s) ≤ octets (utf8 t) ↔ s ≤ t :=
  octets_utf8_strictMono.le_iff_le

/-- A sequence of scalar values is determined by its encoding. -/
theorem utf8_injective : Function.Injective utf8 := fun _ _ h =>
  octets_utf8_strictMono.injective (congrArg octets h)

/-! ## Decoding -/

/-- The scalar values a byte string encodes, when it is valid UTF-8. -/
def decode? (b : List UInt8) : Option (List Char) :=
  b.toByteArray.utf8Decode?.map Array.toList

/-- Decoding inverts encoding. -/
@[simp] theorem decode?_utf8 (s : List Char) : decode? (utf8 s) = some s := by
  change (List.utf8Encode s).utf8Decode?.map Array.toList = some s
  rw [List.utf8Decode?_utf8Encode]
  rfl

/-- Encoding inverts decoding, where there is anything to decode. -/
theorem utf8_of_decode? {b : List UInt8} {s : List Char} (h : decode? b = some s) : utf8 s = b := by
  have hvalid : b.toByteArray.utf8Decode?.isSome = true := by
    rw [decode?, Option.map_eq_some_iff] at h
    obtain ⟨a, ha, -⟩ := h
    rw [ha]
    rfl
  obtain ⟨t, ht⟩ := ByteArray.isSome_utf8Decode?_iff.1 hvalid
  have hbytes : (utf8 t).toByteArray = b.toByteArray := ht.symm
  obtain rfl := List.toByteArray_inj.1 hbytes
  rw [decode?_utf8] at h
  rw [Option.some.inj h]

end Utf8
