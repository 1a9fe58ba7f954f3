import Mathlib.Data.List.Basic
import Mathlib.Data.Char
import Mathlib.Tactic.SplitIfs
import Finality.Lib.Utf8

/-!
# UTF-16

Strings of 16-bit code units, as in languages whose strings are such. `utf16` encodes a sequence of
Unicode scalar values, and `decode` reads a string back, with U+FFFD for each unpaired surrogate as
an encoder to UTF-8 does; `decode_utf16` says that nothing is lost on the way. A function that
walks over code units is best compared with one over scalar values by `encodeChar_cases`: a scalar
value is one unit outside the surrogates, or a pair.
-/

namespace Utf16

/-- A code unit. -/
abbrev CodeUnit := Fin 0x10000

/-- A high surrogate. -/
def isHigh (u : CodeUnit) : Bool :=
  0xD800 ≤ u.val && u.val ≤ 0xDBFF

/-- A low surrogate. -/
def isLow (u : CodeUnit) : Bool :=
  0xDC00 ≤ u.val && u.val ≤ 0xDFFF

/-- The code units of one scalar value. -/
def encodeChar (c : Char) : List CodeUnit :=
  if h : c.toNat < 0x10000 then [⟨c.toNat, h⟩]
  else
    [⟨0xD800 + (c.toNat - 0x10000) / 0x400, by have := Utf8.toNat_lt c; omega⟩,
     ⟨0xDC00 + (c.toNat - 0x10000) % 0x400, by omega⟩]

/-- The code units of a sequence of scalar values. -/
def utf16 (s : List Char) : List CodeUnit :=
  s.flatMap encodeChar

@[simp] theorem utf16_nil : utf16 [] = [] := rfl

@[simp] theorem utf16_cons (c : Char) (s : List Char) :
    utf16 (c :: s) = encodeChar c ++ utf16 s := rfl

@[simp] theorem utf16_append (s t : List Char) : utf16 (s ++ t) = utf16 s ++ utf16 t := by
  simp [utf16]

/-- The scalar value of a surrogate pair. -/
def ofPair (hi lo : CodeUnit) : Char :=
  Char.ofNat (0x10000 + (hi.val - 0xD800) * 0x400 + (lo.val - 0xDC00))

/-- The scalar value of a code unit outside a pair. -/
def ofUnit (u : CodeUnit) : Char :=
  if isHigh u || isLow u then Char.ofNat 0xFFFD else Char.ofNat u.val

/-- The scalar values a string spells. -/
def decode : List CodeUnit → List Char
  | [] => []
  | [u] => [ofUnit u]
  | u :: v :: r =>
    if isHigh u && isLow v then ofPair u v :: decode r else ofUnit u :: decode (v :: r)

/-- **One scalar value**: a unit that is no surrogate, or a pair. -/
theorem encodeChar_cases (c : Char) :
    (∃ u : CodeUnit, encodeChar c = [u] ∧ u.val = c.toNat ∧ isHigh u = false ∧ isLow u = false) ∨
    ∃ hi lo, encodeChar c = [hi, lo] ∧ isHigh hi = true ∧ isLow lo = true ∧ ofPair hi lo = c ∧
      0x10000 ≤ c.toNat := by
  have hlt := Utf8.toNat_lt c
  unfold encodeChar
  split
  · rename_i h
    have hvalid : c.toNat < 0xD800 ∨ 0xDFFF < c.toNat := by
      rcases c.valid with hv | hv
      · exact .inl hv
      · exact .inr hv.1
    refine .inl ⟨_, rfl, rfl, ?_, ?_⟩ <;> simp only [isHigh, isLow, Bool.and_eq_false_iff,
      decide_eq_false_iff_not] <;> omega
  · rename_i h
    refine .inr ⟨_, _, rfl, ?_, ?_, ?_, by omega⟩
    · simp only [isHigh, Bool.and_eq_true, decide_eq_true_eq]
      omega
    · simp only [isLow, Bool.and_eq_true, decide_eq_true_eq]
      omega
    · have hsum : 0x10000 + (0xD800 + (c.toNat - 0x10000) / 0x400 - 0xD800) * 0x400 +
          (0xDC00 + (c.toNat - 0x10000) % 0x400 - 0xDC00) = c.toNat := by omega
      rw [ofPair, hsum, Char.ofNat_toNat]

/-- A character has the code point it is made from. -/
theorem toNat_ofNat {n : Nat} (h : n.isValidChar) : (Char.ofNat n).toNat = n := by
  rw [Char.ofNat, dif_pos h]
  rfl

/-- The number of a surrogate pair is a scalar value past the 16-bit ones. -/
theorem toNat_ofPair {hi lo : CodeUnit} (hh : isHigh hi = true) (hl : isLow lo = true) :
    (ofPair hi lo).toNat = 0x10000 + (hi.val - 0xD800) * 0x400 + (lo.val - 0xDC00) := by
  simp only [isHigh, isLow, Bool.and_eq_true, decide_eq_true_eq] at hh hl
  exact toNat_ofNat (.inr ⟨by omega, by omega⟩)

/-- The number of a unit outside the surrogates. -/
theorem toNat_ofUnit {u : CodeUnit} (hh : isHigh u = false) (hl : isLow u = false) :
    (ofUnit u).toNat = u.val := by
  rw [ofUnit, hh, hl]
  simp only [isHigh, isLow, Bool.and_eq_false_iff, decide_eq_false_iff_not] at hh hl
  have hv : u.val.isValidChar := by
    have := u.isLt
    simp only [Nat.isValidChar]
    omega
  exact toNat_ofNat hv

/-- A surrogate pair is the encoding of its scalar value. -/
theorem encodeChar_ofPair {hi lo : CodeUnit} (hh : isHigh hi = true) (hl : isLow lo = true) :
    encodeChar (ofPair hi lo) = [hi, lo] := by
  have hn := toNat_ofPair hh hl
  simp only [isHigh, isLow, Bool.and_eq_true, decide_eq_true_eq] at hh hl
  rw [encodeChar, dif_neg (by omega)]
  have hhi : 0xD800 + ((ofPair hi lo).toNat - 0x10000) / 0x400 = hi.val := by omega
  have hlo : 0xDC00 + ((ofPair hi lo).toNat - 0x10000) % 0x400 = lo.val := by omega
  exact congrArg₂ (fun u v => [u, v]) (Fin.ext hhi) (Fin.ext hlo)

/-- A unit outside the surrogates is the encoding of its scalar value. -/
theorem encodeChar_ofUnit {u : CodeUnit} (hh : isHigh u = false) (hl : isLow u = false) :
    encodeChar (ofUnit u) = [u] := by
  have hn := toNat_ofUnit hh hl
  rw [encodeChar, dif_pos (hn ▸ u.isLt)]
  exact congrArg (· :: []) (Fin.ext hn)

/-- A unit that opens no pair is decoded on its own. -/
theorem decode_cons {u : CodeUnit} (h : isHigh u = false) (r : List CodeUnit) :
    decode (u :: r) = ofUnit u :: decode r := by
  cases r with
  | nil => rfl
  | cons v r => simp [decode, h]

/-- A pair is decoded to one character. -/
theorem decode_pair {hi lo : CodeUnit} (hh : isHigh hi = true) (hl : isLow lo = true)
    (r : List CodeUnit) : decode (hi :: lo :: r) = ofPair hi lo :: decode r := by
  simp [decode, hh, hl]

/-- **Decoding inverts encoding.** -/
@[simp] theorem decode_utf16 (s : List Char) : decode (utf16 s) = s := by
  induction s with
  | nil => rfl
  | cons c s ih =>
    rcases encodeChar_cases c with ⟨u, hc, hu, hh, hl⟩ | ⟨hi, lo, hc, hh, hl, hpair, -⟩
    · rw [utf16_cons, hc, List.singleton_append, decode_cons hh, ih, ofUnit, hh, hl, hu]
      simp [Char.ofNat_toNat]
    · rw [utf16_cons, hc, List.cons_append, List.singleton_append, decode_pair hh hl, ih, hpair]

/-- A sequence of scalar values is determined by its code units. -/
theorem utf16_injective : Function.Injective utf16 :=
  Function.LeftInverse.injective decode_utf16

end Utf16
