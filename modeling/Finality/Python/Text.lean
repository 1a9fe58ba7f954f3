import Mathlib.Data.Fin.Basic
import Finality.Lib.Utf8
import Finality.Lib.Hex

/-!
# Python strings and the runtime they are normalised in

A Python `str` is a sequence of code points, surrogates included (`PyStr`); a string without
surrogates is a sequence of scalar values, which is what `unicodedata.normalize` is applied to.
`Runtime` collects the three library functions the reference implementation leans on: NFC, SHA-256
and HMAC-SHA-256. They are parameters here, with the documented facts about them that the code
relies on as fields.
-/

namespace Finality

/-- A code point, as `ord` gives it. -/
abbrev CodePoint := Fin 0x110000

/-- A Python `str`. -/
abbrev PyStr := List CodePoint

instance : LawfulBEq PyStr := inferInstance

/-- `0xD800 <= ord(ch) <= 0xDFFF` -/
def isSurrogate (c : CodePoint) : Bool :=
  0xD800 ≤ c.val && c.val ≤ 0xDFFF

/-- `any(0xD800 <= ord(ch) <= 0xDFFF for ch in value)` -/
def hasSurrogate (s : PyStr) : Bool :=
  s.any isSurrogate

/-- The code point of a scalar value. -/
def ofChar (c : Char) : CodePoint :=
  ⟨c.toNat, Utf8.toNat_lt c⟩

/-- The string of a sequence of scalar values. -/
def ofText (s : List Char) : PyStr :=
  s.map ofChar

/-- The scalar values of a string; only read where the string has no surrogate. -/
def toText (s : PyStr) : List Char :=
  s.map fun c => Char.ofNat c.val

/-- A string literal of the source. -/
def py (s : String) : PyStr :=
  ofText s.toList

@[simp] theorem toNat_ofChar (c : Char) : (ofChar c).val = c.toNat := rfl

/-- No character is a surrogate. -/
theorem isSurrogate_ofChar (c : Char) : isSurrogate (ofChar c) = false := by
  have h := c.valid
  simp only [UInt32.isValidChar, Nat.isValidChar] at h
  have hn : ¬ (0xD800 ≤ c.toNat ∧ c.toNat ≤ 0xDFFF) := by
    change ¬ (0xD800 ≤ c.val.toNat ∧ c.val.toNat ≤ 0xDFFF)
    omega
  change (decide (0xD800 ≤ c.toNat) && decide (c.toNat ≤ 0xDFFF)) = false
  simpa using hn

/-- No text holds a surrogate. -/
@[simp] theorem hasSurrogate_ofText (s : List Char) : hasSurrogate (ofText s) = false := by
  simp only [hasSurrogate, ofText, List.any_map, List.any_eq_false, Function.comp_apply]
  exact fun c _ => by simp [isSurrogate_ofChar c]

/-- A text is read back from the string that spells it. -/
@[simp] theorem toText_ofText (s : List Char) : toText (ofText s) = s := by
  simp [toText, ofText, Function.comp_def, Char.ofNat_toNat]

/-- Different texts are different strings. -/
theorem ofText_injective : Function.Injective ofText :=
  Function.LeftInverse.injective toText_ofText

@[simp] theorem ofText_inj {s t : List Char} : ofText s = ofText t ↔ s = t :=
  ofText_injective.eq_iff

/-- A string without surrogates is the string of its scalar values. -/
theorem ofText_toText {s : PyStr} (h : hasSurrogate s = false) : ofText (toText s) = s := by
  simp only [hasSurrogate, List.any_eq_false] at h
  simp only [ofText, toText, List.map_map]
  refine (List.map_congr_left fun c hc => ?_).trans (List.map_id s)
  have hs := h c hc
  have hc := c.isLt
  simp only [isSurrogate, Bool.and_eq_true, decide_eq_true_eq] at hs
  apply Fin.ext
  have hv : (c.val).isValidChar := by
    simp only [Nat.isValidChar]
    omega
  change (Char.ofNat c.val).toNat = c.val
  rw [Char.ofNat, dif_pos hv]
  rfl

/-- Different literals are different strings. -/
@[simp] theorem py_inj {s t : String} : py s = py t ↔ s = t := by
  simp [py, String.toList_inj]

/-- The characters that the identifiers and digests of the source are spelled with: digits,
lower-case letters, `_` and `$`. No other character of any Unicode version normalises to one. -/
def isInert (c : Char) : Bool :=
  c.isDigit || c.isLower || c == '_' || c == '$'

/-- Lowercase hexadecimal digits are left alone by NFC. -/
theorem isInert_of_isHexDigit {c : Char} (h : Hex.isHexDigit c = true) : isInert c = true := by
  have hr := Hex.toNat_of_isHexDigit h
  rw [← Char.ofNat_toNat c]
  generalize c.toNat = n at hr
  have hall : ∀ n < 103, 48 ≤ n ∧ n ≤ 57 ∨ 97 ≤ n ∧ n ≤ 102 →
      isInert (Char.ofNat n) = true := by decide
  exact hall n (by omega) hr

/-- Only ASCII characters are called inert. -/
theorem isInert.ascii {c : Char} (h : isInert c = true) : c.toNat < 128 := by
  simp only [isInert, Bool.or_eq_true, beq_iff_eq] at h
  rcases h with ((hdigit | hlower) | rfl) | rfl
  · obtain ⟨-, h⟩ := (Bool.and_eq_true _ _).mp hdigit
    exact Nat.lt_of_le_of_lt (UInt32.le_iff_toNat_le.1 (of_decide_eq_true h)) (by decide)
  · obtain ⟨-, h⟩ := (Bool.and_eq_true _ _).mp hlower
    exact Nat.lt_of_le_of_lt (UInt32.le_iff_toNat_le.1 (of_decide_eq_true h)) (by decide)
  · decide
  · decide

/-- The test that a text is ASCII, run over the text. -/
theorem ascii_of_all {s : List Char} (h : s.all (fun c => c.toNat < 128) = true) :
    ∀ c ∈ s, c.toNat < 128 := by
  simpa using h

/-- The library functions the reference implementation is built on. -/
structure Runtime where
  /-- `unicodedata.normalize("NFC", s)` on a string without surrogates. -/
  nfc : List Char → List Char
  /-- Normalising is idempotent. -/
  nfc_idem : ∀ s, nfc (nfc s) = nfc s
  /-- Text that contains only ASCII is unaffected by normalisation. -/
  nfc_ascii : ∀ s, (∀ c ∈ s, c.toNat < 128) → nfc s = s
  /-- A string whose normal form is spelled with inert characters only is that normal form. -/
  nfc_inert : ∀ s, (∀ c ∈ nfc s, isInert c = true) → nfc s = s
  /-- `hashlib.sha256(data).hexdigest()` -/
  sha256 : List UInt8 → List Char
  /-- A digest is written in lower-case hexadecimal. -/
  sha256_isHex : ∀ b, ∀ c ∈ sha256 b, Hex.isHexDigit c = true
  /-- `hmac.new(key, data, hashlib.sha256).hexdigest()` -/
  hmac_sha256 : List UInt8 → List UInt8 → List Char
  /-- So is an authentication code. -/
  hmac_isHex : ∀ k b, ∀ c ∈ hmac_sha256 k b, Hex.isHexDigit c = true

end Finality
