import Mathlib.Data.Char
import Mathlib.Data.List.Basic
import Mathlib.Tactic.SplitIfs

/-!
# Lower-case hexadecimal text

Two digits a byte, as `bytes.hex()` writes them, and the strict reading back. Libraries that read
hexadecimal take digits of either case: `read?` refuses a text that is not an even number of digits,
`readPrefix` stops in front of the first pair that is not, and `readSpaced?` skips spaces between
the bytes. They read character codes, which are the same in any encoding of the text.
-/

namespace Hex

/-- The lower-case hexadecimal digits. -/
def isHexDigit (c : Char) : Bool :=
  c.isDigit || ('a' ≤ c && c ≤ 'f')

/-- The value of a lower-case hexadecimal digit. -/
def val (c : Char) : Nat :=
  if c.isDigit then c.toNat - 48 else c.toNat - 87

/-- The value of a digit. -/
theorem val_digitChar : ∀ d < 16, val (Nat.digitChar d) = d := by decide

/-- Digits are lowercase hexadecimal digits. -/
theorem isHexDigit_digitChar : ∀ d < 16, isHexDigit (Nat.digitChar d) = true := by decide

/-- The code of a hexadecimal digit lies in one of two ranges. -/
theorem toNat_of_isHexDigit {c : Char} (h : isHexDigit c = true) :
    48 ≤ c.toNat ∧ c.toNat ≤ 57 ∨ 97 ≤ c.toNat ∧ c.toNat ≤ 102 := by
  simp only [isHexDigit, Char.isDigit, Bool.or_eq_true, Bool.and_eq_true, decide_eq_true_eq] at h
  exact h

/-- The digit of a value. -/
theorem digitChar_val {c : Char} (h : isHexDigit c = true) : Nat.digitChar (val c) = c := by
  have hr := toNat_of_isHexDigit h
  rw [← Char.ofNat_toNat c]
  generalize c.toNat = n at hr
  have hall : ∀ n < 103, 48 ≤ n ∧ n ≤ 57 ∨ 97 ≤ n ∧ n ≤ 102 →
      Nat.digitChar (val (Char.ofNat n)) = Char.ofNat n := by decide
  exact hall n (by omega) hr

/-- A digit is below sixteen. -/
theorem val_lt {c : Char} (h : isHexDigit c = true) : val c < 16 := by
  have hr := toNat_of_isHexDigit h
  have hd : c.isDigit = true ↔ 48 ≤ c.toNat ∧ c.toNat ≤ 57 := Char.isDigit_iff_toNat
  simp only [val, hd]
  split <;> omega

/-- The two digits of a byte. -/
def ofByte (b : UInt8) : List Char :=
  [Nat.digitChar (b.toNat / 16), Nat.digitChar (b.toNat % 16)]

/-- The digits of a byte string. -/
def encode (bs : List UInt8) : List Char :=
  bs.flatMap ofByte

@[simp] theorem encode_nil : encode [] = [] := rfl

@[simp] theorem encode_cons (b : UInt8) (bs : List UInt8) :
    encode (b :: bs) = ofByte b ++ encode bs :=
  rfl

/-- Read lower-case digits back, two a byte. -/
def decode? : List Char → Option (List UInt8)
  | [] => some []
  | [_] => none
  | a :: b :: r =>
      if isHexDigit a && isHexDigit b then
        (decode? r).map (UInt8.ofNat (16 * val a + val b) :: ·)
      else none

/-- Only lowercase digits are written. -/
theorem isHexDigit_encode {bs : List UInt8} {c : Char} (h : c ∈ encode bs) :
    isHexDigit c = true := by
  obtain ⟨b, -, hb⟩ := List.mem_flatMap.1 h
  have hlt : b.toNat < 256 := b.toNat_lt
  simp only [ofByte, List.mem_cons, List.not_mem_nil, or_false] at hb
  rcases hb with rfl | rfl
  · exact isHexDigit_digitChar _ (by omega)
  · exact isHexDigit_digitChar _ (by omega)

/-- What is written can be read back. -/
@[simp] theorem decode?_encode (bs : List UInt8) : decode? (encode bs) = some bs := by
  induction bs with
  | nil => rfl
  | cons b bs ih =>
    have hlt : b.toNat < 256 := b.toNat_lt
    have hh := isHexDigit_digitChar (b.toNat / 16) (by omega)
    have hl := isHexDigit_digitChar (b.toNat % 16) (by omega)
    simp only [encode_cons, ofByte, List.cons_append, List.nil_append, decode?, hh, hl, ih,
      val_digitChar _ (show b.toNat / 16 < 16 by omega), Nat.div_add_mod,
      val_digitChar _ (show b.toNat % 16 < 16 by omega), Bool.and_self, if_true, Option.map_some,
      UInt8.ofNat_toNat]

/-- The digits determine the bytes. -/
theorem encode_injective : Function.Injective encode := fun a b h => by
  simpa using congrArg decode? h

/-- Text that can be read back is the digits of what was read. -/
theorem encode_of_decode? : ∀ {s : List Char} {bs : List UInt8}, decode? s = some bs → encode bs = s
  | [], bs, h => by
    obtain rfl : [] = bs := by simpa [decode?] using h
    rfl
  | [c], bs, h => by simp [decode?] at h
  | a :: b :: r, bs, h => by
    simp only [decode?] at h
    split at h
    · rename_i hab
      simp only [Bool.and_eq_true] at hab
      obtain ⟨t, ht, rfl⟩ := Option.map_eq_some_iff.1 h
      have hva := val_lt hab.1
      have hvb := val_lt hab.2
      have hn : (UInt8.ofNat (16 * val a + val b)).toNat = 16 * val a + val b := by
        rw [UInt8.toNat_ofNat']
        omega
      rw [encode_cons, encode_of_decode? ht, ofByte, hn,
        show (16 * val a + val b) / 16 = val a by omega,
        show (16 * val a + val b) % 16 = val b by omega, digitChar_val hab.1, digitChar_val hab.2]
      rfl
    · exact absurd h (by simp)

/-! ## Digits of either case -/

/-- The value of the digit with a code. -/
def digit? (n : Nat) : Option Nat :=
  if 48 ≤ n ∧ n ≤ 57 then some (n - 48)
  else if 65 ≤ n ∧ n ≤ 70 then some (n - 55)
  else if 97 ≤ n ∧ n ≤ 102 then some (n - 87)
  else none

/-- Read digits, two a byte. -/
def read? : List Nat → Option (List UInt8)
  | [] => some []
  | [_] => none
  | a :: b :: r => (digit? a).bind fun x => (digit? b).bind fun y =>
      (read? r).map (UInt8.ofNat (16 * x + y) :: ·)

/-- Read digits, two a byte, while there are any. -/
def readPrefix : List Nat → List UInt8
  | [] => []
  | [_] => []
  | a :: b :: r =>
      match digit? a, digit? b with
      | some x, some y => UInt8.ofNat (16 * x + y) :: readPrefix r
      | _, _ => []

/-- The codes of a text. -/
def codes (s : List Char) : List Nat := s.map Char.toNat

/-- Digits are ASCII. -/
theorem lt_of_digit? {n d : Nat} (h : digit? n = some d) : n < 128 := by
  unfold digit? at h
  split_ifs at h <;> omega

/-- What is read whole is read. -/
theorem readPrefix_of_read? : ∀ {cs : List Nat} {bs : List UInt8}, read? cs = some bs →
    readPrefix cs = bs
  | [], bs, h => Option.some.inj h
  | [_], _, h => by cases h
  | a :: b :: r, bs, h => by
    rw [read?] at h
    obtain ⟨x, hx, h⟩ := Option.bind_eq_some_iff.1 h
    obtain ⟨y, hy, h⟩ := Option.bind_eq_some_iff.1 h
    obtain ⟨t, ht, rfl⟩ := Option.map_eq_some_iff.1 h
    simp only [readPrefix, hx, hy, readPrefix_of_read? ht]

/-- Text that is read whole is ASCII. -/
theorem lt_of_read? : ∀ {cs : List Nat} {bs : List UInt8}, read? cs = some bs →
    ∀ c ∈ cs, c < 128
  | [], _, _ => by simp
  | [_], _, h => by cases h
  | a :: b :: r, bs, h => by
    rw [read?] at h
    obtain ⟨x, hx, h⟩ := Option.bind_eq_some_iff.1 h
    obtain ⟨y, hy, h⟩ := Option.bind_eq_some_iff.1 h
    obtain ⟨t, ht, -⟩ := Option.map_eq_some_iff.1 h
    rw [List.forall_mem_cons, List.forall_mem_cons]
    exact ⟨lt_of_digit? hx, lt_of_digit? hy, lt_of_read? ht⟩

/-- The digits that are written can be read. -/
theorem digit?_digitChar : ∀ d < 16, digit? (Nat.digitChar d).toNat = some d := by decide

/-- The digits of a byte string are read back. -/
@[simp] theorem read?_encode (bs : List UInt8) : read? (codes (encode bs)) = some bs := by
  induction bs with
  | nil => rfl
  | cons b bs ih =>
    have hlt : b.toNat < 256 := b.toNat_lt
    rw [codes] at ih
    simp only [codes, encode_cons, ofByte, List.cons_append, List.nil_append, List.map_cons, read?,
      digit?_digitChar _ (show b.toNat / 16 < 16 by omega),
      digit?_digitChar _ (show b.toNat % 16 < 16 by omega), Option.bind_some, ih, Option.map_some,
      Nat.div_add_mod, UInt8.ofNat_toNat]

/-- The code of an ASCII space. -/
def isBlank (n : Nat) : Bool := (9 ≤ n && n ≤ 13) || n = 32

/-- Read digits, two a byte, with spaces between the bytes. -/
def readSpaced? : List Nat → Option (List UInt8)
  | [] => some []
  | [a] => if isBlank a then some [] else none
  | a :: b :: r =>
      if isBlank a then readSpaced? (b :: r)
      else (digit? a).bind fun x => (digit? b).bind fun y =>
        (readSpaced? r).map (UInt8.ofNat (16 * x + y) :: ·)

/-- A digit is no space. -/
theorem isBlank_of_digit? {n d : Nat} (h : digit? n = some d) : isBlank n = false := by
  unfold digit? at h
  unfold isBlank
  split_ifs at h <;> simp only [Bool.or_eq_false_iff, Bool.and_eq_false_iff,
    decide_eq_false_iff_not] <;> omega

/-- What is read without spaces is read the same with them allowed. -/
theorem readSpaced?_of_read? : ∀ {cs : List Nat} {bs : List UInt8}, read? cs = some bs →
    readSpaced? cs = some bs
  | [], _, h => h
  | [_], _, h => by cases h
  | a :: b :: r, bs, h => by
    rw [read?] at h
    obtain ⟨x, hx, h⟩ := Option.bind_eq_some_iff.1 h
    obtain ⟨y, hy, h⟩ := Option.bind_eq_some_iff.1 h
    obtain ⟨t, ht, rfl⟩ := Option.map_eq_some_iff.1 h
    simp [readSpaced?, isBlank_of_digit? hx, hx, hy, readSpaced?_of_read? ht]

/-- Text that is read with spaces allowed is ASCII. -/
theorem lt_of_readSpaced? : ∀ {cs : List Nat} {bs : List UInt8}, readSpaced? cs = some bs →
    ∀ c ∈ cs, c < 128
  | [], _, _ => by simp
  | [a], _, h => by
    have hblank : isBlank a = true := by
      by_contra hblank
      simp [readSpaced?, hblank] at h
    simp only [isBlank, Bool.or_eq_true, Bool.and_eq_true, decide_eq_true_eq] at hblank
    simp only [List.mem_singleton, forall_eq]
    omega
  | a :: b :: r, bs, h => by
    rw [readSpaced?] at h
    split at h
    · rename_i hblank
      simp only [isBlank, Bool.or_eq_true, Bool.and_eq_true, decide_eq_true_eq] at hblank
      rw [List.forall_mem_cons]
      exact ⟨by omega, lt_of_readSpaced? h⟩
    · obtain ⟨x, hx, h⟩ := Option.bind_eq_some_iff.1 h
      obtain ⟨y, hy, h⟩ := Option.bind_eq_some_iff.1 h
      obtain ⟨t, ht, -⟩ := Option.map_eq_some_iff.1 h
      rw [List.forall_mem_cons, List.forall_mem_cons]
      exact ⟨lt_of_digit? hx, lt_of_digit? hy, lt_of_readSpaced? ht⟩

end Hex
