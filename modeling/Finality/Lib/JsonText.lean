import Mathlib.Data.List.Basic
import Mathlib.Data.List.Lex
import Mathlib.Data.Char
import Mathlib.Order.Monotone.Basic
import Finality.Lib.KeyOrder
import Finality.Lib.Hex

/-!
# Compact JSON text

`Json` is the tree of a JSON document whose numbers are integers, and `dumps` writes it without
whitespace, with the escapes of RFC 8259's short form and `\u00xx` for the other control
characters. Members are written in the order the object lists them; `sortKeys` puts every object
of a tree in key order, and `KeysSorted` says that they are.

`joinFrom` is the loop of an encoder that writes a comma in front of every item but the first.
-/

namespace JsonText

open KeyOrder

/-- A JSON document with integer numbers. -/
inductive Json where
  | null
  | bool (b : Bool)
  | int (i : Int)
  | str (s : List Char)
  | arr (xs : List Json)
  | obj (ms : List (List Char × Json))

/-- A character inside a JSON string. -/
def escapeChar (c : Char) : List Char :=
  if c = '"' then ['\\', '"']
  else if c = '\\' then ['\\', '\\']
  else if c = '\n' then ['\\', 'n']
  else if c = '\r' then ['\\', 'r']
  else if c = '\t' then ['\\', 't']
  else if c = Char.ofNat 0x0c then ['\\', 'f']
  else if c = Char.ofNat 0x08 then ['\\', 'b']
  else if c.toNat < 0x20 then
    ['\\', 'u', '0', '0', Nat.digitChar (c.toNat / 16), Nat.digitChar (c.toNat % 16)]
  else [c]

/-- ASCII characters and their codes. -/
theorem toNat_ofNat_ascii : ∀ n : Fin 128, (Char.ofNat n.val).toNat = n.val := by decide

/-- Nothing beyond ASCII is escaped. -/
theorem escapeChar_of_le {c : Char} (h : 128 ≤ c.toNat) : escapeChar c = [c] := by
  have hne : ∀ n < 128, c ≠ Char.ofNat n := by
    intro n hn hc
    rw [hc, toNat_ofNat_ascii ⟨n, hn⟩] at h
    exact absurd hn (Nat.not_lt.2 h)
  simp only [escapeChar, hne 0x08 (by decide), hne 0x0c (by decide),
    show c ≠ '"' from hne 0x22 (by decide), show c ≠ '\\' from hne 0x5c (by decide),
    show c ≠ '\n' from hne 0x0a (by decide), show c ≠ '\r' from hne 0x0d (by decide),
    show c ≠ '\t' from hne 0x09 (by decide), show ¬ c.toNat < 0x20 by omega, if_false]

/-- A JSON string. -/
def quote (s : List Char) : List Char :=
  '"' :: (s.flatMap escapeChar ++ ['"'])

/-- An integer in plain decimal spelling. -/
def intText (i : Int) : List Char :=
  if i < 0 then '-' :: Nat.toDigits 10 i.natAbs else Nat.toDigits 10 i.natAbs

/-- Texts separated by commas. -/
def commaJoin (ts : List (List Char)) : List Char :=
  List.intercalate [','] ts

mutual

/-- The compact text of a document. -/
def dumps : Json → List Char
  | .null => ['n', 'u', 'l', 'l']
  | .bool true => ['t', 'r', 'u', 'e']
  | .bool false => ['f', 'a', 'l', 's', 'e']
  | .int i => intText i
  | .str s => quote s
  | .arr xs => '[' :: (commaJoin (dumpsItems xs) ++ [']'])
  | .obj ms => '{' :: (commaJoin (dumpsMembers ms) ++ ['}'])

/-- The texts of an array's items. -/
def dumpsItems : List Json → List (List Char)
  | [] => []
  | x :: xs => dumps x :: dumpsItems xs

/-- The texts of an object's members. -/
def dumpsMembers : List (List Char × Json) → List (List Char)
  | [] => []
  | (k, v) :: ms => (quote k ++ ':' :: dumps v) :: dumpsMembers ms

end

/-- The texts of the members of an object, one by one. -/
theorem dumpsMembers_eq : ∀ ms : List (List Char × Json),
    dumpsMembers ms = ms.map fun m => quote m.1 ++ ':' :: dumps m.2
  | [] => rfl
  | (k, v) :: ms => by
    rw [dumpsMembers, dumpsMembers_eq ms]
    rfl

mutual

/-- Put the members of every object in key order. -/
def sortKeys : Json → Json
  | .arr xs => .arr (sortKeysItems xs)
  | .obj ms => .obj (sortByKey (sortKeysMembers ms))
  | v => v

/-- `sortKeys` over the items of an array. -/
def sortKeysItems : List Json → List Json
  | [] => []
  | x :: xs => sortKeys x :: sortKeysItems xs

/-- `sortKeys` over the member values of an object. -/
def sortKeysMembers : List (List Char × Json) → List (List Char × Json)
  | [] => []
  | (k, v) :: ms => (k, sortKeys v) :: sortKeysMembers ms

end

mutual

/-- Every object of the document lists distinct keys, in increasing order. -/
def KeysSorted : Json → Prop
  | .arr xs => KeysSortedItems xs
  | .obj ms => (ms.map Prod.fst).Pairwise (· < ·) ∧ KeysSortedMembers ms
  | _ => True

/-- `KeysSorted` over the items of an array. -/
def KeysSortedItems : List Json → Prop
  | [] => True
  | x :: xs => KeysSorted x ∧ KeysSortedItems xs

/-- `KeysSorted` over the member values of an object. -/
def KeysSortedMembers : List (List Char × Json) → Prop
  | [] => True
  | (_, v) :: ms => KeysSorted v ∧ KeysSortedMembers ms

end

/-- `KeysSortedMembers` in the per-element form. -/
theorem keysSortedMembers_iff (ms : List (List Char × Json)) :
    KeysSortedMembers ms ↔ ∀ m ∈ ms, KeysSorted m.2 := by
  induction ms with
  | nil => simp [KeysSortedMembers]
  | cons m ms ih => obtain ⟨k, v⟩ := m; simp [KeysSortedMembers, ih]

mutual

/-- Sorting the keys of a document that has them sorted changes nothing. -/
theorem sortKeys_eq_self : ∀ v : Json, KeysSorted v → sortKeys v = v
  | .null, _ | .bool _, _ | .int _, _ | .str _, _ => by simp [sortKeys]
  | .arr xs, h => by
      rw [sortKeys, sortKeysItems_eq_self xs (by simpa [KeysSorted] using h)]
  | .obj ms, h => by
      rw [KeysSorted] at h
      rw [sortKeys, sortKeysMembers_eq_self ms h.2, sortByKey_eq_self h.1]

/-- Items that are sorted inside stay as they are. -/
theorem sortKeysItems_eq_self : ∀ xs : List Json, KeysSortedItems xs → sortKeysItems xs = xs
  | [], _ => rfl
  | x :: xs, h => by
      rw [KeysSortedItems] at h
      rw [sortKeysItems, sortKeys_eq_self x h.1, sortKeysItems_eq_self xs h.2]

/-- So do members. -/
theorem sortKeysMembers_eq_self : ∀ ms : List (List Char × Json), KeysSortedMembers ms →
    sortKeysMembers ms = ms
  | [], _ => rfl
  | (k, v) :: ms, h => by
      rw [KeysSortedMembers] at h
      rw [sortKeysMembers, sortKeys_eq_self v h.1, sortKeysMembers_eq_self ms h.2]

end

/-! ## Reading an integer -/

/-- The natural number that a text of decimal digits spells. -/
def readNat (s : List Char) : Option Nat :=
  if s ≠ [] ∧ s.all Char.isDigit then some (Nat.ofDigitChars 10 s 0) else none

/-- The integer that a decimal text with an optional sign spells. -/
def readInt : List Char → Option Int
  | '-' :: s => (readNat s).map fun n : Nat => -(n : Int)
  | '+' :: s => (readNat s).map Int.ofNat
  | s => (readNat s).map Int.ofNat

/-- Reading back the digits of a natural number. -/
theorem readNat_toDigits (n : Nat) : readNat (Nat.toDigits 10 n) = some n := by
  have hdigits : (Nat.toDigits 10 n).all Char.isDigit = true :=
    List.all_eq_true.2 fun _ hc => Nat.isDigit_of_mem_toDigits (by decide) (by decide) hc
  rw [readNat, if_pos ⟨Nat.toDigits_ne_nil, hdigits⟩, Nat.ofDigitChars_ten_toDigits]

/-- The plain decimal spelling is read back. -/
@[simp] theorem readInt_intText (i : Int) : readInt (intText i) = some i := by
  unfold intText
  split
  · rw [readInt, readNat_toDigits, Option.map_some]
    exact congrArg some (by omega)
  · have hread : readInt (Nat.toDigits 10 i.natAbs) =
        (readNat (Nat.toDigits 10 i.natAbs)).map Int.ofNat := by
      -- the first digit is neither of the signs
      unfold readInt
      split
      · rename_i h
        have hd := Nat.isDigit_of_mem_toDigits (b := 10) (n := i.natAbs) (c := '-') (by decide)
          (by decide) (by rw [h]; exact .head _)
        exact absurd hd (by decide)
      · rename_i h
        have hd := Nat.isDigit_of_mem_toDigits (b := 10) (n := i.natAbs) (c := '+') (by decide)
          (by decide) (by rw [h]; exact .head _)
        exact absurd hd (by decide)
      · rfl
    rw [hread, readNat_toDigits, Option.map_some]
    exact congrArg some (by simp only [Int.ofNat_eq_natCast]; omega)

/-! ## Reading a text back from the front -/

/-- `r` does not continue a number. -/
def NoDigitHead (r : List Char) : Prop :=
  ∀ c ∈ r.head?, c.isDigit = false

@[simp] theorem noDigitHead_nil : NoDigitHead [] := by simp [NoDigitHead]

@[simp] theorem noDigitHead_cons {c : Char} {r : List Char} :
    NoDigitHead (c :: r) ↔ c.isDigit = false := by simp [NoDigitHead]

/-- Taking the digits in front of a text that starts with none. -/
theorem takeWhile_digits {ds r : List Char} (hd : ∀ c ∈ ds, c.isDigit = true)
    (hr : NoDigitHead r) : (ds ++ r).takeWhile Char.isDigit = ds := by
  rw [List.takeWhile_append_of_pos hd]
  cases r with
  | nil => simp
  | cons c r => simp [noDigitHead_cons.1 hr]

/-- The first character of a natural number's digits is a digit. -/
theorem toDigits_eq_cons (n : Nat) : ∃ d ds, Nat.toDigits 10 n = d :: ds ∧ d.isDigit = true := by
  cases h : Nat.toDigits 10 n with
  | nil => exact absurd h Nat.toDigits_ne_nil
  | cons d ds =>
      exact ⟨d, ds, rfl, Nat.isDigit_of_mem_toDigits (b := 10) (n := n) (by decide) (by decide)
        (by rw [h]; exact .head _)⟩

/-- Comma-separated texts, the first one apart. -/
theorem commaJoin_cons (t : List Char) (ts : List (List Char)) :
    commaJoin (t :: ts) = t ++ ts.flatMap fun u => ',' :: u := by
  induction ts generalizing t with
  | nil => simp [commaJoin]
  | cons u ts ih =>
      have hu := ih u
      simp only [commaJoin, List.intercalate_cons_cons] at hu ⊢
      simp [hu]

/-- Comma-separated texts from the one of the given index on: a comma stands in front of each but
the first. -/
def joinFrom (i : Nat) (ts : List (List Char)) : List Char :=
  if i > 0 then ts.flatMap fun u => ',' :: u else commaJoin ts

@[simp] theorem joinFrom_nil (i : Nat) : joinFrom i [] = [] := by
  simp [joinFrom, commaJoin]

/-- A comma goes before every text but the first. -/
theorem joinFrom_cons (i : Nat) (t : List Char) (ts : List (List Char)) :
    joinFrom i (t :: ts) = (if i > 0 then [','] else []) ++ t ++ joinFrom (i + 1) ts := by
  simp only [joinFrom, Nat.succ_pos, gt_iff_lt, if_true, commaJoin_cons]
  split <;> simp

@[simp] theorem joinFrom_zero (ts : List (List Char)) : joinFrom 0 ts = commaJoin ts := rfl

end JsonText
