import Finality.Lib.JsonRead
import Finality.Interop.NodeCanonical

/-!
# Scalar strings (`assertUnicodeScalarString`)

The Node test walks over the code units of a string with an index that it moves by one, or by two
after a pair. `assertFrom` is that loop; `assertFrom_eq` equates it with the recursion of
`NodeCanonical`. It lets a string through just when the units are the encoding of scalar values
(`assertUnicodeScalarString_ok_iff`).

A string literal of a JSON text is a sequence of pieces, raw characters and escapes. Node turns it
into code units (`jsUnits`), Python into code points, where it joins two escapes that make a pair
(`scanstring`). Python then looks for surrogates that are left, and finds one just when Node's test
throws.
-/

namespace Finality

open JsonText Utf16

namespace Node

/-! ## The loop -/

/-- `assertUnicodeScalarString` from index `i` of the loop on. -/
def assertFrom (s : JsStr) (i : Nat) : Except Err Unit :=
  if h : i < s.length then
    let cu := s[i]
    if isHigh cu then
      if h₁ : i + 1 < s.length then
        let lo := s[i + 1]
        if isLow lo then assertFrom s (i + 2) else .error .unpairedHighSurrogate
      else .error .unpairedHighSurrogate
    else if isLow cu then .error .unpairedLowSurrogate
    else assertFrom s (i + 1)
  else .ok ()
termination_by s.length - i

/-- **The loop is the recursion** over what is left of the string. -/
theorem assertFrom_eq (s : JsStr) (i : Nat) :
    assertFrom s i = assertUnicodeScalarString (s.drop i) := by
  induction i using assertFrom.induct s with
  | case1 i h cu hh h₁ lo hl ih =>
    rw [assertFrom, dif_pos h, if_pos hh, dif_pos h₁, if_pos hl, ih, List.drop_eq_getElem_cons h,
      List.drop_eq_getElem_cons h₁, assertUnicodeScalarString, if_pos hh, if_pos hl]
  | case2 i h cu hh h₁ lo hl =>
    rw [assertFrom, dif_pos h, if_pos hh, dif_pos h₁, if_neg hl, List.drop_eq_getElem_cons h,
      List.drop_eq_getElem_cons h₁, assertUnicodeScalarString, if_pos hh, if_neg hl]
  | case3 i h cu hh h₁ =>
    have hnil : s.drop (i + 1) = [] := List.drop_eq_nil_of_le (by omega)
    rw [assertFrom, dif_pos h, if_pos hh, dif_neg h₁, List.drop_eq_getElem_cons h, hnil,
      assertUnicodeScalarString, if_pos hh]
  | case4 i h cu hh hl =>
    rw [assertFrom, dif_pos h, if_neg hh, if_pos hl, List.drop_eq_getElem_cons h]
    cases s.drop (i + 1) with
    | nil => rw [assertUnicodeScalarString, if_neg hh, if_pos hl]
    | cons v r => rw [assertUnicodeScalarString, if_neg hh, if_pos hl]
  | case5 i h cu hh hl ih =>
    rw [assertFrom, dif_pos h, if_neg hh, if_neg hl, ih, List.drop_eq_getElem_cons h]
    cases s.drop (i + 1) with
    | nil => rw [assertUnicodeScalarString, assertUnicodeScalarString, if_neg hh, if_neg hl]
    | cons v r => rw [assertUnicodeScalarString.eq_3, if_neg hh, if_neg hl]
  | case6 i h =>
    rw [assertFrom, dif_neg h, List.drop_eq_nil_of_le (by omega), assertUnicodeScalarString]

/-! ## The strings that pass -/

/-- What passes is the encoding of a sequence of scalar values. -/
theorem exists_utf16 : ∀ {s : JsStr}, assertUnicodeScalarString s = .ok () → ∃ t, utf16 t = s
  | [], _ => ⟨[], rfl⟩
  | [cu], h => by
    rw [assertUnicodeScalarString] at h
    split at h
    · cases h
    · rename_i hh
      split at h
      · cases h
      · rename_i hl
        exact ⟨[ofUnit cu], by simp [encodeChar_ofUnit (u := cu) (by simpa using hh)
          (by simpa using hl)]⟩
  | cu :: lo :: s, h => by
    rw [assertUnicodeScalarString] at h
    split at h
    · rename_i hh
      split at h
      · rename_i hl
        obtain ⟨t, rfl⟩ := exists_utf16 h
        exact ⟨ofPair cu lo :: t, by rw [utf16_cons, encodeChar_ofPair hh hl]; rfl⟩
      · cases h
    · rename_i hh
      split at h
      · cases h
      · rename_i hl
        obtain ⟨t, ht⟩ := exists_utf16 h
        refine ⟨ofUnit cu :: t, ?_⟩
        rw [utf16_cons, encodeChar_ofUnit (by simpa using hh) (by simpa using hl), ht]
        rfl

/-- **The test is exact**: it passes the encodings of scalar values and nothing else. -/
theorem assertUnicodeScalarString_ok_iff {s : JsStr} :
    assertUnicodeScalarString s = .ok () ↔ ∃ t, utf16 t = s := by
  refine ⟨exists_utf16, fun h => ?_⟩
  obtain ⟨t, rfl⟩ := h
  exact assertUnicodeScalarString_utf16 t

end Node

/-! ## String literals -/

/-- A piece of a string literal: a character that stands for itself or has a one-letter escape, or
the number of a `\uXXXX`. -/
inductive Piece where
  | char (c : Char)
  | unit (u : CodeUnit)

/-- One more piece in front of what was read. -/
def pushPiece (p : Piece) (read : Option (List Piece × List Char)) :
    Option (List Piece × List Char) :=
  read.map fun (ps, r) => (p :: ps, r)

/-- The pieces of a string literal after its opening quote, and what comes after it. -/
def readPieces : List Char → Option (List Piece × List Char)
  | [] => none
  | '"' :: r => some ([], r)
  | '\\' :: 'u' :: a :: b :: c :: d :: r =>
      match hexValue4 a b c d with
      | none => none
      | some n => pushPiece (.unit (Fin.ofNat 0x10000 n)) (readPieces r)
  | '\\' :: c :: r =>
      match shortEscape c with
      | none => none
      | some c => pushPiece (.char c) (readPieces r)
  | c :: r => if c.toNat < 0x20 then none else pushPiece (.char c) (readPieces r)

/-- The code units that `JSON.parse` makes of a literal. -/
def jsUnits : List Piece → Node.JsStr
  | [] => []
  | .char c :: ps => encodeChar c ++ jsUnits ps
  | .unit u :: ps => u :: jsUnits ps

/-- The code point of a code unit outside a pair. -/
def ofUnitPoint (u : CodeUnit) : CodePoint := ⟨u.val, by omega⟩

theorem isSurrogate_ofUnitPoint (u : CodeUnit) :
    isSurrogate (ofUnitPoint u) = (isHigh u || isLow u) := by
  change (decide (0xD800 ≤ u.val) && decide (u.val ≤ 0xDFFF)) = _
  rw [Bool.eq_iff_iff]
  simp only [isHigh, isLow, Bool.and_eq_true, Bool.or_eq_true, decide_eq_true_eq]
  omega

/-- The code points that `json.loads` makes of a literal: two escapes that make a surrogate pair
are one code point. -/
def scanstring : List Piece → PyStr
  | [] => []
  | .char c :: ps => ofChar c :: scanstring ps
  | .unit u :: .unit v :: ps =>
      if isHigh u && isLow v then ofChar (ofPair u v) :: scanstring ps
      else ofUnitPoint u :: scanstring (.unit v :: ps)
  | .unit u :: ps => ofUnitPoint u :: scanstring ps

/-- The code points of a string of code units, with surrogate pairs combined. -/
def combine : Node.JsStr → PyStr
  | [] => []
  | [u] => [ofUnitPoint u]
  | u :: v :: s =>
      if isHigh u && isLow v then ofChar (ofPair u v) :: combine s
      else ofUnitPoint u :: combine (v :: s)

theorem combine_cons {u : CodeUnit} {s : Node.JsStr}
    (h : ∀ v r, s = v :: r → (isHigh u && isLow v) = false) :
    combine (u :: s) = ofUnitPoint u :: combine s := by
  cases s with
  | nil => rfl
  | cons v r => rw [combine, if_neg (by simp [h v r rfl])]

/-- A character of its own is decoded whole. -/
theorem combine_encodeChar (c : Char) (s : Node.JsStr) :
    combine (encodeChar c ++ s) = ofChar c :: combine s := by
  rcases encodeChar_cases c with ⟨u, hc, hu, hh, -⟩ | ⟨hi, lo, hc, hh, hl, hp, -⟩
  · rw [hc, List.singleton_append, combine_cons fun _ _ _ => by rw [hh]; rfl]
    exact congrArg (· :: combine s) (Fin.ext hu)
  · rw [hc, List.cons_append, List.singleton_append, combine, hh, hl, hp]
    rfl

/-- No character starts with a low surrogate. -/
theorem isLow_encodeChar {c : Char} {v : CodeUnit} {s r : Node.JsStr}
    (h : encodeChar c ++ s = v :: r) : isLow v = false := by
  rcases encodeChar_cases c with ⟨u, hc, -, -, hl⟩ | ⟨hi, lo, hc, hh, -⟩
  · rw [hc, List.singleton_append, List.cons.injEq] at h
    exact h.1 ▸ hl
  · rw [hc, List.cons_append, List.cons.injEq] at h
    rw [← h.1]
    simp only [isHigh, isLow, Bool.and_eq_true, Bool.and_eq_false_iff, decide_eq_true_eq,
      decide_eq_false_iff_not] at hh ⊢
    omega

/-- **Both read the same literal**: Python's code points are Node's units with the pairs
combined. -/
theorem scanstring_eq : ∀ ps : List Piece, scanstring ps = combine (jsUnits ps)
  | [] => rfl
  | .char c :: ps => by rw [scanstring, jsUnits, combine_encodeChar, scanstring_eq ps]
  | .unit u :: .unit v :: ps => by
    rw [scanstring, jsUnits, jsUnits, combine, scanstring_eq ps, scanstring_eq (.unit v :: ps)]
    rfl
  | [.unit u] => rfl
  | .unit u :: .char c :: ps => by
    rw [scanstring, scanstring_eq (.char c :: ps), jsUnits]
    · refine (combine_cons fun v r hs => ?_).symm
      rw [isLow_encodeChar hs, Bool.and_false]
    · intro v ps h
      cases h

/-- A string without surrogates once its pairs are combined passes Node's test, and no other. -/
theorem ok_iff_hasSurrogate_combine : ∀ s : Node.JsStr,
    Node.assertUnicodeScalarString s = .ok () ↔ hasSurrogate (combine s) = false
  | [] => by simp [Node.assertUnicodeScalarString, combine, hasSurrogate]
  | [u] => by
    rw [Node.assertUnicodeScalarString, combine, hasSurrogate, List.any_cons, List.any_nil,
      Bool.or_false, isSurrogate_ofUnitPoint]
    cases isHigh u <;> cases isLow u <;> simp
  | u :: v :: s => by
    have ih := ok_iff_hasSurrogate_combine s
    have ih' := ok_iff_hasSurrogate_combine (v :: s)
    rw [Node.assertUnicodeScalarString, combine]
    cases hh : isHigh u with
    | true =>
      cases hl : isLow v with
      | true => simpa [hasSurrogate, isSurrogate_ofChar] using ih
      | false => simp [hasSurrogate, isSurrogate_ofUnitPoint, hh]
    | false =>
      cases hl : isLow u with
      | true => simp [hasSurrogate, isSurrogate_ofUnitPoint, hl]
      | false => simpa [hasSurrogate, isSurrogate_ofUnitPoint, hh, hl] using ih'

/-! ## The two verdicts -/

/-- The string that `JSON.parse` reads after an opening quote. -/
def Node.readString (text : List Char) : Option (Node.JsStr × List Char) :=
  (readPieces text).map fun (ps, r) => (jsUnits ps, r)

/-- The string that `json.loads` reads after an opening quote. -/
def loadsString (text : List Char) : Option (PyStr × List Char) :=
  (readPieces text).map fun (ps, r) => (scanstring ps, r)

/-- **Node's scalar-string test is exact.** It ends without an error on the UTF-16 encodings of
sequences of scalar values and on no other units, and on the text of a string literal its verdict
is that of Python's test for surrogates. -/
theorem assertUnicodeScalarString_exact :
    (∀ s : Node.JsStr, Node.assertFrom s 0 = .ok () ↔ ∃ t : List Char, utf16 t = s) ∧
    ∀ text : List Char,
      (Node.readString text).map (fun (s, _) => (Node.assertFrom s 0).isOk) =
        (loadsString text).map fun (s, _) => !hasSurrogate s := by
  refine ⟨fun s => ?_, fun text => ?_⟩
  · rw [Node.assertFrom_eq, List.drop_zero]
    exact Node.assertUnicodeScalarString_ok_iff
  · rw [Node.readString, loadsString, Option.map_map, Option.map_map]
    refine Option.map_congr fun (ps, r) _ => ?_
    have h := ok_iff_hasSurrogate_combine (jsUnits ps)
    simp only [Function.comp_apply, Node.assertFrom_eq, List.drop_zero, scanstring_eq]
    cases hs : Node.assertUnicodeScalarString (jsUnits ps) with
    | ok u => simp [h.1 hs, Except.isOk, Except.toBool]
    | error e =>
      have hn : hasSurrogate (combine (jsUnits ps)) ≠ false := fun hc => by
        rw [h.2 hc] at hs
        cases hs
      simpa [Except.isOk, Except.toBool] using hn

end Finality
