import Finality.Lib.JsonText

/-!
# Reading JSON text

`loads` reads a document by the grammar of RFC 8259: white space around every token, all the
escapes of a string, arrays, objects with their members in the order they come in, and nothing
after the value. It answers for the documents that a `Json` tree can hold: a number with a fraction
or an exponent and a string with a lone surrogate have none.

`loads_dumps` is the round trip: whatever `dumps` writes is read back. So the text determines the
document, `dumps_injective`.
-/

namespace JsonText

/-- White space between tokens. -/
def isSpace (c : Char) : Bool := c = ' ' || c = '\t' || c = '\n' || c = '\r'

/-- A text from its first token on. -/
def skipSpace (s : List Char) : List Char := s.dropWhile isSpace

/-! ## Strings -/

/-- The character of a one-letter escape. -/
def shortEscape (c : Char) : Option Char :=
  if c = '"' then some '"'
  else if c = '\\' then some '\\'
  else if c = '/' then some '/'
  else if c = 'b' then some (Char.ofNat 0x08)
  else if c = 'f' then some (Char.ofNat 0x0c)
  else if c = 'n' then some '\n'
  else if c = 'r' then some '\r'
  else if c = 't' then some '\t'
  else none

/-- The number of a hexadecimal digit of either case. -/
def hexValue (c : Char) : Option Nat :=
  if c.isDigit then some (c.toNat - 48)
  else if 'a' ≤ c ∧ c ≤ 'f' then some (c.toNat - 87)
  else if 'A' ≤ c ∧ c ≤ 'F' then some (c.toNat - 55)
  else none

/-- The number of four hexadecimal digits. -/
def hexValue4 (a b c d : Char) : Option Nat := do
  let a ← hexValue a
  let b ← hexValue b
  let c ← hexValue c
  let d ← hexValue d
  some (((a * 16 + b) * 16 + c) * 16 + d)

/-- One more character in front of what was read. -/
def pushChar (c : Char) (read : Option (List Char × List Char)) : Option (List Char × List Char) :=
  read.map fun (s, r) => (c :: s, r)

/-- The rest of a string after its opening quote, and what comes after it. -/
def readString : List Char → Option (List Char × List Char)
  | [] => none
  | '"' :: r => some ([], r)
  | '\\' :: 'u' :: a :: b :: c :: d :: r =>
      match hexValue4 a b c d with
      | none => none
      | some n =>
          if 0xD800 ≤ n ∧ n < 0xDC00 then
            match r with
            | '\\' :: 'u' :: e :: f :: g :: h :: r =>
                match hexValue4 e f g h with
                | none => none
                | some m =>
                    if 0xDC00 ≤ m ∧ m < 0xE000 then
                      pushChar (Char.ofNat (0x10000 + (n - 0xD800) * 0x400 + (m - 0xDC00)))
                        (readString r)
                    else none
            | _ => none
          else if 0xDC00 ≤ n ∧ n < 0xE000 then none
          else pushChar (Char.ofNat n) (readString r)
  | '\\' :: c :: r =>
      match shortEscape c with
      | none => none
      | some c => pushChar c (readString r)
  | c :: r => if c.toNat < 0x20 then none else pushChar c (readString r)

/-! ## Numbers -/

/-- A fraction or an exponent follows. -/
def isFraction : List Char → Bool
  | '.' :: _ | 'e' :: _ | 'E' :: _ => true
  | _ => false

/-- The longest number at the front, if it is an integer. -/
def readUnsigned (s : List Char) : Option (Nat × List Char) :=
  let r := s.dropWhile Char.isDigit
  match s.takeWhile Char.isDigit with
  | [] => none
  | '0' :: d :: ds => some (0, d :: ds ++ r)
  | ds => if isFraction r then none else some (Nat.ofDigitChars 10 ds 0, r)

/-- The integer at the front, with its sign. -/
def readNumber : List Char → Option (Int × List Char)
  | '-' :: s => (readUnsigned s).map fun (n, r) => (-(n : Int), r)
  | s => (readUnsigned s).map fun (n, r) => ((n : Int), r)

/-! ## Values -/

mutual

/-- The value at the front of a text. The fuel bounds the steps into arrays and objects. -/
def readValue : Nat → List Char → Option (Json × List Char)
  | 0, _ => none
  | fuel + 1, s =>
    match s with
    | 'n' :: 'u' :: 'l' :: 'l' :: r => some (.null, r)
    | 't' :: 'r' :: 'u' :: 'e' :: r => some (.bool true, r)
    | 'f' :: 'a' :: 'l' :: 's' :: 'e' :: r => some (.bool false, r)
    | '"' :: r => (readString r).map fun (t, r) => (.str t, r)
    | '[' :: r =>
        match skipSpace r with
        | ']' :: r => some (.arr [], r)
        | r => (readItems fuel r).map fun (xs, r) => (.arr xs, r)
    | '{' :: r =>
        match skipSpace r with
        | '}' :: r => some (.obj [], r)
        | r => (readMembers fuel r).map fun (ms, r) => (.obj ms, r)
    | s => (readNumber s).map fun (i, r) => (.int i, r)

/-- The items of an array, from one of them to the closing bracket. -/
def readItems : Nat → List Char → Option (List Json × List Char)
  | 0, _ => none
  | fuel + 1, s =>
    match readValue fuel s with
    | none => none
    | some (x, r) =>
      match skipSpace r with
      | ']' :: r => some ([x], r)
      | ',' :: r => (readItems fuel (skipSpace r)).map fun (xs, r) => (x :: xs, r)
      | _ => none

/-- The members of an object, from one of them to the closing brace. -/
def readMembers : Nat → List Char → Option (List (List Char × Json) × List Char)
  | 0, _ => none
  | fuel + 1, s =>
    match s with
    | '"' :: s =>
      match readString s with
      | none => none
      | some (k, r) =>
        match skipSpace r with
        | ':' :: r =>
          match readValue fuel (skipSpace r) with
          | none => none
          | some (v, r) =>
            match skipSpace r with
            | '}' :: r => some ([(k, v)], r)
            | ',' :: r => (readMembers fuel (skipSpace r)).map fun (ms, r) => ((k, v) :: ms, r)
            | _ => none
        | _ => none
    | _ => none

end

/-- The document of a text. -/
def loads (s : List Char) : Option Json :=
  match readValue (s.length + 1) (skipSpace s) with
  | some (v, r) => if skipSpace r = [] then some v else none
  | none => none

/-! ## What is written is read -/

/-- A hexadecimal digit is read as its value. -/
theorem hexValue_digitChar : ∀ d < 16, hexValue (Nat.digitChar d) = some d := by decide

/-- Reading inverts escaping, character by character. -/
theorem readString_escapeChar (c : Char) (r : List Char) :
    readString (escapeChar c ++ r) = pushChar c (readString r) := by
  unfold escapeChar
  split_ifs with h1 h2 h3 h4 h5 h6 h7 h8
  · subst h1; simp [readString, shortEscape]
  · subst h2; simp [readString, shortEscape]
  · subst h3; simp [readString, shortEscape]
  · subst h4; simp [readString, shortEscape]
  · subst h5; simp [readString, shortEscape]
  · subst h6; simp [readString, shortEscape]
  · subst h7; simp [readString, shortEscape]
  · have ha := hexValue_digitChar (c.toNat / 16) (by omega)
    have hb := hexValue_digitChar (c.toNat % 16) (by omega)
    have hz : hexValue '0' = some 0 := by decide
    have hhex : hexValue4 '0' '0' (Nat.digitChar (c.toNat / 16)) (Nat.digitChar (c.toNat % 16)) =
        some c.toNat := by
      rw [hexValue4, hz, ha, hb]
      exact congrArg some (by omega)
    simp only [List.cons_append, List.nil_append, readString, hhex]
    rw [if_neg (by omega), if_neg (by omega), Char.ofNat_toNat]
  · simp only [List.cons_append, List.nil_append]
    rw [readString.eq_def]
    split <;> simp_all

/-- A string is read up to its closing quote. -/
theorem readString_quote (s r : List Char) :
    readString (s.flatMap escapeChar ++ '"' :: r) = some (s, r) := by
  induction s with
  | nil => simp [readString]
  | cons c s ih =>
    rw [List.flatMap_cons, List.append_assoc, readString_escapeChar, ih]
    rfl

/-- What may follow a value in a compact text. -/
def Follows (r : List Char) : Prop :=
  ∀ c ∈ r.head?, c = ',' ∨ c = ']' ∨ c = '}'

/-- What follows a value does not go on with a digit. -/
theorem Follows.noDigitHead {r : List Char} (h : Follows r) : NoDigitHead r := by
  intro c hc
  rcases h c hc with rfl | rfl | rfl <;> decide

/-- Dropping the digits in front of what follows. -/
theorem dropWhile_digits {ds r : List Char} (hd : ∀ c ∈ ds, c.isDigit = true)
    (hr : NoDigitHead r) : (ds ++ r).dropWhile Char.isDigit = r := by
  have hsplit := List.takeWhile_append_dropWhile (p := Char.isDigit) (l := ds ++ r)
  rw [takeWhile_digits hd hr] at hsplit
  exact List.append_cancel_left hsplit

/-- Only zero starts with a zero. -/
theorem toDigits_ne_zero_cons {n : Nat} (hn : 0 < n) (ds : List Char) :
    Nat.toDigits 10 n ≠ '0' :: ds := by
  induction n using Nat.strongRecOn generalizing ds with
  | ind n ih =>
    rcases Nat.lt_or_ge n 10 with hlt | hge
    · rw [Nat.toDigits_of_lt_base hlt]
      intro h
      have hall : ∀ n < 10, 0 < n → Nat.digitChar n ≠ '0' := by decide
      exact hall n hlt hn (List.cons.inj h).1
    · rw [Nat.toDigits_of_base_le (by decide) hge]
      cases hq : Nat.toDigits 10 (n / 10) with
      | nil => exact absurd hq Nat.toDigits_ne_nil
      | cons c cs =>
        intro h
        obtain ⟨rfl, -⟩ := List.cons.inj h
        exact ih (n / 10) (by omega) (by omega) cs hq

/-- No number is written with a leading zero. -/
theorem toDigits_ne_zero_cons_cons (n : Nat) (d : Char) (ds : List Char) :
    Nat.toDigits 10 n ≠ '0' :: d :: ds := by
  rcases Nat.eq_zero_or_pos n with rfl | hn
  · rw [Nat.toDigits_zero]
    simp
  · exact toDigits_ne_zero_cons hn (d :: ds)

/-- What follows a value is no fraction and no exponent. -/
theorem isFraction_of_follows {r : List Char} (h : Follows r) : isFraction r = false := by
  cases r with
  | nil => rfl
  | cons c r => rcases h c rfl with rfl | rfl | rfl <;> rfl

/-- Reading back the digits of a natural number. -/
theorem readUnsigned_toDigits (n : Nat) {r : List Char} (hr : Follows r) :
    readUnsigned (Nat.toDigits 10 n ++ r) = some (n, r) := by
  have hdigits : ∀ c ∈ Nat.toDigits 10 n, c.isDigit = true := fun _ hc =>
    Nat.isDigit_of_mem_toDigits (by decide) (by decide) hc
  rw [readUnsigned, takeWhile_digits hdigits hr.noDigitHead,
    dropWhile_digits hdigits hr.noDigitHead]
  split
  case h_1 h => exact absurd h Nat.toDigits_ne_nil
  case h_2 h => exact absurd h (toDigits_ne_zero_cons_cons n _ _)
  case h_3 =>
    rw [isFraction_of_follows hr, Nat.ofDigitChars_ten_toDigits]
    rfl

/-- Reading back an integer. -/
theorem readNumber_intText (i : Int) {r : List Char} (hr : Follows r) :
    readNumber (intText i ++ r) = some (i, r) := by
  unfold intText
  split
  case isTrue h =>
    rw [List.cons_append, readNumber, readUnsigned_toDigits _ hr, Option.map_some]
    exact congrArg some (Prod.ext (show -(i.natAbs : Int) = i by omega) rfl)
  case isFalse h =>
    obtain ⟨d, ds, hd, hdig⟩ := toDigits_eq_cons i.natAbs
    have hread := readUnsigned_toDigits i.natAbs hr
    rw [hd] at hread ⊢
    rw [List.cons_append] at hread ⊢
    unfold readNumber
    split
    case h_1 heq =>
      obtain ⟨rfl, -⟩ := List.cons.inj heq
      exact absurd hdig (by decide)
    case h_2 =>
      rw [hread, Option.map_some]
      exact congrArg some (Prod.ext (show (i.natAbs : Int) = i by omega) rfl)

/-! ## The round trip -/

/-- A value is not read as white space. -/
theorem skipSpace_of_lead {c : Char} {cs : List Char} (h : isSpace c = false) :
    skipSpace (c :: cs) = c :: cs := by
  rw [skipSpace, List.dropWhile_cons, h]
  rfl

/-- There is no space in front of what follows a value. -/
theorem skipSpace_of_follows {r : List Char} (h : Follows r) : skipSpace r = r := by
  cases r with
  | nil => rfl
  | cons c r =>
    refine skipSpace_of_lead ?_
    rcases h c rfl with rfl | rfl | rfl <;> rfl

/-- The text of a value starts with a character that is no white space and closes nothing. -/
theorem exists_lead (v : Json) : ∃ c cs, dumps v = c :: cs ∧ isSpace c = false ∧ c ≠ ']' := by
  cases v with
  | null => exact ⟨_, _, rfl, by decide⟩
  | bool b => cases b <;> exact ⟨_, _, rfl, by decide⟩
  | int i =>
    obtain ⟨d, ds, hd, hdig⟩ := toDigits_eq_cons i.natAbs
    simp only [dumps, intText]
    split
    · exact ⟨_, _, rfl, by decide⟩
    · refine ⟨d, ds, hd, ?_, ?_⟩
      · by_contra hspace
        simp only [isSpace, Bool.not_eq_false, Bool.or_eq_true, decide_eq_true_eq] at hspace
        rcases hspace with ((rfl | rfl) | rfl) | rfl <;> exact absurd hdig (by decide)
      · rintro rfl
        exact absurd hdig (by decide)
  | str s | arr xs | obj ms => exact ⟨_, _, rfl, by decide⟩

/-- Every value is written with at least one character. -/
theorem length_dumps_pos (v : Json) : 0 < (dumps v).length := by
  obtain ⟨c, cs, hc, -⟩ := exists_lead v
  rw [hc]
  exact Nat.succ_pos _

/-- Nor in front of a value. -/
theorem skipSpace_dumps (v : Json) (r : List Char) : skipSpace (dumps v ++ r) = dumps v ++ r := by
  obtain ⟨c, cs, hc, hspace, -⟩ := exists_lead v
  rw [hc]
  exact skipSpace_of_lead hspace

/-- A number is what nothing else starts like. -/
theorem readValue_number {c : Char} (h : c = '-' ∨ c.isDigit = true) (n : Nat) (cs : List Char) :
    readValue (n + 1) (c :: cs) = (readNumber (c :: cs)).map fun (i, r) => (.int i, r) := by
  unfold readValue
  split <;> rename_i heq <;>
    first
    | rfl
    | (obtain ⟨rfl, -⟩ := List.cons.inj heq; exact absurd h (by decide))

/-- An integer starts with a digit or a minus sign. -/
theorem exists_number_lead (i : Int) :
    ∃ c cs, intText i = c :: cs ∧ (c = '-' ∨ c.isDigit = true) := by
  unfold intText
  split
  · exact ⟨_, _, rfl, .inl rfl⟩
  · obtain ⟨d, ds, hd, hdig⟩ := toDigits_eq_cons i.natAbs
    exact ⟨d, ds, hd, .inr hdig⟩

/-- A comma and the closing brackets follow values. -/
theorem follows_cons {c : Char} {r : List Char} (h : c = ',' ∨ c = ']' ∨ c = '}') :
    Follows (c :: r) := by
  intro d hd
  obtain rfl := Option.some.inj hd
  exact h

/-- Two texts are joined by a comma. -/
theorem commaJoin_cons_cons (t u : List Char) (ts : List (List Char)) :
    commaJoin (t :: u :: ts) = t ++ ',' :: commaJoin (u :: ts) := by
  rw [commaJoin_cons, commaJoin_cons, List.flatMap_cons, List.cons_append]

/-- There is no space in front of the items of a list. -/
theorem skipSpace_items (y : Json) (ts : List (List Char)) (r : List Char) :
    skipSpace (commaJoin (dumps y :: ts) ++ r) = commaJoin (dumps y :: ts) ++ r := by
  rw [commaJoin_cons, List.append_assoc, skipSpace_dumps]

/-- The text of a member. -/
theorem member_append (k : List Char) (v : Json) (r : List Char) :
    quote k ++ ':' :: dumps v ++ r =
      '"' :: (k.flatMap escapeChar ++ '"' :: ':' :: (dumps v ++ r)) := by
  simp [quote]

/-- Nor in front of the members of an object. -/
theorem skipSpace_members (k : List Char) (v : Json) (ts : List (List Char)) (r : List Char) :
    skipSpace (commaJoin ((quote k ++ ':' :: dumps v) :: ts) ++ r) =
      commaJoin ((quote k ++ ':' :: dumps v) :: ts) ++ r := by
  rw [commaJoin_cons, List.append_assoc, member_append]
  exact skipSpace_of_lead rfl

mutual

/-- **A written value is read back**, with fuel for its length. -/
theorem readValue_dumps : ∀ (v : Json) {n : Nat} {r : List Char}, (dumps v).length ≤ n →
    Follows r → readValue n (dumps v ++ r) = some (v, r)
  | v, 0, _, hn, _ => absurd hn (Nat.not_le.2 (length_dumps_pos v))
  | .null, n + 1, r, _, _ => by simp [dumps, readValue]
  | .bool true, n + 1, r, _, _ => by simp [dumps, readValue]
  | .bool false, n + 1, r, _, _ => by simp [dumps, readValue]
  | .int i, n + 1, r, _, hr => by
    obtain ⟨c, cs, hc, hlead⟩ := exists_number_lead i
    have hread := readNumber_intText i hr
    rw [dumps]
    rw [hc, List.cons_append] at hread ⊢
    rw [readValue_number hlead, hread]
    rfl
  | .str s, n + 1, r, _, _ => by
    rw [dumps, quote, List.cons_append, List.append_assoc, readValue]
    rw [show ['"'] ++ r = '"' :: r from rfl, readString_quote]
    rfl
  | .arr [], n + 1, r, _, _ => by
    simp [dumps, dumpsItems, commaJoin, readValue, skipSpace, isSpace]
  | .arr (x :: xs), n + 1, r, hn, _ => by
    rw [dumps, List.length_cons, List.length_append, List.length_singleton] at hn
    have hitems := readItems_dumps x xs (n := n) (r := r) (by omega)
    obtain ⟨c, cs, hc, hspace, hclose⟩ := exists_lead x
    rw [dumps, List.cons_append, List.append_assoc, List.singleton_append]
    rw [dumpsItems, commaJoin_cons, hc, List.cons_append, List.cons_append] at hitems ⊢
    rw [readValue, skipSpace_of_lead hspace]
    split
    case h_1 heq => exact absurd (List.cons.inj heq).1 hclose
    case h_2 =>
      rw [hitems]
      rfl
  | .obj [], n + 1, r, _, _ => by
    simp [dumps, dumpsMembers, commaJoin, readValue, skipSpace, isSpace]
  | .obj ((k, v) :: ms), n + 1, r, hn, _ => by
    rw [dumps, List.length_cons, List.length_append, List.length_singleton] at hn
    have hmembers := readMembers_dumps k v ms (n := n) (r := r) (by omega)
    rw [dumps, List.cons_append, List.append_assoc, List.singleton_append]
    rw [dumpsMembers, commaJoin_cons, quote, List.cons_append, List.cons_append,
      List.cons_append] at hmembers ⊢
    rw [readValue, skipSpace_of_lead (by decide)]
    split
    case h_1 heq => exact absurd (List.cons.inj heq).1 (by decide)
    case h_2 =>
      rw [hmembers]
      rfl

/-- Written items are read back up to the closing bracket. -/
theorem readItems_dumps : ∀ (x : Json) (xs : List Json) {n : Nat} {r : List Char},
    (commaJoin (dumpsItems (x :: xs))).length < n →
    readItems n (commaJoin (dumpsItems (x :: xs)) ++ ']' :: r) = some (x :: xs, r)
  | x, xs, 0, _, hn => absurd hn (Nat.not_lt_zero _)
  | x, [], n + 1, r, hn => by
    rw [dumpsItems, dumpsItems, commaJoin_cons, List.flatMap_nil, List.append_nil] at hn ⊢
    rw [readItems, readValue_dumps x (by omega) (follows_cons (.inr (.inl rfl)))]
    simp only [skipSpace_of_follows (follows_cons (.inr (.inl rfl)))]
  | x, y :: ys, n + 1, r, hn => by
    rw [dumpsItems, dumpsItems, commaJoin_cons_cons, ← dumpsItems] at hn ⊢
    rw [List.length_append, List.length_cons] at hn
    have hitems := readItems_dumps y ys (n := n) (r := r) (by omega)
    rw [List.append_assoc, List.cons_append, readItems,
      readValue_dumps x (by omega) (follows_cons (.inl rfl))]
    simp only [skipSpace_of_follows (follows_cons (.inl rfl))]
    rw [dumpsItems, skipSpace_items, ← dumpsItems, hitems]
    rfl

/-- Written members are read back up to the closing brace. -/
theorem readMembers_dumps : ∀ (k : List Char) (v : Json) (ms : List (List Char × Json)) {n : Nat}
    {r : List Char}, (commaJoin (dumpsMembers ((k, v) :: ms))).length < n →
    readMembers n (commaJoin (dumpsMembers ((k, v) :: ms)) ++ '}' :: r) = some ((k, v) :: ms, r)
  | k, v, ms, 0, _, hn => absurd hn (Nat.not_lt_zero _)
  | k, v, [], n + 1, r, hn => by
    rw [dumpsMembers, dumpsMembers, commaJoin_cons, List.flatMap_nil, List.append_nil] at hn ⊢
    rw [List.length_append, List.length_cons] at hn
    rw [member_append, readMembers, readString_quote]
    simp only [skipSpace_of_lead (show isSpace ':' = false from rfl), skipSpace_dumps]
    rw [readValue_dumps v (by omega) (follows_cons (.inr (.inr rfl)))]
    simp only [skipSpace_of_follows (follows_cons (.inr (.inr rfl)))]
  | k, v, (l, w) :: ms, n + 1, r, hn => by
    rw [dumpsMembers, dumpsMembers, commaJoin_cons_cons, ← dumpsMembers] at hn ⊢
    rw [List.length_append, List.length_append, List.length_cons, List.length_cons] at hn
    have hmembers := readMembers_dumps l w ms (n := n) (r := r) (by omega)
    rw [List.append_assoc, List.cons_append, member_append, readMembers, readString_quote]
    simp only [skipSpace_of_lead (show isSpace ':' = false from rfl), skipSpace_dumps]
    rw [readValue_dumps v (by omega) (follows_cons (.inl rfl))]
    simp only [skipSpace_of_follows (follows_cons (.inl rfl))]
    rw [dumpsMembers, skipSpace_members, ← dumpsMembers, hmembers]
    rfl

end

/-- **What is written is read.** -/
@[simp] theorem loads_dumps (v : Json) : loads (dumps v) = some v := by
  have hskip := skipSpace_dumps v []
  have hread := readValue_dumps v (n := (dumps v).length + 1) (r := []) (by omega) nofun
  rw [List.append_nil] at hskip hread
  rw [loads, hskip, hread]
  rfl

/-- The compact text determines the document. -/
theorem dumps_injective : Function.Injective dumps := by
  intro v w h
  have hread := loads_dumps v
  rw [h, loads_dumps] at hread
  exact (Option.some.inj hread).symm

end JsonText
