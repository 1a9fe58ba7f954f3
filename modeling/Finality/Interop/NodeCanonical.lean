import Finality.Lib.Utf16
import Finality.Lib.Doubles
import Finality.Interop.Profile

/-!
# The Node implementation (`node/canonical.mjs`)

Values as `JSON.parse` makes them: strings are UTF-16, every number is a double, and an object is a
list of properties in the order they were made, which `ownOrder` turns into the order that
`Object.entries` and `Object.keys` list them in. `normalizeCanonical` checks and normalises a value
and `encodeCanonical` writes the result.

On the tree of a value, `canonical` computes the portable profile (`canonical_jsValue`).
-/

namespace Finality

open JsonText KeyOrder Checks Utf16 Doubles

namespace Node

/-- A JavaScript string. -/
abbrev JsStr := List CodeUnit

/-- A string literal. -/
def js (s : String) : JsStr := utf16 s.toList

/-- A parsed value. -/
inductive Val where
  | null
  | bool (b : Bool)
  | number (x : Double)
  | string (s : JsStr)
  | array (x : List Val)
  | object (properties : List (JsStr × Val))

/-- The errors thrown. -/
inductive Err where
  | unpairedHighSurrogate
  | unpairedLowSurrogate
  | unsafeInteger
  | keyCollision (key : JsStr)

/-! ## Strings -/

/-- `assertUnicodeScalarString` -/
def assertUnicodeScalarString : JsStr → Except Err Unit
  | [] => .ok ()
  | [cu] =>
      if isHigh cu then .error .unpairedHighSurrogate
      else if isLow cu then .error .unpairedLowSurrogate
      else .ok ()
  | cu :: lo :: s =>
      if isHigh cu then
        if isLow lo then assertUnicodeScalarString s else .error .unpairedHighSurrogate
      else if isLow cu then .error .unpairedLowSurrogate
      else assertUnicodeScalarString (lo :: s)

/-- `Buffer.from(s, 'utf8')` -/
def bufferFrom (s : JsStr) : List UInt8 := Utf8.utf8 (decode s)

/-- `compareUtf8(a, b) <= 0` -/
def compareUtf8 (a b : JsStr) : Prop :=
  Utf8.octets (bufferFrom a) ≤ Utf8.octets (bufferFrom b)

instance : DecidableRel compareUtf8 := fun a b =>
  inferInstanceAs (Decidable (Utf8.octets (bufferFrom a) ≤ Utf8.octets (bufferFrom b)))

/-- `\uXXXX` -/
def unicodeEscape (u : CodeUnit) : JsStr :=
  js "\\u" ++ utf16 [Nat.digitChar (u.val / 0x1000), Nat.digitChar (u.val / 0x100 % 16),
    Nat.digitChar (u.val / 16 % 16), Nat.digitChar (u.val % 16)]

/-- A code unit outside a surrogate pair, inside the quotes of `JSON.stringify`. -/
def escapeUnit (u : CodeUnit) : JsStr :=
  if u.val = 0x08 then js "\\b"
  else if u.val = 0x09 then js "\\t"
  else if u.val = 0x0a then js "\\n"
  else if u.val = 0x0c then js "\\f"
  else if u.val = 0x0d then js "\\r"
  else if u.val = 0x22 then js "\\\""
  else if u.val = 0x5c then js "\\\\"
  else if u.val < 0x20 ∨ isHigh u ∨ isLow u then unicodeEscape u
  else [u]

/-- A string inside the quotes of `JSON.stringify`. -/
def escapeUnits : JsStr → JsStr
  | [] => []
  | [u] => escapeUnit u
  | u :: v :: s =>
      if isHigh u && isLow v then u :: v :: escapeUnits s
      else escapeUnit u ++ escapeUnits (v :: s)

/-- `JSON.stringify(s)` of a string -/
def stringify (s : JsStr) : JsStr := js "\"" ++ escapeUnits s ++ js "\""

/-! ## Numbers -/

/-- `Number.isSafeInteger(x)` -/
def isSafeInteger : Double → Bool
  | .finite q => q.den = 1 ∧ q.num.natAbs ≤ 2 ^ 53 - 1
  | .nan | .negInf | .inf => false

/-- `JSON.stringify(x)` of a number that has been normalised: an integer, in plain decimal as any
below `10 ^ 21` -/
def numberText : Double → JsStr
  | .finite q => utf16 (intText q.num)
  | .nan | .negInf | .inf => js "null"

/-! ## Objects -/

/-- The array index that a property name spells: a number below `2 ^ 32 - 1` in plain decimal. -/
def arrayIndex (k : JsStr) : Option Nat :=
  (readNat (decode k)).filter fun n => Nat.toDigits 10 n = decode k ∧ n < 2 ^ 32 - 1

/-- Own properties in the order they are listed: array indices first, by number, then the other
names in the order they were made. -/
def ownOrder {V : Type} (properties : List (JsStr × V)) : List (JsStr × V) :=
  ((properties.filter fun p => (arrayIndex p.1).isSome).insertionSort fun p q =>
    (arrayIndex p.1).getD 0 ≤ (arrayIndex q.1).getD 0) ++
    properties.filter fun p => !(arrayIndex p.1).isSome

/-- `out[key] = val` -/
def setProperty (out : List (JsStr × Val)) (key : JsStr) (val : Val) : List (JsStr × Val) :=
  if key ∈ out.map Prod.fst then out.map fun p => if p.1 = key then (key, val) else p
  else out ++ [(key, val)]

section
variable (R : Runtime)

/-- `s.normalize('NFC')` for a string of scalar values -/
def normalizeString (s : JsStr) : JsStr := utf16 (R.nfc (decode s))

/-- The loop over the entries of an object, with `entries` as filled so far; `seen` is the set of
its keys. A value stands as what `normalizeCanonical` makes of it. -/
def normalizeEntries : List (JsStr × Except Err Val) → List (JsStr × Val) →
    Except Err (List (JsStr × Val))
  | [], entries => .ok entries
  | (rawKey, val) :: rest, entries => do
      assertUnicodeScalarString rawKey
      let key := normalizeString R rawKey
      failIf (key ∈ entries.map Prod.fst) (.keyCollision key)
      let val ← val
      normalizeEntries rest (entries ++ [(key, val)])

mutual

/-- `normalizeCanonical` -/
def normalizeCanonical : Val → Except Err Val
  | .null => .ok .null
  | .bool b => .ok (.bool b)
  | .number v => do
      failIf (isSafeInteger v = false) .unsafeInteger
      .ok (.number v)
  | .string v => do
      assertUnicodeScalarString v
      .ok (.string (normalizeString R v))
  | .array v => (normalizeItems v).map .array
  | .object v => do
      let entries ← normalizeEntries R (ownOrder (normalizeValues v)) []
      let entries := entries.insertionSort fun a b => compareUtf8 a.1 b.1
      .ok (.object (entries.foldl (fun out p => setProperty out p.1 p.2) []))

/-- `v.map(normalizeCanonical)` -/
def normalizeItems : List Val → Except Err (List Val)
  | [] => .ok []
  | v :: vs => do
      let n ← normalizeCanonical v
      let ns ← normalizeItems vs
      .ok (n :: ns)

/-- The properties of an object, each value as what `normalizeCanonical` makes of it. -/
def normalizeValues : List (JsStr × Val) → List (JsStr × Except Err Val)
  | [] => []
  | (k, v) :: ps => (k, normalizeCanonical v) :: normalizeValues ps

end

end

/-- `texts.join(',')` -/
def join (texts : List JsStr) : JsStr := List.intercalate (js ",") texts

mutual

/-- `encodeCanonical` -/
def encodeCanonical : Val → JsStr
  | .null => js "null"
  | .bool true => js "true"
  | .bool false => js "false"
  | .number x => numberText x
  | .string x => stringify x
  | .array x => js "[" ++ join (encodeItems x) ++ js "]"
  | .object x =>
      let encoded := encodeValues x
      let keys := ((ownOrder encoded).map Prod.fst).insertionSort compareUtf8
      js "\x7b" ++ join (keys.map fun k => stringify k ++ js ":" ++ (encoded.lookup k).getD []) ++
        js "\x7d"

/-- `x.map(encodeCanonical)` -/
def encodeItems : List Val → List JsStr
  | [] => []
  | x :: xs => encodeCanonical x :: encodeItems xs

/-- The properties of an object, each value encoded. -/
def encodeValues : List (JsStr × Val) → List (JsStr × JsStr)
  | [] => []
  | (k, v) :: ps => (k, encodeCanonical v) :: encodeValues ps

end

section
variable (R : Runtime)

/-- `canonical` -/
def canonical (v : Val) : Except Err JsStr := (normalizeCanonical R v).map encodeCanonical

/-- `sha256` -/
def sha256 (v : Val) : Except Err JsStr :=
  (canonical R v).map fun c => utf16 (R.sha256 (bufferFrom c))

/-- `hmacSha256` -/
def hmacSha256 (v : Val) (key : List UInt8) : Except Err JsStr :=
  (canonical R v).map fun c => utf16 (R.hmac_sha256 key (bufferFrom c))

end

/-! ## The Node value of a tree -/

mutual

/-- The Node value of a JSON tree. -/
def jsValue : Json → Val
  | .null => .null
  | .bool b => .bool b
  | .int i => .number (ofInt i)
  | .str s => .string (utf16 s)
  | .arr xs => .array (jsItems xs)
  | .obj ms => .object (jsProperties ms)

/-- The elements of an array. -/
def jsItems : List Json → List Val
  | [] => []
  | x :: xs => jsValue x :: jsItems xs

/-- The properties of an object. -/
def jsProperties : List (List Char × Json) → List (JsStr × Val)
  | [] => []
  | (k, v) :: ms => (utf16 k, jsValue v) :: jsProperties ms

end

/-! ## Strings and numbers -/

variable {R : Runtime}

/-- Strings of scalar values pass. -/
@[simp] theorem assertUnicodeScalarString_utf16 (s : List Char) :
    assertUnicodeScalarString (utf16 s) = .ok () := by
  induction s with
  | nil => rfl
  | cons c s ih =>
    rcases encodeChar_cases c with ⟨u, hc, -, hh, hl⟩ | ⟨hi, lo, hc, hh, hl, -⟩
    · rw [utf16_cons, hc, List.singleton_append]
      cases hs : utf16 s with
      | nil => simp [assertUnicodeScalarString, hh, hl]
      | cons v r =>
        rw [hs] at ih
        simpa [assertUnicodeScalarString, hh, hl] using ih
    · rw [utf16_cons, hc, List.cons_append, List.singleton_append]
      simpa [assertUnicodeScalarString, hh, hl] using ih

/-- A text is brought into NFC. -/
@[simp] theorem normalizeString_utf16 (s : List Char) :
    normalizeString R (utf16 s) = utf16 (R.nfc s) := by
  simp [normalizeString]

/-- And encoded as UTF-8. -/
@[simp] theorem bufferFrom_utf16 (s : List Char) : bufferFrom (utf16 s) = Utf8.utf8 s := by
  simp [bufferFrom]

/-- Names are compared as texts: the order of UTF-8 is that of the code points. -/
theorem compareUtf8_utf16 {s t : List Char} : compareUtf8 (utf16 s) (utf16 t) ↔ s ≤ t := by
  simp [compareUtf8, Utf8.octets_utf8_le_iff]

/-- The escape table up to the end of ASCII. -/
theorem escapeUnit_ascii : ∀ n : Fin 128, escapeUnit ⟨n.val, by omega⟩ =
    utf16 (escapeChar (Char.ofNat n.val)) := by decide

/-- The table writes what JSON text has for the character. -/
theorem escapeUnit_eq {u : CodeUnit} {c : Char} (hc : encodeChar c = [u]) (hu : u.val = c.toNat)
    (hh : isHigh u = false) (hl : isLow u = false) : escapeUnit u = utf16 (escapeChar c) := by
  by_cases h : c.toNat < 128
  · have htable := escapeUnit_ascii ⟨c.toNat, h⟩
    rw [Char.ofNat_toNat] at htable
    rw [← htable]
    exact congrArg escapeUnit (Fin.ext hu)
  · rw [escapeChar_of_le (Nat.le_of_not_lt h), utf16_cons, hc, utf16_nil, List.append_nil]
    simp only [escapeUnit, hh, hl, Bool.false_eq_true, or_false]
    repeat rw [if_neg (by omega)]

/-- A unit that opens no pair is escaped on its own. -/
theorem escapeUnits_cons {u : CodeUnit} (h : isHigh u = false) (s : JsStr) :
    escapeUnits (u :: s) = escapeUnit u ++ escapeUnits s := by
  cases s with
  | nil => simp [escapeUnits]
  | cons v s => simp [escapeUnits, h]

/-- A string of scalar values is written as JSON text has it. -/
theorem stringify_utf16 (s : List Char) : stringify (utf16 s) = utf16 (quote s) := by
  have hbody : escapeUnits (utf16 s) = utf16 (s.flatMap escapeChar) := by
    induction s with
    | nil => rfl
    | cons c s ih =>
      rcases encodeChar_cases c with ⟨u, hc, hu, hh, hl⟩ | ⟨hi, lo, hc, hh, hl, -, hle⟩
      · rw [utf16_cons, hc, List.singleton_append, escapeUnits_cons hh, ih,
          escapeUnit_eq hc hu hh hl, List.flatMap_cons, utf16_append]
      · rw [utf16_cons, List.flatMap_cons, escapeChar_of_le (by omega), List.singleton_append,
          utf16_cons, hc, List.cons_append, List.singleton_append, ← ih]
        simp [escapeUnits, hh, hl]
  rw [stringify, hbody, quote, js]
  simp [utf16]

/-- The numbers that pass are the safe integers. -/
theorem isSafeInteger_ofInt {i : Int} :
    isSafeInteger (ofInt i) = true ↔ -maxSafeInteger ≤ i ∧ i ≤ maxSafeInteger := by
  have hrange : -maxSafeInteger ≤ i ∧ i ≤ maxSafeInteger ↔ i.natAbs < 2 ^ 53 := by
    rw [maxSafeInteger]
    omega
  rw [hrange]
  refine ⟨?_, ?_⟩
  · intro h
    cases hd : ofInt i with
    | finite q =>
      rw [hd, isSafeInteger, decide_eq_true_eq] at h
      obtain ⟨hden, hnum⟩ := h
      rw [← Rat.coe_int_num_of_den_eq_one hden] at hd
      exact natAbs_lt_of_ofInt hd (by omega)
    | nan | negInf | inf =>
      rw [hd] at h
      cases h
  · intro h
    rw [ofInt_of_lt h, isSafeInteger, decide_eq_true_eq, Rat.den_intCast, Rat.num_intCast]
    omega

/-! ## Properties -/

/-- Different names are different strings of units. -/
theorem nodup_map_utf16 {V W : Type} (f : V → W) {ms : List (List Char × V)}
    (h : (ms.map Prod.fst).Nodup) : ((ms.map fun m => (utf16 m.1, f m.2)).map Prod.fst).Nodup := by
  have hnd := h.map utf16_injective
  rw [List.map_map] at hnd ⊢
  exact hnd

/-- The order of the properties is one of their arrangements. -/
theorem ownOrder_perm {V : Type} (ps : List (JsStr × V)) : (ownOrder ps).Perm ps :=
  ((List.perm_insertionSort _ _).append_right _).trans (List.filter_append_perm _ ps)

/-- The members of an object are read one by one. -/
theorem jsProperties_eq : ∀ ms : List (List Char × Json),
    jsProperties ms = ms.map fun m => (utf16 m.1, jsValue m.2)
  | [] => rfl
  | (k, v) :: ms => by
    rw [jsProperties, jsProperties_eq ms]
    rfl

/-- Distinct properties set one after another are listed in that order. -/
theorem foldl_setProperty : ∀ {ps out : List (JsStr × Val)}, (ps.map Prod.fst).Nodup →
    List.Disjoint (out.map Prod.fst) (ps.map Prod.fst) →
    ps.foldl (fun out p => setProperty out p.1 p.2) out = out ++ ps
  | [], out, _, _ => by simp
  | p :: ps, out, hnd, hdis => by
    rw [List.map_cons, List.nodup_cons] at hnd
    rw [List.map_cons, List.disjoint_cons_right] at hdis
    have hset : setProperty out p.1 p.2 = out ++ [p] := if_neg hdis.1
    rw [List.foldl_cons, hset, foldl_setProperty hnd.2]
    · simp
    · rw [List.map_append, List.disjoint_append_left]
      exact ⟨hdis.2, List.singleton_disjoint.2 hnd.1⟩

/-- Sorting with `compareUtf8` is sorting by scalar values. -/
theorem sort_map_utf16 {V W : Type} (f : V → W) (ms : List (List Char × V)) :
    (ms.map fun m => (utf16 m.1, f m.2)).insertionSort (fun a b => compareUtf8 a.1 b.1) =
      (sortByKey ms).map fun m => (utf16 m.1, f m.2) :=
  (List.map_insertionSort (fun a b : List Char × V => a.1 ≤ b.1)
    (fun a b : JsStr × W => compareUtf8 a.1 b.1) (fun m => (utf16 m.1, f m.2)) ms
    fun _ _ _ _ => compareUtf8_utf16.symm).symm

/-- So it is for the names alone. -/
theorem sort_map_keys {V : Type} (ms : List (List Char × V)) :
    (ms.map fun m => utf16 m.1).insertionSort compareUtf8 =
      (sortByKey ms).map fun m => utf16 m.1 :=
  (List.map_insertionSort (fun a b : List Char × V => a.1 ≤ b.1) compareUtf8
    (fun m => utf16 m.1) ms fun _ _ _ _ => compareUtf8_utf16.symm).symm

/-- The properties in another order are those of another arrangement of the members. -/
theorem exists_ownOrder {α V : Type} (f : α → JsStr × V) (ms : List α) :
    ∃ ms' : List α, ms'.Perm ms ∧ ownOrder (ms.map f) = ms'.map f := by
  obtain ⟨ms', heq, hp⟩ := (congrFun₂ (List.eq_map_comp_perm f) (ownOrder (ms.map f)) ms).mpr
    (ownOrder_perm (ms.map f))
  exact ⟨ms', hp, heq⟩

/-- **The loop over the entries** succeeds when each value has a form and no two keys share one. -/
theorem normalizeEntries_eq_ok : ∀ {ms seen : List (List Char × Json)} {out : List (JsStr × Val)},
    (∀ m ∈ ms, ∀ v, normalizeCanonical R (jsValue m.2) = .ok v ↔
      ∃ n, Form R m.2 n ∧ v = jsValue n) →
    (normalizeEntries R (ms.map fun m => (utf16 m.1, normalizeCanonical R (jsValue m.2)))
        (jsProperties seen) = .ok out ↔
      ∃ ns, portableMembers R ms = some ns ∧ (ns.map Prod.fst).Nodup ∧
        List.Disjoint (seen.map Prod.fst) (ns.map Prod.fst) ∧ out = jsProperties (seen ++ ns))
  | [], seen, out, _ => by simp [normalizeEntries, portableMembers, eq_comm]
  | (k, v) :: ms, seen, out, h => by
    rw [List.forall_mem_cons] at h
    have ih := fun n => @normalizeEntries_eq_ok ms (seen ++ [(R.nfc k, n)]) out h.2
    have hsnoc : ∀ n, jsProperties (seen ++ [(R.nfc k, n)]) =
        jsProperties seen ++ [(utf16 (R.nfc k), jsValue n)] := by
      intro n
      simp [jsProperties_eq]
    have hseen : utf16 (R.nfc k) ∈ (jsProperties seen).map Prod.fst ↔
        R.nfc k ∈ seen.map Prod.fst := by
      simp only [jsProperties_eq, List.map_map, List.mem_map, Function.comp_apply,
        utf16_injective.eq_iff]
    simp only [List.map_cons, normalizeEntries, assertUnicodeScalarString_utf16,
      ok_bind, normalizeString_utf16, bind_eq_ok, failIf_eq_ok, exists_unit, hseen, h.1,
      portableMembers, Option.bind_eq_some_iff, Option.map_eq_some_iff]
    refine ⟨?_, ?_⟩
    · rintro ⟨hfresh, _, ⟨n, hn, rfl⟩, hrest⟩
      rw [← hsnoc, ih] at hrest
      obtain ⟨ns, hns, hnd, hdis, rfl⟩ := hrest
      rw [List.map_append, List.disjoint_append_left, List.map_singleton,
        List.singleton_disjoint] at hdis
      refine ⟨_, ⟨n, hn, ns, hns, rfl⟩, List.nodup_cons.2 ⟨hdis.2, hnd⟩, ?_, by simp⟩
      exact List.disjoint_cons_right.2 ⟨hfresh, hdis.1⟩
    · rintro ⟨_, ⟨n, hn, ns, hns, rfl⟩, hnd, hdis, rfl⟩
      rw [List.map_cons, List.nodup_cons] at hnd
      rw [List.map_cons, List.disjoint_cons_right] at hdis
      refine ⟨hdis.1, _, ⟨n, hn, rfl⟩, ?_⟩
      rw [← hsnoc, ih]
      refine ⟨ns, hns, hnd.2, ?_, by simp⟩
      rw [List.map_append, List.disjoint_append_left, List.map_singleton, List.singleton_disjoint]
      exact ⟨hdis.2, hnd.1⟩

/-! ## Canonical strings -/

/-- The values of an object are normalised one by one. -/
theorem normalizeValues_jsProperties : ∀ ms : List (List Char × Json),
    normalizeValues R (jsProperties ms) =
      ms.map fun m => (utf16 m.1, normalizeCanonical R (jsValue m.2))
  | [] => rfl
  | (k, v) :: ms => by
    rw [jsProperties, normalizeValues, normalizeValues_jsProperties ms]
    rfl

/-- **An object**, given that its values are normalised to their canonical forms. -/
theorem normalizeCanonical_object {ms : List (List Char × Json)} {v : Val}
    (h : ∀ m ∈ ms, ∀ v, normalizeCanonical R (jsValue m.2) = .ok v ↔
      ∃ n, Form R m.2 n ∧ v = jsValue n) :
    normalizeCanonical R (jsValue (.obj ms)) = .ok v ↔
      ∃ n, Form R (.obj ms) n ∧ v = jsValue n := by
  obtain ⟨ms', hp, horder⟩ :=
    exists_ownOrder (fun m => (utf16 m.1, normalizeCanonical R (jsValue m.2))) ms
  have hloop := fun out => @normalizeEntries_eq_ok R ms' [] out fun m hm => h m (hp.mem_iff.1 hm)
  have hout : ∀ {ns : List (List Char × Json)}, (ns.map Prod.fst).Nodup →
      ((jsProperties ns).insertionSort fun a b => compareUtf8 a.1 b.1).foldl
        (fun out p => setProperty out p.1 p.2) [] = jsProperties (sortByKey ns) := by
    intro ns hnd
    rw [jsProperties_eq, sort_map_utf16, ← jsProperties_eq, foldl_setProperty, List.nil_append]
    · rw [jsProperties_eq]
      exact nodup_map_utf16 jsValue (keys_sortByKey_nodup.2 hnd)
    · exact List.disjoint_nil_left _
  simp only [jsProperties, List.map_nil, List.nil_append, List.disjoint_nil_left, true_and] at hloop
  simp only [jsValue, normalizeCanonical, bind_eq_ok, normalizeValues_jsProperties, horder, hloop,
    Form, ← portableForm_obj_perm hp, portableForm_obj_eq_some, Except.ok.injEq]
  refine ⟨?_, ?_⟩
  · rintro ⟨_, ⟨ns, hns, hnd, rfl⟩, rfl⟩
    exact ⟨_, ⟨ns, hns, hnd, rfl⟩, by rw [hout hnd, jsValue]⟩
  · rintro ⟨_, ⟨ns, hns, hnd, rfl⟩, rfl⟩
    exact ⟨_, ⟨ns, hns, hnd, rfl⟩, by rw [hout hnd, jsValue]⟩

mutual

/-- **`normalizeCanonical` computes the canonical form**, and throws where there is none. -/
theorem normalizeCanonical_jsValue : ∀ (t : Json) {v : Val},
    normalizeCanonical R (jsValue t) = .ok v ↔ ∃ n, Form R t n ∧ v = jsValue n
  | .null, v => by
    simp [jsValue, normalizeCanonical, Form, portableForm, eq_comm]
  | .bool b, v => by
    simp [jsValue, normalizeCanonical, Form, portableForm, eq_comm]
  | .int i, v => by
    simp only [jsValue, normalizeCanonical, bind_eq_ok, failIf_eq_ok, exists_unit,
      Bool.not_eq_false, isSafeInteger_ofInt, Form, portableForm]
    by_cases hi : -maxSafeInteger ≤ i ∧ i ≤ maxSafeInteger
    · simp [hi, jsValue, eq_comm]
    · simp [hi]
  | .str s, v => by
    simp [jsValue, normalizeCanonical, Form, portableForm, eq_comm]
  | .arr xs, v => by
    simp only [jsValue, normalizeCanonical, map_eq_ok, normalizeItems_jsItems xs, Form,
      portableForm, Option.map_eq_some_iff]
    refine ⟨?_, ?_⟩
    · intro h
      obtain ⟨_, ⟨ns, hns, rfl⟩, rfl⟩ := h
      exact ⟨_, ⟨ns, hns, rfl⟩, rfl⟩
    · intro h
      obtain ⟨_, ⟨ns, hns, rfl⟩, rfl⟩ := h
      exact ⟨_, ⟨ns, hns, rfl⟩, rfl⟩
  | .obj ms, v => normalizeCanonical_object (normalizes_members ms)

/-- The items of an array have the profile's normal forms. -/
theorem normalizeItems_jsItems : ∀ (xs : List Json) {vs : List Val},
    normalizeItems R (jsItems xs) = .ok vs ↔
      ∃ ns, portableItems R xs = some ns ∧ vs = jsItems ns
  | [], vs => by simp [jsItems, normalizeItems, portableItems, eq_comm]
  | x :: xs, vs => by
    simp only [jsItems, normalizeItems, bind_eq_ok, normalizeCanonical_jsValue x,
      normalizeItems_jsItems xs, Form, portableItems, Option.bind_eq_some_iff,
      Option.map_eq_some_iff, Except.ok.injEq]
    refine ⟨?_, ?_⟩
    · intro h
      obtain ⟨_, ⟨n, hn, rfl⟩, _, ⟨ns, hns, rfl⟩, rfl⟩ := h
      exact ⟨_, ⟨n, hn, ns, hns, rfl⟩, rfl⟩
    · intro h
      obtain ⟨_, ⟨n, hn, ns, hns, rfl⟩, rfl⟩ := h
      exact ⟨_, ⟨n, hn, rfl⟩, _, ⟨ns, hns, rfl⟩, rfl⟩

/-- So have the values of an object. -/
theorem normalizes_members : ∀ (ms : List (List Char × Json)), ∀ m ∈ ms, ∀ v : Val,
    normalizeCanonical R (jsValue m.2) = .ok v ↔ ∃ n, Form R m.2 n ∧ v = jsValue n
  | [], m, hm, _ => absurd hm List.not_mem_nil
  | (k, v) :: ms, m, hm, w => by
    rcases List.mem_cons.1 hm with rfl | hm
    · exact normalizeCanonical_jsValue v
    · exact normalizes_members ms m hm w

end

/-- The values of an object are written one by one. -/
theorem encodeValues_jsProperties : ∀ ms : List (List Char × Json),
    encodeValues (jsProperties ms) =
      ms.map fun m => (utf16 m.1, encodeCanonical (jsValue m.2))
  | [] => rfl
  | (k, v) :: ms => by
    rw [jsProperties, encodeValues, encodeValues_jsProperties ms]
    rfl

/-- Texts are joined with commas. -/
theorem join_map_utf16 : ∀ ts : List (List Char), join (ts.map utf16) = utf16 (commaJoin ts)
  | [] => rfl
  | [t] => by simp [join, commaJoin]
  | t :: u :: ts => by
    have ih := join_map_utf16 (u :: ts)
    simp only [join, commaJoin, List.map_cons, List.intercalate_cons_cons, utf16_append] at ih ⊢
    rw [ih]
    rfl

/-- **An object in canonical form** is written member by member, given that its values are. -/
theorem encodeCanonical_object {ms : List (List Char × Json)}
    (hsorted : (ms.map Prod.fst).Pairwise (· < ·))
    (h : ∀ m ∈ ms, encodeCanonical (jsValue m.2) = utf16 (dumps m.2)) :
    encodeCanonical (jsValue (.obj ms)) = utf16 (dumps (.obj ms)) := by
  have hnd : (ms.map Prod.fst).Nodup := hsorted.imp ne_of_lt
  obtain ⟨ms', hp, horder⟩ :=
    exists_ownOrder (fun m => (utf16 m.1, encodeCanonical (jsValue m.2))) ms
  have hkeys :
      ((ownOrder (encodeValues (jsProperties ms))).map Prod.fst).insertionSort compareUtf8 =
      ms.map fun m => utf16 m.1 := by
    rw [encodeValues_jsProperties, horder, List.map_map]
    show (ms'.map fun m => utf16 m.1).insertionSort compareUtf8 = _
    rw [sort_map_keys, sortByKey_eq_of_perm hp (((hp.map Prod.fst).nodup_iff).2 hnd),
      sortByKey_eq_self hsorted]
  have hlookup : ∀ m ∈ ms, (encodeValues (jsProperties ms)).lookup (utf16 m.1) =
      some (utf16 (dumps m.2)) := by
    intro m hm
    have hlook := lookup_of_mem (nodup_map_utf16 (fun v => encodeCanonical (jsValue v)) hnd)
      (List.mem_map_of_mem hm)
    rw [encodeValues_jsProperties, ← h m hm]
    exact hlook
  have htexts : (ms.map fun m => stringify (utf16 m.1) ++ js ":" ++
      ((encodeValues (jsProperties ms)).lookup (utf16 m.1)).getD []) =
        (dumpsMembers ms).map utf16 := by
    rw [dumpsMembers_eq, List.map_map]
    refine List.map_congr_left fun m hm => ?_
    rw [hlookup m hm, stringify_utf16, Function.comp_apply, utf16_append, utf16_cons]
    simp [js]
  have hjoin : join ((((ownOrder (encodeValues (jsProperties ms))).map Prod.fst).insertionSort
      compareUtf8).map fun k => stringify k ++ js ":" ++
        ((encodeValues (jsProperties ms)).lookup k).getD []) =
      utf16 (commaJoin (dumpsMembers ms)) := by
    rw [hkeys, List.map_map, ← join_map_utf16, ← htexts]
    rfl
  rw [jsValue, encodeCanonical]
  simp only [hjoin]
  rw [dumps]
  simp [js, utf16]

mutual

/-- **`encodeCanonical` writes canonical forms** as JSON text. -/
theorem encodeCanonical_form : ∀ (t : Json) {n : Json}, Form R t n →
    encodeCanonical (jsValue n) = utf16 (dumps n)
  | .null, n, h => by
    obtain rfl : Json.null = n := Option.some.inj h
    rfl
  | .bool b, n, h => by
    obtain rfl : Json.bool b = n := Option.some.inj h
    cases b <;> rfl
  | .int i, n, h => by
    rw [Form, portableForm] at h
    split at h
    · rename_i hi
      obtain rfl : Json.int i = n := Option.some.inj h
      have hlt : i.natAbs < 2 ^ 53 := by
        rw [maxSafeInteger] at hi
        omega
      rw [jsValue, ofInt_of_lt hlt, encodeCanonical, numberText, Rat.num_intCast, dumps]
    · cases h
  | .str s, n, h => by
    obtain rfl : Json.str (R.nfc s) = n := Option.some.inj h
    exact stringify_utf16 _
  | .arr xs, n, h => by
    rw [Form, portableForm, Option.map_eq_some_iff] at h
    obtain ⟨ns, hns, rfl⟩ := h
    rw [jsValue, encodeCanonical, encodeItems_form xs hns, join_map_utf16, dumps]
    simp [js, utf16]
  | .obj ms, n, h => by
    obtain ⟨ns, hns, hnd, rfl⟩ := portableForm_obj_eq_some.1 h
    exact encodeCanonical_object (sortByKey_strict hnd) fun m hm =>
      encodes_members ms hns m (mem_sortByKey.1 hm)

/-- The items of a normal form are written as `json.dumps` writes them. -/
theorem encodeItems_form : ∀ (xs : List Json) {ns : List Json}, portableItems R xs = some ns →
    encodeItems (jsItems ns) = (dumpsItems ns).map utf16
  | [], ns, h => by
    obtain rfl : [] = ns := Option.some.inj h
    rfl
  | x :: xs, ns, h => by
    rw [portableItems, Option.bind_eq_some_iff] at h
    obtain ⟨n, hn, h⟩ := h
    obtain ⟨ns, hns, rfl⟩ := Option.map_eq_some_iff.1 h
    rw [jsItems, encodeItems, dumpsItems, encodeCanonical_form x hn, encodeItems_form xs hns]
    rfl

/-- So are the values. -/
theorem encodes_members : ∀ (ms : List (List Char × Json)) {ns : List (List Char × Json)},
    portableMembers R ms = some ns → ∀ m ∈ ns, encodeCanonical (jsValue m.2) = utf16 (dumps m.2)
  | [], ns, h, m, hm => by
    obtain rfl : [] = ns := Option.some.inj h
    exact absurd hm List.not_mem_nil
  | (k, v) :: ms, ns, h, m, hm => by
    rw [portableMembers, Option.bind_eq_some_iff] at h
    obtain ⟨n, hn, h⟩ := h
    obtain ⟨ns, hns, rfl⟩ := Option.map_eq_some_iff.1 h
    rcases List.mem_cons.1 hm with rfl | hm
    · exact encodeCanonical_form v hn
    · exact encodes_members ms hns m hm

end

/-- **Node computes the profile.** -/
theorem canonical_jsValue {t : Json} {b : List UInt8} :
    (canonical R (jsValue t)).map bufferFrom = .ok b ↔ profileBytes R t = some b := by
  simp only [canonical, map_eq_ok, normalizeCanonical_jsValue, profileBytes, Option.map_eq_some_iff]
  refine ⟨?_, ?_⟩
  · intro h
    obtain ⟨_, ⟨_, ⟨n, hn, rfl⟩, rfl⟩, rfl⟩ := h
    exact ⟨n, hn, by rw [encodeCanonical_form t hn, bufferFrom_utf16]⟩
  · intro h
    obtain ⟨n, hn, rfl⟩ := h
    exact ⟨_, ⟨_, ⟨n, hn, rfl⟩, rfl⟩, by rw [encodeCanonical_form t hn, bufferFrom_utf16]⟩

end Node

end Finality
