import Finality.Interop.Profile

/-!
# The Go implementation (`go/internal/canonical/canonical.go`)

Values as `json.Decoder.UseNumber()` decodes them: strings are byte strings, a number is kept as
its text, and a map is ranged over in an order that the language leaves open, here the order its
entries are listed in. `appendCanonical` extends a buffer or fails, and the two loops over a map
are `normalizeKeys` and `appendMembers`.

On the tree of a value, `Canonical` computes the portable profile (`canonical_goValue`).
-/

namespace Finality

open JsonText KeyOrder Checks

namespace Go

/-- A Go string: any bytes. -/
abbrev GoStr := List UInt8

/-- The bytes of a literal. -/
def lit (s : String) : GoStr := Utf8.utf8 s.toList

/-- A decoded value. -/
inductive Val where
  | nil
  | bool (b : Bool)
  | number (n : List Char)
  | string (s : GoStr)
  | slice (x : List Val)
  | map (x : List (GoStr × Val))

/-- The errors of the package. -/
inductive Err where
  | nonInteger (n : List Char)
  | outsideSafeRange (n : List Char)
  | invalidString
  | invalidKey
  | keyCollision (k : GoStr)

/-- `MaxSafeInteger` -/
def maxSafeInteger : Int := 9007199254740991

/-- `validateInteger` -/
def validateInteger (n : List Char) : Except Err Unit :=
  match readInt n with
  | none => .error (.nonInteger n)
  | some z => failIf (z > maxSafeInteger ∨ z < -maxSafeInteger) (.outsideSafeRange n)

/-- `utf8.ValidString(s)` -/
def validString (s : GoStr) : Bool := (Utf8.decode? s).isSome

/-- The runes that `range s` visits, for a valid string. -/
def runes (s : GoStr) : List Char := (Utf8.decode? s).getD []

/-- `fmt.Fprintf(b, "\\u%04x", r)` for a rune below `0x20` -/
def unicodeEscape (r : Char) : GoStr :=
  lit "\\u00" ++ Utf8.utf8 [Nat.digitChar (r.toNat / 16), Nat.digitChar (r.toNat % 16)]

/-- The `switch` of `appendJSONString`. -/
def escapeRune (r : Char) : GoStr :=
  if r = '"' then lit "\\\""
  else if r = '\\' then lit "\\\\"
  else if r = Char.ofNat 0x08 then lit "\\b"
  else if r = Char.ofNat 0x0c then lit "\\f"
  else if r = '\n' then lit "\\n"
  else if r = '\r' then lit "\\r"
  else if r = '\t' then lit "\\t"
  else if r.toNat < 0x20 then unicodeEscape r
  else Utf8.utf8 [r]

/-- `sort.Strings(keys)` -/
def sortStrings (keys : List GoStr) : List GoStr :=
  keys.insertionSort fun a b => Utf8.octets a ≤ Utf8.octets b

section
variable (R : Runtime)

/-- `norm.NFC.String(s)` for a valid string -/
def nfcString (s : GoStr) : GoStr := Utf8.utf8 (R.nfc (runes s))

/-- `appendJSONString` -/
def appendJSONString (b : GoStr) (s : GoStr) : Except Err GoStr := do
  failIf (validString s = false) .invalidString
  .ok (b ++ lit "\"" ++ (runes (nfcString R s)).flatMap escapeRune ++ lit "\"")

/-- The first loop over a map, with `normalized` and `keys` as filled so far. -/
def normalizeKeys {V : Type} : List (GoStr × V) → List (GoStr × V) → List GoStr →
    Except Err (List (GoStr × V) × List GoStr)
  | [], normalized, keys => .ok (normalized, keys)
  | (rawKey, val) :: x, normalized, keys => do
      failIf (validString rawKey = false) .invalidKey
      let k := nfcString R rawKey
      failIf (k ∈ normalized.map Prod.fst) (.keyCollision k)
      normalizeKeys x (normalized ++ [(k, val)]) (keys ++ [k])

/-- The comma in front of all but the first. -/
def separator (i : Nat) : GoStr := if i > 0 then lit "," else []

/-- The second loop over a map, over the sorted keys. A value stands as the function that appends
it, and a missing one would be `nil`. -/
def appendMembers (normalized : List (GoStr × (GoStr → Except Err GoStr))) :
    List GoStr → Nat → GoStr → Except Err GoStr
  | [], _, b => .ok b
  | k :: keys, i, b => do
      let b ← appendJSONString R (b ++ separator i) k
      let b ← (normalized.lookup k).getD (fun b => .ok (b ++ lit "null")) (b ++ lit ":")
      appendMembers normalized keys (i + 1) b

mutual

/-- `appendCanonical` -/
def appendCanonical : Val → GoStr → Except Err GoStr
  | .nil, b => .ok (b ++ lit "null")
  | .bool true, b => .ok (b ++ lit "true")
  | .bool false, b => .ok (b ++ lit "false")
  | .number x, b => do
      validateInteger x
      .ok (b ++ Utf8.utf8 x)
  | .string x, b => appendJSONString R b x
  | .slice x, b => do
      let b ← appendItems x 0 (b ++ lit "[")
      .ok (b ++ lit "]")
  | .map x, b => do
      let (normalized, keys) ← normalizeKeys R (appenders x) [] []
      let b ← appendMembers R normalized (sortStrings keys) 0 (b ++ lit "\x7b")
      .ok (b ++ lit "\x7d")

/-- The loop over a slice. -/
def appendItems : List Val → Nat → GoStr → Except Err GoStr
  | [], _, b => .ok b
  | e :: x, i, b => do
      let b ← appendCanonical e (b ++ separator i)
      appendItems x (i + 1) b

/-- The entries of a map, each value as the function that appends it. -/
def appenders : List (GoStr × Val) → List (GoStr × (GoStr → Except Err GoStr))
  | [] => []
  | (k, v) :: x => (k, fun b => appendCanonical v b) :: appenders x

end

/-- `Canonical` -/
def canonical (v : Val) : Except Err GoStr := appendCanonical R v []

/-- `SHA256` -/
def sha256 (v : Val) : Except Err GoStr := (canonical R v).map fun c => Utf8.utf8 (R.sha256 c)

/-- `HMACSHA256` -/
def hmacSha256 (v : Val) (key : List UInt8) : Except Err GoStr :=
  (canonical R v).map fun c => Utf8.utf8 (R.hmac_sha256 key c)

end

/-! ## The Go value of a tree -/

mutual

/-- The Go value of a JSON tree. -/
def goValue : Json → Val
  | .null => .nil
  | .bool b => .bool b
  | .int i => .number (intText i)
  | .str s => .string (Utf8.utf8 s)
  | .arr xs => .slice (goItems xs)
  | .obj ms => .map (goEntries ms)

/-- The elements of a slice. -/
def goItems : List Json → List Val
  | [] => []
  | x :: xs => goValue x :: goItems xs

/-- The entries of a map. -/
def goEntries : List (List Char × Json) → List (GoStr × Val)
  | [] => []
  | (k, v) :: ms => (Utf8.utf8 k, goValue v) :: goEntries ms

end

/-! ## Numbers and strings -/

variable {R : Runtime}

/-- `validateInteger` accepts the digits of a safe integer. -/
theorem validateInteger_intText {i : Int} : validateInteger (intText i) = .ok () ↔
    -Finality.maxSafeInteger ≤ i ∧ i ≤ Finality.maxSafeInteger := by
  rw [validateInteger, readInt_intText]
  simp only [failIf_eq_ok]
  rw [maxSafeInteger, Finality.maxSafeInteger]
  omega

/-- Every text is valid UTF-8. -/
@[simp] theorem validString_utf8 (s : List Char) : validString (Utf8.utf8 s) = true := by
  simp [validString]

/-- Its runes are its characters. -/
@[simp] theorem runes_utf8 (s : List Char) : runes (Utf8.utf8 s) = s := by
  simp [runes]

/-- It is brought into NFC. -/
@[simp] theorem nfcString_utf8 (s : List Char) :
    nfcString R (Utf8.utf8 s) = Utf8.utf8 (R.nfc s) := by
  simp [nfcString]

/-- The escape table below the printable ASCII characters and up to the end of ASCII. -/
theorem escapeRune_ascii : ∀ n : Fin 128,
    escapeRune (Char.ofNat n.val) = Utf8.utf8 (escapeChar (Char.ofNat n.val)) := by decide

/-- The `switch` writes what JSON text has for the character. -/
theorem escapeRune_eq (r : Char) : escapeRune r = Utf8.utf8 (escapeChar r) := by
  by_cases h : r.toNat < 128
  · have := escapeRune_ascii ⟨r.toNat, h⟩
    rwa [Char.ofNat_toNat] at this
  · have hne : ∀ n < 128, r ≠ Char.ofNat n := by
      intro n hn hr
      rw [hr, toNat_ofNat_ascii ⟨n, hn⟩] at h
      exact h hn
    rw [escapeChar_of_le (Nat.le_of_not_lt h)]
    simp only [escapeRune, hne 0x08 (by decide), hne 0x0c (by decide),
      show r ≠ '"' from hne 0x22 (by decide), show r ≠ '\\' from hne 0x5c (by decide),
      show r ≠ '\n' from hne 0x0a (by decide), show r ≠ '\r' from hne 0x0d (by decide),
      show r ≠ '\t' from hne 0x09 (by decide), show ¬ r.toNat < 0x20 by omega, if_false]

/-- Its characters are escaped as `json.dumps` escapes them. -/
theorem flatMap_escapeRune (s : List Char) :
    s.flatMap escapeRune = Utf8.utf8 (s.flatMap escapeChar) := by
  simp only [Utf8.utf8, List.flatMap_assoc]
  exact List.flatMap_congr fun r _ => escapeRune_eq r

/-- A string is written in NFC. -/
theorem appendJSONString_utf8 (b : GoStr) (s : List Char) :
    appendJSONString R b (Utf8.utf8 s) = .ok (b ++ Utf8.utf8 (quote (R.nfc s))) := by
  have hq : lit "\"" = Utf8.utf8 ['"'] := rfl
  simp only [appendJSONString, validString_utf8, Bool.true_eq_false, failIf, if_false, ok_bind,
    nfcString_utf8, runes_utf8, flatMap_escapeRune, quote, hq]
  simp [Utf8.utf8]

/-! ## Canonical bytes -/

/-- A comma goes before everything but the first. -/
@[simp] theorem utf8_comma (i : Nat) :
    Utf8.utf8 (if i > 0 then [','] else []) = separator i := by
  unfold separator
  split <;> rfl

/-- **The first loop** succeeds exactly while no two keys have one NFC form. -/
theorem normalizeKeys_utf8 {V : Type} : ∀ {ms seen : List (List Char × V)}
    {out : List (GoStr × V) × List GoStr},
    normalizeKeys R (mapKeys Utf8.utf8 ms) (mapKeys Utf8.utf8 seen)
        ((mapKeys Utf8.utf8 seen).map Prod.fst) = .ok out ↔
      (((mapKeys R.nfc ms).map Prod.fst).Nodup ∧
        List.Disjoint (seen.map Prod.fst) ((mapKeys R.nfc ms).map Prod.fst)) ∧
      out = (mapKeys Utf8.utf8 (seen ++ mapKeys R.nfc ms),
        (mapKeys Utf8.utf8 (seen ++ mapKeys R.nfc ms)).map Prod.fst)
  | [], seen, out => by
    simp [normalizeKeys, eq_comm]
  | (k, v) :: ms, seen, out => by
    have ih := @normalizeKeys_utf8 V ms (seen ++ [(R.nfc k, v)]) out
    rw [mapKeys_append, List.map_append, List.append_assoc] at ih
    simp only [mapKeys_cons, normalizeKeys, validString_utf8, Bool.true_eq_false,
      bind_eq_ok, failIf_eq_ok, exists_unit, not_false_eq_true, true_and, nfcString_utf8,
      mem_keys_mapKeys Utf8.utf8_injective]
    simp only [mapKeys_cons, mapKeys_nil, List.map_cons, List.map_nil] at ih
    rw [ih]
    simp only [List.map_append, List.map_cons, List.map_nil, List.nodup_cons,
      List.disjoint_append_left, List.singleton_disjoint, List.disjoint_cons_right,
      List.singleton_append]
    tauto

/-- The sorted keys of normalised entries are those of the sorted entries. -/
theorem sortStrings_utf8 {V : Type} (ms : List (List Char × V)) :
    sortStrings ((mapKeys Utf8.utf8 ms).map Prod.fst) =
      (mapKeys Utf8.utf8 (sortByKey ms)).map Prod.fst := by
  simp only [mapKeys, List.map_map, sortStrings, sortByKey]
  exact (List.map_insertionSort (fun a b : List Char × V => a.1 ≤ b.1)
    (fun a b : GoStr => Utf8.octets a ≤ Utf8.octets b) (fun m : List Char × V => Utf8.utf8 m.1) ms
    fun a _ b _ => Utf8.octets_utf8_le_iff.symm).symm

/-- **The second loop**, over keys in NFC whose values append their canonical forms, writes the
members of the object. -/
theorem appendMembers_eq_ok {normalized : List (GoStr × (GoStr → Except Err GoStr))} :
    ∀ {ms : List (List Char × Json)} {i : Nat} {b b' : GoStr},
    (∀ m ∈ ms, R.nfc m.1 = m.1 ∧ ∃ f, normalized.lookup (Utf8.utf8 m.1) = some f ∧
      ∀ b b', f b = .ok b' ↔ ∃ n, Form R m.2 n ∧ b' = b ++ Utf8.utf8 (dumps n)) →
    (appendMembers R normalized ((mapKeys Utf8.utf8 ms).map Prod.fst) i b = .ok b' ↔
      ∃ ns, List.Forall₂ (fun m n => m.1 = n.1 ∧ Form R m.2 n.2) ms ns ∧
        b' = b ++ Utf8.utf8 (joinFrom i (dumpsMembers ns)))
  | [], i, b, b', _ => by simp [appendMembers, dumpsMembers, eq_comm]
  | (k, v) :: ms, i, b, b', h => by
    rw [List.forall_mem_cons] at h
    obtain ⟨⟨hk, f, hf, hform⟩, hrest⟩ := h
    have ih := fun b b' => @appendMembers_eq_ok normalized ms (i + 1) b b' hrest
    have htext : ∀ n ns, b ++ separator i ++ Utf8.utf8 (quote k) ++ lit ":" ++
        Utf8.utf8 (dumps n) ++ Utf8.utf8 (joinFrom (i + 1) (dumpsMembers ns)) =
          b ++ Utf8.utf8 (joinFrom i (dumpsMembers ((k, n) :: ns))) := by
      intro n ns
      rw [dumpsMembers, joinFrom_cons, ← utf8_comma, lit]
      simp [Utf8.utf8]
    rw [show (mapKeys Utf8.utf8 ((k, v) :: ms)).map Prod.fst =
      Utf8.utf8 k :: (mapKeys Utf8.utf8 ms).map Prod.fst from rfl, appendMembers,
      appendJSONString_utf8, hf]
    simp only [Option.getD_some, ok_bind, bind_eq_ok, hform, ih, List.forall₂_cons_left_iff, hk]
    refine ⟨?_, ?_⟩
    · rintro ⟨_, ⟨n, hn, rfl⟩, ns, hns, rfl⟩
      exact ⟨(k, n) :: ns, ⟨(k, n), ns, ⟨rfl, hn⟩, hns, rfl⟩, htext n ns⟩
    · rintro ⟨_, ⟨⟨k', n⟩, ns, ⟨rfl, hn⟩, hns, rfl⟩, rfl⟩
      exact ⟨_, ⟨n, hn, rfl⟩, ns, hns, (htext n ns).symm⟩

/-- What appends the value of each member. -/
theorem appenders_goEntries : ∀ ms : List (List Char × Json),
    appenders R (goEntries ms) =
      mapKeys Utf8.utf8 (ms.map fun m => (m.1, fun b => appendCanonical R (goValue m.2) b))
  | [] => rfl
  | (k, v) :: ms => by
    rw [goEntries, appenders, appenders_goEntries ms]
    rfl

/-- **An object**, given that its values append their canonical forms: the loops write the members
of its canonical form. -/
theorem appendCanonical_map {ms : List (List Char × Json)} {b b' : GoStr}
    (h : ∀ m ∈ ms, ∀ b b' : GoStr, appendCanonical R (goValue m.2) b = .ok b' ↔
      ∃ n, Form R m.2 n ∧ b' = b ++ Utf8.utf8 (dumps n)) :
    appendCanonical R (goValue (.obj ms)) b = .ok b' ↔
      ∃ n, Form R (.obj ms) n ∧ b' = b ++ Utf8.utf8 (dumps n) := by
  let es := ms.map fun m => (m.1, fun b => appendCanonical R (goValue m.2) b)
  have hkeys : (mapKeys Utf8.utf8 (mapKeys R.nfc es)).map Prod.fst =
      (mapKeys Utf8.utf8 (mapKeys R.nfc ms)).map Prod.fst := by
    simp [mapKeys, es]
  have hnfc : (mapKeys R.nfc es).map Prod.fst = (mapKeys R.nfc ms).map Prod.fst := by
    simp [mapKeys, es]
  have hloop : ∀ out, normalizeKeys R (mapKeys Utf8.utf8 es) [] [] = .ok out ↔
      ((mapKeys R.nfc ms).map Prod.fst).Nodup ∧
        out = (mapKeys Utf8.utf8 (mapKeys R.nfc es),
          (mapKeys Utf8.utf8 (mapKeys R.nfc ms)).map Prod.fst) := by
    intro out
    have := @normalizeKeys_utf8 R _ es [] out
    rw [List.nil_append, hkeys, hnfc] at this
    simpa using this
  have hmembers : ((mapKeys R.nfc ms).map Prod.fst).Nodup → ∀ b b' : GoStr,
      appendMembers R (mapKeys Utf8.utf8 (mapKeys R.nfc es))
          (sortStrings ((mapKeys Utf8.utf8 (mapKeys R.nfc ms)).map Prod.fst)) 0 b = .ok b' ↔
        ∃ ns, portableMembers R ms = some ns ∧
          b' = b ++ Utf8.utf8 (commaJoin (dumpsMembers (sortByKey ns))) := by
    intro hnd b b'
    rw [sortStrings_utf8, appendMembers_eq_ok]
    · refine ⟨?_, ?_⟩
      · rintro ⟨ns, hns, rfl⟩
        obtain ⟨ns', hns', rfl⟩ := (forall₂_sortByKey_iff hnd).1 hns
        exact ⟨ns', forall₂_portableMembers.1 hns', rfl⟩
      · rintro ⟨ns, hns, rfl⟩
        exact ⟨_, (forall₂_sortByKey_iff hnd).2 ⟨ns, forall₂_portableMembers.2 hns, rfl⟩, rfl⟩
    · intro m hm
      obtain ⟨m', hm', rfl⟩ := List.mem_map.1 (mem_sortByKey.1 hm)
      refine ⟨R.nfc_idem _, fun b => appendCanonical R (goValue m'.2) b, ?_, h m' hm'⟩
      have hmem : (R.nfc m'.1, fun b => appendCanonical R (goValue m'.2) b) ∈ mapKeys R.nfc es :=
        List.mem_map.2 ⟨_, List.mem_map_of_mem hm', rfl⟩
      rw [lookup_mapKeys Utf8.utf8_injective]
      exact lookup_of_mem (hnfc ▸ hnd) hmem
  simp only [goValue, appendCanonical, bind_eq_ok, appenders_goEntries, Form,
    portableForm_obj_eq_some]
  refine ⟨?_, ?_⟩
  · rintro ⟨out, hout, b₁, hb₁, hb⟩
    obtain ⟨hnd, rfl⟩ := (hloop out).1 hout
    obtain ⟨ns, hns, rfl⟩ := (hmembers hnd _ _).1 hb₁
    obtain rfl := Except.ok.inj hb
    exact ⟨_, ⟨ns, hns, keys_portableMembers hns ▸ hnd, rfl⟩, by simp [dumps, lit, Utf8.utf8]⟩
  · rintro ⟨_, ⟨ns, hns, hnd, rfl⟩, rfl⟩
    have hnd' := keys_portableMembers hns ▸ hnd
    exact ⟨_, (hloop _).2 ⟨hnd', rfl⟩, _, (hmembers hnd' _ _).2 ⟨ns, hns, rfl⟩,
      by simp [dumps, lit, Utf8.utf8]⟩

mutual

/-- **The Go encoder appends the canonical form**, and fails where there is none. -/
theorem appendCanonical_goValue : ∀ (t : Json) {b b' : GoStr},
    appendCanonical R (goValue t) b = .ok b' ↔
      ∃ n, Form R t n ∧ b' = b ++ Utf8.utf8 (dumps n)
  | .null, b, b' => by
    simp [goValue, appendCanonical, Form, portableForm, dumps, lit, eq_comm]
  | .bool x, b, b' => by
    cases x <;> simp [goValue, appendCanonical, Form, portableForm, dumps, lit, eq_comm]
  | .int i, b, b' => by
    simp only [goValue, appendCanonical, bind_eq_ok, exists_unit, validateInteger_intText, Form,
      portableForm]
    by_cases hi : -Finality.maxSafeInteger ≤ i ∧ i ≤ Finality.maxSafeInteger
    · simp [hi, dumps, eq_comm]
    · simp [hi]
  | .str s, b, b' => by
    simp [goValue, appendCanonical, appendJSONString_utf8, Form, portableForm, dumps, eq_comm]
  | .arr xs, b, b' => by
    simp only [goValue, appendCanonical, bind_eq_ok, appendItems_goItems xs, Form, portableForm,
      Option.map_eq_some_iff]
    refine ⟨?_, ?_⟩
    · intro h
      obtain ⟨_, ⟨ns, hns, rfl⟩, hb⟩ := h
      obtain rfl := Except.ok.inj hb
      exact ⟨_, ⟨ns, hns, rfl⟩, by simp [dumps, lit, Utf8.utf8]⟩
    · intro h
      obtain ⟨_, ⟨ns, hns, rfl⟩, rfl⟩ := h
      exact ⟨_, ⟨ns, hns, rfl⟩, by simp [dumps, lit, Utf8.utf8]⟩
  | .obj ms, b, b' => appendCanonical_map (appends_members ms)

/-- The items of an array are appended in their normal forms. -/
theorem appendItems_goItems : ∀ (xs : List Json) {i : Nat} {b b' : GoStr},
    appendItems R (goItems xs) i b = .ok b' ↔
      ∃ ns, portableItems R xs = some ns ∧ b' = b ++ Utf8.utf8 (joinFrom i (dumpsItems ns))
  | [], i, b, b' => by simp [goItems, appendItems, portableItems, dumpsItems, eq_comm]
  | x :: xs, i, b, b' => by
    simp only [goItems, appendItems, bind_eq_ok, appendCanonical_goValue x, appendItems_goItems xs,
      portableItems, Option.bind_eq_some_iff, Option.map_eq_some_iff]
    have htext : ∀ n ns, b ++ separator i ++ Utf8.utf8 (dumps n) ++
        Utf8.utf8 (joinFrom (i + 1) (dumpsItems ns)) =
          b ++ Utf8.utf8 (joinFrom i (dumpsItems (n :: ns))) := by
      intro n ns
      rw [dumpsItems, joinFrom_cons, ← utf8_comma]
      simp [Utf8.utf8]
    refine ⟨?_, ?_⟩
    · intro h
      obtain ⟨_, ⟨n, hn, rfl⟩, ns, hns, rfl⟩ := h
      exact ⟨_, ⟨n, hn, ns, hns, rfl⟩, htext n ns⟩
    · intro h
      obtain ⟨_, ⟨n, hn, ns, hns, rfl⟩, rfl⟩ := h
      exact ⟨_, ⟨n, hn, rfl⟩, ns, hns, (htext n ns).symm⟩

/-- So are the values of an object. -/
theorem appends_members : ∀ (ms : List (List Char × Json)), ∀ m ∈ ms, ∀ b b' : GoStr,
    appendCanonical R (goValue m.2) b = .ok b' ↔
      ∃ n, Form R m.2 n ∧ b' = b ++ Utf8.utf8 (dumps n)
  | [], m, hm, _, _ => absurd hm List.not_mem_nil
  | (k, v) :: ms, m, hm, b, b' => by
    rcases List.mem_cons.1 hm with rfl | hm
    · exact appendCanonical_goValue v
    · exact appends_members ms m hm b b'

end

/-- **Go computes the profile.** -/
theorem canonical_goValue {t : Json} {b : GoStr} :
    canonical R (goValue t) = .ok b ↔ profileBytes R t = some b := by
  simp only [canonical, appendCanonical_goValue, Form, profileBytes, Option.map_eq_some_iff,
    List.nil_append, @eq_comm _ b]

end Go

end Finality
