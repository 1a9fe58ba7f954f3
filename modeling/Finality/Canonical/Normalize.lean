import Mathlib.Algebra.Group.Int.Defs
import Mathlib.Algebra.Group.Nat.Defs
import Finality.Lib.JsonRead
import Finality.Lib.Checks
import Finality.Python.Value

/-!
# Canonical bytes (`canonical.py`)

`_normalize` turns a value into a JSON document or refuses it, `_dump` writes the document, and
`canonical_bytes` and `portable_canonical_bytes` are the two profiles of the composition.

A dictionary is walked entry by entry with the entries collected so far (`out`), as the source
does; a dataclass is first replaced by `asdict(value)`, the dictionary of its fields, so both
cases share the walk. `asdict` copies what the fields contain, at any depth, and raises where
something cannot be copied; it also raises on a class, which `is_dataclass` takes for an instance.

`json.dumps` writes an integer with `int.__repr__`, which CPython 3.11 and later refuse to do for
more than 4300 digits, the default of `sys.set_int_max_str_digits`. So a value may have a normal
form and still no canonical bytes.

Outside the model are the limit on the depth of calls, which depends on the caller and the
interpreter and not on the value, and subclasses of the types that `_normalize` tests for.
-/

namespace Finality

open JsonText KeyOrder Checks

/-- `MAX_SAFE_INTEGER` -/
def maxSafeInteger : Int := 2 ^ 53 - 1

/-- A `CanonicalizationError`. -/
def canonErr (message : String) : PyErr := .canonicalizationError (py message)

/-- The only key of a tagged byte string. -/
def bytesHexKey : List Char := "$bytes_hex".toList

section
variable (R : Runtime)

/-- The surrogate check in front of `unicodedata.normalize("NFC", s)`, and the call. -/
def nfcText (message : String) (s : PyStr) : Except PyErr (List Char) :=
  if hasSurrogate s then .error (canonErr message) else .ok (R.nfc (toText s))

/-- The normalised key of an entry. -/
def normalizeKey : PyKey → Except PyErr (List Char)
  | .other _ => .error (canonErr "dictionary keys must be strings")
  | .str k => nfcText R "unpaired UTF-16 surrogate code point is forbidden in key" k

/-- The copy of an object, or of a key, that `asdict` makes. -/
def PyObject.copy (o : PyObject) : Except PyErr Unit :=
  failIf (o.copyable = false) (.typeError (py "cannot pickle '" ++ o.typeName ++ py "' object"))

/-- The copy of a key. -/
def copyKey : PyKey → Except PyErr Unit
  | .str _ => .ok ()
  | .other o => o.copy

mutual

/-- The copies that `asdict` makes of a field's value: the copy is equal to the value, up to the
dataclasses inside, so only its failure is modelled. -/
def copyValue : PyVal → Except PyErr Unit
  | .list items | .tuple items => copyItems items
  | .dict entries | .dataclass entries => copyEntries entries
  | .other o => o.copy
  | .none | .bool _ | .int _ | .float _ | .str _ | .bytes _ => .ok ()

/-- `copyValue` over the items of a list. -/
def copyItems : List PyVal → Except PyErr Unit
  | [] => .ok ()
  | v :: vs => do
      copyValue v
      copyItems vs

/-- `copyValue` over the entries of a dictionary. -/
def copyEntries : List (PyKey × PyVal) → Except PyErr Unit
  | [] => .ok ()
  | (key, val) :: es => do
      copyKey key
      copyValue val
      copyEntries es

end

mutual

/-- `_normalize(value, portable=portable)` -/
def normalize (portable : Bool) : PyVal → Except PyErr Json
  | .none => .ok .null
  | .bool b => .ok (.bool b)
  | .int i =>
      if portable ∧ ¬(-maxSafeInteger ≤ i ∧ i ≤ maxSafeInteger) then
        .error (canonErr "integer outside portable safe range")
      else .ok (.int i)
  | .float _ =>
      .error (canonErr "floating point values are forbidden in security-bound material")
  | .str s =>
      (nfcText R "unpaired UTF-16 surrogate code point is forbidden" s).map .str
  | .bytes data =>
      if portable then .error (canonErr "bytes are not part of the portable JSON profile")
      else .ok (.obj [(bytesHexKey, .str (Hex.encode data))])
  | .list items => (normalizeItems portable items).map .arr
  | .tuple items => (normalizeItems portable items).map .arr
  | .dict entries => (normalizeEntries portable entries []).map fun out => .obj (sortByKey out)
  | .dataclass fields => do
      copyEntries fields
      (normalizeEntries portable fields []).map fun out => .obj (sortByKey out)
  | .other o =>
      if o.isDataclassType then
        .error (.typeError (py "asdict() should be called on dataclass instances"))
      else .error (.canonicalizationError (py "unsupported value type: " ++ o.typeName))

/-- `[_normalize(v) for v in value]` -/
def normalizeItems (portable : Bool) : List PyVal → Except PyErr (List Json)
  | [] => .ok []
  | v :: vs => do
      let n ← normalize portable v
      let ns ← normalizeItems portable vs
      .ok (n :: ns)

/-- The walk over the entries of a dictionary. -/
def normalizeEntries (portable : Bool) :
    List (PyKey × PyVal) → List (List Char × Json) → Except PyErr (List (List Char × Json))
  | [], out => .ok out
  | (key, val) :: es, out => do
      let nkey ← normalizeKey R key
      failIf (nkey ∈ out.map Prod.fst) (canonErr "key collision after Unicode normalization")
      let n ← normalize portable val
      normalizeEntries portable es (out ++ [(nkey, n)])

end

/-- `sys.int_info.default_max_str_digits` -/
def maxStrDigits : Nat := 4300

/-- `int.__repr__(i)` returns: the integer has no more digits than are allowed. -/
def printsInt (i : Int) : Bool := (Nat.toDigits 10 i.natAbs).length ≤ maxStrDigits

mutual

/-- Every integer of the document can be written. -/
def prints : Json → Bool
  | .null | .bool _ | .str _ => true
  | .int i => printsInt i
  | .arr items => printsItems items
  | .obj members => printsMembers members

/-- `prints`, item by item. -/
def printsItems : List Json → Bool
  | [] => true
  | v :: vs => prints v && printsItems vs

/-- `prints`, member by member. -/
def printsMembers : List (List Char × Json) → Bool
  | [] => true
  | (_, v) :: ms => prints v && printsMembers ms

end

/-- What `json.dumps` raises at an integer it cannot write. -/
def digitsErr : PyErr :=
  .valueError (py ("Exceeds the limit (4300 digits) for integer string conversion; " ++
    "use sys.set_int_max_str_digits() to increase the limit"))

/-- The text of a document whose integers can be written, in UTF-8. -/
def documentBytes (normalized : Json) : List UInt8 :=
  Utf8.utf8 (dumps (sortKeys normalized))

/-- `_dump(normalized)` -/
def dump (normalized : Json) : Except PyErr (List UInt8) :=
  if prints normalized then .ok (documentBytes normalized) else .error digitsErr

/-- `canonical_bytes(value)` -/
def canonicalBytes (value : PyVal) : Except PyErr (List UInt8) := do
  let normalized ← normalize R false value
  dump normalized

/-- `portable_canonical_bytes(value)` -/
def portableCanonicalBytes (value : PyVal) : Except PyErr (List UInt8) := do
  let normalized ← normalize R true value
  dump normalized

/-- `sha256_hex(value)` -/
def sha256Hex (value : PyVal) : Except PyErr PyStr :=
  (canonicalBytes R value).map fun data => ofText (R.sha256 data)

end

/-! ## Documents that can be written -/

/-- An integer can be written exactly when it lies below the first one with 4301 digits. -/
theorem printsInt_iff {i : Int} : printsInt i = true ↔ i.natAbs < 10 ^ maxStrDigits := by
  rw [printsInt, decide_eq_true_eq, Nat.length_toDigits_le_iff (by decide) (by decide)]

/-- An integer within bounds that can be written can be written. -/
theorem printsInt_of_le {i j : Int} (h : printsInt j = true) (hle : i.natAbs ≤ j.natAbs) :
    printsInt i = true :=
  printsInt_iff.2 (lt_of_le_of_lt hle (printsInt_iff.1 h))

/-- The integers of the portable profile can be written. -/
theorem printsInt_of_safe {i : Int} (h : -maxSafeInteger ≤ i ∧ i ≤ maxSafeInteger) :
    printsInt i = true := by
  refine printsInt_of_le (j := maxSafeInteger) (by decide) ?_
  unfold maxSafeInteger at h ⊢
  omega

/-- Items can be written when each of them can. -/
theorem printsItems_iff : ∀ {vs : List Json}, printsItems vs = true ↔ ∀ v ∈ vs, prints v = true
  | [] => by simp [printsItems]
  | v :: vs => by rw [printsItems, Bool.and_eq_true, printsItems_iff, List.forall_mem_cons]

/-- So can members. -/
theorem printsMembers_iff : ∀ {ms : List (List Char × Json)},
    printsMembers ms = true ↔ ∀ m ∈ ms, prints m.2 = true
  | [] => by simp [printsMembers]
  | (_, v) :: ms => by
    rw [printsMembers, Bool.and_eq_true, printsMembers_iff, List.forall_mem_cons]

/-- A normal form is written when its integers print. -/
theorem dump_eq_ok {n : Json} {b : List UInt8} :
    dump n = .ok b ↔ prints n = true ∧ documentBytes n = b := by
  unfold dump
  split <;> simp_all

/-! ## What the walk over a dictionary returns -/

variable {R : Runtime} {portable : Bool}

/-- **Which values have canonical bytes**: those with a normal form that can be written. -/
theorem canonicalBytes_eq_ok {v : PyVal} {b : List UInt8} :
    canonicalBytes R v = .ok b ↔
      ∃ n, normalize R false v = .ok n ∧ prints n = true ∧ documentBytes n = b := by
  simp only [canonicalBytes, bind_eq_ok, dump_eq_ok]

/-- A string without surrogates is brought into NFC. -/
theorem nfcText_eq_ok {message : String} {s : PyStr} {t : List Char} :
    nfcText R message s = .ok t ↔ hasSurrogate s = false ∧ R.nfc (toText s) = t := by
  unfold nfcText
  split <;> simp_all

/-- The normalised items are the items' normal forms, in order. -/
theorem normalizeItems_eq_ok : ∀ {vs : List PyVal} {ns : List Json},
    normalizeItems R portable vs = .ok ns ↔
      List.Forall₂ (fun v n => normalize R portable v = .ok n) vs ns
  | [], ns => by simp [normalizeItems, eq_comm]
  | v :: vs, ns => by
    simp only [normalizeItems, bind_eq_ok, Except.ok.injEq, List.forall₂_cons_left_iff,
      normalizeItems_eq_ok]
    refine ⟨?_, ?_⟩
    · intro h
      obtain ⟨n, hn, ns', hns, rfl⟩ := h
      exact ⟨n, ns', hn, hns, rfl⟩
    · intro h
      obtain ⟨n, ns', hn, hns, rfl⟩ := h
      exact ⟨n, hn, ns', hns, rfl⟩

/-- An entry and its normal form. -/
def NormalEntry (R : Runtime) (portable : Bool) (e : PyKey × PyVal) (m : List Char × Json) : Prop :=
  normalizeKey R e.1 = .ok m.1 ∧ normalize R portable e.2 = .ok m.2

/-- The walk collects the entries' normal forms in order, behind those collected before, and
succeeds only while no key repeats. -/
theorem normalizeEntries_eq_ok : ∀ {es : List (PyKey × PyVal)} {out out' : List (List Char × Json)},
    normalizeEntries R portable es out = .ok out' ↔
      ∃ ms, List.Forall₂ (NormalEntry R portable) es ms ∧ out' = out ++ ms ∧
        (ms.map Prod.fst).Nodup ∧ List.Disjoint (out.map Prod.fst) (ms.map Prod.fst)
  | [], out, out' => by simp [normalizeEntries, eq_comm]
  | (key, val) :: es, out, out' => by
    simp only [normalizeEntries, bind_eq_ok, failIf_eq_ok, exists_unit, List.forall₂_cons_left_iff,
      normalizeEntries_eq_ok]
    refine ⟨?_, ?_⟩
    · intro h
      obtain ⟨nkey, hk, hfresh, n, hn, ms, hms, rfl, hnd, hdis⟩ := h
      simp only [List.map_append, List.map_cons, List.map_nil, List.disjoint_append_left,
        List.singleton_disjoint] at hdis
      refine ⟨(nkey, n) :: ms, ⟨(nkey, n), ms, ⟨hk, hn⟩, hms, rfl⟩, by simp, ?_, ?_⟩
      · exact List.nodup_cons.2 ⟨hdis.2, hnd⟩
      · rw [List.map_cons, List.disjoint_cons_right]
        exact ⟨hfresh, hdis.1⟩
    · intro h
      obtain ⟨-, ⟨⟨nkey, n⟩, ms, ⟨hk, hn⟩, hms, rfl⟩, rfl, hnd, hdis⟩ := h
      rw [List.map_cons, List.disjoint_cons_right] at hdis
      rw [List.map_cons, List.nodup_cons] at hnd
      refine ⟨nkey, hk, hdis.1, n, hn, ms, hms, by simp, hnd.2, ?_⟩
      simp only [List.map_append, List.map_cons, List.map_nil, List.disjoint_append_left,
        List.singleton_disjoint]
      exact ⟨hdis.2, hnd.1⟩

/-- **The normal form of a dictionary**: the normal forms of its entries in key order, and there
is one exactly when no two keys have the same normal form. -/
theorem normalize_dict_eq_ok {es : List (PyKey × PyVal)} {n : Json} :
    normalize R portable (.dict es) = .ok n ↔
      ∃ ms, List.Forall₂ (NormalEntry R portable) es ms ∧ (ms.map Prod.fst).Nodup ∧
        n = .obj (sortByKey ms) := by
  rw [normalize, map_eq_ok]
  refine ⟨?_, ?_⟩
  · intro h
    obtain ⟨out, hout, rfl⟩ := h
    obtain ⟨ms, hms, rfl, hnd, -⟩ := normalizeEntries_eq_ok.1 hout
    exact ⟨_, hms, hnd, rfl⟩
  · intro h
    obtain ⟨ms, hms, hnd, rfl⟩ := h
    exact ⟨ms, normalizeEntries_eq_ok.2 ⟨ms, hms, rfl, hnd, by simp⟩, rfl⟩

/-- A key that can be normalised can be copied. -/
theorem copyKey_of_normalizeKey {k : PyKey} {t : List Char} (h : normalizeKey R k = .ok t) :
    copyKey k = .ok () := by
  cases k with
  | str s => rfl
  | other o => cases h

mutual

/-- What has a normal form can be copied. -/
theorem copyValue_of_normalize : ∀ {v : PyVal} {n : Json}, normalize R portable v = .ok n →
    copyValue v = .ok ()
  | .none, _, _ | .bool _, _, _ | .int _, _, _ | .float _, _, _ | .str _, _, _
  | .bytes _, _, _ => rfl
  | .list items, n, h => by
    rw [normalize, map_eq_ok] at h
    obtain ⟨ns, hns, -⟩ := h
    exact copyItems_of_normalizeItems hns
  | .tuple items, n, h => by
    rw [normalize, map_eq_ok] at h
    obtain ⟨ns, hns, -⟩ := h
    exact copyItems_of_normalizeItems hns
  | .dict entries, n, h => by
    rw [normalize, map_eq_ok] at h
    obtain ⟨out, hout, -⟩ := h
    exact copyEntries_of_normalizeEntries hout
  | .dataclass fields, n, h => by
    rw [normalize, bind_eq_ok] at h
    obtain ⟨⟨⟩, hcopy, -⟩ := h
    exact hcopy
  | .other o, n, h => by
    rw [normalize] at h
    split at h <;> cases h

/-- So can the items of a list. -/
theorem copyItems_of_normalizeItems : ∀ {vs : List PyVal} {ns : List Json},
    normalizeItems R portable vs = .ok ns → copyItems vs = .ok ()
  | [], _, _ => rfl
  | v :: vs, ns, h => by
    simp only [normalizeItems, bind_eq_ok] at h
    obtain ⟨n, hn, ns', hns, -⟩ := h
    rw [copyItems, copyValue_of_normalize hn, ok_bind, copyItems_of_normalizeItems hns]

/-- And the entries of a dictionary. -/
theorem copyEntries_of_normalizeEntries : ∀ {es : List (PyKey × PyVal)}
    {out out' : List (List Char × Json)}, normalizeEntries R portable es out = .ok out' →
      copyEntries es = .ok ()
  | [], _, _, _ => rfl
  | (key, val) :: es, out, out', h => by
    simp only [normalizeEntries, bind_eq_ok] at h
    obtain ⟨nkey, hk, -, -, n, hn, hrest⟩ := h
    rw [copyEntries, copyKey_of_normalizeKey hk, ok_bind, copyValue_of_normalize hn, ok_bind,
      copyEntries_of_normalizeEntries hrest]

end

/-- A dataclass instance is normalised as the dictionary of its fields. -/
theorem normalize_dataclass {fields : List (PyKey × PyVal)} {n : Json} :
    normalize R portable (.dataclass fields) = .ok n ↔
      normalize R portable (.dict fields) = .ok n := by
  rw [normalize, normalize, bind_eq_ok]
  refine ⟨?_, ?_⟩
  · rintro ⟨-, -, h⟩
    exact h
  · intro h
    obtain ⟨out, hout, -⟩ := map_eq_ok.1 h
    exact ⟨(), copyEntries_of_normalizeEntries hout, h⟩

/-! ## Normal forms list their keys in order -/

mutual

/-- The members of a normal form are sorted, at every depth. -/
theorem keysSorted_normalize : ∀ (v : PyVal) {n : Json}, normalize R portable v = .ok n →
    KeysSorted n
  | .none, n, h => by
    obtain rfl : Json.null = n := by simpa [normalize] using h
    trivial
  | .bool b, n, h => by
    obtain rfl : Json.bool b = n := by simpa [normalize] using h
    trivial
  | .int i, n, h => by
    simp only [normalize] at h
    split at h
    · cases h
    · obtain rfl : Json.int i = n := by simpa using h
      trivial
  | .float _, n, h => by simp [normalize] at h
  | .str s, n, h => by
    rw [normalize, map_eq_ok] at h
    obtain ⟨t, -, rfl⟩ := h
    trivial
  | .bytes data, n, h => by
    simp only [normalize] at h
    split at h
    · cases h
    · obtain rfl : Json.obj _ = n := Except.ok.inj h
      exact ⟨by simp, by simp [keysSortedMembers_iff, KeysSorted]⟩
  | .list items, n, h => by
    rw [normalize, map_eq_ok] at h
    obtain ⟨ns, hns, rfl⟩ := h
    exact keysSorted_normalizeItems items hns
  | .tuple items, n, h => by
    rw [normalize, map_eq_ok] at h
    obtain ⟨ns, hns, rfl⟩ := h
    exact keysSorted_normalizeItems items hns
  | .dict es, n, h => by
    obtain ⟨ms, hms, hnd, rfl⟩ := normalize_dict_eq_ok.1 h
    exact keysSorted_entries es hms hnd
  | .dataclass es, n, h => by
    rw [normalize_dataclass] at h
    obtain ⟨ms, hms, hnd, rfl⟩ := normalize_dict_eq_ok.1 h
    exact keysSorted_entries es hms hnd
  | .other o, n, h => by
    rw [normalize] at h
    split at h <;> cases h

/-- Inside the items of a list, too. -/
theorem keysSorted_normalizeItems : ∀ (vs : List PyVal) {ns : List Json},
    normalizeItems R portable vs = .ok ns → KeysSorted (.arr ns)
  | [], ns, h => by
    obtain rfl : [] = ns := by simpa [normalizeItems] using h
    trivial
  | v :: vs, ns, h => by
    simp only [normalizeItems, bind_eq_ok, Except.ok.injEq] at h
    obtain ⟨n, hn, ns', hns, rfl⟩ := h
    exact ⟨keysSorted_normalize v hn, keysSorted_normalizeItems vs hns⟩

/-- And inside the values of a dictionary. -/
theorem keysSorted_members : ∀ (es : List (PyKey × PyVal)) {ms : List (List Char × Json)},
    List.Forall₂ (NormalEntry R portable) es ms → ∀ m ∈ ms, KeysSorted m.2
  | [], ms, h, m, hm => by
    cases h
    simp at hm
  | (k, v) :: es, ms, h, m, hm => by
    cases h with
    | cons he hes =>
      rcases List.mem_cons.1 hm with rfl | hm
      · exact keysSorted_normalize v he.2
      · exact keysSorted_members es hes m hm

/-- The members that the entries of a dictionary become are sorted themselves. -/
theorem keysSorted_entries (es : List (PyKey × PyVal)) {ms : List (List Char × Json)}
    (hms : List.Forall₂ (NormalEntry R portable) es ms) (hnd : (ms.map Prod.fst).Nodup) :
    KeysSorted (.obj (sortByKey ms)) :=
  ⟨sortByKey_strict hnd, (keysSortedMembers_iff _).2 fun m hm =>
    keysSorted_members es hms m (mem_sortByKey.1 hm)⟩

end

/-- **Canonical bytes determine the normal form.** The text is uniquely readable, and sorting the
keys once more changes nothing. -/
theorem documentBytes_injOn {n n' : Json} (h : KeysSorted n) (h' : KeysSorted n')
    (hd : documentBytes n = documentBytes n') : n = n' := by
  rw [documentBytes, documentBytes, sortKeys_eq_self n h, sortKeys_eq_self n' h'] at hd
  exact dumps_injective (Utf8.utf8_injective hd)

/-! ## The two profiles -/

mutual

/-- What has a normal form in the portable profile has the same one in the local profile. -/
theorem normalize_of_portable : ∀ {v : PyVal} {n : Json}, normalize R true v = .ok n →
    normalize R false v = .ok n
  | .none, _, h => h
  | .bool _, _, h => h
  | .int i, n, h => by
    rw [normalize] at h
    split at h
    · cases h
    · simpa [normalize] using h
  | .float _, _, h => h
  | .str _, _, h => h
  | .bytes _, _, h => by simp [normalize] at h
  | .list items, n, h => by
    rw [normalize, map_eq_ok] at h ⊢
    obtain ⟨ns, hns, rfl⟩ := h
    exact ⟨ns, normalizeItems_of_portable hns, rfl⟩
  | .tuple items, n, h => by
    rw [normalize, map_eq_ok] at h ⊢
    obtain ⟨ns, hns, rfl⟩ := h
    exact ⟨ns, normalizeItems_of_portable hns, rfl⟩
  | .dict entries, n, h => by
    rw [normalize, map_eq_ok] at h ⊢
    obtain ⟨ms, hms, rfl⟩ := h
    exact ⟨ms, normalizeEntries_of_portable hms, rfl⟩
  | .dataclass entries, n, h => by
    rw [normalize_dataclass, normalize, map_eq_ok] at h ⊢
    obtain ⟨ms, hms, rfl⟩ := h
    exact ⟨ms, normalizeEntries_of_portable hms, rfl⟩
  | .other _, _, h => h

/-- So does the portable profile for the items of a list. -/
theorem normalizeItems_of_portable : ∀ {vs : List PyVal} {ns : List Json},
    normalizeItems R true vs = .ok ns → normalizeItems R false vs = .ok ns
  | [], _, h => h
  | v :: vs, ns, h => by
    simp only [normalizeItems, bind_eq_ok, Except.ok.injEq] at h ⊢
    obtain ⟨n, hn, ns', hns, rfl⟩ := h
    exact ⟨n, normalize_of_portable hn, ns', normalizeItems_of_portable hns, rfl⟩

/-- And for the entries of a dictionary. -/
theorem normalizeEntries_of_portable : ∀ {es : List (PyKey × PyVal)} {out ms},
    normalizeEntries R true es out = .ok ms → normalizeEntries R false es out = .ok ms
  | [], _, _, h => h
  | (k, v) :: es, out, ms, h => by
    simp only [normalizeEntries, bind_eq_ok] at h ⊢
    obtain ⟨nk, hk, u, hu, n, hn, hes⟩ := h
    exact ⟨nk, hk, u, hu, n, normalize_of_portable hn, normalizeEntries_of_portable hes⟩

end

mutual

/-- A normal form in the portable profile can be written. -/
theorem prints_of_portable : ∀ {v : PyVal} {n : Json}, normalize R true v = .ok n →
    prints n = true
  | .none, n, h => by
    obtain rfl : Json.null = n := by simpa [normalize] using h
    rfl
  | .bool b, n, h => by
    obtain rfl : Json.bool b = n := by simpa [normalize] using h
    rfl
  | .int i, n, h => by
    rw [normalize] at h
    split at h
    · cases h
    · rename_i hsafe
      obtain rfl : Json.int i = n := Except.ok.inj h
      exact printsInt_of_safe (by simpa using hsafe)
  | .float _, n, h => by cases h
  | .str s, n, h => by
    rw [normalize, map_eq_ok] at h
    obtain ⟨t, -, rfl⟩ := h
    rfl
  | .bytes data, n, h => by simp [normalize] at h
  | .list items, n, h => by
    rw [normalize, map_eq_ok] at h
    obtain ⟨ns, hns, rfl⟩ := h
    exact printsItems_of_portable hns
  | .tuple items, n, h => by
    rw [normalize, map_eq_ok] at h
    obtain ⟨ns, hns, rfl⟩ := h
    exact printsItems_of_portable hns
  | .dict es, n, h => by
    obtain ⟨ms, hms, -, rfl⟩ := normalize_dict_eq_ok.1 h
    exact printsMembers_iff.2 fun m hm =>
      printsEntries_of_portable hms m (mem_sortByKey.1 hm)
  | .dataclass es, n, h => by
    rw [normalize_dataclass] at h
    obtain ⟨ms, hms, -, rfl⟩ := normalize_dict_eq_ok.1 h
    exact printsMembers_iff.2 fun m hm =>
      printsEntries_of_portable hms m (mem_sortByKey.1 hm)
  | .other o, n, h => by
    rw [normalize] at h
    split at h <;> cases h

/-- So do the items of a list that is portable. -/
theorem printsItems_of_portable : ∀ {vs : List PyVal} {ns : List Json},
    normalizeItems R true vs = .ok ns → printsItems ns = true
  | [], ns, h => by
    obtain rfl : [] = ns := by simpa [normalizeItems] using h
    rfl
  | v :: vs, ns, h => by
    simp only [normalizeItems, bind_eq_ok, Except.ok.injEq] at h
    obtain ⟨n, hn, ns', hns, rfl⟩ := h
    rw [printsItems, prints_of_portable hn, printsItems_of_portable hns]
    rfl

/-- And the values of a dictionary. -/
theorem printsEntries_of_portable : ∀ {es : List (PyKey × PyVal)} {ms : List (List Char × Json)},
    List.Forall₂ (NormalEntry R true) es ms → ∀ m ∈ ms, prints m.2 = true
  | [], _, h, m, hm => by
    cases h
    cases hm
  | (k, v) :: es, _, h, m, hm => by
    cases h with
    | cons he hes =>
      rcases List.mem_cons.1 hm with rfl | hm
      · exact prints_of_portable he.2
      · exact printsEntries_of_portable hes m hm

end

/-- In the portable profile every value with a normal form has canonical bytes. -/
theorem portableCanonicalBytes_eq_ok {v : PyVal} {b : List UInt8} :
    portableCanonicalBytes R v = .ok b ↔
      ∃ n, normalize R true v = .ok n ∧ documentBytes n = b := by
  simp only [portableCanonicalBytes, bind_eq_ok, dump_eq_ok]
  refine ⟨?_, ?_⟩
  · intro h
    obtain ⟨n, hn, -, hb⟩ := h
    exact ⟨n, hn, hb⟩
  · intro h
    obtain ⟨n, hn, hb⟩ := h
    exact ⟨n, hn, prints_of_portable hn, hb⟩

/-- **Portable bytes are the local ones.** -/
theorem canonicalBytes_of_portable {v : PyVal} {b : List UInt8}
    (h : portableCanonicalBytes R v = .ok b) : canonicalBytes R v = .ok b := by
  obtain ⟨n, hn, hb⟩ := portableCanonicalBytes_eq_ok.1 h
  exact canonicalBytes_eq_ok.2 ⟨n, normalize_of_portable hn, prints_of_portable hn, hb⟩

end Finality
