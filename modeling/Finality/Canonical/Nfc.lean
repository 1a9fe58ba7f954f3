import Finality.Canonical.Same

/-!
# The NFC form of a value

`nfVal` replaces every string in a value by its NFC form, and leaves the rest as it is. A value that
has a normal form keeps it (`eqv_nfVal`), so no digest and no signature tells the two apart. The
keys of such a dictionary stay different, and a key finds the NFC form of what it found before under
any of its spellings (`lookup_nfEntries`).
-/

namespace Finality

open JsonText KeyOrder Checks

section
variable (R : Runtime)

/-- The NFC form of a string. Of a string that no encoding accepts nothing is read, so it stays. -/
def nfStr (s : PyStr) : PyStr :=
  if hasSurrogate s then s else ofText (R.nfc (toText s))

/-- The string is in NFC. -/
def IsNfc (s : PyStr) : Prop := nfStr R s = s

/-- The NFC form of a key. -/
def nfKey : PyKey → PyKey
  | .str s => .str (nfStr R s)
  | .other o => .other o

mutual

/-- The value with every string in it replaced by its NFC form. -/
def nfVal : PyVal → PyVal
  | .str s => .str (nfStr R s)
  | .list items => .list (nfItems items)
  | .tuple items => .tuple (nfItems items)
  | .dict entries => .dict (nfEntries entries)
  | .dataclass fields => .dataclass (nfEntries fields)
  | .none => .none
  | .bool b => .bool b
  | .int i => .int i
  | .float value => .float value
  | .bytes data => .bytes data
  | .other o => .other o

/-- `nfVal`, item by item. -/
def nfItems : List PyVal → List PyVal
  | [] => []
  | v :: vs => nfVal v :: nfItems vs

/-- `nfVal`, entry by entry, keys included. -/
def nfEntries : List (PyKey × PyVal) → List (PyKey × PyVal)
  | [] => []
  | (key, val) :: es => (nfKey R key, nfVal val) :: nfEntries es

end

/-- The NFC form of a table: the first entry stays where two keys have one NFC form. -/
def PyDict.nf (d : PyDict PyVal) : PyDict PyVal :=
  (d.entries.map fun e => ⟨nfStr R e.1, nfVal R e.2⟩).toAList

end

variable {R : Runtime} {portable : Bool}

/-! ## Strings -/

/-- The NFC form of a string without surrogates. -/
theorem nfStr_eq {s : PyStr} (h : hasSurrogate s = false) :
    nfStr R s = ofText (R.nfc (toText s)) := by
  simp [nfStr, h]

/-- It has no surrogates, either. -/
theorem hasSurrogate_nfStr {s : PyStr} (h : hasSurrogate s = false) :
    hasSurrogate (nfStr R s) = false := by
  rw [nfStr_eq h, hasSurrogate_ofText]

/-- A string has the NFC form of its NFC form. -/
theorem nfcEq_nfStr {s : PyStr} (h : hasSurrogate s = false) : NfcEq R s (nfStr R s) :=
  ⟨h, hasSurrogate_nfStr h, by rw [nfStr_eq h, toText_ofText, R.nfc_idem]⟩

/-- A list of NFC strings that a string is in has its NFC form in it, too. -/
theorem nfStr_mem {s : PyStr} {ss : List PyStr} (h : ∀ t ∈ ss, IsNfc R t) (hs : s ∈ ss) :
    nfStr R s ∈ ss := by
  rw [h s hs]
  exact hs

/-! ## Values -/

/-- A string and its NFC form are normalised alike: NFC is idempotent. -/
theorem nfcText_nfStr {message : String} {s : PyStr} {t : List Char}
    (h : nfcText R message s = .ok t) : nfcText R message (nfStr R s) = .ok t := by
  rw [nfcText_eq_ok] at h ⊢
  obtain ⟨hs, rfl⟩ := h
  have heq := nfcEq_nfStr (R := R) hs
  exact ⟨heq.2.1, heq.2.2.symm⟩

/-- So are a key and its NFC form. -/
theorem normalizeKey_nfKey {k : PyKey} {t : List Char} (h : normalizeKey R k = .ok t) :
    normalizeKey R (nfKey R k) = .ok t := by
  cases k with
  | str s => exact nfcText_nfStr h
  | other o => exact h

mutual

/-- A value's normal form is that of its NFC form. -/
theorem normalize_nfVal : ∀ {v : PyVal} {n : Json}, normalize R portable v = .ok n →
    normalize R portable (nfVal R v) = .ok n
  | .none, _, h | .bool _, _, h | .int _, _, h | .float _, _, h | .bytes _, _, h
  | .other _, _, h => h
  | .str s, n, h => by
    rw [normalize, map_eq_ok] at h
    rw [nfVal, normalize, map_eq_ok]
    obtain ⟨t, ht, rfl⟩ := h
    exact ⟨t, nfcText_nfStr ht, rfl⟩
  | .list items, n, h => by
    rw [normalize, map_eq_ok] at h
    rw [nfVal, normalize, map_eq_ok]
    obtain ⟨ns, hns, rfl⟩ := h
    exact ⟨ns, normalizeItems_nfItems hns, rfl⟩
  | .tuple items, n, h => by
    rw [normalize, map_eq_ok] at h
    rw [nfVal, normalize, map_eq_ok]
    obtain ⟨ns, hns, rfl⟩ := h
    exact ⟨ns, normalizeItems_nfItems hns, rfl⟩
  | .dict entries, n, h => by
    rw [normalize, map_eq_ok] at h
    rw [nfVal, normalize, map_eq_ok]
    obtain ⟨ms, hms, rfl⟩ := h
    exact ⟨ms, normalizeEntries_nfEntries hms, rfl⟩
  | .dataclass fields, n, h => by
    rw [normalize_dataclass, normalize, map_eq_ok] at h
    rw [nfVal, normalize_dataclass, normalize, map_eq_ok]
    obtain ⟨ms, hms, rfl⟩ := h
    exact ⟨ms, normalizeEntries_nfEntries hms, rfl⟩

/-- The items of a list and their NFC forms, one by one. -/
theorem normalizeItems_nfItems : ∀ {vs : List PyVal} {ns : List Json},
    normalizeItems R portable vs = .ok ns → normalizeItems R portable (nfItems R vs) = .ok ns
  | [], _, h => h
  | v :: vs, ns, h => by
    rw [nfItems]
    simp only [normalizeItems, bind_eq_ok] at h ⊢
    obtain ⟨n, hn, ns', hns, h⟩ := h
    exact ⟨n, normalize_nfVal hn, ns', normalizeItems_nfItems hns, h⟩

/-- The entries of a dictionary: as many keys collide as before. -/
theorem normalizeEntries_nfEntries : ∀ {es : List (PyKey × PyVal)} {out ms},
    normalizeEntries R portable es out = .ok ms →
    normalizeEntries R portable (nfEntries R es) out = .ok ms
  | [], _, _, h => h
  | (k, v) :: es, out, ms, h => by
    rw [nfEntries]
    simp only [normalizeEntries, bind_eq_ok] at h ⊢
    obtain ⟨nk, hk, u, hu, n, hn, hes⟩ := h
    exact ⟨nk, normalizeKey_nfKey hk, u, hu, n, normalize_nfVal hn, normalizeEntries_nfEntries hes⟩

end

/-- **No encoding tells a value from its NFC form.** -/
theorem eqv_nfVal {v : PyVal} (h : Canon R v) : Eqv R v (nfVal R v) := by
  obtain ⟨n, hn, hp⟩ := h
  exact ⟨n, ⟨hn, hp⟩, normalize_nfVal hn, hp⟩

/-! ## Dictionaries -/

/-- The NFC form of entries is taken entry by entry. -/
theorem nfEntries_eq_map : ∀ es : List (PyKey × PyVal),
    nfEntries R es = es.map fun e => (nfKey R e.1, nfVal R e.2)
  | [] => rfl
  | (k, v) :: es => by rw [nfEntries, nfEntries_eq_map es, List.map_cons]

/-- The keys of a dictionary with a normal form are different. -/
theorem nodup_keys_of_canon {es : List (PyKey × PyVal)} (h : Canon R (.dict es)) :
    (es.map Prod.fst).Nodup := by
  obtain ⟨n, hn, -⟩ := h
  obtain ⟨ms, hms, hnd, -⟩ := normalize_dict_eq_ok.1 hn
  rw [List.Nodup, List.pairwise_map]
  refine (pairwise_not_sameKey hms hnd).imp_of_mem fun {e f} he _ hne heq => hne ?_
  obtain ⟨m, -, hem⟩ := exists_mem_of_forall₂ hms he
  exact sameKey_of_normalizeKey hem.1 (heq ▸ hem.1)

/-- **Under any of its spellings** a key finds, in the NFC form of a dictionary, the NFC form of its
value. -/
theorem lookup_nfEntries {es : List (PyKey × PyVal)} (h : Canon R (.dict es)) {k : PyStr}
    {v : PyVal} (hmem : (.str k, v) ∈ es) :
    (nfEntries R es).lookup (.str (nfStr R k)) = some (nfVal R v) := by
  have hnd := nodup_keys_of_canon (eqv_nfVal h).symm.canon
  refine lookup_of_mem hnd (m := (.str (nfStr R k), nfVal R v)) ?_
  rw [nfEntries_eq_map]
  exact List.mem_map_of_mem (f := fun e => (nfKey R e.1, nfVal R e.2)) hmem

/-- What a name finds in the NFC form of a dictionary was there under one of its spellings. -/
theorem mem_of_lookup_nfEntries {es : List (PyKey × PyVal)} {name : PyStr} {w : PyVal}
    (h : (nfEntries R es).lookup (.str name) = some w) :
    ∃ k v, (.str k, v) ∈ es ∧ nfStr R k = name ∧ nfVal R v = w := by
  obtain ⟨l, r, heq, -⟩ := List.lookup_eq_some_iff.1 h
  have hmem : (.str name, w) ∈ nfEntries R es := by
    rw [heq]
    exact List.mem_append_right l List.mem_cons_self
  rw [nfEntries_eq_map] at hmem
  obtain ⟨⟨k, v⟩, hkv, heq⟩ := List.mem_map.1 hmem
  cases k with
  | other o => cases heq
  | str k =>
    cases heq
    exact ⟨k, v, hkv, rfl, rfl⟩

/-! ## Tables -/

/-- Nothing is dropped from entries whose keys differ. -/
theorem dedupKeys_of_nodupKeys : ∀ {es : List (Sigma fun _ : PyStr => PyVal)}, es.NodupKeys →
    es.dedupKeys = es
  | [], _ => rfl
  | e :: es, h => by
    rw [List.nodupKeys_cons] at h
    rw [List.dedupKeys_cons, dedupKeys_of_nodupKeys h.2, List.kinsert_def,
      List.kerase_of_notMem_keys h.1]

/-- The NFC form of a table with a normal form has the NFC forms of its entries. -/
theorem toVal_nf {d : PyDict PyVal} (h : Canon R d.toVal) : (d.nf R).toVal = nfVal R d.toVal := by
  have hnd := nodup_keys_of_canon (eqv_nfVal h).symm.canon
  have hkeys : (d.entries.map fun e =>
      (⟨nfStr R e.1, nfVal R e.2⟩ : Sigma fun _ : PyStr => PyVal)).NodupKeys := by
    rw [nfEntries_eq_map, List.map_map, List.map_map] at hnd
    rw [List.NodupKeys, List.keys, List.map_map]
    exact List.Nodup.of_map PyKey.str (by rwa [List.map_map])
  rw [PyDict.toVal, PyDict.nf, AList.entries_toAList, dedupKeys_of_nodupKeys hkeys, PyDict.toVal,
    nfVal, nfEntries_eq_map, List.map_map, List.map_map]
  rfl

/-- No encoding tells a table from its NFC form. -/
theorem eqv_nf {d : PyDict PyVal} (h : Canon R d.toVal) : Eqv R d.toVal (d.nf R).toVal := by
  rw [toVal_nf h]
  exact eqv_nfVal h

end Finality
