import Finality.Canonical.Same

/-!
# Canonical equality, place by place

`Coincide` reads two values side by side: a boolean against a boolean, an integer against an
integer, a list or a tuple item by item, a dictionary or an instance of a dataclass entry by entry.
It mentions no normal form, and it is canonical equality of all values (`coincide_iff_eqv`): where
types differ at one place the canonical bytes differ, and where nothing differs they agree.
-/

namespace Finality

open JsonText KeyOrder Checks

/-- The items of a list or a tuple. -/
def PyVal.items? : PyVal → Option (List PyVal)
  | .list vs | .tuple vs => some vs
  | _ => .none

/-- The entries of a dictionary, of an instance of a dataclass, or of the dictionary that a byte
string is written as. -/
def PyVal.entries? : PyVal → Option (List (PyKey × PyVal))
  | .dict es | .dataclass es => some es
  | .bytes data => some (taggedEntries data)
  | _ => .none

section
variable (R : Runtime)

/-- No two keys have one NFC form. -/
def DistinctKeys (es : List (PyKey × PyVal)) : Prop :=
  es.Pairwise fun e f => ¬ SameKey R e.1 f.1

mutual

/-- The values agree at every place, in type and content: strings up to NFC, tuples and lists item
by item, dictionaries and instances of dataclasses in any order of their entries. Nothing coincides
with a float, an object of another class, or an integer with too many digits. -/
def Coincide : PyVal → PyVal → Prop
  | .none, w => w = .none
  | .bool b, w => w = .bool b
  | .int i, w => w = .int i ∧ printsInt i = true
  | .str s, w => ∃ t, w = .str t ∧ NfcEq R s t
  | .bytes data, w => w.entries? = some (taggedEntries data)
  | .list vs, w | .tuple vs, w => ∃ ws, w.items? = some ws ∧ CoincideItems vs ws
  | .dict es, w | .dataclass es, w => DistinctKeys R es ∧ ∃ fs arranged,
      w.entries? = some fs ∧ fs.Perm arranged ∧ CoincideEntries es arranged
  | .float _, _ | .other _, _ => False

/-- `Coincide`, item by item. -/
def CoincideItems : List PyVal → List PyVal → Prop
  | [], ws => ws = []
  | v :: vs, ws => ∃ w ws', ws = w :: ws' ∧ Coincide v w ∧ CoincideItems vs ws'

/-- `Coincide`, entry by entry. -/
def CoincideEntries : List (PyKey × PyVal) → List (PyKey × PyVal) → Prop
  | [], fs => fs = []
  | (k, v) :: es, fs => ∃ k' w fs', fs = (k', w) :: fs' ∧ SameKey R k k' ∧ Coincide v w ∧
      CoincideEntries es fs'

end

end

variable {R : Runtime} {w : PyVal} {n : Json}

/-! ## Values by their normal forms -/

/-- A list or a tuple is written as the list of its items. -/
theorem normal_of_items {ws : List PyVal} (h : w.items? = some ws) :
    Normal R w n ↔ Normal R (.list ws) n := by
  cases w <;> simp only [PyVal.items?, Option.some.injEq, reduceCtorEq] at h
  case list =>
    rw [h]
  case tuple =>
    rw [normal_tuple, h]

/-- A value with entries is written as the dictionary of its entries. -/
theorem normal_of_entries {fs : List (PyKey × PyVal)} (h : w.entries? = some fs) :
    Normal R w n ↔ Normal R (.dict fs) n := by
  cases w <;> simp only [PyVal.entries?, Option.some.injEq, reduceCtorEq] at h
  case dict =>
    rw [h]
  case dataclass =>
    rw [normal_dataclass, h]
  case bytes data =>
    obtain ⟨m, hm, hm'⟩ := eqv_bytes_tagged (R := R) data
    rw [← h]
    refine ⟨?_, ?_⟩
    · intro hn
      rwa [Except.ok.inj (hn.1.symm.trans hm.1)]
    · intro hn
      rwa [Except.ok.inj (hn.1.symm.trans hm'.1)]

/-- An object of another class is not written. -/
theorem not_normal_other {o : PyObject} : ¬ Normal R (.other o) n := by
  intro h
  have hother := h.1
  rw [normalize] at hother
  split at hother <;> cases hother

/-- What a value with a given normal form is. -/
theorem shape_of_normal (h : Normal R w n) :
    match n with
    | .null => w = .none
    | .bool b => w = .bool b
    | .int i => w = .int i ∧ printsInt i = true
    | .str t => ∃ s, w = .str s ∧ hasSurrogate s = false ∧ R.nfc (toText s) = t
    | .arr _ => ∃ ws, w.items? = some ws
    | .obj _ => ∃ fs, w.entries? = some fs := by
  cases w with
  | none =>
    obtain rfl := normal_none.1 h
    rfl
  | bool b =>
    obtain rfl := normal_bool.1 h
    rfl
  | int i =>
    obtain ⟨hp, rfl⟩ := normal_int.1 h
    exact ⟨rfl, hp⟩
  | float => cases h.1
  | str s =>
    obtain ⟨hs, rfl⟩ := normal_str.1 h
    exact ⟨s, rfl, hs, rfl⟩
  | bytes data =>
    obtain ⟨ms, -, -, rfl⟩ := normal_dict.1 ((normal_of_entries rfl).1 h)
    exact ⟨_, rfl⟩
  | list vs =>
    obtain ⟨ns, -, rfl⟩ := normal_list.1 h
    exact ⟨vs, rfl⟩
  | tuple vs =>
    obtain ⟨ns, -, rfl⟩ := normal_list.1 (normal_tuple.1 h)
    exact ⟨vs, rfl⟩
  | dict es =>
    obtain ⟨ms, -, -, rfl⟩ := normal_dict.1 h
    exact ⟨es, rfl⟩
  | dataclass fs =>
    obtain ⟨ms, -, -, rfl⟩ := normal_dict.1 (normal_dataclass.1 h)
    exact ⟨fs, rfl⟩
  | other o => exact absurd h not_normal_other

/-! ## Entries -/

theorem exists_key_of_sameKey {k k' : PyKey} (h : SameKey R k k') :
    ∃ t, normalizeKey R k = .ok t ∧ normalizeKey R k' = .ok t := by
  obtain ⟨s, t, rfl, rfl, hs, ht, hst⟩ := h
  refine ⟨R.nfc (toText s), ?_, ?_⟩
  · rw [normalizeKey, nfcText_eq_ok]
    exact ⟨hs, rfl⟩
  · rw [normalizeKey, nfcText_eq_ok]
    exact ⟨ht, hst.symm⟩

/-- The keys of written entries are distinct when no two of the entries' keys have one NFC form. -/
theorem nodup_keys_iff {es : List (PyKey × PyVal)} {ms : List (List Char × Json)}
    (h : List.Forall₂ (WrittenEntry R) es ms) :
    (ms.map Prod.fst).Nodup ↔ DistinctKeys R es := by
  refine ⟨pairwise_not_sameKey (forall₂_writtenEntry.1 h).1, fun hd => ?_⟩
  induction h with
  | nil => exact .nil
  | cons he hes ih =>
    obtain ⟨hne, hd⟩ := List.pairwise_cons.1 hd
    rw [List.map_cons, List.nodup_cons]
    refine ⟨fun hmem => ?_, ih hd⟩
    obtain ⟨m, hm, hkey⟩ := List.mem_map.1 hmem
    obtain ⟨f, hf, hfm⟩ := exists_mem_of_forall₂ hes.flip hm
    exact hne f hf (sameKey_of_normalizeKey he.1 (hkey ▸ hfm.1))

/-- A dictionary is written like another one when the other's entries can be arranged so that entry
by entry they are written alike. -/
theorem eqv_dict_of_arranged {es fs gs : List (PyKey × PyVal)} {ms : List (List Char × Json)}
    (hd : DistinctKeys R es) (hp : fs.Perm gs) (hes : List.Forall₂ (WrittenEntry R) es ms)
    (hgs : List.Forall₂ (WrittenEntry R) gs ms) : Eqv R (.dict es) (.dict fs) := by
  have hnd := (nodup_keys_iff hes).2 hd
  obtain ⟨ms', hfs, hp'⟩ := List.perm_comp_forall₂ hp hgs
  refine ⟨.obj (sortByKey ms), normal_dict.2 ⟨ms, hes, hnd, rfl⟩, normal_dict.2 ⟨ms', hfs, ?_, ?_⟩⟩
  · exact (hp'.map Prod.fst).nodup_iff.2 hnd
  · rw [sortByKey_eq_of_perm hp'.symm hnd]

/-! ## Coincide values are canonically equal -/

mutual

/-- Coincide values are canonically equal. -/
theorem Coincide.eqv : ∀ {v w : PyVal}, Coincide R v w → Eqv R v w
  | .none, w, h => by
    rw [h]
    exact canon_none.eqv
  | .bool b, w, h => by
    rw [h]
    exact (canon_bool b).eqv
  | .int i, w, ⟨h, hp⟩ => by
    rw [h, eqv_int]
    exact ⟨rfl, hp⟩
  | .str s, w, ⟨t, h, hst⟩ => by
    rw [h, eqv_str]
    exact hst
  | .bytes data, w, h => by
    obtain ⟨n, hn, hn'⟩ := eqv_bytes_tagged (R := R) data
    exact ⟨n, hn, (normal_of_entries h).2 hn'⟩
  | .list vs, w, ⟨ws, hw, h⟩ => by
    obtain ⟨n, hn, hn'⟩ := eqv_list.2 (CoincideItems.forall₂_eqv h)
    exact ⟨n, hn, (normal_of_items hw).2 hn'⟩
  | .tuple vs, w, ⟨ws, hw, h⟩ => by
    obtain ⟨n, hn, hn'⟩ := eqv_list.2 (CoincideItems.forall₂_eqv h)
    exact ⟨n, normal_tuple.2 hn, (normal_of_items hw).2 hn'⟩
  | .dict es, w, ⟨hd, fs, gs, hw, hp, h⟩ => by
    obtain ⟨ms, hes, hgs⟩ := CoincideEntries.exists_written h
    obtain ⟨n, hn, hn'⟩ := eqv_dict_of_arranged hd hp hes hgs
    exact ⟨n, hn, (normal_of_entries hw).2 hn'⟩
  | .dataclass es, w, ⟨hd, fs, gs, hw, hp, h⟩ => by
    obtain ⟨ms, hes, hgs⟩ := CoincideEntries.exists_written h
    obtain ⟨n, hn, hn'⟩ := eqv_dict_of_arranged hd hp hes hgs
    exact ⟨n, normal_dataclass.2 hn, (normal_of_entries hw).2 hn'⟩

/-- `Coincide.eqv`, item by item. -/
theorem CoincideItems.forall₂_eqv : ∀ {vs ws : List PyVal}, CoincideItems R vs ws →
    List.Forall₂ (Eqv R) vs ws
  | [], ws, h => by
    rw [h]
    exact .nil
  | v :: vs, _, ⟨w, ws, h, hv, hvs⟩ => by
    rw [h]
    exact .cons hv.eqv hvs.forall₂_eqv

/-- `Coincide.eqv`, entry by entry: coinciding entries are written as the same members. -/
theorem CoincideEntries.exists_written : ∀ {es fs : List (PyKey × PyVal)}, CoincideEntries R es fs →
    ∃ ms, List.Forall₂ (WrittenEntry R) es ms ∧ List.Forall₂ (WrittenEntry R) fs ms
  | [], fs, h => by
    rw [h]
    exact ⟨[], .nil, .nil⟩
  | (_, _) :: _, _, ⟨_, _, _, h, hk, hv, hes⟩ => by
    obtain ⟨t, ht, ht'⟩ := exists_key_of_sameKey hk
    obtain ⟨n, hn, hn'⟩ := hv.eqv
    obtain ⟨ms, hms, hms'⟩ := hes.exists_written
    rw [h]
    exact ⟨(t, n) :: ms, .cons ⟨ht, hn⟩ hms, .cons ⟨ht', hn'⟩ hms'⟩

end

/-! ## Canonically equal values coincide -/

/-- A string is written as an inert string only when it is that string. -/
theorem eq_of_written_inert {v : PyVal} {t : List Char} (h : Normal R v (.str t))
    (ht : Inert (ofText t)) : v = .str (ofText t) := by
  obtain ⟨s, rfl, hs, hnfc⟩ := shape_of_normal h
  rw [eq_of_nfc_inert hs hnfc ht]

/-- A dictionary that is written as a byte string is tagged with it. -/
theorem eq_taggedEntries {fs : List (PyKey × PyVal)} {data : List UInt8}
    (h : Eqv R (.dict (taggedEntries data)) (.dict fs)) : fs = taggedEntries data := by
  obtain ⟨n, hn, hn'⟩ := h
  obtain ⟨m, hm, hm'⟩ := eqv_bytes_tagged (R := R) data
  obtain rfl := Except.ok.inj (hn.1.symm.trans hm'.1)
  have hbytes : n = .obj [(bytesHexKey, .str (Hex.encode data))] := by
    have hok := hm.1
    rw [normalize, if_neg (by simp)] at hok
    exact (Except.ok.inj hok).symm
  obtain ⟨ms, hms, -, hobj⟩ := normal_dict.1 hn'
  rw [hbytes] at hobj
  obtain rfl : ms = [(bytesHexKey, .str (Hex.encode data))] :=
    List.perm_singleton.1 ((sortByKey_perm ms).symm.trans (Json.obj.inj hobj ▸ .refl _))
  cases hms with
  | @cons e _ _ _ he hrest =>
    cases hrest
    obtain ⟨k, v⟩ := e
    cases k with
    | other _ => cases he.1
    | str k =>
      have hk := he.1
      rw [normalizeKey, nfcText_eq_ok] at hk
      have hv : v = .str (ofText (Hex.encode data)) := eq_of_written_inert he.2 (inert_encode data)
      rw [taggedEntries, eq_of_nfc_inert hk.1 hk.2 inert_bytesHexKey, hv]

/-- The entries of a dictionary with the normal form of given entries, arranged like those. -/
theorem exists_arranged_written {fs : List (PyKey × PyVal)} {ms : List (List Char × Json)}
    (h : Normal R (.dict fs) (.obj (sortByKey ms))) :
    ∃ gs, fs.Perm gs ∧ List.Forall₂ (WrittenEntry R) gs ms := by
  obtain ⟨ms', hfs, -, hobj⟩ := normal_dict.1 h
  obtain ⟨gs, hgs, hp⟩ :=
    List.perm_comp_forall₂ (perm_of_sortByKey_eq (Json.obj.inj hobj)) hfs.flip
  exact ⟨gs, hp.symm, hgs.flip⟩

mutual

/-- Canonically equal values coincide. -/
theorem coincide_of_normal : ∀ {v w : PyVal} {n : Json}, Normal R v n → Normal R w n →
    Coincide R v w
  | .none, w, n, hv, hw => by
    obtain rfl := normal_none.1 hv
    exact shape_of_normal hw
  | .bool b, w, n, hv, hw => by
    obtain rfl := normal_bool.1 hv
    exact shape_of_normal hw
  | .int i, w, n, hv, hw => by
    obtain ⟨-, rfl⟩ := normal_int.1 hv
    exact shape_of_normal hw
  | .float q, w, n, hv, hw => by cases hv.1
  | .str s, w, n, hv, hw => by
    obtain ⟨hs, rfl⟩ := normal_str.1 hv
    obtain ⟨t, rfl, ht, hnfc⟩ := shape_of_normal hw
    exact ⟨t, rfl, hs, ht, hnfc.symm⟩
  | .bytes data, w, n, hv, hw => by
    have htagged := (normal_of_entries rfl).1 hv
    obtain ⟨ms, -, -, rfl⟩ := normal_dict.1 htagged
    obtain ⟨fs, hfs⟩ := shape_of_normal hw
    rw [Coincide, hfs, eq_taggedEntries ⟨_, htagged, (normal_of_entries hfs).1 hw⟩]
  | .list vs, w, n, hv, hw => by
    obtain ⟨ns, hns, rfl⟩ := normal_list.1 hv
    obtain ⟨ws, hws⟩ := shape_of_normal hw
    obtain ⟨ns', hns', hn⟩ := normal_list.1 ((normal_of_items hws).1 hw)
    obtain rfl := Json.arr.inj hn
    exact ⟨ws, hws, coincideItems_of_normal hns hns'⟩
  | .tuple vs, w, n, hv, hw => by
    obtain ⟨ns, hns, rfl⟩ := normal_list.1 (normal_tuple.1 hv)
    obtain ⟨ws, hws⟩ := shape_of_normal hw
    obtain ⟨ns', hns', hn⟩ := normal_list.1 ((normal_of_items hws).1 hw)
    obtain rfl := Json.arr.inj hn
    exact ⟨ws, hws, coincideItems_of_normal hns hns'⟩
  | .dict es, w, n, hv, hw => by
    obtain ⟨ms, hms, hnd, rfl⟩ := normal_dict.1 hv
    obtain ⟨fs, hfs⟩ := shape_of_normal hw
    obtain ⟨gs, hp, hgs⟩ := exists_arranged_written ((normal_of_entries hfs).1 hw)
    exact ⟨(nodup_keys_iff hms).1 hnd, fs, gs, hfs, hp, coincideEntries_of_written hms hgs⟩
  | .dataclass es, w, n, hv, hw => by
    obtain ⟨ms, hms, hnd, rfl⟩ := normal_dict.1 (normal_dataclass.1 hv)
    obtain ⟨fs, hfs⟩ := shape_of_normal hw
    obtain ⟨gs, hp, hgs⟩ := exists_arranged_written ((normal_of_entries hfs).1 hw)
    exact ⟨(nodup_keys_iff hms).1 hnd, fs, gs, hfs, hp, coincideEntries_of_written hms hgs⟩
  | .other o, w, n, hv, hw => absurd hv not_normal_other

/-- `coincide_of_normal`, item by item. -/
theorem coincideItems_of_normal : ∀ {vs ws : List PyVal} {ns : List Json},
    List.Forall₂ (Normal R) vs ns → List.Forall₂ (Normal R) ws ns → CoincideItems R vs ws
  | [], _, _, .nil, .nil => rfl
  | _ :: _, _, _, .cons hv hvs, .cons hw hws =>
    ⟨_, _, rfl, coincide_of_normal hv hw, coincideItems_of_normal hvs hws⟩

/-- `coincide_of_normal`, entry by entry. -/
theorem coincideEntries_of_written : ∀ {es fs : List (PyKey × PyVal)}
    {ms : List (List Char × Json)}, List.Forall₂ (WrittenEntry R) es ms →
    List.Forall₂ (WrittenEntry R) fs ms → CoincideEntries R es fs
  | [], _, _, .nil, .nil => rfl
  | (_, _) :: _, _, _, .cons he hes, .cons (a := (_, _)) hf hfs =>
    ⟨_, _, _, rfl, sameKey_of_normalizeKey he.1 hf.1, coincide_of_normal he.2 hf.2,
      coincideEntries_of_written hes hfs⟩

end

/-- **Canonical equality, place by place**: values have the same canonical bytes exactly when they
agree in type and content at every place. -/
theorem coincide_iff_eqv {v w : PyVal} : Coincide R v w ↔ Eqv R v w :=
  ⟨Coincide.eqv, fun ⟨_, hv, hw⟩ => coincide_of_normal hv hw⟩

end Finality
