import Mathlib.Data.List.Perm.Basic
import Finality.Canonical.Equivalence

/-!
# Canonical equality and equality of values

`Same` is equality of nested values up to NFC, the order of dictionary entries, and lists for
tuples. Canonical equality identifies one pair more: a byte string is written as the dictionary
`{"$bytes_hex": ...}`, which is also a value of its own. On values that contain neither
(`Untagged`) the two agree (`same_of_eqv`); a value that contains one of them is canonically equal
to another value (`exists_not_same`).
-/

namespace Finality

open JsonText KeyOrder Checks

mutual

/-- The value is built from `None`, booleans, integers, strings, bytes, lists, tuples and
dictionaries. -/
def Plain : PyVal → Prop
  | .none | .bool _ | .int _ | .str _ | .bytes _ => True
  | .list vs | .tuple vs => PlainItems vs
  | .dict es => PlainEntries es
  | .float _ | .dataclass _ | .other _ => False

/-- `Plain`, item by item. -/
def PlainItems : List PyVal → Prop
  | [] => True
  | v :: vs => Plain v ∧ PlainItems vs

/-- `Plain`, value by value. -/
def PlainEntries : List (PyKey × PyVal) → Prop
  | [] => True
  | (_, v) :: es => Plain v ∧ PlainEntries es

end

/-- The dictionary is `{"$bytes_hex": t}` for a text `t` of two lower-case hexadecimal digits a
byte. -/
def isTagged : List (PyKey × PyVal) → Bool
  | [(.str k, .str s)] =>
      k = ofText bytesHexKey && !hasSurrogate s && (Hex.decode? (toText s)).isSome
  | _ => false

mutual

/-- The value contains neither a byte string nor the dictionary one is written as. -/
def Untagged : PyVal → Prop
  | .bytes _ => False
  | .list vs | .tuple vs => UntaggedItems vs
  | .dict es | .dataclass es => isTagged es = false ∧ UntaggedEntries es
  | .none | .bool _ | .int _ | .float _ | .str _ | .other _ => True

/-- `Untagged`, item by item. -/
def UntaggedItems : List PyVal → Prop
  | [] => True
  | v :: vs => Untagged v ∧ UntaggedItems vs

/-- `Untagged`, value by value. -/
def UntaggedEntries : List (PyKey × PyVal) → Prop
  | [] => True
  | (_, v) :: es => Untagged v ∧ UntaggedEntries es

end

section
variable (R : Runtime)

/-- The keys are strings with one NFC form. -/
def SameKey (k k' : PyKey) : Prop := ∃ s t, k = .str s ∧ k' = .str t ∧ NfcEq R s t

mutual

/-- The values are the same, with strings compared up to NFC, tuples taken for lists, and the
entries of a dictionary in any order. -/
def Same : PyVal → PyVal → Prop
  | .none, w => w = .none
  | .bool b, w => w = .bool b
  | .int i, w => w = .int i
  | .str s, w => ∃ t, w = .str t ∧ NfcEq R s t
  | .bytes data, w => w = .bytes data
  | .list vs, w => ∃ ws, (w = .list ws ∨ w = .tuple ws) ∧ SameItems vs ws
  | .tuple vs, w => ∃ ws, (w = .list ws ∨ w = .tuple ws) ∧ SameItems vs ws
  | .dict es, w => ∃ fs arranged, w = .dict fs ∧ fs.Perm arranged ∧ SameEntries es arranged
  | .float _, _ | .dataclass _, _ | .other _, _ => False

/-- `Same`, item by item. -/
def SameItems : List PyVal → List PyVal → Prop
  | [], ws => ws = []
  | v :: vs, ws => ∃ w ws', ws = w :: ws' ∧ Same v w ∧ SameItems vs ws'

/-- `Same`, entry by entry. -/
def SameEntries : List (PyKey × PyVal) → List (PyKey × PyVal) → Prop
  | [], fs => fs = []
  | (k, v) :: es, fs => ∃ k' w fs', fs = (k', w) :: fs' ∧ SameKey R k k' ∧ Same v w ∧
      SameEntries es fs'

end

end

variable {R : Runtime}

/-! ## Normal forms of plain values -/

theorem plainItems_iff : ∀ {vs : List PyVal}, PlainItems vs ↔ ∀ v ∈ vs, Plain v
  | [] => by simp [PlainItems]
  | v :: vs => by rw [PlainItems, plainItems_iff, List.forall_mem_cons]

theorem plainEntries_iff : ∀ {es : List (PyKey × PyVal)}, PlainEntries es ↔ ∀ e ∈ es, Plain e.2
  | [] => by simp [PlainEntries]
  | (k, v) :: es => by rw [PlainEntries, plainEntries_iff, List.forall_mem_cons]

theorem untaggedEntries_iff : ∀ {es : List (PyKey × PyVal)},
    UntaggedEntries es ↔ ∀ e ∈ es, Untagged e.2
  | [] => by simp [UntaggedEntries]
  | (k, v) :: es => by rw [UntaggedEntries, untaggedEntries_iff, List.forall_mem_cons]

/-- What a plain value with a given normal form is. -/
theorem plain_of_normal {w : PyVal} {n : Json} (hw : Plain w) (h : Normal R w n) :
    match n with
    | .null => w = .none
    | .bool b => w = .bool b
    | .int i => w = .int i
    | .str t => ∃ s, w = .str s ∧ hasSurrogate s = false ∧ R.nfc (toText s) = t
    | .arr ns => ∃ ws, (w = .list ws ∨ w = .tuple ws) ∧ List.Forall₂ (Normal R) ws ns
    | .obj members =>
        (∃ data, w = .bytes data ∧ members = [(bytesHexKey, .str (Hex.encode data))]) ∨
        ∃ fs ms, w = .dict fs ∧ List.Forall₂ (WrittenEntry R) fs ms ∧
          (ms.map Prod.fst).Nodup ∧ members = sortByKey ms := by
  cases w with
  | none =>
    obtain rfl := normal_none.1 h
    rfl
  | bool b =>
    obtain rfl := normal_bool.1 h
    rfl
  | int i =>
    obtain ⟨-, rfl⟩ := normal_int.1 h
    rfl
  | str s =>
    obtain ⟨hs, rfl⟩ := normal_str.1 h
    exact ⟨s, rfl, hs, rfl⟩
  | bytes data =>
    have hn := h.1
    rw [normalize, if_neg (by simp)] at hn
    obtain rfl := Except.ok.inj hn
    exact .inl ⟨data, rfl, rfl⟩
  | list ws =>
    obtain ⟨ns, hns, rfl⟩ := normal_list.1 h
    exact ⟨ws, .inl rfl, hns⟩
  | tuple ws =>
    obtain ⟨ns, hns, rfl⟩ := normal_list.1 (normal_tuple.1 h)
    exact ⟨ws, .inr rfl, hns⟩
  | dict fs =>
    obtain ⟨ms, hms, hnd, rfl⟩ := normal_dict.1 h
    exact .inr ⟨fs, ms, rfl, hms, hnd, rfl⟩
  | float _ => exact hw.elim
  | dataclass _ => exact hw.elim
  | other _ => exact hw.elim

/-! ## Tagged dictionaries -/

/-- A byte string as the dictionary it is written as. -/
def taggedEntries (data : List UInt8) : List (PyKey × PyVal) :=
  [(.str (ofText bytesHexKey), .str (ofText (Hex.encode data)))]

/-- A dictionary is tagged when it is what some bytes are written as. -/
theorem isTagged_iff {es : List (PyKey × PyVal)} :
    isTagged es = true ↔ ∃ data, es = taggedEntries data := by
  refine ⟨fun h => ?_, ?_⟩
  · unfold isTagged at h
    split at h
    · rename_i k s
      simp only [Bool.and_eq_true, decide_eq_true_eq, Bool.not_eq_true'] at h
      obtain ⟨⟨rfl, hs⟩, hhex⟩ := h
      obtain ⟨data, hdata⟩ := Option.isSome_iff_exists.1 hhex
      exact ⟨data, by rw [taggedEntries, Hex.encode_of_decode? hdata, ofText_toText hs]⟩
    · cases h
  · rintro ⟨data, rfl⟩
    simp [isTagged, taggedEntries]

/-- NFC leaves the tag alone. -/
theorem inert_bytesHexKey : Inert (ofText bytesHexKey) :=
  ⟨_, rfl, List.all_eq_true.1 (by decide)⟩

/-- And the digits. -/
theorem inert_encode (data : List UInt8) : Inert (ofText (Hex.encode data)) :=
  ⟨_, rfl, fun _ hc => isInert_of_isHexDigit (Hex.isHexDigit_encode hc)⟩

/-- An inert text is its own NFC form. -/
theorem nfc_of_inert {t : List Char} (h : Inert (ofText t)) : R.nfc t = t := by
  obtain ⟨u, hu, hall⟩ := h
  obtain rfl := ofText_injective hu
  exact R.nfc_ascii t fun c hc => isInert.ascii (hall c hc)

/-- A string whose NFC form is inert is that form. -/
theorem eq_of_nfc_inert {s : PyStr} {t : List Char} (hs : hasSurrogate s = false)
    (h : R.nfc (toText s) = t) (ht : Inert (ofText t)) : s = ofText t := by
  have heq : NfcEq R s (ofText t) :=
    ⟨hs, hasSurrogate_ofText t, by rw [h, toText_ofText, nfc_of_inert ht]⟩
  exact heq.eq_of_inert ht

/-- A byte string is written as its tagged dictionary is. -/
theorem eqv_bytes_tagged (data : List UInt8) :
    Eqv R (.bytes data) (.dict (taggedEntries data)) := by
  have hkey : normalizeKey R (.str (ofText bytesHexKey)) = .ok bytesHexKey := by
    rw [normalizeKey, nfcText_eq_ok, toText_ofText]
    exact ⟨hasSurrogate_ofText _, nfc_of_inert inert_bytesHexKey⟩
  have hval : Normal R (.str (ofText (Hex.encode data))) (.str (Hex.encode data)) := by
    rw [normal_str, toText_ofText, nfc_of_inert (inert_encode data)]
    exact ⟨hasSurrogate_ofText _, rfl⟩
  refine ⟨.obj [(bytesHexKey, .str (Hex.encode data))], ⟨?_, rfl⟩, ?_⟩
  · rw [normalize, if_neg (by simp)]
  · exact normal_dict.2 ⟨_, .cons ⟨hkey, hval⟩ .nil, by simp, rfl⟩

/-- A plain dictionary written as a byte string is tagged. -/
theorem isTagged_of_normalEntries {es : List (PyKey × PyVal)} {data : List UInt8}
    (h : List.Forall₂ (WrittenEntry R) es [(bytesHexKey, .str (Hex.encode data))])
    (hplain : PlainEntries es) : isTagged es = true := by
  cases h with
  | @cons e _ _ _ he hrest =>
    cases hrest
    obtain ⟨k, v⟩ := e
    obtain ⟨s, rfl, hs, hnfc⟩ := plain_of_normal hplain.1 he.2
    cases k with
    | other _ => cases he.1
    | str k =>
      have hk := he.1
      rw [normalizeKey, nfcText_eq_ok] at hk
      rw [isTagged_iff]
      exact ⟨data, by rw [taggedEntries, eq_of_nfc_inert hk.1 hk.2 inert_bytesHexKey,
        eq_of_nfc_inert hs hnfc (inert_encode data)]⟩

/-! ## Untagged values -/

/-- Dictionaries with one normal form, whose values under one key are the same, are the same. -/
theorem same_dict {es fs : List (PyKey × PyVal)} {ms ms' : List (List Char × Json)}
    (hfs : List.Forall₂ (WrittenEntry R) fs ms') (hobj : sortByKey ms = sortByKey ms')
    (hsame : ∀ gs, (∀ g ∈ gs, g ∈ fs) → List.Forall₂ (WrittenEntry R) gs ms →
      SameEntries R es gs) : Same R (.dict es) (.dict fs) := by
  -- list the entries of the second in the order of the first
  obtain ⟨gs, hgs, hp⟩ := List.perm_comp_forall₂ (perm_of_sortByKey_eq hobj) hfs.flip
  exact ⟨fs, gs, rfl, hp.symm, hsame gs (fun g hg => hp.mem_iff.1 hg) hgs.flip⟩

/-- Keys with one normal form are one in NFC. -/
theorem sameKey_of_normalizeKey {k k' : PyKey} {t : List Char} (h : normalizeKey R k = .ok t)
    (h' : normalizeKey R k' = .ok t) : SameKey R k k' := by
  cases k with
  | other _ => cases h
  | str s =>
    cases k' with
    | other _ => cases h'
    | str s' =>
      rw [normalizeKey, nfcText_eq_ok] at h h'
      exact ⟨s, s', rfl, rfl, h.1, h'.1, h.2.trans h'.2.symm⟩

mutual

/-- **On untagged values canonical equality is sameness.** -/
theorem same_of_eqv : ∀ {v w : PyVal}, Plain v → Untagged v → Plain w → Eqv R v w → Same R v w
  | .none, w, hv, _, hw, ⟨n, hn, hn'⟩ => by
    obtain rfl := normal_none.1 hn
    exact plain_of_normal hw hn'
  | .bool b, w, hv, _, hw, ⟨n, hn, hn'⟩ => by
    obtain rfl := normal_bool.1 hn
    exact plain_of_normal hw hn'
  | .int i, w, hv, _, hw, ⟨n, hn, hn'⟩ => by
    obtain ⟨-, rfl⟩ := normal_int.1 hn
    exact plain_of_normal hw hn'
  | .str s, w, hv, _, hw, ⟨n, hn, hn'⟩ => by
    obtain ⟨hs, rfl⟩ := normal_str.1 hn
    obtain ⟨t, rfl, ht, hnfc⟩ := plain_of_normal hw hn'
    exact ⟨t, rfl, hs, ht, hnfc.symm⟩
  | .list vs, w, hv, hu, hw, ⟨n, hn, hn'⟩ => by
    obtain ⟨ns, hns, rfl⟩ := normal_list.1 hn
    obtain ⟨ws, hws, hns'⟩ := plain_of_normal hw hn'
    refine ⟨ws, hws, sameItems_of_eqv hv hu ?_ (forall₂_eqv_of_forall₂ hns hns')⟩
    rcases hws with rfl | rfl <;> exact hw
  | .tuple vs, w, hv, hu, hw, ⟨n, hn, hn'⟩ => by
    obtain ⟨ns, hns, rfl⟩ := normal_list.1 (normal_tuple.1 hn)
    obtain ⟨ws, hws, hns'⟩ := plain_of_normal hw hn'
    refine ⟨ws, hws, sameItems_of_eqv hv hu ?_ (forall₂_eqv_of_forall₂ hns hns')⟩
    rcases hws with rfl | rfl <;> exact hw
  | .dict es, w, hv, hu, hw, ⟨n, hn, hn'⟩ => by
    obtain ⟨ms, hms, -, rfl⟩ := normal_dict.1 hn
    rcases plain_of_normal hw hn' with ⟨data, rfl, hobj⟩ | ⟨fs, ms', rfl, hms', -, hobj⟩
    · -- a byte string is written as a tagged dictionary
      obtain rfl : ms = [(bytesHexKey, .str (Hex.encode data))] :=
        List.perm_singleton.1 ((sortByKey_perm ms).symm.trans (hobj ▸ .refl _))
      exact absurd (isTagged_of_normalEntries hms hv) (by simp [hu.1])
    · refine same_dict hms' hobj fun gs hgs hgm => sameEntries_of_eqv hv hu.2 ?_ hms hgm
      exact plainEntries_iff.2 fun g hg => plainEntries_iff.1 hw g (hgs g hg)
  | .bytes _, _, _, hu, _, _ => hu.elim
  | .float _, _, hv, _, _, _ | .dataclass _, _, hv, _, _, _ | .other _, _, hv, _, _, _ => hv.elim

/-- `same_of_eqv`, item by item. -/
theorem sameItems_of_eqv : ∀ {vs ws : List PyVal}, PlainItems vs → UntaggedItems vs →
    PlainItems ws → List.Forall₂ (Eqv R) vs ws → SameItems R vs ws
  | [], _, _, _, _, .nil => rfl
  | _ :: _, _, hv, hu, hw, .cons h hs =>
    ⟨_, _, rfl, same_of_eqv hv.1 hu.1 hw.1 h, sameItems_of_eqv hv.2 hu.2 hw.2 hs⟩

/-- `same_of_eqv`, entry by entry. -/
theorem sameEntries_of_eqv : ∀ {es fs : List (PyKey × PyVal)} {ms : List (List Char × Json)},
    PlainEntries es → UntaggedEntries es → PlainEntries fs →
    List.Forall₂ (WrittenEntry R) es ms → List.Forall₂ (WrittenEntry R) fs ms →
    SameEntries R es fs
  | [], _, _, _, _, _, .nil, .nil => rfl
  | (_, _) :: _, _, _, hv, hu, hw, .cons h hs, h' => by
    cases h' with
    | @cons f _ _ _ hf hfs =>
      obtain ⟨k', w⟩ := f
      exact ⟨k', w, _, rfl, sameKey_of_normalizeKey h.1 hf.1,
        same_of_eqv hv.1 hu.1 hw.1 ⟨_, h.2, hf.2⟩, sameEntries_of_eqv hv.2 hu.2 hw.2 hs hfs⟩

end

/-! ## Tagged values -/

/-- No two entries of a dictionary with a normal form have the same key. -/
theorem pairwise_not_sameKey {portable : Bool} {es : List (PyKey × PyVal)}
    {ms : List (List Char × Json)} (h : List.Forall₂ (NormalEntry R portable) es ms)
    (hnd : (ms.map Prod.fst).Nodup) :
    es.Pairwise fun e f => ¬ SameKey R e.1 f.1 := by
  induction h with
  | nil => exact .nil
  | @cons e m es ms he hes ih =>
    rw [List.map_cons, List.nodup_cons] at hnd
    refine .cons ?_ (ih hnd.2)
    intro f hf hsame
    obtain ⟨s, t, hs, ht, hst⟩ := hsame
    obtain ⟨m', hm', hfm⟩ := exists_mem_of_forall₂ hes hf
    have hkey := he.1
    have hkey' := hfm.1
    rw [hs, normalizeKey, nfcText_eq_ok] at hkey
    rw [ht, normalizeKey, nfcText_eq_ok] at hkey'
    refine hnd.1 (List.mem_map.2 ⟨m', hm', ?_⟩)
    rw [← hkey.2, ← hkey'.2, hst.2.2]

/-- A dictionary that can be hashed has one entry under a key, in any spelling. -/
theorem entry_unique {es : List (PyKey × PyVal)} (h : Canon R (.dict es)) {e f : PyKey × PyVal}
    (he : e ∈ es) (hf : f ∈ es) (hk : SameKey R e.1 f.1) : e = f := by
  obtain ⟨n, hn, -⟩ := h
  obtain ⟨ms, hms, hnd, -⟩ := normalize_dict_eq_ok.1 hn
  have hpair := pairwise_not_sameKey hms hnd
  have hsymm : Std.Symm fun e f : PyKey × PyVal => ¬ SameKey R e.1 f.1 := by
    refine ⟨fun e f hef hfe => ?_⟩
    obtain ⟨s, t, hs, ht, hst⟩ := hfe
    exact hef ⟨t, s, ht, hs, hst.symm⟩
  by_contra hne
  exact hpair.forall he hf hne hk

/-- An entry of the first of two same lists of entries has its counterpart in the second. -/
theorem exists_of_sameEntries : ∀ {es fs : List (PyKey × PyVal)}, SameEntries R es fs →
    ∀ e ∈ es, ∃ f ∈ fs, SameKey R e.1 f.1 ∧ Same R e.2 f.2
  | [], _, _, e, he => by cases he
  | (k, v) :: es, fs, h, e, he => by
    obtain ⟨k', w, fs, rfl, hk, hv, hrest⟩ := h
    rcases List.mem_cons.1 he with rfl | he
    · exact ⟨(k', w), by simp, hk, hv⟩
    · obtain ⟨f, hf, hsame⟩ := exists_of_sameEntries hrest e he
      exact ⟨f, List.mem_cons_of_mem _ hf, hsame⟩

/-- The entries are those of another dictionary, one of whose values is canonically equal to the
value here and not the same. -/
structure Differ (R : Runtime) (es fs : List (PyKey × PyVal)) : Prop where
  keys : es.map Prod.fst = fs.map Prod.fst
  values : List.Forall₂ (Eqv R) (es.map Prod.snd) (fs.map Prod.snd)
  differs : ∃ k v w, (k, v) ∈ es ∧ (k, w) ∈ fs ∧ ¬ Same R v w

/-- Dictionaries that differ are not the same. -/
theorem not_same_of_differ {es fs : List (PyKey × PyVal)} (hes : Canon R (.dict es))
    (h : Differ R es fs) : Eqv R (.dict es) (.dict fs) ∧ ¬ Same R (.dict es) (.dict fs) := by
  have heqv : Eqv R (.dict es) (.dict fs) := (eqv_dict_iff h.keys).2 ⟨hes, h.values⟩
  refine ⟨heqv, ?_⟩
  rintro ⟨fs', arranged, hfs, hperm, hsame⟩
  obtain rfl := PyVal.dict.inj hfs
  obtain ⟨k, v, w, hv, hw, hne⟩ := h.differs
  obtain ⟨f, hf, hk, hvf⟩ := exists_of_sameEntries hsame _ hv
  obtain rfl : (k, w) = f := by
    refine entry_unique heqv.symm.canon hw (hperm.mem_iff.2 hf) ?_
    exact hk
  exact hne hvf

mutual

/-- **A tagged value is canonically equal to another one.** -/
theorem exists_not_same : ∀ {v : PyVal}, Plain v → Canon R v → ¬ Untagged v →
    ∃ w, Plain w ∧ Eqv R v w ∧ ¬ Same R v w
  | .bytes data, _, _, _ => by
    refine ⟨.dict (taggedEntries data), ⟨trivial, trivial⟩, eqv_bytes_tagged data, ?_⟩
    intro h
    cases h
  | .list vs, hv, hc, hu => by
    obtain ⟨ws, hws, heqv, hne⟩ := exists_not_sameItems hv (canon_list.1 hc) hu
    refine ⟨.list ws, hws, eqv_list.2 heqv, ?_⟩
    rintro ⟨ws', h | h, hsame⟩ <;> cases h
    exact hne hsame
  | .tuple vs, hv, hc, hu => by
    obtain ⟨ws, hws, heqv, hne⟩ := exists_not_sameItems hv (canon_tuple.1 hc) hu
    refine ⟨.list ws, hws, eqv_tuple_left.2 (eqv_list.2 heqv), ?_⟩
    rintro ⟨ws', h | h, hsame⟩ <;> cases h
    exact hne hsame
  | .dict es, hv, hc, hu => by
    by_cases htag : isTagged es = true
    · obtain ⟨data, rfl⟩ := isTagged_iff.1 htag
      refine ⟨.bytes data, trivial, (eqv_bytes_tagged data).symm, ?_⟩
      rintro ⟨fs, arranged, h, -⟩
      cases h
    · have hvals : ¬ UntaggedEntries es := fun h => hu ⟨by simpa using htag, h⟩
      have hcanon : ∀ e ∈ es, Canon R e.2 := by
        intro e he
        obtain ⟨n, hn⟩ := hc
        obtain ⟨ms, hms, -⟩ := normal_dict.1 hn
        obtain ⟨m, -, hm⟩ := exists_mem_of_forall₂ hms he
        exact ⟨m.2, hm.2⟩
      obtain ⟨fs, hfs, hdiff⟩ := exists_differ hv hcanon hvals
      obtain ⟨heqv, hne⟩ := not_same_of_differ hc hdiff
      exact ⟨.dict fs, hfs, heqv, hne⟩
  | .none, _, _, hu | .bool _, _, _, hu | .int _, _, _, hu | .str _, _, _, hu =>
    (hu trivial).elim
  | .float _, hv, _, _ | .dataclass _, hv, _, _ | .other _, hv, _, _ => hv.elim

/-- `exists_not_same`, item by item. -/
theorem exists_not_sameItems : ∀ {vs : List PyVal}, PlainItems vs → (∀ v ∈ vs, Canon R v) →
    ¬ UntaggedItems vs → ∃ ws, PlainItems ws ∧ List.Forall₂ (Eqv R) vs ws ∧ ¬ SameItems R vs ws
  | [], _, _, hu => (hu trivial).elim
  | v :: vs, hv, hc, hu => by
    rw [List.forall_mem_cons] at hc
    by_cases hhead : Untagged v
    · obtain ⟨ws, hws, heqv, hne⟩ :=
        exists_not_sameItems hv.2 hc.2 fun h => hu ⟨hhead, h⟩
      refine ⟨v :: ws, ⟨hv.1, hws⟩, .cons hc.1.eqv heqv, ?_⟩
      rintro ⟨w, ws', h, -, hsame⟩
      obtain ⟨-, rfl⟩ := List.cons.inj h
      exact hne hsame
    · obtain ⟨w, hw, heqv, hne⟩ := exists_not_same hv.1 hc.1 hhead
      refine ⟨w :: vs, ⟨hw, hv.2⟩, .cons heqv (List.forall₂_same.2 fun x hx => (hc.2 x hx).eqv), ?_⟩
      rintro ⟨w', ws', h, hsame, -⟩
      obtain ⟨rfl, -⟩ := List.cons.inj h
      exact hne hsame

/-- `exists_not_same`, entry by entry. -/
theorem exists_differ : ∀ {es : List (PyKey × PyVal)}, PlainEntries es →
    (∀ e ∈ es, Canon R e.2) → ¬ UntaggedEntries es → ∃ fs, PlainEntries fs ∧ Differ R es fs
  | [], _, _, hu => (hu trivial).elim
  | (k, v) :: es, hv, hc, hu => by
    rw [List.forall_mem_cons] at hc
    by_cases hhead : Untagged v
    · obtain ⟨fs, hfs, hdiff⟩ := exists_differ hv.2 hc.2 fun h => hu ⟨hhead, h⟩
      obtain ⟨k', v', w', hv', hw', hne⟩ := hdiff.differs
      exact ⟨(k, v) :: fs, ⟨hv.1, hfs⟩, by rw [List.map_cons, List.map_cons, hdiff.keys],
        .cons hc.1.eqv hdiff.values, k', v', w', List.mem_cons_of_mem _ hv',
        List.mem_cons_of_mem _ hw', hne⟩
    · obtain ⟨w, hw, heqv, hne⟩ := exists_not_same hv.1 hc.1 hhead
      have hrest : List.Forall₂ (Eqv R) (es.map Prod.snd) (es.map Prod.snd) := by
        rw [List.forall₂_same, List.forall_mem_map]
        exact fun e he => (hc.2 e he).eqv
      exact ⟨(k, w) :: es, ⟨hw, hv.2⟩, rfl, .cons heqv hrest, k, v, w, by simp, by simp, hne⟩

end

end Finality
