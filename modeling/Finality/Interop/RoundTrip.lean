import Finality.Lib.JsonRead
import Finality.Canonical.Same
import Finality.Canonical.Sample
import Finality.Interop.Profile

/-!
# Portable bytes as a code

Portable canonical bytes are JSON text that decodes to the normal form of the value
(`decode_portable`), and the normal form has these bytes again. So the bytes stand for the value up
to what normalising forgets: the order of the keys, the NFC forms of strings and keys, and which
sequences were tuples and which dictionaries dataclasses (`Alike`).
-/

namespace Finality

open JsonText KeyOrder Checks

/-- `json.loads(data.decode("utf-8"))` -/
def decodeJson (data : List UInt8) : Option Json := (Utf8.decode? data).bind loads

section
variable (R : Runtime)

mutual

/-- A normal form of the portable profile: strings and keys in NFC, integers in the safe range,
and the keys of every object in increasing order. -/
def IsForm : Json → Prop
  | .null | .bool _ => True
  | .int i => -maxSafeInteger ≤ i ∧ i ≤ maxSafeInteger
  | .str s => R.nfc s = s
  | .arr xs => IsFormItems xs
  | .obj ms => (ms.map Prod.fst).Pairwise (· < ·) ∧ IsFormMembers ms

/-- `IsForm`, item by item. -/
def IsFormItems : List Json → Prop
  | [] => True
  | x :: xs => IsForm x ∧ IsFormItems xs

/-- `IsForm`, member by member. -/
def IsFormMembers : List (List Char × Json) → Prop
  | [] => True
  | (k, v) :: ms => R.nfc k = k ∧ IsForm v ∧ IsFormMembers ms

end

mutual

/-- The values are equal up to NFC, the order of keys, lists for tuples and dictionaries for
dataclasses. -/
def Alike : PyVal → PyVal → Prop
  | .none, w => w = .none
  | .bool b, w => w = .bool b
  | .int i, w => w = .int i
  | .str s, w => ∃ t, w = .str t ∧ NfcEq R s t
  | .list vs, w => ∃ ws, (w = .list ws ∨ w = .tuple ws) ∧ AlikeItems vs ws
  | .tuple vs, w => ∃ ws, (w = .list ws ∨ w = .tuple ws) ∧ AlikeItems vs ws
  | .dict es, w => ∃ fs arranged, (w = .dict fs ∨ w = .dataclass fs) ∧ fs.Perm arranged ∧
      AlikeEntries es arranged
  | .dataclass es, w => ∃ fs arranged, (w = .dict fs ∨ w = .dataclass fs) ∧ fs.Perm arranged ∧
      AlikeEntries es arranged
  | .float _, _ | .bytes _, _ | .other _, _ => False

/-- `Alike`, item by item. -/
def AlikeItems : List PyVal → List PyVal → Prop
  | [], ws => ws = []
  | v :: vs, ws => ∃ w ws', ws = w :: ws' ∧ Alike v w ∧ AlikeItems vs ws'

/-- `Alike`, entry by entry. -/
def AlikeEntries : List (PyKey × PyVal) → List (PyKey × PyVal) → Prop
  | [], fs => fs = []
  | (k, v) :: es, fs => ∃ k' w fs', fs = (k', w) :: fs' ∧ SameKey R k k' ∧ Alike v w ∧
      AlikeEntries es fs'

end

end

variable {R : Runtime}

/-! ## Normal forms -/

/-- Members are in normal form one by one. -/
theorem isFormMembers_iff : ∀ {ms : List (List Char × Json)},
    IsFormMembers R ms ↔ ∀ m ∈ ms, R.nfc m.1 = m.1 ∧ IsForm R m.2
  | [] => by simp [IsFormMembers]
  | (k, v) :: ms => by
    rw [IsFormMembers, isFormMembers_iff, List.forall_mem_cons, and_assoc]

/-- A normalised key is in NFC. -/
theorem nfc_of_normalizeKey {k : PyKey} {t : List Char} (h : normalizeKey R k = .ok t) :
    R.nfc t = t := by
  cases k with
  | other o => cases h
  | str s =>
    rw [normalizeKey, nfcText_eq_ok] at h
    rw [← h.2, R.nfc_idem]

mutual

/-- **What `_normalize` returns**, in the portable profile. -/
theorem isForm_of_normalize : ∀ {v : PyVal} {n : Json}, normalize R true v = .ok n → IsForm R n
  | .none, n, h => by
    obtain rfl : Json.null = n := by simpa [normalize] using h
    trivial
  | .bool b, n, h => by
    obtain rfl : Json.bool b = n := by simpa [normalize] using h
    trivial
  | .int i, n, h => by
    rw [normalize] at h
    split at h
    case isTrue => cases h
    case isFalse hi =>
      obtain rfl := Except.ok.inj h
      exact not_not.1 fun hsafe => hi ⟨rfl, hsafe⟩
  | .float _, n, h => by cases h
  | .str s, n, h => by
    obtain ⟨-, rfl⟩ := normalize_str_eq_ok.1 h
    exact R.nfc_idem _
  | .bytes data, n, h => by
    rw [normalize, if_pos rfl] at h
    cases h
  | .list vs, n, h => by
    obtain ⟨ns, hns, rfl⟩ := normalize_list_eq_ok.1 h
    exact isFormItems_of_normalize hns
  | .tuple vs, n, h => by
    rw [normalize_tuple] at h
    obtain ⟨ns, hns, rfl⟩ := normalize_list_eq_ok.1 h
    exact isFormItems_of_normalize hns
  | .dict es, n, h => by
    obtain ⟨ms, hms, hnd, rfl⟩ := normalize_dict_eq_ok.1 h
    refine ⟨sortByKey_strict hnd, isFormMembers_iff.2 fun m hm => ?_⟩
    exact isFormMembers_of_normalize hms m (mem_sortByKey.1 hm)
  | .dataclass es, n, h => by
    rw [normalize_dataclass] at h
    obtain ⟨ms, hms, hnd, rfl⟩ := normalize_dict_eq_ok.1 h
    refine ⟨sortByKey_strict hnd, isFormMembers_iff.2 fun m hm => ?_⟩
    exact isFormMembers_of_normalize hms m (mem_sortByKey.1 hm)
  | .other o, n, h => by
    rw [normalize] at h
    split at h <;> cases h

/-- The normal forms of items are in normal form. -/
theorem isFormItems_of_normalize : ∀ {vs : List PyVal} {ns : List Json},
    List.Forall₂ (fun v n => normalize R true v = .ok n) vs ns → IsFormItems R ns
  | _, _, .nil => trivial
  | _, _, .cons h hs => ⟨isForm_of_normalize h, isFormItems_of_normalize hs⟩

/-- So are those of entries. -/
theorem isFormMembers_of_normalize : ∀ {es : List (PyKey × PyVal)} {ms : List (List Char × Json)},
    List.Forall₂ (NormalEntry R true) es ms → ∀ m ∈ ms, R.nfc m.1 = m.1 ∧ IsForm R m.2
  | _, _, .nil => nofun
  | _, _, .cons h hs => by
    rw [List.forall_mem_cons]
    exact ⟨⟨nfc_of_normalizeKey h.1, isForm_of_normalize h.2⟩, isFormMembers_of_normalize hs⟩

end

mutual

/-- A normal form is its own. -/
theorem portableForm_of_isForm : ∀ {n : Json}, IsForm R n → portableForm R n = some n
  | .null, _ => rfl
  | .bool _, _ => rfl
  | .int i, h => if_pos h
  | .str s, h => by rw [portableForm, show R.nfc s = s from h]
  | .arr xs, h => by rw [portableForm, portableItems_of_isForm h, Option.map_some]
  | .obj ms, h => by
    rw [portableForm_obj_eq_some]
    refine ⟨ms, portableMembers_of_isForm h.2, h.1.imp fun hlt => ne_of_lt hlt, ?_⟩
    rw [sortByKey_eq_self h.1]

/-- Items in normal form are read back as they are. -/
theorem portableItems_of_isForm : ∀ {ns : List Json}, IsFormItems R ns →
    portableItems R ns = some ns
  | [], _ => rfl
  | n :: ns, h => by
    rw [portableItems, portableForm_of_isForm h.1, Option.bind_some, portableItems_of_isForm h.2,
      Option.map_some]

/-- So are members. -/
theorem portableMembers_of_isForm : ∀ {ms : List (List Char × Json)}, IsFormMembers R ms →
    portableMembers R ms = some ms
  | [], _ => rfl
  | (k, v) :: ms, h => by
    rw [portableMembers, portableForm_of_isForm h.2.1, Option.bind_some,
      portableMembers_of_isForm h.2.2, Option.map_some, h.1]

end

/-- **Decoding.** Canonical bytes decode to the normal form. -/
theorem decode_documentBytes {v : PyVal} {n : Json} {portable : Bool}
    (h : normalize R portable v = .ok n) : decodeJson (documentBytes n) = some n := by
  rw [decodeJson, documentBytes, Utf8.decode?_utf8, Option.bind_some, loads_dumps,
    sortKeys_eq_self n (keysSorted_normalize v h)]

/-- **Re-encoding.** The normal form of a portable value has the same bytes. -/
theorem portableCanonicalBytes_form {n : Json} (h : IsForm R n) (hsorted : KeysSorted n) :
    portableCanonicalBytes R (pyValue n) = .ok (documentBytes n) := by
  rw [portableCanonicalBytes_pyValue, profileBytes, portableForm_of_isForm h, Option.map_some,
    documentBytes, sortKeys_eq_self n hsorted]

/-! ## Values with the same bytes -/

/-- What a portable value with a given normal form is. -/
theorem portable_of_normalize {w : PyVal} {n : Json} (h : normalize R true w = .ok n) :
    match n with
    | .null => w = .none
    | .bool b => w = .bool b
    | .int i => w = .int i
    | .str t => ∃ s, w = .str s ∧ hasSurrogate s = false ∧ R.nfc (toText s) = t
    | .arr ns => ∃ ws, (w = .list ws ∨ w = .tuple ws) ∧
        List.Forall₂ (fun w n => normalize R true w = .ok n) ws ns
    | .obj members => ∃ fs ms, (w = .dict fs ∨ w = .dataclass fs) ∧
        List.Forall₂ (NormalEntry R true) fs ms ∧ (ms.map Prod.fst).Nodup ∧
        members = sortByKey ms := by
  cases w with
  | none =>
    obtain rfl : Json.null = n := by simpa [normalize] using h
    rfl
  | bool b =>
    obtain rfl : Json.bool b = n := by simpa [normalize] using h
    rfl
  | int i =>
    rw [normalize] at h
    split at h
    · cases h
    · obtain rfl := Except.ok.inj h
      rfl
  | float q => cases h
  | str s =>
    obtain ⟨hs, rfl⟩ := normalize_str_eq_ok.1 h
    exact ⟨s, rfl, hs, rfl⟩
  | bytes data =>
    rw [normalize, if_pos rfl] at h
    cases h
  | list ws =>
    obtain ⟨ns, hns, rfl⟩ := normalize_list_eq_ok.1 h
    exact ⟨ws, .inl rfl, hns⟩
  | tuple ws =>
    rw [normalize_tuple] at h
    obtain ⟨ns, hns, rfl⟩ := normalize_list_eq_ok.1 h
    exact ⟨ws, .inr rfl, hns⟩
  | dict fs =>
    obtain ⟨ms, hms, hnd, rfl⟩ := normalize_dict_eq_ok.1 h
    exact ⟨fs, ms, .inl rfl, hms, hnd, rfl⟩
  | dataclass fs =>
    rw [normalize_dataclass] at h
    obtain ⟨ms, hms, hnd, rfl⟩ := normalize_dict_eq_ok.1 h
    exact ⟨fs, ms, .inr rfl, hms, hnd, rfl⟩
  | other o =>
    rw [normalize] at h
    split at h <;> cases h

/-- Entries with one normal form, listed in the order of the first. -/
theorem exists_arranged {fs : List (PyKey × PyVal)} {ms ms' : List (List Char × Json)}
    (hfs : List.Forall₂ (NormalEntry R true) fs ms') (hobj : sortByKey ms = sortByKey ms') :
    ∃ arranged, fs.Perm arranged ∧ List.Forall₂ (NormalEntry R true) arranged ms := by
  obtain ⟨gs, hgs, hp⟩ := List.perm_comp_forall₂ (perm_of_sortByKey_eq hobj) hfs.flip
  exact ⟨gs, hp.symm, hgs.flip⟩

mutual

/-- Values with one normal form are alike. -/
theorem alike_of_normalize : ∀ {v w : PyVal} {n : Json}, normalize R true v = .ok n →
    normalize R true w = .ok n → Alike R v w
  | .none, w, n, hn, hw => by
    obtain rfl : Json.null = n := by simpa [normalize] using hn
    exact portable_of_normalize hw
  | .bool b, w, n, hn, hw => by
    obtain rfl : Json.bool b = n := by simpa [normalize] using hn
    exact portable_of_normalize hw
  | .int i, w, n, hn, hw => by
    rw [normalize] at hn
    split at hn
    · cases hn
    · obtain rfl := Except.ok.inj hn
      exact portable_of_normalize hw
  | .float _, _, _, hn, _ => by cases hn
  | .str s, w, n, hn, hw => by
    obtain ⟨hs, rfl⟩ := normalize_str_eq_ok.1 hn
    obtain ⟨t, rfl, ht, hnfc⟩ := portable_of_normalize hw
    exact ⟨t, rfl, hs, ht, hnfc.symm⟩
  | .bytes _, _, _, hn, _ => by
    rw [normalize, if_pos rfl] at hn
    cases hn
  | .list vs, w, n, hn, hw => by
    obtain ⟨ns, hns, rfl⟩ := normalize_list_eq_ok.1 hn
    obtain ⟨ws, hws, hns'⟩ := portable_of_normalize hw
    exact ⟨ws, hws, alikeItems_of_normalize hns hns'⟩
  | .tuple vs, w, n, hn, hw => by
    rw [normalize_tuple] at hn
    obtain ⟨ns, hns, rfl⟩ := normalize_list_eq_ok.1 hn
    obtain ⟨ws, hws, hns'⟩ := portable_of_normalize hw
    exact ⟨ws, hws, alikeItems_of_normalize hns hns'⟩
  | .dict es, w, n, hn, hw => by
    obtain ⟨ms, hms, -, rfl⟩ := normalize_dict_eq_ok.1 hn
    obtain ⟨fs, ms', hw', hms', -, hobj⟩ := portable_of_normalize hw
    obtain ⟨arranged, hp, harranged⟩ := exists_arranged hms' hobj
    exact ⟨fs, arranged, hw', hp, alikeEntries_of_normalize hms harranged⟩
  | .dataclass es, w, n, hn, hw => by
    rw [normalize_dataclass] at hn
    obtain ⟨ms, hms, -, rfl⟩ := normalize_dict_eq_ok.1 hn
    obtain ⟨fs, ms', hw', hms', -, hobj⟩ := portable_of_normalize hw
    obtain ⟨arranged, hp, harranged⟩ := exists_arranged hms' hobj
    exact ⟨fs, arranged, hw', hp, alikeEntries_of_normalize hms harranged⟩
  | .other o, _, _, hn, _ => by
    rw [normalize] at hn
    split at hn <;> cases hn

/-- Items with the same normal forms are alike, one by one. -/
theorem alikeItems_of_normalize : ∀ {vs ws : List PyVal} {ns : List Json},
    List.Forall₂ (fun v n => normalize R true v = .ok n) vs ns →
    List.Forall₂ (fun w n => normalize R true w = .ok n) ws ns → AlikeItems R vs ws
  | [], _, _, .nil, .nil => rfl
  | _ :: _, _, _, .cons h hs, .cons h' hs' =>
    ⟨_, _, rfl, alike_of_normalize h h', alikeItems_of_normalize hs hs'⟩

/-- So are entries. -/
theorem alikeEntries_of_normalize : ∀ {es fs : List (PyKey × PyVal)}
    {ms : List (List Char × Json)}, List.Forall₂ (NormalEntry R true) es ms →
    List.Forall₂ (NormalEntry R true) fs ms → AlikeEntries R es fs
  | [], _, _, .nil, .nil => rfl
  | (_, _) :: _, _, _, .cons h hs, .cons (a := (k', w)) h' hs' =>
    ⟨k', w, _, rfl, sameKey_of_normalizeKey h.1 h'.1, alike_of_normalize h.2 h'.2,
      alikeEntries_of_normalize hs hs'⟩

end

/-- Keys that are one in NFC have one normal form. -/
theorem normalizeKey_of_sameKey {k k' : PyKey} {t : List Char} (hk : SameKey R k k')
    (h : normalizeKey R k = .ok t) : normalizeKey R k' = .ok t := by
  obtain ⟨s, s', rfl, rfl, -, hs', hnfc⟩ := hk
  rw [normalizeKey, nfcText_eq_ok] at h ⊢
  exact ⟨hs', hnfc.symm.trans h.2⟩

/-- The normal form of a dictionary or a dataclass is that of its entries in another order. -/
theorem normalize_of_arranged {w : PyVal} {fs arranged : List (PyKey × PyVal)}
    {ms : List (List Char × Json)} (hw : w = .dict fs ∨ w = .dataclass fs)
    (hp : fs.Perm arranged) (h : List.Forall₂ (NormalEntry R true) arranged ms)
    (hnd : (ms.map Prod.fst).Nodup) : normalize R true w = .ok (.obj (sortByKey ms)) := by
  obtain ⟨ms', hms', hp'⟩ := List.perm_comp_forall₂ hp h
  have hdict : normalize R true (.dict fs) = .ok (.obj (sortByKey ms)) := by
    refine normalize_dict_eq_ok.2 ⟨ms', hms', ?_, ?_⟩
    · exact (hp'.map Prod.fst).nodup_iff.2 hnd
    · rw [sortByKey_eq_of_perm hp'.symm hnd]
  rcases hw with rfl | rfl
  · exact hdict
  · exact normalize_dataclass.2 hdict

mutual

/-- Alike values have one normal form. -/
theorem normalize_of_alike : ∀ {v w : PyVal} {n : Json}, Alike R v w →
    normalize R true v = .ok n → normalize R true w = .ok n
  | .none, _, _, rfl, hn => hn
  | .bool _, _, _, rfl, hn => hn
  | .int _, _, _, rfl, hn => hn
  | .str s, _, n, ⟨t, rfl, _, ht, hnfc⟩, hn => by
    obtain ⟨-, rfl⟩ := normalize_str_eq_ok.1 hn
    exact normalize_str_eq_ok.2 ⟨ht, by rw [hnfc]⟩
  | .list vs, w, n, ⟨ws, hw, h⟩, hn => by
    obtain ⟨ns, hns, rfl⟩ := normalize_list_eq_ok.1 hn
    have hws := normalize_list_eq_ok.2 ⟨ns, normalizeItems_of_alike h hns, rfl⟩
    rcases hw with rfl | rfl
    · exact hws
    · rwa [normalize_tuple]
  | .tuple vs, w, n, ⟨ws, hw, h⟩, hn => by
    rw [normalize_tuple] at hn
    obtain ⟨ns, hns, rfl⟩ := normalize_list_eq_ok.1 hn
    have hws := normalize_list_eq_ok.2 ⟨ns, normalizeItems_of_alike h hns, rfl⟩
    rcases hw with rfl | rfl
    · exact hws
    · rwa [normalize_tuple]
  | .dict es, w, n, ⟨fs, arranged, hw, hp, h⟩, hn => by
    obtain ⟨ms, hms, hnd, rfl⟩ := normalize_dict_eq_ok.1 hn
    exact normalize_of_arranged hw hp (normalEntries_of_alike h hms) hnd
  | .dataclass es, w, n, ⟨fs, arranged, hw, hp, h⟩, hn => by
    rw [normalize_dataclass] at hn
    obtain ⟨ms, hms, hnd, rfl⟩ := normalize_dict_eq_ok.1 hn
    exact normalize_of_arranged hw hp (normalEntries_of_alike h hms) hnd
  | .float _, _, _, h, _ | .bytes _, _, _, h, _ | .other _, _, _, h, _ => h.elim

/-- Items that are alike have the same normal forms. -/
theorem normalizeItems_of_alike : ∀ {vs ws : List PyVal} {ns : List Json}, AlikeItems R vs ws →
    List.Forall₂ (fun v n => normalize R true v = .ok n) vs ns →
    List.Forall₂ (fun w n => normalize R true w = .ok n) ws ns
  | [], _, _, rfl, h => h
  | _ :: _, _, _, ⟨_, _, rfl, hv, hvs⟩, .cons h hs =>
    .cons (normalize_of_alike hv h) (normalizeItems_of_alike hvs hs)

/-- So have entries. -/
theorem normalEntries_of_alike : ∀ {es fs : List (PyKey × PyVal)} {ms : List (List Char × Json)},
    AlikeEntries R es fs → List.Forall₂ (NormalEntry R true) es ms →
    List.Forall₂ (NormalEntry R true) fs ms
  | [], _, _, rfl, h => h
  | (_, _) :: _, _, _, ⟨_, _, _, rfl, hk, hv, hes⟩, .cons h hs =>
    .cons ⟨normalizeKey_of_sameKey hk h.1, normalize_of_alike hv h.2⟩
      (normalEntries_of_alike hes hs)

end

/-- **Portable bytes are a faithful, fully abstract code.** They decode to the normal form of the
value, which has the same bytes; and two accepted values have the same bytes exactly when they are
alike. -/
theorem portable_code {v : PyVal} {b : List UInt8} (hb : portableCanonicalBytes R v = .ok b) :
    (∃ n, normalize R true v = .ok n ∧ IsForm R n ∧ decodeJson b = some n ∧
      portableCanonicalBytes R (pyValue n) = .ok b) ∧
    ∀ w c, portableCanonicalBytes R w = .ok c → (b = c ↔ Alike R v w) := by
  rw [portableCanonicalBytes_eq_ok] at hb
  obtain ⟨n, hn, rfl⟩ := hb
  have hform := isForm_of_normalize hn
  have hsorted := keysSorted_normalize v hn
  refine ⟨⟨n, hn, hform, decode_documentBytes hn, portableCanonicalBytes_form hform hsorted⟩, ?_⟩
  intro w c hc
  rw [portableCanonicalBytes_eq_ok] at hc
  obtain ⟨m, hm, rfl⟩ := hc
  refine ⟨?_, ?_⟩
  · intro heq
    obtain rfl := documentBytes_injOn hsorted (keysSorted_normalize w hm) heq
    exact alike_of_normalize hn hm
  · intro halike
    obtain rfl := Except.ok.inj (hm.symm.trans (normalize_of_alike halike hn))
    rfl

/-- A document with a decomposed key, a tuple and a control character. -/
def sampleDocument : PyVal :=
  .dict [(.str (ofText ['e', Char.ofNat 0x301]), .tuple [.int (-1), .str (py "a\n"), .none])]

/-- The sample document, encoded, decoded and encoded again. -/
theorem portable_code_sample : ∃ b n, portableCanonicalBytes sampleRuntime sampleDocument = .ok b ∧
    normalize sampleRuntime true sampleDocument = .ok n ∧ decodeJson b = some n ∧
    portableCanonicalBytes sampleRuntime (pyValue n) = .ok b := by
  obtain ⟨b, hb⟩ : ∃ b, portableCanonicalBytes sampleRuntime sampleDocument = .ok b := ⟨_, rfl⟩
  obtain ⟨⟨n, hn, -, hdecode, hagain⟩, -⟩ := portable_code hb
  exact ⟨b, n, hb, hn, hdecode, hagain⟩

end Finality
