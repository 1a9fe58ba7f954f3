import Finality.Canonical.Normalize

/-!
# The portable profile (`CANONICALIZATION_PROFILE.md`)

What the three implementations of the cross-language profile are for: a value of the portable data
domain has at most one canonical form, with its strings and keys in NFC, its integers in the safe
range, no two keys of an object alike, and the keys in scalar order; `profileBytes` is its text in
UTF-8. A value is a JSON tree here, with the members of an object in the order they come in, and
`portableForm_rearranged` says that this order does not matter.

The Python implementation, `portable_canonical_bytes`, computes `profileBytes` of the tree it is
given (`portableCanonicalBytes_pyValue`).
-/

namespace Finality

open JsonText KeyOrder Checks

section
variable (R : Runtime)

mutual

/-- The canonical form of a value, if it has one. -/
def portableForm : Json → Option Json
  | .null => some .null
  | .bool b => some (.bool b)
  | .int i => if -maxSafeInteger ≤ i ∧ i ≤ maxSafeInteger then some (.int i) else none
  | .str s => some (.str (R.nfc s))
  | .arr xs => (portableItems xs).map .arr
  | .obj ms => (portableMembers ms).bind fun ns =>
      if (ns.map Prod.fst).Nodup then some (.obj (sortByKey ns)) else none

/-- The canonical forms of the items of an array. -/
def portableItems : List Json → Option (List Json)
  | [] => some []
  | x :: xs => (portableForm x).bind fun n => (portableItems xs).map (n :: ·)

/-- The canonical forms of the members of an object, in the order they come in. -/
def portableMembers : List (List Char × Json) → Option (List (List Char × Json))
  | [] => some []
  | (k, v) :: ms => (portableForm v).bind fun n => (portableMembers ms).map ((R.nfc k, n) :: ·)

end

/-- The canonical bytes of a value, if it has any. -/
def profileBytes (t : Json) : Option (List UInt8) :=
  (portableForm R t).map fun n => Utf8.utf8 (dumps n)

end

variable {R : Runtime}

/-- An object has a form when its members have, under keys that stay distinct. -/
theorem portableForm_obj_eq_some {ms : List (List Char × Json)} {n : Json} :
    portableForm R (.obj ms) = some n ↔ ∃ ns, portableMembers R ms = some ns ∧
      (ns.map Prod.fst).Nodup ∧ n = .obj (sortByKey ns) := by
  rw [portableForm, Option.bind_eq_some_iff]
  refine exists_congr fun ns => and_congr_right fun _ => ?_
  split
  · rename_i hnd
    simp [hnd, eq_comm]
  · rename_i hnd
    simp [hnd]

/-- A value and its canonical form. -/
def Form (R : Runtime) (v n : Json) : Prop := portableForm R v = some n

/-- The members' canonical forms, from the entries with normalised keys. -/
theorem forall₂_portableMembers : ∀ {ms : List (List Char × Json)} {ns : List (List Char × Json)},
    List.Forall₂ (fun m n => m.1 = n.1 ∧ Form R m.2 n.2) (mapKeys R.nfc ms) ns ↔
      portableMembers R ms = some ns
  | [], ns => by simp [portableMembers, eq_comm]
  | (k, v) :: ms, ns => by
    simp only [mapKeys_cons, List.forall₂_cons_left_iff, forall₂_portableMembers, portableMembers,
      Option.bind_eq_some_iff, Option.map_eq_some_iff]
    refine ⟨?_, ?_⟩
    · intro h
      obtain ⟨⟨k', n⟩, ns', ⟨rfl, hn⟩, hns, rfl⟩ := h
      exact ⟨n, hn, ns', hns, rfl⟩
    · intro h
      obtain ⟨n, hn, ns', hns, rfl⟩ := h
      exact ⟨(R.nfc k, n), ns', ⟨rfl, hn⟩, hns, rfl⟩

/-- The names of the normal form are the names in NFC. -/
theorem keys_portableMembers {ms ns : List (List Char × Json)}
    (h : portableMembers R ms = some ns) :
    (mapKeys R.nfc ms).map Prod.fst = ns.map Prod.fst := by
  have hforms := forall₂_portableMembers.2 h
  generalize mapKeys R.nfc ms = es at hforms
  clear h
  induction hforms with
  | nil => rfl
  | cons hab _ ih => rw [List.map_cons, List.map_cons, hab.1, ih]

/-! ## The order of members does not matter -/

mutual

/-- The same value with the members of every object in some other order. -/
def Rearranged : Json → Json → Prop
  | .null, w => w = .null
  | .bool b, w => w = .bool b
  | .int i, w => w = .int i
  | .str s, w => w = .str s
  | .arr xs, w => ∃ ys, w = .arr ys ∧ RearrangedItems xs ys
  | .obj ms, w => ∃ ns ms', w = .obj ms' ∧ RearrangedMembers ms ns ∧ ns.Perm ms'

/-- `Rearranged`, item by item. -/
def RearrangedItems : List Json → List Json → Prop
  | [], ys => ys = []
  | x :: xs, ys => ∃ y ys', ys = y :: ys' ∧ Rearranged x y ∧ RearrangedItems xs ys'

/-- `Rearranged`, member by member. -/
def RearrangedMembers : List (List Char × Json) → List (List Char × Json) → Prop
  | [], ns => ns = []
  | (k, v) :: ms, ns => ∃ w ns', ns = (k, w) :: ns' ∧ Rearranged v w ∧ RearrangedMembers ms ns'

end

/-- Members in another order have the same forms in another order. -/
theorem portableMembers_perm {ms ms' : List (List Char × Json)} (h : ms.Perm ms') :
    ∀ {ns}, portableMembers R ms = some ns → ∃ ns', portableMembers R ms' = some ns' ∧
      ns.Perm ns' := by
  induction h with
  | nil => exact fun h => ⟨_, h, .refl _⟩
  | cons m _ ih =>
    obtain ⟨k, v⟩ := m
    intro ns hns
    simp only [portableMembers, Option.bind_eq_some_iff, Option.map_eq_some_iff] at hns ⊢
    obtain ⟨n, hn, rest, hrest, rfl⟩ := hns
    obtain ⟨rest', hrest', hp⟩ := ih hrest
    exact ⟨_, ⟨n, hn, rest', hrest', rfl⟩, hp.cons _⟩
  | swap m m' ms =>
    obtain ⟨k, v⟩ := m
    obtain ⟨k', v'⟩ := m'
    intro ns hns
    simp only [portableMembers, Option.bind_eq_some_iff, Option.map_eq_some_iff] at hns ⊢
    obtain ⟨n', hn', rest, ⟨n, hn, rest', hrest, rfl⟩, rfl⟩ := hns
    exact ⟨_, ⟨n, hn, _, ⟨n', hn', rest', hrest, rfl⟩, rfl⟩, .swap _ _ _⟩
  | trans _ _ ih ih' =>
    intro ns hns
    obtain ⟨ns', hns', hp⟩ := ih hns
    obtain ⟨ns'', hns'', hp'⟩ := ih' hns'
    exact ⟨ns'', hns'', hp.trans hp'⟩

/-- An object's form does not depend on the order of its members. -/
theorem portableForm_obj_perm {ms ms' : List (List Char × Json)} (h : ms.Perm ms') :
    portableForm R (.obj ms) = portableForm R (.obj ms') := by
  simp only [portableForm]
  cases hns : portableMembers R ms with
  | none =>
    cases hns' : portableMembers R ms' with
    | none => rfl
    | some ns' =>
      obtain ⟨ns, hsome, -⟩ := portableMembers_perm h.symm hns'
      rw [hns] at hsome
      cases hsome
  | some ns =>
    obtain ⟨ns', hns', hp⟩ := portableMembers_perm h hns
    rw [hns']
    simp only [Option.bind_some, (hp.map Prod.fst).nodup_iff]
    split
    · rename_i hnd
      rw [sortByKey_eq_of_perm hp (((hp.map Prod.fst).nodup_iff).2 hnd)]
    · rfl

mutual

/-- **The order of members does not matter.** -/
theorem portableForm_rearranged : ∀ (v : Json) {w : Json}, Rearranged v w →
    portableForm R v = portableForm R w
  | .null, w, h => by rw [Rearranged] at h; rw [h]
  | .bool b, w, h => by rw [Rearranged] at h; rw [h]
  | .int i, w, h => by rw [Rearranged] at h; rw [h]
  | .str s, w, h => by rw [Rearranged] at h; rw [h]
  | .arr xs, w, h => by
    rw [Rearranged] at h
    obtain ⟨ys, rfl, hys⟩ := h
    rw [portableForm, portableForm, portableItems_rearranged xs hys]
  | .obj ms, w, h => by
    rw [Rearranged] at h
    obtain ⟨ns, ms', rfl, hns, hp⟩ := h
    rw [← portableForm_obj_perm hp, portableForm, portableForm, portableMembers_rearranged ms hns]

/-- Nor does it for the items of an array. -/
theorem portableItems_rearranged : ∀ (xs : List Json) {ys : List Json}, RearrangedItems xs ys →
    portableItems R xs = portableItems R ys
  | [], ys, h => by rw [RearrangedItems] at h; rw [h]
  | x :: xs, ys, h => by
    rw [RearrangedItems] at h
    obtain ⟨y, ys', rfl, hy, hys⟩ := h
    rw [portableItems, portableItems, portableForm_rearranged x hy, portableItems_rearranged xs hys]

/-- Nor for the members of an object. -/
theorem portableMembers_rearranged : ∀ (ms : List (List Char × Json))
    {ns : List (List Char × Json)},
    RearrangedMembers ms ns → portableMembers R ms = portableMembers R ns
  | [], ns, h => by rw [RearrangedMembers] at h; rw [h]
  | (k, v) :: ms, ns, h => by
    rw [RearrangedMembers] at h
    obtain ⟨w, ns', rfl, hw, hns⟩ := h
    rw [portableMembers, portableMembers, portableForm_rearranged v hw,
      portableMembers_rearranged ms hns]

end

/-! ## The Python implementation -/

mutual

/-- The Python value of a JSON tree. -/
def pyValue : Json → PyVal
  | .null => .none
  | .bool b => .bool b
  | .int i => .int i
  | .str s => .str (ofText s)
  | .arr xs => .list (pyItems xs)
  | .obj ms => .dict (pyEntries ms)

/-- The items of a list. -/
def pyItems : List Json → List PyVal
  | [] => []
  | x :: xs => pyValue x :: pyItems xs

/-- The entries of a dictionary. -/
def pyEntries : List (List Char × Json) → List (PyKey × PyVal)
  | [] => []
  | (k, v) :: ms => (.str (ofText k), pyValue v) :: pyEntries ms

end

mutual

/-- `_normalize` computes the canonical form. -/
theorem normalize_pyValue : ∀ (t : Json) {n : Json},
    normalize R true (pyValue t) = .ok n ↔ portableForm R t = some n
  | .null, n => by simp [pyValue, normalize, portableForm]
  | .bool b, n => by simp [pyValue, normalize, portableForm]
  | .int i, n => by
    by_cases hi : -maxSafeInteger ≤ i ∧ i ≤ maxSafeInteger
    · simp [pyValue, normalize, portableForm, hi]
    · simp only [pyValue, normalize, portableForm, hi, true_and, not_false_eq_true, if_true,
        if_false, reduceCtorEq]
  | .str s, n => by
    simp [pyValue, normalize, portableForm, nfcText]
  | .arr xs, n => by
    rw [pyValue, normalize, map_eq_ok, portableForm, Option.map_eq_some_iff]
    exact exists_congr fun ns => and_congr_left fun _ => normalizeItems_pyItems xs
  | .obj ms, n => by
    rw [pyValue, normalize_dict_eq_ok, portableForm_obj_eq_some]
    exact exists_congr fun ns => and_congr_left fun _ => normalEntries_pyEntries ms

/-- The items of an array, one by one. -/
theorem normalizeItems_pyItems : ∀ (xs : List Json) {ns : List Json},
    normalizeItems R true (pyItems xs) = .ok ns ↔ portableItems R xs = some ns
  | [], ns => by simp [pyItems, normalizeItems, portableItems]
  | x :: xs, ns => by
    simp only [pyItems, normalizeItems, portableItems, bind_eq_ok, Option.bind_eq_some_iff,
      Option.map_eq_some_iff, Except.ok.injEq, normalize_pyValue x, normalizeItems_pyItems xs]

/-- The members of an object, one by one. -/
theorem normalEntries_pyEntries : ∀ (ms : List (List Char × Json)) {ns : List (List Char × Json)},
    List.Forall₂ (NormalEntry R true) (pyEntries ms) ns ↔ portableMembers R ms = some ns
  | [], ns => by simp [pyEntries, portableMembers, eq_comm]
  | (k, v) :: ms, ns => by
    simp only [pyEntries, portableMembers, List.forall₂_cons_left_iff, NormalEntry, normalizeKey,
      nfcText_eq_ok, hasSurrogate_ofText, toText_ofText, true_and, Option.bind_eq_some_iff,
      Option.map_eq_some_iff, normalize_pyValue v, normalEntries_pyEntries ms]
    refine ⟨?_, ?_⟩
    · intro h
      obtain ⟨⟨nk, n⟩, ns', ⟨rfl, hn⟩, hns, rfl⟩ := h
      exact ⟨n, hn, ns', hns, rfl⟩
    · intro h
      obtain ⟨n, hn, ns', hns, rfl⟩ := h
      exact ⟨_, ns', ⟨rfl, hn⟩, hns, rfl⟩

end

/-- A canonical form lists its keys in order. -/
theorem keysSorted_portableForm {t n : Json} (h : portableForm R t = some n) : KeysSorted n :=
  keysSorted_normalize _ ((normalize_pyValue t).2 h)

/-- **Python computes the profile.** -/
theorem portableCanonicalBytes_pyValue {t : Json} {b : List UInt8} :
    portableCanonicalBytes R (pyValue t) = .ok b ↔ profileBytes R t = some b := by
  simp only [portableCanonicalBytes_eq_ok, profileBytes, Option.map_eq_some_iff, normalize_pyValue]
  refine exists_congr fun n => and_congr_right fun hn => ?_
  rw [documentBytes, sortKeys_eq_self n (keysSorted_portableForm hn)]

end Finality
