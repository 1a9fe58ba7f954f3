import Finality.Canonical.Same
import Finality.Canonical.Sample

/-!
# The acceptance domain of the canonical encoder

`Refused` lists what neither profile, or only one of them, accepts: something of one of these kinds
lies inside the value (`exists_normalize_iff`). A refusal raises `CanonicalizationError` unless the
walk comes to a class or to a dataclass instance that `asdict` cannot copy before it comes to
anything else that is refused (`Stops`). A dictionary is walked in its insertion order, so the order
decides which of the two is raised; whether the value is refused does not depend on it
(`Reordered`).
-/

namespace Finality

open JsonText KeyOrder Checks

/-- The value `x` lies inside a value, at any depth. -/
inductive Inside (x : PyVal) : PyVal → Prop
  | self : Inside x x
  | list {vs v} (hv : v ∈ vs) (h : Inside x v) : Inside x (.list vs)
  | tuple {vs v} (hv : v ∈ vs) (h : Inside x v) : Inside x (.tuple vs)
  | dict {es k v} (he : (k, v) ∈ es) (h : Inside x v) : Inside x (.dict es)
  | dataclass {fs k v} (he : (k, v) ∈ fs) (h : Inside x v) : Inside x (.dataclass fs)

section
variable (R : Runtime)

/-- What is refused about the keys of a dictionary: a key that is no string, one with a surrogate,
or two that are one key in NFC. -/
inductive KeysOffend (es : List (PyKey × PyVal)) : Prop
  | notString {o v} (h : (.other o, v) ∈ es)
  | surrogate {k v} (h : (.str k, v) ∈ es) (hs : hasSurrogate k = true)
  | collision (h : ¬ es.Pairwise fun e f => ¬ SameKey R e.1 f.1)

/-- What is refused about a value itself. Large integers and bytes are refused by the portable
profile only. -/
inductive Offends (portable : Bool) : PyVal → Prop
  | float {q} : Offends portable (.float q)
  | integer {i} (hp : portable = true) (h : ¬(-maxSafeInteger ≤ i ∧ i ≤ maxSafeInteger)) :
      Offends portable (.int i)
  | bytes {data} (hp : portable = true) : Offends portable (.bytes data)
  | surrogate {s} (h : hasSurrogate s = true) : Offends portable (.str s)
  | keys {es} (h : KeysOffend R es) : Offends portable (.dict es)
  | fieldKeys {fs} (h : KeysOffend R fs) : Offends portable (.dataclass fs)
  | type {o} : Offends portable (.other o)

/-- Something inside the value is refused, at whatever depth. -/
def Refused (portable : Bool) (v : PyVal) : Prop := ∃ x, Inside x v ∧ Offends R portable x

end

variable {R : Runtime} {portable : Bool}

/-! ## What is inside -/

/-- A list is refused when one of its items is: it is no offence itself. -/
theorem refused_list {vs : List PyVal} :
    Refused R portable (.list vs) ↔ ∃ v ∈ vs, Refused R portable v := by
  refine ⟨?_, ?_⟩
  · rintro ⟨x, hx, ho⟩
    cases hx with
    | self => cases ho
    | list hv h => exact ⟨_, hv, x, h, ho⟩
  · rintro ⟨v, hv, x, hx, ho⟩
    exact ⟨x, .list hv hx, ho⟩

/-- So is a tuple. -/
theorem refused_tuple {vs : List PyVal} :
    Refused R portable (.tuple vs) ↔ ∃ v ∈ vs, Refused R portable v := by
  refine ⟨?_, ?_⟩
  · rintro ⟨x, hx, ho⟩
    cases hx with
    | self => cases ho
    | tuple hv h => exact ⟨_, hv, x, h, ho⟩
  · rintro ⟨v, hv, x, hx, ho⟩
    exact ⟨x, .tuple hv hx, ho⟩

/-- A dictionary is refused for its keys or for one of its values. -/
theorem refused_dict {es : List (PyKey × PyVal)} :
    Refused R portable (.dict es) ↔ KeysOffend R es ∨ ∃ e ∈ es, Refused R portable e.2 := by
  refine ⟨?_, ?_⟩
  · rintro ⟨x, hx, ho⟩
    cases hx with
    | self =>
      cases ho with
      | keys h => exact .inl h
    | dict he h => exact .inr ⟨_, he, x, h, ho⟩
  · rintro (h | ⟨e, he, x, hx, ho⟩)
    · exact ⟨_, .self, .keys h⟩
    · exact ⟨x, .dict he hx, ho⟩

/-- An instance of a dataclass is refused as the dictionary of its fields is. -/
theorem refused_dataclass {fs : List (PyKey × PyVal)} :
    Refused R portable (.dataclass fs) ↔ Refused R portable (.dict fs) := by
  rw [refused_dict]
  refine ⟨?_, ?_⟩
  · rintro ⟨x, hx, ho⟩
    cases hx with
    | self =>
      cases ho with
      | fieldKeys h => exact .inl h
    | dataclass he h => exact .inr ⟨_, he, x, h, ho⟩
  · rintro (h | ⟨e, he, x, hx, ho⟩)
    · exact ⟨_, .self, .fieldKeys h⟩
    · exact ⟨x, .dataclass he hx, ho⟩

/-- A value that contains no other is refused for what it is, and for nothing else. -/
theorem refused_leaf {v : PyVal} (h : ∀ x, Inside x v → x = v) :
    Refused R portable v ↔ Offends R portable v := by
  refine ⟨?_, ?_⟩
  · rintro ⟨x, hx, ho⟩
    rwa [h x hx] at ho
  · exact fun ho => ⟨v, .self, ho⟩

/-! ## Accepted values -/

/-- A key has a normal form when it is a string without surrogates. -/
theorem exists_normalizeKey_iff {k : PyKey} :
    (∃ t, normalizeKey R k = .ok t) ↔ ∃ s, k = .str s ∧ hasSurrogate s = false := by
  cases k with
  | other o => simp [normalizeKey]
  | str s => simp [normalizeKey, nfcText_eq_ok]

/-- The keys of entries that have normal forms differ when no two of the entries have one key. -/
theorem nodup_of_pairwise {es : List (PyKey × PyVal)} {ms : List (List Char × Json)}
    (h : List.Forall₂ (NormalEntry R portable) es ms)
    (hp : es.Pairwise fun e f => ¬ SameKey R e.1 f.1) : (ms.map Prod.fst).Nodup := by
  induction h with
  | nil => exact List.nodup_nil
  | @cons e m es ms he hes ih =>
    obtain ⟨hhead, htail⟩ := List.pairwise_cons.1 hp
    rw [List.map_cons, List.nodup_cons]
    refine ⟨?_, ih htail⟩
    intro hmem
    obtain ⟨m', hm', hkey⟩ := List.mem_map.1 hmem
    obtain ⟨f, hf, hfm⟩ := exists_mem_of_forall₂ hes.flip hm'
    have hfkey := hfm.1
    rw [hkey] at hfkey
    exact hhead f hf (sameKey_of_normalizeKey he.1 hfkey)

/-- Nothing is refused about keys that have normal forms, no two of them the same. -/
theorem not_keysOffend_iff {es : List (PyKey × PyVal)} : ¬ KeysOffend R es ↔
    (∀ e ∈ es, ∃ t, normalizeKey R e.1 = .ok t) ∧ es.Pairwise fun e f => ¬ SameKey R e.1 f.1 := by
  refine ⟨?_, ?_⟩
  · intro h
    refine ⟨?_, not_not.1 fun hp => h (.collision hp)⟩
    rintro ⟨k, v⟩ he
    cases k with
    | other o => exact absurd (.notString he) h
    | str s =>
      refine exists_normalizeKey_iff.2 ⟨s, rfl, ?_⟩
      exact Bool.eq_false_iff.2 fun hs => h (.surrogate he hs)
  · rintro ⟨hkeys, hp⟩ h
    cases h with
    | notString he =>
      obtain ⟨s, hs, -⟩ := exists_normalizeKey_iff.1 (hkeys _ he)
      cases hs
    | surrogate he hs =>
      obtain ⟨s, heq, hs'⟩ := exists_normalizeKey_iff.1 (hkeys _ he)
      obtain rfl := PyKey.str.inj heq
      rw [hs'] at hs
      cases hs
    | collision h => exact h hp

/-- A dictionary is accepted when its keys and its values are. -/
theorem exists_normalize_dict {es : List (PyKey × PyVal)} :
    (∃ n, normalize R portable (.dict es) = .ok n) ↔
      ¬ KeysOffend R es ∧ ∀ e ∈ es, ∃ n, normalize R portable e.2 = .ok n := by
  rw [not_keysOffend_iff]
  refine ⟨?_, ?_⟩
  · intro h
    obtain ⟨n, hn⟩ := h
    obtain ⟨ms, hms, hnd, -⟩ := normalize_dict_eq_ok.1 hn
    refine ⟨⟨?_, ?_⟩, ?_⟩
    · intro e he
      obtain ⟨m, -, hm⟩ := exists_mem_of_forall₂ hms he
      exact ⟨_, hm.1⟩
    · exact pairwise_not_sameKey hms hnd
    · intro e he
      obtain ⟨m, -, hm⟩ := exists_mem_of_forall₂ hms he
      exact ⟨_, hm.2⟩
  · intro h
    obtain ⟨⟨hkeys, hp⟩, hvals⟩ := h
    obtain ⟨ms, hms⟩ : ∃ ms, List.Forall₂ (NormalEntry R portable) es ms := by
      refine exists_forall₂.1 fun e he => ?_
      obtain ⟨t, ht⟩ := hkeys e he
      obtain ⟨n, hn⟩ := hvals e he
      exact ⟨(t, n), ht, hn⟩
    exact ⟨_, normalize_dict_eq_ok.2 ⟨ms, hms, nodup_of_pairwise hms hp, rfl⟩⟩

/-- A list is accepted when its items are. -/
theorem exists_normalize_list {vs : List PyVal} : (∃ n, normalize R portable (.list vs) = .ok n) ↔
    ∀ v ∈ vs, ∃ n, normalize R portable v = .ok n := by
  simp only [normalize_list_eq_ok, exists_forall₂]
  exact ⟨fun ⟨_, ns, h, _⟩ => ⟨ns, h⟩, fun ⟨ns, h⟩ => ⟨_, ns, h, rfl⟩⟩

mutual

/-- **What the encoder accepts**: a value inside which nothing is refused. -/
theorem exists_normalize_iff : ∀ {v : PyVal},
    (∃ n, normalize R portable v = .ok n) ↔ ¬ Refused R portable v
  | .none => by
    rw [refused_leaf (fun x hx => by cases hx; rfl)]
    exact ⟨fun _ => nofun, fun _ => ⟨.null, by rw [normalize]⟩⟩
  | .bool b => by
    rw [refused_leaf (fun x hx => by cases hx; rfl)]
    exact ⟨fun _ => nofun, fun _ => ⟨.bool b, by rw [normalize]⟩⟩
  | .int i => by
    rw [refused_leaf (fun x hx => by cases hx; rfl), normalize]
    refine ⟨?_, ?_⟩
    · rintro ⟨n, hn⟩ h
      cases h with
      | integer hp hi =>
        rw [if_pos ⟨hp, hi⟩] at hn
        cases hn
    · intro h
      exact ⟨.int i, if_neg fun hi => h (.integer hi.1 hi.2)⟩
  | .float q => by
    rw [refused_leaf (fun x hx => by cases hx; rfl), normalize]
    exact ⟨fun ⟨_, h⟩ => (by cases h), fun h => (h .float).elim⟩
  | .str s => by
    rw [refused_leaf (fun x hx => by cases hx; rfl)]
    refine ⟨?_, ?_⟩
    · rintro ⟨n, hn⟩ h
      cases h with
      | surrogate hs =>
        rw [(normalize_str_eq_ok.1 hn).1] at hs
        cases hs
    · intro h
      exact ⟨_, normalize_str_eq_ok.2 ⟨Bool.eq_false_iff.2 fun hs => h (.surrogate hs), rfl⟩⟩
  | .bytes data => by
    rw [refused_leaf (fun x hx => by cases hx; rfl), normalize]
    refine ⟨?_, ?_⟩
    · rintro ⟨n, hn⟩ h
      cases h with
      | bytes hp =>
        rw [if_pos hp] at hn
        cases hn
    · intro h
      exact ⟨_, if_neg fun hp => h (.bytes hp)⟩
  | .list vs => by
    rw [exists_normalize_list, refused_list, exists_normalizeItems_iff]
    simp only [not_exists, not_and]
  | .tuple vs => by
    rw [normalize_tuple, exists_normalize_list, refused_tuple, exists_normalizeItems_iff]
    simp only [not_exists, not_and]
  | .dict es => by
    rw [exists_normalize_dict, refused_dict, exists_normalizeValues_iff, not_or]
    simp only [not_exists, not_and]
  | .dataclass fs => by
    simp only [normalize_dataclass]
    rw [exists_normalize_dict, refused_dataclass, refused_dict, exists_normalizeValues_iff, not_or]
    simp only [not_exists, not_and]
  | .other o => by
    rw [refused_leaf (fun x hx => by cases hx; rfl), normalize]
    refine ⟨fun ⟨_, h⟩ => ?_, fun h => (h .type).elim⟩
    split at h <;> cases h

/-- The items of a list, one by one. -/
theorem exists_normalizeItems_iff : ∀ {vs : List PyVal},
    (∀ v ∈ vs, ∃ n, normalize R portable v = .ok n) ↔ ∀ v ∈ vs, ¬ Refused R portable v
  | [] => by simp
  | v :: vs => by
    rw [List.forall_mem_cons, List.forall_mem_cons, exists_normalize_iff, exists_normalizeItems_iff]

/-- The values of a dictionary, one by one. -/
theorem exists_normalizeValues_iff : ∀ {es : List (PyKey × PyVal)},
    (∀ e ∈ es, ∃ n, normalize R portable e.2 = .ok n) ↔ ∀ e ∈ es, ¬ Refused R portable e.2
  | [] => by simp
  | (k, v) :: es => by
    rw [List.forall_mem_cons, List.forall_mem_cons, exists_normalize_iff,
      exists_normalizeValues_iff]

end

/-! ## The order of the entries -/

mutual

/-- The same value, up to the order of the entries of the dictionaries inside it. -/
def Reordered : PyVal → PyVal → Prop
  | .list vs, w => ∃ ws, w = .list ws ∧ ReorderedItems vs ws
  | .tuple vs, w => ∃ ws, w = .tuple ws ∧ ReorderedItems vs ws
  | .dict es, w => ∃ fs arranged, w = .dict fs ∧ fs.Perm arranged ∧ ReorderedEntries es arranged
  | .dataclass es, w => ∃ fs, w = .dataclass fs ∧ ReorderedEntries es fs
  | .none, w => w = .none
  | .bool b, w => w = .bool b
  | .int i, w => w = .int i
  | .float q, w => w = .float q
  | .str s, w => w = .str s
  | .bytes data, w => w = .bytes data
  | .other o, w => w = .other o

/-- `Reordered`, item by item. -/
def ReorderedItems : List PyVal → List PyVal → Prop
  | [], ws => ws = []
  | v :: vs, ws => ∃ w ws', ws = w :: ws' ∧ Reordered v w ∧ ReorderedItems vs ws'

/-- `Reordered`, entry by entry. -/
def ReorderedEntries : List (PyKey × PyVal) → List (PyKey × PyVal) → Prop
  | [], fs => fs = []
  | (k, v) :: es, fs => ∃ w fs', fs = (k, w) :: fs' ∧ Reordered v w ∧ ReorderedEntries es fs'

end

mutual

/-- Leaving every order as it is. -/
theorem Reordered.refl : ∀ v : PyVal, Reordered v v
  | .none | .bool _ | .int _ | .float _ | .str _ | .bytes _ | .other _ => rfl
  | .list vs => ⟨vs, rfl, ReorderedItems.refl vs⟩
  | .tuple vs => ⟨vs, rfl, ReorderedItems.refl vs⟩
  | .dict es => ⟨es, es, rfl, .refl es, ReorderedEntries.refl es⟩
  | .dataclass es => ⟨es, rfl, ReorderedEntries.refl es⟩

/-- The same for the items of a list. -/
theorem ReorderedItems.refl : ∀ vs : List PyVal, ReorderedItems vs vs
  | [] => rfl
  | v :: vs => ⟨v, vs, rfl, Reordered.refl v, ReorderedItems.refl vs⟩

/-- The same for the entries of a dictionary. -/
theorem ReorderedEntries.refl : ∀ es : List (PyKey × PyVal), ReorderedEntries es es
  | [] => rfl
  | (_, v) :: es => ⟨v, es, rfl, Reordered.refl v, ReorderedEntries.refl es⟩

end

/-- Values that are reordered entry by entry stand under the keys they stood under. -/
theorem keys_eq_of_reordered : ∀ {es fs : List (PyKey × PyVal)}, ReorderedEntries es fs →
    es.map Prod.fst = fs.map Prod.fst
  | [], _, rfl => rfl
  | (k, _) :: _, _, ⟨_, _, rfl, _, h⟩ => by
    rw [List.map_cons, List.map_cons, keys_eq_of_reordered h]

/-- What is refused about the keys is refused about them in any order, for other values under them,
too. -/
theorem keysOffend_iff_of_keys {es fs : List (PyKey × PyVal)}
    (h : (es.map Prod.fst).Perm (fs.map Prod.fst)) : KeysOffend R es ↔ KeysOffend R fs := by
  have hsymm : Std.Symm fun k k' : PyKey => ¬ SameKey R k k' := by
    refine ⟨fun k k' hk hk' => ?_⟩
    obtain ⟨s, t, hs, ht, hst⟩ := hk'
    exact hk ⟨t, s, ht, hs, hst.symm⟩
  have hpairwise (es : List (PyKey × PyVal)) : (es.Pairwise fun e f => ¬ SameKey R e.1 f.1) ↔
      (es.map Prod.fst).Pairwise fun k k' => ¬ SameKey R k k' := by
    rw [List.pairwise_map]
  have hkeys (es : List (PyKey × PyVal)) : (∀ e ∈ es, ∃ t, normalizeKey R e.1 = .ok t) ↔
      ∀ k ∈ es.map Prod.fst, ∃ t, normalizeKey R k = .ok t := by
    rw [List.forall_mem_map]
  rw [← not_iff_not, not_keysOffend_iff, not_keysOffend_iff, hpairwise, hpairwise, hkeys, hkeys,
    h.pairwise_iff (hsymm.symm _ _)]
  simp only [h.mem_iff]

mutual

/-- **Whether a value is refused does not depend on the order of its entries.** -/
theorem refused_iff_of_reordered : ∀ {v w : PyVal}, Reordered v w →
    (Refused R portable v ↔ Refused R portable w)
  | .list vs, _, ⟨ws, rfl, h⟩ => by
    rw [refused_list, refused_list, refusedItems_iff_of_reordered h]
  | .tuple vs, _, ⟨ws, rfl, h⟩ => by
    rw [refused_tuple, refused_tuple, refusedItems_iff_of_reordered h]
  | .dict es, _, ⟨fs, arranged, rfl, hp, h⟩ => by
    have hkeys : (es.map Prod.fst).Perm (fs.map Prod.fst) := by
      rw [keys_eq_of_reordered h]
      exact (hp.map Prod.fst).symm
    rw [refused_dict, refused_dict, keysOffend_iff_of_keys hkeys, refusedEntries_iff_of_reordered h]
    simp only [hp.mem_iff]
  | .dataclass es, _, ⟨fs, rfl, h⟩ => by
    have hkeys : (es.map Prod.fst).Perm (fs.map Prod.fst) := by rw [keys_eq_of_reordered h]
    rw [refused_dataclass, refused_dataclass, refused_dict, refused_dict,
      keysOffend_iff_of_keys hkeys, refusedEntries_iff_of_reordered h]
  | .none, _, rfl | .bool _, _, rfl | .int _, _, rfl | .float _, _, rfl | .str _, _, rfl
  | .bytes _, _, rfl | .other _, _, rfl => Iff.rfl

/-- Nor does it for one of the items of a list. -/
theorem refusedItems_iff_of_reordered : ∀ {vs ws : List PyVal}, ReorderedItems vs ws →
    ((∃ v ∈ vs, Refused R portable v) ↔ ∃ w ∈ ws, Refused R portable w)
  | [], _, rfl => Iff.rfl
  | v :: vs, _, ⟨w, ws, rfl, hv, hvs⟩ => by
    simp only [List.exists_mem_cons_iff, refused_iff_of_reordered hv,
      refusedItems_iff_of_reordered hvs]

/-- Nor for one of the values of a dictionary. -/
theorem refusedEntries_iff_of_reordered : ∀ {es fs : List (PyKey × PyVal)},
    ReorderedEntries es fs →
    ((∃ e ∈ es, Refused R portable e.2) ↔ ∃ f ∈ fs, Refused R portable f.2)
  | [], _, rfl => Iff.rfl
  | (k, v) :: es, _, ⟨w, fs, rfl, hv, hes⟩ => by
    simp only [List.exists_mem_cons_iff, refused_iff_of_reordered hv,
      refusedEntries_iff_of_reordered hes]

end

/-! ## Which error is raised -/

section
variable (R : Runtime)

/-- The walk over a value comes to something `asdict` raises on, with nothing refused before it. An
entry is preceded by the entries before it and by its own key. -/
inductive Stops (portable : Bool) : PyVal → Prop
  | classObject {o} (h : o.isDataclassType = true) : Stops portable (.other o)
  | copy {fs} (h : copyEntries fs ≠ .ok ()) : Stops portable (.dataclass fs)
  | list {before v after} (hbefore : ¬ Refused R portable (.list before)) (h : Stops portable v) :
      Stops portable (.list (before ++ v :: after))
  | tuple {before v after} (hbefore : ¬ Refused R portable (.list before)) (h : Stops portable v) :
      Stops portable (.tuple (before ++ v :: after))
  | dict {before k v after} (hbefore : ¬ Refused R portable (.dict (before ++ [(k, .none)])))
      (h : Stops portable v) : Stops portable (.dict (before ++ (k, v) :: after))
  | dataclass {before k v after} (hcopy : copyEntries (before ++ (k, v) :: after) = .ok ())
      (hbefore : ¬ Refused R portable (.dict (before ++ [(k, .none)]))) (h : Stops portable v) :
      Stops portable (.dataclass (before ++ (k, v) :: after))

end

/-- A `CanonicalizationError` or a `TypeError`. -/
def RefusalError : PyErr → Prop
  | .canonicalizationError _ | .typeError _ => True
  | _ => False

/-- A `TypeError`. -/
def IsTypeError : PyErr → Prop
  | .typeError _ => True
  | _ => False

mutual

/-- What `asdict` raises: a `TypeError` of `deepcopy`, for an object that cannot be copied. -/
theorem isTypeError_of_copyValue : ∀ {v : PyVal} {e : PyErr}, copyValue v = .error e → IsTypeError e
  | .list vs, _, h => isTypeError_of_copyItems h
  | .tuple vs, _, h => isTypeError_of_copyItems h
  | .dict es, _, h => isTypeError_of_copyEntries h
  | .dataclass es, _, h => isTypeError_of_copyEntries h
  | .other o, e, h => by
    obtain ⟨-, rfl⟩ := failIf_eq_error.1 h
    trivial
  | .none, _, h | .bool _, _, h | .int _, _, h | .float _, _, h | .str _, _, h
  | .bytes _, _, h => by
    cases h

/-- So it does for the items of a list. -/
theorem isTypeError_of_copyItems : ∀ {vs : List PyVal} {e : PyErr}, copyItems vs = .error e →
    IsTypeError e
  | [], _, h => by cases h
  | v :: vs, e, h => by
    rw [copyItems, bind_eq_error] at h
    rcases h with hv | ⟨-, -, hvs⟩
    · exact isTypeError_of_copyValue hv
    · exact isTypeError_of_copyItems hvs

/-- And for the entries of a dictionary, keys included. -/
theorem isTypeError_of_copyEntries : ∀ {es : List (PyKey × PyVal)} {e : PyErr},
    copyEntries es = .error e → IsTypeError e
  | [], _, h => by cases h
  | (k, v) :: es, e, h => by
    rw [copyEntries, bind_eq_error] at h
    rcases h with hk | ⟨-, -, h⟩
    · cases k with
      | str s => cases hk
      | other o =>
        obtain ⟨-, rfl⟩ := failIf_eq_error.1 hk
        trivial
    · rw [bind_eq_error] at h
      rcases h with hv | ⟨-, -, hes⟩
      · exact isTypeError_of_copyValue hv
      · exact isTypeError_of_copyEntries hes

end

/-- The walk over entries, one part after the other. -/
theorem normalizeEntries_append : ∀ (es fs : List (PyKey × PyVal))
    (out : List (List Char × Json)), normalizeEntries R portable (es ++ fs) out =
      normalizeEntries R portable es out >>= normalizeEntries R portable fs
  | [], fs, out => rfl
  | (k, v) :: es, fs, out => by
    simp only [List.cons_append, normalizeEntries, normalizeEntries_append es, bind_assoc]

/-- What the walk over a dictionary has collected when it comes to the value of an entry: the
members for the entries before it, without the entry's own key. -/
theorem exists_collected {before : List (PyKey × PyVal)} {k : PyKey}
    (h : ¬ Refused R portable (.dict (before ++ [(k, .none)]))) :
    ∃ out t, normalizeEntries R portable before [] = .ok out ∧ normalizeKey R k = .ok t ∧
      t ∉ out.map Prod.fst := by
  obtain ⟨n, hn⟩ := exists_normalize_iff.2 h
  rw [normalize, map_eq_ok] at hn
  obtain ⟨out', hout', -⟩ := hn
  rw [normalizeEntries_append, bind_eq_ok] at hout'
  obtain ⟨out, hout, hlast⟩ := hout'
  simp only [normalizeEntries, bind_eq_ok, failIf_eq_ok, exists_unit] at hlast
  obtain ⟨t, ht, hfresh, -⟩ := hlast
  exact ⟨out, t, hout, ht, hfresh⟩

/-- The walk over items, one part after the other. -/
theorem normalizeItems_append : ∀ (vs ws : List PyVal), normalizeItems R portable (vs ++ ws) =
    do let ns ← normalizeItems R portable vs
       let ms ← normalizeItems R portable ws
       .ok (ns ++ ms)
  | [], ws => by
    cases h : normalizeItems R portable ws with
    | error e => simp [normalizeItems, h]
    | ok ms => simp [normalizeItems, h]
  | v :: vs, ws => by
    simp only [List.cons_append, normalizeItems, normalizeItems_append vs, bind_assoc, ok_bind]

/-- Where the walk over items stops: the items before it are accepted, so the error is the
item's. -/
theorem normalizeItems_of_stops {before after : List PyVal} {v : PyVal} {e : PyErr}
    (hbefore : ¬ Refused R portable (.list before)) (h : normalize R portable v = .error e) :
    normalizeItems R portable (before ++ v :: after) = .error e := by
  obtain ⟨n, hn⟩ := exists_normalize_iff.2 hbefore
  rw [normalize, map_eq_ok] at hn
  obtain ⟨ns, hns, -⟩ := hn
  rw [normalizeItems_append, hns, ok_bind, normalizeItems, h]
  rfl

/-- Where the walk over entries stops: the entries before it and its own key are accepted, so the
error is the value's. -/
theorem normalizeEntries_of_stops {before after : List (PyKey × PyVal)} {k : PyKey} {v : PyVal}
    {e : PyErr} (hbefore : ¬ Refused R portable (.dict (before ++ [(k, .none)])))
    (h : normalize R portable v = .error e) :
    normalizeEntries R portable (before ++ (k, v) :: after) [] = .error e := by
  obtain ⟨out, t, hout, ht, hfresh⟩ := exists_collected hbefore
  rw [normalizeEntries_append, hout, ok_bind, normalizeEntries, ht, ok_bind, failIf, if_neg hfresh,
    ok_bind, h]
  rfl

/-- A walk that stops raises a `TypeError`, from however deep inside. -/
theorem typeError_of_stops {v : PyVal} (h : Stops R portable v) :
    ∃ e, normalize R portable v = .error e ∧ IsTypeError e := by
  induction h with
  | classObject h =>
    refine ⟨_, by rw [normalize, if_pos h], ?_⟩
    trivial
  | @copy fs h =>
    cases hcopy : copyEntries fs with
    | ok u => exact absurd hcopy h
    | error e =>
      refine ⟨e, ?_, isTypeError_of_copyEntries hcopy⟩
      rw [normalize, hcopy]
      rfl
  | list hbefore _ ih =>
    obtain ⟨e, hv, he⟩ := ih
    refine ⟨e, ?_, he⟩
    rw [normalize, normalizeItems_of_stops hbefore hv]
    rfl
  | tuple hbefore _ ih =>
    obtain ⟨e, hv, he⟩ := ih
    refine ⟨e, ?_, he⟩
    rw [normalize, normalizeItems_of_stops hbefore hv]
    rfl
  | dict hbefore _ ih =>
    obtain ⟨e, hv, he⟩ := ih
    refine ⟨e, ?_, he⟩
    rw [normalize, normalizeEntries_of_stops hbefore hv]
    rfl
  | dataclass hcopy hbefore _ ih =>
    obtain ⟨e, hv, he⟩ := ih
    refine ⟨e, ?_, he⟩
    rw [normalize, hcopy, ok_bind, normalizeEntries_of_stops hbefore hv]
    rfl

/-- What is raised for a string with a surrogate. -/
theorem canonErr_of_nfcText {m : String} {s : PyStr} {e : PyErr} (h : nfcText R m s = .error e) :
    e = canonErr m := by
  rw [nfcText] at h
  split at h
  · exact (Except.error.inj h).symm
  · cases h

/-- What is raised for a key: it is no string, or it holds a surrogate. -/
theorem canonErr_of_normalizeKey {k : PyKey} {e : PyErr} (h : normalizeKey R k = .error e) :
    ∃ m, e = canonErr m := by
  cases k with
  | other o => exact ⟨_, (Except.error.inj h).symm⟩
  | str s => exact ⟨_, canonErr_of_nfcText h⟩

mutual

/-- **A refusal raises `CanonicalizationError`, or the walk stops.** By induction on the value,
along the order in which the walk visits it. -/
theorem refusal : ∀ {v : PyVal} {e : PyErr}, normalize R portable v = .error e →
    RefusalError e ∧ (IsTypeError e → Stops R portable v)
  | .none, e, h | .bool _, e, h => by
    rw [normalize] at h
    cases h
  | .int i, e, h => by
    rw [normalize] at h
    split at h
    · obtain rfl := Except.error.inj h
      exact ⟨trivial, False.elim⟩
    · cases h
  | .float q, e, h => by
    rw [normalize] at h
    obtain rfl := Except.error.inj h
    exact ⟨trivial, False.elim⟩
  | .str s, e, h => by
    rw [normalize, map_eq_error] at h
    obtain rfl := canonErr_of_nfcText h
    exact ⟨trivial, False.elim⟩
  | .bytes data, e, h => by
    rw [normalize] at h
    split at h
    · obtain rfl := Except.error.inj h
      exact ⟨trivial, False.elim⟩
    · cases h
  | .list vs, e, h => by
    rw [normalize, map_eq_error] at h
    obtain ⟨herr, hstop⟩ := refusalItems h
    refine ⟨herr, fun he => ?_⟩
    obtain ⟨before, v, after, rfl, hbefore, hv⟩ := hstop he
    exact .list hbefore hv
  | .tuple vs, e, h => by
    rw [normalize, map_eq_error] at h
    obtain ⟨herr, hstop⟩ := refusalItems h
    refine ⟨herr, fun he => ?_⟩
    obtain ⟨before, v, after, rfl, hbefore, hv⟩ := hstop he
    exact .tuple hbefore hv
  | .dict es, e, h => by
    rw [normalize, map_eq_error] at h
    obtain ⟨herr, hstop⟩ := refusalEntries [] rfl h
    refine ⟨herr, fun he => ?_⟩
    obtain ⟨before, k, v, after, rfl, hbefore, hv⟩ := hstop he
    exact .dict hbefore hv
  | .dataclass fs, e, h => by
    rw [normalize, bind_eq_error] at h
    rcases h with hcopy | ⟨⟨⟩, hcopy, h⟩
    · have he := isTypeError_of_copyEntries hcopy
      have hstop : Stops R portable (.dataclass fs) := .copy (by rw [hcopy]; nofun)
      cases e <;> first | exact ⟨trivial, fun _ => hstop⟩ | exact he.elim
    · rw [map_eq_error] at h
      obtain ⟨herr, hstop⟩ := refusalEntries [] rfl h
      refine ⟨herr, fun he => ?_⟩
      obtain ⟨before, k, v, after, rfl, hbefore, hv⟩ := hstop he
      exact .dataclass hcopy hbefore hv
  | .other o, e, h => by
    rw [normalize] at h
    split at h
    case isTrue hclass =>
      obtain rfl := Except.error.inj h
      exact ⟨trivial, fun _ => .classObject hclass⟩
    case isFalse =>
      obtain rfl := Except.error.inj h
      exact ⟨trivial, False.elim⟩

/-- For the items of a list: those before the one that stops the walk are not refused. -/
theorem refusalItems : ∀ {vs : List PyVal} {e : PyErr}, normalizeItems R portable vs = .error e →
    RefusalError e ∧ (IsTypeError e → ∃ before v after, vs = before ++ v :: after ∧
      ¬ Refused R portable (.list before) ∧ Stops R portable v)
  | [], e, h => by
    rw [normalizeItems] at h
    cases h
  | v :: vs, e, h => by
    rw [normalizeItems, bind_eq_error] at h
    rcases h with hv | ⟨n, hn, h⟩
    · obtain ⟨herr, hstop⟩ := refusal hv
      refine ⟨herr, fun he => ⟨[], v, vs, rfl, ?_, hstop he⟩⟩
      rw [refused_list]
      simp
    · rw [bind_eq_error] at h
      rcases h with hvs | ⟨_, -, h⟩
      · obtain ⟨herr, hstop⟩ := refusalItems hvs
        refine ⟨herr, fun he => ?_⟩
        obtain ⟨before, w, after, rfl, hbefore, hw⟩ := hstop he
        refine ⟨v :: before, w, after, rfl, ?_, hw⟩
        rw [refused_list] at hbefore ⊢
        rw [List.exists_mem_cons_iff, not_or]
        exact ⟨exists_normalize_iff.1 ⟨n, hn⟩, hbefore⟩
      · cases h

/-- For the entries of a dictionary: `done` are the entries behind the walk, and what stops it comes
after entries and a key that are not refused. -/
theorem refusalEntries : ∀ {es : List (PyKey × PyVal)} (done : List (PyKey × PyVal))
    {out : List (List Char × Json)} {e : PyErr}, normalizeEntries R portable done [] = .ok out →
    normalizeEntries R portable es out = .error e →
    RefusalError e ∧ (IsTypeError e → ∃ before k v after, done ++ es = before ++ (k, v) :: after ∧
      ¬ Refused R portable (.dict (before ++ [(k, .none)])) ∧ Stops R portable v)
  | [], done, out, e, hdone, h => by
    rw [normalizeEntries] at h
    cases h
  | (k, v) :: es, done, out, e, hdone, h => by
    rw [normalizeEntries, bind_eq_error] at h
    rcases h with hk | ⟨t, ht, h⟩
    · obtain ⟨m, rfl⟩ := canonErr_of_normalizeKey hk
      exact ⟨trivial, False.elim⟩
    rw [bind_eq_error] at h
    rcases h with hcollision | ⟨⟨⟩, hfresh, h⟩
    · obtain ⟨-, rfl⟩ := failIf_eq_error.1 hcollision
      exact ⟨trivial, False.elim⟩
    have hnext (w : PyVal) (n : Json) (hw : normalize R portable w = .ok n) :
        normalizeEntries R portable (done ++ [(k, w)]) [] = .ok (out ++ [(t, n)]) := by
      rw [normalizeEntries_append, hdone, ok_bind, normalizeEntries, ht, ok_bind, hfresh, ok_bind,
        hw, ok_bind, normalizeEntries]
    rw [bind_eq_error] at h
    rcases h with hv | ⟨n, hn, h⟩
    · obtain ⟨herr, hstop⟩ := refusal hv
      refine ⟨herr, fun he => ⟨done, k, v, es, rfl, exists_normalize_iff.1 ?_, hstop he⟩⟩
      rw [normalize, hnext .none .null (by rw [normalize])]
      exact ⟨_, rfl⟩
    · obtain ⟨herr, hstop⟩ := refusalEntries (done ++ [(k, v)]) (hnext v n hn) h
      rw [List.append_assoc] at hstop
      exact ⟨herr, hstop⟩

end

/-! ## The promise of the two profiles -/

/-- The call raised a `CanonicalizationError`. -/
def RaisesCanonicalizationError {α : Type} (result : Except PyErr α) : Prop :=
  ∃ message, result = .error (.canonicalizationError message)

/-- What `_dump` raises is another `ValueError`. -/
theorem dump_ne_canonicalizationError {n : Json} {m : PyStr} :
    dump n ≠ .error (.canonicalizationError m) := by
  unfold dump
  split
  · exact fun h => by cases h
  · exact fun h => by cases h

/-- **Which refusals raise `CanonicalizationError`**: those of a walk that does not stop before it
comes to what is refused. -/
theorem raises_iff {v : PyVal} :
    RaisesCanonicalizationError (normalize R portable v >>= dump) ↔
      Refused R portable v ∧ ¬ Stops R portable v := by
  refine ⟨?_, ?_⟩
  · rintro ⟨m, hm⟩
    rcases bind_eq_error.1 hm with hm | ⟨n, -, hdump⟩
    case inr => exact absurd hdump dump_ne_canonicalizationError
    refine ⟨?_, fun hstops => ?_⟩
    · by_contra h
      obtain ⟨n, hn⟩ := exists_normalize_iff.2 h
      rw [hn] at hm
      cases hm
    · obtain ⟨e, he, htype⟩ := typeError_of_stops hstops
      obtain rfl := Except.error.inj (hm.symm.trans he)
      exact htype
  · rintro ⟨hrefused, hstops⟩
    cases hv : normalize R portable v with
    | ok n => exact absurd hrefused (exists_normalize_iff.1 ⟨n, hv⟩)
    | error e =>
      obtain ⟨herr, hstop⟩ := refusal hv
      cases e with
      | canonicalizationError m => exact ⟨m, rfl⟩
      | typeError m => exact absurd (hstop trivial) hstops
      | _ => exact herr.elim

/-- A walk stops at something refused: a class and an object that cannot be copied are of no JSON
type. -/
theorem Stops.refused {v : PyVal} (h : Stops R portable v) : Refused R portable v := by
  obtain ⟨e, he, -⟩ := typeError_of_stops h
  by_contra hrefused
  obtain ⟨n, hn⟩ := exists_normalize_iff.2 hrefused
  cases hn.symm.trans he

/-- What the profiles promise of a value: `CanonicalizationError` for exactly what is refused, with
one verdict for every order of the entries, and the same bytes where the portable profile
accepts. -/
structure PromisedDomain (R : Runtime) (v : PyVal) : Prop where
  portable : RaisesCanonicalizationError (portableCanonicalBytes R v) ↔ Refused R true v
  canonical : RaisesCanonicalizationError (canonicalBytes R v) ↔ Refused R false v
  portable_order : ∀ w, Reordered v w → (RaisesCanonicalizationError (portableCanonicalBytes R v) ↔
    RaisesCanonicalizationError (portableCanonicalBytes R w))
  canonical_order : ∀ w, Reordered v w → (RaisesCanonicalizationError (canonicalBytes R v) ↔
    RaisesCanonicalizationError (canonicalBytes R w))
  same_bytes : ∀ b, portableCanonicalBytes R v = .ok b → canonicalBytes R v = .ok b

/-- Where the promise is kept no walk stops: what it stops at is refused, and with another error. -/
theorem PromisedDomain.not_stops {v w : PyVal} (h : PromisedDomain R v) (hw : Reordered v w) :
    ¬ Stops R true w ∧ ¬ Stops R false w := by
  refine ⟨fun hstops => ?_, fun hstops => ?_⟩
  · have hrefused : Refused R true v := (refused_iff_of_reordered hw).2 hstops.refused
    have hraises := (h.portable_order w hw).1 (h.portable.2 hrefused)
    exact (raises_iff.1 hraises).2 hstops
  · have hrefused : Refused R false v := (refused_iff_of_reordered hw).2 hstops.refused
    have hraises := (h.canonical_order w hw).1 (h.canonical.2 hrefused)
    exact (raises_iff.1 hraises).2 hstops

/-- **When the promised domain is the actual one**: when in no order of the entries a walk comes to
something `asdict` raises on before it comes to anything else that is refused. -/
theorem promisedDomain_iff {v : PyVal} :
    PromisedDomain R v ↔ ∀ w, Reordered v w → ¬ Stops R true w ∧ ¬ Stops R false w := by
  refine ⟨?_, ?_⟩
  · intro h w hw
    exact h.not_stops hw
  · intro h
    have hportable (w : PyVal) (hw : Reordered v w) :
        RaisesCanonicalizationError (portableCanonicalBytes R w) ↔ Refused R true v := by
      rw [show portableCanonicalBytes R w = normalize R true w >>= dump from rfl, raises_iff,
        ← refused_iff_of_reordered hw]
      exact and_iff_left (h w hw).1
    have hcanonical (w : PyVal) (hw : Reordered v w) :
        RaisesCanonicalizationError (canonicalBytes R w) ↔ Refused R false v := by
      rw [show canonicalBytes R w = normalize R false w >>= dump from rfl, raises_iff,
        ← refused_iff_of_reordered hw]
      exact and_iff_left (h w hw).2
    have hrefl := Reordered.refl v
    exact
      { portable := hportable v hrefl
        canonical := hcanonical v hrefl
        portable_order := fun w hw => (hportable v hrefl).trans (hportable w hw).symm
        canonical_order := fun w hw => (hcanonical v hrefl).trans (hcanonical w hw).symm
        same_bytes := fun b => canonicalBytes_of_portable }

/-- A class whose instances are dataclasses, such as `Capability`. -/
def dataclassType : PyVal := .other ⟨py "type", true, true⟩

/-- **A class is refused with the wrong error**: `is_dataclass` takes it for an instance. -/
theorem class_raises_typeError :
    portableCanonicalBytes sampleRuntime dataclassType =
      .error (.typeError (py "asdict() should be called on dataclass instances")) ∧
    Refused sampleRuntime true dataclassType ∧ ¬ PromisedDomain sampleRuntime dataclassType := by
  have hstops : Stops sampleRuntime true dataclassType := .classObject rfl
  refine ⟨rfl, hstops.refused, fun h => ?_⟩
  exact (h.not_stops (.refl _)).1 hstops

end Finality
