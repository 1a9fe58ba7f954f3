import Finality.Lib.Pointwise
import Finality.Canonical.Normalize

/-!
# Canonical equality

Two values are canonically equal (`Eqv`) when they have one normal form and it can be written, and
then, and only then, they have the same canonical bytes; under an injective SHA-256 they have the
same digest exactly then. `Canon` says that a value has canonical bytes at all.

The artefacts the code hashes and signs are dictionaries with fixed ASCII keys. For those canonical
equality is canonical equality of the values under each key, and two with different keys are never
canonically equal.
-/

namespace Finality

open JsonText KeyOrder Checks

variable {R : Runtime} {portable : Bool}

/-- `n` is the normal form of the value in the local profile, and can be written. -/
def Normal (R : Runtime) (v : PyVal) (n : Json) : Prop :=
  normalize R false v = .ok n ∧ prints n = true

/-- The value has a normal form in the local profile that can be written. -/
def Canon (R : Runtime) (v : PyVal) : Prop := ∃ n, Normal R v n

/-- The values have one normal form in the local profile, and it can be written. -/
def Eqv (R : Runtime) (v w : PyVal) : Prop := ∃ n, Normal R v n ∧ Normal R w n

/-- The strings have one NFC form. -/
def NfcEq (R : Runtime) (s t : PyStr) : Prop :=
  hasSurrogate s = false ∧ hasSurrogate t = false ∧ R.nfc (toText s) = R.nfc (toText t)

/-- Having the same canonical bytes is symmetric. -/
theorem Eqv.symm {v w : PyVal} : Eqv R v w → Eqv R w v :=
  fun ⟨n, hv, hw⟩ => ⟨n, hw, hv⟩

/-- It is transitive: a value has one normal form. -/
theorem Eqv.trans {u v w : PyVal} : Eqv R u v → Eqv R v w → Eqv R u w := by
  rintro ⟨n, hu, hv⟩ ⟨m, hv', hw⟩
  exact ⟨n, hu, Except.ok.inj (hv'.1.symm.trans hv.1) ▸ hw⟩

/-- What has the canonical bytes of something has canonical bytes. -/
theorem Eqv.canon {v w : PyVal} : Eqv R v w → Canon R v := fun ⟨n, hv, _⟩ => ⟨n, hv⟩

/-- It is reflexive on the values that have canonical bytes. -/
theorem Canon.eqv {v : PyVal} : Canon R v → Eqv R v v := fun ⟨n, hv⟩ => ⟨n, hv, hv⟩

/-- A string without surrogates is itself in NFC. -/
theorem NfcEq.rfl {s : PyStr} (h : hasSurrogate s = false) : NfcEq R s s := ⟨h, h, Eq.refl _⟩

/-- Being one string in NFC is symmetric. -/
theorem NfcEq.symm {s t : PyStr} : NfcEq R s t → NfcEq R t s := fun ⟨hs, ht, h⟩ => ⟨ht, hs, h.symm⟩

/-- It is transitive. -/
theorem NfcEq.trans {s t u : PyStr} : NfcEq R s t → NfcEq R t u → NfcEq R s u :=
  fun ⟨hs, _, h⟩ ⟨_, hu, h'⟩ => ⟨hs, hu, h.trans h'⟩

/-! ## Bytes and digests -/

/-- The values that have canonical bytes are those the encoder returns for: they can be normalised,
and their integers print. -/
theorem canon_iff_canonicalBytes {v : PyVal} : Canon R v ↔ ∃ b, canonicalBytes R v = .ok b := by
  simp only [Canon, Normal, canonicalBytes_eq_ok]
  exact ⟨fun ⟨n, h, hp⟩ => ⟨_, n, h, hp, rfl⟩, fun ⟨_, n, h, hp, _⟩ => ⟨n, h, hp⟩⟩

/-- Canonically equal values have the same canonical bytes. -/
theorem Eqv.canonicalBytes_eq {v w : PyVal} (h : Eqv R v w) :
    canonicalBytes R v = canonicalBytes R w := by
  obtain ⟨n, hv, hw⟩ := h
  rw [canonicalBytes, canonicalBytes, hv.1, hw.1]

/-- They have one digest, too. -/
theorem Eqv.sha256Hex_eq {v w : PyVal} (h : Eqv R v w) : sha256Hex R v = sha256Hex R w := by
  rw [sha256Hex, sha256Hex, h.canonicalBytes_eq]

/-- Values with the same canonical bytes are canonically equal. -/
theorem eqv_of_canonicalBytes {v w : PyVal} {b : List UInt8} (hv : canonicalBytes R v = .ok b)
    (hw : canonicalBytes R w = .ok b) : Eqv R v w := by
  obtain ⟨n, hn, hp, hb⟩ := canonicalBytes_eq_ok.1 hv
  obtain ⟨m, hm, -, hb'⟩ := canonicalBytes_eq_ok.1 hw
  obtain rfl : n = m :=
    documentBytes_injOn (keysSorted_normalize v hn) (keysSorted_normalize w hm) (hb.trans hb'.symm)
  exact ⟨n, ⟨hn, hp⟩, hm, hp⟩

/-- Only what has canonical bytes is hashed. -/
theorem canon_of_sha256Hex {v : PyVal} {d : PyStr} (h : sha256Hex R v = .ok d) : Canon R v := by
  rw [sha256Hex, map_eq_ok] at h
  obtain ⟨b, hb, -⟩ := h
  exact canon_iff_canonicalBytes.2 ⟨b, hb⟩

/-- All of it is. -/
theorem Canon.sha256Hex {v : PyVal} (h : Canon R v) : ∃ d, sha256Hex R v = .ok d := by
  obtain ⟨b, hb⟩ := canon_iff_canonicalBytes.1 h
  exact ⟨_, map_eq_ok.2 ⟨b, hb, rfl⟩⟩

/-- `sha256` tells canonical byte strings apart. -/
def ShaInjective (R : Runtime) : Prop :=
  Set.InjOn R.sha256 {b | ∃ v, canonicalBytes R v = .ok b}

/-- **Digests bind normal forms**: values with one digest are canonically equal. -/
theorem eqv_of_sha256Hex (hsha : ShaInjective R) {v w : PyVal} {d : PyStr}
    (hv : sha256Hex R v = .ok d) (hw : sha256Hex R w = .ok d) : Eqv R v w := by
  rw [sha256Hex, map_eq_ok] at hv hw
  obtain ⟨b, hb, rfl⟩ := hv
  obtain ⟨b', hb', hd⟩ := hw
  obtain rfl : b' = b := hsha ⟨w, hb'⟩ ⟨v, hb⟩ (ofText_injective hd)
  exact eqv_of_canonicalBytes hb hb'

/-! ## Scalars and sequences -/

/-- `None` is written as `null`. -/
theorem normal_none {n : Json} : Normal R .none n ↔ n = .null := by
  simp only [Normal, normalize, Except.ok.injEq]
  refine ⟨?_, ?_⟩
  · rintro ⟨rfl, -⟩
    rfl
  · rintro rfl
    exact ⟨rfl, rfl⟩

@[simp] theorem canon_none : Canon R .none := ⟨.null, normal_none.2 rfl⟩

/-- A truth value is written as itself. -/
theorem normal_bool {b : Bool} {n : Json} : Normal R (.bool b) n ↔ n = .bool b := by
  simp only [Normal, normalize, Except.ok.injEq]
  refine ⟨?_, ?_⟩
  · rintro ⟨rfl, -⟩
    rfl
  · rintro rfl
    exact ⟨rfl, rfl⟩

@[simp] theorem canon_bool (b : Bool) : Canon R (.bool b) := ⟨.bool b, normal_bool.2 rfl⟩

/-- An integer is written as itself, if its digits can be printed. -/
theorem normal_int {i : Int} {n : Json} :
    Normal R (.int i) n ↔ printsInt i = true ∧ n = .int i := by
  simp only [Normal, normalize, Bool.false_eq_true, false_and, if_false, Except.ok.injEq]
  refine ⟨?_, ?_⟩
  · rintro ⟨rfl, hp⟩
    exact ⟨hp, rfl⟩
  · rintro ⟨hp, rfl⟩
    exact ⟨rfl, hp⟩

@[simp] theorem canon_int {i : Int} : Canon R (.int i) ↔ printsInt i = true := by
  simp [Canon, normal_int]

/-- A string without surrogates is normalised to its NFC form. -/
theorem normalize_str_eq_ok {s : PyStr} {n : Json} :
    normalize R portable (.str s) = .ok n ↔
      hasSurrogate s = false ∧ n = .str (R.nfc (toText s)) := by
  rw [normalize, map_eq_ok]
  simp only [nfcText_eq_ok, and_assoc, exists_and_left, exists_eq_left', @eq_comm _ n]

/-- And written in it. -/
theorem normal_str {s : PyStr} {n : Json} :
    Normal R (.str s) n ↔ hasSurrogate s = false ∧ n = .str (R.nfc (toText s)) := by
  rw [Normal, normalize_str_eq_ok]
  refine ⟨?_, ?_⟩
  · rintro ⟨h, -⟩
    exact h
  · rintro ⟨hs, rfl⟩
    exact ⟨⟨hs, rfl⟩, rfl⟩

/-- A string has canonical bytes when it has no surrogate. -/
@[simp] theorem canon_str {s : PyStr} : Canon R (.str s) ↔ hasSurrogate s = false := by
  simp [Canon, normal_str]

/-- Strings have the same canonical bytes when they are one in NFC. -/
@[simp] theorem eqv_str {s t : PyStr} : Eqv R (.str s) (.str t) ↔ NfcEq R s t := by
  simp only [Eqv, normal_str]
  refine ⟨?_, ?_⟩
  · rintro ⟨n, ⟨hs, rfl⟩, ht, h⟩
    exact ⟨hs, ht, Json.str.inj h⟩
  · rintro ⟨hs, ht, h⟩
    exact ⟨_, ⟨hs, rfl⟩, ht, by rw [h]⟩

/-- Integers have the same canonical bytes when they are equal and can be printed. -/
@[simp] theorem eqv_int {i j : Int} :
    Eqv R (.int i) (.int j) ↔ i = j ∧ printsInt i = true := by
  simp only [Eqv, normal_int]
  refine ⟨?_, ?_⟩
  · rintro ⟨n, ⟨hp, rfl⟩, -, h⟩
    exact ⟨Json.int.inj h, hp⟩
  · rintro ⟨rfl, hp⟩
    exact ⟨_, ⟨hp, rfl⟩, hp, rfl⟩

/-- A tuple is normalised as the list of its items. -/
theorem normalize_tuple (vs : List PyVal) :
    normalize R portable (.tuple vs) = normalize R portable (.list vs) := by
  rw [normalize, normalize]

/-- A list is normalised item by item. -/
theorem normalize_list_eq_ok {vs : List PyVal} {n : Json} :
    normalize R portable (.list vs) = .ok n ↔
      ∃ ns, List.Forall₂ (fun v n => normalize R portable v = .ok n) vs ns ∧ n = .arr ns := by
  rw [normalize, map_eq_ok]
  simp only [normalizeItems_eq_ok, @eq_comm _ n]

/-- Items that can be written make a list that can be, and conversely. -/
theorem normal_list {vs : List PyVal} {n : Json} :
    Normal R (.list vs) n ↔ ∃ ns, List.Forall₂ (Normal R) vs ns ∧ n = .arr ns := by
  have hitems : ∀ ns, List.Forall₂ (Normal R) vs ns ↔
      List.Forall₂ (fun v n => normalize R false v = .ok n) vs ns ∧ ∀ n ∈ ns, prints n = true :=
    fun _ => Pointwise.and_right
  simp only [Normal, normalize_list_eq_ok] at hitems ⊢
  simp only [hitems]
  refine ⟨?_, ?_⟩
  · rintro ⟨⟨ns, hns, rfl⟩, hp⟩
    exact ⟨ns, ⟨hns, printsItems_iff.1 hp⟩, rfl⟩
  · rintro ⟨ns, ⟨hns, hp⟩, rfl⟩
    exact ⟨⟨ns, hns, rfl⟩, printsItems_iff.2 hp⟩

/-- A tuple is written as the list of its items. -/
theorem normal_tuple {vs : List PyVal} {n : Json} :
    Normal R (.tuple vs) n ↔ Normal R (.list vs) n := by
  rw [Normal, normalize_tuple, Normal]

/-- Values related to one list of normal forms are canonically equal one by one. -/
theorem forall₂_eqv_of_forall₂ : ∀ {vs ws : List PyVal} {ns : List Json},
    List.Forall₂ (Normal R) vs ns → List.Forall₂ (Normal R) ws ns → List.Forall₂ (Eqv R) vs ws
  | _, _, _, .nil, .nil => .nil
  | _, _, _, .cons hv hvs, .cons hw hws => .cons ⟨_, hv, hw⟩ (forall₂_eqv_of_forall₂ hvs hws)

/-- Items that have the same canonical bytes one by one have common normal forms. -/
theorem exists_forall₂_of_eqv : ∀ {vs ws : List PyVal}, List.Forall₂ (Eqv R) vs ws →
    ∃ ns, List.Forall₂ (Normal R) vs ns ∧ List.Forall₂ (Normal R) ws ns
  | _, _, .nil => ⟨[], .nil, .nil⟩
  | _, _, .cons ⟨n, hv, hw⟩ h =>
    have ⟨ns, hvs, hws⟩ := exists_forall₂_of_eqv h
    ⟨n :: ns, .cons hv hvs, .cons hw hws⟩

/-- Lists are canonically equal when their items are, one by one. -/
@[simp] theorem eqv_list {vs ws : List PyVal} :
    Eqv R (.list vs) (.list ws) ↔ List.Forall₂ (Eqv R) vs ws := by
  simp only [Eqv, normal_list]
  refine ⟨?_, ?_⟩
  · rintro ⟨n, ⟨ns, hvs, rfl⟩, ms, hws, h⟩
    obtain rfl : ns = ms := Json.arr.inj h
    exact forall₂_eqv_of_forall₂ hvs hws
  · intro h
    obtain ⟨ns, hvs, hws⟩ := exists_forall₂_of_eqv h
    exact ⟨.arr ns, ⟨ns, hvs, rfl⟩, ns, hws, rfl⟩

@[simp] theorem eqv_tuple_left {vs : List PyVal} {w : PyVal} :
    Eqv R (.tuple vs) w ↔ Eqv R (.list vs) w := by
  simp only [Eqv, normal_tuple]

@[simp] theorem eqv_tuple_right {v : PyVal} {ws : List PyVal} :
    Eqv R v (.tuple ws) ↔ Eqv R v (.list ws) := by
  simp only [Eqv, normal_tuple]

/-- Values that are each related to something are related to a list one by one. -/
theorem exists_forall₂ {α β : Type} {r : α → β → Prop} : ∀ {as : List α},
    (∀ a ∈ as, ∃ b, r a b) ↔ ∃ bs, List.Forall₂ r as bs
  | [] => by simp
  | a :: as => by
    simp only [List.forall_mem_cons, exists_forall₂, List.forall₂_cons_left_iff]
    refine ⟨?_, ?_⟩
    · intro h
      obtain ⟨⟨b, hb⟩, bs, hbs⟩ := h
      exact ⟨b :: bs, b, bs, hb, hbs, rfl⟩
    · intro h
      obtain ⟨_, b, bs, hb, hbs, rfl⟩ := h
      exact ⟨⟨b, hb⟩, bs, hbs⟩

/-- A list has canonical bytes when its items have. -/
@[simp] theorem canon_list {vs : List PyVal} : Canon R (.list vs) ↔ ∀ v ∈ vs, Canon R v := by
  simp only [Canon, normal_list, exists_forall₂]
  exact ⟨fun ⟨_, ns, h, _⟩ => ⟨ns, h⟩, fun ⟨ns, h⟩ => ⟨_, ns, h, rfl⟩⟩

@[simp] theorem canon_tuple {vs : List PyVal} : Canon R (.tuple vs) ↔ ∀ v ∈ vs, Canon R v := by
  simp only [Canon, normal_tuple, normal_list, exists_forall₂]
  exact ⟨fun ⟨_, ns, h, _⟩ => ⟨ns, h⟩, fun ⟨ns, h⟩ => ⟨_, ns, h, rfl⟩⟩

/-- Lists of strings are canonically equal when the strings have the same NFC forms. -/
@[simp] theorem forall₂_eqv_strs {ss ts : List PyStr} :
    List.Forall₂ (Eqv R) (strs ss) (strs ts) ↔ List.Forall₂ (NfcEq R) ss ts := by
  simp [strs, List.forall₂_map_left_iff, List.forall₂_map_right_iff]

/-! ## Dictionaries -/

/-- Everything related one by one to a list has its relatum there. -/
theorem exists_mem_of_forall₂ {α β : Type} {r : α → β → Prop} {as : List α} {bs : List β}
    (h : List.Forall₂ r as bs) {a : α} (ha : a ∈ as) : ∃ b ∈ bs, r a b := by
  induction h with
  | nil => simp at ha
  | cons hab _ ih =>
    rcases List.mem_cons.1 ha with rfl | ha
    · exact ⟨_, by simp, hab⟩
    · obtain ⟨b, hb, hr⟩ := ih ha
      exact ⟨b, by simp [hb], hr⟩

/-- An entry and its normal form, which can be written. -/
def WrittenEntry (R : Runtime) (e : PyKey × PyVal) (m : List Char × Json) : Prop :=
  normalizeKey R e.1 = .ok m.1 ∧ Normal R e.2 m.2

/-- Entries are written when they can be normalised and what comes out can be printed. -/
theorem forall₂_writtenEntry {es : List (PyKey × PyVal)} {ms : List (List Char × Json)} :
    List.Forall₂ (WrittenEntry R) es ms ↔
      List.Forall₂ (NormalEntry R false) es ms ∧ ∀ m ∈ ms, prints m.2 = true := by
  have hentry : WrittenEntry R = fun e m => NormalEntry R false e m ∧ prints m.2 = true := by
    funext e m
    simp only [WrittenEntry, Normal, NormalEntry, and_assoc]
  rw [hentry, Pointwise.and_right]

/-- **The written form of a dictionary**: the written forms of its entries in key order. -/
theorem normal_dict {es : List (PyKey × PyVal)} {n : Json} :
    Normal R (.dict es) n ↔ ∃ ms, List.Forall₂ (WrittenEntry R) es ms ∧
      (ms.map Prod.fst).Nodup ∧ n = .obj (sortByKey ms) := by
  simp only [Normal, normalize_dict_eq_ok, forall₂_writtenEntry]
  refine ⟨?_, ?_⟩
  · rintro ⟨⟨ms, hms, hnd, rfl⟩, hp⟩
    exact ⟨ms, ⟨hms, fun m hm => printsMembers_iff.1 hp m (mem_sortByKey.2 hm)⟩, hnd, rfl⟩
  · rintro ⟨ms, ⟨hms, hp⟩, hnd, rfl⟩
    exact ⟨⟨ms, hms, hnd, rfl⟩, printsMembers_iff.2 fun m hm => hp m (mem_sortByKey.1 hm)⟩

/-- An instance of a dataclass is written as the dictionary of its fields. -/
theorem normal_dataclass {fs : List (PyKey × PyVal)} {n : Json} :
    Normal R (.dataclass fs) n ↔ Normal R (.dict fs) n := by
  rw [Normal, normalize_dataclass, Normal]

/-- Canonically equal dictionaries have, for every entry of one, an entry of the other with the
same normalised key and a canonically equal value. -/
theorem entry_of_eqv {es es' : List (PyKey × PyVal)} (h : Eqv R (.dict es) (.dict es'))
    {e : PyKey × PyVal} (he : e ∈ es) :
    ∃ e' ∈ es', (∃ k, normalizeKey R e.1 = .ok k ∧ normalizeKey R e'.1 = .ok k) ∧
      Eqv R e.2 e'.2 := by
  obtain ⟨n, hn, hn'⟩ := h
  obtain ⟨ms, hms, -, rfl⟩ := normal_dict.1 hn
  obtain ⟨ms', hms', -, hobj⟩ := normal_dict.1 hn'
  have hp : ms.Perm ms' := perm_of_sortByKey_eq (Json.obj.inj hobj)
  obtain ⟨m, hm, hem⟩ := exists_mem_of_forall₂ hms he
  obtain ⟨e', he', hem'⟩ := exists_mem_of_forall₂ hms'.flip (hp.mem_iff.1 hm)
  exact ⟨e', he', ⟨m.1, hem.1, hem'.1⟩, m.2, hem.2, hem'.2⟩

/-- Entries under the same keys are written under the same keys. -/
theorem keys_eq_of_forall₂ {es es' : List (PyKey × PyVal)} {ms ms' : List (List Char × Json)}
    (h : List.Forall₂ (WrittenEntry R) es ms)
    (h' : List.Forall₂ (WrittenEntry R) es' ms')
    (hk : es.map Prod.fst = es'.map Prod.fst) : ms.map Prod.fst = ms'.map Prod.fst := by
  induction h generalizing es' ms' with
  | nil =>
    obtain rfl : es' = [] := List.map_eq_nil_iff.1 hk.symm
    cases h'
    rfl
  | cons he _ ih =>
    cases h' with
    | nil => simp at hk
    | cons he' hes' =>
      simp only [List.map_cons, List.cons.injEq] at hk ⊢
      exact ⟨Except.ok.inj (he.1.symm.trans (hk.1 ▸ he'.1)), ih hes' hk.2⟩

/-- The values of entries related to one list of normal entries. -/
theorem forall₂_values : ∀ {es es' : List (PyKey × PyVal)} {ms : List (List Char × Json)},
    List.Forall₂ (WrittenEntry R) es ms → List.Forall₂ (WrittenEntry R) es' ms →
    List.Forall₂ (Eqv R) (es.map Prod.snd) (es'.map Prod.snd)
  | _, _, _, .nil, .nil => .nil
  | _, _, _, .cons he hes, .cons he' hes' => .cons ⟨_, he.2, he'.2⟩ (forall₂_values hes hes')

/-- Entries under the keys of normal entries, with canonically equal values, have the same normal
entries. -/
theorem forall₂_of_values {es es' : List (PyKey × PyVal)} {ms : List (List Char × Json)}
    (h : List.Forall₂ (WrittenEntry R) es ms) (hk : es.map Prod.fst = es'.map Prod.fst)
    (hv : List.Forall₂ (Eqv R) (es.map Prod.snd) (es'.map Prod.snd)) :
    List.Forall₂ (WrittenEntry R) es' ms := by
  induction h generalizing es' with
  | nil =>
    obtain rfl : es' = [] := List.map_eq_nil_iff.1 hk.symm
    exact .nil
  | cons he _ ih =>
    cases es' with
    | nil => simp at hk
    | cons e' es' =>
      simp only [List.map_cons, List.cons.injEq] at hk
      simp only [List.map_cons, List.forall₂_cons] at hv
      obtain ⟨n, hn, hn'⟩ := hv.1
      refine .cons ⟨hk.1 ▸ he.1, ?_⟩ (ih hk.2 hv.2)
      rw [← Except.ok.inj (hn.1.symm.trans he.2.1)]
      exact hn'

/-- **Dictionaries with the same keys** are canonically equal when the values are, key by key. -/
theorem eqv_dict_iff {es es' : List (PyKey × PyVal)} (hk : es.map Prod.fst = es'.map Prod.fst) :
    Eqv R (.dict es) (.dict es') ↔
      Canon R (.dict es) ∧ List.Forall₂ (Eqv R) (es.map Prod.snd) (es'.map Prod.snd) := by
  refine ⟨?_, ?_⟩
  · intro h
    refine ⟨h.canon, ?_⟩
    obtain ⟨n, hn, hn'⟩ := h
    obtain ⟨ms, hms, hnd, rfl⟩ := normal_dict.1 hn
    obtain ⟨ms', hms', -, hobj⟩ := normal_dict.1 hn'
    obtain rfl : ms = ms' := eq_of_perm_of_keys_eq (perm_of_sortByKey_eq (Json.obj.inj hobj))
      (keys_eq_of_forall₂ hms hms' hk) hnd
    exact forall₂_values hms hms'
  · rintro ⟨⟨n, hn⟩, hv⟩
    obtain ⟨ms, hms, hnd, rfl⟩ := normal_dict.1 hn
    exact ⟨_, hn, normal_dict.2 ⟨ms, forall₂_of_values hms hk hv, hnd, rfl⟩⟩

@[simp] theorem eqv_dataclass_left {fs : List (PyKey × PyVal)} {w : PyVal} :
    Eqv R (.dataclass fs) w ↔ Eqv R (.dict fs) w := by
  simp only [Eqv, normal_dataclass]

@[simp] theorem eqv_dataclass_right {v : PyVal} {fs : List (PyKey × PyVal)} :
    Eqv R v (.dataclass fs) ↔ Eqv R v (.dict fs) := by
  simp only [Eqv, normal_dataclass]

@[simp] theorem canon_dataclass {fs : List (PyKey × PyVal)} :
    Canon R (.dataclass fs) ↔ Canon R (.dict fs) := by
  simp only [Canon, normal_dataclass]

/-! ## Artefacts with fixed ASCII keys -/

/-- The key is spelled in ASCII, so its NFC form is the key itself. -/
def IsAscii (k : String) : Prop := ∀ c ∈ k.toList, c.toNat < 128

instance (k : String) : Decidable (IsAscii k) :=
  decidable_of_iff (k.toList.all fun c => c.toNat < 128) (by simp [IsAscii])

/-- An ASCII name is its own normal form. -/
theorem normalizeKey_py {k : String} (hk : IsAscii k) :
    normalizeKey R (.str (py k)) = .ok k.toList := by
  rw [normalizeKey, nfcText_eq_ok]
  exact ⟨by simp [py], by rw [py, toText_ofText, R.nfc_ascii _ hk]⟩

/-- The keys of the entries made from named fields. -/
theorem map_fst_ofEntries (es : List (String × PyVal)) :
    (es.map fun e => ((.str (py e.1), e.2) : PyKey × PyVal)).map Prod.fst =
      (es.map Prod.fst).map fun k => PyKey.str (py k) := by
  simp

/-- Their values. -/
theorem map_snd_ofEntries (es : List (String × PyVal)) :
    (es.map fun e => ((.str (py e.1), e.2) : PyKey × PyVal)).map Prod.snd = es.map Prod.snd := by
  simp

/-- Artefacts with the same keys are canonically equal when their values are, key by key. -/
theorem eqv_ofEntries_iff {es es' : List (String × PyVal)}
    (hk : es.map Prod.fst = es'.map Prod.fst) :
    Eqv R (.ofEntries es) (.ofEntries es') ↔
      Canon R (.ofEntries es) ∧ List.Forall₂ (Eqv R) (es.map Prod.snd) (es'.map Prod.snd) := by
  rw [PyVal.ofEntries, PyVal.ofEntries,
    eqv_dict_iff (by rw [map_fst_ofEntries, map_fst_ofEntries, hk]), map_snd_ofEntries,
    map_snd_ofEntries]

/-- The fields of canonically equal artefacts, one by one. -/
theorem Eqv.values {es es' : List (String × PyVal)} (h : Eqv R (.ofEntries es) (.ofEntries es'))
    (hk : es.map Prod.fst = es'.map Prod.fst) :
    List.Forall₂ (Eqv R) (es.map Prod.snd) (es'.map Prod.snd) :=
  ((eqv_ofEntries_iff hk).1 h).2

@[simp] theorem eqv_ofFields_left {es : List (String × PyVal)} {w : PyVal} :
    Eqv R (.ofFields es) w ↔ Eqv R (.ofEntries es) w := by
  rw [PyVal.ofFields, eqv_dataclass_left, PyVal.ofEntries]

@[simp] theorem eqv_ofFields_right {v : PyVal} {es : List (String × PyVal)} :
    Eqv R v (.ofFields es) ↔ Eqv R v (.ofEntries es) := by
  rw [PyVal.ofFields, eqv_dataclass_right, PyVal.ofEntries]

@[simp] theorem canon_ofFields {es : List (String × PyVal)} :
    Canon R (.ofFields es) ↔ Canon R (.ofEntries es) := by
  rw [PyVal.ofFields, canon_dataclass, PyVal.ofEntries]

/-- The keys are distinct and spelled in ASCII. -/
def GoodKeys (ks : List String) : Prop := ks.Nodup ∧ ∀ k ∈ ks, IsAscii k

instance (ks : List String) : Decidable (GoodKeys ks) := inferInstanceAs (Decidable (_ ∧ _))

/-- **Domain separation**: canonically equal artefacts have the same keys. -/
theorem keys_subset_of_eqv {es es' : List (String × PyVal)}
    (h : Eqv R (.ofEntries es) (.ofEntries es')) (hk : ∀ k ∈ es.map Prod.fst, IsAscii k)
    (hk' : ∀ k ∈ es'.map Prod.fst, IsAscii k) : es.map Prod.fst ⊆ es'.map Prod.fst := by
  intro k hmem
  obtain ⟨e, he, rfl⟩ := List.mem_map.1 hmem
  obtain ⟨e', he', ⟨n, hn, hn'⟩, -⟩ := entry_of_eqv h (List.mem_map_of_mem he)
  obtain ⟨f, hf, rfl⟩ := List.mem_map.1 he'
  have hfk := hk' f.1 (List.mem_map_of_mem hf)
  rw [normalizeKey_py (hk _ hmem)] at hn
  rw [normalizeKey_py hfk] at hn'
  have hkey : e.1.toList = f.1.toList := Except.ok.inj (hn.trans hn'.symm)
  rw [String.toList_inj.1 hkey]
  exact List.mem_map_of_mem hf

/-- Entries whose values have normal forms have normal entries, under the keys' texts. -/
theorem exists_normalEntries {es : List (String × PyVal)} {ns : List Json}
    (hns : List.Forall₂ (fun e n => Normal R e.2 n) es ns)
    (hk : ∀ k ∈ es.map Prod.fst, IsAscii k) :
    ∃ ms, List.Forall₂ (WrittenEntry R) (es.map fun e => (.str (py e.1), e.2)) ms ∧
      ms.map Prod.fst = (es.map Prod.fst).map String.toList := by
  induction hns with
  | nil => exact ⟨[], .nil, rfl⟩
  | @cons e n es ns hn _ ih =>
    simp only [List.map_cons, List.forall_mem_cons] at hk
    obtain ⟨ms, hms, hfst⟩ := ih hk.2
    exact ⟨(e.1.toList, n) :: ms, .cons ⟨normalizeKey_py hk.1, hn⟩ hms, by simp [hfst]⟩

/-- An artefact has canonical bytes exactly when every value in it has. -/
theorem canon_ofEntries_iff {es : List (String × PyVal)} (hk : GoodKeys (es.map Prod.fst)) :
    Canon R (.ofEntries es) ↔ ∀ v ∈ es.map Prod.snd, Canon R v := by
  simp only [Canon, PyVal.ofEntries, normal_dict, List.forall_mem_map]
  refine ⟨?_, ?_⟩
  · rintro ⟨n, ms, hms, -, -⟩ e he
    obtain ⟨m, -, hm⟩ := exists_mem_of_forall₂ hms (List.mem_map_of_mem he)
    exact ⟨m.2, hm.2⟩
  · intro h
    obtain ⟨ns, hns⟩ := exists_forall₂.1 h
    obtain ⟨ms, hms, hfst⟩ := exists_normalEntries hns hk.2
    refine ⟨_, ms, hms, ?_, rfl⟩
    rw [hfst]
    exact hk.1.map fun _ _ h => String.toList_injective h

/-- An artefact under an id has canonical bytes when the id and the rest have. -/
theorem canon_ofEntries_cons {k : String} {v : PyVal} {es : List (String × PyVal)}
    (hk : GoodKeys (k :: es.map Prod.fst)) (hv : Canon R v)
    (hes : ∀ w ∈ es.map Prod.snd, Canon R w) : Canon R (.ofEntries ((k, v) :: es)) := by
  rw [canon_ofEntries_iff (by simpa using hk), List.map_cons, List.forall_mem_cons]
  exact ⟨hv, hes⟩

/-! ## Strings that only equal themselves -/

/-- The string is spelled with digits, lower-case letters, `_` and `$`: a key or a digest. -/
def Inert (s : PyStr) : Prop := ∃ t, s = ofText t ∧ ∀ c ∈ t, isInert c = true

/-- A string that NFC leaves alone has no surrogates. -/
theorem Inert.hasSurrogate {s : PyStr} (h : Inert s) : hasSurrogate s = false := by
  obtain ⟨t, rfl, -⟩ := h
  exact hasSurrogate_ofText t

/-- A string with the NFC form of an inert string is that string. -/
theorem NfcEq.eq_of_inert {s t : PyStr} (h : NfcEq R s t) (ht : Inert t) : s = t := by
  obtain ⟨hs, -, hn⟩ := h
  obtain ⟨u, rfl, hu⟩ := ht
  rw [toText_ofText, R.nfc_ascii u fun c hc => isInert.ascii (hu c hc)] at hn
  have hself := R.nfc_inert (toText s) (by rw [hn]; exact hu)
  rw [← ofText_toText hs, ← hself, hn]

/-- A digest is inert. -/
theorem inert_of_sha256Hex {v : PyVal} {d : PyStr} (h : sha256Hex R v = .ok d) : Inert d := by
  rw [sha256Hex, map_eq_ok] at h
  obtain ⟨b, -, rfl⟩ := h
  exact ⟨_, rfl, fun c hc => isInert_of_isHexDigit (R.sha256_isHex b c hc)⟩

/-- A dictionary's entries are what its lookup finds. -/
theorem lookup_eq_some_iff_mem {d : PyDict PyVal} {k : PyStr} {v : PyVal} :
    d.lookup k = some v ↔ ⟨k, v⟩ ∈ d.entries := by
  rw [← AList.mem_lookup_iff, Option.mem_def]

/-- Canonically equal dictionaries hold canonically equal values under an inert key. -/
theorem lookup_of_eqv {d d' : PyDict PyVal} (h : Eqv R d.toVal d'.toVal) {k : PyStr} (hk : Inert k)
    {v : PyVal} (hl : d.lookup k = some v) : ∃ v', d'.lookup k = some v' ∧ Eqv R v v' := by
  obtain ⟨e', he', ⟨n, hn, hn'⟩, hv⟩ :=
    entry_of_eqv h (List.mem_map_of_mem (lookup_eq_some_iff_mem.1 hl))
  obtain ⟨⟨k', v'⟩, hf, rfl⟩ := List.mem_map.1 he'
  rw [normalizeKey, nfcText_eq_ok] at hn hn'
  have hkk : NfcEq R k' k := ⟨hn'.1, hn.1, hn'.2.trans hn.2.symm⟩
  obtain rfl : k' = k := hkk.eq_of_inert hk
  exact ⟨v', lookup_eq_some_iff_mem.2 hf, hv⟩

end Finality
