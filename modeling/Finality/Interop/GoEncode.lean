import Finality.Interop.Document
import Finality.Interop.GoCanonical

/-!
# What the Go encoder writes, for any decoded value

`canonical_goValue` says what `Canonical` does with the value of a tree. A decoded value is more
than that: a number is any text and a string any bytes. `Rejected` lists what the encoder fails on
and `encode` is what it writes otherwise (`appendCanonical_eq_ok`), in which a number stands as it
was spelled.
-/

namespace Finality

open JsonText KeyOrder Checks

namespace Go

/-- An integer literal in the range of the profile. -/
def SafeNumber (n : List Char) : Prop := ∃ i, readInt n = some i ∧ Safe i

/-- The text that a key is normalised to. -/
def keyText (R : Runtime) (k : GoStr) : List Char := R.nfc (runes k)

/-- What the encoder fails on. -/
inductive Rejected (R : Runtime) : Val → Prop
  | number {n : List Char} : ¬ SafeNumber n → Rejected R (.number n)
  | string {x : GoStr} : validString x = false → Rejected R (.string x)
  | slice {x : List Val} {v : Val} : v ∈ x → Rejected R v → Rejected R (.slice x)
  | key {x : List (GoStr × Val)} {e : GoStr × Val} :
      e ∈ x → validString e.1 = false → Rejected R (.map x)
  | collision {x : List (GoStr × Val)} :
      ¬ (x.map fun e => keyText R e.1).Nodup → Rejected R (.map x)
  | map {x : List (GoStr × Val)} {e : GoStr × Val} : e ∈ x → Rejected R e.2 → Rejected R (.map x)

/-- Texts with a separator in front of each but the first. -/
def joinBytes : Nat → List GoStr → GoStr
  | _, [] => []
  | i, t :: ts => separator i ++ t ++ joinBytes (i + 1) ts

/-- A member of an object. -/
def memberBytes (e : List Char × GoStr) : GoStr := Utf8.utf8 (quote e.1) ++ lit ":" ++ e.2

section
variable (R : Runtime)

mutual

/-- What the encoder writes. -/
def encode : Val → GoStr
  | .nil => lit "null"
  | .bool true => lit "true"
  | .bool false => lit "false"
  | .number n => Utf8.utf8 n
  | .string x => Utf8.utf8 (quote (keyText R x))
  | .slice x => lit "[" ++ joinBytes 0 (encodeItems x) ++ lit "]"
  | .map x =>
      lit "\x7b" ++ joinBytes 0 ((sortByKey (encodeEntries x)).map memberBytes) ++ lit "\x7d"

/-- The elements of a slice, each as it is written. -/
def encodeItems : List Val → List GoStr
  | [] => []
  | v :: x => encode v :: encodeItems x

/-- The entries of a map under their normalised keys, each value as it is written. -/
def encodeEntries : List (GoStr × Val) → List (List Char × GoStr)
  | [] => []
  | (k, v) :: x => (keyText R k, encode v) :: encodeEntries x

end

end

variable {R : Runtime}

theorem encodeItems_eq : ∀ x : List Val, encodeItems R x = x.map (encode R)
  | [] => rfl
  | v :: x => by rw [encodeItems, encodeItems_eq x, List.map_cons]

theorem encodeEntries_eq : ∀ x : List (GoStr × Val),
    encodeEntries R x = x.map fun e => (keyText R e.1, encode R e.2)
  | [] => rfl
  | (k, v) :: x => by rw [encodeEntries, encodeEntries_eq x, List.map_cons]

/-! ## What is rejected -/

theorem rejected_nil : ¬ Rejected R .nil := fun h => by cases h

theorem rejected_bool {b : Bool} : ¬ Rejected R (.bool b) := fun h => by cases h

/-- A number is rejected when it is no safe integer. -/
theorem rejected_number {n : List Char} : Rejected R (.number n) ↔ ¬ SafeNumber n := by
  refine ⟨fun h => ?_, .number⟩
  cases h
  assumption

/-- A string is rejected when it is no valid UTF-8. -/
theorem rejected_string {x : GoStr} : Rejected R (.string x) ↔ validString x = false := by
  refine ⟨fun h => ?_, .string⟩
  cases h
  assumption

/-- A slice is rejected for one of its items. -/
theorem rejected_slice {x : List Val} : Rejected R (.slice x) ↔ ∃ v ∈ x, Rejected R v := by
  refine ⟨fun h => ?_, fun h => ?_⟩
  · cases h with
    | slice hv hr => exact ⟨_, hv, hr⟩
  · obtain ⟨v, hv, hr⟩ := h
    exact .slice hv hr

/-- A map goes through when its keys are valid and stay distinct and its values go through. -/
theorem not_rejected_map {x : List (GoStr × Val)} : ¬ Rejected R (.map x) ↔
    (∀ e ∈ x, validString e.1 = true) ∧ (x.map fun e => keyText R e.1).Nodup ∧
      ∀ e ∈ x, ¬ Rejected R e.2 := by
  refine ⟨fun h => ⟨fun e he => ?_, ?_, fun e he hr => h (.map he hr)⟩, fun h hr => ?_⟩
  · rw [← Bool.not_eq_false]
    exact fun hv => h (.key he hv)
  · exact Classical.byContradiction fun hnd => h (.collision hnd)
  · obtain ⟨hvalid, hnd, hvals⟩ := h
    cases hr with
    | key he hv => exact absurd ((hvalid _ he).symm.trans hv) (by decide)
    | collision hc => exact hc hnd
    | map he hr => exact hvals _ he hr

/-! ## The encoder's spec -/

/-- `validateInteger` accepts the literals of safe integers. -/
theorem validateInteger_eq_ok {n : List Char} : validateInteger n = .ok () ↔ SafeNumber n := by
  rw [validateInteger, SafeNumber]
  cases readInt n with
  | none => simp
  | some z =>
    rw [failIf_eq_ok, maxSafeInteger]
    simp only [Option.some.injEq, exists_eq_left', Safe, Finality.maxSafeInteger]
    omega

/-- A valid string is the encoding of its runes. -/
theorem utf8_runes {x : GoStr} (h : validString x = true) : Utf8.utf8 (runes x) = x := by
  obtain ⟨s, hs⟩ := Option.isSome_iff_exists.1 h
  rw [runes, hs, Option.getD_some, Utf8.utf8_of_decode? hs]

/-- A string is appended in NFC, in quotes. -/
theorem appendJSONString_eq_ok {b x b' : GoStr} : appendJSONString R b x = .ok b' ↔
    validString x = true ∧ b' = b ++ Utf8.utf8 (quote (keyText R x)) := by
  cases hv : validString x with
  | false => simp [appendJSONString, hv, failIf]
  | true =>
    have h := @appendJSONString_utf8 R b (runes x)
    rw [utf8_runes hv] at h
    rw [h, keyText]
    simp [eq_comm]

/-- Keys that can be normalised are valid UTF-8. -/
theorem validString_of_normalizeKeys {V : Type} : ∀ {x normalized : List (GoStr × V)}
    {keys : List GoStr} {out : List (GoStr × V) × List GoStr},
    normalizeKeys R x normalized keys = .ok out → ∀ e ∈ x, validString e.1 = true
  | [], _, _, _, _, _, he => absurd he List.not_mem_nil
  | (rawKey, val) :: x, normalized, keys, out, h, e, he => by
    simp only [normalizeKeys, bind_eq_ok, exists_unit, failIf_eq_ok] at h
    obtain ⟨hvalid, -, hrest⟩ := h
    rcases List.mem_cons.1 he with rfl | he
    · simpa using hvalid
    · exact validString_of_normalizeKeys hrest e he

/-- **The first loop** goes through when the keys are valid and stay distinct. -/
theorem normalizeKeys_eq_ok {V : Type} {x : List (GoStr × V)}
    {out : List (GoStr × V) × List GoStr} : normalizeKeys R x [] [] = .ok out ↔
      ((∀ e ∈ x, validString e.1 = true) ∧ (x.map fun e => keyText R e.1).Nodup) ∧
      out = (mapKeys Utf8.utf8 (x.map fun e => (keyText R e.1, e.2)),
        (mapKeys Utf8.utf8 (x.map fun e => (keyText R e.1, e.2))).map Prod.fst) := by
  by_cases hvalid : ∀ e ∈ x, validString e.1 = true
  · have hx : mapKeys Utf8.utf8 (x.map fun e => (runes e.1, e.2)) = x := by
      rw [mapKeys, List.map_map]
      refine (List.map_congr_left fun e he => ?_).trans (List.map_id x)
      exact Prod.ext (utf8_runes (hvalid e he)) rfl
    have hkeys : mapKeys R.nfc (x.map fun e => (runes e.1, e.2)) =
        x.map fun e => (keyText R e.1, e.2) := by
      rw [mapKeys, List.map_map]
      rfl
    have h := @normalizeKeys_utf8 R V (x.map fun e => (runes e.1, e.2)) [] out
    rw [hx, hkeys] at h
    simp only [mapKeys_nil, List.map_nil, List.nil_append, List.disjoint_nil_left, and_true,
      List.map_map] at h
    rw [and_iff_right hvalid]
    exact h
  · exact iff_of_false (fun h => hvalid (validString_of_normalizeKeys h)) fun h => hvalid h.1.1

/-- What appends the value of each entry of a map. -/
theorem appenders_eq : ∀ x : List (GoStr × Val),
    appenders R x = x.map fun e => (e.1, fun b => appendCanonical R e.2 b)
  | [] => rfl
  | (k, v) :: x => by rw [appenders, appenders_eq x, List.map_cons]

/-- **The second loop** writes the entries, given that each appender writes its value. -/
theorem appendMembers_entries {normalized : List (GoStr × (GoStr → Except Err GoStr))}
    {p : Val → Prop} : ∀ {es : List (List Char × Val)} {i : Nat} {b b' : GoStr},
    (∀ e ∈ es, R.nfc e.1 = e.1 ∧ ∃ f, normalized.lookup (Utf8.utf8 e.1) = some f ∧
      ∀ b b', f b = .ok b' ↔ p e.2 ∧ b' = b ++ encode R e.2) →
    (appendMembers R normalized ((mapKeys Utf8.utf8 es).map Prod.fst) i b = .ok b' ↔
      (∀ e ∈ es, p e.2) ∧
        b' = b ++ joinBytes i (es.map fun e => memberBytes (e.1, encode R e.2)))
  | [], i, b, b', _ => by simp [appendMembers, joinBytes, eq_comm]
  | (k, v) :: es, i, b, b', h => by
    rw [List.forall_mem_cons] at h
    obtain ⟨⟨hk, f, hf, hform⟩, hrest⟩ := h
    have ih := fun b b' => @appendMembers_entries normalized p es (i + 1) b b' hrest
    have htext : b ++ separator i ++ Utf8.utf8 (quote k) ++ lit ":" ++ encode R v ++
        joinBytes (i + 1) (es.map fun e => memberBytes (e.1, encode R e.2)) =
          b ++ joinBytes i (((k, v) :: es).map fun e => memberBytes (e.1, encode R e.2)) := by
      rw [List.map_cons, joinBytes, memberBytes]
      simp only [List.append_assoc]
    rw [show (mapKeys Utf8.utf8 ((k, v) :: es)).map Prod.fst =
      Utf8.utf8 k :: (mapKeys Utf8.utf8 es).map Prod.fst from rfl, appendMembers,
      appendJSONString_utf8, hf, hk]
    simp only [Option.getD_some, ok_bind, bind_eq_ok, hform, ih, List.forall_mem_cons]
    refine ⟨?_, ?_⟩
    · intro h
      obtain ⟨_, ⟨hv, rfl⟩, hes, rfl⟩ := h
      exact ⟨⟨hv, hes⟩, htext⟩
    · intro h
      obtain ⟨⟨hv, hes⟩, rfl⟩ := h
      exact ⟨_, ⟨hv, rfl⟩, hes, htext.symm⟩

/-- **A map**, given that its values are written. -/
theorem appendCanonical_entries {x : List (GoStr × Val)} {b b' : GoStr}
    (h : ∀ e ∈ x, ∀ b b' : GoStr, appendCanonical R e.2 b = .ok b' ↔
      ¬ Rejected R e.2 ∧ b' = b ++ encode R e.2) :
    appendCanonical R (.map x) b = .ok b' ↔
      ¬ Rejected R (.map x) ∧ b' = b ++ encode R (.map x) := by
  let es := x.map fun e => (keyText R e.1, e.2)
  let fs := es.map fun e => (e.1, fun b => appendCanonical R e.2 b)
  have hloop : ∀ out, normalizeKeys R (appenders R x) [] [] = .ok out ↔
      ((∀ e ∈ x, validString e.1 = true) ∧ (x.map fun e => keyText R e.1).Nodup) ∧
        out = (mapKeys Utf8.utf8 fs, (mapKeys Utf8.utf8 es).map Prod.fst) := by
    intro out
    rw [appenders_eq, normalizeKeys_eq_ok, List.forall_mem_map]
    simp only [List.map_map, Function.comp_def, mapKeys, fs, es]
  have hencode : (sortByKey es).map (fun e => memberBytes (e.1, encode R e.2)) =
      (sortByKey (encodeEntries R x)).map memberBytes := by
    have hsort := sortByKey_map (fun k => k) (fun _ _ => Iff.rfl) (fun _ v => encode R v) es
    rw [encodeEntries_eq, show x.map (fun e => (keyText R e.1, encode R e.2)) =
      es.map fun e => (e.1, encode R e.2) by simp [es], hsort, List.map_map]
    rfl
  have hmembers : (x.map fun e => keyText R e.1).Nodup → ∀ b b' : GoStr,
      appendMembers R (mapKeys Utf8.utf8 fs)
          (sortStrings ((mapKeys Utf8.utf8 es).map Prod.fst)) 0 b = .ok b' ↔
        (∀ e ∈ x, ¬ Rejected R e.2) ∧
          b' = b ++ joinBytes 0 ((sortByKey (encodeEntries R x)).map memberBytes) := by
    intro hnd b b'
    rw [sortStrings_utf8, appendMembers_entries (p := fun v => ¬ Rejected R v), hencode]
    · simp only [mem_sortByKey, es, List.forall_mem_map]
    · intro e he
      obtain ⟨e', he', rfl⟩ := List.mem_map.1 (mem_sortByKey.1 he)
      refine ⟨R.nfc_idem _, fun b => appendCanonical R e'.2 b, ?_, h e' he'⟩
      have hmem : (keyText R e'.1, fun b => appendCanonical R e'.2 b) ∈ fs :=
        List.mem_map.2 ⟨_, List.mem_map_of_mem he', rfl⟩
      have hfs : (fs.map Prod.fst).Nodup := by
        simpa [fs, es, Function.comp_def] using hnd
      rw [lookup_mapKeys Utf8.utf8_injective]
      exact lookup_of_mem hfs hmem
  simp only [appendCanonical, bind_eq_ok, not_rejected_map]
  refine ⟨?_, ?_⟩
  · intro h
    obtain ⟨out, hout, b₁, hb₁, hb⟩ := h
    obtain ⟨⟨hvalid, hnd⟩, rfl⟩ := (hloop out).1 hout
    obtain ⟨hvals, rfl⟩ := (hmembers hnd _ _).1 hb₁
    obtain rfl := Except.ok.inj hb
    exact ⟨⟨hvalid, hnd, hvals⟩, by simp [encode]⟩
  · intro h
    obtain ⟨⟨hvalid, hnd, hvals⟩, rfl⟩ := h
    exact ⟨_, (hloop _).2 ⟨⟨hvalid, hnd⟩, rfl⟩, _, (hmembers hnd _ _).2 ⟨hvals, rfl⟩,
      by simp [encode]⟩

mutual

/-- **The encoder's spec.** It fails on what is rejected and appends the encoding of the rest. -/
theorem appendCanonical_eq_ok : ∀ (v : Val) {b b' : GoStr},
    appendCanonical R v b = .ok b' ↔ ¬ Rejected R v ∧ b' = b ++ encode R v
  | .nil, b, b' => by simp [appendCanonical, rejected_nil, encode, eq_comm]
  | .bool x, b, b' => by
    cases x <;> simp [appendCanonical, rejected_bool, encode, eq_comm]
  | .number n, b, b' => by
    simp only [appendCanonical, bind_eq_ok, exists_unit, validateInteger_eq_ok, rejected_number,
      not_not, encode, Except.ok.injEq, @eq_comm _ b']
  | .string x, b, b' => by
    rw [appendCanonical, appendJSONString_eq_ok, rejected_string, encode, Bool.not_eq_false]
  | .slice x, b, b' => by
    simp only [appendCanonical, bind_eq_ok, appendItems_eq_ok x, rejected_slice, not_exists,
      not_and, encode]
    refine ⟨?_, ?_⟩
    · intro h
      obtain ⟨_, ⟨hx, rfl⟩, hb⟩ := h
      obtain rfl := Except.ok.inj hb
      exact ⟨hx, by simp⟩
    · intro h
      obtain ⟨hx, rfl⟩ := h
      exact ⟨_, ⟨hx, rfl⟩, by simp⟩
  | .map x, b, b' => appendCanonical_entries (appendEntries_eq_ok x)

/-- The items of a slice are appended, each after a comma but the first. -/
theorem appendItems_eq_ok : ∀ (x : List Val) {i : Nat} {b b' : GoStr},
    appendItems R x i b = .ok b' ↔
      (∀ v ∈ x, ¬ Rejected R v) ∧ b' = b ++ joinBytes i (encodeItems R x)
  | [], i, b, b' => by simp [appendItems, encodeItems, joinBytes, eq_comm]
  | v :: x, i, b, b' => by
    simp only [appendItems, bind_eq_ok, appendCanonical_eq_ok v, appendItems_eq_ok x,
      List.forall_mem_cons, encodeItems, joinBytes]
    refine ⟨?_, ?_⟩
    · intro h
      obtain ⟨_, ⟨hv, rfl⟩, hx, rfl⟩ := h
      exact ⟨⟨hv, hx⟩, by simp⟩
    · intro h
      obtain ⟨⟨hv, hx⟩, rfl⟩ := h
      exact ⟨_, ⟨hv, rfl⟩, hx, by simp⟩

/-- The values of a map are appended one by one. -/
theorem appendEntries_eq_ok : ∀ (x : List (GoStr × Val)), ∀ e ∈ x, ∀ b b' : GoStr,
    appendCanonical R e.2 b = .ok b' ↔ ¬ Rejected R e.2 ∧ b' = b ++ encode R e.2
  | [], e, he, _, _ => absurd he List.not_mem_nil
  | (k, v) :: x, e, he, b, b' => by
    rcases List.mem_cons.1 he with rfl | he
    · exact appendCanonical_eq_ok v
    · exact appendEntries_eq_ok x e he b b'

end

/-- **`Canonical`** fails on what is rejected and returns the encoding of the rest. -/
theorem canonical_eq_ok {v : Val} {b : GoStr} :
    canonical R v = .ok b ↔ ¬ Rejected R v ∧ b = encode R v := by
  rw [canonical, appendCanonical_eq_ok, List.nil_append]

end Go

end Finality
