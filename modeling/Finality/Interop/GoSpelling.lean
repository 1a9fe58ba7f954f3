import Finality.Canonical.Sample
import Finality.Interop.GoDecode
import Finality.Interop.GoEncode

/-!
# Spelling and value in Go

The encoder tests a number by its value and writes the text it was decoded from. Among integer
literals the text follows from the value with the one exception of `-0`, which is accepted and
written as it stands.

`Similar P` relates decoded values that are equal up to key order, but for their numbers, which
need only be in the relation `P`. With `SameInteger` it is equality of the typed values that two
texts denote; with `SameZero` besides, `-0` stands in the same places of both.
-/

namespace Finality

open JsonText KeyOrder Checks

namespace Go

/-! ## Equality up to key order -/

/-- A list of pairs taken apart, on the left. -/
def lefts (z : List (GoStr × Val × Val)) : List (GoStr × Val) := z.map fun t => (t.1, t.2.1)

/-- On the right. -/
def rights (z : List (GoStr × Val × Val)) : List (GoStr × Val) := z.map fun t => (t.1, t.2.2)

theorem mem_lefts {z : List (GoStr × Val × Val)} {t : GoStr × Val × Val} (h : t ∈ z) :
    (t.1, t.2.1) ∈ lefts z := List.mem_map_of_mem (f := fun t => (t.1, t.2.1)) h

theorem mem_rights {z : List (GoStr × Val × Val)} {t : GoStr × Val × Val} (h : t ∈ z) :
    (t.1, t.2.2) ∈ rights z := List.mem_map_of_mem (f := fun t => (t.1, t.2.2)) h

/-- The values are equal up to key order, with numbers that are in the relation `P`. -/
inductive Similar (P : List Char → List Char → Prop) : Val → Val → Prop
  | nil : Similar P .nil .nil
  | bool (b : Bool) : Similar P (.bool b) (.bool b)
  | number {m n : List Char} : P m n → Similar P (.number m) (.number n)
  | string (x : GoStr) : Similar P (.string x) (.string x)
  | slice (z : List (Val × Val)) : (∀ t ∈ z, Similar P t.1 t.2) →
      Similar P (.slice (z.map Prod.fst)) (.slice (z.map Prod.snd))
  | map (z : List (GoStr × Val × Val)) {y : List (GoStr × Val)} :
      (∀ t ∈ z, Similar P t.2.1 t.2.2) → (rights z).Perm y → Similar P (.map (lefts z)) (.map y)

/-- The number tokens spell one integer. -/
def SameInteger (m n : List Char) : Prop := readInt m = readInt n

/-- They do, and both or neither is `-0`. -/
def SameZero (m n : List Char) : Prop :=
  SameInteger m n ∧ (m = negativeZero ↔ n = negativeZero)

/-- The two are integer literals that spell one integer. -/
def SameLiteral (m n : List Char) : Prop := IsLiteral m ∧ IsLiteral n ∧ SameInteger m n

section
variable {P Q : List Char → List Char → Prop} {R : Runtime} {v w : Val}

/-- Between values whose numbers are literals. -/
theorem Similar.literal (h : Similar P v w) (hv : Literals v) (hw : Literals w) :
    Similar (fun m n => IsLiteral m ∧ IsLiteral n ∧ P m n) v w := by
  induction h with
  | nil => exact .nil
  | bool b => exact .bool b
  | number hmn => exact .number ⟨literals_number.1 hv, literals_number.1 hw, hmn⟩
  | string x => exact .string x
  | slice z _ ih =>
    rw [literals_slice, List.forall_mem_map] at hv hw
    exact .slice z fun t ht => ih t ht (hv t ht) (hw t ht)
  | map z _ hy ih =>
    rw [literals_map] at hv hw
    refine .map z (fun t ht => ?_) hy
    exact ih t ht (hv _ (mem_lefts ht)) (hw _ (hy.mem_iff.1 (mem_rights ht)))

/-- Similar values are rejected together. -/
theorem Similar.rejected_iff (h : Similar P v w)
    (hP : ∀ m n, P m n → (SafeNumber m ↔ SafeNumber n)) : Rejected R v ↔ Rejected R w := by
  induction h with
  | nil => rfl
  | bool b => rfl
  | number hmn => rw [rejected_number, rejected_number, hP _ _ hmn]
  | string x => rfl
  | slice z _ ih =>
    simp only [rejected_slice, List.mem_map, exists_exists_and_eq_and]
    exact exists_congr fun t => and_congr_right fun ht => ih t ht
  | @map z y _ hy ih =>
    rw [← not_iff_not, not_rejected_map, not_rejected_map]
    have hkeys : (lefts z).map (fun e => keyText R e.1) =
        (rights z).map fun e => keyText R e.1 := by
      simp only [lefts, rights, List.map_map, Function.comp_def]
    rw [hkeys, ← (hy.map _).nodup_iff]
    have hmem : ∀ p : GoStr × Val → Prop, (∀ e ∈ y, p e) ↔ ∀ e ∈ rights z, p e := fun p =>
      forall_congr' fun e => by rw [hy.mem_iff]
    rw [hmem, hmem]
    simp only [lefts, rights, List.forall_mem_map]
    exact and_congr_right fun _ => and_congr_right fun _ =>
      forall₂_congr fun t ht => not_congr (ih t ht)

/-! ## The same spelling -/

/-- The members of a map, as they are written, in an order that depends on the keys alone. -/
def sortPairs (R : Runtime) (z : List (GoStr × Val × Val)) : List (List Char × Val × Val) :=
  sortByKey (z.map fun t => (keyText R t.1, t.2))

/-- Sorting keeps the pairs. -/
theorem mem_sortPairs {z : List (GoStr × Val × Val)} {t : List Char × Val × Val} :
    t ∈ sortPairs R z ↔ ∃ t' ∈ z, (keyText R t'.1, t'.2) = t := by
  rw [sortPairs, mem_sortByKey, List.mem_map]

/-- The left entries, sorted, are the left halves of the sorted pairs. -/
theorem encodeEntries_lefts (z : List (GoStr × Val × Val)) :
    sortByKey (encodeEntries R (lefts z)) =
      (sortPairs R z).map fun t => (t.1, encode R t.2.1) := by
  have hsort := sortByKey_map (fun k => k) (fun _ _ => Iff.rfl)
    (fun _ (t : Val × Val) => encode R t.1) (z.map fun t => (keyText R t.1, t.2))
  rw [List.map_map] at hsort
  rw [encodeEntries_eq, lefts, List.map_map]
  exact hsort

/-- So are the right ones, in whatever order they came. -/
theorem encodeEntries_rights {z : List (GoStr × Val × Val)} {y : List (GoStr × Val)}
    (hy : (rights z).Perm y) (hnd : (y.map fun e => keyText R e.1).Nodup) :
    sortByKey (encodeEntries R y) = (sortPairs R z).map fun t => (t.1, encode R t.2.2) := by
  have hsort := sortByKey_map (fun k => k) (fun _ _ => Iff.rfl)
    (fun _ (t : Val × Val) => encode R t.2) (z.map fun t => (keyText R t.1, t.2))
  rw [List.map_map] at hsort
  have hperm := (hy.symm.map fun e => (keyText R e.1, encode R e.2))
  have hnd' : ((y.map fun e => (keyText R e.1, encode R e.2)).map Prod.fst).Nodup := by
    rwa [List.map_map]
  rw [encodeEntries_eq, sortByKey_eq_of_perm hperm hnd', rights, List.map_map]
  exact hsort

/-- What is equal up to key order and spelled alike is written alike. -/
theorem Similar.encode_eq (h : Similar P v w) (hP : ∀ m n, P m n → m = n)
    (hw : ¬ Rejected R w) : encode R v = encode R w := by
  induction h with
  | nil => rfl
  | bool b => rfl
  | number hmn => rw [hP _ _ hmn]
  | string x => rfl
  | slice z _ ih =>
    rw [rejected_slice] at hw
    have hitems : (z.map Prod.fst).map (encode R) = (z.map Prod.snd).map (encode R) := by
      rw [List.map_map, List.map_map]
      refine List.map_congr_left fun t ht => ih t ht fun hr => hw ⟨_, List.mem_map_of_mem ht, hr⟩
    rw [encode, encode, encodeItems_eq, encodeItems_eq, hitems]
  | map z _ hy ih =>
    rw [not_rejected_map] at hw
    obtain ⟨-, hnd, hvals⟩ := hw
    rw [encode, encode, encodeEntries_lefts, encodeEntries_rights hy hnd]
    have hmembers : (sortPairs R z).map (fun t => (t.1, encode R t.2.1)) =
        (sortPairs R z).map fun t => (t.1, encode R t.2.2) := by
      refine List.map_congr_left fun t ht => ?_
      obtain ⟨t', ht', rfl⟩ := mem_sortPairs.1 ht
      exact Prod.ext rfl (ih t' ht' (hvals _ (hy.mem_iff.1 (mem_rights ht'))))
    rw [hmembers]

/-! ## Different spellings -/

/-- Texts that can be told apart one by one, whatever follows, can be told apart joined. -/
theorem joinBytes_inj {A : Type} {p q : A → GoStr} {C : A → Prop} : ∀ {z : List A} {i : Nat}
    {r r' : GoStr}, (∀ t ∈ z, ∀ r r', p t ++ r = q t ++ r' → C t ∧ r = r') →
    joinBytes i (z.map p) ++ r = joinBytes i (z.map q) ++ r' → (∀ t ∈ z, C t) ∧ r = r'
  | [], _, _, _, _, h => ⟨fun _ ht => absurd ht List.not_mem_nil, h⟩
  | t :: z, i, r, r', hpq, h => by
    rw [List.forall_mem_cons] at hpq
    simp only [List.map_cons, joinBytes, List.append_assoc] at h
    obtain ⟨ht, hrest⟩ := hpq.1 _ _ (List.append_cancel_left h)
    obtain ⟨hz, hr⟩ := joinBytes_inj hpq.2 hrest
    exact ⟨List.forall_mem_cons.2 ⟨ht, hz⟩, hr⟩

/-- Two literals of one integer that are written alike, whatever follows, are the same. -/
theorem SameLiteral.eq_of_append {m n : List Char} (h : SameLiteral m n) {r r' : GoStr}
    (heq : Utf8.utf8 m ++ r = Utf8.utf8 n ++ r') : SameZero m n ∧ r = r' := by
  obtain ⟨hm, hn, hint⟩ := h
  obtain ⟨i, hi, hmi⟩ := hm.cases
  obtain ⟨j, hj, hnj⟩ := hn.cases
  obtain rfl : i = j := Option.some.inj (hi.symm.trans (hint.trans hj))
  -- `-0` and `0` differ in their first character
  have hzero : ∀ r r' : GoStr, Utf8.utf8 negativeZero ++ r ≠ Utf8.utf8 (intText 0) ++ r' := by
    intro r r' h
    exact absurd (List.cons.inj h).1 (by decide)
  rcases hmi with ⟨rfl, hmz⟩ | ⟨rfl, rfl⟩
  · rcases hnj with ⟨rfl, hnz⟩ | ⟨rfl, rfl⟩
    · exact ⟨⟨rfl, Iff.rfl⟩, List.append_cancel_left heq⟩
    · exact absurd heq.symm (hzero _ _)
  · rcases hnj with ⟨rfl, hnz⟩ | ⟨rfl, -⟩
    · exact absurd heq (hzero _ _)
    · exact ⟨⟨rfl, Iff.rfl⟩, List.append_cancel_left heq⟩

/-- **Equal values that are written alike** have `-0` in the same places. -/
theorem Similar.of_encode_eq (h : Similar SameLiteral v w) : ¬ Rejected R w → ∀ {r r' : GoStr},
    encode R v ++ r = encode R w ++ r' → Similar SameZero v w ∧ r = r' := by
  induction h with
  | nil => exact fun _ _ _ heq => ⟨.nil, List.append_cancel_left heq⟩
  | bool b => exact fun _ _ _ heq => ⟨.bool b, List.append_cancel_left heq⟩
  | string x => exact fun _ _ _ heq => ⟨.string x, List.append_cancel_left heq⟩
  | number hmn =>
    intro _ r r' heq
    obtain ⟨hz, hr⟩ := hmn.eq_of_append heq
    exact ⟨.number hz, hr⟩
  | slice z _ ih =>
    intro hw r r' heq
    rw [rejected_slice] at hw
    simp only [encode, encodeItems_eq, List.map_map, List.append_assoc] at heq
    obtain ⟨hz, hr⟩ := joinBytes_inj (C := fun t : Val × Val => Similar SameZero t.1 t.2)
      (fun t ht r r' heq => ih t ht (fun hr => hw ⟨_, List.mem_map_of_mem ht, hr⟩) heq)
      (List.append_cancel_left heq)
    exact ⟨.slice z hz, List.append_cancel_left hr⟩
  | map z _ hy ih =>
    intro hw r r' heq
    rw [not_rejected_map] at hw
    obtain ⟨-, hnd, hvals⟩ := hw
    simp only [encode, encodeEntries_lefts, encodeEntries_rights hy hnd, List.map_map,
      List.append_assoc] at heq
    have hmember : ∀ t ∈ sortPairs R z, ∀ r r' : GoStr,
        memberBytes (t.1, encode R t.2.1) ++ r = memberBytes (t.1, encode R t.2.2) ++ r' →
          Similar SameZero t.2.1 t.2.2 ∧ r = r' := by
      intro t ht r r' heq
      obtain ⟨t', ht', rfl⟩ := mem_sortPairs.1 ht
      simp only [memberBytes, List.append_assoc] at heq
      exact ih t' ht' (hvals _ (hy.mem_iff.1 (mem_rights ht')))
        (List.append_cancel_left (List.append_cancel_left heq))
    obtain ⟨hz, hr⟩ := joinBytes_inj hmember (List.append_cancel_left heq)
    refine ⟨.map z (fun t ht => ?_) hy, List.append_cancel_left hr⟩
    exact hz _ (mem_sortPairs.2 ⟨t, ht, rfl⟩)

end

/-! ## The law -/

variable {R : Runtime}

/-- Literals of one integer are safe together. -/
theorem SameInteger.safeNumber_iff {m n : List Char} (h : SameInteger m n) :
    SafeNumber m ↔ SafeNumber n := by
  rw [SafeNumber, SafeNumber, show readInt m = readInt n from h]

/-- Encodings of equal values, up to what they are rejected for. -/
theorem toOption_canonical (v : Val) [Decidable (Rejected R v)] :
    (canonical R v).toOption = if Rejected R v then none else some (encode R v) := by
  split
  · rename_i hr
    cases hc : canonical R v with
    | ok b => exact absurd hr (canonical_eq_ok.1 hc).1
    | error e => rfl
  · rename_i hr
    rw [canonical_eq_ok.2 ⟨hr, rfl⟩]
    rfl

/-- A literal that the encoder accepts is written in the plain spelling of its value, unless it is
`-0`. -/
theorem literal_plain {n : List Char} (hn : IsLiteral n) (hok : validateInteger n = .ok ()) :
    (∃ i, readInt n = some i ∧ canonical R (.number n) = .ok (Utf8.utf8 (intText i))) ↔
      n ≠ negativeZero := by
  have hwrite : ∀ b, canonical R (.number n) = .ok b ↔ b = Utf8.utf8 n := by
    intro b
    rw [canonical_eq_ok, rejected_number, not_not, encode, ← validateInteger_eq_ok]
    exact and_iff_right hok
  obtain ⟨i, hi, hni⟩ := hn.cases
  rcases hni with ⟨hplain, hne⟩ | ⟨rfl, rfl⟩
  · refine iff_of_true ⟨i, hi, ?_⟩ hne
    rw [hwrite, ← hplain]
  · refine iff_of_false (fun h => ?_) fun h => h rfl
    obtain ⟨j, hj, hb⟩ := h
    obtain rfl : 0 = j := Option.some.inj (hi.symm.trans hj)
    rw [hwrite] at hb
    exact absurd hb (by decide)

/-- **When Go's bytes follow from the value.** Two texts with integer literals that denote one
value, up to key order, have the same canonical bytes or are both rejected just when the value is
one that is rejected or `-0` stands in the same places of both; a literal that is accepted is
written in its shortest spelling just when it is not `-0`. -/
theorem canonical_spelling {s t : List Char} {v w : Val} (hs : decode s = some v)
    (ht : decode t = some w) (h : Similar SameInteger v w) :
    ((canonical R v).toOption = (canonical R w).toOption ↔
      Rejected R v ∨ Similar SameZero v w) ∧
    ∀ n, Token n v → validateInteger n = .ok () →
      ((∃ i, readInt n = some i ∧ canonical R (.number n) = .ok (Utf8.utf8 (intText i))) ↔
        n ≠ negativeZero) := by
  classical
  have hv := literals_of_decode hs
  have hw := literals_of_decode ht
  have hrejected : Rejected R v ↔ Rejected R w := h.rejected_iff fun _ _ h => h.safeNumber_iff
  refine ⟨?_, fun n hn hok => literal_plain (hv n hn) hok⟩
  rw [toOption_canonical, toOption_canonical]
  by_cases hr : Rejected R v
  · rw [if_pos hr, if_pos (hrejected.1 hr)]
    exact iff_of_true rfl (.inl hr)
  · have hr' : ¬ Rejected R w := fun h => hr (hrejected.2 h)
    rw [if_neg hr, if_neg hr', Option.some.injEq, or_iff_right hr]
    refine ⟨?_, ?_⟩
    · intro heq
      exact ((h.literal hv hw).of_encode_eq hr' (congrArg (· ++ []) heq)).1
    · intro hz
      exact (hz.literal hv hw).encode_eq
        (fun m n hmn => (hmn.1.eq_iff hmn.2.1 hmn.2.2.1).2 hmn.2.2.2) hr'

/-- Two texts of an array, of which one has `-0`. -/
theorem canonical_spelling_sample :
    decode "[-0,true]".toList = some (.slice [.number ['-', '0'], .bool true]) ∧
    decode " [0, true]".toList = some (.slice [.number ['0'], .bool true]) ∧
    ((canonical sampleRuntime (.slice [.number ['-', '0'], .bool true])).toOption =
        (canonical sampleRuntime (.slice [.number ['0'], .bool true])).toOption ↔
      Rejected sampleRuntime (.slice [.number ['-', '0'], .bool true]) ∨
        Similar SameZero (.slice [.number ['-', '0'], .bool true])
          (.slice [.number ['0'], .bool true])) := by
  have hs : decode "[-0,true]".toList = some (.slice [.number ['-', '0'], .bool true]) := by
    simp [decode, Go.readValue, Go.readItems, skipSpace, isSpace, readLiteral, readDigits,
      isFraction]
  have ht : decode " [0, true]".toList = some (.slice [.number ['0'], .bool true]) := by
    simp [decode, Go.readValue, Go.readItems, skipSpace, isSpace, readLiteral, readDigits,
      isFraction]
  refine ⟨hs, ht, (canonical_spelling hs ht ?_).1⟩
  refine .slice [(.number ['-', '0'], .number ['0']), (.bool true, .bool true)] ?_
  simp only [List.forall_mem_cons, List.not_mem_nil, false_implies, implies_true, and_true]
  exact ⟨.number (by rw [SameInteger]; decide), .bool true⟩

/-- **`-0`.** Two texts of one value whose canonical bytes differ. -/
theorem negativeZero_respelled :
    ¬ ∀ (s t : List Char) (v w : Val), decode s = some v → decode t = some w →
      Similar SameInteger v w →
        (canonical sampleRuntime v).toOption = (canonical sampleRuntime w).toOption := by
  intro h
  have hs : decode "-0".toList = some (.number ['-', '0']) := by
    simp [decode, Go.readValue, skipSpace, isSpace, readLiteral, readDigits, isFraction]
  have ht : decode "0".toList = some (.number ['0']) := by
    simp [decode, Go.readValue, skipSpace, isSpace, readLiteral, readDigits, isFraction]
  have heq := h _ _ _ _ hs ht (.number (by rw [SameInteger]; decide))
  exact absurd heq (by decide)

end Go

end Finality
