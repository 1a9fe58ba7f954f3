import Finality.Lib.JsonRead

/-!
# Integer literals

The number tokens of a JSON text that are integers: an optional minus sign and digits without
leading zeros. A literal is the plain decimal spelling of its value, with the one exception of
`-0` (`IsLiteral.cases`).
-/

namespace JsonText

/-- Digits without leading zeros. -/
def IsDigits (ds : List Char) : Prop :=
  ds = ['0'] ∨ ∃ d r, ds = d :: r ∧ d ≠ '0' ∧ ∀ c ∈ ds, c.isDigit = true

/-- An integer literal. -/
def IsLiteral (n : List Char) : Prop :=
  IsDigits n ∨ ∃ ds, n = '-' :: ds ∧ IsDigits ds

/-- `-0` -/
def negativeZero : List Char := ['-', '0']

/-- The digit of a number is the character it was read from. -/
theorem digitChar_of_isDigit {c : Char} (h : c.isDigit = true) :
    Nat.digitChar (c.toNat - 48) = c ∧ c.toNat - 48 < 10 := by
  rw [Char.isDigit, Bool.and_eq_true, decide_eq_true_eq, decide_eq_true_eq] at h
  have hlo : 48 ≤ c.toNat := UInt32.le_iff_toNat_le.1 h.1
  have hhi : c.toNat ≤ 57 := UInt32.le_iff_toNat_le.1 h.2
  have hlt : c.toNat - 48 < 10 := by omega
  refine ⟨?_, hlt⟩
  have hn : (Nat.digitChar (c.toNat - 48)).toNat = c.toNat := by
    rw [Nat.toNat_digitChar_of_lt_ten hlt]
    omega
  rw [← Char.ofNat_toNat (Nat.digitChar _), hn, Char.ofNat_toNat]

/-- Reading on after a positive number appends the digits. -/
theorem toDigits_ofDigitChars : ∀ {ds : List Char} {m : Nat}, 0 < m →
    (∀ c ∈ ds, c.isDigit = true) →
    Nat.toDigits 10 (Nat.ofDigitChars 10 ds m) = Nat.toDigits 10 m ++ ds
  | [], m, _, _ => by simp
  | c :: ds, m, hm, hds => by
    rw [List.forall_mem_cons] at hds
    obtain ⟨hchar, hlt⟩ := digitChar_of_isDigit hds.1
    rw [Nat.ofDigitChars_cons, show '0'.toNat = 48 from rfl,
      toDigits_ofDigitChars (by omega) hds.2, ← Nat.toDigits_append_toDigits (by decide) hm hlt,
      Nat.toDigits_of_lt_base hlt, hchar, List.append_assoc, List.singleton_append]

/-- Digits without leading zeros are the decimal spelling of their number. -/
theorem IsDigits.spells {ds : List Char} (h : IsDigits ds) :
    ∃ n, readNat ds = some n ∧ Nat.toDigits 10 n = ds := by
  rcases h with rfl | ⟨d, r, rfl, hd, hds⟩
  · exact ⟨0, by decide, by decide⟩
  · have hall : (d :: r).all Char.isDigit = true := List.all_eq_true.2 hds
    refine ⟨_, by rw [readNat, if_pos ⟨List.cons_ne_nil _ _, hall⟩], ?_⟩
    rw [List.forall_mem_cons] at hds
    obtain ⟨hchar, hlt⟩ := digitChar_of_isDigit hds.1
    have hpos : 0 < d.toNat - 48 := by
      rcases Nat.eq_zero_or_pos (d.toNat - 48) with h0 | h0
      · rw [h0] at hchar
        exact absurd hchar.symm hd
      · exact h0
    rw [Nat.ofDigitChars_cons, show '0'.toNat = 48 from rfl, Nat.mul_zero, Nat.zero_add,
      toDigits_ofDigitChars hpos hds.2, Nat.toDigits_of_lt_base hlt, hchar, List.singleton_append]

/-- Digits without a sign are read as a natural number. -/
theorem readInt_of_isDigits {ds : List Char} (h : IsDigits ds) :
    readInt ds = (readNat ds).map Int.ofNat := by
  have hhead : ∀ c ∈ ds.head?, c.isDigit = true := by
    rcases h with rfl | ⟨d, r, rfl, -, hds⟩
    · intro c hc
      obtain rfl := Option.some.inj hc
      decide
    · intro c hc
      obtain rfl := Option.some.inj hc
      exact hds d (.head _)
  unfold readInt
  split
  · exact absurd (hhead '-' rfl) (by decide)
  · exact absurd (hhead '+' rfl) (by decide)
  · rfl

/-- **A literal is the plain spelling of its value**, or it is `-0`. -/
theorem IsLiteral.cases {n : List Char} (h : IsLiteral n) :
    ∃ i, readInt n = some i ∧ (n = intText i ∧ n ≠ negativeZero ∨ n = negativeZero ∧ i = 0) := by
  rcases h with hds | ⟨ds, rfl, hds⟩
  · obtain ⟨m, hread, hspell⟩ := hds.spells
    refine ⟨m, by rw [readInt_of_isDigits hds, hread]; rfl, .inl ⟨?_, ?_⟩⟩
    · rw [intText, if_neg (by omega), Int.natAbs_natCast, hspell]
    · intro hneg
      have hread' := readInt_of_isDigits hds
      rw [hneg] at hds
      rcases hds with h | ⟨d, r, h, -, hall⟩
      · cases h
      · exact absurd (hall '-' (.head _)) (by decide)
  · obtain ⟨m, hread, hspell⟩ := hds.spells
    refine ⟨-m, by rw [readInt, hread]; rfl, ?_⟩
    rcases Nat.eq_zero_or_pos m with rfl | hm
    · exact .inr ⟨by rw [← hspell]; rfl, rfl⟩
    · refine .inl ⟨?_, ?_⟩
      · rw [intText, if_pos (by omega), Int.natAbs_neg, Int.natAbs_natCast, hspell]
      · intro hneg
        obtain rfl : ds = ['0'] := (List.cons.inj hneg).2
        obtain rfl : m = 0 := Option.some.inj (hread.symm.trans (by decide))
        exact absurd hm (by decide)

/-- Two literals of one value are the same text, unless one of them alone is `-0`. -/
theorem IsLiteral.eq_iff {m n : List Char} (hm : IsLiteral m) (hn : IsLiteral n)
    (h : readInt m = readInt n) : m = n ↔ (m = negativeZero ↔ n = negativeZero) := by
  obtain ⟨i, hi, hmi⟩ := hm.cases
  obtain ⟨j, hj, hnj⟩ := hn.cases
  obtain rfl : i = j := Option.some.inj (hi.symm.trans (h.trans hj))
  rcases hmi with ⟨hmi, hmz⟩ | ⟨hmz, -⟩
  · rcases hnj with ⟨hnj, hnz⟩ | ⟨hnz, -⟩
    · exact iff_of_true (hmi.trans hnj.symm) (iff_of_false hmz hnz)
    · exact iff_of_false (fun h => hmz (h.trans hnz)) fun h => hmz (h.2 hnz)
  · rcases hnj with ⟨hnj, hnz⟩ | ⟨hnz, -⟩
    · exact iff_of_false (fun h => hnz (h.symm.trans hmz)) fun h => hnz (h.1 hmz)
    · exact iff_of_true (hmz.trans hnz.symm) (iff_of_true hmz hnz)

/-! ## Reading a literal -/

/-- The longest number at the front, if it is an integer, as it is spelled. -/
def readDigits (s : List Char) : Option (List Char × List Char) :=
  let r := s.dropWhile Char.isDigit
  match s.takeWhile Char.isDigit with
  | [] => none
  | '0' :: d :: ds => some (['0'], d :: ds ++ r)
  | ds => if isFraction r then none else some (ds, r)

/-- The integer literal at the front. -/
def readLiteral : List Char → Option (List Char × List Char)
  | '-' :: s => (readDigits s).map fun (ds, r) => ('-' :: ds, r)
  | s => readDigits s

/-- What the reader takes are digits. -/
theorem isDigits_of_readDigits {s ds r : List Char} (h : readDigits s = some (ds, r)) :
    IsDigits ds := by
  have hdigit : ∀ c ∈ s.takeWhile Char.isDigit, c.isDigit = true :=
    List.all_eq_true.1 (List.all_takeWhile (p := Char.isDigit) (l := s))
  simp only [readDigits] at h
  split at h
  · cases h
  · obtain ⟨rfl, -⟩ := Prod.mk.inj (Option.some.inj h)
    exact .inl rfl
  · rename_i htake hnil hzero
    split at h
    · cases h
    · obtain ⟨rfl, -⟩ := Prod.mk.inj (Option.some.inj h)
      cases hs : s.takeWhile Char.isDigit with
      | nil => exact absurd hs hnil
      | cons d ds =>
        rw [hs] at hdigit
        by_cases hd : d = '0'
        · subst hd
          cases ds with
          | nil => exact .inl rfl
          | cons e ds => exact absurd hs (hzero e ds)
        · exact .inr ⟨d, ds, rfl, hd, hdigit⟩

/-- What is read as a literal is one. -/
theorem isLiteral_of_readLiteral {s n r : List Char} (h : readLiteral s = some (n, r)) :
    IsLiteral n := by
  unfold readLiteral at h
  split at h
  · obtain ⟨⟨ds, r⟩, hds, heq⟩ := Option.map_eq_some_iff.1 h
    obtain ⟨rfl, -⟩ := Prod.mk.inj heq
    exact .inr ⟨ds, rfl, isDigits_of_readDigits hds⟩
  · exact .inl (isDigits_of_readDigits h)

end JsonText
