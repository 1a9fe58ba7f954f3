import Finality.Canonical.Equivalence

/-!
# A concrete runtime

An NFC that composes `e` with a combining acute accent and leaves everything else alone, and a
digest that writes its input in hexadecimal, which is injective as the results assume of SHA-256.
-/

namespace Finality

/-- Compose each `e` with a combining acute accent after it. -/
def composeAcute : List Char → List Char
  | [] => []
  | [c] => [c]
  | c :: d :: r =>
      if c = 'e' ∧ d = Char.ofNat 0x301 then Char.ofNat 0xE9 :: composeAcute r
      else c :: composeAcute (d :: r)

/-- The first letter stays, or takes the accent that follows it. -/
theorem composeAcute_head (c : Char) (r : List Char) :
    ∃ t, composeAcute (c :: r) = c :: t ∨ composeAcute (c :: r) = Char.ofNat 0xE9 :: t := by
  cases r with
  | nil => exact ⟨[], .inl rfl⟩
  | cons d r =>
    rw [composeAcute]
    split
    · exact ⟨_, .inr rfl⟩
    · exact ⟨_, .inl rfl⟩

/-- What is composed has no `e` before an accent left. -/
theorem composeAcute_idem (s : List Char) : composeAcute (composeAcute s) = composeAcute s := by
  fun_induction composeAcute s with
  | case1 => rfl
  | case2 c => rfl
  | case3 c d r h ih =>
    obtain ⟨hc, -⟩ := h
    generalize composeAcute r = t at ih ⊢
    cases t with
    | nil => rfl
    | cons x t =>
      rw [composeAcute, if_neg (by simp), ih]
  | case4 c d r h ih =>
    obtain ⟨t, ht | ht⟩ := composeAcute_head d r
    · rw [ht] at ih ⊢
      rw [composeAcute, if_neg h, ih]
    · rw [ht] at ih ⊢
      rw [composeAcute, if_neg (by simp), ih]

/-- There is no accent in ASCII to compose. -/
theorem composeAcute_ascii (s : List Char) (h : ∀ c ∈ s, c.toNat < 128) : composeAcute s = s := by
  fun_induction composeAcute s with
  | case1 => rfl
  | case2 c => rfl
  | case3 c d r hcd ih =>
    have hd := h d (by simp)
    rw [hcd.2] at hd
    exact absurd hd (by decide)
  | case4 c d r hcd ih => rw [ih fun x hx => h x (List.mem_cons_of_mem c hx)]

/-- A text that comes out as digits and plain letters went in so: composing makes `é`. -/
theorem composeAcute_inert (s : List Char) (h : ∀ c ∈ composeAcute s, isInert c = true) :
    composeAcute s = s := by
  fun_induction composeAcute s with
  | case1 => rfl
  | case2 c => rfl
  | case3 c d r hcd ih => exact absurd (h _ (List.mem_cons_self ..)) (by decide)
  | case4 c d r hcd ih => rw [ih fun x hx => h x (List.mem_cons_of_mem c hx)]

/-- The runtime. -/
def sampleRuntime : Runtime where
  nfc := composeAcute
  nfc_idem := composeAcute_idem
  nfc_ascii := composeAcute_ascii
  nfc_inert := composeAcute_inert
  sha256 := Hex.encode
  sha256_isHex := fun _ _ h => Hex.isHexDigit_encode h
  hmac_sha256 := fun key data => Hex.encode (key ++ data)
  hmac_isHex := fun _ _ _ h => Hex.isHexDigit_encode h

/-- The sample digest tells all bytes apart. -/
theorem sample_injective : ShaInjective sampleRuntime := Hex.encode_injective.injOn

end Finality
