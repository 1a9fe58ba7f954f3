import Mathlib.Data.Int.Log
import Mathlib.Data.Rat.Floor
import Mathlib.Tactic.Linarith
import Mathlib.Tactic.Positivity
import Mathlib.Tactic.FieldSimp
import Mathlib.Tactic.Ring
import Mathlib.Tactic.SplitIfs

/-!
# Doubles

A number of a language whose only number type is the IEEE 754 double. A finite double is the
rational number it stands for, `ofRat` is the double nearest to a rational number, ties to even, and
sums and differences are the doubles nearest to the exact ones. The two zeros are not told apart:
no comparison here does, and neither does a sum.

Integers below `2 ^ 53` in absolute value are kept (`ofInt_of_lt`) and no other integer rounds to
one of them (`natAbs_lt_of_ofInt`), so on that range the arithmetic is exact.
-/

namespace Doubles

/-- A finite double, an infinity or NaN. -/
inductive Double where
  | nan
  | negInf
  | finite (q : ℚ)
  | inf
  deriving DecidableEq

/-- The integer nearest to a number, ties to even. -/
def roundEven (q : ℚ) : ℤ :=
  let r := q - ⌊q⌋
  if r < 1 / 2 ∨ r = 1 / 2 ∧ ⌊q⌋ % 2 = 0 then ⌊q⌋ else ⌊q⌋ + 1

/-- The unit in the last place of the doubles around a positive number: their significands have 53
bits, and the least of them is `2 ^ -1074`. -/
def ulp (q : ℚ) : ℚ := 2 ^ max (Int.log 2 q - 52) (-1074)

/-- The multiple of the unit in the last place nearest to a number, ties to even. -/
def nearest (q : ℚ) : ℚ := roundEven (q / ulp q) * ulp q

/-- The exponent of the least power of two beyond the finite doubles. -/
def maxExponent : Nat := 1024

/-- The least power of two beyond the finite doubles. -/
def limit : ℚ := 2 ^ maxExponent

/-- The double nearest to a rational number. -/
def ofRat (q : ℚ) : Double :=
  let n := nearest |q|
  if n < limit then .finite (if q < 0 then -n else n) else if q < 0 then .negInf else .inf

/-- The double nearest to an integer. -/
def ofInt (i : Int) : Double := ofRat i

namespace Double

/-- The sum of two doubles. -/
def add : Double → Double → Double
  | nan, _ | _, nan => nan
  | inf, negInf | negInf, inf => nan
  | inf, _ | _, inf => inf
  | negInf, _ | _, negInf => negInf
  | finite q, finite r => ofRat (q + r)

/-- The double of opposite sign. -/
def neg : Double → Double
  | nan => nan
  | negInf => inf
  | finite q => finite (-q)
  | inf => negInf

/-- The difference of two doubles. -/
def sub (x y : Double) : Double := x.add y.neg

/-- Numeric equality, which no NaN satisfies. -/
def eq : Double → Double → Bool
  | nan, _ | _, nan => false
  | x, y => x = y

/-- Numeric order. -/
def lt : Double → Double → Bool
  | nan, _ | _, nan => false
  | negInf, y => y ≠ negInf
  | _, negInf => false
  | finite q, finite r => q < r
  | finite _, inf => true
  | inf, _ => false

end Double

/-! ## Integers -/

/-- An integer is rounded to a number. -/
theorem ofInt_ne_nan (i : Int) : ofInt i ≠ .nan := by
  rw [ofInt, ofRat]
  split_ifs <;> simp

/-- But for NaN, doubles compare as the values they are. -/
theorem eq_iff_of_ne_nan {x y : Double} (hx : x ≠ .nan) (hy : y ≠ .nan) :
    x.eq y = true ↔ x = y := by
  cases x <;> cases y <;> simp_all [Double.eq]

/-- Adding integers rounds their sum. -/
theorem add_intCast (i j : Int) : (Double.finite i).add (.finite j) = ofInt (i + j) := by
  rw [ofInt, Int.cast_add]
  rfl

/-- Subtracting them rounds their difference. -/
theorem sub_intCast (i j : Int) : (Double.finite i).sub (.finite j) = ofInt (i - j) := by
  rw [ofInt, Int.cast_sub, sub_eq_add_neg]
  rfl

theorem add_one (i : Int) : (Double.finite i).add (.finite 1) = ofInt (i + 1) := by
  rw [← add_intCast, Int.cast_one]

theorem sub_one (i : Int) : (Double.finite i).sub (.finite 1) = ofInt (i - 1) := by
  rw [← sub_intCast, Int.cast_one]

/-- Comparing integers is exact. -/
@[simp] theorem lt_intCast (i j : Int) :
    (Double.finite i).lt (.finite j) = true ↔ i < j := by
  rw [Double.lt, decide_eq_true_eq, Int.cast_lt]

/-! ## Below `2 ^ 53` nothing is rounded -/

/-- An integer is rounded to itself. -/
theorem roundEven_intCast (i : ℤ) : roundEven i = i := by
  rw [roundEven, Int.floor_intCast, sub_self]
  exact if_pos (.inl (by norm_num))

/-- Rounding to integers does not go below an integer. -/
theorem le_roundEven {z : ℤ} {q : ℚ} (h : z ≤ q) : z ≤ roundEven q := by
  have hfloor : z ≤ ⌊q⌋ := Int.le_floor.2 h
  simp only [roundEven]
  split_ifs <;> omega

/-- The unit in the last place of the doubles around a natural number. -/
theorem ulp_natCast (n : ℕ) : ulp n = 2 ^ ((Nat.log 2 n : ℤ) - 52) := by
  rw [ulp, Int.log_natCast, max_eq_left (by omega)]

/-- Below `2 ^ 53` the nearest double is the integer. -/
theorem nearest_of_lt {n : ℕ} (h : n < 2 ^ 53) : nearest n = n := by
  have hlog : Nat.log 2 n ≤ 52 := by
    rcases Nat.eq_zero_or_pos n with rfl | hn
    · simp
    · exact Nat.lt_succ_iff.1 (Nat.log_lt_of_lt_pow (by omega) h)
  obtain ⟨k, hk⟩ : ∃ k : ℕ, (Nat.log 2 n : ℤ) - 52 = -k := ⟨52 - Nat.log 2 n, by omega⟩
  have hulp : ulp n = (2 ^ k)⁻¹ := by
    rw [ulp_natCast, hk, zpow_neg, zpow_natCast]
  -- the number is a multiple of the unit
  have hquot : (n : ℚ) / ulp n = ((n * 2 ^ k : ℤ) : ℚ) := by
    rw [hulp, div_inv_eq_mul]
    push_cast
    rfl
  rw [nearest, hquot, roundEven_intCast, hulp]
  push_cast
  field_simp

/-- A number from `2 ^ 53` on rounds to one from `2 ^ 53` on. -/
theorem le_nearest {n : ℕ} (h : 2 ^ 53 ≤ n) : (2 : ℚ) ^ 53 ≤ nearest n := by
  have hlog : 53 ≤ Nat.log 2 n := Nat.le_log_of_pow_le Nat.one_lt_two h
  obtain ⟨k, hk⟩ : ∃ k : ℕ, Nat.log 2 n = k + 53 := ⟨Nat.log 2 n - 53, by omega⟩
  have hulp : ulp n = 2 ^ (k + 1) := by
    rw [ulp_natCast, hk, ← zpow_natCast]
    congr 1
    push_cast
    ring
  have hpow : (2 : ℚ) ^ (k + 53) ≤ n := by
    rw [← hk]
    exact_mod_cast Nat.pow_log_le_self 2 (by omega : n ≠ 0)
  -- the significand has 53 bits, so it is at least `2 ^ 52`
  have hsig : ((2 ^ 52 : ℤ) : ℚ) ≤ n / ulp n := by
    rw [hulp, le_div_iff₀ (by positivity)]
    calc ((2 ^ 52 : ℤ) : ℚ) * 2 ^ (k + 1) = 2 ^ (k + 53) := by
          push_cast
          ring
      _ ≤ n := hpow
  have hround : ((2 ^ 52 : ℤ) : ℚ) ≤ roundEven (n / ulp n) := Int.cast_le.2 (le_roundEven hsig)
  calc (2 : ℚ) ^ 53 = ((2 ^ 52 : ℤ) : ℚ) * 2 := by norm_num
    _ ≤ roundEven (n / ulp n) * 2 ^ (k + 1) := by
        refine mul_le_mul hround ?_ (by norm_num) (le_trans (by norm_num) hround)
        exact le_self_pow₀ (by norm_num) (Nat.succ_ne_zero k)
    _ = nearest n := by rw [nearest, hulp]

/-- `2 ^ 53` is far below the limit of the finite doubles. -/
theorem two_pow_lt_limit : (2 : ℚ) ^ 53 < limit :=
  pow_lt_pow_right₀ (by norm_num) (show 53 < maxExponent by decide)

/-- The size of an integer. -/
theorem abs_intCast (i : ℤ) : |(i : ℚ)| = (i.natAbs : ℚ) := by
  rw [← Int.cast_abs, Int.abs_eq_natAbs, Int.cast_natCast]

/-- **A safe integer is kept.** -/
theorem ofInt_of_lt {i : Int} (h : i.natAbs < 2 ^ 53) : ofInt i = .finite i := by
  have hlt : (i.natAbs : ℚ) < limit :=
    lt_trans (by exact_mod_cast h) two_pow_lt_limit
  rw [ofInt, ofRat, abs_intCast, nearest_of_lt h]
  simp only [hlt, if_true, Double.finite.injEq, Int.cast_lt_zero]
  rw [← abs_intCast]
  split_ifs with hneg
  · rw [abs_of_neg (Int.cast_lt_zero.2 hneg), neg_neg]
  · exact abs_of_nonneg (Int.cast_nonneg (by omega))

/-- **No other integer becomes a safe one.** -/
theorem natAbs_lt_of_ofInt {i j : Int} (h : ofInt i = .finite j) (hj : j.natAbs < 2 ^ 53) :
    i.natAbs < 2 ^ 53 := by
  by_contra hi
  have hround := le_nearest (Nat.le_of_not_lt hi)
  have hjq : |(j : ℚ)| < 2 ^ 53 := by
    rw [abs_intCast]
    exact_mod_cast hj
  rw [ofInt, ofRat, abs_intCast] at h
  split_ifs at h
  all_goals
    obtain hfinite := Double.finite.inj h
    rw [abs_lt] at hjq
    linarith

/-- A rounded integer equals a safe one when the integers are equal. -/
theorem eq_ofInt_iff {i j : Int} (hj : j.natAbs < 2 ^ 53) :
    (ofInt i).eq (.finite j) = true ↔ i = j := by
  have hexact : (ofInt i).eq (.finite j) = true ↔ ofInt i = .finite j := by
    cases ofInt i <;> simp [Double.eq]
  rw [hexact]
  refine ⟨?_, ?_⟩
  · intro h
    rw [ofInt_of_lt (natAbs_lt_of_ofInt h hj)] at h
    exact Int.cast_injective (Double.finite.inj h)
  · rintro rfl
    exact ofInt_of_lt hj

/-- A rounded integer is below a safe one when the integer is. -/
theorem lt_ofInt_iff {i j : Int} (hj : j.natAbs < 2 ^ 53) :
    (ofInt i).lt (.finite j) = true ↔ i < j := by
  by_cases hi : i.natAbs < 2 ^ 53
  · rw [ofInt_of_lt hi]
    simp [Double.lt]
  · have hround := le_nearest (Nat.le_of_not_lt hi)
    have hjq : |(j : ℚ)| < 2 ^ 53 := by
      rw [abs_intCast]
      exact_mod_cast hj
    rw [abs_lt] at hjq
    rw [ofInt, ofRat, abs_intCast]
    simp only [Int.cast_lt_zero]
    split_ifs with hlim hneg hneg
    · simp only [Double.lt, decide_eq_true_eq]
      refine iff_of_true (by linarith) (by omega)
    · simp only [Double.lt, decide_eq_true_eq]
      refine iff_of_false (by linarith) (by omega)
    · simp only [Double.lt, ne_eq, reduceCtorEq, not_false_eq_true, decide_true, true_iff]
      omega
    · simp only [Double.lt, Bool.false_eq_true, false_iff]
      omega

end Doubles
