import Mathlib.Data.Int.Log
import Mathlib.Data.Rat.Floor
import Mathlib.Tactic.FieldSimp
import Mathlib.Tactic.Linarith
import Mathlib.Tactic.Positivity
import Mathlib.Tactic.Ring

/-! # Binary floating-point numbers

The values of a `double`, and the rounding of a quotient to the nearest of them, to the even
one between two. Rounding keeps the order with respect to all doubles, so that a comparison
with a double can only be wrong by equality.
-/

namespace Vpopmail.Binary64

/-- A finite value of a `double`. -/
def IsDouble (value : ℚ) : Prop :=
  ∃ mantissa exponent : ℤ, |mantissa| < 2 ^ 53 ∧ -1074 ≤ exponent ∧ exponent ≤ 971 ∧
    value = mantissa * 2 ^ exponent

/-- The nearest whole number, the even one if there are two. -/
def roundHalfEven (value : ℚ) : ℤ :=
  let floor := ⌊value⌋
  if value - floor < 1 / 2 then floor
  else if 1 / 2 < value - floor then floor + 1
  else if floor % 2 = 0 then floor
  else floor + 1

/-- The exponent of the last place. -/
def lastPlace (value : ℚ) : ℤ := max (-1074) (Int.log 2 value - 52)

/-- The distance of the doubles around a value that is not negative. -/
def ulp (value : ℚ) : ℚ := 2 ^ lastPlace value

/-- The nearest double to a value from zero on that is not too large for one. -/
def round (value : ℚ) : ℚ := roundHalfEven (value / ulp value) * ulp value

/-! ## Whole numbers -/

section RoundHalfEven

variable {value : ℚ} {bound : ℤ}

theorem roundHalfEven_error (value : ℚ) : |roundHalfEven value - value| ≤ 1 / 2 := by
  have lower := Int.floor_le value
  have upper := Int.lt_floor_add_one value
  rw [abs_le, roundHalfEven]
  split_ifs with below above even
  · constructor <;> linarith
  · push_cast
    constructor <;> linarith
  · constructor <;> linarith
  · push_cast
    constructor <;> linarith

theorem roundHalfEven_le (below : value ≤ bound) : roundHalfEven value ≤ bound := by
  have error := abs_le.mp (roundHalfEven_error value)
  by_contra above
  have next : bound + 1 ≤ roundHalfEven value := by omega
  have reached : (bound : ℚ) + 1 ≤ roundHalfEven value := by exact_mod_cast next
  linarith

theorem le_roundHalfEven (above : bound ≤ value) : bound ≤ roundHalfEven value := by
  have error := abs_le.mp (roundHalfEven_error value)
  by_contra below
  have next : roundHalfEven value + 1 ≤ bound := by omega
  have reached : (roundHalfEven value : ℚ) + 1 ≤ bound := by exact_mod_cast next
  linarith

end RoundHalfEven

/-! ## Doubles -/

section Round

variable {value double : ℚ}

theorem ulp_pos (value : ℚ) : 0 < ulp value := zpow_pos (by norm_num) _

/-- A double is a multiple of the last place, or it is smaller than all values with this last
place. -/
theorem multiple_or_small (representable : IsDouble double) (positive : 0 < value) :
    (∃ count : ℤ, double = count * ulp value) ∨
      (double < 2 ^ (52 : ℤ) * ulp value ∧ 2 ^ (52 : ℤ) * ulp value ≤ value) := by
  rcases representable with ⟨mantissa, exponent, bounded, lowest, _, rfl⟩
  have two : (2 : ℚ) ≠ 0 := by norm_num
  by_cases fine : lastPlace value ≤ exponent
  · left
    refine ⟨mantissa * 2 ^ (exponent - lastPlace value).toNat, ?_⟩
    have split : (2 : ℚ) ^ exponent =
        2 ^ (exponent - lastPlace value).toNat * 2 ^ lastPlace value := by
      rw [← zpow_natCast, ← zpow_add₀ two, Int.toNat_of_nonneg (by omega), Int.sub_add_cancel]
    rw [ulp, split]
    push_cast
    ring
  · right
    have normal : lastPlace value = Int.log 2 value - 52 := by
      rw [lastPlace] at fine ⊢
      omega
    have magnitude : (2 : ℚ) ^ (52 : ℤ) * ulp value = 2 ^ Int.log 2 value := by
      rw [ulp, normal, ← zpow_add₀ two]
      congr 1
      omega
    constructor
    · have small : ((mantissa : ℤ) : ℚ) < 2 ^ 53 := by
        have absolute := (le_abs_self mantissa).trans_lt bounded
        exact_mod_cast absolute
      calc (mantissa : ℚ) * 2 ^ exponent < 2 ^ 53 * 2 ^ exponent :=
            mul_lt_mul_of_pos_right small (zpow_pos (by norm_num) _)
        _ = 2 ^ (53 + exponent) := by
            rw [zpow_add₀ two]
            norm_num
        _ ≤ 2 ^ (52 + lastPlace value) := zpow_le_zpow_right₀ (by norm_num) (by omega)
        _ = 2 ^ (52 : ℤ) * ulp value := by rw [zpow_add₀ two, ulp]
    · rw [magnitude]
      exact_mod_cast Int.zpow_log_le_self (by norm_num) positive

theorem round_zero : round 0 = 0 := by
  have none : roundHalfEven 0 = 0 :=
    le_antisymm (roundHalfEven_le (by norm_num)) (le_roundHalfEven (by norm_num))
  rw [round, zero_div, none]
  simp

theorem round_le (representable : IsDouble double) (nonneg : 0 ≤ value) (below : value ≤ double) :
    round value ≤ double := by
  rcases nonneg.eq_or_lt with rfl | positive
  · rw [round_zero]
    exact below
  · have place := ulp_pos value
    rcases multiple_or_small representable positive with ⟨count, rfl⟩ | ⟨small, large⟩
    · have inside : value / ulp value ≤ count := (div_le_iff₀ place).mpr below
      have rounded : (roundHalfEven (value / ulp value) : ℚ) ≤ count := by
        exact_mod_cast roundHalfEven_le inside
      exact mul_le_mul_of_nonneg_right rounded place.le
    · linarith

theorem le_round (representable : IsDouble double) (nonneg : 0 ≤ value) (above : double ≤ value) :
    double ≤ round value := by
  rcases nonneg.eq_or_lt with rfl | positive
  · rw [round_zero]
    exact above
  · have place := ulp_pos value
    rcases multiple_or_small representable positive with ⟨count, rfl⟩ | ⟨small, large⟩
    · have inside : (count : ℚ) ≤ value / ulp value := (le_div_iff₀ place).mpr above
      have rounded : (count : ℚ) ≤ roundHalfEven (value / ulp value) := by
        exact_mod_cast le_roundHalfEven inside
      exact mul_le_mul_of_nonneg_right rounded place.le
    · have inside : ((2 ^ 52 : ℤ) : ℚ) ≤ value / ulp value := by
        rw [le_div_iff₀ place]
        push_cast
        exact_mod_cast large
      have rounded : ((2 ^ 52 : ℤ) : ℚ) ≤ roundHalfEven (value / ulp value) := by
        exact_mod_cast le_roundHalfEven inside
      have reached := mul_le_mul_of_nonneg_right rounded place.le
      rw [round]
      push_cast at reached
      have same : (2 : ℚ) ^ (52 : ℤ) = 2 ^ 52 := by norm_num
      rw [same] at small
      linarith

/-- A double is not rounded. -/
theorem round_eq_self (representable : IsDouble value) (nonneg : 0 ≤ value) :
    round value = value :=
  le_antisymm (round_le representable nonneg le_rfl) (le_round representable nonneg le_rfl)

theorem round_error (value : ℚ) : |round value - value| ≤ ulp value / 2 := by
  have place := ulp_pos value
  have error := roundHalfEven_error (value / ulp value)
  have whole : value / ulp value * ulp value = value := div_mul_cancel₀ value place.ne'
  have scaled : round value - value =
      (roundHalfEven (value / ulp value) - value / ulp value) * ulp value := by
    rw [sub_mul, whole, round]
  rw [scaled, abs_mul, abs_of_pos place]
  linarith [mul_le_mul_of_nonneg_right error place.le]

/-- A proper fraction is rounded by less than its last place. -/
theorem ulp_le_of_lt_one (nonneg : 0 < value) (proper : value < 1) : ulp value ≤ 2 ^ (-53 : ℤ) := by
  have negative : Int.log 2 value < 0 := by
    rw [← Int.lt_zpow_iff_log_lt (by norm_num) nonneg]
    simpa using proper
  rw [ulp, lastPlace]
  exact zpow_le_zpow_right₀ (by norm_num) (by omega)

/-- What a value up to one is rounded to is a double. -/
theorem isDouble_round (nonneg : 0 ≤ value) (proper : value ≤ 1) : IsDouble (round value) := by
  rcases nonneg.eq_or_lt with rfl | positive
  · exact ⟨0, 0, by norm_num, by norm_num, by norm_num, by rw [round_zero]; norm_num⟩
  · have place := ulp_pos value
    have two : (2 : ℚ) ≠ 0 := by norm_num
    have low : Int.log 2 value ≤ 0 := by
      have monotone := Int.log_mono_right (b := 2) positive proper
      rwa [Int.log_one_right] at monotone
    have small : value < 2 ^ (53 + lastPlace value) := by
      refine (Int.lt_zpow_succ_log_self (by norm_num : 1 < 2) value).trans_le ?_
      apply zpow_le_zpow_right₀ (by norm_num)
      rw [lastPlace]
      omega
    have bounded : value / ulp value ≤ ((2 ^ 53 : ℤ) : ℚ) := by
      rw [div_le_iff₀ place]
      refine small.le.trans (le_of_eq ?_)
      rw [zpow_add₀ two, ulp]
      norm_num
    have reached := roundHalfEven_le bounded
    have lower : 0 ≤ roundHalfEven (value / ulp value) := by
      apply le_roundHalfEven
      push_cast
      positivity
    have lowest : -1074 ≤ lastPlace value := le_max_left _ _
    have highest : lastPlace value ≤ -52 := by
      rw [lastPlace]
      omega
    rcases reached.eq_or_lt with full | fits
    · refine ⟨2 ^ 52, lastPlace value + 1, by norm_num, by omega, by omega, ?_⟩
      rw [round, full, ulp, zpow_add₀ two]
      push_cast
      ring
    · refine ⟨roundHalfEven (value / ulp value), lastPlace value, ?_, lowest, by omega, rfl⟩
      rwa [abs_of_nonneg lower]

end Round

end Vpopmail.Binary64
