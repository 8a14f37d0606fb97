import Mathlib.Algebra.Ring.Int.Defs
import Mathlib.Order.Basic

/-! # Signed arithmetic

A result that does not fit its signed type has no value, since C gives an overflow no meaning.
-/

namespace Vpopmail.Signed

/-- A number as a result of `width` bits. -/
def signed (width : Nat) (value : Int) : Option Int :=
  if -2 ^ (width - 1) ≤ value ∧ value < 2 ^ (width - 1) then some value else none

variable {width : Nat} {value : Int}

theorem signed_of_fits (lower : -2 ^ (width - 1) ≤ value) (upper : value < 2 ^ (width - 1)) :
    signed width value = some value :=
  if_pos ⟨lower, upper⟩

theorem signed_of_nonneg (nonneg : 0 ≤ value) (upper : value < 2 ^ (width - 1)) :
    signed width value = some value := by
  have positive : (0 : Int) < 2 ^ (width - 1) := Int.pow_pos (by decide)
  exact signed_of_fits (by omega) upper

theorem signed_overflow (large : 2 ^ (width - 1) ≤ value) : signed width value = none :=
  if_neg fun fits => Int.not_lt.mpr large fits.2

end Vpopmail.Signed
