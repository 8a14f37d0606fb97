import Mathlib.Algebra.Order.Ring.Nat
import Mathlib.Data.List.Induction
import Mathlib.Tactic.Ring

/-! # Numbers on the wire

A number of some bytes in network order, the highest byte first.
-/

namespace Vpopmail.Wire

/-- The low `width` bytes of a number. -/
def toNetwork : (width : Nat) → Nat → List UInt8
  | 0, _ => []
  | width + 1, number => toNetwork width (number / 256) ++ [UInt8.ofNat number]

def ofNetwork (bytes : List UInt8) : Nat :=
  bytes.foldl (fun number byte => number * 256 + byte.toNat) 0

@[simp] theorem toNetwork_length (width number : Nat) :
    (toNetwork width number).length = width := by
  induction width generalizing number with
  | zero => rfl
  | succ width induction => simp [toNetwork, induction]

theorem ofNetwork_snoc (bytes : List UInt8) (byte : UInt8) :
    ofNetwork (bytes ++ [byte]) = ofNetwork bytes * 256 + byte.toNat := by
  simp [ofNetwork]

theorem ofNetwork_toNetwork (width number : Nat) :
    ofNetwork (toNetwork width number) = number % 256 ^ width := by
  induction width generalizing number with
  | zero => simp [toNetwork, ofNetwork, Nat.mod_one]
  | succ width induction =>
      rw [toNetwork, ofNetwork_snoc, induction, pow_succ', Nat.mod_mul,
        UInt8.toNat_ofNat']
      ring

theorem ofNetwork_cons (byte : UInt8) (bytes : List UInt8) :
    ofNetwork (byte :: bytes) = byte.toNat * 256 ^ bytes.length + ofNetwork bytes := by
  induction bytes using List.reverseRecOn with
  | nil => simp [ofNetwork]
  | append_singleton bytes final induction =>
      rw [← List.cons_append, ofNetwork_snoc, induction, ofNetwork_snoc, List.length_append,
        List.length_singleton, pow_succ]
      ring

theorem ofNetwork_lt (bytes : List UInt8) : ofNetwork bytes < 256 ^ bytes.length := by
  induction bytes with
  | nil => simp [ofNetwork]
  | cons byte bytes induction =>
      have small : byte.toNat + 1 ≤ 256 := byte.toNat_lt
      have scaled := Nat.mul_le_mul_right (256 ^ bytes.length) small
      rw [ofNetwork_cons, List.length_cons, pow_succ']
      rw [Nat.add_mul, Nat.one_mul] at scaled
      omega

/-- A number that fits is read back. -/
theorem ofNetwork_toNetwork_of_lt {width number : Nat} (fits : number < 256 ^ width) :
    ofNetwork (toNetwork width number) = number := by
  rw [ofNetwork_toNetwork, Nat.mod_eq_of_lt fits]

end Vpopmail.Wire
