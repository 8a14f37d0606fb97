import Mathlib.Data.Fin.Basic
import Mathlib.Data.List.Basic

/-! # Counting through words

Words over the digits `0` to `last`, shorter ones before longer ones. A word is
written with its lowest digit first.
-/

namespace Vpopmail.Words

variable {last : Nat}

/-- The next word: the lowest digit goes up, and a digit at its end starts over
and carries into the digits above. -/
def successor : List (Fin (last + 1)) → List (Fin (last + 1))
  | [] => [0]
  | digit :: above =>
      if digit = Fin.last last then 0 :: successor above else (digit + 1) :: above

/-- The number of words before this one. -/
def rank : List (Fin (last + 1)) → Nat
  | [] => 0
  | digit :: above => digit.val + 1 + (last + 1) * rank above

/-- The word with this many words before it. -/
def word : Nat → List (Fin (last + 1))
  | 0 => []
  | count + 1 => successor (word count)

theorem successor_last (above : List (Fin (last + 1))) :
    successor (Fin.last last :: above) = 0 :: successor above := if_pos rfl

theorem successor_of_ne {digit : Fin (last + 1)} (below : digit ≠ Fin.last last)
    (above : List (Fin (last + 1))) : successor (digit :: above) = (digit + 1) :: above :=
  if_neg below

theorem val_succ_of_ne_last {digit : Fin (last + 1)} (below : digit ≠ Fin.last last) :
    (digit + 1).val = digit.val + 1 :=
  Fin.val_add_one_of_lt (Fin.lt_last_iff_ne_last.mpr below)

theorem rank_successor (digits : List (Fin (last + 1))) :
    rank (successor digits) = rank digits + 1 := by
  induction digits with
  | nil => rfl
  | cons digit above induction =>
      by_cases ending : digit = Fin.last last
      · rw [ending, successor_last, rank, rank, induction, Nat.mul_add, Fin.val_zero, Fin.val_last]
        omega
      · rw [successor_of_ne ending, rank, rank, val_succ_of_ne_last ending]
        omega

theorem rank_word (count : Nat) : rank (word count : List (Fin (last + 1))) = count := by
  induction count with
  | zero => rfl
  | succ count induction => rw [word, rank_successor, induction]

/-- Words with the same number of words before them are the same. -/
theorem word_injective : Function.Injective (word : Nat → List (Fin (last + 1))) := by
  intro first second same
  have ranks := congrArg rank same
  rw [rank_word, rank_word] at ranks
  exact ranks

/-- The number of words with at most this many digits, the empty one left out. -/
def capacity (last : Nat) : Nat → Nat
  | 0 => 0
  | digits + 1 => (last + 1) * (capacity last digits + 1)

theorem capacity_lt_rank {digits : List (Fin (last + 1))} {length : Nat}
    (long : length < digits.length) : capacity last length < rank digits := by
  induction digits generalizing length with
  | nil => cases long
  | cons digit above induction =>
      rw [rank]
      cases length with
      | zero =>
          rw [capacity]
          omega
      | succ length =>
          have higher := induction (Nat.lt_of_succ_lt_succ long)
          have scaled : (last + 1) * (capacity last length + 1) ≤ (last + 1) * rank above :=
            Nat.mul_le_mul_left (last + 1) higher
          rw [capacity]
          omega

theorem length_word_le {count length : Nat} (fits : count ≤ capacity last length) :
    (word count : List (Fin (last + 1))).length ≤ length := by
  apply Nat.le_of_not_lt
  intro long
  have beyond := capacity_lt_rank long
  rw [rank_word] at beyond
  exact absurd fits (Nat.not_le_of_lt beyond)

end Vpopmail.Words
