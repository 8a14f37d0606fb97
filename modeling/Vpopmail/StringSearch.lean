import Mathlib.Data.List.Infix
import Vpopmail.Backfill
import Vpopmail.Foundation.Text

/-! # Searches for a string

What `strstr` finds: the first occurrence, behind which nothing was looked at.
-/

namespace Vpopmail.Backfill

open Text

/-- `needle` occurs behind `before`, and not sooner. -/
def FirstBehind (needle before : List Char) : Prop :=
  ∀ position < before.length, ¬ needle <+: (before ++ needle).drop position

instance (needle before : List Char) : Decidable (FirstBehind needle before) :=
  inferInstanceAs (Decidable (∀ position < before.length, _))

theorem firstBehind_of_free {head : Char} {before : List Char} (free : Free head before)
    (tail : List Char) : FirstBehind (head :: tail) before := by
  intro position early occurs
  rcases occurs with ⟨after, equal⟩
  rw [List.drop_append_of_le_length (Nat.le_of_lt early), List.drop_eq_getElem_cons early] at equal
  have first := (List.cons.inj equal).1
  exact free (first ▸ List.getElem_mem early)

theorem isPrefixOf_append_iff {needle text : List Char} (long : needle.length ≤ text.length)
    (rest : List Char) : needle <+: text ++ rest ↔ needle <+: text := by
  constructor
  · intro front
    exact List.prefix_of_prefix_length_le front (List.prefix_append text rest) long
  · intro front
    exact front.trans (List.prefix_append text rest)

theorem drop_append_needle {needle before : List Char} {position : Nat}
    (early : position ≤ before.length) (after : List Char) :
    (before ++ needle ++ after).drop position = (before ++ needle).drop position ++ after :=
  List.drop_append_of_le_length (by rw [List.length_append]; omega)

theorem strstr_first {needle before : List Char} (first : FirstBehind needle before)
    (after : List Char) : strstr (before ++ needle ++ after) needle = some before.length := by
  rw [strstr, List.find?_range_eq_some]
  refine ⟨?_, ?_, ?_⟩
  · rw [List.isPrefixOf_iff_prefix, List.append_assoc, List.drop_left]
    exact List.prefix_append needle after
  · rw [List.mem_range, List.length_append, List.length_append]
    omega
  · intro position early
    have other := first position early
    rw [drop_append_needle (Nat.le_of_lt early), Bool.not_eq_true', Bool.eq_false_iff, ne_eq,
      List.isPrefixOf_iff_prefix, isPrefixOf_append_iff]
    · exact other
    · rw [List.length_drop, List.length_append]
      omega

theorem exists_of_strstr {text needle : List Char} {position : Nat}
    (found : strstr text needle = some position) :
    ∃ before after, text = before ++ needle ++ after ∧ before.length = position ∧
      FirstBehind needle before := by
  rw [strstr, List.find?_range_eq_some] at found
  rcases found with ⟨front, inside, earlier⟩
  rw [List.isPrefixOf_iff_prefix] at front
  rw [List.mem_range] at inside
  rcases front with ⟨after, equal⟩
  have length : (text.take position).length = position := List.length_take_of_le (by omega)
  have whole : text = text.take position ++ needle ++ after := by
    rw [List.append_assoc, equal, List.take_append_drop]
  refine ⟨text.take position, after, whole, length, ?_⟩
  intro sooner early occurs
  rw [length] at early
  have missing := earlier sooner early
  rw [Bool.not_eq_true', Bool.eq_false_iff, ne_eq, List.isPrefixOf_iff_prefix] at missing
  apply missing
  rw [whole, drop_append_needle (by omega)]
  exact occurs.trans (List.prefix_append _ after)

theorem strstr_isSome_iff (text needle : List Char) :
    (strstr text needle).isSome = true ↔ needle <:+: text := by
  constructor
  · intro some_
    rcases Option.isSome_iff_exists.mp some_ with ⟨position, found⟩
    rcases exists_of_strstr found with ⟨before, after, equal, -, -⟩
    exact ⟨before, after, equal.symm⟩
  · intro occurs
    rcases occurs with ⟨before, after, rfl⟩
    rw [strstr, List.find?_isSome]
    refine ⟨before.length, ?_, ?_⟩
    · rw [List.mem_range, List.length_append, List.length_append]
      omega
    · rw [List.isPrefixOf_iff_prefix, List.append_assoc, List.drop_left]
      exact List.prefix_append needle after

theorem strstr_eq_none_iff (text needle : List Char) :
    strstr text needle = none ↔ ¬ needle <:+: text := by
  rw [← strstr_isSome_iff, Bool.not_eq_true, Option.isSome_eq_false_iff, Option.isNone_iff_eq_none]

end Vpopmail.Backfill
