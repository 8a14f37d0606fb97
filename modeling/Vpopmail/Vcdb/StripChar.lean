import Mathlib.Data.List.GetD
import Vpopmail.Foundation.Buffer

/-! # `vcdb_strip_char`

The sanitiser of the comment field edits a string in place. It skips a colon and
copies whatever stands behind it, the terminator too, and it never writes a
terminator of its own. What it leaves is described here by the characters that it
copies.
-/

namespace Vpopmail.Vcdb

open Text Buffer

/-! ## The loop -/

/-- The loop over the cells of a string. `rounds` bounds the rounds left: a round is one cell
ahead of the last one, so that none are left only behind the cells. -/
def stripRounds (cells : List Char) (nextstr instr : Nat) : (rounds : Nat) → Checked (List Char)
  | 0 => .error .outOfBounds
  | rounds + 1 =>
      match cells[instr]? with
      | none => .error .outOfBounds
      | some char =>
          if char = nul then .ok cells
          else
            let instr := if char = ':' then instr + 1 else instr
            match cells[instr]? with
            | none => .error .outOfBounds
            | some next =>
                let cells := if nextstr ≠ instr then cells.set nextstr next else cells
                stripRounds cells (nextstr + 1) (instr + 1) rounds

/-- The string that `vcdb_strip_char` leaves of a string. A colon that is skipped in front of the
terminator takes the loop behind it. -/
def vcdbStripChar (text : List Char) : Checked (List Char) :=
  (stripRounds (text ++ [nul]) 0 0 (text.length + 1)).map cstring

/-- What is copied of a string, and whether its terminator is copied too. -/
def squeeze : List Char → List Char × Bool
  | [] => ([], false)
  | ':' :: [] => ([], true)
  | ':' :: char :: text => (char :: (squeeze text).1, (squeeze text).2)
  | char :: text => (char :: (squeeze text).1, (squeeze text).2)

/-- The string that is left where the terminator is not copied: the old tail of the string is
still there. -/
def stripValue (text : List Char) : List Char :=
  (squeeze text).1 ++ text.drop (squeeze text).1.length

def withoutColons (text : List Char) : List Char := text.filter (· ≠ ':')

theorem squeeze_cons_of_ne {char : Char} (notColon : char ≠ ':') (text : List Char) :
    squeeze (char :: text) = (char :: (squeeze text).1, (squeeze text).2) := by
  rw [squeeze]
  · exact fun equal => absurd equal notColon
  · exact fun _ _ equal => absurd equal notColon

theorem length_squeeze_le (text : List Char) :
    (squeeze text).1.length ≤ text.length := by
  fun_induction squeeze text with
  | case1 => simp
  | case2 => simp
  | case3 char text induction =>
      simp only [List.length_cons]
      omega
  | case4 char text _ _ induction =>
      simp only [List.length_cons]
      omega

theorem free_squeeze {char : Char} {text : List Char} (free : Free char text) :
    Free char (squeeze text).1 := by
  fun_induction squeeze text with
  | case1 => simp
  | case2 => simp
  | case3 next text induction =>
      rw [free_cons, free_cons] at free
      exact free_cons.mpr ⟨free.2.1, induction free.2.2⟩
  | case4 next text _ _ induction =>
      rw [free_cons] at free
      exact free_cons.mpr ⟨free.1, induction free.2⟩

theorem free_stripValue {char : Char} {text : List Char} (free : Free char text) :
    Free char (stripValue text) := by
  refine free_append.mpr ⟨free_squeeze free, fun member => free ?_⟩
  exact List.mem_of_mem_drop member

/-- A round copies a character to the front of the gap. Without a gap it stays where it is. -/
theorem copied_eq (written gap rest : List Char) (char : Char) :
    (if written.length ≠ written.length + gap.length then
      (written ++ gap ++ char :: rest).set written.length char
    else written ++ gap ++ char :: rest) = written ++ [char] ++ (gap ++ [char]).tail ++ rest := by
  cases gap with
  | nil => simp
  | cons first gap =>
      have apart : written.length ≠ written.length + (first :: gap).length := by simp
      rw [if_pos apart, List.append_assoc, List.set_append_right _ _ (Nat.le_refl _), Nat.sub_self]
      simp

theorem length_tail_concat (gap : List Char) (char : Char) :
    (gap ++ [char]).tail.length = gap.length := by
  simp

/-- What is behind the first `count` cells of a gap that is moved by one. -/
theorem drop_moved (gap rest : List Char) (char : Char) (count : Nat) :
    ((gap ++ [char]).tail ++ rest).drop count = (gap ++ char :: rest).drop (count + 1) := by
  cases gap with
  | nil => rfl
  | cons first gap => simp

/-- Between the cells already written and those still to read lies a gap as
long as the colons skipped so far. The loop writes over the gap and what
follows it, unless it comes to a colon in front of the terminator. -/
theorem stripRounds_eq {text : List Char} (free : Free nul text) :
    ∀ (written gap : List Char) (rounds : Nat), text.length < rounds →
      stripRounds (written ++ gap ++ (text ++ [nul])) written.length
          (written.length + gap.length) rounds =
        if (squeeze text).2 then .error .outOfBounds
        else .ok (written ++ (squeeze text).1 ++
          (gap ++ (text ++ [nul])).drop (squeeze text).1.length) := by
  fun_induction squeeze text with
  | case1 =>
      intro written gap rounds enough
      cases rounds with
      | zero => simp at enough
      | succ rounds =>
          have here : (written ++ gap ++ ([] ++ [nul]))[written.length + gap.length]? =
              some nul := by
            simp
          rw [stripRounds, here]
          simp
  | case2 =>
      intro written gap rounds enough
      cases rounds with
      | zero => simp at enough
      | succ rounds =>
          have here : (written ++ gap ++ ([':'] ++ [nul]))[written.length + gap.length]? =
              some ':' := by
            simp
          have next : (written ++ gap ++ ([':'] ++ [nul]))[written.length + gap.length + 1]? =
              some nul := by
            simp [Nat.add_assoc]
          rw [stripRounds, here]
          simp only [show (':' : Char) ≠ nul by decide, if_false, if_true, next]
          cases rounds with
          | zero => rfl
          | succ rounds =>
              have outside : ∀ cells : List Char,
                  cells.length = written.length + gap.length + 2 →
                  cells[written.length + gap.length + 1 + 1]? = none :=
                fun cells size => List.getElem?_eq_none (Nat.le_of_eq size)
              rw [stripRounds, outside]
              · split <;> simp [Nat.add_assoc]
  | case3 char text induction =>
      intro written gap rounds enough
      rw [free_cons, free_cons] at free
      cases rounds with
      | zero => simp at enough
      | succ rounds =>
          have cells : written ++ gap ++ (':' :: char :: text ++ [nul]) =
              written ++ (gap ++ [':']) ++ char :: (text ++ [nul]) := by
            simp
          have here : (written ++ gap ++ (':' :: char :: text ++ [nul]))[
              written.length + gap.length]? = some ':' := by
            simp
          have place : written.length + gap.length + 1 = written.length + (gap ++ [':']).length := by
            simp [Nat.add_assoc]
          have next : (written ++ (gap ++ [':']) ++ char :: (text ++ [nul]))[
              written.length + (gap ++ [':']).length]? = some char := by
            rw [← List.length_append, List.getElem?_append_right (Nat.le_refl _), Nat.sub_self]
            rfl
          have enoughLeft : text.length < rounds := by
            simp only [List.length_cons] at enough
            omega
          have step := induction free.2.2 (written ++ [char]) ((gap ++ [':']) ++ [char]).tail rounds
            enoughLeft
          rw [length_tail_concat, drop_moved] at step
          rw [stripRounds, here]
          simp only [show (':' : Char) ≠ nul by decide, if_false, if_true]
          rw [place, cells, next]
          simp only [copied_eq]
          rw [Nat.add_right_comm, show written.length + 1 = (written ++ [char]).length by simp, step]
          simp
  | case4 char text notLast notFirst induction =>
      intro written gap rounds enough
      rw [free_cons] at free
      cases rounds with
      | zero => simp at enough
      | succ rounds =>
          have notColon : char ≠ ':' := by
            intro equal
            cases text with
            | nil => exact notLast equal rfl
            | cons next text => exact notFirst next text equal rfl
          have here : (written ++ gap ++ (char :: text ++ [nul]))[written.length + gap.length]? =
              some char := by
            simp
          have enoughLeft : text.length < rounds := by simpa using enough
          have step := induction free.2 (written ++ [char]) (gap ++ [char]).tail rounds enoughLeft
          rw [length_tail_concat, drop_moved] at step
          rw [stripRounds, here]
          simp only [Ne.symm free.1, notColon, if_false, here]
          rw [List.cons_append, copied_eq]
          rw [Nat.add_right_comm, show written.length + 1 = (written ++ [char]).length by simp, step]
          simp

theorem vcdbStripChar_eq {text : List Char} (free : Free nul text) :
    vcdbStripChar text =
      if (squeeze text).2 then .error .outOfBounds else .ok (stripValue text) := by
  have run := stripRounds_eq free [] [] (text.length + 1) (Nat.lt_succ_self _)
  simp only [List.nil_append, List.length_nil, Nat.zero_add] at run
  rw [vcdbStripChar, run]
  split
  · rfl
  · rw [List.drop_append_of_le_length (length_squeeze_le text), ← List.append_assoc]
    exact congrArg Except.ok (cstring_append_nul (free_stripValue free) [])

/-- The colons at the end of a string are taken in pairs. -/
theorem squeeze_ended_iff (text : List Char) :
    (squeeze text).2 = true ↔ (text.reverse.takeWhile (· = ':')).length % 2 = 1 := by
  fun_induction squeeze text with
  | case1 => simp
  | case2 => simp
  | case3 char text induction =>
      rw [induction, List.reverse_cons, List.reverse_cons, List.append_assoc,
        List.takeWhile_append]
      split
      · next all =>
          by_cases colon : char = ':'
          · simp [colon, all]
          · simp [colon, all]
      · rfl
  | case4 char text notLast notFirst induction =>
      have notColon : char ≠ ':' := by
        intro equal
        cases text with
        | nil => exact notLast equal rfl
        | cons next text => exact notFirst next text equal rfl
      rw [induction, List.reverse_cons, List.takeWhile_append]
      split
      · next all => simp [notColon, all]
      · rfl

theorem length_stripValue (text : List Char) : (stripValue text).length = text.length := by
  have copiedLength := length_squeeze_le text
  rw [stripValue, List.length_append, List.length_drop]
  omega

/-! ## When exactly the colons are gone -/

theorem squeeze_of_free {text : List Char} (free : Free ':' text) :
    squeeze text = (text, false) := by
  induction text with
  | nil => rfl
  | cons char text induction =>
      rw [free_cons] at free
      rw [squeeze_cons_of_ne (Ne.symm free.1), induction free.2]

theorem stripValue_of_free {text : List Char} (free : Free ':' text) :
    stripValue text = text := by
  simp [stripValue, squeeze_of_free free]

theorem vcdbStripChar_of_free {text : List Char} (free : Free ':' text) (ended : Free nul text) :
    vcdbStripChar text = .ok text := by
  rw [vcdbStripChar_eq ended, squeeze_of_free free, stripValue_of_free free]
  rfl

theorem withoutColons_of_free {text : List Char} (free : Free ':' text) :
    withoutColons text = text := by
  refine List.filter_eq_self.mpr fun char member => ?_
  simpa using fun equal : char = ':' => free (equal ▸ member)

/-- `vcdb_strip_char` removes exactly the colons of the strings without a colon: it never
shortens a string. -/
theorem stripValue_eq_withoutColons_iff (text : List Char) :
    stripValue text = withoutColons text ↔ Free ':' text := by
  constructor
  · intro equal member
    have lengths := congrArg List.length equal
    have fewer : (withoutColons text).length < text.length := by
      rw [withoutColons, List.length_filter_lt_length_iff_exists]
      exact ⟨':', member, by simp⟩
    rw [length_stripValue] at lengths
    omega
  · intro free
    rw [stripValue_of_free free, withoutColons_of_free free]

end Vpopmail.Vcdb
