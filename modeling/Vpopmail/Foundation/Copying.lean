import Vpopmail.Foundation.Buffer

/-! # Copying into buffers

`memcpy` and single writes, which have no meaning outside the cells, and the copy of a
string that is cut to the buffer.
-/

namespace Vpopmail.Buffer

open Text

/-- A string of a C program: no character of it is the terminator. -/
abbrev CString := { text : List Char // Free nul text }

/-- `memcpy` of the first `count` cells of `source` to the cells from `start` on. -/
def memcpy (start count : Nat) (source cells : List Char) : Checked (List Char) :=
  if count ≤ source.length ∧ start + count ≤ cells.length then
    .ok (cells.take start ++ source.take count ++ cells.drop (start + count))
  else .error .outOfBounds

/-- `*(cells + position) = char`. -/
def poke (position : Nat) (char : Char) (cells : List Char) : Checked (List Char) :=
  if position < cells.length then .ok (cells.set position char) else .error .outOfBounds

/-- The string is cut to the cells, which it ends in. -/
def copyString (text cells : List Char) : Checked (List Char) :=
  let len := if cells.length ≤ text.length then cells.length - 1 else text.length
  (memcpy 0 len (text ++ [nul]) cells).bind (poke len nul)

theorem length_memcpy {start count : Nat} {source cells after : List Char}
    (copied : memcpy start count source cells = .ok after) : after.length = cells.length := by
  rw [memcpy] at copied
  split at copied
  · next inside =>
      cases copied
      simp only [List.length_append, List.length_take, List.length_drop]
      omega
  · cases copied

theorem memcpy_append (before text : List Char) {old : List Char} (behind : List Char)
    (size : old.length = text.length) :
    memcpy before.length text.length text (before ++ (old ++ behind)) =
      .ok (before ++ (text ++ behind)) := by
  have inside : text.length ≤ text.length ∧
      before.length + text.length ≤ (before ++ (old ++ behind)).length := by
    simp only [List.length_append]
    omega
  have left : (before ++ (old ++ behind)).drop (before.length + text.length) = behind := by
    rw [← List.append_assoc, ← size, ← List.length_append, List.drop_left]
  rw [memcpy, if_pos inside, List.take_left, List.take_length, left, List.append_assoc]

theorem poke_append {before : List Char} (char old : Char) (behind : List Char) :
    poke before.length char (before ++ old :: behind) = .ok (before ++ char :: behind) := by
  rw [poke, if_pos (by simp), List.set_append_right _ _ (Nat.le_refl _), Nat.sub_self,
    List.set_cons_zero]

/-- The cut string is written with its terminator. -/
theorem copyString_eq (text : List Char) {cells : List Char} (room : cells ≠ []) :
    copyString text cells = .ok (storeChunk cells (text.take (cells.length - 1))) := by
  have positive := List.length_pos_iff.mpr room
  generalize kept : text.take (cells.length - 1) = chunk
  have size := congrArg List.length kept
  rw [List.length_take] at size
  have len : (if cells.length ≤ text.length then cells.length - 1 else text.length) =
      chunk.length := by
    split <;> omega
  have whole : (text ++ [nul]).take chunk.length = chunk := by
    rw [List.take_append_of_le_length (by omega), ← kept, List.length_take, ← List.take_take,
      List.take_length]
  have inside : chunk.length < cells.length := by omega
  have copied : memcpy 0 chunk.length (text ++ [nul]) cells =
      .ok (chunk ++ cells.drop chunk.length) := by
    rw [memcpy, if_pos (by rw [List.length_append, List.length_singleton]; omega), whole,
      Nat.zero_add]
    rfl
  rw [copyString, len, copied, List.drop_eq_getElem_cons inside]
  exact poke_append nul _ _

theorem length_storeChunk {cells chunk : List Char} (inside : chunk.length < cells.length) :
    (storeChunk cells chunk).length = cells.length := by
  rw [storeChunk, List.length_append, List.length_cons, List.length_drop]
  omega

end Vpopmail.Buffer
