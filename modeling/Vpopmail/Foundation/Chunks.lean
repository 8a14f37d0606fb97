import Mathlib.Data.List.Infix

/-! # Output in chunks

A result is written chunk by chunk to the front of a buffer of zeros. Before each chunk it is
checked that room is left for it and for one more cell, and the first chunk for which there is
none ends the output. The checks count in numbers that end at a limit.
-/

namespace Vpopmail.Chunks

inductive Fault
  | outOfBounds
  | overflow
  deriving DecidableEq

structure Written (Cell : Type) where
  out : Nat
  cells : List Cell

variable {Cell Code : Type}

/-- `memcpy` of a chunk to the cells from `start` on. -/
def store (start : Nat) (chunk cells : List Cell) : Except Fault (List Cell) :=
  if start + chunk.length ≤ cells.length then
    .ok (cells.take start ++ chunk ++ cells.drop (start + chunk.length))
  else .error .outOfBounds

/-- One chunk, and what comes after it. -/
def emit (limit size : Nat) (exceeded : Code) (chunk : List Cell) (written : Written Cell)
    (next : Written Cell → Except Fault (Code × List Cell)) : Except Fault (Code × List Cell) :=
  let stop := written.out + chunk.length
  if limit < stop then .error .overflow
  else if size ≤ stop then .ok (exceeded, written.cells)
  else (store written.out chunk written.cells).bind fun cells => next ⟨stop, cells⟩

/-- A text at the front of the buffer, and zeros behind it. -/
def filled (zero : Cell) (size : Nat) (text : List Cell) : List Cell :=
  text ++ List.replicate (size - text.length) zero

/-- The chunks that are written behind `out` cells. -/
def fitting (size : Nat) : (out : Nat) → List (List Cell) → List (List Cell)
  | _, [] => []
  | out, chunk :: chunks =>
      if size ≤ out + chunk.length then []
      else chunk :: fitting size (out + chunk.length) chunks

/-- The sums of the checks, up to the first chunk for which there is no room, are not above the
limit. -/
def Counted (limit size : Nat) : (out : Nat) → List (List Cell) → Prop
  | _, [] => True
  | out, chunk :: chunks =>
      out + chunk.length ≤ limit ∧
        (out + chunk.length < size → Counted limit size (out + chunk.length) chunks)

/-- What writing the chunks one after the other comes to. -/
def emitted (zero : Cell) (size : Nat) (exceeded code : Code) (text : List Cell)
    (chunks : List (List Cell)) : Code × List Cell :=
  (if (fitting size text.length chunks).length = chunks.length then code else exceeded,
    filled zero size (text ++ (fitting size text.length chunks).flatten))

section

variable {limit size : Nat} {exceeded : Code} {zero : Cell}

theorem length_filled {text : List Cell} (fits : text.length ≤ size) :
    (filled zero size text).length = size := by
  rw [filled, List.length_append, List.length_replicate]
  omega

theorem store_filled {text chunk : List Cell} (fits : text.length + chunk.length ≤ size) :
    store text.length chunk (filled zero size text) = .ok (filled zero size (text ++ chunk)) := by
  have room : text.length + chunk.length ≤ (filled zero size text).length := by
    rw [length_filled (by omega)]
    exact fits
  have behind : (filled zero size text).drop (text.length + chunk.length) =
      List.replicate (size - (text ++ chunk).length) zero := by
    rw [filled, List.drop_append, List.drop_replicate, List.length_append]
    rw [List.drop_of_length_le (Nat.le_add_right _ _), List.nil_append, Nat.sub_sub]
    congr 1
    omega
  rw [store, if_pos room, behind]
  conv_lhs => rw [filled, List.take_left]
  rfl

/-- The step: one chunk behind a text. -/
theorem emit_filled {text chunk : List Cell} (counted : text.length + chunk.length ≤ limit)
    (next : Written Cell → Except Fault (Code × List Cell)) :
    emit limit size exceeded chunk ⟨text.length, filled zero size text⟩ next =
      if size ≤ text.length + chunk.length then .ok (exceeded, filled zero size text)
      else next ⟨(text ++ chunk).length, filled zero size (text ++ chunk)⟩ := by
  rw [emit]
  simp only
  rw [if_neg (Nat.not_lt.mpr counted)]
  split
  · rfl
  · next room =>
      rw [store_filled (by omega), List.length_append]
      rfl

theorem emitted_nil (code : Code) (text : List Cell) :
    emitted zero size exceeded code text [] = (code, filled zero size text) := by
  rw [emitted, fitting, if_pos rfl, List.flatten_nil, List.append_nil]

theorem emitted_cons (code : Code) (text chunk : List Cell) (chunks : List (List Cell)) :
    emitted zero size exceeded code text (chunk :: chunks) =
      if size ≤ text.length + chunk.length then (exceeded, filled zero size text)
      else emitted zero size exceeded code (text ++ chunk) chunks := by
  rw [emitted, fitting]
  split
  · rw [List.length_nil, List.length_cons, if_neg (Nat.zero_ne_add_one _), List.flatten_nil,
      List.append_nil]
  · rw [emitted, List.length_cons, List.length_cons, List.flatten_cons, List.append_assoc,
      List.length_append]
    simp only [Nat.add_right_cancel_iff]

/-- A chunk in front of others. -/
theorem emit_emitted {text chunk : List Cell} {chunks : List (List Cell)} {code : Code}
    {next : Written Cell → Except Fault (Code × List Cell)}
    (counted : Counted limit size text.length (chunk :: chunks))
    (continues : Counted limit size (text ++ chunk).length chunks →
      next ⟨(text ++ chunk).length, filled zero size (text ++ chunk)⟩ =
        .ok (emitted zero size exceeded code (text ++ chunk) chunks)) :
    emit limit size exceeded chunk ⟨text.length, filled zero size text⟩ next =
      .ok (emitted zero size exceeded code text (chunk :: chunks)) := by
  rw [emit_filled counted.1, emitted_cons]
  split
  · rfl
  · next room =>
      apply continues
      rw [List.length_append]
      exact counted.2 (Nat.lt_of_not_le room)

/-- The sums are those of the lengths of what is written. -/
theorem counted_of_length {out : Nat} {chunks : List (List Cell)}
    (short : out + chunks.flatten.length ≤ limit) : Counted limit size out chunks := by
  induction chunks generalizing out with
  | nil => exact True.intro
  | cons chunk chunks induction =>
      rw [List.flatten_cons, List.length_append] at short
      exact ⟨by omega, fun _ => induction (by omega)⟩

theorem fitting_prefix (size out : Nat) (chunks : List (List Cell)) :
    fitting size out chunks <+: chunks := by
  induction chunks generalizing out with
  | nil => exact List.prefix_rfl
  | cons chunk chunks induction =>
      rw [fitting]
      split
      · exact List.nil_prefix
      · exact (List.prefix_cons_inj chunk).mpr (induction _)

/-- Either everything is written, or the result is too long. -/
theorem fitting_eq_iff (out : Nat) (chunks : List (List Cell)) :
    fitting size out chunks = chunks ↔ chunks = [] ∨ out + chunks.flatten.length < size := by
  induction chunks generalizing out with
  | nil => simp [fitting]
  | cons chunk chunks induction =>
      rw [fitting, List.flatten_cons, List.length_append]
      split
      · next full =>
          refine iff_of_false (List.cons_ne_nil _ _).symm ?_
          rw [not_or]
          exact ⟨List.cons_ne_nil _ _, by omega⟩
      · next room =>
          rw [List.cons_inj_right, induction]
          constructor
          · intro either
            cases either with
            | inl empty =>
                rw [empty, List.flatten_nil, List.length_nil]
                exact .inr (by omega)
            | inr fits => exact .inr (by omega)
          · intro either
            cases either with
            | inl empty => cases empty
            | inr fits => exact .inr (by omega)

theorem length_fitting (size out : Nat) (chunks : List (List Cell)) :
    fitting size out chunks = [] ∨ out + (fitting size out chunks).flatten.length < size := by
  induction chunks generalizing out with
  | nil => exact .inl rfl
  | cons chunk chunks induction =>
      rw [fitting]
      split
      · exact .inl rfl
      · next room =>
          rw [List.flatten_cons, List.length_append]
          cases induction (out + chunk.length) with
          | inl empty =>
              rw [empty, List.flatten_nil, List.length_nil]
              exact .inr (by omega)
          | inr fits => exact .inr (by omega)

end

/-- The outcome tells a result that is too long, and else is the whole result. -/
structure Reports (zero : Cell) (size : Nat) (exceeded code : Code) (text : List Cell)
    (outcome : Code × List Cell) : Prop where
  cells : outcome.2.length = size
  tooLong : size ≤ text.length → text ≠ [] → outcome.1 = exceeded
  complete : text = [] ∨ text.length < size → outcome = (code, filled zero size text)
  front : ∃ kept, kept <+: text ∧ outcome.2 = filled zero size kept

theorem emitted_reports (zero : Cell) (size : Nat) (exceeded code : Code)
    {chunks : List (List Cell)} (proper : ∀ chunk ∈ chunks, chunk ≠ []) :
    Reports zero size exceeded code chunks.flatten
      (emitted zero size exceeded code [] chunks) := by
  have kept := fitting_prefix size 0 chunks
  have whole : (fitting size 0 chunks).length = chunks.length ↔
      chunks = [] ∨ chunks.flatten.length < size := by
    rw [← Nat.zero_add chunks.flatten.length, ← fitting_eq_iff]
    exact ⟨kept.eq_of_length, fun equal => congrArg List.length equal⟩
  constructor
  · apply length_filled
    cases length_fitting size 0 chunks with
    | inl empty =>
        rw [List.nil_append, List.length_nil, empty, List.flatten_nil, List.length_nil]
        exact Nat.zero_le size
    | inr fits =>
        rw [List.nil_append, List.length_nil]
        omega
  · intro long nonempty
    refine if_neg fun equal => ?_
    cases whole.mp equal with
    | inl empty =>
        rw [empty] at nonempty
        exact nonempty rfl
    | inr fits => omega
  · intro fits
    have all : fitting size 0 chunks = chunks := by
      apply kept.eq_of_length
      rw [whole]
      cases fits with
      | inl empty =>
          cases chunks with
          | nil => exact .inl rfl
          | cons chunk chunks =>
              rw [List.flatten_cons, List.append_eq_nil_iff] at empty
              exact absurd empty.1 (proper chunk List.mem_cons_self)
      | inr short => exact .inr short
    rw [emitted, List.length_nil, all, if_pos rfl, List.nil_append]
  · obtain ⟨rest, equal⟩ := kept
    refine ⟨(fitting size 0 chunks).flatten, ⟨rest.flatten, ?_⟩, rfl⟩
    rw [← List.flatten_append, equal]

end Vpopmail.Chunks
