import Vpopmail.Foundation.Stream

/-! # Buffers

A buffer is a list of cells that a program fills again and again, so that old
characters stand behind the terminator of a new string. Accesses outside the
cells are faults, since C gives a program no meaning behind them.
-/

namespace Vpopmail.Buffer

open Text Vpopmail.Stream

inductive Fault
  | outOfBounds
  deriving DecidableEq

abbrev Checked := Except Fault

/-! ## Results of checked steps -/

section Ensures

variable {Value Other : Type}

/-- What holds of the value, if there is no fault. -/
structure Ensures (result : Checked Value) (post : Value → Prop) : Prop where
  holds : ∀ value, result = .ok value → post value

theorem ensures_ok {value : Value} {post : Value → Prop} (holds : post value) :
    Ensures (.ok value) post := by
  constructor
  intro other equal
  cases equal
  exact holds

theorem ensures_any (result : Checked Value) : Ensures result fun _ => True :=
  ⟨fun _ _ => trivial⟩

theorem ensures_bind {result : Checked Value} {rest : Value → Checked Other}
    {middle : Value → Prop} {post : Other → Prop} (first : Ensures result middle)
    (second : ∀ value, middle value → Ensures (rest value) post) :
    Ensures (result.bind rest) post := by
  constructor
  intro other equal
  cases result with
  | error fault => cases equal
  | ok value => exact (second value (first.holds value rfl)).holds other equal

theorem ensures_map {result : Checked Value} {change : Value → Other} {post : Other → Prop}
    (holds : Ensures result fun value => post (change value)) :
    Ensures (result.map change) post := by
  constructor
  intro other equal
  cases result with
  | error fault => cases equal
  | ok value =>
      cases equal
      exact holds.holds value rfl

/-- What every round of a loop keeps. -/
theorem ensures_foldlM {State Line : Type} {step : State → Line → Checked State}
    {kept : State → Prop} {lines : List Line}
    (round : ∀ line ∈ lines, ∀ state, kept state → Ensures (step state line) kept) {state : State}
    (begun : kept state) : Ensures (lines.foldlM step state) kept := by
  induction lines generalizing state with
  | nil => exact ensures_ok begun
  | cons line lines induction =>
      rw [List.foldlM_cons]
      apply ensures_bind (round line List.mem_cons_self state begun)
      intro next holds
      exact induction (fun other later => round other (List.mem_cons_of_mem _ later)) holds

end Ensures

/-! ## Steps without a fault -/

section Steps

variable {Value Other : Type} {result : Checked Value}

theorem map_eq_ok {change : Value → Other} {changed : Other}
    (mapped : result.map change = .ok changed) :
    ∃ value, result = .ok value ∧ change value = changed := by
  cases result with
  | error fault => cases mapped
  | ok value => exact ⟨value, rfl, Except.ok.inj mapped⟩

theorem bind_eq_ok {rest : Value → Checked Other} {last : Other}
    (bound : result.bind rest = .ok last) : ∃ value, result = .ok value ∧ rest value = .ok last := by
  cases result with
  | error fault => cases bound
  | ok value => exact ⟨value, rfl, bound⟩

/-- There is no fault. -/
def Inside (result : Checked Value) : Prop := ∃ value, result = .ok value

theorem inside_ok (value : Value) : Inside (.ok value) := ⟨value, rfl⟩

theorem not_inside_error (fault : Fault) : ¬Inside (.error fault : Checked Value) := by
  rintro ⟨value, same⟩
  cases same

/-- Two steps, where the value of the first does not matter for the faults of the second. -/
theorem inside_bind {rest : Value → Checked Other} {here later : Prop}
    (first : Inside result ↔ here)
    (second : ∀ value, result = .ok value → (Inside (rest value) ↔ later)) :
    Inside (result >>= rest) ↔ here ∧ later := by
  rw [← first]
  cases result with
  | error fault =>
      constructor
      · exact fun inside => absurd inside (not_inside_error fault)
      · exact fun both => absurd both.1 (not_inside_error fault)
  | ok value => exact (second value rfl).trans (and_iff_right (inside_ok value)).symm

/-- A step behind which nothing can go wrong. -/
theorem inside_before {rest : Value → Checked Other} {here : Prop} (first : Inside result ↔ here)
    (ends : ∀ value, Inside (rest value)) : Inside (result >>= rest) ↔ here :=
  (inside_bind first fun value _ => iff_of_true (ends value) trivial).trans (and_true here).to_iff

theorem inside_last (value : Value) : Inside (.ok value) ↔ True :=
  iff_of_true (inside_ok value) trivial

theorem inside_map (change : Value → Other) : Inside (result.map change) ↔ Inside result := by
  cases result with
  | error fault =>
      constructor
      · exact fun inside => absurd inside (not_inside_error fault)
      · exact fun inside => absurd inside (not_inside_error fault)
  | ok value => exact ⟨fun _ => inside_ok value, fun _ => inside_ok (change value)⟩

/-- A loop whose rounds can only go wrong on their lines. -/
theorem inside_foldlM {State Line : Type} {step : State → Line → Checked State}
    {safe : Line → Prop} {lines : List Line}
    (round : ∀ line ∈ lines, ∀ state, Inside (step state line) ↔ safe line) (state : State) :
    Inside (lines.foldlM step state) ↔ ∀ line ∈ lines, safe line := by
  induction lines generalizing state with
  | nil => exact ⟨fun _ => List.forall_mem_nil _, fun _ => inside_ok state⟩
  | cons line lines induction =>
      rw [List.foldlM_cons, List.forall_mem_cons]
      exact inside_bind (round line List.mem_cons_self state)
        fun next _ => induction (fun other later => round other (List.mem_cons_of_mem _ later)) next

end Steps

/-! ## Strings in buffers -/

/-- A string written to the front of the cells. -/
def storeChunk (cells chunk : List Char) : List Char :=
  chunk ++ nul :: cells.drop (chunk.length + 1)

/-- `while (*ptr != char) ptr++` from a position of the cells. -/
def walkTo (char : Char) (cells : List Char) (start : Nat) : Checked Nat :=
  let position := start + ((cells.drop start).takeWhile (· ≠ char)).length
  if position < cells.length then .ok position else .error .outOfBounds

/-- The string that starts at a position of the cells. -/
def stringAt (cells : List Char) (start : Nat) : Checked (List Char) :=
  if nul ∈ cells.drop start then .ok (cstring (cells.drop start)) else .error .outOfBounds

/-- `strncpy` of a string into `size` cells, which fills them up. -/
def strncpyCells (size : Nat) (text : List Char) : List Char :=
  (text ++ List.replicate (size - text.length) nul).take size

/-- `fgets` into the cells, which at the end of the stream stay as they are. -/
def fgetsInto (size : Nat) (cells stream : List Char) : List Char × List Char :=
  match fgets size stream with
  | none => (cells, stream)
  | some (chunk, rest) => (storeChunk cells chunk, rest)

theorem length_strncpyCells (size : Nat) (text : List Char) :
    (strncpyCells size text).length = size := by
  rw [strncpyCells, List.length_take, List.length_append, List.length_replicate]
  omega

theorem cstring_strncpyCells {size : Nat} {text : List Char} (free : Free nul text)
    (fits : text.length < size) : cstring (strncpyCells size text) = text := by
  have room : size - text.length = size - text.length - 1 + 1 := by omega
  rw [strncpyCells, List.take_of_length_le (by simp; omega), room, List.replicate_succ]
  exact cstring_append_nul free _

theorem stringAt_append_nul {before text : List Char} (free : Free nul text)
    (after : List Char) :
    stringAt (before ++ text ++ nul :: after) before.length = .ok text := by
  rw [stringAt, List.append_assoc, List.drop_left, if_pos (by simp),
    cstring_append_nul free]

theorem cstring_storeChunk {chunk : List Char} (free : Free nul chunk) (cells : List Char) :
    cstring (storeChunk cells chunk) = chunk :=
  cstring_append_nul free _

theorem fgetsInto_line {size : Nat} {line : List Char} (isLine : IsLine line)
    (fits : line.length < size) (cells rest : List Char) :
    fgetsInto size cells (line ++ rest) = (storeChunk cells line, rest) := by
  rw [fgetsInto, fgets_line isLine fits]

theorem walkTo_append_cons {char : Char} {text : List Char} (free : Free char text)
    (before after : List Char) :
    walkTo char (before ++ text ++ char :: after) before.length =
      .ok (before.length + text.length) := by
  have walked : (((before ++ text ++ char :: after).drop before.length).takeWhile
      (· ≠ char)).length = text.length := by
    rw [List.append_assoc, List.drop_left, takeWhile_ne_append_cons free]
  rw [walkTo, walked, if_pos (by simp)]

theorem walkTo_of_free {char : Char} {cells : List Char} {start : Nat}
    (free : Free char (cells.drop start)) (inside : start ≤ cells.length) :
    walkTo char cells start = .error .outOfBounds := by
  rw [walkTo, takeWhile_ne_of_free free, if_neg]
  simp only [List.length_drop]
  omega

theorem walkTo_error {char : Char} {cells : List Char} {start : Nat}
    (free : Free char cells) (inside : start ≤ cells.length) :
    walkTo char cells start = .error .outOfBounds :=
  walkTo_of_free (fun member => free (List.mem_of_mem_drop member)) inside

theorem walkTo_lt {char : Char} {cells : List Char} {start position : Nat}
    (walked : walkTo char cells start = .ok position) : position < cells.length := by
  simp only [walkTo] at walked
  split at walked
  · rename_i inside
    exact Except.ok.inj walked ▸ inside
  · cases walked

end Vpopmail.Buffer
