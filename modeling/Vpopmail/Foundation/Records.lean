import Mathlib.Data.List.Basic
import Mathlib.Tactic.Ring
import Vpopmail.Foundation.Text

/-! # Records of fixed width

A text fills its field up with terminators, a number takes a fixed number of cells with the
lowest first, and a list of records follows its count.
-/

namespace Vpopmail.Records

open Text

/-! ## Cells -/

section Cells

variable {Cell : Type}

/-- A read of exactly `size` cells. -/
def readCells (size : Nat) (stream : List Cell) : Option (List Cell × List Cell) :=
  if size ≤ stream.length then some (stream.take size, stream.drop size) else none

theorem readCells_append {size : Nat} {cells : List Cell} (length : cells.length = size)
    (rest : List Cell) : readCells size (cells ++ rest) = some (cells, rest) := by
  have inside : size ≤ (cells ++ rest).length := by
    rw [List.length_append]
    omega
  rw [readCells, if_pos inside, List.take_left' length, List.drop_left' length]

end Cells

/-! ## Texts -/

abbrev CString := { text : List Char // Free nul text }

/-- A text that leaves no room for its terminator is not written. -/
def writeText (size : Nat) (text : CString) : Option (List Char) :=
  if size ≤ text.val.length then none
  else some (text.val ++ List.replicate (size - text.val.length) nul)

def readText (size : Nat) (stream : List Char) : Option (CString × List Char) :=
  (readCells size stream).map fun (cells, rest) =>
    (⟨cstring cells, free_takeWhile_ne nul cells⟩, rest)

theorem exists_writeText {size : Nat} {text : CString} :
    (∃ cells, writeText size text = some cells) ↔ text.val.length < size := by
  simp only [writeText]
  split
  · rename_i long
    exact iff_of_false nofun (Nat.not_lt.mpr long)
  · rename_i short
    exact iff_of_true ⟨_, rfl⟩ (Nat.not_le.mp short)

theorem readText_writeText {size : Nat} {text : CString} {cells : List Char}
    (written : writeText size text = some cells) (rest : List Char) :
    readText size (cells ++ rest) = some (text, rest) := by
  rw [writeText] at written
  split at written
  · cases written
  · rename_i short
    rw [← Option.some.inj written]
    have room : size - text.val.length = (size - text.val.length - 1) + 1 := by omega
    have length : (text.val ++ List.replicate (size - text.val.length) nul).length = size := by
      rw [List.length_append, List.length_replicate]
      omega
    have same : cstring (text.val ++ List.replicate (size - text.val.length) nul) = text.val := by
      rw [room, List.replicate_succ]
      exact cstring_append_nul text.property _
    rw [readText, readCells_append length, Option.map_some]
    simp only [same]

/-! ## Numbers -/

def numberCells : (width : Nat) → Nat → List Char
  | 0, _ => []
  | width + 1, number => Char.ofNat (number % 256) :: numberCells width (number / 256)

def numberOf : List Char → Nat
  | [] => 0
  | cell :: cells => cell.toNat + 256 * numberOf cells

theorem length_numberCells (width number : Nat) : (numberCells width number).length = width := by
  induction width generalizing number with
  | zero => rfl
  | succ width induction => rw [numberCells, List.length_cons, induction]

theorem toNat_ofNat_small {code : Nat} (small : code < 256) : (Char.ofNat code).toNat = code := by
  have valid : code.isValidChar := .inl (by omega)
  rw [Char.ofNat, dif_pos valid]
  rfl

theorem numberOf_numberCells (width number : Nat) :
    numberOf (numberCells width number) = number % 256 ^ width := by
  induction width generalizing number with
  | zero =>
      rw [pow_zero, Nat.mod_one]
      rfl
  | succ width induction =>
      rw [numberCells, numberOf, induction, toNat_ofNat_small (Nat.mod_lt _ (by decide)),
        pow_succ', Nat.mod_mul]

/-- The memory of a word. -/
def wordCells (width : Nat) (word : BitVec (8 * width)) : List Char :=
  numberCells width word.toNat

def readWord (width : Nat) (stream : List Char) : Option (BitVec (8 * width) × List Char) :=
  (readCells width stream).map fun (cells, rest) => (BitVec.ofNat (8 * width) (numberOf cells), rest)

theorem readWord_wordCells {width : Nat} (word : BitVec (8 * width)) (rest : List Char) :
    readWord width (wordCells width word ++ rest) = some (word, rest) := by
  have power : 256 ^ width = 2 ^ (8 * width) := by
    rw [pow_mul]
    norm_num
  rw [readWord, wordCells, readCells_append (length_numberCells width _), Option.map_some]
  simp only [numberOf_numberCells, power, Nat.mod_eq_of_lt word.isLt, BitVec.ofNat_toNat,
    BitVec.setWidth_eq]

/-! ## Lists of records -/

section Each

variable {Cell Record State : Type}

def writeEach (write : Record → Option (List Cell)) : List Record → Option (List Cell)
  | [] => some []
  | record :: records =>
      (write record).bind fun cells => (writeEach write records).map (cells ++ ·)

/-- A loop that reads a record and goes on in a new state. -/
def readEach (step : List Cell → State → Option (State × List Cell)) :
    (count : Nat) → List Cell → State → Option (State × List Cell)
  | 0, stream, state => some (state, stream)
  | count + 1, stream, state =>
      (step stream state).bind fun (state, rest) => readEach step count rest state

def applyEach (apply : Record → State → Option State) : List Record → State → Option State
  | [], state => some state
  | record :: records, state => (apply record state).bind (applyEach apply records)

variable {write : Record → Option (List Cell)} {apply : Record → State → Option State}
  {step : List Cell → State → Option (State × List Cell)} {records : List Record}

theorem exists_writeEach : (∃ cells, writeEach write records = some cells) ↔
    ∀ record ∈ records, ∃ cells, write record = some cells := by
  induction records with
  | nil => exact iff_of_true ⟨[], rfl⟩ nofun
  | cons record records induction =>
      rw [List.forall_mem_cons, ← induction]
      constructor
      · rintro ⟨cells, written⟩
        rcases Option.bind_eq_some_iff.mp written with ⟨first, wrote, others⟩
        rcases Option.map_eq_some_iff.mp others with ⟨more, wroteMore, _⟩
        exact ⟨⟨first, wrote⟩, more, wroteMore⟩
      · rintro ⟨⟨first, wrote⟩, more, wroteMore⟩
        exact ⟨first ++ more, by rw [writeEach, wrote, Option.bind_some, wroteMore, Option.map_some]⟩

/-- A loop that reads back each record applies the records one by one. -/
theorem readEach_writeEach (reads : ∀ record ∈ records, ∀ cells, write record = some cells →
      ∀ rest state, step (cells ++ rest) state = (apply record state).map (·, rest))
    {cells : List Cell} (written : writeEach write records = some cells) (rest : List Cell)
    (state : State) : readEach step records.length (cells ++ rest) state =
      (applyEach apply records state).map (·, rest) := by
  induction records generalizing cells state with
  | nil =>
      cases written
      rfl
  | cons record records induction =>
      rcases Option.bind_eq_some_iff.mp written with ⟨first, wrote, others⟩
      rcases Option.map_eq_some_iff.mp others with ⟨more, wroteMore, same⟩
      rw [← same, List.append_assoc, List.length_cons, readEach,
        reads record List.mem_cons_self first wrote, applyEach]
      cases apply record state with
      | none => rfl
      | some next =>
          exact induction (fun other among => reads other (List.mem_cons_of_mem record among))
            wroteMore next

/-- What every record preserves. -/
theorem applyEach_preserves {invariant : State → Prop}
    (preserved : ∀ record ∈ records, ∀ state next, invariant state →
      apply record state = some next → invariant next)
    {state after : State} (initially : invariant state)
    (done : applyEach apply records state = some after) : invariant after := by
  induction records generalizing state with
  | nil =>
      cases done
      exact initially
  | cons record records induction =>
      rcases Option.bind_eq_some_iff.mp done with ⟨next, first, others⟩
      have member : record ∈ record :: records := List.mem_cons_self
      exact induction (fun other among => preserved other (List.mem_cons_of_mem record among))
        (preserved record member state next initially first) others

theorem applyEach_collect (records collected : List Record) :
    applyEach (fun record collected => some (collected ++ [record])) records collected =
      some (collected ++ records) := by
  induction records generalizing collected with
  | nil => rw [applyEach, List.append_nil]
  | cons record records induction =>
      rw [applyEach, Option.bind_some, induction, List.append_assoc, List.singleton_append]

end Each

end Vpopmail.Records
