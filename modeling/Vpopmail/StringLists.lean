import Mathlib.Data.List.Basic
import Vpopmail.ControlFiles
import Vpopmail.Foundation.Signed

/-! # Growing lists of strings

The allocations behind the lists of strings. The call of `string_list_add` that finds a list full
makes it longer and returns, and its string is not in the list.
-/

namespace Vpopmail.StringLists

open Signed

/-- `string_list`. The pointers are kept as the allocation holds them. -/
structure StringList where
  values : List (Option (List Char))
  count : Nat
  size : Nat
  cells : values.length = size
  room : count + 2 ≤ size

namespace StringList

/-- The pointers in use. -/
def held (list : StringList) : List (Option (List Char)) := list.values.take list.count

/-- A list that `calloc` made, with no pointer in use. -/
def empty (size : Nat) (room : 2 ≤ size) : StringList where
  values := List.replicate size none
  count := 0
  size := size
  cells := List.length_replicate
  room := room

/-- The longer list `realloc` makes, with `fresh` in the new pointers. -/
def grown (fresh : Nat → Option (List Char)) (list : StringList) : StringList where
  values := list.values ++ (List.range 8).map fresh
  count := list.count
  size := list.size + 8
  cells := by rw [List.length_append, List.length_map, List.length_range, list.cells]
  room := Nat.le_trans list.room (Nat.le_add_right _ _)

/-- A string put behind those in use. -/
def stored (list : StringList) (value : List Char) (room : list.count + 1 + 2 ≤ list.size) :
    StringList where
  values := list.values.set list.count (some value)
  count := list.count + 1
  size := list.size
  cells := by rw [List.length_set, list.cells]
  room := room

theorem length_held (list : StringList) : list.held.length = list.count := by
  have cells := list.cells
  have room := list.room
  rw [held, List.length_take_of_le (by omega)]

theorem held_grown (fresh : Nat → Option (List Char)) (list : StringList) :
    (list.grown fresh).held = list.held := by
  have cells := list.cells
  have room := list.room
  exact List.take_append_of_le_length (show list.count ≤ list.values.length by omega)

theorem held_empty (size : Nat) (room : 2 ≤ size) : (empty size room).held = [] := rfl

theorem held_stored (list : StringList) (value : List Char)
    (room : list.count + 1 + 2 ≤ list.size) :
    (list.stored value room).held = list.held ++ [some value] := by
  have inside : list.count < list.values.length := by
    have := list.cells
    omega
  have first : (list.values.set list.count (some value)).take list.count = list.held :=
    List.take_set_of_le (Nat.le_refl _)
  have cell : (list.values.set list.count (some value))[list.count]? = some (some value) :=
    List.getElem?_set_self inside
  rw [held, stored, List.take_add_one, first, cell, Option.toList_some]

end StringList

open StringLists.StringList

/-- The size `string_list_init` computes. -/
def initialSize (initial : Int32) : Option Int :=
  (signed 32 (initial.toInt + 3)).map fun sum =>
    if sum.tdiv 4 * 4 ≤ 0 then 4 else sum.tdiv 4 * 4

theorem two_le_initialSize {initial : Int32} {size : Int}
    (sized : initialSize initial = some size) : 2 ≤ size.toNat := by
  rcases Option.map_eq_some_iff.mp sized with ⟨sum, -, rfl⟩
  split <;> omega

/-- `string_list_init`, with allocations that succeed. -/
def stringListInit (initial : Int32) : Option StringList :=
  match sized : initialSize initial with
  | none => none
  | some size => some (.empty size.toNat (two_le_initialSize sized))

theorem room_of_not_full {list : StringList} (full : ¬list.size - 2 ≤ list.count) :
    list.count + 1 + 2 ≤ list.size := by
  omega

/-- `string_list_add`, with allocations that succeed: the list and what is returned. -/
def stringListAdd (fresh : Nat → Option (List Char)) (list : StringList) (value : List Char) :
    Option (StringList × Int) :=
  if full : list.size - 2 ≤ list.count then
    (signed 32 (list.size + 8)).map fun size => (list.grown fresh, size)
  else some (list.stored value (room_of_not_full full), 1)

/-- One call after the other, and what they return. -/
def addAll (fresh : Nat → Option (List Char)) (list : StringList) :
    List (List Char) → Option (StringList × List Int)
  | [] => some (list, [])
  | value :: added =>
      (stringListAdd fresh list value).bind fun next =>
        (addAll fresh next.1 added).map fun last => (last.1, next.2 :: last.2)

/-- The strings added are in the list, in their order, and every call reports success. -/
def LosesNothing (fresh : Nat → Option (List Char)) (initial : Int32)
    (added : List (List Char)) : Prop :=
  ∃ list results, ((stringListInit initial).bind fun list => addAll fresh list added) =
      some (list, results) ∧
    list.held = added.map some ∧ list.count = added.length ∧ ∀ result ∈ results, result ≠ 0

variable {fresh : Nat → Option (List Char)} {list after : StringList} {added : List (List Char)}
  {results : List Int}

theorem stringListAdd_of_room (value : List Char) (room : list.count + 1 + 2 ≤ list.size) :
    stringListAdd fresh list value = some (list.stored value room, 1) :=
  dif_neg fun full => by omega

/-- What a call can do. -/
theorem stringListAdd_cases {value : List Char} {result : Int}
    (ran : stringListAdd fresh list value = some (after, result)) :
    (∃ room, after = list.stored value room) ∨
      (list.size < list.count + 1 + 2 ∧ after = list.grown fresh) := by
  unfold stringListAdd at ran
  split at ran
  next full =>
    rcases Option.map_eq_some_iff.mp ran with ⟨size, -, same⟩
    cases same
    exact .inr ⟨by omega, rfl⟩
  next unfilled =>
    cases ran
    exact .inl ⟨room_of_not_full unfilled, rfl⟩

/-- A run is a call, and a run from what it leaves. -/
theorem addAll_cons {value : List Char} :
    addAll fresh list (value :: added) = some (after, results) ↔
      ∃ next result others, stringListAdd fresh list value = some (next, result) ∧
        addAll fresh next added = some (after, others) ∧ results = result :: others := by
  rw [addAll, Option.bind_eq_some_iff]
  constructor
  · rintro ⟨⟨next, result⟩, step, rest⟩
    rcases Option.map_eq_some_iff.mp rest with ⟨⟨last, others⟩, later, same⟩
    cases same
    exact ⟨next, result, others, step, later, rfl⟩
  · rintro ⟨next, result, others, step, later, rfl⟩
    exact ⟨(next, result), step, Option.map_eq_some_iff.mpr ⟨(after, others), later, rfl⟩⟩

/-- With room for all of the strings, every call puts one in the list. -/
theorem addAll_of_room (room : list.count + added.length + 2 ≤ list.size) :
    ∃ after results, addAll fresh list added = some (after, results) ∧
      ∀ result ∈ results, result ≠ 0 := by
  induction added generalizing list with
  | nil =>
      refine ⟨list, [], rfl, ?_⟩
      intro result member
      cases member
  | cons value added induction =>
      rw [List.length_cons] at room
      have first : list.count + 1 + 2 ≤ list.size := by omega
      have rest : (list.stored value first).count + added.length + 2 ≤
          (list.stored value first).size := by
        change list.count + 1 + added.length + 2 ≤ list.size
        omega
      rcases induction rest with ⟨after, results, ran, succeeded⟩
      refine ⟨after, 1 :: results, ?_, ?_⟩
      · exact addAll_cons.mpr ⟨_, 1, results, stringListAdd_of_room value first, ran, rfl⟩
      · intro result member
        rcases List.mem_cons.mp member with rfl | member
        · exact Int.one_ne_zero
        · exact succeeded result member

/-! ## What is left of the strings -/

/-- The list stands for the strings in it. -/
structure Stands (list : StringList) (strings : Vpopmail.StringList) : Prop where
  size : list.size = strings.size
  held : list.held = strings.values.map some

theorem stands_empty {size : Nat} (room : 2 ≤ size) : Stands (empty size room) ⟨size, []⟩ :=
  ⟨rfl, rfl⟩

theorem Stands.count {strings : Vpopmail.StringList} (stands : Stands list strings) :
    list.count = strings.values.length := by
  rw [← list.length_held, stands.held, List.length_map]

theorem Stands.step {strings : Vpopmail.StringList} {value : List Char} {result : Int}
    (stands : Stands list strings)
    (ran : stringListAdd fresh list value = some (after, result)) :
    Stands after (Vpopmail.stringListAdd strings value) := by
  have size := stands.size
  have count := stands.count
  rw [Vpopmail.stringListAdd]
  rcases stringListAdd_cases ran with ⟨room, rfl⟩ | ⟨full, rfl⟩
  · rw [if_neg (by omega)]
    refine ⟨size, ?_⟩
    rw [held_stored, stands.held, List.map_append]
    rfl
  · rw [if_pos (by omega)]
    refine ⟨?_, ?_⟩
    · exact congrArg (· + 8) size
    · rw [held_grown, stands.held]

/-- The calls one after the other are those on the strings. -/
theorem Stands.run {strings : Vpopmail.StringList} (stands : Stands list strings)
    (ran : addAll fresh list added = some (after, results)) :
    Stands after (added.foldl Vpopmail.stringListAdd strings) := by
  induction added generalizing list strings results with
  | nil =>
      cases ran
      exact stands
  | cons value added induction =>
      rcases addAll_cons.mp ran with ⟨next, result, others, step, rest, -⟩
      exact induction (stands.step step) rest

theorem length_kept_le (room : Nat) (values : List (List Char)) :
    (kept room values).length ≤ values.length := by
  induction values generalizing room with
  | nil => exact Nat.le_refl _
  | cons value values induction =>
      cases room with
      | zero => exact Nat.le_succ_of_le (induction 8)
      | succ room => exact Nat.succ_le_succ (induction room)

/-- All values remain if there is room for them from the beginning. -/
theorem kept_eq_self_iff (room : Nat) (values : List (List Char)) :
    kept room values = values ↔ values.length ≤ room := by
  refine ⟨?_, kept_of_length_le⟩
  intro same
  induction values generalizing room with
  | nil => exact Nat.zero_le _
  | cons value values induction =>
      cases room with
      | zero =>
          have lost := length_kept_le 8 values
          have longer := congrArg List.length same
          rw [kept, List.length_cons] at longer
          omega
      | succ room => exact Nat.succ_le_succ (induction room (List.cons.inj same).2)

/-- What a list that was empty holds in the end. -/
theorem held_addAll {size : Nat} (room : 2 ≤ size)
    (ran : addAll fresh (empty size room) added = some (after, results)) :
    after.held = (kept (size - 2) added).map some := by
  have counted : size = ([] : List (List Char)).length + (size - 2) + 2 := by
    rw [List.length_nil]
    omega
  rw [((stands_empty room).run ran).held, foldl_stringListAdd added counted, List.nil_append]

/-! ## From `string_list_init` on -/

/-- There is room for some strings from the beginning. -/
theorem le_initialSize {initial : Int32} {size : Int} (sized : initialSize initial = some size)
    (number : Nat) :
    number + 2 ≤ size.toNat ↔
      number ≤ 2 ∨ (number + 2 : Int) ≤ (initial.toInt + 3) / 4 * 4 := by
  rcases Option.map_eq_some_iff.mp sized with ⟨sum, fits, rfl⟩
  have same : sum = initial.toInt + 3 := by
    unfold signed at fits
    split at fits
    · exact (Option.some.inj fits).symm
    · cases fits
  subst same
  by_cases negative : initial.toInt + 3 < 0
  · have quotient : (initial.toInt + 3).tdiv 4 ≤ 0 := by
      have positive := Int.tdiv_nonneg (a := -(initial.toInt + 3)) (b := 4) (by omega) (by omega)
      rw [Int.neg_tdiv] at positive
      omega
    rw [if_pos (Int.mul_nonpos_of_nonpos_of_nonneg quotient (by omega))]
    omega
  · rw [Int.tdiv_eq_ediv_of_nonneg (Int.not_lt.mp negative)]
    split <;> omega

theorem initialSize_of_fits {initial : Int32} (fits : initial.toInt + 3 < 2 ^ 31) :
    ∃ size, initialSize initial = some size := by
  have lower := initial.le_toInt
  rw [initialSize, signed_of_fits (by omega) fits]
  exact ⟨_, rfl⟩

theorem stringListInit_overflow {initial : Int32} (large : 2 ^ 31 ≤ initial.toInt + 3) :
    stringListInit initial = none := by
  have unsized : initialSize initial = none := by
    rw [initialSize, signed_overflow large]
    rfl
  unfold stringListInit
  split
  next => rfl
  next size sized =>
    rw [unsized] at sized
    cases sized

theorem stringListInit_eq {initial : Int32} {size : Int} (sized : initialSize initial = some size) :
    stringListInit initial = some (.empty size.toNat (two_le_initialSize sized)) := by
  unfold stringListInit
  split
  next unsized =>
    rw [sized] at unsized
    cases unsized
  next other same =>
    rw [sized] at same
    cases same
    rfl

/-- Nothing is lost just as long as the first size is large enough. -/
theorem losesNothing_iff (fresh : Nat → Option (List Char)) (initial : Int32)
    (added : List (List Char)) :
    LosesNothing fresh initial added ↔
      initial.toInt + 3 < 2 ^ 31 ∧
        (added.length ≤ 2 ∨ (added.length + 2 : Int) ≤ (initial.toInt + 3) / 4 * 4) := by
  by_cases fits : initial.toInt + 3 < 2 ^ 31
  · rcases initialSize_of_fits fits with ⟨size, sized⟩
    rw [LosesNothing, stringListInit_eq sized, Option.bind_some, ← le_initialSize sized]
    have least := two_le_initialSize sized
    constructor
    · rintro ⟨after, results, ran, held, -, -⟩
      rw [held_addAll least ran, List.map_inj_right (fun _ _ => Option.some.inj)] at held
      have room := (kept_eq_self_iff _ added).mp held
      exact ⟨fits, by omega⟩
    · rintro ⟨-, room⟩
      have enough : (empty size.toNat least).count + added.length + 2 ≤
          (empty size.toNat least).size := by
        change 0 + added.length + 2 ≤ size.toNat
        omega
      rcases @addAll_of_room fresh _ _ enough with ⟨after, results, ran, succeeded⟩
      have held := held_addAll least ran
      rw [(kept_eq_self_iff _ added).mpr (by omega)] at held
      refine ⟨after, results, ran, held, ?_, succeeded⟩
      rw [← after.length_held, held, List.length_map]
  · constructor
    · rintro ⟨after, results, ran, -⟩
      rw [stringListInit_overflow (Int.not_lt.mp fits)] at ran
      cases ran
    · intro both
      exact absurd both.1 fits

/-- The third string of a list for one is lost. -/
theorem not_losesNothing : ¬∀ fresh initial added, LosesNothing fresh initial added := by
  intro all
  rcases all (fun _ => none) 1 [['a'], ['b'], ['c']] with ⟨list, results, ran, -, count, -⟩
  have lost : ((stringListInit 1).bind fun list =>
      addAll (fun _ => none) list [['a'], ['b'], ['c']]).map (·.1.count) = some 2 := by
    decide
  rw [ran, Option.map_some, count] at lost
  revert lost
  decide

end Vpopmail.StringLists
