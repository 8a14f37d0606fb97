import Mathlib.Data.List.Basic
import Mathlib.Data.List.Infix

/-! # Paths component by component

A path names the components between its slashes; repeated slashes separate
nothing. One path lies below another when its components continue the other's
without leaving it again through `..`.
-/

namespace Vpopmail.Components

/-- The component collected so far, unless it is empty. -/
def flush : List Char → List (List Char)
  | [] => []
  | current => [current]

/-- The components of a path whose first one has already begun. -/
def componentsFrom (current : List Char) : List Char → List (List Char)
  | [] => flush current
  | char :: path =>
      if char = '/' then flush current ++ componentsFrom [] path
      else componentsFrom (current ++ [char]) path

def components (path : List Char) : List (List Char) := componentsFrom [] path

@[reducible] def dotdot : List Char := ['.', '.']

/-- `path` is `root` or lies below it. -/
def Below (root path : List Char) : Prop :=
  ∃ names, components path = components root ++ names ∧ dotdot ∉ names

/-- No component has begun at the end of `root`. -/
def ClosedAt (root : List Char) : Prop := root = [] ∨ root.getLast? = some '/'

instance (root : List Char) : Decidable (ClosedAt root) :=
  inferInstanceAs (Decidable (root = [] ∨ root.getLast? = some '/'))

/-- `rest` does not continue a component. -/
def Opens (rest : List Char) : Prop := rest = [] ∨ rest.head? = some '/'

instance (rest : List Char) : Decidable (Opens rest) :=
  inferInstanceAs (Decidable (rest = [] ∨ rest.head? = some '/'))

/-! ## Joining at a slash -/

theorem flush_of_ne_nil {current : List Char} (nonempty : current ≠ []) :
    flush current = [current] := by
  cases current with
  | nil => exact absurd rfl nonempty
  | cons char rest => rfl

theorem componentsFrom_append_slash (current left right : List Char) :
    componentsFrom current (left ++ '/' :: right) =
      componentsFrom current left ++ components right := by
  induction left generalizing current with
  | nil => simp [componentsFrom, components]
  | cons char left induction =>
      by_cases slash : char = '/'
      · simp [componentsFrom, slash, induction]
      · simp [componentsFrom, slash, induction]

theorem components_append_slash (left right : List Char) :
    components (left ++ '/' :: right) = components left ++ components right :=
  componentsFrom_append_slash [] left right

theorem components_slash (right : List Char) :
    components ('/' :: right) = components right := by
  simp [components, componentsFrom, flush]

/-- A path that is closed at its end is followed by whole components. -/
theorem components_append_of_closedAt {root : List Char} (closed : ClosedAt root)
    (rest : List Char) : components (root ++ rest) = components root ++ components rest := by
  rcases closed with empty | last
  · simp [empty, components, componentsFrom, flush]
  · rcases List.getLast?_eq_some_iff.mp last with ⟨front, equal⟩
    subst root
    rw [List.append_assoc, List.singleton_append, components_append_slash,
      components_append_slash]
    simp [components, componentsFrom, flush]

theorem components_append_of_opens (root : List Char) {rest : List Char}
    (opens : Opens rest) : components (root ++ rest) = components root ++ components rest := by
  rcases opens with empty | first
  · simp [empty, components, componentsFrom, flush]
  · rcases List.head?_eq_some_iff.mp first with ⟨tail, equal⟩
    subst rest
    rw [components_append_slash, components_slash]

/-! ## Continuing a component -/

/-- The component that has begun is the beginning of the first one. -/
theorem exists_componentsFrom_eq_cons {current : List Char} (begun : current ≠ [])
    (path : List Char) :
    ∃ more rest, componentsFrom current path = (current ++ more) :: rest := by
  induction path generalizing current with
  | nil => exact ⟨[], [], by simp [componentsFrom, flush_of_ne_nil begun]⟩
  | cons char path induction =>
      by_cases slash : char = '/'
      · exact ⟨[], components path,
          by simp [componentsFrom, slash, flush_of_ne_nil begun, components]⟩
      · have longer : current ++ [char] ≠ [] := by simp
        rcases induction longer with ⟨more, rest, equal⟩
        exact ⟨char :: more, rest, by simp [componentsFrom, slash, equal]⟩

/-- Outside a closed end, a path splits into whole components and a last one. -/
theorem exists_open_component {root : List Char} (notClosed : ¬ClosedAt root) :
    ∃ front last, ClosedAt front ∧ last ≠ [] ∧ '/' ∉ last ∧ root = front ++ last := by
  induction root with
  | nil => exact absurd (Or.inl rfl) notClosed
  | cons char root induction =>
      by_cases closed : ClosedAt root
      · rcases closed with empty | last
        · subst root
          have notSlash : char ≠ '/' := fun slash =>
            notClosed (Or.inr (by simp [slash]))
          exact ⟨[], [char], Or.inl rfl, by simp,
            by simpa using Ne.symm notSlash, rfl⟩
        · refine absurd (Or.inr ?_) notClosed
          rw [List.getLast?_cons, last]
          rfl
      · rcases induction closed with ⟨front, last, frontClosed, begun, plain, rfl⟩
        rcases frontClosed with empty | frontLast
        · subst front
          by_cases slash : char = '/'
          · exact ⟨[char], last, Or.inr (by simp [slash]), begun, plain, rfl⟩
          · refine ⟨[], char :: last, Or.inl rfl, by simp, ?_, rfl⟩
            simpa using ⟨Ne.symm slash, plain⟩
        · refine ⟨char :: front, last, Or.inr ?_, begun, plain, rfl⟩
          rw [List.getLast?_cons, frontLast]
          rfl

theorem componentsFrom_append_of_not_mem {last : List Char} (plain : '/' ∉ last)
    (current rest : List Char) :
    componentsFrom current (last ++ rest) = componentsFrom (current ++ last) rest := by
  induction last generalizing current with
  | nil => simp
  | cons char last induction =>
      have notSlash : char ≠ '/' := fun slash => plain (by simp [slash])
      have tailPlain : '/' ∉ last := fun member => plain (by simp [member])
      simp [componentsFrom, notSlash, induction tailPlain]

theorem not_mem_of_mem_componentsFrom {current path name : List Char} (plain : '/' ∉ current)
    (member : name ∈ componentsFrom current path) : '/' ∉ name := by
  have flushed (current : List Char) (plain : '/' ∉ current) :
      ∀ name ∈ flush current, '/' ∉ name := by
    cases current with
    | nil => simp [flush]
    | cons head tail => simpa [flush] using plain
  induction path generalizing current with
  | nil => exact flushed current plain name member
  | cons char path induction =>
      rw [componentsFrom] at member
      split at member
      · rcases List.mem_append.mp member with first | later
        · exact flushed current plain name first
        · exact induction List.not_mem_nil later
      · next notSlash =>
          apply induction _ member
          rw [List.mem_append, List.mem_singleton, not_or]
          exact ⟨plain, Ne.symm notSlash⟩

/-- A component has no slash. -/
theorem not_mem_of_mem_components {path name : List Char} (member : name ∈ components path) :
    '/' ∉ name :=
  not_mem_of_mem_componentsFrom List.not_mem_nil member

/-- Text that continues the last component of `root` leads to a neighbour of
`root`, never below it. -/
theorem closedAt_or_opens_of_below {root rest : List Char}
    (below : Below root (root ++ rest)) : ClosedAt root ∨ Opens rest := by
  by_contra neither
  rcases not_or.mp neither with ⟨notClosed, notOpens⟩
  rcases exists_open_component notClosed with
    ⟨front, last, frontClosed, begun, plain, rfl⟩
  cases rest with
  | nil => exact notOpens (Or.inl rfl)
  | cons char rest =>
      have notSlash : char ≠ '/' := fun slash => notOpens (Or.inr (by simp [slash]))
      have rootComponents : components (front ++ last) = components front ++ [last] := by
        have begunOnly := componentsFrom_append_of_not_mem plain [] []
        simp only [List.append_nil, List.nil_append] at begunOnly
        rw [components_append_of_closedAt frontClosed, components, components,
          begunOnly, componentsFrom, flush_of_ne_nil begun]
      have longer : last ++ [char] ≠ [] := by simp
      rcases exists_componentsFrom_eq_cons longer rest with ⟨more, others, equal⟩
      have pathComponents : components (front ++ last ++ char :: rest) =
          components front ++ (last ++ [char] ++ more) :: others := by
        rw [List.append_assoc, components_append_of_closedAt frontClosed, components,
          components, componentsFrom_append_of_not_mem plain, List.nil_append,
          componentsFrom, if_neg notSlash, equal]
      rcases below with ⟨names, continued, _⟩
      rw [pathComponents, rootComponents,
        List.append_assoc (components front) [last] names] at continued
      have heads := (List.cons.inj (List.append_cancel_left continued)).1
      have lengths := congrArg List.length heads
      simp at lengths

/-- Below, for a path that repeats the characters of `root`. -/
theorem below_append_iff (root rest : List Char) :
    Below root (root ++ rest) ↔
      (ClosedAt root ∨ Opens rest) ∧ dotdot ∉ components rest := by
  constructor
  · intro below
    have boundary := closedAt_or_opens_of_below below
    rcases below with ⟨names, continued, inside⟩
    have whole : components (root ++ rest) = components root ++ components rest := by
      rcases boundary with closed | opens
      · exact components_append_of_closedAt closed rest
      · exact components_append_of_opens root opens
    rw [whole] at continued
    exact ⟨boundary, List.append_cancel_left continued ▸ inside⟩
  · intro holds
    rcases holds with ⟨closed | opens, inside⟩
    · exact ⟨components rest, components_append_of_closedAt closed rest, inside⟩
    · exact ⟨components rest, components_append_of_opens root opens, inside⟩

/-! ## Characters of components -/

section Characters

variable {path name : List Char} {char : Char}

theorem mem_of_mem_flush {current : List Char} (member : name ∈ flush current) :
    name = current := by
  cases current with
  | nil => cases member
  | cons head tail => exact List.mem_singleton.mp member

theorem mem_of_mem_componentsFrom {current : List Char}
    (member : name ∈ componentsFrom current path) (inside : char ∈ name) :
    char ∈ current ∨ char ∈ path := by
  induction path generalizing current with
  | nil => exact .inl (mem_of_mem_flush member ▸ inside)
  | cons head path induction =>
      rw [componentsFrom] at member
      split at member
      · rcases List.mem_append.mp member with here | later
        · exact .inl (mem_of_mem_flush here ▸ inside)
        · rcases induction later with none | behind
          · cases none
          · exact .inr (List.mem_cons_of_mem head behind)
      · rcases induction member with collected | behind
        · rcases List.mem_append.mp collected with before | own
          · exact .inl before
          · rw [List.mem_singleton.mp own]
            exact .inr List.mem_cons_self
        · exact .inr (List.mem_cons_of_mem head behind)

/-- What stands in a component stands in the path. -/
theorem mem_of_mem_components (member : name ∈ components path) (inside : char ∈ name) :
    char ∈ path := by
  rcases mem_of_mem_componentsFrom member inside with none | behind
  · cases none
  · exact behind

theorem exists_mem_componentsFrom {current : List Char} (inside : char ∈ current ∨ char ∈ path)
    (other : char ≠ '/') : ∃ name ∈ componentsFrom current path, char ∈ name := by
  induction path generalizing current with
  | nil =>
      rcases inside with collected | none
      · refine ⟨current, ?_, collected⟩
        rw [componentsFrom, flush_of_ne_nil (List.ne_nil_of_mem collected)]
        exact List.mem_singleton_self current
      · cases none
  | cons head path induction =>
      rw [componentsFrom]
      split
      next slash =>
        rcases inside with collected | behind
        · refine ⟨current, List.mem_append_left _ ?_, collected⟩
          rw [flush_of_ne_nil (List.ne_nil_of_mem collected)]
          exact List.mem_singleton_self current
        · rcases List.mem_cons.mp behind with same | later
          · exact absurd (same.trans slash) other
          · rcases @induction [] (.inr later) with ⟨name, member, own⟩
            exact ⟨name, List.mem_append_right _ member, own⟩
      · apply induction
        rcases inside with collected | behind
        · exact .inl (List.mem_append_left _ collected)
        · rcases List.mem_cons.mp behind with same | later
          · exact .inl (List.mem_append_right _ (List.mem_singleton.mpr same))
          · exact .inr later

/-- Every character but the slashes stands in a component. -/
theorem exists_mem_components (inside : char ∈ path) (other : char ≠ '/') :
    ∃ name ∈ components path, char ∈ name :=
  exists_mem_componentsFrom (.inr inside) other

end Characters

end Vpopmail.Components
