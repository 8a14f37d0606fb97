import Vpopmail.Foundation.Components

/-! # Trees of directories

Where a path leads in a tree of directories without links. A place is the list of the names
from the root down to it.
-/

namespace Vpopmail.FileTree

open Components

abbrev Place := List (List Char)

inductive Node
  | file
  | directory
  deriving DecidableEq

/-- What there is at each place. Whatever there is stands in a directory. -/
structure Tree where
  node : Place → Option Node
  inDirectory : ∀ place name, node (place ++ [name]) ≠ none → node place = some .directory

@[reducible] def dot : List Char := ['.']

def move (place : Place) (name : List Char) : Place :=
  if name = dot then place else if name = dotdot then place.dropLast else place ++ [name]

/-- The place that the names lead to. -/
def resolve (place : Place) (names : List (List Char)) : Place := names.foldl move place

/-- The places at which a name is looked up. -/
def visited (place : Place) : List (List Char) → List Place
  | [] => []
  | name :: names => place :: visited (move place name) names

/-- The lookup of the names, each in a directory. -/
def Tree.walk (tree : Tree) (place : Place) : List (List Char) → Option Place
  | [] => some place
  | name :: names =>
      if tree.node place = some .directory then tree.walk (move place name) names else none

/-- The place where a path starts. -/
def origin (cwd : Place) (path : List Char) : Place := if path.head? = some '/' then [] else cwd

/-- The place that a path leads to, whatever there is. -/
def target (cwd : Place) (path : List Char) : Place := resolve (origin cwd path) (components path)

/-- The place that a path leads to in the tree. -/
def Tree.lookup (tree : Tree) (cwd : Place) (path : List Char) : Option Place :=
  if path = [] then none else tree.walk (origin cwd path) (components path)

/-- The path ends in a name. -/
def Named (path : List Char) : Prop :=
  ∃ last, (components path).getLast? = some last ∧ last ≠ dot ∧ last ≠ dotdot

instance (path : List Char) : Decidable (Named path) :=
  match found : (components path).getLast? with
  | none => isFalse (by rintro ⟨last, equal, -⟩; rw [found] at equal; cases equal)
  | some last =>
      if proper : last ≠ dot ∧ last ≠ dotdot then isTrue ⟨last, found, proper⟩
      else isFalse (by
        rintro ⟨other, equal, otherProper⟩
        rw [found] at equal
        cases equal
        exact proper otherProper)

/-- The place that `mkdir` makes a directory. -/
def Tree.mkdir (tree : Tree) (cwd : Place) (path : List Char) : Option Place :=
  if Named path then
    (tree.lookup cwd path).filter fun place => tree.node place = none
  else none

/-! ## Places -/

theorem resolve_append (place : Place) (front behind : List (List Char)) :
    resolve place (front ++ behind) = resolve (resolve place front) behind :=
  List.foldl_append

theorem walk_eq (tree : Tree) (place : Place) (names : List (List Char)) :
    tree.walk place names =
      if ∀ other ∈ visited place names, tree.node other = some .directory then
        some (resolve place names)
      else none := by
  induction names generalizing place with
  | nil => rfl
  | cons name names induction =>
      rw [Tree.walk, induction]
      by_cases here : tree.node place = some .directory
      · simp only [here, if_true, visited, List.mem_cons, forall_eq_or_imp, true_and]
        rfl
      · simp only [here, if_false, visited, List.mem_cons, forall_eq_or_imp, false_and]

theorem target_of_lookup {tree : Tree} {cwd place : Place} {path : List Char}
    (found : tree.lookup cwd path = some place) : place = target cwd path := by
  rw [Tree.lookup] at found
  split at found
  · cases found
  · rw [walk_eq] at found
    split at found
    · exact (Option.some.inj found).symm
    · cases found

theorem exists_resolve_concat (place : Place) {names : List (List Char)} {last : List Char}
    (ends : names.getLast? = some last) (noDot : last ≠ dot) (noDotdot : last ≠ dotdot) :
    ∃ above, resolve place names = above ++ [last] := by
  rcases List.getLast?_eq_some_iff.mp ends with ⟨front, rfl⟩
  refine ⟨resolve place front, ?_⟩
  rw [resolve_append, resolve, List.foldl_cons, List.foldl_nil, move, if_neg noDot,
    if_neg noDotdot]

theorem Tree.above_directory (tree : Tree) {place : Place} {more : List (List Char)}
    (some_ : tree.node (place ++ more) ≠ none) (below : more ≠ []) :
    tree.node place = some .directory := by
  induction more using List.reverseRecOn with
  | nil => exact absurd rfl below
  | append_singleton more name induction =>
      rw [← List.append_assoc] at some_
      have here := tree.inDirectory _ _ some_
      cases more with
      | nil => rwa [List.append_nil] at here
      | cons head rest =>
          apply induction
          · rw [here]
            exact Option.some_ne_none _
          · exact List.cons_ne_nil _ _

theorem Tree.node_of_prefix (tree : Tree) {above place : Place} (front : above <+: place)
    (some_ : tree.node place = some .directory) : tree.node above = some .directory := by
  rcases front with ⟨more, rfl⟩
  cases more with
  | nil => rwa [List.append_nil] at some_
  | cons head rest =>
      apply tree.above_directory _ (List.cons_ne_nil head rest)
      rw [some_]
      exact Option.some_ne_none _

/-- Every place is a directory, but for those at and below one. -/
def Tree.without (place : Place) : Tree where
  node := fun other => if place <+: other then none else some .directory
  inDirectory := by
    intro above name some_
    rw [if_neg]
    intro below
    rw [if_pos (below.trans (List.prefix_append above [name]))] at some_
    exact some_ rfl

/-! ## Up and down -/

section Resolving

variable {place front : Place} {names : List (List Char)} {name : List Char}

/-- Names without a period are no steps to another directory. -/
theorem resolve_plain (place : Place) (plain : ∀ name ∈ names, '.' ∉ name) :
    resolve place names = place ++ names := by
  induction names generalizing place with
  | nil => exact (List.append_nil place).symm
  | cons name names induction =>
      rw [List.forall_mem_cons] at plain
      have step : move place name = place ++ [name] := by
        have noDot : name ≠ dot := fun same => plain.1 (same ▸ List.mem_cons_self)
        have noDotdot : name ≠ dotdot := fun same => plain.1 (same ▸ List.mem_cons_self)
        rw [move, if_neg noDot, if_neg noDotdot]
      rw [resolve, List.foldl_cons, step]
      exact (induction _ plain.2).trans (List.append_assoc place [name] names)

/-- A path leads up to some directory above, and from there down along its own names. -/
theorem exists_resolve (above : front <+: place) (passed : List (List Char)) :
    ∃ left behind, left <+: place ∧ resolve (front ++ passed) names = left ++ behind ∧
      ∀ name ∈ behind, name ∈ passed ∨ name ∈ names := by
  induction names generalizing front passed with
  | nil => exact ⟨front, passed, above, rfl, fun name member => .inl member⟩
  | cons name names induction =>
      rw [resolve, List.foldl_cons, move]
      split
      · rcases induction above passed with ⟨left, behind, higher, equal, from_⟩
        refine ⟨left, behind, higher, equal, ?_⟩
        exact fun other member => (from_ other member).imp_right (List.mem_cons_of_mem name)
      · split
        · cases passed using List.reverseRecOn with
          | nil =>
              have shorter := (List.dropLast_prefix front).trans above
              rcases induction shorter [] with ⟨left, behind, higher, equal, from_⟩
              rw [List.append_nil] at equal
              refine ⟨left, behind, higher, ?_, ?_⟩
              · rw [List.append_nil]
                exact equal
              · exact fun other member => (from_ other member).imp_right (List.mem_cons_of_mem name)
          | append_singleton passed last =>
              rcases induction above passed with ⟨left, behind, higher, equal, from_⟩
              refine ⟨left, behind, higher, ?_, ?_⟩
              · rw [← List.append_assoc, List.dropLast_concat]
                exact equal
              · exact fun other member =>
                  (from_ other member).imp (List.mem_append_left _) (List.mem_cons_of_mem name)
        · rcases induction above (passed ++ [name]) with ⟨left, behind, higher, equal, from_⟩
          refine ⟨left, behind, higher, ?_, ?_⟩
          · rw [List.append_assoc]
            exact equal
          · intro other member
            rcases from_ other member with before | later
            · rcases List.mem_append.mp before with old | own
              · exact .inl old
              · exact .inr (List.mem_singleton.mp own ▸ List.mem_cons_self)
            · exact .inr (List.mem_cons_of_mem name later)

/-- A directory is not reached by names that are not its own. -/
theorem not_prefix_resolve {own : List (List Char)} (member : name ∈ own) (foreign : name ∉ names) :
    ¬place ++ own <+: resolve place names := by
  intro below
  rcases @exists_resolve place place names List.prefix_rfl [] with ⟨left, behind, ⟨more, rfl⟩,
    equal, from_⟩
  rw [List.append_nil] at equal
  rw [equal, List.append_assoc, List.prefix_append_right_inj] at below
  rcases from_ name (below.mem (List.mem_append_right more member)) with none | later
  · cases none
  · exact foreign later

theorem target_append_slash (cwd : Place) (path rest : List Char) :
    target cwd (path ++ '/' :: rest) = resolve (target cwd (path ++ ['/'])) (components rest) := by
  have same : origin cwd (path ++ '/' :: rest) = origin cwd (path ++ ['/']) := by
    cases path with
    | nil => rfl
    | cons head path => rfl
  have nothing : components [] = [] := rfl
  rw [target, target, same, components_append_slash, components_append_slash, nothing,
    List.append_nil, FileTree.resolve_append]

end Resolving

/-! ## New directories -/

/-- The path leads to a place that stands above a directory. -/
def Taken (base : Place) (path : List Char) : Prop :=
  ∃ place ∈ base :: visited (origin base path) (components path), target base path <+: place

instance (base : Place) (path : List Char) : Decidable (Taken base path) :=
  inferInstanceAs (Decidable (∃ place ∈ _, _))

theorem mkdir_eq_some {tree : Tree} {cwd place : Place} {path : List Char}
    (made : tree.mkdir cwd path = some place) :
    place = target cwd path ∧ Named path ∧ tree.node place = none ∧
      ∀ other ∈ visited (origin cwd path) (components path),
        tree.node other = some .directory := by
  rw [Tree.mkdir] at made
  split at made
  · next named =>
      rcases Option.filter_eq_some_iff.mp made with ⟨found, free⟩
      refine ⟨target_of_lookup found, named, of_decide_eq_true free, ?_⟩
      rw [Tree.lookup] at found
      split at found
      · cases found
      · rw [walk_eq] at found
        split at found
        · next all => exact all
        · cases found
  · cases made

/-- A path that is taken is not made, as long as there is the directory to start from. -/
theorem not_taken_of_mkdir {tree : Tree} {base place : Place} {path : List Char}
    (exists_ : tree.node base = some .directory) (made : tree.mkdir base path = some place) :
    ¬ Taken base path := by
  rcases mkdir_eq_some made with ⟨rfl, -, free, all⟩
  rintro ⟨other, member, above⟩
  have there : tree.node other = some .directory := by
    rcases List.mem_cons.mp member with rfl | passed
    · exact exists_
    · exact all other passed
  rw [tree.node_of_prefix above there] at free
  cases free

theorem mkdir_without {base : Place} {path : List Char} (named : Named path)
    (free : ¬ Taken base path) :
    (Tree.without (target base path)).node base = some .directory ∧
      (Tree.without (target base path)).mkdir base path = some (target base path) := by
  have directories : ∀ place ∈ base :: visited (origin base path) (components path),
      (Tree.without (target base path)).node place = some .directory := by
    intro place member
    exact if_neg fun above => free ⟨place, member, above⟩
  have nonempty : path ≠ [] := by
    rintro rfl
    rcases named with ⟨last, equal, -⟩
    cases equal
  refine ⟨directories base List.mem_cons_self, ?_⟩
  rw [Tree.mkdir, if_pos named, Tree.lookup, if_neg nonempty, walk_eq, if_pos]
  · rw [Option.filter_some, if_pos]
    · rfl
    · exact decide_eq_true (if_pos List.prefix_rfl)
  · intro place member
    exact directories place (List.mem_cons_of_mem base member)

end Vpopmail.FileTree
