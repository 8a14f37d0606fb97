import Vpopmail.Foundation.FileTree

/-! # Trees of directories with links

Where a path leads when there are symbolic links, and the system calls that remove files and
directories.
-/

namespace Vpopmail.LinkedTree

open Components FileTree

inductive Entry
  | file
  | link (text : List Char)
  | directory
  deriving DecidableEq

/-- A name that an entry of a directory can have. -/
structure Proper (name : List Char) : Prop where
  nonempty : name ≠ []
  plain : '/' ∉ name
  notDot : name ≠ dot
  notDotdot : name ≠ dotdot

instance (name : List Char) : Decidable (Proper name) :=
  decidable_of_iff (name ≠ [] ∧ '/' ∉ name ∧ name ≠ dot ∧ name ≠ dotdot)
    ⟨fun ⟨nonempty, plain, notDot, notDotdot⟩ => ⟨nonempty, plain, notDot, notDotdot⟩,
      fun ⟨nonempty, plain, notDot, notDotdot⟩ => ⟨nonempty, plain, notDot, notDotdot⟩⟩

/-- What there is at each place, and the names in each directory in their order. The tree has
finitely many levels. -/
structure Tree where
  node : Place → Option Entry
  names : Place → List (List Char)
  listed : ∀ place name, name ∈ names place ↔ node (place ++ [name]) ≠ none
  distinct : ∀ place, (names place).Nodup
  proper : ∀ place, ∀ name ∈ names place, Proper name
  inDirectory : ∀ place name, node (place ++ [name]) ≠ none → node place = some .directory
  bounded : ∃ depth, ∀ place, node place ≠ none → place.length ≤ depth

namespace Tree

@[ext]
theorem ext {left right : Tree} (node : left.node = right.node)
    (names : left.names = right.names) : left = right := by
  cases left
  cases right
  cases node
  cases names
  rfl

/-! ## Removal -/

/-- The tree without a place and what is below it. -/
def without (tree : Tree) (place : Place) : Tree where
  node := fun other => if place <+: other then none else tree.node other
  names := fun other =>
    if place <+: other then []
    else (tree.names other).filter fun name => ¬place <+: other ++ [name]
  listed := by
    intro other name
    by_cases below : place <+: other
    · have inside : place <+: other ++ [name] := below.trans (List.prefix_append _ _)
      simp [below, inside]
    · by_cases itself : place <+: other ++ [name]
      · simp [below, itself]
      · simp [below, itself, tree.listed]
  distinct := by
    intro other
    split
    · exact List.nodup_nil
    · exact (tree.distinct other).filter _
  proper := by
    intro other name member
    split at member
    · exact absurd member List.not_mem_nil
    · exact tree.proper other name (List.mem_of_mem_filter member)
  inDirectory := by
    intro other name present
    have inside : ¬place <+: other ++ [name] := fun is => present (if_pos is)
    have outside : ¬place <+: other := fun is =>
      inside (is.trans (List.prefix_append _ _))
    rw [if_neg inside] at present
    rw [if_neg outside]
    exact tree.inDirectory other name present
  bounded := by
    rcases tree.bounded with ⟨depth, bound⟩
    refine ⟨depth, ?_⟩
    intro other present
    by_cases below : place <+: other
    · exact absurd (if_pos below) present
    · rw [if_neg below] at present
      exact bound other present

section Without

variable {tree : Tree} {place other : Place} {name : List Char}

theorem node_without_of_below (below : place <+: other) : (tree.without place).node other = none :=
  if_pos below

theorem node_without_of_not_below (outside : ¬place <+: other) :
    (tree.without place).node other = tree.node other :=
  if_neg outside

theorem names_without_of_not_below (outside : ¬place <+: other) :
    (tree.without place).names other =
      (tree.names other).filter fun name => ¬place <+: other ++ [name] :=
  if_neg outside

theorem present_of_without (present : (tree.without place).node other ≠ none) :
    tree.node other ≠ none := by
  by_cases below : place <+: other
  · exact absurd (node_without_of_below below) present
  · rwa [node_without_of_not_below below] at present

theorem child_below_iff {name second : List Char} :
    place ++ [name] <+: place ++ [second] ↔ name = second := by
  rw [List.prefix_append_right_inj, List.cons_prefix_cons]
  exact and_iff_left (List.prefix_refl _)

theorem child_outside (place : Place) (name : List Char) : ¬place ++ [name] <+: place := by
  intro below
  have size := below.length_le
  rw [List.length_append, List.length_singleton] at size
  omega

/-- Removing what is inside before changes nothing. -/
theorem without_without (below : place <+: other) :
    (tree.without other).without place = tree.without place := by
  ext1
  · funext third
    by_cases inside : place <+: third
    · rw [node_without_of_below inside, node_without_of_below inside]
    · have outside : ¬other <+: third := fun is => inside (below.trans is)
      rw [node_without_of_not_below inside, node_without_of_not_below inside,
        node_without_of_not_below outside]
  · funext third
    by_cases inside : place <+: third
    · exact (if_pos inside).trans (if_pos inside).symm
    · have outside : ¬other <+: third := fun is => inside (below.trans is)
      rw [names_without_of_not_below inside, names_without_of_not_below inside,
        names_without_of_not_below outside, List.filter_filter]
      apply List.filter_congr
      intro name _
      by_cases child : place <+: third ++ [name]
      · simp [child]
      · have neither : ¬other <+: third ++ [name] := fun is => child (below.trans is)
        simp [child, neither]

/-- What is above something that is there. -/
theorem above_directory (tree : Tree) {place : Place} {more : List (List Char)}
    (present : tree.node (place ++ more) ≠ none) (below : more ≠ []) :
    tree.node place = some .directory := by
  induction more using List.reverseRecOn with
  | nil => exact absurd rfl below
  | append_singleton more name induction =>
      rw [← List.append_assoc] at present
      have here := tree.inDirectory _ _ present
      cases more with
      | nil => rwa [List.append_nil] at here
      | cons head rest =>
          apply induction
          · rw [here]
            exact Option.some_ne_none _
          · exact List.cons_ne_nil _ _

/-- Nothing is below what is not there. -/
theorem absent_below (tree : Tree) {place other : Place} (absent : tree.node place = none)
    (below : place <+: other) : tree.node other = none := by
  rcases below with ⟨more, rfl⟩
  by_contra present
  cases more with
  | nil =>
      rw [List.append_nil] at present
      exact present absent
  | cons name rest =>
      have here := tree.above_directory present (List.cons_ne_nil _ _)
      rw [absent] at here
      cases here

/-- An empty directory has nothing below it. -/
theorem not_below_of_empty (tree : Tree) {place other : Place} (empty : tree.names place = [])
    (present : tree.node other ≠ none) (ne : other ≠ place) : ¬place <+: other := by
  rintro ⟨more, rfl⟩
  cases more with
  | nil => exact ne (List.append_nil _)
  | cons name rest =>
      have listed : name ∈ tree.names place := by
        rw [tree.listed]
        cases rest with
        | nil => exact present
        | cons next rest =>
            rw [List.append_cons] at present
            rw [tree.above_directory present (List.cons_ne_nil _ _)]
            exact Option.some_ne_none _
      rw [empty] at listed
      exact absurd listed List.not_mem_nil

end Without

/-- The tree where a directory is empty. -/
def emptied (tree : Tree) (place : Place) : Tree :=
  (tree.names place).foldl (fun tree name => tree.without (place ++ [name])) tree

section Emptied

variable {tree : Tree} {place other : Place}

theorem node_foldl_without (tree : Tree) (place : Place) (names : List (List Char))
    (other : Place) :
    (names.foldl (fun tree name => tree.without (place ++ [name])) tree).node other =
      if ∃ name ∈ names, place ++ [name] <+: other then none else tree.node other := by
  induction names generalizing tree with
  | nil => simp
  | cons name names induction =>
      rw [List.foldl_cons, induction]
      by_cases later : ∃ name ∈ names, place ++ [name] <+: other
      · rcases later with ⟨second, member, below⟩
        rw [if_pos ⟨second, member, below⟩,
          if_pos ⟨second, List.mem_cons_of_mem _ member, below⟩]
      · by_cases first : place ++ [name] <+: other
        · rw [if_neg later, node_without_of_below first,
            if_pos ⟨name, List.mem_cons_self, first⟩]
        · rw [if_neg later, node_without_of_not_below first, if_neg]
          rintro ⟨second, member, below⟩
          rcases List.mem_cons.mp member with rfl | member
          · exact first below
          · exact later ⟨second, member, below⟩

theorem names_foldl_without (tree : Tree) (place : Place) (names : List (List Char)) :
    (names.foldl (fun tree name => tree.without (place ++ [name])) tree).names place =
      (tree.names place).filter fun name => name ∉ names := by
  induction names generalizing tree with
  | nil => simp
  | cons name names induction =>
      rw [List.foldl_cons, induction, names_without_of_not_below (child_outside place name),
        List.filter_filter]
      apply List.filter_congr
      intro second _
      by_cases same : name = second
      · simp [same]
      · have other : ¬place ++ [name] <+: place ++ [second] := mt child_below_iff.mp same
        simp [other, Ne.symm same]

theorem names_emptied (tree : Tree) (place : Place) : (tree.emptied place).names place = [] := by
  rw [emptied, names_foldl_without, List.filter_eq_nil_iff]
  intro name member
  simpa using member

/-- The directory itself and what is not below it stays. -/
theorem node_emptied_of_not_below (outside : ∀ name, ¬place ++ [name] <+: other) :
    (tree.emptied place).node other = tree.node other := by
  rw [emptied, node_foldl_without, if_neg]
  rintro ⟨name, _, below⟩
  exact outside name below

theorem node_emptied_self (tree : Tree) (place : Place) :
    (tree.emptied place).node place = tree.node place :=
  node_emptied_of_not_below (child_outside place)

theorem without_emptied (tree : Tree) (place : Place) :
    (tree.emptied place).without place = tree.without place := by
  rw [emptied]
  generalize tree.names place = names
  induction names generalizing tree with
  | nil => rfl
  | cons name names induction =>
      rw [List.foldl_cons, induction, without_without (List.prefix_append _ _)]

end Emptied

/-! ## Paths -/

/-- The lookup of the names, which follows links. The last name is followed only if this is
asked for. -/
def walk (tree : Tree) (follow : Bool) :
    (steps : Nat) → Place → List (List Char) → Option Place
  | _, place, [] => some place
  | 0, _, _ :: _ => none
  | steps + 1, place, name :: names =>
      if tree.node place = some .directory then
        if name = dot then tree.walk follow steps place names
        else if name = dotdot then tree.walk follow steps place.dropLast names
        else
          match tree.node (place ++ [name]) with
          | some (.link text) =>
              if names = [] ∧ follow = false then some (place ++ [name])
              else tree.walk follow steps (origin place text) (components text ++ names)
          | _ => tree.walk follow steps (place ++ [name]) names
      else none

/-- The path ends in a slash. -/
def Slashed (path : List Char) : Prop := path.getLast? = some '/'

instance (path : List Char) : Decidable (Slashed path) := inferInstanceAs (Decidable (_ = _))

/-- The place that a path leads to. A slash behind a name asks for a directory. -/
def lookup (tree : Tree) (follow : Bool) (steps : Nat) (cwd : Place) (path : List Char) :
    Option Place :=
  if path = [] then none
  else
    (tree.walk (follow || Slashed path) steps (origin cwd path) (components path)).filter
      fun place => ¬Slashed path ∨ tree.node place = some .directory

section Walk

variable {tree : Tree} {follow : Bool} {steps : Nat} {cwd place : Place} {name path : List Char}

/-- A lookup that ends in some steps ends in more. -/
theorem walk_succ {names : List (List Char)}
    (found : tree.walk follow steps cwd names = some place) :
    tree.walk follow (steps + 1) cwd names = some place := by
  induction steps generalizing cwd names with
  | zero =>
      cases names with
      | nil => exact found
      | cons name names => cases found
  | succ steps induction =>
      cases names with
      | nil => exact found
      | cons name names =>
          rw [walk] at found ⊢
          split at found
          next here =>
            rw [if_pos here]
            split at found
            next same =>
              rw [if_pos same]
              exact induction found
            next notDot =>
              rw [if_neg notDot]
              split at found
              next same =>
                rw [if_pos same]
                exact induction found
              next notDotdot =>
                rw [if_neg notDotdot]
                split at found
                next text link =>
                  split at found
                  next last =>
                    rw [if_pos last]
                    exact found
                  next goesOn =>
                    rw [if_neg goesOn]
                    exact induction found
                · exact induction found
          · cases found

/-- A directory is found with and without following the last name. -/
theorem walk_directory {names : List (List Char)}
    (found : tree.walk false steps cwd names = some place)
    (directory : tree.node place = some .directory) (follow : Bool) :
    tree.walk follow steps cwd names = some place := by
  cases follow with
  | false => exact found
  | true =>
      induction steps generalizing cwd names with
      | zero => cases names <;> exact found
      | succ steps induction =>
          cases names with
          | nil => exact found
          | cons name names =>
              rw [walk] at found ⊢
              split at found
              next here =>
                rw [if_pos here]
                split at found
                next same =>
                  rw [if_pos same]
                  exact induction found
                next notDot =>
                  rw [if_neg notDot]
                  split at found
                  next same =>
                    rw [if_pos same]
                    exact induction found
                  next notDotdot =>
                    rw [if_neg notDotdot]
                    split at found
                    next text link =>
                      split at found
                      · rw [← Option.some.inj found, link] at directory
                        cases directory
                      next goesOn =>
                        rw [if_neg fun last => Bool.noConfusion last.2]
                        exact induction found
                    · exact induction found
              · cases found

/-- A name in a directory. -/
theorem walk_name (here : tree.node place = some .directory) (proper : Proper name)
    (notFollowed : follow = false ∨ ∀ text, tree.node (place ++ [name]) ≠ some (.link text)) :
    tree.walk follow (steps + 1) place [name] = some (place ++ [name]) := by
  rw [walk, if_pos here, if_neg proper.notDot, if_neg proper.notDotdot]
  split
  next text link =>
    rcases notFollowed with never | other
    · rw [if_pos ⟨rfl, never⟩]
    · exact absurd link (other text)
  · rw [walk]

/-- Names that lead through directories only. -/
theorem walk_down {names : List (List Char)}
    (directory : tree.node (place ++ names) = some .directory) (short : names.length ≤ steps) :
    tree.walk follow steps place names = some (place ++ names) := by
  induction steps generalizing place names with
  | zero =>
      rw [List.length_eq_zero_iff.mp (Nat.le_zero.mp short), walk, List.append_nil]
  | succ steps induction =>
      cases names with
      | nil => rw [walk, List.append_nil]
      | cons name names =>
          have present : tree.node (place ++ name :: names) ≠ none := by
            rw [directory]
            exact Option.some_ne_none _
          have here := tree.above_directory present (List.cons_ne_nil _ _)
          rw [List.append_cons] at directory present ⊢
          have next : tree.node (place ++ [name]) = some .directory := by
            cases names with
            | nil => rwa [List.append_nil] at directory
            | cons second names => exact tree.above_directory present (List.cons_ne_nil _ _)
          have proper : Proper name := by
            apply tree.proper place name
            rw [tree.listed, next]
            exact Option.some_ne_none _
          rw [walk, if_pos here, if_neg proper.notDot, if_neg proper.notDotdot, next]
          exact induction directory (Nat.le_of_succ_le_succ short)

/-- A name behind a path that leads to a directory. -/
theorem walk_concat {names : List (List Char)} {start : Place}
    (found : tree.walk true steps start names = some place)
    (here : tree.node place = some .directory) (proper : Proper name) :
    tree.walk false (steps + 1) start (names ++ [name]) = some (place ++ [name]) := by
  induction steps generalizing start names with
  | zero =>
      cases names with
      | nil =>
          rw [walk, Option.some.injEq] at found
          rw [List.nil_append, found]
          exact walk_name here proper (.inl rfl)
      | cons head names => cases found
  | succ steps induction =>
      cases names with
      | nil =>
          rw [walk, Option.some.injEq] at found
          rw [List.nil_append, found]
          exact walk_name here proper (.inl rfl)
      | cons head names =>
          rw [walk] at found
          rw [List.cons_append, walk]
          split at found
          next directory =>
            rw [if_pos directory]
            split at found
            next same =>
              rw [if_pos same]
              exact induction found
            next notDot =>
              rw [if_neg notDot]
              split at found
              next same =>
                rw [if_pos same]
                exact induction found
              next notDotdot =>
                rw [if_neg notDotdot]
                split at found
                next text link =>
                  have goesOn : ¬(names ++ [name] = [] ∧ false = false) := fun last =>
                    List.append_ne_nil_of_right_ne_nil _ (List.cons_ne_nil _ _) last.1
                  rw [if_neg fun last => Bool.noConfusion last.2] at found
                  rw [if_neg goesOn, ← List.append_assoc]
                  exact induction found
                · exact induction found
          · cases found

/-- A lookup that does not follow the last name ends at it. -/
theorem walk_last {names : List (List Char)} {start : Place}
    (found : tree.walk false steps start (names ++ [name]) = some place) (proper : Proper name) :
    ∃ above, place = above ++ [name] := by
  induction steps generalizing start names with
  | zero =>
      cases names <;> cases found
  | succ steps induction =>
      cases names with
      | nil =>
          rw [List.nil_append, walk, if_neg proper.notDot, if_neg proper.notDotdot] at found
          split at found
          · split at found
            · rw [if_pos ⟨rfl, rfl⟩, Option.some.injEq] at found
              exact ⟨start, found.symm⟩
            · rw [walk, Option.some.injEq] at found
              exact ⟨start, found.symm⟩
          · cases found
      | cons head names =>
          rw [List.cons_append, walk] at found
          split at found
          · split at found
            · exact induction found
            · split at found
              · exact induction found
              · split at found
                · have goesOn : ¬(names ++ [name] = [] ∧ false = false) := fun last =>
                    List.append_ne_nil_of_right_ne_nil _ (List.cons_ne_nil _ _) last.1
                  rw [if_neg goesOn, ← List.append_assoc] at found
                  exact induction found
                · exact induction found
          · cases found

theorem walk_dotdot (here : tree.node place = some .directory) :
    tree.walk follow (steps + 1) place [dotdot] = some place.dropLast := by
  have other : dotdot ≠ dot := by decide
  rw [walk, if_pos here, if_neg other, if_pos rfl, walk]

theorem components_name (proper : Proper name) : components name = [name] := by
  have whole := componentsFrom_append_of_not_mem proper.plain [] []
  rw [List.append_nil, List.nil_append] at whole
  rw [components, whole, componentsFrom, flush_of_ne_nil proper.nonempty]

theorem not_slashed_name (proper : Proper name) : ¬Slashed name :=
  fun slashed => proper.plain (List.mem_of_getLast? slashed)

theorem origin_name (proper : Proper name) (place : Place) : origin place name = place :=
  if_neg fun absolute => proper.plain (List.mem_of_head? absolute)

theorem lookup_name (here : tree.node place = some .directory) (proper : Proper name)
    (notFollowed : follow = false ∨ ∀ text, tree.node (place ++ [name]) ≠ some (.link text)) :
    tree.lookup follow (steps + 1) place name = some (place ++ [name]) := by
  have plain := not_slashed_name proper
  rw [lookup, if_neg proper.nonempty, components_name proper, origin_name proper,
    decide_eq_false plain, Bool.or_false, walk_name here proper notFollowed, Option.filter_some,
    if_pos (decide_eq_true (.inl plain))]

end Walk

/-! ## New entries -/

/-- The tree of the root alone. -/
def root : Tree where
  node := fun place => if place = [] then some .directory else none
  names := fun _ => []
  listed := by
    intro place name
    simp
  distinct := fun _ => List.nodup_nil
  proper := fun _ _ member => absurd member List.not_mem_nil
  inDirectory := by
    intro place name present
    exact absurd (if_neg (List.append_ne_nil_of_right_ne_nil _ (List.cons_ne_nil _ _))) present
  bounded := by
    refine ⟨0, ?_⟩
    intro place present
    by_cases top : place = []
    · rw [top]
      exact Nat.le_refl 0
    · exact absurd (if_neg top) present

/-- The tree with a new entry at the end of a directory, as `open`, `symlink` and `mkdir` make
it. -/
def add (tree : Tree) (place : Place) (name : List Char) (entry : Entry)
    (directory : tree.node place = some .directory) (free : tree.node (place ++ [name]) = none)
    (proper : Proper name) : Tree where
  node := fun other => if other = place ++ [name] then some entry else tree.node other
  names := fun other => if other = place then tree.names place ++ [name] else tree.names other
  listed := by
    intro other second
    by_cases here : other = place
    · subst here
      by_cases same : second = name
      · simp [same]
      · simp [same, tree.listed]
    · have apart : other ++ [second] ≠ place ++ [name] := fun equal =>
        here (List.append_inj_left' equal rfl)
      simp [here, apart, tree.listed]
  distinct := by
    intro other
    split
    · rw [List.nodup_append]
      refine ⟨tree.distinct place, List.pairwise_singleton _ name, ?_⟩
      rintro second member third last rfl
      rw [List.mem_singleton.mp last] at member
      exact (tree.listed place name).mp member free
    · exact tree.distinct other
  proper := by
    intro other second member
    split at member
    · rcases List.mem_append.mp member with before | last
      · exact tree.proper place second before
      · rw [List.mem_singleton.mp last]
        exact proper
    · exact tree.proper other second member
  inDirectory := by
    intro other second present
    have old : other ≠ place ++ [name] → (if other = place ++ [name] then some entry
        else tree.node other) = tree.node other := fun ne => if_neg ne
    by_cases new : other ++ [second] = place ++ [name]
    · have same : other = place := List.append_inj_left' new rfl
      have ne : other ≠ place ++ [name] := by
        rw [same]
        intro equal
        exact absurd (congrArg List.length equal) (by simp)
      rw [old ne, same]
      exact directory
    · rw [if_neg new] at present
      have here := tree.inDirectory other second present
      have ne : other ≠ place ++ [name] := by
        rintro rfl
        rw [free] at here
        cases here
      rw [old ne]
      exact here
  bounded := by
    rcases tree.bounded with ⟨depth, bound⟩
    refine ⟨depth + 1, ?_⟩
    intro other present
    by_cases new : other = place ++ [name]
    · have above : place.length ≤ depth := bound place (by rw [directory]; exact Option.some_ne_none _)
      rw [new, List.length_append, List.length_singleton]
      exact Nat.succ_le_succ above
    · rw [if_neg new] at present
      exact (bound other present).trans (Nat.le_succ depth)

end Tree

/-! ## System calls -/

/-- The tree and the working directory. -/
@[ext]
structure World where
  tree : Tree
  cwd : Place

namespace World

variable (steps : Nat) (world : World) (path : List Char)

def lstat : Option Entry := (world.tree.lookup false steps world.cwd path).bind world.tree.node

def stat : Option Entry := (world.tree.lookup true steps world.cwd path).bind world.tree.node

def chdir : Option World :=
  (world.tree.lookup true steps world.cwd path).bind fun place =>
    if world.tree.node place = some .directory then some { world with cwd := place } else none

/-- `unlink`, which does not remove directories. -/
def unlink : Option World :=
  (world.tree.lookup false steps world.cwd path).bind fun place =>
    match world.tree.node place with
    | none | some .directory => none
    | some .file | some (.link _) => some { world with tree := world.tree.without place }

/-- `rmdir`, of an empty directory whose name the path ends in. -/
def rmdir : Option World :=
  if Named path then
    (world.tree.walk false steps (origin world.cwd path) (components path)).bind fun place =>
      if world.tree.node place = some .directory ∧ world.tree.names place = [] then
        some { world with tree := world.tree.without place }
      else none
  else none

/-- What `readdir` returns one after the other, for the working directory. -/
def readdir : List (List Char) := dot :: dotdot :: world.tree.names world.cwd

end World

section Calls

variable {steps : Nat} {tree : Tree} {place : Place} {name : List Char} {entry : Entry}

theorem lstat_name (here : tree.node place = some .directory) (proper : Proper name) :
    (World.mk tree place).lstat (steps + 1) name = tree.node (place ++ [name]) := by
  rw [World.lstat, Tree.lookup_name here proper (.inl rfl)]
  rfl

theorem stat_name (here : tree.node place = some .directory) (proper : Proper name)
    (notLink : ∀ text, tree.node (place ++ [name]) ≠ some (.link text)) :
    (World.mk tree place).stat (steps + 1) name = tree.node (place ++ [name]) := by
  rw [World.stat, Tree.lookup_name here proper (.inr notLink)]
  rfl

theorem unlink_name (here : tree.node place = some .directory) (proper : Proper name)
    (found : tree.node (place ++ [name]) = some entry) (notDirectory : entry ≠ .directory) :
    (World.mk tree place).unlink (steps + 1) name = some ⟨tree.without (place ++ [name]), place⟩ := by
  rw [World.unlink, Tree.lookup_name here proper (.inl rfl), Option.bind_some, found]
  cases entry with
  | file | link text => rfl
  | directory => exact absurd rfl notDirectory

theorem chdir_name (here : tree.node place = some .directory) (proper : Proper name)
    (found : tree.node (place ++ [name]) = some .directory) :
    (World.mk tree place).chdir (steps + 1) name = some ⟨tree, place ++ [name]⟩ := by
  have notLink : ∀ text, tree.node (place ++ [name]) ≠ some (.link text) := by
    intro text
    rw [found]
    exact fun same => by cases same
  rw [World.chdir, Tree.lookup_name here proper (.inr notLink), Option.bind_some, if_pos found]

theorem named_name (proper : Proper name) : Named name :=
  ⟨name, by rw [Tree.components_name proper]; rfl, proper.notDot, proper.notDotdot⟩

theorem chdir_dotdot (here : tree.node place = some .directory) :
    (World.mk tree place).chdir (steps + 1) dotdot = some ⟨tree, place.dropLast⟩ := by
  have names : components dotdot = [dotdot] := by decide
  have start : origin place dotdot = place := if_neg (by decide)
  have plain : ¬Tree.Slashed dotdot := by decide
  have above : tree.node place.dropLast = some .directory := by
    rcases List.eq_nil_or_concat place with rfl | ⟨front, last, rfl⟩
    · exact here
    · rw [List.concat_eq_append, List.dropLast_concat]
      rw [List.concat_eq_append] at here
      apply tree.inDirectory front last
      rw [here]
      exact Option.some_ne_none _
  rw [World.chdir, Tree.lookup, if_neg (by decide), names, start, Tree.walk_dotdot here,
    Option.filter_some, if_pos (decide_eq_true (.inl plain)), Option.bind_some, if_pos above]

end Calls

end Vpopmail.LinkedTree
