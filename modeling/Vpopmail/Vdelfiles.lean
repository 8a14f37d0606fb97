import Vpopmail.Foundation.LinkedTree

/-! # Deleting a tree of directories

`vdelfiles` goes into the directory, deletes what is in it, goes back with `..` and removes the
directory by the path it was given. That path is looked up in another directory then.
-/

namespace Vpopmail.Vdelfiles

open LinkedTree Components
open FileTree (Place Named dot origin)

/-- The result of a call, and the tree and the working directory behind it. -/
abbrev Outcome := Option (Int × World)

/-- The loop of `vdelfiles` over what `readdir` returns. `isDir` is what `S_ISDIR` finds in
`statbuf`, which a `stat` that fails leaves as it is. -/
def deleteEntries (steps : Nat) (recurse : World → List Char → Outcome) :
    List (List Char) → (isDir : Bool) → World → Outcome
  | [], _, world => some (0, world)
  | name :: rest, isDir, world =>
      -- skip the current directory and the parent directory entries
      if name = dot ∨ name = dotdot then deleteEntries steps recurse rest isDir world
      else
        let isDir : Bool :=
          match world.stat steps name with
          | some entry => entry = .directory
          | none => isDir
        if isDir then
          (recurse world name).bind fun (code, world) =>
            if code = -1 then some (-1, world) else deleteEntries steps recurse rest isDir world
        else
          match world.unlink steps name with
          | none => some (-1, world)
          | some world => deleteEntries steps recurse rest isDir world

/-- `vdelfiles`, without a result if the rounds are used up. -/
def vdelfiles (steps : Nat) : (rounds : Nat) → World → (dir : List Char) → Outcome
  | 0, _, _ => none
  | rounds + 1, world, dir =>
      match world.lstat steps dir with
      | none => some (-1, world)
      | some .directory =>
          match world.chdir steps dir with
          | none => some (-1, world)
          | some inside =>
              (deleteEntries steps (vdelfiles steps rounds) inside.readdir true inside).bind
                fun (code, world) =>
                  if code = -1 then some (-1, world)
                  else
                    match world.chdir steps dotdot with
                    | none => some (-1, world)
                    -- the result of rmdir is not looked at
                    | some above => some (0, (above.rmdir steps dir).getD above)
      | some _ =>
          match world.unlink steps dir with
          | none => some (-1, world)
          | some world => some (0, world)

/-! ## Names in the working directory -/

section Names

variable {steps rounds : Nat} {tree : Tree} {place : Place} {name : List Char}

/-- What is below a place has fewer levels than there are rounds. -/
def Shallow (tree : Tree) (place : Place) (rounds : Nat) : Prop :=
  ∀ more, tree.node (place ++ more) ≠ none → more.length < rounds

theorem Shallow.without {other : Place} (shallow : Shallow tree place rounds) :
    Shallow (tree.without other) place rounds :=
  fun more present => shallow more (Tree.present_of_without present)

theorem Shallow.child (shallow : Shallow tree place (rounds + 1)) (name : List Char) :
    Shallow tree (place ++ [name]) rounds := by
  intro more present
  rw [List.append_assoc] at present
  exact Nat.lt_of_succ_lt_succ (shallow (name :: more) present)

/-- What `vdelfiles` does with a name in the working directory. -/
def Deletes (steps rounds : Nat) (tree : Tree) (place : Place) (name : List Char) : Prop :=
  vdelfiles steps rounds ⟨tree, place⟩ name = some (0, ⟨tree.without (place ++ [name]), place⟩)

/-- The loop removes what it is given, whatever `stat` finds behind the links. -/
theorem deleteEntries_eq (names : List (List Char)) (isDir : Bool)
    (here : tree.node place = some .directory) (distinct : names.Nodup)
    (listed : ∀ name ∈ names, name ∈ tree.names place)
    (shallow : Shallow tree place (rounds + 1))
    (deletes : ∀ tree name, tree.node place = some .directory → name ∈ tree.names place →
      Shallow tree (place ++ [name]) rounds → Deletes (steps + 1) rounds tree place name) :
    deleteEntries (steps + 1) (vdelfiles (steps + 1) rounds) names isDir ⟨tree, place⟩ =
      some (0, ⟨names.foldl (fun tree name => tree.without (place ++ [name])) tree, place⟩) := by
  induction names generalizing tree isDir with
  | nil => rfl
  | cons name names induction =>
      have member := listed name List.mem_cons_self
      have proper := tree.proper place name member
      have notDots : ¬(name = dot ∨ name = dotdot) :=
        not_or.mpr ⟨proper.notDot, proper.notDotdot⟩
      have parts := List.nodup_cons.mp distinct
      have still : (tree.without (place ++ [name])).node place = some .directory := by
        rwa [Tree.node_without_of_not_below (Tree.child_outside place name)]
      have others : ∀ second ∈ names, second ∈ (tree.without (place ++ [name])).names place := by
        intro second later
        rw [Tree.names_without_of_not_below (Tree.child_outside place name), List.mem_filter]
        refine ⟨listed second (List.mem_cons_of_mem _ later), decide_eq_true ?_⟩
        rw [Tree.child_below_iff]
        rintro rfl
        exact parts.1 later
      have rest := fun isDir => induction isDir still parts.2 others shallow.without
      have recursive := deletes tree name here member (shallow.child name)
      rw [List.foldl_cons, deleteEntries, if_neg notDots]
      cases found : tree.node (place ++ [name]) with
      | none => exact absurd found ((tree.listed place name).mp member)
      | some entry =>
          have unlinks : entry ≠ .directory → (World.mk tree place).unlink (steps + 1) name =
              some ⟨tree.without (place ++ [name]), place⟩ := unlink_name here proper found
          have succeeded : ¬(0 : Int) = -1 := by decide
          -- A link is unlinked on either way.
          have either : ∀ isDir, (entry ≠ .directory ∨ isDir = true) →
              (if isDir = true then
                (vdelfiles (steps + 1) rounds ⟨tree, place⟩ name).bind fun result =>
                  if result.1 = -1 then some (-1, result.2)
                  else deleteEntries (steps + 1) (vdelfiles (steps + 1) rounds) names isDir result.2
              else
                match (World.mk tree place).unlink (steps + 1) name with
                | none => some (-1, ⟨tree, place⟩)
                | some world =>
                    deleteEntries (steps + 1) (vdelfiles (steps + 1) rounds) names isDir world) =
                some (0, ⟨names.foldl (fun tree name => tree.without (place ++ [name]))
                  (tree.without (place ++ [name])), place⟩) := by
            intro isDir allowed
            cases isDir with
            | true =>
                rw [if_pos rfl, recursive, Option.bind_some, if_neg succeeded]
                exact rest true
            | false =>
                rw [if_neg Bool.false_ne_true,
                  unlinks (allowed.resolve_right Bool.false_ne_true)]
                exact rest false
          apply either
          cases entry with
          | file => exact .inl (by decide)
          | link text => exact .inl (fun same => by cases same)
          | directory =>
              have notLink : ∀ text, tree.node (place ++ [name]) ≠ some (.link text) := by
                intro text
                rw [found]
                exact fun same => by cases same
              rw [stat_name here proper notLink, found]
              exact .inr (decide_eq_true rfl)

/-- The loop over all of a directory leaves it empty. -/
theorem deleteEntries_readdir (here : tree.node place = some .directory)
    (shallow : Shallow tree place (rounds + 1))
    (deletes : ∀ tree name, tree.node place = some .directory → name ∈ tree.names place →
      Shallow tree (place ++ [name]) rounds → Deletes (steps + 1) rounds tree place name) :
    deleteEntries (steps + 1) (vdelfiles (steps + 1) rounds) (World.mk tree place).readdir true
      ⟨tree, place⟩ = some (0, ⟨tree.emptied place, place⟩) := by
  rw [World.readdir, deleteEntries, if_pos (.inl rfl), deleteEntries, if_pos (.inr rfl)]
  exact deleteEntries_eq _ true here (tree.distinct place) (fun _ member => member) shallow deletes

/-- A name in the working directory is deleted with everything below it, and a link without
what it leads to. -/
theorem vdelfiles_name (rounds : Nat) (here : tree.node place = some .directory)
    (member : name ∈ tree.names place) (shallow : Shallow tree (place ++ [name]) rounds) :
    Deletes (steps + 1) rounds tree place name := by
  induction rounds generalizing tree place name with
  | zero =>
      have present := (tree.listed place name).mp member
      rw [← List.append_nil (place ++ [name])] at present
      exact absurd (shallow [] present) (Nat.not_lt_zero 0)
  | succ rounds induction =>
      have proper := tree.proper place name member
      rw [Deletes, vdelfiles, lstat_name here proper]
      cases found : tree.node (place ++ [name]) with
      | none => exact absurd found ((tree.listed place name).mp member)
      | some entry =>
          cases entry with
          | file => rw [unlink_name here proper found (by decide)]
          | link text => rw [unlink_name here proper found (fun same => by cases same)]
          | directory =>
              have loop : deleteEntries (steps + 1) (vdelfiles (steps + 1) rounds) _ true
                  ⟨tree, place ++ [name]⟩ = _ :=
                deleteEntries_readdir found shallow
                  fun tree name here member shallow => induction here member shallow
              have empty : (tree.emptied (place ++ [name])).node (place ++ [name]) =
                  some .directory := by
                rw [Tree.node_emptied_self, found]
              have still : (tree.emptied (place ++ [name])).node place = some .directory := by
                rw [Tree.node_emptied_of_not_below, here]
                intro second below
                exact Tree.child_outside place name ((List.prefix_append _ _).trans below)
              have removes : (World.mk (tree.emptied (place ++ [name])) place).rmdir (steps + 1)
                  name = some ⟨tree.without (place ++ [name]), place⟩ := by
                rw [World.rmdir, if_pos (named_name proper), Tree.components_name proper,
                  Tree.origin_name proper, Tree.walk_name still proper (.inl rfl),
                  Option.bind_some, if_pos ⟨empty, Tree.names_emptied _ _⟩,
                  Tree.without_emptied]
              rw [chdir_name here proper found]
              simp only
              rw [loop, Option.bind_some]
              simp only
              rw [if_neg (by decide), chdir_dotdot empty, List.dropLast_concat]
              simp only
              rw [removes, Option.getD_some]

end Names

/-! ## Paths -/

/-- The path, looked up from the directory above with the directory empty, leads to the
directory again. -/
def LeadsBack (steps : Nat) (tree : Tree) (place : Place) (dir : List Char) : Prop :=
  Named dir ∧ (tree.emptied place).walk false steps (origin place.dropLast dir) (components dir) =
    some place

/-- What is at the place is deleted with everything below it, and nothing else. -/
def DeletesExactly (steps : Nat) (world : World) (dir : List Char) (place : Place) : Prop :=
  ∃ rounds after, (∀ more, rounds ≤ more → vdelfiles steps more world dir = some (0, after)) ∧
    after.tree = world.tree.without place

section Paths

variable {steps : Nat} {world : World} {dir : List Char} {place : Place}

theorem exists_shallow (tree : Tree) (place : Place) : ∃ rounds, Shallow tree place rounds := by
  rcases tree.bounded with ⟨depth, bound⟩
  refine ⟨depth + 1, ?_⟩
  intro more present
  have size := bound _ present
  rw [List.length_append] at size
  omega

/-- Where `chdir` goes is where `lstat` has found the directory. -/
theorem chdir_of_lookup (found : world.tree.lookup false (steps + 1) world.cwd dir = some place)
    (directory : world.tree.node place = some .directory) :
    world.chdir (steps + 1) dir = some ⟨world.tree, place⟩ := by
  rw [Tree.lookup] at found
  split at found
  · cases found
  next nonempty =>
  rcases Option.filter_eq_some_iff.mp found with ⟨walked, slash⟩
  have followed : world.tree.walk true (steps + 1) (origin world.cwd dir) (components dir) =
      some place := by
    by_cases slashed : Tree.Slashed dir
    · rwa [decide_eq_true slashed, Bool.or_true] at walked
    · rw [decide_eq_false slashed, Bool.or_false] at walked
      exact Tree.walk_directory walked directory true
  rw [World.chdir, Tree.lookup, if_neg nonempty, Bool.true_or, followed, Option.filter_some,
    if_pos slash, Option.bind_some, if_pos directory]

/-- What a call does that finds something. -/
theorem vdelfiles_eq (found : world.tree.lookup false (steps + 1) world.cwd dir = some place)
    {rounds : Nat} (shallow : Shallow world.tree place rounds) (entry : Entry)
    (is : world.tree.node place = some entry) :
    vdelfiles (steps + 1) rounds world dir =
      some (0, if entry = .directory then
          ((World.mk (world.tree.emptied place) place.dropLast).rmdir (steps + 1) dir).getD
            ⟨world.tree.emptied place, place.dropLast⟩
        else ⟨world.tree.without place, world.cwd⟩) := by
  cases rounds with
  | zero =>
      have nothing := shallow []
      rw [List.append_nil, is] at nothing
      exact absurd (nothing (Option.some_ne_none _)) (Nat.not_lt_zero _)
  | succ rounds =>
      have seen : world.lstat (steps + 1) dir = some entry := by
        rw [World.lstat, found, Option.bind_some, is]
      have unlinks : entry ≠ .directory → world.unlink (steps + 1) dir =
          some ⟨world.tree.without place, world.cwd⟩ := by
        intro notDirectory
        rw [World.unlink, found, Option.bind_some, is]
        cases entry with
        | file | link text => rfl
        | directory => exact absurd rfl notDirectory
      rw [vdelfiles, seen]
      cases entry with
      | file => rw [unlinks (by decide), if_neg (by decide)]
      | link text =>
          have other : Entry.link text ≠ .directory := fun same => by cases same
          rw [unlinks other, if_neg other]
      | directory =>
          have loop : deleteEntries (steps + 1) (vdelfiles (steps + 1) rounds) _ true
              ⟨world.tree, place⟩ = _ :=
            deleteEntries_readdir is shallow
              fun tree name here member shallow => vdelfiles_name rounds here member shallow
          have empty : (world.tree.emptied place).node place = some .directory := by
            rw [Tree.node_emptied_self, is]
          simp only
          rw [chdir_of_lookup found is]
          simp only
          rw [loop, Option.bind_some]
          simp only
          rw [if_neg (by decide), chdir_dotdot empty, if_pos trivial]

/-- The tree behind the call of `rmdir`. -/
abbrev removed (steps : Nat) (tree : Tree) (place : Place) (dir : List Char) : Tree :=
  (((World.mk (tree.emptied place) place.dropLast).rmdir steps dir).getD
    ⟨tree.emptied place, place.dropLast⟩).tree

/-- What `rmdir` does: it removes an empty directory, or nothing. -/
theorem removed_cases (steps : Nat) (tree : Tree) (place : Place) (dir : List Char) :
    removed steps tree place dir = tree.emptied place ∨
      ∃ other, (tree.emptied place).walk false steps (origin place.dropLast dir) (components dir) =
          some other ∧ Named dir ∧ (tree.emptied place).names other = [] ∧
        removed steps tree place dir = (tree.emptied place).without other := by
  rw [removed, World.rmdir]
  split
  next named =>
    cases walked : (tree.emptied place).walk false steps (origin place.dropLast dir)
        (components dir) with
    | none => exact .inl rfl
    | some other =>
        rw [Option.bind_some]
        split
        next removable => exact .inr ⟨other, rfl, named, removable.2, rfl⟩
        · exact .inl rfl
  · exact .inl rfl

/-- Something stays where something else is removed. -/
theorem node_removed {tree : Tree} {other : Place}
    (present : (tree.emptied place).node other ≠ none)
    (elsewhere : (tree.emptied place).walk false steps (origin place.dropLast dir)
      (components dir) ≠ some other) :
    (removed steps tree place dir).node other = (tree.emptied place).node other := by
  rcases removed_cases steps tree place dir with same | ⟨third, walked, _, empty, same⟩
  · rw [same]
  · have apart : other ≠ third := by
      rintro rfl
      exact elsewhere walked
    -- The third directory is empty, so that it is not above this one.
    rw [same, Tree.node_without_of_not_below (Tree.not_below_of_empty _ empty present apart)]

theorem removed_of_leadsBack {tree : Tree} (directory : tree.node place = some .directory)
    (leads : LeadsBack steps tree place dir) :
    removed steps tree place dir = tree.without place := by
  have empty : (tree.emptied place).node place = some .directory := by
    rw [Tree.node_emptied_self, directory]
  rw [removed, World.rmdir, if_pos leads.1, leads.2, Option.bind_some,
    if_pos ⟨empty, Tree.names_emptied _ _⟩]
  exact Tree.without_emptied _ _

theorem leadsBack_of_gone {tree : Tree} (directory : tree.node place = some .directory)
    (gone : (removed steps tree place dir).node place = none) :
    LeadsBack steps tree place dir := by
  have empty : (tree.emptied place).node place = some .directory := by
    rw [Tree.node_emptied_self, directory]
  have present : (tree.emptied place).node place ≠ none := by
    rw [empty]
    exact Option.some_ne_none _
  by_cases walked : (tree.emptied place).walk false steps (origin place.dropLast dir)
      (components dir) = some place
  · refine ⟨?_, walked⟩
    rcases removed_cases steps tree place dir with same | ⟨_, _, named, _⟩
    · rw [same] at gone
      exact absurd gone present
    · exact named
  · rw [node_removed present walked] at gone
    exact absurd gone present

theorem deletesExactly_of_leadsBack {entry : Entry}
    (found : world.tree.lookup false (steps + 1) world.cwd dir = some place)
    (is : world.tree.node place = some entry)
    (leads : entry = .directory → LeadsBack (steps + 1) world.tree place dir) :
    DeletesExactly (steps + 1) world dir place := by
  rcases exists_shallow world.tree place with ⟨rounds, shallow⟩
  refine ⟨rounds, _, fun more enough =>
    vdelfiles_eq found (fun below present => (shallow below present).trans_le enough) entry is, ?_⟩
  split
  next directory =>
    rw [directory] at is
    exact removed_of_leadsBack is (leads directory)
  · rfl

theorem leadsBack_of_deletesExactly
    (found : world.tree.lookup false (steps + 1) world.cwd dir = some place)
    (directory : world.tree.node place = some .directory)
    (deletes : DeletesExactly (steps + 1) world dir place) :
    LeadsBack (steps + 1) world.tree place dir := by
  rcases exists_shallow world.tree place with ⟨rounds, shallow⟩
  rcases deletes with ⟨least, after, returns, deleted⟩
  have outcome := vdelfiles_eq found
    (fun below present => (shallow below present).trans_le (Nat.le_max_left rounds least))
    .directory directory
  have same := outcome.symm.trans (returns _ (Nat.le_max_right rounds least))
  rw [if_pos rfl, Option.some.injEq, Prod.mk.injEq] at same
  apply leadsBack_of_gone directory
  rw [removed, same.2, deleted]
  exact Tree.node_without_of_below List.prefix_rfl

/-- The absolute paths that the callers pass lead back. -/
theorem leadsBack_of_absolute {tree : Tree} (directory : tree.node place = some .directory)
    (absolute : dir.head? = some '/') (plain : components dir = place) (some_ : place ≠ [])
    (short : place.length ≤ steps) : LeadsBack steps tree place dir := by
  rcases List.eq_nil_or_concat place with none_ | ⟨front, last, rfl⟩
  · exact absurd none_ some_
  rw [List.concat_eq_append] at *
  have proper : Proper last := by
    apply tree.proper front last
    rw [tree.listed, directory]
    exact Option.some_ne_none _
  constructor
  · exact ⟨last, by rw [plain, List.getLast?_concat], proper.notDot, proper.notDotdot⟩
  · rw [origin, if_pos absolute, plain]
    apply Tree.walk_down
    · rw [List.nil_append, Tree.node_emptied_self, directory]
    · exact short

/-- `vdelfiles` deletes what it is given and nothing else, if the path leads back to it. -/
theorem vdelfiles_confined_iff (steps : Nat) (world : World) (dir : List Char) {place : Place}
    {entry : Entry} (found : world.tree.lookup false (steps + 1) world.cwd dir = some place)
    (is : world.tree.node place = some entry) :
    DeletesExactly (steps + 1) world dir place ↔
      (entry = .directory → LeadsBack (steps + 1) world.tree place dir) := by
  constructor
  · intro deletes directory
    rw [directory] at is
    exact leadsBack_of_deletesExactly found is deletes
  · exact deletesExactly_of_leadsBack found is

/-- A directory with a link out of it. -/
def withLink : Tree :=
  ((Tree.root.add [] ['d'] .directory rfl rfl (by decide)).add [] ['e'] .directory rfl rfl
    (by decide)).add [['d']] ['l'] (.link ['/', 'e']) rfl rfl (by decide)

theorem vdelfiles_confined_withLink :
    DeletesExactly 8 ⟨withLink, []⟩ ['/', 'd'] [['d']] ↔
      (Entry.directory = .directory → LeadsBack 8 withLink [['d']] ['/', 'd']) :=
  vdelfiles_confined_iff 7 ⟨withLink, []⟩ ['/', 'd'] rfl rfl

/-- `/a/b` and `/a/a/b`. -/
def nested : Tree :=
  (((Tree.root.add [] ['a'] .directory rfl rfl (by decide)).add [['a']] ['b'] .directory rfl rfl
    (by decide)).add [['a']] ['a'] .directory rfl rfl (by decide)).add [['a'], ['a']] ['b']
      .directory rfl rfl (by decide)

/-- From the root, `a/b` is emptied and `a/a/b` removed. -/
theorem not_vdelfiles_confined :
    ¬∀ steps (world : World) dir place entry,
      world.tree.lookup false (steps + 1) world.cwd dir = some place →
      world.tree.node place = some entry → DeletesExactly (steps + 1) world dir place := by
  intro confined
  have deletes := confined 7 ⟨nested, []⟩ ['a', '/', 'b'] [['a'], ['b']] .directory rfl rfl
  have leads := leadsBack_of_deletesExactly rfl rfl deletes
  have elsewhere : (nested.emptied [['a'], ['b']]).walk false 8 [['a']] [['a'], ['b']] =
      some [['a'], ['a'], ['b']] := rfl
  have back := leads.2
  change (nested.emptied [['a'], ['b']]).walk false 8 [['a']] [['a'], ['b']] = _ at back
  rw [elsewhere] at back
  revert back
  decide

end Paths

end Vpopmail.Vdelfiles
