import Vpopmail.Foundation.FileTree
import Vpopmail.Names
import Vpopmail.UserOperations
import Vpopmail.Vdelfiles

/-! # The directories of users

What `make_user_dir`, `vadduser` and `vdeluser` do to the tree of directories, and for which
names they keep to a directory in that of the domain or in a hash directory of it.
-/

namespace Vpopmail

open Components FileTree Users

/-- A domain and one of its hash directories. Without these, the hash is empty. -/
structure Home where
  domain : Users.Domain
  hash : List Char
  absolute : domain.dir.head? = some '/'
  relative : hash.head? ≠ some '/'

namespace Home

variable (home : Home)

/-- The directory of the domain. -/
def domainPlace : Place := target [] home.domain.dir

/-- The directory in which that of a user is made. -/
def base : Place := target home.domainPlace home.hash

end Home

/-- Something that is done to the tree at a place and below it. -/
inductive Effect
  | mkdir (place : Place)
  | chown (place : Place)
  | delete (place : Place)
  | rmdir (place : Place)
  deriving DecidableEq

def Effect.place : Effect → Place
  | .mkdir place => place
  | .chown place => place
  | .delete place => place
  | .rmdir place => place

/-- `vdelfiles`, with the tree that it finds and the one that it leaves to `rmdir`. The path of
`rmdir` starts in the directory above. What the calls do is in `vdelfiles_effects`. -/
def vdelfiles (found left : Tree) (cwd : Place) (dir : List Char) : List Effect :=
  match found.lookup cwd dir with
  | none => []
  | some place =>
      match found.node place with
      | none => []
      | some .file => [.delete place]
      | some .directory =>
          .delete place :: ((left.lookup place.dropLast dir).map Effect.rmdir).toList

/-- Which calls succeed, and the trees that `vdelfiles` finds and leaves. -/
structure Course where
  passes : Bool
  makes : Bool
  enters : Bool
  fills : Bool
  stores : Bool
  found : Tree
  left : Tree

/-- `make_user_dir` in the directory of the user's hash: whether it returns the hash, and what it
does. -/
def makeUserDir (home : Home) (tree : Tree) (course : Course) (username : List Char) :
    Bool × List Effect :=
  if maxPwDir < home.domain.dir.length + home.hash.length + username.length then (false, [])
  else
    match if course.makes then tree.mkdir home.base username else none with
    | none => (false, [])
    | some place =>
        if !course.enters then
          (false, .mkdir place :: vdelfiles course.found course.left home.base username)
        else if !course.fills then
          (false, .mkdir place :: vdelfiles course.found course.left place.dropLast username)
        else (true, [.mkdir place, .chown place])

/-- The checks of `vadduser` on the name, and the name as it is used then. -/
def checkUsername (usersBigDir : Bool) (username : List Char) : Except VaCode (List Char) :=
  if maxPwName < username.length then .error .userNameTooLong
  else if usersBigDir && username.length = 1 then .error .illegalUsername
  else if !isUsernameValid (lowerit username) then .error .illegalUsername
  else .ok (lowerit username)

/-- `vadduser`: whether it stores the user, and what it does to the tree. -/
def vadduserEffects (home : Home) (tree : Tree) (course : Course) (username : List Char) :
    Bool × List Effect :=
  match checkUsername home.domain.usersBigDir username with
  | .error _ => (false, [])
  | .ok username =>
      if !course.passes then (false, [])
      else
        let made := makeUserDir home tree course username
        if !made.1 then made
        else if !course.stores then
          (false, made.2 ++ vdelfiles course.found course.left home.base username)
        else made

/-- `vdeluser` of a user that was stored, and whom it may delete: what it does to the tree. -/
def vdeluserEffects (home : Home) (found left : Tree) (username : List Char) : List Effect :=
  vdelfiles found left home.domainPlace (userDir home.domain home.hash (lowerit username))

/-! ## Direct children -/

/-- A place in the directory itself. -/
def Child (base place : Place) : Prop := ∃ name, place = base ++ [name]

/-- Adding a user does nothing, or makes a direct child of the directory. The path that is stored
leads to the child, and neither adding nor deleting the user does anything outside of it. -/
def Contained (home : Home) (username : List Char) : Prop :=
  ∀ tree course, tree.node home.base = some .directory →
    (vadduserEffects home tree course username).2 = [] ∨
      ∃ child, Child home.base child ∧
        (vadduserEffects home tree course username).2.head? = some (.mkdir child) ∧
        (∀ effect ∈ (vadduserEffects home tree course username).2, child <+: effect.place) ∧
        ((vadduserEffects home tree course username).1 = true →
          target [] (userDir home.domain home.hash (lowerit username)) = child ∧
          ∀ found left, ∀ effect ∈ vdeluserEffects home found left username,
            child <+: effect.place)

/-- The names that lead to a new direct child, or to nothing new. -/
def Confined (home : Home) (username : List Char) : Prop :=
  ¬ Named username ∨ Taken home.base username ∨
    (target home.base username).dropLast = home.base ∧
      target home.base username = resolve home.base (components username)

instance (home : Home) (username : List Char) : Decidable (Confined home username) :=
  inferInstanceAs (Decidable (_ ∨ _ ∨ _ ∧ _))

/-- The names that `vadduser` does not accept, or whose path is too long to store. -/
def Refused (home : Home) (username : List Char) : Prop :=
  maxPwName < username.length ∨ (home.domain.usersBigDir = true ∧ username.length = 1) ∨
    isUsernameValid (lowerit username) = false ∨
    maxPwDir < home.domain.dir.length + home.hash.length + (lowerit username).length

/-! ## Paths -/

theorem origin_of_head? {cwd : Place} {path : List Char} (absolute : path.head? = some '/') :
    origin cwd path = [] := if_pos absolute

theorem components_userDir (domain : Users.Domain) (hash user : List Char) :
    components (userDir domain hash user) =
      components domain.dir ++ components hash ++ components user := by
  rw [userDir, components_append_slash]
  by_cases empty : hash = []
  · have none_ : components [] = [] := rfl
    rw [if_pos empty, List.append_nil, empty, none_, List.append_nil]
  · rw [if_neg empty, components_append_slash]

theorem Home.base_eq (home : Home) :
    home.base = resolve [] (components home.domain.dir ++ components home.hash) := by
  have start : origin home.domainPlace home.hash = home.domainPlace := if_neg home.relative
  rw [Home.base, target, start, Home.domainPlace, target, origin_of_head? home.absolute,
    resolve_append]

/-- Where the path that is stored leads. -/
theorem target_userDir (home : Home) (cwd : Place) (user : List Char) :
    target cwd (userDir home.domain home.hash user) = resolve home.base (components user) := by
  have absolute : (userDir home.domain home.hash user).head? = some '/' := by
    have some_ : home.domain.dir ≠ [] := by
      intro none_
      have first := home.absolute
      rw [none_] at first
      cases first
    rw [userDir, List.append_assoc, List.head?_append_of_ne_nil _ some_, home.absolute]
  rw [target, origin_of_head? absolute, components_userDir, home.base_eq, ← resolve_append]

theorem place_of_mem_vdelfiles {found left : Tree} {cwd : Place} {dir : List Char}
    {effect : Effect} (member : effect ∈ vdelfiles found left cwd dir) :
    effect.place = target cwd dir ∨ effect.place = target (target cwd dir).dropLast dir := by
  rw [vdelfiles] at member
  cases here : found.lookup cwd dir with
  | none =>
      rw [here] at member
      cases member
  | some place =>
      have equal := target_of_lookup here
      subst equal
      simp only [here] at member
      split at member
      · cases member
      · rw [List.mem_singleton.mp member]
        exact .inl rfl
      · rcases List.mem_cons.mp member with rfl | removed
        · exact .inl rfl
        · rw [Option.mem_toList, Option.map_eq_some_iff] at removed
          rcases removed with ⟨place, there, rfl⟩
          exact .inr (target_of_lookup there)

/-! ## The calls of a deletion -/

/-- No entry of the tree is a link. -/
def LinkFree (tree : LinkedTree.Tree) : Prop := ∀ place text, tree.node place ≠ some (.link text)

/-- The kind of an entry that is no link. -/
def kind : LinkedTree.Entry → Node
  | .directory => .directory
  | .file | .link _ => .file

/-- The tree, without the order of its names. -/
def plainTree (tree : LinkedTree.Tree) : Tree where
  node := fun place => (tree.node place).map kind
  inDirectory := by
    intro place name some_
    rw [tree.inDirectory place name (mt (Option.map_eq_none_iff.mpr ·) some_)]
    rfl

section Calls

variable {tree : LinkedTree.Tree} {place : Place} {dir : List Char}

theorem LinkFree.emptied (free : LinkFree tree) (place : Place) :
    LinkFree (tree.emptied place) := by
  intro other text
  rw [LinkedTree.Tree.emptied, LinkedTree.Tree.node_foldl_without]
  split
  · exact (Option.some_ne_none _).symm
  · exact free other text

theorem walk_plainTree (free : LinkFree tree) {follow : Bool} {steps : Nat}
    {names : List (List Char)} {start : Place}
    (found : tree.walk follow steps start names = some place) :
    (plainTree tree).walk start names = some place := by
  induction steps generalizing start names with
  | zero =>
      cases names with
      | nil => exact found
      | cons name names => cases found
  | succ steps induction =>
      cases names with
      | nil => exact found
      | cons name names =>
          rw [LinkedTree.Tree.walk] at found
          split at found
          · next here =>
              have directory : (plainTree tree).node start = some .directory :=
                congrArg (Option.map kind) here
              rw [Tree.walk, if_pos directory, move]
              split at found
              · next same =>
                  rw [if_pos same]
                  exact induction found
              · next notDot =>
                  rw [if_neg notDot]
                  split at found
                  · next same =>
                      rw [if_pos same]
                      exact induction found
                  · next notDotdot =>
                      rw [if_neg notDotdot]
                      split at found
                      · next text link => exact absurd link (free _ text)
                      · exact induction found
          · cases found

/-- Every place that the calls change is at or below one of the effects. -/
theorem vdelfiles_effects {steps : Nat} {world : LinkedTree.World} {entry : LinkedTree.Entry}
    (free : LinkFree world.tree)
    (found : world.tree.lookup false (steps + 1) world.cwd dir = some place)
    (is : world.tree.node place = some entry) :
    ∃ rounds after, (∀ more, rounds ≤ more →
        Vdelfiles.vdelfiles (steps + 1) more world dir = some (0, after)) ∧
      ∀ other, after.tree.node other ≠ world.tree.node other →
        ∃ effect ∈ vdelfiles (plainTree world.tree) (plainTree (world.tree.emptied place))
          world.cwd dir, effect.place <+: other := by
  rcases Vdelfiles.exists_shallow world.tree place with ⟨rounds, shallow⟩
  refine ⟨rounds, _, fun more enough => Vdelfiles.vdelfiles_eq found
    (fun below present => (shallow below present).trans_le enough) entry is, ?_⟩
  have leads : (plainTree world.tree).lookup world.cwd dir = some place := by
    rw [LinkedTree.Tree.lookup] at found
    split at found
    · cases found
    · next nonempty =>
        rw [Tree.lookup, if_neg nonempty]
        exact walk_plainTree free (Option.filter_eq_some_iff.mp found).1
  have there : (plainTree world.tree).node place = some (kind entry) :=
    congrArg (Option.map kind) is
  intro other changed
  rw [vdelfiles]
  simp only [leads, there]
  by_cases directory : entry = .directory
  · rw [if_pos directory] at changed
    subst directory
    change (Vdelfiles.removed (steps + 1) world.tree place dir).node other ≠ _ at changed
    by_cases emptied : (world.tree.emptied place).node other = world.tree.node other
    · rcases Vdelfiles.removed_cases (steps + 1) world.tree place dir with
        same | ⟨third, walked, named, -, same⟩
      · rw [same] at changed
        exact absurd emptied changed
      · rw [same] at changed
        have below : third <+: other := by
          by_contra outside
          exact changed ((LinkedTree.Tree.node_without_of_not_below outside).trans emptied)
        have nonempty : dir ≠ [] := by
          rintro rfl
          rcases named with ⟨last, equal, -⟩
          cases equal
        have back : (plainTree (world.tree.emptied place)).lookup place.dropLast dir =
            some third := by
          rw [Tree.lookup, if_neg nonempty]
          exact walk_plainTree (free.emptied place) walked
        refine ⟨.rmdir third, ?_, below⟩
        apply List.mem_cons_of_mem
        rw [back]
        exact List.mem_cons_self
    · refine ⟨.delete place, List.mem_cons_self, ?_⟩
      by_contra outside
      apply emptied
      apply LinkedTree.Tree.node_emptied_of_not_below
      exact fun name below => outside ((List.prefix_append _ _).trans below)
  · rw [if_neg directory] at changed
    have below : place <+: other := by
      by_contra outside
      exact changed (LinkedTree.Tree.node_without_of_not_below outside)
    cases entry with
    | directory => exact absurd rfl directory
    | file => exact ⟨.delete place, List.mem_cons_self, below⟩
    | link text => exact absurd is (free place text)

end Calls

/-! ## What adding a user does -/

theorem checkUsername_cases (usersBigDir : Bool) (username : List Char) :
    checkUsername usersBigDir username = .ok (lowerit username) ∧ ¬ maxPwName < username.length ∧
        ¬ (usersBigDir = true ∧ username.length = 1) ∧
        isUsernameValid (lowerit username) = true ∨
      (∃ code, checkUsername usersBigDir username = .error code) ∧
        (maxPwName < username.length ∨ (usersBigDir = true ∧ username.length = 1) ∨
          isUsernameValid (lowerit username) = false) := by
  rw [checkUsername]
  split
  · next long => exact .inr ⟨⟨_, rfl⟩, .inl long⟩
  · next short =>
      split
      · next single =>
          rw [Bool.and_eq_true, decide_eq_true_eq] at single
          exact .inr ⟨⟨_, rfl⟩, .inr (.inl single)⟩
      · next other =>
          rw [Bool.and_eq_true, decide_eq_true_eq] at other
          split
          · next invalid =>
              rw [Bool.not_eq_true'] at invalid
              exact .inr ⟨⟨_, rfl⟩, .inr (.inr invalid)⟩
          · next valid =>
              rw [Bool.not_eq_true', Bool.not_eq_false] at valid
              exact .inl ⟨rfl, short, other, valid⟩

/-- `make_user_dir` makes the directory, or does nothing. -/
theorem makeUserDir_cases (home : Home) (tree : Tree) (course : Course) (username : List Char) :
    makeUserDir home tree course username = (false, []) ∨
      ∃ place more, tree.mkdir home.base username = some place ∧
        (makeUserDir home tree course username).2 = .mkdir place :: more ∧
        ∀ effect ∈ more, effect = .chown place ∨
          effect ∈ vdelfiles course.found course.left home.base username ∨
          effect ∈ vdelfiles course.found course.left place.dropLast username := by
  rw [makeUserDir]
  split
  · exact .inl rfl
  · split
    · exact .inl rfl
    · next place made =>
        have made : tree.mkdir home.base username = some place := by
          split at made
          · exact made
          · cases made
        right
        split
        · exact ⟨place, _, made, rfl, fun effect member => .inr (.inl member)⟩
        · split
          · exact ⟨place, _, made, rfl, fun effect member => .inr (.inr member)⟩
          · exact ⟨place, _, made, rfl, fun effect member => .inl (List.mem_singleton.mp member)⟩

theorem vadduserEffects_cases (home : Home) (tree : Tree) (course : Course)
    (username : List Char) :
    vadduserEffects home tree course username = (false, []) ∨
      ∃ place more, tree.mkdir home.base (lowerit username) = some place ∧
        (vadduserEffects home tree course username).2 = .mkdir place :: more ∧
        ∀ effect ∈ more, effect = .chown place ∨
          effect ∈ vdelfiles course.found course.left home.base (lowerit username) ∨
          effect ∈ vdelfiles course.found course.left place.dropLast (lowerit username) := by
  rw [vadduserEffects]
  rcases checkUsername_cases home.domain.usersBigDir username with
    ⟨accepted, -, -, -⟩ | ⟨⟨code, refused⟩, -⟩
  · rw [accepted]
    dsimp only
    split
    · exact .inl rfl
    · rcases makeUserDir_cases home tree course (lowerit username) with
        nothing | ⟨place, more, made, effects, others⟩
      · rw [nothing]
        exact .inl rfl
      · right
        split
        · exact ⟨place, more, made, effects, others⟩
        · split
          · refine ⟨place, more ++ vdelfiles course.found course.left home.base
              (lowerit username), made, ?_, ?_⟩
            · rw [effects, List.cons_append]
            · intro effect member
              rcases List.mem_append.mp member with first | later
              · exact others effect first
              · exact .inr (.inl later)
          · exact ⟨place, more, made, effects, others⟩
  · rw [refused]
    exact .inl rfl

theorem vadduserEffects_refused {home : Home} {username : List Char}
    (refused : Refused home username) (tree : Tree) (course : Course) :
    vadduserEffects home tree course username = (false, []) := by
  rw [vadduserEffects]
  rcases checkUsername_cases home.domain.usersBigDir username with
    ⟨accepted, short, single, valid⟩ | ⟨⟨code, stopped⟩, -⟩
  · have long : maxPwDir <
        home.domain.dir.length + home.hash.length + (lowerit username).length := by
      rcases refused with other | other | other | long
      · exact absurd other short
      · exact absurd other single
      · rw [valid] at other
        cases other
      · exact long
    have nothing : makeUserDir home tree course (lowerit username) = (false, []) := if_pos long
    rw [accepted]
    dsimp only
    rw [nothing]
    split
    · rfl
    · rfl
  · rw [stopped]

/-- The course in which everything succeeds. -/
def goodCourse (tree : Tree) : Course := ⟨true, true, true, true, true, tree, tree⟩

theorem vadduserEffects_good {home : Home} {tree : Tree} {username : List Char} {place : Place}
    (accepted : ¬ Refused home username)
    (made : tree.mkdir home.base (lowerit username) = some place) :
    vadduserEffects home tree (goodCourse tree) username =
      (true, [.mkdir place, .chown place]) := by
  simp only [Refused, not_or] at accepted
  rcases accepted with ⟨short, single, valid, fits⟩
  rcases checkUsername_cases home.domain.usersBigDir username with
    ⟨checked, -⟩ | ⟨-, long | one | invalid⟩
  · have whole : makeUserDir home tree (goodCourse tree) (lowerit username) =
        (true, [.mkdir place, .chown place]) := by
      rw [makeUserDir, if_neg fits]
      simp only [goodCourse, made, if_true, Bool.not_true, Bool.false_eq_true, if_false]
    simp only [vadduserEffects, checked, whole]
    rfl
  · exact absurd long short
  · exact absurd one single
  · exact absurd invalid valid

/-! ## The names that keep to a child -/

/-- A course in which everything succeeds shows where the name leads. -/
theorem confined_of_contained {home : Home} {username : List Char}
    (contained : Contained home username) (accepted : ¬ Refused home username) :
    Confined home (lowerit username) := by
  rcases Classical.em (Named (lowerit username)) with named | unnamed
  · rcases Classical.em (Taken home.base (lowerit username)) with taken | free
    · exact .inr (.inl taken)
    · rcases mkdir_without named free with ⟨exists_, made⟩
      have effects := vadduserEffects_good accepted made
      rcases contained _ (goodCourse _) exists_ with
        nothing | ⟨child, ⟨name, direct⟩, first, -, stored⟩
      · rw [effects] at nothing
        cases nothing
      · rw [effects] at first stored
        cases first
        have leads := (stored rfl).1
        rw [target_userDir] at leads
        refine .inr (.inr ⟨?_, leads.symm⟩)
        rw [direct, List.dropLast_concat]
  · exact .inl unnamed

/-- What `vdelfiles` does for a child, by its path from the directory. -/
theorem inChild_of_mem_vdelfiles {base : Place} {found left : Tree} {username : List Char}
    (parent : (target base username).dropLast = base) {effect : Effect}
    (member : effect ∈ vdelfiles found left base username) :
    target base username <+: effect.place := by
  rcases place_of_mem_vdelfiles member with equal | equal
  · rw [equal]
  · rw [equal, parent]

theorem contained_of_confined {home : Home} {username : List Char}
    (good : Refused home username ∨ Confined home (lowerit username)) :
    Contained home username := by
  intro tree course exists_
  rcases vadduserEffects_cases home tree course username with
    nothing | ⟨place, more, made, effects, others⟩
  · rw [nothing]
    exact .inl rfl
  · right
    have direct : (target home.base (lowerit username)).dropLast = home.base ∧
        target home.base (lowerit username) =
          resolve home.base (components (lowerit username)) := by
      rcases good with refused | unnamed | taken | direct
      · rw [vadduserEffects_refused refused] at effects
        cases effects
      · exact absurd (mkdir_eq_some made).2.1 unnamed
      · exact absurd taken (not_taken_of_mkdir exists_ made)
      · exact direct
    rcases direct with ⟨parent, same⟩
    rcases mkdir_eq_some made with ⟨rfl, ⟨last, ends, noDot, noDotdot⟩, -, -⟩
    refine ⟨target home.base (lowerit username), ?_, ?_, ?_, ?_⟩
    · rcases exists_resolve_concat (origin home.base (lowerit username)) ends noDot noDotdot with
        ⟨above, equal⟩
      have whole : target home.base (lowerit username) = above ++ [last] := equal
      rw [whole, List.dropLast_concat] at parent
      exact ⟨last, by rw [whole, parent]⟩
    · rw [effects]
      rfl
    · intro effect member
      rw [effects] at member
      rcases List.mem_cons.mp member with rfl | later
      · exact List.prefix_rfl
      · rcases others effect later with rfl | inBase | inParent
        · exact List.prefix_rfl
        · exact inChild_of_mem_vdelfiles parent inBase
        · rw [parent] at inParent
          exact inChild_of_mem_vdelfiles parent inParent
    · intro _
      rw [target_userDir]
      refine ⟨same.symm, ?_⟩
      intro found left effect member
      rcases place_of_mem_vdelfiles member with equal | equal
      · rw [equal, target_userDir, same]
      · rw [equal, target_userDir, same]

theorem contained_iff (home : Home) (username : List Char) :
    Contained home username ↔
      Refused home username ∨ Confined home (lowerit username) := by
  constructor
  · intro contained
    rcases Classical.em (Refused home username) with refused | accepted
    · exact .inl refused
    · exact .inr (confined_of_contained contained accepted)
  · intro good
    exact contained_of_confined good

/-- The hash directory `/v/0`. -/
def firstHome : Home := ⟨⟨true, ['b', '.', 'c'], ['/', 'v']⟩, ['0'], rfl, by decide⟩

theorem not_contained_of_mkdir {home : Home} {tree : Tree} {course : Course} {stored : Bool}
    {username : List Char} {place : Place} {more : List Effect}
    (exists_ : tree.node home.base = some .directory)
    (effects : vadduserEffects home tree course username = (stored, .mkdir place :: more))
    (outside : place.dropLast ≠ home.base) : ¬ Contained home username := by
  intro contained
  rcases contained tree course exists_ with nothing | ⟨child, ⟨name, direct⟩, first, -⟩
  · rw [effects] at nothing
    cases nothing
  · rw [effects] at first
    cases first
    rw [direct, List.dropLast_concat] at outside
    exact outside rfl

/-- The name `../x` is made a directory next to the hash directory, and `a/b` one in that of the
user `a`. -/
theorem vadduser_leaves_home :
    vadduserEffects firstHome (Tree.without [['v'], ['x']])
        (goodCourse (Tree.without [['v'], ['x']])) ['.', '.', '/', 'x'] =
      (true, [.mkdir [['v'], ['x']], .chown [['v'], ['x']]]) ∧
    vadduserEffects firstHome (Tree.without [['v'], ['0'], ['a'], ['b']])
        (goodCourse (Tree.without [['v'], ['0'], ['a'], ['b']])) ['a', '/', 'b'] =
      (true, [.mkdir [['v'], ['0'], ['a'], ['b']], .chown [['v'], ['0'], ['a'], ['b']]]) ∧
    ¬ Contained firstHome ['.', '.', '/', 'x'] ∧ ¬ Contained firstHome ['a', '/', 'b'] := by
  have leaves : vadduserEffects firstHome (Tree.without [['v'], ['x']])
      (goodCourse (Tree.without [['v'], ['x']])) ['.', '.', '/', 'x'] =
        (true, [.mkdir [['v'], ['x']], .chown [['v'], ['x']]]) := by decide +kernel
  have nests : vadduserEffects firstHome (Tree.without [['v'], ['0'], ['a'], ['b']])
      (goodCourse (Tree.without [['v'], ['0'], ['a'], ['b']])) ['a', '/', 'b'] =
        (true, [.mkdir [['v'], ['0'], ['a'], ['b']],
          .chown [['v'], ['0'], ['a'], ['b']]]) := by decide +kernel
  exact ⟨leaves, nests, not_contained_of_mkdir (by decide +kernel) leaves (by decide),
    not_contained_of_mkdir (by decide +kernel) nests (by decide)⟩

end Vpopmail
