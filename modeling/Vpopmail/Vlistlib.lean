import Vpopmail.AliasFiles
import Vpopmail.EntryEnumeration
import Vpopmail.Vdelfiles

/-! # Deleting mailing lists

`default_options` sets up the names of a list, and `listDelete` deletes by them. The path of the
`.qmail` file of the list is taken for the name of the list there, and the directory is deleted
under the name with its dots.
-/

namespace Vpopmail.Vlistlib

open Buffer Components LinkedTree Vdelfiles
open FileTree (Place Named origin dot)

def maxName : Nat := 160

def maxFileName : Nat := 512

/-- What of `listInfoType` is read to delete a list. -/
structure ListInfo where
  entry : DomainEntry
  name : List Char
  dot : List Char
  dir : List Char
  domain : List Char
  deriving DecidableEq

def sprintf (size : Nat) (text : List Char) : Checked (List Char) :=
  if text.length < size then .ok text else .error .outOfBounds

/-- `QmailName`. -/
def qmailName (name : List Char) : List Char := (snprintf maxFileName name).map colonOfPeriod

/-- What follows `default_options` finding the domain. -/
def makeNames (name domain : List Char) (entry : DomainEntry) : Checked ListInfo :=
  (sprintf maxName (entry.path ++ '/' :: qmailName name)).bind fun dir =>
    (sprintf maxName (entry.path ++ '/' :: qmailPrefix ++ qmailName name)).map fun dot =>
      { entry := entry
        name := name
        dot := dot
        dir := dir
        domain := domain }

/-- `default_options`: the number of the error, or the list. -/
def defaultOptions (defaultDomain : List Char) (process : AssignProcess) (scan : EntryScan)
    (address : List Char) (domainOnly : Bool) : Checked (Except Nat ListInfo) :=
  let parsed : Except Nat (List Char × List Char) :=
    if domainOnly then
      if '@' ∈ address then .error 4 else .ok ([], snprintf maxFileName address)
    else if '@' ∉ address then .error 1
    else
      match parseEmail defaultDomain maxBuff address with
      | none => .error 2
      | some names => .ok names
  match parsed with
  | .error code => .ok (.error code)
  | .ok (name, domain) =>
      match (getDomainEntry (some domain) process scan).1.1 with
      | none => .ok (.error 3)
      | some entry => (makeNames name domain entry).map .ok

/-- The loop of `listDelete` over what `readdir` returns. -/
def unlinkFiles (steps : Nat) (mainName secondName path : List Char) :
    List (List Char) → World → Nat × World
  | [], world => (0, world)
  | name :: rest, world =>
      let targetName := snprintf maxFileName (path ++ '/' :: name)
      -- delete the main .qmail-"list" file
      if mainName = name then
        match world.unlink steps targetName with
        | none => (9, world)
        | some world => unlinkFiles steps mainName secondName path rest world
      -- delete secondary .qmail-"list"-* files
      else if secondName <+: name then
        match world.unlink steps targetName with
        | none => (10, world)
        | some world => unlinkFiles steps mainName secondName path rest world
      else unlinkFiles steps mainName secondName path rest world

/-- `listDelete`, without a result if the rounds of `vdelfiles` are used up. -/
def listDelete (steps rounds : Nat) (world : World) (list : ListInfo) :
    Checked (Option (Nat × World)) :=
  match (world.tree.lookup true steps world.cwd list.entry.path).filter fun place =>
      world.tree.node place = some .directory with
  | none => .ok (some (7, world))
  | some place =>
      (sprintf maxFileName (qmailPrefix ++ list.dot)).bind fun mainName =>
        (sprintf maxFileName (qmailPrefix ++ list.dot ++ ['-'])).bind fun secondName =>
          let files := unlinkFiles steps mainName secondName list.entry.path
            (World.mk world.tree place).readdir world
          if files.1 ≠ 0 then .ok (some files)
          else
            (sprintf maxFileName (list.entry.path ++ '/' :: list.name)).map fun targetName =>
              (Vdelfiles.vdelfiles steps rounds files.2 targetName).map fun outcome => (0, outcome.2)

/-! ## What belongs to the list -/

/-- The names that the `.qmail` files of a list can have. -/
def QmailFile (name file : List Char) : Prop :=
  file = qmailPrefix ++ qmailName name ∨ qmailPrefix ++ qmailName name ++ ['-'] <+: file

/-- The places of the list in the directory of the domain: its directory, and those of the
`.qmail` files that are its own. -/
def Belongs (place : Place) (name : List Char) (own : List Char → Prop) (other : Place) : Prop :=
  place ++ [qmailName name] <+: other ∨ ∃ file, own file ∧ place ++ [file] <+: other

/-- The list is deleted, and nothing else. -/
def DeletesList (steps : Nat) (world : World) (list : ListInfo) (place : Place)
    (own : List Char → Prop) : Prop :=
  ∃ rounds after, (∀ more, rounds ≤ more → listDelete steps more world list = .ok (some (0, after))) ∧
    ∀ other, (Belongs place list.name own other → after.tree.node other = none) ∧
      (¬Belongs place list.name own other → after.tree.node other = world.tree.node other)

/-- The list has no `.qmail` files, and its directory is deleted under its name. -/
def Deletable (steps : Nat) (world : World) (list : ListInfo) (place : Place)
    (own : List Char → Prop) : Prop :=
  (∀ file ∈ world.tree.names place, ¬own file) ∧
    if '.' ∈ list.name then
      world.tree.node (place ++ [qmailName list.name]) = none ∧
        world.tree.node (place ++ [list.name]) = none
    else world.tree.node (place ++ [list.name]) = some .directory →
      LeadsBack steps world.tree (place ++ [list.name]) (list.entry.path ++ '/' :: list.name)

/-! ## The calls -/

section Calls

variable {steps : Nat} {world : World} {list : ListInfo} {place : Place}

theorem sprintf_ok {size : Nat} {text result : List Char} (printed : sprintf size text = .ok result) :
    result = text ∧ text.length < size := by
  rw [sprintf] at printed
  split at printed
  next short => exact ⟨(Except.ok.inj printed).symm, short⟩
  · cases printed

/-- The names that `default_options` leaves. -/
structure SetUp (list : ListInfo) : Prop where
  dot : list.dot = list.entry.path ++ '/' :: qmailPrefix ++ qmailName list.name
  short : list.dot.length < maxName

theorem setUp_of_defaultOptions {defaultDomain address : List Char} {process : AssignProcess}
    {scan : EntryScan} {domainOnly : Bool}
    (set : defaultOptions defaultDomain process scan address domainOnly = .ok (.ok list)) :
    SetUp list := by
  have made : ∃ name domain entry, makeNames name domain entry = .ok list := by
    rw [defaultOptions] at set
    split at set
    · cases set
    next name domain _ =>
      split at set
      · cases set
      next entry _ =>
        cases names : makeNames name domain entry with
        | error fault =>
            rw [names] at set
            cases set
        | ok made =>
            rw [names] at set
            cases set
            exact ⟨name, domain, entry, names⟩
  rcases made with ⟨name, domain, entry, made⟩
  rw [makeNames] at made
  cases dir : sprintf maxName (entry.path ++ '/' :: qmailName name) with
  | error fault =>
      rw [dir] at made
      cases made
  | ok dirText =>
      rw [dir, Except.bind] at made
      cases dot : sprintf maxName (entry.path ++ '/' :: qmailPrefix ++ qmailName name) with
      | error fault =>
          rw [dot] at made
          cases made
      | ok dotText =>
          rw [dot] at made
          cases made
          rcases sprintf_ok dot with ⟨rfl, short⟩
          exact ⟨rfl, short⟩

/-- The name of the list and its path are short. -/
theorem SetUp.length_lt (set : SetUp list) :
    list.name.length < maxFileName ∧
      (list.entry.path ++ '/' :: list.name).length < maxFileName := by
  have short := set.short
  rw [set.dot] at short
  simp only [List.length_append, List.length_cons, qmailName, List.length_map, snprintf,
    List.length_take, maxName, maxFileName] at short ⊢
  omega

theorem SetUp.qmailName_eq (set : SetUp list) :
    qmailName list.name = list.name.map colonOfPeriod := by
  have short := set.length_lt.1
  rw [qmailName, snprintf, List.take_of_length_le (Nat.le_sub_one_of_lt short)]

/-- No entry of a directory has a name with a slash. -/
theorem unlinkFiles_eq {mainName secondName path : List Char} (main : '/' ∈ mainName)
    (second : '/' ∈ secondName) (names : List (List Char))
    (plain : ∀ name ∈ names, '/' ∉ name) (world : World) :
    unlinkFiles steps mainName secondName path names world = (0, world) := by
  induction names with
  | nil => rfl
  | cons name names induction =>
      have free := plain name List.mem_cons_self
      have notMain : mainName ≠ name := by
        rintro rfl
        exact free main
      have notSecond : ¬secondName <+: name := fun begins => free (begins.mem second)
      rw [unlinkFiles, if_neg notMain, if_neg notSecond]
      exact induction fun other later => plain other (List.mem_cons_of_mem _ later)

/-- No `.qmail` file is deleted, and the directory under the name of the list. -/
theorem listDelete_eq (set : SetUp list)
    (opened : world.tree.lookup true steps world.cwd list.entry.path = some place)
    (directory : world.tree.node place = some .directory) (rounds : Nat) :
    listDelete steps rounds world list =
      .ok ((Vdelfiles.vdelfiles steps rounds world (list.entry.path ++ '/' :: list.name)).map
        fun outcome => (0, outcome.2)) := by
  have size := set.short
  rw [maxName] at size
  have main : sprintf maxFileName (qmailPrefix ++ list.dot) = .ok (qmailPrefix ++ list.dot) := by
    apply if_pos
    rw [List.length_append, maxFileName]
    exact Nat.lt_of_lt_of_le (Nat.add_lt_add_left size _) (by decide)
  have second : sprintf maxFileName (qmailPrefix ++ list.dot ++ ['-']) =
      .ok (qmailPrefix ++ list.dot ++ ['-']) := by
    apply if_pos
    rw [List.length_append, List.length_append, maxFileName]
    exact Nat.lt_of_lt_of_le (Nat.add_lt_add_right (Nat.add_lt_add_left size _) _) (by decide)
  have slash : '/' ∈ list.dot := by
    rw [set.dot]
    simp
  have plain : ∀ name ∈ (World.mk world.tree place).readdir, '/' ∉ name := by
    intro name member
    rw [World.readdir, List.mem_cons, List.mem_cons] at member
    rcases member with rfl | rfl | listed
    · decide
    · decide
    · exact (world.tree.proper place name listed).plain
  have files : unlinkFiles steps _ _ list.entry.path _ world = (0, world) :=
    unlinkFiles_eq (List.mem_append_right qmailPrefix slash)
      (List.mem_append_left ['-'] (List.mem_append_right qmailPrefix slash)) _ plain world
  have target : sprintf maxFileName (list.entry.path ++ '/' :: list.name) =
      .ok (list.entry.path ++ '/' :: list.name) := if_pos set.length_lt.2
  have done : ¬((0, world) : Nat × World).1 ≠ 0 := fun ne => ne rfl
  rw [listDelete, opened, Option.filter_some, if_pos (decide_eq_true directory), main, second]
  simp only [Except.bind]
  rw [files, if_neg done, target]
  rfl

end Calls

/-! ## What is deleted -/

section Deletion

variable {steps : Nat} {world : World} {list : ListInfo} {place : Place}
  {own : List Char → Prop}

abbrev targetName (list : ListInfo) : List Char := list.entry.path ++ '/' :: list.name

/-- The domain directory is open, and the list has a name that an entry can have. -/
structure Open (steps : Nat) (world : World) (list : ListInfo) (place : Place) : Prop where
  path : world.tree.lookup true steps world.cwd list.entry.path = some place
  absolute : list.entry.path.head? = some '/'
  directory : world.tree.node place = some .directory
  proper : Proper list.name

theorem Open.walked (opened : Open steps world list place) :
    world.tree.walk true steps [] (components list.entry.path) = some place := by
  have path := opened.path
  rw [Tree.lookup] at path
  split at path
  · cases path
  · rcases Option.filter_eq_some_iff.mp path with ⟨walked, _⟩
    rwa [Bool.true_or, origin, if_pos opened.absolute] at walked

theorem Open.path_succ (opened : Open steps world list place) :
    world.tree.lookup true (steps + 1) world.cwd list.entry.path = some place := by
  have path := opened.path
  rw [Tree.lookup] at path ⊢
  split at path
  · cases path
  next nonempty =>
    rcases Option.filter_eq_some_iff.mp path with ⟨walked, slash⟩
    rw [if_neg nonempty, Tree.walk_succ walked, Option.filter_some, if_pos slash]

theorem Open.origin_targetName (opened : Open steps world list place) (cwd : Place) :
    origin cwd (targetName list) = [] := by
  have nonempty : list.entry.path ≠ [] := by
    intro none
    have absolute := opened.absolute
    rw [none] at absolute
    cases absolute
  rw [origin, List.head?_append_of_ne_nil _ nonempty, if_pos opened.absolute]

theorem Open.components_targetName (opened : Open steps world list place) :
    components (targetName list) = components list.entry.path ++ [list.name] := by
  rw [components_append_slash, Tree.components_name opened.proper]

theorem Open.named (opened : Open steps world list place) : Named (targetName list) := by
  refine ⟨list.name, ?_, opened.proper.notDot, opened.proper.notDotdot⟩
  rw [opened.components_targetName, List.getLast?_concat]

/-- The directory that is deleted. -/
theorem Open.target (opened : Open steps world list place) :
    world.tree.walk false (steps + 1) [] (components (targetName list)) =
        some (place ++ [list.name]) ∧
      world.tree.lookup false (steps + 1) world.cwd (targetName list) =
        some (place ++ [list.name]) := by
  have walked : world.tree.walk false (steps + 1) [] (components (targetName list)) =
      some (place ++ [list.name]) := by
    rw [opened.components_targetName]
    exact Tree.walk_concat opened.walked opened.directory opened.proper
  have plain : ¬Tree.Slashed (targetName list) := by
    intro slashed
    rw [Tree.Slashed, List.getLast?_append_of_ne_nil _ (List.cons_ne_nil _ _)] at slashed
    rcases List.exists_cons_of_ne_nil opened.proper.nonempty with ⟨head, tail, equal⟩
    rw [equal, List.getLast?_cons_cons, ← equal] at slashed
    exact opened.proper.plain (List.mem_of_getLast? slashed)
  have nonempty : targetName list ≠ [] :=
    List.append_ne_nil_of_right_ne_nil _ (List.cons_ne_nil _ _)
  refine ⟨walked, ?_⟩
  rw [Tree.lookup, if_neg nonempty, decide_eq_false plain, Bool.or_false,
    opened.origin_targetName, walked, Option.filter_some, if_pos (decide_eq_true (.inl plain))]

/-- The tree that `listDelete` leaves. -/
def left (steps : Nat) (world : World) (list : ListInfo) (place : Place) : Tree :=
  match world.tree.node (place ++ [list.name]) with
  | none => world.tree
  | some .directory => removed steps world.tree (place ++ [list.name]) (targetName list)
  | some _ => world.tree.without (place ++ [list.name])

theorem listDelete_left (set : SetUp list) (opened : Open steps world list place) :
    ∃ rounds cwd, ∀ more, rounds ≤ more → listDelete (steps + 1) more world list =
      .ok (some (0, ⟨left (steps + 1) world list place, cwd⟩)) := by
  have calls := listDelete_eq set opened.path_succ opened.directory
  rw [left]
  cases found : world.tree.node (place ++ [list.name]) with
  | none =>
      refine ⟨1, world.cwd, ?_⟩
      intro more enough
      rcases Nat.exists_eq_add_of_le' enough with ⟨rounds, rfl⟩
      have missing : world.lstat (steps + 1) (targetName list) = none := by
        rw [World.lstat, opened.target.2, Option.bind_some, found]
      rw [calls, Vdelfiles.vdelfiles, missing]
      rfl
  | some entry =>
      rcases exists_shallow world.tree (place ++ [list.name]) with ⟨rounds, shallow⟩
      refine ⟨rounds, (if entry = .directory then
        ((World.mk (world.tree.emptied (place ++ [list.name]))
          (place ++ [list.name]).dropLast).rmdir (steps + 1) (targetName list)).getD
            ⟨world.tree.emptied (place ++ [list.name]), (place ++ [list.name]).dropLast⟩
        else ⟨world.tree.without (place ++ [list.name]), world.cwd⟩).cwd, ?_⟩
      intro more enough
      rw [calls, vdelfiles_eq opened.target.2
        (fun below present => (shallow below present).trans_le enough) entry found]
      cases entry <;> rfl

theorem deletesList_iff (set : SetUp list) (opened : Open steps world list place) :
    DeletesList (steps + 1) world list place own ↔
      ∀ other,
        (Belongs place list.name own other →
          (left (steps + 1) world list place).node other = none) ∧
        (¬Belongs place list.name own other →
          (left (steps + 1) world list place).node other = world.tree.node other) := by
  rcases listDelete_left set opened with ⟨rounds, cwd, outcome⟩
  constructor
  · rintro ⟨least, after, returns, deletes⟩
    have same := (outcome _ (Nat.le_max_left rounds least)).symm.trans
      (returns _ (Nat.le_max_right rounds least))
    rw [Except.ok.injEq, Option.some.injEq, Prod.mk.injEq] at same
    rw [← same.2] at deletes
    exact deletes
  · intro deletes
    exact ⟨rounds, _, outcome, deletes⟩

theorem ne_of_qmailFile (set : SetUp list) {file : List Char}
    (qmail : QmailFile list.name file) : file ≠ list.name := by
  have size : (qmailName list.name).length = list.name.length := by
    rw [set.qmailName_eq, List.length_map]
  have some_ : 0 < qmailPrefix.length := by decide
  rintro rfl
  rcases qmail with equal | begins
  · have length := congrArg List.length equal
    rw [List.length_append, size] at length
    omega
  · have length := begins.length_le
    rw [List.length_append, List.length_append, size] at length
    omega

/-- Another entry of the domain directory stays. -/
theorem node_left_of_ne (opened : Open steps world list place) {file : List Char}
    (present : world.tree.node (place ++ [file]) ≠ none) (other : file ≠ list.name) :
    (left (steps + 1) world list place).node (place ++ [file]) =
      world.tree.node (place ++ [file]) := by
  have outside : ¬place ++ [list.name] <+: place ++ [file] := fun below =>
    other (Tree.child_below_iff.mp below).symm
  rw [left]
  split
  · rfl
  next directory =>
    have kept : (world.tree.emptied (place ++ [list.name])).node (place ++ [file]) =
        world.tree.node (place ++ [file]) :=
      Tree.node_emptied_of_not_below fun name below =>
        outside ((List.prefix_append _ _).trans below)
    rw [node_removed (by rwa [kept]) ?_, kept]
    -- The path that is removed ends in the name of the list.
    rw [opened.components_targetName]
    intro walked
    rcases Tree.walk_last walked opened.proper with ⟨above, equal⟩
    exact other (List.singleton_inj.mp (List.append_inj_right' equal rfl))
  · exact Tree.node_without_of_not_below outside

/-- What has the name of the list does not stay as it is. -/
theorem left_ne (opened : Open steps world list place)
    (present : world.tree.node (place ++ [list.name]) ≠ none) :
    ∃ other, place ++ [list.name] <+: other ∧ world.tree.node other ≠ none ∧
      (∀ file, place ++ [file] <+: other → file = list.name) ∧
      (left (steps + 1) world list place).node other = none := by
  have only : ∀ more file, place ++ [file] <+: place ++ [list.name] ++ more →
      file = list.name := by
    intro more file below
    rw [List.append_assoc, List.prefix_append_right_inj, List.singleton_append,
      List.cons_prefix_cons] at below
    exact below.1
  have itself := only []
  rw [List.append_nil] at itself
  rw [left]
  split
  next absent => exact absurd absent present
  next directory =>
    cases names : world.tree.names (place ++ [list.name]) with
    | nil =>
        -- An empty directory is looked up again in the same tree.
        have same : world.tree.emptied (place ++ [list.name]) = world.tree := by
          rw [Tree.emptied, names]
          rfl
        have leads : LeadsBack (steps + 1) world.tree (place ++ [list.name]) (targetName list) := by
          refine ⟨opened.named, ?_⟩
          rw [same, opened.origin_targetName]
          exact opened.target.1
        refine ⟨place ++ [list.name], List.prefix_rfl, present, itself, ?_⟩
        rw [removed_of_leadsBack directory leads]
        exact Tree.node_without_of_below List.prefix_rfl
    | cons name rest =>
        have listed : name ∈ world.tree.names (place ++ [list.name]) := by
          rw [names]
          exact List.mem_cons_self
        have gone : (world.tree.emptied (place ++ [list.name])).node
            (place ++ [list.name] ++ [name]) = none := by
          by_contra there
          have left := ((world.tree.emptied (place ++ [list.name])).listed _ name).mpr there
          rw [Tree.names_emptied] at left
          exact absurd left List.not_mem_nil
        refine ⟨place ++ [list.name] ++ [name], List.prefix_append _ _,
          (world.tree.listed _ name).mp listed, only [name], ?_⟩
        rcases removed_cases (steps + 1) world.tree (place ++ [list.name]) (targetName list) with
          same | ⟨third, _, _, _, same⟩
        · rw [same, gone]
        · rw [same]
          by_contra there
          exact Tree.present_of_without there gone
  · exact ⟨place ++ [list.name], List.prefix_rfl, present, itself,
      Tree.node_without_of_below List.prefix_rfl⟩

theorem belongs_absent (own_ : ∀ file ∈ world.tree.names place, ¬own file) {other : Place}
    (belongs : ∃ file, own file ∧ place ++ [file] <+: other) : world.tree.node other = none := by
  rcases belongs with ⟨file, is, below⟩
  apply world.tree.absent_below _ below
  by_contra present
  exact own_ file ((world.tree.listed place file).mpr present) is

theorem qmailName_eq_iff (set : SetUp list) : qmailName list.name = list.name ↔ '.' ∉ list.name := by
  rw [set.qmailName_eq]
  constructor
  · intro same period
    have colon : colonOfPeriod '.' ∈ list.name.map colonOfPeriod := List.mem_map_of_mem period
    rw [← same, List.mem_map] at period
    rcases period with ⟨char, _, equal⟩
    rw [colonOfPeriod] at equal
    split at equal
    · cases equal
    next other => exact other equal
  · intro free
    calc
      list.name.map colonOfPeriod = list.name.map id :=
        List.map_congr_left fun char member => if_neg fun (period : char = '.') =>
          free (period ▸ member)
      _ = list.name := List.map_id _

/-- `listDelete` deletes a list and nothing else exactly if there is nothing to delete but a
directory whose name has no period. -/
theorem listDelete_exact_iff {defaultDomain address : List Char} {process : AssignProcess}
    {scan : EntryScan} {domainOnly : Bool}
    (set : defaultOptions defaultDomain process scan address domainOnly = .ok (.ok list))
    (opened : Open steps world list place) (qmail : ∀ file, own file → QmailFile list.name file) :
    DeletesList (steps + 1) world list place own ↔
      Deletable (steps + 1) world list place own := by
  have setUp := setUp_of_defaultOptions set
  have others : ∀ file, own file → file ≠ list.name := fun file is =>
    ne_of_qmailFile setUp (qmail file is)
  rw [deletesList_iff setUp opened, Deletable]
  constructor
  · intro deletes
    have stays : ∀ file, file ≠ list.name → Belongs place list.name own (place ++ [file]) →
        world.tree.node (place ++ [file]) = none := by
      intro file other belongs
      by_contra present
      have gone := (deletes _).1 belongs
      rw [node_left_of_ne opened present other] at gone
      exact present gone
    constructor
    · intro file member is
      have absent := stays file (others file is) (.inr ⟨file, is, List.prefix_rfl⟩)
      exact (world.tree.listed place file).mp member absent
    split
    next period =>
      have ne : qmailName list.name ≠ list.name := fun same =>
        (qmailName_eq_iff setUp).mp same period
      refine ⟨stays _ ne (.inl List.prefix_rfl), ?_⟩
      by_contra present
      rcases left_ne opened present with ⟨other, _, there, only, gone⟩
      have foreign : ¬Belongs place list.name own other := by
        rintro (below | ⟨file, is, below⟩)
        · exact ne (only _ below)
        · exact others file is (only file below)
      rw [(deletes other).2 foreign] at gone
      exact there gone
    next free =>
      intro directory
      have belongs : Belongs place list.name own (place ++ [list.name]) := by
        apply Or.inl
        rw [(qmailName_eq_iff setUp).mpr free]
      have gone := (deletes _).1 belongs
      rw [left, directory] at gone
      exact leadsBack_of_gone directory gone
  · rintro ⟨none_, deletable⟩ other
    split at deletable
    next period =>
      have same : left (steps + 1) world list place = world.tree := by
        rw [left, deletable.2]
      rw [same]
      refine ⟨?_, fun _ => rfl⟩
      rintro (below | belongs)
      · exact world.tree.absent_below deletable.1 below
      · exact belongs_absent none_ belongs
    next free =>
      have name := (qmailName_eq_iff setUp).mpr free
      have leaves : (left (steps + 1) world list place).node other =
          if place ++ [list.name] <+: other then none else world.tree.node other := by
        rw [left]
        split
        next absent =>
          split
          next below => exact world.tree.absent_below absent below
          · rfl
        next directory =>
          rw [removed_of_leadsBack directory (deletable directory)]
          rfl
        · rfl
      rw [leaves]
      constructor
      · rintro (below | belongs)
        · rw [name] at below
          exact if_pos below
        · split
          · rfl
          · exact belongs_absent none_ belongs
      · intro foreign
        apply if_neg
        intro below
        rw [← name] at below
        exact foreign (.inl below)

/-- A domain with the directory `/d`. -/
def domainProcess : AssignProcess := assignOnly "+a.b-:a.b:0:0:/d:-::\n".toList

def listOf (name : List Char) : ListInfo where
  entry := ⟨"a.b".toList, "a.b".toList, 0, 0, "/d".toList⟩
  name := name
  dot := "/d/.qmail-".toList ++ qmailName name
  dir := "/d/".toList ++ qmailName name
  domain := "a.b".toList

theorem root_directory : Tree.root.node [] = some .directory := rfl

theorem domain_free : Tree.root.node ([] ++ [['d']]) = none := rfl

theorem domain_proper : Proper ['d'] := by decide

/-- `/d` with the directories of the lists `foo` and `foo-bar` and of the user `bob`, a file of
the second list, and an alias. -/
def domainTree : Tree :=
  ((((((Tree.root.add [] ['d'] .directory root_directory domain_free domain_proper).add [['d']]
    "foo".toList .directory rfl rfl (by decide)).add [['d'], "foo".toList] "text".toList .directory
    rfl rfl (by decide)).add [['d']] "foo-bar".toList .directory rfl rfl (by decide)).add [['d']]
    "bob".toList .directory rfl rfl (by decide)).add [['d']] ".qmail-foo-bar".toList .file rfl rfl
    (by decide)).add [['d']] ".qmail-sales".toList .file rfl rfl (by decide)

/-- The files of the list `foo`, without those of `foo-bar`. -/
def FooFile (file : List Char) : Prop :=
  QmailFile "foo".toList file ∧ ¬QmailFile "foo-bar".toList file

/-- The list `foo` is deleted with what is in its directory, and all the others stay. -/
theorem listDelete_exact_domainTree :
    DeletesList 8 ⟨domainTree, []⟩ (listOf "foo".toList) [['d']] FooFile := by
  have exact_ := @listDelete_exact_iff 7 ⟨domainTree, []⟩ (listOf "foo".toList) [['d']] FooFile
    [] "foo@a.b".toList domainProcess ⟨none, []⟩ false (by decide +kernel)
    ⟨rfl, rfl, rfl, by decide⟩ fun _ is => is.1
  rw [exact_]
  constructor
  · unfold FooFile QmailFile
    decide
  · rw [if_neg (by decide)]
    intro directory
    exact leadsBack_of_absolute directory rfl rfl (List.cons_ne_nil _ _) (by decide)

/-- `/d` with the directories of a list and of a user. -/
def userTree : Tree :=
  ((Tree.root.add [] ['d'] .directory root_directory domain_free domain_proper).add [['d']]
    "x:y".toList .directory rfl rfl (by decide)).add [['d']] "x.y".toList .directory rfl rfl
    (by decide)

/-- The list `x.y` is to be deleted, and the user `x.y` is. -/
theorem not_listDelete_exact :
    ¬∀ steps (world : World) list place own defaultDomain address process scan domainOnly,
      defaultOptions defaultDomain process scan address domainOnly = .ok (.ok list) →
      Open steps world list place → (∀ file, own file → QmailFile list.name file) →
      DeletesList (steps + 1) world list place own := by
  intro exact
  have opened : Open 7 ⟨userTree, []⟩ (listOf "x.y".toList) [['d']] :=
    ⟨rfl, rfl, rfl, by decide⟩
  have set : defaultOptions [] domainProcess ⟨none, []⟩ "x.y@a.b".toList false =
      .ok (.ok (listOf "x.y".toList)) := by
    decide +kernel
  have setUp := setUp_of_defaultOptions set
  have deletes := exact 7 _ _ _ (QmailFile "x.y".toList) _ _ _ _ _ set opened fun _ is => is
  have foreign : ¬Belongs [['d']] "x.y".toList (QmailFile "x.y".toList) [['d'], "x.y".toList] := by
    rintro (list | ⟨file, is, below⟩)
    · revert list
      decide
    · exact ne_of_qmailFile setUp is (Tree.child_below_iff.mp below)
  have kept := ((deletesList_iff setUp opened).mp deletes [['d'], "x.y".toList]).2 foreign
  have gone : (left 8 ⟨userTree, []⟩ (listOf "x.y".toList) [['d']]).node
      [['d'], "x.y".toList] = none := by rfl
  rw [gone] at kept
  cases kept

end Deletion

end Vpopmail.Vlistlib
