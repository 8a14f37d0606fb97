import Vpopmail.Dotqmail2valias

/-! # What the conversion loses

The loop of `conv_domain` as a walk along the files, and when no line of a file gets lost.
-/

namespace Vpopmail.Dotqmail2valias

open Vpopmail Text Vpopmail.Stream

section Migration

variable (domainpath : List Char) (accepts : List Char → Nat → Bool)

/-! ## File by file -/

/-- A file that is converted if its alias has no rows yet: it can be opened at its path, and
none of the lines read from it is that of a list. -/
def takes (file : DotQmail) : Bool :=
  isCandidate file.name && file.readable && (pathOf domainpath file.name).length < maxBuff &&
    !(linesRead file.text).any fun aliasLine => isListLine (cstring aliasLine)

/-- The rows that the conversion of a file makes. -/
def rowsOf (file : DotQmail) : List (List Char) :=
  acceptedLines (accepts file.name) 0 (linesRead file.text)

/-- The files that stay, and the rows. -/
def migrate : List DotQmail → AliasRows → List DotQmail × AliasRows
  | [], rows => ([], rows)
  | file :: files, rows =>
      if takes domainpath file ∧ rows (username file.name) = [] then
        migrate files (Function.update rows (username file.name) (rowsOf accepts file))
      else
        let others := migrate files rows
        (file :: others.1, others.2)

/-- No path of a candidate that is cut off is that of another file that can be read. -/
def Uncut (files : List DotQmail) : Prop :=
  ∀ file ∈ files, isCandidate file.name = true → ∀ other ∈ files, other.readable = true →
    dotqmailFn domainpath file.name = pathOf domainpath other.name → file = other

variable {domainpath accepts}

theorem pathOf_injective {name other : List Char}
    (same : pathOf domainpath name = pathOf domainpath other) : name = other := by
  rw [pathOf, pathOf, List.append_cancel_left_eq] at same
  exact List.tail_eq_of_cons_eq same

theorem dotqmailFn_of_fits {name : List Char} (fits : (pathOf domainpath name).length < maxBuff) :
    dotqmailFn domainpath name = pathOf domainpath name :=
  List.take_of_length_le (Nat.le_sub_one_of_lt fits)

theorem fits_of_dotqmailFn {name : List Char}
    (same : dotqmailFn domainpath name = pathOf domainpath name) :
    (pathOf domainpath name).length < maxBuff := by
  have cut := congrArg List.length same
  rw [dotqmailFn, snprintf, List.length_take] at cut
  simp only [maxBuff] at *
  omega

section Opened

variable {files : List DotQmail} {file : DotQmail}

/-- A file is opened if it is readable and its path is not cut off. -/
theorem fopen_eq (uncut : Uncut domainpath files) (member : file ∈ files)
    (candidate : isCandidate file.name = true) :
    fopen domainpath files (dotqmailFn domainpath file.name) =
      if file.readable && (pathOf domainpath file.name).length < maxBuff then some file.text
      else none := by
  cases found : files.find? fun other =>
      other.readable && pathOf domainpath other.name = dotqmailFn domainpath file.name with
  | none =>
      rw [fopen, found, Option.map_none, if_neg]
      intro opened
      rw [Bool.and_eq_true, decide_eq_true_eq] at opened
      have missed := List.find?_eq_none.mp found file member
      apply missed
      rw [opened.1, dotqmailFn_of_fits opened.2, Bool.true_and]
      exact decide_eq_true rfl
  | some other =>
      have inside := List.mem_of_find?_eq_some found
      have shape := List.find?_some found
      rw [Bool.and_eq_true, decide_eq_true_eq] at shape
      have same : file = other := uncut file member candidate other inside shape.1 shape.2.symm
      rw [← same] at shape
      rw [fopen, found, Option.map_some, ← same, if_pos]
      rw [shape.1, Bool.true_and]
      exact decide_eq_true (fits_of_dotqmailFn shape.2.symm)

end Opened

/-- The removal of a file leaves the others. -/
theorem unlink_eq {before after : List DotQmail} {file : DotQmail}
    (distinct : ((before ++ file :: after).map DotQmail.name).Nodup)
    (fits : (pathOf domainpath file.name).length < maxBuff) :
    unlink domainpath (before ++ file :: after) (dotqmailFn domainpath file.name) =
      before ++ after := by
  rw [List.map_append, List.map_cons, List.nodup_middle, List.nodup_cons] at distinct
  rw [dotqmailFn_of_fits fits, unlink, List.filter_append, List.filter_cons_of_neg (by simp)]
  have stays {others : List DotQmail} (apart : ∀ other ∈ others, other.name ≠ file.name) :
      (others.filter fun other => pathOf domainpath other.name ≠ pathOf domainpath file.name) =
        others := by
    apply List.filter_eq_self.mpr
    intro other member
    exact decide_eq_true fun same => apart other member (pathOf_injective same)
  have apart {other : DotQmail} (member : other ∈ before ++ after) : other.name ≠ file.name := by
    intro same
    apply distinct.1
    rw [← List.map_append, ← same]
    exact List.mem_map_of_mem member
  rw [stays fun other member => apart (List.mem_append_left _ member),
    stays fun other member => apart (List.mem_append_right _ member)]

theorem convEntry_eq {before after : List DotQmail} {file : DotQmail} {rows : AliasRows}
    (distinct : ((before ++ file :: after).map DotQmail.name).Nodup)
    (uncut : Uncut domainpath (before ++ file :: after)) :
    convEntry domainpath accepts ⟨before ++ file :: after, rows⟩ file.name =
      if takes domainpath file ∧ rows (username file.name) = [] then
        ⟨before ++ after, Function.update rows (username file.name) (rowsOf accepts file)⟩
      else ⟨before ++ file :: after, rows⟩ := by
  have member : file ∈ before ++ file :: after := List.mem_append_right _ List.mem_cons_self
  rcases insertLines_eq (accepts file.name) 0 (linesRead file.text) (rows (username file.name))
    with ⟨whole, inserted⟩
  rw [convEntry]
  cases candidate : isCandidate file.name with
  | false =>
      have stays : takes domainpath file = false := by
        rw [takes, candidate, Bool.false_and, Bool.false_and, Bool.false_and]
      rw [stays, Bool.not_false, if_pos rfl, if_neg]
      exact fun both => Bool.false_ne_true both.1
  | true =>
      have opened := fopen_eq uncut member candidate
      rw [Bool.not_true, if_neg Bool.false_ne_true]
      rcases Classical.em (rows (username file.name) = []) with empty | present
      · rw [if_neg (not_not.mpr empty)]
        simp only [opened]
        cases readable : file.readable && (pathOf domainpath file.name).length < maxBuff with
        | false =>
            have stays : takes domainpath file = false := by
              rw [takes, candidate, Bool.true_and, readable, Bool.false_and]
            rw [if_neg Bool.false_ne_true, stays, if_neg]
            exact fun both => Bool.false_ne_true both.1
        | true =>
            have taken : takes domainpath file =
                (insertLines (accepts file.name) 0 (linesRead file.text)
                  (rows (username file.name))).2 := by
              rw [takes, candidate, Bool.true_and, readable, Bool.true_and, whole]
            have fits := of_decide_eq_true (Bool.and_eq_true_iff.mp readable).2
            rw [if_pos rfl]
            simp only
            rw [taken]
            cases ended : (insertLines (accepts file.name) 0 (linesRead file.text)
                (rows (username file.name))).2 with
            | true =>
                have rows_eq := inserted ended
                rw [linesRead] at rows_eq ended
                rw [if_pos ended, if_pos ⟨rfl, empty⟩, unlink_eq distinct fits, rows_eq, empty]
                rfl
            | false =>
                rw [linesRead] at ended
                have same : Function.update rows (username file.name) [] = rows := by
                  rw [Function.update_eq_self_iff, empty]
                rw [if_neg (Bool.eq_false_iff.mp ended), if_neg, same]
                exact fun both => Bool.false_ne_true both.1
      · rw [if_pos present, if_neg]
        exact fun both => present both.2

/-- The loop over the entries of the directory is the walk along its files. -/
theorem foldl_convEntry (before after : List DotQmail) (rows : AliasRows)
    (distinct : ((before ++ after).map DotQmail.name).Nodup)
    (uncut : Uncut domainpath (before ++ after)) :
    (after.map DotQmail.name).foldl (convEntry domainpath accepts) ⟨before ++ after, rows⟩ =
      ⟨before ++ (migrate domainpath accepts after rows).1,
        (migrate domainpath accepts after rows).2⟩ := by
  induction after generalizing before rows with
  | nil => rfl
  | cons file after induction =>
      rw [List.map_cons, List.foldl_cons, convEntry_eq distinct uncut, migrate]
      split
      · have fewer : List.Sublist (before ++ after) (before ++ file :: after) :=
          List.Sublist.append_left (List.sublist_cons_self file after) before
        apply induction
        · exact distinct.sublist (fewer.map _)
        · exact fun one member candidate other otherMember =>
            uncut one (fewer.subset member) candidate other (fewer.subset otherMember)
      · have moved : before ++ file :: after = before ++ [file] ++ after :=
          List.append_cons before file after
        rw [moved] at distinct uncut ⊢
        rw [induction (before ++ [file]) rows distinct uncut, List.append_assoc,
          List.singleton_append]

/-! ## Rows -/

/-- The files that may be converted into the rows of an alias, in their order. -/
def takers (domainpath : List Char) (files : List DotQmail) (aliasName : List Char) :
    List DotQmail :=
  files.filter fun file => takes domainpath file && username file.name = aliasName

/-- The rows of the first file that makes any. -/
def firstRows (accepts : List Char → Nat → Bool) (files : List DotQmail) : List (List Char) :=
  ((files.map (rowsOf accepts)).find? (· ≠ [])).getD []

theorem firstRows_eq_nil_iff {files : List DotQmail} :
    firstRows accepts files = [] ↔ ∀ file ∈ files, rowsOf accepts file = [] := by
  rw [firstRows]
  cases found : (files.map (rowsOf accepts)).find? (· ≠ []) with
  | none =>
      rw [Option.getD_none]
      constructor
      · intro _ file member
        have missed := List.find?_eq_none.mp found _ (List.mem_map_of_mem member)
        simpa using missed
      · exact fun _ => rfl
  | some rows =>
      rw [Option.getD_some]
      have some_rows : rows ≠ [] := by
        simpa using List.find?_some found
      constructor
      · exact fun empty => absurd empty some_rows
      · intro all
        rcases List.mem_map.mp (List.mem_of_find?_eq_some found) with ⟨file, member, same⟩
        exact same.symm.trans (all file member)

theorem firstRows_cons (file : DotQmail) (files : List DotQmail) :
    firstRows accepts (file :: files) =
      if rowsOf accepts file = [] then firstRows accepts files else rowsOf accepts file := by
  rw [firstRows, List.map_cons]
  split
  · rename_i empty
    rw [List.find?_cons_of_neg (by simp [empty])]
    rfl
  · rename_i present
    rw [List.find?_cons_of_pos (by simp [present])]
    rfl

section Rows

variable {files : List DotQmail} {rows : AliasRows} {aliasName : List Char}

/-- Rows that are there keep the files of their alias as they are. -/
theorem migrate_rows_present (present : rows aliasName ≠ []) :
    (migrate domainpath accepts files rows).2 aliasName = rows aliasName := by
  induction files generalizing rows with
  | nil => rfl
  | cons file files induction =>
      rw [migrate]
      split
      · rename_i taken
        have other : aliasName ≠ username file.name := fun same => present (same ▸ taken.2)
        have kept := Function.update_of_ne other (rowsOf accepts file) rows
        have still : Function.update rows (username file.name) (rowsOf accepts file) aliasName ≠
            [] := by
          rw [kept]
          exact present
        rw [induction still, kept]
      · exact induction present

theorem migrate_rows (empty : rows aliasName = []) :
    (migrate domainpath accepts files rows).2 aliasName =
      firstRows accepts (takers domainpath files aliasName) := by
  induction files generalizing rows with
  | nil => exact empty
  | cons file files induction =>
      rw [migrate, takers, List.filter_cons]
      split
      · rename_i taken
        rcases Classical.em (username file.name = aliasName) with same | other
        · rw [taken.1, decide_eq_true same, if_pos (by rfl), firstRows_cons]
          have own : Function.update rows (username file.name) (rowsOf accepts file) aliasName =
              rowsOf accepts file := by
            rw [same, Function.update_self]
          split
          · rename_i none_made
            exact induction (own.trans none_made)
          · rename_i made
            have present : Function.update rows (username file.name) (rowsOf accepts file)
                aliasName ≠ [] := by
              rw [own]
              exact made
            rw [migrate_rows_present present, own]
        · rw [decide_eq_false other, Bool.and_false, if_neg Bool.false_ne_true]
          apply induction
          rw [Function.update_of_ne (Ne.symm other), empty]
      · rename_i stays
        have apart : (takes domainpath file && username file.name = aliasName) = false := by
          rw [Bool.eq_false_iff]
          intro both
          rw [Bool.and_eq_true, decide_eq_true_eq] at both
          exact stays ⟨both.1, both.2 ▸ empty⟩
        rw [apart, if_neg Bool.false_ne_true]
        exact induction empty

end Rows

/-! ## Files that stay -/

section Files

variable {files before after : List DotQmail} {file : DotQmail} {rows : AliasRows}

theorem migrate_sublist (files : List DotQmail) (rows : AliasRows) :
    (migrate domainpath accepts files rows).1.Sublist files := by
  induction files generalizing rows with
  | nil => exact List.Sublist.slnil
  | cons file files induction =>
      rw [migrate]
      split
      · exact (induction _).trans (List.sublist_cons_self file files)
      · exact (induction rows).cons_cons file

theorem migrate_append (before after : List DotQmail) (rows : AliasRows) :
    migrate domainpath accepts (before ++ after) rows =
      ((migrate domainpath accepts before rows).1 ++
          (migrate domainpath accepts after (migrate domainpath accepts before rows).2).1,
        (migrate domainpath accepts after (migrate domainpath accepts before rows).2).2) := by
  induction before generalizing rows with
  | nil => rfl
  | cons file before induction =>
      rw [List.cons_append, migrate, migrate]
      split
      · rw [induction]
      · rw [induction]
        rfl

/-- A file stays unless it is converted when its turn comes. -/
theorem mem_migrate_iff (distinct : (before ++ file :: after).Nodup) :
    file ∈ (migrate domainpath accepts (before ++ file :: after) rows).1 ↔
      ¬ (takes domainpath file = true ∧
        (migrate domainpath accepts before rows).2 (username file.name) = []) := by
  rw [List.nodup_middle, List.nodup_cons, List.mem_append, not_or] at distinct
  have absent_before : file ∉ (migrate domainpath accepts before rows).1 := fun member =>
    distinct.1.1 ((migrate_sublist before rows).subset member)
  have absent_after {others : AliasRows} : file ∉ (migrate domainpath accepts after others).1 :=
    fun member => distinct.1.2 ((migrate_sublist after others).subset member)
  rw [migrate_append, List.mem_append, migrate]
  split
  · rename_i taken
    simp [absent_before, absent_after, taken]
  · rename_i stays
    simp only [List.mem_cons, true_or, or_true, true_iff]
    exact stays

theorem takers_append (before after : List DotQmail) (aliasName : List Char) :
    takers domainpath (before ++ after) aliasName =
      takers domainpath before aliasName ++ takers domainpath after aliasName :=
  List.filter_append ..

theorem mem_takers {aliasName : List Char} :
    file ∈ takers domainpath files aliasName ↔
      file ∈ files ∧ takes domainpath file = true ∧ username file.name = aliasName := by
  rw [takers, List.mem_filter, Bool.and_eq_true, decide_eq_true_eq]

/-- A file is converted exactly if there were no rows, and no file in front of it has made
any. -/
theorem converted_iff (distinct : (before ++ file :: after).Nodup) :
    file ∉ (migrate domainpath accepts (before ++ file :: after) rows).1 ↔
      takes domainpath file = true ∧ rows (username file.name) = [] ∧
        ∀ other ∈ takers domainpath before (username file.name), rowsOf accepts other = [] := by
  rw [mem_migrate_iff distinct, not_not]
  rcases Classical.em (rows (username file.name) = []) with empty | present
  · rw [migrate_rows empty, firstRows_eq_nil_iff]
    simp [empty]
  · rw [migrate_rows_present present]
    simp [present]

end Files

/-! ## Nothing lost -/

/-- A file with a line of a mailing list. -/
def isList (text : List Char) : Bool := (fileLines text).any isListLine

/-- What the conversion promises: a file without a list that is removed has its lines as the
rows of its alias, a file of which a line was refused is still there, and so is every file of
a list, with no rows for its alias. -/
structure LosesNothing (accepts : List Char → Nat → Bool) (files : List DotQmail)
    (after : State) : Prop where
  converted : ∀ file ∈ files, isCandidate file.name = true → isList file.text = false →
    file ∉ after.files → after.rows (username file.name) = fileLines file.text
  refused : ∀ file ∈ files, isCandidate file.name = true → isList file.text = false →
    (∃ linecount < (linesRead file.text).length, accepts file.name linecount = false) →
      file ∈ after.files
  lists : ∀ file ∈ files, isCandidate file.name = true → isList file.text = true →
    file ∈ after.files ∧ after.rows (username file.name) = []

/-- A file whose lines are all stored as they are. -/
structure Storable (accepts : List Char → Nat → Bool) (file : DotQmail) : Prop where
  plain : Free nul file.text
  fits : ∀ line ∈ wholeLines file.text, line.length < maxAliasLine
  accepted : ∀ linecount < (linesRead file.text).length, accepts file.name linecount = true

/-- The condition on the files of one alias. -/
structure Sound (domainpath : List Char) (accepts : List Char → Nat → Bool)
    (files : List DotQmail) (rows : AliasRows) (aliasName : List Char) : Prop where
  lists : ∀ file ∈ files, isCandidate file.name = true → isList file.text = true →
    username file.name = aliasName →
      rows aliasName = [] ∧ ∀ taker ∈ takers domainpath files aliasName, taker.text = []
  first : rows aliasName = [] → ∀ taker others, takers domainpath files aliasName = taker :: others →
    Storable accepts taker ∧ (taker.text = [] → ∀ other ∈ others, other.text = [])

theorem fileLines_eq_nil_iff {text : List Char} : fileLines text = [] ↔ text = [] := by
  constructor
  · intro empty
    have whole := length_wholeLines text
    rw [empty] at whole
    have lines := List.length_eq_zero_iff.mp whole
    have flat := wholeLines_flatten text
    rw [lines] at flat
    exact flat.symm
  · rintro rfl
    rfl

theorem isCandidate_of_takes {file : DotQmail} (taken : takes domainpath file = true) :
    isCandidate file.name = true := by
  rw [takes, Bool.and_eq_true, Bool.and_eq_true, Bool.and_eq_true] at taken
  exact taken.1.1.1

theorem rowsOf_of_accepted {file : DotQmail}
    (all : ∀ linecount < (linesRead file.text).length, accepts file.name linecount = true) :
    rowsOf accepts file = (linesRead file.text).map storedLine := by
  apply acceptedLines_of_accepts
  intro linecount inside
  rw [Nat.zero_add]
  exact all linecount inside

theorem Storable.rows {file : DotQmail} (storable : Storable accepts file) :
    rowsOf accepts file = fileLines file.text :=
  (rowsOf_of_accepted storable.accepted).trans
    ((map_storedLine_iff file.text).mpr ⟨storable.plain, storable.fits⟩)

theorem rowsOf_empty {file : DotQmail} (empty : file.text = []) : rowsOf accepts file = [] := by
  rw [rowsOf, empty]
  rfl

theorem isList_empty {text : List Char} (empty : text = []) : isList text = false := by
  rw [empty]
  rfl

section Sound

variable {files : List DotQmail} {rows : AliasRows}

/-- The files of an alias that are converted are removed if none of them makes any rows. -/
theorem not_mem_migrate_of_firstRows (distinct : files.Nodup) {aliasName : List Char}
    (empty : rows aliasName = [])
    (none_made : firstRows accepts (takers domainpath files aliasName) = []) {taker : DotQmail}
    (member : taker ∈ takers domainpath files aliasName) :
    taker ∉ (migrate domainpath accepts files rows).1 := by
  rcases mem_takers.mp member with ⟨inside, taken, rfl⟩
  rcases List.append_of_mem inside with ⟨before, after, rfl⟩
  rw [converted_iff distinct]
  refine ⟨taken, empty, fun other earlier => ?_⟩
  apply firstRows_eq_nil_iff.mp none_made other
  rw [takers_append]
  exact List.mem_append_left _ earlier

/-- The first file of an alias without rows is converted. -/
theorem not_mem_migrate_first (distinct : files.Nodup) {aliasName : List Char}
    (empty : rows aliasName = []) {taker : DotQmail} {others : List DotQmail}
    (first : takers domainpath files aliasName = taker :: others) :
    taker ∉ (migrate domainpath accepts files rows).1 := by
  have member : taker ∈ takers domainpath files aliasName := first ▸ List.mem_cons_self
  rcases mem_takers.mp member with ⟨inside, taken, rfl⟩
  rcases List.append_of_mem inside with ⟨before, after, rfl⟩
  rw [converted_iff distinct]
  refine ⟨taken, empty, fun other earlier => ?_⟩
  have absent : taker ∉ before := by
    rw [List.nodup_middle, List.nodup_cons, List.mem_append, not_or] at distinct
    exact distinct.1.1
  rw [takers_append] at first
  cases front : takers domainpath before (username taker.name) with
  | nil =>
      rw [front] at earlier
      cases earlier
  | cons head rest =>
      rw [front, List.cons_append] at first
      have same : head = taker := (List.cons.inj first).1
      have inside_before : head ∈ takers domainpath before (username taker.name) :=
        front ▸ List.mem_cons_self
      exact absurd (same ▸ (mem_takers.mp inside_before).1) absent

/-- A converted file is the first one of its alias, or one behind files without rows. -/
theorem exists_first_of_not_mem (distinct : files.Nodup) {file : DotQmail} (member : file ∈ files)
    (removed : file ∉ (migrate domainpath accepts files rows).1) :
    rows (username file.name) = [] ∧ ∃ taker others,
      takers domainpath files (username file.name) = taker :: others ∧
        (file = taker ∨ file ∈ others ∧ rowsOf accepts taker = []) := by
  rcases List.append_of_mem member with ⟨before, after, rfl⟩
  rcases (converted_iff distinct).mp removed with ⟨taken, empty, earlier⟩
  refine ⟨empty, ?_⟩
  have own : takers domainpath (file :: after) (username file.name) =
      file :: takers domainpath after (username file.name) := by
    rw [takers, List.filter_cons_of_pos]
    · rfl
    · rw [taken, decide_eq_true rfl]
      rfl
  rw [takers_append, own]
  cases front : takers domainpath before (username file.name) with
  | nil => exact ⟨file, _, rfl, .inl rfl⟩
  | cons head rest =>
      refine ⟨head, _, rfl, .inr ⟨List.mem_append_right _ List.mem_cons_self, ?_⟩⟩
      exact earlier head (front ▸ List.mem_cons_self)

/-- The state that the walk along the files leaves. -/
def migrated (domainpath : List Char) (accepts : List Char → Nat → Bool) (files : List DotQmail)
    (rows : AliasRows) : State :=
  ⟨(migrate domainpath accepts files rows).1, (migrate domainpath accepts files rows).2⟩

/-- A file that is converted, and loses nothing, has its lines in the table. -/
theorem LosesNothing.lines {file : DotQmail}
    (kept : LosesNothing accepts files (migrated domainpath accepts files rows))
    (member : file ∈ files) (taken : takes domainpath file = true)
    (removed : file ∉ (migrate domainpath accepts files rows).1) :
    (migrate domainpath accepts files rows).2 (username file.name) = fileLines file.text ∧
      ∀ linecount < (linesRead file.text).length, accepts file.name linecount = true := by
  have candidate := isCandidate_of_takes taken
  have plain : isList file.text = false := by
    rw [Bool.eq_false_iff]
    exact fun list => removed (kept.lists file member candidate list).1
  refine ⟨kept.converted file member candidate plain removed, fun linecount inside => ?_⟩
  rw [← Bool.not_eq_false]
  exact fun refused => removed (kept.refused file member candidate plain ⟨linecount, inside, refused⟩)

theorem LosesNothing.sound (distinct : files.Nodup)
    (kept : LosesNothing accepts files (migrated domainpath accepts files rows))
    (aliasName : List Char) : Sound domainpath accepts files rows aliasName := by
  -- Without rows at the end, every file that is converted was empty.
  have all_empty (empty : rows aliasName = [])
      (final : (migrate domainpath accepts files rows).2 aliasName = []) :
      ∀ taker ∈ takers domainpath files aliasName, taker.text = [] := by
    intro taker member
    have none_made : firstRows accepts (takers domainpath files aliasName) = [] :=
      (migrate_rows empty).symm.trans final
    have removed := not_mem_migrate_of_firstRows distinct empty none_made member
    rcases mem_takers.mp member with ⟨inside, taken, rfl⟩
    have lines := (kept.lines inside taken removed).1
    rw [final] at lines
    exact fileLines_eq_nil_iff.mp lines.symm
  constructor
  · rintro file member candidate list rfl
    have final := (kept.lists file member candidate list).2
    have empty : rows (username file.name) = [] := by
      by_contra present
      exact present ((migrate_rows_present present).symm.trans final)
    exact ⟨empty, all_empty empty final⟩
  · intro empty taker others first
    have removed : taker ∉ (migrate domainpath accepts files rows).1 :=
      not_mem_migrate_first distinct empty first
    have member : taker ∈ takers domainpath files aliasName := first ▸ List.mem_cons_self
    rcases mem_takers.mp member with ⟨inside, taken, rfl⟩
    rcases kept.lines inside taken removed with ⟨lines, accepted⟩
    have rows_eq := rowsOf_of_accepted accepted
    have final : (migrate domainpath accepts files rows).2 (username taker.name) =
        firstRows accepts (takers domainpath files (username taker.name)) := migrate_rows empty
    rw [first, firstRows_cons] at final
    rcases Classical.em (taker.text = []) with bare | written
    · have stored : Storable accepts taker := by
        refine ⟨?_, ?_, accepted⟩
        · rw [bare]
          exact free_nil nul
        · rw [bare]
          intro line member
          cases member
      refine ⟨stored, fun _ other later => ?_⟩
      have nothing : (migrate domainpath accepts files rows).2 (username taker.name) = [] := by
        rw [lines, bare]
        rfl
      exact all_empty empty nothing other (first ▸ List.mem_cons_of_mem _ later)
    · have some_lines : linesRead taker.text ≠ [] := by
        intro none_read
        have flat := fgetsLoop_flatten (show 1 < maxAliasLine by decide) taker.text
        rw [linesRead] at none_read
        rw [none_read] at flat
        exact written flat.symm
      have made : rowsOf accepts taker ≠ [] := by
        rw [rows_eq]
        exact fun none_made => some_lines (List.map_eq_nil_iff.mp none_made)
      rw [if_neg made, lines, rows_eq] at final
      rcases (map_storedLine_iff taker.text).mp final.symm with ⟨plain, fits⟩
      exact ⟨⟨plain, fits, accepted⟩, fun bare => absurd bare written⟩

/-- What a removed file has in the table, when the files of its alias are sound. -/
theorem Sound.removed (distinct : files.Nodup) {file : DotQmail} (member : file ∈ files)
    (sound : Sound domainpath accepts files rows (username file.name))
    (removed : file ∉ (migrate domainpath accepts files rows).1) :
    Storable accepts file ∧
      (migrate domainpath accepts files rows).2 (username file.name) = fileLines file.text := by
  rcases exists_first_of_not_mem distinct member removed with ⟨empty, taker, others, first, place⟩
  rcases sound.first empty taker others first with ⟨storable, bare_others⟩
  have final : (migrate domainpath accepts files rows).2 (username file.name) =
      firstRows accepts (takers domainpath files (username file.name)) := migrate_rows empty
  rw [first, firstRows_cons] at final
  have made := storable.rows
  rcases Classical.em (taker.text = []) with bare | written
  · have no_rows : firstRows accepts others = [] := by
      apply firstRows_eq_nil_iff.mpr
      exact fun other later => rowsOf_empty (bare_others bare other later)
    have file_bare : file.text = [] := by
      rcases place with rfl | ⟨later, _⟩
      · exact bare
      · exact bare_others bare file later
    rw [if_pos (rowsOf_empty bare), no_rows] at final
    rw [final, fileLines_eq_nil_iff.mpr file_bare]
    refine ⟨⟨?_, ?_, ?_⟩, rfl⟩
    · rw [file_bare]
      exact free_nil nul
    · rw [file_bare]
      intro line inside
      cases inside
    · rw [file_bare]
      intro linecount inside
      cases inside
  · have present : rowsOf accepts taker ≠ [] := by
      rw [made]
      exact fun none_made => written (fileLines_eq_nil_iff.mp none_made)
    rcases place with rfl | ⟨_, none_made⟩
    · rw [if_neg present, made] at final
      exact ⟨storable, final⟩
    · exact absurd none_made present

theorem losesNothing_of_sound (distinct : files.Nodup)
    (sound : ∀ aliasName, Sound domainpath accepts files rows aliasName) :
    LosesNothing accepts files (migrated domainpath accepts files rows) := by
  constructor
  · intro file member _ _ removed
    exact ((sound _).removed distinct member removed).2
  · intro file member _ _ ⟨linecount, inside, refused⟩
    by_contra removed
    have storable := ((sound _).removed distinct member removed).1
    rw [storable.accepted linecount inside] at refused
    cases refused
  · intro file member candidate list
    rcases (sound (username file.name)).lists file member candidate list rfl with
      ⟨empty, all_bare⟩
    have no_rows : firstRows accepts (takers domainpath files (username file.name)) = [] := by
      apply firstRows_eq_nil_iff.mpr
      exact fun taker inside => rowsOf_empty (all_bare taker inside)
    refine ⟨?_, (migrate_rows empty).trans no_rows⟩
    by_contra removed
    rcases List.append_of_mem member with ⟨before, after, rfl⟩
    have taken := ((converted_iff distinct).mp removed).1
    have bare := all_bare file (mem_takers.mpr ⟨member, taken, rfl⟩)
    rw [isList_empty bare] at list
    cases list

end Sound

/-! ## The domain -/

/-- `conv_domain` loses nothing exactly if, for every alias: when a file of a mailing list
goes by it, there were no rows for it, and the files of it that are converted are empty; and
when there were no rows for it, the first file of it that is converted has no NUL and no line
that does not fit `alias_line`, all its lines are accepted, and when it is empty, so are the
others. -/
theorem convDomain_losesNothing_iff (domain domainpath : List Char)
    (accepts : List Char → Nat → Bool) (files : List DotQmail) (rows : AliasRows)
    (distinct : (files.map DotQmail.name).Nodup) (uncut : Uncut domainpath files) :
    LosesNothing accepts files
        (convDomain (some (domain, domainpath)) true accepts domain ⟨files, rows⟩).2 ↔
      ∀ aliasName, Sound domainpath accepts files rows aliasName := by
  have run : (convDomain (some (domain, domainpath)) true accepts domain ⟨files, rows⟩).2 =
      migrated domainpath accepts files rows := by
    rw [convDomain]
    simp only [ne_eq, not_true_eq_false, if_false, Bool.not_true, Bool.false_eq_true]
    exact foldl_convEntry [] files rows distinct uncut
  rw [run]
  constructor
  · exact fun kept aliasName => kept.sound distinct.of_map aliasName
  · exact losesNothing_of_sound distinct.of_map

end Migration

/-! ## Sample domains -/

def infoFile : DotQmail := ⟨".qmail-info".toList, "&x@b.org\n&y@b.org".toList, true⟩

def listFile : DotQmail := ⟨".qmail-l".toList, "|/e/ezmlm-send l\n".toList, true⟩

def samplePath : List Char := "/v/a.org".toList

theorem uncut_of_fits {domainpath : List Char} {files : List DotQmail}
    (fits : ∀ file ∈ files, (pathOf domainpath file.name).length < maxBuff)
    (distinct : (files.map DotQmail.name).Nodup) : Uncut domainpath files := by
  intro file member _ other otherMember _ same
  rw [dotqmailFn_of_fits (fits file member)] at same
  exact List.inj_on_of_nodup_map distinct member otherMember (pathOf_injective same)

/-- An alias and a mailing list in an empty table that takes every line. -/
theorem convDomain_losesNothing_sample :
    LosesNothing (fun _ _ => true) [infoFile, listFile]
      (convDomain (some ("a.org".toList, samplePath)) true (fun _ _ => true) "a.org".toList
        ⟨[infoFile, listFile], fun _ => []⟩).2 := by
  have distinct : ([infoFile, listFile].map DotQmail.name).Nodup := by decide
  have uncut : Uncut samplePath [infoFile, listFile] := uncut_of_fits (by decide) distinct
  apply (convDomain_losesNothing_iff _ _ _ _ _ distinct uncut).mpr
  have only_info : ∀ file ∈ [infoFile, listFile], takes samplePath file = true →
      file = infoFile := by
    decide +kernel
  intro aliasName
  constructor
  · rintro file member _ list rfl
    have is_list : ∀ file ∈ [infoFile, listFile], isList file.text = true →
        username file.name = "l".toList := by
      decide +kernel
    refine ⟨rfl, fun taker inside => ?_⟩
    rcases mem_takers.mp inside with ⟨known, taken, named⟩
    have other : username infoFile.name ≠ "l".toList := by decide +kernel
    rw [is_list file member list, only_info taker known taken] at named
    exact absurd named other
  · intro _ taker others first
    have inside : taker ∈ takers samplePath [infoFile, listFile] aliasName :=
      first ▸ List.mem_cons_self
    rcases mem_takers.mp inside with ⟨known, taken, _⟩
    rw [only_info taker known taken]
    refine ⟨⟨by decide +kernel, by decide +kernel, fun _ _ => rfl⟩, fun bare => ?_⟩
    cases bare

/-- A file is removed although the table took none of its lines. -/
theorem convDomain_loses :
    ¬ ∀ (domain domainpath : List Char) (accepts : List Char → Nat → Bool)
        (files : List DotQmail) (rows : AliasRows), (files.map DotQmail.name).Nodup →
      Uncut domainpath files →
      LosesNothing accepts files
        (convDomain (some (domain, domainpath)) true accepts domain ⟨files, rows⟩).2 := by
  intro all
  have distinct : ([infoFile].map DotQmail.name).Nodup := by decide
  have kept := all "a.org".toList samplePath (fun _ _ => false) [infoFile] (fun _ => []) distinct
    (uncut_of_fits (by decide) distinct)
  have present := kept.refused infoFile (List.mem_singleton_self _) (by decide +kernel)
    (by decide +kernel) ⟨0, by decide +kernel, rfl⟩
  have removed : (convDomain (some ("a.org".toList, samplePath)) true (fun _ _ => false)
      "a.org".toList ⟨[infoFile], fun _ => []⟩).2.files = [] := by
    decide +kernel
  rw [removed] at present
  cases present

end Vpopmail.Dotqmail2valias
