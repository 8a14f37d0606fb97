import Vpopmail.ControlFiles

/-! # Removing domains from the control files

`del_control` leaves no line of the domains in `rcpthosts`, `morercpthosts` and
`virtualdomains` and keeps all others, when it looks where they are and knows
them all.
-/

namespace Vpopmail

open Text Vpopmail.Stream

/-! ## The lines of a file -/

/-- Every line of a file fits `remove_lines`'s buffer with its newline. -/
def Fits (file : Option (List Char)) : Prop :=
  ∀ line ∈ linesOf file, line.length + 1 < maxBuff

/-- No line of a file ends before its newline. -/
def Plain (file : Option (List Char)) : Prop := ∀ line ∈ linesOf file, Free nul line

theorem cstring_takeWhile (char : Char) (text : List Char) :
    (cstring text).takeWhile (· ≠ char) = cstring (text.takeWhile (· ≠ char)) := by
  rw [cstring, cstring, List.takeWhile_takeWhile, List.takeWhile_takeWhile]
  apply congrArg (List.takeWhile · text)
  funext head
  exact decide_eq_decide.mpr and_comm

theorem readLines_eq {file : Option (List Char)} (fits : Fits file) :
    readLines file = (linesOf file).map cstring := by
  have trimmed := fgetsLoop_trim (file.getD []) fits
  have trims : trimLine = fun chunk => cstring (chunk.takeWhile (· ≠ '\n')) := by
    funext chunk
    exact cstring_takeWhile '\n' chunk
  rw [readLines, trims, linesOf, ← trimmed, List.map_map]
  rfl

theorem map_cstring {lines : List (List Char)} (plain : ∀ line ∈ lines, Free nul line) :
    lines.map cstring = lines := by
  induction lines with
  | nil => rfl
  | cons line lines induction =>
      rw [List.map_cons, cstring_of_free (plain line List.mem_cons_self),
        induction fun other member => plain other (List.mem_cons_of_mem _ member)]

theorem free_of_mem_readLines {file : Option (List Char)} {line : List Char}
    (member : line ∈ readLines file) : Free '\n' line := by
  rcases List.mem_map.mp member with ⟨chunk, -, rfl⟩
  exact free_takeWhile_ne '\n' _

theorem plain_of_mem_readLines {file : Option (List Char)} {line : List Char}
    (member : line ∈ readLines file) : Free nul line := by
  rcases List.mem_map.mp member with ⟨chunk, -, rfl⟩
  rw [trimLine, cstring_takeWhile]
  exact free_takeWhile_ne nul _

theorem linesOf_printLines {lines : List (List Char)} (free : ∀ line ∈ lines, Free '\n' line) :
    linesOf (some (printLines lines)) = lines := fileLines_flatMap free

/-! ## What becomes of one file -/

/-- The lines that are looked for are gone, and the others are kept in their order. -/
def Removed (targets : List (List Char)) (before after : Option (List Char)) : Prop :=
  linesOf after = (linesOf before).filter (· ∉ targets)

theorem Removed.gone {targets : List (List Char)} {before after : Option (List Char)}
    (removed : Removed targets before after) {target : List Char} (member : target ∈ targets) :
    target ∉ linesOf after := by
  rw [removed, List.mem_filter]
  rintro ⟨-, other⟩
  simp [member] at other

theorem removed_self_iff {targets : List (List Char)} {file : Option (List Char)} :
    Removed targets file file ↔ ∀ target ∈ targets, target ∉ linesOf file := by
  rw [Removed, eq_comm, List.filter_eq_self]
  constructor
  · intro others target wanted line
    simpa [wanted] using others target line
  · intro none line member
    simpa using fun wanted => none line wanted member

theorem linesOf_removeLines (aliases : List (List Char)) (file : Option (List Char)) :
    linesOf (removeLines .opened aliases file).2 = (readLines file).filter (· ∉ aliases) := by
  apply linesOf_printLines
  intro line member
  exact free_of_mem_readLines (List.mem_of_mem_filter member)

/-- Removing some lines of a file removes exactly the ones that are wanted when it removes
all of those that it holds, and when no line ends before its newline. -/
theorem removed_removeLines_iff {used targets : List (List Char)} {file : Option (List Char)}
    (fits : Fits file) (plain : ∀ target ∈ targets, Free nul target)
    (inside : ∀ line ∈ used, line.length + 1 < maxBuff → line ∈ targets) :
    Removed targets file (removeLines .opened used file).2 ↔
      Plain file ∧ ∀ target ∈ targets, target ∈ linesOf file → target ∈ used := by
  rw [Removed, linesOf_removeLines]
  constructor
  · intro same
    have kept : Plain file := by
      intro line member
      by_contra cut
      have other : line ∉ targets := fun wanted => cut (plain line wanted)
      have after : line ∈ (readLines file).filter (· ∉ used) := by
        rw [same, List.mem_filter]
        exact ⟨member, by simpa using other⟩
      exact cut (plain_of_mem_readLines (List.mem_of_mem_filter after))
    refine ⟨kept, ?_⟩
    intro target wanted member
    by_contra missed
    have after : target ∈ (readLines file).filter (· ∉ used) := by
      rw [readLines_eq fits, map_cstring kept, List.mem_filter]
      exact ⟨member, by simpa using missed⟩
    rw [same, List.mem_filter] at after
    simp [wanted] at after
  · rintro ⟨kept, all⟩
    rw [readLines_eq fits, map_cstring kept]
    apply List.filter_congr
    intro line member
    simp only [decide_not, Bool.not_eq_eq_eq_not, Bool.not_not, decide_eq_decide]
    exact ⟨fun removed => inside line removed (fits line member),
      fun wanted => all line wanted member⟩

/-- The same where the file may not be opened. -/
theorem removed_removeLines_self_iff (access : FileAccess) {names : List (List Char)}
    {file : Option (List Char)} (fits : Fits file) (plain : ∀ name ∈ names, Free nul name) :
    Removed names file (removeLines access names file).2 ↔
      (access = .opened → Plain file) ∧
      (access ≠ .opened → ∀ name ∈ names, name ∉ linesOf file) := by
  cases access with
  | opened =>
      rw [removed_removeLines_iff fits plain fun line member _ => member]
      constructor
      · rintro ⟨kept, -⟩
        exact ⟨fun _ => kept, fun other => absurd rfl other⟩
      · rintro ⟨kept, -⟩
        exact ⟨kept rfl, fun name member _ => member⟩
  | locked => simp [removeLines, removed_self_iff]
  | unavailable => simp [removeLines, removed_self_iff]

theorem removeLines_eq_neg_one_iff (access : FileAccess) (names : List (List Char))
    (file : Option (List Char)) :
    (removeLines access names file).1 = -1 ↔ access = .locked := by
  cases access with
  | opened =>
      simp only [removeLines, reduceCtorEq]
  | locked => simp [removeLines]
  | unavailable => simp [removeLines, vaCouldNotUpdateFile]

theorem removeLines_neg_iff (access : FileAccess) (names : List (List Char))
    (file : Option (List Char)) :
    (removeLines access names file).1 < 0 ↔ access ≠ .opened := by
  cases access with
  | opened =>
      simp only [removeLines, ne_eq, not_true_eq_false, iff_false]
      omega
  | locked => simp [removeLines]
  | unavailable => simp [removeLines, vaCouldNotUpdateFile]

theorem removeLines_eq_zero_iff (access : FileAccess) (names : List (List Char))
    (file : Option (List Char)) :
    (removeLines access names file).1 = 0 ↔
      access = .opened ∧ ∀ name ∈ names, name ∉ readLines file := by
  cases access with
  | opened =>
      simp only [removeLines, Int.natCast_eq_zero, List.countP_eq_zero, decide_eq_true_eq,
        true_and]
      exact ⟨fun none name wanted line => none name line wanted,
        fun none name line wanted => none name wanted line⟩
  | locked => simp [removeLines]
  | unavailable => simp [removeLines, vaCouldNotUpdateFile]

/-! ## What becomes of all files -/

/-- `morercpthosts` is only searched when nothing was found in `rcpthosts`. -/
def Consulted (access : ControlAccess) (names : List (List Char)) (files : Qmail) : Prop :=
  access.rcpthosts = .opened ∧ ∀ name ∈ names, name ∉ readLines files.rcpthosts

theorem linesOf_morercpthostsRemoved (removed : Int) (file : Option (List Char)) :
    linesOf (morercpthostsRemoved removed file).1 = linesOf file := by
  rw [morercpthostsRemoved]
  split
  · rfl
  · split
    · split
      · next empty => rw [empty, linesOf, linesOf]; rfl
      · rfl
    · rfl

theorem delControl_rcpthosts (access : ControlAccess) (names : List (List Char))
    (files : Qmail) :
    (delControl access names files).2.rcpthosts =
      (removeLines access.rcpthosts names files.rcpthosts).2 := by
  simp only [delControl]
  split
  · rfl
  · split <;> rfl

theorem delControl_virtualdomains (access : ControlAccess) (names : List (List Char))
    (files : Qmail) :
    (delControl access names files).2.virtualdomains =
      (removeLines access.virtualdomains
        (kept 10 (names.map fun name => snprintf maxBuff (virtualLine name)))
        files.virtualdomains).2 := by
  simp only [delControl, stringListOf_ten]
  split
  · rfl
  · split <;> rfl

theorem delControl_morercpthosts (access : ControlAccess) (names : List (List Char))
    (files : Qmail) :
    (Consulted access names files →
      linesOf (delControl access names files).2.morercpthosts =
        linesOf (removeLines access.morercpthosts names files.morercpthosts).2) ∧
    (¬ Consulted access names files →
      (delControl access names files).2.morercpthosts = files.morercpthosts) := by
  simp only [delControl, Consulted, ← removeLines_eq_zero_iff]
  constructor
  · intro none
    rw [if_neg (by omega), if_pos none]
    exact linesOf_morercpthostsRemoved _ _
  · intro found
    rw [if_neg found]
    split <;> rfl

theorem morercpthostsRemoved_problem (removed : Int) (file : Option (List Char)) :
    (morercpthostsRemoved removed file).2 = decide (removed = -1) := by
  rw [morercpthostsRemoved]
  split
  · next failed => simp [failed]
  · next done => split <;> simp [done]

theorem delControl_eq_zero_iff {access : ControlAccess} {names : List (List Char)}
    {files : Qmail} :
    (delControl access names files).1 = 0 ↔
      access.rcpthosts ≠ .locked ∧
      ¬ (Consulted access names files ∧ access.morercpthosts = .locked) ∧
      access.virtualdomains = .opened := by
  rw [Consulted, ← removeLines_eq_zero_iff access.rcpthosts names files.rcpthosts, ne_eq,
    ← removeLines_eq_neg_one_iff access.rcpthosts names files.rcpthosts,
    ← removeLines_eq_neg_one_iff access.morercpthosts names files.morercpthosts]
  simp only [delControl, stringListOf_ten, removeLines_neg_iff, morercpthostsRemoved_problem]
  split
  · next locked => simp [locked]
  · next searchable =>
      split
      · next none => simp [none]
      · next found => simp [found, searchable]

/-! ## Complete and exact removal -/

/-- The names are gone from all three files, with all other lines kept. -/
structure NamesRemoved (names : List (List Char)) (before after : Qmail) : Prop where
  rcpthosts : Removed names before.rcpthosts after.rcpthosts
  morercpthosts : Removed names before.morercpthosts after.morercpthosts
  virtualdomains :
    Removed (names.map virtualLine) before.virtualdomains after.virtualdomains

/-- Where the names have to be for `del_control` to remove them. -/
structure Removable (access : ControlAccess) (names : List (List Char)) (files : Qmail) :
    Prop where
  rcpthosts : (access.rcpthosts = .opened → Plain files.rcpthosts) ∧
    (access.rcpthosts ≠ .opened → ∀ name ∈ names, name ∉ linesOf files.rcpthosts)
  morercpthosts :
    (Consulted access names files ∧ access.morercpthosts = .opened →
      Plain files.morercpthosts) ∧
    (¬ (Consulted access names files ∧ access.morercpthosts = .opened) →
      ∀ name ∈ names, name ∉ linesOf files.morercpthosts)
  virtualdomains : Plain files.virtualdomains ∧
    ∀ name ∈ names, virtualLine name ∈ linesOf files.virtualdomains → name ∈ kept 10 names

theorem virtualLine_length (name : List Char) :
    (virtualLine name).length = 2 * name.length + 1 := by
  rw [virtualLine, List.length_append, List.length_cons]
  omega

theorem virtualLine_injective {name other : List Char}
    (same : virtualLine name = virtualLine other) : name = other := by
  have lengths := congrArg List.length same
  rw [virtualLine_length, virtualLine_length] at lengths
  exact List.append_inj_left same (by omega)

theorem free_virtualLine {name : List Char} (plain : Free nul name) :
    Free nul (virtualLine name) := by
  intro member
  rcases List.mem_append.mp member with own | rest
  · exact plain own
  · rcases List.mem_cons.mp rest with colon | own
    · cases colon
    · exact plain own

/-- A line that fits the buffer and is a shortened `virtualdomains` line is not shortened. -/
theorem eq_of_snprintf_fits {size : Nat} {text line : List Char}
    (fits : line.length + 1 < size) (printed : snprintf size text = line) : text = line := by
  have length := congrArg List.length printed
  rw [snprintf, List.length_take] at length
  rw [← printed, snprintf, List.take_of_length_le (by omega)]

theorem snprintf_of_fits {size : Nat} {text : List Char} (fits : text.length + 1 < size) :
    snprintf size text = text := List.take_of_length_le (by omega)

theorem removed_virtualdomains_iff {names : List (List Char)} {file : Option (List Char)}
    (fits : Fits file) (plain : ∀ name ∈ names, Free nul name) :
    Removed (names.map virtualLine) file
      (removeLines .opened
        (kept 10 (names.map fun name => snprintf maxBuff (virtualLine name))) file).2 ↔
      Plain file ∧
      ∀ name ∈ names, virtualLine name ∈ linesOf file → name ∈ kept 10 names := by
  rw [kept_map, removed_removeLines_iff fits]
  · apply and_congr_right
    intro _
    constructor
    · intro all name member line
      rcases List.mem_map.mp (all _ (List.mem_map_of_mem member) line) with
        ⟨other, listed, printed⟩
      have same := eq_of_snprintf_fits (fits _ line) printed
      rwa [← virtualLine_injective same]
    · intro all target member line
      rcases List.mem_map.mp member with ⟨name, wanted, rfl⟩
      exact List.mem_map.mpr ⟨name, all name wanted line, snprintf_of_fits (fits _ line)⟩
  · intro target member
    rcases List.mem_map.mp member with ⟨name, wanted, rfl⟩
    exact free_virtualLine (plain name wanted)
  · intro line member short
    rcases List.mem_map.mp member with ⟨name, listed, printed⟩
    rw [← eq_of_snprintf_fits short printed]
    exact List.mem_map_of_mem (mem_of_mem_kept listed)

theorem removed_morercpthosts_iff (access : ControlAccess) {names : List (List Char)}
    {files : Qmail} (fits : Fits files.morercpthosts)
    (plain : ∀ name ∈ names, Free nul name) :
    Removed names files.morercpthosts (delControl access names files).2.morercpthosts ↔
      (Consulted access names files ∧ access.morercpthosts = .opened →
        Plain files.morercpthosts) ∧
      (¬ (Consulted access names files ∧ access.morercpthosts = .opened) →
        ∀ name ∈ names, name ∉ linesOf files.morercpthosts) := by
  rcases delControl_morercpthosts access names files with ⟨searched, ignored⟩
  rcases Classical.em (Consulted access names files) with consulted | ignores
  · simp only [consulted, true_and]
    rw [Removed, searched consulted, ← Removed]
    exact removed_removeLines_self_iff access.morercpthosts fits plain
  · simp only [ignores, false_and, false_implies, true_and, not_false_eq_true, true_implies]
    rw [ignored ignores]
    exact removed_self_iff

theorem delControl_assign (access : ControlAccess) (names : List (List Char)) (files : Qmail) :
    (delControl access names files).2.assign = files.assign := by
  simp only [delControl]
  split
  · rfl
  · split <;> rfl

/-- After a success of `del_control` the names are gone and all other lines kept exactly
when the names are where it looks. -/
theorem delControl_removes_iff (access : ControlAccess) (names : List (List Char))
    (files : Qmail) (plain : ∀ name ∈ names, Free nul name) (rcpthosts : Fits files.rcpthosts)
    (morercpthosts : Fits files.morercpthosts) (virtualdomains : Fits files.virtualdomains) :
    ((delControl access names files).1 = 0 →
      NamesRemoved names files (delControl access names files).2) ↔
    (access.rcpthosts = .locked ∨
      (Consulted access names files ∧ access.morercpthosts = .locked) ∨
      access.virtualdomains ≠ .opened ∨ Removable access names files) := by
  have parts : access.virtualdomains = .opened →
      (NamesRemoved names files (delControl access names files).2 ↔
        Removable access names files) := by
    intro opened
    have first := removed_removeLines_self_iff access.rcpthosts rcpthosts plain
    have second := removed_morercpthosts_iff access morercpthosts plain
    have third := removed_virtualdomains_iff virtualdomains plain
    rw [← delControl_rcpthosts access] at first
    rw [← opened, ← delControl_virtualdomains access] at third
    constructor
    · rintro ⟨rcpt, more, virtual⟩
      exact ⟨first.mp rcpt, second.mp more, third.mp virtual⟩
    · rintro ⟨rcpt, more, virtual⟩
      exact ⟨first.mpr rcpt, second.mpr more, third.mpr virtual⟩
  rw [delControl_eq_zero_iff]
  constructor
  · intro complete
    by_contra others
    simp only [not_or, ne_eq, Classical.not_not] at others
    rcases others with ⟨unlocked, second, opened, missed⟩
    exact missed ((parts opened).mp (complete ⟨unlocked, second, opened⟩))
  · rintro (locked | locked | closed | removable) ⟨unlocked, second, opened⟩
    · exact absurd locked unlocked
    · exact absurd locked second
    · exact absurd opened closed
    · exact (parts opened).mpr removable

/-- Two domains whose lines are in different files. -/
def spreadFiles : Qmail where
  assign := none
  rcpthosts := some ['a', '\n', 'c', '\n']
  morercpthosts := some ['b', '\n', 'd', '\n']
  virtualdomains := some ['a', ':', 'a', '\n', 'b', ':', 'b', '\n']
  locals := none

theorem delControl_removes_spread :
    (∀ name ∈ [['a'], ['b']], Free nul name) ∧ Fits spreadFiles.rcpthosts ∧
    Fits spreadFiles.morercpthosts ∧ Fits spreadFiles.virtualdomains ∧
    (((delControl ⟨.opened, .opened, .opened⟩ [['a'], ['b']] spreadFiles).1 = 0 →
      NamesRemoved [['a'], ['b']] spreadFiles
        (delControl ⟨.opened, .opened, .opened⟩ [['a'], ['b']] spreadFiles).2) ↔
    (FileAccess.opened = .locked ∨
      (Consulted ⟨.opened, .opened, .opened⟩ [['a'], ['b']] spreadFiles ∧
        FileAccess.opened = .locked) ∨
      FileAccess.opened ≠ .opened ∨
      Removable ⟨.opened, .opened, .opened⟩ [['a'], ['b']] spreadFiles)) :=
  have plain : ∀ name ∈ [['a'], ['b']], Free nul name := by unfold Free; decide
  have rcpthosts : Fits spreadFiles.rcpthosts := by unfold Fits; decide
  have morercpthosts : Fits spreadFiles.morercpthosts := by unfold Fits; decide
  have virtualdomains : Fits spreadFiles.virtualdomains := by unfold Fits; decide
  ⟨plain, rcpthosts, morercpthosts, virtualdomains,
    delControl_removes_iff ⟨.opened, .opened, .opened⟩ _ _ plain rcpthosts morercpthosts
      virtualdomains⟩

/-- A domain that is in `morercpthosts` stays there when another one is in `rcpthosts`. -/
theorem not_delControl_removes :
    ¬ ∀ (access : ControlAccess) (names : List (List Char)) (files : Qmail),
      (∀ name ∈ names, Free nul name) → Fits files.rcpthosts → Fits files.morercpthosts →
      Fits files.virtualdomains → (delControl access names files).1 = 0 →
      NamesRemoved names files (delControl access names files).2 := by
  intro complete
  have removed := complete ⟨.opened, .opened, .opened⟩ [['a'], ['b']] spreadFiles
    (by unfold Free; decide) (by unfold Fits; decide) (by unfold Fits; decide)
    (by unfold Fits; decide) (by decide)
  have gone : ['b'] ∉ linesOf (delControl ⟨.opened, .opened, .opened⟩ [['a'], ['b']]
      spreadFiles).2.morercpthosts :=
    removed.morercpthosts.gone (by decide)
  exact gone (by decide)

end Vpopmail
