import Mathlib.Data.List.Count
import Vpopmail.AliasRemoval
import Vpopmail.ControlRemoval
import Vpopmail.Foundation.Execution

/-! # Enumerating the aliases of a domain

The iterator of `vpalias_select_all` goes on to the next alias at the end of a file, and
stops at a file without lines. So an enumeration is complete as long as no alias has lost
its last line, and every line fits the buffer with its newline.
-/

namespace Vpopmail

open Text Vpopmail.Stream Execution

/-! ## Runs -/

/-- The file of an alias, whose name has colons for periods. -/
def aliasFile (dir fileName : List Char) : List Char := dir ++ '/' :: qmailPrefix ++ fileName

def defaultName : List Char := defaultSuffix.drop 1

inductive AliasOperation
  | insert (aliasName aliasLine : List Char)
  | remove (aliasName aliasLine : List Char)
  | delete (aliasName : List Char)

def AliasOperation.aliasName : AliasOperation → List Char
  | insert aliasName _ => aliasName
  | remove aliasName _ => aliasName
  | delete aliasName => aliasName

/-- A call for the domain. A slash in a name leads to a directory that is not there, so that
nothing can be opened. -/
def AliasStep (lookup : DomainLookup) (domain : List Char) (before : Files)
    (operation : AliasOperation) (after : Files) : Prop :=
  ∃ (opens : Bool) (result : Int), (opens = true → Free '/' operation.aliasName) ∧
    match operation with
    | .insert aliasName aliasLine => Free nul aliasLine ∧
        vpaliasInsert lookup opens aliasName domain aliasLine before = (result, after)
    | .remove aliasName aliasLine => Free nul aliasLine ∧
        vpaliasRemove lookup opens aliasName domain aliasLine before = (result, after)
    | .delete aliasName => vpaliasDelete lookup aliasName domain before = (result, after)

/-- No alias has a file, but for the default one. -/
def NoAliases (dir : List Char) (files : Files) : Prop :=
  ∀ fileName, fileName ≠ defaultName → files (aliasFile dir fileName) = none

/-- What the directory has. -/
structure Lists (dir : List Char) (files : Files) (entries : List DirEntry) : Prop where
  nodup : (entries.map DirEntry.name).Nodup
  slash : ∀ entry ∈ entries, Free '/' entry.name
  entry : ∀ fileName, Free '/' fileName →
    (qmailPrefix ++ fileName ∈ entries.map DirEntry.name ↔
      (files (aliasFile dir fileName)).isSome)
  regular : ∀ entry ∈ entries, qmailPrefix <+: entry.name → entry.isLink = false

/-! ## The condition -/

/-- The line fits the buffer of an enumeration with its newline. -/
structure AliasText (aliasLine : List Char) : Prop where
  newline : Free '\n' aliasLine
  plain : Free nul aliasLine
  fits : aliasLine.length + 1 < maxAliasLine

/-- The path of a new alias and its line fit their buffers, and a removal leaves a line. -/
def AliasMeets (dir : List Char) (before : Files) : AliasOperation → Prop
  | .insert aliasName aliasLine => (aliasFile dir aliasName).length < maxFileSize ∧
      Free '\n' aliasLine ∧ aliasLine.length + 1 < maxAliasLine
  | .remove aliasName aliasLine => Free '\n' aliasLine ∧
      ((before (aliasPath dir aliasName)).isSome →
        ∃ line ∈ linesOf (before (aliasPath dir aliasName)), ¬ aliasLine <+: line)
  | .delete _ => True

structure MeetingAliasStep (lookup : DomainLookup) (domain dir : List Char) (before : Files)
    (operation : AliasOperation) (after : Files) : Prop where
  step : AliasStep lookup domain before operation after
  meets : AliasMeets dir before operation

/-! ## The property -/

/-- Every line of every alias is there as often as in the file. -/
structure Complete (dir : List Char) (files : Files)
    (pairs : List (List Char × List Char)) : Prop where
  counts : ∀ fileName, Free '/' fileName → Free '.' fileName → fileName ≠ defaultName →
    ∀ line, pairs.count (fileName.map periodOfColon, line) =
      (linesOf (files (aliasFile dir fileName))).count line
  only : ∀ pair ∈ pairs, ∃ fileName, Free '/' fileName ∧ Free '.' fileName ∧
    fileName ≠ defaultName ∧ pair.1 = fileName.map periodOfColon

/-! ## The invariant -/

/-- A text of some lines that fit. -/
def AliasLines (text : List Char) : Prop :=
  ∃ lines, lines ≠ [] ∧ (∀ line ∈ lines, AliasText line) ∧ text = printLines lines

/-- What the calls have made of the alias files. -/
structure AliasesKept (dir : List Char) (files : Files) : Prop where
  file : ∀ fileName text, fileName ≠ defaultName →
    files (aliasFile dir fileName) = some text →
    fileName.length ≤ maxPwName ∧ Free '.' fileName ∧
      (aliasFile dir fileName).length < maxFileSize ∧ AliasLines text

section Names

variable {dir : List Char}

theorem free_colonOfPeriod (text : List Char) : Free '.' (text.map colonOfPeriod) := by
  intro member
  rcases List.mem_map.mp member with ⟨char, -, equal⟩
  rw [colonOfPeriod] at equal
  split at equal
  · cases equal
  · next other => exact other equal

theorem colonOfPeriod_periodOfColon {fileName : List Char} (free : Free '.' fileName) :
    (fileName.map periodOfColon).map colonOfPeriod = fileName := by
  induction fileName with
  | nil => rfl
  | cons head tail induction =>
      rw [free_cons] at free
      rw [List.map_cons, List.map_cons, induction free.2]
      apply congrArg (· :: tail)
      rw [periodOfColon]
      split
      · next colon =>
          rw [colon]
          rfl
      · rw [colonOfPeriod, if_neg (Ne.symm free.1)]

theorem aliasFile_injective {fileName other : List Char}
    (same : aliasFile dir fileName = aliasFile dir other) : fileName = other :=
  List.append_cancel_left same

theorem aliasPath_eq {aliasName : List Char}
    (fits : (aliasFile dir aliasName).length < maxFileSize) :
    aliasPath dir aliasName = aliasFile dir (aliasName.map colonOfPeriod) := by
  have same : (aliasFile dir (aliasName.map colonOfPeriod)).length =
      (aliasFile dir aliasName).length := by
    simp [aliasFile]
  apply List.take_of_length_le
  rw [← same] at fits
  exact Nat.le_pred_of_lt fits

end Names

/-! ## Lines -/

section Lines

variable {lines : List (List Char)} {line text : List Char}

theorem linesOf_aliasLines (fit : ∀ line ∈ lines, AliasText line) :
    linesOf (some (printLines lines)) = lines :=
  linesOf_printLines fun line member => (fit line member).newline

theorem printLines_append_line (lines : List (List Char)) (line : List Char) :
    printLines lines ++ line ++ ['\n'] = printLines (lines ++ [line]) := by
  simp [printLines]

/-- Of lines that fit, those that begin with the text are dropped. -/
theorem copyLines_printLines (newline : Free '\n' text) (fit : ∀ line ∈ lines, AliasText line) :
    copyLines text (printLines lines) = printLines (lines.filter fun line => ¬ text <+: line) := by
  induction lines with
  | nil => rfl
  | cons line lines induction =>
      have own := fit line List.mem_cons_self
      have later := induction fun other member => fit other (List.mem_cons_of_mem line member)
      have inside : line.length < chunkSize := by
        have fits := own.fits
        simp only [maxAliasLine] at fits
        simp only [chunkSize, lineBufSize]
        omega
      have copied := copyLines_short own.newline own.plain newline inside (.inr rfl)
        (List.append_ne_nil_of_right_ne_nil line (List.cons_ne_nil '\n' []))
      have first : printLines (line :: lines) = line ++ '\n' :: printLines lines := by
        simp [printLines]
      rw [first, copyLines_append_newline own.newline, copied, later]
      rcases Classical.em (text <+: line) with front | other
      · rw [if_pos front, List.filter_cons_of_neg (by simpa using front), List.nil_append]
      · rw [if_neg other, List.filter_cons_of_pos (by simpa using other)]
        simp [printLines]

end Lines

/-! ## Steps -/

section Steps

variable {lookup : DomainLookup} {domain realDomain dir : List Char} {before after : Files}
  (found : lookup domain = some (realDomain, dir))

theorem AliasesKept.update (kept : AliasesKept dir before) {path : List Char}
    {file : Option (List Char)}
    (own : ∀ fileName text, fileName ≠ defaultName → path = aliasFile dir fileName →
      file = some text → fileName.length ≤ maxPwName ∧ Free '.' fileName ∧
        (aliasFile dir fileName).length < maxFileSize ∧ AliasLines text) :
    AliasesKept dir (Function.update before path file) := by
  constructor
  intro fileName text named present
  rcases Classical.em (aliasFile dir fileName = path) with same | other
  · rw [same, Function.update_self] at present
    exact own fileName text named same.symm present
  · rw [Function.update_of_ne other] at present
    exact kept.file fileName text named present

theorem length_of_aliasLineCode {aliasName aliasLine : List Char}
    (passed : aliasLineCode aliasName domain aliasLine = none) :
    aliasName.length ≤ maxPwName := by
  rw [aliasLineCode] at passed
  cases names : aliasNamesCode aliasName domain with
  | some code =>
      rw [names] at passed
      cases passed
  | none =>
      rw [aliasNamesCode] at names
      split at names
      · cases names
      · next short => exact Nat.not_lt.mp short

theorem AliasLines.append {text aliasLine : List Char} (old : AliasLines text)
    (line : AliasText aliasLine) : AliasLines (text ++ aliasLine ++ ['\n']) := by
  rcases old with ⟨lines, -, fit, rfl⟩
  refine ⟨lines ++ [aliasLine], by simp, ?_, printLines_append_line lines aliasLine⟩
  intro other member
  rcases List.mem_append.mp member with inside | last
  · exact fit other inside
  · exact List.mem_singleton.mp last ▸ line

theorem aliasLines_single {aliasLine : List Char} (line : AliasText aliasLine) :
    AliasLines (aliasLine ++ ['\n']) := by
  refine ⟨[aliasLine], by simp, ?_, by simp [printLines]⟩
  intro other member
  exact List.mem_singleton.mp member ▸ line

include found

theorem AliasesKept.insert (kept : AliasesKept dir before) {opens : Bool}
    {aliasName aliasLine : List Char} {result : Int}
    (fits : (aliasFile dir aliasName).length < maxFileSize) (line : AliasText aliasLine)
    (ran : vpaliasInsert lookup opens aliasName domain aliasLine before = (result, after)) :
    AliasesKept dir after := by
  rw [vpaliasInsert] at ran
  cases code : aliasLineCode aliasName domain aliasLine with
  | some code =>
      rw [code] at ran
      cases ran
      exact kept
  | none =>
      simp only [code, found] at ran
      cases opens with
      | false =>
          cases ran
          exact kept
      | true =>
          cases ran
          apply kept.update
          intro fileName text named path written
          rw [aliasPath_eq fits] at path written
          have name := aliasFile_injective path
          cases written
          refine ⟨?_, ?_, ?_, ?_⟩
          · rw [← name, List.length_map]
            exact length_of_aliasLineCode code
          · exact name ▸ free_colonOfPeriod aliasName
          · rw [← path]
            simpa [aliasFile] using fits
          · cases present : before (aliasFile dir (aliasName.map colonOfPeriod)) with
            | none => exact aliasLines_single line
            | some text =>
                rw [path] at present
                exact (kept.file fileName text named present).2.2.2.append line

theorem AliasesKept.remove (kept : AliasesKept dir before) {opens : Bool}
    {aliasName aliasLine : List Char} {result : Int} (newline : Free '\n' aliasLine)
    (left : (before (aliasPath dir aliasName)).isSome →
      ∃ line ∈ linesOf (before (aliasPath dir aliasName)), ¬ aliasLine <+: line)
    (ran : vpaliasRemove lookup opens aliasName domain aliasLine before = (result, after)) :
    AliasesKept dir after := by
  rw [vpaliasRemove] at ran
  cases code : aliasLineCode aliasName domain aliasLine with
  | some code =>
      rw [code] at ran
      cases ran
      exact kept
  | none =>
      simp only [code, found] at ran
      cases present : before (aliasPath dir aliasName) with
      | none =>
          simp only [present] at ran
          cases ran
          exact kept
      | some text =>
          simp only [present] at ran
          cases opens with
          | false =>
              cases ran
              exact kept
          | true =>
              cases ran
              have cleared : AliasesKept dir
                  (Function.update before (aliasPath dir aliasName ++ ['.', 'n', 'e', 'w']) none) := by
                apply kept.update
                intro _ _ _ _ none
                cases none
              apply cleared.update
              intro fileName written named path copied
              cases copied
              rw [path] at present left
              rcases kept.file fileName text named present with
                ⟨short, period, inside, lines, -, fit, rfl⟩
              refine ⟨short, period, inside, _, ?_, ?_, copyLines_printLines newline fit⟩
              · rw [present, linesOf_aliasLines fit] at left
                rcases left rfl with ⟨line, member, other⟩
                apply List.ne_nil_of_mem
                rw [List.mem_filter]
                exact ⟨member, by simpa using other⟩
              · exact fun line member => fit line (List.mem_of_mem_filter member)

theorem AliasesKept.delete (kept : AliasesKept dir before) {aliasName : List Char}
    {result : Int}
    (ran : vpaliasDelete lookup aliasName domain before = (result, after)) :
    AliasesKept dir after := by
  rw [vpaliasDelete] at ran
  cases code : aliasNamesCode aliasName domain with
  | some code =>
      rw [code] at ran
      cases ran
      exact kept
  | none =>
      simp only [code, found] at ran
      split at ran
      · cases ran
        exact kept.update fun _ _ _ _ none => nomatch none
      · cases ran
        exact kept

theorem aliasesKept_step {operation : AliasOperation} (kept : AliasesKept dir before)
    (step : MeetingAliasStep lookup domain dir before operation after) :
    AliasesKept dir after := by
  rcases step with ⟨⟨opens, result, slash, ran⟩, meets⟩
  cases operation with
  | insert aliasName aliasLine =>
      exact kept.insert found meets.1 ⟨meets.2.1, ran.1, meets.2.2⟩ ran.2
  | remove aliasName aliasLine => exact kept.remove found meets.1 meets.2 ran.2
  | delete aliasName => exact kept.delete found ran

end Steps

/-! ## The iterator -/

/-- The pairs of some aliases in turn. -/
def pairsOf (dir : List Char) (files : Files) (names : List (List Char)) :
    List (List Char × List Char) :=
  names.flatMap fun name => (linesOf (files (aliasPath dir name))).map fun line => (name, line)

/-- The file of an alias can be read. -/
def Readable (dir : List Char) (files : Files) (name : List Char) : Prop :=
  name.length ≤ maxPwName ∧ ∃ text, files (aliasPath dir name) = some text ∧ AliasLines text

section Iterator

variable {lookup : DomainLookup} {files : Files} {dir : List Char}

theorem vpaliasSelectNext_line {line : List Char} (fit : AliasText line)
    (lines : List (List Char)) (names : NameArray) (position : Nat)
    (domain : List Char) :
    vpaliasSelectNext ⟨some (printLines (line :: lines)), names, position, domain⟩ =
      (some line, ⟨some (printLines lines), names, position, domain⟩) := by
  have fits : (line ++ ['\n']).length < maxAliasLine := by
    rw [List.length_append, List.length_singleton]
    exact fit.fits
  have read := fgets_line (isLine_append_newline fit.newline) fits (printLines lines)
  have parts : printLines (line :: lines) = line ++ ['\n'] ++ printLines lines := by
    simp [printLines]
  have trimmed : trimLine (line ++ ['\n']) = line := by
    rw [trimLine, cstring_takeWhile, takeWhile_ne_append_cons fit.newline,
      cstring_of_free fit.plain]
  rw [parts]
  simp only [vpaliasSelectNext, read, trimmed]

/-- Selecting a readable alias gives its first line and leaves the others. -/
theorem vpaliasSelect_readable {domain realDomain name : List Char}
    (found : lookup domain = some (realDomain, dir)) (short : domain.length ≤ maxPwDomain)
    (readable : Readable dir files name) :
    ∃ line lines, AliasText line ∧ (∀ other ∈ lines, AliasText other) ∧
      linesOf (files (aliasPath dir name)) = line :: lines ∧
      ∀ aliasFs names position myDomain,
        vpaliasSelect lookup files name domain ⟨aliasFs, names, position, myDomain⟩ =
          (some line, realDomain, ⟨some (printLines lines), names, position, myDomain⟩) := by
  rcases readable with ⟨nameShort, text, present, lines, nonempty, fit, rfl⟩
  cases lines with
  | nil => exact absurd rfl nonempty
  | cons line lines =>
      have passed : (aliasNamesCode name domain).isSome = false := by
        rw [aliasNamesCode, if_neg (Nat.not_lt.mpr nameShort), if_neg (Nat.not_lt.mpr short)]
        rfl
      refine ⟨line, lines, fit line List.mem_cons_self,
        fun other member => fit other (List.mem_cons_of_mem line member), ?_, ?_⟩
      · rw [present, linesOf_aliasLines fit]
      · intro aliasFs names position myDomain
        simp only [vpaliasSelect, passed, Bool.false_eq_true, if_false, found, present,
          vpaliasSelectNext_line (fit line List.mem_cons_self)]

theorem vpaliasSelectAllNext_line {current line : List Char} (fit : AliasText line)
    (lines : List (List Char)) (names : NameArray) (position : Nat)
    (domain : List Char) :
    vpaliasSelectAllNext lookup files current
        ⟨some (printLines (line :: lines)), names, position, domain⟩ =
      (some (current, line), ⟨some (printLines lines), names, position, domain⟩) := by
  rw [vpaliasSelectAllNext, vpaliasSelectNext_line fit]

/-- The rest of an enumeration: the rest of the open file, and the files of the names that
remain. -/
theorem yieldsRest {domain : List Char} (found : lookup domain = some (domain, dir))
    (short : domain.length ≤ maxPwDomain) {names later lines : List (List Char)}
    {current : List Char} {position : Nat} (remain : names.drop position = later)
    (readable : ∀ name ∈ later, Readable dir files name)
    (fit : ∀ line ∈ lines, AliasText line) :
    YieldsRest lookup files current ⟨some (printLines lines), .array names, position, domain⟩
      ((lines.map fun line => (current, line)) ++ pairsOf dir files later) := by
  induction later generalizing lines current position with
  | nil =>
      induction lines with
      | nil =>
          apply YieldsRest.done
          have ended : names[position]? = none :=
            List.getElem?_eq_none (List.drop_eq_nil_iff.mp remain)
          have closed : printLines [] = [] := rfl
          simp only [vpaliasSelectAllNext, vpaliasSelectNext, closed, fgets,
            vpaliasSelectNamesNext, ended]
      | cons line lines more =>
          apply YieldsRest.more (vpaliasSelectAllNext_line (fit line List.mem_cons_self) _ _ _ _)
          exact more fun other member => fit other (List.mem_cons_of_mem line member)
  | cons name later induction =>
      induction lines with
      | nil =>
          have there : names[position]? = some name := by
            rw [← List.head?_drop, remain]
            rfl
          have behind : names.drop (position + 1) = later := by
            rw [← List.tail_drop, remain]
            rfl
          rcases vpaliasSelect_readable found short (readable name List.mem_cons_self) with
            ⟨line, lines, -, others, whole, selected⟩
          have closed : printLines [] = [] := rfl
          have next : vpaliasSelectAllNext lookup files current
              ⟨some (printLines []), .array names, position, domain⟩ =
              (some (name, line), ⟨some (printLines lines), .array names, position + 1, domain⟩) := by
            simp only [vpaliasSelectAllNext, vpaliasSelectNext, closed, fgets,
              vpaliasSelectNamesNext, there, selected, Option.map_some]
          rw [List.map_nil, List.nil_append, pairsOf, List.flatMap_cons, whole, List.map_cons,
            List.cons_append]
          apply YieldsRest.more next
          exact induction behind
            (fun other member => readable other (List.mem_cons_of_mem name member)) others
      | cons line lines more =>
          apply YieldsRest.more (vpaliasSelectAllNext_line (fit line List.mem_cons_self) _ _ _ _)
          exact more fun other member => fit other (List.mem_cons_of_mem line member)

/-- The names of a domain, when the ones before are still there. -/
theorem vpaliasSelectNames_eq {domain realDomain : List Char}
    {readdir : List Char → List DirEntry} {scan : AliasScan}
    (found : lookup domain = some (realDomain, dir)) (short : domain.length ≤ maxPwDomain)
    (roomy : Roomy dir) (unfreed : scan.names ≠ .freed) :
    vpaliasSelectNames lookup readdir domain scan =
      .ok (vpaliasSelectNamesNext ⟨none, shrinkNames (collectNames (readdir dir)),
        if scan.names = .null then scan.curName else 0, scan.myDomain⟩) := by
  have inside : ¬ maxFileSize ≤ dir.length := by
    rw [Roomy] at roomy
    omega
  simp only [vpaliasSelectNames, if_neg (Nat.not_lt.mpr short), found, if_neg unfreed,
    if_neg inside]

/-- A whole enumeration. -/
theorem yields {domain realDomain : List Char} {readdir : List Char → List DirEntry}
    {scan : AliasScan} (found : lookup domain = some (realDomain, dir))
    (again : lookup realDomain = some (realDomain, dir)) (short : domain.length < maxPwDomain)
    (realShort : realDomain.length ≤ maxPwDomain) (roomy : Roomy dir)
    (readable : ∀ name ∈ collectNames (readdir dir), Readable dir files name)
    (fresh : scan.names = .null → scan.curName = 0) (unfreed : scan.names ≠ .freed) :
    Yields lookup readdir files domain scan
      (pairsOf dir files (collectNames (readdir dir))) := by
  have start : (if scan.names = .null then scan.curName else 0) = 0 := by
    split
    · next unset => exact fresh unset
    · rfl
  have checked : ¬ maxPwDomain ≤ domain.length := Nat.not_le.mpr short
  have listed := @vpaliasSelectNames_eq lookup dir realDomain realDomain readdir
    { scan with aliasFs := none } again realShort roomy unfreed
  rw [start] at listed
  cases names : collectNames (readdir dir) with
  | nil =>
      rw [names] at listed
      have first : vpaliasSelectAll lookup readdir files domain scan =
          .ok (none, ⟨none, .freed, 0, scan.myDomain⟩) := by
        simp only [vpaliasSelectAll, if_neg checked, found, listed]
        rfl
      exact Yields.none first
  | cons name later =>
      rw [names] at readable listed
      rcases vpaliasSelect_readable again realShort (readable name List.mem_cons_self) with
        ⟨line, lines, -, others, whole, selected⟩
      have first : vpaliasSelectAll lookup readdir files domain scan =
          .ok (some (name, line),
            ⟨some (printLines lines), .array (name :: later), 1, realDomain⟩) := by
        have array : shrinkNames (name :: later) = .array (name :: later) := rfl
        simp only [vpaliasSelectAll, if_neg checked, found, listed, vpaliasSelectNamesNext, array,
          List.getElem?_cons_zero, Except.map, again, Option.map_some, Option.getD_some, selected]
      rw [pairsOf, List.flatMap_cons, whole, List.map_cons, List.cons_append]
      apply Yields.some first
      exact yieldsRest again realShort rfl
        (fun other member => readable other (List.mem_cons_of_mem name member)) others

end Iterator

/-! ## Complete enumerations -/

section Listed

variable {dir : List Char} {files : Files} {entries : List DirEntry}

theorem countIt_iff (listed : Lists dir files entries) {entry : DirEntry}
    (member : entry ∈ entries) :
    countIt entry = true ↔
      ∃ fileName, entry.name = qmailPrefix ++ fileName ∧ fileName ≠ defaultName := by
  have whole : qmailDefault = qmailPrefix ++ defaultName := rfl
  constructor
  · intro counted
    rw [countIt, Bool.and_eq_true, Bool.and_eq_true, decide_eq_true_eq] at counted
    rcases counted.1.1 with ⟨fileName, equal⟩
    refine ⟨fileName, equal.symm, ?_⟩
    rintro rfl
    have other := counted.1.2
    rw [← equal, whole] at other
    simp at other
  · rintro ⟨fileName, equal, other⟩
    have front : qmailPrefix <+: entry.name := ⟨fileName, equal.symm⟩
    have regular := listed.regular entry member front
    have named : entry.name ≠ qmailDefault := by
      rw [equal, whole]
      exact fun same => other (List.append_cancel_left same)
    simp [countIt, front, named, regular]

theorem mem_collectNames (listed : Lists dir files entries) {name : List Char} :
    name ∈ collectNames entries ↔
      ∃ fileName, Free '/' fileName ∧ fileName ≠ defaultName ∧
        (files (aliasFile dir fileName)).isSome ∧ name = fileName.map periodOfColon := by
  rw [collectNames, (List.perm_insertionSort _ _).mem_iff, List.mem_map]
  constructor
  · rintro ⟨entry, counted, rfl⟩
    rcases List.mem_filter.mp counted with ⟨member, counts⟩
    rcases (countIt_iff listed member).mp counts with ⟨fileName, equal, other⟩
    have slash := listed.slash entry member
    rw [equal, free_append] at slash
    refine ⟨fileName, slash.2, other, ?_, ?_⟩
    · exact (listed.entry fileName slash.2).mp (equal ▸ List.mem_map_of_mem member)
    · rw [aliasName, equal, List.drop_left]
  · rintro ⟨fileName, slash, other, present, rfl⟩
    rcases List.mem_map.mp ((listed.entry fileName slash).mpr present) with
      ⟨entry, member, equal⟩
    refine ⟨entry, List.mem_filter.mpr ⟨member, ?_⟩, ?_⟩
    · exact (countIt_iff listed member).mpr ⟨fileName, equal, other⟩
    · rw [aliasName, equal, List.drop_left]

theorem nodup_collectNames (listed : Lists dir files entries) (kept : AliasesKept dir files) :
    (collectNames entries).Nodup := by
  rw [collectNames, (List.perm_insertionSort _ _).nodup_iff]
  have distinct : (entries.filter countIt).Nodup :=
    (List.Nodup.of_map DirEntry.name listed.nodup).filter countIt
  apply distinct.map_on
  intro first firstMember second secondMember same
  have parts : ∀ entry ∈ entries.filter countIt, ∃ fileName,
      entry.name = qmailPrefix ++ fileName ∧ Free '.' fileName := by
    intro entry counted
    rcases List.mem_filter.mp counted with ⟨member, counts⟩
    rcases (countIt_iff listed member).mp counts with ⟨fileName, equal, other⟩
    have slash := listed.slash entry member
    rw [equal, free_append] at slash
    have present := (listed.entry fileName slash.2).mp (equal ▸ List.mem_map_of_mem member)
    rcases Option.isSome_iff_exists.mp present with ⟨text, file⟩
    exact ⟨fileName, equal, (kept.file fileName text other file).2.1⟩
  rcases parts first firstMember with ⟨firstName, firstEqual, firstPeriod⟩
  rcases parts second secondMember with ⟨secondName, secondEqual, secondPeriod⟩
  rw [aliasName, aliasName, firstEqual, secondEqual, List.drop_left, List.drop_left] at same
  have names := congrArg (List.map colonOfPeriod) same
  rw [colonOfPeriod_periodOfColon firstPeriod, colonOfPeriod_periodOfColon secondPeriod] at names
  have equal : first.name = second.name := by rw [firstEqual, secondEqual, names]
  exact List.inj_on_of_nodup_map listed.nodup (List.mem_of_mem_filter firstMember)
    (List.mem_of_mem_filter secondMember) equal

/-- The path that a listed name leads back to. -/
theorem aliasPath_listed (kept : AliasesKept dir files) {fileName text : List Char}
    (other : fileName ≠ defaultName) (present : files (aliasFile dir fileName) = some text) :
    aliasPath dir (fileName.map periodOfColon) = aliasFile dir fileName := by
  rcases kept.file fileName text other present with ⟨-, period, fits, -⟩
  have same : (aliasFile dir (fileName.map periodOfColon)).length < maxFileSize := by
    simpa [aliasFile] using fits
  rw [aliasPath_eq same, colonOfPeriod_periodOfColon period]

theorem readable_collectNames (listed : Lists dir files entries)
    (kept : AliasesKept dir files) :
    ∀ name ∈ collectNames entries, Readable dir files name := by
  intro name member
  rcases (mem_collectNames listed).mp member with ⟨fileName, -, other, present, rfl⟩
  rcases Option.isSome_iff_exists.mp present with ⟨text, file⟩
  rcases kept.file fileName text other file with ⟨short, -, -, lines⟩
  refine ⟨by rw [List.length_map]; exact short, text, ?_, lines⟩
  rw [aliasPath_listed kept other file, file]

theorem count_pairsOf {names : List (List Char)} (nodup : names.Nodup)
    (name line : List Char) :
    (pairsOf dir files names).count (name, line) =
      if name ∈ names then (linesOf (files (aliasPath dir name))).count line else 0 := by
  induction names with
  | nil => rfl
  | cons head names induction =>
      rw [List.nodup_cons] at nodup
      rw [pairsOf, List.flatMap_cons, List.count_append]
      change _ + (pairsOf dir files names).count (name, line) = _
      rw [induction nodup.2]
      rcases Classical.em (name = head) with rfl | other
      · rw [if_neg nodup.1, if_pos List.mem_cons_self, Nat.add_zero]
        apply List.count_map_of_injective
        exact fun first second same => (Prod.mk.inj same).2
      · have none : ((linesOf (files (aliasPath dir head))).map fun line => (head, line)).count
            (name, line) = 0 := by
          apply List.count_eq_zero_of_not_mem
          intro member
          rcases List.mem_map.mp member with ⟨text, -, same⟩
          exact other (Prod.mk.inj same).1.symm
        rw [none, Nat.zero_add]
        simp [other]

theorem complete_pairsOf (listed : Lists dir files entries) (kept : AliasesKept dir files) :
    Complete dir files (pairsOf dir files (collectNames entries)) := by
  have nodup := nodup_collectNames listed kept
  constructor
  · intro fileName slash period other line
    rw [count_pairsOf nodup]
    cases file : files (aliasFile dir fileName) with
    | some text =>
        have member : fileName.map periodOfColon ∈ collectNames entries := by
          rw [mem_collectNames listed]
          exact ⟨fileName, slash, other, by rw [file]; rfl, rfl⟩
        rw [if_pos member, aliasPath_listed kept other file, file]
    | none =>
        apply if_neg
        intro member
        rcases (mem_collectNames listed).mp member with ⟨stored, -, storedOther, present, same⟩
        rcases Option.isSome_iff_exists.mp present with ⟨text, storedFile⟩
        have storedPeriod := (kept.file stored text storedOther storedFile).2.1
        have names := congrArg (List.map colonOfPeriod) same
        rw [colonOfPeriod_periodOfColon period, colonOfPeriod_periodOfColon storedPeriod] at names
        rw [← names, file] at present
        cases present
  · intro pair member
    rcases List.mem_flatMap.mp member with ⟨name, inside, paired⟩
    rcases List.mem_map.mp paired with ⟨line, -, rfl⟩
    rcases (mem_collectNames listed).mp inside with ⟨fileName, slash, other, present, named⟩
    rcases Option.isSome_iff_exists.mp present with ⟨text, file⟩
    exact ⟨fileName, slash, (kept.file fileName text other file).2.1, other, named⟩

end Listed

theorem aliasesKept_of_none {dir : List Char} {files : Files} (none : NoAliases dir files) :
    AliasesKept dir files := by
  constructor
  intro fileName text named present
  rw [none fileName named] at present
  cases present

/-- After calls that meet the condition an enumeration ends, and yields every line of every
alias once, unless the one before it has found no names. -/
theorem enumeration_complete {lookup : DomainLookup} {domain realDomain dir : List Char}
    {start files : Files} {operations : List AliasOperation}
    {readdir : List Char → List DirEntry} {scan : AliasScan}
    (found : lookup domain = some (realDomain, dir))
    (again : lookup realDomain = some (realDomain, dir))
    (short : domain.length < maxPwDomain) (realShort : realDomain.length ≤ maxPwDomain)
    (roomy : Roomy dir) (empty : NoAliases dir start)
    (run : Run (MeetingAliasStep lookup domain dir) start operations files)
    (listed : Lists dir files (readdir dir)) (fresh : scan.names = .null → scan.curName = 0)
    (unfreed : scan.names ≠ .freed) :
    ∃ pairs, Yields lookup readdir files domain scan pairs ∧ Complete dir files pairs := by
  have kept : AliasesKept dir files := run.preserves (AliasesKept dir)
    (aliasesKept_of_none empty) fun before operation after old step =>
      aliasesKept_step found old step
  exact ⟨_, yields found again short realShort roomy (readable_collectNames listed kept) fresh
      unfreed,
    complete_pairsOf listed kept⟩

/-! ## An alias without lines -/

/-- The files of two aliases in `/d`. -/
def abFiles (first second : Option (List Char)) : Files := fun path =>
  if path = aliasFile ['/', 'd'] ['a'] then first
  else if path = aliasFile ['/', 'd'] ['b'] then second
  else none

def abEntries : List DirEntry :=
  [⟨qmailPrefix ++ ['a'], false⟩, ⟨qmailPrefix ++ ['b'], false⟩]

theorem abFiles_aliasFile (first second : Option (List Char)) (fileName : List Char) :
    abFiles first second (aliasFile ['/', 'd'] fileName) =
      if fileName = ['a'] then first else if fileName = ['b'] then second else none := by
  have same : ∀ other, aliasFile ['/', 'd'] fileName = aliasFile ['/', 'd'] other ↔
      fileName = other := fun other =>
    ⟨fun equal => aliasFile_injective equal, fun equal => by rw [equal]⟩
  simp only [abFiles, same]

theorem abFiles_lists (first second : List Char) :
    Lists ['/', 'd'] (abFiles (some first) (some second)) abEntries := by
  refine ⟨by decide, by decide, ?_, by decide⟩
  intro fileName _
  rw [abFiles_aliasFile]
  have names : qmailPrefix ++ fileName ∈ abEntries.map DirEntry.name ↔
      fileName = ['a'] ∨ fileName = ['b'] := by
    simp [abEntries]
  rw [names]
  rcases Classical.em (fileName = ['a']) with rfl | notA
  · simp
  · rcases Classical.em (fileName = ['b']) with rfl | notB
    · simp
    · simp [notA, notB]

theorem noAliases_abFiles : NoAliases ['/', 'd'] (abFiles none none) := by
  intro fileName _
  rw [abFiles_aliasFile]
  simp

theorem abFiles_update_a (first second file : Option (List Char)) :
    Function.update (abFiles first second) (aliasFile ['/', 'd'] ['a']) file =
      abFiles file second := by
  funext path
  rw [Function.update_apply, abFiles, abFiles]
  split <;> rfl

theorem abFiles_update_b (first second file : Option (List Char)) :
    Function.update (abFiles first second) (aliasFile ['/', 'd'] ['b']) file =
      abFiles first file := by
  funext path
  rw [Function.update_apply, abFiles, abFiles]
  split
  · next equal =>
      rw [equal, if_neg (by decide)]
  · rfl

/-- `vpalias_insert` of a line into both aliases. -/
def insertingAB : List AliasOperation := [.insert ['a'] ['x'], .insert ['b'] ['y']]

theorem insertingAB_run :
    Run (MeetingAliasStep lookupAt ['d', '.', 'd'] ['/', 'd']) (abFiles none none) insertingAB
      (abFiles (some ['x', '\n']) (some ['y', '\n'])) := by
  have first : MeetingAliasStep lookupAt ['d', '.', 'd'] ['/', 'd'] (abFiles none none)
      (.insert ['a'] ['x']) (abFiles (some ['x', '\n']) none) := by
    rw [← abFiles_update_a none none (some ['x', '\n'])]
    exact ⟨⟨true, 0, fun _ => by decide, by decide, rfl⟩, by decide, by decide, by decide⟩
  have second : MeetingAliasStep lookupAt ['d', '.', 'd'] ['/', 'd']
      (abFiles (some ['x', '\n']) none) (.insert ['b'] ['y'])
      (abFiles (some ['x', '\n']) (some ['y', '\n'])) := by
    rw [← abFiles_update_b (some ['x', '\n']) none (some ['y', '\n'])]
    exact ⟨⟨true, 0, fun _ => by decide, by decide, rfl⟩, by decide, by decide, by decide⟩
  exact (Run.start.next first).next second

theorem enumeration_complete_ab : ∃ pairs,
    Yields lookupAt (fun _ => abEntries) (abFiles (some ['x', '\n']) (some ['y', '\n']))
      ['d', '.', 'd'] AliasScan.initial pairs ∧
    Complete ['/', 'd'] (abFiles (some ['x', '\n']) (some ['y', '\n'])) pairs :=
  enumeration_complete rfl rfl (by decide) (by decide) (by decide) noAliases_abFiles
    insertingAB_run (abFiles_lists _ _) (fun _ => rfl) (by decide)

theorem losingA_run :
    Run (AliasStep lookupAt ['d', '.', 'd']) (abFiles none none)
      (insertingAB ++ [.remove ['a'] ['x']]) (abFiles (some []) (some ['y', '\n'])) := by
  have inserted := insertingAB_run.weaken fun _ _ _ step => step.step
  have removed : Function.update
      (Function.update (abFiles (some ['x', '\n']) (some ['y', '\n']))
        (aliasPath ['/', 'd'] ['a'] ++ ['.', 'n', 'e', 'w']) none)
      (aliasPath ['/', 'd'] ['a']) (some []) = abFiles (some []) (some ['y', '\n']) := by
    have temporary : Function.update (abFiles (some ['x', '\n']) (some ['y', '\n']))
        (aliasPath ['/', 'd'] ['a'] ++ ['.', 'n', 'e', 'w']) none =
          abFiles (some ['x', '\n']) (some ['y', '\n']) :=
      Function.update_eq_self (aliasPath ['/', 'd'] ['a'] ++ ['.', 'n', 'e', 'w'])
        (abFiles (some ['x', '\n']) (some ['y', '\n']))
    rw [temporary]
    exact abFiles_update_a _ _ _
  apply inserted.next
  rw [← removed]
  exact ⟨true, 0, fun _ => by decide, by decide, rfl⟩

/-- An alias that has lost its last line hides those behind it. -/
theorem not_enumeration_complete :
    ¬ ∀ (lookup : DomainLookup) (domain realDomain dir : List Char) (start files : Files)
        (operations : List AliasOperation) (readdir : List Char → List DirEntry),
      lookup domain = some (realDomain, dir) → lookup realDomain = some (realDomain, dir) →
      Roomy dir → NoAliases dir start → Run (AliasStep lookup domain) start operations files →
      Lists dir files (readdir dir) →
      ∃ pairs, Yields lookup readdir files domain AliasScan.initial pairs ∧
        Complete dir files pairs := by
  intro complete
  rcases complete lookupAt ['d', '.', 'd'] ['d', '.', 'd'] ['/', 'd'] _ _ _ (fun _ => abEntries)
    rfl rfl (by decide) noAliases_abFiles losingA_run (abFiles_lists _ _) with
    ⟨pairs, yielded, whole⟩
  have stops : (vpaliasSelectAll lookupAt (fun _ => abEntries)
      (abFiles (some []) (some ['y', '\n'])) ['d', '.', 'd'] AliasScan.initial).map Prod.fst =
        .ok none := by
    decide
  have counted := whole.counts ['b'] (by decide) (by decide) (by decide) ['y']
  have stored : (linesOf (abFiles (some []) (some ['y', '\n'])
      (aliasFile ['/', 'd'] ['b']))).count ['y'] = 1 := by decide
  rw [stored] at counted
  cases yielded with
  | none => cases counted
  | some first rest =>
      rw [first] at stops
      cases stops

/-- After an enumeration that has found no names the next one frees them again. -/
theorem vpaliasSelectAll_empty {lookup : DomainLookup} {domain realDomain dir : List Char}
    {readdir : List Char → List DirEntry} {files : Files} {scan : AliasScan}
    (found : lookup domain = some (realDomain, dir))
    (again : lookup realDomain = some (realDomain, dir))
    (short : domain.length < maxPwDomain) (realShort : realDomain.length ≤ maxPwDomain)
    (roomy : Roomy dir) (unfreed : scan.names ≠ .freed)
    (empty : collectNames (readdir dir) = []) :
    ∃ after, vpaliasSelectAll lookup readdir files domain scan = .ok (none, after) ∧
      vpaliasSelectAll lookup readdir files domain after = .error .doubleFree := by
  have checked : ¬ maxPwDomain ≤ domain.length := Nat.not_le.mpr short
  refine ⟨⟨none, .freed, if scan.names = .null then scan.curName else 0, scan.myDomain⟩, ?_, ?_⟩
  · have listed := @vpaliasSelectNames_eq lookup dir realDomain realDomain readdir
      { scan with aliasFs := none } again realShort roomy unfreed
    rw [empty] at listed
    simp only [vpaliasSelectAll, if_neg checked, found, listed]
    rfl
  · simp only [vpaliasSelectAll, if_neg checked, found, vpaliasSelectNames,
      if_neg (Nat.not_lt.mpr realShort), again]
    rfl

end Vpopmail
