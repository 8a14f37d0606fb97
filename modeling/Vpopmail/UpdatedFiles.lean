import Vpopmail.ControlRemoval
import Vpopmail.UpdateFile

/-! # What `update_file` makes of a file

The lines of a file that is updated are the ones it had and the new one, in
`users/assign` with the period behind them.
-/

namespace Vpopmail

open Text Vpopmail.Stream Buffer

/-! ## Reading printed lines -/

/-- A line that the buffer takes, at least without its newline. -/
structure Printable (line : List Char) : Prop where
  newline : Free '\n' line
  plain : Free nul line
  short : line.length < maxBuff

theorem trimLine_line {line : List Char} (printable : Printable line) :
    trimLine (line ++ ['\n']) = line := by
  rw [trimLine, cstring_takeWhile, takeWhile_ne_append_cons printable.newline,
    cstring_of_free printable.plain]

theorem readLines_cons_fits {line : List Char} (printable : Printable line)
    (fits : line.length + 1 < maxBuff) (lines : List (List Char)) :
    readLines (some (printLines (line :: lines))) = line :: readLines (some (printLines lines)) := by
  have read := fgets_line (isLine_append_newline printable.newline)
    (show (line ++ ['\n']).length < maxBuff by simpa using fits) (printLines lines)
  simp only [readLines, Option.getD_some]
  rw [printLines, List.flatMap_cons, ← printLines, fgetsLoop_eq (by decide) read, List.map_cons,
    trimLine_line printable]

/-- The newline of a line that fills the buffer is read as a line of its own. -/
theorem readLines_cons_long {line : List Char} (printable : Printable line)
    (long : line.length + 1 = maxBuff) (lines : List (List Char)) :
    readLines (some (printLines (line :: lines))) =
      line :: [] :: readLines (some (printLines lines)) := by
  have first := fgetsLoop_long (show 1 < maxBuff by decide) printable.newline
    (show maxBuff - 1 ≤ line.length by omega) ('\n' :: printLines lines)
  have second : fgets maxBuff ('\n' :: printLines lines) = some (['\n'], printLines lines) :=
    fgets_line (isLine_append_newline (free_nil '\n')) (by decide) (printLines lines)
  have whole : line.take (maxBuff - 1) = line := List.take_of_length_le (by omega)
  have done : line.drop (maxBuff - 1) = [] := List.drop_of_length_le (by omega)
  simp only [readLines, Option.getD_some]
  rw [printLines, List.flatMap_cons, ← printLines, List.append_assoc, List.singleton_append,
    first, whole, done, List.map_cons, trimLine, cstring_of_free printable.plain,
    takeWhile_ne_of_free printable.newline, List.nil_append, fgetsLoop_eq (by decide) second,
    List.map_cons]
  rfl

theorem mem_readLines_printLines {lines : List (List Char)}
    (printable : ∀ line ∈ lines, Printable line) {line : List Char} :
    line ∈ readLines (some (printLines lines)) ↔
      line ∈ lines ∨ (line = [] ∧ ∃ long ∈ lines, long.length + 1 = maxBuff) := by
  induction lines with
  | nil => simp [readLines, printLines, fgetsLoop, fgetsRounds]
  | cons head lines induction =>
      have first := printable head List.mem_cons_self
      have later := induction fun other member => printable other (List.mem_cons_of_mem _ member)
      rcases Nat.lt_or_ge (head.length + 1) maxBuff with fits | long
      · have other : head.length + 1 ≠ maxBuff := by omega
        simp [readLines_cons_fits first fits, later, other, or_assoc]
      · have full : head.length + 1 = maxBuff := by
          have short := first.short
          omega
        simp only [readLines_cons_long first full, List.mem_cons, later, full, exists_eq_or_imp,
          true_or, and_true]
        tauto

/-! ## Lines of an updated file -/

/-- The lines behind those that are carried over. -/
def ending : FileType → List (List Char)
  | .assign => [['.']]
  | _ => []

theorem printFile_eq (fileType : FileType) (lines : List (List Char)) :
    printFile fileType lines = printLines (lines ++ ending fileType) := by
  cases fileType <;> simp [printFile, ending]

theorem printable_of_mem_ending {fileType : FileType} {line : List Char}
    (member : line ∈ ending fileType) : Printable line ∧ line.length + 1 < maxBuff := by
  cases fileType with
  | assign =>
      cases List.mem_singleton.mp member
      exact ⟨⟨by decide, by decide, by decide⟩, by decide⟩
  | rcpthosts => cases member
  | virtualdomains => cases member

theorem mem_entries {fileType : FileType} {file : Option (List Char)} {line : List Char} :
    line ∈ entries fileType file ↔ line ∈ readLines file ∧ line ∉ ending fileType := by
  cases fileType <;> simp [entries, ending]

theorem keyed_cons {stale : List Char → List Char} {fileType : FileType} {line : List Char}
    {lines : List (List Char)} {records : List Record}
    (made : keyed stale fileType (line :: lines) = .ok records) :
    ∃ key others, extractDomain stale fileType line = .ok key ∧
      keyed stale fileType lines = .ok others ∧ records = (key, line) :: others := by
  rw [keyed] at made
  cases first : extractDomain stale fileType line with
  | error fault =>
      rw [first] at made
      cases made
  | ok key =>
      rw [first] at made
      cases later : keyed stale fileType lines with
      | error fault =>
          rw [later] at made
          cases made
      | ok others =>
          rw [later] at made
          exact ⟨key, others, rfl, rfl, (Except.ok.inj made).symm⟩

theorem keyed_map {stale : List Char → List Char} {fileType : FileType}
    {lines : List (List Char)} {records : List Record}
    (made : keyed stale fileType lines = .ok records) : records.map Prod.snd = lines := by
  induction lines generalizing records with
  | nil =>
      cases made
      rfl
  | cons line lines induction =>
      obtain ⟨key, others, _, later, rfl⟩ := keyed_cons made
      rw [List.map_cons, induction later]

theorem mem_insertLine {newDomain updateLine line : List Char} {records : List Record} :
    line ∈ insertLine newDomain updateLine records ↔
      line = updateLine ∨ line ∈ records.map Prod.snd := by
  induction records with
  | nil => simp [insertLine]
  | cons record records induction =>
      rw [insertLine]
      split
      · simp
      · simp only [List.mem_cons, induction, List.map_cons]
        tauto

/-- What becomes of a file that gets a new line. A line that fills the buffer may leave an
empty one when the file is sorted. -/
structure Updated (fileType : FileType) (updateLine : List Char)
    (before after : Option (List Char)) : Prop where
  lines : ∃ lines, after = some (printFile fileType lines) ∧
    (∀ line, line ∈ entries fileType before ∨ line = updateLine → line ∈ lines) ∧
    (∀ line ∈ lines, line ∈ entries fileType before ∨ line = updateLine ∨
      (line = [] ∧ updateLine.length + 1 = maxBuff))

theorem sortFile_perm {stale : List Char → List Char} {access : FileAccess} {fileLines : Nat}
    {fileType : FileType} {file after : Option (List Char)} {result : Int}
    (ran : sortFile stale access fileLines fileType file = .ok (result, after)) :
    after = file ∨ ∃ lines, after = some (printFile fileType lines) ∧
      lines.Perm (entries fileType file) := by
  cases access with
  | locked =>
      cases ran
      exact .inl rfl
  | unavailable =>
      cases ran
      exact .inl rfl
  | opened =>
      rw [sortFile] at ran
      cases made : keyed stale fileType ((entries fileType file).take fileLines) with
      | error fault =>
          rw [made] at ran
          cases ran
      | ok records =>
          rw [made] at ran
          have result := Except.ok.inj ran
          beta_reduce at result
          rcases Nat.lt_or_ge fileLines (entries fileType file).length with full | room
          · rw [if_pos full] at result
            cases result
            exact .inl rfl
          · rw [if_neg (Nat.not_lt.mpr room)] at result
            cases result
            have sorted := (List.perm_insertionSort
              (fun left right : Record => left.1 ≤ right.1) records).map Prod.snd
            rw [keyed_map made, List.take_of_length_le room] at sorted
            exact .inr ⟨_, rfl, sorted⟩

theorem sortFile_lines {stale : List Char → List Char} {access : FileAccess} {fileLines : Nat}
    {fileType : FileType} {file after : Option (List Char)} {result : Int}
    (ran : sortFile stale access fileLines fileType file = .ok (result, after)) :
    after = file ∨ ∃ lines, after = some (printFile fileType lines) ∧
      ∀ line, line ∈ lines ↔ line ∈ entries fileType file := by
  rcases sortFile_perm ran with same | ⟨lines, printed, perm⟩
  · exact .inl same
  · exact .inr ⟨lines, printed, fun _ => perm.mem_iff⟩

section Updating

variable {fileType : FileType} {file : Option (List Char)} {updateLine : List Char}

theorem Printable.of_mem_entries (clean : Fits file) {line : List Char}
    (member : line ∈ entries fileType file) :
    Printable line ∧ line.length + 1 < maxBuff := by
  have read := (mem_entries.mp member).1
  have short : line.length + 1 < maxBuff := by
    rw [readLines_eq clean] at read
    rcases List.mem_map.mp read with ⟨whole, inside, rfl⟩
    have fits := clean whole inside
    have shorter : (cstring whole).length ≤ whole.length := (List.takeWhile_prefix _).length_le
    omega
  exact ⟨⟨free_of_mem_readLines read, plain_of_mem_readLines read, by omega⟩, short⟩

/-- The new line in front of the sorting. -/
theorem updated_insertLine {stale : List Char → List Char} {newDomain : List Char}
    {records : List Record} (made : keyed stale fileType (entries fileType file) = .ok records) :
    Updated fileType updateLine file
      (some (printFile fileType (insertLine newDomain updateLine records))) := by
  refine ⟨_, rfl, ?_, ?_⟩
  · intro line present
    rw [mem_insertLine, keyed_map made]
    exact present.symm
  · intro line member
    rw [mem_insertLine, keyed_map made] at member
    rcases member with new | old
    · exact .inr (.inl new)
    · exact .inl old

theorem Updated.sorted {stale : List Char → List Char} {access : FileAccess} {fileLines : Nat}
    {result : Int} {updated after : Option (List Char)} (fits : Fits file)
    (printable : Printable updateLine) (entry : updateLine ∉ ending fileType)
    (update : Updated fileType updateLine file updated)
    (ran : sortFile stale access fileLines fileType updated = .ok (result, after)) :
    Updated fileType updateLine file after := by
  rcases sortFile_lines ran with rfl | ⟨sorted, rfl, same⟩
  · exact update
  rcases update.lines with ⟨lines, rfl, kept, only⟩
  have printables : ∀ line ∈ lines ++ ending fileType, Printable line := by
    intro line member
    rcases List.mem_append.mp member with inside | behind
    · rcases only line inside with old | rfl | ⟨rfl, -⟩
      · exact (Printable.of_mem_entries fits old).1
      · exact printable
      · exact ⟨by decide, by decide, by decide⟩
    · exact (printable_of_mem_ending behind).1
  have read : ∀ line, line ∈ sorted ↔ (line ∈ lines ++ ending fileType ∨
      (line = [] ∧ ∃ long ∈ lines ++ ending fileType, long.length + 1 = maxBuff)) ∧
      line ∉ ending fileType := by
    intro line
    rw [same, mem_entries, printFile_eq, mem_readLines_printLines printables]
  refine ⟨sorted, rfl, ?_, ?_⟩
  · intro line present
    apply (read line).mpr
    refine ⟨.inl (List.mem_append_left _ (kept line present)), ?_⟩
    rcases present with old | rfl
    · exact (mem_entries.mp old).2
    · exact entry
  · intro line member
    rcases (read line).mp member with ⟨inside | ⟨rfl, long, inside, full⟩, other⟩
    · exact only line ((List.mem_append.mp inside).resolve_right other)
    · -- only the new line can fill the buffer
      rcases List.mem_append.mp inside with inside | behind
      · rcases only long inside with old | rfl | ⟨rfl, filled⟩
        · have short := (Printable.of_mem_entries fits old).2
          omega
        · exact .inr (.inr ⟨rfl, full⟩)
        · exact .inr (.inr ⟨rfl, filled⟩)
      · have short := (printable_of_mem_ending behind).2
        omega

theorem updateFile_cases {stale : List Char → List Char} {access : UpdateAccess} {result : Int}
    {after : Option (List Char)} (fits : Fits file) (printable : Printable updateLine)
    (entry : updateLine ∉ ending fileType)
    (ran : updateFile stale access fileType updateLine file = .ok (result, after)) :
    (access.update = .opened ∧ result = 0 ∧ Updated fileType updateLine file after) ∨
      (access.update ≠ .opened ∧ result ≠ 0 ∧ after = file) := by
  rw [updateFile] at ran
  cases key : extractDomain stale fileType updateLine with
  | error fault =>
      rw [key] at ran
      cases ran
  | ok newDomain =>
      rw [key] at ran
      cases opens : access.update with
      | locked =>
          simp only [Except.bind, opens] at ran
          cases ran
          exact .inr ⟨by decide, by decide, rfl⟩
      | unavailable =>
          simp only [Except.bind, opens] at ran
          cases ran
          exact .inr ⟨by decide, by decide, rfl⟩
      | opened =>
          simp only [Except.bind, opens] at ran
          cases made : keyed stale fileType (entries fileType file) with
          | error fault =>
              rw [made] at ran
              cases ran
          | ok records =>
              rw [made] at ran
              simp only at ran
              have inserted : Updated fileType updateLine file
                (some (printFile fileType (insertLine newDomain updateLine records))) :=
                  updated_insertLine made
              cases order : needSort [] records with
              | false =>
                  rw [order] at ran
                  cases ran
                  exact .inl ⟨rfl, rfl, inserted⟩
              | true =>
                  rw [order, if_pos rfl] at ran
                  cases sorted : sortFile stale access.sort ((readLines file).length + 1) fileType
                      (some (printFile fileType (insertLine newDomain updateLine records))) with
                  | error fault =>
                      rw [sorted] at ran
                      cases ran
                  | ok done =>
                      rw [sorted] at ran
                      cases ran
                      exact .inl ⟨rfl, rfl, inserted.sorted fits printable entry sorted⟩

end Updating

/-! ## Files with the same lines -/

/-- The two files have the same set of lines. -/
def SameLines (before after : Option (List Char)) : Prop :=
  ∀ line, line ∈ linesOf after ↔ line ∈ linesOf before

/-- Every line fits the buffers that files are read with. -/
structure Clean (file : Option (List Char)) : Prop where
  fits : Fits file
  plain : Plain file

section Lines

variable {fileType : FileType} {file after : Option (List Char)} {updateLine target : List Char}

theorem Clean.readLines_eq (clean : Clean file) : readLines file = linesOf file := by
  rw [Vpopmail.readLines_eq clean.fits, map_cstring clean.plain]

theorem Clean.mem_entries (clean : Clean file) {line : List Char} :
    line ∈ entries fileType file ↔ line ∈ linesOf file ∧ line ∉ ending fileType := by
  rw [Vpopmail.mem_entries, clean.readLines_eq]

/-- The lines that a clean file has after an update. -/
theorem Updated.mem_lines (clean : Clean file) (printable : Printable updateLine)
    (update : Updated fileType updateLine file after) :
    ∃ lines, after = some (printLines lines) ∧ (∀ line ∈ lines, Printable line) ∧
      (∀ line ∈ linesOf file, line ∈ lines) ∧ updateLine ∈ lines ∧
      (∀ line ∈ ending fileType, line ∈ lines) ∧
      (∀ line ∈ lines, line ∈ linesOf file ∨ line = updateLine ∨ line ∈ ending fileType ∨
        (line = [] ∧ updateLine.length + 1 = maxBuff)) := by
  rcases update.lines with ⟨lines, rfl, kept, only⟩
  refine ⟨lines ++ ending fileType, by rw [printFile_eq], ?_, ?_, ?_, ?_, ?_⟩
  · intro line member
    rcases List.mem_append.mp member with inside | behind
    · rcases only line inside with old | rfl | ⟨rfl, -⟩
      · exact (Printable.of_mem_entries clean.fits old).1
      · exact printable
      · exact ⟨by decide, by decide, by decide⟩
    · exact (printable_of_mem_ending behind).1
  · intro line member
    rcases Classical.em (line ∈ ending fileType) with behind | inside
    · exact List.mem_append_right _ behind
    · exact List.mem_append_left _ (kept line (.inl (clean.mem_entries.mpr ⟨member, inside⟩)))
  · exact List.mem_append_left _ (kept updateLine (.inr rfl))
  · exact fun line behind => List.mem_append_right _ behind
  · intro line member
    rcases List.mem_append.mp member with inside | behind
    · rcases only line inside with old | new | empty
      · exact .inl (clean.mem_entries.mp old).1
      · exact .inr (.inl new)
      · exact .inr (.inr (.inr empty))
    · exact .inr (.inr (.inl behind))

/-- An update changes nothing when the line was there already. -/
theorem Updated.sameLines_iff (clean : Clean file) (printable : Printable updateLine)
    (update : Updated fileType updateLine file after) :
    SameLines file after ↔
      updateLine ∈ linesOf file ∧ ∀ line ∈ ending fileType, line ∈ linesOf file := by
  rcases update.mem_lines clean printable with ⟨lines, rfl, printables, old, new, behind, only⟩
  have printed : linesOf (some (printLines lines)) = lines :=
    linesOf_printLines fun line member => (printables line member).newline
  simp only [SameLines, printed]
  constructor
  · intro same
    exact ⟨(same updateLine).mp new, fun line member => (same line).mp (behind line member)⟩
  · rintro ⟨known, ended⟩ line
    constructor
    · intro member
      rcases only line member with own | rfl | last | ⟨rfl, full⟩
      · exact own
      · exact known
      · exact ended line last
      · have short := clean.fits updateLine known
        omega
    · exact old line

end Lines

end Vpopmail
