import Vpopmail.SortedInsertion

/-! # Adding a line again

`update_file` never looks for the line that it adds: each time the file has one line more.
-/

namespace Vpopmail

open Text Vpopmail.Stream Buffer

/-! ## Entries of printed lines -/

/-- A line that `update_file` carries over when it comes to it in one piece. -/
structure EntryLine (fileType : FileType) (line : List Char) : Prop where
  newline : Free '\n' line
  plain : Free nul line
  other : line ∉ ending fileType

theorem readLines_append (line : List Char) (newline : Free '\n' line) (rest : List Char) :
    readLines (some (line ++ '\n' :: rest)) =
      readLines (some (line ++ ['\n'])) ++ readLines (some rest) := by
  simp only [readLines, Option.getD_some]
  rw [fgetsLoop_append_newline (by decide) newline, List.map_append]

theorem entries_append {fileType : FileType} (line : List Char) (newline : Free '\n' line)
    (rest : List Char) :
    entries fileType (some (line ++ '\n' :: rest)) =
      entries fileType (some (line ++ ['\n'])) ++ entries fileType (some rest) := by
  have read := readLines_append line newline rest
  cases fileType with
  | assign =>
      simp only [entries]
      rw [read, List.filter_append]
  | rcpthosts => exact read
  | virtualdomains => exact read

/-- The first piece of an entry is carried over. -/
theorem entries_line_ne_nil {fileType : FileType} {line : List Char}
    (entry : EntryLine fileType line) : entries fileType (some (line ++ ['\n'])) ≠ [] := by
  have found : ∃ piece ∈ readLines (some (line ++ ['\n'])), piece ∉ ending fileType := by
    simp only [readLines, Option.getD_some]
    rcases Nat.lt_or_ge line.length (maxBuff - 1) with short | long
    · refine ⟨line, List.mem_map.mpr ⟨line ++ ['\n'], ?_, ?_⟩, entry.other⟩
      · rw [fgetsLoop_short (by decide) entry.newline short (.inr rfl) (by simp)]
        exact List.mem_singleton_self _
      · rw [trimLine, cstring_takeWhile, takeWhile_ne_append_cons entry.newline,
          cstring_of_free entry.plain]
    · have newline : Free '\n' (line.take (maxBuff - 1)) :=
        fun member => entry.newline (List.mem_of_mem_take member)
      have plain : Free nul (line.take (maxBuff - 1)) :=
        fun member => entry.plain (List.mem_of_mem_take member)
      refine ⟨line.take (maxBuff - 1), List.mem_map.mpr ⟨line.take (maxBuff - 1), ?_, ?_⟩, ?_⟩
      · rw [fgetsLoop_long (by decide) entry.newline long]
        exact List.mem_cons_self
      · rw [trimLine, cstring_of_free plain, takeWhile_ne_of_free newline]
      · intro member
        have short := (printable_of_mem_ending member).1.short
        have length := List.length_take_of_le long
        cases fileType with
        | assign =>
            rw [List.mem_singleton.mp member] at length
            exact absurd length (by decide)
        | rcpthosts => cases member
        | virtualdomains => cases member
  rcases found with ⟨piece, read, other⟩
  exact List.ne_nil_of_mem (mem_entries.mpr ⟨read, other⟩)

theorem length_le_length_entries {fileType : FileType} {lines : List (List Char)}
    (entry : ∀ line ∈ lines, EntryLine fileType line) :
    lines.length ≤ (entries fileType (some (printFile fileType lines))).length := by
  rw [printFile_eq]
  generalize ending fileType = behind
  induction lines with
  | nil => exact Nat.zero_le _
  | cons line lines induction =>
      have first := entry line List.mem_cons_self
      have later := induction fun other member => entry other (List.mem_cons_of_mem _ member)
      have own := List.length_pos_iff.mpr (entries_line_ne_nil first)
      have printed : printLines (line :: lines ++ behind) =
          line ++ '\n' :: printLines (lines ++ behind) := by
        rw [List.cons_append, printLines, List.flatMap_cons, List.append_assoc]
        rfl
      rw [printed, entries_append line first.newline, List.length_append, List.length_cons]
      omega

/-! ## What one call adds -/

section Growing

variable {stale : List Char → List Char} {access : UpdateAccess} {fileType : FileType}
  {updateLine : List Char} {file after : Option (List Char)} {result : Int}

theorem entry_of_mem_entries {line : List Char} (member : line ∈ entries fileType file) :
    EntryLine fileType line := by
  rcases mem_entries.mp member with ⟨read, other⟩
  exact ⟨free_of_mem_readLines read, plain_of_mem_readLines read, other⟩

/-- The lines are more than the ones that were carried over. -/
theorem updateFile_adds (opened : access.update = .opened) (new : EntryLine fileType updateLine)
    (ran : updateFile stale access fileType updateLine file = .ok (result, after)) :
    ∃ lines, after = some (printFile fileType lines) ∧ (∀ line ∈ lines, EntryLine fileType line) ∧
      (entries fileType file).length < lines.length := by
  rcases exists_of_updateFile opened ran with ⟨newDomain, records, key, made⟩
  have perm : (insertLine newDomain updateLine records).Perm
      (updateLine :: entries fileType file) := insertLine_perm made
  have inserted : ∀ line ∈ insertLine newDomain updateLine records, EntryLine fileType line := by
    intro line member
    rcases List.mem_cons.mp (perm.mem_iff.mp member) with rfl | old
    · exact new
    · exact entry_of_mem_entries old
  have count := perm.length_eq
  rw [List.length_cons] at count
  rw [updateFile_eq opened key made] at ran
  split at ran
  · cases sorted : sortFile stale access.sort ((readLines file).length + 1) fileType
        (some (printFile fileType (insertLine newDomain updateLine records))) with
    | error fault =>
        rw [sorted] at ran
        cases ran
    | ok done =>
        rw [sorted] at ran
        cases ran
        rcases sortFile_perm sorted with same | ⟨lines, printed, sortedPerm⟩
        · exact ⟨_, same, inserted, by omega⟩
        · refine ⟨lines, printed, ?_, ?_⟩
          · exact fun line member => entry_of_mem_entries (sortedPerm.mem_iff.mp member)
          · have more := length_le_length_entries inserted
            rw [sortedPerm.length_eq]
            omega
  · cases ran
    exact ⟨_, rfl, inserted, by omega⟩

/-- Adding the line a second time leaves the file as it is after the first time. -/
def Idempotent (stale : List Char → List Char) (access : UpdateAccess) (fileType : FileType)
    (updateLine : List Char) (file : Option (List Char)) : Prop :=
  ∃ first second once twice,
    updateFile stale access fileType updateLine file = .ok (first, once) ∧
      updateFile stale access fileType updateLine once = .ok (second, twice) ∧ twice = once

theorem updateFile_not_idempotent (stale : List Char → List Char) (access : UpdateAccess)
    (fileType : FileType) (updateLine : List Char) (file : Option (List Char))
    (opened : access.update = .opened) (new : EntryLine fileType updateLine) :
    ¬ Idempotent stale access fileType updateLine file := by
  intro idempotent
  rcases idempotent with ⟨first, second, once, twice, ranOnce, ranTwice, same⟩
  rcases updateFile_adds opened new ranOnce with ⟨lines, rfl, entry, -⟩
  rcases updateFile_adds opened new ranTwice with ⟨more, rfl, moreEntry, longer⟩
  have carried := length_le_length_entries entry
  have linesEqual : more ++ ending fileType = lines ++ ending fileType := by
    rw [← linesOf_printFile fun line member => (moreEntry line member).newline, same,
      linesOf_printFile fun line member => (entry line member).newline]
  have lengths := congrArg List.length (List.append_cancel_right linesEqual)
  omega

end Growing

theorem updateFile_not_idempotent_assign :
    ¬ Idempotent id ⟨.opened, .locked⟩ .assign ['+', 'a', '-', ':', 'a', ':'] (some ['.', '\n']) :=
  updateFile_not_idempotent id ⟨.opened, .locked⟩ .assign ['+', 'a', '-', ':', 'a', ':']
    (some ['.', '\n']) rfl ⟨by decide, by decide, by decide⟩

/-- A domain that is added to an empty file twice is there twice. -/
theorem updateFile_twice :
    updateFile id ⟨.opened, .opened⟩ .rcpthosts ['a', '.', 'b'] none =
        .ok (0, some ['a', '.', 'b', '\n']) ∧
      updateFile id ⟨.opened, .opened⟩ .rcpthosts ['a', '.', 'b'] (some ['a', '.', 'b', '\n']) =
        .ok (0, some ['a', '.', 'b', '\n', 'a', '.', 'b', '\n']) ∧
      ¬ Idempotent id ⟨.opened, .opened⟩ .rcpthosts ['a', '.', 'b'] none := by
  have ranOnce : updateFile id ⟨.opened, .opened⟩ .rcpthosts ['a', '.', 'b'] none =
      .ok (0, some ['a', '.', 'b', '\n']) := by decide +kernel
  have ranTwice : updateFile id ⟨.opened, .opened⟩ .rcpthosts ['a', '.', 'b']
      (some ['a', '.', 'b', '\n']) =
      .ok (0, some ['a', '.', 'b', '\n', 'a', '.', 'b', '\n']) := by decide +kernel
  refine ⟨ranOnce, ranTwice, ?_⟩
  intro idempotent
  rcases idempotent with ⟨first, second, once, twice, again, more, same⟩
  cases ranOnce.symm.trans again
  cases ranTwice.symm.trans more
  exact absurd same (by decide)

end Vpopmail
