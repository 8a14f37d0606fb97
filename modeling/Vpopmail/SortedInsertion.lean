import Vpopmail.AddDomain
import Vpopmail.SortKeys
import Vpopmail.UpdatedFiles

/-! # Inserting a line in order

`update_file` merges the new line into a file that is in order of the keys, and has
`sort_file` sort one that is not. What is lost or misplaced comes of keys that outgrow
their buffer, and of a new line that fills the buffer with which `sort_file` reads it back.
-/

namespace Vpopmail

open Text Vpopmail.Stream Buffer

/-! ## Room for keys -/

/-- The last two parts, and the first two by turns for those in front of them. -/
def turnedParts (parts : List (List Char)) : List (List Char) :=
  parts.drop (parts.length - 2) ++
    (List.range (parts.length - 2)).map fun index => parts.getD (index % 2) []

theorem juggleParts_eq_turnedParts {parts : List (List Char)} (two : 2 ≤ parts.length) :
    juggleParts parts = turnedParts parts := by
  apply List.ext_getElem?
  intro index
  have last : (parts.drop (parts.length - 2)).length = 2 := by
    rw [List.length_drop]
    omega
  rw [getElem?_juggleParts two, turnedParts, List.getElem?_append, last]
  split
  · rw [List.getElem?_drop]
  · split
    · rw [List.getElem?_map, List.getElem?_range (by omega), Option.map_some,
        List.getD_eq_getElem?_getD, List.getElem?_eq_getElem (by omega),
        List.getElem?_eq_getElem (by omega), Option.getD_some]
      apply congrArg some
      congr 1
      omega
    · rw [List.getElem?_eq_none]
      rw [List.length_map, List.length_range]
      omega

/-- The key of a line with at most one part is the name of its domain. -/
def KeyFits (fileType : FileType) (line : List Char) : Prop :=
  ∀ domain ∈ domainText fileType line, 2 ≤ (domainParts 10 domain).length →
    (dotted (turnedParts (domainParts 10 domain))).length < maxBuff

instance (fileType : FileType) (line : List Char) : Decidable (KeyFits fileType line) :=
  inferInstanceAs (Decidable (∀ domain ∈ domainText fileType line,
    2 ≤ (domainParts 10 domain).length →
      (dotted (turnedParts (domainParts 10 domain))).length < maxBuff))

/-- The line has the name of a domain. -/
def HasDomain (fileType : FileType) (line : List Char) : Prop := (domainText fileType line).isSome

instance (fileType : FileType) (line : List Char) : Decidable (HasDomain fileType line) :=
  inferInstanceAs (Decidable ((domainText fileType line).isSome = true))

theorem length_domainText {fileType : FileType} {line domain : List Char}
    (text : domainText fileType line = some domain) : domain.length ≤ line.length := by
  have taken (char : Char) (cells : List Char) :
      (cells.takeWhile (· ≠ char)).length ≤ cells.length :=
    (List.takeWhile_prefix _).length_le
  cases fileType with
  | assign =>
      have inside := taken ':' (line.drop 1)
      have dropped := List.length_drop (i := 1) (l := line)
      rw [domainText] at text
      split at text
      · cases text
      · cases text
        rw [List.length_dropLast]
        omega
  | rcpthosts =>
      cases text
      exact taken ':' line
  | virtualdomains =>
      cases text
      exact taken ':' line

theorem exists_key_iff {stale : List Char → List Char} {fileType : FileType} {line : List Char}
    (named : HasDomain fileType line) (short : line.length < maxBuff) :
    (∃ key, extractDomain stale fileType line = .ok key) ↔ KeyFits fileType line := by
  rcases Option.isSome_iff_exists.mp named with ⟨domain, text⟩
  have fits : domain.length < maxBuff := Nat.lt_of_le_of_lt (length_domainText text) short
  have whole : KeyFits fileType line ↔ (2 ≤ (domainParts 10 domain).length →
      (dotted (turnedParts (domainParts 10 domain))).length < maxBuff) := by
    constructor
    · exact fun room => room domain text
    · intro room other otherText
      cases text.symm.trans otherText
      exact room
  rw [whole, extractDomain, text]
  simp only [fits, true_and]
  rcases Nat.lt_or_ge 1 (domainParts 10 domain).length with several | one
  · simp only [if_neg (Nat.not_le.mpr several), juggleParts_eq_turnedParts several, dotted]
    constructor
    · intro made _
      rcases made with ⟨key, made⟩
      split at made
      · next room => exact room
      · cases made
    · intro room
      exact ⟨_, if_pos (room several)⟩
  · simp only [if_pos one, if_pos fits]
    constructor
    · intro _ several
      omega
    · intro _
      exact ⟨_, rfl⟩

/-! ## Lines and their keys -/

/-- Every record has the key of its line. -/
def Keys (stale : List Char → List Char) (fileType : FileType) (records : List Record) : Prop :=
  ∀ record ∈ records, extractDomain stale fileType record.2 = .ok record.1

section Keyed

variable {stale : List Char → List Char} {fileType : FileType}

theorem keyed_eq_ok_iff {lines : List (List Char)} {records : List Record} :
    keyed stale fileType lines = .ok records ↔
      records.map Prod.snd = lines ∧ Keys stale fileType records := by
  induction lines generalizing records with
  | nil =>
      constructor
      · intro made
        cases made
        exact ⟨rfl, fun record member => absurd member (List.not_mem_nil)⟩
      · intro known
        rw [List.map_eq_nil_iff] at known
        rw [keyed, known.1]
  | cons line lines induction =>
      constructor
      · intro made
        refine ⟨keyed_map made, ?_⟩
        obtain ⟨key, others, first, later, rfl⟩ := keyed_cons made
        intro record member
        cases List.mem_cons.mp member with
        | inl here => exact here ▸ first
        | inr inside => exact (induction.mp later).2 record inside
      · intro known
        rcases known with ⟨lines_eq, keys⟩
        cases records with
        | nil => cases lines_eq
        | cons record records =>
            rw [List.map_cons, List.cons.injEq] at lines_eq
            have first := keys record List.mem_cons_self
            have later := induction.mpr
              ⟨lines_eq.2, fun other member => keys other (List.mem_cons_of_mem _ member)⟩
            rw [keyed, ← lines_eq.1, first]
            simp only [Except.bind, later, Except.map]

theorem exists_keyed_iff {lines : List (List Char)}
    (named : ∀ line ∈ lines, HasDomain fileType line)
    (short : ∀ line ∈ lines, line.length < maxBuff) :
    (∃ records, keyed stale fileType lines = .ok records) ↔
      ∀ line ∈ lines, KeyFits fileType line := by
  constructor
  · intro made line member
    rcases made with ⟨records, made⟩
    rcases keyed_eq_ok_iff.mp made with ⟨rfl, keys⟩
    rcases List.mem_map.mp member with ⟨record, inside, rfl⟩
    exact (exists_key_iff (named _ member) (short _ member)).mp ⟨_, keys record inside⟩
  · intro room
    induction lines with
    | nil => exact ⟨[], rfl⟩
    | cons line lines induction =>
        have first := List.mem_cons_self (a := line) (l := lines)
        have own : ∃ key, extractDomain stale fileType line = .ok key :=
          (exists_key_iff (named line first) (short line first)).mpr (room line first)
        rcases own with ⟨key, made⟩
        rcases induction (fun other member => named other (List.mem_cons_of_mem _ member))
          (fun other member => short other (List.mem_cons_of_mem _ member))
          (fun other member => room other (List.mem_cons_of_mem _ member)) with ⟨records, later⟩
        refine ⟨(key, line) :: records, ?_⟩
        simp only [keyed, made, later, Except.bind, Except.map]

end Keyed

/-! ## Inserting a record -/

/-- `insertLine` with the keys. -/
def insertRecord (new : Record) : List Record → List Record
  | [] => [new]
  | record :: records =>
      if new.1 < record.1 then new :: record :: records else record :: insertRecord new records

theorem insertLine_eq (newDomain updateLine : List Char) (records : List Record) :
    insertLine newDomain updateLine records =
      (insertRecord (newDomain, updateLine) records).map Prod.snd := by
  induction records with
  | nil => rfl
  | cons record records induction =>
      rw [insertLine, insertRecord]
      split
      · rfl
      · rw [induction, List.map_cons]

theorem insertRecord_perm (new : Record) (records : List Record) :
    (insertRecord new records).Perm (new :: records) := by
  induction records with
  | nil => exact List.Perm.refl _
  | cons record records induction =>
      rw [insertRecord]
      split
      · exact List.Perm.refl _
      · exact (induction.cons record).trans (List.Perm.swap new record records)

/-- The order of `sort_check`. -/
def KeysOrdered (records : List Record) : Prop :=
  records.Pairwise fun left right => left.1 ≤ right.1

theorem ordered_cons {record : Record} {records : List Record} :
    KeysOrdered (record :: records) ↔
      (∀ other ∈ records, record.1 ≤ other.1) ∧ KeysOrdered records :=
  List.pairwise_cons

theorem ordered_insertRecord (new : Record) {records : List Record}
    (ordered : KeysOrdered records) :
    KeysOrdered (insertRecord new records) := by
  induction records with
  | nil => exact List.pairwise_singleton _ _
  | cons record records induction =>
      rcases ordered_cons.mp ordered with ⟨first, later⟩
      rw [insertRecord]
      split
      · next less =>
          refine ordered_cons.mpr ⟨?_, ordered⟩
          intro other member
          rcases List.mem_cons.mp member with rfl | inside
          · exact le_of_lt less
          · exact le_trans (le_of_lt less) (first other inside)
      · next notLess =>
          refine ordered_cons.mpr ⟨?_, induction later⟩
          intro other member
          rcases List.mem_cons.mp ((insertRecord_perm new records).mem_iff.mp member) with
            rfl | inside
          · exact not_lt.mp notLess
          · exact first other inside

/-- The order that is checked is between neighbours. -/
theorem needSort_eq_false_iff {prvDomain : List Char} {records : List Record} :
    needSort prvDomain records = false ↔
      (∀ record ∈ records, prvDomain ≤ record.1) ∧ KeysOrdered records := by
  induction records generalizing prvDomain with
  | nil => simp [needSort, KeysOrdered]
  | cons record records induction =>
      have own : needSort record.1 records = false ↔
          (∀ other ∈ records, record.1 ≤ other.1) ∧ KeysOrdered records := induction
      rw [needSort, Bool.or_eq_false_iff, decide_eq_false_iff_not, not_lt, own,
        ordered_cons, List.forall_mem_cons]
      constructor
      · intro order
        exact ⟨⟨order.1, fun other member => le_trans order.1 (order.2.1 other member)⟩,
          order.2⟩
      · intro order
        exact ⟨order.1.1, order.2⟩

theorem needSort_nil_eq_false_iff {records : List Record} :
    needSort [] records = false ↔ KeysOrdered records := by
  rw [needSort_eq_false_iff]
  exact and_iff_right fun record _ => not_lt.mp (List.not_lt_nil record.1)

/-! ## Reading the file back -/

/-- The lines that are read of one that is printed. -/
def pieces (line : List Char) : List (List Char) :=
  if line.length + 1 = maxBuff then [line, []] else [line]

theorem readLines_printLines {lines : List (List Char)}
    (printable : ∀ line ∈ lines, Printable line) :
    readLines (some (printLines lines)) = lines.flatMap pieces := by
  induction lines with
  | nil => simp [readLines, printLines, fgetsLoop, fgetsRounds]
  | cons line lines induction =>
      have first := printable line List.mem_cons_self
      have later := induction fun other member => printable other (List.mem_cons_of_mem _ member)
      rw [List.flatMap_cons, ← later, pieces]
      split
      · next full => exact readLines_cons_long first full lines
      · next other =>
          have short := first.short
          exact readLines_cons_fits first (by omega) lines

theorem entries_printFile {fileType : FileType} {lines : List (List Char)}
    (printable : ∀ line ∈ lines, Printable line) (entry : ∀ line ∈ lines, line ∉ ending fileType) :
    entries fileType (some (printFile fileType lines)) = lines.flatMap pieces := by
  have all : ∀ line ∈ lines ++ ending fileType, Printable line := by
    intro line member
    rcases List.mem_append.mp member with inside | behind
    · exact printable line inside
    · exact (printable_of_mem_ending behind).1
  cases fileType with
  | assign =>
      have kept : ∀ line ∈ lines.flatMap pieces, decide (line ≠ ['.']) = true := by
        intro line member
        rcases List.mem_flatMap.mp member with ⟨whole, inside, piece⟩
        have other : whole ≠ ['.'] := fun equal => entry whole inside (List.mem_singleton.mpr equal)
        rw [pieces] at piece
        split at piece
        · rcases List.mem_cons.mp piece with rfl | empty
          · exact decide_eq_true other
          · rw [List.mem_singleton.mp empty]
            rfl
        · rw [List.mem_singleton.mp piece]
          exact decide_eq_true other
      have period : ([['.']] : List (List Char)).flatMap pieces = [['.']] := by decide
      rw [entries, printFile_eq, readLines_printLines all, ending, List.flatMap_append,
        List.filter_append, List.filter_eq_self.mpr kept, period]
      exact List.append_nil _
  | rcpthosts =>
      change readLines (some (printFile _ lines)) = lines.flatMap pieces
      rw [printFile_eq, readLines_printLines all]
      exact congrArg (List.flatMap pieces) (List.append_nil lines)
  | virtualdomains =>
      change readLines (some (printFile _ lines)) = lines.flatMap pieces
      rw [printFile_eq, readLines_printLines all]
      exact congrArg (List.flatMap pieces) (List.append_nil lines)

theorem flatMap_pieces_of_short {lines : List (List Char)}
    (short : ∀ line ∈ lines, line.length + 1 < maxBuff) : lines.flatMap pieces = lines := by
  have single : ∀ line ∈ lines, pieces line = [line] := by
    intro line member
    have bound := short line member
    rw [pieces, if_neg (by omega)]
  rw [List.flatMap_congr single]
  exact List.flatMap_pure_eq_map id lines |>.trans (List.map_id lines)

theorem length_flatMap_pieces {lines : List (List Char)} {line : List Char} (member : line ∈ lines)
    (full : line.length + 1 = maxBuff) : lines.length < (lines.flatMap pieces).length := by
  have atLeast (others : List (List Char)) : others.length ≤ (others.flatMap pieces).length := by
    induction others with
    | nil => exact Nat.le_refl _
    | cons other others induction =>
        have own : 1 ≤ (pieces other).length := by
          rw [pieces]
          split <;> simp
        rw [List.flatMap_cons, List.length_append, List.length_cons]
        omega
  rcases List.append_of_mem member with ⟨before, after, rfl⟩
  have front := atLeast before
  have behind := atLeast after
  rw [List.flatMap_append, List.flatMap_cons, pieces, if_pos full]
  simp only [List.length_append, List.length_cons, List.length_nil]
  omega

/-! ## The steps of the update -/

section Steps

variable {stale : List Char → List Char} {fileType : FileType} {file : Option (List Char)}
  {updateLine newDomain : List Char} {records : List Record}

theorem updateFile_eq {access : UpdateAccess} (opened : access.update = .opened)
    (key : extractDomain stale fileType updateLine = .ok newDomain)
    (made : keyed stale fileType (entries fileType file) = .ok records) :
    updateFile stale access fileType updateLine file =
      if needSort [] records then
        (sortFile stale access.sort ((readLines file).length + 1) fileType
          (some (printFile fileType (insertLine newDomain updateLine records)))).map
            fun sorted => (0, sorted.2)
      else .ok (0, some (printFile fileType (insertLine newDomain updateLine records))) := by
  rw [updateFile, key, opened]
  simp only [Except.bind, made]

theorem exists_of_updateFile {access : UpdateAccess} (opened : access.update = .opened)
    {done : Int × Option (List Char)}
    (ran : updateFile stale access fileType updateLine file = .ok done) :
    ∃ newDomain records, extractDomain stale fileType updateLine = .ok newDomain ∧
      keyed stale fileType (entries fileType file) = .ok records := by
  rw [updateFile, opened] at ran
  cases key : extractDomain stale fileType updateLine with
  | error fault =>
      rw [key] at ran
      cases ran
  | ok newDomain =>
      cases made : keyed stale fileType (entries fileType file) with
      | error fault =>
          simp only [key, made, Except.bind] at ran
          cases ran
      | ok records => exact ⟨newDomain, records, rfl, rfl⟩

theorem sortFile_eq {fileLines : Nat}
    (made : keyed stale fileType (entries fileType file) = .ok records)
    (room : (entries fileType file).length ≤ fileLines) :
    sortFile stale .opened fileLines fileType file =
      .ok (0, some (printFile fileType
        ((records.insertionSort fun left right => left.1 ≤ right.1).map Prod.snd))) := by
  rw [sortFile, List.take_of_length_le room, made, Except.map, if_neg (Nat.not_lt.mpr room)]

theorem linesOf_printFile {lines : List (List Char)} (free : ∀ line ∈ lines, Free '\n' line) :
    linesOf (some (printFile fileType lines)) = lines ++ ending fileType := by
  rw [printFile_eq]
  apply linesOf_printLines
  intro line member
  rcases List.mem_append.mp member with inside | behind
  · exact free line inside
  · exact (printable_of_mem_ending behind).1.newline

theorem Clean.entries_eq (clean : Clean file) :
    entries fileType file = (linesOf file).filter (· ∉ ending fileType) := by
  cases fileType with
  | assign =>
      rw [← clean.readLines_eq]
      exact List.filter_congr fun line _ => by simp [ending]
  | rcpthosts =>
      rw [← clean.readLines_eq]
      exact (List.filter_eq_self.mpr fun line _ => by simp [ending]).symm
  | virtualdomains =>
      rw [← clean.readLines_eq]
      exact (List.filter_eq_self.mpr fun line _ => by simp [ending]).symm

theorem length_entries_le : (entries fileType file).length ≤ (readLines file).length := by
  cases fileType with
  | assign => exact List.length_filter_le _ _
  | rcpthosts => exact Nat.le_refl _
  | virtualdomains => exact Nat.le_refl _

/-- The lines that `update_file` prints. -/
theorem insertLine_perm (made : keyed stale fileType (entries fileType file) = .ok records) :
    (insertLine newDomain updateLine records).Perm (updateLine :: entries fileType file) := by
  rw [insertLine_eq, ← keyed_map made]
  exact (insertRecord_perm (newDomain, updateLine) records).map Prod.snd

theorem keys_insertRecord (key : extractDomain stale fileType updateLine = .ok newDomain)
    (made : keyed stale fileType (entries fileType file) = .ok records) :
    Keys stale fileType (insertRecord (newDomain, updateLine) records) := by
  intro record member
  rcases List.mem_cons.mp ((insertRecord_perm _ records).mem_iff.mp member) with rfl | inside
  · exact key
  · exact (keyed_eq_ok_iff.mp made).2 record inside

end Steps

/-! ## The order of the file -/

/-- Lines in the order of `sort_check`. -/
def InOrder (stale : List Char → List Char) (fileType : FileType) (lines : List (List Char)) :
    Prop :=
  ∃ records, records.map Prod.snd = lines ∧ Keys stale fileType records ∧ KeysOrdered records

/-- A file whose lines have names and fit the line buffer. -/
structure ControlFile (fileType : FileType) (file : Option (List Char)) : Prop where
  clean : Clean file
  named : ∀ line ∈ entries fileType file, HasDomain fileType line

/-- A line that can be handed to `update_file` in its buffer. -/
structure NewLine (fileType : FileType) (line : List Char) : Prop where
  printable : Printable line
  named : HasDomain fileType line

/-- Nothing is lost and nothing is out of order: the lines are the old ones and the new one
in order, with the period behind those of `users/assign`, and if the file is sorted its lines
do not outnumber the records. -/
structure Inserts (stale : List Char → List Char) (fileType : FileType) (updateLine : List Char)
    (file : Option (List Char)) : Prop where
  lines : ∃ after lines,
    updateFile stale ⟨.opened, .opened⟩ fileType updateLine file = .ok (0, after) ∧
      linesOf after = lines ++ ending fileType ∧
      lines.Perm (updateLine :: (linesOf file).filter (· ∉ ending fileType)) ∧
      InOrder stale fileType lines
  room : ∀ newDomain records result after,
    extractDomain stale fileType updateLine = .ok newDomain →
    keyed stale fileType (entries fileType file) = .ok records → needSort [] records = true →
    sortFile stale .opened ((readLines file).length + 1) fileType
      (some (printFile fileType (insertLine newDomain updateLine records))) =
        .ok (result, after) → result ≠ vaMemoryAllocErr

section Inserting

variable {stale : List Char → List Char} {fileType : FileType} {file : Option (List Char)}
  {updateLine newDomain : List Char} {records : List Record}

theorem NewLine.entry (new : NewLine fileType updateLine) : updateLine ∉ ending fileType := by
  intro member
  cases fileType with
  | assign =>
      rw [List.mem_singleton.mp member] at new
      exact absurd new.named (by decide)
  | rcpthosts => cases member
  | virtualdomains => cases member

theorem mem_insertLine_cases (control : ControlFile fileType file)
    (new : NewLine fileType updateLine)
    (made : keyed stale fileType (entries fileType file) = .ok records) {line : List Char}
    (member : line ∈ insertLine newDomain updateLine records) :
    Printable line ∧ line ∉ ending fileType ∧
      (line = updateLine ∨ line.length + 1 < maxBuff) := by
  rcases List.mem_cons.mp ((insertLine_perm made).mem_iff.mp member) with rfl | old
  · exact ⟨new.printable, new.entry, .inl rfl⟩
  · rcases Printable.of_mem_entries control.clean.fits old with ⟨printable, short⟩
    exact ⟨printable, (mem_entries.mp old).2, .inr short⟩

theorem entries_inserted (control : ControlFile fileType file)
    (new : NewLine fileType updateLine)
    (made : keyed stale fileType (entries fileType file) = .ok records) :
    entries fileType (some (printFile fileType (insertLine newDomain updateLine records))) =
      (insertLine newDomain updateLine records).flatMap pieces :=
  entries_printFile (fun _ member => (mem_insertLine_cases control new made member).1)
    (fun _ member => (mem_insertLine_cases control new made member).2.1)

theorem linesOf_inserted (control : ControlFile fileType file)
    (new : NewLine fileType updateLine)
    (made : keyed stale fileType (entries fileType file) = .ok records) :
    linesOf (some (printFile fileType (insertLine newDomain updateLine records))) =
      insertLine newDomain updateLine records ++ ending fileType :=
  linesOf_printFile fun _ member => (mem_insertLine_cases control new made member).1.newline

/-- A new line that fits with its newline is sorted with the others. -/
theorem sortFile_inserted (control : ControlFile fileType file)
    (new : NewLine fileType updateLine) (fits : updateLine.length + 1 < maxBuff)
    (key : extractDomain stale fileType updateLine = .ok newDomain)
    (made : keyed stale fileType (entries fileType file) = .ok records) :
    sortFile stale .opened ((readLines file).length + 1) fileType
        (some (printFile fileType (insertLine newDomain updateLine records))) =
      .ok (0, some (printFile fileType
        (((insertRecord (newDomain, updateLine) records).insertionSort
          fun left right => left.1 ≤ right.1).map Prod.snd))) := by
  have short : ∀ line ∈ insertLine newDomain updateLine records, line.length + 1 < maxBuff := by
    intro line member
    rcases (mem_insertLine_cases control new made member).2.2 with rfl | short
    · exact fits
    · exact short
  have same : entries fileType
      (some (printFile fileType (insertLine newDomain updateLine records))) =
        insertLine newDomain updateLine records := by
    rw [entries_inserted control new made, flatMap_pieces_of_short short]
  have count : (insertLine newDomain updateLine records).length =
      (entries fileType file).length + 1 := (insertLine_perm made).length_eq
  have fewer : (entries fileType file).length ≤ (readLines file).length := length_entries_le
  apply sortFile_eq
  · rw [same, insertLine_eq]
    exact keyed_eq_ok_iff.mpr ⟨rfl, keys_insertRecord key made⟩
  · rw [same, count]
    omega

/-- With its newline in a line of its own the new line is one too many for `sort_file`, or
leaves an empty line. -/
theorem not_inserts_of_full (control : ControlFile fileType file)
    (new : NewLine fileType updateLine) (full : updateLine.length + 1 = maxBuff)
    (key : extractDomain stale fileType updateLine = .ok newDomain)
    (made : keyed stale fileType (entries fileType file) = .ok records)
    (sorts : needSort [] records = true) : ¬ Inserts stale fileType updateLine file := by
  intro inserts
  rcases inserts.lines with ⟨after, lines, ran, afterLines, perm, -⟩
  have member : updateLine ∈ insertLine newDomain updateLine records :=
    (insertLine_perm made).mem_iff.mpr List.mem_cons_self
  have more := length_flatMap_pieces member full
  rw [← entries_inserted control new made, (insertLine_perm made).length_eq] at more
  rw [updateFile_eq rfl key made, sorts, if_pos rfl] at ran
  cases sorted : sortFile stale .opened ((readLines file).length + 1) fileType
      (some (printFile fileType (insertLine newDomain updateLine records))) with
  | error fault =>
      rw [sorted] at ran
      cases ran
  | ok done =>
      have room := inserts.room newDomain records done.1 done.2 key made sorts sorted
      rw [sorted] at ran
      cases ran
      rw [sortFile] at sorted
      cases read : keyed stale fileType ((entries fileType (some (printFile fileType
          (insertLine newDomain updateLine records)))).take ((readLines file).length + 1)) with
      | error fault =>
          rw [read] at sorted
          cases sorted
      | ok others =>
          rw [read, Except.map] at sorted
          split at sorted
          · exact room (congrArg Prod.fst (Except.ok.inj sorted)).symm
          · next fits =>
              have printed := congrArg Prod.snd (Except.ok.inj sorted)
              have sortedLines := (List.perm_insertionSort
                (fun left right : Record => left.1 ≤ right.1) others).map Prod.snd
              rw [keyed_map read, List.take_of_length_le (Nat.not_lt.mp fits)] at sortedLines
              have free : ∀ line ∈ (others.insertionSort
                  fun left right => left.1 ≤ right.1).map Prod.snd, Free '\n' line := by
                intro line inside
                exact free_of_mem_readLines
                  (mem_entries.mp (sortedLines.mem_iff.mp inside)).1
              have read := @linesOf_printFile fileType _ free
              rw [← printed] at afterLines
              have same := List.append_cancel_right (read.symm.trans afterLines)
              have count := perm.length_eq
              rw [← same, sortedLines.length_eq, ← control.clean.entries_eq] at count
              omega

section Found

variable {stale : List Char → List Char} {fileType : FileType} {file : Option (List Char)}
    {updateLine newDomain : List Char} {records : List Record}
    (control : ControlFile fileType file) (new : NewLine fileType updateLine)
    (key : extractDomain stale fileType updateLine = .ok newDomain)
    (made : keyed stale fileType (entries fileType file) = .ok records)

include control new key made

/-- A line is put in its place in a file that is in order. -/
theorem inserts_of_ordered (sorts : needSort [] records = false) :
    Inserts stale fileType updateLine file := by
  have keys := keys_insertRecord key made
  have ordered := ordered_insertRecord (newDomain, updateLine)
    (needSort_nil_eq_false_iff.mp sorts)
  constructor
  · refine ⟨_, insertLine newDomain updateLine records, ?_,
      linesOf_inserted control new made, ?_, ?_⟩
    · rw [updateFile_eq rfl key made, sorts]
      rfl
    · rw [← control.clean.entries_eq]
      exact insertLine_perm made
    · exact ⟨_, (insertLine_eq newDomain updateLine records).symm, keys, ordered⟩
  · intro otherDomain others result after otherKey otherMade otherSorts
    cases made.symm.trans otherMade
    rw [sorts] at otherSorts
    cases otherSorts

/-- A file that is not in order is sorted with its new line. -/
theorem inserts_of_sorted (fits : updateLine.length + 1 < maxBuff)
    (sorts : needSort [] records = true) : Inserts stale fileType updateLine file := by
  have keys := keys_insertRecord key made
  have sorted := sortFile_inserted control new fits key made
  have sortedPerm := List.perm_insertionSort (fun left right : Record => left.1 ≤ right.1)
    (insertRecord (newDomain, updateLine) records)
  have perm := sortedPerm.map Prod.snd
  rw [← insertLine_eq] at perm
  constructor
  · refine ⟨_, ((insertRecord (newDomain, updateLine) records).insertionSort
      fun left right => left.1 ≤ right.1).map Prod.snd, ?_, linesOf_printFile ?_, ?_, ?_⟩
    · rw [updateFile_eq rfl key made, sorts, if_pos rfl, sorted]
      rfl
    · intro line member
      exact (mem_insertLine_cases control new made
        (perm.mem_iff.mp member)).1.newline
    · rw [← control.clean.entries_eq]
      exact perm.trans (insertLine_perm made)
    · exact ⟨_, rfl, fun record member => keys record (sortedPerm.mem_iff.mp member),
        List.pairwise_insertionSort _ _⟩
  · intro otherDomain others result after otherKey otherMade _ ran
    cases key.symm.trans otherKey
    cases made.symm.trans otherMade
    rw [sorted] at ran
    cases ran
    decide

end Found

/-- The new line is inserted in order and nothing is lost exactly when no key outgrows its
buffer and, unless the file is in order, the new line fits the buffer with its newline. -/
theorem updateFile_inserts_iff (stale : List Char → List Char) (fileType : FileType)
    (file : Option (List Char)) (updateLine : List Char) (control : ControlFile fileType file)
    (new : NewLine fileType updateLine) :
    Inserts stale fileType updateLine file ↔
      (∀ line ∈ updateLine :: entries fileType file, KeyFits fileType line) ∧
        (updateLine.length + 1 < maxBuff ∨ InOrder stale fileType (entries fileType file)) := by
  have oldShort : ∀ line ∈ entries fileType file, line.length < maxBuff :=
    fun line member => (Printable.of_mem_entries control.clean.fits member).1.short
  constructor
  · intro inserts
    rcases inserts.lines with ⟨after, lines, ran, -⟩
    rcases exists_of_updateFile rfl ran with ⟨newDomain, records, key, made⟩
    refine ⟨List.forall_mem_cons.mpr ⟨?_, ?_⟩, ?_⟩
    · exact (exists_key_iff new.named new.printable.short).mp ⟨newDomain, key⟩
    · exact (exists_keyed_iff control.named oldShort).mp ⟨records, made⟩
    · cases order : needSort [] records with
      | false =>
          exact .inr ⟨records, keyed_map made, (keyed_eq_ok_iff.mp made).2,
            needSort_nil_eq_false_iff.mp order⟩
      | true =>
          apply Or.inl
          have short := new.printable.short
          by_contra long
          exact not_inserts_of_full control new (by omega) key made order inserts
  · intro condition
    rcases condition with ⟨rooms, order⟩
    rcases List.forall_mem_cons.mp rooms with ⟨newRoom, oldRoom⟩
    have newKey : ∃ newDomain, extractDomain stale fileType updateLine = .ok newDomain :=
      (exists_key_iff new.named new.printable.short).mpr newRoom
    have oldKeys : ∃ records, keyed stale fileType (entries fileType file) = .ok records :=
      (exists_keyed_iff control.named oldShort).mpr oldRoom
    rcases newKey with ⟨newDomain, key⟩
    rcases oldKeys with ⟨records, made⟩
    cases sorts : needSort [] records with
    | false => exact inserts_of_ordered control new key made sorts
    | true =>
        have fits : updateLine.length + 1 < maxBuff := by
          rcases order with fits | inOrder
          · exact fits
          · rcases inOrder with ⟨others, lines, othersKeys, ordered⟩
            cases made.symm.trans (keyed_eq_ok_iff.mpr ⟨lines, othersKeys⟩)
            rw [needSort_nil_eq_false_iff.mpr ordered] at sorts
            cases sorts
        exact inserts_of_sorted control new key made fits sorts

end Inserting

/-- A file that is not in order. -/
def unsortedHosts : Option (List Char) := some ['b', '.', 'd', '\n', 'a', '.', 'd', '\n']

theorem controlFile_unsortedHosts : ControlFile .rcpthosts unsortedHosts where
  clean := ⟨by unfold Fits; decide +kernel, by unfold Plain Free; decide +kernel⟩
  named := by decide +kernel

theorem newLine_of_free {line : List Char} (newline : Free '\n' line) (plain : Free nul line)
    (short : line.length < maxBuff) : NewLine .rcpthosts line :=
  ⟨⟨newline, plain, short⟩, rfl⟩

theorem updateFile_inserts_unsortedHosts :
    Inserts id .rcpthosts ['c', '.', 'd'] unsortedHosts :=
  (updateFile_inserts_iff id .rcpthosts unsortedHosts ['c', '.', 'd'] controlFile_unsortedHosts
    (newLine_of_free (by decide) (by decide) (by decide))).mpr
    ⟨by decide +kernel, .inl (by decide)⟩

/-- A name of ten labels that `vadddomain` accepts. -/
def tenLabels : List Char :=
  List.replicate 39 'a' ++ '.' :: List.replicate 38 'b' ++
    ['.', 'c', '.', 'd', '.', 'e', '.', 'f', '.', 'g', '.', 'h', '.', 'i', '.', 'j']

/-- Its key repeats the two long labels and overruns the buffer. -/
theorem updateFile_overruns_tenLabels :
    checkDomainName tenLabels = .success ∧ ControlFile .rcpthosts none ∧
      NewLine .rcpthosts tenLabels ∧ ¬ Inserts id .rcpthosts tenLabels none := by
  have overrun : extractDomain id .rcpthosts tenLabels = .error .outOfBounds := by decide +kernel
  refine ⟨by decide +kernel, ⟨⟨by unfold Fits; decide +kernel,
    by unfold Plain Free; decide +kernel⟩, by decide +kernel⟩,
    newLine_of_free (by decide) (by decide) (by decide), ?_⟩
  intro inserts
  rcases inserts.lines with ⟨after, lines, ran, -⟩
  rcases exists_of_updateFile rfl ran with ⟨newDomain, records, key, -⟩
  rw [overrun] at key
  cases key

end Vpopmail
