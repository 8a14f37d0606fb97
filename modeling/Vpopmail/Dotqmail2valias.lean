import Vpopmail.AliasFiles
import Vpopmail.Backfill

/-! # Conversion of `.qmail` files

`conv_domain` of `dotqmail2valias.c`, which moves the lines of the files `.qmail-alias` of a
domain into the table of aliases. The program is built with neither
`DELETE_OLD_VALIAS_ENTRIES` nor `DELETE_OLD_DOTQMAIL_FILES`.
-/

namespace Vpopmail.Dotqmail2valias

open Vpopmail Text Vpopmail.Stream

/-! ## Lines -/

def ezmlmDash : List Char := ['/', 'e', 'z', 'm', 'l', 'm', '-']

/-- Position of the first character of a kind. -/
def strchr (text : List Char) (char : Char) : Option Nat :=
  if char ∈ text then some (text.idxOf char) else none

/-- A program delivery with `/ezmlm-` in front of the first blank. -/
def isListLine (aliasLine : List Char) : Bool :=
  aliasLine.head? = some '|' &&
    match Backfill.strstr aliasLine ezmlmDash, strchr aliasLine ' ' with
    | none, _ => false
    | some _, none => true
    | some p1, some p2 => p1 < p2

/-- The string in `alias_line` without its newline. -/
def storedLine (aliasLine : List Char) : List Char := (cstring aliasLine).takeWhile (· ≠ '\n')

/-- The rows of a domain by the names of the aliases. -/
abbrev AliasRows := List Char → List (List Char)

/-- The loop over a file, where `accepts` says which calls of `valias_insert` succeed. It
ends behind the first line of a list, and says whether there was none. -/
def insertLines (accepts : Nat → Bool) :
    (linecount : Nat) → List (List Char) → List (List Char) → List (List Char) × Bool
  | _, [], rows => (rows, true)
  | linecount, aliasLine :: others, rows =>
      let rows := if accepts linecount then rows ++ [storedLine aliasLine] else rows
      if isListLine (cstring aliasLine) then (rows, false)
      else insertLines accepts (linecount + 1) others rows

/-! ## Files -/

structure DotQmail where
  name : List Char
  text : List Char
  readable : Bool
  deriving DecidableEq

/-- The directory of a domain and the table of aliases. -/
structure State where
  files : List DotQmail
  rows : AliasRows

def defaultName : List Char := qmailPrefix ++ ['d', 'e', 'f', 'a', 'u', 'l', 't']

/-- The entries of the directory that are converted. -/
def isCandidate (name : List Char) : Bool := name ≠ defaultName && qmailPrefix.isPrefixOf name

def username (name : List Char) : List Char :=
  (snprintf maxBuff (name.drop qmailPrefix.length)).map periodOfColon

section Conversion

variable (domainpath : List Char)

def pathOf (name : List Char) : List Char := domainpath ++ '/' :: name

/-- `dotqmail_fn`. -/
def dotqmailFn (name : List Char) : List Char := snprintf maxBuff (pathOf domainpath name)

/-- What `fopen` reads at a path. -/
def fopen (files : List DotQmail) (path : List Char) : Option (List Char) :=
  (files.find? fun file => file.readable && pathOf domainpath file.name = path).map DotQmail.text

def unlink (files : List DotQmail) (path : List Char) : List DotQmail :=
  files.filter fun file => pathOf domainpath file.name ≠ path

variable (accepts : List Char → Nat → Bool)

/-- The body of the loop over the directory, for the entry `name`. -/
def convEntry (state : State) (name : List Char) : State :=
  if !isCandidate name then state
  else if state.rows (username name) ≠ [] then state
  else
    match fopen domainpath state.files (dotqmailFn domainpath name) with
    | none => state
    | some text =>
        let inserted := insertLines (accepts name) 0 (fgetsLoop maxAliasLine text)
          (state.rows (username name))
        if inserted.2 then
          { files := unlink domainpath state.files (dotqmailFn domainpath name)
            rows := Function.update state.rows (username name) inserted.1 }
        else { state with rows := Function.update state.rows (username name) [] }

end Conversion

/-- `conv_domain`: `looked` is what `vget_assign` finds of the domain, and `opens` whether
the directory can be opened. -/
def convDomain (looked : Option (List Char × List Char)) (opens : Bool)
    (accepts : List Char → Nat → Bool) (domain : List Char) (state : State) : Int × State :=
  match looked with
  | none => (-1, state)
  | some (domcopy, domainpath) =>
      if domain ≠ domcopy then (-1, state)
      else if !opens then (-1, state)
      else (0, (state.files.map DotQmail.name).foldl (convEntry domainpath accepts) state)

/-! ## One file -/

/-- The rows that the insertions of some lines make. -/
def acceptedLines (accepts : Nat → Bool) : (linecount : Nat) → List (List Char) → List (List Char)
  | _, [] => []
  | linecount, aliasLine :: others =>
      (if accepts linecount then [storedLine aliasLine] else []) ++
        acceptedLines accepts (linecount + 1) others

theorem insertLines_eq (accepts : Nat → Bool) (linecount : Nat)
    (lines rows : List (List Char)) :
    (insertLines accepts linecount lines rows).2 =
        !(lines.any fun aliasLine => isListLine (cstring aliasLine)) ∧
      ((insertLines accepts linecount lines rows).2 = true →
        (insertLines accepts linecount lines rows).1 =
          rows ++ acceptedLines accepts linecount lines) := by
  induction lines generalizing linecount rows with
  | nil => exact ⟨rfl, fun _ => (List.append_nil rows).symm⟩
  | cons aliasLine lines induction =>
      rw [insertLines, acceptedLines, List.any_cons]
      cases marked : isListLine (cstring aliasLine) with
      | true =>
          rw [if_pos rfl, Bool.true_or]
          exact ⟨rfl, fun ended => by cases ended⟩
      | false =>
          rcases induction (linecount + 1)
            (if accepts linecount then rows ++ [storedLine aliasLine] else rows) with
            ⟨ends, inserted⟩
          rw [if_neg Bool.false_ne_true, Bool.false_or]
          refine ⟨ends, fun whole => ?_⟩
          rw [inserted whole]
          split
          · rw [List.append_assoc]
          · rw [List.nil_append]

theorem acceptedLines_of_accepts {accepts : Nat → Bool} {linecount : Nat}
    {lines : List (List Char)}
    (all : ∀ position < lines.length, accepts (linecount + position) = true) :
    acceptedLines accepts linecount lines = lines.map storedLine := by
  induction lines generalizing linecount with
  | nil => rfl
  | cons aliasLine lines induction =>
      have first : accepts linecount = true := all 0 (Nat.zero_lt_succ _)
      have others : acceptedLines accepts (linecount + 1) lines = lines.map storedLine := by
        apply induction
        intro position inside
        rw [Nat.add_right_comm]
        exact all (position + 1) (Nat.succ_lt_succ inside)
      rw [acceptedLines, first, if_pos rfl, others]
      rfl

/-! ## Lines that are stored as they are -/

/-- The lines that the loop hands over for a file. -/
def linesRead (text : List Char) : List (List Char) := fgetsLoop maxAliasLine text

/-- A line loses what is behind a NUL. -/
theorem storedLine_eq_iff {body tail : List Char} (free : Free '\n' body) (ends : Ends tail) :
    storedLine (body ++ tail) = body ↔ Free nul body := by
  constructor
  · intro stored
    have inside : ∀ char ∈ storedLine (body ++ tail), char ≠ nul := by
      intro char member
      have cells := (List.takeWhile_sublist _).subset member
      have plain := List.mem_takeWhile_imp cells
      exact of_decide_eq_true plain
    rw [stored] at inside
    exact fun member => inside nul member rfl
  · intro plain
    have cells : cstring (body ++ tail) = body ++ tail := by
      apply cstring_of_free
      rcases ends with rfl | rfl
      · rwa [List.append_nil]
      · exact free_append.mpr ⟨plain, by decide⟩
    rw [storedLine, cells]
    rcases ends with rfl | rfl
    · rw [List.append_nil, takeWhile_ne_of_free free]
    · rw [takeWhile_ne_append_cons free]

theorem map_storedLine_wholeLines (text : List Char) :
    (wholeLines text).map storedLine = fileLines text ↔ Free nul text := by
  induction text using lines_induction with
  | empty => exact ⟨fun _ => free_nil nul, fun _ => rfl⟩
  | last body free nonempty =>
      have stored := storedLine_eq_iff free (.inl rfl)
      rw [List.append_nil] at stored
      rw [wholeLines_of_free free nonempty, fileLines_of_free free nonempty, List.map_singleton,
        List.singleton_inj, stored]
  | line body rest free induction =>
      rw [wholeLines_line free, fileLines_line free, List.map_cons, List.cons_eq_cons, induction,
        storedLine_eq_iff free (.inr rfl), free_append, free_cons]
      have newline : nul ≠ '\n' := by decide
      simp only [ne_eq, newline, not_false_eq_true, true_and]

/-- The rows of a file are its lines if all of them are read at once, and none has a NUL. -/
theorem map_storedLine_iff (text : List Char) :
    (linesRead text).map storedLine = fileLines text ↔
      Free nul text ∧ ∀ line ∈ wholeLines text, line.length < maxAliasLine := by
  have counted := (length_fgetsLoop (show 1 < maxAliasLine by decide) text).2
  constructor
  · intro same
    have lengths := congrArg List.length same
    rw [List.length_map] at lengths
    have fits := counted.mp lengths
    rw [linesRead, fgetsLoop_wholeLines (by decide) fits] at same
    exact ⟨(map_storedLine_wholeLines text).mp same, fits⟩
  · rintro ⟨plain, fits⟩
    rw [linesRead, fgetsLoop_wholeLines (by decide) fits]
    exact (map_storedLine_wholeLines text).mpr plain

end Vpopmail.Dotqmail2valias
