import Mathlib.Data.Char
import Mathlib.Data.List.Lex
import Mathlib.Data.List.Sort
import Vpopmail.ControlFiles
import Vpopmail.Foundation.Buffer

/-! # Adding lines to the control files

`update_file` puts a line in front of the first one with a larger key, the name
of its domain with the last two parts in front, and sorts a file that is not in
order of the keys.
-/

namespace Vpopmail

open Text Vpopmail.Stream Buffer

/-- `file_type`. -/
inductive FileType
  | assign
  | rcpthosts
  | virtualdomains
  deriving DecidableEq

/-! ## Keys -/

/-- The calls of `strtok` that fill `parts`. -/
def domainParts : (limit : Nat) → List Char → List (List Char)
  | 0, _ => []
  | limit + 1, text =>
      match strtok (· = '.') text with
      | none => []
      | some (part, rest) => part :: domainParts limit rest

/-- The last two of the parts put in front. The loop that makes room for them copies
upwards, so that it repeats the first two parts. -/
def juggleParts (parts : List (List Char)) : List (List Char) :=
  let count := parts.length - 2
  let moved := (List.range count).foldl
    (fun parts index => parts.set (index + 2) (parts.getD index [])) parts
  (moved.set 0 (parts.getD count [])).set 1 (parts.getD (count + 1) [])

/-- The text of the line that is the domain. A line of `users/assign` may have none. -/
def domainText (fileType : FileType) (line : List Char) : Option (List Char) :=
  match fileType with
  | .assign =>
      match (line.drop 1).takeWhile (· ≠ ':') with
      | [] => none
      | text => some text.dropLast
  | _ => some (line.takeWhile (· ≠ ':'))

/-- `extract_domain` into a buffer of `MAX_BUFF` cells, which is not written for a line
without a domain: `stale` is what comes of it then. -/
def extractDomain (stale : List Char → List Char) (fileType : FileType) (line : List Char) :
    Checked (List Char) :=
  match domainText fileType line with
  | none => .ok (stale line)
  | some domain =>
      let parts := domainParts 10 domain
      let key := if parts.length ≤ 1 then domain else ['.'].intercalate (juggleParts parts)
      if domain.length < maxBuff ∧ key.length < maxBuff then .ok key else .error .outOfBounds

/-! ## Files -/

/-- A line with its key, as in `sortrec`. -/
abbrev Record := List Char × List Char

/-- The lines that are carried over. -/
def entries (fileType : FileType) (file : Option (List Char)) : List (List Char) :=
  match fileType with
  | .assign => (readLines file).filter (· ≠ ['.'])
  | _ => readLines file

/-- `extract_domain` of one line after the other. -/
def keyed (stale : List Char → List Char) (fileType : FileType) :
    List (List Char) → Checked (List Record)
  | [] => .ok []
  | line :: lines =>
      (extractDomain stale fileType line).bind fun key =>
        (keyed stale fileType lines).map fun records => (key, line) :: records

/-- `users/assign` ends in a line with a period. -/
def printFile (fileType : FileType) (lines : List (List Char)) : List Char :=
  match fileType with
  | .assign => printLines (lines ++ [['.']])
  | _ => printLines lines

def insertLine (newDomain updateLine : List Char) : List Record → List (List Char)
  | [] => [updateLine]
  | (curDomain, line) :: records =>
      if newDomain < curDomain then updateLine :: line :: records.map Prod.snd
      else line :: insertLine newDomain updateLine records

def needSort (prvDomain : List Char) : List Record → Bool
  | [] => false
  | (curDomain, _) :: records => curDomain < prvDomain || needSort curDomain records

def vaMemoryAllocErr : Int := -24

/-- `sort_file`, with room for `fileLines` entries. -/
def sortFile (stale : List Char → List Char) (access : FileAccess) (fileLines : Nat)
    (fileType : FileType) (file : Option (List Char)) : Checked (Int × Option (List Char)) :=
  match access with
  | .locked => .ok (-1, file)
  | .unavailable => .ok (vaCouldNotUpdateFile, file)
  | .opened =>
      (keyed stale fileType ((entries fileType file).take fileLines)).map fun records =>
        if fileLines < (entries fileType file).length then (vaMemoryAllocErr, file)
        else (0, some (printFile fileType
          ((records.insertionSort (fun left right => left.1 ≤ right.1)).map Prod.snd)))

/-- The access of `update_file`, and of `sort_file` behind it. -/
structure UpdateAccess where
  update : FileAccess
  sort : FileAccess

/-- `update_file`. -/
def updateFile (stale : List Char → List Char) (access : UpdateAccess) (fileType : FileType)
    (updateLine : List Char) (file : Option (List Char)) : Checked (Int × Option (List Char)) :=
  (extractDomain stale fileType updateLine).bind fun newDomain =>
    match access.update with
    | .locked => .ok (-1, file)
    | .unavailable => .ok (vaCouldNotUpdateFile, file)
    | .opened =>
        (keyed stale fileType (entries fileType file)).bind fun records =>
          let updated := some (printFile fileType (insertLine newDomain updateLine records))
          if needSort [] records then
            (sortFile stale access.sort ((readLines file).length + 1) fileType updated).map
              fun sorted => (0, sorted.2)
          else .ok (0, updated)

/-- `count_rcpthosts`. -/
def countRcpthosts (opens : Bool) (file : Option (List Char)) : Nat :=
  if opens then (readLines file).length else 0

end Vpopmail
