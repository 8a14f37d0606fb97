import Mathlib.Data.Char
import Mathlib.Data.List.Lex
import Mathlib.Data.List.Sort
import Vpopmail.ControlFiles
import Vpopmail.Names

/-! # The alias files of a domain

The functions of `vpalias.c`. An alias is a file `.qmail-alias` in the directory of its
domain, with colons for the periods of the name. A file that does not exist is `none`.
-/

namespace Vpopmail

open Text Vpopmail.Stream

def maxAliasLine : Nat := 160

def maxFileSize : Nat := 156

def vaAliasLineTooLong : Int := -32

/-- The files by their paths. -/
abbrev Files := List Char → Option (List Char)

/-- What `vget_assign` finds for a domain: the name that it leaves in the argument, and the
directory. -/
abbrev DomainLookup := List Char → Option (List Char × List Char)

/-! ## Paths -/

def colonOfPeriod (char : Char) : Char := if char = '.' then ':' else char

def periodOfColon (char : Char) : Char := if char = ':' then '.' else char

def qmailPrefix : List Char := ['.', 'q', 'm', 'a', 'i', 'l', '-']

/-- A directory that leaves room for `/.qmail-` in the buffers of 156 cells. Only behind longer
ones, which `vadddomain` does not make, the functions leave their buffers. -/
def Roomy (dir : List Char) : Prop := dir.length + 1 + qmailPrefix.length < maxFileSize

instance (dir : List Char) : Decidable (Roomy dir) :=
  inferInstanceAs (Decidable (_ < maxFileSize))

/-- The path of an alias in a roomy directory, of which a buffer takes the front. -/
def aliasPath (dir aliasName : List Char) : List Char :=
  snprintf maxFileSize (dir ++ '/' :: qmailPrefix ++ aliasName.map colonOfPeriod)

/-! ## Changes -/

section Changes

variable (lookup : DomainLookup)

/-- The checks on the names: the code of the first that fails. -/
def aliasNamesCode (aliasName domain : List Char) : Option Int :=
  if maxPwName < aliasName.length then some VaCode.userNameTooLong.number
  else if maxPwDomain < domain.length then some VaCode.domainNameTooLong.number
  else none

/-- The checks of the functions that take a line. -/
def aliasLineCode (aliasName domain aliasLine : List Char) : Option Int :=
  match aliasNamesCode aliasName domain with
  | some code => some code
  | none => if maxAliasLine ≤ aliasLine.length then some vaAliasLineTooLong else none

/-- `vpalias_insert`, where `opens` says whether the file can be opened. -/
def vpaliasInsert (opens : Bool) (aliasName domain aliasLine : List Char) (files : Files) :
    Int × Files :=
  match aliasLineCode aliasName domain aliasLine with
  | some code => (code, files)
  | none =>
      match lookup domain with
      | none => (-1, files)
      | some (_, dir) =>
          let path := aliasPath dir aliasName
          if opens then
            (0, Function.update files path (some ((files path).getD [] ++ aliasLine ++ ['\n'])))
          else (-1, files)

def lineBufSize : Nat := 512

/-- What is written for a chunk of the old file. -/
def copyChunk (aliasLine chunk : List Char) : List Char :=
  if aliasLine <+: cstring chunk then [] else cstring chunk

/-- The new file of `vpalias_remove`. -/
def copyLines (aliasLine text : List Char) : List Char :=
  (fgetsLoop lineBufSize text).flatMap (copyChunk aliasLine)

/-- `vpalias_remove`, where `opens` says whether the temporary file can be opened. -/
def vpaliasRemove (opens : Bool) (aliasName domain aliasLine : List Char) (files : Files) :
    Int × Files :=
  match aliasLineCode aliasName domain aliasLine with
  | some code => (code, files)
  | none =>
      match lookup domain with
      | none => (-1, files)
      | some (_, dir) =>
          let path := aliasPath dir aliasName
          match files path with
          | none => (-1, files)
          | some text =>
              if opens then
                (0, Function.update (Function.update files (path ++ ['.', 'n', 'e', 'w']) none)
                  path (some (copyLines aliasLine text)))
              else (-1, files)

/-- `vpalias_delete`. -/
def vpaliasDelete (aliasName domain : List Char) (files : Files) : Int × Files :=
  match aliasNamesCode aliasName domain with
  | some code => (code, files)
  | none =>
      match lookup domain with
      | none => (-1, files)
      | some (_, dir) =>
          let path := aliasPath dir aliasName
          if (files path).isSome then (0, Function.update files path none) else (-1, files)

end Changes

/-! ## Enumeration -/

/-- An entry of a directory. -/
structure DirEntry where
  name : List Char
  isLink : Bool

/-- What the enumeration does with memory that is not its own: `free` of an array that was freed
before, or a directory read behind its buffer. -/
inductive AliasFault
  | doubleFree
  | outOfBounds
  deriving DecidableEq

/-- The pointer `names`: to nothing, to an array, or to one that has been freed. -/
inductive NameArray
  | null
  | array (names : List (List Char))
  | freed
  deriving DecidableEq

/-- The `realloc` at the end of `vpalias_select_names`. For no names it frees the array, and
the pointer stays. -/
def shrinkNames (names : List (List Char)) : NameArray :=
  if names = [] then .freed else .array names

/-- The static variables: what is still to be read of the open file, and the names with the
position of the next one. -/
structure AliasScan where
  aliasFs : Option (List Char)
  names : NameArray
  curName : Nat
  myDomain : List Char

def AliasScan.initial : AliasScan := ⟨none, .null, 0, []⟩

/-- `vpalias_select_next`. -/
def vpaliasSelectNext (scan : AliasScan) : Option (List Char) × AliasScan :=
  match scan.aliasFs with
  | none => (none, scan)
  | some stream =>
      match fgets maxAliasLine stream with
      | none => (none, { scan with aliasFs := none })
      | some (chunk, rest) => (some (trimLine chunk), { scan with aliasFs := some rest })

/-- `vpalias_select_names_next`. -/
def vpaliasSelectNamesNext (scan : AliasScan) : Option (List Char) × AliasScan :=
  match scan.names with
  | .null | .freed => (none, scan)
  | .array names =>
      match names[scan.curName]? with
      | none => (none, scan)
      | some name => (some name, { scan with curName := scan.curName + 1 })

def defaultSuffix : List Char := ['-', 'd', 'e', 'f', 'a', 'u', 'l', 't']

def ownerSuffix : List Char := ['-', 'o', 'w', 'n', 'e', 'r']

/-- `.qmail-default`. -/
def qmailDefault : List Char := qmailPrefix.dropLast ++ defaultSuffix

/-- Whether an entry is counted: of a mailing list, which is a link, only the base name. -/
def countIt (entry : DirEntry) : Bool :=
  qmailPrefix <+: entry.name && entry.name ≠ qmailDefault &&
    (!entry.isLink || (!(defaultSuffix <:+: entry.name) && !(ownerSuffix <:+: entry.name)))

def aliasName (fileName : List Char) : List Char :=
  (fileName.drop qmailPrefix.length).map periodOfColon

/-- `sort_compare`. -/
def sortCompare (left right : List Char) : Prop := left.map lowerChar ≤ right.map lowerChar

instance (left right : List Char) : Decidable (sortCompare left right) :=
  inferInstanceAs (Decidable (left.map lowerChar ≤ right.map lowerChar))

/-- The names that `vpalias_select_names` collects. -/
def collectNames (entries : List DirEntry) : List (List Char) :=
  ((entries.filter countIt).map fun entry => aliasName entry.name).insertionSort sortCompare

section Select

variable (lookup : DomainLookup) (readdir : List Char → List DirEntry) (files : Files)

/-- `vpalias_select`, and what it leaves in the domain. -/
def vpaliasSelect (aliasName domain : List Char) (scan : AliasScan) :
    Option (List Char) × List Char × AliasScan :=
  if (aliasNamesCode aliasName domain).isSome then (none, domain, scan)
  else
    let scan := { scan with aliasFs := none }
    match lookup domain with
    | none => (none, domain, scan)
    | some (domain, dir) =>
        match files (aliasPath dir aliasName) with
        | none => (none, domain, scan)
        | some text =>
            let next := vpaliasSelectNext { scan with aliasFs := some text }
            (next.1, domain, next.2)

/-- `vpalias_select_names` of a directory that can be read. It frees the names of the call
before. -/
def vpaliasSelectNames (domain : List Char) (scan : AliasScan) :
    Except AliasFault (Option (List Char) × AliasScan) :=
  if maxPwDomain < domain.length then .ok (none, scan)
  else
    let scan := { scan with aliasFs := none }
    match lookup domain with
    | none => .ok (none, scan)
    | some (_, dir) =>
        if scan.names = .freed then .error .doubleFree
        else if maxFileSize ≤ dir.length then .error .outOfBounds
        else
          .ok (vpaliasSelectNamesNext
            { scan with
              names := shrinkNames (collectNames (readdir dir))
              curName := if scan.names = .null then scan.curName else 0 })

/-- `vpalias_select_all`: the alias and its first line. -/
def vpaliasSelectAll (domain : List Char) (scan : AliasScan) :
    Except AliasFault (Option (List Char × List Char) × AliasScan) :=
  if maxPwDomain ≤ domain.length then .ok (none, scan)
  else
    let scan := { scan with aliasFs := none }
    match lookup domain with
    | none => .ok (none, scan)
    | some (domain, _) =>
        (vpaliasSelectNames lookup readdir domain scan).map fun
          | (none, scan) => (none, scan)
          | (some name, scan) =>
              let domain := ((lookup domain).map Prod.fst).getD domain
              let selected :=
                vpaliasSelect lookup files name domain { scan with myDomain := domain }
              (selected.1.map fun line => (name, line), selected.2.2)

/-- `vpalias_select_all_next` with the alias of the line before. -/
def vpaliasSelectAllNext (aliasName : List Char) (scan : AliasScan) :
    Option (List Char × List Char) × AliasScan :=
  match vpaliasSelectNext scan with
  | (some line, scan) => (some (aliasName, line), scan)
  | (none, scan) =>
      match vpaliasSelectNamesNext scan with
      | (none, scan) => (none, scan)
      | (some name, scan) =>
          let selected := vpaliasSelect lookup files name scan.myDomain scan
          (selected.1.map fun line => (name, line),
            { selected.2.2 with myDomain := selected.2.1 })

/-- The calls of `vpalias_select_all_next` up to the first that returns a null pointer. -/
inductive YieldsRest : List Char → AliasScan → List (List Char × List Char) → Prop
  | done {aliasName : List Char} {scan : AliasScan} :
      (vpaliasSelectAllNext lookup files aliasName scan).1 = none →
        YieldsRest aliasName scan []
  | more {aliasName name line : List Char} {scan after : AliasScan}
      {pairs : List (List Char × List Char)} :
      vpaliasSelectAllNext lookup files aliasName scan = (some (name, line), after) →
        YieldsRest name after pairs → YieldsRest aliasName scan ((name, line) :: pairs)

/-- A whole enumeration: `vpalias_select_all` and the calls behind it. -/
inductive Yields (domain : List Char) (scan : AliasScan) : List (List Char × List Char) → Prop
  | none {after : AliasScan} :
      vpaliasSelectAll lookup readdir files domain scan = .ok (none, after) →
        Yields domain scan []
  | some {name line : List Char} {after : AliasScan} {pairs : List (List Char × List Char)} :
      vpaliasSelectAll lookup readdir files domain scan = .ok (some (name, line), after) →
        YieldsRest lookup files name after pairs → Yields domain scan ((name, line) :: pairs)

end Select

end Vpopmail
