import Vpopmail.Types
import Vpopmail.Foundation.Decimal
import Vpopmail.Foundation.Stream

/-! # Free directories

`backfill.c`: the file `.dir_control_free` lists directories that deleted users
left behind.
-/

namespace Vpopmail.Backfill

open Vpopmail Text Vpopmail.Stream

/-- The copying loop of `remove_line`, with the count of the lines left out. -/
def copyOthers (template : List Char) (onceOnly : Bool) :
    (found : Nat) → List (List Char) → List Char × Nat
  | found, [] => ([], found)
  | found, chunk :: chunks =>
      let line := (cstring chunk).takeWhile (· ≠ '\n')
      if onceOnly && found % 2 = 1 || !template.isPrefixOf line then
        let (rest, total) := copyOthers template onceOnly found chunks
        (line ++ '\n' :: rest, total)
      else copyOthers template onceOnly (found + 1) chunks

/-- `remove_line`, where the files can be moved and opened or not. -/
def removeLine (opened : Bool) (template : List Char) (file : Option (List Char))
    (onceOnly : Bool) : Int × Option (List Char) :=
  match file with
  | none => (-1, none)
  | some text =>
      if !opened then (-1, file)
      else
        let (kept, found) := copyOthers template onceOnly 0 (fgetsLoop maxBuff text)
        (found, some kept)

/-- The search of `backfill` for a line with an entry. A piece without its
newline ends it. -/
def freeEntryIn : List (List Char) → Option (List Char)
  | [] => none
  | chunk :: chunks =>
      let line := cstring chunk
      if line.getLast? ≠ some '\n' then none
      else
        let entry := (line.takeWhile (· ≠ '#')).dropWhile Decimal.isSpace
        if entry = [] then freeEntryIn chunks
        else some (if '#' ∈ line then entry else entry.dropLast)

/-- The entry that operation 1 of `backfill` hands out. -/
def freeEntry (file : Option (List Char)) : Option (List Char) :=
  file.bind fun text => freeEntryIn (fgetsLoop (maxBuff - 2) text)

def strstr (haystack needle : List Char) : Option Nat :=
  (List.range (haystack.length + 1)).find? fun position =>
    needle.isPrefixOf (haystack.drop position)

/-- The entry that operation 2 of `backfill` makes of a user's directory: what
stands between the first `domain` and the first `username`. -/
def freedEntry (username domain path : List Char) : Option (List Char) :=
  let path := path.take maxBuff
  let above :=
    match strstr path username with
    | none => path
    | some position =>
        if path[position - 1]? = some '/' then path.take (position - 1) else path
  match strstr above domain with
  | none => none
  | some position =>
      let rest := above.drop (position + domain.length)
      let entry := if rest.head? = some '/' then rest.tail else rest
      if entry = [] then none else some entry

/-- The file after operation 2, where it can be opened or not. -/
def addEntry (opened : Bool) (file : Option (List Char)) (entry : Option (List Char)) :
    Option (List Char) :=
  match entry with
  | none => file
  | some entry => if opened then some (file.getD [] ++ entry ++ ['\n']) else file

end Vpopmail.Backfill
