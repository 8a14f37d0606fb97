import Vpopmail.Foundation.Stream
import Vpopmail.Types

/-! # The control files of qmail

The files of `vpopmail.c` that name the domains, how lines are removed from
them, and the lists of strings that say which. A file that does not exist is
`none`.
-/

namespace Vpopmail

open Text Vpopmail.Stream

/-- `snprintf` into a buffer. -/
def snprintf (size : Nat) (text : List Char) : List Char := text.take (size - 1)

/-! ## Lists of strings -/

/-- `string_list`, where the room for `values` is not their number. -/
structure StringList where
  size : Nat
  values : List (List Char)

def stringListInit (initial : Nat) : StringList :=
  let size := (initial + 3) / 4 * 4
  ⟨if size = 0 then 4 else size, []⟩

/-- `string_list_add`: a list that is full gets room, but not the value. -/
def stringListAdd (list : StringList) (value : List Char) : StringList :=
  if list.size - 2 ≤ list.values.length then { list with size := list.size + 8 }
  else { list with values := list.values ++ [value] }

def stringListOf (initial : Nat) (values : List (List Char)) : StringList :=
  values.foldl stringListAdd (stringListInit initial)

/-- What remains of some values when there is room for the next ones: when the room is
used up one value is lost, and there is room for eight. -/
def kept : (room : Nat) → List (List Char) → List (List Char)
  | _, [] => []
  | 0, _ :: values => kept 8 values
  | room + 1, value :: values => value :: kept room values

theorem foldl_stringListAdd (values : List (List Char)) {list : StringList} {room : Nat}
    (space : list.size = list.values.length + room + 2) :
    (values.foldl stringListAdd list).values = list.values ++ kept room values := by
  induction values generalizing list room with
  | nil => simp [kept]
  | cons value values induction =>
      rw [List.foldl_cons, stringListAdd]
      cases room with
      | zero =>
          rw [if_pos (by omega)]
          exact induction (show list.size + 8 = list.values.length + 8 + 2 by omega)
      | succ room =>
          have later : list.size = (list.values ++ [value]).length + room + 2 := by
            rw [List.length_append, List.length_singleton]
            omega
          rw [if_neg (by omega), induction later]
          simp [kept]

theorem stringListOf_ten (values : List (List Char)) :
    (stringListOf 10 values).values = kept 10 values :=
  foldl_stringListAdd values
    (show (stringListInit 10).size = (stringListInit 10).values.length + 10 + 2 from rfl)

theorem mem_of_mem_kept {room : Nat} {values : List (List Char)} {value : List Char}
    (member : value ∈ kept room values) : value ∈ values := by
  induction values generalizing room with
  | nil => cases member
  | cons head values induction =>
      cases room with
      | zero => exact List.mem_cons_of_mem _ (induction member)
      | succ room =>
          rcases List.mem_cons.mp member with own | later
          · exact own ▸ List.mem_cons_self
          · exact List.mem_cons_of_mem _ (induction later)

theorem kept_map (change : List Char → List Char) (room : Nat) (values : List (List Char)) :
    kept room (values.map change) = (kept room values).map change := by
  induction values generalizing room with
  | nil => simp [kept]
  | cons head values induction =>
      cases room with
      | zero => exact induction 8
      | succ room => rw [List.map_cons, kept, kept, List.map_cons, induction]

/-- Nothing is lost of up to ten values. -/
theorem kept_of_length_le {room : Nat} {values : List (List Char)}
    (few : values.length ≤ room) : kept room values = values := by
  induction values generalizing room with
  | nil => cases room <;> rfl
  | cons head values induction =>
      cases room with
      | zero => cases few
      | succ room => rw [kept, induction (Nat.le_of_succ_le_succ few)]

/-! ## Removing lines -/

/-- `users/assign`, and the files of `control`. -/
structure Qmail where
  assign : Option (List Char)
  rcpthosts : Option (List Char)
  morercpthosts : Option (List Char)
  virtualdomains : Option (List Char)
  locals : Option (List Char)

/-- The lines of a file, none if it does not exist. -/
def linesOf (file : Option (List Char)) : List (List Char) := fileLines (file.getD [])

/-- Whether a file can be locked and opened, with its temporary copy. -/
inductive FileAccess
  | opened
  | locked
  | unavailable
  deriving DecidableEq

def vaCouldNotUpdateFile : Int := -17

/-- The loop that trims the newline off the end of a line. -/
def trimLine (chunk : List Char) : List Char := (cstring chunk).takeWhile (· ≠ '\n')

/-- The lines of a file as they are read into `tmpbuf1`. -/
def readLines (file : Option (List Char)) : List (List Char) :=
  (fgetsLoop maxBuff (file.getD [])).map trimLine

def printLines (lines : List (List Char)) : List Char := lines.flatMap (· ++ ['\n'])

/-- `remove_lines`: the number of lines removed, and the file. -/
def removeLines (access : FileAccess) (aliases : List (List Char)) (file : Option (List Char)) :
    Int × Option (List Char) :=
  match access with
  | .locked => (-1, file)
  | .unavailable => (vaCouldNotUpdateFile, file)
  | .opened =>
      ((readLines file).countP (· ∈ aliases),
        some (printLines ((readLines file).filter (· ∉ aliases))))

structure ControlAccess where
  rcpthosts : FileAccess
  morercpthosts : FileAccess
  virtualdomains : FileAccess

def virtualLine (domain : List Char) : List Char := domain ++ ':' :: domain

/-- The switch over what `remove_lines` returned for `morercpthosts`: the file, and
whether a problem occurred. -/
def morercpthostsRemoved (removed : Int) (file : Option (List Char)) :
    Option (List Char) × Bool :=
  if removed = -1 then (file, true)
  else if removed = 1 then (if file = some [] then none else file, false)
  else (file, false)

/-- `del_control`. -/
def delControl (access : ControlAccess) (aliases : List (List Char)) (files : Qmail) :
    Int × Qmail :=
  let rcpthosts := removeLines access.rcpthosts aliases files.rcpthosts
  let files := { files with rcpthosts := rcpthosts.2 }
  let (files, problemOccurred) :=
    if rcpthosts.1 = -1 then (files, true)
    else if rcpthosts.1 = 0 then
      let morercpthosts := removeLines access.morercpthosts aliases files.morercpthosts
      let (file, problem) := morercpthostsRemoved morercpthosts.1 morercpthosts.2
      ({ files with morercpthosts := file }, problem)
    else (files, false)
  let virthosts := stringListOf 10 (aliases.map fun domain => snprintf maxBuff (virtualLine domain))
  let virtualdomains :=
    removeLines access.virtualdomains virthosts.values files.virtualdomains
  let problemOccurred := problemOccurred || virtualdomains.1 < 0
  (if problemOccurred then -1 else 0, { files with virtualdomains := virtualdomains.2 })

end Vpopmail
