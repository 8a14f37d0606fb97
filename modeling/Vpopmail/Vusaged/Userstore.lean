import Vpopmail.ControlFiles
import Vpopmail.EmailAgreement

/-! # The directories of a user

`userstore_find_directories` looks for the directories of a Maildir and of its folders, and
monitors those that it does not monitor yet.
-/

namespace Vpopmail.Userstore

open Text

/-- `PATH_MAX`. -/
def pathMax : Nat := 4096

/-- What `stat` or `lstat` says, as it is configured: `ENOENT` and `ENOTDIR` are `missing`. -/
inductive Stat
  | directory
  | other
  | missing
  | failed
  deriving DecidableEq

/-- What `opendir` and `readdir` find in the path of the user. -/
abbrev Entries := Option (List (List Char))

/-- The names of the monitored directories, in the order of the list. -/
abbrev Directories := List (List Char)

def lowered (text : List Char) : List Char := text.map lowerChar

/-- `userstore_monitors_directory`, which compares with `strcasecmp`. -/
def monitorsDirectory (directory : Directories) (dir : List Char) : Bool :=
  directory.any fun name => lowered name = lowered dir

/-- `directory_load` of a name that is in the buffer, and `list_add`. -/
def addDirectory (stat : List Char → Stat) (directory : Directories) (b : List Char) :
    Directories :=
  if stat b = .directory then directory ++ [b] else directory

def dotdot : List Char := ['.', '.']

def newPart : List Char := ['n', 'e', 'w']

def curPart : List Char := ['c', 'u', 'r']

/-- A path below that of the user. -/
def subdirectory (path dName part : List Char) : List Char :=
  path ++ '/' :: dName ++ '/' :: part

/-- The names that are looked at, in the buffer. -/
def newName (path dName : List Char) : List Char :=
  snprintf pathMax (subdirectory path dName newPart)

def curName (path dName : List Char) : List Char :=
  snprintf pathMax (subdirectory path dName curPart)

/-- The second half of a round of the loop. A failure leaves the directories as they are then. -/
def lookForCur (stat : List Char → Stat) (path : List Char) (directory : Directories)
    (dName : List Char) : Except Directories Directories :=
  let b := curName path dName
  if monitorsDirectory directory b then .ok directory
  else
    match stat b with
    | .failed => .error directory
    | .missing => .ok directory
    | .directory | .other => .ok (addDirectory stat directory b)

/-- One round of the loop. -/
def lookIn (stat : List Char → Stat) (path : List Char) (directory : Directories)
    (dName : List Char) : Except Directories Directories :=
  if dName = dotdot then .ok directory
  else
    let b := newName path dName
    if monitorsDirectory directory b then .ok directory
    else
      match stat b with
      | .failed => .error directory
      | .missing => .ok directory
      | .directory | .other => lookForCur stat path (addDirectory stat directory b) dName

/-- `userstore_find_directories`. -/
def findDirectories (stat : List Char → Stat) (path : List Char) (entries : Entries)
    (directory : Directories) : Except Directories Directories :=
  match entries with
  | none => .error directory
  | some entries => entries.foldlM (lookIn stat path) directory

/-! ## One round -/

/-- There is something of a name. -/
def Found (stat : List Char → Stat) (name : List Char) : Prop :=
  stat name = .directory ∨ stat name = .other

/-- A name that is added unless it is monitored. -/
def addUnknown (stat : List Char → Stat) (directory : Directories) (b : List Char) :
    Directories :=
  if monitorsDirectory directory b then directory else addDirectory stat directory b

/-- What a round does, which looks for `cur` where it has looked for `new` and found it. -/
inductive Looked (stat : List Char → Stat) (path dName : List Char) (directory : Directories) :
    Directories → Prop
  | nothing : (monitorsDirectory directory (newName path dName) = false →
      stat (newName path dName) = .missing) → Looked stat path dName directory directory
  | both : monitorsDirectory directory (newName path dName) = false →
      Found stat (newName path dName) →
      Looked stat path dName directory
        (addUnknown stat (addUnknown stat directory (newName path dName)) (curName path dName))

section Round

variable {stat : List Char → Stat} {path dName : List Char} {directory after : Directories}

theorem monitorsDirectory_iff {dir : List Char} :
    monitorsDirectory directory dir = true ↔ ∃ name ∈ directory, lowered name = lowered dir := by
  simp [monitorsDirectory]

theorem not_mem_of_not_monitors {dir : List Char}
    (unknown : monitorsDirectory directory dir = false) : dir ∉ directory := by
  intro member
  have known : monitorsDirectory directory dir = true :=
    monitorsDirectory_iff.mpr ⟨dir, member, rfl⟩
  rw [unknown] at known
  cases known

theorem mem_addDirectory {b name : List Char} :
    name ∈ addDirectory stat directory b ↔
      name ∈ directory ∨ stat name = .directory ∧ name = b := by
  rw [addDirectory]
  split
  · next found =>
      rw [List.mem_append, List.mem_singleton]
      exact or_congr_right ⟨fun equal => ⟨equal ▸ found, equal⟩, And.right⟩
  · next notFound =>
      refine ⟨.inl, fun either => either.resolve_right fun both => notFound ?_⟩
      exact both.2 ▸ both.1

theorem mem_addUnknown {b name : List Char} :
    name ∈ addUnknown stat directory b ↔ name ∈ directory ∨
      monitorsDirectory directory b = false ∧ stat name = .directory ∧ name = b := by
  rw [addUnknown]
  cases monitorsDirectory directory b with
  | true => exact ⟨.inl, fun either => either.resolve_right fun both => nomatch both.1⟩
  | false => exact mem_addDirectory.trans (or_congr_right (and_iff_right rfl).symm)

theorem nodup_addUnknown {b : List Char} (nodup : directory.Nodup) :
    (addUnknown stat directory b).Nodup := by
  rw [addUnknown]
  split
  · exact nodup
  · next unknown =>
      rw [Bool.not_eq_true] at unknown
      rw [addDirectory]
      split
      · rw [List.nodup_append]
        refine ⟨nodup, List.pairwise_singleton _ b, fun name member other last equal => ?_⟩
        rw [List.mem_singleton] at last
        exact not_mem_of_not_monitors unknown (last ▸ equal ▸ member)
      · exact nodup

theorem lookForCur_eq (success : lookForCur stat path directory dName = .ok after) :
    after = addUnknown stat directory (curName path dName) := by
  rw [lookForCur] at success
  rw [addUnknown]
  cases known : monitorsDirectory directory (curName path dName) with
  | true =>
      simp only [known, if_true] at success
      exact (Except.ok.inj success).symm
  | false =>
      simp only [known, Bool.false_eq_true, if_false] at success ⊢
      split at success
      · cases success
      · next missing =>
          rw [addDirectory, missing]
          exact (Except.ok.inj success).symm
      · exact (Except.ok.inj success).symm
      · exact (Except.ok.inj success).symm

theorem lookIn_dotdot : lookIn stat path directory dotdot = .ok directory := if_pos rfl

theorem looked_of_ok (folder : dName ≠ dotdot)
    (success : lookIn stat path directory dName = .ok after) :
    Looked stat path dName directory after := by
  rw [lookIn, if_neg folder] at success
  cases known : monitorsDirectory directory (newName path dName) with
  | true =>
      simp only [known, if_true] at success
      rw [← Except.ok.inj success]
      exact .nothing fun unknown => absurd (known.symm.trans unknown) (by decide)
  | false =>
      have added : addDirectory stat directory (newName path dName) =
          addUnknown stat directory (newName path dName) := by
        rw [addUnknown, known]
        rfl
      simp only [known, Bool.false_eq_true, if_false, added] at success
      split at success
      · cases success
      · next missing =>
          rw [← Except.ok.inj success]
          exact .nothing fun _ => missing
      · next found =>
          rw [lookForCur_eq success]
          exact .both known (.inl found)
      · next found =>
          rw [lookForCur_eq success]
          exact .both known (.inr found)

end Round

end Vpopmail.Userstore
