import Mathlib.Data.List.Nodup
import Vpopmail.Vusaged.Userstore

/-! # Which directories are discovered

The directories of a mailbox are those called `new` and `cur` in it and in its folders. Whether
one is monitored after `userstore_find_directories` depends on the names that have been looked
at before it.
-/

namespace Vpopmail.Userstore

open Text

/-- A mailbox whose directory lists itself as well as its folders. Paths that do not fit a
buffer lead nowhere. -/
structure Mailbox where
  path : List Char
  entries : List (List Char)
  stat : List Char → Stat
  self : ['.'] ∈ entries
  distinct : entries.Nodup
  names : ∀ dName ∈ entries, Free '/' dName
  long : ∀ name, pathMax ≤ name.length → stat name ≠ .directory

namespace Mailbox

variable (mailbox : Mailbox)

/-- The mailbox itself, and what may be folders of it. -/
def folders : List (List Char) := mailbox.entries.filter (· ≠ dotdot)

def new (folder : List Char) : List Char := subdirectory mailbox.path folder newPart

def cur (folder : List Char) : List Char := subdirectory mailbox.path folder curPart

/-- Every directory that exists is monitored exactly once. -/
def Complete (directory : Directories) : Prop :=
  ∀ folder ∈ mailbox.folders, ∀ name ∈ [mailbox.new folder, mailbox.cur folder],
    mailbox.stat name = .directory → directory.count name = 1

/-- `new` is neither monitored from before nor taken for that of a folder that comes earlier. -/
structure Fresh (known : Directories) (front : List (List Char)) (folder : List Char) : Prop where
  known : monitorsDirectory known (mailbox.new folder) = false
  front : ∀ other ∈ front, lowered other = lowered folder →
    mailbox.stat (mailbox.new other) ≠ .directory

/-- Where `cur` is looked for. -/
structure FreshCur (known : Directories) (front : List (List Char)) (folder : List Char) :
    Prop where
  fresh : mailbox.Fresh known front folder
  found : Found mailbox.stat (mailbox.new folder)
  known : monitorsDirectory known (mailbox.cur folder) = false
  front : ∀ other ∈ front, lowered other = lowered folder →
    Found mailbox.stat (mailbox.new other) → mailbox.stat (mailbox.cur other) ≠ .directory

/-- Every directory that exists is monitored from before, or is looked for and found. -/
structure Discoverable (known : Directories) : Prop where
  new : ∀ front folder back, mailbox.folders = front ++ folder :: back →
    mailbox.stat (mailbox.new folder) = .directory →
      mailbox.new folder ∈ known ∨ mailbox.Fresh known front folder
  cur : ∀ front folder back, mailbox.folders = front ++ folder :: back →
    mailbox.stat (mailbox.cur folder) = .directory →
      mailbox.cur folder ∈ known ∨ mailbox.FreshCur known front folder

end Mailbox

/-! ## Names in the buffer -/

section Names

variable {path folder other part otherPart : List Char}

theorem length_subdirectory (path folder part : List Char) :
    (subdirectory path folder part).length = path.length + folder.length + part.length + 2 := by
  simp only [subdirectory, List.length_append, List.length_cons]
  omega

theorem snprintf_subdirectory (fits : (subdirectory path folder part).length < pathMax) :
    snprintf pathMax (subdirectory path folder part) = subdirectory path folder part :=
  List.take_of_length_le (Nat.le_sub_one_of_lt fits)

section Changed

variable {change : Char → Char} (slash : ∀ char, change char = '/' ↔ char = '/')

include slash

theorem free_map {text : List Char} (free : Free '/' text) : Free '/' (text.map change) := by
  intro member
  obtain ⟨char, inside, changed⟩ := List.mem_map.mp member
  exact free ((slash char).mp changed ▸ inside)

/-- The name of a folder is behind the path, even if the rest of it is cut. -/
theorem take_folder_inj (free : Free '/' folder) (otherFree : Free '/' other)
    (parts : part.length = otherPart.length) {room : Nat}
    (enough : folder.length + part.length + 1 ≤ room)
    (equal : ((other ++ '/' :: otherPart).take room).map change =
      (folder ++ '/' :: part).map change) :
    other.map change = folder.map change ∧ otherPart.map change = part.map change := by
  have separator : change '/' = '/' := (slash '/').mpr rfl
  rw [List.map_append, List.map_cons, separator] at equal
  by_cases cut : room ≤ other.length
  · rw [List.take_append_of_le_length cut] at equal
    have clean : Free '/' ((other.take room).map change) :=
      free_map slash fun member => otherFree (List.mem_of_mem_take member)
    rw [equal] at clean
    exact absurd (List.mem_append_right _ List.mem_cons_self) clean
  · obtain ⟨rest, spare⟩ : ∃ rest, room = other.length + (rest + 1) :=
      ⟨room - other.length - 1, by omega⟩
    rw [spare, List.take_length_add_append, List.take_succ_cons, List.map_append, List.map_cons,
      separator] at equal
    obtain ⟨names, rests⟩ := append_cons_inj (free_map slash otherFree) (free_map slash free) equal
    refine ⟨names, ?_⟩
    have same := congrArg List.length names
    rw [List.length_map, List.length_map] at same
    have uncut : otherPart.take rest = otherPart := List.take_of_length_le (by omega)
    rw [← rests, uncut]

/-- A path that fits tells the folder, even from paths that are cut. -/
theorem subdirectory_inj (free : Free '/' folder) (otherFree : Free '/' other)
    (parts : part.length = otherPart.length)
    (fits : (subdirectory path folder part).length < pathMax)
    (equal : (snprintf pathMax (subdirectory path other otherPart)).map change =
      (subdirectory path folder part).map change) :
    other.map change = folder.map change ∧ otherPart.map change = part.map change := by
  rw [length_subdirectory] at fits
  obtain ⟨room, enough⟩ : ∃ room, pathMax - 1 = path.length + (room + 1) :=
    ⟨pathMax - path.length - 2, by omega⟩
  have whole : ∀ folder part : List Char,
      subdirectory path folder part = path ++ '/' :: (folder ++ '/' :: part) := by
    intro folder part
    rw [subdirectory, List.append_assoc, List.cons_append]
  rw [whole, whole, snprintf, enough, List.take_length_add_append, List.take_succ_cons,
    List.map_append, List.map_append, List.map_cons, List.map_cons,
    List.append_cancel_left_eq, List.cons.injEq] at equal
  refine take_folder_inj slash free otherFree parts ?_ equal.2
  omega

end Changed

theorem lowerChar_slash (char : Char) : lowerChar char = '/' ↔ char = '/' :=
  lowerChar_eq_iff (by decide)

theorem id_slash (char : Char) : id char = '/' ↔ char = '/' := Iff.rfl

end Names

/-! ## One folder -/

/-- A folder whose names are not cut. -/
structure Folder (mailbox : Mailbox) (folder : List Char) : Prop where
  member : folder ∈ mailbox.folders
  fits : (mailbox.new folder).length < pathMax

section Folders

variable {mailbox : Mailbox} {folder other name : List Char} {directory after : Directories}

theorem free_of_mem_folders (member : folder ∈ mailbox.folders) : Free '/' folder :=
  mailbox.names folder (List.mem_of_mem_filter member)

theorem ne_dotdot_of_mem_folders (member : folder ∈ mailbox.folders) : folder ≠ dotdot :=
  of_decide_eq_true (List.mem_filter.mp member).2

theorem Folder.fits_part (whole : Folder mailbox folder) {part : List Char}
    (three : part.length = 3) : (subdirectory mailbox.path folder part).length < pathMax := by
  have fits := whole.fits
  rw [Mailbox.new, length_subdirectory] at fits
  rw [length_subdirectory, three]
  exact fits

theorem Folder.inj (whole : Folder mailbox folder) (member : other ∈ mailbox.folders)
    {change : Char → Char} (slash : ∀ char, change char = '/' ↔ char = '/')
    (part otherPart : List Char) (three : part.length = 3) (otherThree : otherPart.length = 3)
    (equal : (snprintf pathMax (subdirectory mailbox.path other otherPart)).map change =
      (subdirectory mailbox.path folder part).map change) :
    other.map change = folder.map change ∧ otherPart.map change = part.map change :=
  subdirectory_inj slash (free_of_mem_folders whole.member) (free_of_mem_folders member)
    (three.trans otherThree.symm) (whole.fits_part three) equal

/-- Names that differ only in case are cut alike. -/
theorem Folder.alike (whole : Folder mailbox folder) (same : lowered other = lowered folder)
    {part : List Char} (three : part.length = 3) :
    snprintf pathMax (subdirectory mailbox.path other part) =
      subdirectory mailbox.path other part := by
  have length := congrArg List.length same
  rw [lowered, lowered, List.length_map, List.length_map] at length
  have fits := whole.fits_part three
  rw [length_subdirectory, ← length, ← length_subdirectory] at fits
  exact snprintf_subdirectory fits

theorem Folder.newName_eq (whole : Folder mailbox folder) (same : lowered other = lowered folder) :
    newName mailbox.path other = mailbox.new other :=
  whole.alike same rfl

theorem Folder.curName_eq (whole : Folder mailbox folder) (same : lowered other = lowered folder) :
    curName mailbox.path other = mailbox.cur other :=
  whole.alike same rfl

theorem Folder.lowered_part_iff (whole : Folder mailbox folder)
    (member : other ∈ mailbox.folders) {part : List Char} (three : part.length = 3) :
    lowered (snprintf pathMax (subdirectory mailbox.path other part)) =
        lowered (subdirectory mailbox.path folder part) ↔ lowered other = lowered folder := by
  constructor
  · intro equal
    exact (whole.inj member lowerChar_slash part part three three equal).1
  · intro same
    rw [whole.alike same three, subdirectory, subdirectory]
    rw [lowered, lowered] at same
    simp only [lowered, List.map_append, List.map_cons, same]

theorem Folder.lowered_new_iff (whole : Folder mailbox folder) (member : other ∈ mailbox.folders) :
    lowered (newName mailbox.path other) = lowered (mailbox.new folder) ↔
      lowered other = lowered folder :=
  whole.lowered_part_iff member rfl

theorem Folder.lowered_cur_iff (whole : Folder mailbox folder) (member : other ∈ mailbox.folders) :
    lowered (curName mailbox.path other) = lowered (mailbox.cur folder) ↔
      lowered other = lowered folder :=
  whole.lowered_part_iff member rfl

theorem Folder.lowered_cur_ne_new (whole : Folder mailbox folder)
    (member : other ∈ mailbox.folders) :
    lowered (curName mailbox.path other) ≠ lowered (mailbox.new folder) := by
  intro equal
  have parts := (whole.inj member lowerChar_slash newPart curPart rfl rfl equal).2
  exact absurd parts (by decide)

theorem Folder.lowered_new_ne_cur (whole : Folder mailbox folder)
    (member : other ∈ mailbox.folders) :
    lowered (newName mailbox.path other) ≠ lowered (mailbox.cur folder) := by
  intro equal
  have parts := (whole.inj member lowerChar_slash curPart newPart rfl rfl equal).2
  exact absurd parts (by decide)

/-- The names tell the folders apart. -/
theorem Folder.eq_of_part (whole : Folder mailbox folder) (member : other ∈ mailbox.folders)
    (part otherPart : List Char) (three : part.length = 3) (otherThree : otherPart.length = 3)
    (equal : subdirectory mailbox.path folder part =
      snprintf pathMax (subdirectory mailbox.path other otherPart)) :
    other = folder ∧ otherPart = part := by
  have mapped := congrArg (List.map id) equal.symm
  have parts := whole.inj member id_slash part otherPart three otherThree mapped
  rwa [List.map_id, List.map_id, List.map_id, List.map_id] at parts

end Folders

/-! ## Rounds and runs -/

section Runs

variable {mailbox : Mailbox} {folder other name : List Char} {directory after : Directories}

theorem monitorsDirectory_of_lowered {dir : List Char} (same : lowered name = lowered dir) :
    monitorsDirectory directory name = monitorsDirectory directory dir := by
  rw [monitorsDirectory, monitorsDirectory, same]

theorem monitors_addUnknown (stat : List Char → Stat) (b : List Char) :
    monitorsDirectory (addUnknown stat directory b) name = true ↔
      monitorsDirectory directory name = true ∨
        stat b = .directory ∧ lowered b = lowered name := by
  simp only [monitorsDirectory_iff, mem_addUnknown]
  constructor
  · intro given
    obtain ⟨dir, member | ⟨_, found, rfl⟩, same⟩ := given
    · exact .inl ⟨dir, member, same⟩
    · exact .inr ⟨found, same⟩
  · intro either
    obtain ⟨dir, member, same⟩ | ⟨found, same⟩ := either
    · exact ⟨dir, .inl member, same⟩
    · cases known : monitorsDirectory directory b with
      | true =>
          obtain ⟨dir, member, equal⟩ := monitorsDirectory_iff.mp known
          exact ⟨dir, .inl member, equal.trans same⟩
      | false => exact ⟨b, .inr ⟨rfl, found, rfl⟩, same⟩

/-- What other folders leave as it is. -/
theorem Looked.mem_other (looked : Looked mailbox.stat mailbox.path other directory after)
    (whole : Folder mailbox folder) (member : other ∈ mailbox.folders) (different : other ≠ folder)
    {part : List Char} (three : part.length = 3) :
    subdirectory mailbox.path folder part ∈ after ↔
      subdirectory mailbox.path folder part ∈ directory := by
  cases looked with
  | nothing => exact Iff.rfl
  | both =>
      rw [mem_addUnknown, mem_addUnknown]
      constructor
      · intro either
        obtain (here | ⟨_, _, equal⟩) | ⟨_, _, equal⟩ := either
        · exact here
        · exact absurd (whole.eq_of_part member part newPart three rfl equal).1 different
        · exact absurd (whole.eq_of_part member part curPart three rfl equal).1 different
      · exact fun here => .inl (.inl here)

theorem Looked.monitors_new_iff (looked : Looked mailbox.stat mailbox.path other directory after)
    (whole : Folder mailbox folder) (member : other ∈ mailbox.folders) :
    monitorsDirectory after (mailbox.new folder) = true ↔
      monitorsDirectory directory (mailbox.new folder) = true ∨
        lowered other = lowered folder ∧
          mailbox.stat (newName mailbox.path other) = .directory := by
  cases looked with
  | nothing missing =>
      refine ⟨.inl, fun either => either.elim id ?_⟩
      intro given
      obtain ⟨same, found⟩ := given
      have names := (whole.lowered_new_iff member).mpr same
      rw [← monitorsDirectory_of_lowered names]
      by_contra unknown
      rw [missing (Bool.not_eq_true _ ▸ unknown)] at found
      cases found
  | both unknown found =>
      rw [monitors_addUnknown, monitors_addUnknown, whole.lowered_new_iff member]
      have apart := whole.lowered_cur_ne_new member
      tauto

theorem Looked.monitors_cur_iff (looked : Looked mailbox.stat mailbox.path other directory after)
    (whole : Folder mailbox folder) (member : other ∈ mailbox.folders) :
    monitorsDirectory after (mailbox.cur folder) = true ↔
      monitorsDirectory directory (mailbox.cur folder) = true ∨
        lowered other = lowered folder ∧
          monitorsDirectory directory (mailbox.new folder) = false ∧
          Found mailbox.stat (newName mailbox.path other) ∧
          mailbox.stat (curName mailbox.path other) = .directory := by
  cases looked with
  | nothing missing =>
      refine ⟨.inl, fun either => either.elim id ?_⟩
      intro given
      obtain ⟨same, unknown, found, _⟩ := given
      rw [← monitorsDirectory_of_lowered ((whole.lowered_new_iff member).mpr same)] at unknown
      rw [Found, missing unknown] at found
      exact found.elim Stat.noConfusion Stat.noConfusion
  | both unknown found =>
      rw [monitors_addUnknown, monitors_addUnknown, whole.lowered_cur_iff member]
      have apart := whole.lowered_new_ne_cur member
      have fresh : lowered other = lowered folder →
          monitorsDirectory directory (mailbox.new folder) = false := by
        intro same
        rw [← monitorsDirectory_of_lowered ((whole.lowered_new_iff member).mpr same)]
        exact unknown
      tauto

/-- What the round of the folder itself finds. -/
theorem Looked.mem_new_iff (looked : Looked mailbox.stat mailbox.path folder directory after)
    (whole : Folder mailbox folder) (exist : mailbox.stat (mailbox.new folder) = .directory) :
    mailbox.new folder ∈ after ↔ mailbox.new folder ∈ directory ∨
      monitorsDirectory directory (mailbox.new folder) = false := by
  have name : newName mailbox.path folder = mailbox.new folder := whole.newName_eq rfl
  cases looked with
  | nothing missing =>
      refine ⟨.inl, fun either => either.resolve_right fun unknown => ?_⟩
      rw [← name] at unknown exist
      rw [missing unknown] at exist
      cases exist
  | both unknown found =>
      rw [name] at unknown
      rw [mem_addUnknown, mem_addUnknown, name]
      exact iff_of_true (.inl (.inr ⟨unknown, exist, rfl⟩)) (.inr unknown)

theorem Looked.mem_cur_iff (looked : Looked mailbox.stat mailbox.path folder directory after)
    (whole : Folder mailbox folder) (exist : mailbox.stat (mailbox.cur folder) = .directory) :
    mailbox.cur folder ∈ after ↔ mailbox.cur folder ∈ directory ∨
      monitorsDirectory directory (mailbox.new folder) = false ∧
        Found mailbox.stat (mailbox.new folder) ∧
        monitorsDirectory directory (mailbox.cur folder) = false := by
  have name : newName mailbox.path folder = mailbox.new folder := whole.newName_eq rfl
  have curEq : curName mailbox.path folder = mailbox.cur folder := whole.curName_eq rfl
  have apart := whole.lowered_new_ne_cur whole.member
  rw [name] at apart
  cases looked with
  | nothing missing =>
      refine ⟨.inl, fun either => either.resolve_right ?_⟩
      intro given
      obtain ⟨unknown, found, _⟩ := given
      rw [name] at missing
      rw [Found, missing unknown] at found
      exact found.elim Stat.noConfusion Stat.noConfusion
  | both unknown found =>
      rw [name] at unknown found
      rw [mem_addUnknown, mem_addUnknown, name, curEq]
      have notNew : mailbox.cur folder ≠ mailbox.new folder := fun equal => apart (equal ▸ rfl)
      have same : monitorsDirectory (addUnknown mailbox.stat directory (mailbox.new folder))
          (mailbox.cur folder) = monitorsDirectory directory (mailbox.cur folder) := by
        rw [Bool.eq_iff_iff, monitors_addUnknown]
        tauto
      rw [same]
      tauto

/-! ### Runs over some of the folders -/

theorem lookAll_cons {dName : List Char} {rest : List (List Char)}
    (folder : dName ≠ dotdot)
    (success : (dName :: rest).foldlM (lookIn mailbox.stat mailbox.path) directory = .ok after) :
    ∃ middle, Looked mailbox.stat mailbox.path dName directory middle ∧
      rest.foldlM (lookIn mailbox.stat mailbox.path) middle = .ok after := by
  rw [List.foldlM_cons] at success
  cases round : lookIn mailbox.stat mailbox.path directory dName with
  | error left =>
      rw [round] at success
      cases success
  | ok middle =>
      rw [round] at success
      exact ⟨middle, looked_of_ok folder round, success⟩

theorem lookAll_append {front back : List (List Char)}
    (success : (front ++ back).foldlM (lookIn mailbox.stat mailbox.path) directory = .ok after) :
    ∃ middle, front.foldlM (lookIn mailbox.stat mailbox.path) directory = .ok middle ∧
      back.foldlM (lookIn mailbox.stat mailbox.path) middle = .ok after := by
  rw [List.foldlM_append] at success
  cases run : front.foldlM (lookIn mailbox.stat mailbox.path) directory with
  | error left =>
      rw [run] at success
      cases success
  | ok middle =>
      rw [run] at success
      exact ⟨middle, rfl, success⟩

variable {front : List (List Char)}

theorem lookAll_mem (whole : Folder mailbox folder)
    (members : ∀ other ∈ front, other ∈ mailbox.folders)
    (different : folder ∉ front)
    (success : front.foldlM (lookIn mailbox.stat mailbox.path) directory = .ok after)
    {part : List Char} (three : part.length = 3) :
    subdirectory mailbox.path folder part ∈ after ↔
      subdirectory mailbox.path folder part ∈ directory := by
  induction front generalizing directory with
  | nil =>
      cases success
      exact Iff.rfl
  | cons other front induction =>
      obtain ⟨member, members⟩ := List.forall_mem_cons.mp members
      obtain ⟨head, different⟩ := not_or.mp (mt List.mem_cons.mpr different)
      obtain ⟨middle, looked, run⟩ := lookAll_cons (ne_dotdot_of_mem_folders member) success
      rw [induction members different run, looked.mem_other whole member (Ne.symm head) three]

theorem lookAll_nodup (members : ∀ other ∈ front, other ∈ mailbox.folders)
    (success : front.foldlM (lookIn mailbox.stat mailbox.path) directory = .ok after)
    (nodup : directory.Nodup) : after.Nodup := by
  induction front generalizing directory with
  | nil =>
      cases success
      exact nodup
  | cons other front induction =>
      obtain ⟨member, members⟩ := List.forall_mem_cons.mp members
      obtain ⟨middle, looked, run⟩ := lookAll_cons (ne_dotdot_of_mem_folders member) success
      refine induction members run ?_
      cases looked with
      | nothing => exact nodup
      | both => exact nodup_addUnknown (nodup_addUnknown nodup)

theorem lookAll_monitors_new (whole : Folder mailbox folder)
    (members : ∀ other ∈ front, other ∈ mailbox.folders)
    (success : front.foldlM (lookIn mailbox.stat mailbox.path) directory = .ok after) :
    monitorsDirectory after (mailbox.new folder) = false ↔
      mailbox.Fresh directory front folder := by
  induction front generalizing directory with
  | nil =>
      cases success
      exact ⟨fun unknown => ⟨unknown, fun _ impossible => nomatch impossible⟩, (·.known)⟩
  | cons other front induction =>
      obtain ⟨member, members⟩ := List.forall_mem_cons.mp members
      obtain ⟨middle, looked, run⟩ := lookAll_cons (ne_dotdot_of_mem_folders member) success
      have step := not_congr (looked.monitors_new_iff whole member)
      rw [Bool.not_eq_true, not_or, Bool.not_eq_true] at step
      rw [induction members run]
      constructor
      · intro fresh
        obtain ⟨unknown, apart⟩ := step.mp fresh.known
        refine ⟨unknown, List.forall_mem_cons.mpr ⟨fun same found => apart ⟨same, ?_⟩, fresh.front⟩⟩
        exact (whole.newName_eq same).symm ▸ found
      · intro fresh
        obtain ⟨head, rest⟩ := List.forall_mem_cons.mp fresh.front
        refine ⟨step.mpr ⟨fresh.known, fun both => head both.1 ?_⟩, rest⟩
        rw [← both.2]
        exact congrArg mailbox.stat (whole.newName_eq both.1).symm

theorem lookAll_monitors_cur (whole : Folder mailbox folder)
    (members : ∀ other ∈ front, other ∈ mailbox.folders)
    (success : front.foldlM (lookIn mailbox.stat mailbox.path) directory = .ok after)
    (fresh : mailbox.Fresh directory front folder) :
    monitorsDirectory after (mailbox.cur folder) = false ↔
      monitorsDirectory directory (mailbox.cur folder) = false ∧
        ∀ other ∈ front, lowered other = lowered folder →
          Found mailbox.stat (mailbox.new other) →
            mailbox.stat (mailbox.cur other) ≠ .directory := by
  induction front generalizing directory with
  | nil =>
      cases success
      exact ⟨fun unknown => ⟨unknown, fun _ impossible => nomatch impossible⟩, And.left⟩
  | cons other front induction =>
      have unknown := (lookAll_monitors_new whole members success).mpr fresh
      obtain ⟨member, members⟩ := List.forall_mem_cons.mp members
      obtain ⟨middle, looked, run⟩ := lookAll_cons (ne_dotdot_of_mem_folders member) success
      have freshAfter := (lookAll_monitors_new whole members run).mp unknown
      have step := not_congr (looked.monitors_cur_iff whole member)
      rw [Bool.not_eq_true, not_or, Bool.not_eq_true] at step
      rw [induction members run freshAfter, step, List.forall_mem_cons]
      by_cases same : lowered other = lowered folder
      · have known := fresh.known
        rw [whole.newName_eq same, whole.curName_eq same]
        tauto
      · tauto

end Runs

/-! ## The whole run -/

section Discovery

variable {mailbox : Mailbox} {known monitored : Directories}

/-- The entry for the parent is passed over. -/
theorem foldlM_filter (entries : List (List Char)) (directory : Directories) :
    entries.foldlM (lookIn mailbox.stat mailbox.path) directory =
      (entries.filter (· ≠ dotdot)).foldlM (lookIn mailbox.stat mailbox.path) directory := by
  induction entries generalizing directory with
  | nil => rfl
  | cons dName entries induction =>
      by_cases parent : dName = dotdot
      · rw [List.filter_cons_of_neg (by simpa using parent), List.foldlM_cons, parent,
          lookIn_dotdot]
        exact induction directory
      · rw [List.filter_cons_of_pos (by simpa using parent), List.foldlM_cons, List.foldlM_cons]
        exact bind_congr induction

theorem findDirectories_eq (mailbox : Mailbox) (known : Directories) :
    findDirectories mailbox.stat mailbox.path (some mailbox.entries) known =
      mailbox.folders.foldlM (lookIn mailbox.stat mailbox.path) known :=
  foldlM_filter mailbox.entries known

section Split

variable {front back : List (List Char)} {folder : List Char}

theorem mem_folders (split : mailbox.folders = front ++ folder :: back) :
    folder ∈ mailbox.folders := by
  rw [split]
  exact List.mem_append_right _ List.mem_cons_self

/-- The run up to a folder, its round, and what comes after it. -/
theorem exists_round
    (success : findDirectories mailbox.stat mailbox.path (some mailbox.entries) known =
      .ok monitored)
    (split : mailbox.folders = front ++ folder :: back) (whole : Folder mailbox folder) :
    ∃ before after,
      front.foldlM (lookIn mailbox.stat mailbox.path) known = .ok before ∧
      Looked mailbox.stat mailbox.path folder before after ∧
      ∀ part : List Char, part.length = 3 →
        (subdirectory mailbox.path folder part ∈ monitored ↔
            subdirectory mailbox.path folder part ∈ after) ∧
          (subdirectory mailbox.path folder part ∈ before ↔
            subdirectory mailbox.path folder part ∈ known) := by
  have distinct : mailbox.folders.Nodup := mailbox.distinct.filter _
  rw [findDirectories_eq, split] at success
  rw [split, List.nodup_middle, List.nodup_cons, List.mem_append, not_or] at distinct
  obtain ⟨before, run, rest⟩ := lookAll_append success
  obtain ⟨after, looked, rest⟩ := lookAll_cons (ne_dotdot_of_mem_folders whole.member) rest
  have members : ∀ other, other ∈ front ∨ other ∈ back → other ∈ mailbox.folders := by
    intro other either
    rw [split]
    exact either.elim (List.mem_append_left _) fun member =>
      List.mem_append_right _ (List.mem_cons_of_mem _ member)
  refine ⟨before, after, run, looked, fun part three => ⟨?_, ?_⟩⟩
  · exact lookAll_mem whole (fun other member => members other (.inr member)) distinct.1.2
      rest three
  · exact lookAll_mem whole (fun other member => members other (.inl member)) distinct.1.1 run three

theorem front_subset (split : mailbox.folders = front ++ folder :: back) :
    ∀ other ∈ front, other ∈ mailbox.folders := by
  intro other member
  rw [split]
  exact List.mem_append_left _ member

theorem mem_new_iff
    (success : findDirectories mailbox.stat mailbox.path (some mailbox.entries) known =
      .ok monitored)
    (split : mailbox.folders = front ++ folder :: back)
    (exist : mailbox.stat (mailbox.new folder) = .directory) :
    mailbox.new folder ∈ monitored ↔
      mailbox.new folder ∈ known ∨ mailbox.Fresh known front folder := by
  have fits : (mailbox.new folder).length < pathMax :=
    Nat.lt_of_not_le fun long => mailbox.long _ long exist
  have whole : Folder mailbox folder := ⟨mem_folders split, fits⟩
  obtain ⟨before, after, run, looked, kept⟩ := exists_round success split whole
  rw [Mailbox.new, (kept newPart rfl).1, ← (kept newPart rfl).2, ← Mailbox.new,
    looked.mem_new_iff whole exist, lookAll_monitors_new whole (front_subset split) run]

theorem mem_cur_iff
    (success : findDirectories mailbox.stat mailbox.path (some mailbox.entries) known =
      .ok monitored)
    (split : mailbox.folders = front ++ folder :: back)
    (exist : mailbox.stat (mailbox.cur folder) = .directory) :
    mailbox.cur folder ∈ monitored ↔
      mailbox.cur folder ∈ known ∨ mailbox.FreshCur known front folder := by
  have fits : (mailbox.new folder).length < pathMax := by
    apply Nat.lt_of_not_le
    intro long
    apply mailbox.long (mailbox.cur folder) _ exist
    rw [Mailbox.new, length_subdirectory] at long
    rw [Mailbox.cur, length_subdirectory]
    exact long
  have whole : Folder mailbox folder := ⟨mem_folders split, fits⟩
  obtain ⟨before, after, run, looked, kept⟩ := exists_round success split whole
  have freshNew := lookAll_monitors_new whole (front_subset split) run
  have freshCur := lookAll_monitors_cur whole (front_subset split) run
  rw [Mailbox.cur, (kept curPart rfl).1, ← (kept curPart rfl).2, ← Mailbox.cur,
    looked.mem_cur_iff whole exist, freshNew]
  apply or_congr_right
  constructor
  · intro given
    obtain ⟨fresh, found, unknown⟩ := given
    obtain ⟨notKnown, earlier⟩ := (freshCur fresh).mp unknown
    exact ⟨fresh, found, notKnown, earlier⟩
  · intro fresh
    exact ⟨fresh.fresh, fresh.found, (freshCur fresh.fresh).mpr ⟨fresh.known, fresh.front⟩⟩

end Split

/-- A successful run monitors every directory exactly once on exactly the mailboxes all of whose
directories can be discovered. -/
theorem findDirectories_complete_iff (nodup : known.Nodup)
    (success : findDirectories mailbox.stat mailbox.path (some mailbox.entries) known =
      .ok monitored) :
    mailbox.Complete monitored ↔ mailbox.Discoverable known := by
  have once : ∀ name, monitored.count name = 1 ↔ name ∈ monitored := by
    intro name
    have members : ∀ other ∈ mailbox.folders, other ∈ mailbox.folders := fun _ => id
    rw [findDirectories_eq] at success
    have distinct := lookAll_nodup members success nodup
    refine ⟨fun count => ?_, List.count_eq_one_of_mem distinct⟩
    rw [← List.count_pos_iff, count]
    exact Nat.one_pos
  constructor
  · intro complete
    constructor
    · intro front folder back split exist
      rw [← mem_new_iff success split exist, ← once]
      exact complete folder (mem_folders split) _ List.mem_cons_self exist
    · intro front folder back split exist
      rw [← mem_cur_iff success split exist, ← once]
      exact complete folder (mem_folders split) _ (List.mem_cons_of_mem _ List.mem_cons_self) exist
  · intro discoverable folder member
    obtain ⟨front, back, split⟩ := List.append_of_mem member
    rw [List.forall_mem_cons, List.forall_mem_singleton]
    constructor
    · intro exist
      rw [once, mem_new_iff success split exist]
      exact discoverable.new front folder back split exist
    · intro exist
      rw [once, mem_cur_iff success split exist]
      exact discoverable.cur front folder back split exist

end Discovery

/-- A mailbox without folders. -/
def inbox : Mailbox where
  path := ['/', 'm']
  entries := [['.'], dotdot]
  stat := fun name =>
    if name = ['/', 'm', '/', '.', '/', 'n', 'e', 'w'] ∨
        name = ['/', 'm', '/', '.', '/', 'c', 'u', 'r'] then .directory
    else .missing
  self := List.mem_cons_self
  distinct := by decide
  names := by decide
  long := by
    intro name long
    rw [if_neg]
    · exact Stat.noConfusion
    · intro either
      obtain rfl | rfl := either
      · exact absurd long (by decide)
      · exact absurd long (by decide)

/-- A mailbox with one folder. -/
def mailWithWork : Mailbox where
  path := ['/', 'm']
  entries := [['.'], dotdot, ".Work".toList]
  stat := fun name =>
    if name ∈ ["/m/./new".toList, "/m/./cur".toList, "/m/.Work/new".toList, "/m/.Work/cur".toList]
    then .directory
    else .missing
  self := List.mem_cons_self
  distinct := by decide
  names := by decide
  long := by
    intro name long
    rw [if_neg]
    · exact Stat.noConfusion
    · intro member
      have short : ∀ known ∈ ["/m/./new".toList, "/m/./cur".toList, "/m/.Work/new".toList,
        "/m/.Work/cur".toList], ¬pathMax ≤ known.length := by decide
      exact short name member long

/-- The directories of the mailbox itself are known, and those of its folder are found. -/
theorem findDirectories_complete_mailWithWork :
    mailWithWork.Discoverable [mailWithWork.cur ['.'], mailWithWork.new ['.']] ∧
      mailWithWork.Complete [mailWithWork.cur ['.'], mailWithWork.new ['.'],
        mailWithWork.new ".Work".toList, mailWithWork.cur ".Work".toList] := by
  have complete : mailWithWork.Complete [mailWithWork.cur ['.'], mailWithWork.new ['.'],
      mailWithWork.new ".Work".toList, mailWithWork.cur ".Work".toList] := by
    unfold Mailbox.Complete
    decide
  exact ⟨(findDirectories_complete_iff (by decide) rfl).mp complete, complete⟩

/-- Once `new` is monitored, `cur` is not looked for. -/
theorem findDirectories_forgets_cur :
    ¬∀ (mailbox : Mailbox) (known monitored : Directories), known.Nodup →
      findDirectories mailbox.stat mailbox.path (some mailbox.entries) known = .ok monitored →
        mailbox.Complete monitored := by
  intro complete
  have found := complete inbox [inbox.new ['.']] [inbox.new ['.']] (List.nodup_singleton _) rfl
    ['.'] (by decide) (inbox.cur ['.']) (by decide) rfl
  exact absurd found (by decide)

end Vpopmail.Userstore
