import Mathlib.Algebra.GroupWithZero.Nat
import Mathlib.Data.List.Perm.Basic
import Vpopmail.Foundation.Execution
import Vpopmail.Types

/-! # Polling a directory

`directory_poll` counts the files of a directory when its modification time is later than
the one it kept. Both have whole seconds, so a change in the second of the kept time is
never seen, and a directory that cannot be opened is kept as an empty one.
-/

namespace Vpopmail.Vusaged

open Execution

namespace Polling

/-! ## The directory -/

/-- The settings of the `Polling` section that `directory_poll` looks at. -/
structure Settings where
  minimumPollTime : Nat
  countEntrySize : Bool

/-- A name with the size that `directory_filesize` finds for it, -1 when it fails. -/
structure Entry where
  dName : List Char
  size : BitVec 64
  deriving DecidableEq

/-- The directory in the file system: the size of the directory itself, its files, and the
second of the last addition or removal. -/
structure Folder where
  own : BitVec 64
  files : List Entry
  mtime : Nat
  deriving DecidableEq

def Folder.listing (folder : Folder) : List Entry :=
  ⟨['.'], folder.own⟩ :: ⟨['.', '.'], folder.own⟩ :: folder.files

/-- Hidden files are left out, the directory itself unless its size is to be counted. -/
def hidden (settings : Settings) (dName : List Char) : Bool :=
  match dName with
  | '.' :: rest => !settings.countEntrySize || !rest.isEmpty
  | _ => false

def counted (settings : Settings) (entry : Entry) : Bool :=
  !hidden settings entry.dName && entry.size != -1

/-- What the counted files take. -/
def usageOf (settings : Settings) (entries : List Entry) : Nat :=
  ((entries.filter (counted settings)).map fun entry => entry.size.toNat).sum

def countOf (settings : Settings) (entries : List Entry) : Nat :=
  (entries.filter (counted settings)).length

/-! ## The poll -/

/-- `directory_t`. -/
structure Directory where
  lastUpdate : Nat
  mtime : Nat
  usage : BitVec 64
  count : BitVec 64
  deriving DecidableEq

/-- A scan that has opened the directory. Entries that have been there since are owed;
those that were added or removed meanwhile may come or not. -/
structure Scan where
  mtime : Nat
  began : Nat
  owed : List Entry
  offered : List Entry
  storage : BitVec 64
  count : BitVec 64
  deriving DecidableEq

/-- How far `directory_poll` has come: it is not running, or it has called `stat`, or it
reads the directory. -/
inductive Phase
  | idle
  | statted (mtime began : Nat)
  | reading (scan : Scan)
  deriving DecidableEq

/-- The second, the directory on disk, and the daemon's record of it while it has one. -/
structure State where
  clock : Nat
  folder : Folder
  directory : Option Directory
  phase : Phase
  deriving DecidableEq

inductive Event
  | tick
  /-- A file comes, and `own` is the new size of the directory itself. -/
  | add (entry : Entry) (own : BitVec 64)
  | remove (entry : Entry) (own : BitVec 64)
  /-- `directory_poll` up to its `stat`. -/
  | poll (found : Bool)
  | opendir (opens : Bool)
  /-- One round of the loop over the entries. -/
  | readdir (entry : Entry) (size : BitVec 64)
  | closedir
  /-- The record is given up, as `userstore_poll` does when `stat` has failed. -/
  | lost
  deriving DecidableEq

def Scan.added (scan : Scan) (entry : Entry) : Scan :=
  { scan with offered := entry :: scan.offered }

def Scan.removed (scan : Scan) (entry : Entry) : Scan :=
  { scan with owed := scan.owed.erase entry, offered := entry :: scan.offered }

def Phase.map (change : Scan → Scan) : Phase → Phase
  | .reading scan => .reading (change scan)
  | phase => phase

/-- A round for an entry whose size was found as `size`. -/
def Scan.read (settings : Settings) (scan : Scan) (entry : Entry) (size : BitVec 64) : Scan :=
  let passed :=
    { scan with
      owed := scan.owed.erase entry
      offered := if entry ∈ scan.owed then scan.offered else scan.offered.erase entry }
  if counted settings { entry with size := size } then
    { passed with storage := passed.storage + size, count := passed.count + 1 }
  else passed

/-- Whether the poll comes too soon. -/
def Directory.tooSoon (settings : Settings) (directory : Directory) (now : Nat) : Bool :=
  now - directory.lastUpdate ≤ settings.minimumPollTime

/-- Whether the directory has not been modified since the last poll. -/
def Directory.unmodified (directory : Directory) (mtime : Nat) : Bool :=
  directory.mtime != 0 && mtime ≤ directory.mtime

def beginPoll (settings : Settings) (state : State) (directory : Directory) (found : Bool) :
    State :=
  if directory.tooSoon settings state.clock then state
  else
    let polled := { state with directory := some { directory with lastUpdate := state.clock } }
    if !found || directory.unmodified state.folder.mtime then polled
    else { polled with phase := .statted state.folder.mtime state.clock }

/-- One step of the system. -/
def step (settings : Settings) (state : State) : Event → Option State
  | .tick => some { state with clock := state.clock + 1 }
  | .add entry own =>
      if entry.dName ∈ state.folder.listing.map Entry.dName then none
      else some
        { state with
          folder := ⟨own, entry :: state.folder.files, state.clock⟩
          phase := state.phase.map (·.added entry) }
  | .remove entry own =>
      if entry ∈ state.folder.files then some
        { state with
          folder := ⟨own, state.folder.files.erase entry, state.clock⟩
          phase := state.phase.map (·.removed entry) }
      else none
  | .poll found =>
      match state.phase, state.directory with
      | .idle, some directory => some (beginPoll settings state directory found)
      | _, _ => none
  | .opendir opens =>
      match state.phase with
      | .statted mtime began =>
          let owed := if opens then state.folder.listing else []
          some { state with phase := .reading ⟨mtime, began, owed, [], 0, 0⟩ }
      | _ => none
  | .readdir entry size =>
      match state.phase with
      | .reading scan =>
          if (entry ∈ scan.owed ∨ entry ∈ scan.offered) ∧
              (entry ∈ state.folder.listing → size = entry.size) then
            some { state with phase := .reading (scan.read settings entry size) }
          else none
      | _ => none
  | .closedir =>
      match state.phase, state.directory with
      | .reading scan, some directory =>
          if scan.owed = [] then some
            { state with
              directory := some
                { directory with mtime := scan.mtime, usage := scan.storage, count := scan.count }
              phase := .idle }
          else none
      | _, _ => none
  | .lost => if state.phase = .idle then some { state with directory := none } else none

/-- A directory that has just been allocated. -/
structure Starts (state : State) : Prop where
  directory : state.directory = some ⟨0, 0, 0, 0⟩
  phase : state.phase = .idle
  mtime : state.folder.mtime ≤ state.clock

/-! ## What a poll should record -/

/-- The record is that of the files. -/
def Recorded (settings : Settings) (folder : Folder) (directory : Directory) : Prop :=
  directory.usage.toNat = usageOf settings folder.listing ∧
    directory.count.toNat = countOf settings folder.listing

/-- The second in which the poll that the step completes has begun. A poll that is skipped
completes nothing. -/
def completes (settings : Settings) (before : State) : Event → Option Nat
  | .poll found =>
      match before.directory with
      | some directory =>
          if !directory.tooSoon settings before.clock && found &&
              directory.unmodified before.folder.mtime then
            some before.clock
          else none
      | none => none
  | .closedir =>
      match before.phase with
      | .reading scan => some scan.began
      | _ => none
  | _ => none

/-- A poll that began in a later second than the last change has recorded the files. -/
def Counts (settings : Settings) (before : State) (event : Event) (after : State) : Prop :=
  ∀ began ∈ completes settings before event, after.folder.mtime < began →
    ∀ directory ∈ after.directory, Recorded settings after.folder directory

/-- The modification time that goes with what is recorded or being read. -/
def scanned (state : State) : Option Nat :=
  match state.phase, state.directory with
  | .idle, some directory => if directory.mtime = 0 then none else some directory.mtime
  | .reading scan, _ => some scan.mtime
  | _, _ => none

/-- The sums can be held in `storage_t`. -/
def Representable (settings : Settings) (folder : Folder) : Prop :=
  usageOf settings folder.listing < 2 ^ 64 ∧ countOf settings folder.listing < 2 ^ 64

/-- No file comes or goes in the second of the modification time under which the directory
is read or recorded, the directory can be opened, and the sums can be held. -/
def Undisturbed (settings : Settings) (before : State) : Event → Prop
  | .add _ _ => scanned before ≠ some before.clock
  | .remove _ _ => scanned before ≠ some before.clock
  | .opendir opens => opens = true
  | .poll _ => Representable settings before.folder
  | .closedir => Representable settings before.folder
  | _ => True

/-! ## Sums -/

theorem usageOf_erase {settings : Settings} {entries : List Entry} {entry : Entry}
    (member : entry ∈ entries) :
    usageOf settings entries =
      (if counted settings entry then entry.size.toNat else 0) +
        usageOf settings (entries.erase entry) := by
  have sums := ((List.perm_cons_erase member).filter (counted settings)).map
    fun entry => entry.size.toNat
  rw [usageOf, sums.sum_nat, List.filter_cons]
  split
  · rw [List.map_cons, List.sum_cons, usageOf]
  · rw [Nat.zero_add, usageOf]

theorem countOf_erase {settings : Settings} {entries : List Entry} {entry : Entry}
    (member : entry ∈ entries) :
    countOf settings entries =
      (if counted settings entry then 1 else 0) + countOf settings (entries.erase entry) := by
  have lengths := ((List.perm_cons_erase member).filter (counted settings)).length_eq
  rw [countOf, lengths, List.filter_cons]
  split
  · rw [List.length_cons, countOf, Nat.add_comm]
  · rw [Nat.zero_add, countOf]

/-! ## The invariant -/

/-- What has been counted and what is owed make up the files. -/
structure Progress (settings : Settings) (folder : Folder) (scan : Scan) : Prop where
  offered : scan.offered = []
  listed : ∀ entry ∈ scan.owed, entry ∈ folder.listing
  storage : scan.storage + BitVec.ofNat 64 (usageOf settings scan.owed) =
    BitVec.ofNat 64 (usageOf settings folder.listing)
  count : scan.count + BitVec.ofNat 64 (countOf settings scan.owed) =
    BitVec.ofNat 64 (countOf settings folder.listing)

/-- The record is that of the files in the arithmetic of `storage_t`. -/
structure Kept (settings : Settings) (folder : Folder) (directory : Directory) : Prop where
  usage : directory.usage = BitVec.ofNat 64 (usageOf settings folder.listing)
  count : directory.count = BitVec.ofNat 64 (countOf settings folder.listing)

/-- What a poll finds unmodified is recorded, and what has not been changed since it was
opened is read as it is. -/
structure Tracked (settings : Settings) (state : State) : Prop where
  mtime : state.folder.mtime ≤ state.clock
  idle : state.phase = .idle → ∀ directory ∈ state.directory, directory.mtime ≤ state.clock ∧
    (directory.mtime ≠ 0 → state.folder.mtime ≤ directory.mtime →
      Kept settings state.folder directory)
  statted : ∀ mtime began, state.phase = .statted mtime began →
    mtime ≤ began ∧ began ≤ state.clock
  reading : ∀ scan, state.phase = .reading scan → scan.mtime ≤ scan.began ∧
    scan.began ≤ state.clock ∧
      (state.folder.mtime ≤ scan.mtime ∨ state.folder.mtime < scan.began →
        Progress settings state.folder scan)

theorem Starts.tracked {settings : Settings} {state : State} (starts : Starts state) :
    Tracked settings state where
  mtime := starts.mtime
  idle := by
    intro _ directory given
    rw [starts.directory, Option.mem_def, Option.some.injEq] at given
    rw [← given]
    exact ⟨Nat.zero_le _, fun recorded => absurd rfl recorded⟩
  statted := by
    intro mtime began phase
    rw [starts.phase] at phase
    cases phase
  reading := by
    intro scan phase
    rw [starts.phase] at phase
    cases phase

theorem Kept.recorded {settings : Settings} {folder : Folder} {directory : Directory}
    (kept : Kept settings folder directory) (held : Representable settings folder) :
    Recorded settings folder directory := by
  constructor
  · rw [kept.usage, BitVec.toNat_ofNat, Nat.mod_eq_of_lt held.1]
  · rw [kept.count, BitVec.toNat_ofNat, Nat.mod_eq_of_lt held.2]

/-! ## Reading -/

theorem Progress.opened (settings : Settings) (folder : Folder) (mtime began : Nat) :
    Progress settings folder ⟨mtime, began, folder.listing, [], 0, 0⟩ where
  offered := rfl
  listed := fun _ member => member
  storage := BitVec.zero_add _
  count := BitVec.zero_add _

theorem Progress.read {settings : Settings} {folder : Folder} {scan : Scan}
    (progress : Progress settings folder scan) {entry : Entry} {size : BitVec 64}
    (pending : entry ∈ scan.owed ∨ entry ∈ scan.offered)
    (sized : entry ∈ folder.listing → size = entry.size) :
    Progress settings folder (scan.read settings entry size) := by
  have owed : entry ∈ scan.owed := by
    rcases pending with owed | offered
    · exact owed
    · rw [progress.offered] at offered
      cases offered
  have found : size = entry.size := sized (progress.listed entry owed)
  have storage := progress.storage
  have count := progress.count
  rw [usageOf_erase owed] at storage
  rw [countOf_erase owed] at count
  rw [found, Scan.read]
  change Progress settings folder (if counted settings entry then _ else _)
  cases counts : counted settings entry with
  | false =>
      rw [counts, if_neg Bool.false_ne_true, Nat.zero_add] at storage count
      constructor
      · simpa [owed] using progress.offered
      · intro other member
        exact progress.listed other (List.mem_of_mem_erase member)
      · exact storage
      · exact count
  | true =>
      rw [counts, if_pos rfl, BitVec.ofNat_add, ← BitVec.add_assoc] at storage count
      rw [BitVec.ofNat_toNat, BitVec.setWidth_eq] at storage
      constructor
      · simpa [owed] using progress.offered
      · intro other member
        exact progress.listed other (List.mem_of_mem_erase member)
      · exact storage
      · exact count

theorem Progress.kept {settings : Settings} {folder : Folder} {scan : Scan}
    (progress : Progress settings folder scan) (done : scan.owed = []) (lastUpdate : Nat) :
    Kept settings folder ⟨lastUpdate, scan.mtime, scan.storage, scan.count⟩ := by
  have storage := progress.storage
  have count := progress.count
  rw [done] at storage count
  exact ⟨(BitVec.add_zero _).symm.trans storage, (BitVec.add_zero _).symm.trans count⟩

/-! ## One step -/

section Step

variable {settings : Settings} {before after : State}

/-- A change in another second than that of the record leaves nothing to be unmodified. -/
theorem Tracked.change (tracked : Tracked settings before)
    (later : scanned before ≠ some before.clock) (own : BitVec 64) (files : List Entry)
    (change : Scan → Scan) (same : ∀ scan, (change scan).mtime = scan.mtime ∧
      (change scan).began = scan.began) :
    Tracked settings
      { before with
        folder := ⟨own, files, before.clock⟩
        phase := before.phase.map change } where
  mtime := Nat.le_refl _
  idle := by
    intro phase directory given
    have idle : before.phase = .idle := by
      cases held : before.phase with
      | idle => rfl
      | statted mtime began =>
          rw [held] at phase
          cases phase
      | reading scan =>
          rw [held] at phase
          cases phase
    rcases tracked.idle idle directory given with ⟨past, _⟩
    refine ⟨past, ?_⟩
    intro recorded unmodified
    have present : before.directory = some directory := given
    have second : scanned before = some directory.mtime := by
      rw [scanned, idle, present]
      exact if_neg recorded
    rw [second] at later
    exact absurd (congrArg some (Nat.le_antisymm past unmodified)) later
  statted := by
    intro mtime began phase
    cases held : before.phase with
    | idle =>
        rw [held] at phase
        cases phase
    | statted first second =>
        rw [held] at phase
        exact tracked.statted mtime began (held.trans phase)
    | reading scan =>
        rw [held] at phase
        cases phase
  reading := by
    intro scan phase
    cases held : before.phase with
    | idle =>
        rw [held] at phase
        cases phase
    | statted first second =>
        rw [held] at phase
        cases phase
    | reading earlier =>
        rw [held] at phase
        cases phase
        rcases tracked.reading earlier held with ⟨ordered, past, _⟩
        rw [(same earlier).1, (same earlier).2]
        refine ⟨ordered, past, ?_⟩
        intro unmodified
        have second : scanned before = some earlier.mtime := by
          rw [scanned, held]
        rw [second] at later
        change before.clock ≤ earlier.mtime ∨ before.clock < earlier.began at unmodified
        have equal : earlier.mtime = before.clock := by omega
        exact absurd (congrArg some equal) later

theorem Tracked.tick (tracked : Tracked settings before) :
    Tracked settings { before with clock := before.clock + 1 } where
  mtime := Nat.le_succ_of_le tracked.mtime
  idle := by
    intro phase directory given
    rcases tracked.idle phase directory given with ⟨past, kept⟩
    exact ⟨Nat.le_succ_of_le past, kept⟩
  statted := by
    intro mtime began phase
    rcases tracked.statted mtime began phase with ⟨ordered, past⟩
    exact ⟨ordered, Nat.le_succ_of_le past⟩
  reading := by
    intro scan phase
    rcases tracked.reading scan phase with ⟨ordered, past, progress⟩
    exact ⟨ordered, Nat.le_succ_of_le past, progress⟩

theorem Tracked.polled (tracked : Tracked settings before) (idle : before.phase = .idle)
    {directory : Directory} (given : before.directory = some directory) (found : Bool) :
    Tracked settings (beginPoll settings before directory found) := by
  have known := tracked.idle idle directory given
  have updated : Tracked settings
      { before with directory := some { directory with lastUpdate := before.clock } } := by
    constructor
    · exact tracked.mtime
    · intro _ other same
      rw [Option.mem_def, Option.some.injEq] at same
      rw [← same]
      refine ⟨known.1, ?_⟩
      intro recorded unmodified
      have kept := known.2 recorded unmodified
      exact ⟨kept.usage, kept.count⟩
    · exact tracked.statted
    · exact tracked.reading
  rw [beginPoll]
  split
  · exact tracked
  · simp only
    split
    · exact updated
    · constructor
      · exact tracked.mtime
      · intro phase
        cases phase
      · intro mtime began phase
        cases phase
        exact ⟨tracked.mtime, Nat.le_refl _⟩
      · intro scan phase
        cases phase

theorem Tracked.opened (tracked : Tracked settings before) {mtime began : Nat}
    (phase : before.phase = .statted mtime began) :
    Tracked settings
      { before with phase := .reading ⟨mtime, began, before.folder.listing, [], 0, 0⟩ } where
  mtime := tracked.mtime
  idle := by
    intro phase
    cases phase
  statted := by
    intro mtime began phase
    cases phase
  reading := by
    intro scan same
    cases same
    rcases tracked.statted mtime began phase with ⟨ordered, past⟩
    exact ⟨ordered, past, fun _ => Progress.opened settings before.folder mtime began⟩

theorem scan_read_times (scan : Scan) (entry : Entry) (size : BitVec 64) :
    (scan.read settings entry size).mtime = scan.mtime ∧
      (scan.read settings entry size).began = scan.began := by
  simp only [Scan.read]
  split
  · exact ⟨rfl, rfl⟩
  · exact ⟨rfl, rfl⟩

theorem Tracked.read (tracked : Tracked settings before) {scan : Scan}
    (phase : before.phase = .reading scan) {entry : Entry} {size : BitVec 64}
    (pending : entry ∈ scan.owed ∨ entry ∈ scan.offered)
    (sized : entry ∈ before.folder.listing → size = entry.size) :
    Tracked settings { before with phase := .reading (scan.read settings entry size) } where
  mtime := tracked.mtime
  idle := by
    intro phase
    cases phase
  statted := by
    intro mtime began phase
    cases phase
  reading := by
    intro later same
    cases same
    rcases tracked.reading scan phase with ⟨ordered, past, progress⟩
    rw [(scan_read_times scan entry size).1, (scan_read_times scan entry size).2]
    exact ⟨ordered, past, fun unmodified => (progress unmodified).read pending sized⟩

theorem Tracked.closed (tracked : Tracked settings before) {scan : Scan}
    (phase : before.phase = .reading scan) (done : scan.owed = []) (lastUpdate : Nat) :
    Tracked settings
      { before with
        directory := some ⟨lastUpdate, scan.mtime, scan.storage, scan.count⟩
        phase := .idle } where
  mtime := tracked.mtime
  idle := by
    intro _ directory given
    rw [Option.mem_def, Option.some.injEq] at given
    rw [← given]
    rcases tracked.reading scan phase with ⟨ordered, past, progress⟩
    refine ⟨Nat.le_trans ordered past, ?_⟩
    intro _ unmodified
    exact (progress (.inl unmodified)).kept done lastUpdate
  statted := by
    intro mtime began phase
    cases phase
  reading := by
    intro scan phase
    cases phase

theorem Tracked.lost (tracked : Tracked settings before) :
    Tracked settings { before with directory := none } where
  mtime := tracked.mtime
  idle := by
    intro _ directory given
    cases given
  statted := tracked.statted
  reading := tracked.reading

theorem Tracked.step (tracked : Tracked settings before) {event : Event}
    (stepped : step settings before event = some after)
    (undisturbed : Undisturbed settings before event) : Tracked settings after := by
  cases event with
  | tick =>
      cases stepped
      exact tracked.tick
  | add entry own =>
      rw [Polling.step] at stepped
      split at stepped
      · cases stepped
      · cases stepped
        exact tracked.change undisturbed own _ _ fun _ => ⟨rfl, rfl⟩
  | remove entry own =>
      rw [Polling.step] at stepped
      split at stepped
      · cases stepped
        exact tracked.change undisturbed own _ _ fun _ => ⟨rfl, rfl⟩
      · cases stepped
  | poll found =>
      rw [Polling.step] at stepped
      split at stepped
      · rename_i directory idle given
        cases stepped
        exact tracked.polled idle given found
      · cases stepped
  | opendir opens =>
      rw [Polling.step] at stepped
      split at stepped
      · rename_i mtime began phase
        cases stepped
        rw [show opens = true from undisturbed]
        exact tracked.opened phase
      · cases stepped
  | readdir entry size =>
      rw [Polling.step] at stepped
      split at stepped
      · rename_i scan phase
        split at stepped
        · rename_i allowed
          cases stepped
          exact tracked.read phase allowed.1 allowed.2
        · cases stepped
      · cases stepped
  | closedir =>
      rw [Polling.step] at stepped
      split at stepped
      · rename_i scan directory phase given
        split at stepped
        · rename_i done
          cases stepped
          exact tracked.closed phase done directory.lastUpdate
        · cases stepped
      · cases stepped
  | lost =>
      rw [Polling.step] at stepped
      split at stepped
      · cases stepped
        exact tracked.lost
      · cases stepped

theorem Tracked.counts (tracked : Tracked settings before) {event : Event}
    (stepped : Polling.step settings before event = some after)
    (undisturbed : Undisturbed settings before event) : Counts settings before event after := by
  intro began completed older directory given
  cases event with
  | poll found =>
      rw [Polling.step] at stepped
      split at stepped
      · rename_i held idle present
        cases stepped
        simp only [completes, present, Option.mem_def] at completed
        split at completed
        · rename_i ready
          simp only [Bool.and_eq_true, Bool.not_eq_true'] at ready
          rcases ready with ⟨⟨due, found⟩, unmodified⟩
          simp only [beginPoll, due, found, unmodified, Bool.false_eq_true, if_false,
            Bool.not_true, Bool.or_true, if_true, Option.mem_def, Option.some.injEq] at given
          rw [Directory.unmodified, Bool.and_eq_true, bne_iff_ne, decide_eq_true_eq] at unmodified
          have kept := (tracked.idle idle held present).2 unmodified.1 unmodified.2
          simp only [beginPoll, due, found, Bool.false_eq_true, if_false]
          split
          · rw [← given]
            exact Kept.recorded ⟨kept.usage, kept.count⟩ undisturbed
          · rw [← given]
            exact Kept.recorded ⟨kept.usage, kept.count⟩ undisturbed
        · cases completed
      · cases stepped
  | closedir =>
      rw [Polling.step] at stepped
      split at stepped
      · rename_i scan held phase present
        split at stepped
        · rename_i done
          cases stepped
          simp only [completes, phase, Option.mem_def, Option.some.injEq] at completed
          rw [Option.mem_def, Option.some.injEq] at given
          rw [← completed] at older
          rcases tracked.reading scan phase with ⟨_, _, progress⟩
          rw [← given]
          exact ((progress (.inr older)).kept done held.lastUpdate).recorded undisturbed
        · cases stepped
      · cases stepped
  | tick => cases completed
  | add entry own => cases completed
  | remove entry own => cases completed
  | opendir opens => cases completed
  | readdir entry size => cases completed
  | lost => cases completed

end Step

/-! ## Runs -/

/-- Whatever comes and goes, as long as no change falls into the second of the record, each
poll in a later second than the last change has recorded the files. -/
theorem polling_counts (settings : Settings) {start finish : State} (starts : Starts start)
    {events : List Event}
    (run : Run (fun before event after => step settings before event = some after ∧
      Undisturbed settings before event) start events finish) :
    Run (fun before event after => step settings before event = some after ∧
      Counts settings before event after) start events finish := by
  apply run.convert (Tracked settings) starts.tracked
  · intro before event after tracked stepped
    exact tracked.step stepped.1 stepped.2
  · intro before event after tracked stepped
    exact ⟨stepped.1, tracked.counts stepped.1 stepped.2⟩

/-- What is recorded under the time of the last change stays as it is, right or wrong, until
the next change. -/
theorem unmodified_stays (settings : Settings) {start finish : State} {directory : Directory}
    (idle : start.phase = .idle) (given : start.directory = some directory)
    (recorded : directory.mtime ≠ 0) (unmodified : start.folder.mtime ≤ directory.mtime)
    {events : List Event}
    (run : Run (fun before event after => step settings before event = some after ∧
      (∀ entry own, event ≠ .add entry own ∧ event ≠ .remove entry own) ∧ event ≠ .lost)
        start events finish) :
    finish.phase = .idle ∧ finish.folder = start.folder ∧ ∃ later,
      finish.directory = some later ∧ later.mtime = directory.mtime ∧
        later.usage = directory.usage ∧ later.count = directory.count := by
  apply run.preserves
    (fun state => state.phase = .idle ∧ state.folder = start.folder ∧ ∃ later,
      state.directory = some later ∧ later.mtime = directory.mtime ∧
        later.usage = directory.usage ∧ later.count = directory.count)
  · exact ⟨idle, rfl, directory, given, rfl, rfl, rfl⟩
  · intro before event after kept stepped
    rcases kept with ⟨phase, folder, later, present, mtime, usage, count⟩
    rcases stepped with ⟨stepped, unchanged, held⟩
    cases event with
    | tick =>
        cases stepped
        exact ⟨phase, folder, later, present, mtime, usage, count⟩
    | add entry own => exact absurd rfl (unchanged entry own).1
    | remove entry own => exact absurd rfl (unchanged entry own).2
    | poll found =>
        have same : later.unmodified before.folder.mtime = true := by
          rw [folder, Directory.unmodified, mtime, Bool.and_eq_true, bne_iff_ne,
            decide_eq_true_eq]
          exact ⟨recorded, unmodified⟩
        rw [step, phase, present] at stepped
        simp only [beginPoll, same, Bool.or_true, if_true, Option.some.injEq] at stepped
        rw [← stepped]
        split
        · exact ⟨phase, folder, later, present, mtime, usage, count⟩
        · exact ⟨phase, folder, _, rfl, mtime, usage, count⟩
    | opendir opens =>
        rw [step, phase] at stepped
        cases stepped
    | readdir entry size =>
        rw [step, phase] at stepped
        cases stepped
    | closedir =>
        rw [step, phase] at stepped
        cases stepped
    | lost => exact absurd rfl held

/-! ## A missed file -/

def everyFile : Settings := ⟨0, false⟩

def first : Entry := ⟨"1.M1,S=10".toList, 10⟩

def second : Entry := ⟨"2.M2,S=20".toList, 20⟩

/-- A directory into which `first` has just come. -/
def arrived : State := ⟨100, ⟨4096, [first], 100⟩, some ⟨0, 0, 0, 0⟩, .idle⟩

/-- The poll of a directory that holds the file `first` alone. -/
def pollFirst : List Event :=
  [.poll true, .opendir true, .readdir ⟨['.'], 4096⟩ 4096, .readdir ⟨['.', '.'], 4096⟩ 4096,
    .readdir first 10, .closedir]

theorem starts_arrived : Starts arrived := ⟨rfl, rfl, Nat.le_refl 100⟩

instance (settings : Settings) (folder : Folder) : Decidable (Representable settings folder) :=
  inferInstanceAs (Decidable (_ ∧ _))

instance decidableUndisturbed (settings : Settings) (before : State) :
    (event : Event) → Decidable (Undisturbed settings before event)
  | .add _ _ => inferInstanceAs (Decidable (scanned before ≠ some before.clock))
  | .remove _ _ => inferInstanceAs (Decidable (scanned before ≠ some before.clock))
  | .opendir opens => inferInstanceAs (Decidable (opens = true))
  | .poll _ => inferInstanceAs (Decidable (Representable settings before.folder))
  | .closedir => inferInstanceAs (Decidable (Representable settings before.folder))
  | .tick => isTrue trivial
  | .readdir _ _ => isTrue trivial
  | .lost => isTrue trivial

/-- The steps that are undisturbed. -/
def undisturbed (settings : Settings) (before : State) (event : Event) : Option State :=
  if Undisturbed settings before event then step settings before event else none

/-- `second` comes and `first` goes between polls. -/
def changes : List Event :=
  .tick :: pollFirst ++ [.tick, .add second 4096, .tick, .poll true, .opendir true,
    .readdir ⟨['.'], 4096⟩ 4096, .readdir ⟨['.', '.'], 4096⟩ 4096, .readdir second 20,
    .readdir first 10, .closedir, .tick, .remove first 4096, .tick, .poll true, .opendir true,
    .readdir ⟨['.'], 4096⟩ 4096, .readdir ⟨['.', '.'], 4096⟩ 4096, .readdir second 20, .closedir]

theorem polling_counts_changes :
    ∃ finish, Run (fun before event after => step everyFile before event = some after ∧
      Counts everyFile before event after) arrived changes finish ∧
        finish.directory = some ⟨105, 104, 20, 1⟩ := by
  have run : Run (fun before event after => step everyFile before event = some after ∧
      Undisturbed everyFile before event) arrived changes
      ⟨105, ⟨4096, [second], 104⟩, some ⟨105, 104, 20, 1⟩, .idle⟩ := by
    have executed : execute (undisturbed everyFile) arrived changes =
        some ⟨105, ⟨4096, [second], 104⟩, some ⟨105, 104, 20, 1⟩, .idle⟩ := by decide +kernel
    apply (run_of_execute executed).weaken
    intro before event after stepped
    rw [undisturbed] at stepped
    split at stepped
    · rename_i quiet
      exact ⟨stepped, quiet⟩
    · cases stepped
  exact ⟨_, polling_counts everyFile starts_arrived run, rfl⟩

/-- A file that comes in the second of the poll, behind one that came before it, is not
counted in the next second. -/
theorem not_polling_counts :
    ¬∀ settings start events before event after, Starts start →
      Run (fun before event after => step settings before event = some after) start events
        before → step settings before event = some after →
          Counts settings before event after := by
  intro counts
  let missed : State :=
    ⟨101, ⟨4096, [second, first], 100⟩, some ⟨100, 100, 10, 1⟩, .idle⟩
  have run : Run (fun before event after => step everyFile before event = some after) arrived
      (pollFirst ++ [.add second 4096, .tick]) missed := run_of_execute (by decide +kernel)
  have polled : step everyFile missed (.poll true) =
      some { missed with directory := some ⟨101, 100, 10, 1⟩ } := by decide +kernel
  have recorded := counts everyFile arrived _ missed (.poll true) _ starts_arrived run polled 101
    (by decide +kernel) (by decide) _ rfl
  exact absurd recorded.2 (by decide +kernel)

end Polling

end Vpopmail.Vusaged
