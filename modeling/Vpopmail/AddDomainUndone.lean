import Vpopmail.AddedLines
import Vpopmail.AssignCache
import Vpopmail.DirectoryCount

/-! # Domains that are not added

When `vadddomain` returns an error the control files and the recorded count of directories
are as before exactly when the steps that were taken left nothing that is not undone.
-/

namespace Vpopmail

open Text Vpopmail.Stream Buffer

/-! ## The condition -/

structure CleanControl (files : Qmail) : Prop where
  rcpthosts : Clean files.rcpthosts
  morercpthosts : Clean files.morercpthosts
  virtualdomains : Clean files.virtualdomains

structure CleanFiles (files : Qmail) : Prop extends CleanControl files where
  assign : Clean files.assign

/-- A file has the line that an update puts in, and the ones behind it. -/
def Known (fileType : FileType) (line : List Char) (file : Option (List Char)) : Prop :=
  line ∈ linesOf file ∧ ∀ last ∈ ending fileType, last ∈ linesOf file

/-- No file is made, and those that are updated have the lines already. -/
def NothingAdded (access : AddAccess) (domain line : List Char) (files : Qmail) : Prop :=
  (files.assign = none → access.creates = false) ∧
  (files.assign ≠ none → access.assign.update = .opened → Known .assign line files.assign ∧
    ((hostsAccess access files).update = .opened →
      domain ∈ linesOf (if Many access files then files.morercpthosts else files.rcpthosts) ∧
      (access.virtualdomains.update = .opened →
        virtualLine domain ∈ linesOf files.virtualdomains)))

section Condition

variable (stale : List Char → List Char) (newu : Option (List Char) → Option Cdb)
  (name : List Char)

end Condition

/-- Four files with the same lines. -/
structure SameFiles (before after : Qmail) : Prop where
  assign : SameLines before.assign after.assign
  rcpthosts : SameLines before.rcpthosts after.rcpthosts
  morercpthosts : SameLines before.morercpthosts after.morercpthosts
  virtualdomains : SameLines before.virtualdomains after.virtualdomains

theorem CleanControl.setAssign {files : Qmail} (clean : CleanControl files)
    (assign : Option (List Char)) : CleanControl { files with assign := assign } :=
  ⟨clean.rcpthosts, clean.morercpthosts, clean.virtualdomains⟩

theorem sameLines_refl (file : Option (List Char)) : SameLines file file := fun _ => Iff.rfl

section Files

variable {access : AddAccess} {domain line : List Char} {files after : Qmail}

theorem HostsUpdated.same_iff (clean : CleanControl files) (printable : Printable domain)
    (updated : HostsUpdated access domain files after) :
    (SameLines files.rcpthosts after.rcpthosts ∧
      SameLines files.morercpthosts after.morercpthosts) ↔
    domain ∈ linesOf (if Many access files then files.morercpthosts else files.rcpthosts) := by
  cases updated with
  | more many update =>
      have same := update.sameLines_iff clean.morercpthosts printable
      simp only [ending, List.not_mem_nil, false_implies, implies_true, and_true] at same
      rw [if_pos many, ← same]
      exact ⟨fun both => both.2, fun other => ⟨sameLines_refl _, other⟩⟩
  | few few update =>
      have same := update.sameLines_iff clean.rcpthosts printable
      simp only [ending, List.not_mem_nil, false_implies, implies_true, and_true] at same
      rw [if_neg few, ← same]
      exact ⟨fun both => both.1, fun other => ⟨other, sameLines_refl _⟩⟩

theorem ControlAdded.same_iff {result : Int} (clean : CleanControl files)
    (printable : Printable domain) (short : domain.length ≤ maxPwDomain)
    (added : ControlAdded access domain files result after) :
    ((SameLines files.rcpthosts after.rcpthosts ∧
      SameLines files.morercpthosts after.morercpthosts) ∧
      SameLines files.virtualdomains after.virtualdomains) ↔
    ((hostsAccess access files).update = .opened →
      domain ∈ linesOf (if Many access files then files.morercpthosts else files.rcpthosts) ∧
      (access.virtualdomains.update = .opened →
        virtualLine domain ∈ linesOf files.virtualdomains)) := by
  cases added with
  | noHosts _ closed =>
      simp only [closed, false_implies, iff_true]
      exact ⟨⟨sameLines_refl _, sameLines_refl _⟩, sameLines_refl _⟩
  | noVirtualdomains _ opened updated closed =>
      simp only [opened, closed, false_implies, and_true, true_implies]
      rw [← updated.same_iff clean printable, updated.virtualdomains]
      exact ⟨fun both => both.1, fun hosts => ⟨hosts, sameLines_refl _⟩⟩
  | added _ opened updated virtualOpened update =>
      have printed := (printable_virtualLine printable short).1
      have same := update.sameLines_iff clean.virtualdomains printed
      simp only [ending, List.not_mem_nil, false_implies, implies_true, and_true] at same
      simp only [opened, virtualOpened, true_implies]
      rw [← updated.same_iff clean printable, ← same]

theorem ControlAdded.assign {result : Int}
    (added : ControlAdded access domain files result after) : after.assign = files.assign := by
  cases added with
  | noHosts => rfl
  | noVirtualdomains _ _ updated _ => exact updated.assign
  | added _ _ updated _ _ => exact updated.assign

theorem known_none (fileType : FileType) (line : List Char) : ¬ Known fileType line none := by
  rintro ⟨member, -⟩
  cases member

theorem sameLines_assign_iff {file assign : Option (List Char)} (clean : Clean file)
    (printable : Printable line) (update : Updated .assign line (assignBase file) assign) :
    SameLines file assign ↔ Known .assign line file := by
  cases file with
  | none =>
      rcases update.mem_lines (assignBase_clean clean) printable with
        ⟨lines, rfl, printables, -, -, behind, -⟩
      have printed : linesOf (some (printLines lines)) = lines :=
        linesOf_printLines fun line member => (printables line member).newline
      simp only [known_none, iff_false]
      intro same
      have period := behind ['.'] (List.mem_singleton_self _)
      rw [← printed, same] at period
      cases period
  | some text => exact update.sameLines_iff clean printable

/-! ## A failed `add_domain_assign` -/

variable {stale : List Char → List Char} {newu : Option (List Char) → Option Cdb}
  {before installation : Installation}

theorem DomainAdded.same_iff {result : Int} (clean : CleanFiles before.files)
    (printable : Printable domain) (short : domain.length ≤ maxPwDomain)
    (linePrintable : Printable line)
    (added : DomainAdded stale newu access domain line before result installation) :
    SameFiles before.files installation.files ↔ NothingAdded access domain line before.files := by
  cases added with
  | noFile _ missing closed =>
      simp only [NothingAdded, missing, closed, ne_eq, not_true_eq_false, false_implies,
        implies_true, and_self, iff_true]
      exact ⟨sameLines_refl _, sameLines_refl _, sameLines_refl _, sameLines_refl _⟩
  | noAssign _ creates closed =>
      simp only [NothingAdded, closed, false_implies, implies_true, and_true]
      cases file : before.files.assign with
      | none =>
          simp only [creates file, Bool.true_eq_false, imp_false, not_true_eq_false, iff_false]
          intro same
          have period := (same.assign ['.']).mp (by simp only; decide)
          rw [file] at period
          cases period
      | some text =>
          simp only [reduceCtorEq, false_implies, iff_true]
          refine ⟨?_, sameLines_refl _, sameLines_refl _, sameLines_refl _⟩
          rw [file]
          exact sameLines_refl _
  | control creates opened ran update control =>
      have assignIff := sameLines_assign_iff clean.assign linePrintable update
      have controlIff := control.same_iff (clean.toCleanControl.setAssign _) printable short
      have present : Known .assign line before.files.assign → before.files.assign ≠ none := by
        intro known missing
        rw [missing] at known
        exact known_none _ _ known
      constructor
      · rintro ⟨assign, rcpthosts, morercpthosts, virtualdomains⟩
        simp only [control.assign] at assign
        have known := assignIff.mp assign
        refine ⟨fun missing => absurd missing (present known), fun _ _ => ⟨known, ?_⟩⟩
        exact controlIff.mp ⟨⟨rcpthosts, morercpthosts⟩, virtualdomains⟩
      · rintro ⟨creation, nothing⟩
        have exists_ : before.files.assign ≠ none := by
          intro missing
          have made := creates missing
          rw [creation missing] at made
          cases made
        rcases nothing exists_ opened with ⟨known, others⟩
        rcases controlIff.mpr others with ⟨⟨rcpthosts, morercpthosts⟩, virtualdomains⟩
        refine ⟨?_, rcpthosts, morercpthosts, virtualdomains⟩
        simp only [control.assign]
        exact assignIff.mpr known

/-! ## The roll-back -/

theorem DomainAdded.compiled
    (added : DomainAdded stale newu access domain line before 0 installation) :
    ∃ assign, updateFile stale access.assign .assign line (assignBase before.files.assign) =
        .ok (0, assign) ∧
      installation.cdb = (updateNewu newu
        { before with files := { before.files with assign := assign } }).cdb := by
  cases added with
  | noFile nonzero => exact absurd rfl nonzero
  | noAssign nonzero => exact absurd rfl nonzero
  | control _ _ ran _ _ => exact ⟨_, ran, rfl⟩

end Files

/-! ## All or nothing -/

section AllOrNothing

variable (stale : List Char → List Char) (newu : Option (List Char) → Option Cdb)
  {name : List Char} {access : DomainAccess} {memory domain dir : List Char} {uid gid : BitVec 32}
  {state after : DomainState} {code : DomainCode}

end AllOrNothing

/-! ## A server without domains -/

end Vpopmail
