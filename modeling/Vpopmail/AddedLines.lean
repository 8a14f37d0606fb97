import Vpopmail.AddDomain
import Vpopmail.UpdatedFiles

/-! # What `add_domain_assign` makes of the files

How far it comes, and which files then have a new line.
-/

namespace Vpopmail

open Text Vpopmail.Stream Buffer

/-! ## Lines -/

theorem free_assignLine {char : Char} {aliasDomain realDomain dir : List Char}
    {uid gid : BitVec 32} (other : char ∉ ['+', '-', ':']) (digit : char.isDigit = false)
    (aliasFree : Free char aliasDomain) (realFree : Free char realDomain)
    (dirFree : Free char dir) : Free char (assignLine aliasDomain realDomain dir uid gid) := by
  have number : ∀ value, Free char (Decimal.spellNat value) := by
    intro value member
    have digits := Decimal.isDigit_of_mem_spellNat member
    rw [digit] at digits
    cases digits
  simp only [List.mem_cons, List.not_mem_nil, or_false, not_or] at other
  simp only [assignLine, free_append, free_cons, List.cons_append]
  exact ⟨other.1, ⟨⟨⟨⟨aliasFree, other.2.1, other.2.2, realFree⟩, other.2.2, number _⟩,
    other.2.2, number _⟩, other.2.2, dirFree⟩, other.2.2, other.2.1, other.2.2, other.2.2,
    free_nil char⟩

theorem domainNameChars_of_check {domain : List Char}
    (valid : checkDomainName domain = .success) : ∀ char ∈ domain, domainNameChar char = true := by
  rw [checkDomainName] at valid
  split at valid
  · cases valid
  · split at valid
    · cases valid
    · split at valid
      · cases valid
      · rename_i chars
        simp only [Bool.or_eq_true, not_or, Bool.not_eq_true', Bool.not_eq_false] at chars
        exact List.all_eq_true.mp chars.2

theorem checkDomainName_success {domain : List Char} (valid : checkDomainName domain = .success) :
    domain ≠ [] ∧ domain.length ≤ maxPwDomain ∧ Printable domain := by
  have plain := domainNameChars_of_check valid
  rw [checkDomainName] at valid
  split at valid
  · cases valid
  · split at valid
    · cases valid
    · split at valid
      · cases valid
      · next long short _ =>
          refine ⟨?_, by omega, ?_, ?_, ?_⟩
          · rintro rfl
            simp at long
          · exact fun member => absurd (plain _ member) (by decide)
          · exact fun member => absurd (plain _ member) (by decide)
          · simp only [maxPwDomain] at short
            simp only [maxBuff]
            omega

/-! ## How far it comes -/

/-- With 50 hosts in `rcpthosts` the domain goes to `morercpthosts`. -/
def Many (access : AddAccess) (files : Qmail) : Prop :=
  50 ≤ countRcpthosts access.counts files.rcpthosts

instance (access : AddAccess) (files : Qmail) : Decidable (Many access files) :=
  inferInstanceAs (Decidable (50 ≤ countRcpthosts access.counts files.rcpthosts))

def hostsAccess (access : AddAccess) (files : Qmail) : UpdateAccess :=
  if Many access files then access.morercpthosts else access.rcpthosts

/-- The file of the hosts has the new domain, and nothing else is changed. -/
inductive HostsUpdated (access : AddAccess) (domain : List Char) (before : Qmail) : Qmail → Prop
  | more {file : Option (List Char)} : Many access before →
      Updated .rcpthosts domain before.morercpthosts file →
        HostsUpdated access domain before { before with morercpthosts := file }
  | few {file : Option (List Char)} : ¬ Many access before →
      Updated .rcpthosts domain before.rcpthosts file →
        HostsUpdated access domain before { before with rcpthosts := file }

/-- The results of the part about the files of `control`. -/
inductive ControlAdded (access : AddAccess) (domain : List Char) (before : Qmail) :
    Int → Qmail → Prop
  | noHosts {result : Int} : result ≠ 0 → (hostsAccess access before).update ≠ .opened →
      ControlAdded access domain before result before
  | noVirtualdomains {result : Int} {middle : Qmail} : result ≠ 0 →
      (hostsAccess access before).update = .opened → HostsUpdated access domain before middle →
      access.virtualdomains.update ≠ .opened → ControlAdded access domain before result middle
  | added {result : Int} {middle : Qmail} {virtualdomains locals : Option (List Char)} :
      (result = 0 ↔ access.locals = .opened) → (hostsAccess access before).update = .opened →
      HostsUpdated access domain before middle → access.virtualdomains.update = .opened →
      Updated .virtualdomains (virtualLine domain) before.virtualdomains virtualdomains →
      ControlAdded access domain before result
        { middle with virtualdomains := virtualdomains, locals := locals }

section Adding

variable {stale : List Char → List Char} {newu : Option (List Char) → Option Cdb}
  {access : AddAccess} {domain : List Char} {files : Qmail}

theorem HostsUpdated.virtualdomains {after : Qmail}
    (updated : HostsUpdated access domain files after) :
    after.virtualdomains = files.virtualdomains := by
  cases updated <;> rfl

theorem HostsUpdated.assign {after : Qmail} (updated : HostsUpdated access domain files after) :
    after.assign = files.assign := by
  cases updated <;> rfl

theorem printable_virtualLine (printable : Printable domain) (short : domain.length ≤ maxPwDomain) :
    Printable (virtualLine domain) ∧ (virtualLine domain).length + 1 < maxBuff := by
  have length := virtualLine_length domain
  simp only [maxPwDomain] at short
  have fits : (virtualLine domain).length + 1 < maxBuff := by
    rw [length, maxBuff]
    omega
  refine ⟨⟨?_, free_virtualLine printable.plain, by omega⟩, fits⟩
  rw [virtualLine, free_append, free_cons]
  exact ⟨printable.newline, by decide, printable.newline⟩

theorem updateNewu_files (newu : Option (List Char) → Option Cdb)
    (installation : Installation) :
    (updateNewu newu installation).files = installation.files := by
  rw [updateNewu]
  split <;> rfl

/-- The file that `add_domain_assign` starts from. -/
def assignBase (file : Option (List Char)) : Option (List Char) := some (file.getD ['.', '\n'])

/-- The results of `add_domain_assign`. -/
inductive DomainAdded (stale : List Char → List Char) (newu : Option (List Char) → Option Cdb)
    (access : AddAccess) (domain line : List Char) (before : Installation) :
    Int → Installation → Prop
  | noFile {result : Int} : result ≠ 0 → before.files.assign = none → access.creates = false →
      DomainAdded stale newu access domain line before result before
  | noAssign {result : Int} : result ≠ 0 →
      (before.files.assign = none → access.creates = true) → access.assign.update ≠ .opened →
      DomainAdded stale newu access domain line before result
        { before with files :=
          { before.files with assign := assignBase before.files.assign } }
  | control {result : Int} {assign : Option (List Char)} {files : Qmail} :
      (before.files.assign = none → access.creates = true) → access.assign.update = .opened →
      updateFile stale access.assign .assign line (assignBase before.files.assign) =
        .ok (0, assign) →
      Updated .assign line (assignBase before.files.assign) assign →
      ControlAdded access domain { before.files with assign := assign } result files →
      DomainAdded stale newu access domain line before result
        { updateNewu newu { before with files := { before.files with assign := assign } } with
          files := files }

theorem assignBase_fits {file : Option (List Char)} (fits : Fits file) : Fits (assignBase file) := by
  cases file with
  | none => unfold Fits; decide
  | some text => exact fits

theorem assignBase_clean {file : Option (List Char)} (clean : Clean file) :
    Clean (assignBase file) := by
  refine ⟨assignBase_fits clean.fits, ?_⟩
  cases file with
  | none => unfold Plain Free; decide
  | some text => exact clean.plain

end Adding

end Vpopmail
