import Vpopmail.Bigdir
import Vpopmail.DomainAssign
import Vpopmail.Vcdb.DirControl

/-! # Adding domains

`vadddomain` with the steps that undo what it has done when a later one fails.
-/

namespace Vpopmail

open Text Buffer

/-- The `VA_` codes that the functions on domains return. -/
inductive DomainCode
  | success
  | badDDir
  | domainDoesNotExist
  | invalidDomainName
  | domainAlreadyExists
  | couldNotMakeDomainDir
  | couldNotOpenQmailDefault
  | canNotMakeDomainsDir
  | couldNotUpdateFile
  | noAuthConnection
  | domainNameTooLong
  | dirTooLong
  deriving DecidableEq

def DomainCode.number : DomainCode → Int
  | success => 0
  | badDDir => -5
  | domainDoesNotExist => -11
  | invalidDomainName => -12
  | domainAlreadyExists => -13
  | couldNotMakeDomainDir => -14
  | couldNotOpenQmailDefault => -15
  | canNotMakeDomainsDir => -16
  | couldNotUpdateFile => -17
  | noAuthConnection => -23
  | domainNameTooLong => -26
  | dirTooLong => -30

/-! ## The state -/

/-- What the functions on domains work on: `control` is the control file of the directories
that `vcdb.c` keeps for the user that owns the domain, and the cache is the one of
`vget_assign`. -/
structure DomainState where
  installation : Installation
  cache : AssignCache
  control : Option (List Char)

/-- Which of the steps of `vadddomain` succeed. -/
structure DomainAccess where
  entersDir : Bool
  makesDir : Bool
  entersMadeDir : Bool
  recordsCount : Bool
  makesSubDir : Bool
  entersSubDir : Bool
  opensQmailDefault : Bool
  add : AddAccess
  addsToAuth : Bool
  undoCount : Bool
  undoAssign : FileAccess
  undoControl : ControlAccess

/-! ## The directory control file -/

section DirectoryControl

variable (name : List Char)

/-- `open_big_dir`. `name` is the name of the control file, which the buffer of
`read_dir_control` holds before the first line. -/
def openBigDir (control : Option (List Char)) : Checked VdirType :=
  (Vcdb.readDirControl name control Vcdb.clearedVdir).map Prod.snd

/-- `close_big_dir`, which ignores that the file cannot be written. -/
def closeBigDir (opened : Bool) (control : Option (List Char)) (vdir : VdirType) :
    Option (List Char) :=
  (Vcdb.writeDirControl opened control vdir).2

/-- The directory for another domain, and the file with the domain counted. -/
def allocateDir (opened : Bool) (control : Option (List Char)) :
    Checked (List Char × Option (List Char)) :=
  (openBigDir name control).bind fun vdir =>
    (Bigdir.nextBigDir vdir).map fun (domainHash, vdir) =>
      (domainHash, closeBigDir opened control vdir)

/-- `dec_dir_control`. -/
def decDirControl (opened : Bool) (control : Option (List Char)) :
    Checked (Option (List Char)) :=
  (openBigDir name control).map fun vdir =>
    closeBigDir opened control { vdir with curUsers := vdir.curUsers - 1 }

end DirectoryControl

/-! ## Names and directories -/

def domainNameChar (char : Char) : Bool := char.isAlphanum || char = '-' || char = '.'

/-- The checks of `vadddomain` on the name. -/
def checkDomainName (domain : List Char) : DomainCode :=
  if domain.length < 3 then .invalidDomainName
  else if maxPwDomain < domain.length then .domainNameTooLong
  else if domain.head? = some '-' || !domain.all domainNameChar then .invalidDomainName
  else if domain.getLast? = some '-' || !domain.contains '.' then .invalidDomainName
  else .success

/-- The directory of the domains, `VPOPMAIL_DIR_DOMAINS/domain` without a parameter. -/
def domainsDir (vpopmailDirDomains domain : List Char) : Option (List Char) → List Char
  | none | some [] => snprintf 512 (vpopmailDirDomains ++ '/' :: domain)
  | some dir => dir

/-- `DomainSubDir`. -/
def domainSubDir (dir domainHash domain : List Char) : List Char :=
  snprintf maxBuff
    (dir ++ (if domainHash = [] then [] else '/' :: domainHash) ++ '/' :: domain)

/-- The steps between the allocation of the directory and `add_domain_assign`. -/
def makeDomainDir (access : DomainAccess) (dir subDir : List Char) : DomainCode :=
  if maxPwDir < dir.length + subDir.length then .dirTooLong
  else if !access.makesSubDir then .couldNotMakeDomainDir
  else if !access.entersSubDir then .badDDir
  else if !access.opensQmailDefault then .couldNotOpenQmailDefault
  else .success

/-! ## The function -/

section AddDomain

variable (stale : List Char → List Char) (newu : Option (List Char) → Option Cdb)
  (name : List Char)

/-- The values of `domain`, `uid`, `gid` and `Dir` after a lookup. `Dir` holds what was in
memory if nothing is found. -/
def entryOf (memory domain : List Char) (uid gid : BitVec 32) (answer : AssignAnswer) :
    Assigned where
  realDomain := answer.domain.getD domain
  uid := answer.uid.getD uid
  gid := answer.gid.getD gid
  dir := answer.dir.getD memory

/-- What is undone when `vauth_adddomain` fails. -/
def undoDomain (access : DomainAccess) (memory domain : List Char) (uid gid : BitVec 32)
    (state : DomainState) : DomainState :=
  let looked := vgetAssign state.installation.cdb ⟨some domain, some maxBuff, true, true⟩
    state.cache
  let entry := entryOf memory domain uid gid looked.1
  let removed := delDomainAssign newu access.undoAssign [entry.realDomain] entry.realDomain
    entry.dir entry.uid entry.gid state.installation
  let control := delControl access.undoControl [entry.realDomain] removed.2.files
  { installation := { removed.2 with files := control.2 }
    cache :=
      if removed.1 = 0 then (vgetAssign none ⟨none, none, false, false⟩ looked.2).2 else looked.2
    control := state.control }

/-- `vadddomain` from the allocation of the directory on. -/
def createDomain (access : DomainAccess) (memory domain dir : List Char) (uid gid : BitVec 32)
    (state : DomainState) : Checked (DomainCode × DomainState) :=
  (allocateDir name access.recordsCount state.control).bind fun (domainHash, control) =>
    let subDir := domainSubDir dir domainHash domain
    let made := makeDomainDir access dir subDir
    let giveBack := decDirControl name access.undoCount control
    if made ≠ .success then
      giveBack.map fun control => (made, { state with control := control })
    else
      (addDomainAssign stale newu access.add domain domain subDir uid gid
          state.installation).bind fun (added, installation) =>
        if added ≠ 0 then
          giveBack.map fun control =>
            (.couldNotUpdateFile,
              { state with installation := installation, control := control })
        else if !access.addsToAuth then
          giveBack.map fun control =>
            (.noAuthConnection, undoDomain newu access memory domain uid gid
              { state with installation := installation, control := control })
        else .ok (.success, { state with installation := installation, control := control })

/-- `vadddomain`. -/
def vadddomain (access : DomainAccess) (vpopmailDirDomains memory domain : List Char)
    (dir : Option (List Char)) (uid gid : BitVec 32) (state : DomainState) :
    Checked (DomainCode × DomainState) :=
  let domain := lowerit domain
  if checkDomainName domain ≠ .success then .ok (checkDomainName domain, state)
  else
    let looked := vgetAssign state.installation.cdb ⟨some domain, none, false, false⟩ state.cache
    let state := { state with cache := looked.2 }
    if looked.1.returned.isSome then .ok (.domainAlreadyExists, state)
    else if !access.entersDir && !access.makesDir then .ok (.canNotMakeDomainsDir, state)
    else if !access.entersDir && !access.entersMadeDir then .ok (.badDDir, state)
    else
      createDomain stale newu name access memory domain (domainsDir vpopmailDirDomains domain dir)
        uid gid state

end AddDomain

end Vpopmail
