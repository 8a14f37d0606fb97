import Vpopmail.AddDomain
import Vpopmail.AssignCache

/-! # Alias domains and the deletion of domains

`vaddaliasdomain`, `get_domain_entries` and `vdeldomain`.
-/

namespace Vpopmail

open Text Vpopmail.Stream Buffer

section AddAlias

variable (stale : List Char → List Char) (newu : Option (List Char) → Option Cdb)

/-- `vaddaliasdomain`, which does not look at the result of `add_domain_assign`. -/
def vaddaliasdomain (access : AddAccess) (aliasDomain realDomain : List Char)
    (process : AssignProcess) : Checked (DomainCode × AssignProcess) :=
  let aliasDomain := lowerit aliasDomain
  let realDomain := lowerit realDomain
  if !isDomainValid realDomain || !isDomainValid aliasDomain then
    .ok (.invalidDomainName, process)
  else if maxPwDomain < aliasDomain.length then .ok (.domainNameTooLong, process)
  else
    let looked := vgetAssign process.installation.cdb ⟨some aliasDomain, none, false, false⟩
      process.cache
    if looked.1.returned.isSome then
      .ok (.domainAlreadyExists, { process with cache := looked.2 })
    else
      let found := vgetAssign process.installation.cdb
        ⟨some realDomain, some maxBuff, true, true⟩ looked.2
      let process := { process with cache := found.2 }
      let entry := entryOf [] realDomain 0 0 found.1
      if !found.1.returned.isSome then .ok (.domainDoesNotExist, process)
      else if aliasDomain = entry.realDomain then .ok (.domainAlreadyExists, process)
      else
        (addDomainAssign stale newu access aliasDomain entry.realDomain entry.dir entry.uid
            entry.gid process.installation).map fun added =>
          (.success, { process with installation := added.2 })

end AddAlias

/-! ## Entries of `users/assign` -/

/-- `domain_entry`. -/
structure DomainEntry where
  domain : List Char
  realDomain : List Char
  uid : Int
  gid : Int
  path : List Char
  deriving DecidableEq

def colon (char : Char) : Bool := char = ':'

/-- The fields of a line in `linebuf`, or nothing if the line is skipped. The two tokens in
front must be separated by one colon, with a `-` before it. -/
def parseEntry (linebuf : List Char) : Option DomainEntry :=
  match linebuf with
  | '+' :: text =>
      (strtok colon text).bind fun (domain, rest) =>
        if !domain.contains '.' then none
        else
          (strtok colon rest).bind fun (realDomain, fields) =>
            if domain.length < 2 || rest.head? = some ':' || domain.getLast? ≠ some '-' then none
            else
              (strtok colon fields).bind fun (uid, fields) =>
                (strtok colon fields).bind fun (gid, fields) =>
                  (strtok colon fields).map fun (path, _) =>
                    { domain := domain.dropLast
                      realDomain := realDomain
                      uid := Decimal.atoi uid
                      gid := Decimal.atoi gid
                      path := path }
  | _ => none

/-- All results of `get_domain_entries`, first with a domain and then with null pointers. -/
def getDomainEntries (matchReal : List Char) (process : AssignProcess) :
    List DomainEntry × AssignCache :=
  let looked := vgetAssign process.installation.cdb
    ⟨some (snprintf maxPwDomain matchReal), none, false, false⟩ process.cache
  let matchBuffer := looked.1.domain.getD []
  ((((fgetsLoop maxBuff (process.installation.files.assign.getD [])).filterMap fun chunk =>
      parseEntry (cstring chunk)).filter fun entry =>
        matchBuffer = [] || entry.realDomain = matchBuffer), looked.2)

/-! ## Deletion -/

section Delete

variable (newu : Option (List Char) → Option Cdb)

/-- The part of `vdeldomain` behind the lookup: `aliases` are deleted. -/
def deleteDomains (access : DomainAccess) (aliases : List (List Char)) (entry : Assigned)
    (process : AssignProcess) : AssignProcess :=
  let control := delControl access.undoControl aliases process.installation.files
  let removed := delDomainAssign newu access.undoAssign aliases entry.realDomain entry.dir
    entry.uid entry.gid { process.installation with files := control.2 }
  let process := { process with installation := removed.2 }
  if removed.1 < 0 then process else clearCache process

/-- `vdeldomain`. -/
def vdeldomain (access : DomainAccess) (domain : List Char) (process : AssignProcess) :
    DomainCode × AssignProcess :=
  let domain := lowerit domain
  if maxPwDomain < domain.length then (.domainNameTooLong, process)
  else
    let looked := vgetAssign process.installation.cdb ⟨some domain, some maxBuff, true, true⟩
      process.cache
    let process := { process with cache := looked.2 }
    let entry := entryOf [] domain 0 0 looked.1
    if !looked.1.returned.isSome then (.domainDoesNotExist, process)
    else if domain ≠ entry.realDomain then
      (.success, deleteDomains newu access (stringListOf 1 [domain]).values entry process)
    else
      let entries := getDomainEntries entry.realDomain process
      (.success, deleteDomains newu access
        (stringListOf 10 (entries.1.map DomainEntry.domain)).values entry
        { process with cache := entries.2 })

end Delete

end Vpopmail
