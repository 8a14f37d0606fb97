import Vpopmail.AssignLookup
import Vpopmail.UpdateFile

/-! # Adding and removing the lines of a domain

`add_domain_assign` and `del_domain_assign`. `qmail-newu` compiles `users/assign` into
`users/cdb`, which stays as it is when that fails.
-/

namespace Vpopmail

open Vpopmail.Stream Buffer

/-- The files that say which domains there are. -/
structure Installation where
  files : Qmail
  cdb : Option Cdb

/-- `update_newu`. -/
def updateNewu (newu : Option (List Char) → Option Cdb) (installation : Installation) :
    Installation :=
  match newu installation.files.assign with
  | none => installation
  | some cdb => { installation with cdb := some cdb }

/-- The line of a domain in `users/assign`. -/
def assignLine (aliasDomain realDomain dir : List Char) (uid gid : BitVec 32) : List Char :=
  '+' :: aliasDomain ++ '-' :: ':' :: realDomain ++ ':' :: Decimal.spellNat uid.toNat ++
    ':' :: Decimal.spellNat gid.toNat ++ ':' :: dir ++ [':', '-', ':', ':']

/-- The access to the files in `add_domain_assign`, where `creates` and `counts` are about
opening a new `users/assign` and reading `rcpthosts`. -/
structure AddAccess where
  creates : Bool
  assign : UpdateAccess
  counts : Bool
  rcpthosts : UpdateAccess
  morercpthosts : UpdateAccess
  virtualdomains : UpdateAccess
  locals : FileAccess

section Adding

variable (stale : List Char → List Char) (newu : Option (List Char) → Option Cdb)

/-- The file of the hosts for a new domain: with 50 of them it is `morercpthosts`. -/
def addRcpthosts (access : AddAccess) (aliasDomain : List Char) (files : Qmail) :
    Checked (Int × Qmail) :=
  if 50 ≤ countRcpthosts access.counts files.rcpthosts then
    (updateFile stale access.morercpthosts .rcpthosts aliasDomain files.morercpthosts).map
      fun updated => (updated.1, { files with morercpthosts := updated.2 })
  else
    (updateFile stale access.rcpthosts .rcpthosts aliasDomain files.rcpthosts).map
      fun updated => (updated.1, { files with rcpthosts := updated.2 })

/-- The part of `add_domain_assign` that is about the files of `control`. -/
def addControl (access : AddAccess) (aliasDomain : List Char) (files : Qmail) :
    Checked (Int × Qmail) :=
  (addRcpthosts stale access aliasDomain files).bind fun (result, files) =>
    if result ≠ 0 then .ok (-1, files)
    else
      (updateFile stale access.virtualdomains .virtualdomains
          (snprintf maxBuff (virtualLine aliasDomain)) files.virtualdomains).map
        fun updated =>
          let files := { files with virtualdomains := updated.2 }
          if updated.1 ≠ 0 then (-1, files)
          else
            let removed := removeLines access.locals [aliasDomain] files.locals
            (if removed.1 < 0 then -1 else 0, { files with locals := removed.2 })

/-- `add_domain_assign`. -/
def addDomainAssign (access : AddAccess) (aliasDomain realDomain dir : List Char)
    (uid gid : BitVec 32) (installation : Installation) : Checked (Int × Installation) :=
  match installation.files.assign, access.creates with
  | none, false => .ok (-1, installation)
  | file, _ =>
      let assign := file.getD ['.', '\n']
      (updateFile stale access.assign .assign
          (snprintf maxBuff (assignLine aliasDomain realDomain dir uid gid)) (some assign)).bind
        fun updated =>
          let installation :=
            { installation with files := { installation.files with assign := updated.2 } }
          if updated.1 ≠ 0 then .ok (-1, installation)
          else
            let installation := updateNewu newu installation
            (addControl stale access aliasDomain installation.files).map
              fun added => (added.1, { installation with files := added.2 })

/-- `del_domain_assign`, but for the cache it clears when it succeeds. -/
def delDomainAssign (access : FileAccess) (aliases : List (List Char)) (realDomain dir : List Char)
    (uid gid : BitVec 32) (installation : Installation) : Int × Installation :=
  let lines := aliases.map fun aliasDomain =>
    snprintf maxBuff (assignLine aliasDomain realDomain dir uid gid)
  let removed := removeLines access (stringListOf 10 lines).values installation.files.assign
  if removed.1 < 0 then (-1, installation)
  else
    (0, updateNewu newu
      { installation with files := { installation.files with assign := removed.2 } })

end Adding

end Vpopmail
