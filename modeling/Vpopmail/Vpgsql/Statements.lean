import Vpopmail.ControlFiles
import Vpopmail.Foundation.Database
import Vpopmail.Vcdb.Passwd

/-! # The PostgreSQL backend

The tables of `vpgsql.c`, and the functions that change them. A function is given which of
its statements the server accepts, in the order in which it executes them; a statement that is
accepted still fails on a missing table or a second row of a primary key.
-/

namespace Vpopmail.Vpgsql

open Vpopmail Database

/-! ## Tables -/

/-- A row of a table of users. Tables of single domains have no column for the domain. -/
structure UserRow where
  pwName : List Char
  pwDomain : List Char
  pwPasswd : List Char
  pwUid : Int
  pwGid : Int
  pwGecos : List Char
  pwDir : List Char
  pwShell : List Char
  pwClearPasswd : Option (List Char)
  deriving DecidableEq

structure AliasRow where
  aliasName : List Char
  domain : List Char
  valiasLine : List Char
  deriving DecidableEq

structure IpAliasRow where
  ipAddr : List Char
  domain : List Char
  deriving DecidableEq

/-- `ip_alias_map`, where `keyed` says whether addresses are its primary key, as they are when
`vcreate_ip_map_table` has made it. -/
structure IpAliasTable where
  keyed : Bool
  rows : List IpAliasRow
  deriving DecidableEq

structure DirControlRow where
  domain : List Char
  vdir : VdirType

structure LastauthRow where
  userid : List Char
  domain : List Char
  remoteIp : List Char
  timestamp : Int
  deriving DecidableEq

/-- The contents of the database. -/
structure Tables where
  users : List Char → Option (List UserRow)
  valias : Option (List AliasRow)
  valiasIdx : Bool
  ipAliasMap : Option IpAliasTable
  dirControl : Option (List DirControlRow)
  lastauth : Option (List LastauthRow)

/-! ## Statements -/

def Tables.setUsers (tables : Tables) (table : List Char) (rows : List UserRow) : Tables :=
  { tables with users := Function.update tables.users table (some rows) }

/-- Whether rows have one primary key. -/
def UserRow.isOf (row : UserRow) (name domain : List Char) : Bool :=
  row.pwName = name && row.pwDomain = domain

def insertUser (table : List Char) (row : UserRow) : Statement Tables := fun tables =>
  (tables.users table).bind fun rows =>
    if rows.any fun other => other.isOf row.pwName row.pwDomain then none
    else some (tables.setUsers table (rows ++ [row]))

def deleteUser (table name domain : List Char) : Statement Tables := fun tables =>
  (tables.users table).map fun rows =>
    tables.setUsers table (rows.filter fun row => !row.isOf name domain)

def updateUser (table : List Char) (row : UserRow) : Statement Tables := fun tables =>
  (tables.users table).map fun rows =>
    tables.setUsers table
      (rows.map fun other => if other.isOf row.pwName row.pwDomain then row else other)

def deleteLastauth (isOf : LastauthRow → Bool) : Statement Tables := fun tables =>
  tables.lastauth.map fun rows =>
    { tables with lastauth := some (rows.filter fun row => !isOf row) }

def insertAlias (row : AliasRow) : Statement Tables := fun tables =>
  tables.valias.map fun rows => { tables with valias := some (rows ++ [row]) }

def deleteAliases (isOf : AliasRow → Bool) : Statement Tables := fun tables =>
  tables.valias.map fun rows => { tables with valias := some (rows.filter fun row => !isOf row) }

def createValias : Statement Tables := fun tables =>
  if tables.valias.isSome then none else some { tables with valias := some [] }

def createValiasIdx : Statement Tables := fun tables =>
  if tables.valias.isSome && !tables.valiasIdx then some { tables with valiasIdx := true }
  else none

def deleteIp (row : IpAliasRow) : Statement Tables := fun tables =>
  tables.ipAliasMap.map fun table =>
    { tables with
      ipAliasMap := some { table with rows := table.rows.filter fun other => other ≠ row } }

def insertIp (row : IpAliasRow) : Statement Tables := fun tables =>
  tables.ipAliasMap.bind fun table =>
    if table.keyed && table.rows.any fun other => other.ipAddr = row.ipAddr then none
    else some { tables with ipAliasMap := some { table with rows := table.rows ++ [row] } }

def createIpAliasMap : Statement Tables := fun tables =>
  if tables.ipAliasMap.isSome then none
  else some { tables with ipAliasMap := some ⟨true, []⟩ }

def deleteDirControl (domain : List Char) : Statement Tables := fun tables =>
  tables.dirControl.map fun rows =>
    { tables with dirControl := some (rows.filter fun row => row.domain ≠ domain) }

def insertDirControl (row : DirControlRow) : Statement Tables := fun tables =>
  tables.dirControl.bind fun rows =>
    if rows.any fun other => other.domain = row.domain then none
    else some { tables with dirControl := some (rows ++ [row]) }

/-! ## Functions -/

structure Build where
  manyDomains : Bool
  clearPass : Bool
  enableAuthLogging : Bool
  usersBigDir : Bool

def sqlDotChar : Char := '_'

/-- `vauth_munch_domain`. -/
def vauthMunchDomain (domain : List Char) : List Char :=
  (domain.take 511).map fun char =>
    if char = '.' || char = '-' then sqlDotChar else lowerChar char

def pgsqlDefaultTable : List Char := "vpopmail".toList

def pgsqlLargeUsersTable : List Char := "users".toList

/-- The table of the users of a domain. -/
def Build.userTable (build : Build) (domain : List Char) : List Char :=
  if build.manyDomains then pgsqlDefaultTable else vauthMunchDomain domain

/-- What stands in the column of the domain, if there is one. -/
def Build.domainColumn (build : Build) (domain : List Char) : List Char :=
  if build.manyDomains then domain else []

section Functions

variable (accepts : Nat → Bool) (opened : Int)

/-- The row that `auth_adduser` inserts: `domDir` is what `vget_assign` leaves of the directory,
and `crypted` what `mkpasswd3` makes of the password. -/
def newUserRow (build : Build) (vpopmailDirDomains domDir crypted user domain pass gecos
    dir : List Char) (apop : Int) : UserRow where
  pwName := user
  pwDomain := build.domainColumn domain
  pwPasswd := if pass = [] then [] else crypted
  pwUid := apop
  pwGid := 0
  pwGecos := gecos
  pwDir :=
    let base := if domain = [] then vpopmailDirDomains ++ "/users".toList else domDir
    snprintf 200 (base ++ (if dir = [] then [] else '/' :: dir) ++ '/' :: user)
  pwShell := "NOQUOTA".toList
  pwClearPasswd := if build.clearPass then some pass else none

/-- The table that `auth_adduser` writes to. -/
def addUserTable (build : Build) (domain : List Char) : List Char :=
  if domain = [] then pgsqlLargeUsersTable else build.userTable domain

/-- `auth_adduser`. -/
def authAdduser (build : Build) (vpopmailDirDomains domDir crypted user domain pass gecos
    dir : List Char) (apop : Int) (connection : Connection Tables) : Int × Connection Tables :=
  if opened ≠ 0 then (opened, connection)
  else
    let row := newUserRow build vpopmailDirDomains domDir crypted user domain pass gecos dir apop
    (0, (exec (accepts 0) (insertUser (addUserTable build domain) row) connection).2)

/-- The row of a record that `auth_setpw` writes. -/
def passwordRow (build : Build) (inpw : Vqpasswd) (domain : List Char) : UserRow where
  pwName := inpw.pwName
  pwDomain := build.domainColumn domain
  pwPasswd := inpw.pwPasswd
  pwUid := inpw.pwUid.toInt
  pwGid := inpw.pwGid.toInt
  pwGecos := inpw.pwGecos
  pwDir := inpw.pwDir
  pwShell := inpw.pwShell
  pwClearPasswd := if build.clearPass then inpw.pwClearPasswd else none

/-- `auth_setpw`, where `owns` says whether the process may write for the domain. -/
def authSetpw (build : Build) (owns : Bool) (inpw : Vqpasswd) (domain : List Char)
    (connection : Connection Tables) : Int × Connection Tables :=
  let err := Vcdb.vcheckVqpw ⟨build.clearPass, build.usersBigDir⟩ inpw domain
  if err ≠ .success then (err.number, connection)
  else if !owns then (VaCode.badUid.number, connection)
  else if opened ≠ 0 then (opened, connection)
  else
    let updated := exec (accepts 0)
      (updateUser (build.userTable domain) (passwordRow build inpw domain)) connection
    (if updated.1 then 0 else -1, updated.2)

/-- The table that `auth_deluser` deletes from. -/
def delUserTable (build : Build) (domain : List Char) : List Char :=
  if build.manyDomains then pgsqlDefaultTable
  else if domain = [] then pgsqlLargeUsersTable
  else vauthMunchDomain domain

/-- `auth_deluser`. In SQL the name `user` stands for the user of the connection. -/
def authDeluser (build : Build) (currentUser user domain : List Char)
    (connection : Connection Tables) : Int × Connection Tables :=
  if opened ≠ 0 then (opened, connection)
  else
    let deleted := exec (accepts 0)
      (deleteUser (delUserTable build domain) user (build.domainColumn domain)) connection
    if build.enableAuthLogging then
      let logged := exec (accepts 1)
        (deleteLastauth fun row => currentUser = user && row.domain = domain) deleted.2
      (if deleted.1 && logged.1 then 0 else -1, logged.2)
    else (if deleted.1 then 0 else -1, deleted.2)

/-- `vcreate_valias_table`, whose statements are those from `position` on. -/
def vcreateValiasTable (position : Nat) (connection : Connection Tables) : Connection Tables :=
  let created := exec (accepts position) createValias connection
  (exec (accepts (position + 1)) createValiasIdx created.2).2

/-- `alias_insert`. -/
def aliasInsert (aliasName domain aliasLine : List Char) (connection : Connection Tables) :
    Int × Connection Tables :=
  if opened ≠ 0 then (opened, connection)
  else
    let row : AliasRow := ⟨aliasName, domain, aliasLine.dropWhile (· = ' ')⟩
    let inserted := exec (accepts 0) (insertAlias row) connection
    if !inserted.1 then
      let again := exec (accepts 3) (insertAlias row) (vcreateValiasTable accepts 1 inserted.2)
      if !again.1 then (-1, again.2) else (0, again.2)
    else (-1, inserted.2)

/-- The part that `alias_delete` and `alias_remove` share: the rows to delete are `isOf`. -/
def deleteAliasRows (isOf : AliasRow → Bool) (connection : Connection Tables) :
    Int × Connection Tables :=
  if opened ≠ 0 then (opened, connection)
  else
    let deleted := exec (accepts 0) (deleteAliases isOf) connection
    if !deleted.1 then
      let again := exec (accepts 3) (deleteAliases isOf) (vcreateValiasTable accepts 1 deleted.2)
      if !again.1 then (-1, again.2) else (0, again.2)
    else (0, deleted.2)

/-- `alias_delete`. -/
def aliasDelete (aliasName domain : List Char) : Connection Tables → Int × Connection Tables :=
  deleteAliasRows accepts opened fun row => row.aliasName = aliasName && row.domain = domain

/-- `alias_remove`. -/
def aliasRemove (aliasName domain aliasLine : List Char) :
    Connection Tables → Int × Connection Tables :=
  deleteAliasRows accepts opened fun row =>
    row.aliasName = aliasName && row.valiasLine = aliasLine && row.domain = domain

/-- `add_ip_map`. The status of the first statement in the transaction is not looked at. -/
def addIpMap (ip domain : List Char) (connection : Connection Tables) :
    Int × Connection Tables :=
  if ip = [] then (-1, connection)
  else if domain = [] then (-1, connection)
  else if opened ≠ 0 then (opened, connection)
  else
    let begun := begin (accepts 0) connection
    if !begun.1 then (-1, begun.2)
    else
      let deleted := exec (accepts 1) (deleteIp ⟨ip, domain⟩) begun.2
      let inserted := exec (accepts 2) (insertIp ⟨ip, domain⟩) deleted.2
      if !inserted.1 then
        let created := exec (accepts 3) createIpAliasMap inserted.2
        let again := exec (accepts 4) (insertIp ⟨ip, domain⟩) created.2
        if !again.1 then (-1, again.2)
        else
          let ended := commit (accepts 5) again.2
          (if ended.1 then 0 else -1, ended.2)
      else
        let ended := commit (accepts 3) inserted.2
        (if ended.1 then 0 else -1, ended.2)

/-- `del_ip_map`, which returns 0 for a statement that failed as well. -/
def delIpMap (ip domain : List Char) (connection : Connection Tables) :
    Int × Connection Tables :=
  if ip = [] then (-1, connection)
  else if domain = [] then (-1, connection)
  else if opened ≠ 0 then (opened, connection)
  else (0, (exec (accepts 0) (deleteIp ⟨ip, domain⟩) connection).2)

/-- `write_dir_control`. When the row cannot be inserted, a result is read that has been
freed: the function has no meaning then. -/
def writeDirControl (vdir : VdirType) (domain : List Char) (connection : Connection Tables) :
    Option (Int × Connection Tables) :=
  if opened ≠ 0 then some (-1, connection)
  else
    let begun := begin (accepts 0) connection
    if !begun.1 then some (-1, begun.2)
    else
      let deleted := exec (accepts 1) (deleteDirControl domain) begun.2
      if !deleted.1 then some (-1, deleted.2)
      else
        let inserted := exec (accepts 2) (insertDirControl ⟨domain, vdir⟩) deleted.2
        if !inserted.1 then none
        else
          let ended := commit (accepts 3) inserted.2
          some (if ended.1 then 0 else -1, ended.2)

end Functions

end Vpopmail.Vpgsql
