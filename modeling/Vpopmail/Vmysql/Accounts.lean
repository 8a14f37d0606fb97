import Mathlib.Data.List.DropRight
import Vpopmail.Vconvert
import Vpopmail.Vpgsql.Statements

/-! # Accounts of the MySQL backend

The functions of `vmysql.c` that `vconvert` calls. The rows are those of the PostgreSQL backend,
stored in the columns of `TABLE_LAYOUT`, which are narrower than what `vcheck_vqpw` admits.
-/

namespace Vpopmail.Vmysql

open Vpopmail Database Vpgsql

/-! ## Columns -/

/-- A text without the blanks at its end, which a column of fixed width does not keep. -/
def unpadded (text : List Char) : List Char := text.rdropWhile (· = ' ')

/-- What is read from a column `char(size)`. -/
def charColumn (size : Nat) : TextColumn :=
  ⟨fun text => unpadded (text.take size), fun text =>
    (List.rdropWhile_prefix _ _).trans (List.take_prefix size text)⟩

/-- The server: whether it refuses values that are too long for their columns, and which names
are one key. Blanks at the end do not count. -/
structure Server where
  strict : Bool
  collate : List Char → List Char
  collate_unpadded : ∀ text, collate (unpadded text) = collate text

/-- The row that is stored in a table of `TABLE_LAYOUT`. -/
def layoutRow (row : UserRow) : UserRow :=
  { row with
    pwName := (charColumn 32).val row.pwName
    pwDomain := (charColumn 96).val row.pwDomain
    pwPasswd := (charColumn 40).val row.pwPasswd
    pwGecos := (charColumn 48).val row.pwGecos
    pwDir := (charColumn 160).val row.pwDir
    pwShell := (charColumn 20).val row.pwShell
    pwClearPasswd := row.pwClearPasswd.map (charColumn 16).val }

/-- The values fit the columns. -/
def FitsLayout (row : UserRow) : Prop :=
  (unpadded row.pwName).length ≤ 32 ∧ (unpadded row.pwDomain).length ≤ 96 ∧
    (unpadded row.pwPasswd).length ≤ 40 ∧ (unpadded row.pwGecos).length ≤ 48 ∧
    (unpadded row.pwDir).length ≤ 160 ∧ (unpadded row.pwShell).length ≤ 20 ∧
    (unpadded (row.pwClearPasswd.getD [])).length ≤ 16

instance (row : UserRow) : Decidable (FitsLayout row) :=
  inferInstanceAs (Decidable (_ ∧ _ ∧ _ ∧ _ ∧ _ ∧ _ ∧ _))

def layoutColumns (server : Server) : Columns where
  name := charColumn 32
  passwd := charColumn 40
  gecos := charColumn 48
  dir := charColumn 160
  shell := charColumn 20
  clear := charColumn 16
  key := server.collate
  key_name := by
    intro user short
    change server.collate (unpadded (user.take 32)) = server.collate user
    rw [List.take_of_length_le (show user.length ≤ 32 from short), server.collate_unpadded]

/-! ## Statements -/

/-- `mysql_query`. -/
def mysqlQuery (statement : Statement Tables) (tables : Tables) : Bool × Tables :=
  match statement tables with
  | some after => (true, after)
  | none => (false, tables)

section Statements

variable (server : Server)

/-- The primary key. -/
def rowKey (row : UserRow) : List Char × List Char :=
  (server.collate row.pwName, server.collate row.pwDomain)

def insertUser (table : List Char) (row : UserRow) : Statement Tables := fun tables =>
  (tables.users table).bind fun rows =>
    if server.strict = true ∧ ¬ FitsLayout row then none
    else if rows.any fun other => rowKey server other = rowKey server (layoutRow row) then none
    else some (tables.setUsers table (rows ++ [layoutRow row]))

/-- What `SETPW` makes of a row: its name and domain stay. -/
def setRow (row : UserRow) (other : UserRow) : UserRow :=
  { layoutRow row with pwName := other.pwName, pwDomain := other.pwDomain }

def setRows (row : UserRow) (rows : List UserRow) : List UserRow :=
  rows.map fun other => if rowKey server other = rowKey server row then setRow row other else other

def updateUser (table : List Char) (row : UserRow) : Statement Tables := fun tables =>
  (tables.users table).bind fun rows =>
    if server.strict = true ∧ ¬ FitsLayout row ∧
        ∃ other ∈ rows, rowKey server other = rowKey server row then none
    else some (tables.setUsers table (setRows server row rows))

def dropUsers (table : List Char) : Statement Tables := fun tables =>
  if (tables.users table).isSome then
    some { tables with users := Function.update tables.users table none }
  else none

def deleteUsers (table domain : List Char) : Statement Tables := fun tables =>
  (tables.users table).map fun rows =>
    tables.setUsers table
      (rows.filter fun row => server.collate row.pwDomain ≠ server.collate domain)

def deleteUser (table name domain : List Char) : Statement Tables := fun tables =>
  (tables.users table).map fun rows =>
    tables.setUsers table
      (rows.filter fun row => rowKey server row ≠ (server.collate name, server.collate domain))

def createUsers (table : List Char) : Statement Tables := fun tables =>
  if (tables.users table).isSome then none else some (tables.setUsers table [])

/-! ## Functions -/

/-- `auth_deldomain`. A query that fails is only reported. The statements on the tables of
aliases, logins and limits are left out. -/
def authDeldomain (build : Vpgsql.Build) (domain : List Char) (tables : Tables) : Int × Tables :=
  (0, (mysqlQuery (if build.manyDomains then deleteUsers server (build.userTable domain) domain
    else dropUsers (build.userTable domain)) tables).2)

/-- `auth_adddomain`. -/
def authAdddomain (build : Vpgsql.Build) (domain : List Char) (tables : Tables) : Int × Tables :=
  let created := mysqlQuery (createUsers (build.userTable domain)) tables
  (if build.manyDomains then 0 else if created.1 then 0 else -1, created.2)

/-- `auth_adduser`, where `crypt` is `mkpasswd3`. -/
def authAdduser (build : Vpgsql.Build) (vpopmailDirDomains domDir : List Char)
    (crypt : List Char → List Char) (user domain pass gecos dir : List Char) (apop : Int)
    (tables : Tables) : Int × Tables :=
  let inserted := mysqlQuery (insertUser server (addUserTable build domain)
    (newUserRow build vpopmailDirDomains domDir (crypt pass) user domain pass gecos dir apop))
    tables
  (if inserted.1 then 0 else -1, inserted.2)

/-- `auth_setpw`, where `owns` says whether the process may write for the domain. -/
def authSetpw (build : Vpgsql.Build) (owns : Bool) (inpw : Vqpasswd) (domain : List Char)
    (tables : Tables) : Int × Tables :=
  let err := Vcdb.vcheckVqpw ⟨build.clearPass, build.usersBigDir⟩ inpw domain
  if err ≠ .success then (err.number, tables)
  else if !owns then (VaCode.badUid.number, tables)
  else
    let updated := mysqlQuery
      (updateUser server (build.userTable domain) (passwordRow build inpw domain)) tables
    (if updated.1 then 0 else -1, updated.2)

end Statements

/-- The record that `auth_getall` makes of a row, but for the flags. -/
def rowRecord (build : Vpgsql.Build) (row : UserRow) : Vqpasswd where
  pwName := row.pwName
  pwPasswd := row.pwPasswd
  pwUid := BitVec.ofInt 32 row.pwUid
  pwGid := BitVec.ofInt 32 row.pwGid
  pwFlags := 0
  pwGecos := row.pwGecos
  pwDir := row.pwDir
  pwShell := row.pwShell
  pwClearPasswd := if build.clearPass then some (row.pwClearPasswd.getD []) else none

/-! ## The table of a domain -/

section Domain

variable (server : Server) (build : Vpgsql.Build) (domain : List Char)

/-- The database has the table of the domain. -/
structure HasUsers (tables : Tables) (rows : List UserRow) : Prop where
  present : tables.users (build.userTable domain) = some rows
  keyed : (rows.map (rowKey server)).Nodup

/-- A database with the table of the domain. -/
abbrev Users := { tables : Tables // ∃ rows, HasUsers server build domain tables rows }

/-- The rows of the domain in the table. -/
def rowsOf (rows : List UserRow) : List UserRow :=
  rows.filter fun row => server.collate row.pwDomain = server.collate (build.domainColumn domain)

def userRows (tables : Tables) : List UserRow :=
  rowsOf server build domain ((tables.users (build.userTable domain)).getD [])

variable {server build domain} {tables : Tables} {rows : List UserRow}

theorem HasUsers.userRows (has : HasUsers server build domain tables rows) :
    userRows server build domain tables = rowsOf server build domain rows := by
  rw [Vmysql.userRows, has.present, Option.getD_some]

theorem HasUsers.setUsers {others : List UserRow} (keyed : (others.map (rowKey server)).Nodup) :
    HasUsers server build domain (tables.setUsers (build.userTable domain) others) others := by
  refine ⟨?_, keyed⟩
  rw [Tables.setUsers]
  exact Function.update_self _ _ _

theorem mem_rowsOf {row : UserRow} :
    row ∈ rowsOf server build domain rows ↔
      row ∈ rows ∧ server.collate row.pwDomain = server.collate (build.domainColumn domain) := by
  rw [rowsOf, List.mem_filter, decide_eq_true_eq]

/-- In the domain a row has the key of a user when it has the name. -/
theorem rowKey_eq_iff {row : UserRow} (member : row ∈ rowsOf server build domain rows)
    {other : UserRow}
    (own : server.collate other.pwDomain = server.collate (build.domainColumn domain)) :
    rowKey server row = rowKey server other ↔
      server.collate row.pwName = server.collate other.pwName := by
  rw [rowKey, rowKey, Prod.mk.injEq, own, (mem_rowsOf.mp member).2, and_iff_left rfl]

theorem mysqlQuery_some {statement : Statement Tables} {after : Tables}
    (ran : statement tables = some after) : mysqlQuery statement tables = (true, after) := by
  rw [mysqlQuery, ran]

theorem mysqlQuery_none {statement : Statement Tables} (failed : statement tables = none) :
    mysqlQuery statement tables = (false, tables) := by
  rw [mysqlQuery, failed]

/-- The names of a domain have distinct keys. -/
theorem HasUsers.distinct (has : HasUsers server build domain tables rows) :
    ((rowsOf server build domain rows).map fun row => server.collate row.pwName).Nodup := by
  have keys : ((rowsOf server build domain rows).map (rowKey server)).Nodup :=
    has.keyed.sublist (List.filter_sublist.map (rowKey server))
  have column : (rowsOf server build domain rows).map (rowKey server) =
      ((rowsOf server build domain rows).map fun row => server.collate row.pwName).map fun name =>
        (name, server.collate (build.domainColumn domain)) := by
    rw [List.map_map]
    apply List.map_congr_left
    intro row member
    rw [rowKey, (mem_rowsOf.mp member).2]
    rfl
  rw [column] at keys
  exact keys.of_map _

theorem collate_layoutRow_pwName {row : UserRow} (short : row.pwName.length ≤ maxPwName) :
    server.collate (layoutRow row).pwName = server.collate row.pwName :=
  (layoutColumns server).key_name row.pwName short

theorem collate_layoutRow_pwDomain {row : UserRow} (short : row.pwDomain.length ≤ maxPwDomain) :
    server.collate (layoutRow row).pwDomain = server.collate row.pwDomain := by
  change server.collate (unpadded (row.pwDomain.take 96)) = server.collate row.pwDomain
  rw [List.take_of_length_le (show row.pwDomain.length ≤ 96 from short), server.collate_unpadded]

section Adduser

variable (vpopmailDirDomains domDir : List Char) (crypt : List Char → List Char)
  (user pass gecos dir : List Char) (apop : Int)

/-- `auth_adduser` appends a row with a new key or leaves the table. -/
theorem authAdduser_cases (named : domain ≠ []) (has : HasUsers server build domain tables rows) :
    ∃ row, row = newUserRow build vpopmailDirDomains domDir (crypt pass) user domain pass gecos dir
        apop ∧
      ((authAdduser server build vpopmailDirDomains domDir crypt user domain pass gecos dir apop
          tables = (-1, tables) ∧
        (server.strict = true ∨ ∃ other ∈ rows, rowKey server other =
          rowKey server (layoutRow row))) ∨
      (authAdduser server build vpopmailDirDomains domDir crypt user domain pass gecos dir apop
          tables = (0, tables.setUsers (build.userTable domain) (rows ++ [layoutRow row])) ∧
        ((rows ++ [layoutRow row]).map (rowKey server)).Nodup)) := by
  refine ⟨_, rfl, ?_⟩
  have table : addUserTable build domain = build.userTable domain := if_neg named
  generalize made : newUserRow build vpopmailDirDomains domDir (crypt pass) user domain pass gecos
    dir apop = row
  rw [authAdduser, table, made]
  rcases Classical.em (server.strict = true ∧ ¬ FitsLayout row) with long | fits
  · have refused : insertUser server (build.userTable domain) row tables = none := by
      rw [insertUser, has.present, Option.bind_some, if_pos long]
    rw [mysqlQuery_none refused]
    exact .inl ⟨rfl, .inl long.1⟩
  · rcases Classical.em (∃ other ∈ rows, rowKey server other = rowKey server (layoutRow row)) with
      ⟨other, member, same⟩ | absent
    · have refused : insertUser server (build.userTable domain) row tables = none := by
        rw [insertUser, has.present, Option.bind_some, if_neg fits, if_pos]
        exact List.any_eq_true.mpr ⟨other, member, decide_eq_true same⟩
      rw [mysqlQuery_none refused]
      exact .inl ⟨rfl, .inr ⟨other, member, same⟩⟩
    · have inserted : insertUser server (build.userTable domain) row tables =
          some (tables.setUsers (build.userTable domain) (rows ++ [layoutRow row])) := by
        rw [insertUser, has.present, Option.bind_some, if_neg fits, if_neg]
        intro known
        rcases List.any_eq_true.mp known with ⟨other, member, same⟩
        exact absent ⟨other, member, of_decide_eq_true same⟩
      rw [mysqlQuery_some inserted]
      refine .inr ⟨rfl, ?_⟩
      rw [List.map_append, List.map_singleton]
      apply has.keyed.append (List.nodup_singleton _)
      rw [List.disjoint_singleton]
      intro member
      rcases List.mem_map.mp member with ⟨other, inside, same⟩
      exact absent ⟨other, inside, same⟩

end Adduser

theorem keys_setRows (row : UserRow) (rows : List UserRow) :
    (setRows server row rows).map (rowKey server) = rows.map (rowKey server) := by
  rw [setRows, List.map_map]
  apply List.map_congr_left
  intro other _
  rw [Function.comp_apply]
  split <;> rfl

/-- A record that is admitted is written, or a strict server refuses it. -/
theorem authSetpw_admitted (has : HasUsers server build domain tables rows) {pw : Vqpasswd}
    (admitted : Vcdb.vcheckVqpw ⟨build.clearPass, build.usersBigDir⟩ pw domain = .success) :
    (authSetpw server build true pw domain tables = (-1, tables) ∧ server.strict = true) ∨
    authSetpw server build true pw domain tables =
      (0, tables.setUsers (build.userTable domain)
        (setRows server (passwordRow build pw domain) rows)) := by
  rcases Classical.em (server.strict = true ∧ ¬ FitsLayout (passwordRow build pw domain) ∧
      ∃ other ∈ rows, rowKey server other = rowKey server (passwordRow build pw domain)) with
    long | fits
  · have refused : updateUser server (build.userTable domain) (passwordRow build pw domain)
        tables = none := by
      rw [updateUser, has.present, Option.bind_some, if_pos long]
    refine .inl ⟨?_, long.1⟩
    simp only [authSetpw, admitted, mysqlQuery_none refused]
    rfl
  · have updated : updateUser server (build.userTable domain) (passwordRow build pw domain)
        tables = some (tables.setUsers (build.userTable domain)
          (setRows server (passwordRow build pw domain) rows)) := by
      rw [updateUser, has.present, Option.bind_some, if_neg fits]
    refine .inr ?_
    simp only [authSetpw, admitted, mysqlQuery_some updated]
    rfl

theorem authSetpw_refused {pw : Vqpasswd}
    (refused : Vcdb.vcheckVqpw ⟨build.clearPass, build.usersBigDir⟩ pw domain ≠ .success) :
    (authSetpw server build true pw domain tables).2 = tables := by
  simp only [authSetpw]
  rw [if_pos refused]

/-- The domain's table is empty after it has been deleted and added. -/
theorem reset_empty (has : HasUsers server build domain tables rows) :
    ∃ others, HasUsers server build domain
        (authAdddomain build domain (authDeldomain server build domain tables).2).2 others ∧
      rowsOf server build domain others = [] := by
  cases many : build.manyDomains with
  | true =>
      have deleted : deleteUsers server (build.userTable domain) domain tables =
          some (tables.setUsers (build.userTable domain)
            (rows.filter fun row => server.collate row.pwDomain ≠ server.collate domain)) := by
        rw [deleteUsers, has.present]
        rfl
      have after : HasUsers server build domain (tables.setUsers (build.userTable domain)
          (rows.filter fun row => server.collate row.pwDomain ≠ server.collate domain))
          (rows.filter fun row => server.collate row.pwDomain ≠ server.collate domain) :=
        .setUsers (has.keyed.sublist (List.filter_sublist.map (rowKey server)))
      have refused : createUsers (build.userTable domain) (tables.setUsers (build.userTable domain)
          (rows.filter fun row => server.collate row.pwDomain ≠ server.collate domain)) =
            none := by
        rw [createUsers, after.present]
        rfl
      simp only [authDeldomain, authAdddomain, many, if_true, mysqlQuery_some deleted,
        mysqlQuery_none refused]
      refine ⟨_, after, ?_⟩
      rw [rowsOf, List.filter_filter, List.filter_eq_nil_iff]
      intro row _
      simp [Vpgsql.Build.domainColumn, many]
  | false =>
      have dropped : dropUsers (build.userTable domain) tables =
          some { tables with
            users := Function.update tables.users (build.userTable domain) none } := by
        rw [dropUsers, has.present]
        rfl
      have created : createUsers (build.userTable domain) { tables with
            users := Function.update tables.users (build.userTable domain) none } =
          some (Tables.setUsers { tables with
            users := Function.update tables.users (build.userTable domain) none }
            (build.userTable domain) []) := by
        rw [createUsers]
        simp only [Function.update_self]
        rfl
      simp only [authDeldomain, authAdddomain, many, Bool.false_eq_true, if_false,
        mysqlQuery_some dropped, mysqlQuery_some created]
      exact ⟨[], .setUsers List.nodup_nil, rfl⟩

end Domain

/-! ## The backend -/

section Tables

variable (server : Server) (build : Vpgsql.Build)
  (domain vpopmailDirDomains domDir : List Char) (crypt : List Char → List Char)

/-- The records of the domain's rows. -/
def usersAccounts (tables : Tables) : Multiset Vqpasswd :=
  ((userRows server build domain tables).map (rowRecord build) : List Vqpasswd)

variable {server build domain}

theorem usersAccounts_eq {tables : Tables} {rows : List UserRow}
    (has : HasUsers server build domain tables rows) :
    usersAccounts server build domain tables =
      ((rowsOf server build domain rows).map (rowRecord build) : List Vqpasswd) := by
  rw [usersAccounts, has.userRows]

theorem usersAccounts_setUsers {tables : Tables} {rows : List UserRow}
    (keyed : (rows.map (rowKey server)).Nodup) :
    usersAccounts server build domain (tables.setUsers (build.userTable domain) rows) =
      ((rowsOf server build domain rows).map (rowRecord build) : List Vqpasswd) :=
  usersAccounts_eq (.setUsers keyed)

theorem rowRecord_setRow (pw : Vqpasswd) (other : UserRow) :
    rowRecord build (setRow (passwordRow build pw domain) other) =
      { (layoutColumns server).keep ⟨build.clearPass, build.usersBigDir⟩ pw with
        pwName := other.pwName } := by
  have blank : (charColumn 16).val [] = [] := rfl
  cases clearPass : build.clearPass <;> cases clear : pw.pwClearPasswd <;>
    simp [rowRecord, setRow, layoutRow, passwordRow, Columns.keep, layoutColumns, storedRecord,
      clearPass, clear, blank, BitVec.ofInt_toInt]

theorem authAdduser_ready (named : domain ≠ []) (users : Users server build domain)
    (user pass gecos dir : List Char) (apop : Int) :
    ∃ rows, HasUsers server build domain (authAdduser server build vpopmailDirDomains domDir crypt
      user domain pass gecos dir apop users.val).2 rows := by
  rcases users with ⟨tables, rows, has⟩
  rcases authAdduser_cases vpopmailDirDomains domDir crypt user pass gecos dir apop named has with
    ⟨row, -, ⟨ran, -⟩ | ⟨ran, keyed⟩⟩
  · rw [ran]
    exact ⟨rows, has⟩
  · rw [ran]
    exact ⟨_, .setUsers keyed⟩

theorem authSetpw_ready (users : Users server build domain) (pw : Vqpasswd) :
    ∃ rows, HasUsers server build domain
      (authSetpw server build true pw domain users.val).2 rows := by
  rcases users with ⟨tables, rows, has⟩
  rcases Classical.em (Vcdb.vcheckVqpw ⟨build.clearPass, build.usersBigDir⟩ pw domain = .success)
    with admitted | refused
  · rcases authSetpw_admitted has admitted with ⟨ran, -⟩ | ran
    · rw [ran]
      exact ⟨rows, has⟩
    · rw [ran]
      refine ⟨_, .setUsers ?_⟩
      rw [keys_setRows]
      exact has.keyed
  · rw [authSetpw_refused refused]
    exact ⟨rows, has⟩

theorem reset_ready (users : Users server build domain) :
    ∃ rows, HasUsers server build domain
      (authAdddomain build domain (authDeldomain server build domain users.val).2).2 rows := by
  rcases users with ⟨tables, rows, has⟩
  rcases reset_empty has with ⟨others, after, _⟩
  exact ⟨others, after⟩

/-- The accounts after a record is set. -/
theorem accounts_setRows {rows : List UserRow} (pw : Vqpasswd) :
    (rowsOf server build domain (setRows server (passwordRow build pw domain) rows)).map
        (rowRecord build) =
      ((rowsOf server build domain rows).map (rowRecord build)).map fun account =>
        if server.collate account.pwName = server.collate pw.pwName then
          { (layoutColumns server).keep ⟨build.clearPass, build.usersBigDir⟩ pw with
            pwName := account.pwName }
        else account := by
  have column : rowsOf server build domain
      (setRows server (passwordRow build pw domain) rows) =
      setRows server (passwordRow build pw domain) (rowsOf server build domain rows) := by
    rw [rowsOf, rowsOf, setRows, setRows, List.filter_map]
    congr 1
    apply List.filter_congr
    intro row _
    rw [Function.comp_apply]
    split <;> rfl
  rw [column, setRows, List.map_map, List.map_map]
  apply List.map_congr_left
  intro row member
  have named : rowKey server row = rowKey server (passwordRow build pw domain) ↔
      server.collate row.pwName = server.collate pw.pwName := rowKey_eq_iff member rfl
  rw [Function.comp_apply, Function.comp_apply]
  rcases Classical.em (server.collate row.pwName = server.collate pw.pwName) with same | other
  · rw [if_pos (named.mpr same), rowRecord_setRow]
    exact (if_pos same).symm
  · rw [if_neg fun both => other (named.mp both)]
    exact (if_neg other).symm

section Adduser

variable (vpopmailDirDomains domDir : List Char) (crypt : List Char → List Char)
  (user pass gecos dir : List Char) (apop : Int) {tables : Tables} {rows : List UserRow}

theorem collate_domainColumn (short : domain.length ≤ maxPwDomain) :
    server.collate (layoutRow (newUserRow build vpopmailDirDomains domDir (crypt pass) user domain
      pass gecos dir apop)).pwDomain = server.collate (build.domainColumn domain) := by
  apply collate_layoutRow_pwDomain
  change (build.domainColumn domain).length ≤ maxPwDomain
  rw [Vpgsql.Build.domainColumn]
  split
  · exact short
  · exact Nat.zero_le _

/-- A user that is added gets an account. -/
theorem usersAccounts_adduser (named : domain ≠ []) (short : domain.length ≤ maxPwDomain)
    (has : HasUsers server build domain tables rows) :
    authAdduser server build vpopmailDirDomains domDir crypt user domain pass gecos dir apop
        tables = (-1, tables) ∨
      ∃ account, account.pwName = (charColumn 32).val user ∧
        usersAccounts server build domain (authAdduser server build vpopmailDirDomains domDir crypt
          user domain pass gecos dir apop tables).2 =
            account ::ₘ usersAccounts server build domain tables := by
  rcases authAdduser_cases vpopmailDirDomains domDir crypt user pass gecos dir apop named has with
    ⟨row, made, ⟨ran, -⟩ | ⟨ran, keyed⟩⟩
  · exact .inl ran
  · have own : rowsOf server build domain [layoutRow row] = [layoutRow row] := by
      have column := @collate_domainColumn server build domain vpopmailDirDomains
        domDir crypt user pass gecos dir apop short
      rw [← made] at column
      rw [rowsOf, List.filter_singleton, decide_eq_true column]
      rfl
    refine .inr ⟨rowRecord build (layoutRow row), by rw [made]; rfl, ?_⟩
    rw [ran, usersAccounts_setUsers keyed, usersAccounts_eq has, rowsOf, List.filter_append,
      ← rowsOf, ← rowsOf, own, List.map_append, List.map_singleton, ← Multiset.coe_add,
      Multiset.add_comm]
    rfl

/-- A row has the key of a new one when an account has the name. -/
theorem exists_rowKey_iff (short : domain.length ≤ maxPwDomain)
    (has : HasUsers server build domain tables rows) (userShort : user.length ≤ maxPwName) :
    (∃ other ∈ rows, rowKey server other = rowKey server (layoutRow (newUserRow build
        vpopmailDirDomains domDir (crypt pass) user domain pass gecos dir apop))) ↔
      ∃ account ∈ usersAccounts server build domain tables,
        server.collate account.pwName = server.collate user := by
  have name : server.collate (layoutRow (newUserRow build vpopmailDirDomains domDir (crypt pass)
      user domain pass gecos dir apop)).pwName = server.collate user :=
    collate_layoutRow_pwName userShort
  have column := @collate_domainColumn server build domain vpopmailDirDomains
    domDir crypt user pass gecos dir apop short
  rw [usersAccounts_eq has]
  constructor
  · rintro ⟨other, member, same⟩
    rw [rowKey, rowKey, Prod.mk.injEq, name, column] at same
    exact ⟨rowRecord build other, Multiset.mem_coe.mpr
      (List.mem_map_of_mem (mem_rowsOf.mpr ⟨member, same.2⟩)), same.1⟩
  · rintro ⟨account, known, same⟩
    rcases List.mem_map.mp (Multiset.mem_coe.mp known) with ⟨other, member, rfl⟩
    refine ⟨other, (mem_rowsOf.mp member).1, (rowKey_eq_iff member column).mpr ?_⟩
    exact same.trans name.symm

theorem authAdduser_refused (named : domain ≠ []) (short : domain.length ≤ maxPwDomain)
    (has : HasUsers server build domain tables rows) (userShort : user.length ≤ maxPwName)
    (known : ∃ account ∈ usersAccounts server build domain tables,
      server.collate account.pwName = server.collate user) :
    (authAdduser server build vpopmailDirDomains domDir crypt user domain pass gecos dir apop
      tables).1 ≠ 0 := by
  rcases authAdduser_cases vpopmailDirDomains domDir crypt user pass gecos dir apop named has with
    ⟨row, made, ⟨ran, -⟩ | ⟨-, keyed⟩⟩
  · rw [ran]
    exact show (-1 : Int) ≠ 0 by decide
  · have taken := (exists_rowKey_iff vpopmailDirDomains domDir crypt user pass gecos dir apop short
      has userShort).mpr known
    rw [← made] at taken
    rcases taken with ⟨other, member, same⟩
    rw [List.map_append, List.nodup_append] at keyed
    exact absurd same (keyed.2.2 _ (List.mem_map_of_mem member) _
      (List.mem_map_of_mem (List.mem_singleton_self _)))

theorem authAdduser_succeeds (lenient : server.strict = false) (named : domain ≠ [])
    (short : domain.length ≤ maxPwDomain) (has : HasUsers server build domain tables rows)
    (userShort : user.length ≤ maxPwName)
    (fresh : ∀ account ∈ usersAccounts server build domain tables,
      server.collate account.pwName ≠ server.collate user) :
    (authAdduser server build vpopmailDirDomains domDir crypt user domain pass gecos dir apop
      tables).1 = 0 := by
  rcases authAdduser_cases vpopmailDirDomains domDir crypt user pass gecos dir apop named has with
    ⟨row, made, ⟨-, strict | taken⟩ | ⟨ran, -⟩⟩
  · rw [lenient] at strict
    cases strict
  · rw [made, exists_rowKey_iff vpopmailDirDomains domDir crypt user pass gecos dir apop short has
      userShort] at taken
    rcases taken with ⟨account, known, same⟩
    exact absurd same (fresh account known)
  · rw [ran]

end Adduser

theorem usersAccounts_setpw {tables : Tables} {rows : List UserRow}
    (has : HasUsers server build domain tables rows) {pw : Vqpasswd}
    (admitted : Vcdb.vcheckVqpw ⟨build.clearPass, build.usersBigDir⟩ pw domain = .success)
    (succeeded : (authSetpw server build true pw domain tables).1 = 0) :
    usersAccounts server build domain (authSetpw server build true pw domain tables).2 =
      (usersAccounts server build domain tables).map fun account =>
        if server.collate account.pwName = server.collate pw.pwName then
          { (layoutColumns server).keep ⟨build.clearPass, build.usersBigDir⟩ pw with
            pwName := account.pwName }
        else account := by
  have keyed : ((setRows server (passwordRow build pw domain) rows).map (rowKey server)).Nodup := by
    rw [keys_setRows]
    exact has.keyed
  rcases authSetpw_admitted has admitted with ⟨ran, -⟩ | ran
  · rw [ran] at succeeded
    cases succeeded
  · rw [ran, usersAccounts_setUsers keyed, usersAccounts_eq has, Multiset.map_coe,
      accounts_setRows]

end Tables

/-- The MySQL backend for a domain. -/
def mysqlBackend (server : Server) (build : Vpgsql.Build) {domain : List Char}
    (vpopmailDirDomains domDir : List Char) (crypt : List Char → List Char)
    (named : domain ≠ []) (short : domain.length ≤ maxPwDomain) :
    AuthBackend ⟨build.clearPass, build.usersBigDir⟩ domain (Users server build domain) where
  columns := layoutColumns server
  accounts := fun users => usersAccounts server build domain users.val
  reset := fun users =>
    ⟨(authAdddomain build domain (authDeldomain server build domain users.val).2).2,
      reset_ready users⟩
  adduser := fun user pass gecos dir apop users =>
    ((authAdduser server build vpopmailDirDomains domDir crypt user domain pass gecos dir apop
        users.val).1,
      ⟨_, authAdduser_ready vpopmailDirDomains domDir crypt named users user pass gecos dir apop⟩)
  setpw := fun pw users =>
    ((authSetpw server build true pw domain users.val).1, ⟨_, authSetpw_ready users pw⟩)
  keyed := by
    rintro ⟨tables, rows, has⟩
    rw [usersAccounts_eq has, Multiset.map_coe, Multiset.coe_nodup, List.map_map]
    exact has.distinct
  accounts_reset := by
    rintro ⟨tables, rows, has⟩
    rcases reset_empty has with ⟨others, after, none_left⟩
    rw [usersAccounts_eq after, none_left]
    rfl
  adduser_new := by
    rintro user pass gecos dir apop ⟨tables, rows, has⟩ - - succeeded
    rcases usersAccounts_adduser vpopmailDirDomains domDir crypt user pass gecos dir apop named
      short has with ran | added
    · have failed : (-1 : Int) = 0 := (congrArg Prod.fst ran).symm.trans succeeded
      cases failed
    · exact added
  adduser_keeps := by
    rintro user pass gecos dir apop ⟨tables, rows, has⟩ account known
    change account ∈ usersAccounts server build domain (authAdduser server build vpopmailDirDomains
      domDir crypt user domain pass gecos dir apop tables).2
    rcases usersAccounts_adduser vpopmailDirDomains domDir crypt user pass gecos dir apop named
      short has with ran | ⟨_, _, added⟩
    · rw [ran]
      exact known
    · rw [added]
      exact Multiset.mem_cons_of_mem known
  setpw_admitted := by
    rintro pw ⟨tables, rows, has⟩ admitted succeeded
    exact usersAccounts_setpw has admitted succeeded
  setpw_refused := by
    rintro pw ⟨tables, rows, has⟩ refused
    change usersAccounts server build domain (authSetpw server build true pw domain tables).2 = _
    rw [authSetpw_refused refused]
  setpw_keeps := by
    rintro pw ⟨tables, rows, has⟩ account known other
    change account ∈ usersAccounts server build domain
      (authSetpw server build true pw domain tables).2
    rcases Classical.em
      (Vcdb.vcheckVqpw ⟨build.clearPass, build.usersBigDir⟩ pw domain = .success) with
      admitted | refused
    · rcases authSetpw_admitted has admitted with ⟨ran, -⟩ | ran
      · rw [ran]
        exact known
      · rw [usersAccounts_setpw has admitted (congrArg Prod.fst ran), Multiset.mem_map]
        exact ⟨account, known, if_neg other⟩
    · rw [authSetpw_refused refused]
      exact known

section Backend

variable (build : Vpgsql.Build) {domain : List Char} (vpopmailDirDomains domDir : List Char)
  (crypt : List Char → List Char) (named : domain ≠ []) (short : domain.length ≤ maxPwDomain)

theorem mysqlBackend_refuses (server : Server) :
    (mysqlBackend server build vpopmailDirDomains domDir crypt named short).RefusesExisting := by
  rintro user pass gecos dir apop ⟨tables, rows, has⟩ userShort known
  rw [AuthBackend.NewUser] at known
  push Not at known
  exact authAdduser_refused vpopmailDirDomains domDir crypt user pass gecos dir apop named short
    has userShort known

/-- A server that is not strict never refuses a value. -/
theorem mysqlBackend_succeeds {server : Server} (lenient : server.strict = false)
    (pws : List Vqpasswd) (users : Users server build domain) :
    (mysqlBackend server build vpopmailDirDomains domDir crypt named short).Succeeds pws users := by
  induction pws generalizing users with
  | nil => trivial
  | cons pw pws induction =>
      refine ⟨fun admitted => ⟨?_, fun _ => ?_⟩, induction _⟩
      · intro fresh
        rcases users with ⟨tables, rows, has⟩
        have userShort := ((Vcdb.vcheckVqpw_eq_success_iff _ _ _).mp admitted).name
        exact authAdduser_succeeds vpopmailDirDomains domDir crypt _ _ _ _ _ lenient named short has
          userShort fresh
      · rcases ((mysqlBackend server build vpopmailDirDomains domDir crypt named
          short).adduserOf pw users).2 with ⟨tables, rows, has⟩
        rcases authSetpw_admitted has admitted with ⟨-, strict⟩ | ran
        · rw [lenient] at strict
          cases strict
        · exact congrArg Prod.fst ran

end Backend

end Vpopmail.Vmysql
