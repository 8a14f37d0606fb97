import Mathlib.Data.Multiset.MapFold
import Vpopmail.Vcdb.PasswdReading

/-! # `vconvert`

The conversions of a domain between an SQL backend and `vpasswd`, in a build with `USE_SQL`.
-/

namespace Vpopmail

open Vcdb

/-- What a backend stores of a record: all but the flags, which are computed when it is read,
and the clear password only if the build keeps it. -/
def storedRecord (build : Build) (pw : Vqpasswd) : Vqpasswd :=
  { pw with
    pwFlags := 0
    pwClearPasswd := if build.clearPass then some (pw.pwClearPasswd.getD []) else none }

/-! ## `sql_to_cdb` -/

/-- `sql_to_cdb`: what it returns and the text of `vpasswd` after it. The accounts are the
records of successive `vauth_getall` calls; `assigned` and `opened` say whether the domain is
found and its file can be opened. -/
def sqlToCdb (build : Build) (assigned opened : Bool) (accounts : List Vqpasswd)
    (vpasswd : List Char) : Int × List Char :=
  if !assigned then (-1, vpasswd)
  else if !opened then (-1, vpasswd)
  else (0, (accounts.map (vpasswdLine build)).flatten)

/-! ## `cdb_to_default` -/

/-- What a column keeps of a text, which is a front of it. -/
abbrev TextColumn := { keep : List Char → List Char // ∀ text, keep text <+: text }

/-- The columns of a table of accounts, and what makes two names one key. -/
structure Columns where
  name : TextColumn
  passwd : TextColumn
  gecos : TextColumn
  dir : TextColumn
  shell : TextColumn
  clear : TextColumn
  key : List Char → List Char
  key_name : ∀ user, user.length ≤ maxPwName → key (name.val user) = key user

/-- The record that is read back when one has been written. -/
def Columns.keep (columns : Columns) (build : Build) (pw : Vqpasswd) : Vqpasswd :=
  { storedRecord build pw with
    pwName := columns.name.val pw.pwName
    pwPasswd := columns.passwd.val pw.pwPasswd
    pwGecos := columns.gecos.val pw.pwGecos
    pwDir := columns.dir.val pw.pwDir
    pwShell := columns.shell.val pw.pwShell
    pwClearPasswd := (storedRecord build pw).pwClearPasswd.map columns.clear.val }

/-- The default backend as `cdb_to_default` uses it for a domain. `reset` is `vauth_deldomain`,
`vdel_dir_control` and `vauth_adddomain`. -/
structure AuthBackend (build : Build) (domain : List Char) (Store : Type) where
  columns : Columns
  accounts : Store → Multiset Vqpasswd
  reset : Store → Store
  adduser : (user pass gecos dir : List Char) → (apop : Int) → Store → Int × Store
  setpw : Vqpasswd → Store → Int × Store
  keyed : ∀ store, ((accounts store).map fun account => columns.key account.pwName).Nodup
  accounts_reset : ∀ store, accounts (reset store) = 0
  /-- A new user that is added gets an account, in the form of the backend. -/
  adduser_new : ∀ user pass gecos dir apop store, user.length ≤ maxPwName →
    (∀ account ∈ accounts store, columns.key account.pwName ≠ columns.key user) →
      (adduser user pass gecos dir apop store).1 = 0 →
        ∃ account, account.pwName = columns.name.val user ∧
          accounts (adduser user pass gecos dir apop store).2 = account ::ₘ accounts store
  adduser_keeps : ∀ user pass gecos dir apop store, ∀ account ∈ accounts store,
    account ∈ accounts (adduser user pass gecos dir apop store).2
  /-- The account of a record that is written gets what the columns keep of its fields. -/
  setpw_admitted : ∀ pw store, vcheckVqpw build pw domain = .success →
    (setpw pw store).1 = 0 →
      accounts (setpw pw store).2 = (accounts store).map fun account =>
        if columns.key account.pwName = columns.key pw.pwName then
          { columns.keep build pw with pwName := account.pwName }
        else account
  setpw_refused : ∀ pw store, vcheckVqpw build pw domain ≠ .success →
    accounts (setpw pw store).2 = accounts store
  setpw_keeps : ∀ pw store, ∀ account ∈ accounts store,
    columns.key account.pwName ≠ columns.key pw.pwName → account ∈ accounts (setpw pw store).2

namespace AuthBackend

variable {build : Build} {domain : List Char} {Store : Type}
  (backend : AuthBackend build domain Store)

/-- No account has the name. -/
def NewUser (user : List Char) (store : Store) : Prop :=
  ∀ account ∈ backend.accounts store, backend.columns.key account.pwName ≠ backend.columns.key user

/-- A user that has an account is not added again. -/
def RefusesExisting : Prop :=
  ∀ user pass gecos dir apop store, user.length ≤ maxPwName → ¬ backend.NewUser user store →
    (backend.adduser user pass gecos dir apop store).1 ≠ 0

/-- `vauth_adduser` for a record of `vgetent`. -/
def adduserOf (pw : Vqpasswd) : Store → Int × Store :=
  backend.adduser pw.pwName pw.pwPasswd pw.pwGecos pw.pwDir pw.pwUid.toInt

/-- One round of the loop of `cdb_to_default`. -/
def importEntry (store : Store) (pw : Vqpasswd) : Store :=
  let added := backend.adduserOf pw store
  if added.1 ≠ 0 then added.2 else (backend.setpw pw added.2).2

/-- The loop of `cdb_to_default` over the records of `vgetent`. -/
def importEntries (pws : List Vqpasswd) (store : Store) : Store :=
  pws.foldl backend.importEntry store

/-- The operations of the loop succeed for the records that `vcheck_vqpw` admits: new users are
added, and the records of those that are added are written. -/
def Succeeds : List Vqpasswd → Store → Prop
  | [], _ => True
  | pw :: pws, store =>
      (vcheckVqpw build pw domain = .success →
        (backend.NewUser pw.pwName store → (backend.adduserOf pw store).1 = 0) ∧
        ((backend.adduserOf pw store).1 = 0 →
          (backend.setpw pw (backend.adduserOf pw store).2).1 = 0)) ∧
      Succeeds pws (backend.importEntry store pw)

end AuthBackend

/-- `cdb_to_default`. The directory that it copies out of `users/assign` is not used, and the
directory control and its counts are left out. -/
def cdbToDefault {build : Build} {domain : List Char} {Store : Type}
    (backend : AuthBackend build domain Store) (assignOpened : Bool)
    (vpasswd : Option (List Char)) (store : Store) : Int × Store :=
  if !assignOpened then (-1, store)
  else
    match vpasswd with
    | none => (-1, backend.reset store)
    | some text => (0, backend.importEntries (vgetentFile build text) (backend.reset store))

end Vpopmail
