import Vpopmail.AddDomain
import Vpopmail.Vmysql.Accounts

/-! # The tables of the domains

Without `MANY_DOMAINS` every domain has a table of its own, whose name is all that keeps its
users apart from those of the other domains.
-/

namespace Vpopmail.Vmysql

open Vpopmail Database Vpgsql

def mysqlDotChar : Char := '_'

/-- `vauth_munch_domain`, which in this backend keeps the case. -/
def vauthMunchDomain (domain : List Char) : List Char :=
  (domain.take 511).map fun char => if char = '.' || char = '-' then mysqlDotChar else char

/-- `auth_deluser`. That the logins have no table clears the error of the first statement. -/
def authDeluser (server : Server) (build : Vpgsql.Build) (user domain : List Char)
    (tables : Tables) : Int × Tables :=
  let deleted := mysqlQuery
    (deleteUser server (delUserTable build domain) user (build.domainColumn domain)) tables
  if build.enableAuthLogging then
    let logged := mysqlQuery
      (deleteLastauth fun row => row.userid = user && row.domain = domain) deleted.2
    (if deleted.1 || !logged.1 then 0 else -1, logged.2)
  else (if deleted.1 then 0 else -1, deleted.2)

/-- The calls of `auth_getall` for a domain, where `order` is that of the server. -/
def authGetall (server : Server) (build : Vpgsql.Build) (order : List UserRow → List UserRow)
    (domain : List Char) (tables : Tables) : List Vqpasswd :=
  (order (userRows server build domain tables)).map (rowRecord build)

/-! ## Operations on a domain -/

inductive Operation
  | adduser (vpopmailDirDomains domDir : List Char) (crypt : List Char → List Char)
      (user pass gecos dir : List Char) (apop : Int)
  | setpw (owns : Bool) (inpw : Vqpasswd)
  | deluser (user : List Char)
  | getall (order : List UserRow → List UserRow)
  | deldomain

inductive Answer
  | code (err : Int)
  | users (records : List Vqpasswd)

def Operation.run (server : Server) (build : Vpgsql.Build) (domain : List Char)
    (tables : Tables) : Operation → Answer × Tables
  | .adduser vpopmailDirDomains domDir crypt user pass gecos dir apop =>
      (authAdduser server build vpopmailDirDomains domDir crypt user domain pass gecos dir apop
        tables).map .code id
  | .setpw owns inpw => (authSetpw server build owns inpw domain tables).map .code id
  | .deluser user => (authDeluser server build user domain tables).map .code id
  | .getall order => (.users (authGetall server build order domain tables), tables)
  | .deldomain => (authDeldomain server build domain tables).map .code id

/-- The database with other contents of one table of users, or without it. -/
def replaceUsers (table : List Char) (rows : Option (List UserRow)) (tables : Tables) : Tables :=
  { tables with users := Function.update tables.users table rows }

/-- The operation neither reads nor writes a table: it answers the same and does the same to
the rest of the database whatever the table holds, and leaves the table as it is. -/
def Spares (table : List Char) (operation : Tables → Answer × Tables) : Prop :=
  ∀ rows tables, operation (replaceUsers table rows tables) =
    (operation tables).map id (replaceUsers table rows)

/-- A name that `vadddomain` goes on with. -/
structure DomainName where
  text : List Char
  lower : lowerit text = text
  accepted : checkDomainName text = .success

/-- Equal but for periods in the place of hyphens. -/
def Alike (domain other : List Char) : Prop :=
  List.Forall₂ (fun left right => left = right ∨ left ∈ ['.', '-'] ∧ right ∈ ['.', '-'])
    domain other

/-- A configuration without `MANY_DOMAINS`. -/
abbrev SeparateBuild := { build : Vpgsql.Build // build.manyDomains = false }

/-! ## Names of tables -/

section Names

theorem checked_domain {domain : List Char} (accepted : checkDomainName domain = .success) :
    3 ≤ domain.length ∧ domain.length ≤ maxPwDomain ∧
      ∀ char ∈ domain, domainNameChar char = true := by
  rw [checkDomainName] at accepted
  split at accepted
  · cases accepted
  · next long =>
      split at accepted
      · cases accepted
      · next short =>
          split at accepted
          · cases accepted
          · next letters =>
              refine ⟨Nat.le_of_not_lt long, Nat.le_of_not_lt short, ?_⟩
              rw [Bool.or_eq_true, not_or, Bool.not_eq_true', Bool.not_eq_false] at letters
              exact List.all_eq_true.mp letters.2

theorem munched_eq_iff {left right : Char} (leftAllowed : domainNameChar left = true)
    (rightAllowed : domainNameChar right = true) :
    (if left = '.' || left = '-' then mysqlDotChar else left) =
        (if right = '.' || right = '-' then mysqlDotChar else right) ↔
      left = right ∨ left ∈ ['.', '-'] ∧ right ∈ ['.', '-'] := by
  have notDot : ∀ {char : Char}, domainNameChar char = true → char ≠ mysqlDotChar := by
    intro char allowed equal
    rw [equal] at allowed
    revert allowed
    decide
  simp only [List.mem_cons, List.not_mem_nil, or_false, Bool.or_eq_true, decide_eq_true_eq]
  by_cases leftMark : left = '.' ∨ left = '-' <;> by_cases rightMark : right = '.' ∨ right = '-'
  · rw [if_pos leftMark, if_pos rightMark]
    exact iff_of_true rfl (.inr ⟨leftMark, rightMark⟩)
  · rw [if_pos leftMark, if_neg rightMark]
    refine iff_of_false (notDot rightAllowed).symm ?_
    intro either
    obtain rfl | both := either
    · exact rightMark leftMark
    · exact rightMark both.2
  · rw [if_neg leftMark, if_pos rightMark]
    refine iff_of_false (notDot leftAllowed) ?_
    intro either
    obtain rfl | both := either
    · exact leftMark rightMark
    · exact leftMark both.1
  · rw [if_neg leftMark, if_neg rightMark]
    exact ⟨.inl, fun either => either.resolve_right fun both => leftMark both.1⟩

variable (domain other : DomainName)

theorem DomainName.take_text : domain.text.take 511 = domain.text := by
  have bounds := checked_domain domain.accepted
  apply List.take_of_length_le
  exact Nat.le_trans bounds.2.1 (by decide)

/-- The backend of PostgreSQL lowers the name, which is lower case already. -/
theorem vauthMunchDomain_eq :
    Vpgsql.vauthMunchDomain domain.text = vauthMunchDomain domain.text := by
  have lower : ∀ char ∈ domain.text, lowerChar char = char := by
    intro char member
    have equal := domain.lower
    rw [lowerit, List.take_of_length_le (Nat.le_trans (checked_domain domain.accepted).2.1
      (by decide))] at equal
    rw [← List.map_id domain.text, List.map_map] at equal
    exact List.map_inj_left.mp equal char member
  rw [Vpgsql.vauthMunchDomain, vauthMunchDomain, domain.take_text]
  apply List.map_congr_left
  intro char member
  rw [lower char member]
  rfl

theorem vauthMunchDomain_eq_iff :
    vauthMunchDomain domain.text = vauthMunchDomain other.text ↔
      Alike domain.text other.text := by
  have left := (checked_domain domain.accepted).2.2
  have right := (checked_domain other.accepted).2.2
  rw [vauthMunchDomain, vauthMunchDomain, domain.take_text, other.take_text, Alike]
  generalize domain.text = first at left
  generalize other.text = second at right
  induction first generalizing second with
  | nil => cases second <;> simp
  | cons char first induction =>
      cases second with
      | nil => simp
      | cons next second =>
          rw [List.forall_mem_cons] at left right
          rw [List.map_cons, List.map_cons, List.cons.injEq, List.forall₂_cons,
            munched_eq_iff left.1 right.1]
          exact and_congr_right' (induction left.2 second right.2)

end Names

/-! ## Statements on other tables -/

section Frame

variable (server : Server) {table : List Char} {rows : Option (List UserRow)}

theorem replaceUsers_comm {own : List Char} (different : own ≠ table)
    (others : Option (List UserRow)) (tables : Tables) :
    replaceUsers own others (replaceUsers table rows tables) =
      replaceUsers table rows (replaceUsers own others tables) := by
  rw [replaceUsers, replaceUsers, replaceUsers, replaceUsers]
  simp only [Function.update_comm different]

theorem users_replaceUsers {own : List Char} (different : own ≠ table) (tables : Tables) :
    (replaceUsers table rows tables).users own = tables.users own :=
  Function.update_of_ne different _ _

/-- A statement that does the same whatever a table holds. -/
def Local (table : List Char) (statement : Statement Tables) : Prop :=
  ∀ rows tables, statement (replaceUsers table rows tables) =
    (statement tables).map (replaceUsers table rows)

theorem local_insertUser {own : List Char} (different : own ≠ table) (row : UserRow) :
    Local table (insertUser server own row) := by
  intro rows tables
  rw [insertUser, insertUser, users_replaceUsers different]
  cases tables.users own with
  | none => rfl
  | some others =>
      rw [Option.bind_some, Option.bind_some]
      split
      · rfl
      · split
        · rfl
        · exact congrArg some (replaceUsers_comm different _ tables)

theorem local_updateUser {own : List Char} (different : own ≠ table) (row : UserRow) :
    Local table (updateUser server own row) := by
  intro rows tables
  rw [updateUser, updateUser, users_replaceUsers different]
  cases tables.users own with
  | none => rfl
  | some others =>
      rw [Option.bind_some, Option.bind_some]
      split
      · rfl
      · exact congrArg some (replaceUsers_comm different _ tables)

theorem local_deleteUser {own : List Char} (different : own ≠ table) (name domain : List Char) :
    Local table (deleteUser server own name domain) := by
  intro rows tables
  rw [deleteUser, deleteUser, users_replaceUsers different]
  cases tables.users own with
  | none => rfl
  | some others => exact congrArg some (replaceUsers_comm different _ tables)

theorem local_dropUsers {own : List Char} (different : own ≠ table) :
    Local table (dropUsers own) := by
  intro rows tables
  rw [dropUsers, dropUsers, users_replaceUsers different]
  split
  · exact congrArg some (replaceUsers_comm different none tables)
  · rfl

theorem local_deleteLastauth (isOf : LastauthRow → Bool) : Local table (deleteLastauth isOf) := by
  intro rows tables
  rw [deleteLastauth, deleteLastauth, Option.map_map]
  rfl

theorem mysqlQuery_replaceUsers {statement : Statement Tables} (isLocal : Local table statement)
    (tables : Tables) :
    mysqlQuery statement (replaceUsers table rows tables) =
      (mysqlQuery statement tables).map id (replaceUsers table rows) := by
  rw [mysqlQuery, mysqlQuery, isLocal]
  cases statement tables <;> rfl

theorem spares_mysqlQuery {statement : Statement Tables} (isLocal : Local table statement)
    (answer : Bool → Answer) :
    Spares table fun tables =>
      (answer (mysqlQuery statement tables).1, (mysqlQuery statement tables).2) := by
  intro rows tables
  simp only [mysqlQuery_replaceUsers isLocal]
  rfl

theorem spares_mysqlQuery_twice {first second : Statement Tables}
    (firstLocal : Local table first) (secondLocal : Local table second)
    (answer : Bool → Bool → Answer) :
    Spares table fun tables =>
      (answer (mysqlQuery first tables).1 (mysqlQuery second (mysqlQuery first tables).2).1,
        (mysqlQuery second (mysqlQuery first tables).2).2) := by
  intro rows tables
  simp only [mysqlQuery_replaceUsers firstLocal, Prod.map_snd, mysqlQuery_replaceUsers secondLocal]
  rfl

end Frame

/-! ## Domains with tables of their own -/

section Domains

variable (server : Server) (build : SeparateBuild) (domain other : DomainName)

theorem userTable_eq : build.val.userTable domain.text = vauthMunchDomain domain.text := by
  rw [Vpgsql.Build.userTable, build.2]
  exact vauthMunchDomain_eq domain

theorem DomainName.text_ne_nil : domain.text ≠ [] := by
  intro empty
  have long := (checked_domain domain.accepted).1
  rw [empty] at long
  cases long

variable {domain other}

/-- An operation on a domain keeps away from the table of another name. -/
theorem spares_run (different : vauthMunchDomain domain.text ≠ vauthMunchDomain other.text)
    (operation : Operation) :
    Spares (vauthMunchDomain other.text) fun tables =>
      operation.run server build.val domain.text tables := by
  have own : build.val.userTable domain.text ≠ vauthMunchDomain other.text := by
    rw [userTable_eq]
    exact different
  cases operation with
  | adduser vpopmailDirDomains domDir crypt user pass gecos dir apop =>
      have added : addUserTable build.val domain.text ≠ vauthMunchDomain other.text := by
        rw [addUserTable, if_neg domain.text_ne_nil]
        exact own
      exact spares_mysqlQuery (local_insertUser server added _) fun inserted =>
        .code (if inserted then 0 else -1)
  | setpw allowed inpw =>
      intro rows tables
      simp only [Operation.run, authSetpw]
      split
      · rfl
      · split
        · rfl
        · exact spares_mysqlQuery (local_updateUser server own _)
            (fun updated => .code (if updated then 0 else -1)) rows tables
  | deluser user =>
      have deleted : delUserTable build.val domain.text ≠ vauthMunchDomain other.text := by
        rw [delUserTable, build.2, if_neg Bool.false_ne_true, if_neg domain.text_ne_nil,
          vauthMunchDomain_eq]
        exact different
      intro rows tables
      simp only [Operation.run, authDeluser]
      split
      · exact spares_mysqlQuery_twice (local_deleteUser server deleted user _) (local_deleteLastauth _)
          (fun first second => .code (if first || !second then 0 else -1)) rows tables
      · exact spares_mysqlQuery (local_deleteUser server deleted user _)
          (fun first => .code (if first then 0 else -1)) rows tables
  | getall order =>
      intro rows tables
      simp only [Operation.run, authGetall, userRows, users_replaceUsers own]
      rfl
  | deldomain =>
      intro rows tables
      simp only [Operation.run, authDeldomain, build.2, Bool.false_eq_true, if_false]
      exact spares_mysqlQuery (local_dropUsers own) (fun _ => .code 0) rows tables

/-- Deleting a domain drops the table that another one shares. -/
theorem not_spares_deldomain (shared : vauthMunchDomain domain.text = vauthMunchDomain other.text) :
    ¬Spares (vauthMunchDomain other.text) fun tables =>
      Operation.deldomain.run server build.val domain.text tables := by
  intro spares
  have own : build.val.userTable domain.text = vauthMunchDomain other.text := by
    rw [userTable_eq, shared]
  have kept := spares (some []) ⟨fun _ => none, none, false, none, none, none⟩
  have users := congrArg (fun outcome => outcome.2.users (vauthMunchDomain other.text)) kept
  simp [Operation.run, authDeldomain, build.2, own, mysqlQuery, dropUsers, replaceUsers] at users

/-- The name of the table does not tell a hyphen from a period. -/
theorem vauthMunchDomain_distinct_iff (server : Server) (build : SeparateBuild)
    (domain other : DomainName) :
    (vauthMunchDomain domain.text ≠ vauthMunchDomain other.text ↔
        ¬Alike domain.text other.text) ∧
      ((∀ operation : Operation, Spares (vauthMunchDomain other.text) fun tables =>
          operation.run server build.val domain.text tables) ↔
        ¬Alike domain.text other.text) := by
  have named := vauthMunchDomain_eq_iff domain other
  refine ⟨not_congr named, ?_, ?_⟩
  · intro spares alike
    exact not_spares_deldomain server build (named.mpr alike) (spares .deldomain)
  · intro apart operation
    exact spares_run server build (mt named.mp apart) operation

end Domains

/-- A server that stores what fits and refuses the rest, and tells the cases of letters apart. -/
def exactServer : Server where
  strict := true
  collate := unpadded
  collate_unpadded := fun _ => List.rdropWhile_idempotent _ _

/-- Two domains that can both be added, and whose users are in one table. -/
theorem vauthMunchDomain_conflates :
    ¬∀ (server : Server) (build : SeparateBuild) (domain other : DomainName),
      domain.text ≠ other.text →
      vauthMunchDomain domain.text ≠ vauthMunchDomain other.text ∧
      ∀ operation : Operation, Spares (vauthMunchDomain other.text) fun tables =>
        operation.run server build.val domain.text tables := by
  intro distinct
  have apart := distinct exactServer ⟨⟨false, false, false, false⟩, rfl⟩
    ⟨"a-b.com".toList, by decide, by decide⟩ ⟨"a.b.com".toList, by decide, by decide⟩ (by decide)
  exact apart.1 (by decide)

end Vpopmail.Vmysql
