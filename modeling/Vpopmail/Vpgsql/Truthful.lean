import Vpopmail.Vpgsql.Statements

/-! # Truthful return values

When the functions of the PostgreSQL backend return 0 exactly for a change that is in the
database, and leave no transaction open.
-/

namespace Vpopmail.Vpgsql

open Vpopmail Database

/-! ## Rows -/

def usersIn (table : List Char) (tables : Tables) : List UserRow :=
  (tables.users table).getD []

def aliases (tables : Tables) : List AliasRow := tables.valias.getD []

def ipRows (tables : Tables) : List IpAliasRow := (tables.ipAliasMap.map IpAliasTable.rows).getD []

def dirControls (tables : Tables) : List DirControlRow := tables.dirControl.getD []

section Rows

variable {tables after : Tables}

@[simp] theorem usersIn_setUsers (table : List Char) (rows : List UserRow) :
    usersIn table (tables.setUsers table rows) = rows := by
  rw [usersIn, Tables.setUsers]
  simp

theorem usersIn_insertUser {table : List Char} {row : UserRow}
    (ran : insertUser table row tables = some after) :
    usersIn table after = usersIn table tables ++ [row] := by
  rw [insertUser, Option.bind_eq_some_iff] at ran
  rcases ran with ⟨rows, present, ran⟩
  rw [Option.ite_none_left_eq_some] at ran
  rw [← Option.some.inj ran.2, usersIn_setUsers, usersIn, present, Option.getD_some]

theorem usersIn_deleteUser {table name domain : List Char}
    (ran : deleteUser table name domain tables = some after) :
    usersIn table after = (usersIn table tables).filter fun row => !row.isOf name domain := by
  rw [deleteUser, Option.map_eq_some_iff] at ran
  rcases ran with ⟨rows, present, rfl⟩
  rw [usersIn_setUsers, usersIn, present, Option.getD_some]

theorem lastauth_deleteUser {table name domain : List Char}
    (ran : deleteUser table name domain tables = some after) :
    after.lastauth = tables.lastauth := by
  rw [deleteUser, Option.map_eq_some_iff] at ran
  rcases ran with ⟨rows, present, rfl⟩
  rfl

theorem usersIn_updateUser {table : List Char} {row : UserRow}
    (ran : updateUser table row tables = some after) :
    usersIn table after = (usersIn table tables).map fun other =>
      if other.isOf row.pwName row.pwDomain then row else other := by
  rw [updateUser, Option.map_eq_some_iff] at ran
  rcases ran with ⟨rows, present, rfl⟩
  rw [usersIn_setUsers, usersIn, present, Option.getD_some]

theorem usersIn_deleteLastauth {table : List Char} {isOf : LastauthRow → Bool}
    (ran : deleteLastauth isOf tables = some after) :
    usersIn table after = usersIn table tables := by
  rw [deleteLastauth, Option.map_eq_some_iff] at ran
  rcases ran with ⟨rows, present, rfl⟩
  rfl

theorem aliases_insertAlias {row : AliasRow} (ran : insertAlias row tables = some after) :
    aliases after = aliases tables ++ [row] := by
  rw [insertAlias, Option.map_eq_some_iff] at ran
  rcases ran with ⟨rows, present, rfl⟩
  rw [aliases, aliases, present, Option.getD_some, Option.getD_some]

theorem aliases_deleteAliases {isOf : AliasRow → Bool}
    (ran : deleteAliases isOf tables = some after) :
    aliases after = (aliases tables).filter fun row => !isOf row := by
  rw [deleteAliases, Option.map_eq_some_iff] at ran
  rcases ran with ⟨rows, present, rfl⟩
  rw [aliases, aliases, present, Option.getD_some, Option.getD_some]

theorem aliases_createValias (ran : createValias tables = some after) :
    aliases after = aliases tables := by
  rw [createValias, Option.ite_none_left_eq_some] at ran
  rcases ran with ⟨missing, ran⟩
  rw [← Option.some.inj ran, aliases, aliases, Option.not_isSome_iff_eq_none.mp missing]
  rfl

theorem aliases_createValiasIdx (ran : createValiasIdx tables = some after) :
    aliases after = aliases tables := by
  rw [createValiasIdx, Option.ite_none_right_eq_some] at ran
  rw [← Option.some.inj ran.2]
  rfl

theorem ipRows_deleteIp {row : IpAliasRow} (ran : deleteIp row tables = some after) :
    ipRows after = (ipRows tables).filter fun other => other ≠ row := by
  rw [deleteIp, Option.map_eq_some_iff] at ran
  rcases ran with ⟨table, present, rfl⟩
  rw [ipRows, ipRows, present]
  rfl

theorem ipRows_insertIp {row : IpAliasRow} (ran : insertIp row tables = some after) :
    ipRows after = ipRows tables ++ [row] := by
  rw [insertIp, Option.bind_eq_some_iff] at ran
  rcases ran with ⟨table, present, ran⟩
  rw [Option.ite_none_left_eq_some] at ran
  rw [← Option.some.inj ran.2, ipRows, ipRows, present]
  rfl

theorem dirControls_deleteDirControl {domain : List Char}
    (ran : deleteDirControl domain tables = some after) :
    dirControls after = (dirControls tables).filter fun row => row.domain ≠ domain := by
  rw [deleteDirControl, Option.map_eq_some_iff] at ran
  rcases ran with ⟨rows, present, rfl⟩
  rw [dirControls, dirControls, present, Option.getD_some, Option.getD_some]

theorem dirControls_insertDirControl {row : DirControlRow}
    (ran : insertDirControl row tables = some after) :
    dirControls after = dirControls tables ++ [row] := by
  rw [insertDirControl, Option.bind_eq_some_iff] at ran
  rcases ran with ⟨rows, present, ran⟩
  rw [Option.ite_none_left_eq_some] at ran
  rw [← Option.some.inj ran.2, dirControls, dirControls, present, Option.getD_some,
    Option.getD_some]

end Rows

/-! ## Users -/

section Users

variable (accepts : Nat → Bool) (opened : Int) (build : Build) (tables : Tables)

/-- The change of `auth_adduser`, and those of the other functions below. -/
def inserts {Row : Type} (row : Row) (rows : List Row) : Option (List Row) := some (rows ++ [row])

def deletes {Row : Type} (isOf : Row → Bool) (rows : List Row) : Option (List Row) :=
  some (rows.filter fun row => !isOf row)

/-- The change of `auth_setpw` needs a row of the user. -/
def updates (row : UserRow) (rows : List UserRow) : Option (List UserRow) :=
  if rows.any fun other => other.isOf row.pwName row.pwDomain then
    some (rows.map fun other => if other.isOf row.pwName row.pwDomain then row else other)
  else none

theorem append_singleton_ne {Row : Type} (rows : List Row) (row : Row) : rows ++ [row] ≠ rows :=
  fun same => List.cons_ne_nil _ _ (List.append_right_eq_self.mp same)

theorem authAdduser_truthful_iff (vpopmailDirDomains domDir crypted user domain pass gecos
    dir : List Char) (apop : Int) :
    Truthful (usersIn (addUserTable build domain))
        (inserts (newUserRow build vpopmailDirDomains domDir crypted user domain pass gecos dir
          apop)) tables
        (authAdduser accepts opened build vpopmailDirDomains domDir crypted user domain pass gecos
          dir apop ⟨tables, .closed⟩) ↔
      opened ≠ 0 ∨
        (executed (accepts 0) (insertUser (addUserTable build domain)
          (newUserRow build vpopmailDirDomains domDir crypted user domain pass gecos dir apop))
            tables).isSome := by
  rw [authAdduser]
  generalize newUserRow build vpopmailDirDomains domDir crypted user domain pass gecos dir apop =
    row
  rcases Classical.em (opened = 0) with zero | failed
  · rw [if_neg (not_not.mpr zero)]
    cases ran : executed (accepts 0) (insertUser (addUserTable build domain) row) tables with
    | none =>
        simp only [exec_closed_none ran, truthful_zero_iff, inserts, Option.some.injEq,
          append_singleton_ne, zero]
        simp
    | some after =>
        have rows := usersIn_insertUser (executed_of_some ran).2
        simp [exec_closed_some ran, truthful_zero_iff, inserts, rows]
  · rw [if_pos failed]
    exact ⟨fun _ => .inl failed, fun _ => .refused failed⟩

theorem number_ne_zero {code : VaCode} (failed : code ≠ .success) : code.number ≠ 0 := by
  cases code with
  | success => exact absurd rfl failed
  | _ => decide

theorem authSetpw_truthful_iff (owns : Bool) (inpw : Vqpasswd) (domain : List Char) :
    Truthful (usersIn (build.userTable domain)) (updates (passwordRow build inpw domain)) tables
        (authSetpw accepts opened build owns inpw domain ⟨tables, .closed⟩) ↔
      (Vcdb.vcheckVqpw ⟨build.clearPass, build.usersBigDir⟩ inpw domain = .success →
        owns = true → opened = 0 →
          (executed (accepts 0) (updateUser (build.userTable domain)
            (passwordRow build inpw domain)) tables).isSome →
            (usersIn (build.userTable domain) tables).any fun row =>
              row.isOf inpw.pwName (build.domainColumn domain)) := by
  have key : (passwordRow build inpw domain).pwName = inpw.pwName ∧
      (passwordRow build inpw domain).pwDomain = build.domainColumn domain := ⟨rfl, rfl⟩
  rw [← key.1, ← key.2, authSetpw]
  generalize passwordRow build inpw domain = row
  simp only
  split
  · rename_i refused
    exact ⟨fun _ admitted => absurd admitted refused, fun _ => .refused (number_ne_zero refused)⟩
  · rename_i admitted
    cases owns with
    | false =>
        rw [Bool.not_false, if_pos rfl]
        constructor
        · intro _ _ yes
          cases yes
        · exact fun _ => .refused (by decide)
    | true =>
        rw [Bool.not_true, if_neg Bool.false_ne_true]
        rcases Classical.em (opened = 0) with zero | failed
        · rw [if_neg (not_not.mpr zero)]
          cases ran : executed (accepts 0) (updateUser (build.userTable domain) row) tables with
          | none =>
              rw [exec_closed_none ran, if_neg Bool.false_ne_true]
              constructor
              · intro _ _ _ _ some_ran
                cases some_ran
              · exact fun _ => .refused (by decide)
          | some after =>
              have rows := usersIn_updateUser (executed_of_some ran).2
              rw [exec_closed_some ran, if_pos rfl, truthful_zero_iff, updates, rows]
              simp [not_not.mp admitted, zero]
        · rw [if_pos failed]
          exact ⟨fun _ _ _ zero => absurd zero failed, fun _ => .refused failed⟩

theorem authDeluser_truthful_iff (currentUser user domain : List Char) :
    Truthful (usersIn (delUserTable build domain))
        (deletes fun row => row.isOf user (build.domainColumn domain)) tables
        (authDeluser accepts opened build currentUser user domain ⟨tables, .closed⟩) ↔
      (opened = 0 → build.enableAuthLogging = true →
        (executed (accepts 0) (deleteUser (delUserTable build domain) user
          (build.domainColumn domain)) tables).isSome →
        (accepts 1 = true ∧ tables.lastauth.isSome) ∨
          ∀ row ∈ usersIn (delUserTable build domain) tables,
            row.isOf user (build.domainColumn domain) = false) := by
  have unchanged : (usersIn (delUserTable build domain) tables).filter (fun row =>
      !row.isOf user (build.domainColumn domain)) = usersIn (delUserTable build domain) tables ↔
        ∀ row ∈ usersIn (delUserTable build domain) tables,
          row.isOf user (build.domainColumn domain) = false := by
    rw [List.filter_eq_self]
    simp only [Bool.not_eq_true']
  rw [authDeluser]
  generalize (fun row : LastauthRow => decide (currentUser = user) && decide (row.domain = domain)) =
    isLogin
  have keeps (before after : Tables) (ran : deleteLastauth isLogin before = some after) :
      usersIn (delUserTable build domain) after = usersIn (delUserTable build domain) before :=
    usersIn_deleteLastauth ran
  rcases Classical.em (opened = 0) with zero | failed
  · rw [if_neg (not_not.mpr zero)]
    cases ran : executed (accepts 0) (deleteUser (delUserTable build domain) user
        (build.domainColumn domain)) tables with
    | none =>
        simp only [exec_closed_none ran, Bool.false_and, Bool.false_eq_true, if_false]
        constructor
        · intro _ _ _ some_ran
          cases some_ran
        · intro _
          split
          · rcases exec_closed_keeps (accepts 1) (keeps tables) with
              ⟨after, same, kept⟩
            rw [same]
            exact (truthful_nonzero_iff (by decide)).mpr kept
          · exact .refused (by decide)
    | some after =>
        have rows := usersIn_deleteUser (executed_of_some ran).2
        have logins := lastauth_deleteUser (executed_of_some ran).2
        simp only [exec_closed_some ran, Bool.true_and]
        split
        · rename_i logging
          cases second : executed (accepts 1) (deleteLastauth isLogin) after with
          | none =>
              have refused : ¬ (accepts 1 = true ∧ tables.lastauth.isSome = true) := by
                rintro ⟨accepted, present⟩
                rw [← logins] at present
                rcases Option.isSome_iff_exists.mp present with ⟨logged, known⟩
                rw [executed, accepted, if_pos rfl, deleteLastauth, known] at second
                cases second
              rw [exec_closed_none second, if_neg Bool.false_ne_true,
                truthful_nonzero_iff (by decide), rows, unchanged]
              constructor
              · exact fun absent _ _ _ => .inr absent
              · intro condition
                rcases condition zero logging rfl with both | absent
                · exact absurd both refused
                · exact absent
          | some final =>
              have accepted : accepts 1 = true ∧ tables.lastauth.isSome = true := by
                rcases executed_of_some second with ⟨accepted, deleted⟩
                refine ⟨accepted, ?_⟩
                rw [deleteLastauth, Option.map_eq_some_iff] at deleted
                rcases deleted with ⟨logged, known, _⟩
                rw [← logins, known]
                rfl
              have kept := keeps after final (executed_of_some second).2
              rw [exec_closed_some second, if_pos rfl, truthful_zero_iff, deletes, kept, rows]
              exact ⟨fun _ _ _ _ => .inl accepted, fun _ => rfl⟩
        · rename_i silent
          have done : Truthful (usersIn (delUserTable build domain))
              (deletes fun row => row.isOf user (build.domainColumn domain)) tables
              (0, ⟨after, .closed⟩) := by
            rw [truthful_zero_iff, deletes, rows]
          exact ⟨fun _ _ logging => absurd logging silent, fun _ => done⟩
  · rw [if_pos failed]
    exact ⟨fun _ zero => absurd zero failed, fun _ => .refused failed⟩

end Users

/-! ## Aliases -/

section Aliases

variable (accepts : Nat → Bool) (opened : Int) (tables : Tables)

theorem vcreateValiasTable_keeps (position : Nat) :
    ∃ after, vcreateValiasTable accepts position ⟨tables, .closed⟩ = ⟨after, .closed⟩ ∧
      aliases after = aliases tables := by
  have creates (before after : Tables) (ran : createValias before = some after) :
      aliases after = aliases before :=
    aliases_createValias ran
  have indexes (before after : Tables) (ran : createValiasIdx before = some after) :
      aliases after = aliases before :=
    aliases_createValiasIdx ran
  rw [vcreateValiasTable]
  rcases exec_closed_keeps (accepts position) (creates tables) with ⟨created, first, kept⟩
  rcases exec_closed_keeps (accepts (position + 1)) (indexes created) with
    ⟨indexed, second, same⟩
  refine ⟨indexed, ?_, same.trans kept⟩
  simp only [first, second]

theorem aliasInsert_truthful_iff (aliasName domain aliasLine : List Char) :
    Truthful aliases (inserts ⟨aliasName, domain, aliasLine.dropWhile (· = ' ')⟩) tables
        (aliasInsert accepts opened aliasName domain aliasLine ⟨tables, .closed⟩) ↔
      (opened = 0 → executed (accepts 0)
        (insertAlias ⟨aliasName, domain, aliasLine.dropWhile (· = ' ')⟩) tables = none) := by
  rw [aliasInsert]
  generalize (⟨aliasName, domain, aliasLine.dropWhile (· = ' ')⟩ : AliasRow) = row
  rcases Classical.em (opened = 0) with zero | failed
  · rw [if_neg (not_not.mpr zero)]
    cases ran : executed (accepts 0) (insertAlias row) tables with
    | some after =>
        have rows := aliases_insertAlias (executed_of_some ran).2
        simp only [exec_closed_some ran, Bool.not_true, Bool.false_eq_true, if_false]
        rw [truthful_nonzero_iff (by decide), rows]
        constructor
        · exact fun same => absurd same (append_singleton_ne _ _)
        · intro condition
          cases condition zero
    | none =>
        rcases vcreateValiasTable_keeps accepts tables 1 with ⟨created, made, kept⟩
        simp only [exec_closed_none ran, Bool.not_false, if_true, made]
        have truthful : Truthful aliases (inserts row) tables
            (if !(exec (accepts 3) (insertAlias row) ⟨created, .closed⟩).1 then
              (-1, (exec (accepts 3) (insertAlias row) ⟨created, .closed⟩).2)
            else (0, (exec (accepts 3) (insertAlias row) ⟨created, .closed⟩).2)) := by
          cases again : executed (accepts 3) (insertAlias row) created with
          | none =>
              rw [exec_closed_none again]
              exact (truthful_nonzero_iff (by decide)).mpr kept
          | some final =>
              have rows := aliases_insertAlias (executed_of_some again).2
              rw [exec_closed_some again]
              apply truthful_zero_iff.mpr
              rw [inserts, rows, kept]
        exact ⟨fun _ _ => trivial, fun _ => truthful⟩
  · rw [if_pos failed]
    exact ⟨fun _ zero => absurd zero failed, fun _ => .refused failed⟩

theorem deleteAliasRows_truthful (isOf : AliasRow → Bool) :
    Truthful aliases (deletes isOf) tables
      (deleteAliasRows accepts opened isOf ⟨tables, .closed⟩) := by
  rw [deleteAliasRows]
  split
  · rename_i failed
    exact .refused failed
  · cases ran : executed (accepts 0) (deleteAliases isOf) tables with
    | some after =>
        have rows := aliases_deleteAliases (executed_of_some ran).2
        rw [exec_closed_some ran]
        apply truthful_zero_iff.mpr
        rw [deletes, rows]
    | none =>
        rcases vcreateValiasTable_keeps accepts tables 1 with ⟨created, made, kept⟩
        simp only [exec_closed_none ran, Bool.not_false, if_true, made]
        cases again : executed (accepts 3) (deleteAliases isOf) created with
        | none =>
            rw [exec_closed_none again]
            exact (truthful_nonzero_iff (by decide)).mpr kept
        | some final =>
            have rows := aliases_deleteAliases (executed_of_some again).2
            rw [exec_closed_some again]
            apply truthful_zero_iff.mpr
            rw [deletes, rows, kept]

end Aliases

/-! ## Transactions -/

section Transactions

variable (accepts : Nat → Bool) (opened : Int) (tables : Tables)

/-- The end of a transaction that has made a change. -/
theorem commit_truthful {Rows : Type} {rows : Tables → Rows} {change : Rows → Option Rows}
    {working : Tables} (accepted : Bool) (changed : change (rows tables) = some (rows working)) :
    Truthful rows change tables
      (if (commit accepted ⟨tables, .active working⟩).1 then 0 else -1,
        (commit accepted ⟨tables, .active working⟩).2) := by
  rw [commit_active]
  cases accepted with
  | true => exact truthful_zero_iff.mpr changed
  | false =>
      show Truthful rows change tables (-1, ⟨tables, .closed⟩)
      exact .refused (by decide)

/-- The checks that `add_ip_map` and `del_ip_map` begin with. -/
theorem guarded_truthful_iff {Rows : Type} {rows : Tables → Rows} {change : Rows → Option Rows}
    (ip domain : List Char) {result : Int × Connection Tables} :
    Truthful rows change tables
        (if ip = [] then (-1, ⟨tables, .closed⟩)
        else if domain = [] then (-1, ⟨tables, .closed⟩)
        else if opened ≠ 0 then (opened, ⟨tables, .closed⟩)
        else result) ↔
      (ip ≠ [] → domain ≠ [] → opened = 0 → Truthful rows change tables result) := by
  split
  · rename_i empty
    exact ⟨fun _ named => absurd empty named, fun _ => .refused (by decide)⟩
  split
  · rename_i empty
    exact ⟨fun _ _ given => absurd empty given, fun _ => .refused (by decide)⟩
  split
  · rename_i failed
    exact ⟨fun _ _ _ zero => absurd zero failed, fun _ => .refused failed⟩
  · rename_i named given zero
    exact ⟨fun truthful _ _ _ => truthful, fun truthful =>
      truthful named given (not_not.mp zero)⟩

/-- The change of `add_ip_map`: the row is taken away before it is added. -/
def readds (row : IpAliasRow) (rows : List IpAliasRow) : Option (List IpAliasRow) :=
  some ((rows.filter fun other => other ≠ row) ++ [row])

theorem addIpMap_truthful_iff (ip domain : List Char) :
    Truthful ipRows (readds ⟨ip, domain⟩) tables
        (addIpMap accepts opened ip domain ⟨tables, .closed⟩) ↔
      (ip ≠ [] → domain ≠ [] → opened = 0 → accepts 0 = true →
        ∃ deleted, executed (accepts 1) (deleteIp ⟨ip, domain⟩) tables = some deleted ∧
          (executed (accepts 2) (insertIp ⟨ip, domain⟩) deleted).isSome) := by
  rw [addIpMap, guarded_truthful_iff, begin_closed]
  apply imp_congr_right
  intro _
  apply imp_congr_right
  intro _
  apply imp_congr_right
  intro _
  generalize (⟨ip, domain⟩ : IpAliasRow) = row
  cases begun : accepts 0 with
  | false =>
      simp only [Bool.false_eq_true, if_false, Bool.not_false, if_true]
      exact ⟨fun _ yes => (by cases yes), fun _ => .refused (by decide)⟩
  | true =>
      simp only [if_true, Bool.not_true, Bool.false_eq_true, if_false]
      cases first : executed (accepts 1) (deleteIp row) tables with
      | none =>
          simp only [exec_active_none first, exec_failed, Bool.not_false, if_true]
          constructor
          · exact fun truthful => absurd truthful (not_truthful_of_open (by simp))
          · intro condition
            rcases condition trivial with ⟨deleted, ran, _⟩
            cases ran
      | some deleted =>
          simp only [exec_active_some first]
          cases second : executed (accepts 2) (insertIp row) deleted with
          | none =>
              simp only [exec_active_none second, exec_failed, Bool.not_false, if_true]
              constructor
              · exact fun truthful => absurd truthful (not_truthful_of_open (by simp))
              · intro condition
                rcases condition trivial with ⟨other, ran, inserted⟩
                cases ran
                rw [second] at inserted
                cases inserted
          | some working =>
              have removed := ipRows_deleteIp (executed_of_some first).2
              have added := ipRows_insertIp (executed_of_some second).2
              have changed : readds row (ipRows tables) = some (ipRows working) := by
                rw [readds, added, removed]
              simp only [exec_active_some second, Bool.not_true, Bool.false_eq_true, if_false]
              constructor
              · exact fun _ _ => ⟨deleted, rfl, by rw [second]; rfl⟩
              · exact fun _ => commit_truthful tables (accepts 3) changed

theorem delIpMap_truthful_iff (ip domain : List Char) :
    Truthful ipRows (deletes fun row => row = ⟨ip, domain⟩) tables
        (delIpMap accepts opened ip domain ⟨tables, .closed⟩) ↔
      (ip ≠ [] → domain ≠ [] → opened = 0 →
        executed (accepts 0) (deleteIp ⟨ip, domain⟩) tables = none →
          (⟨ip, domain⟩ : IpAliasRow) ∉ ipRows tables) := by
  rw [delIpMap, guarded_truthful_iff]
  apply imp_congr_right
  intro _
  apply imp_congr_right
  intro _
  apply imp_congr_right
  intro _
  generalize (⟨ip, domain⟩ : IpAliasRow) = row
  cases ran : executed (accepts 0) (deleteIp row) tables with
  | none =>
      have unchanged : (ipRows tables).filter (fun other => !decide (other = row)) =
          ipRows tables ↔ row ∉ ipRows tables := by
        rw [List.filter_eq_self]
        simp only [Bool.not_eq_true', decide_eq_false_iff_not]
        exact ⟨fun all member => all row member rfl, fun absent other member same =>
          absent (same ▸ member)⟩
      rw [exec_closed_none ran, truthful_zero_iff, deletes, Option.some.injEq, unchanged]
      exact ⟨fun absent _ => absent, fun condition => condition rfl⟩
  | some after =>
      have rows := ipRows_deleteIp (executed_of_some ran).2
      have same : deletes (fun other => decide (other = row)) (ipRows tables) =
          some (ipRows after) := by
        rw [deletes, rows]
        simp only [decide_not]
      rw [exec_closed_some ran, truthful_zero_iff]
      exact ⟨fun _ none_ran => (by cases none_ran), fun _ => same⟩

/-- The change of `write_dir_control`. -/
def replaces (row : DirControlRow) (rows : List DirControlRow) : Option (List DirControlRow) :=
  some ((rows.filter fun other => other.domain ≠ row.domain) ++ [row])

theorem writeDirControl_truthful_iff (vdir : VdirType) (domain : List Char) :
    (∃ result, writeDirControl accepts opened vdir domain ⟨tables, .closed⟩ = some result ∧
        Truthful dirControls (replaces ⟨domain, vdir⟩) tables result) ↔
      (opened = 0 → accepts 0 = true →
        ∃ deleted, executed (accepts 1) (deleteDirControl domain) tables = some deleted ∧
          (executed (accepts 2) (insertDirControl ⟨domain, vdir⟩) deleted).isSome) := by
  rw [writeDirControl]
  rcases Classical.em (opened = 0) with zero | failed
  · rw [if_neg (not_not.mpr zero), begin_closed]
    cases begun : accepts 0 with
    | false =>
        simp only [Bool.false_eq_true, if_false, Bool.not_false, if_true]
        exact ⟨fun _ _ yes => (by cases yes), fun _ => ⟨_, rfl, .refused (by decide)⟩⟩
    | true =>
        simp only [if_true, Bool.not_true, Bool.false_eq_true, if_false]
        cases first : executed (accepts 1) (deleteDirControl domain) tables with
        | none =>
            simp only [exec_active_none first, Bool.not_false, if_true]
            constructor
            · rintro ⟨result, returned, truthful⟩
              rw [← Option.some.inj returned] at truthful
              exact absurd truthful (not_truthful_of_open (by simp))
            · intro condition
              rcases condition zero trivial with ⟨deleted, ran, _⟩
              cases ran
        | some deleted =>
            simp only [exec_active_some first, Bool.not_true, Bool.false_eq_true, if_false]
            cases second : executed (accepts 2) (insertDirControl ⟨domain, vdir⟩) deleted with
            | none =>
                simp only [exec_active_none second, Bool.not_false, if_true]
                constructor
                · rintro ⟨result, returned, _⟩
                  cases returned
                · intro condition
                  rcases condition zero trivial with ⟨other, ran, inserted⟩
                  cases ran
                  rw [second] at inserted
                  cases inserted
            | some working =>
                have removed := dirControls_deleteDirControl (executed_of_some first).2
                have added := dirControls_insertDirControl (executed_of_some second).2
                have changed : replaces ⟨domain, vdir⟩ (dirControls tables) =
                    some (dirControls working) := by
                  rw [replaces, added, removed]
                simp only [exec_active_some second, Bool.not_true, Bool.false_eq_true, if_false]
                constructor
                · exact fun _ _ _ => ⟨deleted, rfl, by rw [second]; rfl⟩
                · exact fun _ => ⟨_, rfl, commit_truthful tables (accepts 3) changed⟩
  · rw [if_pos failed]
    exact ⟨fun _ zero => absurd zero failed, fun _ => ⟨_, rfl, .refused (by decide)⟩⟩

end Transactions

/-! ## All of the calls -/

section Calls

/-- A call of one of the functions. What `auth_adduser` gets from other files is given with it. -/
inductive Call
  | authAdduser (vpopmailDirDomains domDir crypted user domain pass gecos dir : List Char)
      (apop : Int)
  | authSetpw (owns : Bool) (inpw : Vqpasswd) (domain : List Char)
  | authDeluser (currentUser user domain : List Char)
  | aliasInsert (aliasName domain aliasLine : List Char)
  | aliasRemove (aliasName domain aliasLine : List Char)
  | aliasDelete (aliasName domain : List Char)
  | addIpMap (ip domain : List Char)
  | delIpMap (ip domain : List Char)
  | writeDirControl (vdir : VdirType) (domain : List Char)

variable (accepts : Nat → Bool) (opened : Int) (build : Build) (tables : Tables)

/-- Whether a call outside of transactions reports its change truthfully. -/
def Call.Reports : Call → Prop
  | authAdduser vpopmailDirDomains domDir crypted user domain pass gecos dir apop =>
      Truthful (usersIn (addUserTable build domain))
        (inserts (newUserRow build vpopmailDirDomains domDir crypted user domain pass gecos dir
          apop)) tables
        (Vpgsql.authAdduser accepts opened build vpopmailDirDomains domDir crypted user domain
          pass gecos dir apop ⟨tables, .closed⟩)
  | authSetpw owns inpw domain =>
      Truthful (usersIn (build.userTable domain)) (updates (passwordRow build inpw domain)) tables
        (Vpgsql.authSetpw accepts opened build owns inpw domain ⟨tables, .closed⟩)
  | authDeluser currentUser user domain =>
      Truthful (usersIn (delUserTable build domain))
        (deletes fun row => row.isOf user (build.domainColumn domain)) tables
        (Vpgsql.authDeluser accepts opened build currentUser user domain ⟨tables, .closed⟩)
  | aliasInsert aliasName domain aliasLine =>
      Truthful aliases (inserts ⟨aliasName, domain, aliasLine.dropWhile (· = ' ')⟩) tables
        (Vpgsql.aliasInsert accepts opened aliasName domain aliasLine ⟨tables, .closed⟩)
  | aliasRemove aliasName domain aliasLine =>
      Truthful aliases
        (deletes fun row => row.aliasName = aliasName && row.valiasLine = aliasLine &&
          row.domain = domain) tables
        (Vpgsql.aliasRemove accepts opened aliasName domain aliasLine ⟨tables, .closed⟩)
  | aliasDelete aliasName domain =>
      Truthful aliases (deletes fun row => row.aliasName = aliasName && row.domain = domain) tables
        (Vpgsql.aliasDelete accepts opened aliasName domain ⟨tables, .closed⟩)
  | addIpMap ip domain =>
      Truthful ipRows (readds ⟨ip, domain⟩) tables
        (Vpgsql.addIpMap accepts opened ip domain ⟨tables, .closed⟩)
  | delIpMap ip domain =>
      Truthful ipRows (deletes fun row => row = ⟨ip, domain⟩) tables
        (Vpgsql.delIpMap accepts opened ip domain ⟨tables, .closed⟩)
  | writeDirControl vdir domain =>
      ∃ result, Vpgsql.writeDirControl accepts opened vdir domain ⟨tables, .closed⟩ =
          some result ∧
        Truthful dirControls (replaces ⟨domain, vdir⟩) tables result

/-- The condition for it on the tables and on the outcomes of statements. -/
def Call.Condition : Call → Prop
  | authAdduser vpopmailDirDomains domDir crypted user domain pass gecos dir apop =>
      opened ≠ 0 ∨
        (executed (accepts 0) (insertUser (addUserTable build domain)
          (newUserRow build vpopmailDirDomains domDir crypted user domain pass gecos dir apop))
            tables).isSome
  | authSetpw owns inpw domain =>
      Vcdb.vcheckVqpw ⟨build.clearPass, build.usersBigDir⟩ inpw domain = .success →
        owns = true → opened = 0 →
          (executed (accepts 0) (updateUser (build.userTable domain)
            (passwordRow build inpw domain)) tables).isSome →
            (usersIn (build.userTable domain) tables).any fun row =>
              row.isOf inpw.pwName (build.domainColumn domain)
  | authDeluser _ user domain =>
      opened = 0 → build.enableAuthLogging = true →
        (executed (accepts 0) (deleteUser (delUserTable build domain) user
          (build.domainColumn domain)) tables).isSome →
        (accepts 1 = true ∧ tables.lastauth.isSome) ∨
          ∀ row ∈ usersIn (delUserTable build domain) tables,
            row.isOf user (build.domainColumn domain) = false
  | aliasInsert aliasName domain aliasLine =>
      opened = 0 → executed (accepts 0)
        (insertAlias ⟨aliasName, domain, aliasLine.dropWhile (· = ' ')⟩) tables = none
  | aliasRemove _ _ _ => True
  | aliasDelete _ _ => True
  | addIpMap ip domain =>
      ip ≠ [] → domain ≠ [] → opened = 0 → accepts 0 = true →
        ∃ deleted, executed (accepts 1) (deleteIp ⟨ip, domain⟩) tables = some deleted ∧
          (executed (accepts 2) (insertIp ⟨ip, domain⟩) deleted).isSome
  | delIpMap ip domain =>
      ip ≠ [] → domain ≠ [] → opened = 0 →
        executed (accepts 0) (deleteIp ⟨ip, domain⟩) tables = none →
          (⟨ip, domain⟩ : IpAliasRow) ∉ ipRows tables
  | writeDirControl vdir domain =>
      opened = 0 → accepts 0 = true →
        ∃ deleted, executed (accepts 1) (deleteDirControl domain) tables = some deleted ∧
          (executed (accepts 2) (insertDirControl ⟨domain, vdir⟩) deleted).isSome

theorem call_reports_iff (call : Call) :
    call.Reports accepts opened build tables ↔ call.Condition accepts opened build tables := by
  cases call with
  | authAdduser vpopmailDirDomains domDir crypted user domain pass gecos dir apop =>
      apply authAdduser_truthful_iff
  | authSetpw owns inpw domain => apply authSetpw_truthful_iff
  | authDeluser currentUser user domain => apply authDeluser_truthful_iff
  | aliasInsert aliasName domain aliasLine => apply aliasInsert_truthful_iff
  | aliasRemove aliasName domain aliasLine =>
      exact ⟨fun _ => trivial, fun _ => deleteAliasRows_truthful accepts opened tables _⟩
  | aliasDelete aliasName domain =>
      exact ⟨fun _ => trivial, fun _ => deleteAliasRows_truthful accepts opened tables _⟩
  | addIpMap ip domain => apply addIpMap_truthful_iff
  | delIpMap ip domain => apply delIpMap_truthful_iff
  | writeDirControl vdir domain => apply writeDirControl_truthful_iff

/-- A database with a `valias` table that has no rows, and without the other tables. -/
def emptyValias : Tables := ⟨fun _ => none, some [], true, none, none, none⟩

/-- An alias that is inserted into its table is reported as a failure. -/
theorem call_not_reports :
    ¬ ∀ (accepts : Nat → Bool) (opened : Int) (build : Build) (tables : Tables) (call : Call),
      call.Reports accepts opened build tables := by
  intro reports
  have truthful := reports (fun _ => true) 0 ⟨true, true, false, true⟩ emptyValias
    (.aliasInsert ['a'] ['d'] ['&', 'x'])
  have unchanged := truthful.undone (by decide)
  exact absurd unchanged (by decide +kernel)

end Calls

end Vpopmail.Vpgsql
