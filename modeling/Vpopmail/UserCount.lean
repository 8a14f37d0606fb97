import Vpopmail.UserOperations

/-! # The count of users

When `cur_users` in `dir_control` agrees with the users who own a directory.
-/

namespace Vpopmail.Users

open Vpopmail Text Vpopmail.Stream Buffer Interleaving Execution

/-! ## The recorded count -/

/-- The `cur_users` that `dir_control` records, as it is read. -/
def recordedUsers : Option (List Char) → BitVec 64
  | none => 0
  | some text => BitVec.ofInt 64 (Decimal.atol (cstring (takeLine (maxDirName - 1) text).1))

theorem recordedUsers_writeDirControl {vdir : VdirType} (small : vdir.curUsers.toNat < 2 ^ 63)
    (file : Option (List Char)) :
    recordedUsers (Vcdb.writeDirControl true file vdir).2 = vdir.curUsers := by
  have digits : ∀ char : Char, char ≠ '-' → char.isDigit = false →
      Free char (Decimal.spellNat vdir.curUsers.toNat) := fun char notMinus notDigit =>
    Decimal.not_mem_spellInt notMinus notDigit (Int.ofNat vdir.curUsers.toNat)
  have newline := digits '\n' (by decide) (by decide)
  have plain : Free nul (Decimal.spellNat vdir.curUsers.toNat ++ ['\n']) := by
    rw [free_append, free_cons]
    exact ⟨digits nul (by decide) (by decide), by decide, free_nil nul⟩
  have fits : (Decimal.spellNat vdir.curUsers.toNat).length < maxDirName - 1 := by
    have bound : vdir.curUsers.toNat < 10 ^ 20 := Nat.lt_trans vdir.curUsers.isLt (by decide)
    have short := Decimal.length_spellNat_le (by decide) bound
    rw [maxDirName]
    omega
  have written : ∃ rest, (Vcdb.writeDirControl true file vdir).2 =
      some (Decimal.spellNat vdir.curUsers.toNat ++ '\n' :: rest) := by
    simp only [Vcdb.writeDirControl, Vcdb.dirControlText, Bool.not_true, Bool.false_eq_true,
      if_false, List.append_assoc, List.singleton_append]
    exact ⟨_, rfl⟩
  rcases written with ⟨rest, written⟩
  rw [written, recordedUsers, takeLine_line newline fits, cstring_of_free plain,
    Vcdb.atol_users]
  exact (Vcdb.recovered_users_eq_iff _).mpr small

/-! ## Steps of the directory -/

theorem ensures_incLevel (vdir : VdirType) (level : Fin 3) :
    Ensures (Bigdir.incLevel vdir level) fun stepped =>
      stepped.1.curUsers = vdir.curUsers := by
  rw [Bigdir.incLevel]
  apply ensures_bind (ensures_any _)
  intro char _
  apply ensures_bind (ensures_any _)
  intro ending _
  split
  · apply ensures_bind (ensures_any _)
    intro first _
    apply ensures_bind (ensures_any _)
    intro dir _
    exact ensures_ok rfl
  · apply ensures_bind (ensures_any _)
    intro following _
    apply ensures_bind (ensures_any _)
    intro dir _
    exact ensures_ok rfl

theorem ensures_incDir (vdir : VdirType) (level : Nat) (inside : level < 3) :
    Ensures (Bigdir.incDir vdir level inside) fun next => next.curUsers = vdir.curUsers := by
  induction level generalizing vdir with
  | zero =>
      rw [Bigdir.incDir]
      exact ensures_map (ensures_incLevel vdir ⟨0, inside⟩)
  | succ level induction =>
      rw [Bigdir.incDir]
      apply ensures_bind (ensures_incLevel vdir ⟨level + 1, inside⟩)
      intro stepped same
      split
      · rw [← same]
        exact induction stepped.1 _
      · exact ensures_ok same

theorem ensures_openLevel (vdir : VdirType) (level : Fin 3) :
    Ensures (Bigdir.openLevel vdir level) fun next => next.curUsers = vdir.curUsers := by
  rw [Bigdir.openLevel]
  apply ensures_bind (ensures_incDir vdir level.val level.isLt)
  intro next same
  apply ensures_map
  exact ⟨fun _ _ => same⟩

theorem ensures_atLevelEnd (vdir : VdirType) (level : Fin 3) :
    Ensures (Bigdir.atLevelEnd vdir level) fun next => next.curUsers = vdir.curUsers := by
  match level with
  | 0 => exact ensures_openLevel vdir 0
  | 1 =>
      rw [Bigdir.atLevelEnd]
      split
      · exact ensures_openLevel vdir 1
      · exact ensures_ok rfl
  | 2 => exact ensures_ok rfl

theorem ensures_leaveDir (vdir : VdirType) :
    Ensures (Bigdir.leaveDir vdir) fun next => next.curUsers = vdir.curUsers := by
  rw [Bigdir.leaveDir]
  apply ensures_bind (ensures_any _)
  intro string _
  split
  · apply ensures_bind (ensures_any _)
    intro first _
    apply ensures_bind (ensures_any _)
    intro dir _
    apply ensures_map
    exact ⟨fun _ _ => rfl⟩
  · apply ensures_bind (ensures_any _)
    intro level _
    have ended : Ensures (if vdir.levelIndex level = vdir.levelEnd level then
        Bigdir.atLevelEnd vdir level else .ok vdir) fun next =>
          next.curUsers = vdir.curUsers := by
      split
      · exact ensures_atLevelEnd vdir level
      · exact ensures_ok rfl
    apply ensures_bind ended
    intro next same
    apply ensures_bind (ensures_any _)
    intro level _
    rw [← same]
    exact ensures_incDir next level.val level.isLt

theorem ensures_nextBigDir (vdir : VdirType) :
    Ensures (Bigdir.nextBigDir vdir) fun moved => moved.2.curUsers = vdir.curUsers + 1 := by
  have counted : Ensures (Bigdir.incDirControl vdir) fun next =>
      next.curUsers = vdir.curUsers + 1 := by
    rw [Bigdir.incDirControl]
    split
    · exact ensures_leaveDir _
    · exact ensures_ok rfl
  rw [Bigdir.nextBigDir]
  apply ensures_bind counted
  intro next same
  apply ensures_map
  exact ⟨fun _ _ => same⟩

/-! ## Owners -/

/-- Operations whose user owns a directory without being known to the auth
backend: not yet, or no longer. -/
def Operation.owners : Operation → Nat
  | .making _ _ => 1
  | .storing _ _ => 1
  | .freeing _ _ => 1
  | .discounting => 1
  | .decreasing _ => 1
  | _ => 0

/-- The record counts the users known to the auth backend and these others. -/
structure Balanced (files : DomainFiles) (others : Nat) : Prop where
  count : (recordedUsers files.control).toNat = files.users.length + others
  small : (recordedUsers files.control).toNat < 2 ^ 63
  names : (files.users.map Prod.fst).Nodup

/-- The conditions on a step. A value that is written back was read from the
record as it still is, there is room to count, and nothing fails after the
directory of a user was chosen. -/
def Orderly (domain : Domain) (files : DomainFiles) (operation : Operation) (outcome : Outcome) :
    Prop :=
  match operation with
  | .recounting _ _ vdir =>
      outcome.succeeds ∧ recordedUsers files.control = vdir.curUsers ∧ vdir.curUsers ≠ 0 ∧
        vdir.curUsers.toNat + 1 < 2 ^ 63
  | .moving _ vdir =>
      outcome.succeeds ∧ recordedUsers files.control = vdir.curUsers ∧
        vdir.curUsers.toNat + 1 < 2 ^ 63
  | .making user hash =>
      outcome.succeeds ∧ domain.dir.length + hash.length + user.length ≤ maxPwDir
  | .storing user _ => outcome.succeeds ∧ user ∉ files.users.map Prod.fst
  | .removing user _ => outcome.succeeds → user ∈ files.users.map Prod.fst
  | .decreasing vdir => outcome.succeeds ∧ recordedUsers files.control = vdir.curUsers
  | _ => True

instance (domain : Domain) (files : DomainFiles) (operation : Operation) (outcome : Outcome) :
    Decidable (Orderly domain files operation outcome) :=
  match operation with
  | .recounting _ _ vdir =>
      inferInstanceAs (Decidable (outcome.succeeds ∧ recordedUsers files.control = vdir.curUsers ∧
        vdir.curUsers ≠ 0 ∧ vdir.curUsers.toNat + 1 < 2 ^ 63))
  | .moving _ vdir =>
      inferInstanceAs (Decidable (outcome.succeeds ∧ recordedUsers files.control = vdir.curUsers ∧
        vdir.curUsers.toNat + 1 < 2 ^ 63))
  | .making user hash =>
      inferInstanceAs (Decidable (outcome.succeeds ∧
        domain.dir.length + hash.length + user.length ≤ maxPwDir))
  | .storing user _ =>
      inferInstanceAs (Decidable (outcome.succeeds ∧ user ∉ files.users.map Prod.fst))
  | .removing user _ =>
      inferInstanceAs (Decidable (outcome.succeeds → user ∈ files.users.map Prod.fst))
  | .decreasing vdir =>
      inferInstanceAs (Decidable (outcome.succeeds ∧
        recordedUsers files.control = vdir.curUsers))
  | .adding _ => inferInstanceAs (Decidable True)
  | .allocating _ => inferInstanceAs (Decidable True)
  | .reusing _ _ => inferInstanceAs (Decidable True)
  | .reused _ _ => inferInstanceAs (Decidable True)
  | .opening _ => inferInstanceAs (Decidable True)
  | .deleting _ => inferInstanceAs (Decidable True)
  | .freeing _ _ => inferInstanceAs (Decidable True)
  | .discounting => inferInstanceAs (Decidable True)

theorem length_filter_user {users : List (List Char × List Char)} {user : List Char}
    (names : (users.map Prod.fst).Nodup) (known : user ∈ users.map Prod.fst) :
    (users.filter fun known => known.1 ≠ user).length + 1 = users.length := by
  induction users with
  | nil => cases known
  | cons first others induction =>
      rw [List.map_cons, List.nodup_cons] at names
      by_cases same : first.1 = user
      · have kept : others.filter (fun known => known.1 ≠ user) = others := by
          apply List.filter_eq_self.mpr
          intro other member
          have different : other.1 ≠ user := fun equal =>
            names.1 (same ▸ equal ▸ List.mem_map_of_mem member)
          exact decide_eq_true different
        rw [List.filter_cons_of_neg (by simp [same]), kept, List.length_cons]
      · rw [List.map_cons, List.mem_cons] at known
        have later := known.resolve_left (Ne.symm same)
        rw [List.filter_cons_of_pos (by simp [same]), List.length_cons, induction names.2 later,
          List.length_cons]

theorem toNat_add_one {users : BitVec 64} (room : users.toNat + 1 < 2 ^ 63) :
    (users + 1).toNat = users.toNat + 1 := by
  rw [BitVec.toNat_add]
  exact Nat.mod_eq_of_lt (Nat.lt_trans room (by decide))

theorem toNat_sub_one {users : BitVec 64} (positive : 0 < users.toNat) :
    (users - 1).toNat = users.toNat - 1 :=
  BitVec.toNat_sub_of_le (BitVec.le_def.mpr positive)

theorem Balanced.increased {files : DomainFiles} {others : Nat}
    (holds : Balanced files (0 + others)) {control : Option (List Char)}
    (room : (recordedUsers files.control).toNat + 1 < 2 ^ 63)
    (recorded : recordedUsers control = recordedUsers files.control + 1) :
    Balanced { files with control := control } (1 + others) := by
  have value := toNat_add_one room
  rw [← recorded] at value
  refine ⟨?_, value ▸ room, holds.names⟩
  rw [value, holds.count, Nat.zero_add, Nat.add_assoc, Nat.add_comm others]

/-- An operation that gives a directory back finds it counted. -/
theorem Balanced.positive {files : DomainFiles} {others : Nat}
    (holds : Balanced files (1 + others)) : 0 < (recordedUsers files.control).toNat := by
  have count := holds.count
  omega

theorem Balanced.decreased {files : DomainFiles} {others : Nat}
    (holds : Balanced files (1 + others)) {control : Option (List Char)}
    (recorded : recordedUsers control = recordedUsers files.control - 1) :
    Balanced { files with control := control } (0 + others) := by
  have value := toNat_sub_one holds.positive
  rw [← recorded] at value
  have count := holds.count
  have small := holds.small
  refine ⟨?_, ?_, holds.names⟩
  · rw [value, count]
    simp only
    omega
  · rw [value]
    omega

/-- Every step keeps the balance. -/
theorem balanced_advance {domain : Domain} (bigDir : domain.usersBigDir = true)
    (outcome : Outcome) (files : DomainFiles) (operation : Operation) (others : Nat)
    (after : DomainFiles) (next : Option Operation)
    (holds : Balanced files (operation.owners + others))
    (orderly : Orderly domain files operation outcome)
    (step : advance domain outcome files operation = some (after, next)) :
    Balanced after (System.weightOf Operation.owners next + others) := by
  cases operation with
  | adding user =>
      rw [advance] at step
      split at step
      · cases step
        exact holds
      · cases step
        exact holds
  | allocating user =>
      simp only [advance, bigDir, Bool.not_true, Bool.false_eq_true, if_false] at step
      split at step <;> cases step <;> exact holds
  | reusing user entry =>
      rw [advance] at step
      split at step <;> cases step <;> exact ⟨holds.count, holds.small, holds.names⟩
  | reused user entry =>
      rw [advance] at step
      split at step
      · cases step
      · cases step
        exact holds
  | recounting user entry vdir =>
      rcases orderly with ⟨succeeds, unchanged, positive, room⟩
      rw [advance, if_pos positive] at step
      cases step
      have small : (vdir.curUsers + 1).toNat < 2 ^ 63 := (toNat_add_one room).symm ▸ room
      apply Balanced.increased holds
      · rw [unchanged]
        exact room
      · rw [succeeds, recordedUsers_writeDirControl small, unchanged]
  | opening user =>
      rw [advance] at step
      split at step
      · cases step
      · cases step
        exact holds
  | moving user vdir =>
      rcases orderly with ⟨succeeds, unchanged, room⟩
      rw [advance] at step
      split at step
      · cases step
      · rename_i hash moved there
        cases step
        have count := (ensures_nextBigDir vdir).holds _ there
        have small : moved.curUsers.toNat < 2 ^ 63 := by
          rw [count, toNat_add_one room]
          exact room
        apply Balanced.increased holds
        · rw [unchanged]
          exact room
        · rw [succeeds, recordedUsers_writeDirControl small, unchanged, ← count]
  | making user hash =>
      rcases orderly with ⟨succeeds, short⟩
      rw [advance, if_neg (by simp [succeeds, short])] at step
      cases step
      have sameNames : (files.users.map fun known =>
          if known.1 = user then (known.1, userDir domain hash user) else known).map Prod.fst =
            files.users.map Prod.fst := by
        rw [List.map_map]
        apply List.map_congr_left
        intro known _
        simp only [Function.comp_apply]
        split <;> rfl
      refine ⟨?_, holds.small, ?_⟩
      · rw [List.length_map]
        exact holds.count
      · rw [sameNames]
        exact holds.names
  | storing user hash =>
      rcases orderly with ⟨succeeds, unknown⟩
      rw [advance, if_neg (by simp [succeeds])] at step
      cases step
      have count := holds.count
      refine ⟨?_, holds.small, List.nodup_cons.mpr ⟨unknown, holds.names⟩⟩
      rw [count, List.length_cons]
      simp only [Operation.owners, System.weightOf]
      omega
  | deleting user =>
      rw [advance] at step
      split at step <;> cases step <;> exact holds
  | removing user dir =>
      rw [advance] at step
      split at step
      · cases step
        exact holds
      · rename_i succeeds
        cases step
        have known := orderly (by simpa using succeeds)
        have removed := length_filter_user holds.names known
        have count := holds.count
        refine ⟨?_, holds.small, ?_⟩
        · simp only [Operation.owners, System.weightOf] at count ⊢
          rw [count]
          omega
        · exact holds.names.sublist (List.filter_sublist.map Prod.fst)
  | freeing user dir =>
      rw [advance] at step
      cases step
      exact ⟨holds.count, holds.small, holds.names⟩
  | discounting =>
      rw [advance] at step
      split at step
      · cases step
      · cases step
        exact holds
  | decreasing vdir =>
      rcases orderly with ⟨succeeds, unchanged⟩
      rw [advance] at step
      cases step
      have counted : Balanced files (1 + others) := holds
      have small : (vdir.curUsers - 1).toNat < 2 ^ 63 := by
        rw [← unchanged, toNat_sub_one counted.positive]
        exact Nat.lt_of_le_of_lt (Nat.sub_le _ _) counted.small
      apply counted.decreased
      rw [succeeds, recordedUsers_writeDirControl small, unchanged]

/-! ## Runs -/

/-- The users who own an allocated directory: those that the auth backend knows,
those who are being added and have theirs already, and those who are being
deleted and have theirs still. -/
def owners (pool : Pool DomainFiles Operation) : Nat :=
  pool.shared.users.length + (pool.running.map Operation.owners).sum

/-- In a run of orderly steps the record is exact in every state, whatever the
order of the steps, and the count neither wraps nor grows beyond a `long`. -/
theorem recordedUsers_exact {domain : Domain} (bigDir : domain.usersBigDir = true)
    {labels : List (Label Request Outcome)} {finish : Pool DomainFiles Operation}
    (run : Run ((processes domain).GuardedStep (Orderly domain)) ⟨noUsers, []⟩ labels finish) :
    (recordedUsers finish.shared.control).toNat = owners finish ∧ owners finish < 2 ^ 63 ∧
      (finish.running = [] →
        (recordedUsers finish.shared.control).toNat = finish.shared.users.length) := by
  have light : ∀ request, ((processes domain).launch request).owners = 0 := by
    intro request
    cases request <;> rfl
  have initially : Balanced noUsers 0 := ⟨rfl, by decide, List.nodup_nil⟩
  have balanced := System.run_balance Operation.owners Balanced light
    (fun outcome files operation others after next holds orderly step =>
      balanced_advance bigDir outcome files operation others after next holds orderly step)
    initially run
  have count : (recordedUsers finish.shared.control).toNat = owners finish := balanced.count
  refine ⟨count, count ▸ balanced.small, ?_⟩
  intro quiet
  rw [count, owners, quiet]
  rfl

/-! ## Examples -/

def exampleCom : Domain := ⟨true, "example.com".toList, "/domains/example.com".toList⟩

def outcome (succeeds : Bool) : Outcome := ⟨succeeds, [], Vcdb.clearedVdir⟩

def bob : List Char := "bob".toList

/-- One operation that runs alone, whose steps have these outcomes. -/
def alone (request : Request) (outcomes : List Bool) : List (Label Request Outcome) :=
  .launch request :: outcomes.map fun succeeds => .advance 0 (outcome succeeds)

/-- What a run leaves behind: the number of operations under way, the number of
owners, and the count. -/
def summary (pool : Pool DomainFiles Operation) : Nat × Nat × Nat :=
  (pool.running.length, owners pool, (recordedUsers pool.shared.control).toNat)

theorem exists_run_of_summary {domain : Domain} {guard : DomainFiles → Operation → Outcome → Prop}
    [∀ files operation outcome, Decidable (guard files operation outcome)]
    {labels : List (Label Request Outcome)} {expected : Nat × Nat × Nat}
    (executed : ((processes domain).execute guard ⟨noUsers, []⟩ labels).map summary =
      some expected) :
    ∃ finish, Run ((processes domain).GuardedStep guard) ⟨noUsers, []⟩ labels finish ∧
      summary finish = expected := by
  rcases Option.map_eq_some_iff.mp executed with ⟨finish, ran, summed⟩
  exact ⟨finish, (processes domain).run_of_execute ran, summed⟩

/-- A user is added, and then deleted. -/
theorem recordedUsers_exact_bob :
    ∃ finish, Run ((processes exampleCom).GuardedStep (Orderly exampleCom)) ⟨noUsers, []⟩
        (alone (.vadduser bob) (List.replicate 6 true) ++
          alone (.vdeluser bob) (List.replicate 3 true)) finish ∧
      summary finish = (1, 1, 1) ∧
      (recordedUsers finish.shared.control).toNat = owners finish ∧ owners finish < 2 ^ 63 ∧
      (finish.running = [] →
        (recordedUsers finish.shared.control).toNat = finish.shared.users.length) := by
  have executed : ((processes exampleCom).execute (Orderly exampleCom) ⟨noUsers, []⟩
      (alone (.vadduser bob) (List.replicate 6 true) ++
        alone (.vdeluser bob) (List.replicate 3 true))).map summary = some (1, 1, 1) := by
    decide +kernel
  rcases exists_run_of_summary executed with ⟨finish, run, summed⟩
  exact ⟨finish, run, summed, recordedUsers_exact rfl run⟩

/-- The last outcome is the one of `mkdir` in `make_user_dir`. -/
def failedAddition : List (Label Request Outcome) :=
  alone (.vadduser bob) [true, true, true, true, false]

/-- Both deletions find the user before one of them removes it. -/
def doubleDeletion : List (Label Request Outcome) :=
  alone (.vadduser bob) (List.replicate 6 true) ++
    [.launch (.vdeluser bob), .launch (.vdeluser bob), .advance 0 (outcome true),
      .advance 1 (outcome true)] ++
    List.replicate 8 (.advance 0 (outcome true))

/-- After a failed addition the record counts a user too many. Two deletions of
one user at a time take the count below zero, and the number that is written
comes back as the largest `long`. -/
theorem recordedUsers_not_exact :
    (∃ finish, Run (processes exampleCom).Step ⟨noUsers, []⟩ failedAddition finish ∧
      summary finish = (0, 0, 1)) ∧
    ∃ finish, Run (processes exampleCom).Step ⟨noUsers, []⟩ doubleDeletion finish ∧
      summary finish = (0, 0, 2 ^ 63 - 1) := by
  have unguarded : ∀ {labels : List (Label Request Outcome)} {expected : Nat × Nat × Nat},
      ((processes exampleCom).execute (fun _ _ _ => True) ⟨noUsers, []⟩ labels).map summary =
          some expected →
        ∃ finish, Run (processes exampleCom).Step ⟨noUsers, []⟩ labels finish ∧
          summary finish = expected := by
    intro labels expected executed
    rcases exists_run_of_summary executed with ⟨finish, run, summed⟩
    exact ⟨finish, run.weaken fun _ _ _ guarded => guarded.step, summed⟩
  constructor
  · apply unguarded
    decide +kernel
  · apply unguarded
    decide +kernel

end Vpopmail.Users
