import Vpopmail.AddDomain

/-! # The count of the directories

What the control file of the directories holds when a directory was allocated and
the count is given back.
-/

namespace Vpopmail

open Text Vpopmail.Stream Buffer

/-! ## One directory on -/

/-- The fields that the steps of a directory leave alone. -/
structure Advances (before after : VdirType) : Prop where
  curUsers : after.curUsers = before.curUsers
  levelMax : after.levelMax = before.levelMax
  levelStart : after.levelStart = before.levelStart
  levelEnd : after.levelEnd = before.levelEnd
  levelMod : after.levelMod = before.levelMod
  newline : Free '\n' before.theDir.val → Free '\n' after.theDir.val

section Advances

variable {before middle after vdir : VdirType}

theorem Advances.refl (vdir : VdirType) : Advances vdir vdir := ⟨rfl, rfl, rfl, rfl, rfl, id⟩

theorem Advances.trans (first : Advances before middle) (second : Advances middle after) :
    Advances before after where
  curUsers := second.curUsers.trans first.curUsers
  levelMax := second.levelMax.trans first.levelMax
  levelStart := second.levelStart.trans first.levelStart
  levelEnd := second.levelEnd.trans first.levelEnd
  levelMod := second.levelMod.trans first.levelMod
  newline := fun free => second.newline (first.newline free)

theorem ensures_cellAt_dirlist (index : Int) :
    Ensures (Bigdir.cellAt Bigdir.dirlist index) fun char => char ≠ '\n' := by
  constructor
  intro char read equal
  rw [Bigdir.cellAt] at read
  split at read
  · cases read
  · split at read
    · cases read
    · next found =>
        cases read
        have member := List.mem_of_getElem? found
        rw [equal] at member
        exact absurd member (by decide)

theorem ensures_setCell (dir : DirName) (index : Int) {char : Char} (other : char ≠ '\n') :
    Ensures (Bigdir.setCell dir index char) fun after =>
      Free '\n' dir.val → Free '\n' after.val := by
  rw [Bigdir.setCell]
  split
  · exact ⟨fun _ fault => by cases fault⟩
  · refine ensures_ok fun free member => ?_
    rcases List.mem_or_eq_of_mem_set member with old | new
    · exact free old
    · exact other new.symm

theorem ensures_nextChar (inChar : Char) (inStart inEnd : Int) :
    Ensures (Bigdir.nextChar inChar inStart inEnd) fun char => char ≠ '\n' := by
  rw [Bigdir.nextChar]
  apply ensures_bind (ensures_any _)
  intro index _
  exact ensures_cellAt_dirlist _

theorem ensures_incLevel (vdir : VdirType) (level : Fin 3) :
    Ensures (Bigdir.incLevel vdir level) fun stepped => Advances vdir stepped.1 := by
  rw [Bigdir.incLevel]
  apply ensures_bind (ensures_any _)
  intro char _
  apply ensures_bind (ensures_any _)
  intro ending _
  split
  · apply ensures_bind (ensures_cellAt_dirlist _)
    intro first other
    apply ensures_bind (ensures_setCell vdir.theDir _ other)
    intro dir free
    exact ensures_ok ⟨rfl, rfl, rfl, rfl, rfl, free⟩
  · apply ensures_bind (ensures_nextChar _ _ _)
    intro following other
    apply ensures_bind (ensures_setCell vdir.theDir _ other)
    intro dir free
    exact ensures_ok ⟨rfl, rfl, rfl, rfl, rfl, free⟩

theorem ensures_incDir (vdir : VdirType) (level : Nat) (inside : level < 3) :
    Ensures (Bigdir.incDir vdir level inside) (Advances vdir) := by
  induction level generalizing vdir with
  | zero => exact ensures_map (ensures_incLevel vdir ⟨0, inside⟩)
  | succ level induction =>
      rw [Bigdir.incDir]
      apply ensures_bind (ensures_incLevel vdir ⟨level + 1, inside⟩)
      intro stepped first
      split
      · exact ⟨fun after ran => first.trans ((induction stepped.1 _).holds after ran)⟩
      · exact ensures_ok first

theorem ensures_openLevel (vdir : VdirType) (level : Fin 3) :
    Ensures (Bigdir.openLevel vdir level) (Advances vdir) := by
  rw [Bigdir.openLevel]
  apply ensures_bind (ensures_incDir vdir level.val level.isLt)
  intro stepped first
  apply ensures_map
  rw [Bigdir.strcatSlash]
  apply ensures_bind (ensures_any _)
  intro string _
  apply ensures_bind (ensures_setCell stepped.theDir _ (by decide))
  intro slashed slash
  constructor
  intro dir ended
  have free := (ensures_setCell slashed _ (show nul ≠ '\n' by decide)).holds dir ended
  exact ⟨first.curUsers, first.levelMax, first.levelStart, first.levelEnd, first.levelMod,
    fun before => free (slash (first.newline before))⟩

theorem ensures_atLevelEnd (vdir : VdirType) (level : Fin 3) :
    Ensures (Bigdir.atLevelEnd vdir level) (Advances vdir) := by
  match level with
  | 0 => exact ensures_openLevel vdir 0
  | 1 =>
      rw [Bigdir.atLevelEnd]
      split
      · exact ensures_openLevel vdir 1
      · exact ensures_ok (.refl vdir)
  | 2 => exact ensures_ok (.refl vdir)

theorem ensures_leaveDir (vdir : VdirType) : Ensures (Bigdir.leaveDir vdir) (Advances vdir) := by
  rw [Bigdir.leaveDir]
  apply ensures_bind (ensures_any _)
  intro string _
  split
  · apply ensures_bind (ensures_cellAt_dirlist _)
    intro first other
    apply ensures_bind (ensures_setCell vdir.theDir _ other)
    intro dir free
    apply ensures_map
    constructor
    intro ended set
    have last := (ensures_setCell dir _ (show nul ≠ '\n' by decide)).holds ended set
    exact ⟨rfl, rfl, rfl, rfl, rfl, fun before => last (free before)⟩
  · apply ensures_bind (ensures_any _)
    intro level _
    have ending : Ensures (if vdir.levelIndex level = vdir.levelEnd level then
        Bigdir.atLevelEnd vdir level else .ok vdir) (Advances vdir) := by
      split
      · exact ensures_atLevelEnd vdir level
      · exact ensures_ok (.refl vdir)
    apply ensures_bind ending
    intro stepped first
    apply ensures_bind (ensures_any _)
    intro level _
    exact ⟨fun after ran => first.trans ((ensures_incDir stepped _ level.isLt).holds after ran)⟩

end Advances

/-- What `next_big_dir` does to a value: inside a block of directories it only counts. -/
structure Counted (before after : VdirType) : Prop where
  advances : Advances { before with curUsers := before.curUsers + 1 } after
  first : cstring before.theDir.val = [] → (cstring after.theDir.val).length ≤ 1
  inside : (before.curUsers + 1).toNat % maxUsersPerLevel ≠ 0 →
    after = { before with curUsers := before.curUsers + 1 }

/-- What a control file that is there can give. -/
structure Loaded (vdir : VdirType) : Prop where
  levelStart : vdir.levelStart 2 = vdir.levelStart 1
  levelEnd : vdir.levelEnd 2 = vdir.levelEnd 1
  levelMod : vdir.levelMod 2 = vdir.levelMod 1
  levelIndex : vdir.levelIndex 2 = vdir.levelIndex 1
  newline : Free '\n' vdir.theDir.val

/-- Nothing moves that the file keeps. -/
structure Stays (before after : VdirType) : Prop where
  levelCur : after.levelCur = before.levelCur
  first : after.levelIndex 0 = before.levelIndex 0
  second : after.levelIndex 1 = before.levelIndex 1
  theDir : cstring after.theDir.val = cstring before.theDir.val

/-- The value that is read when the count was given back to the file of another one. -/
structure GivenBack (written read : VdirType) : Prop where
  levelCur : read.levelCur = written.levelCur
  levelMax : read.levelMax = written.levelMax
  levelStart : read.levelStart =
    ![written.levelStart 0, written.levelStart 1, written.levelStart 1]
  levelEnd : read.levelEnd = ![written.levelEnd 0, written.levelEnd 1, written.levelEnd 1]
  levelMod : read.levelMod = ![written.levelMod 0, written.levelMod 1, written.levelMod 1]
  levelIndex : read.levelIndex =
    ![written.levelIndex 0, written.levelIndex 1, written.levelIndex 1]
  curUsers : read.curUsers = BitVec.ofInt 64 (min Decimal.longMax
    (BitVec.ofInt 64 (min Decimal.longMax written.curUsers.toNat) - 1).toNat)
  theDir : Free '\n' (cstring written.theDir.val) → (cstring written.theDir.val).length ≤ 299 →
    cstring read.theDir.val =
      if (cstring written.theDir.val).length ≤ 298 then cstring written.theDir.val else []

section GivenBack

variable {vdir next value : VdirType}

theorem GivenBack.directory (back : GivenBack next value) (loaded : Loaded vdir)
    (counts : Counted vdir next) (fits : (cstring next.theDir.val).length ≤ 299) :
    cstring value.theDir.val =
      if (cstring next.theDir.val).length ≤ 298 then cstring next.theDir.val else [] :=
  back.theDir (fun member => counts.advances.newline loaded.newline
    ((List.takeWhile_sublist _).subset member)) fits

end GivenBack

end Vpopmail
