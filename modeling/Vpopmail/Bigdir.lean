import Vpopmail.Types
import Vpopmail.Foundation.Buffer

/-! # Hashed directories

`bigdir.c`: the directory of the next user, taken from the control value of the
domain.
-/

namespace Vpopmail.Bigdir

open Vpopmail Text Buffer

def dirlist : List Char :=
  "0123456789ABCDEFGHIJKLMNOPQRSTUVWXYZabcdefghijklmnopqrstuvwxyz".toList

/-! ## Arrays -/

/-- `cells[index]`. -/
def cellAt (cells : List Char) (index : Int) : Checked Char :=
  if index < 0 then .error .outOfBounds
  else
    match cells[index.toNat]? with
    | none => .error .outOfBounds
    | some char => .ok char

/-- `the_dir[index] = char`. -/
def setCell (dir : DirName) (index : Int) (char : Char) : Checked DirName :=
  if index < 0 ∨ (maxDirName : Int) ≤ index then .error .outOfBounds
  else
    .ok ⟨dir.val.set index.toNat char, by rw [List.length_set]; exact dir.property⟩

/-- A level as a position of the arrays. -/
def levelAt (level : BitVec 32) : Checked (Fin 3) :=
  if inside : level.toNat < 3 then .ok ⟨level.toNat, inside⟩ else .error .outOfBounds

/-- `strcat(the_dir, "/")`. -/
def strcatSlash (dir : DirName) : Checked DirName :=
  (stringAt dir.val 0).bind fun string =>
    (setCell dir string.length '/').bind fun dir => setCell dir (string.length + 1) nul

/-! ## Steps of the directory -/

/-- The `for` loop of `next_char`, at most `rounds` times. -/
def findChar (char : Char) (inEnd : Int) : (rounds : Nat) → (index : Int) → Checked Int
  | 0, index => .ok index
  | rounds + 1, index =>
      if index < inEnd + 1 then
        (cellAt dirlist index).bind fun other =>
          if other ≠ char then findChar char inEnd rounds (index + 1) else .ok index
      else .ok index

/-- `next_char`. -/
def nextChar (inChar : Char) (inStart inEnd : Int) : Checked Char :=
  (findChar inChar inEnd (inEnd + 1 - inStart).toNat inStart).bind fun index =>
    cellAt dirlist (if inEnd + 1 ≤ index + 1 then inStart else index + 1)

/-- `inc_dir` on one level, and whether it goes on with the level below. -/
def incLevel (vdir : VdirType) (level : Fin 3) : Checked (VdirType × Bool) :=
  let position := (vdir.levelMod level).toInt
  (cellAt vdir.theDir.val position).bind fun char =>
    (cellAt dirlist (vdir.levelEnd level).toInt).bind fun ending =>
      if char = ending then
        (cellAt dirlist (vdir.levelStart level).toInt).bind fun first =>
          (setCell vdir.theDir position first).bind fun dir =>
            .ok ({ vdir with
              theDir := dir
              levelIndex :=
                Function.update vdir.levelIndex level (vdir.levelStart level) }, true)
      else
        (nextChar char (vdir.levelStart level).toInt (vdir.levelEnd level).toInt).bind
          fun following =>
            (setCell vdir.theDir position following).bind fun dir =>
              .ok ({ vdir with
                theDir := dir
                levelIndex :=
                  Function.update vdir.levelIndex level (vdir.levelIndex level + 1) }, false)

/-- `inc_dir`. -/
def incDir (vdir : VdirType) : (inLevel : Nat) → inLevel < 3 → Checked VdirType
  | 0, inside => (incLevel vdir ⟨0, inside⟩).map Prod.fst
  | inLevel + 1, inside =>
      (incLevel vdir ⟨inLevel + 1, inside⟩).bind fun stepped =>
        if stepped.2 then incDir stepped.1 inLevel (Nat.lt_of_succ_lt inside)
        else .ok stepped.1

/-! ## Steps of the control value -/

/-- One more level behind the present ones. -/
def openLevel (vdir : VdirType) (level : Fin 3) : Checked VdirType :=
  (incDir vdir level.val level.isLt).bind fun vdir =>
    (strcatSlash vdir.theDir).map fun dir =>
      { vdir with levelCur := vdir.levelCur + 1, theDir := dir }

/-- The `switch` over the present level, whose index is at its end. -/
def atLevelEnd (vdir : VdirType) (level : Fin 3) : Checked VdirType :=
  match level with
  | 0 => openLevel vdir 0
  | 1 =>
      if vdir.levelIndex 0 = vdir.levelEnd 0 ∧ vdir.levelIndex 1 = vdir.levelEnd 1 then
        openLevel vdir 1
      else .ok vdir
  | 2 => .ok vdir

/-- What `inc_dir_control` does when a directory is full. -/
def leaveDir (vdir : VdirType) : Checked VdirType :=
  (stringAt vdir.theDir.val 0).bind fun string =>
    if string = [] then
      (cellAt dirlist (vdir.levelStart 0).toInt).bind fun first =>
        (setCell vdir.theDir 0 first).bind fun dir =>
          (setCell dir 1 nul).map fun dir => { vdir with theDir := dir }
    else
      (levelAt vdir.levelCur).bind fun level =>
        (if vdir.levelIndex level = vdir.levelEnd level then atLevelEnd vdir level
          else .ok vdir).bind fun vdir =>
            (levelAt vdir.levelCur).bind fun level => incDir vdir level.val level.isLt

/-- `inc_dir_control`. -/
def incDirControl (vdir : VdirType) : Checked VdirType :=
  let vdir := { vdir with curUsers := vdir.curUsers + 1 }
  if vdir.curUsers.toNat % maxUsersPerLevel = 0 then leaveDir vdir else .ok vdir

/-- `next_big_dir`, with the directory it returns. -/
def nextBigDir (vdir : VdirType) : Checked (List Char × VdirType) :=
  (incDirControl vdir).bind fun vdir =>
    (stringAt vdir.theDir.val 0).map fun dir => (dir, vdir)

end Vpopmail.Bigdir
