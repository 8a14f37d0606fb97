import Mathlib.Data.List.Nodup
import Mathlib.Data.List.Perm.Subperm
import Vpopmail.Bigdir
import Vpopmail.Foundation.Words
import Vpopmail.Vcdb.DirControl

/-! # Allocation of hashed directories

The directory of a domain goes through the words over the digits of `dirlist`,
shorter ones before longer ones, and moves on with every hundredth user.
-/

namespace Vpopmail.Bigdir

open Vpopmail Text Buffer Words

abbrev Digit := Fin (61 + 1)

def dirChar (digit : Digit) : Char := dirlist.getD digit.val nul

/-- The path for a word, whose lowest digit names the innermost directory. -/
def spell : List Digit → List Char
  | [] => []
  | [digit] => [dirChar digit]
  | digit :: above => spell above ++ ['/', dirChar digit]

theorem spell_cons {digit : Digit} {above : List Digit} (deeper : above ≠ []) :
    spell (digit :: above) = spell above ++ ['/', dirChar digit] := by
  cases above with
  | nil => exact absurd rfl deeper
  | cons head tail => rfl

/-! ## Cells of the directory -/

/-- The cells for a path, blank behind it. -/
def dirName (path : List Char) : DirName :=
  ⟨strncpyCells maxDirName path, length_strncpyCells _ _⟩

theorem dirName_val {path : List Char} (fits : path.length < maxDirName) :
    (dirName path).val = path ++ nul :: List.replicate (maxDirName - path.length - 1) nul := by
  have room : maxDirName - path.length = maxDirName - path.length - 1 + 1 := by omega
  have whole : (path ++ List.replicate (maxDirName - path.length) nul).length ≤ maxDirName := by
    rw [List.length_append, List.length_replicate]
    omega
  simp only [dirName, strncpyCells]
  rw [List.take_of_length_le whole, room]
  rfl

theorem cellAt_append (before : List Char) (char : Char) (after : List Char) :
    cellAt (before ++ char :: after) before.length = .ok char := by
  have cell : (before ++ char :: after)[before.length]? = some char := by simp
  rw [cellAt, if_neg (Int.not_lt.mpr (Int.natCast_nonneg _)), Int.toNat_natCast, cell]

theorem cellAt_dirName {before : List Char} {char : Char} {after : List Char}
    (fits : (before ++ char :: after).length < maxDirName) :
    cellAt (dirName (before ++ char :: after)).val before.length = .ok char := by
  rw [dirName_val fits, List.append_assoc]
  exact cellAt_append before char _

theorem cellAt_dirName_end {path : List Char} (fits : path.length < maxDirName) :
    cellAt (dirName path).val path.length = .ok nul := by
  rw [dirName_val fits]
  exact cellAt_append path nul _

/-- Writing a cell, described by the cells around it. -/
theorem setCell_eq {dir other : DirName} {before after : List Char} {old new : Char}
    (read : dir.val = before ++ old :: after) (written : other.val = before ++ new :: after) :
    setCell dir before.length new = .ok other := by
  have size := dir.property
  rw [read, List.length_append, List.length_cons] at size
  have bounded : ¬((before.length : Int) < 0 ∨ (maxDirName : Int) ≤ (before.length : Int)) := by
    omega
  have cells : dir.val.set before.length new = other.val := by
    rw [written, read, List.set_append_right _ _ (Nat.le_refl _), Nat.sub_self,
      List.set_cons_zero]
  rw [setCell, if_neg bounded]
  apply congrArg Except.ok
  apply Subtype.ext
  exact cells

theorem setCell_dirName {before : List Char} {old : Char} {after : List Char}
    (fits : (before ++ old :: after).length < maxDirName) (new : Char) :
    setCell (dirName (before ++ old :: after)) before.length new =
      .ok (dirName (before ++ new :: after)) := by
  have same : (before ++ new :: after).length = (before ++ old :: after).length := by simp
  have written := dirName_val (same ▸ fits)
  rw [same, List.append_assoc] at written
  have read := dirName_val fits
  rw [List.append_assoc] at read
  exact setCell_eq read written

theorem setCell_dirName_end {path : List Char} (fits : path.length + 1 < maxDirName)
    (char : Char) :
    setCell (dirName path) path.length char = .ok (dirName (path ++ [char])) := by
  have longer : (path ++ [char]).length = path.length + 1 := List.length_append
  have room : maxDirName - path.length - 1 = maxDirName - (path.length + 1) - 1 + 1 := by omega
  have written := dirName_val (longer ▸ fits)
  rw [longer, List.append_assoc] at written
  have read := dirName_val (Nat.lt_of_succ_lt fits)
  rw [room] at read
  exact setCell_eq read written

theorem setCell_dirName_nul {path : List Char} (fits : path.length < maxDirName) :
    setCell (dirName path) path.length nul = .ok (dirName path) :=
  setCell_eq (dirName_val fits) (dirName_val fits)

theorem stringAt_dirName {path : List Char} (free : Free nul path)
    (fits : path.length < maxDirName) : stringAt (dirName path).val 0 = .ok path := by
  have read : stringAt ([] ++ path ++ nul :: _) ([] : List Char).length = .ok path :=
    stringAt_append_nul free (List.replicate (maxDirName - path.length - 1) nul)
  rw [dirName_val fits]
  exact read

theorem strcatSlash_dirName {path : List Char} (free : Free nul path)
    (fits : path.length + 2 < maxDirName) :
    strcatSlash (dirName path) = .ok (dirName (path ++ ['/'])) := by
  have slash := setCell_dirName_end (Nat.lt_of_succ_lt fits) '/'
  have longer : (path ++ ['/']).length = path.length + 1 := List.length_append
  have terminated := setCell_dirName_nul (longer ▸ Nat.lt_of_succ_lt fits)
  rw [longer] at terminated
  have string := stringAt_dirName free (Nat.lt_of_succ_lt (Nat.lt_of_succ_lt fits))
  rw [strcatSlash, string, Except.bind, slash, Except.bind]
  exact terminated

/-! ## Turning the levels -/

/-- The arrays that no step changes. -/
structure Configured (vdir : VdirType) : Prop where
  start : vdir.levelStart = fun _ => 0
  ends : vdir.levelEnd = fun _ => 61
  mod : ∀ level, (vdir.levelMod level).toInt = 2 * level.val

theorem free_dirChar (digit : Digit) : nul ≠ dirChar digit ∧ '/' ≠ dirChar digit := by
  revert digit
  decide +kernel

theorem dirChar_injective : Function.Injective dirChar := by
  have all : ∀ first second : Digit, dirChar first = dirChar second → first = second := by
    decide +kernel
  exact fun first second => all first second

theorem cellAt_dirlist (digit : Digit) :
    cellAt dirlist (BitVec.ofNat 32 digit.val).toInt = .ok (dirChar digit) := by
  revert digit
  decide +kernel

theorem nextChar_dirChar {digit : Digit} (below : digit ≠ Fin.last 61) :
    nextChar (dirChar digit) 0 61 = .ok (dirChar (digit + 1)) := by
  revert digit
  decide +kernel

theorem nextChar_nul : nextChar nul 0 61 = .ok (dirChar 0) := by
  decide +kernel

section Levels

variable {vdir : VdirType} {level : Fin 3} {before after : List Char}

theorem Configured.position (configured : Configured vdir)
    (position : before.length = 2 * level.val) :
    (vdir.levelMod level).toInt = (before.length : Int) := by
  rw [configured.mod, position]
  rfl

theorem Configured.first (configured : Configured vdir) :
    cellAt dirlist (vdir.levelStart level).toInt = .ok (dirChar 0) := by
  rw [configured.start]
  exact cellAt_dirlist 0

theorem Configured.ending (configured : Configured vdir) :
    cellAt dirlist (vdir.levelEnd level).toInt = .ok (dirChar (Fin.last 61)) := by
  rw [configured.ends]
  exact cellAt_dirlist (Fin.last 61)

theorem incLevel_next (configured : Configured vdir) {digit : Digit}
    (dir : vdir.theDir = dirName (before ++ dirChar digit :: after))
    (fits : (before ++ dirChar digit :: after).length < maxDirName)
    (position : before.length = 2 * level.val) (below : digit ≠ Fin.last 61) :
    incLevel vdir level =
      .ok ({ vdir with
        theDir := dirName (before ++ dirChar (digit + 1) :: after)
        levelIndex := Function.update vdir.levelIndex level (vdir.levelIndex level + 1) },
        false) := by
  have other : dirChar digit ≠ dirChar (Fin.last 61) := fun same =>
    below (dirChar_injective same)
  have following : nextChar (dirChar digit) (vdir.levelStart level).toInt
      (vdir.levelEnd level).toInt = .ok (dirChar (digit + 1)) := by
    rw [configured.start, configured.ends]
    exact nextChar_dirChar below
  simp only [incLevel, configured.position position, dir, cellAt_dirName fits,
    configured.ending, Except.bind, if_neg other, following, setCell_dirName fits]

theorem incLevel_last (configured : Configured vdir)
    (dir : vdir.theDir = dirName (before ++ dirChar (Fin.last 61) :: after))
    (fits : (before ++ dirChar (Fin.last 61) :: after).length < maxDirName)
    (position : before.length = 2 * level.val) :
    incLevel vdir level =
      .ok ({ vdir with
        theDir := dirName (before ++ dirChar 0 :: after)
        levelIndex := Function.update vdir.levelIndex level 0 }, true) := by
  simp only [incLevel, configured.position position, dir, cellAt_dirName fits,
    configured.ending, configured.first, Except.bind, if_true, setCell_dirName fits]
  rw [congrFun configured.start level]

/-- Behind a new slash stands no character yet. -/
theorem incLevel_blank (configured : Configured vdir) (dir : vdir.theDir = dirName before)
    (fits : before.length + 1 < maxDirName) (position : before.length = 2 * level.val) :
    incLevel vdir level =
      .ok ({ vdir with
        theDir := dirName (before ++ [dirChar 0])
        levelIndex := Function.update vdir.levelIndex level (vdir.levelIndex level + 1) },
        false) := by
  have other : nul ≠ dirChar (Fin.last 61) := (free_dirChar _).1
  have following : nextChar nul (vdir.levelStart level).toInt (vdir.levelEnd level).toInt =
      .ok (dirChar 0) := by
    rw [configured.start, configured.ends]
    exact nextChar_nul
  simp only [incLevel, configured.position position, dir,
    cellAt_dirName_end (Nat.lt_of_succ_lt fits), configured.ending, Except.bind, if_neg other,
    following, setCell_dirName_end fits]

end Levels

/-! ## Turning a word -/

/-- The word behind this one, with the carry out of its highest digit dropped. -/
def turned : List Digit → List Digit
  | [] => []
  | digit :: above => if digit = Fin.last 61 then 0 :: turned above else (digit + 1) :: above

def Full (word : List Digit) : Prop := ∀ digit ∈ word, digit = Fin.last 61

/-- What `inc_dir` does to the indices meanwhile. -/
def turnIndex (index : Levels) : List Digit → Levels
  | [] => index
  | digit :: above =>
      let level := Fin.ofNat 3 above.length
      if digit = Fin.last 61 then turnIndex (Function.update index level 0) above
      else Function.update index level (index level + 1)

theorem turned_ne_nil {word : List Digit} (nonempty : word ≠ []) : turned word ≠ [] := by
  cases word with
  | nil => exact absurd rfl nonempty
  | cons digit above =>
      rw [turned]
      split <;> exact List.cons_ne_nil _ _

theorem length_turned (word : List Digit) : (turned word).length = word.length := by
  induction word with
  | nil => rfl
  | cons digit above induction =>
      rw [turned]
      split
      · rw [List.length_cons, List.length_cons, induction]
      · rfl

theorem successor_of_full {word : List Digit} (full : Full word) :
    successor word = 0 :: turned word := by
  induction word with
  | nil => rfl
  | cons digit above induction =>
      rcases List.forall_mem_cons.mp full with ⟨first, others⟩
      rw [first, successor_last, induction others, turned, if_pos rfl]

theorem successor_of_not_full {word : List Digit} (room : ¬Full word) :
    successor word = turned word := by
  induction word with
  | nil => exact absurd (List.forall_mem_nil _) room
  | cons digit above induction =>
      by_cases ending : digit = Fin.last 61
      · have higher : ¬Full above := fun full =>
          room (List.forall_mem_cons.mpr ⟨ending, full⟩)
        rw [ending, successor_last, turned, if_pos rfl, induction higher]
      · rw [successor_of_ne ending, turned, if_neg ending]

theorem length_spell (digit : Digit) (above : List Digit) :
    (spell (digit :: above)).length = 2 * above.length + 1 := by
  induction above generalizing digit with
  | nil => rfl
  | cons head tail induction =>
      rw [spell_cons (List.cons_ne_nil _ _), List.length_append, induction]
      rfl

theorem length_spell_of_ne_nil {word : List Digit} (nonempty : word ≠ []) :
    (spell word).length + 1 = 2 * word.length := by
  cases word with
  | nil => exact absurd rfl nonempty
  | cons digit above =>
      rw [length_spell, List.length_cons]
      omega

theorem free_nul_spell (word : List Digit) : Free nul (spell word) := by
  induction word with
  | nil => exact free_nil nul
  | cons digit above induction =>
      have char : Free nul [dirChar digit] := by
        rw [free_cons]
        exact ⟨(free_dirChar digit).1, free_nil nul⟩
      cases above with
      | nil => exact char
      | cons head tail =>
          rw [spell_cons (List.cons_ne_nil _ _), free_append, free_cons]
          exact ⟨induction, by decide, char⟩

/-- `inc_dir` turns the digits of its level and the levels below it. -/
theorem incDir_spell {above : List Digit} (digit : Digit) (behind : List Char) (vdir : VdirType)
    (configured : Configured vdir) (inside : above.length < 3)
    (dir : vdir.theDir = dirName (spell (digit :: above) ++ behind))
    (fits : (spell (digit :: above) ++ behind).length < maxDirName) :
    incDir vdir above.length inside =
      .ok { vdir with
        theDir := dirName (spell (turned (digit :: above)) ++ behind)
        levelIndex := turnIndex vdir.levelIndex (digit :: above) } := by
  induction above generalizing digit behind vdir with
  | nil =>
      have lowest : ([] : List Char).length = 2 * (0 : Fin 3).val := rfl
      by_cases ending : digit = Fin.last 61
      · rw [ending] at dir fits ⊢
        have step := incLevel_last configured dir fits lowest
        simp only [incDir, List.length_nil, Fin.mk_zero, step]
        rfl
      · have step := incLevel_next configured dir fits lowest ending
        simp only [incDir, List.length_nil, Fin.mk_zero, step, turned, turnIndex, if_neg ending]
        rfl
  | cons head tail induction =>
      let level : Fin 3 := ⟨tail.length + 1, inside⟩
      have split : ∀ (digit : Digit) (above : List Digit), above ≠ [] →
          spell (digit :: above) ++ behind =
            (spell above ++ ['/']) ++ dirChar digit :: behind := by
        intro digit above deeper
        rw [spell_cons deeper]
        simp
      have position : (spell (head :: tail) ++ ['/']).length = 2 * level.val := by
        rw [List.length_append, length_spell]
        rfl
      have sameLevel : Fin.ofNat 3 (head :: tail).length = level :=
        Fin.ext (Nat.mod_eq_of_lt inside)
      have entered : incDir vdir (head :: tail).length inside =
          (incLevel vdir level).bind fun stepped =>
            if stepped.2 then incDir stepped.1 tail.length (Nat.lt_of_succ_lt inside)
            else .ok stepped.1 := rfl
      rw [split digit _ (List.cons_ne_nil _ _)] at dir fits
      by_cases ending : digit = Fin.last 61
      · rw [ending] at dir fits ⊢
        have step := incLevel_last configured dir fits position
        let carried : VdirType :=
          { vdir with
            theDir := dirName (spell (head :: tail) ++ ['/'] ++ dirChar 0 :: behind)
            levelIndex := Function.update vdir.levelIndex level 0 }
        have below := induction head ('/' :: dirChar 0 :: behind) carried
          ⟨configured.start, configured.ends, configured.mod⟩ (Nat.lt_of_succ_lt inside)
          (by simp [carried]) (by simpa using fits)
        rw [turned, if_pos rfl, split 0 _ (turned_ne_nil (List.cons_ne_nil _ _)), turnIndex,
          if_pos rfl, sameLevel, entered, step]
        rw [List.append_cons] at below
        exact below
      · have step := incLevel_next configured dir fits position ending
        rw [turned, if_neg ending, split _ _ (List.cons_ne_nil _ _), turnIndex,
          if_neg ending, sameLevel, entered, step]
        rfl

/-! ## One directory after another -/

theorem ofNat_eq_end_iff (digit : Digit) :
    BitVec.ofNat 32 digit.val = 61 ↔ digit = Fin.last 61 := by
  revert digit
  decide +kernel

theorem ofNat_succ {digit : Digit} (below : digit ≠ Fin.last 61) :
    BitVec.ofNat 32 digit.val + 1 = BitVec.ofNat 32 (digit + 1).val := by
  revert digit
  decide +kernel

/-- The indices of the levels in use. The second one starts at 1 with the second
level, and is in step from the first carry on. With three levels the indices
decide nothing any more. -/
def IndexOf (index : Levels) : List Digit → Prop
  | [] => index 0 = 0 ∧ index 1 = 0
  | [outer] => index 0 = BitVec.ofNat 32 outer.val ∧ index 1 = 0
  | [inner, outer] =>
      index 0 = BitVec.ofNat 32 outer.val ∧
        index 1 =
          if outer = 0 then BitVec.ofNat 32 inner.val + 1 else BitVec.ofNat 32 inner.val
  | _ => True

/-- The control value at a word. -/
structure Odometer (vdir : VdirType) (word : List Digit) : Prop where
  configured : Configured vdir
  dir : vdir.theDir = dirName (spell word)
  cur : vdir.levelCur = BitVec.ofNat 32 (word.length - 1)
  index : IndexOf vdir.levelIndex word
  short : word.length ≤ 3

theorem indexOf_turned {index : Levels} {word : List Digit} (holds : IndexOf index word)
    (room : ¬Full word) : IndexOf (turnIndex index word) (turned word) := by
  match word with
  | [] => exact absurd (List.forall_mem_nil _) room
  | [outer] =>
      have below : outer ≠ Fin.last 61 := fun ending => room (by simp [Full, ending])
      rw [turned, if_neg below, turnIndex, if_neg below]
      refine ⟨?_, holds.2⟩
      rw [← ofNat_succ below, ← holds.1]
      rfl
  | [inner, outer] =>
      have first : Fin.ofNat 3 [outer].length = 1 := rfl
      have second : Fin.ofNat 3 ([] : List Digit).length = 0 := rfl
      by_cases ending : inner = Fin.last 61
      · have below : outer ≠ Fin.last 61 := fun full => room (by simp [Full, ending, full])
        have positive : outer + 1 ≠ 0 := by
          intro zero
          have value := val_succ_of_ne_last below
          rw [zero] at value
          cases value
        rw [turned, if_pos ending, turned, if_neg below, turnIndex, if_pos ending, turnIndex,
          if_neg below, first, second]
        refine ⟨?_, ?_⟩
        · rw [Function.update_self, Function.update_of_ne (by decide), holds.1, ofNat_succ below]
        · rw [Function.update_of_ne (by decide), Function.update_self, if_neg positive]
          rfl
      · rw [turned, if_neg ending, turnIndex, if_neg ending, first]
        refine ⟨?_, ?_⟩
        · rw [Function.update_of_ne (by decide)]
          exact holds.1
        · rw [Function.update_self, holds.2, ← ofNat_succ ending]
          split <;> rfl
  | innermost :: inner :: outer :: above =>
      have long : 3 ≤ (turned (innermost :: inner :: outer :: above)).length := by
        rw [length_turned]
        simp
      revert long
      match turned (innermost :: inner :: outer :: above) with
      | [] => simp
      | [_] => simp
      | [_, _] => simp
      | _ :: _ :: _ :: _ => exact fun _ => trivial

theorem levelAt_ofNat (level : Fin 3) : levelAt (BitVec.ofNat 32 level.val) = .ok level := by
  revert level
  decide +kernel

/-- Below its last digit a level goes on as it is. -/
theorem atLevelEnd_of_not_full {vdir : VdirType} {digit : Digit} {above : List Digit}
    (holds : Odometer vdir (digit :: above)) (room : ¬Full (digit :: above))
    (inside : above.length < 3) :
    (if vdir.levelIndex ⟨above.length, inside⟩ = vdir.levelEnd ⟨above.length, inside⟩ then
      atLevelEnd vdir ⟨above.length, inside⟩ else .ok vdir) = .ok vdir := by
  have index := holds.index
  have ends := holds.configured.ends
  match above with
  | [] =>
      have below : digit ≠ Fin.last 61 := fun ending => room (by simp [Full, ending])
      have different : ¬vdir.levelIndex 0 = vdir.levelEnd 0 := by
        rw [index.1, ends, ofNat_eq_end_iff]
        exact below
      exact if_neg different
  | [outer] =>
      have notBoth :
          ¬(vdir.levelIndex 0 = vdir.levelEnd 0 ∧ vdir.levelIndex 1 = vdir.levelEnd 1) := by
        intro both
        rw [index.1, index.2, ends, ofNat_eq_end_iff] at both
        rcases both with ⟨outerEnd, innerEnd⟩
        rw [outerEnd, if_neg (by decide), ofNat_eq_end_iff] at innerEnd
        exact room (by simp [Full, outerEnd, innerEnd])
      have stays : atLevelEnd vdir 1 = .ok vdir := if_neg notBoth
      exact (ite_congr rfl (fun _ => stays) (fun _ => rfl)).trans (ite_self _)
  | [_, _] => exact ite_self _
  | _ :: _ :: _ :: _ => exact absurd inside (by simp)

theorem atLevelEnd_of_full {vdir : VdirType} {digit : Digit} {above : List Digit}
    (holds : Odometer vdir (digit :: above)) (full : Full (digit :: above))
    (inside : above.length < 3) (room : above.length < 2) :
    (if vdir.levelIndex ⟨above.length, inside⟩ = vdir.levelEnd ⟨above.length, inside⟩ then
      atLevelEnd vdir ⟨above.length, inside⟩ else .ok vdir) =
        openLevel vdir ⟨above.length, inside⟩ := by
  have index := holds.index
  have ends := holds.configured.ends
  match above with
  | [] =>
      have ended : vdir.levelIndex 0 = vdir.levelEnd 0 := by
        rw [index.1, ends, ofNat_eq_end_iff]
        exact full digit List.mem_cons_self
      exact if_pos ended
  | [outer] =>
      rcases List.forall_mem_cons.mp full with ⟨innerEnd, others⟩
      have outerEnd := others outer List.mem_cons_self
      have outerEnded : vdir.levelIndex 0 = vdir.levelEnd 0 := by
        rw [index.1, ends, ofNat_eq_end_iff]
        exact outerEnd
      have innerEnded : vdir.levelIndex 1 = vdir.levelEnd 1 := by
        rw [index.2, outerEnd, if_neg (by decide), ends, ofNat_eq_end_iff]
        exact innerEnd
      have opens : atLevelEnd vdir 1 = openLevel vdir 1 := if_pos ⟨outerEnded, innerEnded⟩
      exact (if_pos innerEnded).trans opens
  | _ :: _ :: _ => exact absurd room (by simp)

theorem length_spell_lt {word : List Digit} (short : word.length ≤ 3) :
    (spell word).length + 2 < maxDirName := by
  cases word with
  | nil => decide
  | cons digit above =>
      rw [length_spell, maxDirName]
      rw [List.length_cons] at short
      omega

theorem Odometer.stringAt {vdir : VdirType} {word : List Digit} (holds : Odometer vdir word) :
    Buffer.stringAt vdir.theDir.val 0 = .ok (spell word) := by
  have fits := length_spell_lt holds.short
  rw [holds.dir]
  exact stringAt_dirName (free_nul_spell word) (by omega)

theorem Odometer.levelAt {vdir : VdirType} {digit : Digit} {above : List Digit}
    (holds : Odometer vdir (digit :: above)) (inside : above.length < 3) :
    Bigdir.levelAt vdir.levelCur = .ok ⟨above.length, inside⟩ := by
  rw [holds.cur]
  exact levelAt_ofNat ⟨above.length, inside⟩

theorem Odometer.incDir {vdir : VdirType} {digit : Digit} {above : List Digit}
    (holds : Odometer vdir (digit :: above)) (inside : above.length < 3) :
    Bigdir.incDir vdir above.length inside =
      .ok { vdir with
        theDir := dirName (spell (turned (digit :: above)))
        levelIndex := turnIndex vdir.levelIndex (digit :: above) } := by
  have dir := holds.dir
  have fits := length_spell_lt holds.short
  rw [← List.append_nil (spell (digit :: above))] at dir fits
  have step := incDir_spell digit [] vdir holds.configured inside dir (by omega)
  rw [List.append_nil] at step
  exact step

/-- The first directory. -/
theorem leaveDir_nil {vdir : VdirType} (holds : Odometer vdir []) :
    ∃ next, leaveDir vdir = .ok next ∧ Odometer next [0] ∧ next.curUsers = vdir.curUsers := by
  have first : setCell vdir.theDir 0 (dirChar 0) = .ok (dirName [dirChar 0]) := by
    rw [holds.dir]
    exact setCell_dirName_end (by decide) (dirChar 0)
  have ended : setCell (dirName [dirChar 0]) 1 nul = .ok (dirName [dirChar 0]) :=
    setCell_dirName_nul (by decide)
  refine ⟨{ vdir with theDir := dirName [dirChar 0] }, ?_,
    ⟨⟨holds.configured.start, holds.configured.ends, holds.configured.mod⟩, rfl, holds.cur,
      holds.index, by decide⟩, rfl⟩
  rw [leaveDir, holds.stringAt]
  simp only [Except.bind, spell, if_true, holds.configured.first, first, ended, Except.map]

/-- A step on the levels in use. -/
theorem leaveDir_of_not_full {vdir : VdirType} {digit : Digit} {above : List Digit}
    (holds : Odometer vdir (digit :: above)) (room : ¬Full (digit :: above)) :
    ∃ next, leaveDir vdir = .ok next ∧ Odometer next (turned (digit :: above)) ∧
      next.curUsers = vdir.curUsers := by
  have inside : above.length < 3 := holds.short
  have named : spell (digit :: above) ≠ [] := by
    apply List.ne_nil_of_length_pos
    rw [length_spell]
    omega
  let next : VdirType :=
    { vdir with
      theDir := dirName (spell (turned (digit :: above)))
      levelIndex := turnIndex vdir.levelIndex (digit :: above) }
  refine ⟨next, ?_, ⟨⟨holds.configured.start, holds.configured.ends, holds.configured.mod⟩, rfl,
    ?_, indexOf_turned holds.index room, ?_⟩, rfl⟩
  · have stays := atLevelEnd_of_not_full holds room inside
    have level := holds.levelAt inside
    rw [leaveDir, holds.stringAt]
    simp only [Except.bind, if_neg named, level, stays]
    exact holds.incDir inside
  · rw [length_turned]
    exact holds.cur
  · rw [length_turned]
    exact holds.short

theorem Odometer.openLevel {vdir : VdirType} {digit : Digit} {above : List Digit}
    (holds : Odometer vdir (digit :: above)) (inside : above.length < 3) :
    Bigdir.openLevel vdir ⟨above.length, inside⟩ =
      .ok { vdir with
        levelCur := vdir.levelCur + 1
        theDir := dirName (spell (turned (digit :: above)) ++ ['/'])
        levelIndex := turnIndex vdir.levelIndex (digit :: above) } := by
  have short : (turned (digit :: above)).length ≤ 3 := by
    rw [length_turned]
    exact holds.short
  have slash := strcatSlash_dirName (free_nul_spell (turned (digit :: above)))
    (length_spell_lt short)
  rw [Bigdir.openLevel, holds.incDir inside]
  simp only [Except.bind, slash, Except.map]

theorem indexOf_opened {index : Levels} {digit : Digit} {above : List Digit}
    (holds : IndexOf index (digit :: above)) (full : Full (digit :: above)) :
    let turnedIndex := turnIndex index (digit :: above)
    let level := Fin.ofNat 3 (above.length + 1)
    IndexOf (Function.update turnedIndex level (turnedIndex level + 1))
      (0 :: turned (digit :: above)) := by
  rcases List.forall_mem_cons.mp full with ⟨ending, others⟩
  rw [turned, if_pos ending, turnIndex, if_pos ending]
  cases above with
  | nil =>
      have first : Fin.ofNat 3 ([] : List Digit).length = 0 := rfl
      have second : Fin.ofNat 3 (([] : List Digit).length + 1) = 1 := rfl
      refine ⟨rfl, ?_⟩
      rw [turnIndex, first, second, Function.update_self, Function.update_of_ne (by decide),
        holds.2, if_pos rfl]
      rfl
  | cons head tail =>
      rw [turned, if_pos (others head List.mem_cons_self)]
      trivial

/-- A step that opens another level. -/
theorem leaveDir_of_full {vdir : VdirType} {digit : Digit} {above : List Digit}
    (holds : Odometer vdir (digit :: above)) (full : Full (digit :: above))
    (room : above.length < 2) :
    ∃ next, leaveDir vdir = .ok next ∧ Odometer next (0 :: turned (digit :: above)) ∧
      next.curUsers = vdir.curUsers := by
  have inside : above.length < 3 := holds.short
  have deeper : above.length + 1 < 3 := Nat.succ_lt_succ room
  have named : spell (digit :: above) ≠ [] := by
    apply List.ne_nil_of_length_pos
    rw [length_spell]
    omega
  let word := turned (digit :: above)
  let level : Fin 3 := ⟨above.length + 1, deeper⟩
  let opened : VdirType :=
    { vdir with
      levelCur := vdir.levelCur + 1
      theDir := dirName (spell word ++ ['/'])
      levelIndex := turnIndex vdir.levelIndex (digit :: above) }
  let next : VdirType :=
    { opened with
      theDir := dirName (spell word ++ ['/'] ++ [dirChar 0])
      levelIndex := Function.update opened.levelIndex level (opened.levelIndex level + 1) }
  have configured : Configured opened :=
    ⟨holds.configured.start, holds.configured.ends, holds.configured.mod⟩
  have cur : opened.levelCur = BitVec.ofNat 32 level.val := by
    simp only [opened, level, holds.cur, List.length_cons, Nat.add_sub_cancel]
    exact BitVec.ofNat_add_ofNat _ _
  have nonempty : word ≠ [] := turned_ne_nil (List.cons_ne_nil _ _)
  have length : word.length = above.length + 1 := length_turned _
  have size : (spell word ++ ['/']).length = 2 * level.val := by
    rw [List.length_append, List.length_singleton, length_spell_of_ne_nil nonempty, length]
  have entered : incLevel opened level = .ok (next, false) := by
    refine incLevel_blank configured rfl ?_ size
    rw [size, maxDirName]
    omega
  have spelled : spell word ++ ['/'] ++ [dirChar 0] = spell (0 :: word) := by
    rw [spell_cons nonempty]
    simp
  refine ⟨next, ?_, ⟨⟨configured.start, configured.ends, configured.mod⟩, ?_, ?_, ?_, ?_⟩, rfl⟩
  · have opens := atLevelEnd_of_full holds full inside room
    have levelNow : Bigdir.levelAt opened.levelCur = .ok level := by
      rw [cur]
      exact levelAt_ofNat level
    rw [leaveDir, holds.stringAt]
    simp only [Except.bind, if_neg named, holds.levelAt inside, opens, holds.openLevel inside]
    simp only [opened] at levelNow entered
    simp only [levelNow, level, incDir]
    simp only [level] at entered
    rw [entered]
    rfl
  · exact congrArg dirName spelled
  · simp only [next, cur, level, List.length_cons, length, Nat.add_sub_cancel, word]
  · have sameLevel : Fin.ofNat 3 (above.length + 1) = level := Fin.ext (Nat.mod_eq_of_lt deeper)
    have index := indexOf_opened holds.index full
    rw [sameLevel] at index
    exact index
  · rw [List.length_cons, length]
    omega

/-- The directory moves on to the next word. -/
theorem leaveDir_successor {vdir : VdirType} {word : List Digit} (holds : Odometer vdir word)
    (room : (successor word).length ≤ 3) :
    ∃ next, leaveDir vdir = .ok next ∧ Odometer next (successor word) ∧
      next.curUsers = vdir.curUsers := by
  cases word with
  | nil => exact leaveDir_nil holds
  | cons digit above =>
      by_cases full : Full (digit :: above)
      · rw [successor_of_full full] at room ⊢
        rw [List.length_cons, length_turned, List.length_cons] at room
        exact leaveDir_of_full holds full (by omega)
      · rw [successor_of_not_full full]
        exact leaveDir_of_not_full holds full

/-! ## Paths -/

/-- Up to three names of one character each. -/
def WellFormed (dir : List Char) : Prop :=
  ∃ components : List Char, components.length ≤ 3 ∧
    (∀ component ∈ components, component ∈ dirlist) ∧ dir = components.intersperse '/'

theorem intersperse_concat {chars : List Char} (nonempty : chars ≠ []) (char : Char) :
    (chars ++ [char]).intersperse '/' = chars.intersperse '/' ++ ['/', char] := by
  induction chars with
  | nil => exact absurd rfl nonempty
  | cons head tail induction =>
      cases tail with
      | nil => rfl
      | cons next tail =>
          have step := induction (List.cons_ne_nil _ _)
          rw [List.cons_append, List.cons_append, List.intersperse_cons_cons, ← List.cons_append,
            step]
          rfl

theorem spell_eq_intersperse (word : List Digit) :
    spell word = (word.reverse.map dirChar).intersperse '/' := by
  induction word with
  | nil => rfl
  | cons digit above induction =>
      by_cases lowest : above = []
      · rw [lowest]
        rfl
      · have deeper : above.reverse.map dirChar ≠ [] := by simpa using lowest
        rw [spell_cons lowest, induction, List.reverse_cons, List.map_append, List.map_singleton,
          intersperse_concat deeper]

theorem dirChar_mem (digit : Digit) : dirChar digit ∈ dirlist := by
  revert digit
  decide +kernel

theorem wellFormed_spell {word : List Digit} (short : word.length ≤ 3) :
    WellFormed (spell word) := by
  refine ⟨word.reverse.map dirChar, ?_, ?_, spell_eq_intersperse word⟩
  · rw [List.length_map, List.length_reverse]
    exact short
  · intro component member
    rcases List.mem_map.mp member with ⟨digit, _, rfl⟩
    exact dirChar_mem digit

theorem filter_spell (word : List Digit) :
    (spell word).filter (· ≠ '/') = word.reverse.map dirChar := by
  induction word with
  | nil => rfl
  | cons digit above induction =>
      have kept : [dirChar digit].filter (· ≠ '/') = [dirChar digit] := by
        simp [(free_dirChar digit).2.symm]
      by_cases lowest : above = []
      · rw [lowest]
        exact kept
      · have slash : ['/', dirChar digit].filter (· ≠ '/') = [dirChar digit] := kept
        rw [spell_cons lowest, List.filter_append, induction, slash, List.reverse_cons,
          List.map_append, List.map_singleton]

theorem spell_injective : Function.Injective spell := by
  intro first second same
  have chars := congrArg (List.filter (· ≠ '/')) same
  rw [filter_spell, filter_spell] at chars
  exact List.reverse_injective (List.map_injective_iff.mpr dirChar_injective chars)

/-! ## Successive additions -/

/-- The directories of `count` users who are added one after another. -/
def allocate (vdir : VdirType) : (count : Nat) → Checked (List (List Char) × VdirType)
  | 0 => .ok ([], vdir)
  | count + 1 =>
      (allocate vdir count).bind fun earlier =>
        (nextBigDir earlier.2).map fun added => (earlier.1 ++ [added.1], added.2)

/-- The block of the user who comes after `earlier` others. -/
def block (earlier : Nat) : Nat := (earlier + 1) / maxUsersPerLevel

/-- The blocks of all words of up to three digits, and the block without one. -/
def schemeCapacity : Nat := maxUsersPerLevel * (capacity 61 maxDirLevels + 1)

theorem length_word_of_lt {count : Nat} (below : count < schemeCapacity) :
    (word (count / maxUsersPerLevel) : List Digit).length ≤ 3 := by
  apply length_word_le
  have block := Nat.div_lt_of_lt_mul below
  exact Nat.le_of_lt_succ block

/-- After `count` additions. -/
structure Allocated (vdir : VdirType) (count : Nat) : Prop where
  odometer : Odometer vdir (word (count / maxUsersPerLevel))
  users : vdir.curUsers = BitVec.ofNat 64 count

theorem allocated_start : Allocated (Vcdb.initialDirControl Vcdb.clearedVdir) 0 where
  odometer :=
    { configured := ⟨rfl, rfl, by decide⟩
      dir := Subtype.ext (by decide +kernel)
      cur := rfl
      index := ⟨rfl, rfl⟩
      short := by decide }
  users := rfl

theorem incDirControl_allocated {vdir : VdirType} {count : Nat} (holds : Allocated vdir count)
    (below : count + 1 < schemeCapacity) :
    ∃ next, incDirControl vdir = .ok next ∧ Allocated next (count + 1) := by
  have counted : vdir.curUsers + 1 = BitVec.ofNat 64 (count + 1) := by
    rw [holds.users]
    exact BitVec.ofNat_add_ofNat _ _
  have small : count + 1 < 2 ^ 64 := Nat.lt_trans below (by decide +kernel)
  have value : (vdir.curUsers + 1).toNat = count + 1 := by
    rw [counted, BitVec.toNat_ofNat, Nat.mod_eq_of_lt small]
  have odometer : Odometer { vdir with curUsers := vdir.curUsers + 1 }
      (word (count / maxUsersPerLevel)) :=
    ⟨⟨holds.odometer.configured.start, holds.odometer.configured.ends,
      holds.odometer.configured.mod⟩, holds.odometer.dir, holds.odometer.cur,
      holds.odometer.index, holds.odometer.short⟩
  have short := length_word_of_lt below
  by_cases full : (count + 1) % maxUsersPerLevel = 0
  · have nextBlock : (count + 1) / maxUsersPerLevel = count / maxUsersPerLevel + 1 := by
      simp only [maxUsersPerLevel] at full ⊢
      omega
    rw [nextBlock, word] at short
    rcases leaveDir_successor odometer short with ⟨next, left, there, users⟩
    refine ⟨next, ?_, ?_, ?_⟩
    · rw [incDirControl]
      simp only [value, if_pos full, left]
    · rw [nextBlock]
      exact there
    · rw [users]
      exact counted
  · have sameBlock : (count + 1) / maxUsersPerLevel = count / maxUsersPerLevel := by
      simp only [maxUsersPerLevel] at full ⊢
      omega
    refine ⟨{ vdir with curUsers := vdir.curUsers + 1 }, ?_, ?_, counted⟩
    · rw [incDirControl]
      simp only [value, if_neg full]
    · rw [sameBlock]
      exact odometer

theorem nextBigDir_allocated {vdir : VdirType} {count : Nat} (holds : Allocated vdir count)
    (below : count + 1 < schemeCapacity) :
    ∃ next, nextBigDir vdir = .ok (spell (word (block count)), next) ∧
      Allocated next (count + 1) := by
  rcases incDirControl_allocated holds below with ⟨next, stepped, there⟩
  refine ⟨next, ?_, there⟩
  rw [nextBigDir, stepped, Except.bind, there.odometer.stringAt]
  rfl

theorem allocate_eq {count : Nat} (below : count < schemeCapacity) :
    ∃ vdir, allocate (Vcdb.initialDirControl Vcdb.clearedVdir) count =
        .ok ((List.range count).map fun earlier => spell (word (block earlier)), vdir) ∧
      Allocated vdir count := by
  induction count with
  | zero => exact ⟨_, rfl, allocated_start⟩
  | succ count induction =>
      rcases induction (Nat.lt_of_succ_lt below) with ⟨before, earlier, holds⟩
      rcases nextBigDir_allocated holds below with ⟨after, added, there⟩
      refine ⟨after, ?_, there⟩
      rw [allocate, earlier, Except.bind, added, List.range_succ, List.map_append]
      rfl

/-- A block ends after a hundred users. -/
theorem length_block_le (number count : Nat) :
    ((List.range count).filter fun earlier => block earlier = number).length ≤
      maxUsersPerLevel := by
  let users := (List.range count).filter fun earlier => block earlier = number
  have once : (users.map Nat.succ).Nodup :=
    List.Nodup.map Nat.succ_injective (List.Nodup.filter _ List.nodup_range)
  have inside : users.map Nat.succ ⊆ List.range' (maxUsersPerLevel * number) maxUsersPerLevel := by
    intro count member
    rcases List.mem_map.mp member with ⟨earlier, inBlock, rfl⟩
    have same : block earlier = number := by simpa using (List.mem_filter.mp inBlock).2
    simp only [block, maxUsersPerLevel] at same
    rw [List.mem_range'_1]
    simp only [maxUsersPerLevel]
    omega
  have counted := (List.subperm_of_subset once inside).length_le
  rw [List.length_map, List.length_range'] at counted
  exact counted

/-- Below the capacity every user gets a well-formed directory, users of one
block get the same one, and users of different blocks different ones. -/
theorem allocate_blocks {count : Nat} (below : count < schemeCapacity) :
    ∃ dirs vdir, allocate (Vcdb.initialDirControl Vcdb.clearedVdir) count = .ok (dirs, vdir) ∧
      dirs.length = count ∧ (∀ dir ∈ dirs, WellFormed dir) ∧
      (∀ earlier < count, block earlier = 0 → dirs[earlier]? = some []) ∧
      (∀ first < count, ∀ second < count,
        dirs[first]? = dirs[second]? ↔ block first = block second) ∧
      ∀ number, ((List.range count).filter fun earlier => block earlier = number).length ≤
        maxUsersPerLevel := by
  rcases allocate_eq below with ⟨vdir, allocated, _⟩
  have dirAt : ∀ earlier < count,
      ((List.range count).map fun earlier => spell (word (block earlier)))[earlier]? =
        some (spell (word (block earlier))) := by
    intro earlier before
    rw [List.getElem?_map, List.getElem?_range before]
    rfl
  refine ⟨_, vdir, allocated, ?_, ?_, ?_, ?_, fun number => length_block_le number count⟩
  · rw [List.length_map, List.length_range]
  · intro dir member
    rcases List.mem_map.mp member with ⟨earlier, before, rfl⟩
    apply wellFormed_spell
    exact length_word_of_lt (Nat.lt_of_le_of_lt (List.mem_range.mp before) below)
  · intro earlier before first
    rw [dirAt earlier before, first]
    rfl
  · intro first firstBefore second secondBefore
    rw [dirAt first firstBefore, dirAt second secondBefore]
    constructor
    · intro same
      exact word_injective (spell_injective (Option.some.inj same))
    · intro same
      rw [same]

/-- The first two blocks. -/
theorem allocate_blocks_hundred :
    100 < schemeCapacity ∧
      ∃ dirs vdir, allocate (Vcdb.initialDirControl Vcdb.clearedVdir) 100 = .ok (dirs, vdir) ∧
        dirs.length = 100 ∧ (∀ dir ∈ dirs, WellFormed dir) ∧
        (∀ earlier < 100, block earlier = 0 → dirs[earlier]? = some []) ∧
        (∀ first < 100, ∀ second < 100,
          dirs[first]? = dirs[second]? ↔ block first = block second) ∧
        ∀ number, ((List.range 100).filter fun earlier => block earlier = number).length ≤
          maxUsersPerLevel :=
  have below : 100 < schemeCapacity := by decide +kernel
  ⟨below, allocate_blocks below⟩

end Vpopmail.Bigdir
