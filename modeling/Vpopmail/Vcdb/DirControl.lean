import Mathlib.Data.Fin.VecNotation
import Vpopmail.Types
import Vpopmail.Foundation.Buffer
import Vpopmail.Foundation.Decimal

/-! # The directory control file

`read_dir_control` and `write_dir_control` of `vcdb.c`. The file may be
missing. One buffer of `MAX_DIR_NAME` cells takes every line that is read.
-/

namespace Vpopmail.Vcdb

open Vpopmail Text Vpopmail.Stream Buffer

def printTriple (values : Levels) : List Char :=
  Decimal.spellInt (values 0).toInt ++ ' ' :: Decimal.spellInt (values 1).toInt ++
    ' ' :: Decimal.spellInt (values 2).toInt ++ ['\n']

/-- The text of the file that `write_dir_control` prints. -/
def dirControlText (vdir : VdirType) : List Char :=
  Decimal.spellNat vdir.curUsers.toNat ++ ['\n'] ++
    (Decimal.spellInt vdir.levelCur.toInt ++ ['\n']) ++
    (Decimal.spellInt vdir.levelMax.toInt ++ ['\n']) ++
    printTriple vdir.levelStart ++ printTriple vdir.levelEnd ++ printTriple vdir.levelMod ++
    printTriple vdir.levelIndex ++ (cstring vdir.theDir.val ++ ['\n'])

/-- `write_dir_control`, where the temporary file can be opened or not. -/
def writeDirControl (opened : Bool) (file : Option (List Char)) (vdir : VdirType) :
    Int × Option (List Char) :=
  if !opened then (-1, file) else (0, some (dirControlText vdir))

/-- The value of a domain without a control file. -/
def initialDirControl (vdir : VdirType) : VdirType where
  levelCur := 0
  levelMax := 3
  levelStart := fun _ => 0
  levelEnd := fun _ => 61
  levelMod := ![0, 2, 4]
  levelIndex := fun _ => 0
  curUsers := 0
  theDir := ⟨vdir.theDir.val.set 0 nul, by rw [List.length_set]; exact vdir.theDir.property⟩

def readInt (text : List Char) : BitVec 32 := BitVec.ofInt 32 (Decimal.atoi text)

/-- Three numbers of a line. The walk to the third one starts over at the
beginning of the line. -/
def readTriple (cells : List Char) : Checked Levels :=
  (stringAt cells 0).bind fun first =>
    (walkTo ' ' cells 0).bind fun blank =>
      (stringAt cells (blank + 1)).bind fun second =>
        (walkTo ' ' cells 0).bind fun blank =>
          (stringAt cells (blank + 1)).bind fun third =>
            .ok ![readInt first, readInt second, readInt third]

/-- The loop that replaces newlines by terminators. -/
def endAtNewline (cells : List Char) : List Char :=
  (cstring cells).map (fun char => if char = '\n' then nul else char) ++
    cells.drop (cstring cells).length

/-- `fgets` into `dir_control_file`. -/
def nextLine (state : List Char × List Char) : List Char × List Char :=
  fgetsInto maxDirName state.1 state.2

/-- `read_dir_control`. `name` is the content of the buffer that held the name
of the file. -/
def readDirControl (name : List Char) (file : Option (List Char)) (vdir : VdirType) :
    Checked (Int × VdirType) :=
  match file with
  | none => .ok (-1, initialDirControl vdir)
  | some text =>
      let users := nextLine (name, text)
      let cur := nextLine users
      let max := nextLine cur
      let start := nextLine max
      let ends := nextLine start
      let mod := nextLine ends
      let index := nextLine mod
      let skipped := nextLine index
      let dir := nextLine (endAtNewline skipped.1, skipped.2)
      (stringAt users.1 0).bind fun curUsers =>
      (stringAt cur.1 0).bind fun levelCur =>
      (stringAt max.1 0).bind fun levelMax =>
      (readTriple start.1).bind fun levelStart =>
      (readTriple ends.1).bind fun levelEnd =>
      (readTriple mod.1).bind fun levelMod =>
      (readTriple index.1).bind fun levelIndex =>
        .ok (0,
          { levelCur := readInt levelCur
            levelMax := readInt levelMax
            levelStart := levelStart
            levelEnd := levelEnd
            levelMod := levelMod
            levelIndex := levelIndex
            curUsers := BitVec.ofInt 64 (Decimal.atol curUsers)
            theDir := ⟨strncpyCells maxDirName (cstring (endAtNewline dir.1)),
              length_strncpyCells _ _⟩ })

/-! ## Printed lines -/

theorem isLine_spellInt (value : Int) : IsLine (Decimal.spellInt value ++ ['\n']) :=
  isLine_append_newline (Decimal.not_mem_spellInt (by decide) (by decide) value)

theorem free_nul_spellInt (value : Int) : Free nul (Decimal.spellInt value) :=
  Decimal.not_mem_spellInt (by decide) (by decide) value

theorem length_spellInt_toInt_le (word : BitVec 32) :
    (Decimal.spellInt word.toInt).length ≤ 11 :=
  Decimal.length_spellInt_le (BitVec.le_toInt word) BitVec.toInt_lt

theorem readInt_spellInt_append (word : BitVec 32) {rest : List Char}
    (stops : Decimal.Stops rest) : readInt (Decimal.spellInt word.toInt ++ rest) = word :=
  Decimal.ofInt_atoi_spellInt_toInt_append word stops

section Triples

variable (values : Levels)

theorem isLine_printTriple : IsLine (printTriple values) := by
  refine isLine_append_newline ?_
  have digits : ∀ value : Int, Free '\n' (Decimal.spellInt value) := fun value =>
    Decimal.not_mem_spellInt (by decide) (by decide) value
  simp [digits]

theorem free_nul_printTriple : Free nul (printTriple values) := by
  simp only [printTriple, free_append, free_cons, free_nil, and_true]
  refine ⟨⟨⟨free_nul_spellInt _, ?_, free_nul_spellInt _⟩, ?_, free_nul_spellInt _⟩, ?_⟩ <;>
    decide

theorem length_printTriple_lt : (printTriple values).length < maxDirName := by
  have first := length_spellInt_toInt_le (values 0)
  have second := length_spellInt_toInt_le (values 1)
  have third := length_spellInt_toInt_le (values 2)
  simp only [printTriple, List.length_append, List.length_cons, List.length_nil, maxDirName]
  omega

/-- The third number is read from the second one. -/
theorem readTriple_printTriple (cells : List Char) :
    readTriple (storeChunk cells (printTriple values)) =
      .ok ![values 0, values 1, values 1] := by
  let first := Decimal.spellInt (values 0).toInt
  let others := Decimal.spellInt (values 1).toInt ++
    (' ' :: Decimal.spellInt (values 2).toInt ++ ['\n'])
  let beyond := cells.drop ((printTriple values).length + 1)
  have line : printTriple values = first ++ ' ' :: others := by
    simp [printTriple, first, others]
  have lineFree : Free nul (first ++ ' ' :: others) := line ▸ free_nul_printTriple values
  have othersFree : Free nul others := (free_cons.mp (free_append.mp lineFree).2).2
  have stored : storeChunk cells (printTriple values) =
      first ++ ' ' :: (others ++ nul :: beyond) := by
    simp [storeChunk, line, beyond]
  have whole : stringAt (first ++ ' ' :: (others ++ nul :: beyond)) 0 =
      .ok (first ++ ' ' :: others) := by
    have front : stringAt ([] ++ (first ++ ' ' :: others) ++ nul :: beyond)
        ([] : List Char).length = .ok (first ++ ' ' :: others) :=
      stringAt_append_nul lineFree beyond
    simpa using front
  have blankFree : Free ' ' first := Decimal.not_mem_spellInt (by decide) (by decide) _
  have blank : walkTo ' ' (first ++ ' ' :: (others ++ nul :: beyond)) 0 =
      .ok first.length := by
    have walked := walkTo_append_cons blankFree [] (others ++ nul :: beyond)
    simpa using walked
  have rest : stringAt (first ++ ' ' :: (others ++ nul :: beyond)) (first.length + 1) =
      .ok others := by
    have behind : stringAt (first ++ [' '] ++ others ++ nul :: beyond)
        (first ++ [' ']).length = .ok others := stringAt_append_nul othersFree beyond
    simpa using behind
  have firstRead : readInt (first ++ ' ' :: others) = values 0 :=
    readInt_spellInt_append (values 0) (Decimal.stops_cons (by decide))
  have secondRead : readInt others = values 1 :=
    readInt_spellInt_append (values 1) (Decimal.stops_cons (by decide))
  simp only [readTriple, stored, whole, blank, rest, Except.bind, firstRead, secondRead]

end Triples

/-! ## Reading what was written -/

theorem nextLine_line {line : List Char} (isLine : IsLine line)
    (fits : line.length < maxDirName) (cells rest : List Char) :
    nextLine (cells, line ++ rest) = (storeChunk cells line, rest) :=
  fgetsInto_line isLine fits cells rest

theorem stringAt_storeChunk {line : List Char} (free : Free nul line) (cells : List Char) :
    stringAt (storeChunk cells line) 0 = .ok line := by
  have front : stringAt ([] ++ line ++ nul :: cells.drop (line.length + 1))
      ([] : List Char).length = .ok line := stringAt_append_nul free _
  simpa [storeChunk] using front

/-- The directory name that the last two reads leave. -/
def readDir (cells dir : List Char) : List Char :=
  let skipped := nextLine (cells, dir ++ ['\n'])
  cstring (endAtNewline (nextLine (endAtNewline skipped.1, skipped.2)).1)

/-- The value that is read from the file of `vdir`. -/
def recovered (vdir : VdirType) (dir : List Char) : VdirType where
  levelCur := vdir.levelCur
  levelMax := vdir.levelMax
  levelStart := ![vdir.levelStart 0, vdir.levelStart 1, vdir.levelStart 1]
  levelEnd := ![vdir.levelEnd 0, vdir.levelEnd 1, vdir.levelEnd 1]
  levelMod := ![vdir.levelMod 0, vdir.levelMod 1, vdir.levelMod 1]
  levelIndex := ![vdir.levelIndex 0, vdir.levelIndex 1, vdir.levelIndex 1]
  curUsers := BitVec.ofInt 64 (min Decimal.longMax vdir.curUsers.toNat)
  theDir := ⟨strncpyCells maxDirName dir, length_strncpyCells _ _⟩

theorem atol_users (users : BitVec 64) :
    Decimal.atol (Decimal.spellNat users.toNat ++ ['\n']) =
      min Decimal.longMax users.toNat := by
  have stops : Decimal.Stops ['\n'] := Decimal.stops_cons (by decide)
  have read : Decimal.atol (Decimal.spellInt users.toNat ++ ['\n']) =
      max Decimal.longMin (min Decimal.longMax users.toNat) :=
    Decimal.atol_spellInt_append users.toNat stops
  have positive : Decimal.longMin ≤ min Decimal.longMax users.toNat := by
    simp only [Decimal.longMin, Decimal.longMax]
    omega
  rw [max_eq_right positive] at read
  exact read

theorem readDirControl_dirControlText (name : List Char) (vdir before : VdirType) :
    ∃ cells, readDirControl name (some (dirControlText vdir)) before =
      .ok (0, recovered vdir (readDir cells (cstring vdir.theDir.val))) := by
  let users := Decimal.spellNat vdir.curUsers.toNat ++ ['\n']
  let cur := Decimal.spellInt vdir.levelCur.toInt ++ ['\n']
  let max := Decimal.spellInt vdir.levelMax.toInt ++ ['\n']
  have usersLine : IsLine users := isLine_spellInt vdir.curUsers.toNat
  have usersFree : Free nul users := by
    rw [free_append]
    exact ⟨free_nul_spellInt vdir.curUsers.toNat, by decide⟩
  have usersFit : users.length < maxDirName := by
    have bound : vdir.curUsers.toNat < 10 ^ 20 := Nat.lt_trans vdir.curUsers.isLt (by decide)
    have digits := Decimal.length_spellNat_le (by decide) bound
    simp only [users, List.length_append, List.length_cons, List.length_nil, maxDirName]
    omega
  have intLine := fun word : BitVec 32 => isLine_spellInt word.toInt
  have intFree : ∀ word : BitVec 32, Free nul (Decimal.spellInt word.toInt ++ ['\n']) := by
    intro word
    rw [free_append]
    exact ⟨free_nul_spellInt word.toInt, by decide⟩
  have intFit : ∀ word : BitVec 32,
      (Decimal.spellInt word.toInt ++ ['\n']).length < maxDirName := by
    intro word
    have digits := length_spellInt_toInt_le word
    simp only [List.length_append, List.length_cons, List.length_nil, maxDirName]
    omega
  have intRead : ∀ word : BitVec 32,
      readInt (Decimal.spellInt word.toInt ++ ['\n']) = word := fun word =>
    readInt_spellInt_append word (Decimal.stops_cons (by decide))
  have text : dirControlText vdir = users ++ (cur ++ (max ++ (printTriple vdir.levelStart ++
      (printTriple vdir.levelEnd ++ (printTriple vdir.levelMod ++
        (printTriple vdir.levelIndex ++ (cstring vdir.theDir.val ++ ['\n']))))))) := by
    simp [dirControlText, users, cur, max]
  have triple := fun values => nextLine_line (isLine_printTriple values)
    (length_printTriple_lt values)
  have usersNext := nextLine_line usersLine usersFit
  have intNext := fun word => nextLine_line (intLine word) (intFit word)
  have intAt := fun word => stringAt_storeChunk (intFree word)
  refine ⟨[users, cur, max, printTriple vdir.levelStart, printTriple vdir.levelEnd,
    printTriple vdir.levelMod, printTriple vdir.levelIndex].foldl storeChunk name, ?_⟩
  simp only [readDirControl, text, usersNext, cur, max, intNext, triple,
    stringAt_storeChunk usersFree, intAt, readTriple_printTriple, Except.bind, intRead,
    List.foldl_cons, List.foldl_nil]
  simp only [recovered, readDir, users, atol_users]

/-! ## The directory name -/

section DirectoryName

variable {dir : List Char}

theorem map_newline_of_free (newline : Free '\n' dir) :
    dir.map (fun char => if char = '\n' then nul else char) = dir := by
  calc
    dir.map (fun char => if char = '\n' then nul else char) = dir.map id :=
      List.map_congr_left fun char member =>
        if_neg fun equal : char = '\n' => newline (equal ▸ member)
    _ = dir := List.map_id dir

theorem endAtNewline_append_nul (newline : Free '\n' dir) (ended : Free nul dir)
    (beyond : List Char) : endAtNewline (dir ++ nul :: beyond) = dir ++ nul :: beyond := by
  rw [endAtNewline, cstring_append_nul ended, map_newline_of_free newline, List.drop_left]

theorem endAtNewline_storeChunk (newline : Free '\n' dir) (ended : Free nul dir)
    (cells : List Char) :
    ∃ beyond, endAtNewline (storeChunk cells (dir ++ ['\n'])) = dir ++ nul :: beyond := by
  have lineEnded : Free nul (dir ++ ['\n']) := free_append.mpr ⟨ended, by decide⟩
  refine ⟨nul :: cells.drop ((dir ++ ['\n']).length + 1), ?_⟩
  rw [endAtNewline, cstring_storeChunk lineEnded, List.map_append, map_newline_of_free newline,
    storeChunk, List.drop_left]
  simp

/-- A name of at most 298 characters is still in the buffer after the last read,
which finds the end of the file. -/
theorem readDir_short (newline : Free '\n' dir) (ended : Free nul dir)
    (short : dir.length ≤ 298) (cells : List Char) : readDir cells dir = dir := by
  have fits : (dir ++ ['\n']).length < maxDirName := by
    simp only [List.length_append, List.length_cons, List.length_nil, maxDirName]
    omega
  have first := nextLine_line (isLine_append_newline newline) fits cells []
  rw [List.append_nil] at first
  rcases endAtNewline_storeChunk newline ended cells with ⟨beyond, left⟩
  have last : nextLine (dir ++ nul :: beyond, []) = (dir ++ nul :: beyond, []) := rfl
  simp only [readDir, first, left, last, endAtNewline_append_nul newline ended,
    cstring_append_nul ended]

/-- The newline behind a name of 299 characters is read by itself. -/
theorem readDir_long (newline : Free '\n' dir) (long : dir.length = 299)
    (cells : List Char) : readDir cells dir = [] := by
  have taken := takeLine_long newline (Nat.le_of_eq long.symm) ['\n']
  rw [← long, List.take_length, List.drop_length, List.nil_append, long] at taken
  have first : nextLine (cells, dir ++ ['\n']) = (storeChunk cells dir, ['\n']) := by
    cases dir with
    | nil => cases long
    | cons char dir =>
        simp only [nextLine, fgetsInto, fgets, List.cons_append, maxDirName] at taken ⊢
        rw [taken]
  have last : nextLine (endAtNewline (storeChunk cells dir), ['\n']) =
      (storeChunk (endAtNewline (storeChunk cells dir)) ['\n'], []) := rfl
  rcases endAtNewline_storeChunk (free_nil '\n') (free_nil nul)
    (endAtNewline (storeChunk cells dir)) with ⟨beyond, left⟩
  rw [List.nil_append] at left
  simp only [readDir, first, last, left]
  rfl

end DirectoryName

/-! ## Round trips -/

/-- Equal values, whatever stands behind the terminators of the names. -/
structure SameValue (left right : VdirType) : Prop where
  levelCur : left.levelCur = right.levelCur
  levelMax : left.levelMax = right.levelMax
  levelStart : left.levelStart = right.levelStart
  levelEnd : left.levelEnd = right.levelEnd
  levelMod : left.levelMod = right.levelMod
  levelIndex : left.levelIndex = right.levelIndex
  curUsers : left.curUsers = right.curUsers
  theDir : cstring left.theDir.val = cstring right.theDir.val

theorem recovered_levels_eq_iff (values : Levels) :
    ![values 0, values 1, values 1] = values ↔ values 2 = values 1 := by
  constructor
  · intro equal
    exact (congrFun equal 2).symm
  · intro same
    funext level
    match level with
    | 0 => rfl
    | 1 => rfl
    | 2 => exact same.symm

theorem recovered_users_eq_iff (users : BitVec 64) :
    BitVec.ofInt 64 (min Decimal.longMax users.toNat) = users ↔ users.toNat < 2 ^ 63 := by
  by_cases fits : users.toNat < 2 ^ 63
  · have kept : min Decimal.longMax users.toNat = users.toNat := by
      simp only [Decimal.longMax]
      omega
    have same : BitVec.ofInt 64 (users.toNat : Int) = users := by simp
    simp only [kept, same, fits]
  · have clamped : min Decimal.longMax users.toNat = 2 ^ 63 - 1 := by
      simp only [Decimal.longMax]
      omega
    simp only [clamped, fits, iff_false]
    intro equal
    have value := congrArg BitVec.toNat equal
    rw [show (BitVec.ofInt 64 (2 ^ 63 - 1)).toNat = 2 ^ 63 - 1 from rfl] at value
    omega

/-- The control file gives back the value written to it exactly when the count
fits a signed number, the second and the third number of every line are the
same, and the name takes at most 298 characters. -/
theorem readDirControl_writeDirControl_iff (name : List Char) (file : Option (List Char))
    (vdir before : VdirType) (ended : nul ∈ vdir.theDir.val)
    (newline : Free '\n' (cstring vdir.theDir.val)) :
    (∃ after, readDirControl name (writeDirControl true file vdir).2 before = .ok (0, after) ∧
        SameValue after vdir) ↔
      vdir.curUsers.toNat < 2 ^ 63 ∧ vdir.levelStart 2 = vdir.levelStart 1 ∧
        vdir.levelEnd 2 = vdir.levelEnd 1 ∧ vdir.levelMod 2 = vdir.levelMod 1 ∧
        vdir.levelIndex 2 = vdir.levelIndex 1 ∧ (cstring vdir.theDir.val).length ≤ 298 := by
  have nulFree : Free nul (cstring vdir.theDir.val) := free_takeWhile_ne nul _
  have fits := length_cstring_lt ended
  have size : vdir.theDir.val.length = 300 := vdir.theDir.property
  rw [size] at fits
  rcases readDirControl_dirControlText name vdir before with ⟨cells, read⟩
  have written : (writeDirControl true file vdir).2 = some (dirControlText vdir) := rfl
  rw [written, read]
  constructor
  · intro holds
    rcases holds with ⟨after, equal, same⟩
    cases equal
    refine ⟨(recovered_users_eq_iff _).mp same.curUsers,
      (recovered_levels_eq_iff _).mp same.levelStart,
      (recovered_levels_eq_iff _).mp same.levelEnd,
      (recovered_levels_eq_iff _).mp same.levelMod,
      (recovered_levels_eq_iff _).mp same.levelIndex, ?_⟩
    by_contra notShort
    have long : (cstring vdir.theDir.val).length = 299 := by omega
    have lost := same.theDir
    simp only [recovered, readDir_long newline long] at lost
    rw [← lost] at long
    cases long
  · intro holds
    rcases holds with ⟨users, start, ends, mod, index, short⟩
    refine ⟨_, rfl, rfl, rfl, (recovered_levels_eq_iff _).mpr start,
      (recovered_levels_eq_iff _).mpr ends, (recovered_levels_eq_iff _).mpr mod,
      (recovered_levels_eq_iff _).mpr index, (recovered_users_eq_iff _).mpr users, ?_⟩
    simp only [recovered, readDir_short newline nulFree short]
    exact cstring_strncpyCells nulFree fits

/-- A cleared `vdir`, as `open_big_dir` passes it to the reader. -/
def clearedVdir : VdirType where
  levelCur := 0
  levelMax := 0
  levelStart := fun _ => 0
  levelEnd := fun _ => 0
  levelMod := fun _ => 0
  levelIndex := fun _ => 0
  curUsers := 0
  theDir := ⟨List.replicate maxDirName nul, List.length_replicate⟩

/-- A value two levels down, with other numbers on every line. -/
def deeperVdir : VdirType where
  levelCur := 1
  levelMax := 2
  levelStart := ![3, 5, 5]
  levelEnd := ![61, 47, 47]
  levelMod := ![0, 2, 2]
  levelIndex := ![12, 31, 31]
  curUsers := 4097
  theDir := ⟨strncpyCells maxDirName "B/f".toList, length_strncpyCells _ _⟩

theorem roundTrip_deeperVdir :
    ∃ after, readDirControl [] (writeDirControl true none deeperVdir).2 clearedVdir =
      .ok (0, after) ∧ SameValue after deeperVdir :=
  (readDirControl_writeDirControl_iff [] none deeperVdir clearedVdir (by decide +kernel)
    (by decide +kernel)).mpr ⟨by decide, rfl, rfl, rfl, rfl, by decide +kernel⟩

/-- The control value of a domain with its first user. -/
def firstUser : VdirType := { initialDirControl clearedVdir with curUsers := 1 }

/-- Already the first value written comes back with another modulus. -/
theorem firstUser_not_roundTrip :
    (readDirControl [] (writeDirControl true none firstUser).2 clearedVdir).map
        (fun result => (result.1, result.2.levelMod 2)) = .ok (0, 2) ∧
      firstUser.levelMod 2 = 4 ∧
      ¬∃ after, readDirControl [] (writeDirControl true none firstUser).2 clearedVdir =
        .ok (0, after) ∧ SameValue after firstUser := by
  have read : (readDirControl [] (writeDirControl true none firstUser).2 clearedVdir).map
      (fun result => (result.1, result.2.levelMod 2)) = .ok (0, 2) := by decide +kernel
  refine ⟨read, rfl, ?_⟩
  intro holds
  rcases holds with ⟨after, equal, same⟩
  rw [equal, Except.map, Except.ok.injEq, Prod.mk.injEq, same.levelMod] at read
  exact absurd read.2 (by decide)

end Vpopmail.Vcdb
