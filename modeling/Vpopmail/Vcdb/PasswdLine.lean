import Vpopmail.Vcdb.Passwd

/-! # Lines of `vpasswd`

A well-formed line is a list of fields that hold no delimiter. The writers
print such lines, and every reader of the file takes them apart again.
-/

namespace Vpopmail.Vcdb

open Vpopmail Text Vpopmail.Stream Buffer

/-- Text that holds neither a delimiter nor the end of a string. -/
def Plain (text : List Char) : Prop := Free ':' text ∧ Free '\n' text ∧ Free nul text

instance (text : List Char) : Decidable (Plain text) :=
  inferInstanceAs (Decidable (Free ':' text ∧ Free '\n' text ∧ Free nul text))

theorem plain_append {left right : List Char} (leftPlain : Plain left)
    (rightPlain : Plain right) : Plain (left ++ right) :=
  ⟨free_append.mpr ⟨leftPlain.1, rightPlain.1⟩,
    free_append.mpr ⟨leftPlain.2.1, rightPlain.2.1⟩,
    free_append.mpr ⟨leftPlain.2.2, rightPlain.2.2⟩⟩

theorem plain_take {text : List Char} (plain : Plain text) (count : Nat) :
    Plain (text.take count) :=
  ⟨fun member => plain.1 (List.mem_of_mem_take member),
    fun member => plain.2.1 (List.mem_of_mem_take member),
    fun member => plain.2.2 (List.mem_of_mem_take member)⟩

/-- A well-formed line. What follows the seventh delimiter, in builds with
`CLEAR_PASS` the clear password, is never searched for another one. -/
structure Entry where
  name : List Char
  passwd : List Char
  uid : List Char
  gid : List Char
  gecos : List Char
  dir : List Char
  shell : List Char
  clear : Option (List Char)
  plain : ∀ field ∈ [name, passwd, uid, gid, gecos, dir, shell], Plain field
  clearFree : ∀ text ∈ clear, Free '\n' text ∧ Free nul text

/-- The clear password with the delimiter in front of it. -/
def clearTail : Option (List Char) → List Char
  | none => []
  | some clear => ':' :: clear

namespace Entry

variable (entry : Entry)

/-- The part of a line behind the name, which the index holds as data. -/
def data : List Char :=
  entry.passwd ++ ':' :: (entry.uid ++ ':' :: (entry.gid ++ ':' :: (entry.gecos ++
    ':' :: (entry.dir ++ ':' :: (entry.shell ++ clearTail entry.clear)))))

def line : List Char := entry.name ++ ':' :: (entry.data ++ ['\n'])

/-- The record of a line, but for the flags. -/
def record (clear : Option (List Char)) : Vqpasswd where
  pwName := entry.name
  pwPasswd := entry.passwd
  pwUid := BitVec.ofInt 32 (Decimal.atoi entry.uid)
  pwGid := BitVec.ofInt 32 (Decimal.atoi entry.gid)
  pwFlags := 0
  pwGecos := entry.gecos
  pwDir := entry.dir
  pwShell := entry.shell
  pwClearPasswd := clear

theorem name_plain : Plain entry.name := entry.plain _ (by simp)
theorem passwd_plain : Plain entry.passwd := entry.plain _ (by simp)
theorem uid_plain : Plain entry.uid := entry.plain _ (by simp)
theorem gid_plain : Plain entry.gid := entry.plain _ (by simp)
theorem gecos_plain : Plain entry.gecos := entry.plain _ (by simp)
theorem dir_plain : Plain entry.dir := entry.plain _ (by simp)
theorem shell_plain : Plain entry.shell := entry.plain _ (by simp)

theorem free_data {char : Char} (notColon : char ≠ ':')
    (free : ∀ field, Plain field → Free char field)
    (clearFree : ∀ text ∈ entry.clear, Free char text) : Free char entry.data := by
  have tailFree : Free char (clearTail entry.clear) := by
    cases given : entry.clear with
    | none => exact free_nil char
    | some clear => exact free_cons.mpr ⟨notColon, clearFree clear given⟩
  simp only [data, free_append, free_cons]
  exact ⟨free _ entry.passwd_plain, notColon, free _ entry.uid_plain, notColon,
    free _ entry.gid_plain, notColon, free _ entry.gecos_plain, notColon,
    free _ entry.dir_plain, notColon, free _ entry.shell_plain, tailFree⟩

theorem data_free_newline : Free '\n' entry.data :=
  entry.free_data (by decide) (fun _ plain => plain.2.1)
    fun text given => (entry.clearFree text given).1

theorem data_free_nul : Free nul entry.data :=
  entry.free_data (by decide) (fun _ plain => plain.2.2)
    fun text given => (entry.clearFree text given).2

theorem isLine : IsLine entry.line := by
  refine ⟨entry.name ++ ':' :: entry.data, ?_, by simp [line]⟩
  simp only [free_append, free_cons]
  exact ⟨entry.name_plain.2.1, by decide, entry.data_free_newline⟩

theorem line_free_nul : Free nul entry.line := by
  simp only [line, free_append, free_cons]
  exact ⟨entry.name_plain.2.2, by decide, entry.data_free_nul, by decide, free_nil nul⟩

end Entry

/-! ## `auth_getpw` -/

theorem readId_some (text : List Char) :
    readId (some text) = .ok (BitVec.ofInt 32 (Decimal.atoi text)) := by
  cases text <;> rfl

theorem nextField_append_cons {field : List Char} (free : Free ':' field)
    (rest : List Char) :
    nextField (some (field ++ ':' :: rest)) = (some field, some rest) := by
  simp [nextField, cut_append_cons free]

theorem nextField_of_free {field : List Char} (free : Free ':' field) :
    nextField (some field) = (some field, none) := by
  simp [nextField, cut_of_free free]

/-- `auth_getpw` finds every field of a line. -/
theorem parseLine_entry (entry : Entry) :
    parseLine (entry.name ++ ':' :: entry.data) =
      .ok (entry.record (some (entry.clear.getD []))) := by
  have name := fun rest => cut_append_cons entry.name_plain.1 rest
  have passwd := fun rest => nextField_append_cons entry.passwd_plain.1 rest
  have uid := fun rest => nextField_append_cons entry.uid_plain.1 rest
  have gid := fun rest => nextField_append_cons entry.gid_plain.1 rest
  have gecos := fun rest => nextField_append_cons entry.gecos_plain.1 rest
  have dir := fun rest => nextField_append_cons entry.dir_plain.1 rest
  simp only [parseLine, Entry.data, name, passwd, uid, gid, gecos, dir, readId_some]
  cases entry.clear with
  | none =>
      simp only [clearTail, List.append_nil, nextField_of_free entry.shell_plain.1]
      rfl
  | some clear =>
      simp only [clearTail, nextField_append_cons entry.shell_plain.1]
      rfl

/-! ## `vgetent` -/

/-- `vgetent` finds every field of a line, with its newline or without. -/
theorem vgetentLine_ends (build : Build) (entry : Entry) {tail : List Char} (ends : Ends tail) :
    vgetentLine build (entry.name ++ ':' :: (entry.data ++ tail)) =
      some (entry.record (if build.clearPass then some (entry.clear.getD []) else none)) := by
  have name := fun rest => cut_append_cons entry.name_plain.1 rest
  have passwd := fun rest => cut_append_cons entry.passwd_plain.1 rest
  have uid := fun rest => cut_append_cons entry.uid_plain.1 rest
  have gid := fun rest => cut_append_cons entry.gid_plain.1 rest
  have gecos := fun rest => cut_append_cons entry.gecos_plain.1 rest
  have dir := fun rest => cut_append_cons entry.dir_plain.1 rest
  have free : Free nul (entry.name ++ ':' :: (entry.data ++ tail)) := by
    simp only [free_append, free_cons]
    refine ⟨entry.name_plain.2.2, by decide, entry.data_free_nul, ?_⟩
    rcases ends with rfl | rfl <;> decide
  have enough : ¬(entry.name ++ ':' :: (entry.data ++ tail)).count ':' < 6 := by
    simp only [Entry.data, List.count_append, List.count_cons, beq_self_eq_true, if_true]
    omega
  simp only [vgetentLine, cstring_of_free free, if_neg enough]
  simp only [Entry.data, List.append_assoc, List.cons_append, name, passwd, uid, gid, gecos, dir,
    Option.getD_some]
  have shellKept : ∀ char ∈ entry.shell,
      (!(decide (char = ':') || decide (char = '\n'))) = true := by
    intro char member
    have notColon : char ≠ ':' := fun equal => entry.shell_plain.1 (equal ▸ member)
    have notNewline : char ≠ '\n' := fun equal => entry.shell_plain.2.1 (equal ▸ member)
    simp [notColon, notNewline]
  rw [List.takeWhile_append_of_pos shellKept, List.dropWhile_append_of_pos shellKept]
  cases given : entry.clear with
  | none => rcases ends with rfl | rfl <;> simp [Entry.record, clearTail]
  | some clear =>
      have newline := (entry.clearFree clear given).1
      rcases ends with rfl | rfl
      · have clearTaken := takeWhile_ne_of_free newline
        simp only [ne_eq, decide_not] at clearTaken
        simp [clearTail, Entry.record, clearTaken]
      · have clearTaken := takeWhile_ne_append_cons newline []
        simp only [ne_eq, decide_not] at clearTaken
        simp [clearTail, Entry.record, clearTaken]

theorem vgetentLine_entry (build : Build) (entry : Entry) :
    vgetentLine build entry.line =
      some (entry.record (if build.clearPass then some (entry.clear.getD []) else none)) :=
  vgetentLine_ends build entry (.inr rfl)

/-! ## Texts with six delimiters -/

theorem exists_field {text : List Char} {count : Nat} (enough : count + 1 ≤ text.count ':') :
    ∃ field rest, Free ':' field ∧ text = field ++ ':' :: rest ∧ count ≤ rest.count ':' := by
  rcases free_or_eq_append_cons ':' text with free | ⟨field, rest, free, rfl⟩
  · rw [List.count_eq_zero_of_not_mem free] at enough
    cases enough
  · refine ⟨field, rest, free, rfl, ?_⟩
    rw [List.count_append, List.count_eq_zero_of_not_mem free, List.count_cons_self] at enough
    omega

/-- Every line with six delimiters is well-formed. -/
theorem exists_entry {text : List Char} (newline : Free '\n' text) (plain : Free nul text)
    (enough : 6 ≤ text.count ':') : ∃ entry : Entry, entry.line = text ++ ['\n'] := by
  rcases exists_field enough with ⟨name, five, nameFree, rfl, enoughFive⟩
  rcases exists_field enoughFive with ⟨passwd, four, passwdFree, rfl, enoughFour⟩
  rcases exists_field enoughFour with ⟨uid, three, uidFree, rfl, enoughThree⟩
  rcases exists_field enoughThree with ⟨gid, two, gidFree, rfl, enoughTwo⟩
  rcases exists_field enoughTwo with ⟨gecos, one, gecosFree, rfl, enoughOne⟩
  rcases exists_field enoughOne with ⟨dir, text, dirFree, rfl, _⟩
  simp only [free_append, free_cons] at newline plain
  rcases newline with ⟨nameLine, _, passwdLine, _, uidLine, _, gidLine, _, gecosLine, _, dirLine,
    _, textLine⟩
  rcases plain with ⟨namePlain, _, passwdPlain, _, uidPlain, _, gidPlain, _, gecosPlain, _,
    dirPlain, _, textPlain⟩
  have build : ∀ shell clear, Plain shell →
      (∀ text ∈ clear, Free '\n' text ∧ Free nul text) → text = shell ++ clearTail clear →
        ∃ entry : Entry, entry.line =
          name ++ ':' :: (passwd ++ ':' :: (uid ++ ':' :: (gid ++ ':' :: (gecos ++
            ':' :: (dir ++ ':' :: text))))) ++ ['\n'] := by
    intro shell clear shellPlain clearFree rest
    refine ⟨⟨name, passwd, uid, gid, gecos, dir, shell, clear, ?_, clearFree⟩, ?_⟩
    · intro field member
      simp only [List.mem_cons, List.not_mem_nil, or_false] at member
      rcases member with rfl | rfl | rfl | rfl | rfl | rfl | rfl
      exacts [⟨nameFree, nameLine, namePlain⟩, ⟨passwdFree, passwdLine, passwdPlain⟩,
        ⟨uidFree, uidLine, uidPlain⟩, ⟨gidFree, gidLine, gidPlain⟩,
        ⟨gecosFree, gecosLine, gecosPlain⟩, ⟨dirFree, dirLine, dirPlain⟩, shellPlain]
    · simp [Entry.line, Entry.data, rest]
  rcases free_or_eq_append_cons ':' text with free | ⟨shell, clear, free, rfl⟩
  · apply build text none ⟨free, textLine, textPlain⟩ _ (List.append_nil text).symm
    intro other given
    cases given
  · rw [free_append, free_cons] at textLine textPlain
    apply build shell (some clear) ⟨free, textLine.1, textPlain.1⟩ _ rfl
    intro other given
    cases given
    exact ⟨textLine.2.2, textPlain.2.2⟩

/-! ## `make_vpasswd_cdb` -/

/-- A line that the buffer holds is split inside the buffer. -/
theorem splitEntry_storeChunk (entry : Entry) (cells : List Char) :
    splitEntry (storeChunk cells entry.line) =
      .ok ((entry.name, entry.data), entry.name ++ nul :: (entry.data ++
        nul :: nul :: cells.drop (entry.line.length + 1))) := by
  let behind := nul :: cells.drop (entry.line.length + 1)
  have stored : storeChunk cells entry.line =
      [] ++ entry.name ++ ':' :: (entry.data ++ '\n' :: behind) := by
    simp [storeChunk, Entry.line, behind]
  have colon := walkTo_append_cons entry.name_plain.1 [] (entry.data ++ '\n' :: behind)
  have keyed : ([] ++ entry.name ++ ':' :: (entry.data ++ '\n' :: behind)).set
      entry.name.length nul = entry.name ++ (nul :: entry.data) ++ '\n' :: behind := by
    simp [List.set_append_right]
  have walked : Free '\n' (nul :: entry.data) :=
    free_cons.mpr ⟨by decide, entry.data_free_newline⟩
  have newline := walkTo_append_cons walked entry.name behind
  have ended : (entry.name ++ (nul :: entry.data) ++ '\n' :: behind).set
      (entry.name.length + (nul :: entry.data).length) nul =
        entry.name ++ nul :: (entry.data ++ nul :: behind) := by
    rw [← List.length_append, List.set_append_right _ _ (Nat.le_refl _)]
    simp
  have data : (entry.name ++ nul :: (entry.data ++ nul :: behind)).drop
      (entry.name.length + 1) = entry.data ++ nul :: behind := by
    rw [← List.drop_drop, List.drop_left]
    rfl
  simp only [List.length_nil, Nat.zero_add] at colon
  simp only [splitEntry, stored, colon, Except.bind, keyed, newline, ended, data,
    cstring_append_nul entry.name_plain.2.2, cstring_append_nul entry.data_free_nul]
  rfl

theorem hitsEof_line (entry : Entry) : hitsEof entry.line = false := by
  have last : entry.line.getLast? = some '\n' := by
    simp [Entry.line, List.getLast?_cons]
  simp [hitsEof, last]

/-- The pair the index holds for a line. -/
def Entry.pair (entry : Entry) : List Char × List Char := (entry.name, entry.data)

theorem indexChunks_lines (entries : List Entry) (cells : List Char) :
    indexChunks cells (entries.map Entry.line) = .ok (entries.map Entry.pair) := by
  induction entries generalizing cells with
  | nil => rfl
  | cons entry entries induction =>
      rw [List.map_cons, indexChunks, hitsEof_line, if_neg Bool.false_ne_true,
        splitEntry_storeChunk]
      simp only [Except.bind, induction]
      rfl

/-! ## Files of lines -/

/-- The text of a file with the given lines. -/
def vpasswdText (entries : List Entry) : List Char := (entries.map Entry.line).flatten

theorem fgetsLoop_vpasswdText {size : Nat} {entries : List Entry}
    (fit : ∀ entry ∈ entries, entry.line.length < size) :
    fgetsLoop size (vpasswdText entries) = entries.map Entry.line := by
  refine fgetsLoop_lines fun line member => ?_
  rcases List.mem_map.mp member with ⟨entry, entryMember, rfl⟩
  exact ⟨entry.isLine, fit entry entryMember⟩

theorem makeVpasswdCdb_vpasswdText (pwline : Pwline) {entries : List Entry}
    (fit : ∀ entry ∈ entries, entry.line.length < pwlineSize) :
    makeVpasswdCdb pwline (vpasswdText entries) = .ok (entries.map Entry.pair) := by
  rw [makeVpasswdCdb, fgetsLoop_vpasswdText fit, indexChunks_lines]

/-! ## Names -/

theorem lineName_line {delimiter : Char → Bool} (colon : delimiter ':' = true)
    (others : ∀ char, delimiter char = true → char = ':' ∨ char = '\n') {entry : Entry}
    (named : entry.name ≠ []) : lineName delimiter entry.line = .ok entry.name := by
  have plain : ∀ char ∈ entry.name, delimiter char = false := by
    intro char member
    cases delimits : delimiter char with
    | false => rfl
    | true =>
        rcases others char delimits with equal | equal
        · exact absurd (equal ▸ member) entry.name_plain.1
        · exact absurd (equal ▸ member) entry.name_plain.2.1
  have token : strtok delimiter entry.line = some (entry.name, entry.data ++ ['\n']) := by
    rw [Entry.line]
    cases spelled : entry.name with
    | nil => exact absurd spelled named
    | cons head tail =>
        rw [spelled] at plain
        exact strtok_token_append (plain head (by simp))
          (fun char member => plain char (by simp [member])) colon _
  rw [lineName, cstring_of_free entry.line_free_nul, token]

theorem lineName_colon {entry : Entry} (named : entry.name ≠ []) :
    lineName colonDelimits entry.line = .ok entry.name := by
  apply lineName_line rfl ?_ named
  intro char delimits
  exact .inl (by simpa [colonDelimits] using delimits)

theorem lineName_colonNewline {entry : Entry} (named : entry.name ≠ []) :
    lineName colonNewlineDelimits entry.line = .ok entry.name := by
  apply lineName_line rfl ?_ named
  intro char delimits
  simpa [colonNewlineDelimits] using delimits

/-! ## Printed records -/

theorem plain_spellInt (value : Int) : Plain (Decimal.spellInt value) :=
  ⟨Decimal.not_mem_spellInt (by decide) (by decide) value,
    Decimal.not_mem_spellInt (by decide) (by decide) value,
    Decimal.not_mem_spellInt (by decide) (by decide) value⟩

/-- The texts of a record that reach the file are plain. -/
structure PlainRecord (build : Build) (pw : Vqpasswd) : Prop where
  name : Plain pw.pwName
  passwd : Plain pw.pwPasswd
  gecos : Plain pw.pwGecos
  dir : Plain pw.pwDir
  shell : Plain pw.pwShell
  clear : build.clearPass = true → Free '\n' (pw.pwClearPasswd.getD []) ∧
    Free nul (pw.pwClearPasswd.getD [])

/-- The entry that `auth_setpw` prints for a record. -/
def printed {build : Build} {pw : Vqpasswd} (plain : PlainRecord build pw) : Entry where
  name := pw.pwName
  passwd := pw.pwPasswd
  uid := Decimal.spellInt pw.pwUid.toInt
  gid := Decimal.spellInt pw.pwGid.toInt
  gecos := pw.pwGecos
  dir := pw.pwDir
  shell := pw.pwShell
  clear := if build.clearPass then some (pw.pwClearPasswd.getD []) else none
  plain := by
    intro field member
    simp only [List.mem_cons, List.not_mem_nil, or_false] at member
    rcases member with rfl | rfl | rfl | rfl | rfl | rfl | rfl
    exacts [plain.name, plain.passwd, plain_spellInt _, plain_spellInt _, plain.gecos,
      plain.dir, plain.shell]
  clearFree := by
    intro text given
    cases clearPass : build.clearPass with
    | false => simp [clearPass] at given
    | true =>
        rw [if_pos clearPass, Option.mem_def, Option.some.injEq] at given
        exact given ▸ plain.clear clearPass

theorem vpasswdLine_eq_line {build : Build} {pw : Vqpasswd} (plain : PlainRecord build pw) :
    vpasswdLine build pw = (printed plain).line := by
  cases clearPass : build.clearPass <;>
    simp [vpasswdLine, Entry.line, Entry.data, printed, clearTail, clearPass]

/-- Numbers survive printing and reading. -/
theorem record_printed {build : Build} {pw : Vqpasswd} (plain : PlainRecord build pw)
    (clear : Option (List Char)) :
    (printed plain).record clear = { pw with pwFlags := 0, pwClearPasswd := clear } := by
  simp [Entry.record, printed, Decimal.ofInt_atoi_spellInt_toInt]

end Vpopmail.Vcdb
