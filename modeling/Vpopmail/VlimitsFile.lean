import Vpopmail.Vlimits
import Vpopmail.Foundation.Buffer

/-! # The limits file

`vlimits_read_limits_file` reads the file in pieces into a buffer and hands its
lines to the parser. A limits file that was written fits the buffer whole.
-/

namespace Vpopmail

open Text Vpopmail.Stream Buffer

def limitsBufSize : Nat := 2048

/-- The locals of `vlimits_read_limits_file`. `file` is what is left to read of
the open file, `head` and `tail` are the positions `h` and `t`. -/
structure LimitsReader where
  file : Option (List Char)
  buf : List Char
  inBytes : Nat
  head : Nat
  tail : Nat
  limits : Vlimits

namespace LimitsReader

/-- Read more unless the buffer is full. The terminator behind the new bytes
may fall outside the buffer. -/
def refill (reader : LimitsReader) : Checked LimitsReader :=
  match reader.file with
  | none => .ok reader
  | some rest =>
      if reader.inBytes < limitsBufSize then
        let chunk := rest.take (limitsBufSize - reader.inBytes)
        let inBytes := reader.inBytes + chunk.length
        if chunk = [] then .ok { reader with file := none }
        else if inBytes < limitsBufSize then
          .ok { reader with
            file := some (rest.drop chunk.length)
            buf := reader.buf.take reader.inBytes ++ chunk ++ nul :: reader.buf.drop (inBytes + 1)
            inBytes := inBytes }
        else .error .outOfBounds
      else .ok reader

def inLine (char : Char) : Bool := char ≠ nul && char ≠ '\n' && char ≠ '\r'

/-- What a round does with the bytes in the buffer, and whether another one
follows. -/
def scan (reader : LimitsReader) : Checked (LimitsReader × Bool) :=
  let head := reader.head +
    (((reader.buf.take reader.inBytes).drop reader.head).takeWhile inLine).length
  match reader.buf[head]? with
  | none => .error .outOfBounds
  | some char =>
      if char ≠ '\n' ∧ char ≠ '\r' then
        if reader.file.isSome then
          if limitsBufSize ≤ reader.inBytes then .ok (reader, false)
          else if limitsBufSize < reader.tail + head then .error .outOfBounds
          else
            .ok ({ reader with
              -- the length is taken from the start of the buffer, not from `t`
              buf := (reader.buf.drop reader.tail).take head ++ reader.buf.drop head
              inBytes := head
              head := 0
              tail := 0 }, true)
        else
          (stringAt reader.buf reader.tail).map fun line =>
            ({ reader with limits := applyLine reader.limits line }, false)
      else
        let buf := reader.buf.set head nul
        .ok ({ reader with
          buf := buf
          head := head + 1
          tail := head + 1
          limits := applyLine reader.limits (cstring (buf.drop reader.tail)) }, true)

/-- One round of the loop. -/
def round (reader : LimitsReader) : Checked (LimitsReader × Bool) :=
  reader.refill.bind scan

/-- At most `rounds` rounds of the loop. -/
def run : (rounds : Nat) → LimitsReader → Option (Checked (Int × Vlimits))
  | 0, _ => none
  | rounds + 1, reader =>
      match reader.round with
      | .error fault => some (.error fault)
      | .ok (reader, true) => run rounds reader
      | .ok (reader, false) => some (.ok (0, reader.limits))

end LimitsReader

/-- `vlimits_read_limits_file`, with the cells of the buffer as they happen to
be. Every round reads a character, closes the file or leaves a line behind. -/
def vlimitsReadLimitsFile (buf : List Char) (file : Option (List Char)) (limits : Vlimits) :
    Option (Checked (Int × Vlimits)) :=
  match file with
  | none => some (.ok (-1, limits))
  | some text => LimitsReader.run (2 * text.length + 3) ⟨some text, buf, 0, 0, 0, limits⟩

namespace LimitsReader

/-! ## Lines in the buffer -/

def InLine (line : List Char) : Prop := line.all inLine = true

def lineEnd (char : Char) : Bool := char = '\n' || char = '\r'

theorem inLine_lineEnd {char : Char} (ends : lineEnd char = true) : inLine char = false := by
  rw [lineEnd, Bool.or_eq_true, decide_eq_true_eq, decide_eq_true_eq] at ends
  rcases ends with rfl | rfl <;> rfl

theorem free_nul_of_inLine {line : List Char} (inside : InLine line) : Free nul line := by
  intro member
  exact absurd (List.all_eq_true.mp inside nul member) (by decide)

/-- The search for the end of a line, as long as the line is among the bytes that were read. -/
theorem takeWhile_inLine {line : List Char} (inside : InLine line) {stop : Char}
    (stops : inLine stop = false) (rest : List Char) {count : Nat} (within : line.length ≤ count) :
    ((line ++ stop :: rest).take count).takeWhile inLine = line := by
  rw [List.take_append, List.take_of_length_le within,
    List.takeWhile_append_of_pos (List.all_eq_true.mp inside)]
  cases count - line.length with
  | zero => exact List.append_nil line
  | succ more => rw [List.take_succ_cons, List.takeWhile_cons_of_neg (by rw [stops]; decide),
      List.append_nil]

/-- Behind a line that the parser got. -/
def passed (reader : LimitsReader) (line : List Char) : LimitsReader :=
  { reader with
    buf := reader.buf.set (reader.tail + line.length) nul
    head := reader.tail + line.length + 1
    tail := reader.tail + line.length + 1
    limits := applyLine reader.limits line }

section Scans

variable {reader : LimitsReader} {line : List Char} {stop : Char} {rest : List Char}

/-- Where the search stops. -/
theorem searched (inside : InLine line) (stops : inLine stop = false)
    (here : reader.buf.drop reader.tail = line ++ stop :: rest)
    (within : reader.tail + line.length ≤ reader.inBytes) :
    ((reader.buf.take reader.inBytes).drop reader.tail).takeWhile inLine = line ∧
      reader.buf[reader.tail + line.length]? = some stop := by
  constructor
  · rw [List.drop_take, here]
    exact takeWhile_inLine inside stops rest (by omega)
  · rw [← List.getElem?_drop, here]
    simp

/-- A line with its end goes to the parser. -/
theorem scan_ended (begun : reader.head = reader.tail) (inside : InLine line)
    (stops : lineEnd stop = true) (here : reader.buf.drop reader.tail = line ++ stop :: rest)
    (within : reader.tail + line.length ≤ reader.inBytes) :
    reader.scan = .ok (reader.passed line, true) ∧
      (reader.passed line).buf.drop (reader.passed line).tail = rest := by
  have walked := searched inside (inLine_lineEnd stops) here within
  have ended : (reader.buf.set (reader.tail + line.length) nul).drop reader.tail =
      line ++ nul :: rest := by
    rw [List.drop_set, if_neg (by omega), Nat.add_sub_cancel_left, here,
      List.set_append_right _ _ (Nat.le_refl _), Nat.sub_self, List.set_cons_zero]
  have noBreak : ¬(stop ≠ '\n' ∧ stop ≠ '\r') := by
    rw [lineEnd, Bool.or_eq_true, decide_eq_true_eq, decide_eq_true_eq] at stops
    rintro ⟨notNewline, notReturn⟩
    exact stops.elim notNewline notReturn
  constructor
  · simp only [scan, begun, walked.1, walked.2, ended,
      cstring_append_nul (free_nul_of_inLine inside), if_neg noBreak, passed]
  · simp only [passed]
    rw [Nat.add_assoc, ← List.drop_drop, ended, ← List.drop_drop, List.drop_left]
    rfl

/-- The last line has no end. -/
theorem scan_last (begun : reader.head = reader.tail) (inside : InLine line)
    (closed : reader.file = none) (here : reader.buf.drop reader.tail = line ++ nul :: rest)
    (within : reader.tail + line.length ≤ reader.inBytes) :
    reader.scan = .ok ({ reader with
      head := reader.tail
      file := none
      limits := applyLine reader.limits line }, false) := by
  have walked := searched inside (by rfl) here within
  have string : stringAt reader.buf reader.tail = .ok line := by
    rw [stringAt, here, if_pos (List.mem_append_right _ List.mem_cons_self),
      cstring_append_nul (free_nul_of_inLine inside)]
  have noEnd : nul ≠ '\n' ∧ nul ≠ '\r' := by decide
  simp only [scan, begun, walked.1, walked.2, closed, string, if_pos noEnd]
  rfl

end Scans

def joined (lines : List (List Char)) : List Char :=
  (lines.map fun line => line ++ ['\n']).flatten

/-- The rest of the buffer holds the given lines, and the file has been read. -/
structure Holds (reader : LimitsReader) (lines : List (List Char)) : Prop where
  read : reader.file = none ∨ reader.file = some []
  room : reader.inBytes < limitsBufSize
  begun : reader.head = reader.tail
  ends : reader.inBytes = reader.tail + (joined lines).length
  rest : ∃ beyond, reader.buf.drop reader.tail = joined lines ++ nul :: beyond

/-- Once everything is read, reading again closes the file. -/
theorem Holds.refill {reader : LimitsReader} {lines : List (List Char)}
    (holds : reader.Holds lines) : reader.refill = .ok { reader with file := none } := by
  rcases holds.read with closed | opened
  · rw [LimitsReader.refill, closed]
    simp only [← closed]
  · rw [LimitsReader.refill, opened]
    simp [holds.room]

theorem Holds.close {reader : LimitsReader} {lines : List (List Char)}
    (holds : reader.Holds lines) : Holds { reader with file := none } lines :=
  ⟨.inl rfl, holds.room, holds.begun, holds.ends, holds.rest⟩

theorem Holds.scan_end {reader : LimitsReader} (holds : reader.Holds [])
    (closed : reader.file = none) :
    ∃ last, reader.scan = .ok (last, false) ∧ last.limits = reader.limits := by
  rcases holds.rest with ⟨beyond, rest⟩
  have nothing : InLine (joined []) := rfl
  exact ⟨_, scan_last holds.begun nothing closed rest (Nat.le_of_eq holds.ends.symm), rfl⟩

theorem joined_cons (line : List Char) (lines : List (List Char)) :
    joined (line :: lines) = line ++ '\n' :: joined lines := by
  simp [joined]

theorem Holds.scan_line {reader : LimitsReader} {line : List Char} {lines : List (List Char)}
    (holds : reader.Holds (line :: lines)) (inside : InLine line) :
    ∃ next, reader.scan = .ok (next, true) ∧ next.Holds lines ∧
      next.limits = applyLine reader.limits line := by
  rcases holds.rest with ⟨beyond, rest⟩
  have size := holds.ends
  rw [joined_cons, List.append_assoc, List.cons_append] at rest
  rw [joined_cons, List.length_append, List.length_cons] at size
  rcases scan_ended holds.begun inside (by rfl) rest (by omega) with ⟨scanned, left⟩
  exact ⟨_, scanned, ⟨holds.read, holds.room, rfl, by simp only [passed]; omega, beyond, left⟩, rfl⟩

/-- The loop hands every line to the parser and ends with the last one. -/
theorem run_of_holds {lines : List (List Char)} (inside : ∀ line ∈ lines, InLine line) :
    ∀ (reader : LimitsReader) (rounds : Nat), reader.Holds lines → lines.length < rounds →
      run rounds reader = some (.ok (0, lines.foldl applyLine reader.limits)) := by
  induction lines with
  | nil =>
      intro reader rounds holds enough
      cases rounds with
      | zero => cases enough
      | succ rounds =>
          rcases holds.close.scan_end rfl with ⟨last, ended, limits⟩
          rw [run, round, holds.refill, Except.bind, ended]
          simp only [limits, List.foldl_nil]
  | cons line lines induction =>
      intro reader rounds holds enough
      rcases List.forall_mem_cons.mp inside with ⟨first, others⟩
      cases rounds with
      | zero => cases enough
      | succ rounds =>
          rcases holds.close.scan_line first with ⟨next, goesOn, holdsNext, limits⟩
          rw [run, round, holds.refill, Except.bind, goesOn, List.foldl_cons, ← limits]
          exact induction others next rounds holdsNext (Nat.lt_of_succ_lt_succ enough)

/-- A file that is not empty and leaves room for the terminator is read in one
piece. -/
theorem refill_whole {text : List Char} (filled : text ≠ [])
    (short : text.length < limitsBufSize) (buf : List Char) (limits : Vlimits) :
    refill ⟨some text, buf, 0, 0, 0, limits⟩ =
      .ok ⟨some [], text ++ nul :: buf.drop (text.length + 1), text.length, 0, 0, limits⟩ := by
  have whole : text.take limitsBufSize = text := List.take_of_length_le (Nat.le_of_lt short)
  have positive : 0 < limitsBufSize := by decide
  simp only [refill, Nat.sub_zero, whole, filled, if_pos positive, Nat.zero_add, if_pos short,
    List.drop_length, List.take_zero, List.nil_append, if_false]

theorem run_file {lines : List (List Char)} (inside : ∀ line ∈ lines, InLine line)
    (filled : lines ≠ []) (short : (joined lines).length < limitsBufSize)
    (buf : List Char) (limits : Vlimits) :
    vlimitsReadLimitsFile buf (some (joined lines)) limits =
      some (.ok (0, lines.foldl applyLine limits)) := by
  cases lines with
  | nil => exact absurd rfl filled
  | cons line lines =>
      let start : LimitsReader :=
        ⟨some [], joined (line :: lines) ++ nul :: buf.drop ((joined (line :: lines)).length + 1),
          (joined (line :: lines)).length, 0, 0, limits⟩
      have holds : start.Holds (line :: lines) :=
        ⟨.inr rfl, short, rfl, (Nat.zero_add _).symm, _, rfl⟩
      rcases List.forall_mem_cons.mp inside with ⟨first, others⟩
      rcases holds.scan_line first with ⟨next, goesOn, holdsNext, read⟩
      have notEmpty : joined (line :: lines) ≠ [] := by
        rw [joined_cons]
        exact List.append_ne_nil_of_right_ne_nil _ (List.cons_ne_nil _ _)
      have opened := refill_whole notEmpty short buf limits
      have enough : lines.length < 2 * (joined (line :: lines)).length + 2 := by
        have counted : ((line :: lines).map fun line => line ++ ['\n']).length ≤ _ :=
          length_le_length_flatten (by simp)
        rw [List.length_map, List.length_cons] at counted
        simp only [joined]
        omega
      rw [vlimitsReadLimitsFile, run, round, opened, Except.bind]
      simp only [start] at goesOn
      rw [goesOn, List.foldl_cons, ← read]
      exact run_of_holds others next _ holdsNext enough

end LimitsReader

/-! ## Files that were written -/

open LimitsReader

/-- A line that the writer prints. -/
inductive WrittenLine : List Char → Prop
  | number (setting : Setting) (value : BitVec 32) : WrittenLine (numberLine setting.name value)
  | name (setting : Setting) : WrittenLine setting.name.toList

theorem Setting.inLine_name (setting : Setting) : InLine setting.name.toList := by
  cases setting with
  | flag which => cases which <;> rfl
  | _ => rfl

theorem Setting.length_name_le (setting : Setting) : setting.name.toList.length ≤ 25 := by
  cases setting with
  | flag which => cases which <;> decide
  | _ => decide

theorem WrittenLine.inLine {line : List Char} (written : WrittenLine line) : InLine line := by
  cases written with
  | name setting => exact setting.inLine_name
  | number setting value =>
      have digits : InLine (Decimal.spellInt value.toInt) := by
        apply List.all_eq_true.mpr
        intro char member
        have notNul : char ≠ nul := fun equal =>
          Decimal.not_mem_spellInt (by decide) (by decide) _ (equal ▸ member)
        have notNewline : char ≠ '\n' := fun equal =>
          Decimal.not_mem_spellInt (by decide) (by decide) _ (equal ▸ member)
        have notReturn : char ≠ '\r' := fun equal =>
          Decimal.not_mem_spellInt (by decide) (by decide) _ (equal ▸ member)
        simp [LimitsReader.inLine, notNul, notNewline, notReturn]
      have separator : InLine ": ".toList := rfl
      simp only [InLine, numberLine, List.all_append, Bool.and_eq_true]
      exact ⟨⟨setting.inLine_name, separator⟩, digits⟩

theorem WrittenLine.length_le {line : List Char} (written : WrittenLine line) :
    line.length ≤ 38 := by
  cases written with
  | name setting => exact Nat.le_trans setting.length_name_le (by decide)
  | number setting value =>
      have nameLength := setting.length_name_le
      have digits := Decimal.length_spellInt_le (value.le_toInt) value.toInt_lt
      have separator : ": ".toList.length = 2 := rfl
      simp only [numberLine, List.length_append, separator]
      omega

theorem flagLine_cases (name : String) (flag : BitVec 16) :
    flagLine name flag = [] ∨ flagLine name flag = [name.toList] := by
  rw [flagLine]
  split
  · exact .inr rfl
  · exact .inl rfl

theorem writtenLine_of_mem (limits : Vlimits) :
    ∀ line ∈ limitsLines limits, WrittenLine line := by
  have numbers : ∀ line ∈ numberLines limits, WrittenLine line := by
    simp [numberLines, WrittenLine.number]
  have masks : ∀ line ∈ maskLines limits, WrittenLine line := by
    simp [maskLines, WrittenLine.number]
  have flags : ∀ line ∈ flagLines limits, WrittenLine line := by
    intro line member
    rcases List.mem_flatMap.mp member with ⟨which, _, inside⟩
    rcases flagLine_cases (Setting.flag which).name (which.get limits) with clear | set
    · rw [clear] at inside
      cases inside
    · rw [set, List.mem_singleton] at inside
      rw [inside]
      exact .name _
  rw [limitsLines_eq]
  exact List.forall_mem_append.mpr ⟨List.forall_mem_append.mpr ⟨numbers, flags⟩, masks⟩

theorem length_limitsLines_le (limits : Vlimits) : (limitsLines limits).length ≤ 26 := by
  have flags : (flagLines limits).length ≤ writtenFlags.length := by
    rw [flagLines]
    induction writtenFlags with
    | nil => exact Nat.le_refl 0
    | cons first flags induction =>
        have one : (flagLine (Setting.flag first).name (first.get limits)).length ≤ 1 := by
          rcases flagLine_cases (Setting.flag first).name (first.get limits) with clear | set
          · simp [clear]
          · simp [set]
        rw [List.flatMap_cons, List.length_append, List.length_cons]
        omega
  have ten : writtenFlags.length = 10 := rfl
  have nine : (numberLines limits).length = 9 := rfl
  have seven : (maskLines limits).length = 7 := rfl
  rw [limitsLines_eq, List.length_append, List.length_append]
  omega

theorem length_joined_le {size : Nat} {lines : List (List Char)}
    (bounded : ∀ line ∈ lines, line.length ≤ size) :
    (joined lines).length ≤ lines.length * (size + 1) := by
  induction lines with
  | nil => simp [joined]
  | cons line lines induction =>
      rcases List.forall_mem_cons.mp bounded with ⟨first, others⟩
      have step := induction others
      rw [joined_cons, List.length_append, List.length_cons, List.length_cons, Nat.succ_mul]
      omega

theorem length_limitsText_lt (limits : Vlimits) :
    (joined (limitsLines limits)).length < limitsBufSize := by
  have lines := length_joined_le fun line member =>
    (writtenLine_of_mem limits line member).length_le
  have count := Nat.mul_le_mul_right 39 (length_limitsLines_le limits)
  exact Nat.lt_of_le_of_lt (Nat.le_trans lines count) (by decide)

/-- What the reader makes of a written file: everything comes back, but for the
two masks that are packed into `perm_quota` and looked for in `perm_maillist`. -/
theorem read_limitsText {limits : Vlimits} (valid : limits.Valid) (buf : List Char) :
    vlimitsReadLimitsFile buf (some (limitsText limits)) vdefaultLimits =
      some (.ok (0, { limits with permMaillistUsers := 0, permMaillistModerators := 0 })) := by
  have inside : ∀ line ∈ limitsLines limits, InLine line := fun line member =>
    (writtenLine_of_mem limits line member).inLine
  have filled : limitsLines limits ≠ [] := by
    rw [limitsLines]
    exact List.cons_ne_nil _ _
  have read := run_file inside filled (length_limitsText_lt limits) buf vdefaultLimits
  rw [foldl_limitsLines valid] at read
  exact read

/-- Limits written to a file are read back as they were exactly when the masks
for mailing list users and moderators are 0. -/
theorem readLimitsFile_writeLimitsFile_iff {limits : Vlimits} (valid : limits.Valid)
    (buf : List Char) (file : Option (List Char)) :
    vlimitsReadLimitsFile buf (vlimitsWriteLimitsFile true file limits).2 vdefaultLimits =
        some (.ok (0, limits)) ↔
      limits.permMaillistUsers = 0 ∧ limits.permMaillistModerators = 0 := by
  have written : (vlimitsWriteLimitsFile true file limits).2 = some (limitsText limits) := rfl
  rw [written, read_limitsText valid]
  constructor
  · intro same
    have equal := (Prod.mk.inj (Except.ok.inj (Option.some.inj same))).2
    exact ⟨(congrArg Vlimits.permMaillistUsers equal).symm,
      (congrArg Vlimits.permMaillistModerators equal).symm⟩
  · intro clear
    have kept : ∀ users moderators : BitVec 16, limits.permMaillistUsers = users →
        limits.permMaillistModerators = moderators →
        { limits with
          permMaillistUsers := users
          permMaillistModerators := moderators } = limits := by
      intro users moderators usersSame moderatorsSame
      rw [← usersSame, ← moderatorsSame]
    rw [kept 0 0 clear.1 clear.2]

/-- Limits with permissions and without moderators. -/
def exampleLimits : Vlimits :=
  { vdefaultLimits with
    maxaliases := 20
    diskquota := 1000
    disablePop := 1
    permAlias := 5
    permQuota := 7 }

theorem exampleLimits_valid : exampleLimits.Valid where
  flag which := by cases which <;> decide
  permAccount := by decide
  permAlias := by decide
  permForward := by decide
  permAutoresponder := by decide
  permMaillist := by decide
  permMaillistUsers := by decide
  permMaillistModerators := by decide
  permQuota := by decide
  permDefaultquota := by decide

theorem readLimitsFile_writeLimitsFile_exampleLimits :
    exampleLimits.Valid ∧
      (vlimitsReadLimitsFile [] (vlimitsWriteLimitsFile true none exampleLimits).2 vdefaultLimits =
          some (.ok (0, exampleLimits)) ↔
        exampleLimits.permMaillistUsers = 0 ∧ exampleLimits.permMaillistModerators = 0) :=
  ⟨exampleLimits_valid, readLimitsFile_writeLimitsFile_iff exampleLimits_valid [] none⟩

/-- Permissions on mailing list users are lost on the way. -/
theorem maillistUsers_not_readBack :
    Vlimits.Valid { exampleLimits with permMaillistUsers := 7 } ∧
      vlimitsReadLimitsFile []
          (vlimitsWriteLimitsFile true none { exampleLimits with permMaillistUsers := 7 }).2
          vdefaultLimits ≠
        some (.ok (0, { exampleLimits with permMaillistUsers := 7 })) := by
  have valid : Vlimits.Valid { exampleLimits with permMaillistUsers := 7 } :=
    { exampleLimits_valid with
      flag := fun which => by cases which <;> decide
      permMaillistUsers := by decide }
  refine ⟨valid, ?_⟩
  intro same
  have read := read_limitsText valid []
  have equal := (Prod.mk.inj (Except.ok.inj (Option.some.inj (read.symm.trans same)))).2
  have users : (0 : BitVec 16) = 7 := congrArg Vlimits.permMaillistUsers equal
  exact absurd users (by decide)

end Vpopmail
