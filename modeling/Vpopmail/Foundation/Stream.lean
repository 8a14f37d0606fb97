import Vpopmail.Foundation.Text

/-! # Reading a stream line by line

`fgets` hands out a line, or as much of a long line as fits its buffer. The
results below say when a reading loop sees exactly the lines of a file.
-/

namespace Vpopmail.Stream

open Vpopmail.Text

/-- At most `room` characters, and none behind a newline. -/
def takeLine : (room : Nat) → List Char → List Char × List Char
  | 0, stream => ([], stream)
  | _ + 1, [] => ([], [])
  | room + 1, char :: stream =>
      if char = '\n' then ([char], stream)
      else
        let (line, rest) := takeLine room stream
        (char :: line, rest)

/-- `fgets` into a buffer of `size` cells, one of which is the terminator. At
the end of the stream it reports nothing. -/
def fgets (size : Nat) : List Char → Option (List Char × List Char)
  | [] => none
  | stream => some (takeLine (size - 1) stream)

/-- `while (fgets(...) != NULL)`, the results in order. Every round consumes a
character, so the length of the stream bounds the rounds. -/
def fgetsRounds (size : Nat) : (rounds : Nat) → List Char → List (List Char)
  | 0, _ => []
  | rounds + 1, stream =>
      match fgets size stream with
      | none => []
      | some (chunk, rest) => chunk :: fgetsRounds size rounds rest

def fgetsLoop (size : Nat) (stream : List Char) : List (List Char) :=
  fgetsRounds size stream.length stream

/-! ## Lines -/

def IsLine (line : List Char) : Prop :=
  ∃ body, Free '\n' body ∧ line = body ++ ['\n']

theorem isLine_append_newline {body : List Char} (free : Free '\n' body) :
    IsLine (body ++ ['\n']) :=
  ⟨body, free, rfl⟩

theorem IsLine.ne_nil {line : List Char} (isLine : IsLine line) : line ≠ [] := by
  rcases isLine with ⟨body, _, rfl⟩
  simp

theorem takeLine_line {body : List Char} (free : Free '\n' body) {room : Nat}
    (fits : body.length < room) (rest : List Char) :
    takeLine room (body ++ '\n' :: rest) = (body ++ ['\n'], rest) := by
  induction body generalizing room with
  | nil =>
      cases room with
      | zero => simp at fits
      | succ room => simp [takeLine]
  | cons head tail induction =>
      cases room with
      | zero => simp at fits
      | succ room =>
          rw [free_cons] at free
          have tailFits : tail.length < room := by simpa using fits
          have step := induction free.2 tailFits
          simp [takeLine, step, Ne.symm free.1]

/-- A line longer than the room is cut off inside. -/
theorem takeLine_long {body : List Char} (free : Free '\n' body) {room : Nat}
    (long : room ≤ body.length) (rest : List Char) :
    takeLine room (body ++ rest) = (body.take room, body.drop room ++ rest) := by
  induction body generalizing room with
  | nil =>
      have zero : room = 0 := by simpa using long
      simp [zero, takeLine]
  | cons head tail induction =>
      cases room with
      | zero => simp [takeLine]
      | succ room =>
          rw [free_cons] at free
          have tailLong : room ≤ tail.length := by simpa using long
          have step := induction free.2 tailLong
          simp [takeLine, step, Ne.symm free.1]

theorem takeLine_append (room : Nat) (stream : List Char) :
    (takeLine room stream).1 ++ (takeLine room stream).2 = stream := by
  induction room generalizing stream with
  | zero => simp [takeLine]
  | succ room induction =>
      cases stream with
      | nil => simp [takeLine]
      | cons char stream =>
          by_cases newline : char = '\n'
          · simp [takeLine, newline]
          · simpa [takeLine, newline] using induction stream

theorem fgets_line {line : List Char} (isLine : IsLine line) {size : Nat}
    (fits : line.length < size) (rest : List Char) :
    fgets size (line ++ rest) = some (line, rest) := by
  rcases isLine with ⟨body, free, rfl⟩
  have room : body.length < size - 1 := by
    simp only [List.length_append, List.length_singleton] at fits
    omega
  have read := takeLine_line free room rest
  rw [List.append_assoc, List.singleton_append]
  cases body <;> simp_all [fgets]

theorem fgetsRounds_lines {size : Nat} {lines : List (List Char)}
    (fit : ∀ line ∈ lines, IsLine line ∧ line.length < size) {rounds : Nat}
    (enough : lines.length ≤ rounds) :
    fgetsRounds size rounds lines.flatten = lines := by
  induction lines generalizing rounds with
  | nil => cases rounds <;> simp [fgetsRounds, fgets]
  | cons line lines induction =>
      cases rounds with
      | zero => simp at enough
      | succ rounds =>
          have first := fit line (by simp)
          have enoughLeft : lines.length ≤ rounds := by simpa using enough
          have others := induction
            (fun other member => fit other (by simp [member])) enoughLeft
          rw [List.flatten_cons, fgetsRounds, fgets_line first.1 first.2]
          simp only [others]

theorem length_le_length_flatten {lines : List (List Char)}
    (nonempty : ∀ line ∈ lines, line ≠ []) :
    lines.length ≤ lines.flatten.length := by
  induction lines with
  | nil => simp
  | cons line lines induction =>
      have first : 0 < line.length :=
        List.length_pos_iff.mpr (nonempty line (by simp))
      have others := induction fun other member => nonempty other (by simp [member])
      simp only [List.flatten_cons, List.length_append, List.length_cons]
      omega

/-- A reading loop over a file whose lines all fit the buffer sees its lines. -/
theorem fgetsLoop_lines {size : Nat} {lines : List (List Char)}
    (fit : ∀ line ∈ lines, IsLine line ∧ line.length < size) :
    fgetsLoop size lines.flatten = lines :=
  fgetsRounds_lines fit
    (length_le_length_flatten fun line member => (fit line member).1.ne_nil)

/-! ## Streams with longer lines -/

theorem length_takeLine_rest_lt {room : Nat} (positive : 0 < room) (char : Char)
    (stream : List Char) :
    (takeLine room (char :: stream)).2.length < (char :: stream).length := by
  cases room with
  | zero => cases positive
  | succ room =>
      have whole := congrArg List.length (takeLine_append room stream)
      by_cases newline : char = '\n'
      · simp [takeLine, newline]
      · simp only [List.length_append] at whole
        simp only [takeLine, if_neg newline, List.length_cons]
        omega

theorem eq_nil_of_fgets_none {size : Nat} {stream : List Char} (ended : fgets size stream = none) :
    stream = [] := by
  cases stream with
  | nil => rfl
  | cons char stream => cases ended

/-- Every chunk is taken off the stream. -/
theorem length_fgets_rest_lt {size : Nat} (room : 1 < size) {stream chunk rest : List Char}
    (read : fgets size stream = some (chunk, rest)) : rest.length < stream.length := by
  cases stream with
  | nil => cases read
  | cons char stream =>
      have shorter := length_takeLine_rest_lt (Nat.sub_pos_of_lt room) char stream
      have parts : takeLine (size - 1) (char :: stream) = (chunk, rest) :=
        Option.some.inj read
      rwa [parts] at shorter

/-- Rounds that are left over change nothing. -/
theorem fgetsRounds_eq {size : Nat} (room : 1 < size) {rounds others : Nat}
    {stream : List Char} (enough : stream.length ≤ rounds)
    (otherEnough : stream.length ≤ others) :
    fgetsRounds size rounds stream = fgetsRounds size others stream := by
  induction rounds generalizing others stream with
  | zero =>
      have empty : stream = [] := List.length_eq_zero_iff.mp (Nat.le_zero.mp enough)
      cases others <;> simp [fgetsRounds, fgets, empty]
  | succ rounds induction =>
      cases stream with
      | nil => cases others <;> rfl
      | cons char stream =>
          cases others with
          | zero => cases otherEnough
          | succ others =>
              have shorter := length_takeLine_rest_lt (Nat.sub_pos_of_lt room) char stream
              simp only [List.length_cons] at enough otherEnough shorter
              have same : fgetsRounds size rounds (takeLine (size - 1) (char :: stream)).2 =
                  fgetsRounds size others (takeLine (size - 1) (char :: stream)).2 :=
                induction (by omega) (by omega)
              simp only [fgetsRounds, fgets, same]

/-- The loop takes one chunk and goes on with the rest. -/
theorem fgetsLoop_eq {size : Nat} (room : 1 < size) {stream chunk rest : List Char}
    (read : fgets size stream = some (chunk, rest)) :
    fgetsLoop size stream = chunk :: fgetsLoop size rest := by
  cases stream with
  | nil => cases read
  | cons char stream =>
      have shorter := length_takeLine_rest_lt (Nat.sub_pos_of_lt room) char stream
      have parts : takeLine (size - 1) (char :: stream) = (chunk, rest) :=
        Option.some.inj read
      rw [parts] at shorter
      simp only [List.length_cons] at shorter
      rw [fgetsLoop, List.length_cons, fgetsRounds, read]
      simp only [fgetsLoop]
      rw [fgetsRounds_eq room (Nat.le_of_lt_succ shorter) (Nat.le_refl _)]

/-- Lines that fit are handed out as they are, whatever follows them. -/
theorem fgetsLoop_lines_append {size : Nat} (room : 1 < size) {lines : List (List Char)}
    (fit : ∀ line ∈ lines, IsLine line ∧ line.length < size) (rest : List Char) :
    fgetsLoop size (lines.flatten ++ rest) = lines ++ fgetsLoop size rest := by
  induction lines with
  | nil => rfl
  | cons line lines induction =>
      have first := fit line (by simp)
      have others := induction fun other member => fit other (by simp [member])
      rw [List.flatten_cons, List.append_assoc,
        fgetsLoop_eq room (fgets_line first.1 first.2 _), others, List.cons_append]

/-- A longer line is handed out in pieces. -/
theorem fgetsLoop_long {size : Nat} (room : 1 < size) {body : List Char}
    (free : Free '\n' body) (long : size - 1 ≤ body.length) (rest : List Char) :
    fgetsLoop size (body ++ rest) =
      body.take (size - 1) :: fgetsLoop size (body.drop (size - 1) ++ rest) := by
  have read : fgets size (body ++ rest) =
      some (body.take (size - 1), body.drop (size - 1) ++ rest) := by
    cases body with
    | nil =>
        simp only [List.length_nil] at long
        omega
    | cons char body =>
        rw [← takeLine_long free long rest]
        rfl
  exact fgetsLoop_eq room read

/-- Lines are read one by one, whatever is in front of them. -/
theorem fgetsLoop_append_newline {size : Nat} (room : 1 < size) {body : List Char}
    (free : Free '\n' body) (rest : List Char) :
    fgetsLoop size (body ++ '\n' :: rest) =
      fgetsLoop size (body ++ ['\n']) ++ fgetsLoop size rest := by
  induction count : body.length using Nat.strongRecOn generalizing body with
  | ind length induction =>
      rcases Nat.lt_or_ge body.length (size - 1) with short | long
      · have fits : (body ++ ['\n']).length < size := by
          rw [List.length_append, List.length_singleton]
          omega
        have whole := fgets_line (isLine_append_newline free) fits rest
        have alone := fgets_line (isLine_append_newline free) fits []
        rw [List.append_nil] at alone
        rw [List.append_cons, fgetsLoop_eq room whole, fgetsLoop_eq room alone]
        rfl
      · have shorter : (body.drop (size - 1)).length < length := by
          rw [List.length_drop]
          omega
        have later := induction _ shorter
          (fun member => free (List.mem_of_mem_drop member)) rfl
        rw [fgetsLoop_long room free long, fgetsLoop_long room free long, later, List.cons_append]

theorem fgetsLoop_flatten {size : Nat} (room : 1 < size) (stream : List Char) :
    (fgetsLoop size stream).flatten = stream := by
  induction count : stream.length using Nat.strongRecOn generalizing stream with
  | ind length induction =>
      cases stream with
      | nil => rfl
      | cons char stream =>
          have shorter := length_takeLine_rest_lt (Nat.sub_pos_of_lt room) char stream
          have read : fgets size (char :: stream) =
            some (takeLine (size - 1) (char :: stream)) := rfl
          rw [fgetsLoop_eq room read, List.flatten_cons,
            induction _ (count ▸ shorter) _ rfl, takeLine_append]

/-- Lines of a file, whatever follows them. -/
theorem fgetsLoop_flatten_append {size : Nat} (room : 1 < size) {before : List (List Char)}
    (whole : ∀ line ∈ before, IsLine line) (rest : List Char) :
    fgetsLoop size (before.flatten ++ rest) =
      before.flatMap (fgetsLoop size) ++ fgetsLoop size rest := by
  induction before with
  | nil => rfl
  | cons line before induction =>
      rw [List.forall_mem_cons] at whole
      rcases whole.1 with ⟨body, free, rfl⟩
      rw [List.flatten_cons, List.append_assoc, List.append_assoc, List.singleton_append,
        fgetsLoop_append_newline room free, induction whole.2, List.flatMap_cons,
        List.append_assoc]

theorem length_fgetsLoop_le (size : Nat) (stream : List Char) :
    (fgetsLoop size stream).length ≤ stream.length := by
  have bounded : ∀ rounds stream, (fgetsRounds size rounds stream).length ≤ rounds := by
    intro rounds
    induction rounds with
    | zero => exact fun _ => Nat.le_refl _
    | succ rounds induction =>
        intro stream
        rw [fgetsRounds]
        cases fgets size stream with
        | none => exact Nat.zero_le _
        | some read => exact Nat.succ_le_succ (induction read.2)
  exact bounded _ _

theorem ne_nil_of_mem_fgetsLoop {size : Nat} (room : 1 < size) {stream chunk : List Char}
    (member : chunk ∈ fgetsLoop size stream) : chunk ≠ [] := by
  induction count : stream.length using Nat.strongRecOn generalizing stream with
  | ind length induction =>
      cases stream with
      | nil => cases member
      | cons char stream =>
          have shorter := length_takeLine_rest_lt (Nat.sub_pos_of_lt room) char stream
          have whole := congrArg List.length (takeLine_append (size - 1) (char :: stream))
          have read : fgets size (char :: stream) =
            some (takeLine (size - 1) (char :: stream)) := rfl
          rw [fgetsLoop_eq room read] at member
          rcases List.mem_cons.mp member with rfl | later
          · rintro empty
            rw [empty, List.nil_append] at whole
            omega
          · exact induction _ (count ▸ shorter) later rfl

/-! ## The lines of a text -/

/-- The lines of a text without their newlines; the last one may have none. -/
def fileLines : List Char → List (List Char)
  | [] => []
  | char :: rest =>
      if char = '\n' then [] :: fileLines rest
      else
        match fileLines rest with
        | [] => [[char]]
        | line :: lines => (char :: line) :: lines

theorem fileLines_line {body : List Char} (free : Free '\n' body) (rest : List Char) :
    fileLines (body ++ '\n' :: rest) = body :: fileLines rest := by
  induction body with
  | nil => rw [List.nil_append, fileLines, if_pos rfl]
  | cons head tail induction =>
      rw [free_cons] at free
      rw [List.cons_append, fileLines, if_neg (Ne.symm free.1), induction free.2]

theorem fileLines_of_free {body : List Char} (free : Free '\n' body) (nonempty : body ≠ []) :
    fileLines body = [body] := by
  induction body with
  | nil => exact absurd rfl nonempty
  | cons head tail induction =>
      rw [free_cons] at free
      rw [fileLines, if_neg (Ne.symm free.1)]
      cases tail with
      | nil => rfl
      | cons second rest => rw [induction free.2 (List.cons_ne_nil _ _)]

theorem fileLines_flatMap {lines : List (List Char)} (free : ∀ line ∈ lines, Free '\n' line) :
    fileLines (lines.flatMap (· ++ ['\n'])) = lines := by
  induction lines with
  | nil => rfl
  | cons line lines induction =>
      have others := induction fun other member => free other (List.mem_cons_of_mem _ member)
      rw [List.flatMap_cons, List.append_assoc, List.singleton_append,
        fileLines_line (free line List.mem_cons_self), others]

/-- Induction along the lines of a text. -/
theorem lines_induction {motive : List Char → Prop} (empty : motive [])
    (last : ∀ body, Free '\n' body → body ≠ [] → motive body)
    (line : ∀ body rest, Free '\n' body → motive rest → motive (body ++ '\n' :: rest))
    (text : List Char) : motive text := by
  induction size : text.length using Nat.strongRecOn generalizing text with
  | ind size induction =>
      rcases free_or_eq_append_cons '\n' text with free | ⟨body, rest, free, rfl⟩
      · by_cases nonempty : text = []
        · exact nonempty ▸ empty
        · exact last text free nonempty
      · apply line body rest free
        refine induction rest.length ?_ rest rfl
        rw [← size, List.length_append, List.length_cons]
        omega

/-- The characters of a text are those of its lines, and newlines. -/
theorem mem_text_iff {char : Char} (other : char ≠ '\n') (text : List Char) :
    char ∈ text ↔ ∃ line ∈ fileLines text, char ∈ line := by
  induction text using lines_induction with
  | empty => simp [fileLines]
  | last body free nonempty => simp [fileLines_of_free free nonempty]
  | line body rest free induction => simp [fileLines_line free, other, induction]

theorem flatten_fileLines (text : List Char) :
    (fileLines text).flatten = text.filter (· ≠ '\n') := by
  induction text with
  | nil => rfl
  | cons char rest induction =>
      rw [fileLines]
      rcases Classical.em (char = '\n') with rfl | other
      · rw [if_pos rfl, List.flatten_cons, List.nil_append, induction]
        rfl
      · rw [if_neg other, List.filter_cons_of_pos (by simpa using other), ← induction]
        cases fileLines rest <;> rfl

theorem takeLine_of_fits {body : List Char} (free : Free '\n' body) {room : Nat}
    (fits : body.length < room) : takeLine room body = (body, []) := by
  induction body generalizing room with
  | nil => cases room <;> rfl
  | cons head tail induction =>
      cases room with
      | zero => cases fits
      | succ room =>
          rw [free_cons] at free
          have step := induction free.2 (Nat.lt_of_succ_lt_succ fits)
          simp [takeLine, step, Ne.symm free.1]

/-- What ends a line: a newline, or nothing if it is the last one. -/
def Ends (tail : List Char) : Prop := tail = [] ∨ tail = ['\n']

theorem fgetsLoop_short {size : Nat} (room : 1 < size) {body tail : List Char}
    (free : Free '\n' body) (short : body.length < size - 1) (ends : Ends tail)
    (nonempty : body ++ tail ≠ []) : fgetsLoop size (body ++ tail) = [body ++ tail] := by
  rcases ends with rfl | rfl
  · rw [List.append_nil] at nonempty ⊢
    have read : fgets size body = some (body, []) := by
      cases body with
      | nil => exact absurd rfl nonempty
      | cons head tail =>
          rw [fgets, takeLine_of_fits free short]
          exact fun none => by cases none
    rw [fgetsLoop_eq room read]
    rfl
  · have fits : (body ++ ['\n']).length < size := by
      rw [List.length_append, List.length_singleton]
      omega
    have read := fgets_line (isLine_append_newline free) fits []
    rw [List.append_nil] at read
    rw [fgetsLoop_eq room read]
    rfl

theorem takeLine_shape (room : Nat) (stream : List Char) :
    (takeLine room stream).1.length ≤ room ∧
      ∃ body tail, Free '\n' body ∧ Ends tail ∧ (takeLine room stream).1 = body ++ tail := by
  induction room generalizing stream with
  | zero => exact ⟨Nat.le_refl _, [], [], free_nil _, .inl rfl, rfl⟩
  | succ room induction =>
      cases stream with
      | nil => exact ⟨Nat.zero_le _, [], [], free_nil _, .inl rfl, rfl⟩
      | cons char stream =>
          rcases Classical.em (char = '\n') with rfl | other
          · refine ⟨?_, [], ['\n'], free_nil _, .inr rfl, ?_⟩
            · simp [takeLine]
            · simp [takeLine]
          · rcases induction stream with ⟨fits, body, tail, free, ends, equal⟩
            refine ⟨?_, char :: body, tail, free_cons.mpr ⟨Ne.symm other, free⟩, ends, ?_⟩
            · simpa [takeLine, other] using fits
            · simpa [takeLine, other] using equal

theorem length_fgets {size : Nat} (positive : 0 < size) {text chunk rest : List Char}
    (read : fgets size text = some (chunk, rest)) : chunk.length < size := by
  cases text with
  | nil => cases read
  | cons char text =>
      have parts : takeLine (size - 1) (char :: text) = (chunk, rest) := Option.some.inj read
      have fits := (takeLine_shape (size - 1) (char :: text)).1
      rw [parts] at fits
      exact Nat.lt_of_le_pred positive fits

/-- A chunk fits the buffer, and has a newline only at its end. -/
theorem chunk_of_mem_fgetsLoop {size : Nat} (room : 1 < size) {stream chunk : List Char}
    (member : chunk ∈ fgetsLoop size stream) :
    chunk.length < size ∧ ∃ body tail, Free '\n' body ∧ Ends tail ∧ chunk = body ++ tail := by
  induction count : stream.length using Nat.strongRecOn generalizing stream with
  | ind length induction =>
      cases stream with
      | nil => cases member
      | cons char stream =>
          have shorter := length_takeLine_rest_lt (Nat.sub_pos_of_lt room) char stream
          have read : fgets size (char :: stream) =
            some (takeLine (size - 1) (char :: stream)) := rfl
          rw [fgetsLoop_eq room read] at member
          rcases List.mem_cons.mp member with rfl | later
          · rcases takeLine_shape (size - 1) (char :: stream) with ⟨fits, shape⟩
            exact ⟨by omega, shape⟩
          · exact induction _ (count ▸ shorter) later rfl

/-- A reading loop over a text whose lines fit sees its lines, and one that trims them
sees them without newlines. -/
theorem fgetsLoop_trim {size : Nat} (text : List Char)
    (fits : ∀ line ∈ fileLines text, line.length + 1 < size) :
    (fgetsLoop size text).map (fun chunk => chunk.takeWhile (· ≠ '\n')) = fileLines text := by
  induction text using lines_induction with
  | empty => rfl
  | last body free nonempty =>
      rw [fileLines_of_free free nonempty] at fits ⊢
      have short := fits body (List.mem_singleton_self body)
      have read : fgets size body = some (body, []) := by
        cases body with
        | nil => exact absurd rfl nonempty
        | cons head tail =>
            rw [fgets, takeLine_of_fits free (show (head :: tail).length < size - 1 by omega)]
            exact fun none => by cases none
      rw [fgetsLoop_eq (by omega) read, List.map_cons, takeWhile_ne_of_free free]
      rfl
  | line body rest free induction =>
      rw [fileLines_line free] at fits ⊢
      have short := fits body List.mem_cons_self
      have read := fgets_line (isLine_append_newline free)
        (show (body ++ ['\n']).length < size by simpa using short) rest
      have others := induction fun line member => fits line (List.mem_cons_of_mem _ member)
      rw [List.append_cons, fgetsLoop_eq (by omega) read, List.map_cons, others,
        takeWhile_ne_append_cons free]

/-! ## Lines with their newlines -/

/-- The lines of a text with their newlines; the last one may have none. -/
def wholeLines : List Char → List (List Char)
  | [] => []
  | char :: rest =>
      if char = '\n' then [char] :: wholeLines rest
      else
        match wholeLines rest with
        | [] => [[char]]
        | line :: lines => (char :: line) :: lines

theorem wholeLines_line {body : List Char} (free : Free '\n' body) (rest : List Char) :
    wholeLines (body ++ '\n' :: rest) = (body ++ ['\n']) :: wholeLines rest := by
  induction body with
  | nil => rw [List.nil_append, wholeLines, if_pos rfl, List.nil_append]
  | cons head tail induction =>
      rw [free_cons] at free
      rw [List.cons_append, wholeLines, if_neg (Ne.symm free.1), induction free.2]
      rfl

theorem wholeLines_of_free {body : List Char} (free : Free '\n' body) (nonempty : body ≠ []) :
    wholeLines body = [body] := by
  induction body with
  | nil => exact absurd rfl nonempty
  | cons head tail induction =>
      rw [free_cons] at free
      rw [wholeLines, if_neg (Ne.symm free.1)]
      cases tail with
      | nil => rfl
      | cons second rest => rw [induction free.2 (List.cons_ne_nil _ _)]

theorem wholeLines_flatten (text : List Char) : (wholeLines text).flatten = text := by
  induction text using lines_induction with
  | empty => rfl
  | last body free nonempty => rw [wholeLines_of_free free nonempty, List.flatten_singleton]
  | line body rest free induction =>
      rw [wholeLines_line free, List.flatten_cons, induction, List.append_assoc,
        List.singleton_append]

theorem wholeLines_flatten_append {lines : List (List Char)} (whole : ∀ line ∈ lines, IsLine line)
    (rest : List Char) : wholeLines (lines.flatten ++ rest) = lines ++ wholeLines rest := by
  induction lines with
  | nil => rfl
  | cons line lines induction =>
      rcases List.forall_mem_cons.mp whole with ⟨⟨body, free, rfl⟩, others⟩
      rw [List.flatten_cons, List.append_assoc, List.append_assoc, List.singleton_append,
        wholeLines_line free, induction others, List.cons_append]

theorem takeLine_of_le {body : List Char} (free : Free '\n' body) {room : Nat}
    (fits : body.length ≤ room) : takeLine room body = (body, []) := by
  rcases Nat.lt_or_eq_of_le fits with short | exactly
  · exact takeLine_of_fits free short
  · have long := takeLine_long free (Nat.le_of_eq exactly.symm) []
    rwa [List.append_nil, List.take_of_length_le fits, List.drop_of_length_le fits,
      List.append_nil] at long

/-- A reading loop over a text whose lines fit hands them out as they are. -/
theorem fgetsLoop_wholeLines {size : Nat} (room : 1 < size) {text : List Char}
    (fits : ∀ line ∈ wholeLines text, line.length < size) :
    fgetsLoop size text = wholeLines text := by
  induction text using lines_induction with
  | empty => rfl
  | last body free nonempty =>
      rw [wholeLines_of_free free nonempty] at fits ⊢
      have short := fits body (List.mem_singleton_self body)
      have read : fgets size body = some (body, []) := by
        cases body with
        | nil => exact absurd rfl nonempty
        | cons head tail =>
            rw [fgets, takeLine_of_le free (Nat.le_sub_one_of_lt short)]
            exact fun none => by cases none
      rw [fgetsLoop_eq room read]
      rfl
  | line body rest free induction =>
      rw [wholeLines_line free] at fits ⊢
      have read := fgets_line (isLine_append_newline free) (fits _ List.mem_cons_self) rest
      have others := induction fun line member => fits line (List.mem_cons_of_mem _ member)
      rw [List.append_cons, fgetsLoop_eq room read, others]

/-! ## The pieces of a line -/

/-- A line is handed out in full pieces without a newline and a last one with it. -/
theorem exists_pieces {size : Nat} (room : 1 < size) {body : List Char} (free : Free '\n' body) :
    ∃ front last, fgetsLoop size (body ++ ['\n']) = front ++ [last] ∧
      (∀ piece ∈ front, piece.length = size - 1 ∧ Free '\n' piece) ∧
        last.length ≤ size - 1 ∧ ['\n'] <:+ last := by
  induction count : body.length using Nat.strongRecOn generalizing body with
  | ind length induction =>
      rcases Nat.lt_or_ge body.length (size - 1) with short | long
      · refine ⟨[], body ++ ['\n'], ?_, fun piece member => (by cases member), ?_,
          List.suffix_append _ _⟩
        · exact fgetsLoop_short room free short (.inr rfl) (by simp)
        · rw [List.length_append, List.length_singleton]
          exact short
      · have shorter : (body.drop (size - 1)).length < length := by
          rw [List.length_drop]
          omega
        rcases induction _ shorter (fun member => free (List.mem_of_mem_drop member)) rfl with
          ⟨front, last, pieces, full, fits, ended⟩
        refine ⟨body.take (size - 1) :: front, last, ?_, ?_, fits, ended⟩
        · rw [fgetsLoop_long room free long, pieces, List.cons_append]
        · intro piece member
          rcases List.mem_cons.mp member with rfl | later
          · exact ⟨List.length_take_of_le long, fun inside => free (List.mem_of_mem_take inside)⟩
          · exact full piece later

theorem length_flatten_of_full {size : Nat} {pieces : List (List Char)}
    (full : ∀ piece ∈ pieces, piece.length = size) :
    pieces.flatten.length = pieces.length * size := by
  rw [List.length_flatten, List.map_congr_left full, List.map_const', List.sum_replicate_nat]

/-! ## Counting pieces -/

/-- A line is handed out at once exactly if it fits. -/
theorem length_fgetsLoop_line {size : Nat} (room : 1 < size) {line : List Char}
    (single : wholeLines line = [line]) :
    1 ≤ (fgetsLoop size line).length ∧
      ((fgetsLoop size line).length = 1 ↔ line.length < size) := by
  have flat := fgetsLoop_flatten room line
  have nonempty : line ≠ [] := by
    rintro rfl
    cases single
  constructor
  · apply List.length_pos_iff.mpr
    intro empty
    rw [empty] at flat
    exact nonempty flat.symm
  · constructor
    · intro one
      rcases List.length_eq_one_iff.mp one with ⟨piece, pieces⟩
      rw [pieces, List.flatten_singleton] at flat
      have inside : piece ∈ fgetsLoop size line := by
        rw [pieces]
        exact List.mem_singleton_self piece
      have short := (chunk_of_mem_fgetsLoop room inside).1
      rwa [flat] at short
    · intro fits
      have whole : fgetsLoop size line = wholeLines line := by
        apply fgetsLoop_wholeLines room
        rw [single]
        intro other member
        rwa [List.mem_singleton.mp member]
      rw [whole, single, List.length_singleton]

theorem wholeLines_newline {body : List Char} (free : Free '\n' body) :
    wholeLines (body ++ ['\n']) = [body ++ ['\n']] := wholeLines_line free []

theorem length_wholeLines (text : List Char) :
    (wholeLines text).length = (fileLines text).length := by
  induction text using lines_induction with
  | empty => rfl
  | last body free nonempty =>
      rw [wholeLines_of_free free nonempty, fileLines_of_free free nonempty,
        List.length_singleton]
  | line body rest free induction =>
      rw [wholeLines_line free, fileLines_line free, List.length_cons, List.length_cons, induction]

/-- There are as many pieces as lines exactly if all lines fit, and more otherwise. -/
theorem length_fgetsLoop {size : Nat} (room : 1 < size) (text : List Char) :
    (fileLines text).length ≤ (fgetsLoop size text).length ∧
      ((fgetsLoop size text).length = (fileLines text).length ↔
        ∀ line ∈ wholeLines text, line.length < size) := by
  induction text using lines_induction with
  | empty => exact ⟨Nat.le_refl _, fun _ line member => (by cases member), fun _ => rfl⟩
  | last body free nonempty =>
      have single := wholeLines_of_free free nonempty
      have pieces := length_fgetsLoop_line room single
      rw [single, fileLines_of_free free nonempty, List.length_singleton,
        List.forall_mem_singleton]
      exact pieces
  | line body rest free induction =>
      have pieces := length_fgetsLoop_line room (wholeLines_newline free)
      rw [wholeLines_line free, fileLines_line free, fgetsLoop_append_newline room free,
        List.length_append, List.length_cons, List.forall_mem_cons, ← pieces.2, ← induction.2]
      constructor
      · omega
      · omega

end Vpopmail.Stream
