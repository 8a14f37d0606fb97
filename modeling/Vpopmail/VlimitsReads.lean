import Vpopmail.VlimitsFile

/-! # The limits file in several reads

`read` hands out any part of what is left of the file. The reader takes one part in every
round, as long as the file is open, and makes room for the next one when it finds no whole line.
-/

namespace Vpopmail

open Text Vpopmail.Stream Buffer

namespace LimitsReader

/-- Read more unless the buffer is full. A part that fills the buffer leaves no room for the
terminator, and an empty one is the end of the file. -/
def refillFrom (reader : LimitsReader) (reads : List (List Char)) :
    Checked (LimitsReader × List (List Char)) :=
  if reader.file.isNone ∨ limitsBufSize ≤ reader.inBytes then .ok (reader, reads)
  else
    match reads with
    | [] => .ok ({ reader with file := none }, [])
    | chunk :: reads =>
        let inBytes := reader.inBytes + chunk.length
        if chunk = [] then .ok ({ reader with file := none }, [])
        else if inBytes < limitsBufSize then
          .ok ({ reader with
            file := some reads.flatten
            buf := reader.buf.take reader.inBytes ++ chunk ++ nul :: reader.buf.drop (inBytes + 1)
            inBytes := inBytes }, reads)
        else .error .outOfBounds

/-- At most `rounds` rounds of the loop. -/
def runFrom : (rounds : Nat) → LimitsReader → List (List Char) → Option (Checked (Int × Vlimits))
  | 0, _, _ => none
  | rounds + 1, reader, reads =>
      match reader.refillFrom reads with
      | .error fault => some (.error fault)
      | .ok (reader, reads) =>
          match reader.scan with
          | .error fault => some (.error fault)
          | .ok (reader, true) => runFrom rounds reader reads
          | .ok (reader, false) => some (.ok (0, reader.limits))

end LimitsReader

/-- `vlimits_read_limits_file` on a file that is read in the given parts. Every round takes one
of them, closes the file or leaves a line of the buffer behind. -/
def vlimitsReadLimitsFrom (buf : List Char) (reads : List (List Char)) (limits : Vlimits) :
    Option (Checked (Int × Vlimits)) :=
  LimitsReader.runFrom (reads.length + reads.flatten.length + limitsBufSize + 1)
    ⟨some reads.flatten, buf, 0, 0, 0, limits⟩ reads

/-- What the reader makes of the lines of a text. -/
def applyLines (text : List Char) (limits : Vlimits) : Vlimits :=
  (text.splitOnP LimitsReader.lineEnd).foldl applyLine limits

namespace LimitsReader

/-! ## Line ends -/

def lineEnds (text : List Char) : Nat := text.countP lineEnd

/-- How long the last line is, which has no end. -/
def lastLength (text : List Char) : Nat := (text.rtakeWhile fun char => !lineEnd char).length

section Lines

variable {line text : List Char} {ending : Char}

theorem lineEnds_append (front behind : List Char) :
    lineEnds (front ++ behind) = lineEnds front + lineEnds behind :=
  List.countP_append

theorem not_lineEnd_of_inLine (inside : InLine line) : ∀ char ∈ line, lineEnd char = false := by
  intro char member
  by_contra ends
  rw [Bool.not_eq_false] at ends
  have within := List.all_eq_true.mp inside char member
  rw [inLine_lineEnd ends] at within
  cases within

theorem lineEnds_inLine (inside : InLine line) : lineEnds line = 0 :=
  List.countP_eq_zero.mpr fun char member => by
    rw [not_lineEnd_of_inLine inside char member]
    decide

theorem inLine_of_lineEnds (noNul : nul ∉ text) (none : lineEnds text = 0) : InLine text := by
  apply List.all_eq_true.mpr
  intro char member
  have notNul : char ≠ nul := fun same => noNul (same ▸ member)
  have notEnd := List.countP_eq_zero.mp none char member
  rw [lineEnd, Bool.or_eq_true, decide_eq_true_eq, decide_eq_true_eq, not_or] at notEnd
  simp [inLine, notNul, notEnd.1, notEnd.2]

theorem lineEnds_line (inside : InLine line) (ends : lineEnd ending = true) (rest : List Char) :
    lineEnds (line ++ ending :: rest) = lineEnds rest + 1 := by
  have cons : lineEnds (ending :: rest) = lineEnds rest + 1 := List.countP_cons_of_pos ends
  rw [lineEnds_append, lineEnds_inLine inside, cons, Nat.zero_add]

theorem inLine_or_line (noNul : nul ∉ text) :
    InLine text ∨ ∃ line ending rest, text = line ++ ending :: rest ∧ InLine line ∧
      lineEnd ending = true := by
  induction text with
  | nil => exact .inl rfl
  | cons char text induction =>
      rw [List.mem_cons, not_or] at noNul
      cases ends : lineEnd char with
      | true => exact .inr ⟨[], char, text, rfl, rfl, ends⟩
      | false =>
          have single : InLine [char] := by
            apply inLine_of_lineEnds
            · rw [List.mem_singleton]
              exact noNul.1
            · exact List.countP_eq_zero.mpr fun other member => by
                rw [List.mem_singleton.mp member, ends]
                decide
          have grown : ∀ line, InLine line → InLine (char :: line) := by
            intro line inside
            rw [InLine, List.all_cons, Bool.and_eq_true]
            rw [InLine, List.all_cons, Bool.and_eq_true] at single
            exact ⟨single.1, inside⟩
          rcases induction noNul.2 with inside | ⟨line, ending, rest, rfl, inside, ends⟩
          · exact .inl (grown text inside)
          · exact .inr ⟨char :: line, ending, rest, rfl, grown line inside, ends⟩

theorem lastLength_line (ends : lineEnd ending = true) (front rest : List Char) :
    lastLength (front ++ ending :: rest) = lastLength rest := by
  have stop : ∀ behind : List Char, (behind ++ ending :: front.reverse).takeWhile
      (fun char => !lineEnd char) = behind.takeWhile fun char => !lineEnd char := by
    intro behind
    induction behind with
    | nil => rw [List.nil_append, List.takeWhile_cons_of_neg (by rw [ends]; decide)]; rfl
    | cons char behind induction =>
        rw [List.cons_append, List.takeWhile_cons, List.takeWhile_cons, induction]
  rw [lastLength, lastLength, List.rtakeWhile, List.rtakeWhile, List.reverse_append,
    List.reverse_cons, List.append_assoc, List.singleton_append, stop]

theorem lastLength_inLine (inside : InLine text) : lastLength text = text.length := by
  have whole : text.rtakeWhile (fun char => !lineEnd char) = text := by
    rw [List.rtakeWhile_eq_self_iff]
    intro char member
    rw [not_lineEnd_of_inLine inside char member]
    rfl
  rw [lastLength, whole]

theorem applyLines_line (inside : InLine line) (ends : lineEnd ending = true) (rest : List Char)
    (limits : Vlimits) :
    applyLines (line ++ ending :: rest) limits = applyLines rest (applyLine limits line) := by
  rw [applyLines, List.splitOnP_append_cons_of_forall_mem (not_lineEnd_of_inLine inside) ending ends, List.foldl_cons,
    applyLines]

theorem applyLines_inLine (inside : InLine text) (limits : Vlimits) :
    applyLines text limits = applyLine limits text := by
  rw [applyLines, List.splitOnP_eq_singleton (not_lineEnd_of_inLine inside)]
  rfl

end Lines

/-! ## Rounds with a closed file -/

section Closed

/-- The rest of the buffer goes to the parser. -/
theorem run_closed {rounds : Nat} {reader : LimitsReader} {text beyond : List Char}
    (closed : reader.file = none) (begun : reader.head = reader.tail)
    (here : reader.buf.drop reader.tail = text ++ nul :: beyond)
    (within : reader.tail + text.length ≤ reader.inBytes) (noNul : nul ∉ text)
    (enough : text.length < rounds) :
    runFrom rounds reader [] = some (.ok (0, applyLines text reader.limits)) := by
  induction rounds generalizing reader text with
  | zero => cases enough
  | succ rounds induction =>
      have kept : reader.refillFrom [] = .ok (reader, []) := by
        rw [refillFrom, closed, if_pos (.inl rfl)]
      rcases inLine_or_line noNul with inside | ⟨line, ending, rest, rfl, inside, ends⟩
      · rw [runFrom, kept]
        simp only [scan_last begun inside closed here within, applyLines_inLine inside]
      · rw [List.append_assoc, List.cons_append] at here
        rw [List.length_append, List.length_cons] at within enough
        rcases scan_ended begun inside ends here (by omega) with ⟨scanned, left⟩
        rw [runFrom, kept]
        simp only [scanned]
        rw [applyLines_line inside ends]
        apply @induction (reader.passed line) rest closed rfl left
        · simp only [passed]
          omega
        · exact fun member => noNul (List.mem_append_right _ (List.mem_cons_of_mem _ member))
        · omega

end Closed

/-! ## Rounds with an open file -/

/-- The buffer after a read: `text` is left in front of the terminator. -/
structure Filled (reader : LimitsReader) (text : List Char) : Prop where
  opened : reader.file.isSome = true
  begun : reader.head = reader.tail
  ends : reader.inBytes = reader.tail + text.length
  room : reader.inBytes < limitsBufSize
  rest : ∃ beyond, reader.buf.drop reader.tail = text ++ nul :: beyond

/-- The buffer before a read. At first there is no terminator, but something to read. -/
structure Waits (reader : LimitsReader) (text : List Char) (reads : List (List Char)) : Prop where
  opened : reader.file.isSome = true
  begun : reader.head = reader.tail
  ends : reader.inBytes = reader.tail + text.length
  room : reader.inBytes < limitsBufSize
  inside : reader.tail ≤ reader.buf.length
  rest : ∃ beyond, reader.buf.drop reader.tail = text ++ beyond ∧
    (reads = [] → ∃ behind, beyond = nul :: behind)

section Opened

variable {reader : LimitsReader} {text line : List Char} {ending : Char}

theorem Filled.waits (filled : reader.Filled text) (reads : List (List Char)) :
    reader.Waits text reads := by
  rcases filled.rest with ⟨beyond, rest⟩
  refine ⟨filled.opened, filled.begun, filled.ends, filled.room, ?_, _, rest, fun _ => ⟨_, rfl⟩⟩
  have size := congrArg List.length rest
  rw [List.length_drop, List.length_append, List.length_cons] at size
  omega

theorem Waits.reads_on {reads : List (List Char)} (waits : reader.Waits text reads) :
    ¬(reader.file.isNone = true ∨ limitsBufSize ≤ reader.inBytes) := by
  have opened := waits.opened
  cases file : reader.file with
  | none =>
      rw [file] at opened
      cases opened
  | some left => exact not_or.mpr ⟨Bool.false_ne_true, Nat.not_le.mpr waits.room⟩

theorem Waits.refill {chunk : List Char} {reads : List (List Char)}
    (waits : reader.Waits text (chunk :: reads)) (part : chunk ≠ [])
    (fits : reader.inBytes + chunk.length < limitsBufSize) :
    ∃ next, reader.refillFrom (chunk :: reads) = .ok (next, reads) ∧
      next.Filled (text ++ chunk) ∧ next.tail = reader.tail ∧ next.limits = reader.limits := by
  rcases waits.rest with ⟨beyond, rest, _⟩
  have size := congrArg List.length rest
  rw [List.length_drop, List.length_append] at size
  have tailBound := waits.inside
  have ends := waits.ends
  rw [refillFrom, if_neg waits.reads_on]
  simp only [if_neg part, if_pos fits]
  refine ⟨_, rfl, ⟨rfl, waits.begun, ?_, fits, ?_⟩, rfl, rfl⟩
  · simp only [ends, List.length_append, Nat.add_assoc]
  · have kept : (reader.buf.take reader.inBytes).drop reader.tail = text := by
      rw [List.drop_take, rest, ends, Nat.add_sub_cancel_left, List.take_left]
    have within : reader.tail ≤ (reader.buf.take reader.inBytes).length := by
      rw [List.length_take]
      omega
    refine ⟨reader.buf.drop (reader.inBytes + chunk.length + 1), ?_⟩
    rw [List.append_assoc, List.drop_append_of_le_length within, kept, List.append_assoc]

/-- A part that fills the buffer. -/
theorem Waits.refill_error {chunk : List Char} {reads : List (List Char)}
    (waits : reader.Waits text (chunk :: reads)) (part : chunk ≠ [])
    (full : ¬reader.inBytes + chunk.length < limitsBufSize) :
    reader.refillFrom (chunk :: reads) = .error .outOfBounds := by
  rw [refillFrom, if_neg waits.reads_on]
  simp only [if_neg part, if_neg full]

/-- The end of the file. -/
theorem runFrom_close (room : reader.inBytes < limitsBufSize) (rounds : Nat) :
    runFrom rounds reader [] = runFrom rounds { reader with file := none } [] := by
  cases rounds with
  | zero => rfl
  | succ rounds =>
      have closes : reader.refillFrom [] = .ok ({ reader with file := none }, []) := by
        cases file : reader.file with
        | none =>
            rw [refillFrom, file, if_pos (.inl rfl)]
            simp only [← file]
        | some left =>
            have goesOn : ¬((some left).isNone = true ∨ limitsBufSize ≤ reader.inBytes) :=
              not_or.mpr ⟨Bool.false_ne_true, Nat.not_le.mpr room⟩
            rw [refillFrom, file, if_neg goesOn]
      have closed : refillFrom { reader with file := none } [] =
          .ok ({ reader with file := none }, []) := by
        rw [refillFrom, if_pos (.inl rfl)]
      rw [runFrom, runFrom, closes, closed]

theorem Waits.run_close (waits : reader.Waits text []) (noNul : nul ∉ text) {rounds : Nat}
    (enough : text.length < rounds) :
    runFrom rounds reader [] = some (.ok (0, applyLines text reader.limits)) := by
  rcases waits.rest with ⟨beyond, rest, ended⟩
  rcases ended rfl with ⟨behind, rfl⟩
  rw [runFrom_close waits.room]
  exact @run_closed rounds { reader with file := none } text behind rfl waits.begun rest
    (Nat.le_of_eq waits.ends.symm) noNul enough

theorem Filled.scan_line {rest : List Char} (filled : reader.Filled (line ++ ending :: rest))
    (inside : InLine line) (ends : lineEnd ending = true) :
    reader.scan = .ok (reader.passed line, true) ∧ (reader.passed line).Filled rest := by
  rcases filled.rest with ⟨beyond, here⟩
  have size := filled.ends
  rw [List.append_assoc, List.cons_append] at here
  rw [List.length_append, List.length_cons] at size
  rcases scan_ended filled.begun inside ends here (by omega) with ⟨scanned, left⟩
  refine ⟨scanned, filled.opened, rfl, ?_, filled.room, beyond, left⟩
  simp only [passed]
  omega

/-- Room for the next part, with a length that is taken from the start of the buffer. -/
def shifted (reader : LimitsReader) : LimitsReader :=
  { reader with
    buf := (reader.buf.drop reader.tail).take reader.inBytes ++ reader.buf.drop reader.inBytes
    head := 0
    tail := 0 }

theorem Filled.scan_unfinished (filled : reader.Filled line) (inside : InLine line) :
    reader.scan =
      if limitsBufSize < reader.tail + reader.inBytes then .error .outOfBounds
      else .ok (reader.shifted, true) := by
  rcases filled.rest with ⟨beyond, here⟩
  have walked := searched inside (by rfl) here (Nat.le_of_eq filled.ends.symm)
  have noEnd : nul ≠ '\n' ∧ nul ≠ '\r' := by decide
  have room : ¬limitsBufSize ≤ reader.inBytes := Nat.not_le.mpr filled.room
  simp only [scan, filled.begun, walked.1, walked.2, filled.opened, if_pos noEnd, if_true,
    if_neg room, shifted]
  rw [← filled.ends]

/-- Nothing moves when the line begins with the buffer. -/
theorem Filled.shifted (filled : reader.Filled line) (first : reader.tail = 0) :
    reader.shifted.Filled line ∧ reader.shifted.limits = reader.limits := by
  rcases filled.rest with ⟨beyond, here⟩
  have size := filled.ends
  rw [first, Nat.zero_add] at size
  rw [first, List.drop_zero] at here
  refine ⟨⟨filled.opened, rfl, ?_, filled.room, beyond, ?_⟩, rfl⟩
  · simp only [LimitsReader.shifted, size, Nat.zero_add]
  · simp only [LimitsReader.shifted, first, List.drop_zero, List.take_append_drop, here]

/-- At the end of the file a line is in the buffer once it was moved, with its terminator. -/
theorem Filled.run_shifted (filled : reader.Filled line) (inside : InLine line)
    (behind : 0 < reader.tail) {rounds : Nat} (enough : line.length < rounds) :
    runFrom rounds reader.shifted [] = some (.ok (0, applyLine reader.limits line)) := by
  rcases filled.rest with ⟨beyond, here⟩
  have size := filled.ends
  have room : line.length ≤ reader.inBytes := by omega
  have moved : ∃ beyond, reader.shifted.buf.drop reader.shifted.tail = line ++ nul :: beyond := by
    rcases Nat.exists_eq_add_of_lt behind with ⟨more, grown⟩
    simp only [LimitsReader.shifted, List.drop_zero, here]
    rw [List.take_append, List.take_of_length_le room, List.append_assoc]
    have positive : reader.inBytes - line.length = more + 1 := by omega
    rw [positive, List.take_succ_cons, List.cons_append]
    exact ⟨_, rfl⟩
  rcases moved with ⟨after, moved⟩
  have closes := @runFrom_close reader.shifted filled.room rounds
  rw [closes, ← applyLines_inLine inside]
  exact @run_closed rounds { reader.shifted with file := none } line after rfl rfl moved
    (by simp only [LimitsReader.shifted]; omega) (free_nul_of_inLine inside) enough

end Opened

/-! ## Reads that keep pace -/

/-- Up to every read but the last there are as many line ends as reads, since every read takes
a line with it. -/
def KeepsPace (seen : Nat) (reads : List (List Char)) : Prop :=
  ∀ front behind, reads = front ++ behind → behind ≠ [] →
    front.length ≤ seen + lineEnds front.flatten

/-- The reads from the first line end on. -/
def started (reads : List (List Char)) : List (List Char) :=
  reads.dropWhile fun chunk => lineEnds chunk = 0

/-- What comes of `left`, which begins at `tail` and is read in `count` parts. The last part may
lack a line end if the move of the last line stays in the buffer. -/
def outcome (tail : Nat) (left : List Char) (count : Nat) (limits : Vlimits) :
    Option (Checked (Int × Vlimits)) :=
  let size := tail + left.length
  if size < limitsBufSize ∧
      (count ≤ lineEnds left ∨ size + (size - lastLength left) ≤ limitsBufSize) then
    some (.ok (0, applyLines left limits))
  else some (.error .outOfBounds)

section Pace

variable {reader : LimitsReader} {text line : List Char} {ending : Char}

theorem KeepsPace.last {seen : Nat} {chunk : List Char} {reads : List (List Char)}
    (pace : KeepsPace seen (chunk :: reads)) (none : seen + lineEnds chunk = 0) : reads = [] := by
  by_contra more
  have atMost := pace [chunk] reads rfl more
  rw [List.flatten_cons, List.flatten_nil, List.append_nil, none] at atMost
  cases atMost

theorem KeepsPace.next {seen ends : Nat} {chunk : List Char} {reads : List (List Char)}
    (pace : KeepsPace seen (chunk :: reads)) (one : seen + lineEnds chunk = ends + 1) :
    KeepsPace ends reads := by
  intro front behind same more
  have atMost := pace (chunk :: front) behind (by rw [same]; rfl) more
  rw [List.flatten_cons, lineEnds_append, List.length_cons] at atMost
  omega

theorem outcome_line (inside : InLine line) (ends : lineEnd ending = true) (tail : Nat)
    (rest : List Char) (count : Nat) (limits : Vlimits) :
    outcome tail (line ++ ending :: rest) (count + 1) limits =
      outcome (tail + line.length + 1) rest count (applyLine limits line) := by
  have size : tail + (line ++ ending :: rest).length = tail + line.length + 1 + rest.length := by
    rw [List.length_append, List.length_cons]
    omega
  simp only [outcome, size, lastLength_line ends, lineEnds_line inside ends,
    applyLines_line inside ends, Nat.add_le_add_iff_right]

theorem outcome_full {tail : Nat} {left : List Char} (full : ¬tail + left.length < limitsBufSize)
    (count : Nat) (limits : Vlimits) :
    outcome tail left count limits = some (.error .outOfBounds) :=
  if_neg fun fits => full fits.1

theorem outcome_last (inside : InLine line) {tail : Nat}
    (room : tail + line.length < limitsBufSize) (limits : Vlimits) :
    outcome tail line 1 limits =
      if limitsBufSize < tail + (tail + line.length) then some (.error .outOfBounds)
      else some (.ok (0, applyLine limits line)) := by
  have first : tail + line.length - line.length = tail := Nat.add_sub_cancel _ _
  simp only [outcome, lineEnds_inLine inside, lastLength_inLine inside, first,
    applyLines_inLine inside]
  by_cases beyond : limitsBufSize < tail + (tail + line.length)
  · rw [if_pos beyond, if_neg]
    rintro ⟨_, none | within⟩
    · cases none
    · omega
  · rw [if_neg beyond, if_pos]
    exact ⟨room, .inr (by omega)⟩

theorem outcome_nil {tail : Nat} {left : List Char} (room : tail + left.length < limitsBufSize)
    (limits : Vlimits) : outcome tail left 0 limits = some (.ok (0, applyLines left limits)) :=
  if_pos ⟨room, .inl (Nat.zero_le _)⟩

/-- Once a line is behind, every round has a line, but for the last. -/
theorem run_begun {reads : List (List Char)} {rounds : Nat} (waits : reader.Waits text reads)
    (behind : 0 < reader.tail) (noNul : nul ∉ text ++ reads.flatten) (parts : [] ∉ reads)
    (pace : KeepsPace (lineEnds text) reads)
    (enough : reads.length + (text ++ reads.flatten).length < rounds) :
    runFrom rounds reader reads =
      outcome reader.tail (text ++ reads.flatten) reads.length reader.limits := by
  induction reads generalizing reader text rounds with
  | nil =>
      have room := waits.room
      rw [waits.ends] at room
      rw [List.flatten_nil, List.append_nil] at noNul enough
      rw [List.flatten_nil, List.append_nil, List.length_nil, outcome_nil room]
      exact waits.run_close noNul (by omega)
  | cons chunk reads induction =>
      rw [List.mem_cons, not_or] at parts
      rw [List.flatten_cons, ← List.append_assoc] at noNul enough
      rw [List.flatten_cons, ← List.append_assoc, List.length_cons]
      cases rounds with
      | zero => cases enough
      | succ rounds =>
      rw [runFrom]
      by_cases fits : reader.inBytes + chunk.length < limitsBufSize
      · rcases waits.refill (Ne.symm parts.1) fits with ⟨next, filled, holds, sameTail, sameLimits⟩
        rw [← sameTail, ← sameLimits, filled]
        rw [← sameTail] at behind
        have clean : nul ∉ text ++ chunk := fun member =>
          noNul (List.mem_append_left _ member)
        rcases inLine_or_line clean with inside | ⟨line, ending, rest, whole, inside, ends⟩
        · have none := lineEnds_inLine inside
          rw [lineEnds_append] at none
          have last := pace.last none
          subst last
          have size := holds.ends
          have room := holds.room
          rw [size] at room
          rw [List.flatten_nil, List.append_nil] at enough
          simp only [List.flatten_nil, List.append_nil, List.length_nil, Nat.zero_add,
            outcome_last inside room, holds.scan_unfinished inside, size]
          by_cases beyond : limitsBufSize < next.tail + (next.tail + (text ++ chunk).length)
          · simp only [if_pos beyond]
          · simp only [if_neg beyond]
            rw [holds.run_shifted inside behind]
            rw [List.length_singleton] at enough
            omega
        · rw [whole] at holds noNul enough
          rcases holds.scan_line inside ends with ⟨scanned, left⟩
          have seen : lineEnds text + lineEnds chunk = lineEnds rest + 1 := by
            rw [← lineEnds_append, whole, lineEnds_line inside ends]
          rw [List.append_assoc, List.cons_append, List.length_append, List.length_cons,
            List.length_cons] at enough
          rw [whole, List.append_assoc, List.cons_append, outcome_line inside ends]
          simp only [scanned]
          apply @induction (next.passed line) rest rounds (left.waits reads) (Nat.succ_pos _) _
            parts.2 (pace.next seen)
          · omega
          · intro member
            rw [List.append_assoc, List.cons_append] at noNul
            exact noNul (List.mem_append_right _ (List.mem_cons_of_mem _ member))
      · rw [waits.refill_error (Ne.symm parts.1) fits]
        have full : ¬reader.tail + (text ++ chunk ++ reads.flatten).length < limitsBufSize := by
          rw [waits.ends] at fits
          rw [List.length_append, List.length_append]
          omega
        rw [outcome_full full]

/-- As long as there is no line end, the reads are put together. -/
theorem run_unbegun {reads : List (List Char)} {rounds : Nat} (waits : reader.Waits text reads)
    (first : reader.tail = 0) (inside : InLine text) (noNul : nul ∉ text ++ reads.flatten)
    (parts : [] ∉ reads) (pace : KeepsPace 0 (started reads))
    (enough : reads.length + (text ++ reads.flatten).length < rounds) :
    runFrom rounds reader reads =
      outcome 0 (text ++ reads.flatten) (started reads).length reader.limits := by
  induction reads generalizing reader text rounds with
  | nil =>
      have room := waits.room
      rw [waits.ends, first] at room
      rw [List.flatten_nil, List.append_nil] at noNul enough
      have none : (started []).length = 0 := rfl
      rw [List.flatten_nil, List.append_nil, none, outcome_nil room]
      exact waits.run_close noNul (by omega)
  | cons chunk reads induction =>
      rw [List.mem_cons, not_or] at parts
      rw [List.flatten_cons, ← List.append_assoc] at noNul enough
      rw [List.flatten_cons, ← List.append_assoc]
      have clean : nul ∉ text ++ chunk := fun member => noNul (List.mem_append_left _ member)
      rw [List.length_cons] at enough
      cases rounds with
      | zero => cases enough
      | succ rounds =>
      rw [runFrom]
      by_cases fits : reader.inBytes + chunk.length < limitsBufSize
      · rcases waits.refill (Ne.symm parts.1) fits with ⟨next, filled, holds, sameTail, sameLimits⟩
        rw [first] at sameTail
        rw [← sameLimits, filled]
        by_cases none : lineEnds chunk = 0
        · have skipped : started (chunk :: reads) = started reads := by
            simp only [started, List.dropWhile_cons, none, decide_true, if_true]
          have longer : InLine (text ++ chunk) := by
            apply inLine_of_lineEnds clean
            rw [lineEnds_append, lineEnds_inLine inside, none]
          have within : ¬limitsBufSize < next.tail + next.inBytes := by
            rw [sameTail, Nat.zero_add, Nat.not_lt]
            exact Nat.le_of_lt holds.room
          rcases holds.shifted sameTail with ⟨moved, kept⟩
          rw [skipped] at pace
          rw [skipped, ← kept]
          simp only [holds.scan_unfinished longer, if_neg within]
          exact induction (moved.waits reads) rfl longer noNul parts.2 pace
            (Nat.lt_of_succ_lt_succ (by omega))
        · have kept : started (chunk :: reads) = chunk :: reads :=
            List.dropWhile_cons_of_neg (by simpa using none)
          rw [kept] at pace
          rw [kept, List.length_cons]
          rcases inLine_or_line clean with unended | ⟨line, ending, rest, whole, lineInside, ends⟩
          · have total := lineEnds_inLine unended
            rw [lineEnds_append] at total
            omega
          · have seen : 0 + lineEnds chunk = lineEnds rest + 1 := by
              rw [← lineEnds_inLine inside, ← lineEnds_append, whole,
                lineEnds_line lineInside ends]
            rw [whole] at holds noNul enough
            rcases holds.scan_line lineInside ends with ⟨scanned, left⟩
            rw [List.append_assoc, List.cons_append] at noNul
            rw [List.append_assoc, List.cons_append, List.length_append, List.length_cons] at enough
            rw [whole, List.append_assoc, List.cons_append, outcome_line lineInside ends,
              ← sameTail]
            simp only [scanned]
            apply @run_begun (next.passed line) rest reads rounds (left.waits reads)
              (Nat.succ_pos _) _ parts.2 (pace.next seen)
            · omega
            · exact fun member =>
                noNul (List.mem_append_right _ (List.mem_cons_of_mem _ member))
      · rw [waits.refill_error (Ne.symm parts.1) fits]
        have full : ¬0 + (text ++ chunk ++ reads.flatten).length < limitsBufSize := by
          rw [waits.ends, first] at fits
          rw [List.length_append, List.length_append]
          omega
        rw [outcome_full full]

end Pace

end LimitsReader

/-! ## Files -/

/-- What a file comes to that is not empty and read at a good pace. -/
theorem vlimitsReadLimitsFrom_eq {reads : List (List Char)} (parts : [] ∉ reads)
    (filled : reads ≠ []) (noNul : nul ∉ reads.flatten)
    (pace : LimitsReader.KeepsPace 0 (LimitsReader.started reads)) (buf : List Char)
    (limits : Vlimits) :
    vlimitsReadLimitsFrom buf reads limits =
      LimitsReader.outcome 0 reads.flatten (LimitsReader.started reads).length limits := by
  let start : LimitsReader := ⟨some reads.flatten, buf, 0, 0, 0, limits⟩
  have waits : start.Waits [] reads :=
    ⟨rfl, rfl, rfl, (by decide : 0 < limitsBufSize), Nat.zero_le _, buf, rfl, fun empty => absurd empty filled⟩
  have text : [] ++ reads.flatten = reads.flatten := List.nil_append _
  have run := @LimitsReader.run_unbegun start [] reads
    (reads.length + reads.flatten.length + limitsBufSize + 1) waits rfl rfl
  rw [text] at run
  exact run noNul parts pace (by omega)

end Vpopmail
