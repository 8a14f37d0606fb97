import Vpopmail.AliasFiles

/-! # Removing a line of an alias

`vpalias_remove` drops every chunk it reads that begins with the line. So it removes exactly
the line when no other one has it at its start, or where a chunk of a long line starts.
-/

namespace Vpopmail

open Text Vpopmail.Stream

/-! ## The condition -/

/-- The length of the chunks of a long line. -/
def chunkSize : Nat := lineBufSize - 1

/-- A chunk of the line begins with the text. -/
def Begins (text line : List Char) : Prop := ∃ count, text <+: line.drop (count * chunkSize)

/-- No other line has the text at the start of a chunk. -/
def Distinct (text file : List Char) : Prop :=
  ∀ line ∈ fileLines file, line ≠ text → ¬ Begins text line

/-- How much of a line is behind the last newline. -/
def unfinished (file : List Char) : Nat := (file.reverse.takeWhile (· ≠ '\n')).length

/-! ## One line -/

section OneLine

variable {text body : List Char}

theorem begins_of_front (front : text <+: body) : Begins text body := by
  refine ⟨0, ?_⟩
  rw [Nat.zero_mul, List.drop_zero]
  exact front

theorem begins_drop (begins : Begins text (body.drop chunkSize)) : Begins text body := by
  rcases begins with ⟨count, front⟩
  refine ⟨count + 1, ?_⟩
  rw [List.drop_drop] at front
  rw [Nat.succ_mul, Nat.add_comm]
  exact front

/-- Where a line has the text: at its start, or behind its first chunk. -/
theorem begins_cases (begins : Begins text body) :
    text <+: body ∨ Begins text (body.drop chunkSize) := by
  rcases begins with ⟨count, front⟩
  cases count with
  | zero =>
      rw [Nat.zero_mul, List.drop_zero] at front
      exact .inl front
  | succ count =>
      refine .inr ⟨count, ?_⟩
      rw [List.drop_drop, Nat.add_comm, ← Nat.succ_mul]
      exact front

theorem begins_nil (begins : Begins text []) : text = [] := by
  rcases begins with ⟨count, front⟩
  rw [List.drop_nil] at front
  exact List.prefix_nil.mp front

/-- A text without a newline does not reach beyond the end of a line. -/
theorem prefix_of_prefix_newline (newline : Free '\n' text) {rest : List Char}
    (front : text <+: body ++ '\n' :: rest) : text <+: body := by
  rcases Nat.lt_or_ge body.length text.length with long | short
  · have ended : body ++ ['\n'] <+: body ++ '\n' :: rest := ⟨rest, by simp⟩
    have longer : (body ++ ['\n']).length ≤ text.length := by
      rw [List.length_append, List.length_singleton]
      exact long
    have inside := List.prefix_of_prefix_length_le ended front longer
    exact absurd (inside.subset (by simp)) newline
  · exact List.prefix_of_prefix_length_le front (List.prefix_append _ _) short

theorem prefix_append_ends_iff (newline : Free '\n' text) {tail : List Char} (ends : Ends tail) :
    text <+: body ++ tail ↔ text <+: body := by
  constructor
  · rcases ends with rfl | rfl
    · rw [List.append_nil]
      exact id
    · exact prefix_of_prefix_newline newline
  · exact fun front => front.trans (List.prefix_append body tail)

/-! ## Chunks -/

theorem free_append_ends {char : Char} (other : char ≠ '\n') (plain : Free char body)
    {tail : List Char} (ends : Ends tail) : Free char (body ++ tail) := by
  rw [free_append]
  refine ⟨plain, ?_⟩
  rcases ends with rfl | rfl
  · exact free_nil char
  · simpa using other

/-- The first chunk of a line, and what remains. -/
theorem copyLines_short (newline : Free '\n' body) (plain : Free nul body)
    (textLine : Free '\n' text) (short : body.length < chunkSize) {tail : List Char}
    (ends : Ends tail) (nonempty : body ++ tail ≠ []) :
    copyLines text (body ++ tail) = if text <+: body then [] else body ++ tail := by
  have string := cstring_of_free (free_append_ends (by decide) plain ends)
  rw [copyLines, fgetsLoop_short (by decide) newline short ends nonempty, List.flatMap_singleton, copyChunk,
    string]
  simp only [prefix_append_ends_iff textLine ends]

theorem copyLines_long (newline : Free '\n' body) (plain : Free nul body)
    (short : text.length ≤ chunkSize) (long : chunkSize ≤ body.length) (tail : List Char) :
    copyLines text (body ++ tail) =
      (if text <+: body then [] else body.take chunkSize) ++
        copyLines text (body.drop chunkSize ++ tail) := by
  have string : cstring (body.take chunkSize) = body.take chunkSize :=
    cstring_of_free fun member => plain (List.mem_of_mem_take member)
  have front : text <+: body.take chunkSize ↔ text <+: body := by
    constructor
    · exact fun inside => inside.trans (List.take_prefix _ _)
    · intro inside
      apply List.prefix_of_prefix_length_le inside (List.take_prefix _ _)
      rw [List.length_take]
      omega
  rw [copyLines, fgetsLoop_long (by decide) newline long, List.flatMap_cons, copyChunk,
    ← chunkSize, string]
  simp only [front]
  rfl

/-! ## What is copied of a line -/

/-- A line in which no chunk begins with the text is copied. -/
theorem copyLines_kept (newline : Free '\n' body) (plain : Free nul body)
    (textLine : Free '\n' text) (short : text.length ≤ chunkSize) {tail : List Char}
    (ends : Ends tail) (other : ¬ Begins text body) :
    copyLines text (body ++ tail) = body ++ tail := by
  have missing : ¬ text <+: body := fun front => other (begins_of_front front)
  induction count : body.length using Nat.strongRecOn generalizing body with
  | ind length induction =>
      rcases Nat.lt_or_ge body.length chunkSize with inside | long
      · rcases Classical.em (body ++ tail = []) with empty | nonempty
        · rw [empty]
          rfl
        · rw [copyLines_short newline plain textLine inside ends nonempty, if_neg missing]
      · have shorter : (body.drop chunkSize).length < length := by
          rw [List.length_drop]
          simp only [chunkSize, lineBufSize] at long ⊢
          omega
        have restOther : ¬ Begins text (body.drop chunkSize) := fun begins =>
          other (begins_drop begins)
        have rest := induction _ shorter (fun member => newline (List.mem_of_mem_drop member))
          (fun member => plain (List.mem_of_mem_drop member)) restOther
          (fun front => restOther (begins_of_front front)) rfl
        rw [copyLines_long newline plain short long, if_neg missing, rest, ← List.append_assoc,
          List.take_append_drop]

theorem copyLines_text (newline : Free '\n' text) (plain : Free nul text)
    (short : text.length < chunkSize) {tail : List Char} (ends : Ends tail) :
    copyLines text (text ++ tail) = [] := by
  rcases Classical.em (text ++ tail = []) with empty | nonempty
  · rw [empty]
    rfl
  · rw [copyLines_short newline plain newline short ends nonempty, if_pos (List.prefix_refl _)]

/-- The characters that are not newlines. -/
def solid (text : List Char) : Nat := (text.filter (· ≠ '\n')).length

theorem solid_append (left right : List Char) : solid (left ++ right) = solid left + solid right := by
  rw [solid, List.filter_append, List.length_append]
  rfl

theorem solid_of_free (newline : Free '\n' body) : solid body = body.length := by
  rw [solid, List.filter_eq_self.mpr]
  intro char member
  simpa using fun equal : char = '\n' => newline (equal ▸ member)

theorem solid_ends {tail : List Char} (ends : Ends tail) : solid tail = 0 := by
  rcases ends with rfl | rfl <;> rfl

/-- Of a line in which a chunk begins with the text something is lost. -/
theorem solid_copyLines_line (newline : Free '\n' body) (plain : Free nul body)
    (textLine : Free '\n' text) (short : text.length ≤ chunkSize) {tail : List Char}
    (ends : Ends tail) :
    solid (copyLines text (body ++ tail)) ≤ body.length ∧
      (body ≠ [] → Begins text body → solid (copyLines text (body ++ tail)) < body.length) := by
  induction count : body.length using Nat.strongRecOn generalizing body with
  | ind length induction =>
      rcases Nat.lt_or_ge body.length chunkSize with inside | long
      · rcases Classical.em (body ++ tail = []) with empty | nonempty
        · rw [empty]
          exact ⟨Nat.zero_le _, fun full => absurd (List.append_eq_nil_iff.mp empty).1 full⟩
        · rw [copyLines_short newline plain textLine inside ends nonempty]
          rcases Classical.em (text <+: body) with front | missing
          · rw [if_pos front]
            refine ⟨Nat.zero_le _, fun full _ => ?_⟩
            rw [← count]
            exact List.length_pos_iff.mpr full
          · rw [if_neg missing, solid_append, solid_of_free newline, solid_ends ends, count]
            refine ⟨Nat.le_refl _, fun _ begins => ?_⟩
            rcases begins_cases begins with front | later
            · exact absurd front missing
            · rw [List.drop_of_length_le (Nat.le_of_lt inside)] at later
              exact absurd (begins_nil later ▸ List.nil_prefix) missing
      · have positive : 0 < chunkSize := by decide
        have dropped : (body.drop chunkSize).length = length - chunkSize := by
          rw [List.length_drop, count]
        have rest := induction (length - chunkSize) (by omega)
          (fun member => newline (List.mem_of_mem_drop member))
          (fun member => plain (List.mem_of_mem_drop member)) dropped
        rw [copyLines_long newline plain short long, solid_append]
        rcases Classical.em (text <+: body) with front | missing
        · have none : solid [] = 0 := rfl
          rw [if_pos front, none]
          exact ⟨by omega, fun _ _ => by omega⟩
        · have first : solid (body.take chunkSize) = chunkSize := by
            rw [solid_of_free fun member => newline (List.mem_of_mem_take member),
              List.length_take]
            omega
          rw [if_neg missing, first]
          refine ⟨by omega, fun _ begins => ?_⟩
          have later := (begins_cases begins).resolve_left missing
          have full : body.drop chunkSize ≠ [] := by
            intro empty
            rw [empty] at later
            exact missing (begins_nil later ▸ List.nil_prefix)
          have lost := rest.2 full later
          omega

end OneLine

/-! ## Whole files -/

theorem copyLines_append_newline {text body : List Char} (newline : Free '\n' body)
    (rest : List Char) : copyLines text (body ++ '\n' :: rest) =
      copyLines text (body ++ ['\n']) ++ copyLines text rest := by
  rw [copyLines, fgetsLoop_append_newline (by decide) newline, List.flatMap_append]
  rfl

section Whole

variable {text file : List Char} (textLine : Free '\n' text) (textPlain : Free nul text)
  (short : text.length < chunkSize)

include textLine textPlain short

/-- What is copied of one line. -/
theorem copyLines_line {body : List Char} (newline : Free '\n' body) (plain : Free nul body)
    {tail : List Char} (ends : Ends tail) (other : body ≠ text → ¬ Begins text body) :
    copyLines text (body ++ tail) = if body = text then [] else body ++ tail := by
  rcases Classical.em (body = text) with rfl | differs
  · rw [if_pos rfl]
    exact copyLines_text newline plain short ends
  · rw [if_neg differs]
    exact copyLines_kept newline plain textLine (Nat.le_of_lt short) ends (other differs)

theorem fileLines_copyLines (plain : Free nul file) (distinct : Distinct text file) :
    fileLines (copyLines text file) = (fileLines file).filter (· ≠ text) := by
  induction file using lines_induction with
  | empty => rfl
  | last body newline nonempty =>
      rw [Distinct, fileLines_of_free newline nonempty] at distinct
      have copied := copyLines_line textLine textPlain short newline plain (.inl rfl)
        (distinct body (List.mem_singleton_self body))
      rw [List.append_nil] at copied
      rw [copied, fileLines_of_free newline nonempty]
      rcases Classical.em (body = text) with same | differs
      · rw [if_pos same, List.filter_cons_of_neg (by simpa using same)]
        rfl
      · rw [if_neg differs, fileLines_of_free newline nonempty,
          List.filter_cons_of_pos (by simpa using differs)]
        rfl
  | line body rest newline induction =>
      rw [free_append, free_cons] at plain
      rw [Distinct, fileLines_line newline] at distinct
      have copied := copyLines_line textLine textPlain short newline plain.1 (.inr rfl)
        (distinct body List.mem_cons_self)
      have later := induction plain.2.2
        fun line member => distinct line (List.mem_cons_of_mem body member)
      rw [copyLines_append_newline newline, copied, fileLines_line newline]
      rcases Classical.em (body = text) with same | differs
      · rw [if_pos same, List.filter_cons_of_neg (by simpa using same), List.nil_append, later]
      · rw [if_neg differs, List.filter_cons_of_pos (by simpa using differs), List.append_assoc,
          List.singleton_append, fileLines_line newline, later]

/-- A file without the line is copied as it is. -/
theorem copyLines_eq_self (plain : Free nul file) (distinct : Distinct text file)
    (missing : text ∉ fileLines file) : copyLines text file = file := by
  induction file using lines_induction with
  | empty => rfl
  | last body newline nonempty =>
      rw [fileLines_of_free newline nonempty] at missing
      rw [Distinct, fileLines_of_free newline nonempty] at distinct
      have copied := copyLines_line textLine textPlain short newline plain (.inl rfl)
        (distinct body (List.mem_singleton_self body))
      have differs : body ≠ text := fun same => missing (same ▸ List.mem_singleton_self body)
      rw [List.append_nil, if_neg differs] at copied
      exact copied
  | line body rest newline induction =>
      rw [free_append, free_cons] at plain
      rw [fileLines_line newline] at missing
      rw [Distinct, fileLines_line newline] at distinct
      have differs : body ≠ text := fun same => missing (same ▸ List.mem_cons_self)
      have copied := copyLines_line textLine textPlain short newline plain.1 (.inr rfl)
        (distinct body List.mem_cons_self)
      have later := induction plain.2.2
        (fun line member => distinct line (List.mem_cons_of_mem body member))
        fun member => missing (List.mem_cons_of_mem body member)
      rw [copyLines_append_newline newline, copied, if_neg differs, later, List.append_assoc,
        List.singleton_append]

/-- The characters of the lines that are to be kept, and what is left of them. -/
theorem solid_copyLines (plain : Free nul file) :
    solid (copyLines text file) ≤ ((fileLines file).filter (· ≠ text)).flatten.length ∧
      (¬ Distinct text file →
        solid (copyLines text file) < ((fileLines file).filter (· ≠ text)).flatten.length) := by
  have whole : ∀ {body : List Char} {tail : List Char}, Free '\n' body → Free nul body →
      Ends tail →
      solid (copyLines text (body ++ tail)) ≤ ([body].filter (· ≠ text)).flatten.length ∧
        ((body ≠ text ∧ Begins text body) →
          solid (copyLines text (body ++ tail)) <
            ([body].filter (· ≠ text)).flatten.length) := by
    intro body tail newline bodyPlain ends
    rcases Classical.em (body = text) with rfl | differs
    · rw [copyLines_text newline bodyPlain short ends]
      exact ⟨Nat.zero_le _, fun both => absurd rfl both.1⟩
    · have lost := solid_copyLines_line newline bodyPlain textLine (Nat.le_of_lt short) ends
      rw [List.filter_cons_of_pos (by simpa using differs)]
      simp only [List.filter_nil, List.flatten_cons, List.flatten_nil, List.append_nil]
      refine ⟨lost.1, fun both => lost.2 ?_ both.2⟩
      rintro rfl
      exact both.1 (begins_nil both.2).symm
  induction file using lines_induction with
  | empty => exact ⟨Nat.le_refl _, fun other => absurd (fun _ member => nomatch member) other⟩
  | last body newline nonempty =>
      have lost := whole newline plain (.inl rfl)
      rw [List.append_nil] at lost
      rw [Distinct, fileLines_of_free newline nonempty]
      refine ⟨lost.1, fun other => lost.2 ?_⟩
      simpa using other
  | line body rest newline induction =>
      rw [free_append, free_cons] at plain
      have lost := whole newline plain.1 (.inr rfl)
      have later := induction plain.2.2
      have parts : ((fileLines (body ++ '\n' :: rest)).filter (· ≠ text)).flatten.length =
          ([body].filter (· ≠ text)).flatten.length +
            ((fileLines rest).filter (· ≠ text)).flatten.length := by
        rw [fileLines_line newline, ← List.singleton_append, List.filter_append,
          List.flatten_append, List.length_append]
      rw [copyLines_append_newline newline, solid_append, parts]
      refine ⟨by omega, fun other => ?_⟩
      rw [Distinct, fileLines_line newline] at other
      rcases Classical.em (body ≠ text ∧ Begins text body) with own | fine
      · have first := lost.2 own
        omega
      · have behind : ¬ Distinct text rest := by
          intro distinct
          apply other
          rintro line member differs begins
          rcases List.mem_cons.mp member with rfl | inside
          · exact fine ⟨differs, begins⟩
          · exact distinct line inside differs begins
        have second := later.2 behind
        omega

/-- The lines that remain are the others exactly when no line is cut off and no other one
has the text at the start of a chunk. -/
theorem fileLines_copyLines_iff :
    fileLines (copyLines text file) = (fileLines file).filter (· ≠ text) ↔
      Free nul file ∧ Distinct text file := by
  constructor
  · intro same
    have plain : Free nul file := by
      intro member
      rcases (mem_text_iff (by decide) file).mp member with ⟨line, inside, cut⟩
      have differs : line ≠ text := fun equal => textPlain (equal ▸ cut)
      have left : line ∈ fileLines (copyLines text file) := by
        rw [same, List.mem_filter]
        exact ⟨inside, by simpa using differs⟩
      have copied := (mem_text_iff (by decide) _).mpr ⟨line, left, cut⟩
      rcases List.mem_flatMap.mp copied with ⟨chunk, -, written⟩
      rw [copyChunk] at written
      split at written
      · cases written
      · exact free_takeWhile_ne nul chunk written
    refine ⟨plain, ?_⟩
    by_contra other
    have lost := (solid_copyLines textLine textPlain short plain).2 other
    rw [← same, flatten_fileLines] at lost
    exact Nat.lt_irrefl _ lost
  · rintro ⟨plain, distinct⟩
    exact fileLines_copyLines textLine textPlain short plain distinct

/-! ## A line that was appended -/

omit textLine textPlain in
/-- The chunks in front of some text that is appended to a line. -/
theorem copyLines_front {body more : List Char} (newline : Free '\n' (body ++ more))
    (plain : Free nul (body ++ more)) (other : ¬ Begins text body) {count : Nat}
    (inside : count * chunkSize ≤ body.length) (tail : List Char) :
    copyLines text (body ++ more ++ tail) = body.take (count * chunkSize) ++
      copyLines text (body.drop (count * chunkSize) ++ more ++ tail) := by
  induction count generalizing body with
  | zero => simp
  | succ count induction =>
      rw [Nat.succ_mul] at inside
      have long : chunkSize ≤ (body ++ more).length := by
        rw [List.length_append]
        omega
      have missing : ¬ text <+: body ++ more := by
        intro front
        apply other
        apply begins_of_front
        exact List.prefix_of_prefix_length_le front (List.prefix_append _ _) (by omega)
      have taken : (body ++ more).take chunkSize = body.take chunkSize :=
        List.take_append_of_le_length (by omega)
      have dropped : (body ++ more).drop chunkSize = body.drop chunkSize ++ more :=
        List.drop_append_of_le_length (by omega)
      have dropNewline : Free '\n' (body.drop chunkSize ++ more) :=
        dropped ▸ fun member => newline (List.mem_of_mem_drop member)
      have dropPlain : Free nul (body.drop chunkSize ++ more) :=
        dropped ▸ fun member => plain (List.mem_of_mem_drop member)
      have dropInside : count * chunkSize ≤ (body.drop chunkSize).length := by
        rw [List.length_drop]
        omega
      have later := induction dropNewline dropPlain (fun begins => other (begins_drop begins))
        dropInside
      rw [copyLines_long newline plain (Nat.le_of_lt short) long, if_neg missing, taken, dropped,
        later, List.drop_drop, ← List.append_assoc, Nat.succ_mul, Nat.add_comm _ chunkSize,
        List.take_add]

/-- What is copied of a line that the text was appended to, when it is cut off inside a
chunk: too little or too much. -/
theorem solid_copyLines_rest {rest : List Char} (newline : Free '\n' rest)
    (plain : Free nul rest) (nonempty : rest ≠ []) (inside : rest.length < chunkSize)
    (full : text ≠ []) : solid (copyLines text (rest ++ text ++ ['\n'])) ≠ rest.length := by
  have bodyNewline : Free '\n' (rest ++ text) := free_append.mpr ⟨newline, textLine⟩
  have bodyPlain : Free nul (rest ++ text) := free_append.mpr ⟨plain, textPlain⟩
  have size : (rest ++ text).length = rest.length + text.length := List.length_append
  have restPositive := List.length_pos_iff.mpr nonempty
  have textPositive := List.length_pos_iff.mpr full
  have none : solid [] = 0 := rfl
  rcases Nat.lt_or_ge (rest ++ text).length chunkSize with fits | long
  · rw [copyLines_short bodyNewline bodyPlain textLine fits (.inr rfl) (by simp)]
    split
    · omega
    · rw [solid_append, solid_of_free bodyNewline, solid_ends (.inr rfl)]
      omega
  · have dropNewline : Free '\n' ((rest ++ text).drop chunkSize) :=
      fun member => bodyNewline (List.mem_of_mem_drop member)
    have dropPlain : Free nul ((rest ++ text).drop chunkSize) :=
      fun member => bodyPlain (List.mem_of_mem_drop member)
    have dropSize : ((rest ++ text).drop chunkSize).length =
        rest.length + text.length - chunkSize := by
      rw [List.length_drop, size]
    have missing : ¬ text <+: (rest ++ text).drop chunkSize := by
      intro front
      have room := front.length_le
      omega
    rw [copyLines_long bodyNewline bodyPlain (Nat.le_of_lt short) long, solid_append,
      copyLines_short dropNewline dropPlain textLine (by omega) (.inr rfl) (by simp),
      if_neg missing, solid_append, solid_of_free dropNewline, solid_ends (.inr rfl), dropSize]
    split
    · omega
    · rw [solid_of_free fun member => bodyNewline (List.mem_of_mem_take member),
        List.length_take, size]
      omega

/-- A text that was appended to an unfinished line is removed again exactly when a chunk
begins with it. -/
theorem fileLines_appended_last {body : List Char} (newline : Free '\n' body)
    (plain : Free nul body) (nonempty : body ≠ []) (other : ¬ Begins text body) :
    fileLines (copyLines text (body ++ text ++ ['\n'])) = [body] ↔
      body.length % chunkSize = 0 := by
  have bodyNewline : Free '\n' (body ++ text) := free_append.mpr ⟨newline, textLine⟩
  have bodyPlain : Free nul (body ++ text) := free_append.mpr ⟨plain, textPlain⟩
  have inside : body.length / chunkSize * chunkSize ≤ body.length := Nat.div_mul_le_self _ _
  have divided := Nat.div_add_mod body.length chunkSize
  rw [Nat.mul_comm] at divided
  rw [copyLines_front short bodyNewline bodyPlain other inside]
  have full : text ≠ [] := by
    rintro rfl
    exact other (begins_of_front List.nil_prefix)
  constructor
  · intro same
    by_contra cut
    have restSize : (body.drop (body.length / chunkSize * chunkSize)).length =
        body.length % chunkSize := by
      rw [List.length_drop]
      omega
    have lines := congrArg List.flatten same
    rw [flatten_fileLines, List.flatten_cons, List.flatten_nil, List.append_nil] at lines
    have count := congrArg List.length lines
    rw [← solid, solid_append, solid_of_free fun member => newline (List.mem_of_mem_take member),
      List.length_take_of_le inside] at count
    have restNonempty : body.drop (body.length / chunkSize * chunkSize) ≠ [] := by
      apply List.ne_nil_of_length_pos
      omega
    have below : body.length % chunkSize < chunkSize := Nat.mod_lt _ (by decide)
    apply solid_copyLines_rest textLine textPlain short
      (fun member => newline (List.mem_of_mem_drop member))
      (fun member => plain (List.mem_of_mem_drop member)) restNonempty (by omega) full
    omega
  · intro whole
    have all : body.length / chunkSize * chunkSize = body.length := by omega
    rw [all, List.take_length, List.drop_length, List.nil_append,
      copyLines_text textLine textPlain short (.inr rfl), List.append_nil,
      fileLines_of_free newline nonempty]

omit textLine textPlain short in
theorem unfinished_line {body : List Char} (rest : List Char) :
    unfinished (body ++ '\n' :: rest) = unfinished rest := by
  have reversed : (body ++ '\n' :: rest).reverse = rest.reverse ++ '\n' :: body.reverse := by simp
  rw [unfinished, unfinished, reversed]
  rcases free_or_eq_append_cons '\n' rest.reverse with free | ⟨front, behind, free, equal⟩
  · rw [takeWhile_ne_append_cons free, takeWhile_ne_of_free free]
  · rw [equal, List.append_assoc, List.cons_append, takeWhile_ne_append_cons free,
      takeWhile_ne_append_cons free]

/-- A line that was appended is removed again, and nothing else, exactly when it begins a
line or a chunk. -/
theorem fileLines_appended_iff (plain : Free nul file) (distinct : Distinct text file)
    (missing : text ∉ fileLines file) :
    fileLines (copyLines text (file ++ text ++ ['\n'])) = fileLines file ↔
      unfinished file % chunkSize = 0 := by
  induction file using lines_induction with
  | empty =>
      rw [List.nil_append, copyLines_text textLine textPlain short (.inr rfl)]
      simp [unfinished]
  | last body newline nonempty =>
      rw [fileLines_of_free newline nonempty] at missing
      rw [Distinct, fileLines_of_free newline nonempty] at distinct
      have member := List.mem_singleton_self body
      have other := distinct body member fun same => missing (same ▸ member)
      have whole : unfinished body = body.length := by
        rw [unfinished, takeWhile_ne_of_free fun inside => newline (List.mem_reverse.mp inside),
          List.length_reverse]
      rw [fileLines_of_free newline nonempty, whole]
      exact fileLines_appended_last textLine textPlain short newline plain nonempty other
  | line body rest newline induction =>
      rw [free_append, free_cons] at plain
      rw [fileLines_line newline] at missing
      rw [Distinct, fileLines_line newline] at distinct
      have differs : body ≠ text := fun same => missing (same ▸ List.mem_cons_self)
      have copied := copyLines_line textLine textPlain short newline plain.1 (.inr rfl)
        (distinct body List.mem_cons_self)
      have later := induction plain.2.2
        (fun line member => distinct line (List.mem_cons_of_mem body member))
        fun member => missing (List.mem_cons_of_mem body member)
      rw [List.append_assoc, List.append_assoc, List.cons_append,
        copyLines_append_newline newline, copied, if_neg differs, List.append_assoc,
        List.singleton_append, fileLines_line newline, fileLines_line newline, unfinished_line,
        ← List.append_assoc, List.cons_inj_right]
      exact later

end Whole

/-! ## The functions -/

/-- A call that passes the checks: the names and the line are not too long, the domain is
found, its directory leaves room for the name of the file, and the line is one line. -/
structure AliasCall (lookup : DomainLookup) (aliasName domain aliasLine dir : List Char) :
    Prop where
  names : aliasNamesCode aliasName domain = none
  short : aliasLine.length < maxAliasLine
  found : (lookup domain).map Prod.snd = some dir
  roomy : Roomy dir
  newline : Free '\n' aliasLine
  plain : Free nul aliasLine

/-- Removing the line keeps all others, and undoes its insertion. -/
structure RemovesLine (lookup : DomainLookup) (aliasName domain aliasLine dir : List Char)
    (files : Files) : Prop where
  exact : ∀ after, vpaliasRemove lookup true aliasName domain aliasLine files = (0, after) →
    linesOf (after (aliasPath dir aliasName)) =
      (linesOf (files (aliasPath dir aliasName))).filter (· ≠ aliasLine)
  inverse : aliasLine ∉ linesOf (files (aliasPath dir aliasName)) → ∀ between after,
    vpaliasInsert lookup true aliasName domain aliasLine files = (0, between) →
    vpaliasRemove lookup true aliasName domain aliasLine between = (0, after) →
    linesOf (after (aliasPath dir aliasName)) = linesOf (files (aliasPath dir aliasName))

section Functions

variable {lookup : DomainLookup} {aliasName domain aliasLine dir : List Char} {files : Files}

theorem AliasCall.code (call : AliasCall lookup aliasName domain aliasLine dir) :
    aliasLineCode aliasName domain aliasLine = none := by
  rw [aliasLineCode, call.names]
  exact if_neg (Nat.not_le.mpr call.short)

variable (files) in
theorem vpaliasInsert_eq (call : AliasCall lookup aliasName domain aliasLine dir) :
    vpaliasInsert lookup true aliasName domain aliasLine files =
      (0, Function.update files (aliasPath dir aliasName)
        (some ((files (aliasPath dir aliasName)).getD [] ++ aliasLine ++ ['\n']))) := by
  rcases Option.map_eq_some_iff.mp call.found with ⟨⟨name, _⟩, found, rfl⟩
  simp only [vpaliasInsert, call.code, found, if_true]

theorem vpaliasRemove_eq (call : AliasCall lookup aliasName domain aliasLine dir)
    {text : List Char} (present : files (aliasPath dir aliasName) = some text) :
    vpaliasRemove lookup true aliasName domain aliasLine files =
      (0, Function.update
        (Function.update files (aliasPath dir aliasName ++ ['.', 'n', 'e', 'w']) none)
        (aliasPath dir aliasName) (some (copyLines aliasLine text))) := by
  rcases Option.map_eq_some_iff.mp call.found with ⟨⟨name, _⟩, found, rfl⟩
  simp only [vpaliasRemove, call.code, found, present, if_true]

theorem vpaliasRemove_missing (call : AliasCall lookup aliasName domain aliasLine dir)
    (missing : files (aliasPath dir aliasName) = none) :
    vpaliasRemove lookup true aliasName domain aliasLine files = (-1, files) := by
  rcases Option.map_eq_some_iff.mp call.found with ⟨⟨name, _⟩, found, rfl⟩
  simp only [vpaliasRemove, call.code, found, missing]

variable (files) in
theorem removes_exact_iff (call : AliasCall lookup aliasName domain aliasLine dir) :
    (∀ after, vpaliasRemove lookup true aliasName domain aliasLine files = (0, after) →
      linesOf (after (aliasPath dir aliasName)) =
        (linesOf (files (aliasPath dir aliasName))).filter (· ≠ aliasLine)) ↔
    fileLines (copyLines aliasLine ((files (aliasPath dir aliasName)).getD [])) =
      (linesOf (files (aliasPath dir aliasName))).filter (· ≠ aliasLine) := by
  cases present : files (aliasPath dir aliasName) with
  | none =>
      have failed := vpaliasRemove_missing call present
      refine ⟨fun _ => rfl, ?_⟩
      intro _ after ran
      rw [failed] at ran
      cases ran
  | some text =>
      have removed := vpaliasRemove_eq call present
      constructor
      · intro holds
        have exact := holds _ removed
        rw [Function.update_self] at exact
        exact exact
      · intro exact after ran
        rw [removed] at ran
        cases ran
        rw [Function.update_self]
        exact exact

variable (files) in
theorem removes_inserted_iff (call : AliasCall lookup aliasName domain aliasLine dir) :
    (∀ between after,
      vpaliasInsert lookup true aliasName domain aliasLine files = (0, between) →
      vpaliasRemove lookup true aliasName domain aliasLine between = (0, after) →
      linesOf (after (aliasPath dir aliasName)) = linesOf (files (aliasPath dir aliasName))) ↔
    fileLines (copyLines aliasLine
        ((files (aliasPath dir aliasName)).getD [] ++ aliasLine ++ ['\n'])) =
      linesOf (files (aliasPath dir aliasName)) := by
  have inserted := vpaliasInsert_eq files call
  have removed := vpaliasRemove_eq call (Function.update_self (aliasPath dir aliasName)
    (some ((files (aliasPath dir aliasName)).getD [] ++ aliasLine ++ ['\n'])) files)
  constructor
  · intro holds
    have same := holds _ _ inserted removed
    rw [Function.update_self] at same
    exact same
  · intro same between after first second
    rw [inserted] at first
    cases first
    rw [removed] at second
    cases second
    rw [Function.update_self]
    exact same

/-- The line alone is removed, and its insertion undone, exactly when the file is a text in
which no other line has it where a chunk starts, and a new line does not continue the last. -/
theorem removesLine_iff (call : AliasCall lookup aliasName domain aliasLine dir) :
    RemovesLine lookup aliasName domain aliasLine dir files ↔
      Free nul ((files (aliasPath dir aliasName)).getD []) ∧
      Distinct aliasLine ((files (aliasPath dir aliasName)).getD []) ∧
      (aliasLine ∉ linesOf (files (aliasPath dir aliasName)) →
        unfinished ((files (aliasPath dir aliasName)).getD []) % chunkSize = 0) := by
  have short : aliasLine.length < chunkSize := Nat.lt_trans call.short (by decide)
  have exact := removes_exact_iff files call
  have inserted := removes_inserted_iff files call
  have lines : fileLines (copyLines aliasLine ((files (aliasPath dir aliasName)).getD [])) =
      (linesOf (files (aliasPath dir aliasName))).filter (· ≠ aliasLine) ↔ _ :=
    fileLines_copyLines_iff call.newline call.plain short
  constructor
  · rintro ⟨removes, restores⟩
    rcases lines.mp (exact.mp removes) with ⟨plain, distinct⟩
    refine ⟨plain, distinct, fun missing => ?_⟩
    exact (fileLines_appended_iff call.newline call.plain short plain distinct missing).mp
      (inserted.mp (restores missing))
  · rintro ⟨plain, distinct, whole⟩
    refine ⟨exact.mpr (lines.mpr ⟨plain, distinct⟩), fun missing => inserted.mpr ?_⟩
    exact (fileLines_appended_iff call.newline call.plain short plain distinct missing).mpr
      (whole missing)

end Functions

/-! ## A longer line -/

/-- A domain whose directory is `/d`. -/
def lookupAt (domain : List Char) : Option (List Char × List Char) := some (domain, ['/', 'd'])

/-- The files of an alias `x` with one line. -/
def oneAlias (line : List Char) : Files :=
  Function.update (fun _ => none) (aliasPath ['/', 'd'] ['x']) (some (line ++ ['\n']))

theorem aliasCall_lookupAt {aliasLine : List Char} (short : aliasLine.length < maxAliasLine)
    (newline : Free '\n' aliasLine) (plain : Free nul aliasLine) :
    AliasCall lookupAt ['x'] ['a', '.', 'b'] aliasLine ['/', 'd'] :=
  ⟨by decide, short, rfl, by decide, newline, plain⟩

theorem removesLine_iff_ab :
    RemovesLine lookupAt ['x'] ['a', '.', 'b'] ['a'] ['/', 'd'] (oneAlias ['a', 'b']) ↔
      Free nul ((oneAlias ['a', 'b'] (aliasPath ['/', 'd'] ['x'])).getD []) ∧
      Distinct ['a'] ((oneAlias ['a', 'b'] (aliasPath ['/', 'd'] ['x'])).getD []) ∧
      (['a'] ∉ linesOf (oneAlias ['a', 'b'] (aliasPath ['/', 'd'] ['x'])) →
        unfinished ((oneAlias ['a', 'b'] (aliasPath ['/', 'd'] ['x'])).getD []) % chunkSize = 0) :=
  removesLine_iff (aliasCall_lookupAt (by decide) (by decide) (by decide))

/-- The line `ab` is removed with `a`. -/
theorem not_removesLine :
    ¬ ∀ (lookup : DomainLookup) (aliasName domain aliasLine dir : List Char) (files : Files),
      AliasCall lookup aliasName domain aliasLine dir →
      RemovesLine lookup aliasName domain aliasLine dir files := by
  intro removes
  have call : AliasCall lookupAt ['x'] ['a', '.', 'b'] ['a'] ['/', 'd'] :=
    aliasCall_lookupAt (by decide) (by decide) (by decide)
  have exact := (removes _ _ _ _ _ (oneAlias ['a', 'b']) call).exact _
    (vpaliasRemove_eq call (Function.update_self _ _ _))
  rw [Function.update_self] at exact
  exact absurd exact (by decide)

end Vpopmail
