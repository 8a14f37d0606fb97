import Vpopmail.Qnprintf

/-! # The formats of queries

What `qnprintf` makes of a format that consists of plain text and of the conversions `%%`,
`%s`, `%d`, `%i`, `%u`, `%ld`, `%li` and `%lu`.
-/

namespace Vpopmail.Qnprintf

open Text Buffer Decimal SqlLiteral

/-- The two letters of a signed conversion. -/
inductive Signed
  | d
  | i

def Signed.letter : Signed → Char
  | .d => 'd'
  | .i => 'i'

/-- A part of a format, with the argument it takes. -/
inductive Piece
  | literal (char : Char) (plain : char ∉ ['%', nul])
  | percent
  | string (text : CString)
  | int (signed : Signed) (value : BitVec 32)
  | unsigned (value : BitVec 32)
  | long (signed : Signed) (value : BitVec 64)
  | unsignedLong (value : BitVec 64)

namespace Piece

def format : Piece → List Char
  | .literal char _ => [char]
  | .percent => ['%', '%']
  | .string _ => ['%', 's']
  | .int signed _ => ['%', signed.letter]
  | .unsigned _ => ['%', 'u']
  | .long signed _ => ['%', 'l', signed.letter]
  | .unsignedLong _ => ['%', 'l', 'u']

def arguments : Piece → List Arg
  | .literal _ _ | .percent => []
  | .string text => [.string text]
  | .int _ value | .unsigned value => [.int value]
  | .long _ value | .unsignedLong value => [.long value]

/-- What the piece stands for. -/
def expansion : Piece → List Char
  | .literal char _ => [char]
  | .percent => ['%']
  | .string text => escape escapeChars text
  | .int _ value => spellInt value.toInt
  | .unsigned value => spellNat value.toNat
  | .long _ value => spellInt value.toInt
  | .unsignedLong value => spellNat value.toNat

/-- What is printed for it: `n` is one character too short for the longest numbers. -/
def printed : Piece → List Char
  | .long _ value => snprintf numberSize (spellInt value.toInt)
  | .unsignedLong value => snprintf numberSize (spellNat value.toNat)
  | piece => piece.expansion

/-- The number fits in `n`. -/
def Short : Piece → Prop
  | .long _ value => -10 ^ 18 < value.toInt
  | .unsignedLong value => value.toNat < 10 ^ 19
  | _ => True

instance decidableShort : (piece : Piece) → Decidable piece.Short
  | .long _ value => inferInstanceAs (Decidable (-10 ^ 18 < value.toInt))
  | .unsignedLong value => inferInstanceAs (Decidable (value.toNat < 10 ^ 19))
  | .literal _ _ | .percent | .string _ | .int _ _ | .unsigned _ => .isTrue trivial

end Piece

def format (pieces : List Piece) : List Char := pieces.flatMap Piece.format

def arguments (pieces : List Piece) : List Arg := pieces.flatMap Piece.arguments

/-- The full expansion. -/
def expansion (pieces : List Piece) : List Char := pieces.flatMap Piece.expansion

def printed (pieces : List Piece) : List Char := pieces.flatMap Piece.printed

/-! ## Numbers -/

theorem not_mem_escapeChars {char : Char} (number : char = '-' ∨ char.isDigit = true) :
    char ∉ escapeChars := by
  intro member
  have special : char = '\'' ∨ char = '"' ∨ char = '\\' := by
    simpa only [escapeChars, List.mem_cons, List.not_mem_nil, or_false] using member
  rcases number with rfl | digit
  · revert special
    decide
  · rcases special with rfl | rfl | rfl <;> revert digit <;> decide

theorem escape_snprintf {text : List Char}
    (number : ∀ char ∈ text, char = '-' ∨ char.isDigit = true) (size : Nat) :
    escape escapeChars (snprintf size text) = snprintf size text :=
  escape_of_free fun char member => not_mem_escapeChars (number char (List.mem_of_mem_take member))

theorem escape_spellInt (value : Int) (size : Nat) :
    escape escapeChars (snprintf size (spellInt value)) = snprintf size (spellInt value) :=
  escape_snprintf (fun _ member => mem_spellInt member) size

theorem escape_spellNat (value : Nat) (size : Nat) :
    escape escapeChars (snprintf size (spellNat value)) = snprintf size (spellNat value) :=
  escape_snprintf (fun _ member => .inr (isDigit_of_mem_spellNat member)) size

theorem snprintf_short {text : List Char} (short : text.length < numberSize) :
    snprintf numberSize text = text :=
  List.take_of_length_le (Nat.le_sub_one_of_lt short)

theorem snprintf_int (value : BitVec 32) :
    snprintf numberSize (spellInt value.toInt) = spellInt value.toInt := by
  have digits := length_spellInt_le (BitVec.le_toInt value) (BitVec.toInt_lt (x := value))
  exact snprintf_short (Nat.lt_of_le_of_lt digits (by decide))

theorem snprintf_unsigned (value : BitVec 32) :
    snprintf numberSize (spellNat value.toNat) = spellNat value.toNat := by
  have bound : value.toNat < 10 ^ 10 := Nat.lt_trans value.isLt (by decide)
  exact snprintf_short (Nat.lt_of_le_of_lt (length_spellNat_le (by decide) bound) (by decide))

/-! ## One piece -/

section Step

variable {size : BitVec 64} {old : List Char}

theorem scan_literal (room : old.length = size.toNat) {char : Char} (plain : char ≠ '%')
    (rounds : Nat) (f : List Char) (ap : List Arg) (text : List Char) :
    (reached size old text).bind (scan size (rounds + 1) (char :: f) ap) =
      (reached size old (text ++ [char])).bind (scan size rounds f ap) := by
  rw [← reached_put room, ← bind_bind]
  simp only [scan, if_pos plain]

theorem scan_conversion (room : old.length = size.toNat) {f rest s : List Char}
    {ap others : List Arg} (converted : conversion ap f = .ok (s, rest, others)) (rounds : Nat)
    (text : List Char) :
    (reached size old text).bind (scan size (rounds + 1) ('%' :: f) ap) =
      (reached size old (text ++ escape escapeChars s)).bind (scan size rounds rest others) := by
  rw [← reached_putString room, ← bind_bind]
  simp only [scan, if_neg (not_not_intro rfl : ¬('%' : Char) ≠ '%'), converted]
  rfl

/-- What one round of the loop makes of a piece. -/
theorem scan_piece (room : old.length = size.toNat) (piece : Piece) (rounds : Nat)
    (f : List Char) (ap : List Arg) (text : List Char) :
    (reached size old text).bind
        (scan size (rounds + 1) (piece.format ++ f) (piece.arguments ++ ap)) =
      (reached size old (text ++ piece.printed)).bind (scan size rounds f ap) := by
  cases piece with
  | literal char plain =>
      have notPercent : char ≠ '%' := fun equal => plain (equal ▸ List.mem_cons_self)
      exact scan_literal room notPercent rounds f ap text
  | percent =>
      have converted : conversion ap ('%' :: f) = .ok (['%'], f, ap) := rfl
      exact scan_conversion room converted rounds text
  | string value =>
      have converted : conversion (.string value :: ap) ('s' :: f) = .ok (value, f, ap) := rfl
      exact scan_conversion room converted rounds text
  | int signed value =>
      have converted : conversion (.int value :: ap) (signed.letter :: f) =
          .ok (snprintf numberSize (spellInt value.toInt), f, ap) := by
        cases signed <;> rfl
      have step := scan_conversion room converted rounds text
      rwa [escape_spellInt, snprintf_int] at step
  | unsigned value =>
      have converted : conversion (.int value :: ap) ('u' :: f) =
          .ok (snprintf numberSize (spellNat value.toNat), f, ap) := rfl
      have step := scan_conversion room converted rounds text
      rwa [escape_spellNat, snprintf_unsigned] at step
  | long signed value =>
      have converted : conversion (.long value :: ap) ('l' :: signed.letter :: f) =
          .ok (snprintf numberSize (spellInt value.toInt), f, ap) := by
        cases signed <;> rfl
      have step := scan_conversion room converted rounds text
      rwa [escape_spellInt] at step
  | unsignedLong value =>
      have converted : conversion (.long value :: ap) ('l' :: 'u' :: f) =
          .ok (snprintf numberSize (spellNat value.toNat), f, ap) := rfl
      have step := scan_conversion room converted rounds text
      rwa [escape_spellNat] at step

theorem scan_pieces (room : old.length = size.toNat) (pieces : List Piece) {rounds : Nat}
    (enough : pieces.length ≤ rounds) (text : List Char) :
    (reached size old text).bind (scan size rounds (format pieces) (arguments pieces)) =
      reached size old (text ++ printed pieces) := by
  induction pieces generalizing rounds text with
  | nil =>
      have finished : scan size rounds [] [] = fun out => .ok out := by
        cases rounds <;> rfl
      rw [printed, List.flatMap_nil, List.append_nil, format, arguments, List.flatMap_nil,
        List.flatMap_nil, finished]
      exact bind_ok _
  | cons piece pieces induction =>
      cases rounds with
      | zero => cases enough
      | succ rounds =>
          have rest := induction (Nat.le_of_succ_le_succ enough) (text ++ piece.printed)
          rw [List.append_assoc] at rest
          exact (scan_piece room piece rounds _ _ text).trans rest

end Step

theorem length_le_length_format (pieces : List Piece) : pieces.length ≤ (format pieces).length := by
  induction pieces with
  | nil => exact Nat.le_refl 0
  | cons piece pieces induction =>
      have positive : 0 < piece.format.length := by cases piece <;> exact Nat.zero_lt_succ _
      rw [format, List.flatMap_cons, List.length_append, List.length_cons]
      rw [format] at induction
      omega

/-! ## Numbers that are cut -/

theorem length_spellInt_lt_iff {value : Int} (upper : value < 2 ^ 63) :
    (spellInt value).length < numberSize ↔ -10 ^ 18 < value := by
  cases value with
  | ofNat value =>
      have digits : (spellNat value).length ≤ 19 := by
        rw [length_spellNat_le_iff (by decide)]
        rw [Int.ofNat_eq_natCast] at upper
        omega
      rw [spellInt, numberSize, Int.ofNat_eq_natCast]
      omega
  | negSucc value =>
      have digits : (spellNat (value + 1)).length ≤ 18 ↔ value + 1 < 10 ^ 18 :=
        length_spellNat_le_iff (by decide)
      rw [spellInt, List.length_cons, numberSize]
      omega

theorem length_snprintf_lt {text : List Char} (long : ¬text.length < numberSize) :
    (snprintf numberSize text).length < text.length := by
  rw [snprintf, List.length_take, numberSize]
  rw [numberSize] at long
  omega

namespace Piece

theorem printed_of_short {piece : Piece} (short : piece.Short) :
    piece.printed = piece.expansion := by
  cases piece with
  | long signed value => exact snprintf_short ((length_spellInt_lt_iff BitVec.toInt_lt).mpr short)
  | unsignedLong value =>
      exact snprintf_short (Nat.lt_succ_of_le ((length_spellNat_le_iff (by decide)).mpr short))
  | literal _ _ | percent | string _ | int _ _ | unsigned _ => rfl

theorem length_printed_lt {piece : Piece} (long : ¬piece.Short) :
    piece.printed.length < piece.expansion.length := by
  cases piece with
  | long signed value =>
      exact length_snprintf_lt (mt (length_spellInt_lt_iff BitVec.toInt_lt).mp long)
  | unsignedLong value =>
      have wide : ¬(spellNat value.toNat).length < numberSize := by
        intro short
        exact long ((length_spellNat_le_iff (by decide)).mp (Nat.le_of_lt_succ short))
      exact length_snprintf_lt wide
  | literal _ _ | percent | string _ | int _ _ | unsigned _ => exact absurd trivial long

theorem length_printed_le (piece : Piece) : piece.printed.length ≤ piece.expansion.length := by
  by_cases short : piece.Short
  · exact Nat.le_of_eq (congrArg List.length (printed_of_short short))
  · exact Nat.le_of_lt (length_printed_lt short)

end Piece

theorem printed_of_short {pieces : List Piece} (short : ∀ piece ∈ pieces, piece.Short) :
    printed pieces = expansion pieces := by
  induction pieces with
  | nil => rfl
  | cons piece pieces induction =>
      rw [List.forall_mem_cons] at short
      rw [printed, expansion, List.flatMap_cons, List.flatMap_cons, ← printed, ← expansion,
        Piece.printed_of_short short.1, induction short.2]

theorem length_printed_le (pieces : List Piece) :
    (printed pieces).length ≤ (expansion pieces).length := by
  induction pieces with
  | nil => exact Nat.le_refl 0
  | cons piece pieces induction =>
      rw [printed, expansion, List.flatMap_cons, List.flatMap_cons, ← printed, ← expansion,
        List.length_append, List.length_append]
      exact Nat.add_le_add piece.length_printed_le induction

theorem short_of_length_printed {pieces : List Piece}
    (equal : (printed pieces).length = (expansion pieces).length) :
    ∀ piece ∈ pieces, piece.Short := by
  induction pieces with
  | nil => exact List.forall_mem_nil _
  | cons piece pieces induction =>
      rw [printed, expansion, List.flatMap_cons, List.flatMap_cons, ← printed, ← expansion,
        List.length_append, List.length_append] at equal
      have front := piece.length_printed_le
      have back := length_printed_le pieces
      rw [List.forall_mem_cons]
      constructor
      · by_contra long
        have cut := Piece.length_printed_lt long
        omega
      · exact induction (by omega)

/-! ## Strings without terminators -/

theorem free_escape {text : List Char} (free : Free nul text) :
    Free nul (escape escapeChars text) := by
  induction text with
  | nil => exact free_nil nul
  | cons char text induction =>
      rw [free_cons] at free
      have rest := induction free.2
      rw [escape]
      split
      · rw [free_cons, free_cons]
        exact ⟨by decide, free.1, rest⟩
      · rw [free_cons]
        exact ⟨free.1, rest⟩

theorem Piece.free_expansion (piece : Piece) : Free nul piece.expansion := by
  have digits : ∀ value, Free nul (spellInt value) :=
    fun value => not_mem_spellInt (by decide) (by decide) value
  cases piece with
  | literal char plain =>
      rw [expansion, free_cons]
      exact ⟨fun equal => plain (equal ▸ by decide), free_nil nul⟩
  | percent => decide
  | string text => exact free_escape text.2
  | int signed value => exact digits value.toInt
  | unsigned value => exact digits (.ofNat value.toNat)
  | long signed value => exact digits value.toInt
  | unsignedLong value => exact digits (.ofNat value.toNat)

theorem free_expansion (pieces : List Piece) : Free nul (expansion pieces) := by
  intro member
  rcases List.mem_flatMap.mp member with ⟨piece, _, inside⟩
  exact piece.free_expansion inside

/-! ## The call -/

/-- A buffer of the size that is told, which is null at most for the size zero. -/
structure Target where
  size : BitVec 64
  buffer : Option (List Char)
  sized : (buffer.getD []).length = size.toNat

/-- The complete text when it fits with its terminator, and nothing but zeros else. -/
structure Holds (target : Target) (text : List Char) (buffer : Option (List Char)) : Prop where
  cells : buffer.map List.length = target.buffer.map List.length
  complete : text.length < target.size.toNat → text ++ [nul] <+: buffer.getD []
  zeros : target.size.toNat ≤ text.length →
    buffer.getD [] = List.replicate target.size.toNat nul

/-- The call returns the length of the full expansion and leaves all of it, or nothing. -/
def PrintsAll (target : Target) (pieces : List Piece) : Prop :=
  ∃ buffer, qnprintf target.buffer target.size (format pieces) (arguments pieces) =
      .ok (((expansion pieces).length : Nat), buffer) ∧
    Holds target (expansion pieces) buffer

/-- Every special character of the argument is escaped, and in a literal between two quotes
of either kind the argument is read back and the literal ends behind it. -/
structure Harmless (text : List Char) : Prop where
  escaped : ∀ before char behind, text = before ++ char :: behind → char ∈ escapeChars →
    escape escapeChars text =
      escape escapeChars before ++ '\\' :: char :: escape escapeChars behind
  readBack : ∀ quote ∈ ['\'', '"'], ∀ rest : List Char, rest.head? ≠ some quote →
    readLiteral quote (escape escapeChars text ++ quote :: rest) = some (text, rest)

/-- Where the call meets its purpose. -/
structure Covered (target : Target) (pieces : List Piece) : Prop where
  room : target.size ≠ 0
  short : ∀ piece ∈ pieces, piece.Short
  counted : (expansion pieces).length ≤ intMax
  told : expansion pieces = [] ∨ ((expansion pieces).length : Int) < intSize target.size ∨
    target.size.toNat ≤ (expansion pieces).length

theorem harmless (text : List Char) : Harmless text where
  escaped := by
    intro before char behind equal special
    rw [equal, escape_append, escape_cons_mem special]
  readBack := by
    intro quote quoted rest closed
    have special : quote ∈ escapeChars := by
      revert quoted
      simp only [escapeChars, List.mem_cons]
      tauto
    have notBackslash : quote ≠ '\\' := by
      intro equal
      rw [equal] at quoted
      revert quoted
      decide
    have itself : ∀ char ∈ escapeChars, meaning char = [char] := by
      simp only [escapeChars, List.forall_mem_cons]
      exact ⟨rfl, rfl, rfl, List.forall_mem_nil _⟩
    exact readLiteral_escape itself (by decide) special notBackslash text closed

section Call

variable {target : Target}

/-- The scanner starts with nothing printed. -/
theorem start_eq (cells : List Char) (size : BitVec 64) :
    reached size cells [] = .ok ⟨cells, 0, 0⟩ := by
  have counted : ([] : List Char).length ≤ intMax := Nat.zero_le _
  rw [reached, if_pos counted, after, List.take_nil]
  rfl

theorem qnprintf_scanned (target : Target) (pieces : List Piece) :
    qnprintf target.buffer target.size (format pieces) (arguments pieces) =
      (reached target.size (target.buffer.getD []) (printed pieces)).bind (finish target.size) := by
  have present : ¬(target.buffer = none ∧ target.size ≠ 0) := by
    intro null
    have sized := target.sized
    rw [null.1] at sized
    exact null.2 (BitVec.eq_of_toNat_eq sized.symm)
  have scanned := scan_pieces target.sized pieces (length_le_length_format pieces) []
  rw [start_eq, List.nil_append] at scanned
  rw [qnprintf, if_neg present, ← scanned]
  rfl

/-- The terminator behind what is printed. -/
theorem poke_after (room : target.size ≠ 0) (text : List Char) :
    poke (after target.size (target.buffer.getD []) text).position nul
        (after target.size (target.buffer.getD []) text).cells =
      .ok (storeChunk (target.buffer.getD []) (text.take (limit target.size))) := by
  have below := limit_lt room
  have inside : (text.take (limit target.size)).length < (target.buffer.getD []).length := by
    rw [target.sized, List.length_take]
    omega
  rw [after]
  simp only
  rw [List.drop_eq_getElem_cons inside, poke_append]
  rfl

theorem clear_storeChunk (room : target.size ≠ 0) (text : List Char) :
    clear target.size.toNat
        (storeChunk (target.buffer.getD []) (text.take (limit target.size))) =
      .ok (List.replicate target.size.toNat nul) := by
  have below := limit_lt room
  have inside : (text.take (limit target.size)).length < (target.buffer.getD []).length := by
    rw [target.sized, List.length_take]
    omega
  have length := (length_storeChunk inside).trans target.sized
  rw [clear, if_pos (Nat.le_of_eq length.symm), ← length, List.drop_length, List.append_nil]

/-- The result and the buffer of every call. -/
theorem qnprintf_eq (room : target.size ≠ 0) (pieces : List Piece) :
    qnprintf target.buffer target.size (format pieces) (arguments pieces) =
      if (printed pieces).length ≤ intMax then
        .ok (((printed pieces).length : Nat), some (
          if intSize target.size ≤ (printed pieces).length then
            List.replicate target.size.toNat nul
          else storeChunk (target.buffer.getD []) (printed pieces)))
      else .error .overflow := by
  rw [qnprintf_scanned, reached]
  by_cases counted : (printed pieces).length ≤ intMax
  · rw [if_pos counted, if_pos counted]
    change finish _ _ = _
    rw [finish, poke_after room, after_printed]
    change (if _ then Except.map _ (Except.mapError _ (clear _ _)) else _) = _
    by_cases tooLong : intSize target.size ≤ (printed pieces).length
    · rw [if_pos tooLong, if_pos tooLong, clear_storeChunk room]
      rfl
    · have whole : (printed pieces).take (limit target.size) = printed pieces := by
        apply List.take_of_length_le
        rw [limit]
        omega
      rw [if_neg tooLong, if_neg tooLong, whole]
  · rw [if_neg counted, if_neg counted]
    rfl

/-- Without room, the terminator has no place. -/
theorem qnprintf_error (empty : target.size = 0) (pieces : List Piece) :
    ∀ result, qnprintf target.buffer target.size (format pieces) (arguments pieces) ≠
      .ok result := by
  intro result
  have nothing : target.buffer.getD [] = [] := by
    rw [← List.length_eq_zero_iff, target.sized, empty]
    rfl
  have cells : (after target.size [] (printed pieces)).cells = [] := by
    rw [after, empty, List.drop_nil, List.append_nil]
    exact List.take_zero (l := printed pieces)
  rw [qnprintf_scanned, reached, nothing]
  split
  · intro finished
    change finish _ _ = _ at finished
    rw [finish, cells] at finished
    cases finished
  · intro finished
    cases finished

theorem exists_buffer (room : target.size ≠ 0) :
    ∃ old, target.buffer = some old ∧ old.length = target.size.toNat := by
  have sized := target.sized
  cases present : target.buffer with
  | none =>
      rw [present] at sized
      exact absurd (BitVec.eq_of_toNat_eq sized.symm) room
  | some old =>
      rw [present] at sized
      exact ⟨old, rfl, sized⟩

/-- What is left in the buffer is right, unless the size as an `int` hides that a text fits. -/
theorem holds_iff (room : target.size ≠ 0) {text : List Char} (free : Free nul text) :
    Holds target text (some (
        if intSize target.size ≤ text.length then List.replicate target.size.toNat nul
        else storeChunk (target.buffer.getD []) text)) ↔
      text = [] ∨ (text.length : Int) < intSize target.size ∨
        target.size.toNat ≤ text.length := by
  obtain ⟨old, present, sized⟩ := exists_buffer room
  have bound := intSize_le target.size
  have positive : 0 < target.size.toNat :=
    Nat.pos_of_ne_zero fun zero => room (BitVec.eq_of_toNat_eq zero)
  by_cases tooLong : intSize target.size ≤ text.length
  · rw [if_pos tooLong]
    constructor
    · intro holds
      by_contra none
      rw [not_or, not_or] at none
      have front := holds.complete (Nat.lt_of_not_le none.2.2)
      rw [Option.getD_some] at front
      cases text with
      | nil => exact none.1 rfl
      | cons char text =>
          have member : char ∈ List.replicate target.size.toNat nul :=
            front.subset List.mem_cons_self
          exact (free_cons.mp free).1 (List.eq_of_mem_replicate member).symm
    · intro told
      constructor
      · rw [present, Option.map_some, Option.map_some, List.length_replicate, sized]
      · intro fits
        rcases told with rfl | below | long
        · rw [Option.getD_some, List.nil_append, ← Nat.succ_pred_eq_of_pos positive,
            List.replicate_succ]
          exact List.prefix_append [nul] _
        · omega
        · omega
      · intro _
        rfl
  · have fits : text.length < old.length := by omega
    have told : (text.length : Int) < intSize target.size := by omega
    rw [if_neg tooLong]
    refine iff_of_true ?_ (.inr (.inl told))
    constructor
    · rw [present, Option.map_some, Option.map_some, Option.getD_some, length_storeChunk fits]
    · intro _
      rw [Option.getD_some, storeChunk]
      exact (List.prefix_append_right_inj text).mpr (List.prefix_append [nul] _)
    · intro long
      omega

/-- `n` holds the 19 characters of a number, and only 18 digits behind a sign; an `int` counts
the characters and holds the size; and the terminator is written without asking for room. -/
theorem qnprintf_prints_iff (target : Target) (pieces : List Piece) :
    (∀ text, Piece.string text ∈ pieces → Harmless text) ∧
      (PrintsAll target pieces ↔ Covered target pieces) := by
  refine ⟨fun text _ => harmless text, ?_⟩
  constructor
  · intro prints
    rcases prints with ⟨buffer, called, holds⟩
    have room : target.size ≠ 0 := fun empty => qnprintf_error empty pieces _ called
    rw [qnprintf_eq room] at called
    by_cases counted : (printed pieces).length ≤ intMax
    · rw [if_pos counted, Except.ok.injEq, Prod.mk.injEq, Int.natCast_inj] at called
      have short := short_of_length_printed called.1
      have whole := printed_of_short short
      rw [whole] at called counted
      rw [← called.2, holds_iff room (free_expansion pieces)] at holds
      exact ⟨room, short, counted, holds⟩
    · rw [if_neg counted] at called
      cases called
  · intro covered
    refine ⟨_, ?_, (holds_iff covered.room (free_expansion pieces)).mpr covered.told⟩
    rw [qnprintf_eq covered.room, printed_of_short covered.short, if_pos covered.counted]

end Call

/-- The least `long` loses its last digit in a buffer with room for all of it. -/
theorem qnprintf_cuts_least :
    ¬PrintsAll ⟨32, some (List.replicate 32 nul), rfl⟩ [.long .d (BitVec.intMin 64)] := by
  intro prints
  rcases prints with ⟨buffer, called, _⟩
  have cut : (qnprintf (some (List.replicate 32 nul)) 32 ['%', 'l', 'd']
      [.long (BitVec.intMin 64)]).map Prod.fst = .ok 19 := by
    decide
  have full : (expansion [.long .d (BitVec.intMin 64)]).length = 20 := by decide
  have length := Except.ok.inj (cut.symm.trans (congrArg (Except.map Prod.fst) called))
  rw [full] at length
  cases length

end Vpopmail.Qnprintf
