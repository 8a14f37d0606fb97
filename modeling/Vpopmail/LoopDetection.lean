import Vpopmail.EmailAgreement
import Vpopmail.Vdelivermail

/-! # Looping messages

`is_looping` reads the header in pieces of 155 characters and compares each of them with
the line that a delivery to the address would have added. A longer line is compared in
parts, and a part that is only a newline ends the header.
-/

namespace Vpopmail.Vdelivermail

open Vpopmail Text Vpopmail.Stream

/-! ## The check -/

/-- `FILE_SIZE`, the size of `loop_buf`. -/
def fileSize : Nat := 156

/-- What `is_looping` is asked and what it reads. Standard input has been read to its end
when an earlier call did not stop in front of it: the stream then stays there, whatever
`lseek` does to the descriptor. -/
structure LoopCheck where
  dtline : Option (List Char)
  message : List Char
  endSeen : Bool
  address : List Char
  addressEnded : Free nul address

/-- `is_loop_match`, with its buffer of 255 cells. -/
def isLoopMatch (dt address : List Char) : Bool :=
  sameText (dt.take 14) deliveredTo && sameText ((address ++ ['\n']).take 254) (dt.drop 14)

def endsHeader (piece : List Char) : Bool :=
  piece.head? = some '\r' || piece.head? = some '\n'

/-- The loop over the pieces in `loop_buf`. -/
def scanPieces (address : List Char) : List (List Char) → Bool
  | [] => false
  | piece :: pieces =>
      if isLoopMatch (cstring piece) address then true
      else if endsHeader piece then false
      else scanPieces address pieces

/-- The address behind the mark of a forward. -/
def unmarked : List Char → List Char
  | '&' :: address => address
  | address => address

/-- Whether `is_looping` returns 1. -/
def isLooping (check : LoopCheck) : Bool :=
  let address := unmarked check.address
  if check.dtline.any (isLoopMatch · address) then true
  else scanPieces address (if check.endSeen then [] else fgetsLoop fileSize check.message)

/-! ## Lines that name the address -/

def delivered (address line : List Char) : Bool := sameText line (deliveredTo ++ address)

/-- The lines in front of the first empty one. -/
def headerLines (message : List Char) : List (List Char) :=
  (fileLines message).takeWhile fun line => !(line = [] || line = ['\r'])

/-- The message has been delivered to the address before: `DTLINE` says so, with or
without its newline, or a line of the header does. -/
def Loops (check : LoopCheck) : Prop :=
  (∃ value, check.dtline = some value ∧ (delivered (unmarked check.address) value = true ∨
      ∃ line, value = line ++ ['\n'] ∧ delivered (unmarked check.address) line = true)) ∨
    ∃ line ∈ headerLines check.message, delivered (unmarked check.address) line = true

/-! ## Pieces of a line -/

/-- Some piece of the text passes for the end of the header. -/
def Breaks (text : List Char) : Prop :=
  ∃ front char rest, text = front ++ char :: rest ∧ fileSize - 1 ∣ front.length ∧
    (char = '\r' ∨ char = '\n')

/-- The last piece of a line is whole and names the address, and is reached. -/
def Shows (address line : List Char) : Prop :=
  ∃ front last, line = front ++ (last ++ ['\n']) ∧ fileSize - 1 ∣ front.length ∧
    (last ++ ['\n']).length < fileSize ∧ delivered address last = true ∧ ¬Breaks front

theorem isLoopMatch_iff (dt address : List Char) :
    isLoopMatch dt address = true ↔
      sameText dt (deliveredTo ++ (address ++ ['\n']).take 254) = true := by
  rw [isLoopMatch, Bool.and_eq_true, sameText_eq_true, sameText_eq_true, sameText_eq_true,
    List.map_append]
  constructor
  · intro parts
    rw [← parts.1, parts.2, ← List.map_append, List.take_append_drop]
  · intro whole
    have split : dt.map lowerChar = (dt.take 14).map lowerChar ++ (dt.drop 14).map lowerChar := by
      rw [← List.map_append, List.take_append_drop]
    have long := congrArg List.length whole
    have width : deliveredTo.length = 14 := rfl
    rw [List.length_append, List.length_map, List.length_map, width] at long
    rw [split] at whole
    have parts := List.append_inj whole (by
      rw [List.length_map, List.length_map, List.length_take_of_le (by omega), width])
    exact ⟨parts.1, parts.2.symm⟩

theorem free_of_sameText {char : Char} (small : char.toNat < 65) {left right : List Char}
    (same : sameText left right = true) (free : Free char right) : Free char left := by
  rw [sameText_eq_true] at same
  intro member
  have lowered : lowerChar char ∈ left.map lowerChar := List.mem_map_of_mem member
  rw [same] at lowered
  rcases List.mem_map.mp lowered with ⟨other, inside, equal⟩
  have kept : lowerChar char = char := (lowerChar_eq_iff small).mpr rfl
  rw [kept, lowerChar_eq_iff small] at equal
  exact free (equal ▸ inside)

theorem sameText_newline_iff {text line : List Char} :
    sameText text (line ++ ['\n']) = true ↔
      ∃ body, text = body ++ ['\n'] ∧ sameText body line = true := by
  constructor
  · intro same
    rw [sameText_eq_true, List.map_append] at same
    rcases List.map_eq_append_iff.mp same with ⟨body, last, rfl, front, ended⟩
    rcases List.map_eq_singleton_iff.mp ended with ⟨char, rfl, newline⟩
    have kept : char = '\n' := (lowerChar_eq_iff (by decide)).mp newline
    exact ⟨body, by rw [kept], sameText_eq_true.mpr front⟩
  · intro parts
    rcases parts with ⟨body, rfl, same⟩
    rw [sameText_eq_true] at same ⊢
    rw [List.map_append, List.map_append, same]

/-- A piece matches when it is the whole line of a delivery. -/
theorem isLoopMatch_piece_iff {address body tail : List Char} (ended : Free nul address)
    (free : Free '\n' body) (ends : Ends tail) (fits : (body ++ tail).length < fileSize) :
    isLoopMatch (cstring (body ++ tail)) address = true ↔
      tail = ['\n'] ∧ delivered address body = true := by
  have width : deliveredTo.length = 14 := rfl
  have size : fileSize = 156 := rfl
  have shorter : (cstring (body ++ tail)).length ≤ (body ++ tail).length :=
    (List.takeWhile_prefix _).length_le
  rw [isLoopMatch_iff, delivered]
  constructor
  · intro same
    have lengths := congrArg List.length (sameText_eq_true.mp same)
    rw [List.length_map, List.length_map, List.length_append, List.length_take, width] at lengths
    have short : (address ++ ['\n']).length ≤ 254 := by omega
    rw [List.take_of_length_le short, ← List.append_assoc, sameText_newline_iff] at same
    rcases same with ⟨front, spelled, named⟩
    have reached : '\n' ∈ cstring (body ++ tail) := by
      rw [spelled]
      exact List.mem_append_right _ (List.mem_singleton_self _)
    have inside : '\n' ∈ body ++ tail := (List.takeWhile_prefix _).subset reached
    rcases ends with rfl | rfl
    · rw [List.append_nil] at inside
      exact absurd inside free
    · rcases List.takeWhile_prefix (p := (· ≠ nul)) (l := body ++ ['\n']) with ⟨more, split⟩
      change cstring (body ++ ['\n']) ++ more = body ++ ['\n'] at split
      rw [spelled, List.append_assoc, List.singleton_append] at split
      have last : front = body := by
        rcases List.eq_nil_or_concat more with rfl | ⟨others, char, rfl⟩
        · exact List.append_cancel_right split
        · rw [List.concat_eq_append, ← List.cons_append, ← List.append_assoc] at split
          have early := (List.append_inj' split rfl).1
          exact absurd (early ▸ List.mem_append_right front List.mem_cons_self) free
      exact ⟨rfl, last ▸ named⟩
  · intro parts
    rcases parts with ⟨rfl, named⟩
    have lengths := congrArg List.length (sameText_eq_true.mp named)
    rw [List.length_map, List.length_map, List.length_append, width] at lengths
    rw [List.length_append, List.length_singleton] at fits
    have short : (address ++ ['\n']).length ≤ 254 := by
      rw [List.length_append, List.length_singleton]
      omega
    have bodyEnded : Free nul body := by
      apply free_of_sameText (by decide) named
      exact free_append.mpr ⟨by decide, ended⟩
    have whole : cstring (body ++ ['\n']) = body ++ ['\n'] := by
      apply cstring_of_free
      exact free_append.mpr ⟨bodyEnded, by decide⟩
    rw [whole, List.take_of_length_le short, ← List.append_assoc, sameText_newline_iff]
    exact ⟨body, rfl, named⟩

/-! ## Scanning a line -/

theorem breaks_piece {piece : List Char} (full : piece.length = fileSize - 1) (rest : List Char) :
    Breaks (piece ++ rest) ↔ endsHeader piece = true ∨ Breaks rest := by
  have size : fileSize = 156 := rfl
  cases piece with
  | nil => cases full
  | cons head piece =>
      simp only [endsHeader, List.head?_cons, Option.some.injEq, Bool.or_eq_true,
        decide_eq_true_eq]
      constructor
      · intro breaks
        rcases breaks with ⟨front, char, others, split, ⟨turns, length⟩, ends⟩
        cases turns with
        | zero =>
            have empty : front = [] := List.length_eq_zero_iff.mp length
            rw [empty, List.cons_append, List.nil_append, List.cons.injEq] at split
            exact .inl (split.1 ▸ ends)
        | succ turns =>
            rcases List.append_eq_append_iff.mp split with
              ⟨more, longer, others⟩ | ⟨more, longer, others⟩
            · refine .inr ⟨more, char, _, others, ⟨turns, ?_⟩, ends⟩
              rw [longer, List.length_append, full, Nat.mul_succ] at length
              omega
            · have shorter := congrArg List.length longer
              rw [List.length_append, full, length, Nat.mul_succ] at shorter
              have none : more = [] := by
                apply List.length_eq_zero_iff.mp
                omega
              rw [none, List.nil_append] at others
              refine .inr ⟨[], char, _, others.symm, Nat.dvd_zero _, ends⟩
      · intro ends
        rcases ends with first | ⟨front, char, others, split, whole, ends⟩
        · exact ⟨[], head, _, rfl, Nat.dvd_zero _, first⟩
        · refine ⟨head :: piece ++ front, char, others, ?_, ?_, ends⟩
          · rw [split, List.append_assoc]
          · rw [List.length_append, full]
            exact Nat.dvd_add (Nat.dvd_refl _) whole

theorem breaks_short {piece : List Char} (fits : piece.length < fileSize) :
    Breaks piece ↔ endsHeader piece = true := by
  have size : fileSize = 156 := rfl
  constructor
  · intro breaks
    rcases breaks with ⟨front, char, others, rfl, ⟨turns, length⟩, ends⟩
    rw [List.length_append, List.length_cons] at fits
    have none : front = [] := by
      apply List.length_eq_zero_iff.mp
      cases turns with
      | zero => exact length
      | succ turns =>
          rw [Nat.mul_succ] at length
          omega
    rw [none]
    simpa [endsHeader] using ends
  · intro ends
    cases piece with
    | nil => cases ends
    | cons head piece =>
        refine ⟨[], head, piece, rfl, Nat.dvd_zero _, ?_⟩
        simpa [endsHeader] using ends

theorem shows_piece (address : List Char) {piece : List Char} (full : piece.length = fileSize - 1)
    (free : Free '\n' piece) (rest : List Char) :
    Shows address (piece ++ rest) ↔ endsHeader piece = false ∧ Shows address rest := by
  have size : fileSize = 156 := rfl
  constructor
  · intro shows
    rcases shows with ⟨front, last, split, ⟨turns, length⟩, fits, named, unbroken⟩
    have lengths := congrArg List.length split
    rw [List.length_append, List.length_append, List.length_append, List.length_singleton,
      full] at lengths
    rw [List.length_append, List.length_singleton] at fits
    cases turns with
    | zero =>
        have empty : front = [] := List.length_eq_zero_iff.mp length
        have alone : rest = [] := by
          apply List.length_eq_zero_iff.mp
          rw [empty, List.length_nil] at lengths
          omega
        rw [empty, alone, List.append_nil, List.nil_append] at split
        rw [split, free_append] at free
        exact absurd (List.mem_singleton_self _) free.2
    | succ turns =>
        rw [Nat.mul_succ] at length
        rcases List.append_eq_append_iff.mp split with
          ⟨more, longer, others⟩ | ⟨more, longer, others⟩
        · rw [longer, breaks_piece full, not_or, Bool.not_eq_true] at unbroken
          refine ⟨unbroken.1, more, last, others, ⟨turns, ?_⟩, ?_, named, unbroken.2⟩
          · rw [longer, List.length_append, full] at length
            omega
          · rw [List.length_append, List.length_singleton]
            exact fits
        · have shorter := congrArg List.length longer
          rw [List.length_append, full, length] at shorter
          have none : more = [] := by
            apply List.length_eq_zero_iff.mp
            omega
          rw [none, List.append_nil] at longer
          rw [none, List.nil_append] at others
          have ends := (breaks_piece full []).not.mp (by rw [List.append_nil, longer]; exact unbroken)
          rw [not_or, Bool.not_eq_true] at ends
          refine ⟨ends.1, [], last, others.symm, Nat.dvd_zero _, ?_, named, ?_⟩
          · rw [List.length_append, List.length_singleton]
            exact fits
          · exact ends.2
  · intro parts
    rcases parts with ⟨unended, front, last, rfl, whole, fits, named, unbroken⟩
    refine ⟨piece ++ front, last, ?_, ?_, fits, named, ?_⟩
    · rw [List.append_assoc]
    · rw [List.length_append, full]
      exact Nat.dvd_add (Nat.dvd_refl _) whole
    · rw [breaks_piece full, not_or, Bool.not_eq_true]
      exact ⟨unended, unbroken⟩

theorem shows_short {address body tail : List Char} (free : Free '\n' body) (ends : Ends tail)
    (fits : (body ++ tail).length < fileSize) :
    Shows address (body ++ tail) ↔ tail = ['\n'] ∧ delivered address body = true := by
  have size : fileSize = 156 := rfl
  constructor
  · intro shows
    rcases shows with ⟨front, last, split, ⟨turns, length⟩, -, named, -⟩
    have lengths := congrArg List.length split
    rw [List.length_append, List.length_append, List.length_append, List.length_singleton]
      at lengths
    rw [List.length_append] at fits
    have none : front = [] := by
      apply List.length_eq_zero_iff.mp
      cases turns with
      | zero => exact length
      | succ turns =>
          rw [Nat.mul_succ] at length
          omega
    rw [none, List.nil_append] at split
    rcases ends with rfl | rfl
    · rw [List.append_nil] at split
      rw [split, free_append] at free
      exact absurd (List.mem_singleton_self _) free.2
    · rw [List.append_cancel_right split]
      exact ⟨rfl, named⟩
  · intro parts
    rcases parts with ⟨rfl, named⟩
    refine ⟨[], body, rfl, Nat.dvd_zero _, fits, named, ?_⟩
    rintro ⟨front, char, others, split, -⟩
    cases front <;> cases split

theorem scanPieces_line {address : List Char} (ended : Free nul address)
    {body tail : List Char} (free : Free '\n' body) (ends : Ends tail)
    (others : List (List Char)) :
    scanPieces address (fgetsLoop fileSize (body ++ tail) ++ others) = true ↔
      Shows address (body ++ tail) ∨
        ¬Breaks (body ++ tail) ∧ scanPieces address others = true := by
  have room : 1 < fileSize := by decide
  induction count : body.length using Nat.strongRecOn generalizing body with
  | ind length induction =>
      rcases Nat.lt_or_ge body.length (fileSize - 1) with short | long
      · have fits : (body ++ tail).length < fileSize := by
          rcases ends with rfl | rfl
          · rw [List.append_nil]
            omega
          · rw [List.length_append, List.length_singleton]
            omega
        rw [shows_short free ends fits, breaks_short fits]
        by_cases empty : body ++ tail = []
        · rcases List.append_eq_nil_iff.mp empty with ⟨rfl, rfl⟩
          simp [fgetsLoop, fgetsRounds, endsHeader]
        · rw [fgetsLoop_short room free short ends empty, List.cons_append, List.nil_append,
            scanPieces, ← isLoopMatch_piece_iff ended free ends fits]
          cases isLoopMatch (cstring (body ++ tail)) address <;>
            cases endsHeader (body ++ tail) <;> simp
      · have full : (body.take (fileSize - 1)).length = fileSize - 1 :=
          List.length_take_of_le long
        have pieceFree : Free '\n' (body.take (fileSize - 1)) :=
          fun member => free (List.mem_of_mem_take member)
        have restFree : Free '\n' (body.drop (fileSize - 1)) :=
          fun member => free (List.mem_of_mem_drop member)
        have shorter : (body.drop (fileSize - 1)).length < length := by
          rw [List.length_drop]
          omega
        have unmatched := isLoopMatch_piece_iff ended pieceFree (.inl rfl)
          (by rw [List.append_nil, full]; decide)
        rw [List.append_nil] at unmatched
        have split : body.take (fileSize - 1) ++ (body.drop (fileSize - 1) ++ tail) =
            body ++ tail := by
          rw [← List.append_assoc, List.take_append_drop]
        have shows := shows_piece address full pieceFree
          (body.drop (fileSize - 1) ++ tail)
        have breaks := breaks_piece full (body.drop (fileSize - 1) ++ tail)
        rw [split] at shows breaks
        rw [fgetsLoop_long room free long tail, List.cons_append, scanPieces,
          if_neg (fun found => by cases (unmatched.mp found).1), shows, breaks]
        cases unended : endsHeader (body.take (fileSize - 1)) with
        | true => simp
        | false =>
            have step := induction _ shorter restFree rfl
            simp [step]

/-! ## Scanning the message -/

/-- A line shows the address, and no line before it passes for the end of the header. -/
def ShownIn (address : List Char) : List (List Char) → Prop
  | [] => False
  | line :: lines => Shows address line ∨ ¬Breaks line ∧ ShownIn address lines

theorem scanPieces_message {address : List Char} (ended : Free nul address)
    (message : List Char) :
    scanPieces address (fgetsLoop fileSize message) = true ↔
      ShownIn address (wholeLines message) := by
  have room : 1 < fileSize := by decide
  induction message using lines_induction with
  | empty => simp [fgetsLoop, fgetsRounds, scanPieces, wholeLines, ShownIn]
  | last body free nonempty =>
      have line := scanPieces_line ended free (.inl rfl) []
      rw [List.append_nil, List.append_nil] at line
      rw [wholeLines_of_free free nonempty, line, ShownIn, ShownIn]
      simp [scanPieces]
  | line body rest free induction =>
      rw [fgetsLoop_append_newline room free, wholeLines_line free, ShownIn]
      have line := scanPieces_line ended free (.inr rfl) (fgetsLoop fileSize rest)
      exact line.trans (or_congr Iff.rfl (and_congr Iff.rfl induction))

/-- The line that shows the address, with the lines in front of it. -/
theorem shownIn_iff {address : List Char} {lines : List (List Char)} :
    ShownIn address lines ↔ ∃ before line after, lines = before ++ line :: after ∧
      (∀ other ∈ before, ¬Breaks other) ∧ Shows address line := by
  induction lines with
  | nil => simp [ShownIn]
  | cons first lines induction =>
      rw [ShownIn, induction]
      constructor
      · intro shown
        rcases shown with here | ⟨unbroken, before, line, after, rfl, earlier, there⟩
        · exact ⟨[], first, lines, rfl, by simp, here⟩
        · refine ⟨first :: before, line, after, rfl, ?_, there⟩
          exact List.forall_mem_cons.mpr ⟨unbroken, earlier⟩
      · intro shown
        rcases shown with ⟨before, line, after, split, earlier, there⟩
        cases before with
        | nil =>
            rw [List.nil_append, List.cons.injEq] at split
            exact .inl (split.1 ▸ there)
        | cons head before =>
            rw [List.cons_append, List.cons.injEq] at split
            rcases List.forall_mem_cons.mp earlier with ⟨unbroken, others⟩
            exact .inr ⟨split.1 ▸ unbroken, before, line, after, split.2, others, there⟩

/-- What `is_looping` goes by: the value of `DTLINE`, with a buffer of 255 cells for the
address, or the first line of the message that shows the address. -/
def Noticed (check : LoopCheck) : Prop :=
  (∃ value, check.dtline = some value ∧
      sameText value (deliveredTo ++ (unmarked check.address ++ ['\n']).take 254) = true) ∨
    check.endSeen = false ∧ ∃ before line after,
      wholeLines check.message = before ++ line :: after ∧
        (∀ other ∈ before, ¬Breaks other) ∧ Shows (unmarked check.address) line

theorem free_unmarked {char : Char} {address : List Char} (free : Free char address) :
    Free char (unmarked address) := by
  unfold unmarked
  split
  · exact (free_cons.mp free).2
  · exact free

theorem isLooping_iff (check : LoopCheck) : isLooping check = true ↔ Noticed check := by
  have ended := free_unmarked check.addressEnded
  rw [Noticed, ← shownIn_iff, ← scanPieces_message ended, isLooping]
  cases check.dtline with
  | none =>
      cases check.endSeen <;> simp [scanPieces]
  | some value =>
      have told := isLoopMatch_iff value (unmarked check.address)
      rw [Option.any_some]
      cases found : isLoopMatch value (unmarked check.address) with
      | true => simp [← told, found]
      | false => cases check.endSeen <;> simp [← told, found, scanPieces]

/-! ## The body -/

/-- The line that ends a header. -/
def IsBlank (blank : List Char) : Prop := blank = ['\n'] ∨ blank = ['\r', '\n']

theorem shownIn_blank (address : List Char) {blank : List Char} (ends : IsBlank blank)
    (header body : List (List Char)) :
    ShownIn address (header ++ blank :: body) ↔ ShownIn address header := by
  have breaks : Breaks blank := by
    rcases ends with rfl | rfl
    · exact ⟨[], '\n', [], rfl, Nat.dvd_zero _, .inr rfl⟩
    · exact ⟨[], '\r', ['\n'], rfl, Nat.dvd_zero _, .inl rfl⟩
  have unnamed : ¬Shows address blank := by
    intro shows
    rcases shows with ⟨front, last, rfl, -, -, named, -⟩
    have lengths := congrArg List.length (sameText_eq_true.mp named)
    have width : deliveredTo.length = 14 := rfl
    rw [List.length_map, List.length_map, List.length_append, width] at lengths
    rcases ends with split | split
    all_goals
      have short := congrArg List.length split
      simp at short
      omega
  induction header with
  | nil => simp [ShownIn, breaks, unnamed]
  | cons line header induction =>
      rw [List.cons_append, ShownIn, ShownIn]
      exact or_congr Iff.rfl (and_congr Iff.rfl induction)

/-- Nothing behind the first empty line is looked at. -/
theorem isLooping_body (check : LoopCheck) {header : List (List Char)}
    (whole : ∀ line ∈ header, IsLine line) {blank : List Char} (ends : IsBlank blank)
    (body other : List Char) :
    isLooping { check with message := header.flatten ++ (blank ++ body) } =
      isLooping { check with message := header.flatten ++ (blank ++ other) } := by
  have lines : ∀ text, wholeLines (header.flatten ++ (blank ++ text)) =
      header ++ blank :: wholeLines text := by
    intro text
    rw [wholeLines_flatten_append whole]
    rcases ends with rfl | rfl
    · exact congrArg (header ++ ·) (wholeLines_line (free_nil '\n') text)
    · have free : Free '\n' ['\r'] := by decide
      exact congrArg (header ++ ·) (wholeLines_line free text)
  rw [Bool.eq_iff_iff, isLooping_iff, isLooping_iff, Noticed, Noticed, ← shownIn_iff,
    ← shownIn_iff]
  simp only [lines, shownIn_blank _ ends]

/-! ## When the check is exact -/

/-- A line of the header that shows the address in a part of it only. -/
def Torn (address line : List Char) : Prop :=
  ∃ front last, front ≠ [] ∧ line = front ++ (last ++ ['\n']) ∧ fileSize - 1 ∣ front.length ∧
    (last ++ ['\n']).length < fileSize ∧ delivered address last = true ∧ ¬Breaks front

/-- The address is named where the check sees it: by a `DTLINE` with its newline, or by a
line of the header that fits `loop_buf`. -/
def Seen (check : LoopCheck) : Prop :=
  (∃ line, check.dtline = some (line ++ ['\n']) ∧
      delivered (unmarked check.address) line = true ∧ (unmarked check.address).length < 254) ∨
    check.endSeen = false ∧ ∃ before line after,
      wholeLines check.message = before ++ (line ++ ['\n']) :: after ∧
        (∀ other ∈ before, ¬Breaks other) ∧ (line ++ ['\n']).length < fileSize ∧
        delivered (unmarked check.address) line = true

/-- A part of another text passes for the line of a delivery. -/
def Mistaken (check : LoopCheck) : Prop :=
  (∃ value, check.dtline = some value ∧ 254 ≤ (unmarked check.address).length ∧
      sameText value (deliveredTo ++ (unmarked check.address).take 254) = true) ∨
    check.endSeen = false ∧ ∃ before line after,
      wholeLines check.message = before ++ line :: after ∧
        (∀ other ∈ before, ¬Breaks other) ∧ Torn (unmarked check.address) line

/-- The condition on `DTLINE` and on where the lines of the message are cut. -/
structure Apparent (check : LoopCheck) : Prop where
  noneHidden : Loops check → Seen check ∨ Mistaken check
  noneMistaken : ¬Loops check → ¬Mistaken check

/-- A line is a header line when no line up to it passes for an empty one. -/
theorem mem_headerLines {message body : List Char} {before after : List (List Char)}
    (split : wholeLines message = before ++ (body ++ ['\n']) :: after)
    (unbroken : ∀ other ∈ before, ¬Breaks other) (nonempty : body ≠ [] ∧ body ≠ ['\r']) :
    body ∈ headerLines message := by
  induction message using lines_induction generalizing before with
  | empty => cases before <;> cases split
  | last text free some =>
      rw [wholeLines_of_free free some] at split
      cases before with
      | nil =>
          have same : text = body ++ ['\n'] := List.head_eq_of_cons_eq split
          rw [same, free_append] at free
          exact absurd (List.mem_singleton_self _) free.2
      | cons head before =>
          rw [List.cons_append, List.cons.injEq] at split
          cases before <;> cases split.2
  | line text rest free induction =>
      rw [wholeLines_line free] at split
      rw [headerLines, fileLines_line free]
      cases before with
      | nil =>
          rw [List.nil_append, List.cons.injEq] at split
          have same : text = body := List.append_cancel_right split.1
          rw [same, List.takeWhile_cons_of_pos (by simpa using nonempty)]
          exact List.mem_cons_self
      | cons head before =>
          rw [List.cons_append, List.cons.injEq] at split
          rcases List.forall_mem_cons.mp unbroken with ⟨first, others⟩
          have some : text ≠ [] ∧ text ≠ ['\r'] := by
            constructor
            · rintro rfl
              exact first (split.1 ▸ ⟨[], '\n', [], rfl, Nat.dvd_zero _, .inr rfl⟩)
            · rintro rfl
              exact first (split.1 ▸ ⟨[], '\r', ['\n'], rfl, Nat.dvd_zero _, .inl rfl⟩)
          rw [List.takeWhile_cons_of_pos (by simpa using some)]
          exact List.mem_cons_of_mem _ (induction split.2 others)

theorem delivered_ne {address line : List Char} (named : delivered address line = true) :
    line ≠ [] ∧ line ≠ ['\r'] := by
  have lengths := congrArg List.length (sameText_eq_true.mp named)
  have width : deliveredTo.length = 14 := rfl
  rw [List.length_map, List.length_map, List.length_append, width] at lengths
  constructor
  all_goals
    rintro rfl
    simp at lengths
    omega

theorem told_iff (value address : List Char) :
    sameText value (deliveredTo ++ (address ++ ['\n']).take 254) = true ↔
      (∃ line, value = line ++ ['\n'] ∧ delivered address line = true ∧ address.length < 254) ∨
        254 ≤ address.length ∧ sameText value (deliveredTo ++ address.take 254) = true := by
  rcases Nat.lt_or_ge address.length 254 with short | long
  · have fits : (address ++ ['\n']).length ≤ 254 := by
      rw [List.length_append, List.length_singleton]
      omega
    rw [List.take_of_length_le fits, ← List.append_assoc, sameText_newline_iff]
    simp [delivered, short, Nat.not_le_of_lt short]
  · rw [List.take_append_of_le_length long]
    simp [long, Nat.not_lt_of_le long]

theorem shows_iff (address line : List Char) :
    Shows address line ↔
      (∃ last, line = last ++ ['\n'] ∧ (last ++ ['\n']).length < fileSize ∧
        delivered address last = true) ∨ Torn address line := by
  constructor
  · intro shows
    rcases shows with ⟨front, last, split, whole, fits, named, unbroken⟩
    by_cases empty : front = []
    · rw [empty, List.nil_append] at split
      exact .inl ⟨last, split, fits, named⟩
    · exact .inr ⟨front, last, empty, split, whole, fits, named, unbroken⟩
  · intro shows
    rcases shows with ⟨last, split, fits, named⟩ | ⟨front, last, -, torn⟩
    · refine ⟨[], last, split, Nat.dvd_zero _, fits, named, ?_⟩
      intro breaks
      rcases breaks with ⟨front, char, others, empty, -⟩
      exact absurd (List.append_eq_nil_iff.mp empty.symm).2 (List.cons_ne_nil _ _)
    · exact ⟨front, last, torn⟩

theorem noticed_iff (check : LoopCheck) : Noticed check ↔ Seen check ∨ Mistaken check := by
  constructor
  · intro noticed
    rcases noticed with ⟨value, set, same⟩ | ⟨unseen, before, line, after, split, unbroken, shows⟩
    · rcases (told_iff value _).mp same with ⟨line, rfl, named, short⟩ | cut
      · exact .inl (.inl ⟨line, set, named, short⟩)
      · exact .inr (.inl ⟨value, set, cut⟩)
    · rcases (shows_iff _ line).mp shows with ⟨last, rfl, whole⟩ | torn
      · exact .inl (.inr ⟨unseen, before, last, after, split, unbroken, whole⟩)
      · exact .inr (.inr ⟨unseen, before, line, after, split, unbroken, torn⟩)
  · intro places
    rcases places with (⟨line, set, told⟩ | ⟨unseen, before, line, after, split, unbroken, whole⟩) |
      (⟨value, set, cut⟩ | ⟨unseen, before, line, after, split, unbroken, torn⟩)
    · exact .inl ⟨_, set, (told_iff _ _).mpr (.inl ⟨line, rfl, told⟩)⟩
    · exact .inr ⟨unseen, before, _, after, split, unbroken,
        (shows_iff _ _).mpr (.inl ⟨line, rfl, whole⟩)⟩
    · exact .inl ⟨value, set, (told_iff _ _).mpr (.inr cut)⟩
    · exact .inr ⟨unseen, before, line, after, split, unbroken, (shows_iff _ _).mpr (.inr torn)⟩

theorem loops_of_seen {check : LoopCheck} (seen : Seen check) : Loops check := by
  rcases seen with ⟨line, set, named, -⟩ | ⟨-, before, line, after, split, unbroken, -, named⟩
  · exact .inl ⟨_, set, .inr ⟨line, rfl, named⟩⟩
  · exact .inr ⟨line, mem_headerLines split unbroken (delivered_ne named), named⟩

theorem exact_iff_apparent (check : LoopCheck) :
    (isLooping check = true ↔ Loops check) ↔ Apparent check := by
  rw [isLooping_iff, noticed_iff]
  constructor
  · intro exact
    refine ⟨exact.mpr, ?_⟩
    intro unnamed mistaken
    exact unnamed (exact.mp (.inr mistaken))
  · intro apparent
    refine ⟨?_, apparent.noneHidden⟩
    intro noticed
    rcases noticed with seen | mistaken
    · exact loops_of_seen seen
    · by_contra unnamed
      exact apparent.noneMistaken unnamed mistaken

/-- The check answers for the header lines, whatever the body, as long as nothing is
hidden by the way the text is cut and nothing is torn out of it. -/
theorem isLooping_exact_iff (check : LoopCheck) :
    ((isLooping check = true ↔ Loops check) ↔ Apparent check) ∧
      ∀ (header : List (List Char)) (blank body other : List Char),
        (∀ line ∈ header, IsLine line) → IsBlank blank →
          isLooping { check with message := header.flatten ++ (blank ++ body) } =
            isLooping { check with message := header.flatten ++ (blank ++ other) } := by
  refine ⟨exact_iff_apparent check, ?_⟩
  intro header blank body other whole ends
  exact isLooping_body check whole ends body other

/-- A message that has been delivered to `a@b`, with a line of 155 characters in front of
the one that says so. -/
def longSubject : LoopCheck where
  dtline := none
  message := List.replicate 155 'x' ++ '\n' :: ("Delivered-To: a@b\n".toList ++ ['\n'])
  endSeen := false
  address := "a@b".toList
  addressEnded := by decide

theorem loops_longSubject : Loops longSubject := by
  refine .inr ⟨"Delivered-To: a@b".toList, ?_, by decide⟩
  have subject : Free '\n' (List.replicate 155 'x') := by
    intro member
    exact absurd (List.eq_of_mem_replicate member) (by decide)
  rw [headerLines, longSubject, fileLines_line subject, List.takeWhile_cons_of_pos (by decide)]
  exact List.mem_cons_of_mem _ (by decide)

theorem isLooping_longSubject : isLooping longSubject = false := by
  decide +kernel

/-- The header of another message. -/
def plainHeader : List (List Char) :=
  ["Subject: c".toList ++ ['\n'], "Received: by d".toList ++ ['\n']]

theorem isLine_plainHeader : ∀ line ∈ plainHeader, IsLine line := by
  simp only [plainHeader, List.forall_mem_cons]
  exact ⟨isLine_append_newline (by decide), isLine_append_newline (by decide), nofun⟩

/-- The address is missed in the header, and not looked for in a body. -/
theorem isLooping_exact_iff_longSubject :
    ¬Apparent longSubject ∧
      isLooping { longSubject with
          message := plainHeader.flatten ++ (['\n'] ++ "Delivered-To: a@b\n".toList) } =
        isLooping { longSubject with message := plainHeader.flatten ++ (['\n'] ++ "e\n".toList) } := by
  have found := isLooping_exact_iff longSubject
  constructor
  · intro apparent
    have told := (found.1.mpr apparent).mpr loops_longSubject
    rw [isLooping_longSubject] at told
    cases told
  · exact found.2 plainHeader ['\n'] "Delivered-To: a@b\n".toList "e\n".toList isLine_plainHeader
      (.inl rfl)

/-- The newline behind a line of 155 characters is a piece of its own. -/
theorem not_isLooping_exact : ¬∀ check, isLooping check = true ↔ Loops check := by
  intro exact
  have missed := isLooping_longSubject
  rw [(exact longSubject).mpr loops_longSubject] at missed
  cases missed

end Vpopmail.Vdelivermail
