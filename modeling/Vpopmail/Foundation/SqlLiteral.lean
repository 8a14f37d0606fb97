import Vpopmail.Foundation.Text

/-! # Text inside SQL literals

A literal stands between two quotes of one kind. In it a backslash takes the next
character out of its role, and two quotes stand for one. This is how MySQL reads a literal
unless `NO_BACKSLASH_ESCAPES` is set; PostgreSQL does the same with quotes and backslashes where
`standard_conforming_strings` is off, and elsewhere a backslash is an ordinary character.
-/

namespace Vpopmail.SqlLiteral

open Text

/-- A backslash is put in front of every special character. -/
def escape (special : List Char) : List Char → List Char
  | [] => []
  | char :: text =>
      if char ∈ special then '\\' :: char :: escape special text
      else char :: escape special text

/-- What a backslash and a character stand for in MySQL. -/
def meaning : Char → List Char
  | 'n' => ['\n']
  | 'r' => ['\r']
  | 't' => ['\t']
  | 'b' => [Char.ofNat 8]
  | 'Z' => [Char.ofNat 26]
  | '0' => [nul]
  | '%' => ['\\', '%']
  | '_' => ['\\', '_']
  | char => [char]

/-- The value of the literal whose opening quote has been read, and the text behind its
closing one. -/
def readLiteral (quote : Char) : List Char → Option (List Char × List Char)
  | [] => none
  | char :: text =>
      if char = '\\' then
        match text with
        | [] => none
        | next :: text => (readLiteral quote text).map (Prod.map (meaning next ++ ·) id)
      else if char = quote then
        match text with
        | [] => some ([], [])
        | next :: text =>
            if next = quote then (readLiteral quote text).map (Prod.map (quote :: ·) id)
            else some ([], next :: text)
      else (readLiteral quote text).map (Prod.map (char :: ·) id)

variable {special : List Char}

@[simp] theorem escape_nil : escape special [] = [] := rfl

theorem escape_cons_mem {char : Char} (member : char ∈ special) (text : List Char) :
    escape special (char :: text) = '\\' :: char :: escape special text :=
  if_pos member

theorem escape_cons_free {char : Char} (free : char ∉ special) (text : List Char) :
    escape special (char :: text) = char :: escape special text :=
  if_neg free

theorem escape_append (front back : List Char) :
    escape special (front ++ back) = escape special front ++ escape special back := by
  induction front with
  | nil => rfl
  | cons char front induction =>
      rw [List.cons_append, escape, escape, induction]
      split <;> rfl

theorem escape_of_free {text : List Char} (free : ∀ char ∈ text, char ∉ special) :
    escape special text = text := by
  induction text with
  | nil => rfl
  | cons char text induction =>
      rw [List.forall_mem_cons] at free
      rw [escape_cons_free free.1, induction free.2]

theorem readLiteral_backslash (quote next : Char) (text : List Char) :
    readLiteral quote ('\\' :: next :: text) =
      (readLiteral quote text).map (Prod.map (meaning next ++ ·) id) :=
  if_pos rfl

theorem readLiteral_ordinary {quote char : Char} (notBackslash : char ≠ '\\')
    (notQuote : char ≠ quote) (text : List Char) :
    readLiteral quote (char :: text) = (readLiteral quote text).map (Prod.map (char :: ·) id) := by
  cases text <;> simp only [readLiteral, if_neg notBackslash, if_neg notQuote]

theorem readLiteral_quote {quote : Char} (notBackslash : quote ≠ '\\') {rest : List Char}
    (closed : rest.head? ≠ some quote) : readLiteral quote (quote :: rest) = some ([], rest) := by
  cases rest with
  | nil => simp only [readLiteral, if_neg notBackslash, if_pos]
  | cons next rest =>
      have single : next ≠ quote := fun equal => closed (congrArg some equal)
      simp only [readLiteral, if_neg notBackslash, if_pos, if_neg single]

/-- Whatever text is put in a literal, the literal ends where the format ends it. -/
theorem readLiteral_escape (itself : ∀ char ∈ special, meaning char = [char])
    (backslash : '\\' ∈ special) {quote : Char} (quoted : quote ∈ special)
    (notBackslash : quote ≠ '\\') (text : List Char) {rest : List Char}
    (closed : rest.head? ≠ some quote) :
    readLiteral quote (escape special text ++ quote :: rest) = some (text, rest) := by
  induction text with
  | nil => exact readLiteral_quote notBackslash closed
  | cons char text induction =>
      by_cases member : char ∈ special
      · rw [escape_cons_mem member, List.cons_append, List.cons_append, readLiteral_backslash,
          induction, itself char member]
        rfl
      · have ordinary : char ≠ '\\' := fun equal => member (equal ▸ backslash)
        have notQuote : char ≠ quote := fun equal => member (equal ▸ quoted)
        rw [escape_cons_free member, List.cons_append, readLiteral_ordinary ordinary notQuote,
          induction]
        rfl

end Vpopmail.SqlLiteral
