import Vpopmail.Foundation.Buffer
import Vpopmail.Foundation.Decimal

/-! # Tokens and literals of configuration files

`config_next_token` finds a character outside quotes and escapes, and
`config_convert_literal` takes quotes and escapes away. It goes over its string twice: the
first pass counts what the second one writes.
-/

namespace Vpopmail.Config

open Text Buffer

/-- `CONFIG_MAX_LINE`. -/
def configMaxLine : Nat := 255

/-! ## `config_next_token` -/

/-- The loop of `config_next_token`, with the position that it stops at. A string that ends
in a quote or behind a backslash has no token. -/
def nextToken (token : Char) : (esc lit : Bool) → List Char → Option Nat
  | _, _, [] => none
  | esc, lit, char :: rest =>
      if esc then (nextToken token false lit rest).map (· + 1)
      else if char = '\\' && !lit then (nextToken token true lit rest).map (· + 1)
      else if char = '"' then (nextToken token false (!lit) rest).map (· + 1)
      else if lit then (nextToken token false lit rest).map (· + 1)
      else if char = token then some 0
      else (nextToken token false lit rest).map (· + 1)

def configNextToken (str : List Char) (token : Char) : Option Nat :=
  nextToken token false false str

theorem nextToken_of_free {token : Char} (esc lit : Bool) {text : List Char}
    (free : Free token text) : nextToken token esc lit text = none := by
  induction text generalizing esc lit with
  | nil => rfl
  | cons char rest induction =>
      rw [free_cons] at free
      have others := fun esc lit => induction esc lit free.2
      simp [nextToken, others, Ne.symm free.1]

/-- Behind these characters a search goes on as if it began there. -/
def Clean (token : Char) (before : List Char) : Prop :=
  ∀ rest, configNextToken (before ++ rest) token =
    (configNextToken rest token).map (before.length + ·)

theorem clean_nil (token : Char) : Clean token [] := by
  intro rest
  simp

theorem clean_append {token : Char} {first second : List Char} (begun : Clean token first)
    (goesOn : Clean token second) : Clean token (first ++ second) := by
  intro rest
  rw [List.append_assoc, begun, goesOn, Option.map_map, List.length_append]
  congr 1
  funext position
  exact (Nat.add_assoc _ _ _).symm

theorem clean_flatten {token : Char} {texts : List (List Char)}
    (clean : ∀ text ∈ texts, Clean token text) : Clean token texts.flatten := by
  induction texts with
  | nil => exact clean_nil token
  | cons text texts induction =>
      rw [List.flatten_cons]
      exact clean_append (clean text List.mem_cons_self)
        (induction fun other member => clean other (List.mem_cons_of_mem text member))

theorem clean_singleton {token char : Char} (other : char ≠ token) (backslash : char ≠ '\\')
    (quote : char ≠ '"') : Clean token [char] := by
  intro rest
  rw [configNextToken, List.singleton_append, nextToken, if_neg Bool.false_ne_true,
    if_neg (by simp [backslash]), if_neg quote, if_neg Bool.false_ne_true, if_neg other]
  congr 1
  funext position
  exact Nat.add_comm _ _

theorem clean_escape {token : Char} (char : Char) : Clean token ['\\', char] := by
  intro rest
  rw [configNextToken, List.cons_append, List.singleton_append, nextToken,
    if_neg Bool.false_ne_true, if_pos (by decide), nextToken, if_pos rfl, Option.map_map]
  congr 1
  funext position
  exact Nat.add_comm position 2

/-- The search stops at the first mark behind such characters. -/
theorem configNextToken_append {token : Char} {before : List Char} (clean : Clean token before)
    (plain : token ∉ ['\\', '"']) (rest : List Char) :
    configNextToken (before ++ token :: rest) token = some before.length := by
  have notBackslash : token ≠ '\\' := fun same => plain (by simp [same])
  have notQuote : token ≠ '"' := fun same => plain (by simp [same])
  rw [clean, configNextToken, nextToken, if_neg Bool.false_ne_true,
    if_neg (by simp [notBackslash]), if_neg notQuote, if_neg Bool.false_ne_true, if_pos rfl]
  rfl

/-! ## `config_convert_literal` -/

/-- The first pass: `len`. In `digits` the inner loop runs over the number of an escape. -/
def literalLength : (esc lit digits : Bool) → List Char → Nat
  | _, _, _, [] => 0
  | esc, lit, digits, char :: rest =>
      if digits && char.isDigit then literalLength false lit true rest
      else if esc then literalLength false lit false rest + 1
      else if char = '\\' && !lit then
        if rest.head?.any Char.isDigit then literalLength false lit true rest + 1
        else literalLength true lit false rest
      else if char = '"' then literalLength false (!lit) false rest
      else literalLength false lit false rest + 1

/-- An `int` as a `char`. -/
def byte (value : Int) : Char := Char.ofNat (value % 256).toNat

/-- The second pass: what is written at `rp`. -/
def literalText : (esc lit digits : Bool) → List Char → List Char
  | _, _, _, [] => []
  | esc, lit, digits, char :: rest =>
      if digits && char.isDigit then literalText false lit true rest
      else if esc then char :: literalText false lit false rest
      else if char = '\\' && !lit then
        if rest.head?.any Char.isDigit then
          byte (Decimal.atoi (rest.takeWhile Char.isDigit)) :: literalText false lit true rest
        else literalText true lit false rest
      else if char = '"' then literalText false (!lit) false rest
      else char :: literalText false lit false rest

/-- Whether the string ends in a quote or behind a backslash. -/
def unterminated : (esc lit digits : Bool) → List Char → Bool
  | esc, lit, _, [] => lit || esc
  | esc, lit, digits, char :: rest =>
      if digits && char.isDigit then unterminated false lit true rest
      else if esc then unterminated false lit false rest
      else if char = '\\' && !lit then
        if rest.head?.any Char.isDigit then unterminated false lit true rest
        else unterminated true lit false rest
      else if char = '"' then unterminated false (!lit) false rest
      else unterminated false lit false rest

/-- `config_convert_literal`. The cells it allocates are filled with zeros, of which the last
one stays. -/
def configConvertLiteral (str : List Char) : Option (List Char) :=
  if unterminated false false false str then none
  else some (cstring (literalText false false false str))

/-- The second pass writes as many characters as the first one has counted. -/
theorem length_literalText (esc lit digits : Bool) (str : List Char) :
    (literalText esc lit digits str).length = literalLength esc lit digits str := by
  induction str generalizing esc lit digits with
  | nil => rfl
  | cons char rest induction =>
      rw [literalText, literalLength]
      split
      · exact induction false lit true
      split
      · exact congrArg Nat.succ (induction false lit false)
      split
      · split
        · exact congrArg Nat.succ (induction false lit true)
        · exact induction true lit false
      split
      · exact induction false (!lit) false
      · exact congrArg Nat.succ (induction false lit false)

/-! ## Escaped texts -/

/-- The characters that mean something to the parser. -/
def special (char : Char) : Bool :=
  char ∈ ['\\', '"', ':', ';', '=', '/', ' ', '\t']

/-- A text with a backslash in front of every special character. -/
def escaped : List Char → List Char
  | [] => []
  | char :: rest => if special char then '\\' :: char :: escaped rest else char :: escaped rest

/-- No token is found in an escaped text. -/
theorem clean_escaped {token : Char} (known : special token = true) (text : List Char) :
    Clean token (escaped text) := by
  induction text with
  | nil => exact clean_nil token
  | cons char text induction =>
      rw [escaped]
      by_cases marked : special char = true
      · rw [if_pos marked]
        exact clean_append (clean_escape char) induction
      · have other : char ≠ token := fun same => marked (same ▸ known)
        have notBackslash : char ≠ '\\' := fun same => marked (same ▸ by decide)
        have notQuote : char ≠ '"' := fun same => marked (same ▸ by decide)
        rw [if_neg marked]
        exact clean_append (clean_singleton other notBackslash notQuote) induction

theorem not_isDigit_of_special {char : Char} (marked : special char = true) :
    char.isDigit = false := by
  simp only [special, List.mem_cons, List.not_mem_nil, or_false, decide_eq_true_eq] at marked
  rcases marked with rfl | rfl | rfl | rfl | rfl | rfl | rfl | rfl <;> decide

theorem literal_escaped (text : List Char) :
    literalText false false false (escaped text) = text ∧
      unterminated false false false (escaped text) = false := by
  induction text with
  | nil => exact ⟨rfl, rfl⟩
  | cons char text induction =>
      rw [escaped]
      by_cases marked : special char = true
      · have notDigit := not_isDigit_of_special marked
        rw [if_pos marked, literalText, unterminated]
        simp [notDigit, literalText, unterminated, induction]
      · have notBackslash : char ≠ '\\' := fun same => marked (same ▸ by decide)
        have notQuote : char ≠ '"' := fun same => marked (same ▸ by decide)
        rw [if_neg marked, literalText, unterminated]
        simp [notBackslash, notQuote, induction]

/-- Taking the escapes away gives the text back. -/
theorem configConvertLiteral_escaped {text : List Char} (free : Free nul text) :
    configConvertLiteral (escaped text) = some text := by
  rw [configConvertLiteral, (literal_escaped text).2, if_neg Bool.false_ne_true,
    (literal_escaped text).1, cstring_of_free free]

end Vpopmail.Config
