import Mathlib.Data.List.DropRight
import Vpopmail.AliasFiles
import Vpopmail.Foundation.Buffer
import Vpopmail.StringSearch

/-! # The catchall account

`isCatchall` reads the first line of `.qmail-default`, and `vdeluser` does not delete the
account that it finds there.
-/

namespace Vpopmail

open Text Buffer Backfill

def blank (char : Char) : Bool := char = ' ' || char = '\t'

/-- `trim`. It may run off the front of the text, into the part of the line in front of it. -/
def trim (text : List Char) : List Char :=
  let i := (text.takeWhile blank).length
  let k := text.length - i - 1
  let text := if 0 < i then (text.drop i).take k else text
  text.rdropWhile blank

def vdelivermailName : List Char := ['v', 'd', 'e', 'l', 'i', 'v', 'e', 'r', 'm', 'a', 'i', 'l']

def bounceNoMailbox : List Char :=
  ['b', 'o', 'u', 'n', 'c', 'e', '-', 'n', 'o', '-', 'm', 'a', 'i', 'l', 'b', 'o', 'x']

def deleteNoMailbox : List Char :=
  ['d', 'e', 'l', 'e', 't', 'e', '-', 'n', 'o', '-', 'm', 'a', 'i', 'l', 'b', 'o', 'x']

def defaultAlias : List Char := ['d', 'e', 'f', 'a', 'u', 'l', 't']

def vaBadDDir : Int := -5

section Branches

variable (user domain dir : List Char)

/-- The branch of `isCatchall` for a Maildir. -/
def catchallByPath (position : List Char) : Bool :=
  (strstr position dir).isSome && user = position.rtakeWhile (· ≠ '/')

/-- The branch of `isCatchall` for a forward. `strcmp` cannot read a null pointer. -/
def catchallByForward (position : List Char) : Checked Bool :=
  match strtok (· = '@') position with
  | none => .error .outOfBounds
  | some (name, rest) =>
      if user = name then
        match strtok (· = '@') rest with
        | none => .error .outOfBounds
        | some (position, _) => .ok (position = domain)
      else .ok false

/-- What `isCatchall` makes of the rest of the line. -/
def catchallIn (position : List Char) : Checked Bool :=
  if (strstr position bounceNoMailbox).isSome then .ok false
  else if (strstr position deleteNoMailbox).isSome then .ok false
  else if position.head? = some '/' then .ok (catchallByPath user dir position)
  else if (position.takeWhile (· ≠ '@')).length ≠ 0 then catchallByForward user domain position
  else .ok false

/-- What `isCatchall` makes of the first line of `.qmail-default`. -/
def catchallOf (defaultAction : List Char) : Checked Bool :=
  if strstr defaultAction vdelivermailName = none then .ok false
  else
    match strstr defaultAction ['\'', '\''] with
    | none => .ok false
    | some quotes =>
        match strstr (defaultAction.drop quotes) [' '] with
        | none => .ok false
        | some space => catchallIn user domain dir (trim ((defaultAction.drop quotes).drop space))

end Branches

section Deleting

variable (lookup : DomainLookup) (files : Files)

def isCatchall (user domain dir : List Char) (scan : AliasScan) : Checked Bool :=
  match vpaliasSelect lookup files defaultAlias domain scan with
  | (none, _) => .ok false
  | (some defaultAction, domain, _) => catchallOf user domain dir defaultAction

variable {State : Type} (enters : List Char → Bool) (known : List Char → List Char → Bool)
    (remove : List Char → List Char → State → Int × State)

/-- `vdeluser`, where `enters` says which directories can be entered, `known` which users there
are, and `remove` is what follows the checks. -/
def vdeluser (user domain : List Char) (scan : AliasScan) (state : State) :
    Checked (Int × State) :=
  if user = [] then .ok (VaCode.illegalUsername.number, state)
  else
    let user := lowerit user
    match lookup (lowerit domain) with
    | none => .ok (VaCode.domainDoesNotExist.number, state)
    | some (domain, dir) =>
        if !enters dir then .ok (vaBadDDir, state)
        else if !known user domain then .ok (VaCode.userDoesNotExist.number, state)
        else
          (isCatchall lookup files user domain dir scan).map fun caught =>
            if caught then (VaCode.cannotDeleteCatchall.number, state)
            else remove user domain state

end Deleting

/-! ## What the rest of the line says -/

def Mentions (text : List Char) : Prop := bounceNoMailbox <:+: text ∨ deleteNoMailbox <:+: text

/-- A path through the directory, with the user behind the last slash. -/
def NamesPath (user dir text : List Char) : Prop :=
  text.head? = some '/' ∧ dir <:+: text ∧ '/' ∉ user ∧ '/' :: user <:+ text

/-- An address of the user, with any number of signs between its parts and anything behind
another sign. -/
def NamesMailbox (user domain text : List Char) : Prop :=
  user.head? ≠ some '/' ∧ ∃ count behind, (behind = [] ∨ behind.head? = some '@') ∧
    text = user ++ List.replicate (count + 1) '@' ++ domain ++ behind

/-- The user with no domain. -/
def NamesBare (user text : List Char) : Prop :=
  user.head? ≠ some '/' ∧ ∃ count, text = user ++ List.replicate count '@'

/-! ## Tokens between the signs -/

theorem strtok_none {delimiter : Char → Bool} {text : List Char} :
    strtok delimiter text = none ↔ ∀ char ∈ text, delimiter char = true := by
  rw [strtok, ← List.dropWhile_eq_nil_iff]
  cases text.dropWhile delimiter with
  | nil => simp
  | cons head tail => simp

theorem forall_eq_at_iff (text : List Char) :
    (∀ char ∈ text, decide (char = '@') = true) ↔ ∃ count, text = List.replicate count '@' := by
  constructor
  · intro all
    refine ⟨text.length, List.eq_replicate_iff.mpr ⟨rfl, ?_⟩⟩
    intro char member
    exact of_decide_eq_true (all char member)
  · rintro ⟨count, rfl⟩ char member
    exact decide_eq_true (List.eq_of_mem_replicate member)

theorem strtok_replicate_append {token : List Char} (nonempty : token ≠ [])
    (free : Free '@' token) (count : Nat) {behind : List Char}
    (stops : behind = [] ∨ behind.head? = some '@') :
    ∃ rest, strtok (· = '@') (List.replicate count '@' ++ token ++ behind) =
      some (token, rest) := by
  have plain : ∀ char ∈ token, decide (char = '@') = false :=
    fun char member => decide_eq_false fun equal => free (equal ▸ member)
  have skipped : strtok (· = '@') (List.replicate count '@' ++ token ++ behind) =
      strtok (· = '@') (token ++ behind) := by
    rw [strtok, strtok, List.append_assoc, List.dropWhile_append_of_pos]
    intro char member
    exact decide_eq_true (List.eq_of_mem_replicate member)
  rw [skipped]
  rcases stops with rfl | starts
  · rw [List.append_nil]
    exact ⟨[], strtok_token nonempty plain⟩
  · rcases List.head?_eq_some_iff.mp starts with ⟨rest, rfl⟩
    cases token with
    | nil => exact absurd rfl nonempty
    | cons head tail =>
        exact ⟨rest, strtok_token_append (plain head List.mem_cons_self)
          (fun char member => plain char (List.mem_cons_of_mem head member)) (by decide) rest⟩

theorem exists_of_strtok {text token rest : List Char}
    (read : strtok (· = '@') text = some (token, rest)) :
    ∃ count behind, (behind = [] ∨ behind.head? = some '@') ∧
      text = List.replicate count '@' ++ token ++ behind := by
  have skipped : ∃ count, text.takeWhile (· = '@') = List.replicate count '@' := by
    rw [← forall_eq_at_iff]
    intro char member
    exact List.mem_takeWhile_imp (p := (· = '@')) member
  rcases skipped with ⟨count, signs⟩
  have whole := List.takeWhile_append_dropWhile (p := (· = '@')) (l := text)
  rw [signs] at whole
  rw [strtok] at read
  generalize text.dropWhile (· = '@') = start at read whole
  cases start with
  | nil => cases read
  | cons head tail =>
      have token_ := congrArg Prod.fst (Option.some.inj read)
      dsimp only at token_
      refine ⟨count, (head :: tail).dropWhile fun char => !decide (char = '@'), ?_, ?_⟩
      · have stops := List.head?_dropWhile_not (fun char => !decide (char = '@')) (head :: tail)
        cases behind : (head :: tail).dropWhile fun char => !decide (char = '@') with
        | nil => exact .inl rfl
        | cons sign behind =>
            rw [behind] at stops
            right
            simpa using stops
      · rw [← token_, List.append_assoc, List.takeWhile_append_dropWhile, whole]

end Vpopmail
