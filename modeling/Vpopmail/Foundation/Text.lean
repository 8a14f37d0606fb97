import Mathlib.Data.List.DropRight
import Mathlib.Data.List.TakeWhile
import Mathlib.Data.List.Infix

/-! # C strings

A C string is the list of its characters, without the terminator. Memory that
is edited in place is a list of cells, in which the string ends at the first
`nul`.
-/

namespace Vpopmail.Text

@[reducible] def nul : Char := Char.ofNat 0

/-- The string that starts at the first of some cells. -/
def cstring (cells : List Char) : List Char :=
  cells.takeWhile (· ≠ nul)

def Free (char : Char) (text : List Char) : Prop := char ∉ text

instance (char : Char) (text : List Char) : Decidable (Free char text) :=
  inferInstanceAs (Decidable (char ∉ text))

@[simp] theorem free_nil (char : Char) : Free char [] := by
  simp [Free]

@[simp] theorem free_cons {char head : Char} {tail : List Char} :
    Free char (head :: tail) ↔ char ≠ head ∧ Free char tail := by
  simp [Free]

@[simp] theorem free_append {char : Char} {left right : List Char} :
    Free char (left ++ right) ↔ Free char left ∧ Free char right := by
  simp [Free]

theorem takeWhile_ne_append_cons {char : Char} {field : List Char}
    (free : Free char field) (rest : List Char) :
    (field ++ char :: rest).takeWhile (· ≠ char) = field := by
  rw [List.takeWhile_append_of_pos]
  · simp
  · intro other member
    simpa using fun equal : other = char => free (equal ▸ member)

theorem takeWhile_ne_of_free {char : Char} {field : List Char}
    (free : Free char field) : field.takeWhile (· ≠ char) = field := by
  rw [List.takeWhile_eq_self_iff]
  intro other member
  simpa using fun equal : other = char => free (equal ▸ member)

theorem dropWhile_ne_append_cons {char : Char} {field : List Char}
    (free : Free char field) (rest : List Char) :
    (field ++ char :: rest).dropWhile (· ≠ char) = char :: rest := by
  rw [List.dropWhile_append_of_pos]
  · simp
  · intro other member
    simpa using fun equal : other = char => free (equal ▸ member)

theorem dropWhile_ne_of_free {char : Char} {field : List Char}
    (free : Free char field) : field.dropWhile (· ≠ char) = [] := by
  rw [List.dropWhile_eq_nil_iff]
  intro other member
  simpa using fun equal : other = char => free (equal ▸ member)

theorem free_takeWhile_ne (char : Char) (text : List Char) :
    Free char (text.takeWhile (· ≠ char)) := by
  intro member
  simpa using List.mem_takeWhile_imp member

theorem cstring_append_nul {text : List Char} (free : Free nul text)
    (beyond : List Char) : cstring (text ++ nul :: beyond) = text :=
  takeWhile_ne_append_cons free beyond

theorem cstring_of_free {text : List Char} (free : Free nul text) :
    cstring text = text :=
  takeWhile_ne_of_free free

theorem length_cstring_lt {cells : List Char} (ended : nul ∈ cells) :
    (cstring cells).length < cells.length := by
  have whole := congrArg List.length (List.takeWhile_append_dropWhile
    (p := fun char : Char => decide (char ≠ nul)) (l := cells))
  have rest : cells.dropWhile (· ≠ nul) ≠ [] := by
    rw [ne_eq, List.dropWhile_eq_nil_iff]
    intro all
    simpa using all nul ended
  have positive := List.length_pos_iff.mpr rest
  rw [List.length_append] at whole
  rw [cstring]
  omega

theorem length_cstring_le (cells : List Char) : (cstring cells).length ≤ cells.length :=
  (List.takeWhile_sublist _).length_le

/-! ## Cutting at a separator -/

/-- Walk to the next separator: the text in front of it, and the text behind
it unless the string ended first. -/
def cut (separator : Char) (text : List Char) : List Char × Option (List Char) :=
  (text.takeWhile (· ≠ separator),
    match text.dropWhile (· ≠ separator) with
    | [] => none
    | _ :: rest => some rest)

theorem cut_append_cons {separator : Char} {field : List Char}
    (free : Free separator field) (rest : List Char) :
    cut separator (field ++ separator :: rest) = (field, some rest) := by
  simp only [cut]
  rw [takeWhile_ne_append_cons free, dropWhile_ne_append_cons free]

theorem cut_of_free {separator : Char} {field : List Char}
    (free : Free separator field) : cut separator field = (field, none) := by
  simp only [cut]
  rw [takeWhile_ne_of_free free, dropWhile_ne_of_free free]

/-- The first separator tells the field from the rest. -/
theorem append_cons_inj {separator : Char} {field rest field' rest' : List Char}
    (free : Free separator field) (free' : Free separator field')
    (equal : field ++ separator :: rest = field' ++ separator :: rest') :
    field = field' ∧ rest = rest' := by
  have cuts := congrArg (cut separator) equal
  rwa [cut_append_cons free, cut_append_cons free', Prod.mk.injEq, Option.some.injEq] at cuts

theorem free_or_eq_append_cons (separator : Char) (text : List Char) :
    Free separator text ∨
      ∃ field rest, Free separator field ∧ text = field ++ separator :: rest := by
  induction text with
  | nil => exact .inl (free_nil separator)
  | cons head tail induction =>
      by_cases equal : head = separator
      · subst head
        exact .inr ⟨[], tail, free_nil separator, rfl⟩
      · rcases induction with free | ⟨field, rest, free, rfl⟩
        · exact .inl (free_cons.mpr ⟨Ne.symm equal, free⟩)
        · exact .inr ⟨head :: field, rest,
            free_cons.mpr ⟨Ne.symm equal, free⟩, rfl⟩

/-! ## The last separator -/

/-- What stands behind a terminator does not count. -/
theorem cstring_append_nul_any (text behind : List Char) :
    cstring (text ++ nul :: behind) = cstring text := by
  rcases free_or_eq_append_cons nul text with free | ⟨front, rest, free, rfl⟩
  · rw [cstring_append_nul free, cstring_of_free free]
  · rw [List.append_assoc, List.cons_append, cstring_append_nul free, cstring_append_nul free]

theorem rtakeWhile_ne_append_cons {separator : Char} {last : List Char}
    (free : Free separator last) (front : List Char) :
    (front ++ separator :: last).rtakeWhile (· ≠ separator) = last := by
  have freeReverse : Free separator last.reverse :=
    fun member => free (List.mem_reverse.mp member)
  rw [List.rtakeWhile, List.reverse_append, List.reverse_cons, List.append_assoc,
    List.singleton_append, takeWhile_ne_append_cons freeReverse, List.reverse_reverse]

theorem exists_append_cons_last {separator : Char} {text : List Char} (member : separator ∈ text) :
    ∃ front last, text = front ++ separator :: last ∧ Free separator last := by
  rcases free_or_eq_append_cons separator text.reverse with missing | ⟨last, front, free, equal⟩
  · exact absurd (List.mem_reverse.mpr member) missing
  · refine ⟨front.reverse, last.reverse, ?_, fun member => free (List.mem_reverse.mp member)⟩
    rw [← List.reverse_reverse text, equal, List.reverse_append, List.reverse_cons,
      List.append_assoc, List.singleton_append]

theorem append_cons_last_inj {separator : Char} {front last front' last' : List Char}
    (free : Free separator last) (free' : Free separator last')
    (equal : front ++ separator :: last = front' ++ separator :: last') :
    front = front' ∧ last = last' := by
  have same : last = last' := by
    rw [← rtakeWhile_ne_append_cons free front, equal, rtakeWhile_ne_append_cons free']
  subst same
  exact ⟨List.append_cancel_right equal, rfl⟩

/-! ## Tokens -/

/-- One `strtok` call: leading delimiters are skipped, and the single
delimiter behind the token is consumed. No token is a null pointer. -/
def strtok (delimiter : Char → Bool) (text : List Char) :
    Option (List Char × List Char) :=
  match text.dropWhile delimiter with
  | [] => none
  | start => some (start.takeWhile fun char => !delimiter char,
      (start.dropWhile fun char => !delimiter char).drop 1)

theorem strtok_token_append {delimiter : Char → Bool} {head : Char}
    {token : List Char} (headPlain : delimiter head = false)
    (plain : ∀ char ∈ token, delimiter char = false) {stop : Char}
    (stopDelimits : delimiter stop = true) (rest : List Char) :
    strtok delimiter (head :: token ++ stop :: rest) =
      some (head :: token, rest) := by
  have kept : ∀ char ∈ head :: token, (!delimiter char) = true := by
    intro char member
    rcases List.mem_cons.mp member with equal | member
    · simp [equal, headPlain]
    · simp [plain char member]
  have start : (head :: token ++ stop :: rest).dropWhile delimiter =
      head :: token ++ stop :: rest := by
    simp [headPlain]
  have taken : (head :: token ++ stop :: rest).takeWhile (fun char => !delimiter char) =
      head :: token := by
    rw [List.takeWhile_append_of_pos kept]
    simp [stopDelimits]
  have left : (head :: token ++ stop :: rest).dropWhile (fun char => !delimiter char) =
      stop :: rest := by
    rw [List.dropWhile_append_of_pos kept]
    simp [stopDelimits]
  rw [strtok, start, List.cons_append]
  simp only
  rw [← List.cons_append, taken, left]
  rfl

theorem mem_of_mem_strtok {delimiter : Char → Bool} {text token rest : List Char}
    (read : strtok delimiter text = some (token, rest)) :
    ∀ char ∈ token, char ∈ text ∧ delimiter char = false := by
  intro char member
  rw [strtok] at read
  split at read
  · cases read
  · rename_i start
    rw [Option.some.injEq, Prod.mk.injEq] at read
    rw [← read.1] at member
    constructor
    · exact (List.dropWhile_sublist _).subset ((List.takeWhile_sublist _).subset member)
    · simpa using List.mem_takeWhile_imp member

theorem mem_of_mem_strtok_rest {delimiter : Char → Bool} {text token rest : List Char}
    (read : strtok delimiter text = some (token, rest)) : ∀ char ∈ rest, char ∈ text := by
  intro char member
  rw [strtok] at read
  split at read
  · cases read
  · rw [Option.some.injEq, Prod.mk.injEq] at read
    rw [← read.2] at member
    exact (List.dropWhile_sublist _).subset
      ((List.dropWhile_sublist _).subset (List.mem_of_mem_drop member))

/-- A token at the end of a text. -/
theorem strtok_token {delimiter : Char → Bool} {token : List Char} (nonempty : token ≠ [])
    (plain : ∀ char ∈ token, delimiter char = false) :
    strtok delimiter token = some (token, []) := by
  cases token with
  | nil => exact absurd rfl nonempty
  | cons head token =>
      have start : (head :: token).dropWhile delimiter = head :: token := by
        simp [plain head List.mem_cons_self]
      have taken : (head :: token).takeWhile (fun char => !delimiter char) = head :: token := by
        rw [List.takeWhile_eq_self_iff]
        intro char member
        rw [plain char member]
        rfl
      have left : (head :: token).dropWhile (fun char => !delimiter char) = [] := by
        rw [List.dropWhile_eq_nil_iff]
        intro char member
        rw [plain char member]
        rfl
      rw [strtok, start]
      simp only
      rw [taken, left]
      rfl

/-- A token and what is behind its delimiter are parts of the text. -/
theorem length_strtok {delimiter : Char → Bool} {text token rest : List Char}
    (read : strtok delimiter text = some (token, rest)) :
    token ≠ [] ∧ (rest = [] ∨ token.length + 1 + rest.length ≤ text.length) ∧
      token.length ≤ text.length := by
  rw [strtok] at read
  have shorter := (List.dropWhile_sublist (l := text) delimiter).length_le
  cases start : text.dropWhile delimiter with
  | nil =>
      rw [start] at read
      cases read
  | cons head tail =>
      have first : delimiter head = false := by
        have found := List.head?_dropWhile_not delimiter text
        rw [start] at found
        simpa using found
      rw [start] at read shorter
      rw [Option.some.injEq, Prod.mk.injEq] at read
      have parts := congrArg List.length (List.takeWhile_append_dropWhile
        (p := fun char => !delimiter char) (l := head :: tail))
      rw [List.length_append] at parts
      have drops := List.length_drop (i := 1)
        (l := (head :: tail).dropWhile fun char => !delimiter char)
      rw [read.1] at parts
      rw [read.2] at drops
      refine ⟨?_, ?_, by omega⟩
      · rw [← read.1, List.takeWhile_cons_of_pos (by simp [first])]
        exact List.cons_ne_nil _ _
      · rcases Nat.eq_zero_or_pos rest.length with empty | positive
        · exact .inl (List.length_eq_zero_iff.mp empty)
        · exact .inr (by omega)

/-- A token at the start of a text, which may be empty, and what ends it. -/
theorem token_or_more (delimiter : Char → Bool) (text : List Char) :
    ∃ token rest, text = token ++ rest ∧ (∀ char ∈ token, delimiter char = false) ∧
      (rest = [] ∨ ∃ stop more, rest = stop :: more ∧ delimiter stop = true) := by
  induction text with
  | nil => exact ⟨[], [], rfl, List.forall_mem_nil _, .inl rfl⟩
  | cons char text induction =>
      cases stops : delimiter char with
      | true =>
          exact ⟨[], char :: text, rfl, List.forall_mem_nil _, .inr ⟨char, text, rfl, stops⟩⟩
      | false =>
          rcases induction with ⟨token, rest, rfl, plain, ended⟩
          exact ⟨char :: token, rest, rfl, List.forall_mem_cons.mpr ⟨stops, plain⟩, ended⟩

/-! ## Tokens with delimiters behind them -/

section Tokens

variable {delimiter : Char → Bool} {text ends : List Char}

theorem strtok_append_none (delimits : ∀ char ∈ ends, delimiter char = true)
    (read : strtok delimiter text = none) : strtok delimiter (text ++ ends) = none := by
  rw [strtok] at read
  split at read
  · rename_i empty
    rw [List.dropWhile_eq_nil_iff] at empty
    have skipped : (text ++ ends).dropWhile delimiter = [] := by
      rw [List.dropWhile_eq_nil_iff]
      exact List.forall_mem_append.mpr ⟨empty, delimits⟩
    rw [strtok, skipped]
  · cases read

theorem strtok_append_some {token rest : List Char}
    (delimits : ∀ char ∈ ends, delimiter char = true)
    (read : strtok delimiter text = some (token, rest)) :
    ∃ more, (∀ char ∈ more, delimiter char = true) ∧
      strtok delimiter (text ++ ends) = some (token, rest ++ more) := by
  rw [strtok] at read
  split at read
  · cases read
  · rename_i start nonempty
    have parts := Option.some.inj read
    rw [Prod.mk.injEq] at parts
    have skipped : (text ++ ends).dropWhile delimiter = text.dropWhile delimiter ++ ends := by
      rw [List.dropWhile_append, if_neg]
      rw [List.isEmpty_iff]
      exact nonempty
    have outside : ends.takeWhile (fun char => !delimiter char) = [] ∧
        ends.dropWhile (fun char => !delimiter char) = ends := by
      cases ends with
      | nil => exact ⟨rfl, rfl⟩
      | cons stop ends =>
          have stops := delimits stop List.mem_cons_self
          exact ⟨List.takeWhile_cons_of_neg (by rw [stops]; decide),
            List.dropWhile_cons_of_neg (by rw [stops]; decide)⟩
    have nonempty' : text.dropWhile delimiter ++ ends ≠ [] :=
      List.append_ne_nil_of_left_ne_nil nonempty ends
    have again : strtok delimiter (text ++ ends) =
        some ((text.dropWhile delimiter ++ ends).takeWhile fun char => !delimiter char,
          ((text.dropWhile delimiter ++ ends).dropWhile fun char => !delimiter char).drop 1) := by
      rw [strtok, skipped]
      split
      · rename_i empty
        exact absurd empty nonempty'
      · rfl
    have sameToken : (text.dropWhile delimiter ++ ends).takeWhile (fun char => !delimiter char) =
        token := by
      rw [List.takeWhile_append, outside.1, List.append_nil, ← parts.1]
      split
      · rename_i whole
        exact ((List.takeWhile_sublist _).eq_of_length whole).symm
      · rfl
    rw [again, sameToken]
    rw [List.dropWhile_append]
    split
    · rename_i empty
      rw [List.isEmpty_iff] at empty
      rw [empty] at parts
      refine ⟨ends.drop 1, fun char member => delimits char (List.mem_of_mem_drop member), ?_⟩
      rw [← parts.2, outside.2]
      rfl
    · rename_i more
      rw [List.isEmpty_iff] at more
      refine ⟨ends, delimits, ?_⟩
      rw [← parts.2, List.drop_append_of_le_length]
      exact List.length_pos_iff.mpr more

end Tokens

end Vpopmail.Text
