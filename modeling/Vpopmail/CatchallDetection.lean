import Vpopmail.Catchall
import Vpopmail.EmailParsing
import Vpopmail.Foundation.Components

/-! # Which account is the catchall account

When `isCatchall` tells the account that `.qmail-default` delivers to from the others.
-/

namespace Vpopmail

open Text Vpopmail.Stream Buffer Backfill Components

section Spec

variable {user domain dir text : List Char}

/-! ## Paths -/

theorem catchallByPath_iff (absolute : text.head? = some '/') :
    catchallByPath user dir text = true ↔ NamesPath user dir text := by
  have member : '/' ∈ text := List.mem_of_mem_head? absolute
  rw [catchallByPath, Bool.and_eq_true, decide_eq_true_eq, strstr_isSome_iff]
  constructor
  · rintro ⟨inside, equal⟩
    rcases exists_append_cons_last member with ⟨front, last, rfl, free⟩
    rw [rtakeWhile_ne_append_cons free] at equal
    subst equal
    exact ⟨absolute, inside, free, List.suffix_append front _⟩
  · rintro ⟨-, inside, free, front, equal⟩
    refine ⟨inside, ?_⟩
    rw [← equal, rtakeWhile_ne_append_cons free]

/-! ## Forwards -/

theorem takeWhile_append_of_stops {name behind : List Char} (free : Free '@' name)
    (stops : behind = [] ∨ behind.head? = some '@') :
    (name ++ behind).takeWhile (· ≠ '@') = name := by
  rcases stops with rfl | starts
  · rw [List.append_nil, takeWhile_ne_of_free free]
  · rcases List.head?_eq_some_iff.mp starts with ⟨rest, rfl⟩
    exact takeWhile_ne_append_cons free rest

theorem strtok_name (nonempty : user ≠ []) (free : Free '@' user) (rest : List Char) :
    strtok (· = '@') (user ++ '@' :: rest) = some (user, rest) := by
  have plain : ∀ char ∈ user, decide (char = '@') = false :=
    fun char member => decide_eq_false fun equal => free (equal ▸ member)
  cases user with
  | nil => exact absurd rfl nonempty
  | cons head tail =>
      exact strtok_token_append (plain head List.mem_cons_self)
        (fun char member => plain char (List.mem_cons_of_mem head member)) (by decide) rest

theorem strtok_name_only (nonempty : user ≠ []) (free : Free '@' user) :
    strtok (· = '@') user = some (user, []) :=
  strtok_token nonempty fun _ member => decide_eq_false fun equal => free (equal ▸ member)

theorem catchallByForward_bare (nonempty : user ≠ []) (free : Free '@' user) (count : Nat) :
    catchallByForward user domain (user ++ List.replicate count '@') = .error .outOfBounds := by
  cases count with
  | zero =>
      rw [List.replicate_zero, List.append_nil, catchallByForward,
        strtok_name_only nonempty free]
      simp only [if_true]
      rfl
  | succ count =>
      have missing : strtok (· = '@') (List.replicate count '@') = none := by
        rw [strtok_none, forall_eq_at_iff]
        exact ⟨count, rfl⟩
      rw [List.replicate_succ, catchallByForward, strtok_name nonempty free]
      simp only [if_true, missing]

theorem catchallByForward_mailbox (nonempty : user ≠ []) (free : Free '@' user) (count : Nat)
    {token behind : List Char} (tokenNonempty : token ≠ []) (tokenFree : Free '@' token)
    (stops : behind = [] ∨ behind.head? = some '@') :
    catchallByForward user domain
        (user ++ List.replicate (count + 1) '@' ++ token ++ behind) =
      .ok (token = domain) := by
  rcases strtok_replicate_append tokenNonempty tokenFree count stops with ⟨rest, read⟩
  rw [List.append_assoc, List.append_assoc, List.replicate_succ, List.cons_append,
    catchallByForward, strtok_name nonempty free]
  rw [List.append_assoc] at read
  simp only [if_true, read]

theorem catchallByForward_other (named : text.takeWhile (· ≠ '@') ≠ [])
    (other : text.takeWhile (· ≠ '@') ≠ user) :
    catchallByForward user domain text = .ok false := by
  have free := free_takeWhile_ne '@' text
  rcases free_or_eq_append_cons '@' text with missing | ⟨name, rest, nameFree, rfl⟩
  · rw [takeWhile_ne_of_free missing] at named other
    rw [catchallByForward, strtok_name_only named missing]
    simp only [if_neg (Ne.symm other)]
  · rw [takeWhile_ne_append_cons nameFree] at named other
    rw [catchallByForward, strtok_name named nameFree]
    simp only [if_neg (Ne.symm other)]

/-- A forward that is not simply another account's has the user as its name. -/
theorem named_of_forward (started : (text.takeWhile (· ≠ '@')).length ≠ 0)
    (decided : catchallByForward user domain text ≠ .ok false) :
    text.takeWhile (· ≠ '@') = user := by
  apply Decidable.byContradiction
  intro other
  exact decided (catchallByForward_other
    (List.ne_nil_of_length_pos (Nat.pos_of_ne_zero started)) other)

/-- What can stand behind the name. -/
theorem forward_cases (nonempty : user ≠ []) (named : text.takeWhile (· ≠ '@') = user) :
    (∃ count, text = user ++ List.replicate count '@') ∨
      ∃ count token behind, token ≠ [] ∧ Free '@' token ∧
        (behind = [] ∨ behind.head? = some '@') ∧
        text = user ++ List.replicate (count + 1) '@' ++ token ++ behind := by
  rcases free_or_eq_append_cons '@' text with missing | ⟨name, rest, nameFree, rfl⟩
  · rw [takeWhile_ne_of_free missing] at named
    exact .inl ⟨0, by rw [named, List.replicate_zero, List.append_nil]⟩
  · rw [takeWhile_ne_append_cons nameFree] at named
    subst named
    cases read : strtok (· = '@') rest with
    | none =>
        rw [strtok_none, forall_eq_at_iff] at read
        rcases read with ⟨count, rfl⟩
        exact .inl ⟨count + 1, rfl⟩
    | some parts =>
        rcases exists_of_strtok read with ⟨count, behind, stops, equal⟩
        refine .inr ⟨count, parts.1, behind, (length_strtok read).1, ?_, stops, ?_⟩
        · intro member
          exact absurd (mem_of_mem_strtok read '@' member).2 (by decide)
        · rw [equal, List.replicate_succ]
          simp

/-! ## The rest of the line -/

theorem takeWhile_of_namesMailbox (free : Free '@' user) (named : NamesMailbox user domain text) :
    text.takeWhile (· ≠ '@') = user := by
  rcases named with ⟨-, count, behind, -, rfl⟩
  rw [List.append_assoc, List.append_assoc]
  exact takeWhile_append_of_stops free (.inr rfl)

theorem takeWhile_of_namesBare (free : Free '@' user) (named : NamesBare user text) :
    text.takeWhile (· ≠ '@') = user := by
  rcases named with ⟨-, count, rfl⟩
  apply takeWhile_append_of_stops free
  cases count with
  | zero => exact .inl rfl
  | succ count => exact .inr rfl

theorem head?_of_takeWhile {accept : Char → Bool} (nonempty : user ≠ [])
    (named : text.takeWhile accept = user) : text.head? = user.head? := by
  cases text with
  | nil => rw [← named, List.takeWhile_nil]
  | cons head tail =>
      rw [List.takeWhile_cons] at named
      split at named
      · rw [← named]
        rfl
      · exact absurd named.symm nonempty

theorem catchallIn_of_mentions (mentioned : Mentions text) :
    catchallIn user domain dir text = .ok false := by
  rw [catchallIn]
  split
  · rfl
  · next missing =>
      rw [strstr_isSome_iff] at missing
      rw [if_pos]
      exact (strstr_isSome_iff _ _).mpr (mentioned.resolve_left missing)

theorem catchallIn_of_not_mentions (plain : ¬ Mentions text) :
    catchallIn user domain dir text =
      if text.head? = some '/' then .ok (catchallByPath user dir text)
      else if (text.takeWhile (· ≠ '@')).length ≠ 0 then catchallByForward user domain text
      else .ok false := by
  rw [Mentions, not_or] at plain
  rw [catchallIn, if_neg, if_neg]
  · rw [strstr_isSome_iff]
    exact plain.2
  · rw [strstr_isSome_iff]
    exact plain.1

section Line

variable (nonempty : user ≠ []) (free : Free '@' user)

include nonempty free

theorem catchallIn_eq_true_iff (domainNonempty : domain ≠ []) (domainFree : Free '@' domain) :
    catchallIn user domain dir text = .ok true ↔
      ¬ Mentions text ∧ (NamesPath user dir text ∨ NamesMailbox user domain text) := by
  rcases Classical.em (Mentions text) with mentioned | plain
  · rw [catchallIn_of_mentions mentioned]
    constructor
    · intro equal
      cases equal
    · intro named
      exact absurd mentioned named.1
  · rw [catchallIn_of_not_mentions plain, and_iff_right plain]
    split
    · next absolute =>
        rw [Except.ok.injEq, catchallByPath_iff absolute]
        constructor
        · exact .inl
        · rintro (path | mailbox)
          · exact path
          · rw [head?_of_takeWhile nonempty (takeWhile_of_namesMailbox free mailbox)] at absolute
            exact absurd absolute mailbox.1
    · next relative =>
        have noPath : ¬ NamesPath user dir text := fun path => relative path.1
        rw [or_iff_right noPath]
        split
        · next started =>
            constructor
            · intro accepted
              have named : text.takeWhile (· ≠ '@') = user := by
                apply named_of_forward started
                rw [accepted]
                exact fun equal => by cases equal
              have first := head?_of_takeWhile nonempty named
              rcases forward_cases nonempty named with
                ⟨count, rfl⟩ | ⟨count, token, behind, tokenNonempty, tokenFree, stops, rfl⟩
              · rw [catchallByForward_bare nonempty free] at accepted
                cases accepted
              · rw [catchallByForward_mailbox nonempty free count tokenNonempty tokenFree stops,
                  Except.ok.injEq, decide_eq_true_eq] at accepted
                subst accepted
                exact ⟨first ▸ relative, count, behind, stops, rfl⟩
            · rintro ⟨-, count, behind, stops, rfl⟩
              rw [catchallByForward_mailbox nonempty free count domainNonempty domainFree stops,
                decide_eq_true rfl]
        · next missing =>
            constructor
            · intro equal
              cases equal
            · intro mailbox
              rw [takeWhile_of_namesMailbox free mailbox, not_not, List.length_eq_zero_iff]
                at missing
              exact absurd missing nonempty

theorem catchallIn_faults_iff :
    (∀ caught, catchallIn user domain dir text ≠ .ok caught) ↔
      ¬ Mentions text ∧ NamesBare user text := by
  rcases Classical.em (Mentions text) with mentioned | plain
  · rw [catchallIn_of_mentions mentioned]
    constructor
    · intro other
      exact absurd rfl (other false)
    · intro named
      exact absurd mentioned named.1
  · rw [catchallIn_of_not_mentions plain, and_iff_right plain]
    split
    · next absolute =>
        constructor
        · intro other
          exact absurd rfl (other _)
        · intro bare
          rw [head?_of_takeWhile nonempty (takeWhile_of_namesBare free bare)] at absolute
          exact absurd absolute bare.1
    · next relative =>
        split
        · next started =>
            constructor
            · intro faults
              have named := named_of_forward started (faults false)
              have first := head?_of_takeWhile nonempty named
              rcases forward_cases nonempty named with
                ⟨count, rfl⟩ | ⟨count, token, behind, tokenNonempty, tokenFree, stops, rfl⟩
              · exact ⟨first ▸ relative, count, rfl⟩
              · exact absurd
                  (catchallByForward_mailbox nonempty free count tokenNonempty tokenFree stops)
                  (faults _)
            · rintro ⟨-, count, rfl⟩ caught equal
              rw [catchallByForward_bare nonempty free] at equal
              cases equal
        · next missing =>
            constructor
            · intro other
              exact absurd rfl (other false)
            · intro bare
              rw [takeWhile_of_namesBare free bare, not_not, List.length_eq_zero_iff] at missing
              exact absurd missing nonempty

end Line

end Spec

/-! ## The line -/

/-- `| .../vdelivermail '' X`, with blanks around the `X`. -/
structure Instruction where
  front : List Char
  lead : List Char
  argument : List Char
  trail : List Char
  frontQuotes : Free '\'' front
  frontPlain : Free '\n' front ∧ Free nul front
  leadBlank : ∀ char ∈ lead, blank char = true
  argumentPlain : Free '\n' argument ∧ Free nul argument
  nonempty : argument ≠ []
  starts : ∀ head ∈ argument.head?, blank head = false
  ends : ∀ last ∈ argument.getLast?, blank last = false
  trailBlank : ∀ char ∈ trail, blank char = true

namespace Instruction

/-- The line in front of the quotes. -/
def command (instruction : Instruction) : List Char :=
  '|' :: instruction.front ++ vdelivermailName ++ [' ']

def line (instruction : Instruction) : List Char :=
  instruction.command ++ ['\'', '\''] ++
    ' ' :: (instruction.lead ++ (instruction.argument ++ instruction.trail))

/-- How many characters behind the leading blanks `vpalias_select_next` reads. -/
def seen (instruction : Instruction) : Nat :=
  maxAliasLine - 1 - (instruction.command.length + 3) - instruction.lead.length

/-- What `trim` leaves: the argument if a blank is read behind it, and otherwise what is read of
it without the last character, and without the blanks in front of that. -/
def kept (instruction : Instruction) : List Char :=
  if instruction.argument.length < instruction.seen ∧ instruction.trail ≠ [] then
    instruction.argument
  else (instruction.argument.take instruction.seen).dropLast.rdropWhile blank

end Instruction

theorem rdropWhile_append_of_all {accept : Char → Bool} {behind : List Char}
    (all : ∀ char ∈ behind, accept char = true) (text : List Char) :
    (text ++ behind).rdropWhile accept = text.rdropWhile accept := by
  rw [List.rdropWhile, List.rdropWhile, List.reverse_append, List.dropWhile_append_of_pos]
  intro char member
  exact all char (List.mem_reverse.mp member)

theorem trim_lead {lead body : List Char} (leadBlank : ∀ char ∈ lead, blank char = true)
    (starts : ∀ head ∈ body.head?, blank head = false) :
    trim (' ' :: (lead ++ body)) = body.dropLast.rdropWhile blank := by
  have all : ∀ char ∈ ' ' :: lead, blank char = true := by
    intro char member
    rcases List.mem_cons.mp member with rfl | inside
    · rfl
    · exact leadBlank char inside
  have started : body.takeWhile blank = [] := by
    cases body with
    | nil => rfl
    | cons head tail =>
        rw [List.takeWhile_cons_of_neg]
        rw [starts head rfl]
        exact Bool.false_ne_true
  have blanks : (' ' :: (lead ++ body)).takeWhile blank = ' ' :: lead := by
    rw [← List.cons_append, List.takeWhile_append_of_pos all, started, List.append_nil]
  have length : (' ' :: (lead ++ body)).length - (' ' :: lead).length - 1 = body.length - 1 := by
    simp only [List.length_cons, List.length_append]
    omega
  rw [trim]
  simp only [blanks, length]
  rw [if_pos (by simp), ← List.cons_append, List.drop_left, List.dropLast_eq_take]

theorem fgets_stops {body tail : List Char} (free : Free '\n' body) (nonempty : body ≠ [])
    (plain : Free nul body) (stops : tail = [] ∨ tail.head? = some '\n') :
    ∃ chunk rest, fgets maxAliasLine (body ++ tail) = some (chunk, rest) ∧
      trimLine chunk = body.take (maxAliasLine - 1) := by
  have cutFree : Free '\n' (body.take (maxAliasLine - 1)) :=
    fun member => free (List.mem_of_mem_take member)
  have cutPlain : Free nul (body.take (maxAliasLine - 1)) :=
    fun member => plain (List.mem_of_mem_take member)
  have started (text : List Char) (other : text ≠ []) :
      fgets maxAliasLine text = some (takeLine (maxAliasLine - 1) text) := by
    cases text with
    | nil => exact absurd rfl other
    | cons head tail => rfl
  rw [started _ (by simp [nonempty])]
  rcases Nat.lt_or_ge body.length (maxAliasLine - 1) with short | long
  · rw [List.take_of_length_le (Nat.le_of_lt short)] at cutFree cutPlain ⊢
    rcases stops with rfl | starts
    · rw [List.append_nil, takeLine_of_fits free short]
      refine ⟨body, [], rfl, ?_⟩
      rw [trimLine, cstring_of_free plain, takeWhile_ne_of_free free]
    · rcases List.head?_eq_some_iff.mp starts with ⟨more, rfl⟩
      rw [takeLine_line free short]
      refine ⟨body ++ ['\n'], more, rfl, ?_⟩
      have chunkPlain : Free nul (body ++ ['\n']) := free_append.mpr ⟨plain, by decide⟩
      rw [trimLine, cstring_of_free chunkPlain, takeWhile_ne_append_cons free]
  · rw [takeLine_long free long]
    refine ⟨_, _, rfl, ?_⟩
    rw [trimLine, cstring_of_free cutPlain, takeWhile_ne_of_free cutFree]

namespace Instruction

variable (instruction : Instruction)

theorem free_quote_command : Free '\'' instruction.command := by
  have plain : Free '\'' vdelivermailName := by decide
  simp only [command, free_append, free_cons, plain, instruction.frontQuotes]
  decide

theorem free_of_blanks {char : Char} {text : List Char} (visible : blank char = false)
    (blanks : ∀ char ∈ text, blank char = true) : Free char text := by
  intro member
  rw [blanks char member] at visible
  cases visible

theorem free_line {char : Char} (visible : blank char = false)
    (command : Free char instruction.command) (quote : char ≠ '\'')
    (argument : Free char instruction.argument) : Free char instruction.line := by
  have space : char ≠ ' ' := by
    rintro rfl
    cases visible
  have lead := free_of_blanks visible instruction.leadBlank
  have trail := free_of_blanks visible instruction.trailBlank
  simp [line, command, quote, space, lead, trail, argument]

theorem newline_line : Free '\n' instruction.line := by
  have name : Free '\n' vdelivermailName := by decide
  apply instruction.free_line rfl ?_ (by decide) instruction.argumentPlain.1
  simp [command, name, instruction.frontPlain.1]

theorem plain_line : Free nul instruction.line := by
  have name : Free nul vdelivermailName := by decide
  apply instruction.free_line rfl ?_ (by decide) instruction.argumentPlain.2
  simp [command, name, instruction.frontPlain.2, nul]

theorem starts_seen : ∀ head ∈ ((instruction.argument ++ instruction.trail).take
    instruction.seen).head?, blank head = false := by
  intro head member
  cases whole : instruction.argument with
  | nil => exact absurd whole instruction.nonempty
  | cons first rest =>
      have first_ := instruction.starts first (by rw [whole]; rfl)
      rw [whole] at member
      cases room : instruction.seen with
      | zero =>
          rw [room] at member
          cases member
      | succ count =>
          rw [room] at member
          cases member
          exact first_

theorem rdropWhile_argument :
    instruction.argument.rdropWhile blank = instruction.argument := by
  rw [List.rdropWhile_eq_self_iff]
  intro nonempty
  rw [instruction.ends _ (List.getLast?_eq_some_getLast nonempty)]
  exact Bool.false_ne_true

theorem kept_eq :
    ((instruction.argument ++ instruction.trail).take instruction.seen).dropLast.rdropWhile
      blank = instruction.kept := by
  rw [kept]
  split
  · next behind =>
      rcases behind with ⟨inside, some_⟩
      have room : 0 < instruction.seen - instruction.argument.length := by omega
      have cut : instruction.trail.take (instruction.seen - instruction.argument.length) ≠ [] := by
        rw [ne_eq, List.take_eq_nil_iff, not_or]
        exact ⟨Nat.ne_of_gt room, some_⟩
      rw [List.take_append, List.take_of_length_le (Nat.le_of_lt inside),
        List.dropLast_append_of_ne_nil cut, rdropWhile_append_of_all, rdropWhile_argument]
      intro char member
      exact instruction.trailBlank char (List.mem_of_mem_take (List.mem_of_mem_dropLast member))
  · next nothing =>
      have cut : (instruction.argument ++ instruction.trail).take instruction.seen =
          instruction.argument.take instruction.seen := by
        rcases Nat.lt_or_ge instruction.argument.length instruction.seen with inside | short
        · have none_ : instruction.trail = [] := by
            apply Decidable.byContradiction
            intro some_
            exact nothing ⟨inside, some_⟩
          rw [none_, List.append_nil]
        · exact List.take_append_of_le_length short
      rw [cut]

variable (user domain dir : List Char)

/-- The first 159 characters of the line, when these reach the blank behind the quotes. -/
theorem catchallOf_quoted (body : List Char) :
    catchallOf user domain dir (instruction.command ++ ['\'', '\''] ++ ' ' :: body) =
      catchallIn user domain dir (trim (' ' :: body)) := by
  have mentions : strstr (instruction.command ++ ['\'', '\''] ++ ' ' :: body) vdelivermailName ≠
      none := by
    rw [ne_eq, strstr_eq_none_iff, not_not]
    exact ⟨'|' :: instruction.front, ' ' :: '\'' :: '\'' :: ' ' :: body, by simp [command]⟩
  have quotes := strstr_first
    (firstBehind_of_free instruction.free_quote_command ['\'']) (' ' :: body)
  have rest : (instruction.command ++ ['\'', '\''] ++ ' ' :: body).drop instruction.command.length =
      ['\'', '\''] ++ [' '] ++ body := by
    rw [List.append_assoc, List.drop_left]
    rfl
  have space : strstr (['\'', '\''] ++ [' '] ++ body) [' '] = some 2 :=
    strstr_first (firstBehind_of_free (by decide) []) body
  rw [catchallOf, if_neg mentions]
  simp only [quotes, rest, space]
  rfl

/-- The first 159 characters of the line, when these end in front of that blank. -/
theorem catchallOf_cut {text : List Char} (front : text <+: instruction.command ++ ['\'', '\'']) :
    catchallOf user domain dir text = .ok false := by
  rw [catchallOf]
  split
  · rfl
  · cases found : strstr text ['\'', '\''] with
    | none => rfl
    | some quotes =>
        rcases exists_of_strstr found with ⟨before, after, rfl, length, first⟩
        rcases front with ⟨rest, equal⟩
        have here := strstr_first first (after ++ rest)
        have there := strstr_first
          (firstBehind_of_free instruction.free_quote_command ['\'']) []
        rw [← List.append_assoc, equal] at here
        rw [List.append_nil, here, Option.some.injEq] at there
        have lengths := congrArg List.length equal
        simp only [List.length_append] at lengths
        have none_ : after = [] := List.eq_nil_of_length_eq_zero (by omega)
        have missing : strstr ['\'', '\''] [' '] = none := by decide
        subst none_ length
        simp only [List.append_nil, List.drop_left, missing]

theorem catchallIn_nil : catchallIn user domain dir [] = .ok false := by
  have noBounce : strstr [] bounceNoMailbox = none := by decide
  have noDelete : strstr [] deleteNoMailbox = none := by decide
  simp [catchallIn, noBounce, noDelete]

/-- What is read of the line. -/
theorem catchallOf_line :
    catchallOf user domain dir (instruction.line.take (maxAliasLine - 1)) =
      catchallIn user domain dir instruction.kept := by
  rcases Nat.lt_or_ge (instruction.command.length + 2) (maxAliasLine - 1) with room | short
  · have count : maxAliasLine - 1 - (instruction.command.length + 2) =
        maxAliasLine - 1 - (instruction.command.length + 3) + 1 := by omega
    have cut : instruction.line.take (maxAliasLine - 1) =
        instruction.command ++ ['\'', '\''] ++
          ' ' :: (instruction.lead.take (maxAliasLine - 1 - (instruction.command.length + 3)) ++
            (instruction.argument ++ instruction.trail).take instruction.seen) := by
      have length : (instruction.command ++ ['\'', '\'']).length =
          instruction.command.length + 2 := List.length_append
      rw [line, List.take_append, List.take_of_length_le (by omega), length, count,
        List.take_succ_cons, List.take_append]
      rfl
    rw [cut, catchallOf_quoted, trim_lead _ instruction.starts_seen, kept_eq]
    intro char member
    exact instruction.leadBlank char (List.mem_of_mem_take member)
  · have nothing : instruction.seen = 0 := by
      rw [seen]
      omega
    have front : instruction.line.take (maxAliasLine - 1) <+:
        instruction.command ++ ['\'', '\''] := by
      rw [line, List.take_append_of_le_length]
      · exact List.take_prefix _ _
      · rw [List.length_append]
        exact short
    have none_ : instruction.kept = [] := by
      simp [kept, nothing]
    rw [catchallOf_cut _ _ _ _ front, none_, catchallIn_nil]

end Instruction

/-! ## Exactness -/

def DenotesPath (user dir argument : List Char) : Prop :=
  argument.head? = some '/' ∧ ∃ hash, components argument = components dir ++ (hash ++ [user]) ∧
    dotdot ∉ hash ++ [user]

/-- The account is the one that the argument delivers to: by its address, or by a path in the
directory of the domain. -/
def Denotes (user domain dir argument : List Char) : Prop :=
  argument = user ++ '@' :: domain ∨ DenotesPath user dir argument

/-- The instructions that tell whether an account is the catchall account. -/
inductive Distinguished (user domain dir : List Char) (instruction : Instruction) : Prop
  /-- The address is read up to a blank behind it, and is none of the words. -/
  | mailbox : instruction.argument = user ++ '@' :: domain → user.head? ≠ some '/' →
      instruction.argument.length < instruction.seen → instruction.trail ≠ [] →
      ¬ Mentions instruction.argument → Distinguished user domain dir instruction
  /-- What is kept of the path ends in the user and has the text of the directory in it. -/
  | path : DenotesPath user dir instruction.argument → ¬ Mentions instruction.kept →
      dir <:+: instruction.kept → '/' :: user <:+ instruction.kept →
      Distinguished user domain dir instruction
  /-- What is kept of another argument does not look like one for the account. -/
  | other : ¬ Denotes user domain dir instruction.argument →
      (Mentions instruction.kept ∨ ¬ NamesPath user dir instruction.kept ∧
        ¬ NamesMailbox user domain instruction.kept ∧ ¬ NamesBare user instruction.kept) →
      Distinguished user domain dir instruction

section Exact

variable {user domain dir : List Char} {instruction : Instruction}

theorem kept_front : instruction.kept <+: instruction.argument := by
  rw [Instruction.kept]
  split
  · exact List.prefix_rfl
  · exact (List.rdropWhile_prefix _ _).trans
      ((List.dropLast_prefix _).trans (List.take_prefix _ _))

theorem kept_eq_argument (whole : instruction.argument.length ≤ instruction.kept.length) :
    instruction.argument.length < instruction.seen ∧ instruction.trail ≠ [] ∧
      instruction.kept = instruction.argument := by
  rw [Instruction.kept] at whole ⊢
  split
  · next behind => exact ⟨behind.1, behind.2, rfl⟩
  · next nothing =>
      rw [if_neg nothing] at whole
      have shorter := ((List.rdropWhile_prefix blank
        (instruction.argument.take instruction.seen).dropLast).length_le)
      have positive := List.length_pos_iff.mpr instruction.nonempty
      rw [List.length_dropLast, List.length_take] at shorter
      omega

theorem head?_kept (nonempty : instruction.kept ≠ []) :
    instruction.kept.head? = instruction.argument.head? := by
  rcases @kept_front instruction with ⟨rest, equal⟩
  rw [← equal, List.head?_append_of_ne_nil _ nonempty]

variable (nonempty : user ≠ []) (free : Free '@' user)
    (domainNonempty : domain ≠ []) (domainFree : Free '@' domain)

include nonempty free domainNonempty domainFree

theorem distinguished_iff :
    (∃ caught, catchallIn user domain dir instruction.kept = .ok caught ∧
        (caught = true ↔ Denotes user domain dir instruction.argument)) ↔
      Distinguished user domain dir instruction := by
  have accepts := @catchallIn_eq_true_iff user domain dir instruction.kept nonempty free
    domainNonempty domainFree
  have faults := @catchallIn_faults_iff user domain dir instruction.kept nonempty free
  have userKept : instruction.kept.head? = user.head? →
      instruction.argument.head? = user.head? := by
    intro same
    rw [← head?_kept, same]
    intro none_
    rw [none_] at same
    exact nonempty (List.head?_eq_none_iff.mp same.symm)
  constructor
  · rintro ⟨caught, decided, exact_⟩
    rw [decided, Except.ok.injEq, exact_] at accepts
    rcases Classical.em (Denotes user domain dir instruction.argument) with denoted | other
    · rcases accepts.mp denoted with ⟨plain, path | mailbox⟩
      · rcases denoted with address | below
        · rcases path with ⟨absolute, -, noSlash, -⟩
          have first : user.head? = some '/' := by
            rw [head?_kept (by rintro none_; rw [none_] at absolute; cases absolute), address,
              List.head?_append_of_ne_nil _ nonempty] at absolute
            exact absolute
          exact absurd (List.mem_of_mem_head? first) noSlash
        · exact .path below plain path.2.1 path.2.2.2
      · have first := userKept
          (head?_of_takeWhile nonempty (takeWhile_of_namesMailbox free mailbox))
        rcases denoted with address | below
        · have long : instruction.argument.length ≤ instruction.kept.length := by
            rcases mailbox with ⟨-, count, behind, -, equal⟩
            rw [equal, address]
            simp only [List.length_append, List.length_cons, List.length_replicate]
            omega
          rcases kept_eq_argument long with ⟨inside, behind, same⟩
          exact .mailbox address mailbox.1 inside behind (same ▸ plain)
        · exact absurd (first ▸ below.1) mailbox.1
    · apply Distinguished.other other
      rcases Classical.em (Mentions instruction.kept) with mentioned | plain
      · exact .inl mentioned
      · right
        refine ⟨?_, ?_, ?_⟩
        · intro path
          exact other (accepts.mpr ⟨plain, .inl path⟩)
        · intro mailbox
          exact other (accepts.mpr ⟨plain, .inr mailbox⟩)
        · intro bare
          exact faults.mpr ⟨plain, bare⟩ caught decided
  · intro distinguished
    cases distinguished with
    | mailbox address first inside behind plain =>
        have same : instruction.kept = instruction.argument := by
          rw [Instruction.kept, if_pos ⟨inside, behind⟩]
        refine ⟨true, accepts.mpr ⟨same ▸ plain, .inr ⟨first, 0, [], .inl rfl, ?_⟩⟩, ?_⟩
        · rw [same, address]
          simp
        · exact iff_of_true rfl (.inl address)
    | path below plain inside last =>
        have some_ : instruction.kept ≠ [] := by
          intro none_
          rw [none_, List.suffix_nil] at last
          cases last
        have noSlash : '/' ∉ user := by
          rcases below.2 with ⟨hash, names, -⟩
          have member : user ∈ components instruction.argument := by
            rw [names]
            simp
          exact not_mem_of_mem_components member
        refine ⟨true, accepts.mpr ⟨plain, .inl ⟨?_, inside, noSlash, last⟩⟩, ?_⟩
        · rw [head?_kept some_]
          exact below.1
        · exact iff_of_true rfl (.inr below)
    | other other plain =>
        cases decided : catchallIn user domain dir instruction.kept with
        | error fault =>
            rw [decided] at faults
            rcases faults.mp (by intro caught equal; cases equal) with ⟨unmentioned, bare⟩
            exact absurd bare (plain.resolve_left unmentioned).2.2
        | ok caught =>
            refine ⟨caught, rfl, ?_⟩
            rw [decided, Except.ok.injEq] at accepts
            rw [accepts]
            constructor
            · rintro ⟨unmentioned, named⟩
              rcases plain.resolve_left unmentioned with ⟨noPath, noMailbox, -⟩
              exact absurd named (not_or.mpr ⟨noPath, noMailbox⟩)
            · intro denoted
              exact absurd denoted other

end Exact

/-- An account of a domain with an instruction in the first line of its `.qmail-default`, and
what `vdeluser` finds and does. -/
structure CatchallDelivery (State : Type) where
  lookup : DomainLookup
  files : Files
  enters : List Char → Bool
  known : List Char → List Char → Bool
  remove : List Char → List Char → State → Int × State
  user : List Char
  domain : List Char
  dir : List Char
  instruction : Instruction
  behind : List Char
  userName : LowerName isUsernameValid user
  domainName : LowerName isDomainValid domain
  domainShort : domain.length ≤ maxPwDomain
  located : lookup domain = some (domain, dir)
  roomy : Roomy dir
  stored : files (aliasPath dir defaultAlias) = some (instruction.line ++ behind)
  stops : behind = [] ∨ behind.head? = some '\n'
  entered : enters dir = true
  exists_ : known user domain = true

namespace CatchallDelivery

variable {State : Type} (delivery : CatchallDelivery State)

/-- `isCatchall` finds the account when the instruction denotes it, and `vdeluser` deletes it
when not. -/
def Exact : Prop :=
  ∀ scan, ∃ caught,
    isCatchall delivery.lookup delivery.files delivery.user delivery.domain delivery.dir scan =
      .ok caught ∧
    (caught = true ↔
      Denotes delivery.user delivery.domain delivery.dir delivery.instruction.argument) ∧
    ∀ state, vdeluser delivery.lookup delivery.files delivery.enters delivery.known
      delivery.remove delivery.user delivery.domain scan state =
        .ok (if caught then (VaCode.cannotDeleteCatchall.number, state)
          else delivery.remove delivery.user delivery.domain state)

theorem isCatchall_eq (scan : AliasScan) :
    isCatchall delivery.lookup delivery.files delivery.user delivery.domain delivery.dir scan =
      catchallIn delivery.user delivery.domain delivery.dir delivery.instruction.kept := by
  have nonempty : delivery.instruction.line ≠ [] := by simp [Instruction.line]
  rcases fgets_stops delivery.instruction.newline_line nonempty delivery.instruction.plain_line
    delivery.stops with ⟨chunk, rest, read, trimmed⟩
  have codes : aliasNamesCode defaultAlias delivery.domain = none := by
    rw [aliasNamesCode, if_neg (by decide), if_neg (Nat.not_lt_of_ge delivery.domainShort)]
  rw [← Instruction.catchallOf_line, ← trimmed, isCatchall, vpaliasSelect]
  simp only [codes, Option.isSome_none, Bool.false_eq_true, if_false, delivery.located,
    delivery.stored, vpaliasSelectNext, read]

theorem vdeluser_eq (scan : AliasScan) (state : State) :
    vdeluser delivery.lookup delivery.files delivery.enters delivery.known delivery.remove
        delivery.user delivery.domain scan state =
      (isCatchall delivery.lookup delivery.files delivery.user delivery.domain delivery.dir
        scan).map fun caught =>
          if caught then (VaCode.cannotDeleteCatchall.number, state)
          else delivery.remove delivery.user delivery.domain state := by
  rw [vdeluser, if_neg delivery.userName.nonempty]
  simp only [lowerit_eq_self delivery.userName.short delivery.userName.lower,
    lowerit_eq_self delivery.domainName.short delivery.domainName.lower, delivery.located,
    delivery.entered, delivery.exists_, Bool.not_true, Bool.false_eq_true, if_false]

/-- `isCatchall` is exact for the distinguished instructions only. -/
theorem exact_iff :
    delivery.Exact ↔
      Distinguished delivery.user delivery.domain delivery.dir delivery.instruction := by
  have userFree : Free '@' delivery.user :=
    free_of_isUsernameValid (by decide) delivery.userName.valid
  have domainFree : Free '@' delivery.domain :=
    free_of_isDomainValid (by decide) delivery.domainName.valid
  rw [← distinguished_iff delivery.userName.nonempty userFree delivery.domainName.nonempty
    domainFree]
  constructor
  · intro exact_
    rcases exact_ .initial with ⟨caught, decided, denoted, -⟩
    rw [isCatchall_eq] at decided
    exact ⟨caught, decided, denoted⟩
  · rintro ⟨caught, decided, denoted⟩ scan
    refine ⟨caught, ?_, denoted, ?_⟩
    · rw [isCatchall_eq, decided]
    · intro state
      rw [vdeluser_eq, isCatchall_eq, decided]
      rfl

end CatchallDelivery

/-- `| /v/bin/vdelivermail '' /v/ab`. -/
def pathInstruction : Instruction where
  front := [' ', '/', 'v', '/', 'b', 'i', 'n', '/']
  lead := []
  argument := ['/', 'v', '/', 'a', 'b']
  trail := []
  frontQuotes := by decide
  frontPlain := by decide
  leadBlank := fun char member => absurd member List.not_mem_nil
  argumentPlain := by decide
  nonempty := by decide
  starts := by
    intro head member
    cases member
    rfl
  ends := by
    intro last member
    cases member
    rfl
  trailBlank := fun char member => absurd member List.not_mem_nil

def pathDelivery (user : List Char) (userName : LowerName isUsernameValid user) :
    CatchallDelivery Unit where
  lookup := fun domain => if domain = ['b', '.', 'c'] then some (domain, ['/', 'v']) else none
  files := fun path =>
    if path = aliasPath ['/', 'v'] defaultAlias then some pathInstruction.line else none
  enters := fun _ => true
  known := fun _ _ => true
  remove := fun _ _ state => (0, state)
  user := user
  domain := ['b', '.', 'c']
  dir := ['/', 'v']
  instruction := pathInstruction
  behind := []
  userName := userName
  domainName := lowerName_of_map (by decide) (by decide) (by decide) (by decide)
  domainShort := by decide
  located := rfl
  roomy := by decide
  stored := rfl
  stops := .inl rfl
  entered := rfl
  exists_ := rfl

/-- The last character of the path is lost: the account `a` is not deleted, and `ab`, to which
the mail goes, is. -/
theorem isCatchall_confuses :
    let other := pathDelivery ['a']
      (lowerName_of_map (by decide) (by decide) (by decide) (by decide))
    let catchall := pathDelivery ['a', 'b']
      (lowerName_of_map (by decide) (by decide) (by decide) (by decide))
    vdeluser other.lookup other.files other.enters other.known other.remove ['a'] ['b', '.', 'c']
        .initial () = .ok (VaCode.cannotDeleteCatchall.number, ()) ∧
      vdeluser catchall.lookup catchall.files catchall.enters catchall.known catchall.remove
        ['a', 'b'] ['b', '.', 'c'] .initial () = .ok (0, ()) ∧
      ¬ other.Exact ∧ ¬ catchall.Exact := by
  intro other catchall
  have refused : isCatchall other.lookup other.files ['a'] ['b', '.', 'c'] ['/', 'v'] .initial =
      .ok true := by decide +kernel
  have missed : isCatchall catchall.lookup catchall.files ['a', 'b'] ['b', '.', 'c'] ['/', 'v']
      .initial = .ok false := by decide +kernel
  refine ⟨?_, ?_, ?_, ?_⟩
  · exact (other.vdeluser_eq .initial ()).trans (congrArg (Except.map _) refused)
  · exact (catchall.vdeluser_eq .initial ()).trans (congrArg (Except.map _) missed)
  · intro exact_
    rcases exact_ .initial with ⟨caught, decided, denoted, -⟩
    cases refused.symm.trans decided
    rcases denoted.mp rfl with address | ⟨-, hash, names, -⟩
    · exact absurd address (by decide)
    · have last := congrArg List.getLast? names
      rw [← List.append_assoc, List.getLast?_concat] at last
      exact absurd last (by decide)
  · intro exact_
    rcases exact_ .initial with ⟨caught, decided, denoted, -⟩
    cases missed.symm.trans decided
    have caught := denoted.mpr (.inr ⟨rfl, [], by decide, by decide⟩)
    cases caught

end Vpopmail
