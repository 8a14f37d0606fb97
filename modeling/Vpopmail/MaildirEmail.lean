import Vpopmail.ControlFiles
import Vpopmail.StringSearch
import Vpopmail.Foundation.Buffer

/-! # The account of a Maildir

`maildir_to_email` reads the account off a path: the component in front of the last
`/Maildir/`, and the last component with a period in front of that one.
-/

namespace Vpopmail

open Text Buffer Backfill

def maildirEnd : List Char := ['/', 'M', 'a', 'i', 'l', 'd', 'i', 'r']

def maildirSlash : List Char := maildirEnd ++ ['/']

/-- `do { last = pnt; pnt = strstr(pnt + 1, needle); } while (pnt != NULL)`. -/
def lastFrom (needle text : List Char) : (rounds : Nat) → Nat → Nat
  | 0, pnt => pnt
  | rounds + 1, pnt =>
      match strstr (text.drop (pnt + 1)) needle with
      | none => pnt
      | some offset => lastFrom needle text rounds (pnt + 1 + offset)

/-- Where the string is ended behind the user, if it is. An empty string is searched behind
its terminator, and a short one is compared from in front of it. -/
def lastMaildir (text : List Char) : Checked (Option Nat) :=
  if text = [] then .error .outOfBounds
  else
    let last := lastFrom maildirSlash text text.length 0
    if last ≠ 0 then .ok (some last)
    else if text.length < maildirEnd.length then .error .outOfBounds
    else if text.drop (text.length - maildirEnd.length) ≠ maildirEnd then .ok none
    else .ok (some (text.length - maildirEnd.length))

/-- `while (i > 0 && mdcopy[i] != '/') i--`. -/
def walkBack (cells : List Char) : Nat → Nat
  | 0 => 0
  | i + 1 => if cells[i + 1]? = some '/' then i + 1 else walkBack cells i

/-- The loop that ends the string at one slash after the other. -/
def domainAt : (rounds : Nat) → List Char → Nat → Nat × List Char
  | 0, cells, i => (i, cells)
  | rounds + 1, cells, i =>
      let cells := cells.set i nul
      let start := walkBack cells i
      if 0 < start ∧ '.' ∉ (cells.take (i + 1)).drop (start + 1) then
        domainAt rounds cells start
      else (start, cells)

def emailSize : Nat := 256

/-- The address, where the string is ended at `last`. -/
def emailAt (text : List Char) (last : Nat) : List Char :=
  let cells := (text ++ [nul]).set last nul
  let i := walkBack cells last
  if i = 0 then []
  else
    let (start, cells) := domainAt cells.length cells i
    if start = 0 then []
    else snprintf emailSize
      (cstring (cells.drop (i + 1)) ++ '@' :: cstring (cells.drop (start + 1)))

/-- The copy of the path, with the current directory in front of a relative one. Nothing is
known of `calling_dir` when the directory does not fit. -/
def absolute (cwd maildir : List Char) : Checked (List Char) :=
  if ['.', '/'] <+: maildir then
    if cwd.length < maxBuff then .ok (cwd ++ maildir.tail) else .error .outOfBounds
  else .ok maildir

/-- `maildir_to_email`, for allocations that succeed. -/
def maildirToEmail (cwd maildir : List Char) : Checked (List Char) :=
  (absolute cwd maildir).bind fun text =>
    (lastMaildir text).map fun last => (last.map (emailAt text)).getD []

/-! ## The last occurrence -/

section Last

variable {needle text : List Char}

theorem infix_drop_iff (start : Nat) :
    needle <:+: text.drop start ↔ ∃ position, start ≤ position ∧ needle <+: text.drop position := by
  constructor
  · intro occurs
    rcases occurs with ⟨before, after, equal⟩
    refine ⟨start + before.length, Nat.le_add_right _ _, ?_⟩
    rw [← List.drop_drop, ← equal, List.append_assoc, List.drop_left]
    exact List.prefix_append needle after
  · intro occurs
    rcases occurs with ⟨position, later, front⟩
    apply front.isInfix.trans
    rw [← Nat.add_sub_cancel' later, ← List.drop_drop]
    exact (List.drop_suffix _ _).isInfix

theorem lastFrom_of_none {start : Nat} (rounds : Nat)
    (none : ∀ position, start < position → ¬ needle <+: text.drop position) :
    lastFrom needle text rounds start = start := by
  cases rounds with
  | zero => rfl
  | succ rounds =>
      have missing : strstr (text.drop (start + 1)) needle = Option.none := by
        rw [strstr_eq_none_iff, infix_drop_iff]
        intro occurs
        rcases occurs with ⟨position, later, front⟩
        exact none position later front
      rw [lastFrom, missing]

theorem lastFrom_eq {position : Nat} (front : needle <+: text.drop position)
    (final : ∀ later, position < later → ¬ needle <+: text.drop later) {start rounds : Nat}
    (ahead : start < position) (enough : position ≤ start + rounds) :
    lastFrom needle text rounds start = position := by
  induction rounds generalizing start with
  | zero => omega
  | succ rounds induction =>
      have found : (strstr (text.drop (start + 1)) needle).isSome = true := by
        rw [strstr_isSome_iff, infix_drop_iff]
        exact ⟨position, ahead, front⟩
      rcases Option.isSome_iff_exists.mp found with ⟨offset, at_⟩
      rw [lastFrom, at_]
      rcases exists_of_strstr at_ with ⟨before, after, equal, length, first⟩
      have occurs : needle <+: text.drop (start + 1 + offset) := by
        rw [← List.drop_drop, equal, ← length, List.append_assoc, List.drop_left]
        exact List.prefix_append needle after
      rcases Nat.lt_trichotomy (start + 1 + offset) position with sooner | same | later
      · exact induction sooner (by omega)
      · simp only [same]
        exact lastFrom_of_none rounds final
      · exact absurd occurs (final _ later)

end Last

/-- What stands in front of the `/Maildir` that is taken for the one behind the user: the last
`/Maildir/` that is not at the start of the path, or else the `/Maildir` at its end. -/
inductive MaildirFront (text front : List Char) : Prop
  | inside {rest : List Char} : text = front ++ maildirSlash ++ rest → front ≠ [] →
      (∀ position, front.length < position → ¬ maildirSlash <+: text.drop position) →
        MaildirFront text front
  | ending : text = front ++ maildirEnd →
      (∀ position, 0 < position → ¬ maildirSlash <+: text.drop position) → MaildirFront text front

theorem lastMaildir_of_front {text front : List Char} (at_ : MaildirFront text front) :
    lastMaildir text = .ok (some front.length) := by
  cases at_ with
  | inside whole nonempty final =>
      have positive := List.length_pos_iff.mpr nonempty
      have occurs : maildirSlash <+: text.drop front.length := by
        rw [whole, List.append_assoc, List.drop_left]
        exact List.prefix_append _ _
      have long : front.length ≤ text.length := by
        rw [whole, List.length_append, List.length_append]
        omega
      have last : lastFrom maildirSlash text text.length 0 = front.length :=
        lastFrom_eq occurs final positive (by omega)
      have filled : text ≠ [] := List.ne_nil_of_length_pos (by omega)
      rw [lastMaildir, if_neg filled]
      simp only [last]
      rw [if_pos (by omega)]
  | ending whole none =>
      have last : lastFrom maildirSlash text text.length 0 = 0 := lastFrom_of_none _ none
      have length : text.length = front.length + maildirEnd.length := by
        rw [whole, List.length_append]
      have start : text.length - maildirEnd.length = front.length := by omega
      have size : maildirEnd.length = 8 := rfl
      have filled : text ≠ [] := List.ne_nil_of_length_pos (by omega)
      rw [lastMaildir, if_neg filled]
      simp only [last, start]
      rw [if_neg (by omega), if_neg (by omega), if_neg]
      rw [whole, List.drop_left]
      exact fun other => other rfl

/-! ## The components -/

section Components

variable {before after rest : List Char}

theorem walkBack_slash (nonempty : before ≠ []) (free : Free '/' after) :
    walkBack (before ++ '/' :: after ++ rest) (before.length + after.length) = before.length := by
  induction after using List.reverseRecOn generalizing rest with
  | nil =>
      have positive := List.length_pos_iff.mpr nonempty
      obtain ⟨size, length⟩ : ∃ size, before.length = size + 1 := ⟨before.length - 1, by omega⟩
      rw [List.length_nil, Nat.add_zero, length, walkBack, if_pos]
      rw [← length, List.append_assoc, List.getElem?_append_right (Nat.le_refl _), Nat.sub_self]
      rfl
  | append_singleton after char induction =>
      rw [free_append] at free
      have other : char ≠ '/' := fun same => free.2 (by simp [same])
      have here : (before ++ '/' :: (after ++ [char]) ++ rest)[before.length + after.length + 1]? =
          some char := by
        rw [List.append_assoc, List.getElem?_append_right (by omega)]
        have offset : before.length + after.length + 1 - before.length = after.length + 1 := by omega
        rw [offset, List.cons_append, List.getElem?_cons_succ, List.append_assoc,
          List.getElem?_append_right (Nat.le_refl _), Nat.sub_self]
        rfl
      have shift : before ++ '/' :: (after ++ [char]) ++ rest =
          before ++ '/' :: after ++ ([char] ++ rest) := by simp
      rw [List.length_append, List.length_singleton, ← Nat.add_assoc, walkBack, if_neg, shift]
      · exact induction free.1
      · rw [here, Option.some.injEq]
        exact other

theorem walkBack_free (head : Char) (free : Free '/' after) (rest : List Char) :
    walkBack (head :: after ++ rest) after.length = 0 := by
  induction after using List.reverseRecOn generalizing rest with
  | nil => rfl
  | append_singleton after char induction =>
      rw [free_append] at free
      have other : char ≠ '/' := fun same => free.2 (by simp [same])
      have here : (head :: (after ++ [char]) ++ rest)[after.length + 1]? = some char := by
        rw [List.cons_append, List.getElem?_cons_succ, List.append_assoc,
          List.getElem?_append_right (Nat.le_refl _), Nat.sub_self]
        rfl
      have shift : head :: (after ++ [char]) ++ rest = head :: after ++ ([char] ++ rest) := by simp
      rw [List.length_append, List.length_singleton, walkBack, if_neg, shift]
      · exact induction free.1 _
      · rw [here, Option.some.injEq]
        exact other

end Components

/-- The last component with a period. What is in front of the first slash, or behind one at the
start, is none. -/
inductive DomainOf : List Char → List Char → Prop
  | here {base domain : List Char} : base ≠ [] → Free '/' domain → '.' ∈ domain →
      DomainOf (base ++ '/' :: domain) domain
  | above {before component domain : List Char} : Free '/' component → Free '.' component →
      DomainOf before domain → DomainOf (before ++ '/' :: component) domain

theorem DomainOf.ne_nil {before domain : List Char} (domainOf : DomainOf before domain) :
    before ≠ [] := by
  cases domainOf <;> simp

/-- The last component that does not start the path, unless there is none. -/
theorem lastComponent_cases (text : List Char) :
    text = [] ∨ (∃ head after, text = head :: after ∧ Free '/' after) ∨
      ∃ before after, text = before ++ '/' :: after ∧ before ≠ [] ∧ Free '/' after := by
  cases text with
  | nil => exact .inl rfl
  | cons head tail =>
      by_cases member : '/' ∈ tail
      · rcases exists_append_cons_last member with ⟨front, last, rfl, free⟩
        exact .inr (.inr ⟨head :: front, last, rfl, List.cons_ne_nil _ _, free⟩)
      · exact .inr (.inl ⟨head, tail, rfl, member⟩)

section Loop

variable {before component domain rest : List Char}

theorem set_slash (before rest : List Char) :
    (before ++ '/' :: rest).set before.length nul = before ++ nul :: rest := by
  rw [List.set_append_right _ _ (Nat.le_refl _), Nat.sub_self, List.set_cons_zero]

theorem set_twice (before component rest : List Char) :
    (before ++ '/' :: component ++ '/' :: rest).set (before ++ '/' :: component).length nul =
      before ++ '/' :: (component ++ [nul]) ++ rest := by
  rw [set_slash]
  simp

theorem between_slashes (before component rest : List Char) :
    ((before ++ '/' :: (component ++ [nul]) ++ rest).take
      ((before ++ '/' :: component).length + 1)).drop (before.length + 1) = component ++ [nul] := by
  have whole : before ++ '/' :: (component ++ [nul]) ++ rest =
      (before ++ ['/'] ++ (component ++ [nul])) ++ rest := by simp
  have length : (before ++ '/' :: component).length + 1 =
      (before ++ ['/'] ++ (component ++ [nul])).length := by simp; omega
  rw [whole, length, List.take_left, List.drop_left' (by simp)]

theorem walkBack_component (nonempty : before ≠ []) (free : Free '/' component)
    (rest : List Char) :
    walkBack (before ++ '/' :: (component ++ [nul]) ++ rest) (before ++ '/' :: component).length =
      before.length := by
  have ended : Free '/' (component ++ [nul]) := free_append.mpr ⟨free, by decide⟩
  have length : (before ++ '/' :: component).length =
      before.length + (component ++ [nul]).length := by simp
  rw [length]
  exact walkBack_slash nonempty ended

theorem domainAt_here (nonempty : before ≠ []) (free : Free '/' domain) (dotted : '.' ∈ domain)
    (rounds : Nat) :
    domainAt (rounds + 1) (before ++ '/' :: domain ++ '/' :: rest)
        (before ++ '/' :: domain).length =
      (before.length, before ++ '/' :: (domain ++ [nul]) ++ rest) := by
  rw [domainAt, set_twice]
  simp only [walkBack_component nonempty free, between_slashes]
  rw [if_neg]
  intro continues
  exact continues.2 (List.mem_append_left _ dotted)

theorem domainAt_above (nonempty : before ≠ []) (free : Free '/' component)
    (dotless : Free '.' component) (rounds : Nat) :
    domainAt (rounds + 1) (before ++ '/' :: component ++ '/' :: rest)
        (before ++ '/' :: component).length =
      domainAt rounds (before ++ '/' :: (component ++ [nul]) ++ rest) before.length := by
  rw [domainAt, set_twice]
  simp only [walkBack_component nonempty free, between_slashes]
  rw [if_pos]
  refine ⟨List.length_pos_iff.mpr nonempty, ?_⟩
  rw [List.mem_append, not_or]
  exact ⟨dotless, by decide⟩

theorem domainAt_of_domainOf (domainOf : DomainOf before domain) (clean : Free nul before)
    {rounds : Nat} (enough : before.length ≤ rounds) (rest : List Char) :
    ∃ start cells, domainAt rounds (before ++ '/' :: rest) before.length = (start, cells) ∧
      start ≠ 0 ∧ cstring (cells.drop (start + 1)) = domain ∧
      cells.drop (before.length + 1) = rest := by
  induction domainOf generalizing rest rounds with
  | @here base domain nonempty free dotted =>
      have room : rounds = rounds - 1 + 1 := by
        rw [List.length_append, List.length_cons] at enough
        omega
      refine ⟨_, _, by rw [room, domainAt_here nonempty free dotted], ?_, ?_, ?_⟩
      · exact List.length_pos_iff.mpr nonempty |>.ne'
      · rw [free_append, free_cons] at clean
        have behind : (base ++ '/' :: (domain ++ [nul]) ++ rest).drop (base.length + 1) =
            domain ++ nul :: rest := by
          have whole : base ++ '/' :: (domain ++ [nul]) ++ rest =
              (base ++ ['/']) ++ (domain ++ nul :: rest) := by simp
          rw [whole, List.drop_left' (by simp)]
        rw [behind, cstring_append_nul clean.2.2]
      · rw [List.drop_left' (by simp; omega)]
  | @above before component domain free dotless above induction =>
      have room : rounds = rounds - 1 + 1 := by
        rw [List.length_append, List.length_cons] at enough
        omega
      rw [free_append] at clean
      rw [List.length_append, List.length_cons] at enough
      have shift : before ++ '/' :: (component ++ [nul]) ++ rest =
          before ++ '/' :: (component ++ nul :: rest) := by simp
      rcases induction clean.1
        (show before.length ≤ rounds - 1 by omega) (component ++ nul :: rest) with
        ⟨start, cells, ran, found, name, kept⟩
      refine ⟨start, cells, ?_, found, name, ?_⟩
      · rw [room, domainAt_above above.ne_nil free dotless, shift]
        exact ran
      · have length : (before ++ '/' :: component).length + 1 =
            before.length + 1 + (component.length + 1) := by simp; omega
        rw [length, ← List.drop_drop, kept]
        have whole : component ++ nul :: rest = (component ++ [nul]) ++ rest := by simp
        rw [whole, List.drop_left' (by simp)]

theorem domainAt_of_none (none : ∀ domain, ¬ DomainOf before domain) {rounds : Nat}
    (enough : before.length ≤ rounds) (rest : List Char) :
    (domainAt rounds (before ++ '/' :: rest) before.length).1 = 0 := by
  induction rounds generalizing before rest with
  | zero => exact Nat.le_zero.mp enough
  | succ rounds induction =>
      rcases lastComponent_cases before with rfl | ⟨head, after, rfl, free⟩ |
        ⟨front, component, rfl, nonempty, free⟩
      · rfl
      · have ended : Free '/' (after ++ [nul]) := free_append.mpr ⟨free, by decide⟩
        have start : walkBack (head :: after ++ nul :: rest) (head :: after).length = 0 := by
          have back := walkBack_free head ended rest
          rw [List.length_append, List.length_singleton] at back
          simpa using back
        rw [domainAt, set_slash]
        simp only [start]
        rfl
      · have dotless : Free '.' component := by
          intro dotted
          exact none _ (.here nonempty free dotted)
        rw [domainAt_above nonempty free dotless, List.append_assoc]
        apply induction
        · intro domain domainOf
          exact none domain (.above free dotless domainOf)
        · rw [List.length_append, List.length_cons] at enough
          omega

end Loop

/-- The account that the path in front of a Maildir leads to. -/
inductive LeadsTo (front user domain : List Char) : Prop
  | through {before : List Char} : front = before ++ '/' :: user → Free '/' user →
      DomainOf before domain → LeadsTo front user domain

section Email

variable {front user domain : List Char}

theorem walkBack_user {before : List Char} (nonempty : before ≠ []) (free : Free '/' user)
    (rest : List Char) :
    walkBack (before ++ '/' :: user ++ nul :: rest) (before ++ '/' :: user).length =
      before.length := by
  have whole : before ++ '/' :: user ++ nul :: rest =
      before ++ '/' :: (user ++ [nul]) ++ rest := by simp
  rw [whole]
  exact walkBack_component nonempty free rest

theorem emailAt_of_leadsTo (leads : LeadsTo front user domain) (clean : Free nul front)
    (rest : List Char) :
    emailAt (front ++ '/' :: rest) front.length = snprintf emailSize (user ++ '@' :: domain) := by
  cases leads with
  | @through before equal free domainOf =>
      subst equal
      rw [free_append, free_cons] at clean
      have cells : (before ++ '/' :: user ++ '/' :: rest ++ [nul]).set
          (before ++ '/' :: user).length nul = before ++ '/' :: user ++ nul :: (rest ++ [nul]) := by
        rw [List.append_assoc, List.cons_append, set_slash]
      have positive := List.length_pos_iff.mpr domainOf.ne_nil
      have shift : before ++ '/' :: user ++ nul :: (rest ++ [nul]) =
          before ++ '/' :: (user ++ nul :: (rest ++ [nul])) := by simp
      have enough : before.length ≤
          (before ++ '/' :: user ++ nul :: (rest ++ [nul])).length := by simp
      rcases domainAt_of_domainOf domainOf clean.1 enough (user ++ nul :: (rest ++ [nul])) with
        ⟨start, after, ran, found, name, kept⟩
      rw [emailAt, cells]
      simp only [walkBack_user domainOf.ne_nil free]
      rw [if_neg (by omega)]
      rw [← shift] at ran
      simp only [ran]
      rw [if_neg found, kept, name, cstring_append_nul clean.2.2]

theorem emailAt_of_none (none : ∀ user domain, ¬ LeadsTo front user domain) (rest : List Char) :
    emailAt (front ++ '/' :: rest) front.length = [] := by
  have cells : (front ++ '/' :: rest ++ [nul]).set front.length nul =
      front ++ nul :: (rest ++ [nul]) := by
    rw [List.append_assoc, List.cons_append, set_slash]
  rw [emailAt, cells]
  rcases lastComponent_cases front with rfl | ⟨head, after, rfl, free⟩ |
    ⟨before, user, rfl, nonempty, free⟩
  · rfl
  · have ended : Free '/' (after ++ [nul]) := free_append.mpr ⟨free, by decide⟩
    have start : walkBack (head :: after ++ nul :: (rest ++ [nul])) (head :: after).length = 0 := by
      have back := walkBack_free head ended (rest ++ [nul])
      rw [List.length_append, List.length_singleton] at back
      simpa using back
    simp only [start]
    rfl
  · have nowhere : ∀ domain, ¬ DomainOf before domain :=
      fun domain domainOf => none user domain (.through rfl free domainOf)
    have shift : before ++ '/' :: user ++ nul :: (rest ++ [nul]) =
        before ++ '/' :: (user ++ nul :: (rest ++ [nul])) := by simp
    have enough : before.length ≤
        (before ++ '/' :: user ++ nul :: (rest ++ [nul])).length := by simp
    have start := domainAt_of_none nowhere enough (user ++ nul :: (rest ++ [nul]))
    rw [← shift] at start
    have positive := List.length_pos_iff.mpr nonempty
    simp only [walkBack_user nonempty free]
    rw [if_neg (by omega)]
    simp only [start]
    rfl

end Email

end Vpopmail
