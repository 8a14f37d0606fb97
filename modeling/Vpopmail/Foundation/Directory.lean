import Vpopmail.Foundation.Stream

/-! # Directories

A directory server keeps entries with attributes and finds them by search
filters. The filters here are conjunctions of assertions, in whose values a
star stands for any text.
-/

namespace Vpopmail.Directory

open Vpopmail.Text

/-! ## Entries -/

/-- The values of every attribute, under its name in lower case. -/
abbrev Attributes := List Char → List (List Char)

structure Entry where
  dn : List Char
  attributes : Attributes

def fold (text : List Char) : List Char := text.map Char.toLower

theorem toLower_of_upper {char : Char} (upper : char.val ≥ 'A'.val ∧ char.val ≤ 'Z'.val) :
    char.toLower.val = char.val + ('a'.val - 'A'.val) := by
  unfold Char.toLower
  rw [dif_pos upper]

theorem toLower_of_other {char : Char} (other : ¬ (char.val ≥ 'A'.val ∧ char.val ≤ 'Z'.val)) :
    char.toLower = char := by
  unfold Char.toLower
  rw [dif_neg other]

theorem toLower_toLower (char : Char) : char.toLower.toLower = char.toLower := by
  rcases Classical.em (char.val ≥ 'A'.val ∧ char.val ≤ 'Z'.val) with upper | other
  · have high : ¬ (char.toLower.val ≥ 'A'.val ∧ char.toLower.val ≤ 'Z'.val) := by
      rintro ⟨_, below⟩
      rw [toLower_of_upper upper] at below
      have start : 65 ≤ char.val.toNat := UInt32.le_iff_toNat_le.mp upper.1
      have ending : char.val.toNat ≤ 90 := UInt32.le_iff_toNat_le.mp upper.2
      have bound : (char.val + ('a'.val - 'A'.val)).toNat ≤ 90 := UInt32.le_iff_toNat_le.mp below
      rw [UInt32.toNat_add] at bound
      have gap : ('a'.val - 'A'.val).toNat = 32 := rfl
      omega
    exact toLower_of_other high
  · rw [toLower_of_other other, toLower_of_other other]

/-- Only letters have other characters with the same lower case. -/
theorem eq_of_toLower {char other : Char} (lower : char.toLower = other)
    (symbol : other.isLower = false) : char = other := by
  rcases Classical.em (char.val ≥ 'A'.val ∧ char.val ≤ 'Z'.val) with upper | unchanged
  · have code := toLower_of_upper upper
    rw [lower] at code
    unfold Char.isLower at symbol
    simp only [Bool.and_eq_false_iff, decide_eq_false_iff_not, code] at symbol
    grind [UInt32.toNat_add, UInt32.le_iff_toNat_le, Char.toNat_val]
  · exact (toLower_of_other unchanged).symm.trans lower

theorem free_fold {symbol : Char} (notLetter : symbol.isLower = false) {text : List Char}
    (lower : symbol.toLower = symbol) : Free symbol (fold text) ↔ Free symbol text := by
  constructor
  · intro free member
    exact free (List.mem_map.mpr ⟨symbol, member, lower⟩)
  · intro free member
    rcases List.mem_map.mp member with ⟨char, inside, same⟩
    exact free (eq_of_toLower same notLetter ▸ inside)

def Entry.values (entry : Entry) (kind : List Char) : List (List Char) :=
  entry.attributes (fold kind)

/-- `LDAP_MOD_REPLACE`: the new values of one attribute. -/
abbrev Replacement := List Char × List (List Char)

def Entry.replace (entry : Entry) (replacement : Replacement) : Entry :=
  { entry with
    attributes := fun kind =>
      if kind = fold replacement.1 then replacement.2 else entry.attributes kind }

def Entry.replaceAll (entry : Entry) (replacements : List Replacement) : Entry :=
  replacements.foldl Entry.replace entry

theorem values_replace (entry : Entry) (replacement : Replacement) (kind : List Char) :
    (entry.replace replacement).values kind =
      if fold kind = fold replacement.1 then replacement.2 else entry.values kind := rfl

theorem dn_replaceAll (entry : Entry) (replacements : List Replacement) :
    (entry.replaceAll replacements).dn = entry.dn := by
  induction replacements generalizing entry with
  | nil => rfl
  | cons replacement replacements induction =>
      exact induction (entry.replace replacement)

/-- An attribute that is not replaced keeps its values. -/
theorem values_replaceAll_other (entry : Entry) {replacements : List Replacement}
    {kind : List Char}
    (other : ∀ replacement ∈ replacements, fold kind ≠ fold replacement.1) :
    (entry.replaceAll replacements).values kind = entry.values kind := by
  induction replacements generalizing entry with
  | nil => rfl
  | cons replacement replacements induction =>
      rcases List.forall_mem_cons.mp other with ⟨first, others⟩
      have rest := induction (entry.replace replacement) others
      rw [values_replace, if_neg first] at rest
      exact rest

/-- An attribute that is replaced once has its new values. -/
theorem values_replaceAll {entry : Entry} {replacements : List Replacement}
    (apart : (replacements.map fun replacement => fold replacement.1).Nodup)
    {replacement : Replacement} (member : replacement ∈ replacements) :
    (entry.replaceAll replacements).values replacement.1 = replacement.2 := by
  induction replacements generalizing entry with
  | nil => cases member
  | cons head replacements induction =>
      rw [List.map_cons, List.nodup_cons] at apart
      rcases List.mem_cons.mp member with rfl | later
      · have others : ∀ other ∈ replacements, fold replacement.1 ≠ fold other.1 := by
          intro other inside same
          exact apart.1 (same ▸ List.mem_map_of_mem inside)
        have rest := values_replaceAll_other (entry.replace replacement) others
        rw [values_replace, if_pos rfl] at rest
        exact rest
      · exact induction apart.2 later

/-! ## Filters -/

/-- A star in the pattern matches any text, another character itself. -/
def wildcard : (pattern text : List Char) → Bool
  | [], text => text.isEmpty
  | '*' :: pattern, text => text.tails.any (wildcard pattern)
  | _ :: _, [] => false
  | char :: pattern, other :: text => char = other && wildcard pattern text

structure Assertion where
  kind : List Char
  pattern : List Char
  deriving DecidableEq

def Assertion.holds (assertion : Assertion) (entry : Entry) : Bool :=
  (entry.values assertion.kind).any fun value =>
    wildcard (fold assertion.pattern) (fold value)

/-- A conjunction. -/
abbrev Filter := List Assertion

def Filter.holds (filter : Filter) (entry : Entry) : Bool :=
  filter.all fun assertion => assertion.holds entry

theorem wildcard_nil (text : List Char) : wildcard [] text = text.isEmpty := by
  rw [wildcard]

theorem wildcard_star (pattern text : List Char) :
    wildcard ('*' :: pattern) text = text.tails.any (wildcard pattern) := by
  rw [wildcard]

theorem wildcard_cons_cons {char : Char} (other : char ≠ '*') (pattern : List Char)
    (head : Char) (text : List Char) :
    wildcard (char :: pattern) (head :: text) = (decide (char = head) && wildcard pattern text) := by
  rw [wildcard]
  exact other

theorem wildcard_cons_nil {char : Char} (other : char ≠ '*') (pattern : List Char) :
    wildcard (char :: pattern) [] = false := by
  rw [wildcard]
  exact other

/-- Without a star a pattern matches itself alone. -/
theorem wildcard_of_free {pattern : List Char} (free : Free '*' pattern) (text : List Char) :
    wildcard pattern text = true ↔ text = pattern := by
  induction pattern generalizing text with
  | nil =>
      rw [wildcard_nil, List.isEmpty_iff]
  | cons char pattern induction =>
      rw [free_cons] at free
      cases text with
      | nil =>
          rw [wildcard_cons_nil (Ne.symm free.1)]
          simp
      | cons head text =>
          rw [wildcard_cons_cons (Ne.symm free.1), Bool.and_eq_true, decide_eq_true_eq,
            induction free.2, List.cons.injEq]
          constructor
          · intro both
            exact ⟨both.1.symm, both.2⟩
          · intro both
            exact ⟨both.1.symm, both.2⟩

/-- A pattern matches what it becomes when any text takes the place of its stars. -/
theorem wildcard_flatMap (pattern filling : List Char) :
    wildcard pattern (pattern.flatMap fun char => if char = '*' then filling else [char]) =
      true := by
  induction pattern with
  | nil => rfl
  | cons char pattern induction =>
      by_cases star : char = '*'
      · rw [star, wildcard_star, List.flatMap_cons, if_pos rfl, List.any_eq_true]
        refine ⟨_, ?_, induction⟩
        rw [List.mem_tails]
        exact List.suffix_append _ _
      · rw [List.flatMap_cons, if_neg star, List.singleton_append, wildcard_cons_cons star,
          induction, decide_eq_true rfl]
        rfl

/-! ## Filters in text form -/

def attributeChar (char : Char) : Bool := char.isAlphanum || char = '-'

/-- A character of a value that stands for itself, or the wildcard. -/
def valueChar (char : Char) : Bool := char ≠ '(' && char ≠ ')' && char ≠ '\\' && char ≠ nul

/-- `(attribute=value)` at the front of a text. -/
def readAssertion : List Char → Option (Assertion × List Char)
  | '(' :: text =>
      match text.dropWhile attributeChar with
      | '=' :: rest =>
          match rest.dropWhile valueChar with
          | ')' :: behind =>
              some (⟨text.takeWhile attributeChar, rest.takeWhile valueChar⟩, behind)
          | _ => none
      | _ => none
  | _ => none

/-- The assertions up to the parenthesis that closes the conjunction. -/
def readConjunction : (rounds : Nat) → List Char → Option Filter
  | 0, _ => none
  | rounds + 1, text =>
      if text = [')'] then some []
      else
        match readAssertion text with
        | none => none
        | some (assertion, rest) => (readConjunction rounds rest).map (assertion :: ·)

/-- The filter that a text spells, if it is a conjunction or a single assertion. -/
def readFilter (text : List Char) : Option Filter :=
  match text with
  | '(' :: '&' :: rest => readConjunction rest.length rest
  | _ =>
      match readAssertion text with
      | some (assertion, []) => some [assertion]
      | _ => none

def Assertion.text (assertion : Assertion) : List Char :=
  '(' :: assertion.kind ++ '=' :: assertion.pattern ++ [')']

structure Assertion.Spelled (assertion : Assertion) : Prop where
  kind : ∀ char ∈ assertion.kind, attributeChar char = true
  pattern : ∀ char ∈ assertion.pattern, valueChar char = true

theorem readAssertion_text {assertion : Assertion} (spelled : assertion.Spelled)
    (rest : List Char) : readAssertion (assertion.text ++ rest) = some (assertion, rest) := by
  have text : assertion.text ++ rest =
      '(' :: (assertion.kind ++ '=' :: (assertion.pattern ++ ')' :: rest)) := by
    simp [Assertion.text]
  have equals : attributeChar '=' = false := by decide
  have closing : valueChar ')' = false := by decide
  rw [text, readAssertion, List.dropWhile_append_of_pos spelled.kind,
    List.dropWhile_cons_of_neg (by simp [equals])]
  simp only
  rw [List.dropWhile_append_of_pos spelled.pattern,
    List.dropWhile_cons_of_neg (by simp [closing])]
  simp only
  rw [List.takeWhile_append_of_pos spelled.kind,
    List.takeWhile_append_of_pos spelled.pattern,
    List.takeWhile_cons_of_neg (by simp [equals]), List.takeWhile_cons_of_neg (by simp [closing]),
    List.append_nil, List.append_nil]

theorem readConjunction_text {filter : Filter} (spelled : ∀ assertion ∈ filter, assertion.Spelled)
    {rounds : Nat} (enough : filter.length < rounds) :
    readConjunction rounds ((filter.map Assertion.text).flatten ++ [')']) = some filter := by
  induction filter generalizing rounds with
  | nil =>
      cases rounds with
      | zero => cases enough
      | succ rounds => rfl
  | cons assertion filter induction =>
      cases rounds with
      | zero => cases enough
      | succ rounds =>
          rcases List.forall_mem_cons.mp spelled with ⟨first, others⟩
          have rest := induction others (Nat.lt_of_succ_lt_succ enough)
          have goesOn : ((assertion :: filter).map Assertion.text).flatten ++ [')'] ≠ [')'] := by
            simp [Assertion.text]
          rw [readConjunction, if_neg goesOn, List.map_cons, List.flatten_cons, List.append_assoc,
            readAssertion_text first]
          simp only [rest, Option.map_some]

/-- A conjunction is read as it was spelled. -/
theorem readFilter_conjunction {filter : Filter}
    (spelled : ∀ assertion ∈ filter, assertion.Spelled) :
    readFilter ('(' :: '&' :: (filter.map Assertion.text).flatten ++ [')']) = some filter := by
  have sizes : filter.length ≤ (filter.map Assertion.text).flatten.length := by
    have nonempty : ∀ text ∈ filter.map Assertion.text, text ≠ [] := by
      intro text member
      rcases List.mem_map.mp member with ⟨assertion, _, rfl⟩
      simp [Assertion.text]
    simpa using Stream.length_le_length_flatten nonempty
  rw [List.cons_append, List.cons_append, readFilter]
  apply readConjunction_text spelled
  rw [List.length_append, List.length_singleton]
  omega

theorem readFilter_assertion {assertion : Assertion} (spelled : assertion.Spelled) :
    readFilter assertion.text = some [assertion] := by
  have read := readAssertion_text spelled []
  rw [List.append_nil] at read
  have single : ∀ rest, assertion.text ≠ '(' :: '&' :: rest := by
    intro rest same
    rw [Assertion.text] at same
    cases given : assertion.kind with
    | nil => simp [given] at same
    | cons char kind =>
        have letter := spelled.kind char (given ▸ List.mem_cons_self)
        simp only [given, List.cons_append, List.cons.injEq] at same
        rw [same.2.1] at letter
        exact absurd letter (by decide)
  rw [readFilter]
  · rw [read]
  · exact single

/-! ## Servers -/

inductive Scope
  | base
  | subtree
  deriving DecidableEq

/-- The operations of a server on the entries it has, in the order in which a
search returns them. A search may fail, and the others report a code, zero for
success. -/
structure Server where
  search : List Entry → Scope → (base filter : List Char) → Option (List Entry)
  modify : List Entry → (dn : List Char) → List Replacement → Int × List Entry
  add : List Entry → Entry → Int × List Entry

/-- The documented behaviour of the operations that succeed. `within` tells the
names that a scope holds; within the base itself is the name itself. -/
structure Server.Standard (server : Server) (within : Scope → (base dn : List Char) → Bool) :
    Prop where
  search : ∀ {directory found : List Entry} {scope : Scope} {base text : List Char}
    {filter : Filter}, readFilter text = some filter →
      server.search directory scope base text = some found →
        found = directory.filter fun entry => within scope base entry.dn && filter.holds entry
  modify : ∀ {directory after : List Entry} {dn : List Char} {replacements : List Replacement},
    server.modify directory dn replacements = (0, after) →
      after = directory.map fun entry =>
        if within .base dn entry.dn then entry.replaceAll replacements else entry
  add : ∀ {directory after : List Entry} {entry : Entry},
    server.add directory entry = (0, after) →
      ∃ before behind, directory = before ++ behind ∧ after = before ++ entry :: behind

/-- No search with a filter that can be read fails. -/
def Server.Answers (server : Server) : Prop :=
  ∀ (directory : List Entry) (scope : Scope) (base text : List Char) (filter : Filter),
    readFilter text = some filter → ∃ found, server.search directory scope base text = some found

/-- A server that never fails on the filters it can read. -/
def Server.ofScopes (within : Scope → (base dn : List Char) → Bool) : Server where
  search := fun directory scope base text =>
    (readFilter text).map fun filter =>
      directory.filter fun entry => within scope base entry.dn && filter.holds entry
  modify := fun directory dn replacements =>
    (0, directory.map fun entry =>
      if within .base dn entry.dn then entry.replaceAll replacements else entry)
  add := fun directory entry => (0, directory ++ [entry])

theorem Server.standard_ofScopes (within : Scope → (base dn : List Char) → Bool) :
    (Server.ofScopes within).Standard within where
  search := by
    intro directory found scope base text filter read searched
    simp only [Server.ofScopes, read, Option.map_some, Option.some.injEq] at searched
    exact searched.symm
  modify := by
    intro directory after dn replacements modified
    exact (congrArg Prod.snd modified).symm
  add := by
    intro directory after entry added
    exact ⟨directory, [], (List.append_nil directory).symm, (congrArg Prod.snd added).symm⟩

theorem Server.answers_ofScopes (within : Scope → (base dn : List Char) → Bool) :
    (Server.ofScopes within).Answers := by
  intro directory scope base text filter read
  simp only [Server.ofScopes, read, Option.map_some]
  exact ⟨_, rfl⟩

/-- Names are the same when their texts are, and the names below a base end in it. -/
def textScopes : Scope → (base dn : List Char) → Bool
  | .base, base, dn => fold base == fold dn
  | .subtree, base, dn => (fold base).isSuffixOf (fold dn)

end Vpopmail.Directory
