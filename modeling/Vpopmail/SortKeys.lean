import Mathlib.Algebra.GroupWithZero.Nat
import Vpopmail.UpdateFile

/-! # Sort keys

The key of a line is the name of its domain with the last two labels in front. The loop
that makes room for them repeats the first two labels, and labels behind the tenth are
left out.
-/

namespace Vpopmail

open Text Buffer

/-! ## Dotted names -/

/-- A domain name by its labels. -/
structure DottedName where
  labels : List (List Char)
  nonempty : labels ≠ []
  labelled : ∀ label ∈ labels, label ≠ [] ∧ Free '.' label ∧ Free ':' label

def dotted (labels : List (List Char)) : List Char := ['.'].intercalate labels

def DottedName.text (name : DottedName) : List Char := dotted name.labels

/-- The labels with the last two in front of the others. -/
def reordered (labels : List (List Char)) : List (List Char) :=
  labels.drop (labels.length - 2) ++ labels.take (labels.length - 2)

theorem reordered_perm (labels : List (List Char)) : (reordered labels).Perm labels := by
  have swapped : (reordered labels).Perm
      (labels.take (labels.length - 2) ++ labels.drop (labels.length - 2)) :=
    List.perm_append_comm
  rwa [List.take_append_drop] at swapped

theorem dotted_injective {left right : List (List Char)} (leftNonempty : left ≠ [])
    (rightNonempty : right ≠ []) (leftFree : ∀ label ∈ left, Free '.' label)
    (rightFree : ∀ label ∈ right, Free '.' label) (same : dotted left = dotted right) :
    left = right := by
  rw [← List.splitOn_intercalate '.' leftFree leftNonempty,
    ← List.splitOn_intercalate '.' rightFree rightNonempty]
  exact congrArg (List.splitOn '.') same

theorem dotted_cons {label : List Char} {labels : List (List Char)} (more : labels ≠ []) :
    dotted (label :: labels) = label ++ '.' :: dotted labels := by
  rw [dotted, List.intercalate_cons_of_ne_nil more, List.append_assoc]
  rfl

theorem free_dotted {char : Char} (other : char ≠ '.') {labels : List (List Char)}
    (free : ∀ label ∈ labels, Free char label) : Free char (dotted labels) := by
  induction labels with
  | nil => exact free_nil char
  | cons label labels induction =>
      have later := induction fun other member => free other (List.mem_cons_of_mem _ member)
      have first := free label List.mem_cons_self
      cases labels with
      | nil =>
          rw [dotted, List.intercalate_singleton]
          exact first
      | cons next labels =>
          rw [dotted_cons (List.cons_ne_nil _ _), free_append, free_cons]
          exact ⟨first, other, later⟩

/-! ## Lines -/

/-- The line of a domain in one of the files. -/
def controlLine (fileType : FileType) (domain rest : List Char) : List Char :=
  match fileType with
  | .assign => '+' :: domain ++ '-' :: ':' :: rest
  | .rcpthosts => domain
  | .virtualdomains => domain ++ ':' :: rest

theorem domainText_controlLine (fileType : FileType) {domain : List Char}
    (free : Free ':' domain) (rest : List Char) :
    domainText fileType (controlLine fileType domain rest) = some domain := by
  cases fileType with
  | assign =>
      have dashed : Free ':' (domain ++ ['-']) := free_append.mpr ⟨free, by decide⟩
      have line : controlLine .assign domain rest = '+' :: (domain ++ ['-'] ++ ':' :: rest) := by
        simp [controlLine]
      have text : ((controlLine .assign domain rest).drop 1).takeWhile (· ≠ ':') =
          domain ++ ['-'] := by
        rw [line, List.drop_one, List.tail_cons]
        exact takeWhile_ne_append_cons dashed rest
      rw [domainText, text]
      cases domain with
      | nil => rfl
      | cons char domain =>
          have dropped : (char :: domain ++ ['-']).dropLast = char :: domain :=
            List.dropLast_concat
          exact congrArg some dropped
  | rcpthosts => exact congrArg some (takeWhile_ne_of_free free)
  | virtualdomains => exact congrArg some (takeWhile_ne_append_cons free rest)

theorem length_controlLine (fileType : FileType) (domain rest : List Char) :
    domain.length ≤ (controlLine fileType domain rest).length := by
  cases fileType <;> simp [controlLine]
  omega

/-! ## Taking names apart -/

theorem strtok_label {label : List Char} (nonempty : label ≠ []) (free : Free '.' label)
    (rest : List Char) :
    strtok (· = '.') (label ++ '.' :: rest) = some (label, rest) := by
  cases label with
  | nil => exact absurd rfl nonempty
  | cons head label =>
      have plain : ∀ char ∈ head :: label, decide (char = '.') = false := by
        intro char member
        exact decide_eq_false fun equal => free (equal ▸ member)
      exact strtok_token_append (plain head List.mem_cons_self)
        (fun char member => plain char (List.mem_cons_of_mem _ member)) rfl rest

/-- `strtok` finds the labels, as many as there is room for. -/
theorem domainParts_dotted {labels : List (List Char)}
    (proper : ∀ label ∈ labels, label ≠ [] ∧ Free '.' label) (limit : Nat) :
    domainParts limit (dotted labels) = labels.take limit := by
  induction labels generalizing limit with
  | nil => cases limit <;> rfl
  | cons label labels induction =>
      cases limit with
      | zero => rfl
      | succ limit =>
          have later := induction
            (fun other member => proper other (List.mem_cons_of_mem _ member)) limit
          rcases proper label List.mem_cons_self with ⟨nonempty, free⟩
          cases labels with
          | nil =>
              have alone : strtok (· = '.') (dotted [label]) = some (label, []) := by
                rw [dotted, List.intercalate_singleton]
                apply strtok_token nonempty
                intro char member
                exact decide_eq_false fun equal => free (equal ▸ member)
              rw [domainParts, alone]
              cases limit <;> rfl
          | cons next labels =>
              rw [dotted_cons (List.cons_ne_nil _ _), domainParts,
                strtok_label nonempty free, List.take_succ_cons, ← later]

/-! ## The loop that makes room -/

/-- After some steps the parts in front of the last one written are the first two by turns. -/
theorem getElem?_moved (parts : List (List Char)) {steps : Nat}
    (room : steps + 2 ≤ parts.length) (index : Nat) :
    ((List.range steps).foldl
        (fun parts index => parts.set (index + 2) (parts.getD index [])) parts)[index]? =
      if index < steps + 2 then parts[index % 2]? else parts[index]? := by
  induction steps generalizing index with
  | zero =>
      rw [List.range_zero, List.foldl_nil]
      split
      · rw [Nat.mod_eq_of_lt (by omega)]
      · rfl
  | succ steps induction =>
      have before := induction (by omega)
      rw [List.range_succ, List.foldl_append, List.foldl_cons, List.foldl_nil]
      generalize (List.range steps).foldl
        (fun parts index => parts.set (index + 2) (parts.getD index [])) parts = moved at before
      have size : steps + 2 < moved.length := by
        have present := before (steps + 2)
        rw [if_neg (by omega), List.getElem?_eq_getElem (show steps + 2 < parts.length by omega)]
          at present
        exact (List.getElem?_eq_some_iff.mp present).1
      have copied : some (moved.getD steps []) = parts[steps % 2]? := by
        have last := before steps
        rw [if_pos (by omega), List.getElem?_eq_getElem (by omega)] at last
        rw [List.getD_eq_getElem?_getD, before, if_pos (by omega),
          List.getElem?_eq_getElem (by omega)]
        rfl
      rcases Nat.lt_trichotomy index (steps + 2) with below | rfl | above
      · rw [List.getElem?_set_ne (by omega), before, if_pos below, if_pos (by omega)]
      · rw [List.getElem?_set_self size, copied, if_pos (by omega)]
        apply congrArg (parts[·]?)
        omega
      · rw [List.getElem?_set_ne (by omega), before, if_neg (by omega), if_neg (by omega)]

theorem getElem?_juggleParts {parts : List (List Char)} (two : 2 ≤ parts.length) (index : Nat) :
    (juggleParts parts)[index]? =
      if index < 2 then parts[parts.length - 2 + index]?
      else if index < parts.length then parts[index % 2]? else none := by
  have moved := getElem?_moved parts (show parts.length - 2 + 2 ≤ parts.length by omega)
  have present (index : Nat) (inside : index < parts.length) :
      some (parts.getD index []) = parts[index]? := by
    rw [List.getD_eq_getElem?_getD, List.getElem?_eq_getElem inside]
    rfl
  rw [juggleParts]
  generalize (List.range (parts.length - 2)).foldl
    (fun parts index => parts.set (index + 2) (parts.getD index [])) parts = shifted at moved
  have size : shifted.length = parts.length := by
    apply Nat.le_antisymm
    · rw [← List.getElem?_eq_none_iff, moved, if_neg (by omega)]
      exact List.getElem?_eq_none (Nat.le_refl _)
    · by_contra short
      have missing : shifted[shifted.length]? = none := List.getElem?_eq_none (Nat.le_refl _)
      rw [moved, if_pos (by omega), List.getElem?_eq_getElem (by omega)] at missing
      cases missing
  rcases index with _ | _ | index
  · rw [List.getElem?_set_ne (by omega), List.getElem?_set_self (by omega),
      present _ (by omega)]
    rfl
  · rw [List.getElem?_set_self (by rw [List.length_set]; omega), present _ (by omega)]
    rfl
  · rw [List.getElem?_set_ne (by omega), List.getElem?_set_ne (by omega), moved,
      if_neg (show ¬ index + 1 + 1 < 2 by omega)]
    rcases Nat.lt_or_ge (index + 1 + 1) parts.length with inside | outside
    · rw [if_pos (by omega), if_pos inside]
    · rw [if_neg (by omega), if_neg (by omega), List.getElem?_eq_none outside]

theorem length_juggleParts {parts : List (List Char)} (two : 2 ≤ parts.length) :
    (juggleParts parts).length = parts.length := by
  apply Nat.le_antisymm
  · rw [← List.getElem?_eq_none_iff, getElem?_juggleParts two, if_neg (by omega),
      if_neg (by omega)]
  · by_contra short
    have missing : (juggleParts parts)[(juggleParts parts).length]? = none :=
      List.getElem?_eq_none (Nat.le_refl _)
    rw [getElem?_juggleParts two] at missing
    split at missing
    · rw [List.getElem?_eq_getElem (by omega)] at missing
      cases missing
    · rw [if_pos (by omega), List.getElem?_eq_getElem (by omega)] at missing
      cases missing

theorem mem_of_mem_juggleParts {parts : List (List Char)} (two : 2 ≤ parts.length)
    {part : List Char} (member : part ∈ juggleParts parts) : part ∈ parts := by
  rcases List.mem_iff_getElem?.mp member with ⟨index, found⟩
  rw [getElem?_juggleParts two] at found
  split at found
  · exact List.mem_of_getElem? found
  · split at found
    · exact List.mem_of_getElem? found
    · cases found

/-! ## Keys of names -/

theorem length_dotted {labels : List (List Char)} (nonempty : labels ≠ []) :
    (dotted labels).length + 1 = (labels.map fun label => label.length + 1).sum := by
  induction labels with
  | nil => exact absurd rfl nonempty
  | cons label labels induction =>
      cases labels with
      | nil => simp [dotted]
      | cons next labels =>
          have later := induction (List.cons_ne_nil _ _)
          rw [dotted_cons (List.cons_ne_nil _ _), List.map_cons, List.sum_cons, ← later]
          simp
          omega

theorem length_dotted_of_perm {left right : List (List Char)} (perm : left.Perm right)
    (nonempty : left ≠ []) : (dotted left).length = (dotted right).length := by
  have other : right ≠ [] := fun none => nonempty (List.perm_nil.mp (none ▸ perm))
  have leftLength := length_dotted nonempty
  have rightLength := length_dotted other
  have sums := (perm.map fun label => label.length + 1).sum_nat
  omega

/-- At most ten labels, of which those in front of the last two are two by turns. -/
def Regular (labels : List (List Char)) : Prop :=
  labels.length ≤ 10 ∧
    ∀ index, index + 4 < labels.length → labels[index + 2]? = labels[index]?

theorem Regular.getElem?_mod {labels : List (List Char)} (regular : Regular labels)
    {index : Nat} (front : index + 2 < labels.length) : labels[index]? = labels[index % 2]? := by
  induction index using Nat.strong_induction_on with
  | h index induction =>
      rcases Nat.lt_or_ge index 2 with first | later
      · rw [Nat.mod_eq_of_lt first]
      · have earlier := induction (index - 2) (by omega) (by omega)
        have same := regular.2 (index - 2) (by omega)
        rw [Nat.sub_add_cancel later, earlier] at same
        rw [same]
        apply congrArg (labels[·]?)
        omega

theorem getElem?_reordered {labels : List (List Char)} (two : 2 ≤ labels.length) (index : Nat) :
    (reordered labels)[index]? =
      if index < 2 then labels[labels.length - 2 + index]?
      else if index < labels.length then labels[index - 2]? else none := by
  have last : (labels.drop (labels.length - 2)).length = 2 := by
    rw [List.length_drop]
    omega
  rw [reordered, List.getElem?_append, last]
  split
  · rw [List.getElem?_drop]
  · split
    · rw [List.getElem?_take_of_lt (by omega)]
    · exact List.getElem?_eq_none (by rw [List.length_take]; omega)

theorem juggleParts_eq_reordered_iff {labels : List (List Char)} (two : 2 ≤ labels.length)
    (few : labels.length ≤ 10) : juggleParts labels = reordered labels ↔ Regular labels := by
  constructor
  · intro same
    have turns : ∀ index, index + 2 < labels.length → labels[index % 2]? = labels[index]? := by
      intro index front
      have at_ := congrArg (·[index + 2]?) same
      simp only [getElem?_juggleParts two, getElem?_reordered two] at at_
      rw [if_neg (by omega), if_pos front, if_neg (by omega), if_pos front,
        Nat.add_sub_cancel, Nat.add_mod_right] at at_
      exact at_
    refine ⟨few, ?_⟩
    intro index front
    have here := turns index (by omega)
    have further := turns (index + 2) front
    rw [Nat.add_mod_right, here] at further
    exact further.symm
  · intro regular
    apply List.ext_getElem?
    intro index
    rw [getElem?_juggleParts two, getElem?_reordered two]
    split
    · rfl
    · split
      · rw [regular.getElem?_mod (show index - 2 + 2 < labels.length by omega)]
        apply congrArg (labels[·]?)
        omega
      · rfl

section Keys

variable {stale : List Char → List Char} {fileType : FileType}

theorem extractDomain_controlLine (name : DottedName) {rest : List Char}
    (fits : (controlLine fileType name.text rest).length < maxBuff) :
    extractDomain stale fileType (controlLine fileType name.text rest) =
      let key := if (name.labels.take 10).length ≤ 1 then name.text
        else dotted (juggleParts (name.labels.take 10))
      if key.length < maxBuff then .ok key else .error .outOfBounds := by
  have colonFree : Free ':' name.text :=
    free_dotted (by decide) fun label member => (name.labelled label member).2.2
  have parts : domainParts 10 name.text = name.labels.take 10 :=
    domainParts_dotted (fun label member =>
      ⟨(name.labelled label member).1, (name.labelled label member).2.1⟩) 10
  have short : name.text.length < maxBuff :=
    Nat.lt_of_le_of_lt (length_controlLine fileType name.text rest) fits
  rw [extractDomain, domainText_controlLine fileType colonFree]
  simp only [parts, short, true_and]
  rfl

/-- The key has every label of the name once, in the fixed order. -/
def KeyOf (stale : List Char → List Char) (fileType : FileType) (name : DottedName)
    (line : List Char) : Prop :=
  ∃ parts, parts = reordered name.labels ∧ parts.Perm name.labels ∧
    extractDomain stale fileType line = .ok (dotted parts)

theorem keyOf_iff (name : DottedName) {line : List Char} :
    KeyOf stale fileType name line ↔
      extractDomain stale fileType line = .ok (dotted (reordered name.labels)) := by
  constructor
  · intro key
    rcases key with ⟨parts, rfl, -, made⟩
    exact made
  · intro made
    exact ⟨_, rfl, reordered_perm name.labels, made⟩

theorem reordered_ne_nil (name : DottedName) : reordered name.labels ≠ [] :=
  fun none => name.nonempty (List.perm_nil.mp (none ▸ (reordered_perm name.labels).symm))

theorem keyOf_controlLine_iff (name : DottedName) {rest : List Char}
    (fits : (controlLine fileType name.text rest).length < maxBuff) :
    KeyOf stale fileType name (controlLine fileType name.text rest) ↔ Regular name.labels := by
  rw [keyOf_iff, extractDomain_controlLine name fits]
  have positive := List.length_pos_iff.mpr name.nonempty
  have takeLength : (name.labels.take 10).length = min 10 name.labels.length := List.length_take
  have dotless : ∀ label ∈ name.labels, Free '.' label :=
    fun label member => (name.labelled label member).2.1
  have keyLength := length_dotted_of_perm (reordered_perm name.labels) (reordered_ne_nil name)
  have short : (dotted (reordered name.labels)).length < maxBuff := by
    rw [keyLength]
    exact Nat.lt_of_le_of_lt (length_controlLine fileType name.text rest) fits
  rcases Nat.lt_or_ge 1 name.labels.length with several | one
  · simp only [if_neg (show ¬ (name.labels.take 10).length ≤ 1 by omega)]
    have two : 2 ≤ (name.labels.take 10).length := by omega
    constructor
    · intro made
      split at made
      · have parts := dotted_injective
          (List.ne_nil_of_length_pos (by rw [length_juggleParts two]; omega))
          (reordered_ne_nil name)
          (fun part member => dotless part (List.mem_of_mem_take
            (mem_of_mem_juggleParts two member)))
          (fun part member => dotless part ((reordered_perm name.labels).mem_iff.mp member))
          (Except.ok.inj made)
        have lengths := congrArg List.length parts
        rw [length_juggleParts two, (reordered_perm name.labels).length_eq] at lengths
        have few : name.labels.length ≤ 10 := by omega
        rw [List.take_of_length_le few] at parts
        exact (juggleParts_eq_reordered_iff several few).mp parts
      · cases made
    · intro regular
      rw [List.take_of_length_le regular.1,
        (juggleParts_eq_reordered_iff several regular.1).mpr regular, if_pos short]
  · have single : name.labels.length = 1 := by omega
    have whole : reordered name.labels = name.labels := by
      rw [reordered, single]
      simp
    simp only [if_pos (show (name.labels.take 10).length ≤ 1 by omega)]
    rw [whole] at short ⊢
    constructor
    · intro _
      refine ⟨by omega, ?_⟩
      intro index front
      omega
    · intro _
      exact if_pos short

theorem reordered_injective {left right : List (List Char)}
    (same : reordered left = reordered right) : left = right := by
  have lengths := congrArg List.length same
  rw [(reordered_perm left).length_eq, (reordered_perm right).length_eq] at lengths
  rw [reordered, reordered, lengths] at same
  have fronts : (left.drop (right.length - 2)).length = (right.drop (right.length - 2)).length := by
    rw [List.length_drop, List.length_drop, lengths]
  rcases List.append_inj same fronts with ⟨last, front⟩
  rw [← List.take_append_drop (right.length - 2) left, front, last, List.take_append_drop]

theorem KeyOf.name_eq {left right : DottedName} {leftLine rightLine key : List Char}
    (leftKey : KeyOf stale fileType left leftLine)
    (rightKey : KeyOf stale fileType right rightLine)
    (leftMade : extractDomain stale fileType leftLine = .ok key)
    (rightMade : extractDomain stale fileType rightLine = .ok key) : left = right := by
  have leftText := Except.ok.inj ((keyOf_iff left).mp leftKey ▸ leftMade)
  have rightText := Except.ok.inj ((keyOf_iff right).mp rightKey ▸ rightMade)
  have dotless (name : DottedName) : ∀ label ∈ reordered name.labels, Free '.' label :=
    fun label member =>
      (name.labelled label ((reordered_perm name.labels).mem_iff.mp member)).2.1
  have labels : left.labels = right.labels := reordered_injective
    (dotted_injective (reordered_ne_nil left) (reordered_ne_nil right) (dotless left)
      (dotless right) (leftText.trans rightText.symm))
  cases left
  cases right
  cases labels
  rfl

/-- The keys of some names in a file have every label once, so that no two names share one,
exactly when all the names are regular. -/
theorem sortKeys_faithful_iff (stale : List Char → List Char) (fileType : FileType)
    (names : List DottedName) (rest : DottedName → List Char)
    (fits : ∀ name ∈ names, (controlLine fileType name.text (rest name)).length < maxBuff) :
    ((∀ name ∈ names, KeyOf stale fileType name (controlLine fileType name.text (rest name))) ∧
      ∀ left ∈ names, ∀ right ∈ names, ∀ key,
        extractDomain stale fileType (controlLine fileType left.text (rest left)) = .ok key →
        extractDomain stale fileType (controlLine fileType right.text (rest right)) = .ok key →
        left = right) ↔
      ∀ name ∈ names, Regular name.labels := by
  constructor
  · intro faithful name member
    exact (keyOf_controlLine_iff name (fits name member)).mp (faithful.1 name member)
  · intro regular
    have keys : ∀ name ∈ names,
        KeyOf stale fileType name (controlLine fileType name.text (rest name)) :=
      fun name member => (keyOf_controlLine_iff name (fits name member)).mpr (regular name member)
    refine ⟨keys, ?_⟩
    intro left leftMember right rightMember key leftMade rightMade
    exact (keys left leftMember).name_eq (keys right rightMember) leftMade rightMade

end Keys

/-- A name of five labels, of which the third one can be chosen. -/
def fiveLabels (third : Char) (proper : '.' ≠ third ∧ ':' ≠ third) : DottedName where
  labels := [['a'], ['b'], [third], ['d'], ['e']]
  nonempty := List.cons_ne_nil _ _
  labelled := by simp [proper]

/-- Names that share labels. -/
def regularNames : List DottedName :=
  [⟨[['w'], ['a'], ['b'], ['c']], by decide, by decide⟩,
    ⟨[['m'], ['a'], ['b'], ['c']], by decide, by decide⟩,
    ⟨[['w'], ['a'], ['w'], ['b'], ['c']], by decide, by decide⟩]

theorem regularNames_regular : ∀ name ∈ regularNames, Regular name.labels := by
  simp only [regularNames, List.forall_mem_cons]
  refine ⟨⟨by decide, fun _ front => absurd front (by simp)⟩,
    ⟨by decide, fun _ front => absurd front (by simp)⟩, ⟨by decide, fun index front => ?_⟩, nofun⟩
  have first : index = 0 := Nat.lt_one_iff.mp (Nat.lt_of_add_lt_add_right front)
  rw [first]
  rfl

theorem sortKeys_faithful_regularNames :
    (∀ name ∈ regularNames, KeyOf id .virtualdomains name
      (controlLine .virtualdomains name.text ['x'])) ∧
    ∀ left ∈ regularNames, ∀ right ∈ regularNames, ∀ key,
      extractDomain id .virtualdomains (controlLine .virtualdomains left.text ['x']) = .ok key →
      extractDomain id .virtualdomains (controlLine .virtualdomains right.text ['x']) = .ok key →
      left = right :=
  (sortKeys_faithful_iff id .virtualdomains regularNames (fun _ => ['x']) (by decide)).mpr
    regularNames_regular

/-- The third of five labels is lost, so that two names get one key. -/
theorem fiveLabels_share_key :
    extractDomain id .rcpthosts (controlLine .rcpthosts (fiveLabels 'c' (by decide)).text []) =
      .ok ['d', '.', 'e', '.', 'a', '.', 'b', '.', 'a'] ∧
    extractDomain id .rcpthosts (controlLine .rcpthosts (fiveLabels 'x' (by decide)).text []) =
      .ok ['d', '.', 'e', '.', 'a', '.', 'b', '.', 'a'] ∧
    fiveLabels 'c' (by decide) ≠ fiveLabels 'x' (by decide) ∧
    ¬ KeyOf id .rcpthosts (fiveLabels 'c' (by decide))
      (controlLine .rcpthosts (fiveLabels 'c' (by decide)).text []) := by
  have collide : extractDomain id .rcpthosts
      (controlLine .rcpthosts (fiveLabels 'c' (by decide)).text []) =
      .ok ['d', '.', 'e', '.', 'a', '.', 'b', '.', 'a'] := by decide +kernel
  refine ⟨collide, by decide +kernel, ?_, ?_⟩
  · intro same
    have thirds := congrArg (fun name => name.labels[2]?) same
    simp [fiveLabels] at thirds
  · intro key
    rw [keyOf_iff, collide] at key
    exact absurd (Except.ok.inj key) (by decide)

end Vpopmail
