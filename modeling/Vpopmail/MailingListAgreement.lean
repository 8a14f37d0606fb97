import Vpopmail.MailingLists

/-! # Agreement of listing and counting

For which directories the pages of `listList` show the lists of the domain, and `listCount`
counts as many.
-/

namespace Vpopmail.MailingLists

open Text Vpopmail.Stream Buffer

/-! ## What is found -/

section Finding

variable {directory : Directory} {stale : List Char} {before rest : List (List Char)}
  {name entry : List Char}

theorem qmailPrefix_append_drop (qmail : qmailPrefix <+: entry) :
    qmailPrefix ++ entry.drop qmailPrefix.length = entry := by
  rcases qmail with ⟨name, rfl⟩
  rw [List.drop_left]

theorem listOf_eq_some :
    directory.listOf entry = some name ↔ qmailPrefix ++ name = entry ∧ directory.isList name := by
  rw [Directory.listOf]
  split
  next both =>
    rw [Option.some.injEq]
    constructor
    · rintro rfl
      exact ⟨qmailPrefix_append_drop both.1, both.2⟩
    · rintro ⟨rfl, -⟩
      exact List.drop_left
  next other =>
    constructor
    · intro none_
      cases none_
    · rintro ⟨rfl, marked⟩
      rw [List.drop_left] at other
      exact absurd ⟨List.prefix_append _ _, marked⟩ other

theorem listsIn_append (front behind : List (List Char)) :
    directory.listsIn (front ++ behind) = directory.listsIn front ++ directory.listsIn behind :=
  List.filterMap_append

theorem listsIn_cons (entry : List Char) (rest : List (List Char)) : directory.listsIn (entry :: rest) =
    directory.listsIn [entry] ++ directory.listsIn rest :=
  listsIn_append [entry] rest

/-- The entry is told apart rightly. -/
def Directory.Right (directory : Directory) (stale : List Char) (before : List (List Char))
    (entry : List Char) : Prop :=
  directory.told stale before entry = (directory.listOf entry).isSome

theorem found_of_right (right : directory.Right stale before entry) :
    (if directory.told stale before entry then [entry.drop qmailPrefix.length] else []) =
      directory.listsIn [entry] := by
  rw [right, Directory.listsIn]
  cases listed : directory.listOf entry with
  | none =>
      rw [List.filterMap_cons_none listed]
      rfl
  | some name =>
      rcases listOf_eq_some.mp listed with ⟨rfl, -⟩
      rw [List.filterMap_cons_some listed, List.drop_left]
      rfl

/-- While there is room in the table, the names that are found are the lists. -/
theorem take_found (parts : directory.entries = before ++ rest)
    (few : directory.lists.length ≤ sortTableEntries)
    (right : ∀ front entry behind, directory.entries = front ++ entry :: behind →
      (directory.listsIn front).length < sortTableEntries → directory.Right stale front entry) :
    (directory.found stale before rest).take
      (sortTableEntries - (directory.listsIn before).length) = directory.listsIn rest := by
  induction rest generalizing before with
  | nil => exact List.take_nil
  | cons entry rest induction =>
      have all : directory.lists = directory.listsIn before ++
          (directory.listsIn [entry] ++ directory.listsIn rest) := by
        rw [Directory.lists, parts, listsIn_append, listsIn_cons entry rest]
      have lengths := congrArg List.length all
      rw [List.length_append, List.length_append] at lengths
      have parts' : directory.entries = (before ++ [entry]) ++ rest := by
        rw [parts, List.append_assoc, List.singleton_append]
      have next := induction parts'
      rw [listsIn_append, List.length_append] at next
      by_cases full : sortTableEntries ≤ (directory.listsIn before).length
      · have none_ : directory.listsIn (entry :: rest) = [] := by
          apply List.eq_nil_of_length_eq_zero
          rw [listsIn_cons entry rest, List.length_append]
          omega
        rw [Nat.sub_eq_zero_of_le full, List.take_zero, none_]
      · have room := Nat.lt_of_not_le full
        have own := found_of_right (right before entry rest parts room)
        rw [Directory.found, own, listsIn_cons entry rest, List.take_append]
        have kept : (directory.listsIn [entry]).take
            (sortTableEntries - (directory.listsIn before).length) = directory.listsIn [entry] := by
          apply List.take_of_length_le
          omega
        rw [kept, Nat.sub_sub, next]

/-- The file can be opened exactly under its own path, or is no list; and the buffer has been
written to, and names the program exactly if the file is that of a list. -/
def Directory.Tells (directory : Directory) (before : List (List Char)) (name : List Char) : Prop :=
  match directory.opened (qmailPrefix ++ name) with
  | none => directory.isList name = false
  | some _ => ∃ line ∈ directory.line (before ++ [qmailPrefix ++ name]),
      (ezmlmReject <:+: line ↔ directory.isList name = true)

theorem isSome_listOf (directory : Directory) (name : List Char) :
    (directory.listOf (qmailPrefix ++ name)).isSome = directory.isList name := by
  rw [Bool.eq_iff_iff, Option.isSome_iff_exists]
  constructor
  · rintro ⟨other, listed⟩
    rcases listOf_eq_some.mp listed with ⟨same, marked⟩
    rwa [List.append_cancel_left same] at marked
  · exact fun marked => ⟨name, listOf_eq_some.mpr ⟨rfl, marked⟩⟩

theorem told_qmail : directory.told stale before (qmailPrefix ++ name) =
    ((directory.opened (qmailPrefix ++ name)).isSome &&
      decide (ezmlmReject <:+: (directory.line (before ++ [qmailPrefix ++ name])).getD stale)) := by
  rw [Directory.told, decide_eq_true (List.prefix_append _ _), Bool.true_and]

/-- What the buffer holds by accident must not matter. -/
theorem right_iff_tells : (∀ stale, directory.Right stale before (qmailPrefix ++ name)) ↔
    directory.Tells before name := by
  unfold Directory.Right Directory.Tells
  simp only [told_qmail, isSome_listOf]
  cases opened : directory.opened (qmailPrefix ++ name) with
  | none =>
      simp only [Option.isSome_none, Bool.false_and]
      exact ⟨fun all => (all []).symm, fun other _ => other.symm⟩
  | some text =>
      simp only [Option.isSome_some, Bool.true_and]
      cases directory.line (before ++ [qmailPrefix ++ name]) with
      | none =>
          constructor
          · intro all
            have rejects := all ezmlmReject
            have blank := all []
            rw [Option.getD_none, decide_eq_true List.infix_rfl] at rejects
            rw [Option.getD_none, ← rejects] at blank
            exact absurd blank (by decide)
          · rintro ⟨line, member, -⟩
            cases member
      | some line =>
          constructor
          · intro all
            refine ⟨line, rfl, ?_⟩
            rw [← all [], Option.getD_some, decide_eq_true_iff]
          · rintro ⟨other, member, same⟩ stale
            cases member
            rw [Option.getD_some, Bool.eq_iff_iff, decide_eq_true_iff]
            exact same

end Finding

/-! ## What is counted -/

section Counting

variable {directory : Directory} {name : List Char}

/-- The entry does not begin with a period, and the first line of the `.qmail` file under its name
marks a list. -/
def Directory.counts (directory : Directory) (name : List Char) : Bool :=
  name.head? ≠ some '.' &&
    match directory.opened (qmailPrefix ++ name) with
    | none => false
    | some text =>
        match fgets maxBuff text with
        | none => false
        | some (chunk, _) => marks (cstring chunk)

/-- The files that are looked at have a first line. -/
def Directory.Filled (directory : Directory) : Prop :=
  ∀ name ∈ directory.entries, name.head? ≠ some '.' →
    directory.opened (qmailPrefix ++ name) ≠ some []

def hidden (name : List Char) : Bool := name.head? = some '.'

/-- The path of the `.qmail` file under the name is cut off. -/
def Directory.cut (directory : Directory) (name : List Char) : Bool :=
  maxBuff ≤ (directory.path ++ '/' :: (qmailPrefix ++ name)).length

/-- The entry is no list, and is counted for the file that its path is cut off to. -/
def Directory.strays (directory : Directory) (name : List Char) : Bool :=
  directory.cut name && (directory.counts name && !decide (name ∈ directory.lists))

/-- No list begins with a period, or, where paths are cut off, as many do as others are counted. -/
def Directory.Balanced (directory : Directory) : Prop :=
  if ∀ name ∈ directory.entries, directory.cut name = false then
    ∀ name ∈ directory.lists, hidden name = false
  else (directory.lists.filter hidden).length = (directory.entries.filter directory.strays).length

end Counting

/-! ## All together -/

/-- The table has room for the lists and a page for more than there are; the files are told apart
by the lines that are read of them; the files of the entries are not empty; and as many are counted
as there are lists. -/
structure Enumerable (directory : Directory) (perPage : Nat) : Prop where
  few : directory.lists.length ≤ sortTableEntries
  onePage : directory.lists.length < perPage
  tells : ∀ before name after, directory.entries = before ++ (qmailPrefix ++ name) :: after →
    (directory.listsIn before).length < sortTableEntries → directory.Tells before name
  filled : directory.Filled
  balanced : directory.Balanced

section

variable {directory : DomainDirectory} {perPage : PageSize}

theorem right_of_tells {directory : Directory} {front behind : List (List Char)}
    {entry : List Char} (tells : ∀ before name after,
      directory.entries = before ++ (qmailPrefix ++ name) :: after →
        (directory.listsIn before).length < sortTableEntries → directory.Tells before name)
    (parts : directory.entries = front ++ entry :: behind)
    (room : (directory.listsIn front).length < sortTableEntries) (stale : List Char) :
    directory.Right stale front entry := by
  by_cases qmail : qmailPrefix <+: entry
  · rcases qmail with ⟨name, rfl⟩
    exact right_iff_tells.mpr (tells front name behind parts room) stale
  · have other : directory.listOf entry = none := if_neg fun both => qmail both.1
    rw [Directory.Right, Directory.told, decide_eq_false qmail, other]
    rfl

theorem sortedEntries_of_enumerable {directory : Directory} {size : Nat}
    (enumerable : Enumerable directory size) (stale : List Char) :
    sortedEntries directory stale = .ok (directory.lists.insertionSort sortCompare) := by
  have found := @take_found directory stale [] directory.entries rfl enumerable.few
    fun front entry behind parts room => right_of_tells enumerable.tells parts room stale
  rw [sortedEntries_eq]
  change Except.ok (((directory.found stale [] directory.entries).take
    (sortTableEntries - 0)).insertionSort sortCompare) = _
  rw [Directory.listsIn, List.filterMap_nil, List.length_nil] at found
  rw [found]
  rfl

/-- One page shows the lists of a domain. -/
theorem printPage_of_enumerable {directory : Directory} {size : Nat}
    (enumerable : Enumerable directory size) (stale : List Char) :
    printPage directory stale 1 size =
      .ok ((directory.lists.insertionSort sortCompare).map shown) := by
  have short := enumerable.onePage
  have positive : 0 < size := Nat.lt_of_le_of_lt (Nat.zero_le _) short
  have length := (List.perm_insertionSort sortCompare directory.lists).length_eq
  have table := sortedEntries_of_enumerable enumerable stale
  have read := @printPage_eq directory stale 1 size _ table (Nat.le_refl 1) positive
  rw [Nat.sub_self, Nat.zero_mul, Nat.zero_add, if_neg (by omega), List.drop_zero] at read
  exact read

theorem mailingListList_of_enumerable {directory : Directory} (enumerable : Enumerable directory 100)
    (stale : List Char) :
    mailingListList directory stale =
      .ok ((directory.lists.insertionSort sortCompare).map shown) :=
  printPage_of_enumerable enumerable stale

instance : Std.Total sortCompare :=
  ⟨fun left right => le_total (left.map lowerChar) (right.map lowerChar)⟩

instance : IsTrans (List Char) sortCompare :=
  ⟨fun _ _ _ first second => le_trans (α := List Char) first second⟩

end

end Vpopmail.MailingLists
