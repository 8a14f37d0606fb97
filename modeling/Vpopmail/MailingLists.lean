import Vpopmail.AliasFiles
import Vpopmail.Foundation.Buffer

/-! # Enumerating mailing lists

`listCount` counts the entries of the directory of a domain that have the `.qmail` file of a
list, and `listList` sorts the names of these files and returns a page of them. Both look at
the first line of each file.
-/

namespace Vpopmail.MailingLists

open Text Vpopmail.Stream Buffer

def sortTableEntries : Nat := 1000

def maxSortBlocks : Nat := 1000

def ezmlmReject : List Char := "ezmlm-reject".toList

def ezmlmSend : List Char := "ezmlm-send".toList

/-- The directory of a domain: the names that `readdir` returns, in order, and the files that can
be opened, by their paths. -/
structure Directory where
  path : List Char
  entries : List (List Char)
  files : List Char → Option (List Char)
  nodup : entries.Nodup
  plain : ∀ name ∈ entries, Free nul name ∧ Free '/' name
  short : ∀ name ∈ entries, name.length < 256
  listed : ∀ name, Free '/' name → files (path ++ '/' :: name) ≠ none → name ∈ entries

/-- The file whose path is printed to `FileName`. -/
def Directory.opened (directory : Directory) (name : List Char) : Option (List Char) :=
  directory.files (snprintf maxBuff (directory.path ++ '/' :: name))

/-- The string in `TmpBuf2` behind `fgets`, which leaves the buffer alone at the end of a file. -/
def readLine (buffer text : List Char) : List Char :=
  match fgets maxBuff text with
  | none => buffer
  | some (chunk, _) => cstring chunk

/-- A line names one of the programs. -/
def marks (line : List Char) : Bool := ezmlmReject <:+: line || ezmlmSend <:+: line

/-! ## Counting -/

/-- `isValidMailList`; `stale` is what `TmpBuf2` happens to hold. -/
def isValidMailList (directory : Directory) (name stale : List Char) : Bool :=
  match directory.opened (qmailPrefix ++ name) with
  | none => false
  | some text => marks (readLine stale text)

/-- `listCount` of a directory, if it can be opened. -/
def listCount (opened : Option Directory) (stale : List Char → List Char) : Int :=
  match opened with
  | none => -1
  | some directory => directory.entries.countP fun name =>
      name.head? ≠ some '.' && isValidMailList directory name (stale name)

/-! ## The sort table -/

structure SortTable where
  entries : List (List Char)
  memleft : Nat
  memindex : Nat

/-- `sort_init`. -/
def SortTable.init : SortTable := ⟨[], 0, 0⟩

/-- `sort_add_entry` with its result. The text is copied to the block without a check. -/
def SortTable.addEntry (table : SortTable) (entry : List Char) (end_ : Char) :
    Checked (Int × SortTable) :=
  if table.entries.length = sortTableEntries then .ok (-2, table)
  else if table.memleft < 256 ∧ table.memindex = maxSortBlocks then .ok (-3, table)
  else
    let memleft := if table.memleft < 256 then 65536 else table.memleft
    let memindex := if table.memleft < 256 then table.memindex + 1 else table.memindex
    let copied := (cstring entry).takeWhile (· ≠ end_)
    if copied.length + 1 ≤ memleft then
      .ok (0, ⟨table.entries ++ [copied], memleft - (copied.length + 1), memindex⟩)
    else .error .outOfBounds

/-- `sort_get_entry`. -/
def sortGetEntry (entries : List (List Char)) (index : Int) : Option (List Char) :=
  if index < 0 then none else entries[index.toNat]?

/-! ## Listing -/

/-- `TmpBuf2` and the sort table. -/
structure Scan where
  buffer : List Char
  table : SortTable

/-- The loop of `listList` for one entry of the directory. -/
def listEntry (directory : Directory) (scan : Scan) (name : List Char) : Checked Scan :=
  if qmailPrefix <+: name then
    match directory.opened name with
    | none => .ok scan
    | some text =>
        let buffer := readLine scan.buffer text
        if ezmlmReject <:+: buffer then
          (scan.table.addEntry (name.drop qmailPrefix.length) nul).map fun added =>
            ⟨buffer, added.2⟩
        else .ok ⟨buffer, scan.table⟩
  else .ok scan

/-- The sort table behind `sort_dosort`. -/
def sortedEntries (directory : Directory) (stale : List Char) : Checked (List (List Char)) :=
  (directory.entries.foldlM (listEntry directory) ⟨stale, .init⟩).map fun scan =>
    scan.table.entries.insertionSort sortCompare

/-- A pointer in the array, which `malloc` does not set. -/
inductive Slot
  | unset
  | null
  | entry (text : List Char)

/-- `str_replace`. -/
def strReplace (orig repl : Char) (text : List Char) : List Char :=
  text.map fun char => if char = orig then repl else char

/-- A name as it is shown. -/
def shown (name : List Char) : List Char := strReplace ':' '.' name

/-- The loop over the array, with the number of pointers that are left. A null pointer of
`sort_get_entry` is passed on to `str_replace`. -/
def fillPage (entries : List (List Char)) (start : Int) : (left i : Nat) → Checked (List Slot)
  | 0, _ => .ok []
  | left + 1, i =>
      if (entries.length : Int) ≤ start + i then .ok (.null :: List.replicate left .unset)
      else
        match sortGetEntry entries (start + i) with
        | none => .error .outOfBounds
        | some addr => (fillPage entries start left (i + 1)).map (.entry (shown addr) :: ·)

/-- `listList`: the array, or a null pointer if the directory cannot be opened. `stale` is what
`TmpBuf2` happens to hold. -/
def listList (opened : Option Directory) (stale : List Char) (page perPage : Int) :
    Checked (Option (List Slot)) :=
  match opened with
  | none => .ok none
  | some directory =>
      (sortedEntries directory stale).bind fun entries =>
        (fillPage entries ((page - 1) * perPage) perPage.toNat 0).map some

/-- The walk of `mailingListList` to the null pointer. -/
def readArray : List Slot → Checked (List (List Char))
  | [] => .error .outOfBounds
  | .unset :: _ => .error .outOfBounds
  | .null :: _ => .ok []
  | .entry text :: rest => (readArray rest).map (text :: ·)

/-- What a caller of `listList` prints. -/
def printPage (directory : Directory) (stale : List Char) (page perPage : Int) :
    Checked (List (List Char)) :=
  (listList (some directory) stale page perPage).bind fun
    | none => .ok []
    | some slots => readArray slots

/-- `mailingListList`. -/
def mailingListList (directory : Directory) (stale : List Char) : Checked (List (List Char)) :=
  printPage directory stale 1 100

/-! ## The lists of a domain -/

/-- The first line of a file, of any length. -/
def firstLine (text : List Char) : List Char := text.takeWhile (· ≠ '\n')

/-- The first line of the `.qmail` file marks a list. -/
def Directory.isList (directory : Directory) (name : List Char) : Bool :=
  match directory.files (directory.path ++ '/' :: (qmailPrefix ++ name)) with
  | none => false
  | some text => marks (firstLine text)

/-- The list that an entry of the directory stands for. -/
def Directory.listOf (directory : Directory) (entry : List Char) : Option (List Char) :=
  if qmailPrefix <+: entry ∧ directory.isList (entry.drop qmailPrefix.length) then
    some (entry.drop qmailPrefix.length)
  else none

/-- The lists whose files are among some entries. -/
def Directory.listsIn (directory : Directory) (entries : List (List Char)) : List (List Char) :=
  entries.filterMap directory.listOf

/-- The lists of the domain. -/
def Directory.lists (directory : Directory) : List (List Char) :=
  directory.listsIn directory.entries

/-- A domain with a directory for each of its lists. -/
abbrev DomainDirectory :=
  { directory : Directory // ∀ name ∈ directory.lists, name ∈ directory.entries }

/-- A positive `int`. -/
abbrev PageSize := { perPage : Nat // 0 < perPage ∧ perPage < 2 ^ 31 }

/-- The lists are in the sort table in this order, the pages show them one after the other, and
as many are counted, whatever the buffers held before. -/
structure Enumerates (directory : Directory) (perPage : Nat) (names : List (List Char)) : Prop where
  perm : names.Perm directory.lists
  sorted : names.Pairwise sortCompare
  table : ∀ stale, sortedEntries directory stale = .ok names
  pages : ∀ stale (page : Nat), 1 ≤ page → (page - 1) * perPage ≤ names.length →
    printPage directory stale page perPage =
      .ok (((names.drop ((page - 1) * perPage)).take perPage).map shown)
  counted : ∀ stale, listCount (some directory) stale = names.length

/-- The enumeration of the lists is consistent. -/
def Consistent (directory : DomainDirectory) (perPage : PageSize) : Prop :=
  ∃ names, Enumerates directory.val perPage.val names

/-! ## Room in the sort table -/

section Table

variable {table : SortTable} {entry : List Char}

/-- Every entry takes at most one new block. -/
structure SortTable.Room (table : SortTable) : Prop where
  entries : table.entries.length ≤ sortTableEntries
  blocks : table.memindex ≤ table.entries.length

theorem take_take_append {Value : Type} (count : Nat) (front behind : List Value) :
    ((front.take count) ++ behind).take count = (front ++ behind).take count := by
  rw [List.take_append, List.take_append, List.take_take, Nat.min_self, List.length_take]
  congr 2
  omega

/-- An entry is added as long as there is room for it in the table. -/
theorem SortTable.addEntry_spec (room : table.Room) (plain : Free nul entry)
    (short : entry.length < 256) :
    ∃ code after, table.addEntry entry nul = .ok (code, after) ∧ after.Room ∧
      after.entries = (table.entries ++ [entry]).take sortTableEntries := by
  have blocks := room.blocks
  have copied : (cstring entry).takeWhile (· ≠ nul) = entry := by
    rw [cstring_of_free plain]
    exact takeWhile_ne_of_free plain
  rw [addEntry]
  by_cases full : table.entries.length = sortTableEntries
  · refine ⟨-2, table, if_pos full, room, ?_⟩
    rw [← full, List.take_left]
  · have free : table.entries.length < sortTableEntries := Nat.lt_of_le_of_ne room.entries full
    have more : ¬(table.memleft < 256 ∧ table.memindex = maxSortBlocks) := by
      have same : maxSortBlocks = sortTableEntries := rfl
      omega
    have fits : entry.length + 1 ≤ if table.memleft < 256 then 65536 else table.memleft := by
      split <;> omega
    have whole : (table.entries ++ [entry]).length ≤ sortTableEntries := by
      rw [List.length_append, List.length_singleton]
      exact free
    simp only [if_neg full, if_neg more, copied, if_pos fits]
    refine ⟨0, _, rfl, ⟨whole, ?_⟩, (List.take_of_length_le whole).symm⟩
    simp only [List.length_append, List.length_singleton]
    split <;> omega

end Table

/-! ## The scan -/

section Scanning

variable {directory : Directory} {stale : List Char} {before rest : List (List Char)}
  {name : List Char}

/-- The line that is read of a file, if it is opened and not empty. -/
def Directory.own (directory : Directory) (name : List Char) : Option (List Char) :=
  if qmailPrefix <+: name then
    (directory.opened name).bind fun text => (fgets maxBuff text).map fun read => cstring read.1
  else none

/-- The line that is in the buffer behind some entries, if one has been read at all. -/
def Directory.line (directory : Directory) (before : List (List Char)) : Option (List Char) :=
  before.reverse.findSome? directory.own

theorem line_concat : directory.line (before ++ [name]) =
    (directory.own name).or (directory.line before) := by
  rw [Directory.line, List.reverse_concat, List.findSome?_cons]
  cases directory.own name with
  | none => rfl
  | some line => rfl

/-- `listList` takes the file of an entry for that of a list. -/
def Directory.told (directory : Directory) (stale : List Char) (before : List (List Char))
    (name : List Char) : Bool :=
  qmailPrefix <+: name && (directory.opened name).isSome &&
    ezmlmReject <:+: (directory.line (before ++ [name])).getD stale

/-- The names that `listList` finds. -/
def Directory.found (directory : Directory) (stale : List Char) (before : List (List Char)) :
    List (List Char) → List (List Char)
  | [] => []
  | name :: rest =>
      (if directory.told stale before name then [name.drop qmailPrefix.length] else []) ++
        found directory stale (before ++ [name]) rest

theorem listEntry_spec {scan : Scan} (member : name ∈ directory.entries) (room : scan.table.Room)
    (held : scan.buffer = (directory.line before).getD stale) :
    ∃ next, listEntry directory scan name = .ok next ∧ next.table.Room ∧
      next.buffer = (directory.line (before ++ [name])).getD stale ∧
      next.table.entries = (scan.table.entries ++
        if directory.told stale before name then [name.drop qmailPrefix.length] else []).take
          sortTableEntries := by
  have kept : scan.table.entries = (scan.table.entries ++ []).take sortTableEntries := by
    rw [List.append_nil, List.take_of_length_le room.entries]
  rw [listEntry]
  by_cases qmail : qmailPrefix <+: name
  · rw [if_pos qmail]
    cases opened : directory.opened name with
    | none =>
        have own : directory.own name = none := by
          rw [Directory.own, if_pos qmail, opened]
          rfl
        refine ⟨scan, rfl, room, ?_, ?_⟩
        · rw [line_concat, own, Option.none_or]
          exact held
        · rw [Directory.told, opened]
          simpa using kept
    | some text =>
        have buffer : readLine scan.buffer text =
            (directory.line (before ++ [name])).getD stale := by
          rw [line_concat, Directory.own, if_pos qmail, opened, readLine, Option.bind_some]
          cases read : fgets maxBuff text with
          | none =>
              rw [Option.map_none, Option.none_or]
              exact held
          | some read => rfl
        have told : directory.told stale before name =
            decide (ezmlmReject <:+: readLine scan.buffer text) := by
          rw [Directory.told, opened, buffer]
          simp [qmail]
        simp only
        by_cases rejects : ezmlmReject <:+: readLine scan.buffer text
        · have plain : Free nul (name.drop qmailPrefix.length) :=
            fun inside => (directory.plain name member).1 (List.mem_of_mem_drop inside)
          have short : (name.drop qmailPrefix.length).length < 256 := by
            rw [List.length_drop]
            exact Nat.lt_of_le_of_lt (Nat.sub_le _ _) (directory.short name member)
          rcases SortTable.addEntry_spec room plain short with ⟨code, after, added, left, entries⟩
          refine ⟨⟨readLine scan.buffer text, after⟩, ?_, left, buffer, ?_⟩
          · rw [if_pos rejects, added]
            rfl
          · rw [told, decide_eq_true rejects, if_pos rfl]
            exact entries
        · refine ⟨⟨readLine scan.buffer text, scan.table⟩, if_neg rejects, room, buffer, ?_⟩
          rw [told, decide_eq_false rejects, if_neg Bool.false_ne_true]
          exact kept
  · have own : directory.own name = none := if_neg qmail
    refine ⟨scan, if_neg qmail, room, ?_, ?_⟩
    · rw [line_concat, own, Option.none_or]
      exact held
    · rw [Directory.told]
      simpa [qmail] using kept

/-- The loop over the directory: the induction is on the entries that are left, and the buffer
holds the line of those before. -/
theorem foldlM_listEntry {scan : Scan} (inside : ∀ name ∈ rest, name ∈ directory.entries)
    (room : scan.table.Room) (held : scan.buffer = (directory.line before).getD stale) :
    ∃ after, rest.foldlM (listEntry directory) scan = .ok after ∧
      after.table.entries =
        (scan.table.entries ++ directory.found stale before rest).take sortTableEntries := by
  induction rest generalizing before scan with
  | nil =>
      refine ⟨scan, rfl, ?_⟩
      rw [Directory.found, List.append_nil, List.take_of_length_le room.entries]
  | cons name rest induction =>
      rw [List.forall_mem_cons] at inside
      rcases listEntry_spec inside.1 room held with ⟨next, step, left, holds, entries⟩
      rcases induction inside.2 left holds with ⟨after, run, all⟩
      refine ⟨after, ?_, ?_⟩
      · rw [List.foldlM_cons, step]
        exact run
      · rw [all, entries, take_take_append, List.append_assoc]
        rfl

/-- The table has the names that are found, as many as there is room for, sorted. -/
theorem sortedEntries_eq (directory : Directory) (stale : List Char) :
    sortedEntries directory stale = .ok (((directory.found stale [] directory.entries).take
      sortTableEntries).insertionSort sortCompare) := by
  have room : SortTable.init.Room := ⟨Nat.zero_le _, Nat.le_refl 0⟩
  rcases @foldlM_listEntry directory stale [] directory.entries ⟨stale, .init⟩ (fun _ => id) room rfl
    with ⟨after, run, entries⟩
  rw [sortedEntries, run]
  change Except.ok (after.table.entries.insertionSort sortCompare) = _
  rw [entries]
  rfl

end Scanning

/-! ## Pages -/

section Pages

variable {entries : List (List Char)} {start left i : Nat}

/-- A page is read up to its null pointer, and one that is full has none. -/
theorem readArray_fillPage (begun : start + i ≤ entries.length ∨ 0 < left) :
    (fillPage entries start left i).bind readArray =
      if start + i + left ≤ entries.length then .error .outOfBounds
      else .ok ((entries.drop (start + i)).map shown) := by
  induction left generalizing i with
  | zero =>
      have inside : start + i ≤ entries.length := begun.resolve_right (Nat.lt_irrefl 0)
      rw [Nat.add_zero, if_pos inside]
      rfl
  | succ left induction =>
      rw [fillPage]
      by_cases ended : entries.length ≤ start + i
      · have above : (entries.length : Int) ≤ (start : Int) + (i : Int) := by omega
        have short : ¬start + i + (left + 1) ≤ entries.length := by omega
        rw [if_pos above, if_neg short, List.drop_eq_nil_of_le ended]
        rfl
      · have below : ¬(entries.length : Int) ≤ (start : Int) + (i : Int) := by omega
        have inside : start + i < entries.length := Nat.lt_of_not_le ended
        have got : sortGetEntry entries ((start : Int) + (i : Int)) = some entries[start + i] := by
          have nonneg : ¬(start : Int) + (i : Int) < 0 := by omega
          have index : ((start : Int) + (i : Int)).toNat = start + i := by omega
          rw [sortGetEntry, if_neg nonneg, index, List.getElem?_eq_getElem inside]
        have next := @induction (i + 1) (.inl inside)
        have same : start + (i + 1) + left = start + i + (left + 1) := by omega
        rw [same] at next
        rw [if_neg below, got]
        simp only
        have walk : ((fillPage entries start left (i + 1)).map
            (Slot.entry (shown entries[start + i]) :: ·)).bind readArray =
              ((fillPage entries start left (i + 1)).bind readArray).map
                (shown entries[start + i] :: ·) := by
          cases fillPage entries start left (i + 1) with
          | error fault => rfl
          | ok slots => rfl
        rw [walk, next]
        by_cases full : start + i + (left + 1) ≤ entries.length
        · rw [if_pos full, if_pos full]
          rfl
        · rw [if_neg full, if_neg full, List.drop_eq_getElem_cons inside]
          rfl

theorem printPage_eq {directory : Directory} {stale : List Char} {page perPage : Nat}
    {names : List (List Char)} (table : sortedEntries directory stale = .ok names)
    (first : 1 ≤ page) (some_ : 0 < perPage) :
    printPage directory stale page perPage =
      if (page - 1) * perPage + perPage ≤ names.length then .error .outOfBounds
      else .ok ((names.drop ((page - 1) * perPage)).map shown) := by
  have start : ((page : Int) - 1) * (perPage : Int) = (((page - 1) * perPage : Nat) : Int) := by
    rw [Int.natCast_mul, Int.ofNat_sub first]
    rfl
  have read := @readArray_fillPage names ((page - 1) * perPage) perPage 0 (.inr some_)
  rw [Nat.add_zero] at read
  rw [printPage, listList, table, ← read, start, Int.toNat_natCast]
  simp only [Except.bind]
  cases fillPage names (((page - 1) * perPage : Nat) : Int) perPage 0 with
  | error fault => rfl
  | ok slots => rfl

end Pages

end Vpopmail.MailingLists
