import Vpopmail.Vcdb.Lookup

/-! # Reading a whole file

`vgetent` reads through a buffer of `MAX_BUFF` cells. A line that does not fit is read in
pieces: the first one loses the end of the line, and what is left is taken for a line.
-/

namespace Vpopmail.Vcdb

open Vpopmail Text Vpopmail.Stream

/-- The records of successive `vgetent` calls. -/
def vgetentFile (build : Build) (text : List Char) : List Vqpasswd :=
  vgetentLoop build (fgetsLoop maxBuff text)

namespace Entry

/-- A line without its newline. -/
def body (entry : Entry) : List Char := entry.name ++ ':' :: entry.data

theorem line_eq_body (entry : Entry) : entry.line = entry.body ++ ['\n'] := by
  simp [line, body]

theorem length_line (entry : Entry) : entry.line.length = entry.body.length + 1 := by
  rw [line_eq_body, List.length_append, List.length_singleton]

theorem body_free_newline (entry : Entry) : Free '\n' entry.body := by
  rw [body, free_append, free_cons]
  exact ⟨entry.name_plain.2.1, by decide, entry.data_free_newline⟩

theorem body_free_nul (entry : Entry) : Free nul entry.body := by
  rw [body, free_append, free_cons]
  exact ⟨entry.name_plain.2.2, by decide, entry.data_free_nul⟩

/-- The record that a build makes of a line. -/
def read (build : Build) (entry : Entry) : Vqpasswd :=
  entry.record (if build.clearPass then some (entry.clear.getD []) else none)

/-- A line of a build without clear passwords has none. -/
def Suits (build : Build) (entry : Entry) : Prop :=
  build.clearPass = false → entry.clear = none

/-- How much of a line must be read: neither the newline nor the delimiter in front of an
empty clear password matters. -/
def needed (entry : Entry) : Nat :=
  entry.line.length - 1 - if entry.clear = some [] then 1 else 0

theorem needed_le (entry : Entry) : entry.needed ≤ entry.body.length := by
  rw [needed, length_line]
  omega

theorem vgetentLine_line (build : Build) (entry : Entry) :
    vgetentLine build entry.line = some (entry.read build) := vgetentLine_entry build entry

theorem vgetentLine_body (build : Build) (entry : Entry) :
    vgetentLine build entry.body = some (entry.read build) := by
  have ran := vgetentLine_ends build entry (.inl rfl)
  rw [List.append_nil] at ran
  exact ran

end Entry

/-! ## Pieces of lines -/

section Pieces

theorem field_prefix {first second rest others : List Char} (firstFree : Free ':' first)
    (secondFree : Free ':' second) (front : first ++ ':' :: rest <+: second ++ ':' :: others) :
    first = second ∧ rest <+: others := by
  rcases front with ⟨behind, whole⟩
  rw [List.append_assoc, List.cons_append] at whole
  have fields := append_cons_inj firstFree secondFree whole
  exact ⟨fields.1, behind, fields.2⟩

/-- A line that is the front of another one ends in the quota or in the clear password. -/
structure Truncates (short long : Entry) : Prop where
  name : short.name = long.name
  passwd : short.passwd = long.passwd
  uid : short.uid = long.uid
  gid : short.gid = long.gid
  gecos : short.gecos = long.gecos
  dir : short.dir = long.dir
  tail : (short.clear = none ∧ short.shell <+: long.shell) ∨
    (short.shell = long.shell ∧ ∃ clear whole, short.clear = some clear ∧
      long.clear = some whole ∧ clear <+: whole)

theorem truncates_of_prefix {short long : Entry} (front : short.body <+: long.body) :
    Truncates short long := by
  rw [Entry.body, Entry.body, Entry.data, Entry.data] at front
  rcases field_prefix short.name_plain.1 long.name_plain.1 front with ⟨name, front⟩
  rcases field_prefix short.passwd_plain.1 long.passwd_plain.1 front with ⟨passwd, front⟩
  rcases field_prefix short.uid_plain.1 long.uid_plain.1 front with ⟨uid, front⟩
  rcases field_prefix short.gid_plain.1 long.gid_plain.1 front with ⟨gid, front⟩
  rcases field_prefix short.gecos_plain.1 long.gecos_plain.1 front with ⟨gecos, front⟩
  rcases field_prefix short.dir_plain.1 long.dir_plain.1 front with ⟨dir, front⟩
  refine ⟨name, passwd, uid, gid, gecos, dir, ?_⟩
  cases ended : short.clear with
  | none =>
      rw [ended, clearTail, List.append_nil] at front
      refine .inl ⟨rfl, ?_⟩
      cases given : long.clear with
      | none =>
          rw [given, clearTail, List.append_nil] at front
          exact front
      | some whole =>
          rw [given, clearTail] at front
          -- the quota of the shorter line stops in front of the delimiter
          rcases List.prefix_or_prefix_of_prefix front (List.prefix_append _ _) with
            inside | ⟨behind, same⟩
          · exact inside
          · rw [← same, List.prefix_append_right_inj] at front
            cases behind with
            | nil =>
                rw [List.append_nil] at same
                rw [same]
            | cons char behind =>
                have delimiter : char = ':' := (List.cons_prefix_cons.mp front).1
                have free := short.shell_plain.1
                rw [← same, delimiter, free_append, free_cons] at free
                exact absurd rfl free.2.1
  | some clear =>
      rw [ended, clearTail] at front
      cases given : long.clear with
      | none =>
          rw [given, clearTail, List.append_nil] at front
          exact absurd (front.subset (by simp)) long.shell_plain.1
      | some whole =>
          rw [given, clearTail] at front
          rcases field_prefix short.shell_plain.1 long.shell_plain.1 front with ⟨shell, front⟩
          exact .inr ⟨shell, clear, whole, rfl, rfl, front⟩

variable {build : Build} {entry : Entry}

/-- What is read of the front of a line is a record of a shorter line. -/
theorem vgetentLine_front {chunk : List Char} {pw : Vqpasswd} (front : chunk <+: entry.body)
    (ran : vgetentLine build chunk = some pw) :
    ∃ short : Entry, short.body = chunk ∧ pw = short.read build := by
  have newline : Free '\n' chunk := fun member => entry.body_free_newline (front.subset member)
  have plain : Free nul chunk := fun member => entry.body_free_nul (front.subset member)
  have enough : 6 ≤ chunk.count ':' := by
    by_contra few
    rw [vgetentLine, cstring_of_free plain, if_pos (by omega)] at ran
    cases ran
  rcases exists_entry newline plain enough with ⟨short, line⟩
  have same : short.body = chunk := by
    rw [short.line_eq_body] at line
    exact List.append_cancel_right line
  rw [← same, short.vgetentLine_body] at ran
  exact ⟨short, same, (Option.some.inj ran).symm⟩

/-- A shorter line with the same record only lacks what is not needed. -/
theorem needed_le_of_read (suits : entry.Suits build) {short : Entry}
    (truncates : Truncates short entry) (same : short.read build = entry.read build) :
    entry.needed ≤ short.body.length := by
  have shell : short.shell = entry.shell := congrArg Vqpasswd.pwShell same
  have sizes : short.body.length + (clearTail entry.clear).length =
      entry.body.length + (clearTail short.clear).length := by
    simp only [Entry.body, Entry.data, List.length_append, List.length_cons, truncates.name,
      truncates.passwd, truncates.uid, truncates.gid, truncates.gecos, truncates.dir, shell]
    omega
  rw [Entry.needed, Entry.length_line]
  cases given : entry.clear with
  | none =>
      rw [given] at sizes
      simp only [clearTail, List.length_nil] at sizes
      omega
  | some whole =>
      have clearPass : build.clearPass = true := by
        by_contra none_kept
        rw [suits (Bool.eq_false_iff.mpr none_kept)] at given
        cases given
      have clear := congrArg Vqpasswd.pwClearPasswd same
      simp only [Entry.read, Entry.record, if_pos clearPass, given, Option.some.injEq,
        Option.getD_some] at clear
      cases ended : short.clear with
      | none =>
          rw [ended, Option.getD_none] at clear
          rw [← clear, if_pos rfl]
          rw [given, ended, ← clear] at sizes
          simp only [clearTail, List.length_cons, List.length_nil] at sizes
          omega
      | some kept =>
          rw [ended, Option.getD_some] at clear
          rw [given, ended, clear] at sizes
          omega

/-- A line without the delimiter of its empty clear password. -/
def Entry.withoutClear (entry : Entry) : Entry :=
  { entry with
    clear := none
    clearFree := fun _ given => by cases given }

theorem read_withoutClear (empty : entry.clear = some []) :
    entry.withoutClear.read build = entry.read build ∧
      entry.body = entry.withoutClear.body ++ [':'] := by
  constructor
  · rw [Entry.read, Entry.read, empty]
    rfl
  · simp [Entry.body, Entry.data, Entry.withoutClear, empty, clearTail]

/-- What is left of a line after enough of it has been read. -/
theorem take_of_needed {size : Nat} (enough : entry.needed ≤ size) :
    vgetentLine build (entry.body.take size) = some (entry.read build) ∧
      (entry.body.drop size = [] ∨ entry.body.drop size = [':']) := by
  rcases Nat.lt_or_ge size entry.body.length with cut | whole
  · have empty : entry.clear = some [] := by
      by_contra other
      rw [Entry.needed, Entry.length_line, if_neg other] at enough
      omega
    have read : entry.withoutClear.read build = entry.read build ∧
        entry.body = entry.withoutClear.body ++ [':'] := read_withoutClear empty
    rcases read with ⟨same, body⟩
    rw [Entry.needed, Entry.length_line, if_pos empty] at enough
    have size_eq : size = entry.withoutClear.body.length := by
      rw [body, List.length_append, List.length_singleton] at enough cut
      omega
    rw [body, size_eq, List.take_left, List.drop_left, Entry.vgetentLine_body, same]
    exact ⟨rfl, .inr rfl⟩
  · rw [List.take_of_length_le whole, List.drop_of_length_le whole, Entry.vgetentLine_body]
    exact ⟨rfl, .inl rfl⟩

end Pieces

/-! ## One line of a file -/

section Lines

variable {build : Build} {entry : Entry}

theorem vgetentFile_short (fits : entry.line.length < maxBuff) (rest : List Char) :
    vgetentFile build (entry.line ++ rest) = entry.read build :: vgetentFile build rest := by
  have chunks := fgetsLoop_eq (show 1 < maxBuff by decide) (fgets_line entry.isLine fits rest)
  rw [vgetentFile, chunks, vgetentLoop, Entry.vgetentLine_line, vgetentFile]

theorem fgetsLoop_entry (long : maxBuff ≤ entry.line.length) (rest : List Char) :
    fgetsLoop maxBuff (entry.line ++ rest) =
      entry.body.take (maxBuff - 1) ::
        fgetsLoop maxBuff (entry.body.drop (maxBuff - 1) ++ '\n' :: rest) := by
  rw [entry.length_line] at long
  rw [entry.line_eq_body, List.append_assoc, List.singleton_append,
    fgetsLoop_long (by decide) entry.body_free_newline (by omega)]

/-- A line that does not fit is read in full when nothing that is needed is left, but then the
rest of it ends the reading. -/
theorem vgetentFile_full (long : maxBuff ≤ entry.line.length) (enough : entry.needed < maxBuff)
    (rest : List Char) : vgetentFile build (entry.line ++ rest) = [entry.read build] := by
  have last : entry.needed ≤ maxBuff - 1 := by omega
  have read : vgetentLine build (entry.body.take (maxBuff - 1)) = some (entry.read build) ∧
      (entry.body.drop (maxBuff - 1) = [] ∨ entry.body.drop (maxBuff - 1) = [':']) :=
    take_of_needed last
  rcases read with ⟨ran, left⟩
  have ending : vgetentLoop build
      (fgetsLoop maxBuff (entry.body.drop (maxBuff - 1) ++ '\n' :: rest)) = [] := by
    rcases left with done | delimiter
    · have line : IsLine ['\n'] := isLine_append_newline (free_nil '\n')
      have chunks := fgetsLoop_eq (show 1 < maxBuff by decide)
        (fgets_line line (show ['\n'].length < maxBuff by decide) rest)
      have none_read : vgetentLine build ['\n'] = none := rfl
      rw [done, List.nil_append, ← List.singleton_append, chunks, vgetentLoop, none_read]
    · have line : IsLine [':', '\n'] :=
        isLine_append_newline (show Free '\n' [':'] by decide)
      have chunks := fgetsLoop_eq (show 1 < maxBuff by decide)
        (fgets_line line (show [':', '\n'].length < maxBuff by decide) rest)
      have none_read : vgetentLine build [':', '\n'] = none := rfl
      rw [delimiter]
      change vgetentLoop build (fgetsLoop maxBuff ([':', '\n'] ++ rest)) = []
      rw [chunks, vgetentLoop, none_read]
  rw [vgetentFile, fgetsLoop_entry long, vgetentLoop, ran, ending]

/-- Of a longer line another record is read, or none. -/
theorem vgetentFile_cut (suits : entry.Suits build) (long : maxBuff ≤ entry.needed)
    (rest : List Char) :
    vgetentFile build (entry.line ++ rest) = [] ∨
      ∃ short later, vgetentFile build (entry.line ++ rest) = short.read build :: later ∧
        Truncates short entry ∧ short.read build ≠ entry.read build := by
  have reaches := entry.needed_le
  have longer : maxBuff ≤ entry.line.length := by
    rw [entry.length_line]
    omega
  have front : entry.body.take (maxBuff - 1) <+: entry.body := List.take_prefix _ _
  rw [vgetentFile, fgetsLoop_entry longer, vgetentLoop]
  cases ran : vgetentLine build (entry.body.take (maxBuff - 1)) with
  | none => exact .inl rfl
  | some pw =>
      rcases vgetentLine_front front ran with ⟨short, body, rfl⟩
      have truncates := truncates_of_prefix (body ▸ front)
      refine .inr ⟨short, _, rfl, truncates, fun same => ?_⟩
      have enough := needed_le_of_read suits truncates same
      rw [body, List.length_take] at enough
      have room : 0 < maxBuff := by decide
      omega

end Lines

/-! ## All lines -/

section Files

/-- All lines but the last one fit in the buffer, and of the last one what is needed does. -/
def LinesFit {Line : Type} (size needed : Line → Nat) : List Line → Prop
  | [] => True
  | [line] => needed line < maxBuff
  | line :: next :: lines => size line < maxBuff ∧ LinesFit size needed (next :: lines)

/-- The lines of a file fit. -/
def EntriesFit (entries : List Entry) : Prop :=
  LinesFit (fun entry => entry.line.length) Entry.needed entries

theorem entriesFit_cons {entry : Entry} (fits : entry.line.length < maxBuff)
    (entries : List Entry) : EntriesFit (entry :: entries) ↔ EntriesFit entries := by
  cases entries with
  | nil =>
      have needed := entry.needed_le
      rw [entry.length_line] at fits
      have enough : entry.needed < maxBuff := by omega
      exact ⟨fun _ => trivial, fun _ => enough⟩
  | cons next entries => exact and_iff_right fits

variable {build : Build}

/-- How the reading of a file ends. -/
inductive Reading (build : Build) (entries : List Entry) (found : List Vqpasswd) : Prop
  | whole (fit : EntriesFit entries) (all : found = entries.map (·.read build))
  | stopped (unfit : ¬ EntriesFit entries) (front rest : List Entry)
      (parts : entries = front ++ rest) (left : rest ≠ [])
      (some_found : found = front.map (·.read build))
  | altered (unfit : ¬ EntriesFit entries) (front rest : List Entry) (entry short : Entry)
      (later : List Vqpasswd) (parts : entries = front ++ entry :: rest)
      (truncates : Truncates short entry) (differs : short.read build ≠ entry.read build)
      (some_found : found = front.map (·.read build) ++ short.read build :: later)

theorem Reading.cons {entry : Entry} {entries : List Entry} {found : List Vqpasswd}
    (fits : entry.line.length < maxBuff) (reading : Reading build entries found) :
    Reading build (entry :: entries) (entry.read build :: found) := by
  have fit := entriesFit_cons fits entries
  cases reading with
  | whole fit_rest all =>
      rw [all]
      exact .whole (fit.mpr fit_rest) rfl
  | stopped unfit front rest parts left some_found =>
      apply Reading.stopped (mt fit.mp unfit) (entry :: front) rest _ left
      · rw [some_found, List.map_cons]
      · rw [parts, List.cons_append]
  | altered unfit front rest cut short later parts truncates differs some_found =>
      apply Reading.altered (mt fit.mp unfit) (entry :: front) rest cut short later _ truncates
        differs
      · rw [some_found, List.map_cons, List.cons_append]
      · rw [parts, List.cons_append]

theorem reading_vpasswdText {entries : List Entry} (suit : ∀ entry ∈ entries, entry.Suits build) :
    Reading build entries (vgetentFile build (vpasswdText entries)) := by
  induction entries with
  | nil => exact .whole trivial rfl
  | cons entry entries induction =>
      have own := suit entry List.mem_cons_self
      have later := induction fun other member => suit other (List.mem_cons_of_mem _ member)
      have text : vpasswdText (entry :: entries) = entry.line ++ vpasswdText entries := rfl
      rw [text]
      rcases Nat.lt_or_ge entry.line.length maxBuff with fits | long
      · rw [vgetentFile_short fits]
        exact later.cons fits
      have unfit : entries ≠ [] → ¬ EntriesFit (entry :: entries) := by
        intro more fit
        cases entries with
        | nil => exact more rfl
        | cons next entries => exact absurd fit.1 (Nat.not_lt.mpr long)
      rcases Nat.lt_or_ge entry.needed maxBuff with enough | cut
      · rw [vgetentFile_full long enough]
        cases entries with
        | nil => exact .whole enough rfl
        | cons next entries =>
            exact .stopped (unfit (List.cons_ne_nil _ _)) [entry] (next :: entries) rfl
              (List.cons_ne_nil _ _) rfl
      · have unfit_all : ¬ EntriesFit (entry :: entries) := by
          cases entries with
          | nil => exact Nat.not_lt.mpr cut
          | cons next entries => exact unfit (List.cons_ne_nil _ _)
        rcases vgetentFile_cut own cut (vpasswdText entries) with
          none_read | ⟨short, others, ran, truncates, differs⟩
        · rw [none_read]
          exact .stopped unfit_all [] (entry :: entries) rfl (List.cons_ne_nil _ _) rfl
        · rw [ran]
          exact .altered unfit_all [] entries entry short others rfl truncates differs rfl

/-- A file is read as it is when its lines fit. -/
theorem vgetentFile_iff {entries : List Entry} (suit : ∀ entry ∈ entries, entry.Suits build) :
    vgetentFile build (vpasswdText entries) = entries.map (·.read build) ↔
      EntriesFit entries := by
  cases reading_vpasswdText suit with
  | whole fit all => exact ⟨fun _ => fit, fun _ => all⟩
  | stopped unfit front rest parts left some_found =>
      refine ⟨fun same => ?_, fun fit => absurd fit unfit⟩
      have sizes := congrArg List.length (some_found.symm.trans same)
      have positive := List.length_pos_iff.mpr left
      rw [parts, List.length_map, List.length_map, List.length_append] at sizes
      omega
  | altered unfit front rest entry short later parts truncates differs some_found =>
      refine ⟨fun same => ?_, fun fit => absurd fit unfit⟩
      rw [some_found, parts, List.map_append, List.append_cancel_left_eq, List.map_cons] at same
      exact absurd (List.cons.inj same).1 differs

end Files

end Vpopmail.Vcdb
