import Vpopmail.Group

/-! # The data file of a group

What `group_write` prints `group_load` reads back, also when the loop over the members
stops early: it then finds fewer lines than the count says.
-/

namespace Vpopmail.Groups

open Vpopmail Text Vpopmail.Stream

/-! ## Lines -/

/-- A line that the reader gets in one piece. -/
structure Storable (line : List Char) : Prop where
  newline : Free '\n' line
  carriage : Free '\r' line
  ended : Free nul line
  fits : line.length + 1 < bufferSize

theorem readLine_line {line : List Char} (newline : Free '\n' line) (ended : Free nul line)
    (fits : line.length + 1 < bufferSize) (b rest : List Char) :
    readLine b (line ++ '\n' :: rest) = (line ++ ['\n'], rest) := by
  have read : fgets bufferSize (line ++ ['\n'] ++ rest) = some (line ++ ['\n'], rest) := by
    apply fgets_line (isLine_append_newline newline)
    rw [List.length_append, List.length_singleton]
    exact fits
  rw [List.append_assoc, List.singleton_append] at read
  have whole : cstring (line ++ ['\n']) = line ++ ['\n'] := by
    apply cstring_of_free
    rw [free_append, free_cons]
    exact ⟨ended, by decide, free_nil nul⟩
  simp only [readLine, read, whole]

theorem upToLineEnd_line {line : List Char} (storable : Storable line) :
    upToLineEnd (cstring (line ++ ['\n'])) = line := by
  have whole : cstring (line ++ ['\n']) = line ++ ['\n'] := by
    apply cstring_of_free
    rw [free_append, free_cons]
    exact ⟨storable.ended, by decide, free_nil nul⟩
  have kept : ∀ char ∈ line, (!lineEnd char) = true := by
    intro char member
    have notCarriage : char ≠ '\r' := fun same => storable.carriage (same ▸ member)
    have notNewline : char ≠ '\n' := fun same => storable.newline (same ▸ member)
    simp [lineEnd, notCarriage, notNewline]
  rw [whole, upToLineEnd, List.takeWhile_append_of_pos kept]
  simp [lineEnd]

theorem wholeReads_lines {lines : List (List Char)}
    (storable : ∀ line ∈ lines, Storable line) :
    wholeReads (lines.map (· ++ ['\n'])).flatten = lines.map (· ++ ['\n']) := by
  have fit : ∀ line ∈ lines.map (· ++ ['\n']), IsLine line ∧ line.length < bufferSize := by
    intro line member
    rcases List.mem_map.mp member with ⟨body, inside, same⟩
    rw [← same, List.length_append, List.length_singleton]
    exact ⟨isLine_append_newline (storable body inside).newline, (storable body inside).fits⟩
  rw [wholeReads, fgetsLoop_lines fit, List.filter_eq_self]
  intro line member
  rcases List.mem_map.mp member with ⟨body, _, same⟩
  rw [← same, reachesEof, List.getLast?_concat]
  rfl

theorem map_upToLineEnd {lines : List (List Char)}
    (storable : ∀ line ∈ lines, Storable line) :
    (lines.map (· ++ ['\n'])).map (fun chunk => upToLineEnd (cstring chunk)) = lines := by
  rw [List.map_map]
  calc
    _ = lines.map id := by
      apply List.map_congr_left
      intro line member
      exact upToLineEnd_line (storable line member)
    _ = lines := List.map_id lines

/-! ## Settings -/

/-- The second line of a data file. -/
def settings (count : Int) (maxMembers quota : BitVec 32) : List Char :=
  Decimal.spellInt count ++ ' ' :: Decimal.spellInt maxMembers.toInt ++
    ' ' :: Decimal.spellInt quota.toInt

theorem free_settings {char : Char} (other : char ≠ ' ') (notMinus : char ≠ '-')
    (notDigit : char.isDigit = false) (count : Int) (maxMembers quota : BitVec 32) :
    Free char (settings count maxMembers quota) := by
  have spelled := Decimal.not_mem_spellInt notMinus notDigit
  rw [settings, free_append, free_append, free_cons, free_cons]
  exact ⟨⟨spelled count, other, spelled _⟩, other, spelled _⟩

theorem length_settings {count : Int} (positive : 0 ≤ count) (small : count < intMax)
    (maxMembers quota : BitVec 32) :
    (settings count maxMembers quota).length + 1 < bufferSize := by
  unfold intMax at small
  have first := Decimal.length_spellInt_le (show -2 ^ 31 ≤ count by omega)
    (show count < 2 ^ 31 by omega)
  have second := Decimal.length_spellInt_le (BitVec.le_toInt maxMembers) BitVec.toInt_lt
  have third := Decimal.length_spellInt_le (BitVec.le_toInt quota) BitVec.toInt_lt
  simp only [settings, List.length_append, List.length_cons, bufferSize]
  omega

theorem cut_space (value : Int) (rest : List Char) :
    cut ' ' (Decimal.spellInt value ++ ' ' :: rest) = (Decimal.spellInt value, some rest) :=
  cut_append_cons (Decimal.not_mem_spellInt (by decide) (by decide) value) rest

/-! ## The whole file -/

/-- The reader believes the lines, not the count. -/
theorem readData_dataText {lines : List (List Char)} {count : Int}
    (storable : ∀ line ∈ lines, Storable line) (counted : lines.length ≤ count)
    (small : count < intMax) (owner datafile : List Char) (maxMembers quota : BitVec 32) :
    readData owner datafile (dataText count maxMembers quota lines) =
      .ok (some ⟨owner, lines, datafile, maxMembers, quota⟩) := by
  have positive : 0 ≤ count := by omega
  have text : dataText count maxMembers quota lines =
      groupWarning ++ '\n' :: (settings count maxMembers quota ++
        '\n' :: (lines.map (· ++ ['\n'])).flatten) := by
    simp [dataText, settings]
  have warning := readLine_line (show Free '\n' groupWarning by decide) (by decide) (by decide)
    datafile (settings count maxMembers quota ++ '\n' :: (lines.map (· ++ ['\n'])).flatten)
  have second := readLine_line
    (free_settings (by decide) (by decide) (by decide) count maxMembers quota)
    (free_settings (by decide) (by decide) (by decide) count maxMembers quota)
    (length_settings positive small maxMembers quota) (groupWarning ++ ['\n'])
    (lines.map (· ++ ['\n'])).flatten
  have ended : (settings count maxMembers quota ++ ['\n']).any lineEnd = true := by
    simp [lineEnd]
  have parts : settings count maxMembers quota ++ ['\n'] = Decimal.spellInt count ++
      ' ' :: (Decimal.spellInt maxMembers.toInt ++ ' ' ::
        (Decimal.spellInt quota.toInt ++ ['\n'])) := by
    simp [settings]
  have first : Decimal.atoi (Decimal.spellInt count) = count := by
    unfold intMax at small
    exact Decimal.atoi_spellInt (by omega) (by omega)
  have last : BitVec.ofInt 32 (Decimal.atoi (Decimal.spellInt quota.toInt ++ ['\n'])) = quota :=
    Decimal.ofInt_atoi_spellInt_toInt_append quota (Decimal.stops_cons rfl)
  have room : ¬count = -1 := by omega
  have accepted : ¬(count < -1 ∨ count = intMax) := by omega
  have all : (lines.map (· ++ ['\n'])).length ≤ count.toNat := by
    rw [List.length_map]
    omega
  rw [readData, readSettings, text, warning]
  simp only
  rw [second]
  simp only [ended, Bool.not_true, Bool.false_eq_true, if_false]
  rw [parts, cut_space]
  simp only
  rw [cut_space]
  simp only [first, last, if_neg room, if_neg accepted, Decimal.ofInt_atoi_spellInt_toInt,
    wholeReads_lines storable]
  rw [List.take_of_length_le all, List.drop_eq_nil_of_le all, map_upToLineEnd storable]
  rfl

end Vpopmail.Groups
