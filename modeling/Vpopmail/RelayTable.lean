import Vpopmail.OpenRelay

/-! # Lines of the relay table

What the two programs make of a file whose lines `open_smtp_relay` has printed.
-/

namespace Vpopmail.Relay

open Vpopmail Text Vpopmail.Stream Buffer

/-- An address and a time that a line can hold. -/
structure RelayEntry where
  ipaddr : List Char
  mytime : Nat
  relayable : Relayable ipaddr
  inInt : mytime < 2 ^ 31

namespace RelayEntry

variable (entry : RelayEntry)

/-- The variables between the colon and the tab. -/
def environment : List Char := "allow,RELAYCLIENT=\"\",RBLSMTPD=\"\"".toList

def line : List Char := relayLine entry.ipaddr entry.mytime

theorem toInt_mytime : (BitVec.ofNat 32 entry.mytime).toInt = entry.mytime := by
  have small := entry.inInt
  have value : (BitVec.ofNat 32 entry.mytime).toNat = entry.mytime := by
    rw [BitVec.toNat_ofNat, Nat.mod_eq_of_lt (by omega)]
  rw [BitVec.toInt_eq_toNat_of_lt (by omega), value]

theorem line_eq : entry.line = entry.ipaddr ++ ':' :: (environment ++
    '\t' :: (Decimal.spellInt entry.mytime ++ ['\n'])) := by
  unfold line relayLine environment
  rw [toInt_mytime, List.append_assoc, List.append_assoc, List.cons_append, List.cons_append]

theorem free_stamp {char : Char} (notMinus : char ≠ '-') (notDigit : char.isDigit = false) :
    Free char (Decimal.spellInt entry.mytime) :=
  Decimal.not_mem_spellInt notMinus notDigit _

theorem line_free_nul : Free nul entry.line := by
  rw [line_eq]
  simp only [free_append, free_cons]
  exact ⟨entry.relayable.nulFree, by decide, by decide, by decide,
    entry.free_stamp (by decide) (by decide), by decide, free_nil nul⟩

theorem isLine : IsLine entry.line := by
  refine ⟨entry.ipaddr ++ ':' :: (environment ++
    '\t' :: Decimal.spellInt entry.mytime), ?_, ?_⟩
  · simp only [free_append, free_cons]
    exact ⟨entry.relayable.newlineFree, by decide, by decide, by decide,
      entry.free_stamp (by decide) (by decide)⟩
  · simp [line_eq]

theorem line_short : entry.line.length < maxBuff := by
  have small := entry.inInt
  have stamp : (Decimal.spellInt entry.mytime).length ≤ 11 :=
    Decimal.length_spellInt_le (by omega) (by omega)
  have short := entry.relayable.short
  have between : environment.length = 32 := rfl
  rw [line_eq]
  simp only [List.length_append, List.length_cons, List.length_nil, between, maxBuff]
  omega

theorem lineIp_line : lineIp entry.line = some entry.ipaddr := by
  have plain : ∀ char ∈ entry.ipaddr, colonDelimits char = false := by
    intro char member
    have other : char ≠ ':' := fun equal => entry.relayable.colonFree (equal ▸ member)
    simpa [colonDelimits] using other
  rw [lineIp, cstring_of_free entry.line_free_nul, line_eq]
  cases spelled : entry.ipaddr with
  | nil => exact absurd spelled entry.relayable.nonempty
  | cons head tail =>
      rw [spelled] at plain
      rw [strtok_token_append (plain head (by simp))
        (fun char member => plain char (by simp [member])) rfl]
      rfl

theorem lineAddress_line : lineAddress entry.line = entry.ipaddr := by
  rw [lineAddress, line_eq]
  exact takeWhile_ne_append_cons entry.relayable.colonFree _

theorem lineTime_line : lineTime entry.line = some (entry.mytime : Int) := by
  have small := entry.inInt
  have notTab : ∀ text, Free '\t' text → ∀ char ∈ text, tabDelimits char = false := by
    intro text free char member
    have other : char ≠ '\t' := fun equal => free (equal ▸ member)
    simpa [tabDelimits] using other
  have head : Free '\t' (entry.ipaddr ++ ':' :: environment) := by
    rw [free_append]
    exact ⟨entry.relayable.tabFree, by decide⟩
  have tail : Free '\t' (Decimal.spellInt entry.mytime ++ ['\n']) := by
    rw [free_append]
    exact ⟨entry.free_stamp (by decide) (by decide), by decide⟩
  have second : strtok tabDelimits (Decimal.spellInt entry.mytime ++ ['\n']) =
      some (Decimal.spellInt entry.mytime ++ ['\n'], []) :=
    strtok_token (by simp) (notTab _ tail)
  have first : strtok tabDelimits entry.line =
      some (entry.ipaddr ++ ':' :: environment, Decimal.spellInt entry.mytime ++ ['\n']) := by
    have whole : entry.line = (entry.ipaddr ++ ':' :: environment) ++
        '\t' :: (Decimal.spellInt entry.mytime ++ ['\n']) := by
      simp [line_eq]
    rw [whole]
    cases spelled : entry.ipaddr ++ ':' :: environment with
    | nil => simp at spelled
    | cons char rest =>
        rw [spelled] at head
        have plain := notTab _ head
        exact strtok_token_append (plain char (by simp))
          (fun other member => plain other (by simp [member])) rfl _
  rw [lineTime, cstring_of_free entry.line_free_nul, first]
  simp only [Option.bind_some, second, Option.map_some, Option.some.injEq]
  exact Decimal.atoi_spellInt_append (by omega) (by omega)
    (Decimal.stops_cons (by decide))

end RelayEntry

/-! ## Tables -/

/-- The text of a file with the given lines. -/
def tableText (entries : List RelayEntry) : List Char :=
  (entries.map RelayEntry.line).flatten

theorem fgetsLoop_tableText (entries : List RelayEntry) :
    fgetsLoop maxBuff (tableText entries) = entries.map RelayEntry.line := by
  apply fgetsLoop_lines
  intro line member
  rcases List.mem_map.mp member with ⟨entry, _, rfl⟩
  exact ⟨entry.isLine, entry.line_short⟩

theorem map_lineAddress_lines (entries : List RelayEntry) :
    (entries.map RelayEntry.line).map lineAddress = entries.map RelayEntry.ipaddr := by
  rw [List.map_map]
  apply List.map_congr_left
  intro entry _
  exact entry.lineAddress_line

theorem copyOthers_lines (ipaddr : List Char) (entries : List RelayEntry) :
    ∃ rebuild, copyOthers ipaddr (entries.map RelayEntry.line) =
      .ok (tableText (entries.filter fun entry => entry.ipaddr ≠ ipaddr), rebuild) := by
  induction entries with
  | nil => exact ⟨true, rfl⟩
  | cons entry entries induction =>
      rcases induction with ⟨rebuild, copied⟩
      rw [List.map_cons, copyOthers, entry.lineIp_line, copied,
        cstring_of_free entry.line_free_nul]
      by_cases same : entry.ipaddr = ipaddr
      · exact ⟨false, by simp [same, Except.map]⟩
      · exact ⟨rebuild, by simp [same, Except.map, tableText]⟩

theorem copyYoung_lines (clear mytime : Nat) (entries : List RelayEntry) :
    copyYoung clear mytime (entries.map RelayEntry.line) =
      tableText (entries.filter fun entry => mytime < entry.mytime + clear) := by
  induction entries with
  | nil => rfl
  | cons entry entries induction =>
      rw [copyYoung] at induction ⊢
      have young : ((entry.mytime : Int) + clear > mytime) ↔ mytime < entry.mytime + clear := by
        omega
      rw [List.map_cons, List.filter_cons, List.filter_cons, entry.lineTime_line]
      simp only [decide_eq_true_eq, young]
      split
      · rw [List.flatMap_cons, induction, cstring_of_free entry.line_free_nul]
        rfl
      · exact induction

/-- A table with at most one entry for an address. -/
structure IsTable (text : List Char) (entries : List RelayEntry) : Prop where
  spelled : text = tableText entries
  once : (entries.map RelayEntry.ipaddr).Nodup

/-- `open_smtp_relay` replaces the entry of its address. -/
theorem IsTable.added {text : List Char} {entries : List RelayEntry}
    (table : IsTable text entries) (entry : RelayEntry) :
    ∃ rebuild others, copyOthers entry.ipaddr (fgetsLoop maxBuff text) = .ok (others, rebuild) ∧
      IsTable (others ++ relayLine entry.ipaddr entry.mytime)
        ((entries.filter fun other => other.ipaddr ≠ entry.ipaddr) ++ [entry]) := by
  rcases copyOthers_lines entry.ipaddr entries with ⟨rebuild, copied⟩
  refine ⟨rebuild, _, by rw [table.spelled, fgetsLoop_tableText, copied], ?_, ?_⟩
  · simp [tableText, RelayEntry.line]
  · rw [List.map_append, List.nodup_append]
    refine ⟨?_, by simp, ?_⟩
    · exact table.once.sublist (List.filter_sublist.map _)
    · intro ipaddr member other otherMember
      rcases List.mem_map.mp member with ⟨kept, keptMember, rfl⟩
      rw [List.map_singleton, List.mem_singleton] at otherMember
      rw [otherMember]
      simpa using (List.mem_filter.mp keptMember).2

/-- `clearopensmtp` keeps the young entries. -/
theorem IsTable.cleared {text : List Char} {entries : List RelayEntry}
    (table : IsTable text entries) (clear mytime : Nat) :
    IsTable (copyYoung clear mytime (fgetsLoop maxBuff text))
      (entries.filter fun entry => mytime < entry.mytime + clear) := by
  constructor
  · rw [table.spelled, fgetsLoop_tableText, copyYoung_lines]
  · exact table.once.sublist (List.filter_sublist.map _)

theorem isTable_nil : IsTable [] [] := ⟨rfl, List.nodup_nil⟩

end Vpopmail.Relay
