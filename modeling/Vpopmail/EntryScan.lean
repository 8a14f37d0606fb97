import Vpopmail.DomainEntries

/-! # The enumeration of `users/assign`

`get_domain_entries` call by call.
-/

namespace Vpopmail

open Text Vpopmail.Stream

/-! ## Single calls -/

/-- The static variables of `get_domain_entries`: what is left of the stream, and
`match_buffer`. -/
structure EntryScan where
  fs : Option (List Char)
  matchBuffer : List Char

/-- The comparison with `match_buffer`, which an empty one passes. -/
def matchesReal (matchBuffer realDomain : List Char) : Bool :=
  matchBuffer = [] || realDomain = matchBuffer

/-- The body of the loop: the entry in `linebuf` if it is returned. -/
def scanLine (matchBuffer linebuf : List Char) : Option DomainEntry :=
  (parseEntry (cstring linebuf)).filter fun entry => matchesReal matchBuffer entry.realDomain

/-- The loop, which leaves the stream behind the entry it returns. -/
def nextEntry (matchBuffer : List Char) :
    (rounds : Nat) → List Char → Option (DomainEntry × List Char)
  | 0, _ => none
  | rounds + 1, stream =>
      match fgets maxBuff stream with
      | none => none
      | some (linebuf, rest) =>
          match scanLine matchBuffer linebuf with
          | some entry => some (entry, rest)
          | none => nextEntry matchBuffer rounds rest

/-- What becomes of the name in `match_buffer`. -/
def matchName (matchReal : List Char) (process : AssignProcess) : List Char × AssignProcess :=
  let looked := vgetAssign process.installation.cdb
    ⟨some (snprintf maxPwDomain matchReal), none, false, false⟩ process.cache
  (looked.1.domain.getD [], { process with cache := looked.2 })

/-- The part of `get_domain_entries` behind the opening of the file. -/
def continueScan (scan : EntryScan) : Option DomainEntry × EntryScan :=
  match scan.fs with
  | none => (none, scan)
  | some stream =>
      match nextEntry scan.matchBuffer stream.length stream with
      | some (entry, rest) => (some entry, { scan with fs := some rest })
      | none => (none, { scan with fs := none })

/-- One call of `get_domain_entries`; `none` is a null pointer. -/
def getDomainEntry (matchReal : Option (List Char)) (process : AssignProcess)
    (scan : EntryScan) : (Option DomainEntry × EntryScan) × AssignProcess :=
  match matchReal with
  | none => (continueScan scan, process)
  | some name =>
      let matched := matchName name process
      (continueScan ⟨process.installation.files.assign, matched.1⟩, matched.2)

/-- The calls one after the other: the first one with a name, the later ones with null
pointers. -/
def repeatedCalls (name : List Char) (process : AssignProcess) (scan : EntryScan) :
    Nat → (Option DomainEntry × EntryScan) × AssignProcess
  | 0 => getDomainEntry (some name) process scan
  | calls + 1 =>
      let before := repeatedCalls name process scan calls
      getDomainEntry none before.2 before.1.2

/-! ## All calls -/

/-- The entries that the calls to come return. -/
def entriesLeft (scan : EntryScan) : List DomainEntry :=
  (fgetsLoop maxBuff (scan.fs.getD [])).filterMap (scanLine scan.matchBuffer)

theorem entriesLeft_eq {matchBuffer stream linebuf rest : List Char}
    (read : fgets maxBuff stream = some (linebuf, rest)) :
    entriesLeft ⟨some stream, matchBuffer⟩ =
      (scanLine matchBuffer linebuf).toList ++ entriesLeft ⟨some rest, matchBuffer⟩ := by
  simp only [entriesLeft, Option.getD_some, fgetsLoop_eq (show 1 < maxBuff by decide) read]
  cases found : scanLine matchBuffer linebuf with
  | none => rw [List.filterMap_cons_none found, Option.toList_none, List.nil_append]
  | some entry => rw [List.filterMap_cons_some found, Option.toList_some, List.singleton_append]

theorem nextEntry_none {matchBuffer stream : List Char} {rounds : Nat}
    (enough : stream.length ≤ rounds) (ended : nextEntry matchBuffer rounds stream = none) :
    entriesLeft ⟨some stream, matchBuffer⟩ = [] := by
  induction rounds generalizing stream with
  | zero =>
      have empty := List.length_eq_zero_iff.mp (Nat.le_zero.mp enough)
      rw [empty]
      rfl
  | succ rounds induction =>
      cases read : fgets maxBuff stream with
      | none =>
          rw [eq_nil_of_fgets_none read]
          rfl
      | some pair =>
          have shorter := length_fgets_rest_lt (by decide) read
          rw [entriesLeft_eq read]
          cases found : scanLine matchBuffer pair.1 with
          | some entry => simp [nextEntry, read, found] at ended
          | none =>
              have later : nextEntry matchBuffer rounds pair.2 = none := by
                simpa [nextEntry, read, found] using ended
              exact induction (by omega) later

theorem nextEntry_some {matchBuffer stream rest : List Char} {entry : DomainEntry} {rounds : Nat}
    (enough : stream.length ≤ rounds)
    (returned : nextEntry matchBuffer rounds stream = some (entry, rest)) :
    entriesLeft ⟨some stream, matchBuffer⟩ = entry :: entriesLeft ⟨some rest, matchBuffer⟩ := by
  induction rounds generalizing stream with
  | zero => cases returned
  | succ rounds induction =>
      cases read : fgets maxBuff stream with
      | none => simp [nextEntry, read] at returned
      | some pair =>
          have shorter := length_fgets_rest_lt (by decide) read
          rw [entriesLeft_eq read]
          cases found : scanLine matchBuffer pair.1 with
          | some first =>
              have same : first = entry ∧ pair.2 = rest := by
                simpa [nextEntry, read, found] using returned
              rw [same.1, same.2]
              rfl
          | none =>
              have later : nextEntry matchBuffer rounds pair.2 = some (entry, rest) := by
                simpa [nextEntry, read, found] using returned
              exact induction (by omega) later

/-- A call takes the first of the entries that are left. -/
theorem continueScan_spec (scan : EntryScan) :
    (continueScan scan).1 = (entriesLeft scan).head? ∧
      entriesLeft (continueScan scan).2 = (entriesLeft scan).tail := by
  rcases scan with ⟨fs, matchBuffer⟩
  cases fs with
  | none => exact ⟨rfl, rfl⟩
  | some stream =>
      rw [continueScan]
      simp only
      cases found : nextEntry matchBuffer stream.length stream with
      | none =>
          rw [nextEntry_none (Nat.le_refl _) found]
          exact ⟨rfl, rfl⟩
      | some pair =>
          rw [nextEntry_some (Nat.le_refl _) found]
          exact ⟨rfl, rfl⟩

theorem getDomainEntries_eq (name : List Char) (process : AssignProcess) :
    (getDomainEntries name process).1 =
      entriesLeft ⟨process.installation.files.assign, (matchName name process).1⟩ := by
  rw [getDomainEntries, List.filter_filterMap]
  rfl

/-- The calls return the entries in order, and null pointers behind them. -/
theorem repeatedCalls_spec (name : List Char) (process : AssignProcess) (scan : EntryScan)
    (calls : Nat) :
    (repeatedCalls name process scan calls).1.1 = (getDomainEntries name process).1[calls]? ∧
      entriesLeft (repeatedCalls name process scan calls).1.2 =
        (getDomainEntries name process).1.drop (calls + 1) := by
  rw [getDomainEntries_eq]
  induction calls with
  | zero =>
      have first := continueScan_spec
        ⟨process.installation.files.assign, (matchName name process).1⟩
      rw [← List.head?_eq_getElem?, List.drop_one]
      exact first
  | succ calls induction =>
      have next := continueScan_spec (repeatedCalls name process scan calls).1.2
      rw [induction.2, List.head?_drop, List.tail_drop] at next
      exact next

end Vpopmail
