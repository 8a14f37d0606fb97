import Vpopmail.AssignCache
import Vpopmail.EntryLines
import Vpopmail.EntryScan

/-! # Complete enumerations

When the calls of `get_domain_entries` return the entries of a real domain, each once.
-/

namespace Vpopmail

open Text Vpopmail.Stream

/-! ## Wanted entries -/

/-- The entry in a line if its real domain is the name. -/
def wantedLine (name line : List Char) : Option DomainEntry :=
  (assignEntry (cstring line)).filter fun entry => matchesReal name entry.realDomain

/-- The entries of `users/assign` with a real domain, or all of them. -/
def entriesOf (name : List Char) (assign : Option (List Char)) : List DomainEntry :=
  (wholeLines (assign.getD [])).filterMap (wantedLine name)

/-- When nothing is missed and nothing is made up: `match_buffer` has the name, or none of
the entries tells the two apart; every entry of the name has a period; and the lines that
are taken for entries have the form of one. -/
structure Enumerable (name matchBuffer : List Char) (lines : List (List Char)) : Prop where
  matched : ∀ line ∈ lines, ∀ entry, assignEntry (cstring line) = some entry →
    '.' ∈ entry.domain →
      matchesReal matchBuffer entry.realDomain = matchesReal name entry.realDomain
  dotted : ∀ line ∈ lines, ∀ entry, wantedLine name line = some entry → '.' ∈ entry.domain
  exact : ∀ line ∈ lines, ∀ spelling : Spelling, spelling.Readable →
    spelling.line = cstring line → matchesReal matchBuffer spelling.realDomain = true →
      spelling.Exact

/-- A function that finds all that another one does finds more, unless they agree. -/
theorem length_filterMap_le {α β : Type} {more less : α → Option β} {inputs : List α}
    (found : ∀ input ∈ inputs, ∀ value, less input = some value → more input = some value) :
    (inputs.filterMap less).length ≤ (inputs.filterMap more).length := by
  induction inputs with
  | nil => exact Nat.le_refl _
  | cons input inputs induction =>
      have others := induction fun other member => found other (List.mem_cons_of_mem _ member)
      cases own : less input with
      | some value =>
          have same := found input List.mem_cons_self value own
          rw [List.filterMap_cons_some own, List.filterMap_cons_some same]
          exact Nat.succ_le_succ others
      | none =>
          rw [List.filterMap_cons_none own]
          cases second : more input with
          | none => rwa [List.filterMap_cons_none second]
          | some value =>
              rw [List.filterMap_cons_some second]
              exact Nat.le_succ_of_le others

theorem eq_of_filterMap_eq {α β : Type} {more less : α → Option β} {inputs : List α}
    (found : ∀ input ∈ inputs, ∀ value, less input = some value → more input = some value)
    (same : inputs.filterMap more = inputs.filterMap less) :
    ∀ input ∈ inputs, more input = less input := by
  induction inputs with
  | nil => exact fun input member => by cases member
  | cons first inputs induction =>
      have laterFound := fun other member => found other (List.mem_cons_of_mem first member)
      have head : more first = less first ∧
          inputs.filterMap more = inputs.filterMap less := by
        cases own : less first with
        | some value =>
            have equal := found first List.mem_cons_self value own
            rw [List.filterMap_cons_some own, List.filterMap_cons_some equal] at same
            exact ⟨equal, List.tail_eq_of_cons_eq same⟩
        | none =>
            rw [List.filterMap_cons_none own] at same
            cases second : more first with
            | none =>
                rw [List.filterMap_cons_none second] at same
                exact ⟨rfl, same⟩
            | some value =>
                -- One more is found than there are.
                have counted := length_filterMap_le laterFound
                rw [List.filterMap_cons_some second] at same
                rw [← same, List.length_cons] at counted
                omega
      intro input member
      rcases List.mem_cons.mp member with rfl | later
      · exact head.1
      · exact induction laterFound head.2 input later

section Enumerable

variable {name matchBuffer line : List Char} {lines : List (List Char)}

theorem wantedLine_eq_some {entry : DomainEntry} :
    wantedLine name line = some entry ↔
      assignEntry (cstring line) = some entry ∧ matchesReal name entry.realDomain = true :=
  Option.filter_eq_some_iff

theorem scanLine_eq_some {entry : DomainEntry} :
    scanLine matchBuffer line = some entry ↔
      parseEntry (cstring line) = some entry ∧ matchesReal matchBuffer entry.realDomain = true :=
  Option.filter_eq_some_iff

theorem Enumerable.scanLine_eq (enumerable : Enumerable name matchBuffer lines)
    (member : line ∈ lines) : scanLine matchBuffer line = wantedLine name line := by
  apply Option.ext
  intro entry
  constructor
  · intro scanned
    rcases scanLine_eq_some.mp scanned with ⟨read, matched⟩
    rcases Spelling.exists_of_parseEntry read with ⟨spelling, readable, same, rfl⟩
    have written := Spelling.assignEntry_line readable
    rw [if_pos (enumerable.exact line member spelling readable same matched), same] at written
    apply wantedLine_eq_some.mpr
    refine ⟨written, ?_⟩
    rw [← enumerable.matched line member _ written readable.dotted]
    exact matched
  · intro wanted
    rcases wantedLine_eq_some.mp wanted with ⟨written, matched⟩
    have dotted := enumerable.dotted line member entry wanted
    apply scanLine_eq_some.mpr
    refine ⟨parseEntry_of_assignEntry written dotted, ?_⟩
    rw [enumerable.matched line member _ written dotted]
    exact matched

/-- The entries that are returned are the wanted ones exactly if every line is taken for what
it is. -/
theorem enumerable_iff :
    lines.filterMap (scanLine matchBuffer) = lines.filterMap (wantedLine name) ↔
      Enumerable name matchBuffer lines := by
  constructor
  · intro same
    have listed : ∀ line ∈ lines, ∀ entry, wantedLine name line = some entry →
        '.' ∈ entry.domain ∧ matchesReal matchBuffer entry.realDomain = true := by
      intro line member entry wanted
      have inside : entry ∈ lines.filterMap (wantedLine name) :=
        List.mem_filterMap.mpr ⟨line, member, wanted⟩
      rw [← same] at inside
      rcases List.mem_filterMap.mp inside with ⟨_, _, scanned⟩
      rcases scanLine_eq_some.mp scanned with ⟨read, matched⟩
      exact ⟨dotted_of_parseEntry read, matched⟩
    have found : ∀ line ∈ lines, ∀ entry, wantedLine name line = some entry →
        scanLine matchBuffer line = some entry := by
      intro line member entry wanted
      rcases listed line member entry wanted with ⟨dotted, matched⟩
      have written := (wantedLine_eq_some.mp wanted).1
      exact scanLine_eq_some.mpr ⟨parseEntry_of_assignEntry written dotted, matched⟩
    have agree := eq_of_filterMap_eq found same
    constructor
    · intro line member entry written dotted
      rw [Bool.eq_iff_iff]
      constructor
      · intro matched
        have scanned := scanLine_eq_some.mpr ⟨parseEntry_of_assignEntry written dotted, matched⟩
        rw [agree line member] at scanned
        exact (wantedLine_eq_some.mp scanned).2
      · intro matched
        exact (listed line member entry (wantedLine_eq_some.mpr ⟨written, matched⟩)).2
    · exact fun line member entry wanted => (listed line member entry wanted).1
    · intro line member spelling readable same matched
      have read := Spelling.parseEntry_line readable
      rw [same] at read
      have scanned := scanLine_eq_some.mpr ⟨read, matched⟩
      rw [agree line member] at scanned
      have written := (wantedLine_eq_some.mp scanned).1
      rw [← same, Spelling.assignEntry_line readable] at written
      exact (Option.ite_none_right_eq_some.mp written).1
  · intro enumerable
    exact List.filterMap_congr fun line member => enumerable.scanLine_eq member

end Enumerable

/-- `vget_assign` has kept the record of the domain. -/
def AssignCache.Holds (cache : AssignCache) (domain : List Char) : Prop :=
  cache.inDomainSize ≠ 0 ∧ cache.inDomain = some domain ∧ cache.inDir ≠ none

instance (cache : AssignCache) (domain : List Char) : Decidable (cache.Holds domain) :=
  inferInstanceAs (Decidable (_ ∧ _))

/-- The domain that the entries are compared with: the first 95 characters of the name in lower
case, or the real domain in the record that `users/cdb` has for them. -/
def soughtName (name : List Char) (process : AssignProcess) : List Char :=
  let domain := lowerit (snprintf maxPwDomain name)
  if domain = [] ∨ process.cache.Holds domain then domain
  else ((recordOf process.installation.cdb domain).map Assigned.realDomain).getD domain

theorem length_lowerit_snprintf (name : List Char) :
    (lowerit (snprintf maxPwDomain name)).length < maxPwDomain := by
  have positive : 0 < maxPwDomain := by decide
  rw [lowerit, List.length_map, List.length_take, snprintf, List.length_take]
  omega

theorem readAssign_domain (cdb : Option Cdb) (request : AssignRequest) (domain : List Char)
    (cache : AssignCache) : (readAssign cdb request domain cache).1.domain =
      some (((recordOf cdb domain).map fun record =>
        snprintf (maxPwDomain + 1) record.realDomain).getD domain) := by
  cases cdb with
  | none => rfl
  | some find =>
      simp only [readAssign, recordOf, Option.bind_some]
      cases find (assignKey domain) with
      | none => rfl
      | some data => rfl

/-- What `vget_assign` leaves in `match_buffer`. -/
theorem matchName_eq (name : List Char) (process : AssignProcess) :
    (matchName name process).1 = (soughtName name process).take maxPwDomain := by
  have short := length_lowerit_snprintf name
  have whole : (lowerit (snprintf maxPwDomain name)).take maxPwDomain =
      lowerit (snprintf maxPwDomain name) := List.take_of_length_le (Nat.le_of_lt short)
  rw [matchName, soughtName]
  cases kept : snprintf maxPwDomain name with
  | nil => rfl
  | cons head tail =>
      rw [kept] at whole
      have nonempty : lowerit (head :: tail) ≠ [] := List.cons_ne_nil _ _
      simp only [nonempty, false_or]
      by_cases holds : process.cache.Holds (lowerit (head :: tail))
      · rcases Option.ne_none_iff_exists'.mp holds.2.2 with ⟨dir, found⟩
        rw [if_pos holds, vgetAssign_of_hits process.installation.cdb rfl (List.cons_ne_nil _ _)
          ⟨holds.1, holds.2.1, found⟩, whole]
        rfl
      · have misses : ∀ dir, ¬Hits process.cache (lowerit (head :: tail)) dir := by
          rintro dir ⟨size, cached, found⟩
          exact holds ⟨size, cached, by rw [found]; exact Option.some_ne_none dir⟩
        rw [if_neg holds, vgetAssign_of_misses process.installation.cdb rfl (List.cons_ne_nil _ _)
          misses, readAssign_domain, Option.getD_some]
        cases recordOf process.installation.cdb (lowerit (head :: tail)) with
        | none => exact whole.symm
        | some record => rfl

/-- The calls of `get_domain_entries` with a name keep to `match_buffer` and return the entries
of its real domain, one by one and then null pointers, exactly if what is sought has room there
and is the name (or no entry tells the two apart), all entries of the name have a period in their
names, and no line of it that has the five fields differs from the form of an entry. -/
theorem repeatedCalls_complete_iff (name : List Char) (process : AssignProcess) (scan : EntryScan)
    (fits : ∀ line ∈ wholeLines (process.installation.files.assign.getD []),
      line.length < maxBuff) :
    ((matchName name process).1.length < maxPwDomain ∧
      ∀ calls, (repeatedCalls name process scan calls).1.1 =
        (entriesOf name process.installation.files.assign)[calls]?) ↔
      (soughtName name process).length < maxPwDomain ∧
        Enumerable name (soughtName name process)
          (wholeLines (process.installation.files.assign.getD [])) := by
  have room : (matchName name process).1.length < maxPwDomain ↔
      (soughtName name process).length < maxPwDomain := by
    rw [matchName_eq, List.length_take]
    omega
  rw [room]
  refine and_congr_right fun inside => ?_
  have stays : (matchName name process).1 = soughtName name process := by
    rw [matchName_eq, List.take_of_length_le (Nat.le_of_lt inside)]
  rw [← enumerable_iff]
  have returned : ∀ calls, (repeatedCalls name process scan calls).1.1 =
      ((wholeLines (process.installation.files.assign.getD [])).filterMap
        (scanLine (soughtName name process)))[calls]? := by
    intro calls
    rw [(repeatedCalls_spec name process scan calls).1, getDomainEntries_eq, entriesLeft, stays,
      fgetsLoop_wholeLines (by decide) fits]
  constructor
  · intro complete
    apply List.ext_getElem?
    intro calls
    rw [← returned]
    exact complete calls
  · intro same calls
    rw [returned, same]
    rfl

/-! ## Sample files -/

/-- A process without `users/cdb`. -/
def assignOnly (assign : List Char) : AssignProcess where
  installation := ⟨⟨some assign, none, none, none, none⟩, none⟩
  cache := AssignCache.initial

/-- The entries of two domains and of an alias domain, and lines that are none. -/
def mixedAssign : List Char :=
  ("+a.org-:a.org:89:89:/v/a:-::\n" ++ "=root:alias:1:1:/q:-:root:\n" ++
    "+a.org.au-:a.org.au:89:89:/v/u:-::\n" ++ "+b.org-:a.org:89:89:/v/a:-::\n" ++
    "+c.org:a.org:89:89:/v/a:-::\n" ++ ".\n").toList

theorem repeatedCalls_complete_mixed :
    (fun calls => (repeatedCalls "a.org".toList (assignOnly mixedAssign) ⟨none, []⟩ calls).1.1) =
      fun calls => (entriesOf "a.org".toList (some mixedAssign))[calls]? := by
  funext calls
  exact ((repeatedCalls_complete_iff _ (assignOnly mixedAssign) _ (by decide +kernel)).mpr
    ⟨by decide +kernel, enumerable_iff.mp (by decide +kernel)⟩).2 calls

/-- A name of the full length that `vadddomain` admits. -/
def longestName : List Char := List.replicate 92 'a' ++ ".com".toList

def longestAssign : List Char :=
  assignText [⟨longestName, longestName, ⟨89, 89, "/home/a".toList⟩⟩]

/-- Not all entries of a domain that `vadddomain` admits are returned. -/
theorem repeatedCalls_not_complete :
    ¬ ∀ name, checkDomainName name = .success → lowerit name = name → ∀ process scan,
      (∀ line ∈ wholeLines (process.installation.files.assign.getD []),
        line.length < maxBuff) →
      ∀ calls, (repeatedCalls name process scan calls).1.1 =
        (entriesOf name process.installation.files.assign)[calls]? := by
  intro complete
  have first := complete longestName (by decide +kernel) (by decide +kernel)
    (assignOnly longestAssign) ⟨none, []⟩ (by decide +kernel) 0
  have missed : (repeatedCalls longestName (assignOnly longestAssign) ⟨none, []⟩ 0).1.1 = none := by
    decide +kernel
  have listed : (entriesOf longestName (some longestAssign))[0]? ≠ none := by
    decide +kernel
  rw [missed] at first
  exact listed first.symm

end Vpopmail
