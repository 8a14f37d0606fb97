import Vpopmail.EntryEnumeration
import Vpopmail.Foundation.Signed
import Vpopmail.Vpopmaild.ModUser

/-! # Pages of domains

`list_domains` and `find_domain` walk through the same enumeration and count its
entries. The pages are consecutive pieces of it, and the number that `find_domain`
reports is that of the first page with the domain.
-/

namespace Vpopmail.Vpopmaild

open Vpopmail Text Signed

/-! ## Requests -/

/-- The errors of the commands that enumerate domains. -/
inductive DomainError
  | notAuthorized
  | domainReqd
  | noOpenAssign
  deriving DecidableEq

def DomainError.number : DomainError → Nat
  | notAuthorized => 9
  | domainReqd => 13
  | noOpenAssign => 31

def DomainError.text : DomainError → String
  | notAuthorized => "Not Authorized"
  | domainReqd => "Domain Required"
  | noOpenAssign => "Could not open assign file"

/-- A failed command, which returns -1, with the arguments of `show_error`. -/
structure DomainRefusal where
  major : DomainError
  minor : Nat
  deriving DecidableEq

/-- `if (page < 0) page = 0`. -/
def notNegative (number : Int) : Int := if number < 0 then 0 else number

/-- `page` and `lines_per_page`, from the tokens behind the command. -/
def pageNumbers (request : List Char) : Int × Int :=
  match strtok tokensDelimit request with
  | none => (0, 0)
  | some (page, rest) =>
      match strtok tokensDelimit rest with
      | none => (notNegative (Decimal.atoi page), 0)
      | some (lines, _) => (notNegative (Decimal.atoi page), notNegative (Decimal.atoi lines))

/-- `domain` and `per_page`. -/
def findNumbers (request : List Char) : Option (List Char × Int) :=
  match strtok tokensDelimit request with
  | none => none
  | some (domain, rest) =>
      match strtok tokensDelimit rest with
      | none => some (domain, 0)
      | some (lines, _) => some (domain, Decimal.atoi lines)

/-! ## Commands -/

/-- `entry`, and what `get_domain_entries` keeps. -/
abbrev EntryCursor := Option DomainEntry × EntryScan

/-- The entries that the loop is still to see. -/
def EntryCursor.ahead (cursor : EntryCursor) : List DomainEntry :=
  match cursor.1 with
  | none => []
  | some entry => entry :: entriesLeft cursor.2

/-- The entries that are printed by the loop of `list_domains`. There is no result if
`count` overflows. -/
def listLoop (start stop : Int) :
    (rounds : Nat) → (count : Int) → EntryCursor → Option (List DomainEntry)
  | 0, _, _ => some []
  | _ + 1, _, (none, _) => some []
  | rounds + 1, count, (some entry, scan) =>
      let later := (signed 32 (count + 1)).bind fun count =>
        listLoop start stop rounds count (continueScan scan)
      if 0 < stop then
        if start ≤ count ∧ count < stop then later.map (entry :: ·)
        else if stop ≤ count then some []
        else later
      else later.map (entry :: ·)

/-- `start` and `end`. -/
def pageBounds (page linesPerPage : Int) : Option (Int × Int) :=
  if 0 < page ∧ 0 < linesPerPage then
    (signed 32 ((page - 1) * linesPerPage)).bind fun start =>
      (signed 32 (page * linesPerPage)).map fun stop => (start, stop)
  else some (0, 0)

/-- More rounds than the file has lines. -/
def scanRounds (process : AssignProcess) : Nat :=
  (process.installation.files.assign.getD []).length + 1

/-- `list_domains`: the entries that it prints. -/
def listDomains (session : Session) (request : List Char) (process : AssignProcess)
    (scan : EntryScan) : Option (Except DomainRefusal (List DomainEntry)) :=
  if ¬Has session.authVpw.pwGid saAdmin then some (.error ⟨.notAuthorized, 2301⟩)
  else
    (pageBounds (pageNumbers request).1 (pageNumbers request).2).bind fun (start, stop) =>
      let cursor := (getDomainEntry (some []) process scan).1
      if cursor.1 = none then some (.error ⟨.noOpenAssign, 2302⟩)
      else (listLoop start stop (scanRounds process) 0 cursor).map .ok

/-- The lines of the reply to `list_domains`. -/
def listReply (entries : List DomainEntry) : List (List Char) :=
  "+OK+\r\n".toList ::
    entries.map (fun entry =>
      snprintf maxTmpBuff (entry.realDomain ++ ' ' :: entry.domain ++ "\r\n".toList)) ++
    [".\r\n".toList]

/-- The loop of `find_domain`: `count` at the domain, or nothing if it is missed. -/
def findLoop (domain : List Char) :
    (rounds : Nat) → (count : Int) → EntryCursor → Option (Option Int)
  | 0, _, _ => some none
  | _ + 1, _, (none, _) => some none
  | rounds + 1, count, (some entry, scan) =>
      if domain = entry.domain then some (some count)
      else
        (signed 32 (count + 1)).bind fun count =>
          findLoop domain rounds count (continueScan scan)

/-- `find_domain`: the page that it prints, if it prints one. -/
def findDomain (session : Session) (request : List Char) (process : AssignProcess)
    (scan : EntryScan) : Option (Except DomainRefusal (Option Int)) :=
  if ¬Has session.authVpw.pwGid saAdmin then some (.error ⟨.notAuthorized, 2401⟩)
  else
    match findNumbers request with
    | none => some (.error ⟨.domainReqd, 2402⟩)
    | some (domain, perPage) =>
        let cursor := (getDomainEntry (some []) process scan).1
        if cursor.1 = none then some (.error ⟨.noOpenAssign, 2403⟩)
        else
          (findLoop domain (scanRounds process) 0 cursor).bind fun count =>
            match count with
            | none => some (.ok none)
            | some count =>
                if 0 < perPage then
                  (signed 32 (count.tdiv perPage + 1)).map fun page => .ok (some page)
                else (signed 32 (count + 1)).map fun page => .ok (some page)

/-- The reply to `find_domain`. -/
def findReply (page : Option Int) : List (List Char) :=
  match page with
  | none => ["+OK+\r\n".toList, ".\r\n".toList]
  | some page =>
      ["+OK+\r\n".toList, "page ".toList ++ Decimal.spellInt page ++ "\r\n".toList,
        ".\r\n".toList]

/-! ## The enumeration -/

/-- All entries of `users/assign`. -/
def allEntries (assign : Option (List Char)) : List DomainEntry :=
  entriesLeft ⟨assign, []⟩

theorem ahead_continueScan (scan : EntryScan) :
    EntryCursor.ahead (continueScan scan) = entriesLeft scan := by
  rcases continueScan_spec scan with ⟨first, others⟩
  rw [EntryCursor.ahead]
  cases left : entriesLeft scan with
  | nil =>
      rw [left] at first
      rw [first]
      rfl
  | cons entry entries =>
      rw [left] at first others
      rw [first, others]
      rfl

/-- No cache and no `users/cdb` has an influence on what the empty name matches. -/
theorem ahead_getDomainEntry (process : AssignProcess) (scan : EntryScan) :
    EntryCursor.ahead (getDomainEntry (some []) process scan).1 =
      allEntries process.installation.files.assign :=
  ahead_continueScan _

theorem length_allEntries_le (assign : Option (List Char)) :
    (allEntries assign).length ≤ (assign.getD []).length :=
  (List.length_filterMap_le _ _).trans (Stream.length_fgetsLoop_le _ _)

/-! ## The loops -/

section Loops

variable {rounds : Nat} {cursor : EntryCursor}

/-- The loop prints what is between the bounds. -/
theorem listLoop_eq {start stop count : Nat} (ordered : start ≤ stop) (paged : 0 < stop)
    (fits : stop < 2 ^ 31) (inside : count ≤ stop) (enough : cursor.ahead.length < rounds) :
    listLoop start stop rounds count cursor =
      some ((cursor.ahead.drop (start - count)).take (stop - max start count)) := by
  induction rounds generalizing count cursor with
  | zero => exact absurd enough (Nat.not_lt_zero _)
  | succ rounds induction =>
      rcases cursor with ⟨_ | entry, scan⟩
      · simp [listLoop, EntryCursor.ahead]
      · have positive : (0 : Int) < stop := by omega
        have fewer : (entriesLeft scan).length < rounds := by
          simpa [EntryCursor.ahead] using enough
        rw [listLoop, if_pos positive]
        by_cases behind : stop ≤ count
        · have outside : ¬((start : Int) ≤ count ∧ (count : Int) < stop) := by omega
          have reached : (stop : Int) ≤ count := by omega
          have none : stop - max start count = 0 := by omega
          rw [if_neg outside, if_pos reached, none, List.take_zero]
        · have next : signed 32 ((count : Int) + 1) = some ((count + 1 : Nat) : Int) := by
            apply signed_of_nonneg
            · omega
            · simp only [Nat.reduceSub]
              omega
          have left : (EntryCursor.ahead (continueScan scan)).length < rounds := by
            rwa [ahead_continueScan]
          have later := induction (show count + 1 ≤ stop by omega) left
          rw [ahead_continueScan] at later
          rw [next, Option.bind_some, later]
          by_cases before : count < start
          · have outside : ¬((start : Int) ≤ count ∧ (count : Int) < stop) := by omega
            have early : ¬(stop : Int) ≤ count := by omega
            have skipped : start - count = start - (count + 1) + 1 := by omega
            have same : max start (count + 1) = max start count := by omega
            rw [if_neg outside, if_neg early, skipped, same, EntryCursor.ahead,
              List.drop_succ_cons]
          · have within : (start : Int) ≤ count ∧ (count : Int) < stop := by omega
            have first : start - count = 0 := by omega
            have second : start - (count + 1) = 0 := by omega
            have room : stop - max start count = stop - max start (count + 1) + 1 := by omega
            rw [if_pos within, first, second, room, EntryCursor.ahead, List.drop_zero,
              List.drop_zero, List.take_succ_cons, Option.map_some]

/-- The loop stops at the first entry of the domain. -/
theorem findLoop_eq {domain : List Char} {count : Nat} {before after : List DomainEntry}
    {entry : DomainEntry} (found : cursor.ahead = before ++ entry :: after)
    (same : entry.domain = domain) (others : ∀ other ∈ before, other.domain ≠ domain)
    (fits : count + before.length < 2 ^ 31) (enough : cursor.ahead.length < rounds) :
    findLoop domain rounds count cursor = some (some ((count + before.length : Nat) : Int)) := by
  induction before generalizing rounds count cursor with
  | nil =>
      rcases rounds with _ | rounds
      · exact absurd enough (Nat.not_lt_zero _)
      · rcases cursor with ⟨_ | first, scan⟩
        · cases found
        · have head : first = entry := (List.cons.inj found).1
          rw [findLoop, head, if_pos same.symm, List.length_nil, Nat.add_zero]
  | cons other before induction =>
      rcases rounds with _ | rounds
      · exact absurd enough (Nat.not_lt_zero _)
      · rcases cursor with ⟨_ | first, scan⟩
        · cases found
        · have parts := List.cons.inj found
          have different := others other List.mem_cons_self
          have next : signed 32 ((count : Int) + 1) = some ((count + 1 : Nat) : Int) := by
            apply signed_of_nonneg
            · omega
            · rw [List.length_cons] at fits
              simp only [Nat.reduceSub]
              omega
          have fewer : (entriesLeft scan).length < rounds := by
            simpa [EntryCursor.ahead] using enough
          have left : (EntryCursor.ahead (continueScan scan)).length < rounds := by
            rwa [ahead_continueScan]
          have rest : EntryCursor.ahead (continueScan scan) = before ++ entry :: after := by
            rw [ahead_continueScan]
            exact parts.2
          have room : count + 1 + before.length < 2 ^ 31 := by
            rw [List.length_cons] at fits
            omega
          have later := induction rest
            (fun later member => others later (List.mem_cons_of_mem _ member)) room left
          rw [findLoop, parts.1, if_neg (Ne.symm different), next, Option.bind_some, later,
            List.length_cons, Nat.add_assoc, Nat.add_comm 1]

end Loops

/-! ## Pages -/

/-- A call of `list_domains` by an administrator for a page, at any time at which the file
has these contents. -/
structure ListQuery (assign : Option (List Char)) (page perPage : Int) where
  session : Session
  request : List Char
  process : AssignProcess
  scan : EntryScan
  admin : Has session.authVpw.pwGid saAdmin
  file : process.installation.files.assign = assign
  asks : pageNumbers request = (page, perPage)

/-- A call of `find_domain`. -/
structure FindQuery (assign : Option (List Char)) (domain : List Char) (perPage : Int) where
  session : Session
  request : List Char
  process : AssignProcess
  scan : EntryScan
  admin : Has session.authVpw.pwGid saAdmin
  file : process.installation.files.assign = assign
  asks : findNumbers request = some (domain, perPage)

variable {assign : Option (List Char)}

/-- The entries that a call lists, none if it fails. -/
def ListQuery.listed {page perPage : Int} (query : ListQuery assign page perPage) :
    Option (List DomainEntry) :=
  (listDomains query.session query.request query.process query.scan).map fun result =>
    match result with
    | .error _ => []
    | .ok entries => entries

def FindQuery.reported {domain : List Char} {perPage : Int}
    (query : FindQuery assign domain perPage) : Option (Except DomainRefusal (Option Int)) :=
  findDomain query.session query.request query.process query.scan

/-- A page of some entries, counted from zero. -/
def pageOf (perPage page : Nat) (entries : List DomainEntry) : List DomainEntry :=
  (entries.drop (page * perPage)).take perPage

theorem flatMap_pageOf (perPage pages : Nat) (entries : List DomainEntry) :
    ((List.range pages).flatMap fun page => pageOf perPage page entries) =
      entries.take (pages * perPage) := by
  induction pages with
  | zero => simp
  | succ pages induction =>
      rw [List.range_succ, List.flatMap_append, induction, List.flatMap_singleton, pageOf,
        Nat.succ_mul, List.take_add]

theorem pageBounds_eq {page perPage : Nat} (positive : 0 < perPage)
    (fits : (page + 1) * perPage < 2 ^ 31) :
    pageBounds (page + 1) perPage =
      some (((page * perPage : Nat) : Int), (((page + 1) * perPage : Nat) : Int)) := by
  have asked : (0 : Int) < page + 1 ∧ (0 : Int) < perPage := by omega
  have smaller : page * perPage < 2 ^ 31 :=
    Nat.lt_of_le_of_lt (Nat.mul_le_mul_right _ (Nat.le_succ _)) fits
  have start : ((page : Int) + 1 - 1) * perPage = ((page * perPage : Nat) : Int) := by
    rw [Int.add_sub_cancel, Int.natCast_mul]
  have stop : ((page : Int) + 1) * perPage = (((page + 1) * perPage : Nat) : Int) := by
    rw [Int.natCast_mul, Int.natCast_succ]
  rw [pageBounds, if_pos asked, start, stop, signed_of_nonneg (Int.natCast_nonneg _),
    Option.bind_some, signed_of_nonneg (Int.natCast_nonneg _), Option.map_some]
  · exact_mod_cast fits
  · exact_mod_cast smaller

/-- A page within `int` is a piece of the enumeration. -/
theorem ListQuery.listed_eq {page perPage : Nat} (positive : 0 < perPage)
    (fits : (page + 1) * perPage < 2 ^ 31) (query : ListQuery assign (page + 1) perPage) :
    query.listed = some (pageOf perPage page (allEntries assign)) := by
  have ahead := ahead_getDomainEntry query.process query.scan
  have short := length_allEntries_le assign
  rw [query.file] at ahead
  rw [ListQuery.listed, listDomains, if_neg (not_not_intro query.admin), query.asks]
  simp only [pageBounds_eq positive fits, Option.bind_some]
  by_cases missing : (getDomainEntry (some []) query.process query.scan).1.1 = none
  · have empty : allEntries assign = [] := by
      rw [← ahead, EntryCursor.ahead, missing]
    rw [if_pos missing, Option.map_some, empty, pageOf, List.drop_nil, List.take_nil]
  · have enough : (EntryCursor.ahead (getDomainEntry (some []) query.process query.scan).1).length <
        scanRounds query.process := by
      rw [ahead, scanRounds, query.file]
      omega
    have walked := listLoop_eq (Nat.mul_le_mul_right perPage (Nat.le_succ page))
      (Nat.mul_pos (Nat.succ_pos _) positive) fits (Nat.zero_le _) enough
    have size : (page + 1) * perPage - max (page * perPage) 0 = perPage := by
      rw [Nat.max_eq_left (Nat.zero_le _), Nat.succ_mul, Nat.add_sub_cancel_left]
    rw [size, ahead, Nat.sub_zero] at walked
    rw [if_neg missing, show (0 : Int) = ((0 : Nat) : Int) from rfl, walked, Option.map_some,
      Option.map_some]
    rfl

/-- The number that is reported is that of the first page with the domain. -/
theorem FindQuery.reported_eq {domain : List Char} {perPage : Nat} (positive : 0 < perPage)
    {before after : List DomainEntry} {entry : DomainEntry}
    (found : allEntries assign = before ++ entry :: after) (same : entry.domain = domain)
    (others : ∀ other ∈ before, other.domain ≠ domain)
    (fits : before.length + 1 < 2 ^ 31) (query : FindQuery assign domain perPage) :
    query.reported = some (.ok (some ((before.length / perPage + 1 : Nat) : Int))) := by
  have ahead := ahead_getDomainEntry query.process query.scan
  have short := length_allEntries_le assign
  rw [query.file] at ahead
  have present : (getDomainEntry (some []) query.process query.scan).1.1 ≠ none := by
    intro missing
    have empty : allEntries assign = [] := by
      rw [← ahead, EntryCursor.ahead, missing]
    rw [found] at empty
    simp at empty
  have enough : (EntryCursor.ahead (getDomainEntry (some []) query.process query.scan).1).length <
      scanRounds query.process := by
    rw [ahead, scanRounds, query.file]
    omega
  have walked := findLoop_eq (ahead.trans found) same others
    (show 0 + before.length < 2 ^ 31 by omega) enough
  have asked : (0 : Int) < perPage := by omega
  have quotient : ((before.length : Nat) : Int).tdiv perPage = ((before.length / perPage : Nat) : Int) :=
    (Int.ofNat_tdiv _ _).symm
  rw [FindQuery.reported, findDomain, if_neg (not_not_intro query.admin), query.asks]
  simp only [if_neg present, show (0 : Int) = ((0 : Nat) : Int) from rfl, walked, Option.bind_some,
    Nat.zero_add, quotient]
  have smaller : before.length / perPage + 1 < 2 ^ 31 :=
    Nat.lt_of_le_of_lt (Nat.succ_le_succ (Nat.div_le_self _ _)) fits
  have page : signed 32 (((before.length / perPage : Nat) : Int) + 1) =
      some ((before.length / perPage + 1 : Nat) : Int) :=
    signed_of_nonneg (Int.natCast_nonneg _) (by exact_mod_cast smaller)
  rw [Int.natCast_zero, if_pos asked, page, Option.map_some]

/-- The first entry with a domain that is present. -/
theorem exists_first {domain : List Char} {entries : List DomainEntry}
    (present : ∃ entry ∈ entries, entry.domain = domain) :
    ∃ before entry after, entries = before ++ entry :: after ∧ entry.domain = domain ∧
      ∀ other ∈ before, other.domain ≠ domain := by
  induction entries with
  | nil =>
      rcases present with ⟨entry, member, _⟩
      cases member
  | cons first entries induction =>
      by_cases same : first.domain = domain
      · exact ⟨[], first, entries, rfl, same, fun other member => by cases member⟩
      · rcases present with ⟨entry, member, own⟩
        rcases List.mem_cons.mp member with rfl | later
        · exact absurd own same
        · rcases induction ⟨entry, later, own⟩ with ⟨before, found, after, equal, known, others⟩
          refine ⟨first :: before, found, after, by rw [equal]; rfl, known, ?_⟩
          intro other inside
          rcases List.mem_cons.mp inside with rfl | inside
          · exact same
          · exact others other inside

section FirstPage

variable {before after : List DomainEntry} {entry : DomainEntry} {perPage : Nat}

/-- An entry is on the page of the number of entries before it. -/
theorem mem_pageOf (positive : 0 < perPage) :
    entry ∈ pageOf perPage (before.length / perPage) (before ++ entry :: after) := by
  have start := Nat.div_mul_le_self before.length perPage
  have rest : before.length - before.length / perPage * perPage < perPage := by
    have size := Nat.mod_lt before.length positive
    rw [Nat.mod_eq_sub_div_mul] at size
    exact size
  apply List.mem_of_getElem? (i := before.length - before.length / perPage * perPage)
  rw [pageOf, List.getElem?_take_of_lt rest, List.getElem?_drop, Nat.add_sub_cancel' start,
    List.getElem?_append_right (Nat.le_refl _), Nat.sub_self, List.getElem?_cons_zero]

/-- Earlier pages have only entries before it. -/
theorem mem_before_of_mem_pageOf {page : Nat} (earlier : page < before.length / perPage)
    {other : DomainEntry} (listed : other ∈ pageOf perPage page (before ++ entry :: after)) :
    other ∈ before := by
  have reach : (page + 1) * perPage ≤ before.length :=
    (Nat.mul_le_mul_right _ earlier).trans (Nat.div_mul_le_self _ _)
  rw [Nat.succ_mul] at reach
  rw [pageOf, List.drop_append_of_le_length (by omega), List.take_append_of_le_length] at listed
  · exact List.mem_of_mem_drop (List.mem_of_mem_take listed)
  · rw [List.length_drop]
    omega

end FirstPage

/-- With all products in `int`: each page is a piece of the enumeration of the domains, the
pages together are the whole of it, and the page that `find_domain` reports is the first one
with the domain. -/
theorem domain_pages_consistent (assign : Option (List Char)) {perPage pages : Nat}
    (positive : 0 < perPage) (fits : pages * perPage < 2 ^ 31)
    (whole : (allEntries assign).length ≤ pages * perPage)
    (query : (page : Fin pages) → ListQuery assign (page + 1) perPage) :
    (∀ page : Fin pages, (query page).listed =
      some (((allEntries assign).drop (page * perPage)).take perPage)) ∧
    ((List.finRange pages).flatMap fun page => (query page).listed.getD []) =
      allEntries assign ∧
    ∀ domain, (∃ entry ∈ allEntries assign, entry.domain = domain) →
      ∀ find : FindQuery assign domain perPage, ∃ page : Fin pages,
        find.reported = some (.ok (some ((page + 1 : Nat) : Int))) ∧
        (∃ entry ∈ (query page).listed.getD [], entry.domain = domain) ∧
        ∀ earlier < page, ∀ entry ∈ (query earlier).listed.getD [], entry.domain ≠ domain := by
  have listed : ∀ page : Fin pages, (query page).listed =
      some (pageOf perPage page (allEntries assign)) := by
    intro page
    apply (query page).listed_eq positive
    exact Nat.lt_of_le_of_lt (Nat.mul_le_mul_right _ page.isLt) fits
  refine ⟨listed, ?_, ?_⟩
  · have pieces : ((List.finRange pages).flatMap fun page => (query page).listed.getD []) =
        (List.range pages).flatMap fun page => pageOf perPage page (allEntries assign) := by
      rw [← List.map_coe_finRange_eq_range, List.flatMap_map]
      apply List.flatMap_congr
      intro page _
      rw [listed, Option.getD_some]
    rw [pieces, flatMap_pageOf, List.take_of_length_le whole]
  · intro domain present find
    rcases exists_first present with ⟨before, entry, after, found, own, others⟩
    have shorter : before.length < pages * perPage := by
      rw [found, List.length_append, List.length_cons] at whole
      omega
    have inside : before.length / perPage < pages :=
      Nat.div_lt_of_lt_mul (by rwa [Nat.mul_comm])
    refine ⟨⟨before.length / perPage, inside⟩, ?_, ?_, ?_⟩
    · exact find.reported_eq positive found own others (by omega)
    · refine ⟨entry, ?_, own⟩
      rw [listed, Option.getD_some, found]
      exact mem_pageOf positive
    · intro earlier lower other member
      rw [listed, Option.getD_some, found] at member
      exact others other (mem_before_of_mem_pageOf lower member)

/-! ## Sample pages -/

def administrator : Session where
  authVpw := ⟨"postmaster".toList, [], 0, saAdmin, 0, [], [], [], none⟩
  theUser := "postmaster".toList
  theDomain := "a.org".toList
  theUserDir := []
  theDomainDir := []
  theVpopmailDomains := []

def samplePage (page : Fin 2) : ListQuery (some mixedAssign) (page + 1) (2 : Nat) where
  session := administrator
  request := ' ' :: Decimal.spellNat (page + 1) ++ " 2\r\n".toList
  process := assignOnly mixedAssign
  scan := ⟨none, []⟩
  admin := by decide
  file := rfl
  asks := by
    revert page
    decide

def sampleFind : FindQuery (some mixedAssign) "b.org".toList (2 : Nat) where
  session := administrator
  request := " b.org 2\r\n".toList
  process := assignOnly mixedAssign
  scan := ⟨none, []⟩
  admin := by decide
  file := rfl
  asks := by decide

/-- Three domains, on one full page and another page. -/
theorem domain_pages_consistent_mixed : ∃ page : Fin 2,
    sampleFind.reported = some (.ok (some ((page + 1 : Nat) : Int))) ∧
    ∃ entry ∈ (samplePage page).listed.getD [], entry.domain = "b.org".toList := by
  have present : ∃ entry ∈ allEntries (some mixedAssign), entry.domain = "b.org".toList := by
    decide +kernel
  rcases (domain_pages_consistent (some mixedAssign) (by decide) (by decide) (by decide +kernel)
    samplePage).2.2 _ present sampleFind with ⟨page, reported, listed, _⟩
  exact ⟨page, reported, listed⟩

end Vpopmail.Vpopmaild
