import Vpopmail.AssignLookup
import Vpopmail.ControlRemoval
import Vpopmail.Foundation.Buffer

/-! # The map from addresses to domains

`get_ip_map`, `add_ip_map` and `del_ip_map` of the cdb backend. A line of the file is an
address and a domain. Deleting prints the lines that stay as formats, drops those that are
not entries, and does not look at entries of the address with other domains.
-/

namespace Vpopmail

open Text Vpopmail.Stream Buffer

def ipMapBuff : Nat := 156

/-- `IP_ALIAS_TOKENS`. -/
def ipAliasToken (char : Char) : Bool := char = ' ' || char = '\t' || char = '\n'

/-- The first two tokens of a line. -/
def ipMapEntry (chunk : List Char) : Option (List Char × List Char) :=
  (strtok ipAliasToken (cstring chunk)).bind fun (ip, rest) =>
    (strtok ipAliasToken rest).map fun (domain, _) => (ip, domain)

/-- The loop of `get_ip_map`. -/
def findIp (ip : List Char) (chunks : List (List Char)) : Option (List Char) :=
  chunks.findSome? fun chunk =>
    (ipMapEntry chunk).bind fun (address, domain) => if address = ip then some domain else none

/-- `get_ip_map`: what is written to the domain, or nothing if it fails. -/
def getIpMap (ip : List Char) (domainSize : Nat) (file : Option (List Char)) :
    Option (List Char) :=
  if ip = [] then none
  else file.bind fun text => (findIp ip (fgetsLoop ipMapBuff text)).map (strncpy domainSize)

/-- `fprintf` of a text as the format. A conversion takes an argument that is not there. -/
def printFormat : List Char → Checked (List Char)
  | [] => .ok []
  | char :: rest =>
      if char = '%' then
        match rest with
        | '%' :: rest => (printFormat rest).map ('%' :: ·)
        | _ => .error .outOfBounds
      else (printFormat rest).map (char :: ·)

/-- What `del_ip_map` writes of the lines. -/
def keepLines (ip domain : List Char) : List (List Char) → Checked (List Char)
  | [] => .ok []
  | chunk :: chunks =>
      match ipMapEntry chunk with
      | none => keepLines ip domain chunks
      | some entry =>
          if entry = (ip, domain) then keepLines ip domain chunks
          else
            (printFormat (cstring chunk)).bind fun line =>
              (keepLines ip domain chunks).map (line ++ ·)

/-- Which files can be opened, and whether the temporary one can be renamed. -/
structure IpMapAccess where
  makesCopy : Bool
  renames : Bool
  appends : Bool

/-- `del_ip_map`. -/
def delIpMap (access : IpMapAccess) (ip domain : List Char) (file : Option (List Char)) :
    Checked (Int × Option (List Char)) :=
  if ip = [] || domain = [] then .ok (-1, file)
  else
    match file with
    | none => .ok (-1, file)
    | some text =>
        if !access.makesCopy then .ok (-1, file)
        else
          (keepLines ip domain (fgetsLoop ipMapBuff text)).map fun copy =>
            if access.renames then (0, some copy) else (-1, file)

/-- `add_ip_map`. -/
def addIpMap (access : IpMapAccess) (ip domain : List Char) (file : Option (List Char)) :
    Checked (Int × Option (List Char)) :=
  if ip = [] then .ok (-1, file)
  else if domain = [] then .ok (-10, file)
  else
    (delIpMap access ip domain file).map fun (_, file) =>
      if access.appends then (0, some (file.getD [] ++ ip ++ ' ' :: domain ++ ['\n']))
      else (-1, file)

/-- Everything can be opened. -/
def ipMapOpened : IpMapAccess := ⟨true, true, true⟩

/-! ## The property -/

/-- The lines of the map file with their newlines. -/
def ipMapLines (file : Option (List Char)) : List (List Char) :=
  fgetsLoop ipMapBuff (file.getD [])

/-- After adding an entry the address is found with the domain, and the others as before. -/
def AddsEntry (ip domain : List Char) (file : Option (List Char)) : Prop :=
  ∃ after, addIpMap ipMapOpened ip domain file = .ok (0, after) ∧
    (∀ size, domain.length < size → getIpMap ip size after = some domain) ∧
    ∀ other, other ≠ ip → ∀ size, getIpMap other size after = getIpMap other size file

/-- Deleting an entry takes its lines away and leaves all others as they are. -/
def DeletesEntry (ip domain : List Char) (file : Option (List Char)) : Prop :=
  ∃ after, delIpMap ipMapOpened ip domain file = .ok (if file.isSome then 0 else -1, after) ∧
    after.getD [] =
      ((ipMapLines file).filter fun line => ipMapEntry line ≠ some (ip, domain)).flatten ∧
    ∀ other, other ≠ ip → ∀ size, getIpMap other size after = getIpMap other size file

/-- A line that is printed as it is. -/
structure Printed (line : List Char) : Prop where
  entry : (ipMapEntry line).isSome
  percent : Free '%' line
  plain : Free nul line

/-- The condition: the lines that stay are entries of other addresses, have no percent sign
and end in newlines, and the new line fits the buffer and has two tokens. -/
structure MapsTo (ip domain : List Char) (file : Option (List Char)) : Prop where
  printed : ∀ line ∈ ipMapLines file, ipMapEntry line ≠ some (ip, domain) → Printed line
  ended : ∀ line ∈ ipMapLines file, ipMapEntry line ≠ some (ip, domain) →
    line.getLast? = some '\n'
  single : ∀ line ∈ ipMapLines file, ∀ other, ipMapEntry line = some (ip, other) →
    other = domain
  ipToken : ∀ char ∈ ip, ipAliasToken char = false
  domainToken : ∀ char ∈ domain, ipAliasToken char = false
  short : ip.length + 1 + domain.length < ipMapBuff

/-! ## Printing -/

theorem printFormat_cons {char : Char} (other : char ≠ '%') (rest : List Char) :
    printFormat (char :: rest) = (printFormat rest).map (char :: ·) := by
  rw [printFormat.eq_def]
  exact if_neg other

theorem printFormat_of_free {text : List Char} (free : Free '%' text) :
    printFormat text = .ok text := by
  induction text with
  | nil => rfl
  | cons head tail induction =>
      rw [free_cons] at free
      rw [printFormat_cons (Ne.symm free.1), induction free.2]
      rfl

/-- A text with a percent sign gets shorter. -/
theorem length_printFormat {text printed : List Char} (ran : printFormat text = .ok printed) :
    printed.length ≤ text.length ∧ ('%' ∈ text → printed.length < text.length) := by
  induction text using printFormat.induct generalizing printed with
  | case1 =>
      cases ran
      exact ⟨Nat.le_refl _, fun member => nomatch member⟩
  | case2 rest induction =>
      rw [printFormat, if_pos rfl] at ran
      cases later : printFormat rest with
      | error fault =>
          simp only [later] at ran
          cases ran
      | ok tail =>
          simp only [later] at ran
          cases ran
          have shorter := (induction later).1
          simp only [List.length_cons]
          exact ⟨by omega, fun _ => by omega⟩
  | case3 rest other =>
      rw [printFormat, if_pos rfl] at ran
      · cases ran
      · exact other
  | case4 head rest other induction =>
      rw [printFormat_cons other] at ran
      cases later : printFormat rest with
      | error fault =>
          rw [later] at ran
          cases ran
      | ok tail =>
          rw [later] at ran
          cases ran
          rcases induction later with ⟨shorter, strict⟩
          simp only [List.length_cons, List.mem_cons]
          refine ⟨by omega, ?_⟩
          rintro (same | member)
          · exact absurd same.symm other
          · have less := strict member
            omega

/-! ## Lines that are kept -/

section Kept

variable {ip domain : List Char} {chunks : List (List Char)}

theorem keepLines_eq (printed : ∀ chunk ∈ chunks, ipMapEntry chunk ≠ some (ip, domain) →
    Printed chunk) :
    keepLines ip domain chunks =
      .ok (chunks.filter fun chunk => ipMapEntry chunk ≠ some (ip, domain)).flatten := by
  induction chunks with
  | nil => rfl
  | cons chunk chunks induction =>
      have later := induction fun other member => printed other (List.mem_cons_of_mem _ member)
      rcases Classical.em (ipMapEntry chunk = some (ip, domain)) with same | other
      · rw [keepLines, same, List.filter_cons_of_neg (by simpa using same)]
        simp only [if_true, later]
      · have own := printed chunk List.mem_cons_self other
        rcases Option.isSome_iff_exists.mp own.entry with ⟨entry, found⟩
        have differs : entry ≠ (ip, domain) := fun same => other (same ▸ found)
        rw [keepLines, found, List.filter_cons_of_pos (by simpa using other)]
        simp only [if_neg differs, cstring_of_free own.plain, printFormat_of_free own.percent,
          later]
        rfl

/-- The lines that stay are printed as they are only if nothing is lost of them. -/
theorem length_keepLines {copy : List Char} (nonempty : ∀ chunk ∈ chunks, chunk ≠ [])
    (ran : keepLines ip domain chunks = .ok copy) :
    copy.length ≤
        (chunks.filter fun chunk => ipMapEntry chunk ≠ some (ip, domain)).flatten.length ∧
      (copy.length =
          (chunks.filter fun chunk => ipMapEntry chunk ≠ some (ip, domain)).flatten.length →
        ∀ chunk ∈ chunks, ipMapEntry chunk ≠ some (ip, domain) → Printed chunk) := by
  induction chunks generalizing copy with
  | nil =>
      cases ran
      exact ⟨Nat.le_refl _, fun _ _ member => nomatch member⟩
  | cons chunk chunks induction =>
      have others := fun other member => nonempty other (List.mem_cons_of_mem chunk member)
      have positive := List.length_pos_iff.mpr (nonempty chunk List.mem_cons_self)
      rw [keepLines] at ran
      cases found : ipMapEntry chunk with
      | none =>
          rw [found] at ran
          have shorter := (induction others ran).1
          rw [List.filter_cons_of_pos (by simp [found]), List.flatten_cons, List.length_append]
          exact ⟨by omega, fun same => by omega⟩
      | some entry =>
          rw [found] at ran
          simp only at ran
          rcases Classical.em (entry = (ip, domain)) with same | other
          · rw [if_pos same] at ran
            rcases induction others ran with ⟨shorter, clean⟩
            rw [List.filter_cons_of_neg (by simp [found, same])]
            refine ⟨shorter, fun equal line member differs => ?_⟩
            rcases List.mem_cons.mp member with rfl | inside
            · exact absurd (same ▸ found) differs
            · exact clean equal line inside differs
          · rw [if_neg other] at ran
            cases printed : printFormat (cstring chunk) with
            | error fault =>
                rw [printed] at ran
                cases ran
            | ok line =>
                rw [printed] at ran
                cases later : keepLines ip domain chunks with
                | error fault =>
                    rw [later] at ran
                    cases ran
                | ok rest =>
                    rw [later] at ran
                    cases ran
                    rcases induction others later with ⟨shorter, clean⟩
                    rcases length_printFormat printed with ⟨lineShorter, strict⟩
                    have string : (cstring chunk).length ≤ chunk.length :=
                      (List.takeWhile_prefix _).length_le
                    rw [List.filter_cons_of_pos (by simpa [found] using other),
                      List.flatten_cons, List.length_append]
                    simp only [List.length_append]
                    refine ⟨by omega, fun equal whole member differs => ?_⟩
                    rcases List.mem_cons.mp member with rfl | inside
                    · have plain : Free nul whole := by
                        intro cut
                        have less := length_cstring_lt cut
                        omega
                      refine ⟨by rw [found]; rfl, ?_, plain⟩
                      intro percent
                      rw [cstring_of_free plain] at strict
                      have less := strict percent
                      omega
                    · exact clean (by omega) whole inside differs

end Kept

/-! ## Lookups -/

section Lookups

variable {ip domain : List Char} {chunks : List (List Char)}

theorem findIp_append (address : List Char) (first second : List (List Char)) :
    findIp address (first ++ second) =
      (findIp address first).or (findIp address second) := List.findSome?_append

theorem findIp_cons_entry {address found first : List Char} {chunk : List Char}
    (entry : ipMapEntry chunk = some (first, found)) :
    findIp address (chunk :: chunks) =
      if first = address then some found else findIp address chunks := by
  rw [findIp, List.findSome?_cons, entry, Option.bind_some]
  rcases Classical.em (first = address) with same | other
  · simp only [if_pos same]
  · simp only [if_neg other]
    rfl

theorem findIp_some {address found : List Char} (ran : findIp address chunks = some found) :
    ∃ chunk ∈ chunks, ipMapEntry chunk = some (address, found) := by
  rcases List.exists_of_findSome?_eq_some ran with ⟨chunk, member, matched⟩
  refine ⟨chunk, member, ?_⟩
  rcases Option.bind_eq_some_iff.mp matched with ⟨⟨first, second⟩, entry, equal⟩
  dsimp only at equal
  rcases Classical.em (first = address) with same | other
  · rw [if_pos same] at equal
    cases equal
    rw [entry, same]
  · rw [if_neg other] at equal
    cases equal

theorem findIp_eq_none {address : List Char}
    (none : ∀ chunk ∈ chunks, ∀ found, ipMapEntry chunk ≠ some (address, found)) :
    findIp address chunks = Option.none := by
  cases ran : findIp address chunks with
  | none => rfl
  | some found =>
      rcases findIp_some ran with ⟨chunk, member, entry⟩
      exact absurd entry (none chunk member found)

theorem findIp_isSome {address found chunk : List Char} (member : chunk ∈ chunks)
    (entry : ipMapEntry chunk = some (address, found)) :
    ∃ first, findIp address chunks = some first := by
  cases ran : findIp address chunks with
  | some first => exact ⟨first, rfl⟩
  | none =>
      have missed := List.findSome?_eq_none_iff.mp ran chunk member
      rw [entry] at missed
      simp at missed

/-- Other addresses are found as before without the entries of one pair. -/
theorem findIp_filter {other : List Char} (differs : other ≠ ip) :
    findIp other (chunks.filter fun chunk => ipMapEntry chunk ≠ some (ip, domain)) =
      findIp other chunks := by
  induction chunks with
  | nil => rfl
  | cons chunk chunks induction =>
      rcases Classical.em (ipMapEntry chunk = some (ip, domain)) with same | kept
      · rw [List.filter_cons_of_neg (by simpa using same), induction]
        simp [findIp, same, Ne.symm differs]
      · rw [List.filter_cons_of_pos (by simpa using kept)]
        simp only [findIp, List.findSome?_cons] at induction ⊢
        rw [induction]

theorem getIpMap_eq {address : List Char} (nonempty : address ≠ []) (size : Nat)
    (file : Option (List Char)) :
    getIpMap address size file = (findIp address (ipMapLines file)).map (strncpy size) := by
  rw [getIpMap, if_neg nonempty]
  cases file <;> rfl

theorem getIpMap_nil (size : Nat) (file : Option (List Char)) :
    getIpMap [] size file = none := if_pos rfl

/-- An entry as it is added. -/
theorem ipMapEntry_new (ipPlain : Free nul ip) (domainPlain : Free nul domain)
    (ipNonempty : ip ≠ []) (domainNonempty : domain ≠ [])
    (ipToken : ∀ char ∈ ip, ipAliasToken char = false)
    (domainToken : ∀ char ∈ domain, ipAliasToken char = false) {tail : List Char}
    (ends : Ends tail) : ipMapEntry (ip ++ ' ' :: domain ++ tail) = some (ip, domain) := by
  have plain : Free nul (ip ++ ' ' :: domain ++ tail) := by
    rw [free_append, free_append, free_cons]
    refine ⟨⟨ipPlain, by decide, domainPlain⟩, ?_⟩
    rcases ends with rfl | rfl <;> decide
  have first : ∃ head rest, ip = head :: rest := List.exists_cons_of_ne_nil ipNonempty
  rcases first with ⟨head, rest, rfl⟩
  have read : strtok ipAliasToken (head :: rest ++ ' ' :: (domain ++ tail)) =
      some (head :: rest, domain ++ tail) :=
    strtok_token_append (ipToken head List.mem_cons_self)
      (fun char member => ipToken char (List.mem_cons_of_mem head member)) rfl _
  have last : ∃ behind, strtok ipAliasToken (domain ++ tail) = some (domain, behind) := by
    rcases ends with rfl | rfl
    · rw [List.append_nil]
      exact ⟨[], strtok_token domainNonempty domainToken⟩
    · rcases List.exists_cons_of_ne_nil domainNonempty with ⟨head, rest, rfl⟩
      exact ⟨[], strtok_token_append (domainToken head List.mem_cons_self)
        (fun char member => domainToken char (List.mem_cons_of_mem head member)) rfl _⟩
  rcases last with ⟨behind, second⟩
  have parts : head :: rest ++ ' ' :: domain ++ tail =
      head :: rest ++ ' ' :: (domain ++ tail) := by simp
  rw [ipMapEntry, cstring_of_free plain, parts, read, Option.bind_some]
  simp only [second, Option.map_some]

/-- The first two tokens of a line are parts of it. -/
theorem ipMapEntry_parts {chunk : List Char} (entry : ipMapEntry chunk = some (ip, domain)) :
    (∀ char ∈ ip, ipAliasToken char = false) ∧ (∀ char ∈ domain, ipAliasToken char = false) ∧
      ip.length + 1 + domain.length ≤ chunk.length := by
  rcases Option.bind_eq_some_iff.mp entry with ⟨⟨first, rest⟩, read, second⟩
  dsimp only at second
  rcases Option.map_eq_some_iff.mp second with ⟨⟨token, behind⟩, next, equal⟩
  cases equal
  have parts := length_strtok read
  have later := length_strtok next
  have string : (cstring chunk).length ≤ chunk.length := (List.takeWhile_prefix _).length_le
  refine ⟨fun char member => (mem_of_mem_strtok read char member).2,
    fun char member => (mem_of_mem_strtok next char member).2, ?_⟩
  have full : rest ≠ [] := by
    rintro rfl
    cases next
  have whole := parts.2.1.resolve_left full
  dsimp only
  omega

end Lookups

/-! ## Adding and deleting -/

section Laws

variable {ip domain : List Char} {file : Option (List Char)}

/-- The lines that stay. -/
def keptLines (ip domain : List Char) (file : Option (List Char)) : List (List Char) :=
  (ipMapLines file).filter fun line => ipMapEntry line ≠ some (ip, domain)

theorem delIpMap_eq (nonempty : ip ≠ []) (domainNonempty : domain ≠ [])
    (printed : ∀ line ∈ ipMapLines file, ipMapEntry line ≠ some (ip, domain) → Printed line) :
    ∃ after, delIpMap ipMapOpened ip domain file = .ok (if file.isSome then 0 else -1, after) ∧
      after.getD [] = (keptLines ip domain file).flatten ∧ after.isSome = file.isSome := by
  have names : (ip = [] || domain = []) = false := by simp [nonempty, domainNonempty]
  cases file with
  | none =>
      refine ⟨none, ?_, rfl, rfl⟩
      simp [delIpMap, names]
  | some text =>
      refine ⟨some (keptLines ip domain (some text)).flatten, ?_, rfl, rfl⟩
      have kept := keepLines_eq printed
      rw [ipMapLines, Option.getD_some] at kept
      simp only [delIpMap, names, Bool.false_eq_true, if_false, ipMapOpened, Bool.not_true, kept]
      rfl

theorem isLine_of_kept (mapsTo : MapsTo ip domain file) :
    ∀ line ∈ keptLines ip domain file, IsLine line ∧ line.length < ipMapBuff := by
  intro line member
  rcases List.mem_filter.mp member with ⟨inside, other⟩
  rcases chunk_of_mem_fgetsLoop (by decide) inside with ⟨fits, body, tail, free, ends, rfl⟩
  have last := mapsTo.ended _ inside (by simpa using other)
  refine ⟨?_, fits⟩
  rcases ends with rfl | rfl
  · rw [List.append_nil] at last
    exact absurd (List.mem_of_getLast? last) free
  · exact isLine_append_newline free

theorem getIpMap_filtered {after : Option (List Char)} (mapsTo : MapsTo ip domain file)
    (lines : after.getD [] = (keptLines ip domain file).flatten) {other : List Char}
    (differs : other ≠ ip) (size : Nat) :
    getIpMap other size after = getIpMap other size file := by
  rcases Classical.em (other = []) with rfl | nonempty
  · rw [getIpMap_nil, getIpMap_nil]
  · rw [getIpMap_eq nonempty, getIpMap_eq nonempty, ipMapLines, lines,
      fgetsLoop_lines (isLine_of_kept mapsTo), keptLines, findIp_filter differs]

/-- The lines of an entry that is added. -/
theorem findIp_new (plain : Free nul ip) (domainPlain : Free nul domain) (nonempty : ip ≠ [])
    (domainNonempty : domain ≠ []) (mapsTo : MapsTo ip domain file) (address : List Char) :
    findIp address (fgetsLoop ipMapBuff (ip ++ ' ' :: domain ++ ['\n'])) =
      if ip = address then some domain else none := by
  have newline : Free '\n' (ip ++ ' ' :: domain) := by
    rw [free_append, free_cons]
    refine ⟨fun member => ?_, by decide, fun member => ?_⟩
    · exact absurd (mapsTo.ipToken _ member) (by decide)
    · exact absurd (mapsTo.domainToken _ member) (by decide)
  have entry : ∀ {tail}, Ends tail → ipMapEntry (ip ++ ' ' :: domain ++ tail) =
      some (ip, domain) := ipMapEntry_new plain domainPlain nonempty domainNonempty
        mapsTo.ipToken mapsTo.domainToken
  have size : (ip ++ ' ' :: domain).length = ip.length + 1 + domain.length := by
    rw [List.length_append, List.length_cons]
    omega
  have short := mapsTo.short
  rcases Nat.lt_or_ge (ip ++ ' ' :: domain).length (ipMapBuff - 1) with fits | long
  · rw [fgetsLoop_short (by decide) newline fits (.inr rfl) (by simp)]
    exact findIp_cons_entry (entry (.inr rfl))
  · -- the newline is read on its own
    have full : (ip ++ ' ' :: domain).length = ipMapBuff - 1 := by omega
    have whole : (ip ++ ' ' :: domain).take (ipMapBuff - 1) = ip ++ ' ' :: domain :=
      List.take_of_length_le (by omega)
    have done : (ip ++ ' ' :: domain).drop (ipMapBuff - 1) = [] :=
      List.drop_of_length_le (by omega)
    have rest : fgetsLoop ipMapBuff ['\n'] = [['\n']] := by decide
    have none : findIp address [['\n']] = Option.none := by
      apply findIp_eq_none
      intro chunk member found
      rw [List.mem_singleton.mp member]
      simp [show ipMapEntry ['\n'] = Option.none by decide]
    have first := entry (.inl rfl)
    rw [List.append_nil] at first
    rw [fgetsLoop_long (by decide) newline long, whole, done, List.nil_append, rest,
      findIp_cons_entry first, none]

theorem addIpMap_eq (nonempty : ip ≠ []) (domainNonempty : domain ≠ [])
    (printed : ∀ line ∈ ipMapLines file, ipMapEntry line ≠ some (ip, domain) → Printed line) :
    ∃ after, addIpMap ipMapOpened ip domain file = .ok (0, some after) ∧
      after = (keptLines ip domain file).flatten ++ (ip ++ ' ' :: domain ++ ['\n']) := by
  rcases delIpMap_eq nonempty domainNonempty printed with ⟨after, deleted, kept, -⟩
  refine ⟨_, ?_, rfl⟩
  rw [addIpMap, if_neg nonempty, if_neg domainNonempty, deleted, Except.map]
  simp only [ipMapOpened, if_true, kept, List.append_assoc]

theorem addsEntry_of_mapsTo (plain : Free nul ip) (domainPlain : Free nul domain)
    (nonempty : ip ≠ []) (domainNonempty : domain ≠ []) (mapsTo : MapsTo ip domain file) :
    AddsEntry ip domain file := by
  rcases addIpMap_eq nonempty domainNonempty mapsTo.printed with ⟨after, ran, rfl⟩
  have lines : ∀ address, findIp address (ipMapLines (some ((keptLines ip domain file).flatten ++
      (ip ++ ' ' :: domain ++ ['\n'])))) =
        (findIp address (keptLines ip domain file)).or
          (if ip = address then some domain else none) := by
    intro address
    rw [ipMapLines, Option.getD_some,
      fgetsLoop_lines_append (by decide) (isLine_of_kept mapsTo), findIp_append,
      findIp_new plain domainPlain nonempty domainNonempty mapsTo]
  refine ⟨_, ran, ?_, ?_⟩
  · intro size room
    have none : findIp ip (keptLines ip domain file) = Option.none := by
      apply findIp_eq_none
      intro line member found entry
      rcases List.mem_filter.mp member with ⟨inside, other⟩
      have same := mapsTo.single line inside found entry
      rw [same] at entry
      simp [entry] at other
    rw [getIpMap_eq nonempty, lines, none, if_pos rfl, Option.none_or, Option.map_some, strncpy,
      List.take_of_length_le (Nat.le_of_lt room)]
  · intro other differs size
    rcases Classical.em (other = []) with rfl | full
    · rw [getIpMap_nil, getIpMap_nil]
    · rw [getIpMap_eq full, getIpMap_eq full, lines, if_neg (Ne.symm differs), Option.or_none,
        keptLines, findIp_filter differs]

theorem deletesEntry_of_mapsTo (nonempty : ip ≠ []) (domainNonempty : domain ≠ [])
    (mapsTo : MapsTo ip domain file) : DeletesEntry ip domain file := by
  rcases delIpMap_eq nonempty domainNonempty mapsTo.printed with ⟨after, ran, kept, -⟩
  exact ⟨after, ran, kept, fun other differs size => getIpMap_filtered mapsTo kept differs size⟩

/-! ## The condition is necessary -/

theorem printed_of_deletesEntry (nonempty : ip ≠ []) (domainNonempty : domain ≠ [])
    (deletes : DeletesEntry ip domain file) :
    ∀ line ∈ ipMapLines file, ipMapEntry line ≠ some (ip, domain) → Printed line := by
  have names : (ip = [] || domain = []) = false := by simp [nonempty, domainNonempty]
  rcases deletes with ⟨after, ran, kept, -⟩
  cases file with
  | none => exact fun line member => nomatch member
  | some text =>
      cases copied : keepLines ip domain (fgetsLoop ipMapBuff text) with
      | error fault =>
          simp only [delIpMap, names, Bool.false_eq_true, if_false, ipMapOpened, Bool.not_true,
            copied] at ran
          cases ran
      | ok copy =>
          simp only [delIpMap, names, Bool.false_eq_true, if_false, ipMapOpened, Bool.not_true,
            copied] at ran
          cases ran
          exact (length_keepLines (fun chunk member => ne_nil_of_mem_fgetsLoop (by decide) member)
            copied).2 (congrArg List.length kept)

theorem mapsTo_of_laws (nonempty : ip ≠ []) (domainNonempty : domain ≠ [])
    (ended : ∀ line ∈ ipMapLines file, line.getLast? = some '\n')
    (adds : AddsEntry ip domain file) (deletes : DeletesEntry ip domain file) :
    MapsTo ip domain file := by
  have printed := printed_of_deletesEntry nonempty domainNonempty deletes
  have lined : ∀ line ∈ keptLines ip domain file, IsLine line ∧ line.length < ipMapBuff := by
    intro line member
    have inside := List.mem_of_mem_filter member
    rcases chunk_of_mem_fgetsLoop (by decide) inside with ⟨fits, body, tail, free, ends, rfl⟩
    have last := ended _ inside
    refine ⟨?_, fits⟩
    rcases ends with rfl | rfl
    · rw [List.append_nil] at last
      exact absurd (List.mem_of_getLast? last) free
    · exact isLine_append_newline free
  rcases addIpMap_eq nonempty domainNonempty printed with ⟨text, ran, equal⟩
  rcases adds with ⟨after, added, found, -⟩
  rw [ran] at added
  cases added
  -- what is found is the domain itself, in a buffer of any size
  have first : findIp ip (keptLines ip domain file ++
      fgetsLoop ipMapBuff (ip ++ ' ' :: domain ++ ['\n'])) = some domain := by
    have read := found (domain.length + 1) (Nat.lt_succ_self _)
    rw [getIpMap_eq nonempty, ipMapLines, Option.getD_some, equal,
      fgetsLoop_lines_append (by decide) lined] at read
    rcases Option.map_eq_some_iff.mp read with ⟨whole, match_, taken⟩
    have size := congrArg List.length taken
    rw [strncpy, List.length_take] at size
    rw [strncpy, List.take_of_length_le (by omega)] at taken
    rw [match_, taken]
  rcases findIp_some first with ⟨chunk, member, entry⟩
  rcases ipMapEntry_parts entry with ⟨ipToken, domainToken, parts⟩
  have short : ip.length + 1 + domain.length < ipMapBuff := by
    have fits : chunk.length < ipMapBuff := by
      rcases List.mem_append.mp member with inside | new
      · exact (lined chunk inside).2
      · exact (chunk_of_mem_fgetsLoop (by decide) new).1
    omega
  refine ⟨printed, fun line inside _ => ended line inside, ?_, ipToken, domainToken, short⟩
  intro line inside other own
  by_contra differs
  have kept : line ∈ keptLines ip domain file := by
    refine List.mem_filter.mpr ⟨inside, ?_⟩
    rw [own]
    simpa using differs
  rcases findIp_isSome kept own with ⟨earlier, matched⟩
  rw [findIp_append, matched, Option.some_or, Option.some.injEq] at first
  rcases findIp_some matched with ⟨known, knownMember, knownEntry⟩
  rw [first] at knownEntry
  simpa [knownEntry] using (List.mem_filter.mp knownMember).2

end Laws

/-- The map file behaves as a map for an address and a domain when the lines that stay are
printed as they are and no other line is for the address; of a file that ends in a newline
this is also necessary. -/
theorem ipMap_iff {ip domain : List Char} (file : Option (List Char)) (plain : Free nul ip)
    (domainPlain : Free nul domain) (nonempty : ip ≠ []) (domainNonempty : domain ≠ []) :
    (MapsTo ip domain file → AddsEntry ip domain file ∧ DeletesEntry ip domain file) ∧
      ((∀ line ∈ ipMapLines file, line.getLast? = some '\n') →
        (AddsEntry ip domain file ∧ DeletesEntry ip domain file ↔ MapsTo ip domain file)) := by
  have enough : MapsTo ip domain file → AddsEntry ip domain file ∧ DeletesEntry ip domain file :=
    fun mapsTo => ⟨addsEntry_of_mapsTo plain domainPlain nonempty domainNonempty mapsTo,
      deletesEntry_of_mapsTo nonempty domainNonempty mapsTo⟩
  refine ⟨enough, fun ended => ⟨fun laws => ?_, enough⟩⟩
  exact mapsTo_of_laws nonempty domainNonempty ended laws.1 laws.2

/-! ## Another domain -/

/-- The address `1` has the domain `a`. -/
def oneMapped : Option (List Char) := some ['1', ' ', 'a', '\n']

theorem ipMap_iff_one :
    (MapsTo ['1'] ['b'] oneMapped →
        AddsEntry ['1'] ['b'] oneMapped ∧ DeletesEntry ['1'] ['b'] oneMapped) ∧
      ((∀ line ∈ ipMapLines oneMapped, line.getLast? = some '\n') →
        (AddsEntry ['1'] ['b'] oneMapped ∧ DeletesEntry ['1'] ['b'] oneMapped ↔
          MapsTo ['1'] ['b'] oneMapped)) :=
  ipMap_iff oneMapped (by decide) (by decide) (by decide) (by decide)

/-- The old domain of the address is still found. -/
theorem not_ipMap :
    ¬ ∀ (ip domain : List Char) (file : Option (List Char)),
      Free nul ip → Free nul domain → ip ≠ [] → domain ≠ [] →
      (∀ line ∈ linesOf file, line.length + 1 < ipMapBuff) →
      AddsEntry ip domain file ∧ DeletesEntry ip domain file := by
  intro laws
  rcases (laws ['1'] ['b'] oneMapped (by decide) (by decide) (by decide) (by decide)
    (by decide)).1 with
    ⟨after, added, found, -⟩
  have ran : addIpMap ipMapOpened ['1'] ['b'] oneMapped =
      .ok (0, some ['1', ' ', 'a', '\n', '1', ' ', 'b', '\n']) := by rfl
  rw [ran] at added
  cases added
  exact absurd (found 2 (by decide)) (by decide)

end Vpopmail
