import Vpopmail.IpMap
import Vpopmail.Vpgsql.Truthful

/-! # Two maps from addresses to domains

The file of the cdb backend and the table of the PostgreSQL backend under the same calls.
Both hold the pairs in the order in which they were added. The first pair of an address
answers in the one and the last pair in the other, which also writes no terminator.
-/

namespace Vpopmail

open Text Vpopmail.Stream Buffer Database

namespace Vpgsql

/-- The rows of `select domain from ip_alias_map`, in the order of the table. -/
def selectDomains (ip : List Char) (tables : Tables) : Option (List (List Char)) :=
  tables.ipAliasMap.map fun table =>
    (table.rows.filter fun row => row.ipAddr = ip).map IpAliasRow.domain

/-- `get_ip_map`, which copies the characters of the last row and does not use the size. -/
def getIpMap (accepted : Bool) (opened : Int) (ip cells : List Char)
    (connection : Connection Tables) : Checked (Int × List Char × Connection Tables) :=
  if ip = [] then .ok (-1, cells, connection)
  else if opened ≠ 0 then .ok (-3, cells, connection)
  else
    let selected := query accepted (selectDomains ip) connection
    match selected.1 with
    | none => .ok (-1, cells, selected.2)
    | some domains =>
        match domains.getLast? with
        | none =>
            match cells with
            | [] => .error .outOfBounds
            | _ :: rest => .ok (-1, nul :: rest, selected.2)
        | some domain =>
            if domain.length ≤ cells.length then
              .ok (0, domain ++ cells.drop domain.length, selected.2)
            else .error .outOfBounds

end Vpgsql

/-- `get_ip_map` of the cdb backend with the cells of the caller. -/
def getIpMapCells (ip cells : List Char) (file : Option (List Char)) : Int × List Char :=
  match getIpMap ip cells.length file with
  | none => (-1, cells)
  | some written => (0, strncpyCells cells.length written)

/-! ## Calls -/

inductive IpMapCall
  | add (ip domain : List Char)
  | del (ip domain : List Char)
  | get (ip cells : List Char)
  deriving DecidableEq

namespace IpMapCall

/-- A call of the cdb backend, where everything can be opened. -/
def cdb (file : Option (List Char)) :
    IpMapCall → Checked (Int × List Char × Option (List Char))
  | add ip domain =>
      (addIpMap ipMapOpened ip domain file).map fun (code, after) => (code, [], after)
  | del ip domain =>
      (delIpMap ipMapOpened ip domain file).map fun (code, after) => (code, [], after)
  | get ip cells =>
      .ok ((getIpMapCells ip cells file).1, (getIpMapCells ip cells file).2, file)

/-- A call of the PostgreSQL backend, where all statements are accepted. -/
def pgsql (connection : Connection Vpgsql.Tables) :
    IpMapCall → Checked (Int × List Char × Connection Vpgsql.Tables)
  | add ip domain =>
      let added := Vpgsql.addIpMap (fun _ => true) 0 ip domain connection
      .ok (added.1, [], added.2)
  | del ip domain =>
      let deleted := Vpgsql.delIpMap (fun _ => true) 0 ip domain connection
      .ok (deleted.1, [], deleted.2)
  | get ip cells => Vpgsql.getIpMap true 0 ip cells connection

/-- Both calls succeed or both fail, and a lookup that succeeds gives the same string. -/
def SameAnswer (call : IpMapCall) (cdb pgsql : Int × List Char) : Prop :=
  (cdb.1 = 0 ↔ pgsql.1 = 0) ∧
    match call with
    | get _ _ =>
        cdb.1 = 0 → ∃ text, stringAt cdb.2 0 = .ok text ∧ stringAt pgsql.2 0 = .ok text
    | _ => True

end IpMapCall

/-- The backends agree in all calls of a sequence, and none of them writes outside of its
buffer. -/
def BackendsAgree : List IpMapCall → Option (List Char) → Connection Vpgsql.Tables → Prop
  | [], _, _ => True
  | call :: calls, file, connection =>
      ∃ cdb pgsql, call.cdb file = .ok cdb ∧ call.pgsql connection = .ok pgsql ∧
        call.SameAnswer (cdb.1, cdb.2.1) (pgsql.1, pgsql.2.1) ∧
        BackendsAgree calls cdb.2.2 pgsql.2.2

/-- All statements of a sequence of calls can be executed. -/
def StatementsSucceed : List IpMapCall → Vpgsql.Tables → Prop
  | [], _ => True
  | .add ip domain :: calls, tables =>
      ∃ deleted added, Vpgsql.deleteIp ⟨ip, domain⟩ tables = some deleted ∧
        Vpgsql.insertIp ⟨ip, domain⟩ deleted = some added ∧ StatementsSucceed calls added
  | .del ip domain :: calls, tables =>
      ∃ deleted, Vpgsql.deleteIp ⟨ip, domain⟩ tables = some deleted ∧
        StatementsSucceed calls deleted
  | .get ip _ :: calls, tables =>
      (Vpgsql.selectDomains ip tables).isSome ∧ StatementsSucceed calls tables

/-- An address or a domain without blanks and formatting characters. -/
structure IpMapName (text : List Char) : Prop where
  nonempty : text ≠ []
  token : ∀ char ∈ text, ipAliasToken char = false
  percent : Free '%' text
  plain : Free nul text

/-- A pair whose line fits in the buffer. -/
structure IpMapPair (pair : List Char × List Char) : Prop where
  ip : IpMapName pair.1
  domain : IpMapName pair.2
  short : pair.1.length + 1 + pair.2.length + 1 < ipMapBuff

def IpMapCall.WellFormed : IpMapCall → Prop
  | add ip domain => IpMapPair (ip, domain)
  | del ip domain => IpMapPair (ip, domain)
  | get ip _ => IpMapName ip

/-! ## Pairs -/

section Pairs

/-- The pairs after a call. -/
def pairsAfter (pairs : List (List Char × List Char)) : IpMapCall → List (List Char × List Char)
  | .add ip domain => (pairs.filter fun pair => pair ≠ (ip, domain)) ++ [(ip, domain)]
  | .del ip domain => pairs.filter fun pair => pair ≠ (ip, domain)
  | .get _ _ => pairs

/-- The domains of an address, in the order in which they were added. -/
def domainsOf (ip : List Char) (pairs : List (List Char × List Char)) : List (List Char) :=
  (pairs.filter fun pair => pair.1 = ip).map Prod.snd

/-- What stood in the buffer completes the last of the domains to the first, and ends it. -/
def Completes (domains : List (List Char)) (cells : List Char) : Prop :=
  match domains.head?, domains.getLast? with
  | some first, some last =>
      ∃ tail behind, first = last ++ tail ∧ cells.drop last.length = tail ++ nul :: behind
  | _, _ => cells ≠ []

/-- The condition on a sequence of calls: no pair is deleted in front of the first one that
is added to a missing file, and at each lookup the buffer completes the answer. -/
def AgreeWhen : List IpMapCall → Bool → List (List Char × List Char) → Prop
  | [], _, _ => True
  | .add ip domain :: calls, _, pairs => AgreeWhen calls true (pairsAfter pairs (.add ip domain))
  | .del ip domain :: calls, present, pairs =>
      present = true ∧ AgreeWhen calls present (pairsAfter pairs (.del ip domain))
  | .get ip cells :: calls, present, pairs =>
      Completes (domainsOf ip pairs) cells ∧ AgreeWhen calls present pairs

theorem pairsAfter_all {pairs : List (List Char × List Char)} (fit : ∀ pair ∈ pairs, IpMapPair pair)
    {call : IpMapCall} (wellFormed : call.WellFormed) :
    ∀ pair ∈ pairsAfter pairs call, IpMapPair pair := by
  intro pair member
  cases call with
  | add ip domain =>
      rcases List.mem_append.mp member with old | new
      · exact fit pair (List.mem_of_mem_filter old)
      · rw [List.mem_singleton.mp new]
        exact wellFormed
  | del ip domain => exact fit pair (List.mem_of_mem_filter member)
  | get ip cells => exact fit pair member

end Pairs

/-! ## The file -/

section File

def pairLine (pair : List Char × List Char) : List Char := pair.1 ++ ' ' :: pair.2 ++ ['\n']

theorem pairLine_isLine {pair : List Char × List Char} (fits : IpMapPair pair) :
    IsLine (pairLine pair) ∧ (pairLine pair).length < ipMapBuff := by
  have newline : Free '\n' (pair.1 ++ ' ' :: pair.2) := by
    rw [free_append, free_cons]
    refine ⟨fun member => ?_, by decide, fun member => ?_⟩
    · exact absurd (fits.ip.token _ member) (by decide)
    · exact absurd (fits.domain.token _ member) (by decide)
  constructor
  · exact isLine_append_newline newline
  · have short := fits.short
    rw [pairLine, List.length_append, List.length_append, List.length_cons, List.length_singleton]
    omega

theorem ipMapEntry_pairLine {pair : List Char × List Char} (fits : IpMapPair pair) :
    ipMapEntry (pairLine pair) = some pair :=
  ipMapEntry_new fits.ip.plain fits.domain.plain fits.ip.nonempty fits.domain.nonempty
    fits.ip.token fits.domain.token (.inr rfl)

theorem printed_pairLine {pair : List Char × List Char} (fits : IpMapPair pair) :
    Printed (pairLine pair) := by
  constructor
  · rw [ipMapEntry_pairLine fits]
    rfl
  · rw [pairLine, free_append, free_append, free_cons]
    exact ⟨⟨fits.ip.percent, by decide, fits.domain.percent⟩, by decide⟩
  · rw [pairLine, free_append, free_append, free_cons]
    exact ⟨⟨fits.ip.plain, by decide, fits.domain.plain⟩, by decide⟩

variable {pairs : List (List Char × List Char)} {file : Option (List Char)}

/-- The file holds the lines of the pairs. -/
def HoldsPairs (pairs : List (List Char × List Char)) (file : Option (List Char)) : Prop :=
  file.getD [] = (pairs.map pairLine).flatten

theorem ipMapLines_holds (fit : ∀ pair ∈ pairs, IpMapPair pair) (holds : HoldsPairs pairs file) :
    ipMapLines file = pairs.map pairLine := by
  have lines : ∀ line ∈ pairs.map pairLine, IsLine line ∧ line.length < ipMapBuff := by
    intro line member
    rcases List.mem_map.mp member with ⟨pair, inside, rfl⟩
    exact pairLine_isLine (fit pair inside)
  rw [ipMapLines, holds, fgetsLoop_lines lines]

theorem printed_holds (fit : ∀ pair ∈ pairs, IpMapPair pair) (holds : HoldsPairs pairs file) :
    ∀ line ∈ ipMapLines file, Printed line := by
  rw [ipMapLines_holds fit holds]
  intro line member
  rcases List.mem_map.mp member with ⟨pair, inside, rfl⟩
  exact printed_pairLine (fit pair inside)

theorem keptLines_holds (fit : ∀ pair ∈ pairs, IpMapPair pair) (holds : HoldsPairs pairs file)
    (ip domain : List Char) :
    keptLines ip domain file = (pairs.filter fun pair => pair ≠ (ip, domain)).map pairLine := by
  rw [keptLines, ipMapLines_holds fit holds, List.filter_map]
  congr 1
  apply List.filter_congr
  intro pair member
  rw [Function.comp_apply, ipMapEntry_pairLine (fit pair member)]
  simp

theorem findIp_holds (fit : ∀ pair ∈ pairs, IpMapPair pair) (ip : List Char) :
    findIp ip (pairs.map pairLine) = (domainsOf ip pairs).head? := by
  induction pairs with
  | nil => rfl
  | cons pair pairs induction =>
      have entry := ipMapEntry_pairLine (fit pair List.mem_cons_self)
      have later := induction fun other member => fit other (List.mem_cons_of_mem _ member)
      rw [List.map_cons, findIp_cons_entry entry, later, domainsOf, domainsOf]
      rcases Classical.em (pair.1 = ip) with same | other
      · rw [if_pos same, List.filter_cons_of_pos (by simpa using same)]
        rfl
      · rw [if_neg other, List.filter_cons_of_neg (by simpa using other)]

theorem cdb_add (fit : ∀ pair ∈ pairs, IpMapPair pair) (holds : HoldsPairs pairs file)
    {ip domain : List Char} (new : IpMapPair (ip, domain)) :
    ∃ after, (IpMapCall.add ip domain).cdb file = .ok (0, [], some after) ∧
      HoldsPairs (pairsAfter pairs (.add ip domain)) (some after) := by
  have printed := printed_holds fit holds
  rcases addIpMap_eq new.ip.nonempty new.domain.nonempty (fun line member _ => printed line member)
    with ⟨after, ran, text⟩
  refine ⟨after, ?_, ?_⟩
  · rw [IpMapCall.cdb, ran]
    rfl
  · rw [HoldsPairs, Option.getD_some, text, keptLines_holds fit holds, pairsAfter, List.map_append,
      List.flatten_append]
    simp [pairLine]

theorem cdb_del (fit : ∀ pair ∈ pairs, IpMapPair pair) (holds : HoldsPairs pairs file)
    {ip domain : List Char} (old : IpMapPair (ip, domain)) :
    ∃ after,
      (IpMapCall.del ip domain).cdb file = .ok (if file.isSome then 0 else -1, [], after) ∧
        HoldsPairs (pairsAfter pairs (.del ip domain)) after ∧ after.isSome = file.isSome := by
  have printed := printed_holds fit holds
  rcases delIpMap_eq old.ip.nonempty old.domain.nonempty (fun line member _ => printed line member)
    with ⟨after, ran, text, present⟩
  refine ⟨after, ?_, ?_, present⟩
  · rw [IpMapCall.cdb, ran]
    rfl
  · rw [HoldsPairs, text, keptLines_holds fit holds, pairsAfter]

theorem getIpMapCells_holds (fit : ∀ pair ∈ pairs, IpMapPair pair) (holds : HoldsPairs pairs file)
    {ip : List Char} (nonempty : ip ≠ []) (cells : List Char) :
    getIpMapCells ip cells file =
      match (domainsOf ip pairs).head? with
      | none => (-1, cells)
      | some domain => (0, strncpyCells cells.length (strncpy cells.length domain)) := by
  rw [getIpMapCells, getIpMap_eq nonempty, ipMapLines_holds fit holds, findIp_holds fit]
  cases (domainsOf ip pairs).head? with
  | none => rfl
  | some domain => rfl

end File

/-! ## The table -/

section Table

variable {pairs : List (List Char × List Char)} {tables : Vpgsql.Tables}

def pairRow (pair : List Char × List Char) : Vpgsql.IpAliasRow := ⟨pair.1, pair.2⟩

theorem pairRow_eq_iff (pair : List Char × List Char) (ip domain : List Char) :
    pairRow pair = ⟨ip, domain⟩ ↔ pair = (ip, domain) := by
  rw [pairRow, Vpgsql.IpAliasRow.mk.injEq, Prod.ext_iff]

/-- The rows are those of the pairs. -/
def HoldsRows (pairs : List (List Char × List Char)) (tables : Vpgsql.Tables) : Prop :=
  Vpgsql.ipRows tables = pairs.map pairRow

theorem holdsRows_del {ip domain : List Char} {deleted : Vpgsql.Tables}
    (holds : HoldsRows pairs tables)
    (ran : Vpgsql.deleteIp ⟨ip, domain⟩ tables = some deleted) :
    HoldsRows (pairsAfter pairs (.del ip domain)) deleted := by
  rw [HoldsRows, Vpgsql.ipRows_deleteIp ran, holds, pairsAfter, List.filter_map]
  congr 1
  apply List.filter_congr
  intro pair _
  rw [Function.comp_apply, decide_not, decide_not, decide_eq_decide.mpr (pairRow_eq_iff pair _ _)]

theorem holdsRows_add {ip domain : List Char} {deleted added : Vpgsql.Tables}
    (holds : HoldsRows pairs tables)
    (first : Vpgsql.deleteIp ⟨ip, domain⟩ tables = some deleted)
    (second : Vpgsql.insertIp ⟨ip, domain⟩ deleted = some added) :
    HoldsRows (pairsAfter pairs (.add ip domain)) added := by
  have between := holdsRows_del holds first
  rw [HoldsRows, Vpgsql.ipRows_insertIp second, between, pairsAfter, pairsAfter, List.map_append]
  rfl

theorem pgsql_add {ip domain : List Char} {deleted added : Vpgsql.Tables} (nonempty : ip ≠ [])
    (domainNonempty : domain ≠ [])
    (first : Vpgsql.deleteIp ⟨ip, domain⟩ tables = some deleted)
    (second : Vpgsql.insertIp ⟨ip, domain⟩ deleted = some added) :
    (IpMapCall.add ip domain).pgsql ⟨tables, .closed⟩ = .ok (0, [], ⟨added, .closed⟩) := by
  have deletes : executed true (Vpgsql.deleteIp ⟨ip, domain⟩) tables = some deleted := first
  have inserts : executed true (Vpgsql.insertIp ⟨ip, domain⟩) deleted = some added := second
  simp only [IpMapCall.pgsql, Vpgsql.addIpMap, if_neg nonempty, if_neg domainNonempty, ne_eq,
    not_true_eq_false, if_false, begin_closed, if_true, Bool.not_true, Bool.false_eq_true,
    exec_active_some deletes, exec_active_some inserts, commit_active]

theorem pgsql_del {ip domain : List Char} {deleted : Vpgsql.Tables} (nonempty : ip ≠ [])
    (domainNonempty : domain ≠ [])
    (ran : Vpgsql.deleteIp ⟨ip, domain⟩ tables = some deleted) :
    (IpMapCall.del ip domain).pgsql ⟨tables, .closed⟩ = .ok (0, [], ⟨deleted, .closed⟩) := by
  have deletes : executed true (Vpgsql.deleteIp ⟨ip, domain⟩) tables = some deleted := ran
  simp only [IpMapCall.pgsql, Vpgsql.delIpMap, if_neg nonempty, if_neg domainNonempty, ne_eq,
    not_true_eq_false, if_false, exec_closed_some deletes]

theorem selectDomains_holds {ip : List Char} (holds : HoldsRows pairs tables)
    (present : (Vpgsql.selectDomains ip tables).isSome) :
    Vpgsql.selectDomains ip tables = some (domainsOf ip pairs) := by
  rw [Vpgsql.selectDomains, Option.isSome_map] at present
  rcases Option.isSome_iff_exists.mp present with ⟨table, known⟩
  have rows : table.rows = pairs.map pairRow := by
    rw [← holds, Vpgsql.ipRows, known]
    rfl
  rw [Vpgsql.selectDomains, known, Option.map_some, rows, List.filter_map, List.map_map,
    domainsOf]
  rfl

theorem getIpMap_pgsql {ip : List Char} (holds : HoldsRows pairs tables) (nonempty : ip ≠ [])
    (present : (Vpgsql.selectDomains ip tables).isSome) (cells : List Char) :
    (IpMapCall.get ip cells).pgsql ⟨tables, .closed⟩ =
      match (domainsOf ip pairs).getLast? with
      | none =>
          match cells with
          | [] => .error .outOfBounds
          | _ :: rest => .ok (-1, nul :: rest, ⟨tables, .closed⟩)
      | some domain =>
          if domain.length ≤ cells.length then
            .ok (0, domain ++ cells.drop domain.length, ⟨tables, .closed⟩)
          else .error .outOfBounds := by
  simp only [IpMapCall.pgsql, Vpgsql.getIpMap, if_neg nonempty, ne_eq, not_true_eq_false, if_false,
    query, if_true, selectDomains_holds holds present]

end Table

/-! ## Strings in the caller's buffer -/

section Strings

theorem stringAt_strncpyCells_iff {size : Nat} {text found : List Char} (free : Free nul text) :
    stringAt (strncpyCells size (strncpy size text)) 0 = .ok found ↔
      text.length < size ∧ found = text := by
  rcases Nat.lt_or_ge text.length size with fits | long
  · have whole : strncpy size text = text := List.take_of_length_le (by omega)
    have ended : nul ∈ strncpyCells size text := by
      have room : size - text.length = size - text.length - 1 + 1 := by omega
      rw [strncpyCells, List.take_of_length_le (by simp; omega), room, List.replicate_succ]
      simp
    rw [whole, stringAt, List.drop_zero, if_pos ended, cstring_strncpyCells free fits]
    constructor
    · intro same
      exact ⟨fits, (Except.ok.inj same).symm⟩
    · rintro ⟨_, rfl⟩
      rfl
  · have size_eq : (strncpy size text).length = size := by
      rw [strncpy, List.length_take]
      omega
    have open_end : nul ∉ strncpyCells size (strncpy size text) := by
      rw [strncpyCells, size_eq, Nat.sub_self, List.replicate_zero, List.append_nil]
      exact fun member => free (List.mem_of_mem_take (List.mem_of_mem_take member))
    rw [stringAt, List.drop_zero, if_neg open_end]
    constructor
    · intro same
      cases same
    · intro both
      omega

theorem stringAt_append_iff {text found rest : List Char} (free : Free nul text)
    (foundFree : Free nul found) :
    stringAt (text ++ rest) 0 = .ok found ↔
      ∃ tail behind, found = text ++ tail ∧ rest = tail ++ nul :: behind := by
  rw [stringAt, List.drop_zero]
  constructor
  · intro read
    split at read
    · rename_i ended
      have inside : nul ∈ rest := (List.mem_append.mp ended).resolve_left free
      rcases free_or_eq_append_cons nul rest with none | ⟨tail, behind, tailFree, rfl⟩
      · exact absurd inside none
      · refine ⟨tail, behind, ?_, rfl⟩
        have whole : Free nul (text ++ tail) := free_append.mpr ⟨free, tailFree⟩
        rw [← List.append_assoc, cstring_append_nul whole] at read
        exact (Except.ok.inj read).symm
    · cases read
  · rintro ⟨tail, behind, rfl, rfl⟩
    rw [if_pos (by simp), ← List.append_assoc, cstring_append_nul foundFree]

/-- The answers to a lookup are the same when the buffer completes the last domain. -/
theorem sameAnswer_get_iff (ip : List Char) {cells first last : List Char}
    (firstFree : Free nul first) (lastFree : Free nul last) :
    (last.length ≤ cells.length ∧
        (IpMapCall.get ip cells).SameAnswer
          (0, strncpyCells cells.length (strncpy cells.length first))
          (0, last ++ cells.drop last.length)) ↔
      ∃ tail behind, first = last ++ tail ∧ cells.drop last.length = tail ++ nul :: behind := by
  constructor
  · rintro ⟨_, _, same⟩
    rcases same rfl with ⟨text, cdb, pgsql⟩
    rcases (stringAt_strncpyCells_iff firstFree).mp cdb with ⟨_, rfl⟩
    exact (stringAt_append_iff lastFree firstFree).mp pgsql
  · rintro ⟨tail, behind, rfl, rest⟩
    have size := congrArg List.length rest
    rw [List.length_drop, List.length_append, List.length_cons] at size
    refine ⟨by omega, Iff.rfl, fun _ => ⟨last ++ tail, ?_, ?_⟩⟩
    · apply (stringAt_strncpyCells_iff firstFree).mpr
      refine ⟨?_, rfl⟩
      rw [List.length_append]
      omega
    · exact (stringAt_append_iff lastFree firstFree).mpr ⟨tail, behind, rfl, rest⟩

end Strings

/-! ## Sequences of calls -/

section Sequences

variable {pairs : List (List Char × List Char)} {file : Option (List Char)}
  {tables : Vpgsql.Tables}

theorem free_domainsOf (fit : ∀ pair ∈ pairs, IpMapPair pair) {ip domain : List Char}
    (member : domain ∈ domainsOf ip pairs) : Free nul domain := by
  rcases List.mem_map.mp member with ⟨pair, inside, rfl⟩
  exact (fit pair (List.mem_of_mem_filter inside)).domain.plain

/-- One lookup. -/
theorem get_agrees_iff (fit : ∀ pair ∈ pairs, IpMapPair pair) (holds : HoldsPairs pairs file)
    (rows : HoldsRows pairs tables) {ip cells : List Char} (nonempty : ip ≠ [])
    (present : (Vpgsql.selectDomains ip tables).isSome) (calls : List IpMapCall) :
    BackendsAgree (.get ip cells :: calls) file ⟨tables, .closed⟩ ↔
      Completes (domainsOf ip pairs) cells ∧ BackendsAgree calls file ⟨tables, .closed⟩ := by
  rw [BackendsAgree, IpMapCall.cdb, getIpMapCells_holds fit holds nonempty,
    getIpMap_pgsql rows nonempty present, Completes]
  cases domains : domainsOf ip pairs with
  | nil =>
      simp only [List.head?_nil, List.getLast?_nil]
      cases cells with
      | nil => simp
      | cons cell rest => simp [IpMapCall.SameAnswer]
  | cons first others =>
      cases ends : (first :: others).getLast? with
      | none => simp at ends
      | some last =>
          have firstFree : Free nul first :=
            free_domainsOf fit (domains ▸ List.mem_cons_self)
          have lastFree : Free nul last :=
            free_domainsOf fit (domains ▸ List.mem_of_getLast? ends)
          simp only [List.head?_cons]
          rw [← sameAnswer_get_iff ip firstFree lastFree]
          rcases Classical.em (last.length ≤ cells.length) with fits | long
          · rw [if_pos fits]
            constructor
            · rintro ⟨cdb, pgsql, first_ran, second_ran, same, later⟩
              cases first_ran
              cases second_ran
              exact ⟨⟨fits, same⟩, later⟩
            · rintro ⟨⟨_, same⟩, later⟩
              exact ⟨_, _, rfl, rfl, same, later⟩
          · rw [if_neg long]
            constructor
            · rintro ⟨cdb, pgsql, _, second_ran, _⟩
              cases second_ran
            · rintro ⟨⟨fits, _⟩, _⟩
              exact absurd fits long

/-- A sequence of calls on a file and a table that hold the same pairs. -/
theorem calls_agree_iff {calls : List IpMapCall} (wellFormed : ∀ call ∈ calls, call.WellFormed)
    (fit : ∀ pair ∈ pairs, IpMapPair pair) (holds : HoldsPairs pairs file)
    (rows : HoldsRows pairs tables) (succeed : StatementsSucceed calls tables) :
    BackendsAgree calls file ⟨tables, .closed⟩ ↔ AgreeWhen calls file.isSome pairs := by
  induction calls generalizing pairs file tables with
  | nil => exact Iff.rfl
  | cons call calls induction =>
      have own := wellFormed call List.mem_cons_self
      have others := fun other member => wellFormed other (List.mem_cons_of_mem call member)
      have fit_after := pairsAfter_all fit own
      cases call with
      | add ip domain =>
          rcases succeed with ⟨deleted, added, first, second, later⟩
          rcases cdb_add fit holds own with ⟨after, ran, holds_after⟩
          have rest := induction others fit_after holds_after (holdsRows_add rows first second) later
          have answer : (IpMapCall.add ip domain).SameAnswer (0, []) (0, []) := ⟨Iff.rfl, trivial⟩
          rw [AgreeWhen, ← Option.isSome_some, ← rest, BackendsAgree, ran,
            pgsql_add own.ip.nonempty own.domain.nonempty first second]
          constructor
          · rintro ⟨cdb, pgsql, first_ran, second_ran, _, agree⟩
            cases first_ran
            cases second_ran
            exact agree
          · exact fun agree => ⟨_, _, rfl, rfl, answer, agree⟩
      | del ip domain =>
          rcases succeed with ⟨deleted, first, later⟩
          rcases cdb_del fit holds own with ⟨after, ran, holds_after, kept⟩
          have rest := induction others fit_after holds_after (holdsRows_del rows first) later
          rw [AgreeWhen, ← kept, ← rest, BackendsAgree, ran,
            pgsql_del own.ip.nonempty own.domain.nonempty first, kept]
          constructor
          · rintro ⟨cdb, pgsql, first_ran, second_ran, same, agree⟩
            cases first_ran
            cases second_ran
            refine ⟨?_, agree⟩
            cases present : file.isSome with
            | true => rfl
            | false =>
                rw [present] at same
                have failed : (-1 : Int) = 0 := same.1.mpr rfl
                cases failed
          · rintro ⟨present, agree⟩
            refine ⟨_, _, rfl, rfl, ?_, agree⟩
            rw [present]
            exact ⟨Iff.rfl, trivial⟩
      | get ip cells =>
          rcases succeed with ⟨present, later⟩
          rw [get_agrees_iff fit holds rows own.nonempty present, AgreeWhen,
            induction others fit holds rows later]

end Sequences

/-- The backends agree from empty maps on exactly when no pair is deleted from a missing file
and every lookup finds the answer's missing end in its buffer. -/
theorem backendsAgree_iff {calls : List IpMapCall} {file : Option (List Char)}
    {tables : Vpgsql.Tables} (wellFormed : ∀ call ∈ calls, call.WellFormed)
    (emptyFile : file.getD [] = []) (emptyTable : Vpgsql.ipRows tables = [])
    (succeed : StatementsSucceed calls tables) :
    BackendsAgree calls file ⟨tables, .closed⟩ ↔ AgreeWhen calls file.isSome [] :=
  calls_agree_iff wellFormed (fun _ member => nomatch member) emptyFile emptyTable succeed

/-! ## A buffer that was used before -/

/-- A database with an empty `ip_alias_map` that allows several domains for an address. -/
def emptyIpAliasMap : Vpgsql.Tables := ⟨fun _ => none, none, false, some ⟨false, []⟩, none, none⟩

/-- A pair that is added, looked up and deleted. -/
def addAndGet (cells : List Char) : List IpMapCall :=
  [.add ['1'] ['a'], .get ['1'] cells, .del ['1'] ['a']]

theorem addAndGet_wellFormed (cells : List Char) :
    ∀ call ∈ addAndGet cells, call.WellFormed := by
  have ip : IpMapName ['1'] :=
    ⟨by decide, List.forall_mem_singleton.mpr rfl, by decide, by decide⟩
  have domain : IpMapName ['a'] :=
    ⟨by decide, List.forall_mem_singleton.mpr rfl, by decide, by decide⟩
  have pair : IpMapPair (['1'], ['a']) := ⟨ip, domain, by decide⟩
  intro call member
  rw [addAndGet, List.mem_cons, List.mem_cons, List.mem_singleton] at member
  rcases member with rfl | rfl | rfl
  · exact pair
  · exact ip
  · exact pair

theorem addAndGet_succeed (cells : List Char) :
    StatementsSucceed (addAndGet cells) emptyIpAliasMap :=
  ⟨_, _, rfl, rfl, rfl, _, rfl, trivial⟩

theorem backendsAgree_zeros :
    BackendsAgree (addAndGet [nul, nul, nul]) (some []) ⟨emptyIpAliasMap, .closed⟩ ↔
      AgreeWhen (addAndGet [nul, nul, nul]) true [] :=
  backendsAgree_iff (addAndGet_wellFormed _) rfl rfl (addAndGet_succeed _)

/-- What stood in the buffer is read as the rest of the domain. -/
theorem not_backendsAgree :
    ¬ ∀ (calls : List IpMapCall) (tables : Vpgsql.Tables),
      (∀ call ∈ calls, call.WellFormed) → Vpgsql.ipRows tables = [] →
      StatementsSucceed calls tables → BackendsAgree calls (some []) ⟨tables, .closed⟩ := by
  intro agree
  have used := agree (addAndGet ['x', 'y', nul]) emptyIpAliasMap (addAndGet_wellFormed _) rfl
    (addAndGet_succeed _)
  rcases used with ⟨_, _, first, second, _, cdb, pgsql, third, fourth, same, _⟩
  cases first
  cases second
  cases third
  cases fourth
  rcases same.2 rfl with ⟨text, one, other⟩
  exact absurd (one.trans other.symm) (by decide +kernel)

end Vpopmail
