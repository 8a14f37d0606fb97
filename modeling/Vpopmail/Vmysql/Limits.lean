import Vpopmail.VlimitsFile

/-! # Domain limits in the MySQL backend

`vset_limits` names columns and passes values by position, and `vget_limits`
picks the values out of a row by position.
-/

namespace Vpopmail.Vmysql

open Vpopmail Buffer

/-! ## The table -/

/-- The columns of the limits table, the key left out. -/
inductive Column
  | maxpopaccounts
  | maxaliases
  | maxforwards
  | maxautoresponders
  | maxmailinglists
  | diskquota
  | maxmsgcount
  | defaultquota
  | defaultmaxmsgcount
  | disablePop
  | disableImap
  | disableDialup
  | disablePasswordchanging
  | disableWebmail
  | disableRelay
  | disableSmtp
  | disableSpamassassin
  | deleteSpam
  | disableMaildrop
  | permAccount
  | permAlias
  | permForward
  | permAutoresponder
  | permMaillist
  | permQuota
  | permDefaultquota
  deriving DecidableEq

abbrev Row := Column → BitVec 32

abbrev Table := List Char → Option Row

/-- The defaults of `LIMITS_TABLE_LAYOUT`. -/
def defaultRow : Row
  | .maxpopaccounts => -1
  | .maxaliases => -1
  | .maxforwards => -1
  | .maxautoresponders => -1
  | .maxmailinglists => -1
  | _ => 0

/-- Assignments to columns, from left to right. -/
def assign (assignments : List (Column × BitVec 32)) (row : Row) : Row :=
  assignments.foldl (fun row pair => Function.update row pair.1 pair.2) row

/-- `INSERT INTO limits SET ... ON DUPLICATE KEY UPDATE ...`. -/
def insertOrUpdate (table : Table) (domain : List Char)
    (inserted updated : List (Column × BitVec 32)) : Table :=
  Function.update table domain <| some <|
    match table domain with
    | none => assign inserted defaultRow
    | some row => assign updated row

/-! ## Writing -/

/-- The columns named behind `SET`, and once more behind `UPDATE`. -/
def setColumns : List Column :=
  [.maxpopaccounts, .maxaliases,
    .maxforwards, .maxautoresponders, .maxmailinglists,
    .diskquota, .maxmsgcount, .defaultquota, .defaultmaxmsgcount,
    .disablePop, .disableImap, .disableDialup,
    .disablePasswordchanging, .disableWebmail, .disableRelay,
    .disableSmtp, .disableSpamassassin, .deleteSpam, .permAccount,
    .permAlias, .permForward, .permAutoresponder, .permMaillist,
    .permQuota, .permDefaultquota]

/-- The arguments passed for them, the `short` values promoted to `int`. -/
def setArguments (limits : Vlimits) : List (BitVec 32) :=
  [limits.maxpopaccounts, limits.maxaliases,
    limits.maxforwards, limits.maxautoresponders, limits.maxmailinglists,
    limits.diskquota, limits.maxmsgcount, limits.defaultquota, limits.defaultmaxmsgcount,
    limits.disablePop.signExtend 32, limits.disableImap.signExtend 32,
    limits.disableDialup.signExtend 32,
    limits.disablePasswordchanging.signExtend 32, limits.disableWebmail.signExtend 32,
    limits.disableRelay.signExtend 32,
    limits.disableSmtp.signExtend 32, limits.disableSpamassassin.signExtend 32,
    limits.deleteSpam.signExtend 32, limits.permAccount.signExtend 32,
    limits.permAlias.signExtend 32, limits.permForward.signExtend 32,
    limits.permAutoresponder.signExtend 32,
    packPermissions limits.permMaillist limits.permMaillistUsers limits.permMaillistModerators,
    limits.permQuota.signExtend 32, limits.permDefaultquota.signExtend 32]

/-- `vset_limits`. `answered` says that the server took the statement, perhaps
after the table was created. -/
def vsetLimits (opened answered : Bool) (table : Table) (domain : List Char)
    (limits : Vlimits) : Int × Table :=
  if opened && answered then
    let assignments := setColumns.zip (setArguments limits)
    (0, insertOrUpdate table domain assignments assignments)
  else (-1, table)

/-! ## Reading -/

/-- The columns behind `SELECT`. -/
def selectColumns : List Column :=
  [.maxpopaccounts, .maxaliases,
    .maxforwards, .maxautoresponders, .maxmailinglists, .diskquota,
    .maxmsgcount, .defaultquota, .defaultmaxmsgcount,
    .disablePop, .disableImap, .disableDialup,
    .disablePasswordchanging, .disableWebmail, .disableRelay,
    .disableSmtp, .disableSpamassassin, .deleteSpam, .disableMaildrop, .permAccount,
    .permAlias, .permForward, .permAutoresponder, .permMaillist,
    .permQuota, .permDefaultquota]

/-- The row as the server hands it out, a text for each selected column. -/
def fetchRow (row : Row) : List (List Char) :=
  selectColumns.map fun column => Decimal.spellInt (row column).toInt

/-- `atoi(row[index])`. -/
def atoiCell (row : List (List Char)) (index : Nat) : BitVec 32 :=
  readNumber (row.getD index [])

/-- `atoi(row[index])` into a `short`. -/
def shortCell (row : List (List Char)) (index : Nat) : BitVec 16 :=
  (atoiCell row index).setWidth 16

/-- What `vget_limits` makes of a row. -/
def readRow (row : List (List Char)) : Vlimits :=
  let perm := BitVec.ofInt 32 (Decimal.atol (row.getD 23 []))
  { maxpopaccounts := atoiCell row 0
    maxaliases := atoiCell row 1
    maxforwards := atoiCell row 2
    maxautoresponders := atoiCell row 3
    maxmailinglists := atoiCell row 4
    diskquota := atoiCell row 5
    maxmsgcount := atoiCell row 6
    defaultquota := atoiCell row 7
    defaultmaxmsgcount := atoiCell row 8
    disablePop := shortCell row 9
    disableImap := shortCell row 10
    disableDialup := shortCell row 11
    disablePasswordchanging := shortCell row 12
    disableWebmail := shortCell row 13
    disableRelay := shortCell row 14
    disableSmtp := shortCell row 15
    disableSpamassassin := shortCell row 16
    deleteSpam := shortCell row 17
    disableMaildrop := shortCell row 18
    permAccount := shortCell row 19
    permAlias := shortCell row 20
    permForward := shortCell row 21
    permAutoresponder := shortCell row 22
    permMaillist := (perm &&& 7).setWidth 16
    permMaillistUsers := (perm.sshiftRight vlimitDisableBits &&& 7).setWidth 16
    permMaillistModerators :=
      ((perm.sshiftRight vlimitDisableBits).sshiftRight vlimitDisableBits &&& 7).setWidth 16
    -- one column behind from here on
    permQuota := shortCell row 23
    permDefaultquota := shortCell row 24 }

/-- `vget_limits`. A domain without a row takes the limits from the default
limits file, here with the cells of the buffer it is read into. -/
def vgetLimits (opened answered : Bool) (buf : List Char) (defaultFile : Option (List Char))
    (table : Table) (domain : List Char) : Option (Checked (Int × Vlimits)) :=
  if opened && answered then
    match table domain with
    | none => vlimitsReadLimitsFile buf defaultFile vdefaultLimits
    | some row => some (.ok (0, readRow (fetchRow row)))
  else some (.ok (-1, vdefaultLimits))

/-! ## Reading what was written -/

/-- The column that `vset_limits` leaves out keeps its value. -/
theorem assign_setArguments (limits : Vlimits) (row : Row) (column : Column) :
    assign (setColumns.zip (setArguments limits)) row column =
      match column with
      | .maxpopaccounts => limits.maxpopaccounts
      | .maxaliases => limits.maxaliases
      | .maxforwards => limits.maxforwards
      | .maxautoresponders => limits.maxautoresponders
      | .maxmailinglists => limits.maxmailinglists
      | .diskquota => limits.diskquota
      | .maxmsgcount => limits.maxmsgcount
      | .defaultquota => limits.defaultquota
      | .defaultmaxmsgcount => limits.defaultmaxmsgcount
      | .disablePop => limits.disablePop.signExtend 32
      | .disableImap => limits.disableImap.signExtend 32
      | .disableDialup => limits.disableDialup.signExtend 32
      | .disablePasswordchanging => limits.disablePasswordchanging.signExtend 32
      | .disableWebmail => limits.disableWebmail.signExtend 32
      | .disableRelay => limits.disableRelay.signExtend 32
      | .disableSmtp => limits.disableSmtp.signExtend 32
      | .disableSpamassassin => limits.disableSpamassassin.signExtend 32
      | .deleteSpam => limits.deleteSpam.signExtend 32
      | .disableMaildrop => row .disableMaildrop
      | .permAccount => limits.permAccount.signExtend 32
      | .permAlias => limits.permAlias.signExtend 32
      | .permForward => limits.permForward.signExtend 32
      | .permAutoresponder => limits.permAutoresponder.signExtend 32
      | .permMaillist => packPermissions limits.permMaillist limits.permMaillistUsers
          limits.permMaillistModerators
      | .permQuota => limits.permQuota.signExtend 32
      | .permDefaultquota => limits.permDefaultquota.signExtend 32 := by
  cases column <;> rfl

theorem setWidth_signExtend (value : BitVec 16) :
    (value.signExtend 32).setWidth 16 = value := by
  apply BitVec.eq_of_getElem_eq
  intro index inside
  have within : index < 32 := Nat.lt_trans inside (by decide)
  rw [BitVec.getElem_setWidth, BitVec.getLsbD_signExtend]
  simp [inside, within]

/-- The masks packed into one column come out again. -/
theorem unpack_packPermissions {first second third : BitVec 16} (firstValid : first.toNat ≤ 7)
    (secondValid : second.toNat ≤ 7) (thirdValid : third.toNat ≤ 7) :
    let perm := packPermissions first second third
    (perm &&& 7).setWidth 16 = first ∧
      (perm.sshiftRight vlimitDisableBits &&& 7).setWidth 16 = second ∧
      ((perm.sshiftRight vlimitDisableBits).sshiftRight vlimitDisableBits &&& 7).setWidth 16 =
        third := by
  rcases exists_mask firstValid with ⟨first, rfl⟩
  rcases exists_mask secondValid with ⟨second, rfl⟩
  rcases exists_mask thirdValid with ⟨third, rfl⟩
  clear firstValid secondValid thirdValid
  revert first second third
  decide +kernel

theorem toNat_packPermissions {first second third : BitVec 16} (firstValid : first.toNat ≤ 7)
    (secondValid : second.toNat ≤ 7) (thirdValid : third.toNat ≤ 7) :
    ((packPermissions first second third).setWidth 16).toNat =
      first.toNat + 8 * second.toNat + 64 * third.toNat := by
  rcases exists_mask firstValid with ⟨first, rfl⟩
  rcases exists_mask secondValid with ⟨second, rfl⟩
  rcases exists_mask thirdValid with ⟨third, rfl⟩
  clear firstValid secondValid thirdValid
  revert first second third
  decide +kernel

theorem readRow_fetchRow (row : Row) :
    readRow (fetchRow row) =
      let perm := row .permMaillist
      { maxpopaccounts := row .maxpopaccounts
        maxaliases := row .maxaliases
        maxforwards := row .maxforwards
        maxautoresponders := row .maxautoresponders
        maxmailinglists := row .maxmailinglists
        diskquota := row .diskquota
        maxmsgcount := row .maxmsgcount
        defaultquota := row .defaultquota
        defaultmaxmsgcount := row .defaultmaxmsgcount
        disablePop := (row .disablePop).setWidth 16
        disableImap := (row .disableImap).setWidth 16
        disableDialup := (row .disableDialup).setWidth 16
        disablePasswordchanging := (row .disablePasswordchanging).setWidth 16
        disableWebmail := (row .disableWebmail).setWidth 16
        disableRelay := (row .disableRelay).setWidth 16
        disableSmtp := (row .disableSmtp).setWidth 16
        disableSpamassassin := (row .disableSpamassassin).setWidth 16
        deleteSpam := (row .deleteSpam).setWidth 16
        disableMaildrop := (row .disableMaildrop).setWidth 16
        permAccount := (row .permAccount).setWidth 16
        permAlias := (row .permAlias).setWidth 16
        permForward := (row .permForward).setWidth 16
        permAutoresponder := (row .permAutoresponder).setWidth 16
        permMaillist := (perm &&& 7).setWidth 16
        permMaillistUsers := (perm.sshiftRight vlimitDisableBits &&& 7).setWidth 16
        permMaillistModerators :=
          ((perm.sshiftRight vlimitDisableBits).sshiftRight vlimitDisableBits &&& 7).setWidth 16
        permQuota := perm.setWidth 16
        permDefaultquota := (row .permQuota).setWidth 16 } := by
  have cell : ∀ index column, selectColumns[index]? = some column →
      (fetchRow row).getD index [] = Decimal.spellInt (row column).toInt := by
    intro index column selected
    rw [fetchRow, List.getD_eq_getElem?_getD, List.getElem?_map, selected]
    rfl
  simp only [readRow, shortCell, atoiCell, cell 0 _ rfl, cell 1 _ rfl, cell 2 _ rfl,
    cell 3 _ rfl, cell 4 _ rfl, cell 5 _ rfl, cell 6 _ rfl, cell 7 _ rfl, cell 8 _ rfl,
    cell 9 _ rfl, cell 10 _ rfl, cell 11 _ rfl, cell 12 _ rfl, cell 13 _ rfl, cell 14 _ rfl,
    cell 15 _ rfl, cell 16 _ rfl, cell 17 _ rfl, cell 18 _ rfl, cell 19 _ rfl, cell 20 _ rfl,
    cell 21 _ rfl, cell 22 _ rfl, cell 23 _ rfl, cell 24 _ rfl, readNumber_spellInt,
    Decimal.atol_spellInt_toInt, BitVec.ofInt_toInt]

/-- The column that a statement leaves out, as it was before. -/
def keptMaildrop (table : Table) (domain : List Char) : BitVec 16 :=
  (((table domain).getD defaultRow) .disableMaildrop).setWidth 16

theorem vgetLimits_vsetLimits {limits : Vlimits} (valid : limits.Valid) (buf : List Char)
    (defaultFile : Option (List Char)) (table : Table) (domain : List Char) :
    vgetLimits true true buf defaultFile (vsetLimits true true table domain limits).2 domain =
      some (.ok (0, { limits with
        disableMaildrop := keptMaildrop table domain
        permQuota := (packPermissions limits.permMaillist limits.permMaillistUsers
          limits.permMaillistModerators).setWidth 16
        permDefaultquota := limits.permQuota })) := by
  let assignments := setColumns.zip (setArguments limits)
  have written : (vsetLimits true true table domain limits).2 domain =
      some (assign assignments ((table domain).getD defaultRow)) := by
    simp only [vsetLimits, insertOrUpdate, Bool.and_self, if_true, Function.update_self]
    cases table domain <;> rfl
  have masks := unpack_packPermissions valid.permMaillist valid.permMaillistUsers
    valid.permMaillistModerators
  simp only [vgetLimits, Bool.and_self, if_true, written, readRow_fetchRow, assignments,
    assign_setArguments, setWidth_signExtend, masks.1, masks.2.1, masks.2.2, keptMaildrop]

/-- The column read for `perm_quota` holds the three packed masks. -/
theorem setWidth_packPermissions_iff {limits : Vlimits} (valid : limits.Valid) :
    (packPermissions limits.permMaillist limits.permMaillistUsers
        limits.permMaillistModerators).setWidth 16 = limits.permQuota ↔
      limits.permMaillistUsers = 0 ∧ limits.permMaillistModerators = 0 ∧
        limits.permQuota = limits.permMaillist := by
  have packed := toNat_packPermissions valid.permMaillist valid.permMaillistUsers
    valid.permMaillistModerators
  have quota := valid.permQuota
  have blank : (0 : BitVec 16).toNat = 0 := rfl
  constructor
  · intro same
    rw [same] at packed
    refine ⟨BitVec.eq_of_toNat_eq ?_, BitVec.eq_of_toNat_eq ?_, BitVec.eq_of_toNat_eq ?_⟩
    all_goals omega
  · intro alone
    rcases alone with ⟨users, moderators, same⟩
    apply BitVec.eq_of_toNat_eq
    rw [packed, users, moderators, same, blank]
    omega

/-- Limits stored for a domain are read back as they were exactly when the
domain already had its `disable_maildrop`, and the three permissions read from
neighbouring columns are equal. -/
theorem vgetLimits_vsetLimits_iff {limits : Vlimits} (valid : limits.Valid) (buf : List Char)
    (defaultFile : Option (List Char)) (table : Table) (domain : List Char) :
    vgetLimits true true buf defaultFile (vsetLimits true true table domain limits).2 domain =
        some (.ok (0, limits)) ↔
      keptMaildrop table domain = limits.disableMaildrop ∧
        limits.permMaillistUsers = 0 ∧ limits.permMaillistModerators = 0 ∧
        limits.permQuota = limits.permMaillist ∧ limits.permDefaultquota = limits.permQuota := by
  rw [vgetLimits_vsetLimits valid]
  constructor
  · intro same
    have equal := (Prod.mk.inj (Except.ok.inj (Option.some.inj same))).2
    have packed := (setWidth_packPermissions_iff valid).mp (congrArg Vlimits.permQuota equal)
    exact ⟨congrArg Vlimits.disableMaildrop equal, packed.1, packed.2.1, packed.2.2,
      (congrArg Vlimits.permDefaultquota equal).symm⟩
  · intro condition
    rcases condition with ⟨maildrop, users, moderators, quota, defaultquota⟩
    have packed := (setWidth_packPermissions_iff valid).mpr ⟨users, moderators, quota⟩
    rw [maildrop, packed]
    have kept : ∀ permission, limits.permDefaultquota = permission →
        { limits with permDefaultquota := permission } = limits := by
      intro permission same
      rw [← same]
    rw [kept limits.permQuota defaultquota]

/-- A row for one domain, with its defaults but for mail through maildrop. -/
def exampleTable : Table :=
  Function.update (fun _ => none) "example.com".toList
    (some (Function.update defaultRow .disableMaildrop 1))

/-- Limits of that domain with the same permissions on quotas as on mailing lists. -/
def quotaLimits : Vlimits :=
  { exampleLimits with
    disableMaildrop := 1
    permMaillist := 6
    permQuota := 6
    permDefaultquota := 6 }

theorem quotaLimits_valid : quotaLimits.Valid :=
  { exampleLimits_valid with
    flag := fun which => by cases which <;> decide
    permMaillist := by decide
    permQuota := by decide
    permDefaultquota := by decide }

theorem vgetLimits_vsetLimits_quotaLimits :
    vgetLimits true true [] none
        (vsetLimits true true exampleTable "example.com".toList quotaLimits).2
        "example.com".toList = some (.ok (0, quotaLimits)) ∧
      vgetLimits true true [] none
        (vsetLimits true true exampleTable "example.com".toList exampleLimits).2
        "example.com".toList ≠ some (.ok (0, exampleLimits)) := by
  constructor
  · rw [vgetLimits_vsetLimits_iff quotaLimits_valid]
    decide
  · rw [ne_eq, vgetLimits_vsetLimits_iff exampleLimits_valid]
    decide

/-- The permissions of `exampleLimits` on quotas come back as none at all, the
first time that the domain gets limits. -/
theorem exampleLimits_not_readBack :
    exampleLimits.Valid ∧
      vgetLimits true true [] none
          (vsetLimits true true (fun _ => none) "example.com".toList exampleLimits).2
          "example.com".toList ≠ some (.ok (0, exampleLimits)) := by
  constructor
  · exact exampleLimits_valid
  · decide +kernel

end Vpopmail.Vmysql
