import Vpopmail.Types
import Vpopmail.Foundation.Decimal

/-! # Domain limits

`struct vlimits`, its defaults, and the lines of a limits file: those that
`vlimits_write_limits_file` prints, and what `vlimits_read_limits_file` makes
of a line.
-/

namespace Vpopmail

/-- `struct vlimits`. -/
structure Vlimits where
  maxpopaccounts : BitVec 32
  maxaliases : BitVec 32
  maxforwards : BitVec 32
  maxautoresponders : BitVec 32
  maxmailinglists : BitVec 32
  diskquota : BitVec 32
  maxmsgcount : BitVec 32
  defaultquota : BitVec 32
  defaultmaxmsgcount : BitVec 32
  disablePop : BitVec 16
  disableImap : BitVec 16
  disableDialup : BitVec 16
  disablePasswordchanging : BitVec 16
  disableWebmail : BitVec 16
  disableRelay : BitVec 16
  disableSmtp : BitVec 16
  disableSpamassassin : BitVec 16
  deleteSpam : BitVec 16
  disableMaildrop : BitVec 16
  permAccount : BitVec 16
  permAlias : BitVec 16
  permForward : BitVec 16
  permAutoresponder : BitVec 16
  permMaillist : BitVec 16
  permMaillistUsers : BitVec 16
  permMaillistModerators : BitVec 16
  permQuota : BitVec 16
  permDefaultquota : BitVec 16
  deriving DecidableEq

/-- `vdefault_limits`. -/
def vdefaultLimits : Vlimits where
  maxpopaccounts := -1
  maxaliases := -1
  maxforwards := -1
  maxautoresponders := -1
  maxmailinglists := -1
  diskquota := 0
  maxmsgcount := 0
  defaultquota := 0
  defaultmaxmsgcount := 0
  disablePop := 0
  disableImap := 0
  disableDialup := 0
  disablePasswordchanging := 0
  disableWebmail := 0
  disableRelay := 0
  disableSmtp := 0
  disableSpamassassin := 0
  deleteSpam := 0
  disableMaildrop := 0
  permAccount := 0
  permAlias := 0
  permForward := 0
  permAutoresponder := 0
  permMaillist := 0
  permMaillistUsers := 0
  permMaillistModerators := 0
  permQuota := 0
  permDefaultquota := 0

/-! ## Flags -/

inductive Flag
  | disablePop
  | disableImap
  | disableDialup
  | disablePasswordchanging
  | disableRelay
  | disableSmtp
  | disableWebmail
  | disableSpamassassin
  | deleteSpam
  | disableMaildrop
  deriving DecidableEq

def Flag.get (limits : Vlimits) : Flag → BitVec 16
  | disablePop => limits.disablePop
  | disableImap => limits.disableImap
  | disableDialup => limits.disableDialup
  | disablePasswordchanging => limits.disablePasswordchanging
  | disableRelay => limits.disableRelay
  | disableSmtp => limits.disableSmtp
  | disableWebmail => limits.disableWebmail
  | disableSpamassassin => limits.disableSpamassassin
  | deleteSpam => limits.deleteSpam
  | disableMaildrop => limits.disableMaildrop

def Flag.set (limits : Vlimits) (value : BitVec 16) : Flag → Vlimits
  | disablePop => { limits with disablePop := value }
  | disableImap => { limits with disableImap := value }
  | disableDialup => { limits with disableDialup := value }
  | disablePasswordchanging => { limits with disablePasswordchanging := value }
  | disableRelay => { limits with disableRelay := value }
  | disableSmtp => { limits with disableSmtp := value }
  | disableWebmail => { limits with disableWebmail := value }
  | disableSpamassassin => { limits with disableSpamassassin := value }
  | deleteSpam => { limits with deleteSpam := value }
  | disableMaildrop => { limits with disableMaildrop := value }

theorem Flag.set_get (which : Flag) (limits : Vlimits) :
    which.set limits (which.get limits) = limits := by
  cases which <;> rfl

theorem Flag.get_set_of_ne {which other : Flag} (different : other ≠ which)
    (limits : Vlimits) (value : BitVec 16) :
    other.get (which.set limits value) = other.get limits := by
  cases which <;> cases other <;> first | rfl | exact absurd rfl different

/-- The flags are 0 or 1, and the permission masks have three bits. -/
structure Vlimits.Valid (limits : Vlimits) : Prop where
  flag : ∀ which : Flag, (which.get limits).toNat ≤ 1
  permAccount : limits.permAccount.toNat ≤ 7
  permAlias : limits.permAlias.toNat ≤ 7
  permForward : limits.permForward.toNat ≤ 7
  permAutoresponder : limits.permAutoresponder.toNat ≤ 7
  permMaillist : limits.permMaillist.toNat ≤ 7
  permMaillistUsers : limits.permMaillistUsers.toNat ≤ 7
  permMaillistModerators : limits.permMaillistModerators.toNat ≤ 7
  permQuota : limits.permQuota.toNat ≤ 7
  permDefaultquota : limits.permDefaultquota.toNat ≤ 7

/-- `VLIMIT_DISABLE_BITS`. -/
def vlimitDisableBits : Nat := 3

/-- Three masks in one number, the `short` values promoted to `int`. -/
def packPermissions (first second third : BitVec 16) : BitVec 32 :=
  first.signExtend 32 ||| second.signExtend 32 <<< vlimitDisableBits |||
    third.signExtend 32 <<< (vlimitDisableBits * 2)

/-! ## Writing -/

def numberLine (name : String) (value : BitVec 32) : List Char :=
  name.toList ++ ": ".toList ++ Decimal.spellInt value.toInt

def flagLine (name : String) (flag : BitVec 16) : List (List Char) :=
  if flag ≠ 0 then [name.toList] else []

/-- The lines that `vlimits_write_limits_file` prints. -/
def limitsLines (limits : Vlimits) : List (List Char) :=
  [numberLine "maxpopaccounts" limits.maxpopaccounts,
    numberLine "maxaliases" limits.maxaliases,
    numberLine "maxforwards" limits.maxforwards,
    numberLine "maxautoresponders" limits.maxautoresponders,
    numberLine "maxmailinglists" limits.maxmailinglists,
    numberLine "quota" limits.diskquota,
    numberLine "maxmsgcount" limits.maxmsgcount,
    numberLine "default_quota" limits.defaultquota,
    numberLine "default_maxmsgcount" limits.defaultmaxmsgcount] ++
  flagLine "disable_pop" limits.disablePop ++
  flagLine "disable_imap" limits.disableImap ++
  flagLine "disable_dialup" limits.disableDialup ++
  flagLine "disable_password_changing" limits.disablePasswordchanging ++
  flagLine "disable_webmail" limits.disableWebmail ++
  flagLine "disable_external_relay" limits.disableRelay ++
  flagLine "disable_smtp" limits.disableSmtp ++
  flagLine "disable_spamassassin" limits.disableSpamassassin ++
  flagLine "delete_spam" limits.deleteSpam ++
  flagLine "disable_maildrop" limits.disableMaildrop ++
  [numberLine "perm_account" (limits.permAccount.signExtend 32),
    numberLine "perm_alias" (limits.permAlias.signExtend 32),
    numberLine "perm_forward" (limits.permForward.signExtend 32),
    numberLine "perm_autoresponder" (limits.permAutoresponder.signExtend 32),
    numberLine "perm_maillist" (limits.permMaillist.signExtend 32),
    numberLine "perm_quota" (packPermissions limits.permQuota limits.permMaillistUsers
      limits.permMaillistModerators),
    numberLine "perm_defaultquota" (limits.permDefaultquota.signExtend 32)]

def limitsText (limits : Vlimits) : List Char :=
  ((limitsLines limits).map fun line => line ++ ['\n']).flatten

/-- `vlimits_write_limits_file`. -/
def vlimitsWriteLimitsFile (opened : Bool) (file : Option (List Char)) (limits : Vlimits) :
    Int × Option (List Char) :=
  if opened then (0, some (limitsText limits)) else (-1, file)

/-! ## Reading a line -/

/-- The settings that the reader compares a name with. -/
inductive Setting
  | maxpopaccounts
  | maxaliases
  | maxforwards
  | maxautoresponders
  | maxmailinglists
  | quota
  | maxmsgcount
  | defaultQuota
  | defaultMaxmsgcount
  | flag (which : Flag)
  | permAccount
  | permAlias
  | permForward
  | permAutoresponder
  | permMaillist
  | permQuota
  | permDefaultquota

def Setting.name : Setting → String
  | maxpopaccounts => "maxpopaccounts"
  | maxaliases => "maxaliases"
  | maxforwards => "maxforwards"
  | maxautoresponders => "maxautoresponders"
  | maxmailinglists => "maxmailinglists"
  | quota => "quota"
  | maxmsgcount => "maxmsgcount"
  | defaultQuota => "default_quota"
  | defaultMaxmsgcount => "default_maxmsgcount"
  | flag .disablePop => "disable_pop"
  | flag .disableImap => "disable_imap"
  | flag .disableDialup => "disable_dialup"
  | flag .disablePasswordchanging => "disable_password_changing"
  | flag .disableRelay => "disable_external_relay"
  | flag .disableSmtp => "disable_smtp"
  | flag .disableWebmail => "disable_webmail"
  | flag .disableSpamassassin => "disable_spamassassin"
  | flag .deleteSpam => "delete_spam"
  | flag .disableMaildrop => "disable_maildrop"
  | permAccount => "perm_account"
  | permAlias => "perm_alias"
  | permForward => "perm_forward"
  | permAutoresponder => "perm_autoresponder"
  | permMaillist => "perm_maillist"
  | permQuota => "perm_quota"
  | permDefaultquota => "perm_defaultquota"

/-- The comparisons in their order. No two names are equal. -/
def Setting.all : List Setting :=
  [maxpopaccounts, maxaliases, maxforwards, maxautoresponders, maxmailinglists, quota,
    maxmsgcount, defaultQuota, defaultMaxmsgcount, flag .disablePop, flag .disableImap,
    flag .disableDialup, flag .disablePasswordchanging, flag .disableRelay, flag .disableSmtp,
    flag .disableWebmail, flag .disableSpamassassin, flag .deleteSpam, flag .disableMaildrop,
    permAccount, permAlias, permForward, permAutoresponder, permMaillist, permQuota,
    permDefaultquota]

def settingOf (name : List Char) : Option Setting :=
  Setting.all.find? fun setting => setting.name.toList = name

/-- `atoi` into an `int`. -/
def readNumber (value : List Char) : BitVec 32 := BitVec.ofInt 32 (Decimal.atoi value)

/-- `atoi(value) & VLIMIT_DISABLE_ALL` into a `short`. -/
def readMask (value : List Char) : BitVec 16 := (readNumber value &&& 7).setWidth 16

/-- What the reader does for a setting with a value. Flags need none. -/
def Setting.read (limits : Vlimits) (value : List Char) : Setting → Vlimits
  | maxpopaccounts => { limits with maxpopaccounts := readNumber value }
  | maxaliases => { limits with maxaliases := readNumber value }
  | maxforwards => { limits with maxforwards := readNumber value }
  | maxautoresponders => { limits with maxautoresponders := readNumber value }
  | maxmailinglists => { limits with maxmailinglists := readNumber value }
  | quota => { limits with diskquota := readNumber value }
  | maxmsgcount => { limits with maxmsgcount := readNumber value }
  | defaultQuota => { limits with defaultquota := readNumber value }
  | defaultMaxmsgcount => { limits with defaultmaxmsgcount := readNumber value }
  | flag which => which.set limits 1
  | permAccount => { limits with permAccount := readMask value }
  | permAlias => { limits with permAlias := readMask value }
  | permForward => { limits with permForward := readMask value }
  | permAutoresponder => { limits with permAutoresponder := readMask value }
  | permMaillist =>
      let perm := BitVec.ofInt 64 (Decimal.atol value)
      { limits with
        permMaillist := (perm &&& 7).setWidth 16
        permMaillistUsers := (perm >>> vlimitDisableBits &&& 7).setWidth 16
        permMaillistModerators :=
          (perm >>> vlimitDisableBits >>> vlimitDisableBits &&& 7).setWidth 16 }
  | permQuota => { limits with permQuota := readMask value }
  | permDefaultquota => { limits with permDefaultquota := readMask value }

/-- Without a value only a flag means something. -/
def Setting.apply (limits : Vlimits) (value : Option (List Char)) (setting : Setting) :
    Vlimits :=
  match value with
  | some value => setting.read limits value
  | none =>
      match setting with
      | flag which => which.set limits 1
      | _ => limits

def settingDelimits (char : Char) : Bool := char = ' ' || char = '\t' || char = ':'

/-- Name and value of a line. -/
def splitSetting (line : List Char) : List Char × Option (List Char) :=
  (line.takeWhile fun char => !settingDelimits char,
    match line.dropWhile fun char => !settingDelimits char with
    | [] => none
    | _ :: rest => some (rest.dropWhile settingDelimits))

def applyLine (limits : Vlimits) (line : List Char) : Vlimits :=
  if line = [] ∨ line.head? = some '#' then limits
  else
    let (name, value) := splitSetting line
    match settingOf name with
    | none => limits
    | some setting => setting.apply limits value

/-! ## Lines that were written -/

namespace Setting

theorem settingOf_name (setting : Setting) : settingOf setting.name.toList = some setting := by
  cases setting with
  | flag which => cases which <;> rfl
  | _ => rfl

theorem name_plain (setting : Setting) :
    setting.name.toList.all (fun char => !settingDelimits char) = true := by
  cases setting with
  | flag which => cases which <;> rfl
  | _ => rfl

theorem name_eq_cons (setting : Setting) :
    ∃ first others, setting.name.toList = first :: others ∧ first ≠ '#' := by
  cases setting with
  | flag which => cases which <;> exact ⟨_, _, rfl, by decide⟩
  | _ => exact ⟨_, _, rfl, by decide⟩

/-- A line that begins with the name of a setting is neither blank nor a comment. -/
theorem name_begins (setting : Setting) (rest : List Char) :
    ¬(setting.name.toList ++ rest = [] ∨
      (setting.name.toList ++ rest).head? = some '#') := by
  rcases setting.name_eq_cons with ⟨first, others, name, letter⟩
  rw [name]
  simp [letter]

end Setting

theorem dropWhile_settingDelimits_spellInt (value : Int) :
    (Decimal.spellInt value).dropWhile settingDelimits = Decimal.spellInt value := by
  cases spelled : Decimal.spellInt value with
  | nil => rfl
  | cons char rest =>
      have member : char ∈ Decimal.spellInt value := spelled ▸ List.mem_cons_self
      have notBlank : char ≠ ' ' := fun equal =>
        Decimal.not_mem_spellInt (by decide) (by decide) value (equal ▸ member)
      have notTab : char ≠ '\t' := fun equal =>
        Decimal.not_mem_spellInt (by decide) (by decide) value (equal ▸ member)
      have notColon : char ≠ ':' := fun equal =>
        Decimal.not_mem_spellInt (by decide) (by decide) value (equal ▸ member)
      have plain : settingDelimits char = false := by
        simp [settingDelimits, notBlank, notTab, notColon]
      rw [List.dropWhile_cons_of_neg (by simp [plain])]

theorem applyLine_numberLine (limits : Vlimits) (setting : Setting) (value : BitVec 32) :
    applyLine limits (numberLine setting.name value) =
      setting.read limits (Decimal.spellInt value.toInt) := by
  have kept := List.all_eq_true.mp setting.name_plain
  have split : splitSetting (numberLine setting.name value) =
      (setting.name.toList, some (Decimal.spellInt value.toInt)) := by
    have separator : ": ".toList = [':', ' '] := rfl
    rw [splitSetting, numberLine, separator, List.append_assoc,
      List.takeWhile_append_of_pos kept, List.dropWhile_append_of_pos kept]
    simp [settingDelimits, dropWhile_settingDelimits_spellInt]
  rw [applyLine, numberLine, List.append_assoc, if_neg (setting.name_begins _)]
  rw [numberLine, List.append_assoc] at split
  rw [split]
  simp only [setting.settingOf_name]
  rfl

theorem foldl_numberLine_cons (limits : Vlimits) (setting : Setting) (value : BitVec 32)
    (lines : List (List Char)) :
    (numberLine setting.name value :: lines).foldl applyLine limits =
      lines.foldl applyLine (setting.read limits (Decimal.spellInt value.toInt)) := by
  rw [List.foldl_cons, applyLine_numberLine]

theorem applyLine_name (limits : Vlimits) (which : Flag) :
    applyLine limits (Setting.flag which).name.toList = which.set limits 1 := by
  have kept := List.all_eq_true.mp (Setting.flag which).name_plain
  have split : splitSetting (Setting.flag which).name.toList =
      ((Setting.flag which).name.toList, none) := by
    rw [splitSetting, List.takeWhile_eq_self_iff.mpr kept, List.dropWhile_eq_nil_iff.mpr kept]
  have begins := (Setting.flag which).name_begins []
  rw [List.append_nil] at begins
  rw [applyLine, if_neg begins, split]
  simp only [(Setting.flag which).settingOf_name]
  rfl

/-- The line of a flag is there just when it has to be read. -/
theorem foldl_flagLine (which : Flag) {limits : Vlimits} {flag : BitVec 16}
    (valid : flag.toNat ≤ 1) (blank : which.get limits = 0) :
    (flagLine (Setting.flag which).name flag).foldl applyLine limits = which.set limits flag := by
  by_cases zero : flag = 0
  · have same := which.set_get limits
    rw [blank] at same
    rw [flagLine, if_neg (not_not_intro zero), zero, same]
    rfl
  · have one : flag = 1 := by
      have positive : flag.toNat ≠ 0 := fun equal =>
        zero (BitVec.eq_of_toNat_eq equal)
      apply BitVec.eq_of_toNat_eq
      have value : flag.toNat = 1 := by omega
      exact value
    rw [flagLine, if_pos zero, List.foldl_cons, List.foldl_nil, applyLine_name, one]

/-! ## Masks -/

theorem exists_mask {mask : BitVec 16} (valid : mask.toNat ≤ 7) :
    ∃ value : Fin 8, mask = BitVec.ofNat 16 value := by
  refine ⟨⟨mask.toNat, Nat.lt_succ_of_le valid⟩, ?_⟩
  simp

theorem packPermissions_and (first second third : Fin 8) :
    ((packPermissions (BitVec.ofNat 16 first) (BitVec.ofNat 16 second)
      (BitVec.ofNat 16 third)) &&& 7).setWidth 16 = BitVec.ofNat 16 first := by
  revert first second third
  decide +kernel

@[simp] theorem readNumber_spellInt (value : BitVec 32) :
    readNumber (Decimal.spellInt value.toInt) = value :=
  Decimal.ofInt_atoi_spellInt_toInt value

/-- Only the first of three packed masks is read back as a mask. -/
theorem readMask_packPermissions {first second third : BitVec 16} (firstValid : first.toNat ≤ 7)
    (secondValid : second.toNat ≤ 7) (thirdValid : third.toNat ≤ 7) :
    readMask (Decimal.spellInt (packPermissions first second third).toInt) = first := by
  rcases exists_mask firstValid with ⟨first, rfl⟩
  rcases exists_mask secondValid with ⟨second, rfl⟩
  rcases exists_mask thirdValid with ⟨third, rfl⟩
  rw [readMask, readNumber_spellInt, packPermissions_and]

theorem readMask_signExtend {mask : BitVec 16} (valid : mask.toNat ≤ 7) :
    readMask (Decimal.spellInt (mask.signExtend 32).toInt) = mask := by
  have alone : packPermissions mask 0 0 = mask.signExtend 32 := by
    simp [packPermissions]
  rw [← alone]
  exact readMask_packPermissions valid (by decide) (by decide)

/-- A single mask read where three are expected. -/
theorem unpack_signExtend {mask : BitVec 16} (valid : mask.toNat ≤ 7) :
    let perm := BitVec.ofInt 64 (Decimal.atol (Decimal.spellInt (mask.signExtend 32).toInt))
    (perm &&& 7).setWidth 16 = mask ∧
      (perm >>> vlimitDisableBits &&& 7).setWidth 16 = (0 : BitVec 16) ∧
      (perm >>> vlimitDisableBits >>> vlimitDisableBits &&& 7).setWidth 16 = (0 : BitVec 16) := by
  rw [Decimal.atol_spellInt_toInt]
  rcases exists_mask valid with ⟨value, rfl⟩
  clear valid
  revert value
  decide +kernel

section Lines

variable (limits start : Vlimits)

def numberLines : List (List Char) :=
  [numberLine Setting.maxpopaccounts.name limits.maxpopaccounts,
    numberLine Setting.maxaliases.name limits.maxaliases,
    numberLine Setting.maxforwards.name limits.maxforwards,
    numberLine Setting.maxautoresponders.name limits.maxautoresponders,
    numberLine Setting.maxmailinglists.name limits.maxmailinglists,
    numberLine Setting.quota.name limits.diskquota,
    numberLine Setting.maxmsgcount.name limits.maxmsgcount,
    numberLine Setting.defaultQuota.name limits.defaultquota,
    numberLine Setting.defaultMaxmsgcount.name limits.defaultmaxmsgcount]

/-- The flags in the order in which they are written. -/
def writtenFlags : List Flag :=
  [.disablePop, .disableImap, .disableDialup, .disablePasswordchanging, .disableWebmail,
    .disableRelay, .disableSmtp, .disableSpamassassin, .deleteSpam, .disableMaildrop]

def flagLines : List (List Char) :=
  writtenFlags.flatMap fun which => flagLine (Setting.flag which).name (which.get limits)

def maskLines : List (List Char) :=
  [numberLine Setting.permAccount.name (limits.permAccount.signExtend 32),
    numberLine Setting.permAlias.name (limits.permAlias.signExtend 32),
    numberLine Setting.permForward.name (limits.permForward.signExtend 32),
    numberLine Setting.permAutoresponder.name (limits.permAutoresponder.signExtend 32),
    numberLine Setting.permMaillist.name (limits.permMaillist.signExtend 32),
    numberLine Setting.permQuota.name (packPermissions limits.permQuota
      limits.permMaillistUsers limits.permMaillistModerators),
    numberLine Setting.permDefaultquota.name (limits.permDefaultquota.signExtend 32)]

theorem limitsLines_eq :
    limitsLines limits = numberLines limits ++ flagLines limits ++ maskLines limits := by
  simp only [limitsLines, numberLines, flagLines, maskLines, writtenFlags, List.flatMap_cons,
    List.flatMap_nil, List.append_assoc, List.append_nil]
  rfl

theorem foldl_numberLines :
    (numberLines limits).foldl applyLine start =
      { start with
        maxpopaccounts := limits.maxpopaccounts
        maxaliases := limits.maxaliases
        maxforwards := limits.maxforwards
        maxautoresponders := limits.maxautoresponders
        maxmailinglists := limits.maxmailinglists
        diskquota := limits.diskquota
        maxmsgcount := limits.maxmsgcount
        defaultquota := limits.defaultquota
        defaultmaxmsgcount := limits.defaultmaxmsgcount } := by
  simp only [numberLines, foldl_numberLine_cons, List.foldl_nil,
    Setting.read, readNumber_spellInt]

/-- Every flag is still blank when its line comes. -/
theorem foldl_flagLine_each {limits : Vlimits} (valid : limits.Valid) {flags : List Flag}
    (once : flags.Nodup) {start : Vlimits} (blank : ∀ which ∈ flags, which.get start = 0) :
    (flags.flatMap fun which => flagLine (Setting.flag which).name (which.get limits)).foldl
        applyLine start =
      flags.foldl (fun read which => which.set read (which.get limits)) start := by
  induction flags generalizing start with
  | nil => rfl
  | cons first flags induction =>
      rcases List.nodup_cons.mp once with ⟨absent, others⟩
      have firstRead := foldl_flagLine first (valid.flag first)
        (blank first List.mem_cons_self)
      rw [List.flatMap_cons, List.foldl_append, firstRead, List.foldl_cons]
      apply induction others
      intro which member
      have different : which ≠ first := fun equal => absent (equal ▸ member)
      rw [Flag.get_set_of_ne different]
      exact blank which (List.mem_cons_of_mem first member)

theorem foldl_flagLines {limits : Vlimits} (valid : limits.Valid) {start : Vlimits}
    (blank : ∀ which : Flag, which.get start = 0) :
    (flagLines limits).foldl applyLine start =
      { start with
        disablePop := limits.disablePop
        disableImap := limits.disableImap
        disableDialup := limits.disableDialup
        disablePasswordchanging := limits.disablePasswordchanging
        disableWebmail := limits.disableWebmail
        disableRelay := limits.disableRelay
        disableSmtp := limits.disableSmtp
        disableSpamassassin := limits.disableSpamassassin
        deleteSpam := limits.deleteSpam
        disableMaildrop := limits.disableMaildrop } := by
  rw [flagLines, foldl_flagLine_each valid (by decide) fun which _ => blank which]
  simp only [writtenFlags, List.foldl_cons, List.foldl_nil, Flag.set, Flag.get]

theorem foldl_maskLines {limits : Vlimits} (valid : limits.Valid) (start : Vlimits) :
    (maskLines limits).foldl applyLine start =
      { start with
        permAccount := limits.permAccount
        permAlias := limits.permAlias
        permForward := limits.permForward
        permAutoresponder := limits.permAutoresponder
        permMaillist := limits.permMaillist
        permMaillistUsers := 0
        permMaillistModerators := 0
        permQuota := limits.permQuota
        permDefaultquota := limits.permDefaultquota } := by
  have maillist := unpack_signExtend valid.permMaillist
  simp only [maskLines, foldl_numberLine_cons, List.foldl_nil,
    Setting.read, readMask_signExtend valid.permAccount, readMask_signExtend valid.permAlias,
    readMask_signExtend valid.permForward, readMask_signExtend valid.permAutoresponder,
    readMask_signExtend valid.permDefaultquota, readMask_packPermissions valid.permQuota
      valid.permMaillistUsers valid.permMaillistModerators, maillist.1, maillist.2.1,
    maillist.2.2]

/-- The lines give back the limits, but for the two masks that the writer packs
where the reader does not look for them. -/
theorem foldl_limitsLines {limits : Vlimits} (valid : limits.Valid) :
    (limitsLines limits).foldl applyLine vdefaultLimits =
      { limits with permMaillistUsers := 0, permMaillistModerators := 0 } := by
  have blank : ∀ which : Flag,
      which.get ((numberLines limits).foldl applyLine vdefaultLimits) = 0 := by
    intro which
    rw [foldl_numberLines]
    cases which <;> rfl
  rw [limitsLines_eq, List.foldl_append, List.foldl_append, foldl_maskLines valid,
    foldl_flagLines valid blank, foldl_numberLines]

end Lines

end Vpopmail
