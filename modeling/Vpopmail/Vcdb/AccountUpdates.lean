import Vpopmail.Foundation.Updates
import Vpopmail.Quota
import Vpopmail.Vcdb.Lookup
import Vpopmail.Vcdb.Rewriting

/-! # Updates of an account by several processes

`vpasswd`, `vsetuserquota` and `vmoduser` read the record of a user with
`auth_getpw` and write it back as a whole with `auth_setpw`. The lock of
`auth_setpw` makes the replacement of the line one step, but the record that it
writes was read in an earlier one.
-/

namespace Vpopmail.Vcdb

open Vpopmail Text Vpopmail.Stream Buffer Interleaving Execution

/-! ## Changes -/

/-- What an update changes in a record. -/
inductive Field
  | passwd
  | shell
  | gecos
  | dir
  | gid
  deriving DecidableEq

/-- The new value of an attribute. `vmoduser` clears the flags before it sets
some. -/
inductive Change
  | passwd (crypted clear : List Char)
  | shell (quota : List Char)
  | gecos (text : List Char)
  | dir (text : List Char)
  | gid (clearFlags : Bool) (gidFlag : BitVec 32)
  deriving DecidableEq

namespace Change

def field : Change → Field
  | passwd _ _ => .passwd
  | shell _ => .shell
  | gecos _ => .gecos
  | dir _ => .dir
  | gid _ _ => .gid

/-- The assignments between `auth_getpw` and `auth_setpw`. -/
def apply (build : Build) (change : Change) (pw : Vqpasswd) : Vqpasswd :=
  match change with
  | passwd crypted clear =>
      { pw with
        pwPasswd := crypted
        pwClearPasswd := if build.clearPass then some clear else pw.pwClearPasswd }
  | shell quota => { pw with pwShell := quota }
  | gecos text => { pw with pwGecos := text }
  | dir text => { pw with pwDir := text }
  | gid clearFlags gidFlag =>
      { pw with pwGid := (if clearFlags then 0 else pw.pwGid) ||| gidFlag }

/-- The record contains the change. -/
def Holds (build : Build) (change : Change) (pw : Vqpasswd) : Prop :=
  match change with
  | passwd crypted clear =>
      pw.pwPasswd = crypted ∧ (build.clearPass = true → pw.pwClearPasswd = some clear)
  | shell quota => pw.pwShell = quota
  | gecos text => pw.pwGecos = text
  | dir text => pw.pwDir = text
  | gid clearFlags gidFlag =>
      if clearFlags then pw.pwGid = gidFlag else pw.pwGid ||| gidFlag = pw.pwGid

/-- The new value fits its field of the line. -/
def Storable : Change → Prop
  | passwd crypted clear => Plain crypted ∧ Free '\n' clear ∧ Free nul clear
  | shell quota => Plain quota
  | gecos text => Plain text
  | dir text => Plain text
  | gid _ _ => True

variable {build : Build}

theorem holds_apply (change : Change) (pw : Vqpasswd) :
    change.Holds build (change.apply build pw) := by
  cases change with
  | passwd crypted clear =>
      refine ⟨rfl, ?_⟩
      intro clearPass
      simp [apply, clearPass]
  | shell quota => rfl
  | gecos text => rfl
  | dir text => rfl
  | gid clearFlags gidFlag =>
      cases clearFlags with
      | true => simp [Holds, apply]
      | false => simp [Holds, apply, BitVec.or_assoc]

theorem holds_apply_other (change other : Change) (pw : Vqpasswd)
    (different : change.field ≠ other.field) (holds : other.Holds build pw) :
    other.Holds build (change.apply build pw) := by
  cases change <;> cases other <;> first
    | exact absurd rfl different
    | exact holds

theorem pwName_apply (change : Change) (pw : Vqpasswd) :
    (change.apply build pw).pwName = pw.pwName := by
  cases change <;> rfl

end Change

def accountChanges (build : Build) : Updates.Changes Vqpasswd Change Field where
  part := Change.field
  apply := Change.apply build
  Holds := Change.Holds build
  holds_apply := Change.holds_apply
  holds_other := Change.holds_apply_other

/-! ## Operations -/

/-- The account that the processes update. -/
structure Account where
  build : Build
  user : List Char
  domain : List Char

/-- A process that takes a step. -/
structure Process (account : Account) where
  site : Site
  built : site.build = account.build
  served : site.domain = account.domain
  makesIndex : site.noMakeIndex = false

/-- The printed sizes and the policy for passwords. -/
structure Commands where
  doubles : Doubles
  printed : ∀ value, Plain (doubles.print value)
  pwStrength : List Char → Int

/-- A command with its arguments, and the text that `mkpasswd3` returns. -/
inductive Command
  | vpasswd (password crypted : List Char)
  | vsetuserquota (quota : List Char)
  | vmoduser (change : Change)

/-- How far a command has come. -/
inductive Operation
  /-- `vpasswd` before `vauth_getpw`. -/
  | vpasswd (password crypted : List Char)
  /-- `vsetuserquota` before `vauth_getpw`. -/
  | vsetuserquota (quota : List Char)
  /-- `auth_setquota` before its checks. -/
  | authSetquota (quota : List Char)
  /-- `vmoduser` before `vauth_getpw`. -/
  | vmoduser (change : Change)
  /-- Before `auth_setpw`. -/
  | setting (change : Change) (inpw : Vqpasswd)
  | refused (field : Field) (ret : Int)
  | completed (change : Change)
  deriving DecidableEq

def userAndDomain (account : Account) : VaCode :=
  if account.user.length > maxPwName then .userNameTooLong
  else if account.build.usersBigDir && account.user.length = 1 then .illegalUsername
  else if account.domain.length > maxPwDomain then .domainNameTooLong
  else .success

/-- The checks of a command in front of its first access to the record. -/
def launch (account : Account) (commands : Commands) : Command → Operation
  | .vpasswd password crypted =>
      if userAndDomain account ≠ .success then
        .refused .passwd (userAndDomain account).number
      else if password.length > maxPwClearPasswd then
        .refused .passwd VaCode.passwdTooLong.number
      else if commands.pwStrength password ≠ 1 then
        .refused .passwd (commands.pwStrength password)
      else .vpasswd password crypted
  | .vsetuserquota quota =>
      if userAndDomain account ≠ .success then
        .refused .shell (userAndDomain account).number
      else if quota.length > maxPwQuota then .refused .shell VaCode.quotaTooLong.number
      else .vsetuserquota quota
  | .vmoduser change => .vmoduser change

/-- Reading the record that is written back. -/
def readRecord (account : Account) (process : Process account) (files : Files)
    (change : Change) (failure : Int) (allowed : Vqpasswd → Prop) [DecidablePred allowed] :
    Option (Files × Option Operation) :=
  match authGetpw process.site files account.user with
  | .error _ => none
  | .ok none => some (files, some (.refused change.field failure))
  | .ok (some mypw) =>
      if allowed mypw then
        some (files, some (.setting change (change.apply account.build mypw)))
      else some (files, some (.refused change.field (-1)))

/-- The next step of a command. A fault ends the process and is no step. -/
def advance (account : Account) (commands : Commands) (process : Process account)
    (files : Files) : Operation → Option (Files × Option Operation)
  | .vpasswd password crypted =>
      readRecord account process files (.passwd crypted password) (-1)
        fun mypw => ¬Has mypw.pwFlags noPasswdChng
  | .vsetuserquota quota =>
      match authGetpw process.site files account.user with
      | .error _ => none
      | .ok none =>
          some (files, some (.refused .shell VaCode.userDoesNotExist.number))
      | .ok (some _) =>
          match formatMaildirquota commands.doubles quota with
          | .error _ => none
          | .ok formattedquota => some (files, some (.authSetquota formattedquota))
  | .authSetquota quota =>
      if userAndDomain account ≠ .success then
        some (files, some (.refused .shell (userAndDomain account).number))
      else if quota.length > maxPwQuota then
        some (files, some (.refused .shell VaCode.quotaTooLong.number))
      else
        readRecord account process files (.shell quota) VaCode.userDoesNotExist.number
          fun _ => True
  | .vmoduser change => readRecord account process files change (-1) fun _ => True
  | .setting change inpw =>
      match authSetpw process.site files inpw with
      | .error _ => none
      | .ok (ret, after) =>
          some (after, some
            (if ret = 0 then .completed change else .refused change.field ret))
  | .refused _ _ => none
  | .completed _ => none

/-- A command whose new value fits the file. -/
def Command.Storable : Command → Prop
  | .vpasswd password crypted => Change.Storable (.passwd crypted password)
  | .vsetuserquota _ => True
  | .vmoduser change => change.Storable

/-- The processes that update the account. -/
def updates (account : Account) (commands : Commands) :
    System Files Operation { command : Command // command.Storable } (Process account) where
  launch := fun command => launch account commands command.val
  advance := advance account commands

/-- The fields of a record that the build prints. -/
def stored (build : Build) (pw : Vqpasswd) : Vqpasswd :=
  { pw with
    pwFlags := 0
    pwClearPasswd := if build.clearPass then pw.pwClearPasswd else none }

/-- The record is the one that is found, with the change made. -/
def Agrees (build : Build) (change : Change) (inpw : Vqpasswd) :
    Checked (Option Vqpasswd) → Prop
  | .ok (some pw) => stored build inpw = stored build (change.apply build pw)
  | _ => False

/-- The record that `auth_setpw` is about to write is the one in the file with
the change made: the file still has every other attribute as it was read. -/
def Current (account : Account) (files : Files) (operation : Operation)
    (process : Process account) : Prop :=
  match operation with
  | .setting change inpw =>
      Agrees account.build change inpw (authGetpw process.site files account.user)
  | _ => True

/-! ## Records of well-formed files -/

/-- The files hold the record for the account, in a file of well-formed lines
and an index that was made from it. -/
structure Holding (account : Account) (files : Files) (record : Vqpasswd)
    (entries : List Entry) (entry : Entry) : Prop where
  text : files.vpasswd = vpasswdText entries
  named : ∀ entry ∈ entries, entry.name ≠ []
  fit : ∀ entry ∈ entries, entry.line.length < pwlineSize
  fresh : files.Fresh
  found : entries.find? (fun entry => entry.name = lowerit account.user) = some entry
  recorded : stored account.build (entry.record (some (entry.clear.getD []))) = record

def Stands (account : Account) (files : Files) (record : Vqpasswd) : Prop :=
  ∃ entries entry, Holding account files record entries entry

theorem stored_apply (build : Build) (change : Change) (pw : Vqpasswd) :
    stored build (change.apply build pw) = change.apply build (stored build pw) := by
  cases change with
  | passwd crypted clear =>
      cases clearPass : build.clearPass <;> simp [stored, Change.apply, clearPass]
  | shell quota => rfl
  | gecos text => rfl
  | dir text => rfl
  | gid clearFlags gidFlag => rfl

theorem holds_stored (build : Build) (change : Change) (pw : Vqpasswd) :
    change.Holds build (stored build pw) ↔ change.Holds build pw := by
  cases change with
  | passwd crypted clear =>
      cases clearPass : build.clearPass <;> simp [stored, Change.Holds, clearPass]
  | shell quota => rfl
  | gecos text => rfl
  | dir text => rfl
  | gid clearFlags gidFlag => rfl

theorem stored_found (build : Build) (entry : Entry) (site : Site) :
    stored build (entry.found site) =
      stored build (entry.record (some (entry.clear.getD []))) := rfl

section Steps

variable {account : Account} {commands : Commands} {files : Files} {record : Vqpasswd}

/-- What `auth_getpw` returns is a line of the file. -/
theorem Stands.read (stands : Stands account files record) {site : Site} {pw : Vqpasswd}
    (found : authGetpw site files account.user = .ok (some pw)) :
    ∃ entry : Entry, pw = entry.found site ∧ entry.name = lowerit account.user ∧
      stored account.build pw = record := by
  rcases stands with ⟨entries, entry, holding⟩
  rcases authGetpw_found holding.fresh holding.text found with ⟨_, other, first, same⟩
  rw [holding.found, Option.some.injEq] at first
  refine ⟨entry, first ▸ same, by simpa using List.find?_some holding.found, ?_⟩
  rw [same, ← first, stored_found]
  exact holding.recorded

theorem Stands.get (stands : Stands account files record) {site : Site} (reads : site.Reads)
    (opens : site.noMakeIndex = false) (granted : site.filesOpen = true) :
    ∃ pw, authGetpw site files account.user = .ok (some pw) ∧
      stored account.build pw = record := by
  rcases stands with ⟨entries, entry, holding⟩
  have opened : openIndex site files = some (.ok (entries.map Entry.pair)) := by
    rw [openIndex]
    cases given : files.cdb with
    | none =>
        rw [opens, granted, holding.text, makeVpasswdCdb_vpasswdText _ holding.fit]
        rfl
    | some index =>
        rcases holding.fresh index given with ⟨pwline, made⟩
        rw [holding.text, makeVpasswdCdb_vpasswdText _ holding.fit] at made
        cases made
        rfl
  refine ⟨entry.found site, ?_, ?_⟩
  · rw [authGetpw_of_opened reads opened, holding.found]
    rfl
  · rw [stored_found]
    exact holding.recorded

/-- A record that `auth_setpw` may be given. -/
structure Settable (account : Account) (change : Change) (inpw : Vqpasswd) : Prop where
  name : inpw.pwName = lowerit account.user
  plain : PlainRecord account.build inpw

theorem plainRecord_found (build : Build) (entry : Entry) (site : Site) :
    PlainRecord build (entry.found site) where
  name := entry.name_plain
  passwd := entry.passwd_plain
  gecos := entry.gecos_plain
  dir := entry.dir_plain
  shell := entry.shell_plain
  clear := by
    intro _
    cases given : entry.clear with
    | none => simp [Entry.found, vlimitsSetflags, Entry.record, given, free_nil]
    | some clear =>
        simpa [Entry.found, vlimitsSetflags, Entry.record, given] using
          entry.clearFree clear given

theorem PlainRecord.apply {build : Build} {change : Change} {pw : Vqpasswd}
    (plain : PlainRecord build pw) (storable : change.Storable) :
    PlainRecord build (change.apply build pw) := by
  cases change with
  | passwd crypted clear =>
      refine ⟨plain.name, storable.1, plain.gecos, plain.dir, plain.shell, ?_⟩
      intro clearPass
      simpa [Change.apply, clearPass] using storable.2
  | shell quota =>
      exact ⟨plain.name, plain.passwd, plain.gecos, plain.dir, storable, plain.clear⟩
  | gecos text =>
      exact ⟨plain.name, plain.passwd, storable, plain.dir, plain.shell, plain.clear⟩
  | dir text =>
      exact ⟨plain.name, plain.passwd, plain.gecos, storable, plain.shell, plain.clear⟩
  | gid clearFlags gidFlag =>
      exact ⟨plain.name, plain.passwd, plain.gecos, plain.dir, plain.shell, plain.clear⟩

/-- A successful `auth_setpw` stores the record that it is given. -/
theorem Stands.set (stands : Stands account files record) {process : Process account}
    {change : Change} {inpw : Vqpasswd} {after : Files}
    (settable : Settable account change inpw)
    (set : authSetpw process.site files inpw = .ok (0, after)) :
    Stands account after (stored account.build inpw) := by
  rcases stands with ⟨entries, entry, holding⟩
  have plain := settable.plain
  have fit : ∀ entry ∈ entries, entry.line.length < maxBuff := by
    intro other member
    exact Nat.lt_trans (holding.fit other member) (by decide)
  rcases authSetpw_cases plain.gecos.2.2 holding.text fit holding.named set with
    failed | ⟨_, accepted, there⟩
  · exact absurd rfl failed.1
  · rw [stripValue_of_free plain.gecos.1, process.built, vpasswdLine_eq_line plain] at there
    have installed : files.install process.site
        (vpasswdText (replaceEntry (printed plain) entries)) = .ok after := by
      rw [← there, ← vpasswdText_replaceEntry]
      rfl
    rcases (install_eq_ok_iff process.makesIndex _ _ _).mp installed with ⟨short, rfl⟩
    have first : entry.name = lowerit account.user := by simpa using List.find?_some holding.found
    have member := List.mem_of_find?_eq_some holding.found
    have named : lowerit account.user ≠ [] := by
      rw [← first]
      exact holding.named entry member
    refine ⟨replaceEntry (printed plain) entries, printed plain, ?_⟩
    constructor
    · rfl
    · apply forall_replaceEntry
      · show inpw.pwName ≠ []
        rw [settable.name]
        exact named
      · exact holding.named
    · exact short
    · exact fresh_ofEntries process.site.pwline short
    · have sameName : (printed plain).name = lowerit account.user := settable.name
      rw [← sameName]
      apply find_replaceEntry
      exact ⟨entry, member, sameName.trans first.symm⟩
    · rw [record_printed]
      have clearGiven := (vcheckVqpw_eq_success_iff _ _ _).mp accepted
      cases clearPass : account.build.clearPass with
      | false => simp [stored, clearPass]
      | true =>
          have given := clearGiven.clearGiven (by rw [process.built, clearPass])
          cases clear : inpw.pwClearPasswd with
          | none => simp [clear] at given
          | some text => simp [stored, printed, clearPass, clear]

end Steps

/-! ## The update protocol -/

namespace Operation

variable (account : Account)

def Sound : Operation → Prop
  | .vpasswd password crypted => Change.Storable (.passwd crypted password)
  | .vsetuserquota _ => True
  | .authSetquota quota => Change.Storable (.shell quota)
  | .vmoduser change => change.Storable
  | .setting change inpw => Settable account change inpw
  | .refused _ _ => True
  | .completed _ => True

def field : Operation → Field
  | .vpasswd _ _ => .passwd
  | .vsetuserquota _ => .shell
  | .authSetquota _ => .shell
  | .vmoduser change => change.field
  | .setting change _ => change.field
  | .refused field _ => field
  | .completed change => change.field

def completed? : Operation → Option Change
  | .completed change => some change
  | _ => none

end Operation

section Protocol

variable {account : Account} {commands : Commands} {process : Process account}
  {files after : Files} {record : Vqpasswd} {next : Option Operation}

theorem launch_sound (command : Command) (storable : command.Storable) :
    (launch account commands command).Sound account ∧
      (launch account commands command).completed? = none := by
  cases command with
  | vpasswd password crypted =>
      rw [launch]
      split
      · exact ⟨trivial, rfl⟩
      · split
        · exact ⟨trivial, rfl⟩
        · split
          · exact ⟨trivial, rfl⟩
          · exact ⟨storable, rfl⟩
  | vsetuserquota quota =>
      rw [launch]
      split
      · exact ⟨trivial, rfl⟩
      · split
        · exact ⟨trivial, rfl⟩
        · exact ⟨trivial, rfl⟩
  | vmoduser change => exact ⟨storable, rfl⟩

/-- A step that leaves the files alone and keeps the attribute. -/
structure Waits (account : Account) (field : Field) (files after : Files)
    (next : Option Operation) : Prop where
  unchanged : after = files
  stepped : ∃ stepped, next = some stepped ∧ stepped.Sound account ∧ stepped.field = field ∧
    stepped.completed? = none

theorem readRecord_waits (stands : Stands account files record) {change : Change}
    (storable : change.Storable) {failure : Int} {allowed : Vqpasswd → Prop}
    [DecidablePred allowed]
    (read : readRecord account process files change failure allowed = some (after, next)) :
    Waits account change.field files after next := by
  rw [readRecord] at read
  split at read
  · cases read
  · cases read
    exact ⟨rfl, _, rfl, trivial, rfl, rfl⟩
  · rename_i mypw found
    split at read
    · cases read
      rcases stands.read found with ⟨entry, rfl, sameName, _⟩
      have plain := plainRecord_found account.build entry process.site
      have settable : Settable account change
          (change.apply account.build (entry.found process.site)) := by
        constructor
        · rw [Change.pwName_apply]
          exact sameName
        · exact plain.apply storable
      exact ⟨rfl, _, rfl, settable, rfl, rfl⟩
    · cases read
      exact ⟨rfl, _, rfl, trivial, rfl, rfl⟩

/-- Every step but that of `auth_setpw` only reads. -/
theorem advance_waits (stands : Stands account files record) {operation : Operation}
    (sound : operation.Sound account) (notSetting : ∀ change inpw,
      operation ≠ .setting change inpw)
    (advanced : advance account commands process files operation = some (after, next)) :
    Waits account operation.field files after next := by
  cases operation with
  | vpasswd password crypted =>
      have storable : Change.Storable (.passwd crypted password) := sound
      exact readRecord_waits stands storable advanced
  | vmoduser change => exact readRecord_waits stands sound advanced
  | setting change inpw => exact absurd rfl (notSetting change inpw)
  | refused field ret => cases advanced
  | completed change => cases advanced
  | vsetuserquota quota =>
      rw [advance] at advanced
      split at advanced
      · cases advanced
      · cases advanced
        exact ⟨rfl, _, rfl, trivial, rfl, rfl⟩
      · split at advanced
        · cases advanced
        · rename_i formattedquota formatted
          cases advanced
          have plain := (ensures_plain_formatMaildirquota commands.printed quota).holds _ formatted
          exact ⟨rfl, _, rfl, plain, rfl, rfl⟩
  | authSetquota quota =>
      rw [advance] at advanced
      split at advanced
      · cases advanced
        exact ⟨rfl, _, rfl, trivial, rfl, rfl⟩
      · split at advanced
        · cases advanced
          exact ⟨rfl, _, rfl, trivial, rfl, rfl⟩
        · have storable : Change.Storable (.shell quota) := sound
          exact readRecord_waits stands storable advanced

theorem Current.found {change : Change} {inpw : Vqpasswd}
    (current : Current account files (.setting change inpw) process) :
    ∃ pw, authGetpw process.site files account.user = .ok (some pw) ∧
      stored account.build inpw = stored account.build (change.apply account.build pw) := by
  rw [Current] at current
  cases found : authGetpw process.site files account.user with
  | error fault =>
      rw [found] at current
      exact current.elim
  | ok answer =>
      rw [found] at current
      cases answer with
      | none => exact current.elim
      | some pw => exact ⟨pw, rfl, current⟩

/-- The outcomes of `auth_setpw`. -/
theorem advance_setting (stands : Stands account files record) {change : Change}
    {inpw : Vqpasswd} (settable : Settable account change inpw)
    (current : Current account files (.setting change inpw) process)
    (advanced : advance account commands process files (.setting change inpw) =
      some (after, next)) :
    Waits account change.field files after next ∨
      (Stands account after (change.apply account.build record) ∧
        next = some (.completed change)) := by
  rw [advance] at advanced
  split at advanced
  · cases advanced
  · rename_i ret written set
    rw [Option.some.injEq, Prod.mk.injEq] at advanced
    rcases advanced with ⟨rfl, rfl⟩
    by_cases success : ret = 0
    · right
      rw [if_pos success]
      refine ⟨?_, rfl⟩
      have standsAfter := stands.set settable (success ▸ set)
      rcases current.found with ⟨pw, found, unchanged⟩
      rcases stands.read found with ⟨_, _, _, same⟩
      rw [unchanged, stored_apply, same] at standsAfter
      exact standsAfter
    · left
      rw [if_neg success]
      refine ⟨?_, _, rfl, trivial, rfl, rfl⟩
      rcases stands with ⟨entries, entry, holding⟩
      have fit : ∀ entry ∈ entries, entry.line.length < maxBuff := by
        intro other member
        exact Nat.lt_trans (holding.fit other member) (by decide)
      rcases authSetpw_cases settable.plain.gecos.2.2 holding.text fit holding.named set with
        failed | succeeded
      · exact failed.2
      · exact absurd succeeded.1 success

end Protocol

def updateProtocol (account : Account) (commands : Commands) :
    Updates.Protocol (accountChanges account.build) (updates account commands)
      (Current account) where
  Stands := Stands account
  Sound := Operation.Sound account
  part := Operation.field
  completed := Operation.completed?
  part_completed := by
    intro operation change finished
    cases operation <;> cases finished
    rfl
  launched := fun command => launch_sound command.val command.property
  advanced := by
    intro process files operation record after next stands sound current advanced
    have outcome : Waits account operation.field files after next ∨
        ∃ change, operation.field = change.field ∧
          Stands account after (change.apply account.build record) ∧
          next = some (.completed change) := by
      by_cases setting : ∃ change inpw, operation = .setting change inpw
      · rcases setting with ⟨change, inpw, rfl⟩
        have set : advance account commands process files (.setting change inpw) =
          some (after, next) := advanced
        rcases advance_setting stands sound current set with waits | wrote
        · exact .inl waits
        · exact .inr ⟨change, rfl, wrote⟩
      · left
        apply advance_waits stands sound ?_ advanced
        intro change inpw equal
        exact setting ⟨change, inpw, equal⟩
    rcases outcome with ⟨rfl, stepped, there, soundAfter, sameField, unfinished⟩ |
      ⟨change, sameField, standsAfter, there⟩
    · exact ⟨stepped, there, soundAfter, sameField, .inl ⟨stands, unfinished⟩⟩
    · refine ⟨.completed change, there, trivial, sameField.symm, .inr ?_⟩
      exact ⟨change, standsAfter, rfl⟩

/-- When every `auth_setpw` writes a record that is still current, no completed
change is lost, however many processes update different attributes of the
account and whatever the order of their steps. -/
theorem completed_changes_hold {account : Account} {commands : Commands} {files : Files}
    {record : Vqpasswd} (stands : Stands account files record)
    {labels : List (Label { command : Command // command.Storable } (Process account))}
    {finish : Pool Files Operation}
    (run : Run ((updates account commands).GuardedStep (Current account)) ⟨files, []⟩ labels
      finish)
    (different : (finish.running.map Operation.field).Nodup) {site : Site} (reads : site.Reads)
    (opens : site.noMakeIndex = false) (granted : site.filesOpen = true) :
    ∃ pw, authGetpw site finish.shared account.user = .ok (some pw) ∧
      ∀ change, .completed change ∈ finish.running → change.Holds account.build pw := by
  rcases (updateProtocol account commands).run_holds stands run with ⟨after, standsAfter, kept⟩
  rcases Stands.get standsAfter reads opens granted with ⟨pw, found, same⟩
  refine ⟨pw, found, ?_⟩
  intro change member
  rw [← holds_stored, same]
  exact kept different (.completed change) member change rfl

/-! ## Two updates of one account -/

instance (build : Build) (change : Change) (inpw : Vqpasswd)
    (answer : Checked (Option Vqpasswd)) : Decidable (Agrees build change inpw answer) :=
  match answer with
  | .ok (some pw) =>
      inferInstanceAs (Decidable
        (stored build inpw = stored build (change.apply build pw)))
  | .ok none => .isFalse False.elim
  | .error _ => .isFalse False.elim

instance (account : Account) (files : Files) (operation : Operation)
    (process : Process account) : Decidable (Current account files operation process) :=
  match operation with
  | .setting change inpw =>
      inferInstanceAs (Decidable
        (Agrees account.build change inpw (authGetpw process.site files account.user)))
  | .vpasswd _ _ => .isTrue trivial
  | .vsetuserquota _ => .isTrue trivial
  | .authSetquota _ => .isTrue trivial
  | .vmoduser _ => .isTrue trivial
  | .refused _ _ => .isTrue trivial
  | .completed _ => .isTrue trivial

def bobAccount : Account := ⟨exampleCom.build, "bob".toList, "example.com".toList⟩

def bobFiles : Files := .ofEntries [bobLine]

theorem bobFiles_stand :
    Stands bobAccount bobFiles (stored exampleCom.build (bobLine.found exampleCom)) := by
  exact ⟨[bobLine], bobLine, rfl, by decide, by decide,
    fresh_ofEntries exampleCom.pwline (by decide), rfl, rfl⟩

def rootProcess : Process bobAccount := ⟨exampleCom, rfl, rfl, rfl⟩

/-- Sizes that are whole numbers. -/
def wholeNumbers : Doubles where
  Value := Int
  minusOne := -1
  atof := Decimal.atoi
  times := fun value factor => value * factor
  isMinusOne := fun value => value = -1
  print := Decimal.spellInt

def anyPassword : Commands where
  doubles := wholeNumbers
  printed := plain_spellInt
  pwStrength := fun _ => 1

def newPassword : { command : Command // command.Storable } :=
  ⟨.vpasswd "sesame".toList "y".toList, by decide, by decide, by decide⟩

def newQuota : { command : Command // command.Storable } :=
  ⟨.vsetuserquota "1000S".toList, trivial⟩

/-- Both commands start, and then the processes take their steps in an order. -/
def stepsOf (order : List Nat) :
    List (Label { command : Command // command.Storable } (Process bobAccount)) :=
  .launch newPassword :: .launch newQuota :: order.map fun index => .advance index rootProcess

def bothCompleted : List Operation :=
  [.completed (.passwd "y".toList "sesame".toList), .completed (.shell "1000S".toList)]

/-- `vsetuserquota` has found the user before the password is set, but reads the
record that it writes afterwards. -/
theorem completed_changes_hold_bob :
    ∃ finish, Run ((updates bobAccount anyPassword).GuardedStep (Current bobAccount))
        ⟨bobFiles, []⟩ (stepsOf [1, 0, 0, 1, 1]) finish ∧
      finish.running = bothCompleted ∧
      ∃ pw, authGetpw exampleCom finish.shared "bob".toList = .ok (some pw) ∧
        ∀ change, .completed change ∈ finish.running → change.Holds exampleCom.build pw := by
  have executed : ((updates bobAccount anyPassword).execute (Current bobAccount)
      ⟨bobFiles, []⟩ (stepsOf [1, 0, 0, 1, 1])).map Pool.running = some bothCompleted := by
    decide +kernel
  rcases Option.map_eq_some_iff.mp executed with ⟨finish, ran, completed⟩
  have run := (updates bobAccount anyPassword).run_of_execute ran
  have different : (finish.running.map Operation.field).Nodup := by
    rw [completed]
    decide
  exact ⟨finish, run, completed, completed_changes_hold bobFiles_stand run different
    exampleCom_reads rfl rfl⟩

/-- `vpasswd` reads the record before the quota is set and writes it afterwards.
Both commands succeed, and the old quota is back. -/
theorem quota_lost :
    ∃ finish, Run (updates bobAccount anyPassword).Step ⟨bobFiles, []⟩
        (stepsOf [1, 1, 0, 1, 0]) finish ∧
      finish.running = bothCompleted ∧
      ∃ pw, authGetpw exampleCom finish.shared "bob".toList = .ok (some pw) ∧
        ¬Change.Holds exampleCom.build (.shell "1000S".toList) pw := by
  have executed : ((updates bobAccount anyPassword).execute (fun _ _ _ => True)
      ⟨bobFiles, []⟩ (stepsOf [1, 1, 0, 1, 0])).map
        (fun finish => (finish.running, authGetpw exampleCom finish.shared "bob".toList)) =
      some (bothCompleted, .ok (some
        { bobLine.found exampleCom with
          pwPasswd := "y".toList
          pwClearPasswd := some "sesame".toList })) := by
    decide +kernel
  rcases Option.map_eq_some_iff.mp executed with ⟨finish, ran, result⟩
  rw [Prod.mk.injEq] at result
  have run := (updates bobAccount anyPassword).run_of_execute ran
  refine ⟨finish, run.weaken fun _ _ _ guarded => guarded.step, result.1, _, result.2, ?_⟩
  intro holds
  have shell : "NOQUOTA".toList = "1000S".toList := holds
  exact absurd shell (by decide)

end Vpopmail.Vcdb
