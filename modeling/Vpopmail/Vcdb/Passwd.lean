import Vpopmail.Names
import Vpopmail.Foundation.Buffer
import Vpopmail.Foundation.Decimal
import Vpopmail.Vcdb.StripChar

/-! # The cdb password store

The functions of `vcdb.c` that read and rewrite a domain's `vpasswd` file and
the index built from it, and the line reader `vgetent`.
-/

namespace Vpopmail.Vcdb

open Vpopmail Text Vpopmail.Stream Buffer

/-- `pwline` of `make_vpasswd_cdb`. -/
def pwlineSize : Nat := 256

/-- The cells of `pwline` as the stack happens to hold them. -/
abbrev Pwline := { cells : List Char // cells.length = pwlineSize }

/-- The process and the domain that a function works for. `assign` holds the
directory and the owner that `vget_assign` finds for the domain. -/
structure Site where
  build : Build
  noMakeIndex : Bool
  euid : BitVec 32
  domain : List Char
  assign : Option (List Char × BitVec 32)
  vpopmailDirDomains : List Char
  /-- Whether the files can be opened. -/
  filesOpen : Bool
  /-- The flags of the domain's limits, unless they cannot be read. -/
  limitsFlags : Option (BitVec 32)
  pwline : Pwline

/-- The pairs of the index, in the order in which they were added. -/
abbrev Index := List (List Char × List Char)

/-- `vpasswd` and `vpasswd.cdb`. The index may be missing. -/
structure Files where
  vpasswd : List Char
  cdb : Option Index
  deriving DecidableEq

/-! ## `make_vpasswd_cdb` -/

/-- Key and data of a line, and the cells with the terminators set. -/
def splitEntry (cells : List Char) : Checked ((List Char × List Char) × List Char) :=
  (walkTo ':' cells 0).bind fun colon =>
    let keyed := cells.set colon nul
    (walkTo '\n' keyed colon).bind fun newline =>
      let ended := keyed.set newline nul
      .ok ((cstring ended, cstring (ended.drop (colon + 1))), ended)

/-- A chunk that stops in front of the end of the file sets `feof`. -/
def hitsEof (chunk : List Char) : Bool :=
  chunk.length < pwlineSize - 1 && chunk.getLast? != some '\n'

def indexChunks (cells : List Char) : List (List Char) → Checked Index
  | [] => .ok []
  | chunk :: chunks =>
      if hitsEof chunk then .ok []
      else
        (splitEntry (storeChunk cells chunk)).bind fun (entry, cells) =>
          (indexChunks cells chunks).bind fun index => .ok (entry :: index)

/-- The index `make_vpasswd_cdb` writes when `NoMakeIndex` is not set. -/
def makeVpasswdCdb (pwline : Pwline) (vpasswd : List Char) : Checked Index :=
  indexChunks pwline.val (fgetsLoop pwlineSize vpasswd)

/-- The files after `rename(vpasswd_bak_file, vpasswd_file)` and
`make_vpasswd_cdb`. -/
def Files.install (files : Files) (site : Site) (vpasswd : List Char) : Checked Files :=
  if site.noMakeIndex then .ok { files with vpasswd := vpasswd }
  else (makeVpasswdCdb site.pwline vpasswd).map fun index => ⟨vpasswd, some index⟩

/-! ## `auth_getpw` -/

/-- `vlimits_setflags`. -/
def vlimitsSetflags (site : Site) (pw : Vqpasswd) : Vqpasswd :=
  { pw with
    pwFlags :=
      if Has pw.pwGid vOverride then pw.pwGid
      else pw.pwGid ||| site.limitsFlags.getD 0 }

/-- One step of the walk over the line, unless it has reached the end. -/
def nextField : Option (List Char) → Option (List Char) × Option (List Char)
  | none => (none, none)
  | some text =>
      let (field, rest) := cut ':' text
      (some field, rest)

/-- `if (!*text) 0 else atoi(text)`, which reads through a null pointer when
the field is missing. -/
def readId : Option (List Char) → Checked (BitVec 32)
  | none => .error .outOfBounds
  | some [] => .ok 0
  | some text => .ok (BitVec.ofInt 32 (Decimal.atoi text))

/-- The record that `auth_getpw` takes from the line `user:data`. -/
def parseLine (line : List Char) : Checked Vqpasswd :=
  let (name, rest) := cut ':' line
  let (passwd, rest) := nextField rest
  let (uid, rest) := nextField rest
  let (gid, rest) := nextField rest
  let (gecos, rest) := nextField rest
  let (dir, rest) := nextField rest
  let (shell, clear) := nextField rest
  (readId uid).bind fun uid =>
    (readId gid).bind fun gid =>
      .ok
        { pwName := name
          pwPasswd := passwd.getD []
          pwUid := uid
          pwGid := gid
          pwFlags := 0
          pwGecos := gecos.getD []
          pwDir := dir.getD []
          pwShell := shell.getD []
          pwClearPasswd := some (clear.getD []) }

/-- The access check at the head of `auth_getpw` and `auth_setpw`. -/
def Site.owns (site : Site) (uid : BitVec 32) : Bool :=
  site.euid = 0 || site.euid = uid

/-- The index that `auth_getpw` opens. A missing one is made first. -/
def openIndex (site : Site) (files : Files) : Option (Checked Index) :=
  match files.cdb with
  | some index => some (.ok index)
  | none =>
      if site.noMakeIndex || !site.filesOpen then none
      else some (makeVpasswdCdb site.pwline files.vpasswd)

def authGetpw (site : Site) (files : Files) (user : List Char) :
    Checked (Option Vqpasswd) :=
  match site.assign with
  | none => .ok none
  | some (_, uid) =>
      if !site.owns uid then .ok none
      else
        match openIndex site files with
        | none => .ok none
        | some index =>
            index.bind fun index =>
              match index.lookup (lowerit user) with
              | none => .ok none
              | some data =>
                  (parseLine (lowerit user ++ ':' :: data)).bind fun pw =>
                    .ok (some (vlimitsSetflags site pw))

/-! ## `auth_getall` -/

/-- `vgetent` on the chunk that `fgets` has put into its line buffer. -/
def vgetentLine (build : Build) (chunk : List Char) : Option Vqpasswd :=
  let line := cstring chunk
  if line.count ':' < 6 then none
  else
    let (name, rest) := cut ':' line
    let (passwd, rest) := cut ':' (rest.getD [])
    let (uid, rest) := cut ':' (rest.getD [])
    let (gid, rest) := cut ':' (rest.getD [])
    let (gecos, rest) := cut ':' (rest.getD [])
    let (dir, rest) := cut ':' (rest.getD [])
    let tail := rest.getD []
    let stops := fun char : Char => char = ':' || char = '\n'
    let shell := tail.takeWhile fun char => !stops char
    let clear := ((tail.dropWhile fun char => !stops char).drop 1).takeWhile (· ≠ '\n')
    some
      { pwName := name
        pwPasswd := passwd
        pwUid := BitVec.ofInt 32 (Decimal.atoi uid)
        pwGid := BitVec.ofInt 32 (Decimal.atoi gid)
        pwFlags := 0
        pwGecos := gecos
        pwDir := dir
        pwShell := shell
        pwClearPasswd := if build.clearPass then some clear else none }

/-- Records up to the first line that is none. -/
def vgetentLoop (build : Build) : List (List Char) → List Vqpasswd
  | [] => []
  | chunk :: chunks =>
      match vgetentLine build chunk with
      | none => []
      | some pw => pw :: vgetentLoop build chunks

/-- The records of successive `auth_getall` calls. -/
def authGetall (site : Site) (files : Files) : List Vqpasswd :=
  (vgetentLoop site.build (fgetsLoop maxBuff files.vpasswd)).map (vlimitsSetflags site)

/-! ## Writing -/

/-- `vcheck_vqpw`. -/
def vcheckVqpw (build : Build) (inpw : Vqpasswd) (domain : List Char) : VaCode :=
  if build.clearPass && inpw.pwClearPasswd.isNone then .nullPointer
  else if inpw.pwName.length > maxPwName then .userNameTooLong
  else if build.usersBigDir && inpw.pwName.length = 1 then .illegalUsername
  else if domain.length > maxPwDomain then .domainNameTooLong
  else if inpw.pwPasswd.length > maxPwPass then .passwdTooLong
  else if inpw.pwGecos.length > maxPwGecos then .gecosTooLong
  else if inpw.pwDir.length > maxPwDir then .dirTooLong
  else if inpw.pwShell.length > maxPwQuota then .quotaTooLong
  else if build.clearPass && (inpw.pwClearPasswd.getD []).length > maxPwClearPasswd then
    .clearPasswdTooLong
  else .success

/-- What `vcheck_vqpw` admits. -/
structure Admitted (build : Build) (pw : Vqpasswd) (domain : List Char) : Prop where
  clearGiven : build.clearPass = true → pw.pwClearPasswd.isNone = false
  name : pw.pwName.length ≤ maxPwName
  nameOfDir : build.usersBigDir = true → pw.pwName.length ≠ 1
  domain : domain.length ≤ maxPwDomain
  passwd : pw.pwPasswd.length ≤ maxPwPass
  gecos : pw.pwGecos.length ≤ maxPwGecos
  dir : pw.pwDir.length ≤ maxPwDir
  shell : pw.pwShell.length ≤ maxPwQuota
  clear : build.clearPass = true → (pw.pwClearPasswd.getD []).length ≤ maxPwClearPasswd

theorem ite_eq_success_iff {condition : Prop} [Decidable condition] {code rest : VaCode}
    (failure : code ≠ .success) :
    (if condition then code else rest) = .success ↔ ¬condition ∧ rest = .success := by
  split <;> simp_all

theorem vcheckVqpw_eq_success_iff (build : Build) (pw : Vqpasswd) (domain : List Char) :
    vcheckVqpw build pw domain = .success ↔ Admitted build pw domain := by
  rw [vcheckVqpw, ite_eq_success_iff (by decide), ite_eq_success_iff (by decide),
    ite_eq_success_iff (by decide), ite_eq_success_iff (by decide),
    ite_eq_success_iff (by decide), ite_eq_success_iff (by decide),
    ite_eq_success_iff (by decide), ite_eq_success_iff (by decide),
    ite_eq_success_iff (by decide)]
  simp only [Bool.and_eq_true, decide_eq_true_eq, not_and, gt_iff_lt, Nat.not_lt, and_true,
    Bool.not_eq_true]
  constructor
  · intro holds
    rcases holds with
      ⟨clearGiven, name, nameOfDir, domain, passwd, gecos, dir, shell, clear⟩
    exact ⟨clearGiven, name, nameOfDir, domain, passwd, gecos, dir, shell, clear⟩
  · intro admitted
    exact ⟨admitted.clearGiven, admitted.name, admitted.nameOfDir, admitted.domain,
      admitted.passwd, admitted.gecos, admitted.dir, admitted.shell, admitted.clear⟩

/-- The line `auth_setpw` prints for a record. -/
def vpasswdLine (build : Build) (pw : Vqpasswd) : List Char :=
  pw.pwName ++ ':' :: pw.pwPasswd ++ ':' :: Decimal.spellInt pw.pwUid.toInt ++
    ':' :: Decimal.spellInt pw.pwGid.toInt ++ ':' :: pw.pwGecos ++ ':' :: pw.pwDir ++
    ':' :: pw.pwShell ++
    (if build.clearPass then ':' :: pw.pwClearPasswd.getD [] else []) ++ ['\n']

/-- The name a copying loop compares, the first token of its line. The null
pointer of a line without one goes straight into `strcmp`. -/
def lineName (delimiter : Char → Bool) (chunk : List Char) : Checked (List Char) :=
  match strtok delimiter (cstring chunk) with
  | none => .error .outOfBounds
  | some (token, _) => .ok token

def colonDelimits (char : Char) : Bool := char = ':'

def colonNewlineDelimits (char : Char) : Bool := char = ':' || char = '\n'

/-- The copying loop of `auth_setpw`. -/
def copyReplacing (name line : List Char) : List (List Char) → Checked (List Char)
  | [] => .ok []
  | chunk :: chunks =>
      (lineName colonNewlineDelimits chunk).bind fun token =>
        (copyReplacing name line chunks).bind fun rest =>
          .ok ((if name ≠ token then cstring chunk else line) ++ rest)

/-- `vcdb_strip_char( inpw->pw_clear_passwd )` of the builds without `CLEAR_PASS`, where the
pointer must not be null. The string it leaves is not printed. -/
def stripClear (build : Build) (pwClearPasswd : Option (List Char)) : Checked Unit :=
  if build.clearPass then .ok ()
  else
    match pwClearPasswd with
    | none => .error .outOfBounds
    | some clear => (vcdbStripChar clear).map fun _ => ()

def authSetpw (site : Site) (files : Files) (inpw : Vqpasswd) : Checked (Int × Files) :=
  let ret := vcheckVqpw site.build inpw site.domain
  if ret ≠ .success then .ok (ret.number, files)
  else if !site.owns ((site.assign.map (·.2)).getD 0) then .ok (VaCode.badUid.number, files)
  else if !site.filesOpen then .ok (-1, files)
  else
    (vcdbStripChar inpw.pwGecos).bind fun gecos =>
      (stripClear site.build inpw.pwClearPasswd).bind fun _ =>
        (copyReplacing inpw.pwName (vpasswdLine site.build { inpw with pwGecos := gecos })
            (fgetsLoop maxBuff files.vpasswd)).bind fun vpasswd =>
          (files.install site vpasswd).map fun after => (0, after)

/-- The copying loop of `auth_deluser`. -/
def copyWithout (user : List Char) : List (List Char) → Checked (List Char)
  | [] => .ok []
  | chunk :: chunks =>
      (lineName colonDelimits chunk).bind fun token =>
        (copyWithout user chunks).bind fun rest =>
          .ok ((if user ≠ token then cstring chunk else []) ++ rest)

def authDeluser (site : Site) (files : Files) (user : List Char) : Checked (Int × Files) :=
  if !site.filesOpen then .ok (-1, files)
  else
    (copyWithout user (fgetsLoop maxBuff files.vpasswd)).bind fun vpasswd =>
      (files.install site vpasswd).map fun after => (0, after)

/-- `auth_adduser_line`. The encrypted password goes through a buffer of 100
cells, the directory through one of 156. -/
def authAdduserLine (site : Site) (crypt : List Char → List Char)
    (user pass gecos dir : List Char) (usePop : Bool) : List Char :=
  let crypted := if pass = [] then [] else (crypt pass).take 99
  let base := ((site.assign.map (·.1)).getD site.vpopmailDirDomains).take 155
  let users := if site.domain = [] then "/users".toList else []
  let hash := if dir = [] then [] else '/' :: dir
  user ++ ':' :: crypted ++ (if usePop then ":1:" else ":2:").toList ++ "0:".toList ++
    gecos ++ ':' :: base ++ users ++ hash ++ '/' :: user ++ ":NOQUOTA".toList ++
    (if site.build.clearPass then ':' :: pass else []) ++ ['\n']

/-- The copying loop of `auth_adduser`: the line goes in front of the first one
whose name is greater. -/
def copyInserting (user line : List Char) (added : Bool) :
    List (List Char) → Checked (List Char)
  | [] => .ok (if added then [] else line)
  | chunk :: chunks =>
      (lineName colonDelimits chunk).bind fun token =>
        let before := !added && decide (user < token)
        (copyInserting user line (added || before) chunks).bind fun rest =>
          .ok ((if before then line else []) ++ cstring chunk ++ rest)

/-- `auth_adduser`. A blank comment becomes the user name itself, so both are
stripped together. -/
def authAdduser (site : Site) (crypt : List Char → List Char) (files : Files)
    (user pass gecos dir : List Char) (usePop : Bool) : Checked (Int × Files) :=
  if user = "vpasswd".toList then .ok (VaCode.illegalUsername.number, files)
  else
    (vcdbStripChar (if gecos = [] then user else gecos)).bind fun stripped =>
      let user := if gecos = [] then stripped else user
      if !site.filesOpen then .ok (-1, files)
      else
        (copyInserting user (authAdduserLine site crypt user pass stripped dir usePop) false
            (fgetsLoop maxBuff files.vpasswd)).bind fun vpasswd =>
          (files.install site vpasswd).map fun after => (0, after)

end Vpopmail.Vcdb
