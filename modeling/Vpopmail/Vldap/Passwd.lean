import Vpopmail.ControlFiles
import Vpopmail.Foundation.Directory
import Vpopmail.Vcdb.Passwd
import Vpopmail.Vpasswd

/-! # The ldap password store

The functions of `vldap.c` that look up, add and change the entries of accounts,
and `alias_select`.
-/

namespace Vpopmail.Vldap

open Vpopmail Text Buffer Directory

/-- The process, the server and the configuration. `assign` and `assignDir` are
the results of `vget_assign`: the name and the owner that it leaves in the
variables of its caller, and the directory that it returns. -/
structure Site where
  build : Build
  encryption : Encryption
  server : Server
  connected : Bool
  euid : BitVec 32
  assign : List Char → List Char × BitVec 32
  assignDir : List Char → Option (List Char)
  basedn : List Char
  /-- The flags of the domain's limits, unless they cannot be read. -/
  limitsFlags : Option (BitVec 32)

/-- The record that `auth_getpw` fills in. A missing attribute leaves a null
pointer in three of its fields. -/
structure UserRecord where
  pwName : List Char
  pwPasswd : List Char
  pwUid : BitVec 32
  pwGid : BitVec 32
  pwFlags : BitVec 32
  pwGecos : Option (List Char)
  pwDir : Option (List Char)
  pwShell : List Char
  pwClearPasswd : Option (List Char)
  deriving DecidableEq

/-- `compose_dn`, into memory of the right size. -/
def composeDn (site : Site) (domain : List Char) : List Char :=
  "ou=".toList ++ domain ++ ',' :: site.basedn

/-! ## `auth_getpw` -/

def userFilter (user : List Char) : List Char :=
  snprintf (user.length + 32 + 1) ("(&(objectclass=qmailUser)(uid=".toList ++ user ++ "))".toList)

/-- The password behind its scheme, unless the scheme is unknown or nothing
follows it. -/
def passwordOf : List Char → Option (List Char)
  | '{' :: text =>
      match text.dropWhile (· ≠ '}') with
      | [] => none
      | _ :: passwd =>
          let scheme := text.takeWhile (· ≠ '}')
          if scheme ≠ "crypt".toList ∧ scheme ≠ "MD5".toList then none
          else if passwd = [] then none
          else some passwd
  | passwd => some passwd

/-- `vlimits_setflags`. -/
def setflags (site : Site) (pwGid : BitVec 32) : BitVec 32 :=
  if Has pwGid vOverride then pwGid else pwGid ||| site.limitsFlags.getD 0

/-- The record of an entry. -/
def recordOf (site : Site) (msg : Entry) : Option UserRecord :=
  let value := fun kind : String => (msg.values kind.toList).head?
  let number := fun kind : String => BitVec.ofInt 32 (((value kind).map Decimal.atoi).getD 0)
  (value "userPassword").bind fun stored =>
    (passwordOf stored).bind fun passwd =>
      (value "uid").map fun name =>
        { pwName := name
          pwPasswd := passwd
          pwUid := number "qmailUID"
          pwGid := number "qmailGID"
          pwFlags := setflags site (number "qmailGID")
          pwGecos := value "qmaildomain"
          pwDir := value "mailMessageStore"
          pwShell := (value "mailQuota").getD []
          pwClearPasswd := if site.build.clearPass then value "clearPassword" else none }

/-- Whether the process may read the accounts of a domain. -/
def Site.owns (site : Site) (domain : List Char) : Bool :=
  site.euid = 0 || site.euid = (site.assign (lowerit domain)).2

def authGetpw (site : Site) (directory : List Entry) (user domain : List Char) :
    Option UserRecord :=
  if !site.owns domain then none
  else if !site.connected then none
  else
    match site.server.search directory .subtree
        (composeDn site (site.assign (lowerit domain)).1) (userFilter (lowerit user)) with
    | some (msg :: _) => recordOf site msg
    | _ => none

/-! ## Writing -/

/-- A value that is printed: the size of the memory for it, and how many
characters go there, the terminator included. -/
structure Format where
  allocated : Nat
  written : Nat
  deriving DecidableEq

/-- The scheme that the writers put in front of a password. -/
def scheme (site : Site) : List Char :=
  if site.encryption.md5Passwords then "{MD5}".toList else "{crypt}".toList

/-- `safe_strdup` as the only value of an attribute. It copies no empty string. -/
def safeStrdup (text : List Char) : List (List Char) := if text = [] then [] else [text]

def userDn (site : Site) (user domain : List Char) : List Char :=
  snprintf (4 + user.length + 2 + site.basedn.length + 4 + domain.length + 1)
    ("uid=".toList ++ user ++ ", ".toList ++ composeDn site domain)

/-- The attributes in the order of `ldap_fields`. -/
def attributesOf (site : Site) (name passwd uid gid : List Char)
    (gecos dir shell clear : List (List Char)) : List Replacement :=
  [("uid".toList, safeStrdup name),
    ("userPassword".toList, [snprintf (passwd.length + 7 + 1) (scheme site ++ passwd)]),
    ("qmailUID".toList, [uid]), ("qmailGID".toList, [gid]), ("qmaildomain".toList, gecos),
    ("mailMessageStore".toList, dir), ("mailQuota".toList, shell)] ++
  (if site.build.clearPass then [("clearPassword".toList, clear)] else []) ++
  [("objectclass".toList, ["qmailUser".toList])]

/-- The values that both writers print: the password, two numbers and the name
of the entry. -/
def formatsOf (site : Site) (name passwd uid gid domain : List Char) : List Format :=
  [⟨passwd.length + 7 + 1, (snprintf (passwd.length + 7 + 1) (scheme site ++ passwd)).length + 1⟩,
    ⟨10, uid.length + 1⟩, ⟨10, gid.length + 1⟩,
    ⟨4 + name.length + 2 + site.basedn.length + 4 + domain.length + 1,
      (userDn site name domain).length + 1⟩]

/-- `auth_setpw`. -/
def authSetpw (site : Site) (directory : List Entry) (inpw : Vqpasswd) (domain : List Char) :
    Int × List Entry :=
  let ret := Vcdb.vcheckVqpw site.build inpw domain
  if ret ≠ .success then (ret.number, directory)
  else if !site.connected then (-99, directory)
  else
    let (ret, directory) := site.server.modify directory (userDn site inpw.pwName domain)
      (attributesOf site inpw.pwName inpw.pwPasswd (Decimal.spellInt inpw.pwUid.toInt)
        (Decimal.spellInt inpw.pwGid.toInt) (safeStrdup inpw.pwGecos) (safeStrdup inpw.pwDir)
        (safeStrdup inpw.pwShell) (safeStrdup (inpw.pwClearPasswd.getD [])))
    (if ret ≠ 0 then -99 else 0, directory)

/-- The values that `auth_setpw` prints. -/
def setpwFormats (site : Site) (inpw : Vqpasswd) (domain : List Char) : List Format :=
  formatsOf site inpw.pwName inpw.pwPasswd (Decimal.spellInt inpw.pwUid.toInt)
    (Decimal.spellInt inpw.pwGid.toInt) domain

/-- The directory of a new account. -/
def newDir (domDir user dir : List Char) : List Char :=
  if dir = [] then domDir ++ '/' :: user else domDir ++ '/' :: dir ++ '/' :: user

/-- The entry that `auth_adduser` adds. -/
def newEntry (site : Site) (domDir crypted user domain password gecos dir : List Char)
    (usePop : Bool) : Entry :=
  { dn := userDn site user domain
    attributes := fun _ => [] : Entry }.replaceAll
      (attributesOf site user crypted (if usePop then ['1'] else ['2']) ['0']
        (safeStrdup (if gecos = [] then user else gecos)) (safeStrdup (newDir domDir user dir))
        ["NOQUOTA".toList] [password])

/-- The values that `auth_adduser` prints, the directory among them. -/
def adduserFormats (site : Site) (domDir crypted user domain dir : List Char) (usePop : Bool) :
    List Format :=
  ⟨domDir.length + 5 + dir.length + user.length, (newDir domDir user dir).length + 1⟩ ::
    formatsOf site user crypted (if usePop then ['1'] else ['2']) ['0'] domain

def ldapAlreadyExists : Int := 68

/-- `auth_adduser`. The domain is the one that `vget_assign` leaves. -/
def authAdduser (site : Site) (directory : List Entry)
    (user domain password gecos dir : List Char) (usePop : Bool) :
    Checked (Int × List Entry) :=
  match site.assignDir (lowerit domain) with
  | none => .ok (-1, directory)
  | some domDir =>
      if !site.connected then .ok (-99, directory)
      else
        let cells := List.replicate 100 nul
        let cells := if password = [] then cells else mkpasswd3 site.encryption password cells
        (stringAt cells 0).bind fun crypted =>
          let (ret, directory) := site.server.add directory
            (newEntry site (snprintf 156 domDir) crypted user (site.assign (lowerit domain)).1
              password gecos dir usePop)
          .ok (if ret = 0 then 0
            else if ret = ldapAlreadyExists then VaCode.usernameExists.number else -99, directory)

/-! ## `alias_select` -/

def aliasFilter (name domain : List Char) : List Char :=
  snprintf 512 ("(aa=".toList ++ (if fold name ≠ fold domain then name else ['*']) ++
    '@' :: domain ++ [')'])

/-- The lines that `alias_select` and the calls of `alias_select_next` behind it
return. -/
def aliasSelect (site : Site) (directory : List Entry) (name domain : List Char) :
    List (List Char) :=
  if !site.connected then []
  else
    match site.server.search directory .subtree
        (snprintf 512 ("ou=valias,".toList ++ site.basedn)) (aliasFilter name domain) with
    | none => []
    | some found =>
        found.flatMap fun msg =>
          if msg.values "aa".toList = [] then [] else msg.values "di".toList

end Vpopmail.Vldap
