import Vpopmail.Foundation.Buffer
import Vpopmail.Foundation.Decimal
import Vpopmail.Foundation.Directory
import Vpopmail.Vpasswd

/-! # The openldap password store

The functions of `vopenldap.c` that read and change the entry of an account.
-/

namespace Vpopmail.Vopenldap

open Vpopmail Text Buffer Directory

/-! ## Accounts -/

/-- `g_pw`, in which a missing attribute leaves a null pointer. -/
structure UserResult where
  pwName : Option (List Char)
  pwPasswd : Option (List Char)
  pwUid : BitVec 32
  pwGid : BitVec 32
  pwFlags : BitVec 32
  pwGecos : Option (List Char)
  pwDir : Option (List Char)
  pwShell : Option (List Char)
  pwClearPasswd : Option (List Char)
  deriving DecidableEq

/-- The configuration of the process. `defaultDomain` is the result of
`vset_default_domain` for a blank domain. -/
structure Site where
  server : Server
  basedn : List Char
  defaultDomain : List Char

/-- The entries of the server, and whether `g_pw` holds a pointer that did not
come from `malloc`. -/
structure Store where
  directory : List Entry
  foreign : Bool

/-! ## Names -/

def dnSize : Nat := 1024

/-- `create_dn`, which returns no value at all for an empty domain. -/
def createDn (site : Site) (user : Option (List Char)) (domain : List Char) :
    Checked (Option (List Char)) :=
  if domain = [] then .error .outOfBounds
  else
    let front :=
      match user with
      | none => []
      | some user => "uid=".toList ++ user ++ [',']
    let dn := front ++ "o=".toList ++ domain ++ ',' :: site.basedn
    .ok (if dn.length ≥ dnSize then none else some dn)

/-! ## Reading -/

/-- `use_user_result` on a cleared `g_pw`. -/
def useUserResult (msg : Entry) : UserResult :=
  let value := fun kind : String => (msg.values kind.toList).head?
  let number := fun kind : String => BitVec.ofInt 32 (((value kind).map Decimal.atoi).getD 0)
  { pwName := value "uid"
    pwPasswd := value "userPassword"
    pwUid := number "pw-uid"
    pwGid := number "pw-gid"
    pwFlags := 0
    pwGecos := value "cn"
    pwDir := value "pw-dir"
    pwShell := value "pw-shell"
    pwClearPasswd := value "pw-clear-passwd" }

/-- `auth_getpw`, whose first act is `free_user_result`. A pointer that did not
come from `malloc` cannot be freed. -/
def authGetpw (site : Site) (store : Store) (user domain : List Char) :
    Checked (Option UserResult × Store) :=
  if store.foreign then .error .outOfBounds
  else
    (createDn site (some user) (if domain = [] then site.defaultDomain else domain)).bind fun
      | none => .ok (none, store)
      | some dn =>
          match site.server.search store.directory .base dn "(objectClass=vpopmail)".toList with
          | some (msg :: _) => .ok (some (useUserResult msg), store)
          | _ => .ok (none, store)

/-! ## Writing -/

/-- `mod_add`, which copies the value with `strdup`. -/
def modAdd (field : String) (value : Option (List Char)) : Checked Replacement :=
  match value with
  | none => .error .outOfBounds
  | some value => .ok (field.toList, [value])

/-- The names that `parse_gecos` takes from a comment. -/
def lastName (gecos : List Char) : List Char :=
  let behind := (gecos.reverse.takeWhile (· ≠ ' ')).reverse
  if gecos.length ≤ behind.length + 1 then "user".toList else behind

def givenName (gecos : List Char) : List Char :=
  if ' ' ∈ gecos then (gecos.takeWhile (· ≠ ' ')).take 511 else gecos

def parseGecos (gecos : Option (List Char)) : List Replacement :=
  let gecos := if gecos.getD [] = [] then "vpopmail user".toList else gecos.getD []
  [("cn".toList, [gecos]), ("sn".toList, [lastName gecos]), ("givenName".toList, [givenName gecos])]

/-- The modifications of `auth_setpw`. The clear password is not among them. -/
def modifications (inpw : UserResult) : Checked (List Replacement) :=
  (modAdd "pw-uid" (some (Decimal.spellInt inpw.pwUid.toInt))).bind fun uid =>
    (modAdd "pw-gid" (some (Decimal.spellInt inpw.pwGid.toInt))).bind fun gid =>
      (modAdd "pw-dir" inpw.pwDir).bind fun dir =>
        (modAdd "pw-shell" inpw.pwShell).bind fun shell =>
          (modAdd "userPassword" inpw.pwPasswd).bind fun passwd =>
            .ok ([uid, gid, dir, shell, passwd] ++ parseGecos inpw.pwGecos)

def vaInternalBufferExceeded : Int := -68
def vaQueryFailed : Int := -40

def authSetpw (site : Site) (store : Store) (inpw : UserResult) (domain : List Char) :
    Checked (Int × Store) :=
  match inpw.pwName with
  | none => .ok (VaCode.nullPointer.number, store)
  | some name =>
      (createDn site (some name) domain).bind fun
        | none => .ok (vaInternalBufferExceeded, store)
        | some dn =>
            (modifications inpw).bind fun attrs =>
              let (ret, directory) := site.server.modify store.directory dn attrs
              .ok (if ret ≠ 0 then vaQueryFailed else 0, { store with directory := directory })

/-! ## Checking a password -/

/-- The digest and the coding of its bytes. Decoding fills a buffer of 80 cells. -/
structure Digests where
  md5 : List Char → { digest : List Char // digest.length = 16 }
  base64Encode : List Char → Option (List Char)
  base64Decode : List Char → Option { cells : List Char // cells.length = 80 }

/-- `password_scheme_smd5` with a salt. -/
def passwordSchemeSmd5 (digests : Digests) (passwd salt : List Char) : Option (List Char) :=
  (digests.base64Encode ((digests.md5 (passwd ++ salt)).val ++ salt)).map fun epass =>
    "{SMD5}".toList ++ epass.takeWhile fun char => char ≠ '\r' && char ≠ '\n'

/-- `password_scheme_smd5_decode_salt`. -/
def decodeSalt (digests : Digests) (epass : List Char) : Option (List Char) :=
  (digests.base64Decode epass).map fun buf => (buf.val.drop 19).take 4

/-- `auth_crypt`, with zero for a password that is accepted and one code for all
that goes wrong. -/
def authCrypt (digests : Digests) (clearPass : List Char) (vpw : UserResult) : Int :=
  match vpw.pwPasswd with
  | none => -1
  | some passwd =>
      if fold (passwd.take 6) = fold "{SMD5}".toList then
        match (decodeSalt digests passwd).bind (passwordSchemeSmd5 digests clearPass) with
        | none => -1
        | some epass => if epass = passwd then 0 else if epass < passwd then -1 else 1
      else -1

/-- The store as `vpasswd` sees it. What the caller writes into `g_pw` lies on
its stack, or is its argument. -/
def passwordStore (site : Site) : PasswordStore Store UserResult where
  getpw := authGetpw site
  pwFlags := UserResult.pwFlags
  written := fun store pw passwd clear =>
    ({ pw with pwPasswd := some passwd, pwClearPasswd := clear <|> pw.pwClearPasswd },
      { store with foreign := true })
  setpw := authSetpw site

end Vpopmail.Vopenldap
