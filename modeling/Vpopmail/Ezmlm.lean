import Vpopmail.Foundation.Copying
import Vpopmail.StringSearch
import Vpopmail.Vlistlib

/-! # Opening mailing lists

`listInit` sets a list up by its address with `default_options`, and `ezmlm_decode` reads its
files. The texts are kept in the cells of `listInfoType`, and a write outside of a field is a
fault.
-/

namespace Vpopmail.Ezmlm

open Text Vpopmail.Stream Buffer
open Vlistlib (maxName maxFileName qmailName sprintf)

/-! ## The structure -/

/-- `char [MAX_NAME]`. -/
abbrev Field := { cells : List Char // cells.length = maxName }

/-- The string in a field. -/
def Field.text (field : Field) : List Char := cstring field.val

theorem length_write {field : Field} {text : List Char} (short : text.length < maxName) :
    (storeChunk field.val text).length = maxName :=
  (length_storeChunk (field.property.symm ▸ short)).trans field.property

/-- A string written to a field. -/
def Field.write (field : Field) (text : List Char) : Checked Field :=
  if short : text.length < maxName then .ok ⟨storeChunk field.val text, length_write short⟩
  else .error .outOfBounds

/-- `listInfoType`. -/
structure ListInfoType where
  entry : DomainEntry
  name : Field
  posting : Nat
  access : Nat
  archive : Bool
  domainOnly : Bool
  prefixed : Bool
  replyTo : Nat
  digest : Bool
  edit : Bool
  subConf : Bool
  indexed : Bool
  unsubConf : Bool
  kill : Bool
  remoteSub : Bool
  remoteText : Bool
  isPublic : Bool
  requests : Bool
  remote : Bool
  subMod : Bool
  trailer : Bool
  warn : Bool
  extra : Bool
  sqlSupport : Bool
  sqlPort : Nat
  ownerEmail : Field
  sqlHost : Field
  sqlUser : Field
  sqlPass : Field
  sqlBase : Field
  sqlTable : Field
  dot : Field
  dir : Field
  prefixText : Field
  domain : Field
  replyToAddr : Field

def replyToSender : Nat := 1
def replyToList : Nat := 2
def replyToAddress : Nat := 3

def postingAnyone : Nat := 0
def postingSpob : Nat := 1
def postingSpom : Nat := 2
def postingMpob : Nat := 3
def postingMpom : Nat := 4

/-- What the functions find: the result of `vset_default_domain`, the domains, the users, the
files that can be opened, and what stands in a buffer behind a line. -/
structure Site where
  defaultDomain : List Char
  short : defaultDomain.length ≤ maxPwDomain
  process : AssignProcess
  scan : EntryScan
  vauthGetpw : List Char → List Char → Bool
  files : List Char → Option (List Char)
  fresh : Nat → Char

def Site.domainEntry (site : Site) (domain : List Char) : Option DomainEntry :=
  (getDomainEntry (some domain) site.process site.scan).1.1

/-! ## `default_options` -/

/-- The name and the domain of an address, or the number of the error. -/
def parts (site : Site) (address : List Char) (domainOnly : Bool) :
    Except Nat (List Char × List Char) :=
  if domainOnly then
    if '@' ∈ address then .error 4 else .ok ([], snprintf maxFileName address)
  else if '@' ∉ address then .error 1
  else
    match parseEmail site.defaultDomain maxBuff address with
    | none => .error 2
    | some names => .ok names

/-- What `default_options` does with the entry of the domain. -/
def setOptions (list : ListInfoType) (entry : DomainEntry) (name domain : List Char) :
    Checked ListInfoType := do
  let ownerEmail ← list.ownerEmail.write (snprintf maxFileName ("postmaster@".toList ++ domain))
  let replyToAddr ← list.replyToAddr.write []
  let sqlBase ← list.sqlBase.write "ezmlm".toList
  let sqlHost ← list.sqlHost.write "localhost".toList
  let sqlPass ← list.sqlPass.write "dbpass".toList
  let sqlTable ← list.sqlTable.write "ezmlm".toList
  let sqlUser ← list.sqlUser.write "dbUser".toList
  let dir ← list.dir.write (entry.path ++ '/' :: qmailName name)
  let dot ← list.dot.write (entry.path ++ '/' :: qmailPrefix ++ qmailName name)
  .ok { list with
    entry := entry
    ownerEmail := ownerEmail
    replyToAddr := replyToAddr
    sqlBase := sqlBase
    sqlHost := sqlHost
    sqlPass := sqlPass
    sqlTable := sqlTable
    sqlUser := sqlUser
    dir := dir
    dot := dot
    replyTo := replyToSender
    posting := 1
    access := 0
    sqlPort := 3306
    archive := true
    digest := false
    edit := true
    prefixed := false
    subConf := true
    indexed := false
    unsubConf := true
    kill := false
    remoteSub := false
    remoteText := false
    isPublic := true
    requests := true
    remote := false
    subMod := false
    sqlSupport := false
    trailer := false
    warn := false
    extra := false }

/-- What `default_options` does with a name and a domain. -/
def setNames (site : Site) (list : ListInfoType) (name domain : List Char) :
    Checked (Except Nat ListInfoType) := do
  let nameCells ← list.name.write name
  let domainCells ← list.domain.write domain
  match site.domainEntry domain with
  | none => .ok (.error 3)
  | some entry =>
      (setOptions { list with name := nameCells, domain := domainCells } entry name domain).map .ok

/-- `default_options`: the number of the error, or the list. -/
def defaultOptions (site : Site) (list : ListInfoType) (address : List Char)
    (domainOnly : Bool) : Checked (Except Nat ListInfoType) :=
  match parts site address domainOnly with
  | .error code => .ok (.error code)
  | .ok (name, domain) => setNames site { list with domainOnly := domainOnly } name domain

/-! ## `ezmlm_decode` -/

/-- `ezmlm_getArgs` of a line. `strchr` returns a null pointer if there is no blank, and what is
behind that is looked at. -/
def ezmlmGetArgs (line program : List Char) (argument : Char) : Checked Bool :=
  if program <:+: line then
    if ' ' ∈ line then
      let begin_ := (line.dropWhile (· ≠ ' ')).drop 1
      .ok (begin_.head? = some '-' &&
        match begin_.findIdx? (· = ' '), begin_.findIdx? (· = argument) with
        | some end_, some arg => arg < end_
        | _, _ => false)
    else .error .outOfBounds
  else .ok false

/-- The lines a loop of `fgets` into `TmpBuf2` takes of a file, up to their terminators. -/
def lines (text : List Char) : List (List Char) := (fgetsLoop maxBuff text).map cstring

/-- The file at a path that is printed to `TmpBuf`. -/
def openFile (site : Site) (path : List Char) : Checked (Option (List Char)) :=
  (sprintf maxBuff path).map site.files

/-- What `ezmlm_decode` finds out. -/
structure Decoding where
  list : ListInfoType
  moderation : Bool
  otherReject : Bool
  userPostOnly : Bool
  blockArchive : Bool
  guardArchive : Bool

def ezmlmGet : List Char := "ezmlm-get".toList
def ezmlmManage : List Char := "ezmlm-manage".toList
def ezmlmStore : List Char := "ezmlm-store".toList

/-- A line of the `-default` file. -/
def defaultLine (found : Decoding) (line : List Char) : Checked Decoding := do
  let block ← ezmlmGetArgs line ezmlmGet 'P'
  let guard ← ezmlmGetArgs line ezmlmGet 's'
  let subConf ← ezmlmGetArgs line ezmlmManage 'S'
  let unsubConf ← ezmlmGetArgs line ezmlmManage 'U'
  let remoteSub ← ezmlmGetArgs line ezmlmManage 'l'
  let remoteText ← ezmlmGetArgs line ezmlmManage 'e'
  .ok { found with
    blockArchive := found.blockArchive || block
    guardArchive := found.guardArchive || guard
    list := { found.list with
      subConf := found.list.subConf || subConf
      unsubConf := found.list.unsubConf || unsubConf
      remoteSub := found.list.remoteSub || remoteSub
      remoteText := found.list.remoteText || remoteText
      requests := found.list.requests || "ezmlm-request".toList <:+: line } }

/-- A line of the `-accept-default` file. -/
def acceptLine (found : Decoding) (line : List Char) : Decoding :=
  { found with list := { found.list with
    indexed := found.list.indexed || "ezmlm-archive".toList <:+: line } }

/-- A line of the `.qmail` file. -/
def qmailLine (found : Decoding) (line : List Char) : Checked Decoding := do
  let reject ← ezmlmGetArgs line ezmlmStore 'P'
  .ok { found with
    otherReject := found.otherReject || reject
    userPostOnly := found.userPostOnly ||
      ("ezmlm-gate".toList <:+: line || "ezmlm-issubn".toList <:+: line)
    list := { found.list with
      indexed := found.list.indexed || "ezmlm-archive".toList <:+: line } }

/-- `for (i = 0; i < bound; i++) field[i] = text[i + start]; field[i] = 0`, from `field[i]` on. -/
def copyCells (start bound : Nat) (text : List Char) : (i : Nat) → List Char → Checked (List Char)
  | _, [] => .error .outOfBounds
  | i, _ :: cells =>
      if i < bound then
        match text[i + start]? with
        | none => .error .outOfBounds
        | some char => (copyCells start bound text (i + 1) cells).map (char :: ·)
      else .ok (nul :: cells)

theorem length_copyCells {start bound : Nat} {line cells copied : List Char} {i : Nat}
    (done : copyCells start bound line i cells = .ok copied) : copied.length = cells.length := by
  induction cells generalizing i copied with
  | nil => cases done
  | cons _ cells induction =>
      rw [copyCells] at done
      split at done
      · split at done
        · cases done
        · next char _ =>
            cases later : copyCells start bound line (i + 1) cells with
            | error fault =>
                rw [later] at done
                cases done
            | ok rest =>
                rw [later] at done
                cases done
                exact congrArg (· + 1) (induction later)
      · cases done
        rfl

/-- The loop into a field. -/
def Field.copy (field : Field) (start bound : Nat) (line : List Char) : Checked Field :=
  match copied : copyCells start bound line 0 field.val with
  | .error fault => .error fault
  | .ok cells => .ok ⟨cells, (length_copyCells copied).trans field.property⟩

/-- A token copied to a field, if there is one. -/
def Field.copyToken (field : Field) : Option (List Char) → Checked Field
  | none => .ok field
  | some token => field.copy 0 token.length (token ++ [nul])

/-- What `strtok` returns with one set of delimiters after the other, up to a null pointer. -/
def tokens : List (Char → Bool) → List Char → List (List Char)
  | [], _ => []
  | delimiter :: delimiters, text =>
      match strtok delimiter text with
      | none => []
      | some (token, rest) => token :: tokens delimiters rest

def colon (char : Char) : Bool := char = ':'

def colonNewline (char : Char) : Bool := char = ':' || char = '\n'

def sqlTokens (line : List Char) : List (List Char) :=
  tokens [colon, colon, colon, colon, colon, colonNewline] line

/-- The first line of the `sql` file. Without a token a null pointer is passed to `strlen`. -/
def sqlLine (list : ListInfoType) (line : List Char) : Checked ListInfoType :=
  if sqlTokens line = [] then .error .outOfBounds
  else do
    let sqlHost ← list.sqlHost.copyToken (sqlTokens line)[0]?
    -- the second token is the port, which is not kept
    let sqlUser ← list.sqlUser.copyToken (sqlTokens line)[2]?
    let sqlPass ← list.sqlPass.copyToken (sqlTokens line)[3]?
    let sqlBase ← list.sqlBase.copyToken (sqlTokens line)[4]?
    let sqlTable ← list.sqlTable.copyToken (sqlTokens line)[5]?
    .ok { list with
      sqlHost := sqlHost
      sqlUser := sqlUser
      sqlPass := sqlPass
      sqlBase := sqlBase
      sqlTable := sqlTable }

/-- The `sql` file, which is looked for and then opened. -/
def sqlFile (list : ListInfoType) (file : Option (List Char)) : Checked ListInfoType :=
  match file with
  | none => .ok { list with sqlSupport := false }
  | some text =>
      match fgets maxBuff text with
      | none => .ok { list with sqlSupport := true }
      | some (chunk, _) => sqlLine { list with sqlSupport := true } (cstring chunk)

/-- The `prefix` file. -/
def prefixFile (list : ListInfoType) (file : Option (List Char)) : Checked ListInfoType :=
  match file with
  | none => .ok { list with prefixed := false }
  | some text =>
      match fgets maxName text with
      | none => .ok { list with prefixed := true }
      | some (chunk, _) =>
          (list.prefixText.write chunk).map fun prefixText =>
            { list with prefixed := true, prefixText := prefixText }

/-- `TmpBuf2` with a line in it. -/
def lineCells (site : Site) (line : List Char) : List Char :=
  line ++ nul :: (List.range (maxBuff - line.length - 1)).map site.fresh

/-- What is subtracted from a `size_t`. -/
def subtracted (size less : Nat) : Nat := (size + 2 ^ 64 - less) % 2 ^ 64

def replyToText : List Char := "Reply-To:".toList

/-- A line of the `headeradd` file. -/
def headerLine (site : Site) (list : ListInfoType) (line : List Char) : Checked ListInfoType :=
  if replyToText <:+: line then
    if "<#l#>@<#h#>".toList <:+: line then .ok { list with replyTo := replyToList }
    else
      (list.replyToAddr.copy 10 (subtracted line.length 11) (lineCells site line)).map
        fun replyToAddr =>
          { list with replyTo := replyToAddress, replyToAddr := replyToAddr }
  else .ok list

/-- The value of `Posting`. -/
def posting (found : Decoding) : Nat :=
  if found.moderation then
    if found.userPostOnly then postingSpom
    else if found.otherReject then postingMpob
    else postingMpom
  else if found.userPostOnly then postingSpob
  else postingAnyone

/-- The value of `Access`. -/
def access (found : Decoding) : Nat :=
  if found.blockArchive then 2 else if found.guardArchive then 1 else 0

/-- The files whose names begin with that of the `.qmail` file. -/
def decodeQmail (site : Site) (list : ListInfoType) : Checked Decoding := do
  let default ← openFile site (list.dot.text ++ "-default".toList)
  let found ← (lines (default.getD [])).foldlM defaultLine
    { list := { list with
        requests := false, remoteText := false, remoteSub := false, unsubConf := false
        subConf := false }
      moderation := false, otherReject := false, userPostOnly := false, blockArchive := false
      guardArchive := false }
  let accept ← openFile site (list.dot.text ++ "-accept-default".toList)
  let found := (lines (accept.getD [])).foldl acceptLine
    { found with list := { found.list with indexed := false } }
  let qmail ← openFile site list.dot.text
  let found ← (lines (qmail.getD [])).foldlM qmailLine found
  .ok { found with moderation := accept.isSome }

/-- The files in the directory of the list. -/
def decodeDirectory (site : Site) (list : ListInfoType) : Checked ListInfoType := do
  -- nothing is written to the path of the directory
  let dir := list.dir.text
  let sql ← openFile site (dir ++ "/sql".toList)
  let list ← sqlFile list sql
  let archived ← openFile site (dir ++ "/archived".toList)
  let digest ← openFile site (dir ++ "/digest/bouncer".toList)
  let prefixed ← openFile site (dir ++ "/prefix".toList)
  let isPublic ← openFile site (dir ++ "/public".toList)
  let remote ← openFile site (dir ++ "/remote".toList)
  let subMod ← openFile site (dir ++ "/modsub".toList)
  let trailer ← openFile site (dir ++ "/text/trailer".toList)
  let list ← prefixFile list prefixed
  let headers ← openFile site (dir ++ "/headeradd".toList)
  (lines (headers.getD [])).foldlM (headerLine site)
    { list with
      archive := archived.isSome
      digest := digest.isSome
      isPublic := isPublic.isSome
      remote := remote.isSome
      subMod := subMod.isSome
      trailer := trailer.isSome
      replyTo := replyToSender }

/-- `ezmlm_decode`. -/
def ezmlmDecode (site : Site) (list : ListInfoType) : Checked ListInfoType := do
  let found ← decodeQmail site list
  let list ← decodeDirectory site found.list
  .ok { list with posting := posting found, access := access found }

/-! ## `listInit` -/

/-- `isExistingAlias`. -/
def isExistingAlias (site : Site) (path name : List Char) : Bool :=
  (site.files (snprintf maxBuff (path ++ '/' :: qmailPrefix ++ name))).isSome

/-- `isExistingUser`. -/
def isExistingUser (site : Site) (name domain : List Char) : Bool := site.vauthGetpw name domain

/-- `isExistingAddress`. -/
def isExistingAddress (site : Site) (domain name path : List Char) : Bool :=
  isExistingUser site name domain || isExistingAlias site path name

/-- `listInit`: the number of the error, or the list. -/
def listInit (site : Site) (list : ListInfoType) (address : List Char)
    (isDomainOnly isCreating : Bool) : Checked (Except Nat ListInfoType) :=
  (defaultOptions site list address isDomainOnly).bind fun
    | .error status => .ok (.error status)
    | .ok list =>
        if isDomainOnly then .ok (.ok list)
        else if isExistingAddress site list.domain.text list.name.text list.entry.path then
          if isCreating then .ok (.error 5) else (ezmlmDecode site list).map .ok
        else if !isCreating then .ok (.error 6)
        else .ok (.ok list)

end Vpopmail.Ezmlm
