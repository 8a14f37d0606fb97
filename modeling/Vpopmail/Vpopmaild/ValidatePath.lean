import Vpopmail.Vpopmaild.Session
import Vpopmail.Foundation.Buffer
import Vpopmail.Foundation.Components

/-! # Paths of the file commands

`validate_path` turns the path of a client into a path of the file system and
compares it with the directory the caller may work in, character by character
from the front.
-/

namespace Vpopmail.Vpopmaild

open Vpopmail Text Components Buffer

/-- `strncat(newpath, rest, MAXPATH - strlen(newpath))`, which has room for the characters but
not for the NUL that it puts behind them. -/
def strncatPath (newpath rest : List Char) : Checked (List Char) :=
  if newpath.length + rest.length < maxpath then .ok (newpath ++ rest)
  else .error .outOfBounds

/-- A stored directory followed by the rest of the path. -/
def spellStored (directory rest : List Char) : Checked (List Char) :=
  strncatPath (snprintfPath directory) rest

/-- The loop that copies the characters in front of the first slash, at most 256 of them, and
the NUL that is stored where it stops: the arrays `theemail` and `thedomain` have 256 cells. -/
def leadingName (path : List Char) : Checked (List Char) :=
  if path.idxOf '/' < maxpath then .ok (path.takeWhile (· ≠ '/')) else .error .outOfBounds

/-- The path from where the loop stopped. -/
def afterName (path : List Char) : List Char := path.drop (path.idxOf '/')

/-- `user@domain/...`: the home directory of a user the caller may work for. -/
def expandEmail (backend : Backend) (session : Session) (path : List Char) :
    Checked (Except Refusal (List Char)) :=
  (leadingName path).bind fun theemail =>
    match parseEmail backend.defaultDomain maxpath theemail with
    | none => .ok (.error ⟨5, .invalidDirParse, 1505⟩)
    | some (theuser, thedomain) =>
        match backend.vauthGetpw theuser thedomain with
        | none => .ok (.error ⟨6, .invalidDirUnk, 1506⟩)
        | some (myvpw, thedomain) =>
            if Has session.authVpw.pwGid qaAdmin then
              if ¬session.theDomain <+: thedomain then
                .ok (.error ⟨7, .notAuthDomain, 1507⟩)
              else (spellStored myvpw.pwDir (afterName path)).map .ok
            else if ¬Has session.authVpw.pwGid saAdmin ∧
                (session.theUser ≠ theuser ∨ session.theDomain ≠ thedomain) then
              .ok (.error ⟨8, .noUser, 1508⟩)
            else (spellStored myvpw.pwDir (afterName path)).map .ok

/-- `domain/...`: the directory of any domain in the assign file. -/
def expandDomain (backend : Backend) (path : List Char) :
    Checked (Except Refusal (List Char)) :=
  (leadingName path).bind fun thedomain =>
    match backend.vgetAssign thedomain with
    | none => .ok (.error ⟨9, .notAuthDomain, 1509⟩)
    | some thedir => (spellStored thedir (afterName path)).map .ok

def expandPath (backend : Backend) (session : Session) (path : List Char) :
    Checked (Except Refusal (List Char)) :=
  if path.head? = some '/' then .ok (.ok (snprintfPath path))
  else if '/' ∉ path then .ok (.error ⟨3, .invalidDirSlash, 1503⟩)
  else if '@' ∈ path then
    if path.idxOf '/' < path.idxOf '@' then .ok (.error ⟨4, .invalidDirAt, 1504⟩)
    else expandEmail backend session path
  else expandDomain backend path

/-- The prefix test behind the expansion. -/
def checkPrefix (session : Session) (newpath : List Char) : Except Refusal (List Char) :=
  if Has session.authVpw.pwGid saAdmin then
    if session.theVpopmailDomains <+: newpath then .ok newpath
    else .error ⟨10, .unauthDir, 1510⟩
  else if Has session.authVpw.pwGid qaAdmin then
    if session.theDomainDir <+: newpath then .ok newpath
    else .error ⟨11, .unauthDir, 1511⟩
  else
    if session.theUserDir <+: newpath then .ok newpath
    else .error ⟨12, .unauthDir, 1512⟩

def validatePath (backend : Backend) (session : Session) (path : List Char) :
    Checked (Except Refusal (List Char)) :=
  if dotdot <:+: path then .ok (.error ⟨1, .invalidDirDotdot, 1501⟩)
  else if '%' ∈ path then .ok (.error ⟨2, .invalidDirPct, 1502⟩)
  else (expandPath backend session path).map fun expanded =>
    expanded.bind (checkPrefix session)

/-! ## Commands -/

/-- The commands that hand client paths to the system. -/
inductive FileCommand
  | mkDir
  | rmDir
  | listDir
  | rmFile
  | renameFile
  | writeFile
  | readFile
  | statFile
  deriving DecidableEq

/-- The reply to a missing argument. -/
def FileCommand.missing : FileCommand → Refusal
  | mkDir => ⟨-1, .dirReqd, 1601⟩
  | rmDir => ⟨-1, .dirReqd, 1701⟩
  | listDir => ⟨-1, .dirReqd, 1801⟩
  | rmFile => ⟨-1, .fnameReqd, 1901⟩
  | renameFile => ⟨-1, .sourceReqd, 3801⟩
  | writeFile => ⟨-1, .fnameReqd, 2001⟩
  | readFile => ⟨-1, .fnameReqd, 2101⟩
  | statFile => ⟨-1, .fnameReqd, 2201⟩

/-- A path argument. Commands return -1 whatever `validate_path` returns. -/
def pathArgument (backend : Backend) (session : Session) (argument : List Char) :
    Checked (Except Refusal (List Char)) :=
  (validatePath backend session argument).map fun answer =>
    answer.mapError fun refusal => { refusal with ret := -1 }

/-- The paths a command hands to the system when its arguments pass. -/
def FileCommand.touches (command : FileCommand) (backend : Backend) (session : Session)
    (arguments : List (List Char)) : Checked (Except Refusal (List (List Char))) :=
  match arguments with
  | [] => .ok (.error command.missing)
  | argument :: others =>
      if command = .renameFile then
        match others with
        | [] => .ok (.error ⟨-1, .destReqd, 3801⟩)
        | dest :: _ =>
            (pathArgument backend session argument).bind fun source =>
              match source with
              | .error refusal => .ok (.error refusal)
              | .ok sourcename =>
                  (pathArgument backend session dest).map fun target =>
                    target.map fun destname => [sourcename, destname]
      else (pathArgument backend session argument).map fun answer =>
        answer.map fun name => [name]

end Vpopmail.Vpopmaild
