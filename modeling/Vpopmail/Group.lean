import Vpopmail.Foundation.Buffer
import Vpopmail.Foundation.Decimal
import Vpopmail.Names

/-! # Groups of mailboxes

The directory of an owner holds the settings and the members of his group in the file
`group_owner`, and the directory of each member names the owner in `group_member`.
-/

namespace Vpopmail.Groups

open Vpopmail Text Vpopmail.Stream
open Vpopmail.Buffer (Checked)

abbrev Files := List Char → Option (List Char)

def Files.set (files : Files) (path : List Char) (content : Option (List Char)) : Files :=
  fun other => if other = path then content else files other

/-! ## Accounts -/

/-- The records that `vauth_getpw` finds. `vadduser` is strict about the names in them. -/
structure Accounts where
  dir : List Char → List Char → Option (List Char)
  named : ∀ user domain path, dir user domain = some path →
    isUsernameValid user = true ∧ user.length ≤ maxPwName ∧
      isDomainValid domain = true ∧ domain.length ≤ maxPwDomain

def Accounts.delete (accounts : Accounts) (user domain : List Char) : Accounts where
  dir := fun other otherDomain =>
    if other = user ∧ otherDomain = domain then none else accounts.dir other otherDomain
  named := by
    intro other otherDomain path found
    split at found
    · cases found
    · exact accounts.named other otherDomain path found

/-! ## Groups and their surroundings -/

/-- `group_t`, whose `n_members` counts the list. -/
structure Group where
  owner : List Char
  member : List (List Char)
  datafile : List Char
  maxMembers : BitVec 32
  quota : BitVec 32
  deriving DecidableEq

def Group.nMembers (g : Group) : Int := g.member.length

/-- The real domain of an alias is `realDomain`, which also has lower case. -/
structure Site where
  realDomain : List Char → List Char
  accounts : Accounts
  files : Files
  readable : List Char → Bool
  writable : List Char → Bool
  removable : List Char → Bool
  group : Group

/-- `vauth_getpw`, which spells both names in place. -/
def Site.getpw (site : Site) (user domain : List Char) : Option (List Char) :=
  site.accounts.dir (lowerit user) (site.realDomain domain)

def address (user domain : List Char) : List Char := user ++ '@' :: domain

/-- `snprintf` into a buffer of 255 cells. -/
def bufferSize : Nat := 255

def ownerFile (dir : List Char) : List Char :=
  (dir ++ "/group_owner".toList).take (bufferSize - 1)

def memberFile (dir : List Char) : List Char :=
  (dir ++ "/group_member".toList).take (bufferSize - 1)

def groupWarning : List Char :=
  "; This file is automatically maintained - Do not edit".toList

/-- `strcasecmp` finds no difference. -/
def sameAddress (left right : List Char) : Bool := left.map lowerChar = right.map lowerChar

/-! ## Reading -/

def lineEnd (char : Char) : Bool := char = '\r' || char = '\n'

def upToLineEnd (text : List Char) : List Char := text.takeWhile fun char => !lineEnd char

/-- `fgets` into `b`, which stays as it is at the end of the stream. -/
def readLine (b stream : List Char) : List Char × List Char :=
  match fgets bufferSize stream with
  | none => (b, [])
  | some (line, rest) => (cstring line, rest)

/-- `feof` after a read. -/
def reachesEof (chunk : List Char) : Bool :=
  chunk.getLast? ≠ some '\n' && chunk.length < bufferSize - 1

/-- The reads up to the one that reaches the end of the stream. -/
def wholeReads (stream : List Char) : List (List Char) :=
  (fgetsLoop bufferSize stream).filter fun chunk => !reachesEof chunk

def intMax : Int := 2 ^ 31 - 1

/-- The size of the longer array is an `int`. -/
def groupAddMember (g : Group) (user domain : List Char) : Option Group :=
  if user = [] ∨ domain = [] then none
  else if 8 * (g.nMembers + 2) > intMax then none
  else some { g with member := g.member ++ [address user domain] }

/-- The lines behind the counted ones. -/
def addLines : List (List Char) → Group → Option Group
  | [], g => some g
  | chunk :: chunks, g =>
      match cut '@' (cstring chunk) with
      | (_, none) => none
      | (user, some rest) => (groupAddMember g user (upToLineEnd rest)).bind (addLines chunks)

/-- The three numbers in the second line of a data file, and what follows the line. -/
def readSettings (datafile text : List Char) :
    Option ((List Char × List Char × List Char) × List Char) :=
  let (b, rest) := readLine datafile text
  let (b, rest) := readLine b rest
  if !b.any lineEnd then none
  else
    match cut ' ' b with
    | (_, none) => none
    | (count, some b) =>
        match cut ' ' b with
        | (_, none) => none
        | (maximum, some quota) => some ((count, maximum, quota), rest)

/-- `group_load` from the data file on. The size for `malloc` is too large when the count
or its successor is below zero, as the successor of the largest one is. -/
def readData (owner datafile text : List Char) : Checked (Option Group) :=
  match readSettings datafile text with
  | none => .ok none
  | some ((count, maximum, quota), rest) =>
      let count := Decimal.atoi count
      -- the null pointer that ends the members is put behind an array of none
      if count = -1 then .error .outOfBounds
      else if count < -1 ∨ count = intMax then .ok none
      else
        let reads := wholeReads rest
        .ok (addLines (reads.drop count.toNat)
          { owner := owner
            member := (reads.take count.toNat).map fun chunk => upToLineEnd (cstring chunk)
            datafile := datafile
            maxMembers := BitVec.ofInt 32 (Decimal.atoi maximum)
            quota := BitVec.ofInt 32 (Decimal.atoi quota) })

/-- The owner that a `group_member` file names. -/
def readOwner (path text : List Char) : Option (List Char × List Char) :=
  let (b, rest) := readLine path text
  let (b, _) := readLine b rest
  match cut '@' b with
  | (_, none) => none
  | (user, some domain) =>
      if domain.any lineEnd then some (user, upToLineEnd domain) else none

/-- `group_load`, which calls itself with the owner that a member names. Member files that
name each other take it deeper than any `depth`. -/
def groupLoad : (depth : Nat) → Site → (user domain : List Char) →
    Option (Checked (Option Group))
  | 0, _, _, _ => none
  | depth + 1, site, user, domain =>
      match site.getpw user domain with
      | none => some (.ok none)
      | some dir =>
          match site.files (ownerFile dir) with
          | some text =>
              if !site.readable (ownerFile dir) then some (.ok none)
              else
                some (readData (address (lowerit user) (site.realDomain domain))
                  (ownerFile dir) text)
          | none =>
              match site.files (memberFile dir) with
              | none => some (.ok none)
              | some text =>
                  if !site.readable (memberFile dir) then some (.ok none)
                  else
                    match readOwner (memberFile dir) text with
                    | none => some (.ok none)
                    | some (user, domain) => groupLoad depth site user domain

/-! ## Writing -/

/-- The member in memory gets the spelling of its domain from `vauth_getpw`. -/
def groupWriteMember (site : Site) (files : Files) (member : List Char) :
    Bool × List Char × Files :=
  match cut '@' member with
  | (_, none) => (false, member, files)
  | (user, some domain) =>
      if user.length ≥ bufferSize then (false, member, files)
      else
        let member := address user (site.realDomain domain)
        match site.getpw user domain with
        | none => (false, member, files)
        | some dir =>
            if !site.writable (memberFile dir) then (false, member, files)
            else
              (true, member, files.set (memberFile dir)
                (some (groupWarning ++ '\n' :: site.group.owner ++ ['\n'])))

/-- What the loop of `group_write` has done: the lines in the data file, the members in
memory and the member files. -/
structure Written where
  complete : Bool
  lines : List (List Char)
  member : List (List Char)
  files : Files

def writeMembers (site : Site) : List (List Char) → Files → Written
  | [], files => ⟨true, [], [], files⟩
  | member :: members, files =>
      let (written, member, files) := groupWriteMember site files member
      if written then
        let rest := writeMembers site members files
        { rest with lines := member :: rest.lines, member := member :: rest.member }
      else ⟨false, [], member :: members, files⟩

def dataText (count : Int) (maxMembers quota : BitVec 32) (lines : List (List Char)) :
    List Char :=
  groupWarning ++ '\n' :: (Decimal.spellInt count ++ ' ' :: Decimal.spellInt maxMembers.toInt ++
    ' ' :: Decimal.spellInt quota.toInt ++ ['\n']) ++ (lines.map (· ++ ['\n'])).flatten

/-- `fopen` for writing empties the data file before the first member is looked up. -/
def groupWrite (site : Site) : Bool × Site :=
  let g := site.group
  if g.datafile.head? ≠ some '/' then (false, site)
  else if !site.writable g.datafile then (false, site)
  else
    let written := writeMembers site g.member (site.files.set g.datafile (some []))
    let text := dataText g.nMembers g.maxMembers g.quota written.lines
    (written.complete,
      { site with
        files := written.files.set g.datafile (some text)
        group := { g with member := written.member } })

/-! ## Adding and removing -/

/-- What `group_load` finds before anything is written. Nothing follows if the depth is used up
or an array has been left. -/
def groupFound (depth : Nat) (site : Site) (user domain : List Char) : Option (Option Group) :=
  (groupLoad depth site user domain).bind Except.toOption

/-- The group that `group_add` writes unless it refuses. -/
def groupAdded (depth : Nat) (site : Site) (user domain : List Char) : Option (Option Group) :=
  if user = [] ∨ domain = [] then some none
  else if site.group.nMembers ≥ site.group.maxMembers.toInt then some none
  else
    (groupFound depth site user domain).map fun found =>
      match found with
      | some _ => none
      | none => groupAddMember site.group (lowerit user) (site.realDomain domain)

/-- It reports success whatever `group_write` reports. -/
def groupAdd (depth : Nat) (site : Site) (user domain : List Char) : Option (Bool × Site) :=
  (groupAdded depth site user domain).map fun added =>
    match added with
    | none => (false, site)
    | some g => (true, (groupWrite { site with group := g }).2)

/-- The user belongs to this group, as far as `group_load` can tell. -/
def mayRemove (depth : Nat) (site : Site) (user domain : List Char) : Option Bool :=
  if user = [] ∨ domain = [] then some false
  else
    (groupFound depth site user domain).map fun found =>
      match found with
      | none => false
      | some og => sameAddress site.group.owner og.owner

/-- The files that `group_remove_member` leaves: a path that is cut off is not removed. -/
def unlinkMember (site : Site) (user domain : List Char) : Files :=
  match site.getpw user domain with
  | none => site.files
  | some dir =>
      if (dir ++ "/group_member".toList).length ≥ bufferSize ∨ !site.removable (memberFile dir)
      then site.files
      else site.files.set (memberFile dir) none

/-- The list that `group_remove_member` leaves, if it has the member. -/
def withoutMember (members : List (List Char)) (removed : List Char) :
    Option (List (List Char)) :=
  if members.any (sameAddress · removed) then some (members.eraseP (sameAddress · removed))
  else none

/-- Once more `vauth_getpw` spells the names. -/
def groupRemoveMember (site : Site) (user domain : List Char) : Bool × Site :=
  if user = [] ∨ domain = [] then (false, site)
  else
    let files := unlinkMember site user domain
    let removed := address (lowerit user) (site.realDomain domain)
    match withoutMember site.group.member removed with
    | none => (false, { site with files := files })
    | some members =>
        (true, { site with files := files, group := { site.group with member := members } })

def groupRemove (depth : Nat) (site : Site) (user domain : List Char) :
    Option (Bool × Site) :=
  (mayRemove depth site user domain).map fun member =>
    if !member then (false, site)
    else
      match groupRemoveMember site (lowerit user) (site.realDomain domain) with
      | (false, site) => (false, site)
      | (true, site) => (true, (groupWrite site).2)

end Vpopmail.Groups
