import Vpopmail.ControlFiles
import Vpopmail.Names
import Vpopmail.Foundation.Decimal

/-! # Looking up domains in `users/cdb`

`vget_assign`, which keeps the last record it has read.
-/

namespace Vpopmail

open Text

/-! ## Records -/

/-- What `qmail-newu` writes for a line of `users/assign`: the fields behind the first one,
each ended by a NUL. -/
abbrev CdbData := { text : List Char // 4 ≤ text.count nul }

/-- The records by their keys. -/
abbrev Cdb := List Char → Option CdbData

structure Assigned where
  realDomain : List Char
  uid : BitVec 32
  gid : BitVec 32
  dir : List Char
  deriving DecidableEq

/-- The pointer behind the next NUL. -/
def skipField (text : List Char) : List Char := (text.dropWhile (· ≠ nul)).drop 1

/-- The fields of `cdb_buf`. -/
def assigned (data : CdbData) : Assigned where
  realDomain := cstring data.val
  uid := BitVec.ofInt 32 (Decimal.atoi (cstring (skipField data.val)))
  gid := BitVec.ofInt 32 (Decimal.atoi (cstring (skipField (skipField data.val))))
  dir := cstring (skipField (skipField (skipField data.val)))

def assignKey (domain : List Char) : List Char := snprintf maxBuff ('!' :: domain ++ ['-'])

/-- The record of a domain, if the file is there and has one. -/
def recordOf (cdb : Option Cdb) (domain : List Char) : Option Assigned :=
  cdb.bind fun find => (find (assignKey domain)).map assigned

/-! ## Lookups -/

/-- The parameters of `vget_assign`: `none` and `false` are null pointers, and of the
directory only the size of the buffer is read. -/
structure AssignRequest where
  domain : Option (List Char)
  dirLen : Option Nat
  uid : Bool
  gid : Bool

/-- The result of `vget_assign`, and what it writes. The directory is the text in front of
the first NUL of the buffer, all of it when there is none. -/
structure AssignAnswer where
  returned : Option (List Char)
  domain : Option (List Char)
  dir : Option (List Char)
  uid : Option (BitVec 32)
  gid : Option (BitVec 32)
  deriving DecidableEq

/-- The static variables of `vget_assign`. -/
structure AssignCache where
  inDomain : Option (List Char)
  inDomainSize : Nat
  inDir : Option (List Char)
  inUid : BitVec 32
  inGid : BitVec 32

def AssignCache.initial : AssignCache := ⟨none, 0, none, -1, -1⟩

def notAssigned (domain : Option (List Char)) : AssignAnswer := ⟨none, domain, none, none, none⟩

/-- `strncpy`, which ends a text only if there is room. -/
def strncpy (size : Nat) (text : List Char) : List Char := text.take size

/-- The part of `vget_assign` that reads the record. -/
def readAssign (cdb : Option Cdb) (request : AssignRequest) (domain : List Char)
    (cache : AssignCache) : AssignAnswer × AssignCache :=
  match cdb with
  | none => (notAssigned (some domain), { cache with inDomain := none, inDir := none })
  | some find =>
      match find (assignKey domain) with
      | none => (notAssigned (some domain), AssignCache.initial)
      | some data =>
          let record := assigned data
          ({ returned := some record.dir
             domain := some (snprintf (maxPwDomain + 1) record.realDomain)
             dir := request.dirLen.map fun size => strncpy size record.dir
             uid := if request.uid then some record.uid else none
             gid := if request.gid then some record.gid else none },
           { inDomain := some record.realDomain
             inDomainSize := record.realDomain.length + 1
             inDir := some record.dir
             inUid := record.uid
             inGid := record.gid })

/-- `vget_assign`. -/
def vgetAssign (cdb : Option Cdb) (request : AssignRequest) (cache : AssignCache) :
    AssignAnswer × AssignCache :=
  match request.domain with
  | none => (notAssigned none, { cache with inDomain := none })
  | some [] => (notAssigned (some []), { cache with inDomain := none })
  | some name =>
      let domain := lowerit name
      match cache.inDir with
      | none => readAssign cdb request domain cache
      | some dir =>
          if cache.inDomainSize ≠ 0 ∧ cache.inDomain = some domain then
            ({ returned := some dir
               domain := some domain
               dir := request.dirLen.map fun size => snprintf size dir
               uid := if request.uid then some cache.inUid else none
               gid := if request.gid then some cache.inGid else none }, cache)
          else readAssign cdb request domain cache

/-- A lookup that reads `users/cdb`. -/
def uncached (cdb : Option Cdb) (request : AssignRequest) : AssignAnswer :=
  (vgetAssign cdb request AssignCache.initial).1

end Vpopmail
