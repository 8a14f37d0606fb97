import Vpopmail.Foundation.Records
import Vpopmail.Names

/-! # The snapshot of the usage daemon

`vdb_save` and `vdb_load` of `vdb.c`, with what they use of `domain.c`, `user.c` and
`cache.c`. A file is the list of its cells.
-/

namespace Vpopmail.Vusaged.Vdb

open Records Text

/-! ## Sizes -/

def userMaxUsername : Nat := 384
def domainMaxDomain : Nat := 256
def pathMax : Nat := 4096
/-- `sizeof(struct stat)`. -/
def statSize : Nat := 144
/-- The buffer of `user_userlist_add`. -/
def addressSize : Nat := 384

abbrev Storage := BitVec (8 * 8)
abbrev Time := BitVec (8 * 8)
abbrev Id := BitVec (8 * 4)
abbrev Stat := { cells : List Char // cells.length = statSize }

def emptyText : CString := ⟨[], free_nil nul⟩
def emptyStat : Stat := ⟨List.replicate statSize nul, List.length_replicate⟩

/-! ## The state of the daemon -/

structure Domain where
  domain : CString
  usage : Storage
  count : Storage
  deriving DecidableEq

structure Directory where
  directory : CString
  lastUpdate : Time
  st : Stat
  usage : Storage
  count : Storage
  deriving DecidableEq

/-- `num_directories` is the length of `directories`. -/
structure Userstore where
  path : CString
  st : Stat
  lastUpdated : Time
  timeTaken : Time
  lastauth : Time
  usage : Storage
  count : Storage
  directories : List Directory
  deriving DecidableEq

/-- A copy of `struct vqpasswd`, in which no text is a null pointer. -/
structure Vqpasswd where
  pwName : CString
  pwPasswd : CString
  pwUid : Id
  pwGid : Id
  pwFlags : Id
  pwGecos : CString
  pwDir : CString
  pwShell : CString
  pwClearPasswd : CString
  deriving DecidableEq

/-- A user points at its domain by the domain's place among the domains. -/
structure User where
  user : CString
  domain : Nat
  home : CString
  pw : Option Vqpasswd
  userstore : Option Userstore
  deriving DecidableEq

inductive Pointer
  | domain (place : Nat)
  | user (place : Nat)
  deriving DecidableEq

/-- The domains and users are the oldest first; `domainlist` and `userlist` begin with the
newest. The cache has the newest entry first. -/
structure Daemon where
  domains : List Domain
  users : List User
  cache : List (List Char × Pointer)

/-- The daemon at its start. -/
def Daemon.empty : Daemon := ⟨[], [], []⟩

/-! ## `domain_load` and `user_userlist_add` -/

/-- The key of a domain: the buffer holds 256 characters and the terminator. -/
def domainKey (name : List Char) : List Char :=
  (('@' :: name).take domainMaxDomain).map lowerChar

def address (user domain : List Char) : List Char := user ++ '@' :: domain

namespace Daemon

variable (daemon : Daemon)

/-- `cache_add` folds the key. -/
def cacheAdd (key : List Char) (pointer : Pointer) : Daemon :=
  { daemon with cache := (key.map lowerChar, pointer) :: daemon.cache }

/-- A user's record in the place of a domain's is a fault. -/
def domainLoad (name : CString) : Option (Nat × Daemon) :=
  match daemon.cache.lookup (domainKey name.val) with
  | some (.domain place) => some (place, daemon)
  | some (.user _) => none
  | none =>
      let added : Daemon := { daemon with domains := daemon.domains ++ [⟨name, 0, 0⟩] }
      some (daemon.domains.length,
        added.cacheAdd (('@' :: name.val).take domainMaxDomain) (.domain daemon.domains.length))

/-- `d->usage = usage; d->count = count`. -/
def setTotals (place : Nat) (usage count : Storage) : Daemon :=
  { daemon with domains := daemon.domains.modify place fun domain =>
      { domain with usage := usage, count := count } }

def userUserlistAdd (u : User) : Option Daemon :=
  daemon.domains[u.domain]?.bind fun domain =>
    let added : Daemon := { daemon with users := daemon.users ++ [u] }
    if addressSize ≤ (address u.user.val domain.domain.val).length then none
    else some (added.cacheAdd (address u.user.val domain.domain.val) (.user daemon.users.length))

end Daemon

/-! ## `vdb_save` -/

def headerId : List Char := ['v', 'D', 'B']
def headerVersion : Char := Char.ofNat 3

/-- The header, with the padding that the compiler puts behind the version. -/
def saveHeader (numDomains numUsers : Storage) : List Char :=
  headerId ++ ([headerVersion] ++ (List.replicate 4 nul ++
    (wordCells 8 numDomains ++ wordCells 8 numUsers)))

def saveDomain (d : Domain) : Option (List Char) := do
  let domain ← writeText domainMaxDomain d.domain
  some (domain ++ (wordCells 8 d.usage ++ wordCells 8 d.count))

/-- A text of the password entry, which stays empty when there is no entry. -/
def savePwText (size : Nat) (pw : Option Vqpasswd) (field : Vqpasswd → CString) :
    Option (List Char) :=
  writeText size ((pw.map field).getD emptyText)

/-- A number of the password entry. When there is no entry, `write` is given a null
pointer and fails. -/
def savePwWord (pw : Option Vqpasswd) (field : Vqpasswd → Id) : Option (List Char) :=
  pw.map fun pw => wordCells 4 (field pw)

def savePw (pw : Option Vqpasswd) : Option (List Char) := do
  let name ← savePwText userMaxUsername pw Vqpasswd.pwName
  let passwd ← savePwText maxPwPass pw Vqpasswd.pwPasswd
  let uid ← savePwWord pw Vqpasswd.pwUid
  let gid ← savePwWord pw Vqpasswd.pwGid
  let flags ← savePwWord pw Vqpasswd.pwFlags
  let gecos ← savePwText maxPwGecos pw Vqpasswd.pwGecos
  let dir ← savePwText pathMax pw Vqpasswd.pwDir
  let shell ← savePwText pathMax pw Vqpasswd.pwShell
  let clear ← savePwText maxPwPass pw Vqpasswd.pwClearPasswd
  some (name ++ (passwd ++ (uid ++ (gid ++ (flags ++ (gecos ++ (dir ++ (shell ++ clear))))))))

def saveDirectory (directory : Directory) : Option (List Char) := do
  let path ← writeText pathMax directory.directory
  some (path ++ (wordCells 8 directory.lastUpdate ++ (directory.st.val ++
    (wordCells 8 directory.usage ++ wordCells 8 directory.count))))

/-- A user without a userstore is written with zeros. -/
def saveUserstore (userstore : Option Userstore) : Option (List Char) := do
  let st := (userstore.map Userstore.st).getD emptyStat
  let directories := (userstore.map Userstore.directories).getD []
  let cells ← writeEach saveDirectory directories
  some (st.val ++ (wordCells 8 ((userstore.map Userstore.lastUpdated).getD 0) ++
    (wordCells 8 ((userstore.map Userstore.timeTaken).getD 0) ++
    (wordCells 8 ((userstore.map Userstore.lastauth).getD 0) ++
    (wordCells 8 ((userstore.map Userstore.usage).getD 0) ++
    (wordCells 8 ((userstore.map Userstore.count).getD 0) ++
    (wordCells 4 (BitVec.ofNat (8 * 4) directories.length) ++ cells)))))))

def saveUser (domains : List Domain) (u : User) : Option (List Char) := do
  let d ← domains[u.domain]?
  let user ← writeText userMaxUsername u.user
  let domain ← writeText domainMaxDomain d.domain
  let home ← writeText pathMax u.home
  let pw ← savePw u.pw
  let userstore ← saveUserstore u.userstore
  some (user ++ (domain ++ (home ++ (pw ++ userstore))))

/-- The file that `vdb_save` leaves. When it fails, it has removed the file. -/
def vdbSave (daemon : Daemon) : Option (List Char) := do
  let header := saveHeader (BitVec.ofNat (8 * 8) daemon.domains.length)
    (BitVec.ofNat (8 * 8) daemon.users.length)
  let domains ← writeEach saveDomain daemon.domains.reverse
  let users ← writeEach (saveUser daemon.domains) daemon.users.reverse
  some (header ++ (domains ++ users))

/-! ## `vdb_load` -/

def loadStat (stream : List Char) : Option (Stat × List Char) :=
  if length : (stream.take statSize).length = statSize then
    some (⟨stream.take statSize, length⟩, stream.drop statSize)
  else none

def loadDomain (stream : List Char) (daemon : Daemon) : Option (Daemon × List Char) := do
  let (name, stream) ← readText domainMaxDomain stream
  let (usage, stream) ← readWord 8 stream
  let (count, stream) ← readWord 8 stream
  let (place, daemon) ← daemon.domainLoad name
  some (daemon.setTotals place usage count, stream)

def loadPw (stream : List Char) : Option (Vqpasswd × List Char) := do
  let (name, stream) ← readText userMaxUsername stream
  let (passwd, stream) ← readText maxPwPass stream
  let (uid, stream) ← readWord 4 stream
  let (gid, stream) ← readWord 4 stream
  let (flags, stream) ← readWord 4 stream
  let (gecos, stream) ← readText maxPwGecos stream
  let (dir, stream) ← readText pathMax stream
  let (shell, stream) ← readText pathMax stream
  let (clear, stream) ← readText maxPwPass stream
  some (⟨name, passwd, uid, gid, flags, gecos, dir, shell, clear⟩, stream)

/-- One round of the loop over the directories, which `list_add` collects. -/
def loadDirectory (stream : List Char) (directories : List Directory) :
    Option (List Directory × List Char) := do
  let (path, stream) ← readText pathMax stream
  let (lastUpdate, stream) ← readWord 8 stream
  let (st, stream) ← loadStat stream
  let (usage, stream) ← readWord 8 stream
  let (count, stream) ← readWord 8 stream
  some (directories ++ [⟨path, lastUpdate, st, usage, count⟩], stream)

/-- The number of directories is signed. -/
def loadUserstore (home : CString) (stream : List Char) : Option (Userstore × List Char) := do
  let (st, stream) ← loadStat stream
  let (lastUpdated, stream) ← readWord 8 stream
  let (timeTaken, stream) ← readWord 8 stream
  let (lastauth, stream) ← readWord 8 stream
  let (usage, stream) ← readWord 8 stream
  let (count, stream) ← readWord 8 stream
  let (numDirectories, stream) ← readWord 4 stream
  let (directories, stream) ← readEach loadDirectory numDirectories.toInt.toNat stream []
  some (⟨home, st, lastUpdated, timeTaken, lastauth, usage, count, directories⟩, stream)

def loadUser (stream : List Char) (daemon : Daemon) : Option (Daemon × List Char) := do
  let (user, stream) ← readText userMaxUsername stream
  let (name, stream) ← readText domainMaxDomain stream
  let (home, stream) ← readText pathMax stream
  let (domain, daemon) ← daemon.domainLoad name
  let (pw, stream) ← loadPw stream
  let (userstore, stream) ← loadUserstore home stream
  let daemon ← daemon.userUserlistAdd ⟨user, domain, home, some pw, some userstore⟩
  some (daemon, stream)

/-- What `vdb_load` makes of a file when the daemon starts. -/
def vdbLoad (file : List Char) : Option Daemon := do
  let (id, stream) ← readCells 3 file
  let (version, stream) ← readCells 1 stream
  let (_, stream) ← readCells 4 stream
  let (numDomains, stream) ← readWord 8 stream
  let (numUsers, stream) ← readWord 8 stream
  if id = headerId ∧ version = [headerVersion] then
    let (daemon, stream) ← readEach loadDomain numDomains.toNat stream Daemon.empty
    let (daemon, _) ← readEach loadUser numUsers.toNat stream daemon
    some daemon
  else none

end Vpopmail.Vusaged.Vdb
