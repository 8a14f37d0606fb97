import Vpopmail.Backfill
import Vpopmail.Bigdir
import Vpopmail.Foundation.Interleaving
import Vpopmail.Vcdb.DirControl

/-! # Adding and deleting users

`vadduser` and `vdeluser` as sequences of steps on the files of a domain. A
step reads or writes one file; the steps of other processes may come between.
-/

namespace Vpopmail.Users

open Vpopmail Interleaving

/-- The domain and the build that the operations work with. -/
structure Domain where
  usersBigDir : Bool
  name : List Char
  dir : List Char
  deriving DecidableEq

/-- What the operations share: `dir_control`, `.dir_control_free`, and the names
and directories that the auth backend knows. -/
structure DomainFiles where
  control : Option (List Char)
  free : Option (List Char)
  users : List (List Char × List Char)

/-- What a step finds in its surroundings: whether its system calls succeed, and
the contents of memory that nobody has initialized. -/
structure Outcome where
  succeeds : Bool
  cells : List Char
  memory : VdirType

/-- The directory that the auth backend stores for a user. -/
def userDir (domain : Domain) (hash user : List Char) : List Char :=
  domain.dir ++ (if hash = [] then [] else '/' :: hash) ++ '/' :: user

/-- How far an operation has come. -/
inductive Operation
  /-- `vadduser` before its checks. -/
  | adding (user : List Char)
  /-- Before `backfill` in `make_user_dir`. -/
  | allocating (user : List Char)
  /-- `backfill` has chosen an entry. -/
  | reusing (user entry : List Char)
  /-- The entry is removed from the list. -/
  | reused (user entry : List Char)
  /-- `backfill` has read the control value. -/
  | recounting (user entry : List Char) (vdir : VdirType)
  /-- Before `open_big_dir`. -/
  | opening (user : List Char)
  /-- Between `open_big_dir` and `close_big_dir`. -/
  | moving (user : List Char) (vdir : VdirType)
  /-- The directory of the user is chosen. -/
  | making (user hash : List Char)
  /-- Before `vauth_adduser`. -/
  | storing (user hash : List Char)
  /-- `vdeluser` before its checks. -/
  | deleting (user : List Char)
  /-- Before `vauth_deluser`. -/
  | removing (user dir : List Char)
  /-- Before `backfill` in `vdeluser`. -/
  | freeing (user dir : List Char)
  /-- Before `open_big_dir` in `dec_dir_control`. -/
  | discounting
  /-- Between `open_big_dir` and `close_big_dir` of `dec_dir_control`. -/
  | decreasing (vdir : VdirType)

/-- The next step of an operation. A fault ends the program and is no step. -/
def advance (domain : Domain) (outcome : Outcome) (files : DomainFiles) :
    Operation → Option (DomainFiles × Option Operation)
  | .adding user =>
      if !outcome.succeeds || (files.users.lookup user).isSome then some (files, none)
      else some (files, some (.allocating user))
  | .allocating user =>
      if !domain.usersBigDir then some (files, some (.making user []))
      else
        match if outcome.succeeds then Backfill.freeEntry files.free else none with
        | none => some (files, some (.opening user))
        | some entry => some (files, some (.reusing user entry))
  | .reusing user entry =>
      let removed := Backfill.removeLine outcome.succeeds entry files.free true
      if removed.1 = 1 then
        some ({ files with free := removed.2 }, some (.reused user entry))
      else some ({ files with free := removed.2 }, some (.opening user))
  | .reused user entry =>
      match Vcdb.readDirControl outcome.cells files.control outcome.memory with
      | .error _ => none
      | .ok (_, vdir) => some (files, some (.recounting user entry vdir))
  | .recounting user entry vdir =>
      -- a count of zero stays as it is
      let vdir := if vdir.curUsers ≠ 0 then { vdir with curUsers := vdir.curUsers + 1 } else vdir
      let written := Vcdb.writeDirControl outcome.succeeds files.control vdir
      some ({ files with control := written.2 }, some (.making user entry))
  | .opening user =>
      match Vcdb.readDirControl outcome.cells files.control Vcdb.clearedVdir with
      | .error _ => none
      | .ok (_, vdir) => some (files, some (.moving user vdir))
  | .moving user vdir =>
      match Bigdir.nextBigDir vdir with
      | .error _ => none
      | .ok (hash, vdir) =>
          let written := Vcdb.writeDirControl outcome.succeeds files.control vdir
          some ({ files with control := written.2 }, some (.making user hash))
  | .making user hash =>
      if maxPwDir < domain.dir.length + hash.length + user.length || !outcome.succeeds then
        some (files, none)
      else
        let users := files.users.map fun known =>
          if known.1 = user then (known.1, userDir domain hash user) else known
        some ({ files with users := users }, some (.storing user hash))
  | .storing user hash =>
      if !outcome.succeeds then some (files, none)
      else some ({ files with users := (user, userDir domain hash user) :: files.users }, none)
  | .deleting user =>
      match if outcome.succeeds then files.users.lookup user else none with
      | none => some (files, none)
      | some dir => some (files, some (.removing user dir))
  | .removing user dir =>
      if !outcome.succeeds then some (files, none)
      else
        let users := files.users.filter fun known => known.1 ≠ user
        some ({ files with users := users }, some (.freeing user dir))
  | .freeing user dir =>
      let entry := Backfill.freedEntry user domain.name dir
      some ({ files with free := Backfill.addEntry outcome.succeeds files.free entry },
        some .discounting)
  | .discounting =>
      match Vcdb.readDirControl outcome.cells files.control Vcdb.clearedVdir with
      | .error _ => none
      | .ok (_, vdir) => some (files, some (.decreasing vdir))
  | .decreasing vdir =>
      let vdir := { vdir with curUsers := vdir.curUsers - 1 }
      let written := Vcdb.writeDirControl outcome.succeeds files.control vdir
      some ({ files with control := written.2 }, none)

inductive Request
  | vadduser (user : List Char)
  | vdeluser (user : List Char)

def launch : Request → Operation
  | .vadduser user => .adding user
  | .vdeluser user => .deleting user

/-- The processes that add and delete users of a domain. -/
def processes (domain : Domain) : System DomainFiles Operation Request Outcome where
  launch := launch
  advance := advance domain

/-- A domain without users. -/
def noUsers : DomainFiles := ⟨none, none, []⟩

end Vpopmail.Users
