import Vpopmail.Foundation.LinkedList

/-! # The list of users of the usage daemon

`userlist` of `user.c` and the pass that `queue_controller` makes over it. A user lives
at the address `malloc` gave it; every access to a user that has been freed is a fault.
-/

namespace Vpopmail.Vusaged

open LinkedList

inductive ListFault
  | nullPointer
  | useAfterFree
  | endless
  deriving DecidableEq

/-- The fields of `userstore_t` that the controller looks at. -/
structure UserstoreState where
  numDirectories : Nat
  lastUpdated : Int
  deriving DecidableEq

/-- `userlist`, and the fields of each `user_t` that the controller and the workers share.
A user that is not linked has been freed. -/
structure Users where
  links : Nat → Option (Links Nat)
  userlist : Option Nat
  processing : Nat → Bool
  userstore : Nat → Option UserstoreState

namespace Users

variable (users : Users)

def deref (u : Nat) : Except ListFault (Links Nat) :=
  match users.links u with
  | none => .error .useAfterFree
  | some links => .ok links

/-- `u->processing = mark`. -/
def mark (u : Nat) (mark : Bool) : Users :=
  { users with processing := fun other => if other = u then mark else users.processing other }

/-- `target->prev = prev`, if there is a target. -/
def linkPrev (target prev : Option Nat) : Except ListFault Users :=
  match target with
  | none => .ok users
  | some other =>
      (users.deref other).map fun _ => { users with links := setPrev users.links target prev }

/-- `target->next = next`, if there is a target. -/
def linkNext (target next : Option Nat) : Except ListFault Users :=
  match target with
  | none => .ok users
  | some other =>
      (users.deref other).map fun _ => { users with links := setNext users.links target next }

/-- `user_remove`. -/
def userRemove (u : Nat) : Except ListFault Users := do
  let node ← users.deref u
  let users ← users.linkPrev node.next node.prev
  let users ← users.linkNext node.prev node.next
  .ok (if users.userlist = some u then { users with userlist := node.next } else users)

def userFree (u : Nat) : Users :=
  { users with links := fun other => if other = u then none else users.links other }

/-- `user_verify` when `vauth_getpw` finds the user or not. -/
def userVerify (u : Nat) (known : Bool) : Except ListFault (Bool × Users) :=
  if known then .ok (true, users)
  else (users.userRemove u).map fun users => (false, users.userFree u)

/-- `user_userlist_add` of a user that `malloc` has put at the address. -/
def userUserlistAdd (u : Nat) : Users :=
  { users with
    links := push users.links users.userlist u
    userlist := some u
    processing := fun other => if other = u then false else users.processing other
    userstore := fun other => if other = u then none else users.userstore other }

/-- A user without directories may have been deleted, unless its first poll is still
to come. -/
def mightBeLost (u : Nat) : Bool :=
  match users.userstore u with
  | none => true
  | some store => store.numDirectories = 0 && store.lastUpdated ≠ 0

/-- The workers have polled some users and take the marks off. -/
def finish (polled : List (Nat × Option UserstoreState)) : Users :=
  { users with
    processing := fun u => users.processing u && (polled.lookup u).isNone
    userstore := fun u => (polled.lookup u).getD (users.userstore u) }

end Users

/-! ## The pass -/

/-- What one round of the loop finds: the users that workers have finished since the round
before, the flag of the shutdown, whether the user is still known, and whether the queue
is full. -/
structure Round where
  polled : List (Nat × Option UserstoreState)
  shutdown : Bool
  known : Bool
  full : Bool

/-- The loop goes on with a user, when it has passed by some, or breaks. -/
inductive Progress
  | onto (u : Option Nat) (passed : List Nat)
  | breaks

/-- One round for the user `u`. After a removal the loop starts again at the head, and
steps over it at once. -/
def round (found : Round) (users : Users) (u : Nat) : Except ListFault (Users × Progress) :=
  if found.shutdown then .ok (users, .breaks)
  else
    (users.deref u).bind fun node =>
      if users.processing u then .ok (users, .onto node.next [u])
      else
        let users := users.mark u true
        (if users.mightBeLost u then users.userVerify u found.known else .ok (true, users)).bind
          fun (verified, users) =>
            if !verified then
              match users.userlist with
              | none => .error .nullPointer
              | some head =>
                  (users.deref head).map fun node =>
                    (users, .onto node.next (if users.processing head then [head] else []))
            else if found.full then .ok (users.mark u false, .breaks)
            else .ok (users, .onto node.next [u])

/-- Where a pass ends, and the users that it has looked at or that were in processing when
it passed by. -/
structure PassResult where
  users : Users
  place : Option Nat
  passed : List Nat

/-- The loop `for (; u; u = u->next)` of stage two. -/
def pass : List Round → Users → Option Nat → List Nat → Except ListFault PassResult
  | _, users, none, passed => .ok ⟨users, none, passed⟩
  | [], _, some _, _ => .error .endless
  | found :: rounds, users, some u, passed =>
      (round found (users.finish found.polled) u).bind fun (users, progress) =>
        match progress with
        | .breaks => .ok ⟨users, some u, passed⟩
        | .onto next more => pass rounds users next (more ++ passed)

/-! ## The property -/

/-- The pass reaches no freed user, ends, and has looked at every user in front of the
place where it ends that was not in processing. The users in `done` are those in front of
the one that it starts with. -/
def PassCovers (rounds : List Round) (users : Users) (start : Option Nat) (done : List Nat) :
    Prop :=
  ∃ result, pass rounds users start [] = .ok result ∧
    ∃ front rest, Listed result.users.links result.users.userlist (front ++ rest) ∧
      result.place = rest.head? ∧ ∀ u ∈ front, u ∈ done ∨ u ∈ result.passed

/-- The round removes the user. -/
structure Lost (found : Round) (users : Users) (u : Nat) : Prop where
  goesOn : found.shutdown = false
  idle : users.processing u = false
  suspect : users.mightBeLost u = true
  unknown : found.known = false

/-- The pass begins at the head, which is lost, and there is no second user, or one that is
not in processing. -/
def LosesHead (rounds : List Round) (users : Users) (order : List Nat) (start : Option Nat) :
    Prop :=
  ∃ found others u rest, rounds = found :: others ∧ order = u :: rest ∧ start = some u ∧
    Lost found (users.finish found.polled) u ∧
    ∀ second, rest.head? = some second →
      (users.finish found.polled).processing second = false

end Vpopmail.Vusaged
