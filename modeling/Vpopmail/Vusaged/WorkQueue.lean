import Vpopmail.Foundation.Execution
import Vpopmail.Vusaged.Userlist

/-! # The work queue of the usage daemon

The controller and the workers of `queue.c`. What a thread does while it holds a mutex is
one step, and so is each access to a user outside of one.
-/

namespace Vpopmail.Vusaged

open LinkedList

/-- What `user_get` comes to: no such user, the user that the cache has, a new user at an
address that `malloc` returns, or one whose address is too long for the cache, which is
freed again. -/
inductive UserGet
  | missing
  | cached (u : Nat)
  | loaded (u : Nat)
  | tooLong (u : Nat)

namespace Users

variable (users : Users)

/-- The address is not in use, and the head that is linked to is. -/
def mayAdd (u : Nat) : Bool :=
  (users.links u).isNone && users.userlist.all fun head => (users.links head).isSome

/-- `user_get`. A fault is no result. -/
def userGet : UserGet → Option (Users × Option Nat)
  | .missing => some (users, none)
  | .cached u => some (users, some u)
  | .loaded u => if users.mayAdd u then some (users.userUserlistAdd u, some u) else none
  | .tooLong u => if users.mayAdd u then some ((users.userUserlistAdd u).userFree u, none) else none

end Users

/-- The loop over `newusers`. -/
def loadUsers : List UserGet → Users → Option Users
  | [], users => some users
  | get :: gets, users => (users.userGet get).bind fun (users, _) => loadUsers gets users

/-- Where `queue_controller` is. -/
inductive Controller
  | begins
  /-- In stage one, before the queue is locked. -/
  | filling
  /-- At the head of the loop of stage two. -/
  | loading (u : Option Nat)
  /-- At the condition of the `for` loop. -/
  | scanning (u : Option Nat)
  /-- The user has been set in processing. -/
  | verifying (u : Nat)
  /-- Before the queue is locked in stage two. -/
  | enqueueing (u : Nat)
  /-- Before `shutdown_wait`. -/
  | resting (u : Option Nat)
  | done

/-- Where a `queue_worker` is. -/
inductive Worker
  /-- Before the queue is locked. -/
  | waiting
  /-- In `user_poll`. -/
  | polling (u : Nat)
  | polled (u : Nat)
  | stopped

/-- The users, the queue with its newest item in front, and the threads. -/
structure Work where
  users : Users
  queue : List Nat
  queueSize : Int
  shutdownFlag : Bool
  controller : Controller
  workers : Nat → Worker

/-- What a step finds in its surroundings: the next user of stage one if there is one, the
new users, whether `vauth_getpw` finds the user, whether `shutdown_wait` returns because of
a wakeup, and what a poll makes of a userstore. -/
structure Chance where
  nextUser : Option UserGet
  newUsers : List UserGet
  known : Bool
  woken : Bool
  userstore : Option UserstoreState

namespace Work

variable (work : Work)

/-- `queue_push`. -/
def queuePush (u : Nat) : Work :=
  { work with queue := u :: work.queue, queueSize := work.queueSize + 1 }

/-- `queue_pop`. A fault is no result. -/
def queuePop : Option (Nat × Work) :=
  match work.queue with
  | [] => none
  | u :: queue => some (u, { work with queue := queue, queueSize := work.queueSize - 1 })

def setWorker (index : Nat) (worker : Worker) : Work :=
  { work with workers := fun other => if other = index then worker else work.workers other }

end Work

/-- The locked section of stage one. -/
def fill (queueMaxSize : Int) (chance : Chance) (work : Work) : Option Work :=
  if work.shutdownFlag then some { work with controller := .loading none }
  else if work.queueSize ≥ queueMaxSize then
    some { work with controller := if chance.woken then .loading none else .filling }
  else
    match chance.nextUser with
    | none => some { work with controller := .loading none }
    | some get =>
        (work.users.userGet get).bind fun (users, u) =>
          match u with
          | none => some { work with users := users }
          | some u =>
              if (users.links u).isNone then none
              else if users.processing u then some { work with users := users }
              else some ({ work with users := users.mark u true }.queuePush u)

/-- The step of the controller. A fault is no step. -/
def controllerStep (queueMaxSize : Int) (chance : Chance) (work : Work) : Option Work :=
  match work.controller with
  | .begins =>
      some { work with
        controller := if work.users.userlist.isNone then .filling else .loading none }
  | .filling => fill queueMaxSize chance work
  | .loading u =>
      if work.shutdownFlag then some { work with controller := .done }
      else
        (loadUsers chance.newUsers work.users).map fun users =>
          { work with users := users, controller := .scanning (u.or users.userlist) }
  | .scanning none => some { work with controller := .resting none }
  | .scanning (some u) =>
      if work.shutdownFlag then some { work with controller := .resting (some u) }
      else
        (work.users.links u).map fun node =>
          if work.users.processing u then { work with controller := .scanning node.next }
          else { work with users := work.users.mark u true, controller := .verifying u }
  | .verifying u =>
      if !work.users.mightBeLost u then some { work with controller := .enqueueing u }
      else
        match work.users.userVerify u chance.known with
        | .error _ => none
        | .ok (true, users) => some { work with users := users, controller := .enqueueing u }
        | .ok (false, users) =>
            users.userlist.bind fun head =>
              (users.links head).map fun node =>
                { work with users := users, controller := .scanning node.next }
  | .enqueueing u =>
      if work.queueSize ≥ queueMaxSize then
        some { work with users := work.users.mark u false, controller := .resting (some u) }
      else
        (work.users.links u).map fun node =>
          { work.queuePush u with controller := .scanning node.next }
  | .resting u =>
      some { work with
        controller := if work.shutdownFlag || chance.woken then .done else .loading u }
  | .done => none

/-- The step of a worker. -/
def workerStep (index : Nat) (chance : Chance) (work : Work) : Option Work :=
  match work.workers index with
  | .waiting =>
      if work.shutdownFlag then some (work.setWorker index .stopped)
      else if work.queueSize = 0 then some work
      else work.queuePop.map fun (u, work) => work.setWorker index (.polling u)
  | .polling u =>
      (work.users.links u).map fun _ =>
        { work.setWorker index (.polled u) with
          users := { work.users with
            userstore := fun other =>
              if other = u then chance.userstore else work.users.userstore other } }
  | .polled u =>
      (work.users.links u).map fun _ =>
        { work.setWorker index .waiting with users := work.users.mark u false }
  | .stopped => none

/-- A step of one of the threads, or of the thread that triggers the shutdown. -/
inductive WorkLabel
  | controller (chance : Chance)
  | worker (index : Nat) (chance : Chance)
  | shutdownTrigger

def Work.next (queueMaxSize : Int) (work : Work) : WorkLabel → Option Work
  | .controller chance => controllerStep queueMaxSize chance work
  | .worker index chance => workerStep index chance work
  | .shutdownTrigger => some { work with shutdownFlag := true }

def Work.Step (queueMaxSize : Int) (before : Work) (label : WorkLabel) (after : Work) : Prop :=
  before.next queueMaxSize label = some after

/-- The state behind `queue_init` and `vdb_load`. -/
def Work.initial (users : Users) : Work where
  users := users
  queue := []
  queueSize := 0
  shutdownFlag := false
  controller := .begins
  workers := fun _ => .waiting

/-! ## The protocol -/

/-- The places where a user may be. -/
inductive Holder
  | queue
  | worker (index : Nat)
  | controller

/-- The user that a worker has taken out of the queue and not finished. -/
def Worker.hand : Worker → Option Nat
  | .waiting => none
  | .polling u => some u
  | .polled u => some u
  | .stopped => none

/-- The user that the controller has set in processing. -/
def Controller.hand : Controller → Option Nat
  | .verifying u => some u
  | .enqueueing u => some u
  | _ => none

def Work.Holds (work : Work) : Holder → Nat → Prop
  | .queue, u => u ∈ work.queue
  | .worker index, u => (work.workers index).hand = some u
  | .controller, u => work.controller.hand = some u

/-- Every user is in one place at most, has its mark there and has not been freed, and the
queue has as many items as it counts and no more than it may have. -/
structure QueueProtocol (queueMaxSize : Int) (work : Work) : Prop where
  once : work.queue.Nodup
  alone : ∀ first second u, work.Holds first u → work.Holds second u → first = second
  marked : ∀ holder u, work.Holds holder u → work.users.processing u = true
  live : ∀ holder u, work.Holds holder u → (work.users.links u).isSome = true
  size : work.queueSize = work.queue.length
  bounded : work.queueSize ≤ queueMaxSize

end Vpopmail.Vusaged
