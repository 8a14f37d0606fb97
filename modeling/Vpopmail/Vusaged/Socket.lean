import Vpopmail.Foundation.LinkedList
import Vpopmail.Vusaged.Packet

/-! # Connections of the usage daemon

The handlers of `socket.c`. A connection lives at the address `malloc` gave it;
every access to a connection that has been freed is a fault. What `read` and
`write` return is given to a handler as a list, and a system call beyond its
list would block.
-/

namespace Vpopmail.Vusaged

open LinkedList

abbrev Address := Nat

inductive MemoryFault
  | useAfterFree
  | endless
  deriving DecidableEq

abbrev Handled := Except MemoryFault

def socketMaxBufferSize : Nat := 14000

def socketClientTimeout : Int := 10

def socketDetectClientTimeout : Int := 4

structure Flags where
  read : Bool
  write : Bool
  kill : Bool

/-- What has been buffered for a client and what has been written to it. The
handlers only add to it. -/
structure Exchange where
  buffered : List UInt8
  written : List UInt8

/-- `socket_t`; `grow_kill` leaves no buffer. -/
structure Socket where
  s : Int
  flags : Flags
  input : Option Grow
  out : Option Grow
  lastQuery : Int
  prev : Option Address
  next : Option Address
  exchange : Exchange

inductive Lifetime
  | accepted (address : Address)
  | removed (address : Address)

/-- The connections that have been accepted and not removed, newest first. The
history has its last entry in front. -/
def remaining : List Lifetime → List Address
  | [] => []
  | .accepted address :: before => address :: remaining before
  | .removed address :: before => (remaining before).erase address

/-- The memory and the static variables of `socket.c`, the watchers that are active
in libev, and the history of the connections. -/
structure Daemon where
  heap : Address → Option Socket
  sockets : Option Address
  reading : Address → Bool
  writing : Address → Bool
  clientTimeout : Int
  detectClientTimeout : Int
  lastClientCheck : Int
  history : List Lifetime
  finished : List Exchange

namespace Daemon

def deref (d : Daemon) (address : Address) : Handled Socket :=
  match d.heap address with
  | none => .error .useAfterFree
  | some s => .ok s

def set (d : Daemon) (address : Address) (s : Socket) : Daemon :=
  { d with heap := fun other => if other = address then some s else d.heap other }

def free (d : Daemon) (address : Address) : Daemon :=
  { d with heap := fun other => if other = address then none else d.heap other }

end Daemon

/-- A buffer of a connection, which `grow_kill` may have freed. -/
def liveBuffer : Option Grow → Handled Grow
  | none => .error .useAfterFree
  | some g => .ok g

/-- Changes the connection a link leads to, if it leads to one. -/
def relink (target : Option Address) (change : Socket → Socket) (d : Daemon) : Handled Daemon :=
  match target with
  | none => pure d
  | some address => do
      let s ← d.deref address
      pure (d.set address (change s))

def linkNext (target next : Option Address) : Daemon → Handled Daemon :=
  relink target fun s => { s with next := next }

def linkPrev (target prev : Option Address) : Daemon → Handled Daemon :=
  relink target fun s => { s with prev := prev }

variable (fresh : Nat → UInt8)

/-! ## Connections -/

/-- `socket_new` with the address `malloc` returns. -/
def socketNew (address : Address) (d : Daemon) : Handled Daemon := do
  let s : Socket := {
    s := -1
    flags := ⟨false, false, false⟩
    input := some (growInit fresh 0)
    out := some (growInit fresh 0)
    lastQuery := 0
    prev := none
    next := d.sockets
    exchange := ⟨[], []⟩ }
  let d ← linkPrev d.sockets (some address) (d.set address s)
  pure { d with sockets := some address, history := .accepted address :: d.history }

def socketClose (address : Address) (d : Daemon) : Handled Daemon := do
  let s ← d.deref address
  if s.flags.kill then pure d
  else
    let d := if s.s ≠ -1 then
        { d with
          reading := fun other => if other = address then false else d.reading other
          writing := fun other => if other = address then false else d.writing other }
      else d
    pure (d.set address { s with
      input := none
      out := none
      flags := { s.flags with kill := true } })

def socketRemove (address : Address) (d : Daemon) : Handled Daemon := do
  let s ← d.deref address
  let d := if d.sockets = some address then { d with sockets := s.next } else d
  let d ← linkNext s.prev s.next d
  let d ← linkPrev s.next s.prev d
  pure { d.free address with
    history := .removed address :: d.history
    finished := s.exchange :: d.finished }

/-- The `socket_close` and `socket_remove` with which the handlers end a connection. -/
def socketDrop (address : Address) (d : Daemon) : Handled Daemon := do
  let d ← socketClose address d
  socketRemove address d

def socketBuffer (address : Address) (d : Daemon) (data : List UInt8) : Handled Daemon := do
  let s ← d.deref address
  let out ← liveBuffer s.out
  pure (d.set address { s with
    out := some (growInject fresh out data)
    exchange := { s.exchange with buffered := s.exchange.buffered ++ data } })

/-! ## Handlers -/

/-- A client that `accept` returns: one that is turned away ends the loop. -/
inductive Incoming
  | rejected
  | connected (address : Address) (descriptor : Nat) (time : Int)

/-- The loop of `socket_accept`, up to the `accept` that would block. -/
def socketAccept : List Incoming → Daemon → Handled Daemon
  | [], d => pure d
  | .rejected :: _, d => pure d
  | .connected address descriptor time :: rest, d => do
      let d ← socketNew fresh address d
      let s ← d.deref address
      let d := d.set address { s with s := descriptor, lastQuery := time }
      socketAccept rest { d with
        reading := fun other => if other = address then true else d.reading other
        writing := fun other => if other = address then true else d.writing other }

/-- What `write` returns: the bytes it took, or -1. -/
inductive WriteResult
  | wrote (count : Nat)
  | again
  | failed

/-- The loop of `socket_write`. -/
def socketWriteLoop (address : Address) (writes : List WriteResult) (d : Daemon) :
    Handled Daemon := do
  let s ← d.deref address
  let out ← liveBuffer s.out
  if out.bytes = 0 then pure d
  else
    match writes with
    | [] | .again :: _ =>
        pure (d.set address { s with flags := { s.flags with write := !s.flags.write } })
    | .failed :: _ => socketDrop address d
    | .wrote count :: rest =>
        if count = 0 then socketDrop address d
        else
          match growCut out count with
          | none => socketDrop address d
          | some left =>
              socketWriteLoop address rest (d.set address { s with
                out := some left
                exchange := { s.exchange with
                  written := s.exchange.written ++ out.contents.take count } })

def socketWrite (address : Address) (writes : List WriteResult) (d : Daemon) :
    Handled Daemon := do
  let s ← d.deref address
  if s.flags.kill then pure d
  else
    let out ← liveBuffer s.out
    if out.bytes = 0 then
      pure { d with writing := fun other => if other = address then false else d.writing other }
    else socketWriteLoop address writes d

/-- What `read` returns: bytes, none of them when the client has disconnected, or -1. -/
inductive Arrival
  | data (bytes : List UInt8)
  | again
  | failed

/-- The loop of `socket_read`. -/
def socketReadLoop (lookups : Lookups) (address : Address) (writes : List WriteResult)
    (arrivals : List Arrival) (d : Daemon) : Handled Daemon := do
  let s ← d.deref address
  if !s.flags.read then pure d
  else
    let input ← liveBuffer s.input
    if socketMaxBufferSize < input.bytes then socketDrop address d
    else
      match arrivals with
      | [] | .again :: _ =>
          pure (d.set address { s with flags := { s.flags with read := !s.flags.read } })
      | .failed :: _ => socketDrop address d
      | .data bytes :: rest =>
          if bytes = [] then socketDrop address d
          else
            let read := packetRead lookups (growInject fresh input bytes)
            let d := d.set address { s with input := some read.buffer }
            let d ← (read.answers.flatMap fun answer => answer.usage.writes).foldlM
              (socketBuffer fresh address) d
            if !read.accepted then
              -- The connection is freed here, and the loop goes on to its flags.
              let d ← socketDrop address d
              socketReadLoop lookups address writes rest d
            else
              let s ← d.deref address
              let out ← liveBuffer s.out
              if !s.flags.kill && out.bytes != 0 then socketWrite address writes d
              else socketReadLoop lookups address writes rest d

def socketRead (lookups : Lookups) (address : Address) (arrivals : List Arrival)
    (writes : List WriteResult) (d : Daemon) : Handled Daemon := do
  let s ← d.deref address
  let d := d.set address { s with flags := { s.flags with read := true } }
  if s.flags.kill then pure d
  else socketReadLoop fresh lookups address writes arrivals d

/-- The walk of `socket_timer` over the connections. -/
def socketTimerLoop (now : Int) : (rounds : Nat) → Option Address → Daemon → Handled Daemon
  | _, none, d => pure d
  | 0, some _, _ => .error .endless
  | rounds + 1, some address, d => do
      let s ← d.deref address
      let d ← if d.clientTimeout ≤ now - s.lastQuery then socketDrop address d else pure d
      socketTimerLoop now rounds s.next d

def socketTimer (now : Int) (d : Daemon) : Handled Daemon :=
  if d.detectClientTimeout ≤ now - d.lastClientCheck then do
    let d ← socketTimerLoop now d.history.length d.sockets d
    pure { d with lastClientCheck := now }
  else pure d

/-! ## The event loop -/

/-- An event and what the system calls of its handler return. A readable connection
also meets the usage records of that time. -/
inductive Event
  | acceptable (incoming : List Incoming)
  | readable (address : Address) (lookups : Lookups) (arrivals : List Arrival)
      (writes : List WriteResult)
  | writable (address : Address) (writes : List WriteResult)
  | timer (now : Int)

def Incoming.address : Incoming → Option Address
  | .rejected => none
  | .connected address _ _ => some address

/-- libev calls the handlers of active watchers, and `malloc` returns memory that is
not in use. -/
def Enabled (d : Daemon) : Event → Prop
  | .acceptable incoming =>
      (incoming.filterMap Incoming.address).Nodup ∧
        ∀ address ∈ incoming.filterMap Incoming.address, d.heap address = none
  | .readable address _ _ _ => d.reading address = true
  | .writable address _ => d.writing address = true
  | .timer _ => True

def handle (event : Event) (d : Daemon) : Handled Daemon :=
  match event with
  | .acceptable incoming => socketAccept fresh incoming d
  | .readable address lookups arrivals writes =>
      socketRead fresh lookups address arrivals writes d
  | .writable address writes => socketWrite address writes d
  | .timer now => socketTimer now d

/-- The event loop calls one handler after the other. -/
def Step (before : Daemon) (event : Event) (after : Daemon) : Prop :=
  Enabled before event ∧ handle fresh event before = .ok after

/-- `socket_init`: nobody is connected. -/
def socketInit (clientTimeout detectClientTimeout : Int) : Daemon where
  heap _ := none
  sockets := none
  reading _ := false
  writing _ := false
  clientTimeout := clientTimeout
  detectClientTimeout := detectClientTimeout
  lastClientCheck := 0
  history := []
  finished := []

end Vpopmail.Vusaged
