import Vpopmail.Foundation.Execution
import Vpopmail.Vusaged.Socket

/-! # The lifetime of a connection

Every connection that is not removed is in the list and open; what a handler does
to one connection leaves the others as they are, but for their links.
-/

namespace Vpopmail.Vusaged

open LinkedList Execution

/-! ## The invariant -/

def Socket.links (s : Socket) : Links Address := ⟨s.prev, s.next⟩

def Daemon.links (d : Daemon) : Address → Option (Links Address) :=
  fun address => (d.heap address).map Socket.links

/-- A connection without its links. -/
def Socket.body (s : Socket) : Socket := { s with prev := none, next := none }

def Daemon.bodies (d : Daemon) : Address → Option Socket :=
  fun address => (d.heap address).map Socket.body

/-- A connection in use: what has been written and what is still in its buffer make up
what has been buffered. -/
structure Socket.Open (s : Socket) : Prop where
  kill : s.flags.kill = false
  descriptor : s.s ≠ -1
  input : ∃ input, s.input = some input
  out : ∃ out, s.out = some out ∧ s.exchange.written ++ out.contents = s.exchange.buffered

structure Sound (d : Daemon) : Prop where
  listed : Listed d.links d.sockets (remaining d.history)
  live : ∀ address, (∃ s, d.heap address = some s) ↔ address ∈ remaining d.history
  opened : ∀ address s, d.heap address = some s → s.Open
  watched : ∀ address, d.reading address = true ∨ d.writing address = true →
    ∃ s, d.heap address = some s
  finished : ∀ exchange ∈ d.finished, exchange.written <+: exchange.buffered

theorem Socket.Open.of_body {s other : Socket} (opened : s.Open) (same : s.body = other.body) :
    other.Open := by
  have flags := congrArg Socket.flags same
  have descriptor := congrArg Socket.s same
  have input := congrArg Socket.input same
  have out := congrArg Socket.out same
  have exchange := congrArg Socket.exchange same
  simp only [Socket.body] at flags descriptor input out exchange
  exact ⟨flags ▸ opened.kill, descriptor ▸ opened.descriptor, input ▸ opened.input,
    out ▸ exchange ▸ opened.out⟩

theorem deref_eq {d : Daemon} {address : Address} {s : Socket}
    (live : d.heap address = some s) : d.deref address = .ok s := by
  rw [Daemon.deref, live]

theorem liveBuffer_eq {buffer : Option Grow} {g : Grow} (live : buffer = some g) :
    liveBuffer buffer = .ok g := by
  rw [live, liveBuffer]

theorem heap_set (d : Daemon) (address : Address) (s : Socket) :
    (d.set address s).heap address = some s := if_pos rfl

theorem heap_set_of_ne (d : Daemon) {address other : Address} (s : Socket)
    (different : other ≠ address) : (d.set address s).heap other = d.heap other :=
  if_neg different

theorem set_set (d : Daemon) (address : Address) (s later : Socket) :
    (d.set address s).set address later = d.set address later := by
  have heaps : ((d.set address s).set address later).heap = (d.set address later).heap := by
    funext other
    by_cases same : other = address
    · rw [same, heap_set, heap_set]
    · rw [heap_set_of_ne _ _ same, heap_set_of_ne _ _ same, heap_set_of_ne _ _ same]
  exact congrArg (fun heap => { d with heap := heap }) heaps

theorem set_self {d : Daemon} {address : Address} {s : Socket}
    (live : d.heap address = some s) : d.set address s = d := by
  have heaps : (d.set address s).heap = d.heap := by
    funext other
    by_cases same : other = address
    · rw [same, heap_set, live]
    · exact heap_set_of_ne d s same
  exact congrArg (fun heap => { d with heap := heap }) heaps

theorem links_set {d : Daemon} {address : Address} {s later : Socket}
    (live : d.heap address = some s) (links : later.links = s.links) :
    (d.set address later).links = d.links := by
  funext other
  by_cases same : other = address
  · rw [Daemon.links, Daemon.links, same, heap_set, live, Option.map_some, Option.map_some, links]
  · rw [Daemon.links, Daemon.links, heap_set_of_ne d later same]

theorem Sound.set {d : Daemon} (sound : Sound d) {address : Address} {s later : Socket}
    (live : d.heap address = some s) (links : later.links = s.links) (opened : later.Open) :
    Sound (d.set address later) := by
  have exists_iff : ∀ other, (∃ s, (d.set address later).heap other = some s) ↔
      ∃ s, d.heap other = some s := by
    intro other
    by_cases same : other = address
    · rw [same, heap_set, live]
      exact ⟨fun _ => ⟨_, rfl⟩, fun _ => ⟨_, rfl⟩⟩
    · rw [heap_set_of_ne d later same]
  refine ⟨?_, ?_, ?_, ?_, sound.finished⟩
  · rw [links_set live links]
    exact sound.listed
  · intro other
    rw [exists_iff]
    exact sound.live other
  · intro other held holds
    by_cases same : other = address
    · rw [same, heap_set] at holds
      exact Option.some.inj holds ▸ opened
    · rw [heap_set_of_ne d later same] at holds
      exact sound.opened other held holds
  · intro other active
    rw [exists_iff]
    exact sound.watched other active

/-! ## Linking -/

/-- Only links have been changed. -/
def Relinked (d linked : Daemon) : Prop :=
  linked = { d with heap := linked.heap } ∧ linked.bodies = d.bodies

theorem bodies_set {d : Daemon} {address : Address} {s later : Socket}
    (live : d.heap address = some s) (body : later.body = s.body) :
    (d.set address later).bodies = d.bodies := by
  funext other
  by_cases same : other = address
  · rw [Daemon.bodies, Daemon.bodies, same, heap_set, live, Option.map_some, Option.map_some,
      body]
  · rw [Daemon.bodies, Daemon.bodies, heap_set_of_ne d later same]

theorem Relinked.trans {d middle linked : Daemon} (first : Relinked d middle)
    (second : Relinked middle linked) : Relinked d linked := by
  refine ⟨?_, second.2.trans first.2⟩
  calc linked = { middle with heap := linked.heap } := second.1
    _ = { d with heap := linked.heap } := by rw [first.1]

theorem links_of_live {d : Daemon} {address : Address} {s : Socket}
    (live : d.heap address = some s) : d.links address = some s.links := by
  rw [Daemon.links, live, Option.map_some]

theorem relink_ok {d : Daemon} {target : Option Address} {change : Socket → Socket}
    {links : Links Address → Links Address} (body : ∀ s : Socket, (change s).body = s.body)
    (changed : ∀ s : Socket, (change s).links = links s.links)
    (live : ∀ address, target = some address → ∃ s, d.heap address = some s) :
    ∃ linked, relink target change d = .ok linked ∧ Relinked d linked ∧
      linked.links = LinkedList.change d.links target links := by
  cases target with
  | none =>
      refine ⟨d, rfl, ⟨rfl, rfl⟩, ?_⟩
      funext address
      exact (change_of_ne (by simp)).symm
  | some address =>
      rcases live address rfl with ⟨s, holds⟩
      refine ⟨d.set address (change s), ?_, ⟨rfl, bodies_set holds (body s)⟩, ?_⟩
      · rw [relink, deref_eq holds]
        rfl
      · funext other
        by_cases same : other = address
        · rw [same, change_of_eq, links_of_live holds, links_of_live (heap_set _ _ _),
            changed, Option.map_some]
        · have different : (some address : Option Address) ≠ some other :=
            fun equal => same (Option.some.inj equal).symm
          rw [change_of_ne different, Daemon.links, heap_set_of_ne _ _ same, Daemon.links]

theorem linkNext_ok {d : Daemon} (target next : Option Address)
    (live : ∀ address, target = some address → ∃ s, d.heap address = some s) :
    ∃ linked, linkNext target next d = .ok linked ∧ Relinked d linked ∧
      linked.links = setNext d.links target next :=
  relink_ok (fun _ => rfl) (fun _ => rfl) live

theorem linkPrev_ok {d : Daemon} (target prev : Option Address)
    (live : ∀ address, target = some address → ∃ s, d.heap address = some s) :
    ∃ linked, linkPrev target prev d = .ok linked ∧ Relinked d linked ∧
      linked.links = setPrev d.links target prev :=
  relink_ok (fun _ => rfl) (fun _ => rfl) live

/-! ## Ending a connection -/

/-- All but the connection at one address are as they were, but for their links. -/
structure Apart (address : Address) (d after : Daemon) : Prop where
  bodies : ∀ other, other ≠ address → after.bodies other = d.bodies other
  writing : ∀ other, other ≠ address → after.writing other = d.writing other

theorem Apart.refl (address : Address) (d : Daemon) : Apart address d d :=
  ⟨fun _ _ => rfl, fun _ _ => rfl⟩

theorem Apart.trans {address : Address} {d middle after : Daemon}
    (first : Apart address d middle) (second : Apart address middle after) :
    Apart address d after :=
  ⟨fun other different => (second.bodies other different).trans (first.bodies other different),
    fun other different => (second.writing other different).trans (first.writing other different)⟩

theorem Apart.set (d : Daemon) (address : Address) (s : Socket) :
    Apart address d (d.set address s) := by
  refine ⟨?_, fun _ _ => rfl⟩
  intro other different
  rw [Daemon.bodies, Daemon.bodies, heap_set_of_ne d s different]

theorem exists_of_bodies {d other : Daemon} {address : Address}
    (same : other.bodies address = d.bodies address) {s : Socket}
    (live : d.heap address = some s) :
    ∃ held, other.heap address = some held ∧ held.body = s.body := by
  rw [Daemon.bodies, Daemon.bodies, live, Option.map_some] at same
  exact Option.map_eq_some_iff.mp same

/-- `socket_close` of an open connection. -/
theorem socketClose_ok {d : Daemon} {address : Address} {s : Socket}
    (live : d.heap address = some s) (opened : s.Open) :
    socketClose address d = .ok (Daemon.set
      { d with
        reading := fun other => if other = address then false else d.reading other
        writing := fun other => if other = address then false else d.writing other } address
      { s with input := none, out := none, flags := { s.flags with kill := true } }) := by
  have descriptor : s.s ≠ -1 := opened.descriptor
  rw [socketClose, deref_eq live]
  simp only [bind, Except.bind, opened.kill, Bool.false_eq_true, if_false, if_pos descriptor]
  rfl

/-- What `socket_remove` leaves of a daemon. -/
structure Removal (address : Address) (s : Socket) (d after : Daemon) : Prop where
  listed : ∀ order, Listed d.links d.sockets order → address ∈ order →
    Listed after.links after.sockets (order.erase address)
  bodies : ∀ other, other ≠ address → after.bodies other = d.bodies other
  freed : after.heap address = none
  reading : after.reading = d.reading
  writing : after.writing = d.writing
  history : after.history = .removed address :: d.history
  finished : after.finished = s.exchange :: d.finished

theorem links_free (d : Daemon) (address : Address) :
    (d.free address).links = fun other => if other = address then none else d.links other := by
  funext other
  by_cases same : other = address
  · rw [if_pos same, Daemon.links, Daemon.free, same]
    simp
  · rw [if_neg same, Daemon.links, Daemon.links, Daemon.free]
    simp [same]

theorem socketRemove_ok {d : Daemon} {address : Address} {s : Socket}
    (live : d.heap address = some s)
    (neighbours : ∀ other, s.prev = some other ∨ s.next = some other →
      other ≠ address ∧ ∃ neighbour, d.heap other = some neighbour) :
    ∃ after, socketRemove address d = .ok after ∧ Removal address s d after := by
  let headed := if d.sockets = some address then { d with sockets := s.next } else d
  have heap : headed.heap = d.heap := by
    simp only [headed]
    split <;> rfl
  have headedEq : headed = { d with
      sockets := if d.sockets = some address then s.next else d.sockets } := by
    simp only [headed]
    split <;> rfl
  rcases linkNext_ok (d := headed) s.prev s.next (fun other equal => by
    rw [heap]; exact (neighbours other (.inl equal)).2) with ⟨first, done, relinked, firstLinks⟩
  have liveNext : ∀ other, s.next = some other → ∃ held, first.heap other = some held := by
    intro other equal
    rcases (neighbours other (.inr equal)).2 with ⟨neighbour, holds⟩
    rw [← heap] at holds
    rcases exists_of_bodies (congrFun relinked.2 other) holds with ⟨held, kept, -⟩
    exact ⟨held, kept⟩
  rcases linkPrev_ok (d := first) s.next s.prev liveNext with
    ⟨second, donePrev, relinkedPrev, secondLinks⟩
  have whole := relinked.trans relinkedPrev
  refine ⟨{ second.free address with
    history := .removed address :: second.history
    finished := s.exchange :: second.finished }, ?_, ?_⟩
  · rw [socketRemove, deref_eq live]
    simp only [bind, Except.bind]
    rw [show (if d.sockets = some address then { d with sockets := s.next } else d) = headed
      from rfl, done]
    simp only [donePrev]
    rfl
  · have kept := whole.1
    rw [headedEq] at kept
    have reading : second.reading = d.reading := by rw [kept]
    have writing : second.writing = d.writing := by rw [kept]
    have history : second.history = d.history := by rw [kept]
    have finished : second.finished = d.finished := by rw [kept]
    have links : headed.links = d.links := by
      funext other
      exact congrArg (fun heap => (heap other).map Socket.links) heap
    constructor
    · intro order listed member
      have unlinked := listed.unlink member (links_of_live live)
      have links : (second.free address).links = unlink d.links address s.links := by
        rw [links_free, secondLinks, firstLinks, links]
        rfl
      have sockets : second.sockets = if d.sockets = some address then s.next else d.sockets := by
        rw [kept]
      exact sockets ▸ links ▸ unlinked.1
    · intro other different
      have bodies := congrFun whole.2 other
      rw [Daemon.bodies, Daemon.bodies, heap] at bodies
      rw [Daemon.bodies, Daemon.bodies, ← bodies, Daemon.free]
      simp [different]
    · simp [Daemon.free]
    · exact reading
    · exact writing
    · exact congrArg (Lifetime.removed address :: ·) history
    · exact congrArg (s.exchange :: ·) finished

/-- Closing and removing an open connection takes it out of the list and the memory. -/
theorem socketDrop_ok {d : Daemon} (sound : Sound d) {address : Address} {s : Socket}
    (live : d.heap address = some s) :
    ∃ after, socketDrop address d = .ok after ∧ Sound after ∧ Apart address d after ∧
      after.heap address = none ∧ after.history = .removed address :: d.history := by
  have opened := sound.opened address s live
  have member := (sound.live address).mp ⟨s, live⟩
  rcases sound.listed.unlink member (links_of_live live) with ⟨listed, prevIn, nextIn⟩
  let stopped : Daemon := { d with
    reading := fun other => if other = address then false else d.reading other
    writing := fun other => if other = address then false else d.writing other }
  let closed : Socket :=
    { s with input := none, out := none, flags := { s.flags with kill := true } }
  have stoppedLive : stopped.heap address = some s := live
  have neighbours : ∀ other, closed.prev = some other ∨ closed.next = some other →
      other ≠ address ∧ ∃ neighbour, (stopped.set address closed).heap other = some neighbour := by
    intro other linked
    have inside : other ∈ (remaining d.history).erase address := by
      rcases linked with prev | next
      · exact prevIn other prev
      · exact nextIn other next
    have different : other ≠ address := by
      intro same
      rw [same] at inside
      exact sound.listed.nodup.not_mem_erase inside
    refine ⟨different, ?_⟩
    rw [heap_set_of_ne stopped closed different]
    exact (sound.live other).mpr (List.mem_of_mem_erase inside)
  rcases socketRemove_ok (heap_set stopped address closed) neighbours with
    ⟨after, removed, removal⟩
  have links : (stopped.set address closed).links = d.links :=
    links_set stoppedLive (show closed.links = s.links from rfl)
  have history : after.history = .removed address :: d.history := removal.history
  have bodies : ∀ other, other ≠ address → after.bodies other = d.bodies other := by
    intro other different
    refine (removal.bodies other different).trans ?_
    rw [Daemon.bodies, Daemon.bodies, heap_set_of_ne stopped closed different]
  have live_iff : ∀ other, other ≠ address →
      ((∃ held, after.heap other = some held) ↔ ∃ held, d.heap other = some held) := by
    intro other different
    constructor
    · rintro ⟨held, holds⟩
      rcases exists_of_bodies (bodies other different).symm holds with ⟨kept, holds, -⟩
      exact ⟨kept, holds⟩
    · rintro ⟨held, holds⟩
      rcases exists_of_bodies (bodies other different) holds with ⟨kept, holds, -⟩
      exact ⟨kept, holds⟩
  refine ⟨after, ?_, ⟨?_, ?_, ?_, ?_, ?_⟩, ⟨bodies, ?_⟩, removal.freed, history⟩
  · rw [socketDrop, socketClose_ok live opened]
    exact removed
  · rw [history]
    exact removal.listed _ (links ▸ sound.listed) member
  · intro other
    rw [history, remaining]
    by_cases same : other = address
    · rw [same, removal.freed]
      constructor
      · rintro ⟨held, holds⟩
        cases holds
      · intro inside
        exact absurd inside sound.listed.nodup.not_mem_erase
    · rw [live_iff other same, sound.live, List.mem_erase_of_ne same]
  · intro other held holds
    by_cases same : other = address
    · rw [same, removal.freed] at holds
      cases holds
    · rcases exists_of_bodies (bodies other same).symm holds with ⟨kept, before, body⟩
      exact (sound.opened other kept before).of_body body
  · intro other active
    rw [removal.reading, removal.writing] at active
    by_cases same : other = address
    · simp [same, Daemon.set, stopped] at active
    · rw [live_iff other same]
      apply sound.watched
      simpa [Daemon.set, stopped, same] using active
  · intro exchange member
    rw [removal.finished] at member
    rcases List.mem_cons.mp member with own | before
    · rcases opened.out with ⟨out, -, whole⟩
      rw [own]
      exact ⟨out.contents, whole⟩
    · exact sound.finished exchange before
  · intro other different
    rw [removal.writing]
    exact if_neg different

/-! ## What a handler does to its connection -/

def Unsent (d : Daemon) (address : Address) : Prop :=
  ∃ s out, d.heap address = some s ∧ s.out = some out ∧ out.bytes ≠ 0

/-- A handler of one connection: whether bytes remain unsent, and that the write watcher
is then as it was. -/
structure Handles (address : Address) (d after : Daemon) (unsent : Prop) : Prop where
  sound : Sound after
  apart : Apart address d after
  unsent_iff : Unsent after address ↔ unsent
  writing : Unsent after address → after.writing address = d.writing address

theorem not_unsent_of_freed {d : Daemon} {address : Address} (freed : d.heap address = none) :
    ¬Unsent d address := by
  rintro ⟨s, out, live, -⟩
  rw [freed] at live
  cases live

theorem unsent_iff {d : Daemon} {address : Address} {s : Socket} {out : Grow}
    (live : d.heap address = some s) (buffer : s.out = some out) :
    Unsent d address ↔ out.bytes ≠ 0 := by
  constructor
  · rintro ⟨held, other, holds, held_out, nonempty⟩
    cases live.symm.trans holds
    cases buffer.symm.trans held_out
    exact nonempty
  · intro nonempty
    exact ⟨s, out, live, buffer, nonempty⟩

/-- The handler when it ends the connection. -/
theorem socketDrop_handles {d : Daemon} (sound : Sound d) {address : Address} {s : Socket}
    (live : d.heap address = some s) :
    ∃ after, socketDrop address d = .ok after ∧ Handles address d after False := by
  rcases socketDrop_ok sound live with ⟨after, done, kept, apart, freed, -⟩
  have nothing := not_unsent_of_freed freed
  exact ⟨after, done, kept, apart, iff_false_intro nothing, fun unsent => absurd unsent nothing⟩

/-- The handler when it only changes the connection itself. -/
theorem set_handles {d : Daemon} (sound : Sound d) {address : Address} {s later : Socket}
    {out : Grow} (live : d.heap address = some s) (links : later.links = s.links)
    (opened : later.Open) (buffer : later.out = some out) :
    Handles address d (d.set address later) (out.bytes ≠ 0) :=
  ⟨sound.set live links opened, Apart.set d address later,
    unsent_iff (heap_set d address later) buffer, fun _ => rfl⟩

theorem Handles.after {d middle after : Daemon} {address : Address} {unsent : Prop}
    (handles : Handles address middle after unsent) (apart : Apart address d middle)
    (writing : middle.writing = d.writing) : Handles address d after unsent :=
  ⟨handles.sound, apart.trans handles.apart, handles.unsent_iff, fun remains =>
    (handles.writing remains).trans (congrFun writing address)⟩

end Vpopmail.Vusaged
