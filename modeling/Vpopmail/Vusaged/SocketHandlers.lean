import Vpopmail.Vusaged.SocketLifetime

/-! # What the handlers do

Every handler of an open connection either ends the connection or leaves it open,
and changes nothing about the others.
-/

namespace Vpopmail.Vusaged

open LinkedList

/-! ## Writing -/

/-- Whether a write would block before the bytes have gone and the client is not lost. -/
def wouldBlock (pending : Nat) (writes : List WriteResult) : Bool :=
  if pending = 0 then false
  else
    match writes with
    | [] | .again :: _ => true
    | .failed :: _ => false
    | .wrote count :: rest =>
        if count = 0 then false
        else if pending < count then false
        else wouldBlock (pending - count) rest

theorem socketWriteLoop_eq (writes : List WriteResult) {d : Daemon} {address : Address}
    {s : Socket} {out : Grow} (live : d.heap address = some s) (buffer : s.out = some out) :
    socketWriteLoop address writes d =
      if out.bytes = 0 then .ok d
      else
        match writes with
        | [] | .again :: _ =>
            .ok (d.set address { s with flags := { s.flags with write := !s.flags.write } })
        | .failed :: _ => socketDrop address d
        | .wrote count :: rest =>
            if count = 0 then socketDrop address d
            else
              match growCut out count with
              | none => socketDrop address d
              | some left =>
                  socketWriteLoop address rest (d.set address { s with
                    out := some left
                    exchange := { s.exchange with
                      written := s.exchange.written ++ out.contents.take count } }) := by
  rw [socketWriteLoop.eq_def, deref_eq live]
  change (liveBuffer s.out >>= _) = _
  rw [liveBuffer_eq buffer]
  rfl

/-- A connection some of whose buffered bytes have been written. -/
theorem Socket.Open.wrote {s : Socket} (opened : s.Open) {out left : Grow} {count : Nat}
    (buffer : s.out = some out) (cut : growCut out count = some left) :
    Socket.Open { s with
      out := some left
      exchange := { s.exchange with
        written := s.exchange.written ++ out.contents.take count } } := by
  refine ⟨opened.kill, opened.descriptor, opened.input, left, rfl, ?_⟩
  rcases opened.out with ⟨other, same, whole⟩
  cases buffer.symm.trans same
  rw [contents_growCut cut, List.append_assoc, List.take_append_drop, whole]

theorem write_ends {d : Daemon} (sound : Sound d) {address : Address} {s : Socket} {out : Grow}
    (live : d.heap address = some s) (buffer : s.out = some out) (empty : out.bytes = 0) :
    ∃ after, Except.ok d = (.ok after : Handled Daemon) ∧
      Handles address d after (false = true) := by
  refine ⟨d, rfl, sound, Apart.refl address d, ?_, fun _ => rfl⟩
  rw [unsent_iff live buffer]
  simp [empty]

theorem write_blocks {d : Daemon} (sound : Sound d) {address : Address} {s : Socket} {out : Grow}
    (live : d.heap address = some s) (buffer : s.out = some out) :
    ∃ after, (if out.bytes = 0 then Except.ok d else
        .ok (d.set address { s with flags := { s.flags with write := !s.flags.write } })) =
          (.ok after : Handled Daemon) ∧
      Handles address d after ((if out.bytes = 0 then false else true) = true) := by
  split
  next empty => exact write_ends sound live buffer empty
  next nonempty =>
    have opened := sound.opened address s live
    let later : Socket := { s with flags := { s.flags with write := !s.flags.write } }
    have handles := set_handles sound live (show later.links = s.links from rfl)
      ⟨opened.kill, opened.descriptor, opened.input, opened.out⟩ buffer
    refine ⟨_, rfl, handles.sound, handles.apart, ?_, handles.writing⟩
    rw [handles.unsent_iff]
    simp [nonempty]

theorem socketWriteLoop_ok (writes : List WriteResult) {d : Daemon} (sound : Sound d)
    {address : Address} {s : Socket} {out : Grow} (live : d.heap address = some s)
    (buffer : s.out = some out) :
    ∃ after, socketWriteLoop address writes d = .ok after ∧
      Handles address d after (wouldBlock out.bytes writes = true) := by
  induction writes generalizing d s out with
  | nil =>
      rw [socketWriteLoop_eq [] live buffer, wouldBlock.eq_def]
      exact write_blocks sound live buffer
  | cons write rest induction =>
      rw [socketWriteLoop_eq _ live buffer, wouldBlock.eq_def]
      cases write with
      | again => exact write_blocks sound live buffer
      | failed =>
          split
          next empty => exact write_ends sound live buffer empty
          next nonempty => simpa using socketDrop_handles sound live
      | wrote count =>
          split
          next empty => exact write_ends sound live buffer empty
          next nonempty =>
            simp only
            split
            next => simpa using socketDrop_handles sound live
            next some =>
              split
              next refused =>
                have short : out.bytes < count := by
                  by_contra inside
                  rcases growCut_of_le out count (Nat.not_lt.mp inside) with ⟨left, cut⟩
                  rw [refused] at cut
                  cases cut
                rw [if_pos short]
                simpa using socketDrop_handles sound live
              next left cut =>
                have inside := le_of_growCut cut
                have opened := (sound.opened address s live).wrote buffer cut
                rcases induction (sound.set live (by rfl) opened) (heap_set d address _) rfl with
                  ⟨after, done, handles⟩
                rw [if_neg (Nat.not_lt.mpr inside), ← bytes_growCut cut]
                exact ⟨after, done, handles.after (Apart.set d address _) rfl⟩

/-- `socket_write` of an open connection. -/
theorem socketWrite_eq (writes : List WriteResult) {d : Daemon} {address : Address} {s : Socket}
    {out : Grow} (live : d.heap address = some s) (opened : s.Open) (buffer : s.out = some out) :
    socketWrite address writes d =
      if out.bytes = 0 then
        .ok { d with
          writing := fun other => if other = address then false else d.writing other }
      else socketWriteLoop address writes d := by
  rw [socketWrite, deref_eq live]
  simp only [bind, Except.bind, opened.kill, Bool.false_eq_true, if_false,
    liveBuffer_eq buffer]
  rfl

/-! ## Reading -/

variable {fresh : Nat → UInt8}

theorem socketBuffer_eq {d : Daemon} {address : Address} {s : Socket} {out : Grow}
    (live : d.heap address = some s) (buffer : s.out = some out) (data : List UInt8) :
    socketBuffer fresh address d data = .ok (d.set address { s with
      out := some (growInject fresh out data)
      exchange := { s.exchange with buffered := s.exchange.buffered ++ data } }) := by
  rw [socketBuffer, deref_eq live]
  change (liveBuffer s.out >>= _) = _
  rw [liveBuffer_eq buffer]
  rfl

/-- A connection with some more bytes in its buffer. -/
structure Queued (s later : Socket) (before : Grow) (count : Nat) (after : Grow) : Prop where
  links : later.links = s.links
  flags : later.flags = s.flags
  input : later.input = s.input
  out : later.out = some after
  bytes : after.bytes = before.bytes + count
  opened : s.Open → later.Open

theorem bytes_growInject (g : Grow) (data : List UInt8) :
    (growInject fresh g data).bytes = g.bytes + data.length := by
  rw [← Grow.contents_length, contents_growInject, List.length_append, g.contents_length]

theorem socketBuffer_foldlM (writes : List (List UInt8)) {d : Daemon} {address : Address}
    {s : Socket} {out : Grow} (live : d.heap address = some s) (buffer : s.out = some out) :
    ∃ later outLater, writes.foldlM (socketBuffer fresh address) d = .ok (d.set address later) ∧
      Queued s later out writes.flatten.length outLater := by
  induction writes generalizing d s out with
  | nil =>
      refine ⟨s, out, ?_, rfl, rfl, rfl, buffer, rfl, id⟩
      rw [set_self live]
      rfl
  | cons data rest induction =>
      rcases induction (heap_set d address { s with
        out := some (growInject fresh out data)
        exchange := { s.exchange with buffered := s.exchange.buffered ++ data } }) rfl with
          ⟨later, outLater, done, queued⟩
      refine ⟨later, outLater, ?_, queued.links, queued.flags, queued.input, queued.out, ?_, ?_⟩
      · rw [List.foldlM_cons, socketBuffer_eq live buffer data]
        exact done.trans (congrArg Except.ok (set_set d address _ later))
      · rw [queued.bytes, bytes_growInject, List.flatten_cons, List.length_append]
        omega
      · intro opened
        apply queued.opened
        refine ⟨opened.kill, opened.descriptor, opened.input, _, rfl, ?_⟩
        rcases opened.out with ⟨other, same, whole⟩
        cases buffer.symm.trans same
        rw [contents_growInject, ← List.append_assoc, whole]

/-- How a read event goes on, from what the client sends: the loop runs out of bytes, the
connection is ended, a packet is refused, or replies are written. -/
inductive ReadOutcome
  | idle (pending : Nat)
  | ended
  | refused
  | write (pending : Nat)
  deriving DecidableEq

def readOutcome (fresh : Nat → UInt8) (lookups : Lookups) (input : Grow) (pending : Nat)
    (arrivals : List Arrival) : ReadOutcome :=
  if socketMaxBufferSize < input.bytes then .ended
  else
    match arrivals with
    | [] | .again :: _ => .idle pending
    | .failed :: _ => .ended
    | .data bytes :: rest =>
        if bytes = [] then .ended
        else
          let read := packetRead lookups (growInject fresh input bytes)
          let queued :=
            pending + (read.answers.flatMap fun answer => answer.usage.writes).flatten.length
          if read.accepted = false then .refused
          else if queued = 0 then readOutcome fresh lookups read.buffer 0 rest
          else .write queued

/-- Whether bytes remain unsent at the end of the event. -/
def ReadOutcome.blocked (writes : List WriteResult) : ReadOutcome → Prop
  | .idle pending => pending ≠ 0
  | .ended => False
  | .refused => False
  | .write pending => wouldBlock pending writes = true

/-- The loop only runs out of bytes with what was pending before, or nothing. -/
theorem idle_of_readOutcome {lookups : Lookups} {arrivals : List Arrival} {input : Grow}
    {pending left : Nat}
    (idle : readOutcome fresh lookups input pending arrivals = .idle left) :
    left = pending ∨ left = 0 := by
  induction arrivals generalizing input pending with
  | nil =>
      rw [readOutcome] at idle
      split at idle
      · cases idle
      · exact .inl (ReadOutcome.idle.inj idle).symm
  | cons arrival rest induction =>
      rw [readOutcome.eq_def] at idle
      split at idle
      · cases idle
      · cases arrival with
        | again => exact .inl (ReadOutcome.idle.inj idle).symm
        | failed => cases idle
        | data bytes =>
            simp only at idle
            split at idle
            · cases idle
            · split at idle
              · cases idle
              · split at idle
                · exact .inr ((induction idle).elim id id)
                · cases idle

theorem socketReadLoop_eq (lookups : Lookups) (writes : List WriteResult)
    (arrivals : List Arrival) {d : Daemon} {address : Address} {s : Socket} {input : Grow}
    (live : d.heap address = some s) (reading : s.flags.read = true)
    (buffer : s.input = some input) :
    socketReadLoop fresh lookups address writes arrivals d =
      if socketMaxBufferSize < input.bytes then socketDrop address d
      else
        match arrivals with
        | [] | .again :: _ =>
            .ok (d.set address { s with flags := { s.flags with read := !s.flags.read } })
        | .failed :: _ => socketDrop address d
        | .data bytes :: rest =>
            if bytes = [] then socketDrop address d
            else
              let read := packetRead lookups (growInject fresh input bytes)
              (read.answers.flatMap fun answer => answer.usage.writes).foldlM
                  (socketBuffer fresh address)
                  (d.set address { s with input := some read.buffer }) >>= fun d =>
                if !read.accepted then
                  socketDrop address d >>= socketReadLoop fresh lookups address writes rest
                else
                  d.deref address >>= fun s =>
                    liveBuffer s.out >>= fun out =>
                      if !s.flags.kill && out.bytes != 0 then socketWrite address writes d
                      else socketReadLoop fresh lookups address writes rest d := by
  rw [socketReadLoop.eq_def, deref_eq live]
  change (if !s.flags.read then _ else liveBuffer s.input >>= _) = _
  rw [liveBuffer_eq buffer, reading]
  rfl

/-- A read event that ends in a given way: only a refused packet is a fault. -/
def Reads (outcome : ReadOutcome) (writes : List WriteResult) (address : Address) (d : Daemon)
    (result : Handled Daemon) : Prop :=
  (outcome = .refused ∧ result = .error .useAfterFree) ∨
    (outcome ≠ .refused ∧ ∃ after, result = .ok after ∧
      Handles address d after (outcome.blocked writes))

theorem reads_ended {d : Daemon} (sound : Sound d) {address : Address} {s : Socket}
    (live : d.heap address = some s) (writes : List WriteResult) :
    Reads .ended writes address d (socketDrop address d) :=
  .inr ⟨nofun, socketDrop_handles sound live⟩

theorem reads_idle {d : Daemon} (sound : Sound d) {address : Address} {s : Socket} {out : Grow}
    (live : d.heap address = some s) (buffer : s.out = some out) (writes : List WriteResult) :
    Reads (.idle out.bytes) writes address d
      (.ok (d.set address { s with flags := { s.flags with read := !s.flags.read } })) := by
  have opened := sound.opened address s live
  let later : Socket := { s with flags := { s.flags with read := !s.flags.read } }
  have handles := set_handles sound live (show later.links = s.links from rfl)
    ⟨opened.kill, opened.descriptor, opened.input, opened.out⟩ buffer
  exact .inr ⟨nofun, _, rfl, handles⟩

/-- What follows a part of the handler that has only changed the connection itself. -/
theorem Reads.after {outcome : ReadOutcome} {writes : List WriteResult} {address : Address}
    {d middle : Daemon} {result : Handled Daemon}
    (reads : Reads outcome writes address middle result) (apart : Apart address d middle)
    (writing : middle.writing = d.writing) : Reads outcome writes address d result := by
  rcases reads with refused | ⟨accepted, after, done, handles⟩
  · exact .inl refused
  · exact .inr ⟨accepted, after, done, handles.after apart writing⟩

/-- The loop goes on to the flags of a connection it has freed. -/
theorem socketReadLoop_freed (lookups : Lookups) (writes : List WriteResult)
    (arrivals : List Arrival) {d : Daemon} {address : Address} (freed : d.heap address = none) :
    socketReadLoop fresh lookups address writes arrivals d = .error .useAfterFree := by
  rw [socketReadLoop.eq_def, Daemon.deref, freed]
  rfl

theorem socketReadLoop_ok (lookups : Lookups) (writes : List WriteResult)
    (arrivals : List Arrival) {d : Daemon} (sound : Sound d) {address : Address} {s : Socket}
    {input out : Grow} (live : d.heap address = some s) (reading : s.flags.read = true)
    (inputBuffer : s.input = some input) (outBuffer : s.out = some out) :
    Reads (readOutcome fresh lookups input out.bytes arrivals) writes address d
      (socketReadLoop fresh lookups address writes arrivals d) := by
  induction arrivals generalizing d s input out with
  | nil =>
      rw [socketReadLoop_eq lookups writes [] live reading inputBuffer, readOutcome.eq_def]
      split
      · exact reads_ended sound live writes
      · exact reads_idle sound live outBuffer writes
  | cons arrival rest induction =>
      rw [socketReadLoop_eq lookups writes _ live reading inputBuffer, readOutcome.eq_def]
      cases arrival with
      | again =>
          split
          · exact reads_ended sound live writes
          · exact reads_idle sound live outBuffer writes
      | failed =>
          split
          · exact reads_ended sound live writes
          · exact reads_ended sound live writes
      | data bytes =>
          split
          · exact reads_ended sound live writes
          simp only
          split
          · exact reads_ended sound live writes
          generalize packetRead lookups (growInject fresh input bytes) = read
          have opened := sound.opened address s live
          let received : Socket := { s with input := some read.buffer }
          have receivedOpen : received.Open :=
            ⟨opened.kill, opened.descriptor, ⟨_, rfl⟩, opened.out⟩
          rcases socketBuffer_foldlM (read.answers.flatMap fun answer => answer.usage.writes)
            (heap_set d address received) outBuffer with ⟨later, outLater, done, queued⟩
          rw [set_set] at done
          have laterOpen := queued.opened receivedOpen
          have laterSound : Sound (d.set address later) :=
            sound.set live (queued.links.trans (by rfl)) laterOpen
          have laterLive := heap_set d address later
          have apart := Apart.set d address later
          rw [done, ← queued.bytes]
          cases accepted : read.accepted with
          | false =>
              rcases socketDrop_ok laterSound laterLive with ⟨after, dropped, -, -, freed, -⟩
              refine .inl ⟨rfl, ?_⟩
              change (socketDrop address (d.set address later) >>= _) = _
              rw [dropped]
              exact socketReadLoop_freed lookups writes rest freed
          | true =>
              rw [if_neg (by simp)]
              refine Reads.after ?_ apart rfl
              change Reads _ writes address _ ((d.set address later).deref address >>= _)
              rw [deref_eq laterLive]
              change Reads _ writes address _ (liveBuffer later.out >>= _)
              rw [liveBuffer_eq queued.out]
              change Reads _ writes address _ (if (!later.flags.kill && outLater.bytes != 0) = true
                then _ else _)
              rw [laterOpen.kill]
              by_cases empty : outLater.bytes = 0
              · rw [if_pos empty, if_neg (by simp [empty])]
                have later := induction laterSound laterLive (by rw [queued.flags]; exact reading)
                  queued.input queued.out
                rwa [empty] at later
              · rw [if_neg empty, if_pos (by simp [empty]),
                  socketWrite_eq writes laterLive laterOpen queued.out, if_neg empty]
                exact .inr ⟨nofun, socketWriteLoop_ok writes laterSound laterLive queued.out⟩

theorem socketRead_ok (lookups : Lookups) (writes : List WriteResult)
    (arrivals : List Arrival) {d : Daemon} (sound : Sound d) {address : Address} {s : Socket}
    {input out : Grow} (live : d.heap address = some s) (inputBuffer : s.input = some input)
    (outBuffer : s.out = some out) :
    Reads (readOutcome fresh lookups input out.bytes arrivals) writes address d
      (socketRead fresh lookups address arrivals writes d) := by
  have opened := sound.opened address s live
  let marked : Socket := { s with flags := { s.flags with read := true } }
  have markedOpen : marked.Open := ⟨opened.kill, opened.descriptor, opened.input, opened.out⟩
  have markedSound := sound.set live (show marked.links = s.links from rfl) markedOpen
  rw [socketRead, deref_eq live]
  change Reads _ _ _ _ (if s.flags.kill = true then _ else _)
  rw [if_neg (by simp [opened.kill])]
  exact (socketReadLoop_ok lookups writes arrivals markedSound (heap_set d address marked) rfl
    inputBuffer outBuffer).after (Apart.set d address marked) rfl

/-! ## Write events -/

/-- Other watchers of the same connections. -/
theorem Sound.watch {d : Daemon} (sound : Sound d) {reading writing : Address → Bool}
    (watched : ∀ address, reading address = true ∨ writing address = true →
      ∃ s, d.heap address = some s) :
    Sound { d with reading := reading, writing := writing } :=
  ⟨sound.listed, sound.live, sound.opened, watched, sound.finished⟩

theorem socketWrite_ok (writes : List WriteResult) {d : Daemon} (sound : Sound d)
    {address : Address} {s : Socket} {out : Grow} (live : d.heap address = some s)
    (buffer : s.out = some out) :
    ∃ after, socketWrite address writes d = .ok after ∧
      Handles address d after (wouldBlock out.bytes writes = true) := by
  rw [socketWrite_eq writes live (sound.opened address s live) buffer]
  split
  next empty =>
    let stopped : Daemon := { d with
      writing := fun other => if other = address then false else d.writing other }
    have nothing : ¬Unsent stopped address := by
      rintro ⟨held, other, holds, same, nonempty⟩
      cases live.symm.trans holds
      cases buffer.symm.trans same
      exact nonempty empty
    have kept : Sound stopped := by
      apply sound.watch
      intro other active
      rcases active with reading | writing
      · exact sound.watched other (.inl reading)
      · split at writing
        next => cases writing
        next => exact sound.watched other (.inr writing)
    refine ⟨stopped, rfl, kept, ⟨fun _ _ => rfl, fun _ different => if_neg different⟩, ?_,
      fun unsent => absurd unsent nothing⟩
    rw [wouldBlock.eq_def, if_pos empty]
    exact iff_of_false nothing Bool.false_ne_true
  next => exact socketWriteLoop_ok writes sound live buffer

/-! ## Timer and new connections -/

/-- No connection has got bytes to send, or another write watcher while it has some. -/
def Quiet (d after : Daemon) : Prop :=
  ∀ address, Unsent after address →
    Unsent d address ∧ after.writing address = d.writing address

theorem Quiet.refl (d : Daemon) : Quiet d d := fun _ unsent => ⟨unsent, rfl⟩

theorem Quiet.trans {d middle after : Daemon} (first : Quiet d middle)
    (second : Quiet middle after) : Quiet d after := by
  intro address unsent
  have later := second address unsent
  have early := first address later.1
  exact ⟨early.1, later.2.trans early.2⟩

theorem unsent_of_bodies {d after : Daemon} {address : Address}
    (bodies : after.bodies address = d.bodies address) (unsent : Unsent after address) :
    Unsent d address := by
  rcases unsent with ⟨s, out, live, buffer, nonempty⟩
  rcases exists_of_bodies bodies.symm live with ⟨held, holds, body⟩
  have same := congrArg Socket.out body
  exact ⟨held, out, holds, same.trans buffer, nonempty⟩

theorem Handles.quiet {d after : Daemon} {address : Address}
    (handles : Handles address d after False) : Quiet d after := by
  intro other unsent
  by_cases same : other = address
  · exact (handles.unsent_iff.mp (same ▸ unsent)).elim
  · exact ⟨unsent_of_bodies (handles.apart.bodies other same) unsent,
      handles.apart.writing other same⟩

theorem remaining_length_le (history : List Lifetime) :
    (remaining history).length ≤ history.length := by
  induction history with
  | nil => exact Nat.le_refl 0
  | cons entry before induction =>
      cases entry with
      | accepted address => exact Nat.succ_le_succ induction
      | removed address =>
          exact Nat.le_succ_of_le (Nat.le_trans (List.length_erase_le) induction)

/-- The link of a connection to the one behind it. -/
theorem next_eq {d : Daemon} {before after : List Address} {address : Address} {s : Socket}
    (listed : Listed d.links d.sockets (before ++ address :: after))
    (live : d.heap address = some s) : s.next = after.head? := by
  have own := (linked_append.mp listed.linked).2.1
  rw [links_of_live live, Option.or_none, Option.or_none] at own
  exact congrArg Links.next (Option.some.inj own)

theorem socketTimerLoop_eq (now : Int) (rounds : Nat) {d : Daemon} {address : Address} {s : Socket}
    (live : d.heap address = some s) :
    socketTimerLoop now (rounds + 1) (some address) d =
      if d.clientTimeout ≤ now - s.lastQuery then
        socketDrop address d >>= socketTimerLoop now rounds s.next
      else socketTimerLoop now rounds s.next d := by
  rw [socketTimerLoop, deref_eq live]
  rfl

theorem socketTimerLoop_ok (now : Int) {rounds : Nat} {d : Daemon} (sound : Sound d)
    {before rest : List Address} (order : remaining d.history = before ++ rest)
    (enough : rest.length ≤ rounds) :
    ∃ after, socketTimerLoop now rounds rest.head? d = .ok after ∧ Sound after ∧
      Quiet d after := by
  induction rounds generalizing d before rest with
  | zero =>
      cases rest with
      | nil => exact ⟨d, rfl, sound, Quiet.refl d⟩
      | cons => cases enough
  | succ rounds induction =>
      cases rest with
      | nil => exact ⟨d, rfl, sound, Quiet.refl d⟩
      | cons address rest =>
          have member : address ∈ remaining d.history := by simp [order]
          rcases (sound.live address).mpr member with ⟨s, live⟩
          have next : s.next = rest.head? := next_eq (order ▸ sound.listed) live
          rw [List.head?_cons, socketTimerLoop_eq now rounds live, next]
          by_cases expired : d.clientTimeout ≤ now - s.lastQuery
          · rcases socketDrop_ok sound live with ⟨dropped, done, kept, apart, freed, history⟩
            have quiet : Quiet d dropped := Handles.quiet ⟨kept, apart,
              iff_false_intro (not_unsent_of_freed freed),
              fun unsent => absurd unsent (not_unsent_of_freed freed)⟩
            have notBefore : address ∉ before := by
              have nodup := order ▸ sound.listed.nodup
              exact fun early =>
                (List.nodup_append.mp nodup).2.2 address early address List.mem_cons_self rfl
            have shorter : remaining dropped.history = before ++ rest := by
              rw [history, remaining, order, List.erase_append_right _ notBefore,
                List.erase_cons_head]
            rcases induction kept shorter (Nat.le_of_succ_le_succ enough) with
              ⟨after, walked, final, later⟩
            rw [if_pos expired, done]
            exact ⟨after, walked, final, quiet.trans later⟩
          · have passed : remaining d.history = (before ++ [address]) ++ rest := by
              rw [order, List.append_assoc, List.singleton_append]
            rcases induction sound passed (Nat.le_of_succ_le_succ enough) with
              ⟨after, walked, final, later⟩
            rw [if_neg expired]
            exact ⟨after, walked, final, later⟩

theorem socketTimer_ok (now : Int) {d : Daemon} (sound : Sound d) :
    ∃ after, socketTimer now d = .ok after ∧ Sound after ∧ Quiet d after := by
  unfold socketTimer
  split
  next =>
    have walked := socketTimerLoop_ok now sound
      (show remaining d.history = [] ++ remaining d.history from rfl)
      (remaining_length_le d.history)
    rcases walked with ⟨after, done, kept, quiet⟩
    rw [sound.listed.head_eq, done]
    exact ⟨_, rfl, ⟨kept.listed, kept.live, kept.opened, kept.watched, kept.finished⟩, quiet⟩
  next => exact ⟨d, rfl, sound, Quiet.refl d⟩

theorem exists_iff_of_bodies {d other : Daemon} {address : Address}
    (same : other.bodies address = d.bodies address) :
    (∃ s, other.heap address = some s) ↔ ∃ s, d.heap address = some s := by
  constructor
  · rintro ⟨s, holds⟩
    rcases exists_of_bodies same.symm holds with ⟨held, live, -⟩
    exact ⟨held, live⟩
  · rintro ⟨s, holds⟩
    rcases exists_of_bodies same holds with ⟨held, live, -⟩
    exact ⟨held, live⟩

/-- One turn of the loop of `socket_accept`. -/
theorem socketNew_ok (fresh : Nat → UInt8) {d : Daemon} (sound : Sound d) {address : Address}
    (unused : d.heap address = none) (descriptor : Nat) (time : Int) :
    ∃ linked s, socketNew fresh address d = .ok linked ∧ linked.heap address = some s ∧
      Handles address d
        { linked.set address { s with s := descriptor, lastQuery := time } with
          reading := fun other => if other = address then true else linked.reading other
          writing := fun other => if other = address then true else linked.writing other }
        False := by
  let added : Socket := {
    s := -1
    flags := ⟨false, false, false⟩
    input := some (growInit fresh 0)
    out := some (growInit fresh 0)
    lastQuery := 0
    prev := none
    next := d.sockets
    exchange := ⟨[], []⟩ }
  have notIn : address ∉ remaining d.history := by
    rw [← sound.live, unused]
    rintro ⟨s, holds⟩
    cases holds
  have others : ∀ other, other ≠ address →
      (d.set address added).bodies other = d.bodies other := fun other different =>
    (Apart.set d address added).bodies other different
  have headLive : ∀ other, d.sockets = some other → other ≠ address ∧
      ∃ s, (d.set address added).heap other = some s := by
    intro other head
    have inside : other ∈ remaining d.history :=
      List.mem_of_head? (sound.listed.head_eq.symm.trans head)
    have different : other ≠ address := ne_of_mem_of_not_mem inside notIn
    exact ⟨different, (exists_iff_of_bodies (others other different)).mpr
      ((sound.live other).mpr inside)⟩
  rcases linkPrev_ok d.sockets (some address) (fun other head => (headLive other head).2) with
    ⟨linked, done, relinked, links⟩
  have kept : linked = { d with heap := linked.heap } := relinked.1
  have history : linked.history = d.history := by rw [kept]
  have reading : linked.reading = d.reading := by rw [kept]
  have writing : linked.writing = d.writing := by rw [kept]
  have finished : linked.finished = d.finished := by rw [kept]
  have bodies : ∀ other, other ≠ address → linked.bodies other = d.bodies other :=
    fun other different => (congrFun relinked.2 other).trans (others other different)
  have pushed : linked.links = push d.links d.sockets address := by
    rw [links]
    funext other
    by_cases same : other = address
    · rw [same, setPrev, change_of_ne fun head => (headLive address head).1 rfl,
        links_of_live (heap_set d address added), push, if_pos rfl]
      rfl
    · have before : (d.set address added).links other = d.links other := by
        rw [Daemon.links, heap_set_of_ne d added same, Daemon.links]
      rw [push, if_neg same, setPrev, setPrev, change, change, before]
  rcases exists_of_bodies (congrFun relinked.2 address) (heap_set d address added) with
    ⟨s, holds, body⟩
  let accepted : Daemon := { linked with
    sockets := some address, history := .accepted address :: linked.history }
  let later : Socket := { s with s := descriptor, lastQuery := time }
  have acceptedHolds : accepted.heap address = some s := holds
  have finalLinks : (accepted.set address later).links = linked.links :=
    links_set acceptedHolds (show later.links = s.links from rfl)
  have finalBodies : ∀ other, other ≠ address →
      (accepted.set address later).bodies other = d.bodies other := fun other different =>
    ((Apart.set accepted address later).bodies other different).trans (bodies other different)
  have live_iff : ∀ other, other ≠ address →
      ((∃ held, (accepted.set address later).heap other = some held) ↔
        ∃ held, d.heap other = some held) := fun other different =>
    exists_iff_of_bodies (finalBodies other different)
  have opened : later.Open := by
    have flags := congrArg Socket.flags body
    have input := congrArg Socket.input body
    have out := congrArg Socket.out body
    have exchange := congrArg Socket.exchange body
    simp only [Socket.body, added] at flags input out exchange
    refine ⟨?_, ?_, ⟨growInit fresh 0, input⟩, ⟨growInit fresh 0, out, ?_⟩⟩
    · simp only [later, flags]
    · simp only [later]
      omega
    · simp only [later, exchange]
      rfl
  have nothing : ¬Unsent (accepted.set address later) address := by
    have out : later.out = some (growInit fresh 0) := by
      have out := congrArg Socket.out body
      exact out
    rw [unsent_iff (heap_set accepted address later) out]
    exact fun nonempty => nonempty rfl
  refine ⟨accepted, s, ?_, holds, ⟨?_, ?_, ?_, ?_, ?_⟩, ⟨finalBodies, ?_⟩,
    iff_false_intro nothing, fun unsent => absurd unsent nothing⟩
  · rw [socketNew, done]
    rfl
  · have listed := sound.listed.push notIn
    rw [← pushed, ← finalLinks, ← history] at listed
    exact listed
  · intro other
    by_cases same : other = address
    · rw [same]
      exact ⟨fun _ => List.mem_cons_self, fun _ => ⟨later, heap_set accepted address later⟩⟩
    · refine (live_iff other same).trans ((sound.live other).trans ?_)
      rw [show remaining (accepted.set address later).history =
        address :: remaining d.history from congrArg (fun h => address :: remaining h) history]
      simp [same]
  · intro other held holds
    by_cases same : other = address
    · rw [same] at holds
      have own : some later = some held := (heap_set accepted address later).symm.trans holds
      exact Option.some.inj own ▸ opened
    · rcases exists_of_bodies (finalBodies other same).symm holds with ⟨before, live, body⟩
      exact (sound.opened other before live).of_body body
  · intro other active
    by_cases same : other = address
    · exact ⟨later, same ▸ heap_set accepted address later⟩
    · apply (live_iff other same).mpr
      apply sound.watched other
      simpa [same, reading, writing, accepted] using active
  · intro exchange member
    exact sound.finished exchange (finished ▸ member)
  · intro other different
    refine (if_neg different).trans ?_
    exact congrFun writing other

theorem socketAccept_ok (fresh : Nat → UInt8) (incoming : List Incoming) {d : Daemon} (sound : Sound d)
    (distinct : (incoming.filterMap Incoming.address).Nodup)
    (unused : ∀ address ∈ incoming.filterMap Incoming.address, d.heap address = none) :
    ∃ after, socketAccept fresh incoming d = .ok after ∧ Sound after ∧ Quiet d after := by
  induction incoming generalizing d with
  | nil => exact ⟨d, rfl, sound, Quiet.refl d⟩
  | cons client rest induction =>
      cases client with
      | rejected => exact ⟨d, rfl, sound, Quiet.refl d⟩
      | connected address descriptor time =>
          have parts := List.nodup_cons.mp distinct
          rcases socketNew_ok fresh sound (unused address List.mem_cons_self)
            descriptor time with ⟨linked, s, done, holds, handles⟩
          rcases induction handles.sound parts.2 (by
            intro other member
            have different : other ≠ address := ne_of_mem_of_not_mem member parts.1
            have before := unused other (List.mem_cons_of_mem _ member)
            have bodies := handles.apart.bodies other different
            rw [Daemon.bodies, Daemon.bodies, before, Option.map_none] at bodies
            exact Option.map_eq_none_iff.mp bodies) with ⟨after, accepted, final, quiet⟩
          refine ⟨after, ?_, final, handles.quiet.trans quiet⟩
          rw [socketAccept, done]
          change (linked.deref address >>= _) = _
          rw [deref_eq holds]
          exact accepted

end Vpopmail.Vusaged
