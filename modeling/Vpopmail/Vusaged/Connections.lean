import Vpopmail.Foundation.Execution
import Vpopmail.Vusaged.SocketHandlers

/-! # Runs of the event loop

Whatever happens, the list of connections is right and the bytes written to a client
are the first of those buffered for it. A packet that is refused makes a handler use
a connection it has freed, and a direct write that would block leaves replies behind
when nothing watches for the client to take them.
-/

namespace Vpopmail.Vusaged

open LinkedList Execution

variable {fresh : Nat → UInt8}

/-! ## Steps -/

def outcomeOf (fresh : Nat → UInt8) (d : Daemon) (address : Address) (lookups : Lookups)
    (arrivals : List Arrival) : ReadOutcome :=
  match d.heap address with
  | some { input := some input, out := some out, .. } =>
      readOutcome fresh lookups input out.bytes arrivals
  | _ => .ended

/-- A read of the event brings `packet_read` a packet that is longer than it takes. -/
def Refuses (fresh : Nat → UInt8) (d : Daemon) : Event → Prop
  | .readable address lookups arrivals _ => outcomeOf fresh d address lookups arrivals = .refused
  | _ => False

theorem outcomeOf_eq (fresh : Nat → UInt8) {d : Daemon} {address : Address} {s : Socket} {input out : Grow}
    (live : d.heap address = some s) (inputBuffer : s.input = some input)
    (outBuffer : s.out = some out) (lookups : Lookups) (arrivals : List Arrival) :
    outcomeOf fresh d address lookups arrivals =
      readOutcome fresh lookups input out.bytes arrivals := by
  cases s with
  | mk =>
      cases inputBuffer
      cases outBuffer
      rw [outcomeOf, live]

/-- The connection whose handler libev calls. -/
theorem Sound.active {d : Daemon} (sound : Sound d) {address : Address}
    (active : d.reading address = true ∨ d.writing address = true) :
    ∃ s input out, d.heap address = some s ∧ s.input = some input ∧ s.out = some out := by
  rcases sound.watched address active with ⟨s, live⟩
  rcases (sound.opened address s live).input with ⟨input, inputBuffer⟩
  rcases (sound.opened address s live).out with ⟨out, outBuffer, -⟩
  exact ⟨s, input, out, live, inputBuffer, outBuffer⟩

theorem handle_readable (fresh : Nat → UInt8) {d : Daemon} (sound : Sound d) {address : Address}
    (active : d.reading address = true) (lookups : Lookups) (arrivals : List Arrival)
    (writes : List WriteResult) :
    Reads (outcomeOf fresh d address lookups arrivals) writes address d
      (handle fresh (.readable address lookups arrivals writes) d) := by
  rcases sound.active (.inl active) with ⟨s, input, out, live, inputBuffer, outBuffer⟩
  rw [outcomeOf_eq fresh live inputBuffer outBuffer]
  exact socketRead_ok lookups writes arrivals sound live inputBuffer outBuffer

theorem handle_writable (fresh : Nat → UInt8) {d : Daemon} (sound : Sound d) {address : Address}
    (active : d.writing address = true) (writes : List WriteResult) :
    ∃ after unsent, handle fresh (.writable address writes) d = .ok after ∧
      Handles address d after unsent := by
  rcases sound.active (.inr active) with ⟨s, input, out, live, -, outBuffer⟩
  rcases socketWrite_ok writes sound live outBuffer with ⟨after, done, handles⟩
  exact ⟨after, _, done, handles⟩

/-- A handler runs to its end unless a packet is refused. -/
theorem handle_ok_iff {d : Daemon} (sound : Sound d) {event : Event} (enabled : Enabled d event) :
    (∃ after, handle fresh event d = .ok after) ↔ ¬Refuses fresh d event := by
  cases event with
  | acceptable incoming =>
      rcases socketAccept_ok fresh incoming sound enabled.1 enabled.2 with
        ⟨after, done, -⟩
      exact ⟨fun _ refuses => refuses, fun _ => ⟨after, done⟩⟩
  | readable address lookups arrivals writes =>
      rcases handle_readable fresh sound enabled lookups arrivals writes with
        ⟨refused, fault⟩ | ⟨accepted, after, done, -⟩
      · rw [fault]
        refine ⟨?_, fun accepted => absurd refused accepted⟩
        rintro ⟨after, done⟩
        cases done
      · exact ⟨fun _ => accepted, fun _ => ⟨after, done⟩⟩
  | writable address writes =>
      rcases handle_writable fresh sound enabled writes with ⟨after, _, done, -⟩
      exact ⟨fun _ refuses => refuses, fun _ => ⟨after, done⟩⟩
  | timer now =>
      rcases socketTimer_ok now sound with ⟨after, done, -⟩
      exact ⟨fun _ refuses => refuses, fun _ => ⟨after, done⟩⟩

theorem Sound.step {d after : Daemon} (sound : Sound d) {event : Event}
    (step : Step fresh d event after) : Sound after := by
  rcases step with ⟨enabled, done⟩
  cases event with
  | acceptable incoming =>
      rcases socketAccept_ok fresh incoming sound enabled.1 enabled.2 with
        ⟨other, same, kept, -⟩
      exact Except.ok.inj (same.symm.trans done) ▸ kept
  | readable address lookups arrivals writes =>
      rcases handle_readable fresh sound enabled lookups arrivals writes with
        ⟨-, fault⟩ | ⟨-, other, same, handles⟩
      · cases fault.symm.trans done
      · exact Except.ok.inj (same.symm.trans done) ▸ handles.sound
  | writable address writes =>
      rcases handle_writable fresh sound enabled writes with
        ⟨other, _, same, handles⟩
      exact Except.ok.inj (same.symm.trans done) ▸ handles.sound
  | timer now =>
      rcases socketTimer_ok now sound with ⟨other, same, kept, -⟩
      exact Except.ok.inj (same.symm.trans done) ▸ kept

theorem sound_socketInit (clientTimeout detectClientTimeout : Int) :
    Sound (socketInit clientTimeout detectClientTimeout) := by
  refine ⟨⟨rfl, List.nodup_nil, trivial⟩, ?_, ?_, ?_, ?_⟩
  · intro address
    simp [socketInit, remaining]
  · intro address s live
    cases live
  · intro address active
    simp [socketInit] at active
  · intro exchange member
    cases member

theorem sound_of_run {clientTimeout detectClientTimeout : Int} {events : List Event} {d : Daemon}
    (run : Run (Step fresh) (socketInit clientTimeout detectClientTimeout) events d) :
    Sound d :=
  run.preserves Sound (sound_socketInit clientTimeout detectClientTimeout)
    fun _ _ _ sound step => sound.step step

/-! ## The list of connections -/

/-- In whatever order clients come, send, are written to and time out, the list holds
exactly the connections that have not been removed, and the next handler runs without
touching a freed one if and only if no packet is refused in it. -/
theorem connections_safe {clientTimeout detectClientTimeout : Int} {events : List Event}
    {d : Daemon} (run : Run (Step fresh) (socketInit clientTimeout detectClientTimeout) events d) :
    Listed d.links d.sockets (remaining d.history) ∧
      (∀ address, (∃ s, d.heap address = some s) ↔ address ∈ remaining d.history) ∧
      ∀ event, Enabled d event →
        ((∃ after, handle fresh event d = .ok after) ↔ ¬Refuses fresh d event) := by
  have sound := sound_of_run run
  exact ⟨sound.listed, sound.live, fun event enabled => handle_ok_iff sound enabled⟩

/-! ### A client that sends a large packet -/

def noLookups : Lookups where
  domainGetUse _ := none
  userGetUse _ := .unknown

/-- The daemon after one client has connected. -/
def connectedOnce : Daemon :=
  match socketAccept (fun _ => 0) [.connected 1 5 100] (socketInit 10 4) with
  | .ok d => d
  | .error _ => socketInit 10 4

theorem connectedOnce_run :
    Run (Step fun _ => 0) (socketInit 10 4) [.acceptable [.connected 1 5 100]] connectedOnce := by
  refine Run.start.next ⟨⟨by simp [Incoming.address], ?_⟩, rfl⟩
  intro address _
  rfl

instance (d : Daemon) (event : Event) : Decidable (Enabled d event) :=
  match event with
  | .acceptable incoming =>
      inferInstanceAs (Decidable ((incoming.filterMap Incoming.address).Nodup ∧
        ∀ address ∈ incoming.filterMap Incoming.address, d.heap address = none))
  | .readable address _ _ _ => inferInstanceAs (Decidable (d.reading address = true))
  | .writable address _ => inferInstanceAs (Decidable (d.writing address = true))
  | .timer _ => isTrue trivial

/-- The next handler, if it is enabled and returns. -/
def nextHandled (d : Daemon) (event : Event) : Option Daemon :=
  if Enabled d event then (handle (fun _ => 0) event d).toOption else none

theorem step_of_nextHandled {before after : Daemon} {event : Event}
    (next : nextHandled before event = some after) : Step (fun _ => 0) before event after := by
  rw [nextHandled] at next
  split at next
  · next enabled =>
      refine ⟨enabled, ?_⟩
      cases handled : handle (fun _ => 0) event before with
      | error fault =>
          rw [handled] at next
          cases next
      | ok other =>
          rw [handled] at next
          exact congrArg Except.ok (Option.some.inj next)
  · cases next

/-- Three clients connect. The one in the middle is answered and disconnects, its address is
used for a fourth client, and the oldest one times out. -/
def removals : List Event :=
  [.acceptable [.connected 1 5 100, .connected 2 6 100], .acceptable [.connected 3 7 101],
    .readable 2 noLookups [.data [0, 1, 120]] [.wrote 16], .readable 2 noLookups [.data []] [],
    .acceptable [.connected 2 6 109], .writable 3 [], .timer 110]

theorem connections_safe_removals :
    ∃ d, Run (Step fun _ => 0) (socketInit 10 4) removals d ∧ remaining d.history = [2, 3] ∧
      Listed d.links d.sockets (remaining d.history) ∧
      (∀ address, (∃ s, d.heap address = some s) ↔ address ∈ remaining d.history) ∧
      ∀ event, Enabled d event →
        ((∃ after, handle (fun _ => 0) event d = .ok after) ↔ ¬Refuses (fun _ => 0) d event) := by
  have ran : (execute nextHandled (socketInit 10 4) removals).map
      (fun d => remaining d.history) = some [2, 3] := by decide +kernel
  rcases Option.map_eq_some_iff.mp ran with ⟨d, executed, left⟩
  have run := (run_of_execute executed).weaken fun _ _ _ => step_of_nextHandled
  exact ⟨d, run, left, connections_safe run⟩

/-- The header of a packet of 1025 bytes frees the connection that the handler goes on with. -/
theorem not_connections_safe :
    ¬∀ (fresh : Nat → UInt8) (clientTimeout detectClientTimeout : Int) (events : List Event)
      (d : Daemon), Run (Step fresh) (socketInit clientTimeout detectClientTimeout) events d →
        ∀ event, Enabled d event → ∃ after, handle fresh event d = .ok after := by
  intro safe
  have enabled : Enabled connectedOnce (.readable 1 noLookups [.data [4, 1]] []) := rfl
  have handled := safe _ _ _ _ _ connectedOnce_run _ enabled
  rw [handle_ok_iff (sound_of_run connectedOnce_run) enabled] at handled
  apply handled
  change outcomeOf (fun _ => 0) connectedOnce 1 noLookups [.data [4, 1]] = .refused
  decide +kernel

/-! ## The replies -/

/-- What has been written to a client is the first of what has been buffered for it. -/
def Ordered (d : Daemon) : Prop :=
  (∀ address s, d.heap address = some s → s.exchange.written <+: s.exchange.buffered) ∧
    ∀ exchange ∈ d.finished, exchange.written <+: exchange.buffered

/-- A client that has replies coming is watched for being writable. -/
def Flowing (d : Daemon) : Prop := ∀ address, Unsent d address → d.writing address = true

/-- No write made from the read handler would block while the write watcher is stopped. -/
def Unblocked (fresh : Nat → UInt8) (d : Daemon) : Event → Prop
  | .readable address lookups arrivals writes =>
      d.writing address = false → ∀ pending,
        outcomeOf fresh d address lookups arrivals = .write pending →
          wouldBlock pending writes = false
  | _ => True

theorem Sound.ordered {d : Daemon} (sound : Sound d) : Ordered d := by
  refine ⟨?_, sound.finished⟩
  intro address s live
  rcases (sound.opened address s live).out with ⟨out, -, whole⟩
  exact ⟨out.contents, whole⟩

theorem Quiet.flowing {d after : Daemon} (quiet : Quiet d after) (flowing : Flowing d) :
    Flowing after := by
  intro address unsent
  have before := quiet address unsent
  exact before.2.trans (flowing address before.1)

/-- After the handler of one connection only that one may have been left behind. -/
theorem Handles.flowing_iff {d after : Daemon} {address : Address} {unsent : Prop}
    (handles : Handles address d after unsent) (flowing : Flowing d) :
    Flowing after ↔ (unsent → d.writing address = true) := by
  constructor
  · intro later remains
    have left := handles.unsent_iff.mpr remains
    exact (handles.writing left).symm.trans (later address left)
  · intro watched other left
    by_cases same : other = address
    · rw [same] at left ⊢
      exact (handles.writing left).trans (watched (handles.unsent_iff.mp left))
    · have before := unsent_of_bodies (handles.apart.bodies other same) left
      exact (handles.apart.writing other same).trans (flowing other before)

/-- A step leaves no client behind exactly when its direct writes do not block unwatched. -/
theorem Sound.flowing_iff {d after : Daemon} (sound : Sound d) (flowing : Flowing d)
    {event : Event} (step : Step fresh d event after) :
    Flowing after ↔ Unblocked fresh d event := by
  rcases step with ⟨enabled, done⟩
  cases event with
  | acceptable incoming =>
      rcases socketAccept_ok fresh incoming sound enabled.1 enabled.2 with
        ⟨other, same, -, quiet⟩
      cases Except.ok.inj (same.symm.trans done)
      exact ⟨fun _ => trivial, fun _ => quiet.flowing flowing⟩
  | readable address lookups arrivals writes =>
      rcases handle_readable fresh sound enabled lookups arrivals writes with
        ⟨-, fault⟩ | ⟨-, other, same, handles⟩
      · cases fault.symm.trans done
      · cases Except.ok.inj (same.symm.trans done)
        rw [handles.flowing_iff flowing, Unblocked]
        rcases sound.active (.inl enabled) with ⟨s, input, out, live, inputBuffer, outBuffer⟩
        have outcome := outcomeOf_eq fresh live inputBuffer outBuffer lookups arrivals
        cases kind : outcomeOf fresh d address lookups arrivals with
        | idle left =>
            refine ⟨(fun _ _ _ write => nomatch write), fun _ remains => ?_⟩
            rcases idle_of_readOutcome (outcome.symm.trans kind) with same | none
            · exact flowing address ⟨s, out, live, outBuffer, same ▸ remains⟩
            · exact absurd none remains
        | ended => exact ⟨(fun _ _ _ write => nomatch write), fun _ remains => remains.elim⟩
        | refused => exact ⟨(fun _ _ _ write => nomatch write), fun _ remains => remains.elim⟩
        | write pending =>
            simp only [ReadOutcome.blocked, ReadOutcome.write.injEq]
            cases d.writing address <;> cases blocks : wouldBlock pending writes <;>
              simp [blocks]
  | writable address writes =>
      rcases handle_writable fresh sound enabled writes with ⟨other, unsent, same, handles⟩
      cases Except.ok.inj (same.symm.trans done)
      exact ⟨fun _ => trivial, fun _ => (handles.flowing_iff flowing).mpr fun _ => enabled⟩
  | timer now =>
      rcases socketTimer_ok now sound with ⟨other, same, -, quiet⟩
      cases Except.ok.inj (same.symm.trans done)
      exact ⟨fun _ => trivial, fun _ => quiet.flowing flowing⟩

theorem flowing_socketInit (clientTimeout detectClientTimeout : Int) :
    Flowing (socketInit clientTimeout detectClientTimeout) := by
  rintro address ⟨s, out, live, -⟩
  cases live

/-- In every run the clients get the first of their replies in order; and a run leaves
replies behind unwatched in none of its states if and only if in none of its steps a
write from the read handler would block while the write watcher is stopped. -/
theorem replies_flow {clientTimeout detectClientTimeout : Int} {events : List Event} {d : Daemon}
    (run : Run (Step fresh) (socketInit clientTimeout detectClientTimeout) events d) :
    Ordered d ∧
      (Run (fun before event after => Step fresh before event after ∧ Flowing after)
          (socketInit clientTimeout detectClientTimeout) events d ↔
        Run (fun before event after => Step fresh before event after ∧
            Unblocked fresh before event)
          (socketInit clientTimeout detectClientTimeout) events d) := by
  have start : Sound (socketInit clientTimeout detectClientTimeout) ∧
      Flowing (socketInit clientTimeout detectClientTimeout) :=
    ⟨sound_socketInit _ _, flowing_socketInit _ _⟩
  refine ⟨(sound_of_run run).ordered, ?_, ?_⟩
  · refine Run.convert (fun state => Sound state ∧ Flowing state) start ?_ ?_
    · rintro before event after ⟨sound, -⟩ ⟨step, flowing⟩
      exact ⟨sound.step step, flowing⟩
    · rintro before event after ⟨sound, flows⟩ ⟨step, flowing⟩
      exact ⟨step, (sound.flowing_iff flows step).mp flowing⟩
  · refine Run.convert (fun state => Sound state ∧ Flowing state) start ?_ ?_
    · rintro before event after ⟨sound, flows⟩ ⟨step, unblocked⟩
      exact ⟨sound.step step, (sound.flowing_iff flows step).mpr unblocked⟩
    · rintro before event after ⟨sound, flows⟩ ⟨step, unblocked⟩
      exact ⟨step, (sound.flowing_iff flows step).mpr unblocked⟩

/-- The next handler, if no direct write would block unwatched in it. -/
def nextUnblocked (d : Daemon) (event : Event) : Option Daemon :=
  match event with
  | .readable address lookups arrivals writes =>
      match outcomeOf (fun _ => 0) d address lookups arrivals with
      | .write pending =>
          if d.writing address || !wouldBlock pending writes then nextHandled d event else none
      | _ => nextHandled d event
  | _ => nextHandled d event

theorem step_of_nextUnblocked {before after : Daemon} {event : Event}
    (next : nextUnblocked before event = some after) :
    Step (fun _ => 0) before event after ∧ Unblocked (fun _ => 0) before event := by
  cases event with
  | readable address lookups arrivals writes =>
      simp only [nextUnblocked] at next
      split at next
      · next pending kind =>
          split at next
          · next unblocked =>
              refine ⟨step_of_nextHandled next, ?_⟩
              intro stopped other write
              cases kind.symm.trans write
              simpa [stopped] using unblocked
          · cases next
      · next other =>
          exact ⟨step_of_nextHandled next, fun _ pending write => absurd write (other pending)⟩
  | acceptable incoming => exact ⟨step_of_nextHandled next, trivial⟩
  | writable address writes => exact ⟨step_of_nextHandled next, trivial⟩
  | timer now => exact ⟨step_of_nextHandled next, trivial⟩

/-- A client takes the replies to its two queries bit by bit, while another one is connected. -/
def partialReplies : List Event :=
  [.acceptable [.connected 1 5 100, .connected 2 6 100],
    .readable 1 noLookups [.data [0, 1, 120]] [.wrote 5, .again], .writable 2 [],
    .writable 1 [.wrote 6, .again], .readable 1 noLookups [.data [0, 1, 121]] [.wrote 9]]

theorem replies_flow_partly :
    ∃ d, Run (Step fun _ => 0) (socketInit 10 4) partialReplies d ∧
      (d.heap 1).map (fun s => (s.exchange.buffered.length, s.exchange.written.length)) =
        some (32, 20) ∧
      Run (fun before event after => Step (fun _ => 0) before event after ∧
        Unblocked (fun _ => 0) before event) (socketInit 10 4) partialReplies d ∧
      Ordered d ∧
        (Run (fun before event after => Step (fun _ => 0) before event after ∧ Flowing after)
            (socketInit 10 4) partialReplies d ↔
          Run (fun before event after => Step (fun _ => 0) before event after ∧
              Unblocked (fun _ => 0) before event)
            (socketInit 10 4) partialReplies d) := by
  have ran : (execute nextUnblocked (socketInit 10 4) partialReplies).bind
      (fun d => (d.heap 1).map fun s =>
        (s.exchange.buffered.length, s.exchange.written.length)) = some (32, 20) := by
    decide +kernel
  rcases Option.bind_eq_some_iff.mp ran with ⟨d, executed, sent⟩
  have unblocked := (run_of_execute executed).weaken fun _ _ _ => step_of_nextUnblocked
  have run := unblocked.weaken fun _ _ _ both => both.1
  exact ⟨d, run, sent, unblocked, replies_flow run⟩

/-- The client has been found writable with nothing to send. -/
def connectedIdle : Daemon :=
  { connectedOnce with
    writing := fun other => if other = 1 then false else connectedOnce.writing other }

theorem connectedIdle_run :
    Run (Step fun _ => 0) (socketInit 10 4)
      [.acceptable [.connected 1 5 100], .writable 1 []] connectedIdle :=
  connectedOnce_run.next ⟨rfl, rfl⟩

/-- The reply to the query x would block, and nothing watches for the client to take it. -/
theorem not_replies_flow :
    ¬∀ (fresh : Nat → UInt8) (clientTimeout detectClientTimeout : Int) (events : List Event)
      (d : Daemon), Run (Step fresh) (socketInit clientTimeout detectClientTimeout) events d →
        Flowing d := by
  intro flows
  have sound := sound_of_run connectedIdle_run
  have enabled : Enabled connectedIdle (.readable 1 noLookups [.data [0, 1, 120]] [.again]) := rfl
  have outcome : outcomeOf (fun _ => 0) connectedIdle 1 noLookups [.data [0, 1, 120]] =
      .write 16 := by
    decide +kernel
  rcases handle_readable (fun _ => 0) sound enabled noLookups [.data [0, 1, 120]] [.again] with
    ⟨refused, -⟩ | ⟨-, after, done, handles⟩
  · rw [outcome] at refused
    cases refused
  · rw [outcome] at handles
    have unsent : Unsent after 1 := handles.unsent_iff.mpr rfl
    have watched := flows _ _ _ _ after (connectedIdle_run.next ⟨enabled, done⟩) 1 unsent
    rw [handles.writing unsent] at watched
    cases watched

end Vpopmail.Vusaged
