import Vpopmail.Vusaged.Connections

/-! # Clients that time out

`socket_accept` stamps a connection with the time, and no other handler touches the
stamp. `socket_timer` therefore ends a connection some seconds after it was made,
however busy the client has been since.
-/

namespace Vpopmail.Vusaged

open LinkedList Execution

variable {fresh : Nat → UInt8}

/-! ## Stamps -/

def Daemon.lastQueries (d : Daemon) : Address → Option Int :=
  fun address => (d.heap address).map Socket.lastQuery

/-- The connections that are left have the stamps they had. -/
structure Stamps (d after : Daemon) : Prop where
  timeout : after.clientTimeout = d.clientTimeout
  stamps : ∀ address,
    after.lastQueries address = none ∨ after.lastQueries address = d.lastQueries address

theorem lastQueries_of_live {d : Daemon} {address : Address} {s : Socket}
    (live : d.heap address = some s) : d.lastQueries address = some s.lastQuery := by
  rw [Daemon.lastQueries, live, Option.map_some]

theorem Stamps.of_heap {d after : Daemon} (timeout : after.clientTimeout = d.clientTimeout)
    (same : after.heap = d.heap) : Stamps d after := by
  refine ⟨timeout, ?_⟩
  intro address
  rw [Daemon.lastQueries, Daemon.lastQueries, same]
  exact .inr rfl

theorem Stamps.refl (d : Daemon) : Stamps d d := Stamps.of_heap rfl rfl

theorem Stamps.trans {d middle after : Daemon} (first : Stamps d middle)
    (second : Stamps middle after) : Stamps d after := by
  refine ⟨second.timeout.trans first.timeout, ?_⟩
  intro address
  rcases second.stamps address with gone | same
  · exact .inl gone
  · rw [same]
    exact first.stamps address

theorem stamps_set {d : Daemon} {address : Address} {s later : Socket}
    (live : d.heap address = some s) (same : later.lastQuery = s.lastQuery) :
    Stamps d (d.set address later) := by
  refine ⟨rfl, ?_⟩
  intro other
  by_cases own : other = address
  · rw [own, lastQueries_of_live (heap_set d address later), lastQueries_of_live live, same]
    exact .inr rfl
  · rw [Daemon.lastQueries, Daemon.lastQueries, heap_set_of_ne d later own]
    exact .inr rfl

theorem stamps_free (d : Daemon) (address : Address) : Stamps d (d.free address) := by
  refine ⟨rfl, ?_⟩
  intro other
  by_cases own : other = address
  · left
    simp [Daemon.lastQueries, Daemon.free, own]
  · right
    simp [Daemon.lastQueries, Daemon.free, own]

/-! ## What the handlers do to stamps -/

/-- A part of a handler, which may change everything but stamps. -/
def KeepsStamps (part : Daemon → Handled Daemon) : Prop :=
  ∀ d after, part d = .ok after → Stamps d after

theorem bind_eq_ok {Value : Type} {first : Handled Value} {rest : Value → Handled Daemon}
    {after : Daemon} : (first >>= rest) = .ok after ↔ ∃ value, first = .ok value ∧
      rest value = .ok after := by
  cases first with
  | error fault => simp [bind, Except.bind]
  | ok value => simp [bind, Except.bind]

theorem KeepsStamps.bind {first second : Daemon → Handled Daemon} (keeps : KeepsStamps first)
    (goesOn : KeepsStamps second) : KeepsStamps fun d => first d >>= second := by
  intro d after done
  rcases bind_eq_ok.mp done with ⟨middle, begun, ended⟩
  exact (keeps d middle begun).trans (goesOn middle after ended)

theorem keepsStamps_pure {change : Daemon → Daemon} (keeps : ∀ d, Stamps d (change d)) :
    KeepsStamps fun d => pure (change d) := by
  intro d after done
  rw [← Except.ok.inj done]
  exact keeps d

/-- Whatever follows a look at a connection may use what was found there. -/
theorem keepsStamps_deref {address : Address} {rest : Socket → Daemon → Handled Daemon}
    (keeps : ∀ s d after, d.heap address = some s → rest s d = .ok after → Stamps d after) :
    KeepsStamps fun d => d.deref address >>= fun s => rest s d := by
  intro d after done
  rcases bind_eq_ok.mp done with ⟨s, found, ended⟩
  apply keeps s d after _ ended
  cases live : d.heap address with
  | none =>
      rw [Daemon.deref, live] at found
      cases found
  | some held =>
      rw [Daemon.deref, live] at found
      exact congrArg some (Except.ok.inj found)

theorem keepsStamps_relink {change : Socket → Socket}
    (same : ∀ s, (change s).lastQuery = s.lastQuery) (target : Option Address) :
    KeepsStamps (relink target change) := by
  cases target with
  | none => exact keepsStamps_pure Stamps.refl
  | some address =>
      apply keepsStamps_deref
      intro s d after live done
      rw [← Except.ok.inj done]
      exact stamps_set live (same s)

theorem keepsStamps_linkNext (target next : Option Address) :
    KeepsStamps (linkNext target next) := by
  apply keepsStamps_relink
  intro s
  rfl

theorem keepsStamps_linkPrev (target prev : Option Address) :
    KeepsStamps (linkPrev target prev) := by
  apply keepsStamps_relink
  intro s
  rfl

theorem keepsStamps_socketClose (address : Address) : KeepsStamps (socketClose address) := by
  apply keepsStamps_deref
  intro s d after live done
  split at done
  · rw [← Except.ok.inj done]
    exact Stamps.refl d
  · let closed : Socket :=
      { s with input := none, out := none, flags := { s.flags with kill := true } }
    have ended : Stamps d (d.set address closed) := stamps_set live rfl
    rw [← Except.ok.inj done]
    split
    · exact ended.trans (Stamps.of_heap rfl rfl)
    · exact ended

theorem keepsStamps_socketRemove (address : Address) : KeepsStamps (socketRemove address) := by
  apply keepsStamps_deref
  intro s d after live done
  rcases bind_eq_ok.mp done with ⟨first, linked, done⟩
  rcases bind_eq_ok.mp done with ⟨second, relinked, done⟩
  have headed : Stamps d (if d.sockets = some address then { d with sockets := s.next } else d) := by
    split
    · exact Stamps.of_heap rfl rfl
    · exact Stamps.refl d
  have forward := keepsStamps_linkNext s.prev s.next _ first linked
  have backward := keepsStamps_linkPrev s.next s.prev first second relinked
  have freed : Stamps second after := by
    rw [← Except.ok.inj done]
    exact (stamps_free second address).trans (Stamps.of_heap rfl rfl)
  exact ((headed.trans forward).trans backward).trans freed

theorem keepsStamps_socketDrop (address : Address) : KeepsStamps (socketDrop address) :=
  (keepsStamps_socketClose address).bind (keepsStamps_socketRemove address)

theorem keepsStamps_socketBuffer (address : Address) (data : List UInt8) :
    KeepsStamps fun d => socketBuffer fresh address d data := by
  apply keepsStamps_deref
  intro s d after live done
  rcases bind_eq_ok.mp done with ⟨out, -, done⟩
  rw [← Except.ok.inj done]
  exact stamps_set live rfl

theorem keepsStamps_foldlM (address : Address) (writes : List (List UInt8)) :
    KeepsStamps fun d => writes.foldlM (socketBuffer fresh address) d := by
  induction writes with
  | nil => exact keepsStamps_pure Stamps.refl
  | cons data writes induction => exact (keepsStamps_socketBuffer address data).bind induction

theorem keepsStamps_socketWriteLoop (address : Address) (writes : List WriteResult) :
    KeepsStamps (socketWriteLoop address writes) := by
  induction writes with
  | nil =>
      intro d after done
      rw [socketWriteLoop.eq_def] at done
      revert d after
      apply keepsStamps_deref
      intro s d after live done
      rcases bind_eq_ok.mp done with ⟨out, -, done⟩
      split at done
      · exact Except.ok.inj done ▸ Stamps.refl d
      · exact Except.ok.inj done ▸ stamps_set live rfl
  | cons result rest induction =>
      intro d after done
      rw [socketWriteLoop.eq_def] at done
      revert d after
      apply keepsStamps_deref
      intro s d after live done
      rcases bind_eq_ok.mp done with ⟨out, -, done⟩
      split at done
      · exact Except.ok.inj done ▸ Stamps.refl d
      · cases result with
        | again => exact Except.ok.inj done ▸ stamps_set live rfl
        | failed => exact keepsStamps_socketDrop address d after done
        | wrote count =>
            simp only at done
            split at done
            · exact keepsStamps_socketDrop address d after done
            · split at done
              · exact keepsStamps_socketDrop address d after done
              · apply Stamps.trans _ (induction _ _ done)
                exact stamps_set live rfl

theorem keepsStamps_socketWrite (address : Address) (writes : List WriteResult) :
    KeepsStamps (socketWrite address writes) := by
  apply keepsStamps_deref
  intro s d after live done
  split at done
  · exact Except.ok.inj done ▸ Stamps.refl d
  · rcases bind_eq_ok.mp done with ⟨out, -, done⟩
    split at done
    · exact Except.ok.inj done ▸ Stamps.of_heap rfl rfl
    · exact keepsStamps_socketWriteLoop address writes d after done

theorem keepsStamps_socketReadLoop (lookups : Lookups) (address : Address)
    (writes : List WriteResult) (arrivals : List Arrival) :
    KeepsStamps (socketReadLoop fresh lookups address writes arrivals) := by
  induction arrivals with
  | nil =>
      intro d after done
      rw [socketReadLoop.eq_def] at done
      revert d after
      apply keepsStamps_deref
      intro s d after live done
      split at done
      · exact Except.ok.inj done ▸ Stamps.refl d
      · rcases bind_eq_ok.mp done with ⟨input, -, done⟩
        split at done
        · exact keepsStamps_socketDrop address d after done
        · exact Except.ok.inj done ▸ stamps_set live rfl
  | cons arrival rest induction =>
      intro d after done
      rw [socketReadLoop.eq_def] at done
      revert d after
      apply keepsStamps_deref
      intro s d after live done
      split at done
      · exact Except.ok.inj done ▸ Stamps.refl d
      · rcases bind_eq_ok.mp done with ⟨input, -, done⟩
        split at done
        · exact keepsStamps_socketDrop address d after done
        · cases arrival with
          | again => exact Except.ok.inj done ▸ stamps_set live rfl
          | failed => exact keepsStamps_socketDrop address d after done
          | data bytes =>
              simp only at done
              split at done
              · exact keepsStamps_socketDrop address d after done
              · rcases bind_eq_ok.mp done with ⟨buffered, queued, done⟩
                have grown : Stamps d buffered := by
                  apply Stamps.trans _ (keepsStamps_foldlM address _ _ _ queued)
                  exact stamps_set live rfl
                apply grown.trans
                split at done
                · exact (keepsStamps_socketDrop address).bind induction buffered after done
                · rcases bind_eq_ok.mp done with ⟨held, -, done⟩
                  rcases bind_eq_ok.mp done with ⟨out, -, done⟩
                  split at done
                  · exact keepsStamps_socketWrite address writes buffered after done
                  · exact induction buffered after done

theorem keepsStamps_socketRead (lookups : Lookups) (address : Address)
    (arrivals : List Arrival) (writes : List WriteResult) :
    KeepsStamps (socketRead fresh lookups address arrivals writes) := by
  apply keepsStamps_deref
  intro s d after live done
  split at done
  · exact Except.ok.inj done ▸ stamps_set live rfl
  · apply Stamps.trans _ (keepsStamps_socketReadLoop lookups address writes arrivals _ _ done)
    exact stamps_set live rfl

theorem keepsStamps_socketTimerLoop (now : Int) (rounds : Nat) (target : Option Address) :
    KeepsStamps (socketTimerLoop now rounds target) := by
  induction rounds generalizing target with
  | zero =>
      cases target with
      | none => exact keepsStamps_pure Stamps.refl
      | some address => exact fun _ _ done => nomatch done
  | succ rounds induction =>
      cases target with
      | none => exact keepsStamps_pure Stamps.refl
      | some address =>
          apply keepsStamps_deref
          intro s d after live done
          split at done
          · exact (keepsStamps_socketDrop address).bind (induction s.next) d after done
          · exact induction s.next d after done

theorem keepsStamps_socketTimer (now : Int) : KeepsStamps (socketTimer now) := by
  intro d after done
  unfold socketTimer at done
  split at done
  · rcases bind_eq_ok.mp done with ⟨walked, looped, done⟩
    apply (keepsStamps_socketTimerLoop now _ _ d walked looped).trans
    exact Except.ok.inj done ▸ Stamps.of_heap rfl rfl
  · exact Except.ok.inj done ▸ Stamps.refl d

/-! ## The walk of the timer -/

theorem heap_eq_none_iff {d : Daemon} {address : Address} :
    d.heap address = none ↔ d.lastQueries address = none := by
  rw [Daemon.lastQueries, Option.map_eq_none_iff]

theorem Stamps.freed {d after : Daemon} (stamps : Stamps d after) {address : Address}
    (freed : d.heap address = none) : after.heap address = none := by
  rw [heap_eq_none_iff] at freed ⊢
  rcases stamps.stamps address with gone | same
  · exact gone
  · exact same.trans freed

/-- The walk ends the connections before it that have an old stamp, and no other. -/
theorem socketTimerLoop_ends (now : Int) {rounds : Nat} {d after : Daemon} (sound : Sound d)
    {before rest : List Address} (order : remaining d.history = before ++ rest)
    (enough : rest.length ≤ rounds)
    (done : socketTimerLoop now rounds rest.head? d = .ok after) {address : Address} {s : Socket}
    (live : d.heap address = some s) :
    after.heap address = none ↔ address ∈ rest ∧ d.clientTimeout ≤ now - s.lastQuery := by
  induction rounds generalizing d before rest s with
  | zero =>
      cases rest with
      | nil =>
          cases done
          simp [live]
      | cons => cases enough
  | succ rounds induction =>
      cases rest with
      | nil =>
          cases done
          simp [live]
      | cons first rest =>
          have member : first ∈ remaining d.history := by simp [order]
          have parts := List.nodup_append.mp (order ▸ sound.listed.nodup)
          rcases (sound.live first).mpr member with ⟨held, holds⟩
          have next : held.next = rest.head? := next_eq (order ▸ sound.listed) holds
          rw [List.head?_cons, socketTimerLoop_eq now rounds holds, next] at done
          have short := Nat.le_of_succ_le_succ enough
          by_cases expired : d.clientTimeout ≤ now - held.lastQuery
          · rcases socketDrop_ok sound holds with ⟨dropped, drop, kept, apart, freed, history⟩
            have stamps := keepsStamps_socketDrop first d dropped drop
            have shorter : remaining dropped.history = before ++ rest := by
              have notBefore : first ∉ before := fun early =>
                parts.2.2 first early first List.mem_cons_self rfl
              rw [history, remaining, order, List.erase_append_right _ notBefore,
                List.erase_cons_head]
            rw [if_pos expired, drop] at done
            by_cases own : address = first
            · subst own
              cases live.symm.trans holds
              have gone := (keepsStamps_socketTimerLoop now rounds _ dropped after done).freed freed
              simp [gone, expired]
            · rcases exists_of_bodies (apart.bodies address own) live with ⟨left, stays, body⟩
              have stamp : left.body.lastQuery = s.body.lastQuery := congrArg Socket.lastQuery body
              change left.lastQuery = s.lastQuery at stamp
              rw [induction kept shorter short done stays, stamp, stamps.timeout, List.mem_cons,
                or_iff_right own]
          · have passed : remaining d.history = (before ++ [first]) ++ rest := by
              rw [order, List.append_assoc, List.singleton_append]
            rw [if_neg expired] at done
            rw [induction sound passed short done live, List.mem_cons]
            constructor
            · exact fun ended => ⟨.inr ended.1, ended.2⟩
            · intro ended
              rcases ended with ⟨same | later, old⟩
              · subst same
                cases live.symm.trans holds
                exact absurd old expired
              · exact ⟨later, old⟩

theorem socketTimer_ends (now : Int) {d after : Daemon} (sound : Sound d)
    (done : socketTimer now d = .ok after) {address : Address} {s : Socket}
    (live : d.heap address = some s) :
    after.heap address = none ↔ d.detectClientTimeout ≤ now - d.lastClientCheck ∧
      d.clientTimeout ≤ now - s.lastQuery := by
  unfold socketTimer at done
  split at done
  next due =>
    rcases bind_eq_ok.mp done with ⟨walked, looped, done⟩
    rw [sound.listed.head_eq] at looped
    have ends := socketTimerLoop_ends now sound
      (show remaining d.history = [] ++ remaining d.history from rfl)
      (remaining_length_le d.history) looped live
    have member := (sound.live address).mp ⟨s, live⟩
    rw [← Except.ok.inj done, ends, and_iff_right member, and_iff_right due]
  next early =>
    rw [← Except.ok.inj done, live]
    simp [early]

/-! ## Clients that have been heard -/

/-- The daemon, the time at which each client connected, and the time at which it was
heard last: the last packet has come then, or it has connected. -/
structure Observed where
  daemon : Daemon
  connected : Address → Int
  lastHeard : Address → Int

/-- The times of the clients that `socket_accept` takes in. -/
def acceptTimes : List Incoming → (Address → Int) → Address → Int
  | [], times => times
  | .rejected :: _, times => times
  | .connected address _ time :: rest, times =>
      acceptTimes rest fun other => if other = address then time else times other

/-- `packet_read` gets a whole packet in one of the rounds of `socket_read`. -/
def receivesPacket (fresh : Nat → UInt8) (lookups : Lookups) (input : Grow) (pending : Nat) :
    List Arrival → Bool
  | .data bytes :: rest =>
      if socketMaxBufferSize < input.bytes || bytes.isEmpty then false
      else
        let read := packetRead lookups (growInject fresh input bytes)
        !read.answers.isEmpty ||
          (read.accepted && pending == 0 && receivesPacket fresh lookups read.buffer 0 rest)
  | _ => false

def receives (fresh : Nat → UInt8) (d : Daemon) (address : Address) (lookups : Lookups)
    (arrivals : List Arrival) : Bool :=
  match d.heap address with
  | some { input := some input, out := some out, .. } =>
      receivesPacket fresh lookups input out.bytes arrivals
  | _ => false

def connectedAfter (connected : Address → Int) : Event → Address → Int
  | .acceptable incoming => acceptTimes incoming connected
  | _ => connected

def lastHeardAfter (fresh : Nat → UInt8) (o : Observed) (time : Int) : Event → Address → Int
  | .acceptable incoming => acceptTimes incoming o.lastHeard
  | .readable address lookups arrivals _ =>
      if receives fresh o.daemon address lookups arrivals then
        fun other => if other = address then time else o.lastHeard other
      else o.lastHeard
  | _ => o.lastHeard

/-- A step of the event loop at a time. -/
def TimedStep (fresh : Nat → UInt8) (before : Observed) (label : Int × Event)
    (after : Observed) : Prop :=
  Step fresh before.daemon label.2 after.daemon ∧
    (∀ now, label.2 = .timer now → now = label.1) ∧
    after.connected = connectedAfter before.connected label.2 ∧
    after.lastHeard = lastHeardAfter fresh before label.1 label.2

/-- What `socket_timer` ends in the step has not been heard for the timeout. -/
def EndsIdle (before : Observed) (label : Int × Event) (after : Observed) : Prop :=
  ∀ now, label.2 = .timer now → ∀ address s, before.daemon.heap address = some s →
    after.daemon.heap address = none →
      before.daemon.clientTimeout ≤ now - before.lastHeard address

/-- No check comes when a client that connected long enough ago has been heard since
then less than the timeout ago. -/
def Unheard (before : Observed) (label : Int × Event) : Prop :=
  ∀ now, label.2 = .timer now →
    before.daemon.detectClientTimeout ≤ now - before.daemon.lastClientCheck →
      ∀ address s, before.daemon.heap address = some s →
        before.daemon.clientTimeout ≤ now - before.connected address →
          before.daemon.clientTimeout ≤ now - before.lastHeard address

/-! ## The invariant -/

/-- The stamps are the times at which the clients connected. -/
def Stamped (d : Daemon) (connected : Address → Int) : Prop :=
  ∀ address s, d.heap address = some s → s.lastQuery = connected address

theorem Stamps.stamped {d after : Daemon} (stamps : Stamps d after) {connected : Address → Int}
    (stamped : Stamped d connected) : Stamped after connected := by
  intro address later live
  have stamp := lastQueries_of_live live
  rcases stamps.stamps address with gone | same
  · rw [gone] at stamp
    cases stamp
  · rw [same] at stamp
    rcases Option.map_eq_some_iff.mp stamp with ⟨s, held, equal⟩
    rw [← equal]
    exact stamped address s held

theorem stamped_set {d : Daemon} {connected : Address → Int} {address : Address} (later : Socket)
    (others : ∀ other s, other ≠ address → d.heap other = some s → s.lastQuery = connected other) :
    Stamped (d.set address later) fun other =>
      if other = address then later.lastQuery else connected other := by
  intro other s live
  by_cases own : other = address
  · rw [own, heap_set] at live
    exact (congrArg Socket.lastQuery (Option.some.inj live)).symm.trans (if_pos own).symm
  · rw [heap_set_of_ne d later own] at live
    exact (others other s own live).trans (if_neg own).symm

theorem stamped_socketAccept (incoming : List Incoming) {d after : Daemon}
    {connected : Address → Int} (stamped : Stamped d connected)
    (done : socketAccept fresh incoming d = .ok after) :
    Stamped after (acceptTimes incoming connected) := by
  induction incoming generalizing d connected with
  | nil => exact Except.ok.inj done ▸ stamped
  | cons client rest induction =>
      cases client with
      | rejected => exact Except.ok.inj done ▸ stamped
      | connected address descriptor time =>
          rcases bind_eq_ok.mp done with ⟨added, new, done⟩
          rcases bind_eq_ok.mp done with ⟨s, found, done⟩
          apply induction _ done
          rcases bind_eq_ok.mp new with ⟨linked, link, new⟩
          have kept := keepsStamps_linkPrev d.sockets (some address) _ linked link
          have heap : added.heap = linked.heap := by rw [← Except.ok.inj new]
          apply stamped_set { s with s := descriptor, lastQuery := time }
          intro other held own live
          rw [heap] at live
          exact (kept.stamped (stamped_set _ fun other s _ => stamped other s)) other held live
            |>.trans (if_neg own)

theorem Stamped.step {before after : Observed} {label : Int × Event}
    (stamped : Stamped before.daemon before.connected)
    (step : TimedStep fresh before label after) : Stamped after.daemon after.connected := by
  rcases step with ⟨⟨-, done⟩, -, connected, -⟩
  rw [connected]
  rcases label with ⟨time, event⟩
  cases event with
  | acceptable incoming => exact stamped_socketAccept incoming stamped done
  | readable address lookups arrivals writes =>
      exact (keepsStamps_socketRead lookups address arrivals writes _ _ done).stamped stamped
  | writable address writes =>
      exact (keepsStamps_socketWrite address writes _ _ done).stamped stamped
  | timer now => exact (keepsStamps_socketTimer now _ _ done).stamped stamped

/-! ## Runs -/

def startObserved (clientTimeout detectClientTimeout : Int) : Observed where
  daemon := socketInit clientTimeout detectClientTimeout
  connected _ := 0
  lastHeard _ := 0

def Timely (o : Observed) : Prop := Sound o.daemon ∧ Stamped o.daemon o.connected

theorem timely_start (clientTimeout detectClientTimeout : Int) :
    Timely (startObserved clientTimeout detectClientTimeout) :=
  ⟨sound_socketInit clientTimeout detectClientTimeout, fun _ _ live => nomatch live⟩

theorem Timely.step {before after : Observed} {label : Int × Event} (timely : Timely before)
    (step : TimedStep fresh before label after) : Timely after :=
  ⟨timely.1.step step.1, Stamped.step timely.2 step⟩

/-- A step only ends idle clients exactly when no client has been heard since it connected
that the step ends for its age. -/
theorem Timely.endsIdle_iff {before after : Observed} {label : Int × Event}
    (timely : Timely before) (step : TimedStep fresh before label after) :
    EndsIdle before label after ↔ Unheard before label := by
  rcases timely with ⟨sound, stamped⟩
  rcases step with ⟨⟨-, done⟩, -⟩
  constructor
  · intro idle now timer due address s live old
    rw [timer] at done
    apply idle now timer address s live
    rw [socketTimer_ends now sound done live, stamped address s live]
    exact ⟨due, old⟩
  · intro unheard now timer address s live ended
    rw [timer] at done
    rw [socketTimer_ends now sound done live, stamped address s live] at ended
    exact unheard now timer ended.1 address s live ended.2

/-- In every run of connections, reads, writes and ticks the timer only ends clients that
have been idle for the timeout, if and only if none of its checks finds a client that
connected that long ago and has been heard since. -/
theorem timeouts_idle_iff {clientTimeout detectClientTimeout : Int}
    {labels : List (Int × Event)} {o : Observed} :
    Run (fun before label after => TimedStep fresh before label after ∧
          EndsIdle before label after)
        (startObserved clientTimeout detectClientTimeout) labels o ↔
      Run (fun before label after => TimedStep fresh before label after ∧ Unheard before label)
        (startObserved clientTimeout detectClientTimeout) labels o := by
  have start := timely_start clientTimeout detectClientTimeout
  constructor
  · refine Run.convert Timely start ?_ ?_
    · intro before label after timely taken
      exact timely.step taken.1
    · intro before label after timely taken
      exact ⟨taken.1, (timely.endsIdle_iff taken.1).mp taken.2⟩
  · refine Run.convert Timely start ?_ ?_
    · intro before label after timely taken
      exact timely.step taken.1
    · intro before label after timely taken
      exact ⟨taken.1, (timely.endsIdle_iff taken.1).mpr taken.2⟩

/-! ### A busy client -/

/-- The client that connected at 100 has sent the query x and read the reply. -/
def connectedBusy : Daemon :=
  match handle (fun _ => 0) (.readable 1 noLookups [.data [0, 1, 120]] [.wrote 16])
    connectedOnce with
  | .ok d => d
  | .error _ => connectedOnce

theorem connectedBusy_handled :
    handle (fun _ => 0) (.readable 1 noLookups [.data [0, 1, 120]] [.wrote 16]) connectedOnce =
      .ok connectedBusy := by
  have enabled : Enabled connectedOnce
      (.readable 1 noLookups [.data [0, 1, 120]] [.wrote 16]) := rfl
  have accepted : ¬Refuses (fun _ => 0) connectedOnce
      (.readable 1 noLookups [.data [0, 1, 120]] [.wrote 16]) := by
    change outcomeOf (fun _ => 0) connectedOnce 1 noLookups [.data [0, 1, 120]] ≠ .refused
    decide +kernel
  rcases (handle_ok_iff (sound_of_run connectedOnce_run) enabled).mpr accepted with ⟨after, done⟩
  rw [connectedBusy, done]

def observedOnce : Observed := ⟨connectedOnce, acceptTimes [.connected 1 5 100] (fun _ => 0),
  acceptTimes [.connected 1 5 100] fun _ => 0⟩

def observedBusy : Observed :=
  ⟨connectedBusy, observedOnce.connected, fun other => if other = 1 then 109 else
    observedOnce.lastHeard other⟩

theorem observedBusy_run :
    Run (TimedStep fun _ => 0) (startObserved 10 4)
      [(100, .acceptable [.connected 1 5 100]),
        (109, .readable 1 noLookups [.data [0, 1, 120]] [.wrote 16])] observedBusy := by
  have first : TimedStep (fun _ => 0) (startObserved 10 4)
      (100, .acceptable [.connected 1 5 100]) observedOnce :=
    ⟨⟨⟨by simp [Incoming.address], fun _ _ => rfl⟩, rfl⟩, (fun _ timer => by cases timer),
      rfl, rfl⟩
  have heard : receives (fun _ => 0) connectedOnce 1 noLookups [.data [0, 1, 120]] = true := by
    decide +kernel
  have second : TimedStep (fun _ => 0) observedOnce
      (109, .readable 1 noLookups [.data [0, 1, 120]] [.wrote 16]) observedBusy := by
    have reading : connectedOnce.reading 1 = true := by decide +kernel
    have before : observedOnce.daemon = connectedOnce := by rw [observedOnce]
    have after : observedBusy.daemon = connectedBusy := by rw [observedBusy]
    refine ⟨?_, (fun _ timer => by cases timer), rfl, ?_⟩
    · rw [before, after]
      exact ⟨reading, connectedBusy_handled⟩
    · exact (if_pos (e := observedOnce.lastHeard) heard).symm
  exact (Run.start.next first).next second

/-- The check at 110 ends the connection made at 100, though a packet came at 109. -/
theorem not_timeouts_idle :
    ¬∀ (fresh : Nat → UInt8) (clientTimeout detectClientTimeout : Int)
      (labels : List (Int × Event)) (o : Observed),
        Run (TimedStep fresh) (startObserved clientTimeout detectClientTimeout) labels o →
          ∀ label after, TimedStep fresh o label after → EndsIdle o label after := by
  intro idle
  have timely : Timely observedBusy := observedBusy_run.preserves Timely (timely_start 10 4)
    fun _ _ _ holds step => holds.step step
  rcases socketTimer_ok 110 timely.1 with ⟨after, done, -⟩
  have step : TimedStep (fun _ => 0) observedBusy (110, .timer 110)
      ⟨after, observedBusy.connected, observedBusy.lastHeard⟩ := by
    refine ⟨⟨trivial, done⟩, ?_, rfl, rfl⟩
    intro now timer
    exact (Event.timer.inj timer).symm
  have left : (observedBusy.daemon.heap 1).isSome = true := by decide +kernel
  rcases Option.isSome_iff_exists.mp left with ⟨s, live⟩
  have due : observedBusy.daemon.detectClientTimeout ≤
      110 - observedBusy.daemon.lastClientCheck := by
    decide +kernel
  have timeout : observedBusy.daemon.clientTimeout = 10 := by decide +kernel
  have stamp : s.lastQuery = observedBusy.connected 1 := timely.2 1 s live
  have ended : after.heap 1 = none := by
    rw [socketTimer_ends 110 timely.1 done live, stamp, timeout]
    exact ⟨due, by decide⟩
  have heard := idle _ _ _ _ _ observedBusy_run _ _ step 110 rfl 1 s live ended
  rw [timeout] at heard
  exact absurd heard (by decide)

end Vpopmail.Vusaged
