import Vpopmail.Vusaged.WorkQueue

/-! # The protocol of the work queue

A user changes places only while its mark is set, and the mark is set by the thread that
finds it unset. So nobody else can have the user.
-/

namespace Vpopmail.Vusaged

open LinkedList Execution

/-! ## Users that stay -/

/-- A user that has not been freed stays, with its mark. -/
def Stays (users after : Users) (u : Nat) : Prop :=
  (users.links u).isSome = true →
    (after.links u).isSome = true ∧ after.processing u = users.processing u

theorem Stays.trans {users middle after : Users} {u : Nat} (first : Stays users middle u)
    (second : Stays middle after u) : Stays users after u := by
  intro live
  have there := first live
  have later := second there.1
  exact ⟨later.1, later.2.trans there.2⟩

section Users

variable {users after : Users} {u : Nat}

theorem stays_userUserlistAdd {added : Nat} (added_free : (users.links added).isNone = true) :
    Stays users (users.userUserlistAdd added) u := by
  intro live
  have other : u ≠ added := by
    intro same
    rw [← same] at added_free
    simp [Option.isNone_iff_eq_none.mp added_free] at live
  constructor
  · simp only [Users.userUserlistAdd, push, if_neg other, setPrev]
    rw [isSome_change]
    exact live
  · exact if_neg other

theorem stays_userFree {freed : Nat} (other : u ≠ freed) :
    Stays users (users.userFree freed) u := by
  intro live
  refine ⟨?_, rfl⟩
  simp only [Users.userFree, if_neg other]
  exact live

theorem stays_userGet {get : UserGet} {found : Option Nat}
    (got : users.userGet get = some (after, found)) : Stays users after u := by
  have free : ∀ added, users.mayAdd added = true → (users.links added).isNone = true := by
    intro added allowed
    rw [Users.mayAdd, Bool.and_eq_true] at allowed
    exact allowed.1
  cases get with
  | missing =>
      cases got
      exact fun live => ⟨live, rfl⟩
  | cached cached =>
      cases got
      exact fun live => ⟨live, rfl⟩
  | loaded added =>
      rw [Users.userGet] at got
      split at got
      · rename_i allowed
        cases got
        exact stays_userUserlistAdd (free added allowed)
      · cases got
  | tooLong added =>
      rw [Users.userGet] at got
      split at got
      · rename_i allowed
        cases got
        intro live
        have other : u ≠ added := by
          intro same
          have unused := free added allowed
          rw [← same] at unused
          simp [Option.isNone_iff_eq_none.mp unused] at live
        exact (stays_userUserlistAdd (free added allowed)).trans (stays_userFree other) live
      · cases got

theorem stays_loadUsers {gets : List UserGet} (loaded : loadUsers gets users = some after) :
    Stays users after u := by
  induction gets generalizing users with
  | nil =>
      cases loaded
      exact fun live => ⟨live, rfl⟩
  | cons get gets induction =>
      rw [loadUsers] at loaded
      rcases Option.bind_eq_some_iff.mp loaded with ⟨⟨middle, found⟩, got, rest⟩
      exact (stays_userGet got).trans (induction rest)

/-- Links that change leave their users where they are. -/
theorem stays_linked {target : Option Nat} {nodes : Nat → Option (Links Nat)}
    {update : Links Nat → Links Nat} (changed : nodes = change users.links target update)
    (linked : ∀ other, target = some other →
      (users.deref other).map (fun _ => { users with links := nodes }) = .ok after)
    (unlinked : target = none → users = after) : Stays users after u := by
  cases target with
  | none => exact unlinked rfl ▸ fun live => ⟨live, rfl⟩
  | some other =>
      have ran := linked other rfl
      cases found : users.deref other with
      | error fault =>
          rw [found] at ran
          cases ran
      | ok links =>
          rw [found] at ran
          cases ran
          intro live
          refine ⟨?_, rfl⟩
          rw [changed, isSome_change]
          exact live

theorem stays_linkPrev {target prev : Option Nat}
    (linked : users.linkPrev target prev = .ok after) : Stays users after u := by
  apply stays_linked (show setPrev users.links target prev = change _ _ _ from rfl)
  · rintro other rfl
    exact linked
  · rintro rfl
    exact Except.ok.inj linked

theorem stays_linkNext {target next : Option Nat}
    (linked : users.linkNext target next = .ok after) : Stays users after u := by
  apply stays_linked (show setNext users.links target next = change _ _ _ from rfl)
  · rintro other rfl
    exact linked
  · rintro rfl
    exact Except.ok.inj linked

theorem stays_userRemove {removed : Nat} (result : users.userRemove removed = .ok after) :
    Stays users after u := by
  rw [Users.userRemove] at result
  simp only [bind, Except.bind] at result
  split at result
  · cases result
  · split at result
    · cases result
    · rename_i first linkedPrev
      split at result
      · cases result
      · rename_i second linkedNext
        have linked := (stays_linkPrev (u := u) linkedPrev).trans (stays_linkNext linkedNext)
        rw [Except.ok.injEq] at result
        rw [← result]
        split
        · exact linked
        · exact linked

/-- `user_verify` frees the user itself at most. -/
theorem stays_userVerify {verified known : Bool} {v : Nat} (other : u ≠ v)
    (result : users.userVerify v known = .ok (verified, after)) : Stays users after u := by
  rw [Users.userVerify] at result
  split at result
  · cases result
    exact fun live => ⟨live, rfl⟩
  · cases removed : users.userRemove v with
    | error fault =>
        rw [removed] at result
        cases result
    | ok middle =>
        rw [removed] at result
        cases result
        exact (stays_userRemove removed).trans (stays_userFree other)

theorem userVerify_true {known : Bool} {v : Nat}
    (result : users.userVerify v known = .ok (true, after)) : after = users := by
  rw [Users.userVerify] at result
  split at result
  · cases result
    rfl
  · cases removed : users.userRemove v <;> rw [removed] at result <;> cases result

theorem stays_mark {marked : Nat} {mark : Bool} (other : u ≠ marked) :
    Stays users (users.mark marked mark) u :=
  fun live => ⟨live, if_neg other⟩

end Users

/-! ## Changes of place -/

section Places

variable {queueMaxSize : Int} {before after : Work}

/-- Nobody gets another user. -/
theorem QueueProtocol.keep (protocol : QueueProtocol queueMaxSize before)
    (queue : after.queue = before.queue) (queueSize : after.queueSize = before.queueSize)
    (held : ∀ holder u, after.Holds holder u → before.Holds holder u ∧
      Stays before.users after.users u) : QueueProtocol queueMaxSize after := by
  constructor
  · rw [queue]
    exact protocol.once
  · intro first second u holdsFirst holdsSecond
    exact protocol.alone first second u (held _ _ holdsFirst).1 (held _ _ holdsSecond).1
  · intro holder u holds
    rcases held holder u holds with ⟨already, stays⟩
    rw [(stays (protocol.live holder u already)).2]
    exact protocol.marked holder u already
  · intro holder u holds
    rcases held holder u holds with ⟨already, stays⟩
    exact (stays (protocol.live holder u already)).1
  · rw [queueSize, queue]
    exact protocol.size
  · rw [queueSize]
    exact protocol.bounded

/-- One user goes to a place. -/
theorem QueueProtocol.move (protocol : QueueProtocol queueMaxSize before) (u : Nat)
    (place : Holder)
    (others : ∀ holder other, after.Holds holder other → other ≠ u →
      before.Holds holder other ∧ Stays before.users after.users other)
    (own : ∀ holder, after.Holds holder u → holder = place)
    (marked : after.users.processing u = true) (live : (after.users.links u).isSome = true)
    (once : after.queue.Nodup) (size : after.queueSize = after.queue.length)
    (bounded : after.queueSize ≤ queueMaxSize) : QueueProtocol queueMaxSize after := by
  constructor
  · exact once
  · intro first second other holdsFirst holdsSecond
    by_cases same : other = u
    · rw [same] at holdsFirst holdsSecond
      rw [own first holdsFirst, own second holdsSecond]
    · exact protocol.alone first second other (others _ _ holdsFirst same).1
        (others _ _ holdsSecond same).1
  · intro holder other holds
    by_cases same : other = u
    · rw [same]
      exact marked
    · rcases others holder other holds same with ⟨already, stays⟩
      rw [(stays (protocol.live holder other already)).2]
      exact protocol.marked holder other already
  · intro holder other holds
    by_cases same : other = u
    · rw [same]
      exact live
    · rcases others holder other holds same with ⟨already, stays⟩
      exact (stays (protocol.live holder other already)).1
  · exact size
  · exact bounded

theorem QueueProtocol.not_holds (protocol : QueueProtocol queueMaxSize before) {u : Nat}
    (idle : before.users.processing u = false) (holder : Holder) : ¬before.Holds holder u := by
  intro holds
  have marked := protocol.marked holder u holds
  rw [idle] at marked
  cases marked

end Places

/-! ## Steps of the controller -/

section Controller

variable {queueMaxSize : Int} {chance : Chance} {work after : Work}

theorem holds_of_hand (work after : Work) (queue : after.queue = work.queue)
    (workers : after.workers = work.workers)
    (hand : ∀ u, after.controller.hand = some u → work.controller.hand = some u)
    {holder : Holder} {u : Nat} (holds : after.Holds holder u) : work.Holds holder u := by
  cases holder with
  | queue =>
      rw [Work.Holds, queue] at holds
      exact holds
  | worker index =>
      rw [Work.Holds, workers] at holds
      exact holds
  | controller => exact hand u holds

/-- The controller has no other user than before. -/
theorem QueueProtocol.controller (protocol : QueueProtocol queueMaxSize work)
    (users : Users) (controller : Controller)
    (hand : ∀ u, controller.hand = some u → work.controller.hand = some u)
    (stays : ∀ u, controller.hand = some u ∨ work.controller.hand ≠ some u →
      Stays work.users users u) :
    QueueProtocol queueMaxSize { work with users := users, controller := controller } := by
  refine protocol.keep rfl rfl ?_
  intro holder u holds
  have already : work.Holds holder u :=
    holds_of_hand work { work with users := users, controller := controller } rfl rfl hand holds
  refine ⟨already, stays u ?_⟩
  by_cases own : controller.hand = some u
  · exact .inl own
  · right
    intro before
    have place := protocol.alone holder .controller u already before
    rw [place] at holds
    exact own holds

theorem stays_refl (users : Users) (u : Nat) : Stays users users u := fun live => ⟨live, rfl⟩

/-- The controller goes on without a user in its hand. -/
theorem QueueProtocol.free_hand (protocol : QueueProtocol queueMaxSize work)
    {controller : Controller} (empty : controller.hand = none) :
    QueueProtocol queueMaxSize { work with controller := controller } := by
  apply protocol.controller work.users controller
  · intro u hand
    rw [empty] at hand
    cases hand
  · intro u _
    exact stays_refl work.users u

/-- An unmarked user gets its mark and goes to the queue. -/
theorem protocol_push (protocol : QueueProtocol queueMaxSize work) {u : Nat}
    (live : (work.users.links u).isSome = true) (idle : work.users.processing u = false)
    (room : ¬work.queueSize ≥ queueMaxSize) :
    QueueProtocol queueMaxSize ({ work with users := work.users.mark u true }.queuePush u) := by
  have nobody := protocol.not_holds idle
  apply protocol.move u .queue
  · intro holder other holds different
    refine ⟨?_, stays_mark different⟩
    cases holder with
    | queue =>
        rcases List.mem_cons.mp holds with same | member
        · exact absurd same different
        · exact member
    | worker index => exact holds
    | controller => exact holds
  · intro holder holds
    cases holder with
    | queue => rfl
    | worker index => exact absurd holds (nobody (.worker index))
    | controller => exact absurd holds (nobody .controller)
  · exact if_pos rfl
  · exact live
  · exact List.nodup_cons.mpr ⟨nobody .queue, protocol.once⟩
  · simp [Work.queuePush, protocol.size]
  · simp only [Work.queuePush]
    omega

theorem protocol_fill (protocol : QueueProtocol queueMaxSize work)
    (filled : fill queueMaxSize chance work = some after) :
    QueueProtocol queueMaxSize after := by
  rw [fill] at filled
  split at filled
  · cases filled
    exact protocol.free_hand rfl
  · split at filled
    · cases filled
      apply protocol.free_hand
      split <;> rfl
    · rename_i room
      split at filled
      · cases filled
        exact protocol.free_hand rfl
      · rename_i get next
        rcases Option.bind_eq_some_iff.mp filled with ⟨⟨users, found⟩, got, rest⟩
        have loaded : QueueProtocol queueMaxSize { work with users := users } := by
          refine protocol.keep rfl rfl ?_
          intro holder u holds
          exact ⟨holds_of_hand work _ rfl rfl (fun _ hand => hand) holds, stays_userGet got⟩
        cases found with
        | none =>
            cases rest
            exact loaded
        | some u =>
            simp only at rest
            split at rest
            · cases rest
            · rename_i live
              split at rest
              · cases rest
                exact loaded
              · rename_i idle
                cases rest
                apply protocol_push loaded
                · rw [Option.isNone_iff_eq_none] at live
                  exact Option.isSome_iff_ne_none.mpr live
                · simpa using idle
                · exact room

/-- The controller takes an unmarked user. -/
theorem protocol_take (protocol : QueueProtocol queueMaxSize work) {u : Nat}
    (live : (work.users.links u).isSome = true) (idle : work.users.processing u = false) :
    QueueProtocol queueMaxSize
      { work with users := work.users.mark u true, controller := .verifying u } := by
  have nobody := protocol.not_holds idle
  apply protocol.move u .controller
  · intro holder other holds different
    refine ⟨?_, stays_mark different⟩
    cases holder with
    | queue => exact holds
    | worker index => exact holds
    | controller => exact absurd (Option.some.inj holds).symm different
  · intro holder holds
    cases holder with
    | queue => exact absurd holds (nobody .queue)
    | worker index => exact absurd holds (nobody (.worker index))
    | controller => rfl
  · exact if_pos rfl
  · exact live
  · exact protocol.once
  · exact protocol.size
  · exact protocol.bounded

/-- The controller puts its user into the queue. -/
theorem protocol_enqueue (protocol : QueueProtocol queueMaxSize work) {u : Nat}
    (hand : work.controller.hand = some u) (room : ¬work.queueSize ≥ queueMaxSize)
    (next : Option Nat) :
    QueueProtocol queueMaxSize { work.queuePush u with controller := .scanning next } := by
  have own : work.Holds .controller u := hand
  have notQueued : u ∉ work.queue := by
    intro member
    cases protocol.alone .queue .controller u member own
  apply protocol.move u .queue
  · intro holder other holds different
    refine ⟨?_, stays_refl work.users other⟩
    cases holder with
    | queue =>
        rcases List.mem_cons.mp holds with same | member
        · exact absurd same different
        · exact member
    | worker index => exact holds
    | controller => cases holds
  · intro holder holds
    cases holder with
    | queue => rfl
    | worker index => cases protocol.alone (.worker index) .controller u holds own
    | controller => cases holds
  · exact protocol.marked .controller u own
  · exact protocol.live .controller u own
  · exact List.nodup_cons.mpr ⟨notQueued, protocol.once⟩
  · simp [Work.queuePush, protocol.size]
  · simp only [Work.queuePush]
    omega

theorem protocol_controllerStep (protocol : QueueProtocol queueMaxSize work)
    (stepped : controllerStep queueMaxSize chance work = some after) :
    QueueProtocol queueMaxSize after := by
  rw [controllerStep] at stepped
  split at stepped
  · cases stepped
    apply protocol.free_hand
    split <;> rfl
  · exact protocol_fill protocol stepped
  · rename_i u place
    split at stepped
    · cases stepped
      exact protocol.free_hand rfl
    · rcases Option.map_eq_some_iff.mp stepped with ⟨users, loaded, rfl⟩
      apply protocol.controller
      · intro u hand
        cases hand
      · intro u _
        exact stays_loadUsers loaded
  · cases stepped
    exact protocol.free_hand rfl
  · rename_i u place
    split at stepped
    · cases stepped
      exact protocol.free_hand rfl
    · rcases Option.map_eq_some_iff.mp stepped with ⟨node, live, rfl⟩
      split
      · exact protocol.free_hand rfl
      · rename_i idle
        apply protocol_take protocol
        · rw [live]
          rfl
        · simpa using idle
  · rename_i u place
    have hand : work.controller.hand = some u := by
      rw [place]
      rfl
    split at stepped
    · cases stepped
      apply protocol.controller work.users
      · intro other own
        rw [hand]
        exact own
      · intro other _
        exact stays_refl work.users other
    · split at stepped
      · cases stepped
      · rename_i users verified
        cases stepped
        apply protocol.controller
        · intro other own
          rw [hand]
          exact own
        · intro other _
          rw [userVerify_true verified]
          exact stays_refl work.users other
      · rename_i users removed
        rcases Option.bind_eq_some_iff.mp stepped with ⟨head, _, rest⟩
        rcases Option.map_eq_some_iff.mp rest with ⟨node, _, rfl⟩
        apply protocol.controller
        · intro other own
          cases own
        · intro other apart
          rcases apart with own | different
          · cases own
          · apply stays_userVerify ?_ removed
            intro same
            rw [same] at different
            exact different hand
  · rename_i u place
    have hand : work.controller.hand = some u := by
      rw [place]
      rfl
    split at stepped
    · cases stepped
      apply protocol.controller
      · intro other own
        cases own
      · intro other apart
        rcases apart with own | different
        · cases own
        · apply stays_mark
          intro same
          rw [same] at different
          exact different hand
    · rename_i room
      rcases Option.map_eq_some_iff.mp stepped with ⟨node, _, rfl⟩
      exact protocol_enqueue protocol hand room node.next
  · rename_i u place
    cases stepped
    apply protocol.free_hand
    split <;> rfl
  · cases stepped

end Controller

/-! ## Steps of the workers -/

section Worker

variable {queueMaxSize : Int} {chance : Chance} {work after : Work} {index : Nat}

theorem setWorker_eq (work : Work) (index : Nat) (worker : Worker) :
    (work.setWorker index worker).workers index = worker := if_pos rfl

theorem setWorker_ne (work : Work) (index : Nat) (worker : Worker) {other : Nat}
    (different : other ≠ index) :
    (work.setWorker index worker).workers other = work.workers other := if_neg different

/-- A worker that keeps its user or lets go of it. -/
theorem QueueProtocol.worker (protocol : QueueProtocol queueMaxSize work) (users : Users)
    (worker : Worker) (hand : ∀ u, worker.hand = some u → (work.workers index).hand = some u)
    (stays : ∀ u, worker.hand = some u ∨ (work.workers index).hand ≠ some u →
      Stays work.users users u) :
    QueueProtocol queueMaxSize { work.setWorker index worker with users := users } := by
  refine protocol.keep rfl rfl ?_
  intro holder u holds
  have held : work.Holds holder u := by
    cases holder with
    | queue => exact holds
    | worker other =>
        by_cases same : other = index
        · rw [same, Work.Holds] at holds ⊢
          rw [setWorker_eq] at holds
          exact hand u holds
        · rw [Work.Holds] at holds ⊢
          rw [setWorker_ne work index worker same] at holds
          exact holds
    | controller => exact holds
  refine ⟨held, stays u ?_⟩
  by_cases own : worker.hand = some u
  · exact .inl own
  · right
    intro before
    have place := protocol.alone holder (.worker index) u held before
    rw [place, Work.Holds] at holds
    rw [setWorker_eq] at holds
    exact own holds

/-- A worker takes the newest item. -/
theorem protocol_pop (protocol : QueueProtocol queueMaxSize work) {u : Nat} {queue : List Nat}
    (newest : work.queue = u :: queue) :
    QueueProtocol queueMaxSize
      ({ work with queue := queue, queueSize := work.queueSize - 1 }.setWorker index
        (.polling u)) := by
  have queued : work.Holds .queue u := by
    rw [Work.Holds, newest]
    exact List.mem_cons_self
  have once := protocol.once
  rw [newest] at once
  have apart := List.nodup_cons.mp once
  have size := protocol.size
  rw [newest, List.length_cons] at size
  have bounded := protocol.bounded
  apply protocol.move u (.worker index)
  · intro holder other holds different
    refine ⟨?_, stays_refl work.users other⟩
    cases holder with
    | queue =>
        rw [Work.Holds, newest]
        exact List.mem_cons_of_mem u holds
    | worker worker =>
        by_cases same : worker = index
        · rw [same, Work.Holds, setWorker_eq] at holds
          exact absurd (Option.some.inj holds).symm different
        · rw [Work.Holds, setWorker_ne _ _ _ same] at holds
          exact holds
    | controller => exact holds
  · intro holder holds
    cases holder with
    | queue => exact absurd holds apart.1
    | worker worker =>
        by_cases same : worker = index
        · rw [same]
        · rw [Work.Holds, setWorker_ne _ _ _ same] at holds
          cases protocol.alone (.worker worker) .queue u holds queued
    | controller => cases protocol.alone .controller .queue u holds queued
  · exact protocol.marked .queue u queued
  · exact protocol.live .queue u queued
  · exact apart.2
  · simp only [Work.setWorker]
    omega
  · simp only [Work.setWorker]
    omega

theorem protocol_workerStep (protocol : QueueProtocol queueMaxSize work)
    (stepped : workerStep index chance work = some after) : QueueProtocol queueMaxSize after := by
  rw [workerStep] at stepped
  split at stepped
  · split at stepped
    · cases stepped
      apply protocol.worker work.users
      · intro u hand
        cases hand
      · intro u _
        exact stays_refl work.users u
    · split at stepped
      · cases stepped
        exact protocol
      · rcases Option.map_eq_some_iff.mp stepped with ⟨⟨u, popped⟩, pop, rfl⟩
        rw [Work.queuePop] at pop
        split at pop
        · cases pop
        · rename_i newest queue split
          cases pop
          exact protocol_pop protocol split
  · rename_i u polling
    rcases Option.map_eq_some_iff.mp stepped with ⟨_, _, rfl⟩
    apply protocol.worker
    · intro other hand
      rw [polling]
      exact hand
    · intro other _ live
      exact ⟨live, rfl⟩
  · rename_i u polled
    rcases Option.map_eq_some_iff.mp stepped with ⟨_, _, rfl⟩
    apply protocol.worker
    · intro other hand
      cases hand
    · intro other apart
      rcases apart with own | different
      · cases own
      · apply stays_mark
        intro same
        rw [polled, same] at different
        exact different rfl
  · cases stepped

end Worker

theorem protocol_initial (users : Users) {queueMaxSize : Int} (positive : 0 < queueMaxSize) :
    QueueProtocol queueMaxSize (Work.initial users) := by
  have nobody : ∀ holder u, ¬(Work.initial users).Holds holder u := by
    intro holder u holds
    cases holder with
    | queue => cases holds
    | worker index => cases holds
    | controller => cases holds
  constructor
  · exact List.nodup_nil
  · intro first second u holds
    exact absurd holds (nobody first u)
  · intro holder u holds
    exact absurd holds (nobody holder u)
  · intro holder u holds
    exact absurd holds (nobody holder u)
  · rfl
  · exact Int.le_of_lt positive

/-- The protocol holds in every state that the controller and any number of workers reach,
in any order of their steps. -/
theorem queueProtocol_run (users : Users) {queueMaxSize : Int} (positive : 0 < queueMaxSize)
    {labels : List WorkLabel} {work : Work}
    (run : Run (Work.Step queueMaxSize) (Work.initial users) labels work) :
    QueueProtocol queueMaxSize work := by
  apply run.preserves (QueueProtocol queueMaxSize) (protocol_initial users positive)
  intro before label after protocol step
  cases label with
  | controller chance => exact protocol_controllerStep protocol step
  | worker index chance => exact protocol_workerStep protocol step
  | shutdownTrigger =>
      cases step
      refine protocol.keep rfl rfl ?_
      intro holder u holds
      exact ⟨holds_of_hand before _ rfl rfl (fun _ hand => hand) holds,
        stays_refl before.users u⟩

/-! ## A run -/

def chanceWith (nextUser : Option UserGet) (known : Bool) : Chance :=
  ⟨nextUser, [], known, false, some ⟨0, 1⟩⟩

/-- A user is loaded and polled in stage one while the controller comes by again, and is
found lost in stage two after a second one has been put into the queue. -/
def twoStages : List WorkLabel :=
  [.controller (chanceWith none true), .controller (chanceWith (some (.loaded 7)) true),
    .worker 0 (chanceWith none true), .controller (chanceWith (some (.cached 7)) true),
    .worker 0 (chanceWith none true), .worker 0 (chanceWith none true),
    .controller (chanceWith (some (.loaded 9)) true), .controller (chanceWith none true),
    .controller (chanceWith none true), .controller (chanceWith none true),
    .controller (chanceWith none true), .controller (chanceWith none false)]

theorem queueProtocol_run_twoStages :
    ∃ work, Run (Work.Step 2) (Work.initial ⟨fun _ => none, none, fun _ => false, fun _ => none⟩)
        twoStages work ∧
      (work.queue, work.queueSize, work.users.userlist, (work.users.links 7).isSome) =
        ([9], 1, some 9, false) ∧
      QueueProtocol 2 work := by
  have executed : (execute (Work.next 2) (Work.initial
      ⟨fun _ => none, none, fun _ => false, fun _ => none⟩) twoStages).map (fun work =>
        (work.queue, work.queueSize, work.users.userlist, (work.users.links 7).isSome)) =
      some ([9], 1, some 9, false) := by decide +kernel
  rcases Option.map_eq_some_iff.mp executed with ⟨work, ran, summary⟩
  have run : Run (Work.Step 2) _ twoStages work := run_of_execute ran
  exact ⟨work, run, summary, queueProtocol_run _ (by decide) run⟩

end Vpopmail.Vusaged
