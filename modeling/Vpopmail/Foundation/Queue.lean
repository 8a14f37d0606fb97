import Mathlib.Data.List.ReduceOption

/-! # Queues

Items are put in at the end of a queue and taken from its front. A store refines the queue when
each of its steps does what the step of the queue does.
-/

namespace Vpopmail.Queue

variable {Item : Type}

/-- What can happen to a queue. An item that is not admitted is lost, and when the queue is not
available, nothing is taken. -/
inductive Event (Item : Type)
  | put (admitted : Bool) (item : Item)
  | take (available : Bool)

/-- The item that is taken, and the queue that is left. -/
def step (queue : List Item) : Event Item → Option Item × List Item
  | .put true item => (none, queue ++ [item])
  | .put false _ => (none, queue)
  | .take true => (queue.head?, queue.tail)
  | .take false => (none, queue)

/-- The results of the events in order, and the queue that is left. -/
def run (queue : List Item) : List (Event Item) → List (Option Item) × List Item
  | [] => ([], queue)
  | event :: events =>
      let stepped := step queue event
      let rest := run stepped.2 events
      (stepped.1 :: rest.1, rest.2)

/-- The item that an event puts into the queue. -/
def Event.admitted? : Event Item → Option Item
  | .put true item => some item
  | _ => none

/-- The items that are put in, in order. -/
def puts (events : List (Event Item)) : List Item := events.filterMap Event.admitted?

/-- The items that are taken, in order. -/
def taken (results : List (Option Item)) : List Item := results.reduceOption

theorem step_conserves (queue : List Item) (event : Event Item) :
    queue ++ event.admitted?.toList = (step queue event).1.toList ++ (step queue event).2 := by
  cases event with
  | put admitted item => cases admitted <;> simp [step, Event.admitted?]
  | take available =>
      cases available with
      | false => simp [step, Event.admitted?]
      | true => cases queue <;> simp [step, Event.admitted?]

/-- What was in the queue and what was put in comes out in this order, up to what is left. -/
theorem run_conserves (queue : List Item) (events : List (Event Item)) :
    queue ++ puts events = taken (run queue events).1 ++ (run queue events).2 := by
  induction events generalizing queue with
  | nil => simp [run, puts, taken]
  | cons event events induction =>
      have first : puts (event :: events) = event.admitted?.toList ++ puts events := by
        cases admitted : event.admitted? <;> simp [puts, admitted]
      have results : taken (run queue (event :: events)).1 =
          (step queue event).1.toList ++ taken (run (step queue event).2 events).1 := by
        rw [run, taken]
        cases (step queue event).1 <;> rfl
      rw [first, results, ← List.append_assoc, step_conserves, List.append_assoc, induction,
        ← List.append_assoc]
      rfl

/-- Nothing is taken more often than it was there. -/
theorem count_taken_le [BEq Item] (queue : List Item) (events : List (Event Item))
    (item : Item) :
    (taken (run queue events).1).count item ≤ (queue ++ puts events).count item := by
  rw [run_conserves, List.count_append]
  exact Nat.le_add_right _ _

/-! ## Stores -/

section Refinement

variable {Store Operation : Type} (advance : Store → Operation → Option Item × Store)
    (event : Operation → Event Item) (Holds : Store → List Item → Prop)

/-- The results of the operations on a store, and the store that is left. -/
def advanceAll (store : Store) : List Operation → List (Option Item) × Store
  | [] => ([], store)
  | operation :: operations =>
      let stepped := advance store operation
      let rest := advanceAll stepped.2 operations
      (stepped.1 :: rest.1, rest.2)

/-- A store whose operations do what their events do refines the queue in every run. -/
theorem run_refines {guard : Operation → Prop}
    (simulates : ∀ store queue operation, Holds store queue → guard operation →
      (advance store operation).1 = (step queue (event operation)).1 ∧
        Holds (advance store operation).2 (step queue (event operation)).2)
    {store : Store} {queue : List Item} (initially : Holds store queue)
    {operations : List Operation} (guarded : ∀ operation ∈ operations, guard operation) :
    (advanceAll advance store operations).1 = (run queue (operations.map event)).1 ∧
      Holds (advanceAll advance store operations).2 (run queue (operations.map event)).2 := by
  induction operations generalizing store queue with
  | nil => exact ⟨rfl, initially⟩
  | cons operation operations induction =>
      rcases simulates store queue operation initially (guarded operation List.mem_cons_self) with
        ⟨result, held⟩
      rcases induction held fun other member =>
        guarded other (List.mem_cons_of_mem operation member) with ⟨results, final⟩
      refine ⟨?_, final⟩
      rw [advanceAll, List.map_cons, run, result, results]

end Refinement

end Vpopmail.Queue
