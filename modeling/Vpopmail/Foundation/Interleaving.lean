import Mathlib.Algebra.GroupWithZero.Nat
import Vpopmail.Foundation.Execution

/-! # Interleaved operations

Operations that run at the same time take their steps on a shared value in any
order. A balance between the shared value and the weights of the operations
holds throughout when every single step keeps it.
-/

namespace Vpopmail.Interleaving

open Execution

structure Pool (Shared Operation : Type) where
  shared : Shared
  running : List Operation

/-- An operation begins, or one of those that run takes a step. -/
inductive Label (Start Choice : Type)
  | launch (start : Start)
  | advance (index : Nat) (choice : Choice)

/-- A step may be impossible, and the last one leaves no operation. -/
structure System (Shared Operation Start Choice : Type) where
  launch : Start → Operation
  advance : Choice → Shared → Operation → Option (Shared × Option Operation)

variable {Shared Operation Start Choice : Type}

namespace System

variable (system : System Shared Operation Start Choice)

def next (pool : Pool Shared Operation) :
    Label Start Choice → Option (Pool Shared Operation)
  | .launch start => some { pool with running := pool.running ++ [system.launch start] }
  | .advance index choice =>
      match pool.running[index]? with
      | none => none
      | some operation =>
          (system.advance choice pool.shared operation).map fun stepped =>
            { shared := stepped.1
              running := pool.running.take index ++ stepped.2.toList ++
                pool.running.drop (index + 1) }

def Step (before : Pool Shared Operation) (label : Label Start Choice)
    (after : Pool Shared Operation) : Prop :=
  system.next before label = some after

/-- A step whose operation meets a condition before it. -/
structure GuardedStep (guard : Shared → Operation → Choice → Prop)
    (before : Pool Shared Operation) (label : Label Start Choice)
    (after : Pool Shared Operation) : Prop where
  step : system.Step before label after
  guarded : ∀ index choice operation, label = .advance index choice →
    before.running[index]? = some operation → guard before.shared operation choice

section Execution

variable (guard : Shared → Operation → Choice → Prop)
  [∀ shared operation choice, Decidable (guard shared operation choice)]

def admits (pool : Pool Shared Operation) : Label Start Choice → Bool
  | .launch _ => true
  | .advance index choice =>
      match pool.running[index]? with
      | none => true
      | some operation => decide (guard pool.shared operation choice)

/-- The steps of a list, one after another, as long as the condition admits
them. -/
def execute (pool : Pool Shared Operation) :
    List (Label Start Choice) → Option (Pool Shared Operation)
  | [] => some pool
  | label :: labels =>
      if admits guard pool label then
        (system.next pool label).bind fun pool => execute pool labels
      else none

variable {guard}

theorem guarded_of_admits {pool : Pool Shared Operation} {label : Label Start Choice}
    (admitted : admits guard pool label = true) (index : Nat) (choice : Choice)
    (operation : Operation) (advances : label = .advance index choice)
    (found : pool.running[index]? = some operation) : guard pool.shared operation choice := by
  rw [advances, admits, found] at admitted
  exact of_decide_eq_true admitted

theorem run_of_execute {labels : List (Label Start Choice)} {start finish : Pool Shared Operation}
    (executed : system.execute guard start labels = some finish) :
    Run (system.GuardedStep guard) start labels finish := by
  induction labels generalizing start with
  | nil => exact Option.some.inj executed ▸ .start
  | cons label labels induction =>
      rw [execute] at executed
      split at executed
      · rename_i admitted
        rcases Option.bind_eq_some_iff.mp executed with ⟨middle, step, rest⟩
        have guarded : system.GuardedStep guard start label middle :=
          ⟨step, guarded_of_admits admitted⟩
        have first : Run (system.GuardedStep guard) start [label] middle :=
          Run.start.next guarded
        exact first.append (induction rest)
      · cases executed

end Execution

/-! ## Steps -/

section Steps

variable {system}

theorem step_launch {before after : Pool Shared Operation} {start : Start}
    (step : system.Step before (.launch start) after) :
    after = { before with running := before.running ++ [system.launch start] } :=
  (Option.some.inj step).symm

/-- The operation that takes a step, and those in front of it and behind. -/
theorem step_advance {before after : Pool Shared Operation} {index : Nat} {choice : Choice}
    (step : system.Step before (.advance index choice) after) :
    ∃ front operation behind next, before.running[index]? = some operation ∧
      before.running = front ++ operation :: behind ∧
      after.running = front ++ next.toList ++ behind ∧
      system.advance choice before.shared operation = some (after.shared, next) := by
  simp only [Step, next] at step
  cases found : before.running[index]? with
  | none =>
      rw [found] at step
      cases step
  | some operation =>
      rw [found] at step
      rcases Option.map_eq_some_iff.mp step with ⟨⟨shared, next⟩, advanced, there⟩
      have split : before.running =
          before.running.take index ++ operation :: before.running.drop (index + 1) := by
        rcases List.getElem?_eq_some_iff.mp found with ⟨inside, here⟩
        rw [← here, ← List.drop_eq_getElem_cons inside, List.take_append_drop]
      refine ⟨_, operation, _, next, rfl, split, ?_, ?_⟩
      · rw [← there]
      · rw [← there]
        exact advanced

/-- The rely rule. What every operation relies on, the steps of the others keep. -/
theorem run_rely {guard : Shared → Operation → Choice → Prop} (Fine : Shared → Prop)
    (Rely : Shared → Shared → Prop) (Sound : Shared → Operation → Prop)
    (launched : ∀ shared start, Fine shared → Sound shared (system.launch start))
    (stable : ∀ before after operation, Rely before after → Sound before operation →
      Sound after operation)
    (advanced : ∀ choice shared operation after next, Fine shared → Sound shared operation →
      guard shared operation choice →
      system.advance choice shared operation = some (after, next) →
      Fine after ∧ Rely shared after ∧ ∀ stepped ∈ next, Sound after stepped)
    {shared : Shared} (initially : Fine shared) {labels : List (Label Start Choice)}
    {finish : Pool Shared Operation}
    (run : Run (system.GuardedStep guard) ⟨shared, []⟩ labels finish) :
    Fine finish.shared ∧ ∀ operation ∈ finish.running, Sound finish.shared operation := by
  have rule := run.preserves fun pool =>
    Fine pool.shared ∧ ∀ operation ∈ pool.running, Sound pool.shared operation
  apply rule
  · refine ⟨initially, ?_⟩
    intro operation member
    cases member
  · intro before label after holds step
    rcases holds with ⟨fine, sound⟩
    cases label with
    | launch start =>
        rw [step_launch step.step]
        refine ⟨fine, ?_⟩
        intro operation member
        rcases List.mem_append.mp member with old | new
        · exact sound operation old
        · rw [List.mem_singleton.mp new]
          exact launched before.shared start fine
    | advance index choice =>
        rcases step_advance step.step with
          ⟨front, operation, behind, next, found, split, running, stepped⟩
        have guarded := step.guarded index choice operation rfl found
        have member : operation ∈ before.running := List.mem_of_getElem? found
        rcases advanced choice before.shared operation after.shared next fine
          (sound operation member) guarded stepped with ⟨fineAfter, rely, soundNext⟩
        have others : ∀ other ∈ before.running, Sound after.shared other := by
          intro other otherMember
          exact stable before.shared after.shared other rely (sound other otherMember)
        refine ⟨fineAfter, ?_⟩
        intro other otherMember
        rw [split] at others
        rw [running, List.mem_append, List.mem_append] at otherMember
        rcases otherMember with (inFront | new) | later
        · exact others other (List.mem_append_left _ inFront)
        · exact soundNext other (Option.mem_toList.mp new)
        · exact others other (List.mem_append_right _ (List.mem_cons_of_mem _ later))

end Steps

/-! ## Weights -/

/-- The weight of an operation, if there is one. -/
def weightOf (weight : Operation → Nat) : Option Operation → Nat
  | none => 0
  | some operation => weight operation

theorem sum_toList (weight : Operation → Nat) (operation : Option Operation) :
    (operation.toList.map weight).sum = weightOf weight operation := by
  cases operation with
  | none => rfl
  | some operation => exact List.sum_singleton

variable {system}

/-- The balance rule. -/
theorem run_balance {guard : Shared → Operation → Choice → Prop} (weight : Operation → Nat)
    (balance : Shared → Nat → Prop) (light : ∀ start, weight (system.launch start) = 0)
    (kept : ∀ choice shared operation others after next,
      balance shared (weight operation + others) → guard shared operation choice →
      system.advance choice shared operation = some (after, next) →
      balance after (weightOf weight next + others))
    {shared : Shared} (initially : balance shared 0) {labels : List (Label Start Choice)}
    {finish : Pool Shared Operation}
    (run : Run (system.GuardedStep guard) ⟨shared, []⟩ labels finish) :
    balance finish.shared (finish.running.map weight).sum := by
  have rule := run.preserves (fun pool => balance pool.shared (pool.running.map weight).sum)
  apply rule initially
  intro before label after holds step
  cases label with
  | launch start =>
      rw [step_launch step.step]
      simpa [light] using holds
  | advance index choice =>
      rcases step_advance step.step with
        ⟨front, operation, behind, next, found, split, running, stepped⟩
      have guarded := step.guarded index choice operation rfl found
      let others := (front.map weight).sum + (behind.map weight).sum
      have apart : (before.running.map weight).sum = weight operation + others := by
        rw [split, List.map_append, List.map_cons, List.sum_append, List.sum_cons]
        simp only [others]
        omega
      have total : (after.running.map weight).sum = weightOf weight next + others := by
        rw [running, List.map_append, List.map_append, List.sum_append, List.sum_append,
          sum_toList]
        simp only [others]
        omega
      rw [apart] at holds
      rw [total]
      exact kept choice before.shared operation others after.shared next holds guarded stepped

end System

end Vpopmail.Interleaving
