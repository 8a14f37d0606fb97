import Mathlib.Data.List.Basic

/-! # Runs of a labelled step relation

A run lists the labels of its steps. What every step preserves holds in every
state that a run reaches.
-/

namespace Vpopmail.Execution

variable {State Label : Type}

inductive Run (step : State → Label → State → Prop) (start : State) :
    List Label → State → Prop
  | start : Run step start [] start
  | next {labels : List Label} {before after : State} {label : Label} :
      Run step start labels before → step before label after →
        Run step start (labels ++ [label]) after

/-- The invariant rule. -/
theorem Run.preserves {step : State → Label → State → Prop} {start finish : State}
    {labels : List Label} (invariant : State → Prop) (initially : invariant start)
    (preserved : ∀ before label after, invariant before → step before label after →
      invariant after) (run : Run step start labels finish) : invariant finish := by
  induction run with
  | start => exact initially
  | next _ step induction => exact preserved _ _ _ induction step

theorem Run.append {step : State → Label → State → Prop} {start middle finish : State}
    {labels others : List Label} (run : Run step start labels middle)
    (rest : Run step middle others finish) : Run step start (labels ++ others) finish := by
  induction rest with
  | start =>
      rw [List.append_nil]
      exact run
  | next _ step induction =>
      rw [← List.append_assoc]
      exact induction.next step

/-- A run of a smaller step relation. -/
theorem Run.weaken {smaller larger : State → Label → State → Prop} {start finish : State}
    {labels : List Label} (included : ∀ before label after, smaller before label after →
      larger before label after) (run : Run smaller start labels finish) :
    Run larger start labels finish := by
  induction run with
  | start => exact .start
  | next _ step induction => exact induction.next (included _ _ _ step)

/-- A run in other steps that agree as far as an invariant holds. -/
theorem Run.convert {first second : State → Label → State → Prop} {start finish : State}
    {labels : List Label} (invariant : State → Prop) (initially : invariant start)
    (preserved : ∀ before label after, invariant before → first before label after →
      invariant after)
    (included : ∀ before label after, invariant before → first before label after →
      second before label after) (run : Run first start labels finish) :
    Run second start labels finish := by
  induction run with
  | start => exact .start
  | next run step induction =>
      exact induction.next (included _ _ _ (run.preserves invariant initially preserved) step)

/-! ## Executable steps -/

/-- The steps of a list, one after another. -/
def execute (next : State → Label → Option State) (state : State) : List Label → Option State
  | [] => some state
  | label :: labels => (next state label).bind fun state => execute next state labels

theorem run_of_execute {next : State → Label → Option State} {start finish : State}
    {labels : List Label} (executed : execute next start labels = some finish) :
    Run (fun before label after => next before label = some after) start labels finish := by
  induction labels generalizing start with
  | nil => exact Option.some.inj executed ▸ .start
  | cons label labels induction =>
      rcases Option.bind_eq_some_iff.mp executed with ⟨middle, step, rest⟩
      have first : Run (fun before label after => next before label = some after) start [label]
          middle := Run.start.next step
      exact first.append (induction rest)

end Vpopmail.Execution
