import Vpopmail.Foundation.Interleaving
import Mathlib.Data.List.Nodup

/-! # Updates of a record

Operations that run at the same time change parts of one shared record. As long
as every step that writes the record changes one part of it and leaves the others
as they are, a completed change of a part that no other operation changes holds
ever after.
-/

namespace Vpopmail.Updates

open Interleaving Execution

/-- Changes of the parts of a record. -/
structure Changes (Record Change Part : Type) where
  part : Change → Part
  apply : Change → Record → Record
  Holds : Change → Record → Prop
  holds_apply : ∀ change record, Holds change (apply change record)
  holds_other : ∀ change other record, part change ≠ part other → Holds other record →
    Holds other (apply change record)

variable {Record Change Part Shared Operation Start Choice : Type}

/-- How the operations of a system change the record: a step leaves it alone, or
it makes the change of its operation and completes it. -/
structure Protocol (changes : Changes Record Change Part)
    (system : System Shared Operation Start Choice)
    (guard : Shared → Operation → Choice → Prop) where
  Stands : Shared → Record → Prop
  Sound : Operation → Prop
  part : Operation → Part
  completed : Operation → Option Change
  part_completed : ∀ operation change, completed operation = some change →
    changes.part change = part operation
  launched : ∀ start, Sound (system.launch start) ∧ completed (system.launch start) = none
  advanced : ∀ choice shared operation record after next, Stands shared record →
    Sound operation → guard shared operation choice →
    system.advance choice shared operation = some (after, next) →
    ∃ stepped, next = some stepped ∧ Sound stepped ∧ part stepped = part operation ∧
      (Stands after record ∧ completed stepped = none ∨
        ∃ change, Stands after (changes.apply change record) ∧ completed stepped = some change)

namespace Protocol

variable {changes : Changes Record Change Part} {system : System Shared Operation Start Choice}
  {guard : Shared → Operation → Choice → Prop} (protocol : Protocol changes system guard)

/-- The operations have their parts to themselves. -/
def Apart (running : List Operation) : Prop := (running.map protocol.part).Nodup

/-- Every completed change holds. -/
def Kept (running : List Operation) (record : Record) : Prop :=
  ∀ operation ∈ running, ∀ change, protocol.completed operation = some change →
    changes.Holds change record

structure Consistent (pool : Pool Shared Operation) : Prop where
  sound : ∀ operation ∈ pool.running, protocol.Sound operation
  stands : ∃ record, protocol.Stands pool.shared record ∧
    (protocol.Apart pool.running → protocol.Kept pool.running record)

variable {protocol}

theorem Kept.launch {running : List Operation} {record : Record}
    (kept : protocol.Kept running record) (start : Start) :
    protocol.Kept (running ++ [system.launch start]) record := by
  intro operation member change completed
  rcases List.mem_append.mp member with old | new
  · exact kept operation old change completed
  · rw [List.mem_singleton.mp new, (protocol.launched start).2] at completed
    cases completed

theorem Consistent.launch {pool : Pool Shared Operation} (consistent : protocol.Consistent pool)
    (start : Start) :
    protocol.Consistent { pool with running := pool.running ++ [system.launch start] } := by
  rcases consistent.stands with ⟨record, stands, kept⟩
  constructor
  · intro operation member
    rcases List.mem_append.mp member with old | new
    · exact consistent.sound operation old
    · rw [List.mem_singleton.mp new]
      exact (protocol.launched start).1
  · refine ⟨record, stands, ?_⟩
    intro apart
    rw [Apart, List.map_append] at apart
    exact (kept apart.of_append_left).launch start

/-- What one step of an operation does to the changes that are complete. -/
theorem Kept.advance {front behind : List Operation} {operation stepped : Operation}
    {record after : Record} (kept : protocol.Kept (front ++ operation :: behind) record)
    (apart : protocol.Apart (front ++ stepped :: behind))
    (result : after = record ∧ protocol.completed stepped = none ∨
      ∃ change, after = changes.apply change record ∧
        protocol.completed stepped = some change) :
    protocol.Kept (front ++ stepped :: behind) after := by
  have others : ∀ other ∈ front ++ behind, ∀ change, protocol.completed other = some change →
      changes.Holds change record := by
    intro other member
    apply kept other
    rcases List.mem_append.mp member with before | later
    · exact List.mem_append_left _ before
    · exact List.mem_append_right _ (List.mem_cons_of_mem _ later)
  have split : ∀ other ∈ front ++ stepped :: behind, other = stepped ∨
      other ∈ front ++ behind := by
    intro other member
    rcases List.mem_append.mp member with before | later
    · exact .inr (List.mem_append_left _ before)
    · rcases List.mem_cons.mp later with same | later
      · exact .inl same
      · exact .inr (List.mem_append_right _ later)
  have different : ∀ other ∈ front ++ behind,
      protocol.part stepped ≠ protocol.part other := by
    intro other member same
    rw [Apart, List.map_append, List.map_cons] at apart
    have lone := (List.nodup_middle.mp apart).notMem
    rw [← List.map_append, same] at lone
    exact lone (List.mem_map_of_mem member)
  intro other member change completed
  rcases result with ⟨same, unfinished⟩ | ⟨made, changed, finished⟩
  · rw [same]
    rcases split other member with equal | elsewhere
    · rw [equal, unfinished] at completed
      cases completed
    · exact others other elsewhere change completed
  · rw [changed]
    rcases split other member with equal | elsewhere
    · rw [equal, finished, Option.some.injEq] at completed
      rw [← completed]
      exact changes.holds_apply made record
    · apply changes.holds_other
      · rw [protocol.part_completed stepped made finished,
          protocol.part_completed other change completed]
        exact different other elsewhere
      · exact others other elsewhere change completed

theorem Consistent.step {before after : Pool Shared Operation} {label : Label Start Choice}
    (consistent : protocol.Consistent before)
    (step : system.GuardedStep guard before label after) : protocol.Consistent after := by
  cases label with
  | launch start =>
      rw [System.step_launch step.step]
      exact consistent.launch start
  | advance index choice =>
      rcases System.step_advance step.step with
        ⟨front, operation, behind, next, found, split, running, advanced⟩
      rcases consistent.stands with ⟨record, stands, kept⟩
      have member := List.mem_of_getElem? found
      rcases protocol.advanced choice before.shared operation record after.shared next stands
        (consistent.sound operation member) (step.guarded index choice operation rfl found)
        advanced with ⟨moved, rfl, sound, samePart, result⟩
      have there : after.running = front ++ moved :: behind := by
        rw [running]
        simp
      have apartBefore : protocol.Apart after.running → protocol.Apart before.running := by
        intro apart
        rw [Apart, there, List.map_append, List.map_cons, samePart] at apart
        rwa [Apart, split, List.map_append, List.map_cons]
      have keptAfter : ∀ record', (record' = record ∧ protocol.completed moved = none ∨
          ∃ change, record' = changes.apply change record ∧
            protocol.completed moved = some change) →
          protocol.Apart after.running → protocol.Kept after.running record' := by
        intro record' result apart
        have keptBefore := kept (apartBefore apart)
        rw [split] at keptBefore
        rw [there] at apart ⊢
        exact keptBefore.advance apart result
      constructor
      · intro other otherMember
        have others := consistent.sound
        rw [split] at others
        rw [there] at otherMember
        rcases List.mem_append.mp otherMember with inFront | later
        · exact others other (List.mem_append_left _ inFront)
        · rcases List.mem_cons.mp later with same | later
          · rw [same]
            exact sound
          · exact others other (List.mem_append_right _ (List.mem_cons_of_mem _ later))
      · rcases result with ⟨standsAfter, unfinished⟩ | ⟨change, standsAfter, finished⟩
        · exact ⟨record, standsAfter, keptAfter record (.inl ⟨rfl, unfinished⟩)⟩
        · exact ⟨_, standsAfter, keptAfter _ (.inr ⟨change, rfl, finished⟩)⟩

/-- The update rule. -/
theorem run_holds (protocol : Protocol changes system guard) {shared : Shared} {record : Record}
    (initially : protocol.Stands shared record) {labels : List (Label Start Choice)}
    {finish : Pool Shared Operation}
    (run : Run (system.GuardedStep guard) ⟨shared, []⟩ labels finish) :
    ∃ record, protocol.Stands finish.shared record ∧
      (protocol.Apart finish.running → protocol.Kept finish.running record) := by
  have rule := run.preserves protocol.Consistent
  have consistent : protocol.Consistent finish := by
    apply rule
    · refine ⟨by simp, record, initially, ?_⟩
      intro _ operation member
      cases member
    · intro before label after holds step
      exact holds.step step
  exact consistent.stands

end Protocol

end Vpopmail.Updates
