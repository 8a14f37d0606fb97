/-! # A database connection

Statements on a connection take effect at once, or with the others of a transaction at its
end. A statement that fails in a transaction makes all later ones fail until the end, which
then takes everything back.
-/

namespace Vpopmail.Database

/-- What a statement makes of the contents, if it can be executed on them. -/
abbrev Statement (Contents : Type) := Contents → Option Contents

inductive Transaction (Contents : Type)
  | closed
  | active (working : Contents)
  | failed
  deriving DecidableEq

structure Connection (Contents : Type) where
  committed : Contents
  transaction : Transaction Contents
  deriving DecidableEq

section Connection

variable {Contents : Type}

/-- Whether a statement is executed: the server accepts it, and it can be. -/
def executed (accepted : Bool) (statement : Statement Contents) (contents : Contents) :
    Option Contents :=
  if accepted then statement contents else none

/-- A statement. -/
def exec (accepted : Bool) (statement : Statement Contents) (connection : Connection Contents) :
    Bool × Connection Contents :=
  match connection.transaction with
  | .closed =>
      match executed accepted statement connection.committed with
      | some contents => (true, ⟨contents, .closed⟩)
      | none => (false, connection)
  | .active working =>
      match executed accepted statement working with
      | some contents => (true, { connection with transaction := .active contents })
      | none => (false, { connection with transaction := .failed })
  | .failed => (false, connection)

/-- A query. -/
def query {Rows : Type} (accepted : Bool) (read : Contents → Option Rows)
    (connection : Connection Contents) : Option Rows × Connection Contents :=
  match connection.transaction with
  | .closed => (if accepted then read connection.committed else none, connection)
  | .active working =>
      match if accepted then read working else none with
      | some rows => (some rows, connection)
      | none => (none, { connection with transaction := .failed })
  | .failed => (none, connection)

/-- `BEGIN`, which does nothing inside of a transaction. -/
def begin (accepted : Bool) (connection : Connection Contents) : Bool × Connection Contents :=
  match connection.transaction with
  | .closed =>
      if accepted then (true, { connection with transaction := .active connection.committed })
      else (false, connection)
  | .active _ =>
      if accepted then (true, connection) else (false, { connection with transaction := .failed })
  | .failed => (false, connection)

/-- `END`. After a failed statement it rolls back, and says so with success. -/
def commit (accepted : Bool) (connection : Connection Contents) : Bool × Connection Contents :=
  match connection.transaction with
  | .closed => (accepted, connection)
  | .active working =>
      if accepted then (true, ⟨working, .closed⟩)
      else (false, { connection with transaction := .closed })
  | .failed => (accepted, { connection with transaction := .closed })

/-! ## Outside of transactions -/

variable {accepted : Bool} {statement : Statement Contents} {contents after : Contents}

theorem exec_closed_some (ran : executed accepted statement contents = some after) :
    exec accepted statement ⟨contents, .closed⟩ = (true, ⟨after, .closed⟩) := by
  rw [exec]
  simp only [ran]

theorem exec_closed_none (refused : executed accepted statement contents = none) :
    exec accepted statement ⟨contents, .closed⟩ = (false, ⟨contents, .closed⟩) := by
  rw [exec]
  simp only [refused]

/-- A statement on other rows. -/
theorem exec_closed_keeps {Rows : Type} {rows : Contents → Rows} (accepted : Bool)
    (keeps : ∀ after, statement contents = some after → rows after = rows contents) :
    ∃ after, (exec accepted statement ⟨contents, .closed⟩).2 = ⟨after, .closed⟩ ∧
      rows after = rows contents := by
  cases ran : executed accepted statement contents with
  | none => exact ⟨contents, by rw [exec_closed_none ran], rfl⟩
  | some after =>
      have ran_statement : statement contents = some after := by
        rw [executed] at ran
        split at ran
        · exact ran
        · cases ran
      exact ⟨after, by rw [exec_closed_some ran], keeps after ran_statement⟩

/-! ## Transactions -/

variable {working : Contents}

theorem exec_active_some (ran : executed accepted statement working = some after) :
    exec accepted statement ⟨contents, .active working⟩ = (true, ⟨contents, .active after⟩) := by
  rw [exec]
  simp only [ran]

theorem exec_active_none (refused : executed accepted statement working = none) :
    exec accepted statement ⟨contents, .active working⟩ = (false, ⟨contents, .failed⟩) := by
  rw [exec]
  simp only [refused]

theorem exec_failed :
    exec accepted statement ⟨contents, .failed⟩ = (false, ⟨contents, .failed⟩) := rfl

theorem begin_closed :
    begin accepted ⟨contents, .closed⟩ =
      if accepted then (true, ⟨contents, .active contents⟩) else (false, ⟨contents, .closed⟩) :=
  rfl

theorem commit_active :
    commit accepted ⟨contents, .active working⟩ =
      if accepted then (true, ⟨working, .closed⟩) else (false, ⟨contents, .closed⟩) := rfl

theorem executed_of_some (ran : executed accepted statement contents = some after) :
    accepted = true ∧ statement contents = some after := by
  rw [executed] at ran
  split at ran
  · rename_i yes
    exact ⟨yes, ran⟩
  · cases ran

end Connection

/-! ## Truthful calls -/

section Truthful

variable {Contents Rows : Type}

/-- A call that returns 0 exactly when it has changed the rows as it should, leaves them
alone otherwise, and leaves no transaction open. A change that is not possible is `none`. -/
structure Truthful (rows : Contents → Rows) (change : Rows → Option Rows) (before : Contents)
    (result : Int × Connection Contents) : Prop where
  closed : result.2.transaction = .closed
  done : result.1 = 0 → change (rows before) = some (rows result.2.committed)
  undone : result.1 ≠ 0 → rows result.2.committed = rows before

variable {rows : Contents → Rows} {change : Rows → Option Rows} {before after : Contents}

/-- A call that fails in front of its first statement. -/
theorem Truthful.refused {code : Int} (failed : code ≠ 0) :
    Truthful rows change before (code, ⟨before, .closed⟩) :=
  ⟨rfl, fun zero => absurd zero failed, fun _ => rfl⟩

theorem truthful_zero_iff :
    Truthful rows change before (0, ⟨after, .closed⟩) ↔
      change (rows before) = some (rows after) := by
  constructor
  · exact fun truthful => truthful.done rfl
  · exact fun done => ⟨rfl, fun _ => done, fun other => absurd rfl other⟩

theorem truthful_nonzero_iff {code : Int} (failed : code ≠ 0) :
    Truthful rows change before (code, ⟨after, .closed⟩) ↔ rows after = rows before := by
  constructor
  · exact fun truthful => truthful.undone failed
  · exact fun undone => ⟨rfl, fun zero => absurd zero failed, fun _ => undone⟩

/-- A call that leaves a transaction behind is not truthful. -/
theorem not_truthful_of_open {code : Int} {connection : Connection Contents}
    (other : connection.transaction ≠ .closed) :
    ¬ Truthful rows change before (code, connection) :=
  fun truthful => other truthful.closed

end Truthful

end Vpopmail.Database
