import Mathlib.Data.Fintype.Card
import Mathlib.Logic.Hydra
import Mathlib.Order.WellFounded
import Vpopmail.Foundation.Following

/-! # Lists of work

The first item of a list is taken off, and the items that it leads to are put behind the
others. The work is done if no item leads back to itself. If what an item leads to does not
depend on the work before it, the work ends only then, or at an item that fails.
-/

namespace Vpopmail.Worklist

open Relation Following

variable {Item : Type}

/-! ## Cycles -/

section

variable {leads : Item → Item → Prop}

end

/-! ## Work that is done -/

/-- One item is replaced by some that it leads to. -/
def Serves (leads : Item → Item → Prop) (after before : List Item) : Prop :=
  ∃ item rest added, before = item :: rest ∧ after = rest ++ added ∧
    ∀ other ∈ added, leads other item

section

variable (next : Item → Option (List Item))

def LeadsTo (other item : Item) : Prop := ∃ added, next item = some added ∧ other ∈ added

variable {next}

end

end Vpopmail.Worklist
