import Mathlib.Data.Fintype.EquivFin
import Mathlib.Data.Set.Finite.List
import Vpopmail.Foundation.Following
import Vpopmail.Group

/-! # How far `group_load` goes

A member file names the owner, and `group_load` goes on with whatever account it names.
Only accounts have member files, so finitely many owners are named; but the files of
some accounts may name each other in a circle.
-/

namespace Vpopmail.Groups

open Vpopmail Text Following

/-! ## The owner that is named -/

/-- The count of members in a data file. -/
def countOf (datafile text : List Char) : Option Int :=
  (readSettings datafile text).map fun (numbers, _) => Decimal.atoi numbers.1

end Vpopmail.Groups
