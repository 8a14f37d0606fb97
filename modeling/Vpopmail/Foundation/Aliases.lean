import Mathlib.Data.Set.Insert

/-! # Names and aliases

A directory binds names to data. A binding is either of a name of its own, or of
an alias that stands for such a name and repeats its data.
-/

namespace Vpopmail.Aliases

/-- The data of a name, and the name that it stands for. -/
structure Binding (Name Data : Type) where
  name : Name
  root : Name
  data : Data
  deriving DecidableEq

variable {Name Data : Type}

/-- The binding that an alias relies on. -/
def Binding.own (binding : Binding Name Data) : Binding Name Data :=
  ⟨binding.root, binding.root, binding.data⟩

/-- No alias dangles: the name that it stands for is bound to the same data. -/
def Rooted (directory : Set (Binding Name Data)) : Prop :=
  ∀ binding ∈ directory, binding.own ∈ directory

/-- A name that can be looked up is bound once. -/
def Functional (asked : Set Name) (directory : Set (Binding Name Data)) : Prop :=
  ∀ binding ∈ directory, ∀ other ∈ directory, binding.name ∈ asked →
    binding.name = other.name → binding = other

/-- What a directory keeps when a name is deleted with all of its aliases. -/
def deleted (directory : Set (Binding Name Data)) (name : Name) : Set (Binding Name Data) :=
  {binding ∈ directory | binding.name ≠ name ∧ binding.root ≠ name}

variable {asked : Set Name} {directory : Set (Binding Name Data)}

theorem Rooted.deleted (rooted : Rooted directory) (name : Name) :
    Rooted (deleted directory name) := by
  rintro binding ⟨member, -, other⟩
  exact ⟨rooted binding member, other, other⟩

theorem Functional.insert (functional : Functional asked directory)
    {binding : Binding Name Data}
    (fresh : binding.name ∈ asked → ∀ other ∈ directory, other.name ≠ binding.name) :
    Functional asked (insert binding directory) := by
  rintro first (rfl | member) second (rfl | known) wanted same
  · rfl
  · exact absurd same.symm (fresh wanted second known)
  · exact absurd same (fresh (same ▸ wanted) first member)
  · exact functional first member second known wanted same

theorem Functional.deleted (functional : Functional asked directory) (name : Name) :
    Functional asked (deleted directory name) :=
  fun first member second known => functional first member.1 second known.1

/-- A name that others stand for stands for itself. -/
theorem Rooted.eq_own (rooted : Rooted directory) (functional : Functional asked directory)
    {binding other : Binding Name Data} (member : binding ∈ directory) (known : other ∈ directory)
    (wanted : binding.root ∈ asked) (named : other.name = binding.root) : other = binding.own :=
  functional other known _ (rooted binding member) (named ▸ wanted) named

/-- The aliases of a name have one and the same data. -/
theorem Rooted.data_eq (rooted : Rooted directory) (functional : Functional asked directory)
    {binding other : Binding Name Data} (member : binding ∈ directory) (known : other ∈ directory)
    (wanted : binding.root ∈ asked) (same : binding.root = other.root) :
    binding.data = other.data := by
  have own : other.own = binding.own :=
    rooted.eq_own functional member (rooted other known) wanted same.symm
  have data := congrArg Binding.data own
  exact data.symm

/-- Nothing stands for an alias. -/
theorem Rooted.root_ne (rooted : Rooted directory) (functional : Functional asked directory)
    {binding other : Binding Name Data} (member : binding ∈ directory) (known : other ∈ directory)
    (wanted : other.root ∈ asked) (aliased : binding.name ≠ binding.root) :
    other.root ≠ binding.name := by
  intro same
  have own := rooted.eq_own functional known member wanted same.symm
  exact aliased (by rw [own, Binding.own])

end Vpopmail.Aliases
