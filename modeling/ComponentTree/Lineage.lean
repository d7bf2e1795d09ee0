/-
# Types and lineages

A component type has a name and default values for properties.  Types inherit: the lineage
of a component lists its type, the type that one extends, and so on to the base.  A property
that a component does not have itself takes the default of the nearest type that declares
one (`Lineage.default?`).
-/
import ComponentTree.Json.Value

namespace ComponentTree

open Json (Value)

/-- A component type. -/
structure ComponentType where
  /-- The name, by which selectors ask for the type. -/
  name : String
  /-- The values of properties that components of the type do not have themselves. -/
  defaults : Dict Value
deriving BEq, Inhabited

/-- The types of a component, most derived first. -/
structure Lineage where
  types : List ComponentType
deriving BEq, Inhabited

namespace Lineage

/-- The lineage of a component without a type. -/
def untyped : Lineage := ⟨[]⟩

/-- The lineage of a type that extends the first type of another lineage. -/
def extend (base : Lineage) (type : ComponentType) : Lineage := ⟨type :: base.types⟩

/-- The names of the types, most derived first. -/
def names (l : Lineage) : List String := l.types.map (·.name)

/-- The type of which the component is an instance. -/
def mostDerived? (l : Lineage) : Option ComponentType := l.types.head?

/-- Whether a type of this name is in the lineage. -/
def contains (l : Lineage) (name : String) : Bool := l.names.contains name

/-- The default of a property: that of the nearest type which declares one. -/
def default? (l : Lineage) (key : String) : Option Value :=
  l.types.findSome? fun type => type.defaults.get? key

/-- How many types the lineage has. -/
def size (l : Lineage) : Nat := l.types.length

/-- Whether the component has no type. -/
def isEmpty (l : Lineage) : Bool := l.types.isEmpty

@[simp] theorem contains_iff {l : Lineage} {name : String} :
    l.contains name = true ↔ name ∈ l.names := by
  simp [contains]

end Lineage

end ComponentTree
